import AlteraWorkshops.Cnn.Filters

/-! What a filter makes of a delivered image: the same positions three edges later, and the
values that its process computes, pixel after pixel. -/

namespace AlteraWorkshops.Cnn

variable {σ : Type*} {process : σ → Sample → σ × Sample} {v : σ} {g : Format}
  {inp : ℕ → Sample} {lead arrive : ℕ → ℕ} {word : ℕ → ℕ → CnnValues} {k t : ℕ}

/-- A process that hands the stream on and takes no note of edges without data. -/
structure Streams (process : σ → Sample → σ × Sample) : Prop where
  stream : ∀ v i, (process v i).2.stream = i.stream
  quiet : ∀ v i, i.stream.dataValid = false → (process v i).1 = v

/-- The variables when the process gets the sample of edge `t`. -/
def varsAt (process : σ → Sample → σ × Sample) (v : σ) (inp : ℕ → Sample) (t : ℕ) : σ :=
  (filterRun buffered process v inp (t + 1)).vars

/-- The values computed for the sample of edge `t`. -/
def processed (process : σ → Sample → σ × Sample) (v : σ) (inp : ℕ → Sample) (t : ℕ) : Sample :=
  (process (varsAt process v inp t) (inp t)).2

/-- The output is what the process made of the sample three edges before. -/
theorem filterOutput_eq (t : ℕ) :
    filterOutput buffered process v inp (t + 3) = processed process v inp t := rfl

theorem varsAt_succ (t : ℕ) :
    varsAt process v inp (t + 1) = (process (varsAt process v inp t) (inp t)).1 := rfl

/-- Without data in between the variables stay. -/
theorem varsAt_of_quiet (hp : Streams process) {a b : ℕ} (hab : a ≤ b)
    (h : ∀ t, a ≤ t → t < b → (inp t).stream.dataValid = false) :
    varsAt process v inp b = varsAt process v inp a := by
  induction b, hab using Nat.le_induction with
  | base => rfl
  | succ b hab ih =>
    rw [varsAt_succ, hp.quiet _ _ (h b hab (Nat.lt_succ_self b))]
    exact ih fun t h1 h2 => h t h1 (by omega)

/-- Three edges later the image is delivered with the values of the process. -/
theorem filterOutput_delivers (hp : Streams process) (hd : Delivers g inp lead arrive word) :
    Delivers g (filterOutput buffered process v inp) (fun k => lead k + 3)
      (fun k => arrive k + 3) (fun k f => (processed process v inp (arrive k + f)).data) := by
  refine ⟨fun k => Nat.add_le_add_right (hd.lead_le k) 3, fun k => ?_, fun k t h1 h2 => ?_,
    fun k f hf => ?_⟩
  · have h := hd.room k
    omega
  · obtain ⟨u, rfl⟩ : ∃ u, t = u + 3 := ⟨t - 3, by omega⟩
    rw [filterOutput_eq, processed, hp.stream, hd.stream k u (by omega) (by omega)]
    simp only [Nat.add_sub_add_right, Nat.add_le_add_iff_right, Nat.add_right_comm _ 3,
      Nat.add_lt_add_iff_right]
  · rw [show arrive k + 3 + f = arrive k + f + 3 by omega, filterOutput_eq]

/-- Pixel after pixel, the variables are those the pixel before left behind. -/
theorem varsAt_next (hp : Streams process) (hd : Delivers g inp lead arrive word)
    (hc : g.cycles = 1) (k : ℕ) :
    varsAt process v inp (arrive (k + 1)) =
      (process (varsAt process v inp (arrive k)) (inp (arrive k))).1 := by
  have hroom := hd.room k
  have hlead := hd.lead_le k
  have hlead' := hd.lead_le (k + 1)
  have hroom' := hd.room (k + 1)
  rw [← varsAt_succ]
  refine varsAt_of_quiet hp (by omega) fun t h1 h2 => ?_
  rcases Nat.lt_or_ge t (lead (k + 1)) with hlt | hge
  · rw [hd.stream k t (by omega) hlt]
    exact decide_eq_false (by omega)
  · rw [hd.stream (k + 1) t hge (by omega)]
    exact decide_eq_false (by omega)

/-! ### Pixel by pixel -/

/-- The variables before pixel `k` of the pixels `x`. -/
def filterVars (process : σ → Sample → σ × Sample) (v : σ) (x : ℕ → Sample) : ℕ → σ
  | 0 => v
  | k + 1 => (process (filterVars process v x k) (x k)).1

/-- What the process makes of the pixels `x`, one after the other. -/
def filterImage (process : σ → Sample → σ × Sample) (v : σ) (x : ℕ → Sample) (k : ℕ) : Sample :=
  (process (filterVars process v x k) (x k)).2

/-- The edges between the pixels have no influence on the variables. -/
theorem varsAt_arrive (hp : Streams process) (hd : Delivers g inp lead arrive word)
    (hc : g.cycles = 1) (hq : Quiet inp lead) (k : ℕ) :
    varsAt process v inp (arrive k) = filterVars process v (fun k => inp (arrive k)) k := by
  induction k with
  | zero =>
    have hlead := hd.lead_le 0
    have hroom := hd.room 0
    have hfirst : varsAt process v inp 0 = v := hp.quiet v .initial rfl
    refine (varsAt_of_quiet hp (Nat.zero_le _) fun t _ ht => ?_).trans hfirst
    rcases Nat.lt_or_ge t (lead 0) with hlt | hge
    · exact (hq t hlt).1
    · rw [hd.stream 0 t hge (by omega)]
      exact decide_eq_false (by omega)
  | succ k ih =>
    rw [varsAt_next hp hd hc, ih]
    rfl

theorem filterOutput_arrive (hp : Streams process) (hd : Delivers g inp lead arrive word)
    (hc : g.cycles = 1) (hq : Quiet inp lead) (k : ℕ) :
    filterOutput buffered process v inp (arrive k + 3) =
      filterImage process v (fun k => inp (arrive k)) k := by
  rw [filterOutput_eq, processed, varsAt_arrive hp hd hc hq]
  rfl

theorem filterOutput_quiet (hp : Streams process) (hq : Quiet inp lead) :
    Quiet (filterOutput buffered process v inp) (fun k => lead k + 3) := by
  intro t ht
  rcases t with _ | _ | _ | t
  · exact ⟨rfl, rfl⟩
  · exact ⟨rfl, rfl⟩
  · show (process _ _).2.stream.dataValid = false ∧ (process _ _).2.stream.column = 0
    rw [hp.stream]
    exact ⟨rfl, rfl⟩
  · rw [filterOutput_eq, processed, hp.stream]
    exact hq t (by dsimp only at ht; omega)

/-! ### The filters of the network -/

theorem inverseProcess_streams (n : ℕ) (m : OneAi.CnnValue) : Streams (inverseProcess n m) :=
  ⟨fun _ _ => rfl, fun _ _ _ => rfl⟩

theorem thresholdProcess_streams (c : ThresholdGenerics) : Streams (thresholdProcess c) :=
  ⟨fun _ _ => rfl, fun _ _ _ => rfl⟩

theorem normalizeProcess_streams (c : NormalizeGenerics) : Streams (normalizeProcess c) :=
  ⟨fun _ _ => rfl, fun v i h => by simp [normalizeProcess, h]⟩

end AlteraWorkshops.Cnn
