import AlteraWorkshops.OneAi.PixelEdge

/-! Where the words come from that the extraction unpacks. The reader leaves its
read state one cycle after the slave accepted the read, and in that cycle it looks
at `waitrequest` alone: a slave that keeps it low has its data bus taken a second
time, outside any accept cycle. -/

namespace AlteraWorkshops.OneAi

open Clocked

variable {g : Generics} {inp : ℕ → Ports} {t u : ℕ}

/-- The extraction state takes pixel bytes from `current_word` in this cycle; with
all three bytes cached it takes none. -/
def takesWord (s : State) (i : Ports) : Bool :=
  i.resetN && s.pixel.state == .extractPixelState && s.pixel.cacheState != 3

/-- `current_word` at cycle `u` is the data of the latest accepted read. -/
def FromAcceptedRead (g : Generics) (inp : ℕ → Ports) (u : ℕ) : Prop :=
  ∃ t, t < u ∧ accepts (run g inp t) (inp t) = true ∧
    (∀ v, t < v → v < u → accepts (run g inp v) (inp v) = false) ∧
    (run g inp u).pixel.currentWord = (inp t).avmReaddata

theorem accepts_iff {s : State} {i : Ports} :
    accepts s i = true ↔ s.pixel.avmRead = true ∧ i.avmWaitrequest = false := by
  simp [accepts]

theorem takesWord_iff {s : State} {i : Ports} :
    takesWord s i = true ↔
      i.resetN = true ∧ s.pixel.state = .extractPixelState ∧ s.pixel.cacheState ≠ 3 := by
  simp [takesWord, and_assoc]

/-- No read is issued for a pixel whose bytes are all cached. -/
theorem readWord_cacheState (g : Generics) (inp : ℕ → Ports) (t : ℕ)
    (h : (run g inp t).pixel.state = .readWordState) : (run g inp t).pixel.cacheState ≠ 3 := by
  revert h
  refine pixel_invariant (P := fun r => r.state = .readWordState → r.cacheState ≠ 3)
    (by simp [PixelRegs.initial]) (fun s i r he ih => ?_) t
  cases he with
  | reset | leave | recapture | extract | emitLast | emitCached => intro h; cases h
  | start => exact fun _ => show (0 : BitVec 2) ≠ 3 by decide
  | emitRead _ _ _ h3 => exact fun _ => h3
  | wait hs | accept hs => exact fun _ => ih hs
  | idle hs => exact fun h => absurd (hs.symm.trans h) (by decide)
  | delay hs => exact fun h => absurd (hs.symm.trans h) (by decide)

/-- The cycle after an acceptance: still the read state, the request withdrawn. -/
theorem accept_next (ha : accepts (run g inp t) (inp t) = true) (hn : (inp t).resetN = true) :
    (run g inp (t + 1)).pixel.state = .readWordState ∧
      (run g inp (t + 1)).pixel.avmRead = false ∧
      (run g inp (t + 1)).pixel.currentWord = (inp t).avmReaddata := by
  obtain ⟨hr, hw⟩ := accepts_iff.mp ha
  have hs := avmRead_state g inp t hr
  rw [run_succ, step_pixel]
  simp [pixelProcess, hn, hs, hr, hw]

/-- The cycle after the request is withdrawn: the extraction state, with the word
overwritten if `waitrequest` is low. -/
theorem withdrawn_next (hs : (run g inp t).pixel.state = .readWordState)
    (hr : (run g inp t).pixel.avmRead = false) (hn : (inp t).resetN = true) :
    (run g inp (t + 1)).pixel.state = .extractPixelState ∧
      (run g inp (t + 1)).pixel.cacheState = (run g inp t).pixel.cacheState ∧
      (run g inp (t + 1)).pixel.currentWord =
        if (inp t).avmWaitrequest then (run g inp t).pixel.currentWord
        else (inp t).avmReaddata := by
  rw [run_succ, step_pixel]
  cases hw : (inp t).avmWaitrequest <;> simp [pixelProcess, hn, hs, hr, hw]

/-- A reset leaves the idle state only. -/
theorem resetN_of_busy {s : State} {i : Ports} (h : (pixelProcess g s i).state ≠ .idleState) :
    i.resetN = true := by
  by_contra hn
  apply h
  rw [Bool.not_eq_true] at hn
  simp only [pixelProcess, hn, Bool.not_false, ↓reduceIte]
  rfl

/-- The withdrawn request of the read state was accepted in the cycle before. -/
theorem withdrawn_prev (hs : (run g inp t).pixel.state = .readWordState)
    (hr : (run g inp t).pixel.avmRead = false) :
    ∃ v, t = v + 1 ∧ accepts (run g inp v) (inp v) = true ∧ (inp v).resetN = true := by
  cases t with
  | zero => cases hs
  | succ v =>
    refine ⟨v, rfl, ?_⟩
    rw [run_succ, step_pixel] at hs hr
    have he := pixelProcess_edge g (run g inp v) (inp v)
    have hn : (inp v).resetN = true := resetN_of_busy (g := g) (by rw [hs]; decide)
    generalize pixelProcess g (run g inp v) (inp v) = r at he hs hr
    cases he with
    | reset | leave | recapture | extract | emitLast | emitCached => cases hs
    | start | emitRead => cases hr
    | idle h => exact absurd (h.symm.trans hs) (by decide)
    | delay h => exact absurd (h.symm.trans hs) (by decide)
    | wait _ h => exact absurd (hr.symm.trans h) (by decide)
    | accept _ hr' hw => exact ⟨accepts_iff.mpr ⟨hr', hw⟩, hn⟩

/-- A word is taken exactly two cycles after its acceptance. -/
theorem takesWord_prev (h : takesWord (run g inp u) (inp u) = true) :
    ∃ t, u = t + 2 ∧ accepts (run g inp t) (inp t) = true ∧
      (inp t).resetN = true ∧ (inp (t + 1)).resetN = true := by
  obtain ⟨-, hs, h3⟩ := takesWord_iff.mp h
  cases u with
  | zero => cases hs
  | succ v =>
    rw [run_succ, step_pixel] at hs h3
    have he := pixelProcess_edge g (run g inp v) (inp v)
    have hn : (inp v).resetN = true := resetN_of_busy (g := g) (by rw [hs]; decide)
    generalize pixelProcess g (run g inp v) (inp v) = r at he hs h3
    have hread : (run g inp v).pixel.state = .readWordState ∧
        (run g inp v).pixel.avmRead = false := by
      cases he with
      | reset | start | extract | emitLast | emitRead => cases hs
      | idle h => exact absurd (h.symm.trans hs) (by decide)
      | wait h => exact absurd (h.symm.trans hs) (by decide)
      | accept h => exact absurd (h.symm.trans hs) (by decide)
      | delay h => exact absurd (h.symm.trans hs) (by decide)
      | emitCached _ _ _ hc => exact absurd hc h3
      | leave h hr => exact ⟨h, hr⟩
      | recapture h hr => exact ⟨h, hr⟩
    obtain ⟨t, rfl, ha, hn'⟩ := withdrawn_prev hread.1 hread.2
    exact ⟨t, rfl, ha, hn', hn⟩

theorem currentWord_after_accept (ha : accepts (run g inp t) (inp t) = true)
    (hn : (inp t).resetN = true) (hn' : (inp (t + 1)).resetN = true) :
    (run g inp (t + 2)).pixel.currentWord =
      if (inp (t + 1)).avmWaitrequest then (inp t).avmReaddata else (inp (t + 1)).avmReaddata := by
  obtain ⟨hs, hr, hw⟩ := accept_next ha hn
  rw [(withdrawn_next hs hr hn').2.2, hw]

theorem accept_takesWord (ha : accepts (run g inp t) (inp t) = true) (hn : (inp t).resetN = true)
    (hn1 : (inp (t + 1)).resetN = true) (hn2 : (inp (t + 2)).resetN = true) :
    takesWord (run g inp (t + 2)) (inp (t + 2)) = true := by
  obtain ⟨hs, hr, -⟩ := accept_next ha hn
  obtain ⟨hx, hc, -⟩ := withdrawn_next hs hr hn1
  exact takesWord_iff.mpr ⟨hn2, hx, hc ▸ readWord_cacheState g inp (t + 1) hs⟩

theorem fromAcceptedRead_iff (ha : accepts (run g inp t) (inp t) = true)
    (hn : (inp t).resetN = true) (hn' : (inp (t + 1)).resetN = true) :
    FromAcceptedRead g inp (t + 2) ↔
      (inp (t + 1)).avmWaitrequest = true ∨ (inp (t + 1)).avmReaddata = (inp t).avmReaddata := by
  have hword := currentWord_after_accept ha hn hn'
  have hnext : accepts (run g inp (t + 1)) (inp (t + 1)) = false := by
    simp [accepts, (accept_next ha hn).2.1]
  have hiff : (run g inp (t + 2)).pixel.currentWord = (inp t).avmReaddata ↔
      (inp (t + 1)).avmWaitrequest = true ∨ (inp (t + 1)).avmReaddata = (inp t).avmReaddata := by
    rw [hword]
    split_ifs with hw <;> simp [hw]
  rw [← hiff]
  constructor
  · rintro ⟨v, hv, hav, hlate, heq⟩
    -- an acceptance before `t` is not the latest, and `t + 1` accepts nothing
    rcases Nat.lt_trichotomy v t with hlt | rfl | hgt
    · rw [hlate t hlt (by omega)] at ha
      cases ha
    · exact heq
    · rw [show v = t + 1 by omega, hnext] at hav
      cases hav
  · intro heq
    refine ⟨t, by omega, ha, fun v h1 h2 => ?_, heq⟩
    rw [show v = t + 1 by omega]
    exact hnext

/-- In a run, all words are taken from accept cycles exactly when every slave
acceptance is followed by a cycle with `waitrequest` high or the data bus unchanged
(resets that cancel the extraction apart). -/
theorem words_accepted_iff (g : Generics) (inp : ℕ → Ports) :
    (∀ u, takesWord (run g inp u) (inp u) = true → FromAcceptedRead g inp u) ↔
      ∀ t, accepts (run g inp t) (inp t) = true → (inp t).resetN = true →
        (inp (t + 1)).resetN = true → (inp (t + 2)).resetN = true →
        (inp (t + 1)).avmWaitrequest = true ∨
          (inp (t + 1)).avmReaddata = (inp t).avmReaddata := by
  constructor
  · intro h t ha hn hn1 hn2
    exact (fromAcceptedRead_iff ha hn hn1).mp (h (t + 2) (accept_takesWord ha hn hn1 hn2))
  · intro h u hu
    obtain ⟨t, rfl, ha, hn, hn1⟩ := takesWord_prev hu
    exact (fromAcceptedRead_iff ha hn hn1).mpr
      (h t ha hn hn1 (takesWord_iff.mp hu).1)

/-- A slave without wait states that drives other data once the read is over: the
extraction in cycle 4 takes the word of cycle 3, and the read was accepted in
cycle 2. -/
theorem words_not_accepted :
    ¬∀ (g : Generics) (inp : ℕ → Ports) (u : ℕ),
      takesWord (run g inp u) (inp u) = true → FromAcceptedRead g inp u := by
  intro h
  let inp : ℕ → Ports := fun t =>
    { Ports.silent with
      avmReaddata := if t = 2 then 0x11111111 else 0x22222222, frameWriterIrq := t == 0 }
  obtain ⟨t, ht, ha, -, heq⟩ := h ⟨0x80000, fun _ => 0⟩ inp 4 (by decide)
  have hcases : t = 0 ∨ t = 1 ∨ t = 2 ∨ t = 3 := by omega
  rcases hcases with rfl | rfl | rfl | rfl <;> revert ha heq <;> decide

end AlteraWorkshops.OneAi
