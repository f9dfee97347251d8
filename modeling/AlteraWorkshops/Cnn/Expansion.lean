import AlteraWorkshops.Cnn.RowExpander
import AlteraWorkshops.Numbers.Digits

/-! What the row expander makes of a delivered image: when it sends each pixel, and which
pixel it then finds in its buffer. -/

namespace AlteraWorkshops.Cnn.RowExpander

/-! ### Timing -/

/-- The edge that releases pixel `k`: a row starts when it arrives, and every other pixel
waits for its position and for the delay after the one before it. -/
def release (g : Format) (outputCycles : ℕ) (lead arrive : ℕ → ℕ) : ℕ → ℕ
  | 0 => arrive 0
  | k + 1 =>
    if g.column (k + 1) = 0 then arrive (k + 1)
    else max (release g outputCycles lead arrive k + outputCycles) (lead (k + 1))

/-- The values sent for pixel `k`: its own if they are there when it is released, those in
front of it otherwise. -/
def released (g : Format) (outputCycles : ℕ) (lead arrive : ℕ → ℕ) (word : ℕ → ℕ → CnnValues)
    (k f : ℕ) : CnnValues :=
  if arrive k ≤ release g outputCycles lead arrive k then word k f
  else word (k - 1) (g.cycles - 1)

/-- An image that the expander can spread: data goes off before a row starts, a row is out
before the next one shows up, and pixels that come in more than one edge are there when
they are released. -/
structure Spreads (g : Format) (outputCycles : ℕ) (inp : ℕ → Sample) (lead arrive : ℕ → ℕ) :
    Prop where
  width : 2 ≤ g.width
  cycles : 0 < g.cycles
  space : max 2 g.cycles ≤ outputCycles
  gap : ∀ k, g.column k = 0 → ∀ t, arrive k = t + 1 → (inp t).stream.dataValid = false
  row : ∀ k, g.column (k + 1) = 0 →
    release g outputCycles lead arrive k + g.cycles ≤ lead (k + 1)
  whole : g.cycles = 1 ∨ ∀ k, arrive k ≤ release g outputCycles lead arrive k

/-- The generics of the expander of a format. -/
def generics (g : Format) (outputCycles : ℕ) : Generics := ⟨g.width, g.cycles, outputCycles⟩

variable {g : Format} {oc : ℕ} {inp : ℕ → Sample} {lead arrive : ℕ → ℕ}
  {word : ℕ → ℕ → CnnValues} {f k n t : ℕ}

theorem release_of_zero (h : g.column k = 0) : release g oc lead arrive k = arrive k := by
  cases k with
  | zero => rfl
  | succ k => exact if_pos h

theorem release_succ_of_ne (h : g.column (k + 1) ≠ 0) :
    release g oc lead arrive (k + 1) =
      max (release g oc lead arrive k + oc) (lead (k + 1)) := if_neg h

section Times

variable (hd : Delivers g inp lead arrive word) (hs : Spreads g oc inp lead arrive)

variable (oc) in
include hd in
theorem lead_le_release (k : ℕ) : lead k ≤ release g oc lead arrive k := by
  by_cases h : g.column k = 0
  · rw [release_of_zero h]
    exact hd.lead_le k
  · cases k with
    | zero => exact absurd (Nat.zero_mod _) h
    | succ k =>
      rw [release_succ_of_ne h]
      exact le_max_right _ _

include hd hs in
theorem release_lt (k : ℕ) :
    release g oc lead arrive k + g.cycles ≤ release g oc lead arrive (k + 1) := by
  by_cases h : g.column (k + 1) = 0
  · rw [release_of_zero h]
    exact (hs.row k h).trans (hd.lead_le _)
  · have hspace := (le_max_right _ _).trans hs.space
    rw [release_succ_of_ne h]
    exact le_max_of_le_left (by omega)

include hd hs in
theorem release_mono : StrictMono (release g oc lead arrive) :=
  strictMono_nat_of_lt_succ fun k => by
    have h := release_lt hd hs k
    have hc := hs.cycles
    omega

include hd hs in
/-- A pixel is out before the next row shows up. -/
theorem release_row (k : ℕ) : release g oc lead arrive k + g.cycles ≤ lead (g.nextRow k) := by
  have hw : 0 < g.width := by have := hs.width; omega
  obtain ⟨last, hlast⟩ : ∃ last, g.nextRow k = last + 1 :=
    ⟨g.nextRow k - 1, by have := Format.lt_nextRow hw k; omega⟩
  have hle : k ≤ last := by
    have := Format.lt_nextRow hw k
    omega
  have hzero : g.column (last + 1) = 0 := by
    rw [← hlast]
    exact Nat.mul_mod_right _ _
  calc release g oc lead arrive k + g.cycles
      ≤ release g oc lead arrive last + g.cycles :=
        Nat.add_le_add_right ((release_mono hd hs).monotone hle) _
    _ ≤ lead (last + 1) := hs.row last hzero
    _ = lead (g.nextRow k) := by rw [hlast]

end Times

/-! ### Registers -/

theorem validReg_succ (c : Generics) (t : ℕ) :
    (run c inp (t + 1)).validReg = (inp t).stream.dataValid := rfl

theorem iDataReg_succ (c : Generics) (t : ℕ) :
    (run c inp (t + 1)).iDataReg =
      if (inp t).stream.dataValid then (inp t).data else (run c inp t).iDataReg := rfl

theorem oStreamReg_succ (c : Generics) (t : ℕ) :
    (run c inp (t + 1)).oStreamReg = nextOutput c (run c inp t) (inp t) := rfl

theorem delayCnt_succ (c : Generics) (t : ℕ) :
    (run c inp (t + 1)).delayCnt = nextDelay c (run c inp t) (inp t) := rfl

theorem resetCol_succ (c : Generics) (t : ℕ) :
    (run c inp (t + 1)).resetCol = startsRow (run c inp t) (inp t) := rfl

variable (inp) in
/-- The counters are the position in the output register. -/
theorem counters_eq (c : Generics) (t : ℕ) :
    (run c inp t).columnCnt = (run c inp t).oStreamReg.column ∧
      (run c inp t).filterCnt = (run c inp t).oStreamReg.filter ∧
      (run c inp t).ramAddrOut =
        (run c inp t).oStreamReg.column * c.inputCycles + (run c inp t).oStreamReg.filter := by
  cases t with
  | zero => exact ⟨rfl, rfl, (Nat.zero_mul _).symm⟩
  | succ t => exact ⟨rfl, rfl, rfl⟩

/-! ### Rows -/

section Rows

variable (hd : Delivers g inp lead arrive word) (hs : Spreads g oc inp lead arrive)

include hd in
theorem valid_iff (ht1 : lead k ≤ t) (ht2 : t < lead (k + 1)) :
    (inp t).stream.dataValid = true ↔ arrive k ≤ t ∧ t < arrive k + g.cycles := by
  rw [hd.stream k t ht1 ht2, decide_eq_true_iff]

include hd hs in
/-- The rows start in the edges in which their first pixels arrive. -/
theorem startsRow_iff (c : Generics) (ht : lead 0 ≤ t) :
    startsRow (run c inp t) (inp t) = true ↔ ∃ i, g.column i = 0 ∧ t = arrive i := by
  simp only [startsRow, Bool.and_eq_true, Bool.not_eq_true', beq_iff_eq]
  constructor
  · rintro ⟨⟨hv, hprev⟩, hcol⟩
    obtain ⟨i, h1, h2⟩ := hd.exists_pixel hs.cycles ht
    rw [hd.stream i t h1 h2] at hcol
    obtain ⟨h3, h4⟩ := (valid_iff hd h1 h2).mp hv
    refine ⟨i, hcol, ?_⟩
    by_contra hne
    obtain ⟨u, rfl⟩ : ∃ u, t = u + 1 := ⟨t - 1, by omega⟩
    rw [validReg_succ] at hprev
    have hlead := hd.lead_le i
    rw [(valid_iff hd (k := i) (by omega) (by omega)).mpr ⟨by omega, by omega⟩] at hprev
    exact absurd hprev (by simp)
  · rintro ⟨i, hcol, rfl⟩
    have hlead := hd.lead_le i
    have hroom := hd.room i
    have hc := hs.cycles
    refine ⟨⟨(valid_iff hd hlead (by omega)).mpr ⟨le_rfl, by omega⟩, ?_⟩, ?_⟩
    · cases hu : arrive i with
      | zero => rfl
      | succ u => rw [validReg_succ, hs.gap i hcol u hu]
    · rw [hd.stream i _ hlead (by omega)]
      exact hcol

include hd hs in
/-- Between two releases no row starts. -/
theorem not_startsRow (c : Generics) (ht1 : release g oc lead arrive k < t)
    (ht2 : t < release g oc lead arrive (k + 1) ∨
      t = release g oc lead arrive (k + 1) ∧ g.column (k + 1) ≠ 0) :
    startsRow (run c inp t) (inp t) = false := by
  have hmono := release_mono hd hs
  have hlead : lead 0 ≤ t := by
    have h0 := (hd.lead_mono hs.cycles).monotone (Nat.zero_le k)
    have hk := lead_le_release oc hd k
    omega
  by_contra hstart
  rw [Bool.not_eq_false, startsRow_iff hd hs c hlead] at hstart
  obtain ⟨i, hcol, hi⟩ := hstart
  replace hi : t = release g oc lead arrive i := by rw [hi, release_of_zero hcol]
  have hki : k < i := by
    rw [hi] at ht1
    exact hmono.lt_iff_lt.mp ht1
  rcases ht2 with ht2 | ⟨ht2, hne⟩
  · rw [hi] at ht2
    have := hmono.lt_iff_lt.mp ht2
    omega
  · rw [hi] at ht2
    exact hne (hmono.injective ht2 ▸ hcol)

include hd hs in
/-- After the delay the input is not past pixel `k` before the next release. -/
theorem column_le (ht1 : release g oc lead arrive k + oc ≤ t)
    (ht2 : t < release g oc lead arrive (k + 1)) : (inp t).stream.column ≤ g.column k := by
  have hlead := lead_le_release oc hd k
  have hw : 0 < g.width := by have := hs.width; omega
  by_cases hcol : g.column (k + 1) = 0
  · have h0 := (hd.lead_mono hs.cycles).monotone (Nat.zero_le k)
    obtain ⟨i, h1, h2⟩ := hd.exists_pixel hs.cycles (show lead 0 ≤ t by omega)
    rw [hd.stream i t h1 h2]
    have hlt := Format.column_lt hw i
    have hlast := (Format.succ_of_column_eq hcol).1
    show g.column i ≤ _
    omega
  · rw [release_succ_of_ne hcol, lt_max_iff] at ht2
    rw [hd.stream k t (by omega) (by omega)]

include hd hs in
/-- A pixel inside a row is released when its column, or a later one of the row, shows. -/
theorem lt_column (hcol : g.column (k + 1) ≠ 0) :
    g.column k < (inp (release g oc lead arrive (k + 1))).stream.column := by
  have hlead := lead_le_release oc hd (k + 1)
  have hrow := release_row hd hs (k + 1)
  have hc := hs.cycles
  obtain ⟨i, h1, h2, h3, h4⟩ := hd.exists_pixel_between hc hlead
    (show release g oc lead arrive (k + 1) < lead (g.nextRow (k + 1)) by omega)
  rw [hd.stream i _ h3 h4]
  have hsame := (Format.same_row h1 h2).2
  have hsucc := (Format.succ_of_column_ne hcol).1
  show _ < g.column i
  omega

include hd hs in
/-- One edge after a row started its number still shows. -/
theorem row_eq (hcol : g.column k = 0) :
    (inp (release g oc lead arrive k + 1)).stream.row = g.row k := by
  have hw := hs.width
  have hne : g.column (k + 1) ≠ 0 := fun h => by
    have hlast := (Format.succ_of_column_eq h).1
    omega
  have hlead := lead_le_release oc hd k
  have hrow := release_row hd hs (k + 1)
  have hnext := Format.nextRow_congr (Format.succ_of_column_ne hne).2
  have hspace := (le_max_left _ _).trans hs.space
  have hlater : release g oc lead arrive k + oc ≤ release g oc lead arrive (k + 1) := by
    rw [release_succ_of_ne hne]
    exact le_max_left _ _
  rw [hnext] at hrow
  obtain ⟨i, h1, h2, h3, h4⟩ := hd.exists_pixel_between hs.cycles
    (show lead k ≤ release g oc lead arrive k + 1 by omega)
    (show release g oc lead arrive k + 1 < lead (g.nextRow k) by omega)
  rw [hd.stream i _ h3 h4]
  exact Format.row_congr (Format.same_row h1 h2).1

end Rows

/-! ### Phases -/

/-- The output register in edge `m` after the release of pixel `k`. -/
def shown (g : Format) (k m : ℕ) : CnnStream :=
  ⟨g.column k, g.row k, min (m - 1) (g.cycles - 1), decide (m ≤ g.cycles)⟩

/-- The registers `n` edges after the one that released pixel `k`. -/
structure Phase (g : Format) (oc : ℕ) (s : State) (k n : ℕ) : Prop where
  delay : s.delayCnt = min n (oc - 1)
  reset : s.resetCol = decide (n = 0 ∧ g.column k = 0)
  shows : 0 < n → s.oStreamReg = shown g k n
  before : n = 0 → g.column k ≠ 0 → s.oStreamReg.column + 1 = g.column k ∧
    s.oStreamReg.row = g.row k

section Phases

variable (hd : Delivers g inp lead arrive word) (hs : Spreads g oc inp lead arrive)

include hd hs in
/-- In every phase the next edge shows the pixel. -/
theorem Phase.output (h : Phase g oc (run (generics g oc) inp
      (release g oc lead arrive k + n + 1)) k n) :
    nextOutput (generics g oc) (run (generics g oc) inp (release g oc lead arrive k + n + 1))
      (inp (release g oc lead arrive k + n + 1)) = shown g k (n + 1) := by
  have hoc := hs.space
  have hc := hs.cycles
  have hw : 0 < g.width := by have := hs.width; omega
  obtain ⟨hcolumn, hfilter, -⟩ := counters_eq inp (generics g oc)
    (release g oc lead arrive k + n + 1)
  rw [nextOutput, hcolumn, hfilter, h.reset, h.delay]
  rcases Nat.eq_zero_or_pos n with rfl | hn
  · by_cases hcol : g.column k = 0
    · have hrow := row_eq hd hs hcol
      simp only [add_zero, true_and, hcol, decide_true, if_true, hrow, shown]
      simp [Nat.succ_le_iff.mpr hc]
    · obtain ⟨h1, h2⟩ := h.before rfl hcol
      have hlt := Format.column_lt hw k
      have hcond : (run (generics g oc) inp (release g oc lead arrive k + 0 + 1)).oStreamReg.column
          < (generics g oc).inputColumns - 1 := by
        show _ < g.width - 1
        omega
      simp only [true_and, hcol, decide_false, Bool.false_eq_true, if_false, Nat.zero_min, hcond,
        if_true, h1, h2, shown]
      simp [Nat.succ_le_iff.mpr hc]
  · have hdelay : ¬min n (oc - 1) = 0 := by omega
    rw [h.shows hn]
    simp only [hn.ne', hdelay, false_and, decide_false, Bool.false_eq_true, if_false, shown]
    show (if min (n - 1) (g.cycles - 1) < g.cycles - 1 then _ else _) = _
    split_ifs with hf
    · have hmin : min (n - 1) (g.cycles - 1) + 1 = min (n + 1 - 1) (g.cycles - 1) := by omega
      have hvalid : n ≤ g.cycles ↔ n + 1 ≤ g.cycles := by omega
      simp only [hmin, hvalid]
    · have hmin : min (n - 1) (g.cycles - 1) = min (n + 1 - 1) (g.cycles - 1) := by omega
      have hvalid : ¬n + 1 ≤ g.cycles := by omega
      simp only [hmin, hvalid, decide_false]

include hd hs in
/-- Up to the next release the delay goes on. -/
theorem Phase.wait (h : Phase g oc (run (generics g oc) inp
      (release g oc lead arrive k + n + 1)) k n)
    (hn : release g oc lead arrive k + n + 1 < release g oc lead arrive (k + 1)) :
    Phase g oc (run (generics g oc) inp (release g oc lead arrive k + (n + 1) + 1)) k (n + 1) := by
  have hstart := not_startsRow hd hs (generics g oc)
    (show release g oc lead arrive k < release g oc lead arrive k + n + 1 by omega) (.inl hn)
  refine ⟨?_, ?_, fun _ => h.output hd hs, fun h0 => absurd h0 (Nat.succ_ne_zero n)⟩
  · rw [← add_assoc, delayCnt_succ, nextDelay, hstart, if_neg Bool.false_ne_true, h.delay]
    show (if min n (oc - 1) < oc - 1 then _ else _) = _
    split_ifs with hlt hcol
    · omega
    · exfalso
      have hpos : 0 < n := by
        have hoc := hs.space
        omega
      have hle := column_le hd hs (k := k) (show release g oc lead arrive k + oc ≤
        release g oc lead arrive k + n + 1 by omega) hn
      rw [(counters_eq _ _ _).1, h.shows hpos] at hcol
      exact absurd hcol (not_lt.mpr hle)
    · omega
  · rw [← add_assoc, resetCol_succ, hstart]
    simp

include hd hs in
/-- The next release begins the phases of the next pixel. -/
theorem Phase.next (h : Phase g oc (run (generics g oc) inp
      (release g oc lead arrive k + n + 1)) k n)
    (hn : release g oc lead arrive k + n + 1 = release g oc lead arrive (k + 1)) :
    Phase g oc (run (generics g oc) inp (release g oc lead arrive (k + 1) + 1))
      (k + 1) 0 := by
  have hout := h.output hd hs
  have hlead : lead 0 ≤ release g oc lead arrive (k + 1) :=
    ((hd.lead_mono hs.cycles).monotone (Nat.zero_le (k + 1))).trans
      (lead_le_release oc hd (k + 1))
  by_cases hcol : g.column (k + 1) = 0
  · have hstart : startsRow (run (generics g oc) inp (release g oc lead arrive (k + 1)))
        (inp (release g oc lead arrive (k + 1))) = true :=
      (startsRow_iff hd hs _ hlead).mpr ⟨k + 1, hcol, release_of_zero hcol⟩
    refine ⟨?_, ?_, fun h0 => absurd h0 (lt_irrefl 0), fun _ hne => absurd hcol hne⟩
    · rw [delayCnt_succ, nextDelay, hstart, if_pos rfl, Nat.zero_min]
    · rw [resetCol_succ, hstart]
      simp [hcol]
  · have hstart := not_startsRow hd hs (generics g oc) (k := k)
      (show release g oc lead arrive k < release g oc lead arrive (k + 1)
        from release_mono hd hs (Nat.lt_succ_self k)) (.inr ⟨rfl, hcol⟩)
    have hlater : release g oc lead arrive k + oc ≤
        release g oc lead arrive (k + 1) := by
      rw [release_succ_of_ne hcol]
      exact le_max_left _ _
    have hoc := hs.space
    have hlt := lt_column hd hs hcol
    refine ⟨?_, ?_, fun h0 => absurd h0 (lt_irrefl 0), fun _ _ => ?_⟩
    · have hcolumn := (counters_eq inp (generics g oc)
        (release g oc lead arrive k + n + 1)).1
      have hpos : 0 < n := by omega
      rw [hn] at h hcolumn
      rw [delayCnt_succ, nextDelay, hstart, if_neg Bool.false_ne_true, h.delay, hcolumn,
        h.shows hpos]
      show (if min n (oc - 1) < oc - 1 then _ else if g.column k < _ then _ else _) = _
      rw [if_neg (by omega), if_pos hlt, Nat.zero_min]
    · rw [resetCol_succ, hstart]
      simp [hcol]
    · rw [oStreamReg_succ, ← hn, hout]
      obtain ⟨h1, h2⟩ := Format.succ_of_column_ne hcol
      exact ⟨h1.symm, (Format.row_congr h2).symm⟩

include hd hs in
theorem phase_of_start (h : Phase g oc (run (generics g oc) inp
      (release g oc lead arrive k + 1)) k 0)
    (hn : release g oc lead arrive k + n < release g oc lead arrive (k + 1)) :
    Phase g oc (run (generics g oc) inp (release g oc lead arrive k + n + 1)) k n := by
  induction n with
  | zero => exact h
  | succ n ih => exact (ih (by omega)).wait hd hs hn

include hd hs in
theorem phase_start (k : ℕ) :
    Phase g oc (run (generics g oc) inp (release g oc lead arrive k + 1)) k 0 := by
  induction k with
  | zero =>
    have hzero : g.column 0 = 0 := Nat.zero_mod _
    have hstart : startsRow (run (generics g oc) inp (arrive 0)) (inp (arrive 0)) = true :=
      (startsRow_iff hd hs _ (hd.lead_le 0)).mpr ⟨0, hzero, rfl⟩
    refine ⟨?_, ?_, fun h0 => absurd h0 (lt_irrefl 0), fun _ hne => absurd hzero hne⟩
    · rw [release, delayCnt_succ, nextDelay, hstart, if_pos rfl, Nat.zero_min]
    · rw [release, resetCol_succ, hstart]
      simp [hzero]
  | succ k ih =>
    have hlt : release g oc lead arrive k < release g oc lead arrive (k + 1) :=
      release_mono hd hs (Nat.lt_succ_self k)
    obtain ⟨n, hn⟩ : ∃ n, release g oc lead arrive k + n + 1 =
        release g oc lead arrive (k + 1) :=
      ⟨release g oc lead arrive (k + 1) -
        release g oc lead arrive k - 1, by omega⟩
    exact (phase_of_start hd hs ih (by omega)).next hd hs hn

include hd hs in
/-- The output register from the edge after the release of a pixel to the next release. -/
theorem oStreamReg_eq (hn : release g oc lead arrive k + n <
      release g oc lead arrive (k + 1)) :
    (run (generics g oc) inp (release g oc lead arrive k + n + 2)).oStreamReg =
      shown g k (n + 1) := by
  rw [oStreamReg_succ]
  exact (phase_of_start hd hs (phase_start hd hs k) hn).output hd hs

end Phases

/-! ### Row memory -/

theorem bufferRam_succ (c : Generics) (t a : ℕ) :
    (run c inp (t + 2)).bufferRam a =
      if a = (inp t).stream.column * c.inputCycles + (inp t).stream.filter then
        (run c inp (t + 1)).iDataReg
      else (run c inp (t + 1)).bufferRam a := by
  show Function.update (run c inp (t + 1)).bufferRam _ _ a = _
  rw [Function.update_apply]
  rfl

section Memory

variable (hd : Delivers g inp lead arrive word)

include hd in
/-- The last values that arrived stay in the data register. -/
theorem iDataReg_eq (c : Generics) (hf : f < g.cycles) (ht1 : arrive k + f ≤ t)
    (ht2 : t < arrive (k + 1) ∧ (f + 1 < g.cycles → t = arrive k + f)) :
    (run c inp (t + 1)).iDataReg = word k f := by
  have hlead := hd.lead_le k
  have hroom := hd.room k
  induction t, ht1 using Nat.le_induction with
  | base =>
    have hvalid := (valid_iff hd (k := k) (t := arrive k + f) (by omega) (by omega)).mpr
      ⟨by omega, by omega⟩
    rw [iDataReg_succ, if_pos hvalid, hd.data k f hf]
  | succ t ht ih =>
    have hlast : f + 1 = g.cycles := by omega
    have hvalid : ¬(inp (t + 1)).stream.dataValid = true := by
      rcases Nat.lt_or_ge (t + 1) (lead (k + 1)) with hlt | hge
      · rw [valid_iff hd (k := k) (by omega) hlt]
        omega
      · have hroom' := hd.room (k + 1)
        rw [valid_iff hd (k := k + 1) hge (by omega)]
        omega
    rw [iDataReg_succ, if_neg hvalid]
    exact ih ⟨by omega, by omega⟩

include hd in
/-- From two edges after its arrival to the next row a value is in its cell. -/
theorem bufferRam_eq (hf : f < g.cycles) (ht1 : arrive k + f ≤ t)
    (ht2 : t < lead (g.nextRow k)) :
    (run (generics g oc) inp (t + 2)).bufferRam (g.column k * g.cycles + f) = word k f := by
  have hlead := hd.lead_le k
  have hroom := hd.room k
  induction t, ht1 using Nat.le_induction with
  | base =>
    rw [bufferRam_succ, hd.stream k _ (by omega) (by omega)]
    have hmin : min (arrive k + f - arrive k) (g.cycles - 1) = f := by omega
    have harrive := hd.arrive_lt (by omega) k
    have hlater := hd.lead_le (k + 1)
    show (if _ = g.column k * g.cycles + min (arrive k + f - arrive k) (g.cycles - 1) then _
      else _) = _
    rw [hmin, if_pos rfl]
    exact iDataReg_eq hd _ hf le_rfl ⟨by omega, fun _ => rfl⟩
  | succ t ht ih =>
    have hc : 0 < g.cycles := by omega
    obtain ⟨i, h1, h2, h3, h4⟩ := hd.exists_pixel_between hc (show lead k ≤ t + 1 by omega) ht2
    rw [bufferRam_succ, hd.stream i _ h3 h4]
    show (if _ = g.column i * g.cycles + min (t + 1 - arrive i) (g.cycles - 1) then _ else _) = _
    split_ifs with hcell
    · obtain ⟨hcol, hfilter⟩ := Numbers.digits_inj hf (by omega) hcell
      have hsame := (Format.same_row h1 h2).2
      obtain rfl : i = k := by omega
      have hlater := hd.lead_le (i + 1)
      exact iDataReg_eq hd _ hf (by omega) ⟨by omega, by omega⟩
    · exact ih (by omega)

variable (oc) in
include hd in
/-- While the position of a pixel shows before its value, the value in front of it is
written to its cell. -/
theorem bufferRam_early (hc : g.cycles = 1) (ht1 : lead (k + 1) ≤ t) (ht2 : t < arrive (k + 1)) :
    (run (generics g oc) inp (t + 2)).bufferRam (g.column (k + 1) * g.cycles) = word k 0 := by
  have hroom := hd.room k
  have hroom' := hd.room (k + 1)
  rw [bufferRam_succ, hd.stream (k + 1) t ht1 (by omega)]
  have hmin : min (t - arrive (k + 1)) (g.cycles - 1) = 0 := by omega
  show (if _ = g.column (k + 1) * g.cycles + min (t - arrive (k + 1)) (g.cycles - 1) then _
    else _) = _
  rw [hmin, add_zero, if_pos rfl]
  exact iDataReg_eq hd _ (by omega) (by omega) ⟨by omega, by omega⟩

end Memory

/-! ### The expanded image -/

/-- The expander sends every pixel of a delivered image at its release, in the positions of
the image; a pixel that is released before it arrives is the one in front of it again. -/
theorem delivers (hd : Delivers g inp lead arrive word) (hs : Spreads g oc inp lead arrive) :
    Delivers g (output (generics g oc) inp) (fun k => release g oc lead arrive k + 3)
      (fun k => release g oc lead arrive k + 3) (released g oc lead arrive word) := by
  have hw : 0 < g.width := by have := hs.width; omega
  have hreg : ∀ k t, release g oc lead arrive k + 3 ≤ t →
      t < release g oc lead arrive (k + 1) + 3 →
      (run (generics g oc) inp (t - 1)).oStreamReg =
        shown g k (t - (release g oc lead arrive k + 2)) := by
    intro k t ht1 ht2
    obtain ⟨n, rfl⟩ : ∃ n, t = release g oc lead arrive k + n + 3 :=
      ⟨t - release g oc lead arrive k - 3, by omega⟩
    have h := oStreamReg_eq hd hs (k := k) (n := n) (by omega)
    rw [show release g oc lead arrive k + n + 3 - 1 = release g oc lead arrive k + n + 2 by omega,
      h]
    congr 1
    omega
  refine ⟨fun k => le_rfl, fun k => ?_, fun k t ht1 ht2 => ?_, fun k f hf => ?_⟩
  · have h := release_lt hd hs k
    omega
  · obtain ⟨u, rfl⟩ : ∃ u, t = u + 1 := ⟨t - 1, by omega⟩
    show (run (generics g oc) inp u).oStreamReg = _
    have h := hreg k (u + 1) ht1 ht2
    rw [Nat.add_sub_cancel] at h
    have hvalid : u + 1 - (release g oc lead arrive k + 2) ≤ g.cycles ↔
        release g oc lead arrive k + 3 ≤ u + 1 ∧
          u + 1 < release g oc lead arrive k + 3 + g.cycles := by
      omega
    rw [h, shown, show u + 1 - (release g oc lead arrive k + 2) - 1 =
      u + 1 - (release g oc lead arrive k + 3) by omega]
    simp only [hvalid]
  · obtain ⟨hcol, hfilter, haddr⟩ := counters_eq inp (generics g oc)
      (release g oc lead arrive k + f + 2)
    have hlt := release_lt hd hs k
    have hrow := release_row hd hs k
    have h := oStreamReg_eq hd hs (k := k) (n := f) (by omega)
    have hmin : min (f + 1 - 1) (g.cycles - 1) = f := by omega
    rw [show release g oc lead arrive k + 3 + f = release g oc lead arrive k + f + 2 + 1 by omega]
    show (run (generics g oc) inp (release g oc lead arrive k + f + 2)).bufferRam
      (run (generics g oc) inp (release g oc lead arrive k + f + 2)).ramAddrOut = _
    rw [haddr, h]
    show (run (generics g oc) inp (release g oc lead arrive k + f + 2)).bufferRam
      (g.column k * g.cycles + min (f + 1 - 1) (g.cycles - 1)) = _
    rw [hmin, released]
    split_ifs with hin
    · exact bufferRam_eq hd hf (by omega) (by omega)
    · have hone : g.cycles = 1 := hs.whole.resolve_right fun hall => hin (hall k)
      obtain rfl : f = 0 := by omega
      cases k with
      | zero => exact absurd le_rfl hin
      | succ k =>
        have hlead := lead_le_release oc hd (k + 1)
        have hearly := bufferRam_early oc hd hone (k := k) hlead (not_le.mp hin)
        rw [hone, mul_one] at hearly ⊢
        exact hearly

/-- An expander that asks for less time than the source leaves sends each pixel at once. -/
theorem release_paced {period : ℕ} (hoc : oc ≤ period) (k : ℕ) :
    release g oc (period * ·) (period * ·) k = period * k := by
  induction k with
  | zero => rfl
  | succ k ih =>
    by_cases hcol : g.column (k + 1) = 0
    · exact release_of_zero hcol
    · rw [release_succ_of_ne hcol, ih]
      exact max_eq_right (by rw [Nat.mul_succ]; omega)

theorem paced_spreads {period : ℕ} (hw : 2 ≤ g.width) (hc : 0 < g.cycles)
    (hspace : max 2 g.cycles ≤ oc) (hoc : oc ≤ period) (hgap : g.cycles < period) :
    Spreads g oc (paced g period word) (period * ·) (period * ·) := by
  have hp : 0 < period := by omega
  refine ⟨hw, hc, hspace, fun k _ t ht => ?_, fun k _ => ?_, .inr fun k => ?_⟩
  · obtain ⟨j, rfl⟩ : ∃ j, k = j + 1 := ⟨k - 1, by rcases k with _ | k <;> omega⟩
    rw [Nat.mul_succ] at ht
    have hmod : t % period = period - 1 := by
      rw [show t = period * j + (period - 1) by omega, Nat.mul_add_mod, Nat.mod_eq_of_lt (by omega)]
    exact decide_eq_false (by omega)
  · rw [release_paced hoc, Nat.mul_succ]
    omega
  · rw [release_paced hoc]

theorem release_delayed (lead arrive : ℕ → ℕ) (d k : ℕ) :
    release g oc (fun k => lead k + d) (fun k => arrive k + d) k =
      release g oc lead arrive k + d := by
  induction k with
  | zero => rfl
  | succ k ih =>
    by_cases hcol : g.column (k + 1) = 0
    · rw [release_of_zero hcol, release_of_zero hcol]
    · rw [release_succ_of_ne hcol, release_succ_of_ne hcol, ih]
      omega

theorem Spreads.delayed (h : Spreads g oc inp lead arrive) (d : ℕ) {i : Sample}
    (hi : i.stream.dataValid = false) :
    Spreads g oc (Clocked.delayed d i inp) (fun k => lead k + d) (fun k => arrive k + d) := by
  refine ⟨h.width, h.cycles, h.space, fun k hcol t ht => ?_, fun k hcol => ?_,
    h.whole.imp id fun hall k => ?_⟩
  · unfold Clocked.delayed
    split_ifs with hlt
    · exact hi
    · exact h.gap k hcol (t - d) (by omega)
  · have hrow := h.row k hcol
    rw [release_delayed]
    omega
  · rw [release_delayed]
    exact Nat.add_le_add_right (hall k) d

/-! ### A stream in bursts

Rows of two pixels come two edges apart, and a row every six edges. The expander keeps the
pixels of a row four edges apart, so that the next row starts two edges later. -/

end AlteraWorkshops.Cnn.RowExpander
