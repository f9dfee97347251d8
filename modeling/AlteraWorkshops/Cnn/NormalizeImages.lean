import AlteraWorkshops.Cnn.FilterStream
import AlteraWorkshops.Numbers.Digits
import Mathlib.Algebra.Order.BigOperators.Group.List

/-! What `Normalize_Filter` makes of frames: each one is stretched by a range that is one
pixel late. -/

namespace AlteraWorkshops.Cnn

variable {g : Format} {c : NormalizeGenerics} {d : ℕ → CnnValues} {x : ℕ → Sample} {size : ℕ}

/-! ### The range of a frame -/

/-- The values of the first `n` channels. -/
def channels (n : ℕ) (d : CnnValues) : List ℕ := (List.range n).map fun c => (d c).val

/-- The values of the pixels behind `a` up to `b`. -/
def windowValues (n : ℕ) (d : ℕ → CnnValues) (a b : ℕ) : List ℕ :=
  (List.range' (a + 1) (b - a)).flatMap fun k => channels n (d k)

def windowMax (n : ℕ) (d : ℕ → CnnValues) (a b : ℕ) : ℕ := (windowValues n d a b).foldl max 0

def windowMin (n : ℕ) (d : ℕ → CnnValues) (a b : ℕ) : ℕ :=
  (windowValues n d a b).foldl min globalMaxValue

/-- The range that frames of `size` pixels are stretched by: that of the frame before,
without its first pixel and with the first one of this frame. The first frame has the whole
range. -/
def frameMax (n size : ℕ) (d : ℕ → CnnValues) : ℕ → ℕ
  | 0 => globalMaxValue
  | f + 1 => windowMax n d (f * size) ((f + 1) * size)

def frameMin (n size : ℕ) (d : ℕ → CnnValues) : ℕ → ℕ
  | 0 => 0
  | f + 1 => windowMin n d (f * size) ((f + 1) * size)

theorem windowValues_self (n : ℕ) (d : ℕ → CnnValues) (a : ℕ) : windowValues n d a a = [] := by
  rw [windowValues, Nat.sub_self]
  rfl

theorem windowValues_succ (n : ℕ) (d : ℕ → CnnValues) {a b : ℕ} (h : a ≤ b) :
    windowValues n d a (b + 1) = windowValues n d a b ++ channels n (d (b + 1)) := by
  have hlast : a + 1 + (b - a) = b + 1 := by omega
  rw [windowValues, Nat.succ_sub h, List.range'_1_concat, List.flatMap_append, hlast,
    List.flatMap_singleton]
  rfl

/-- One pixel more, for the largest and for the smallest value. -/
theorem foldl_windowValues_succ (op : ℕ → ℕ → ℕ) (z n : ℕ) (d : ℕ → CnnValues) {a b : ℕ}
    (h : a ≤ b) : (windowValues n d a (b + 1)).foldl op z =
      (channels n (d (b + 1))).foldl op ((windowValues n d a b).foldl op z) := by
  rw [windowValues_succ n d h, List.foldl_append]

/-- The whole range does not grow. -/
theorem foldl_channels_eq {op : ℕ → ℕ → ℕ} {z : ℕ} (h : ∀ v ≤ globalMaxValue, op z v = z) (n : ℕ)
    (d : CnnValues) : (channels n d).foldl op z = z := by
  induction n with
  | zero => rfl
  | succ n ih =>
    rw [channels, List.range_succ, List.map_append, List.foldl_append]
    exact (congrArg (op · (d n).val) ih).trans (h _ (d n).is_le)

/-! ### The stretch -/

/-- The difference by which a range is stretched; never zero. -/
def stretchBy (lo hi : ℕ) : ℕ := if hi - lo = 0 then 1 else hi - lo

/-- A value stretched from a range. -/
def stretched (approxRes lo hi value : ℕ) : OneAi.CnnValue :=
  if value < lo then 0 else normalizeValue approxRes (stretchBy lo hi) (value - lo)

section Order

variable {approxRes difference a b : ℕ}

end Order

/-! ### Pixel by pixel -/

/-- Frames of `size` pixels, one after the other. -/
structure Frames (size : ℕ) (x : ℕ → Sample) : Prop where
  dataValid : ∀ k, (x k).stream.dataValid = true
  first : ∀ k, (x k).stream.column = 0 ∧ (x k).stream.row = 0 ↔ k % size = 0

/-- The variables after pixel `m`: the range so far, and the one that is applied. -/
structure Ranges (c : NormalizeGenerics) (size : ℕ) (d : ℕ → CnnValues) (m : ℕ)
    (v : NormalizeVars) : Prop where
  tempMax : v.tempMax = windowMax c.inputValues d (m / size * size) m
  tempMin : v.tempMin = windowMin c.inputValues d (m / size * size) m
  maxValue : v.maxValue = frameMax c.inputValues size d (m / size)
  minValue : v.minValue = frameMin c.inputValues size d (m / size)

section Step

variable {v : NormalizeVars} {i : Sample}

/-- A pixel that does not start a frame. -/
theorem normalize_inside (hv : i.stream.dataValid = true)
    (hi : ¬(i.stream.column = 0 ∧ i.stream.row = 0)) :
    (normalizeProcess c v i).1.tempMax = (channels c.inputValues i.data).foldl max v.tempMax ∧
      (normalizeProcess c v i).1.tempMin = (channels c.inputValues i.data).foldl min v.tempMin ∧
      (normalizeProcess c v i).1.maxValue = v.maxValue ∧
      (normalizeProcess c v i).1.minValue = v.minValue := by
  have hnot : ¬(i.stream.column = 0 ∧ i.stream.row = 0 ∧ i.stream.dataValid = true) :=
    fun h => hi ⟨h.1, h.2.1⟩
  simp only [normalizeProcess, if_pos hv, if_neg hnot, channels, List.foldl_map, and_self]

/-- The pixel that starts a frame. -/
theorem normalize_first (hv : i.stream.dataValid = true)
    (hi : i.stream.column = 0 ∧ i.stream.row = 0) :
    (normalizeProcess c v i).1.tempMax = 0 ∧
      (normalizeProcess c v i).1.tempMin = globalMaxValue ∧
      (normalizeProcess c v i).1.maxValue =
        (channels c.inputValues i.data).foldl max v.tempMax ∧
      (normalizeProcess c v i).1.minValue =
        (channels c.inputValues i.data).foldl min v.tempMin := by
  have hfirst : i.stream.column = 0 ∧ i.stream.row = 0 ∧ i.stream.dataValid = true :=
    ⟨hi.1, hi.2, hv⟩
  simp only [normalizeProcess, if_pos hv, if_pos hfirst, channels, List.foldl_map, and_self]

/-- The values that go out are stretched by the variables as they are. -/
theorem normalize_data {j : ℕ} (hv : i.stream.dataValid = true) (hj : j < c.inputValues)
    (hd : v.difference = v.maxValue - v.minValue) :
    (normalizeProcess c v i).2.data j =
      stretched c.approxRes v.minValue v.maxValue (i.data j).val := by
  simp only [normalizeProcess, stretched, stretchBy, if_pos hv, if_pos hj, hd]

/-- The difference belongs to the range that is applied. -/
theorem normalize_difference (hd : v.difference = v.maxValue - v.minValue) (i : Sample) :
    (normalizeProcess c v i).1.difference =
      (normalizeProcess c v i).1.maxValue - (normalizeProcess c v i).1.minValue := by
  by_cases hfirst : i.stream.column = 0 ∧ i.stream.row = 0 ∧ i.stream.dataValid = true
  · simp only [normalizeProcess, if_pos hfirst]
  · by_cases hvalid : i.stream.dataValid = true
    · simp only [normalizeProcess, if_neg hfirst, if_pos hvalid]
      exact hd
    · simp only [normalizeProcess, if_neg hfirst, if_neg hvalid]
      exact hd

end Step

theorem difference_run (c : NormalizeGenerics) (x : ℕ → Sample) (k : ℕ) :
    (filterVars (normalizeProcess c) .initial x k).difference =
      (filterVars (normalizeProcess c) .initial x k).maxValue -
        (filterVars (normalizeProcess c) .initial x k).minValue := by
  induction k with
  | zero => rfl
  | succ k ih => exact normalize_difference ih (x k)

/-- The invariant over all frames. -/
theorem ranges_run (hsize : 0 < size) (hx : Frames size x) (m : ℕ) :
    Ranges c size (fun k => (x k).data) m
      (filterVars (normalizeProcess c) .initial x (m + 1)) := by
  induction m with
  | zero =>
    obtain ⟨h1, h2, h3, h4⟩ := normalize_first (c := c) (v := .initial) (hx.dataValid 0)
      ((hx.first 0).mpr (Nat.zero_mod _))
    refine ⟨?_, ?_, ?_, ?_⟩
    · rw [Nat.zero_div, Nat.zero_mul]
      exact h1
    · rw [Nat.zero_div, Nat.zero_mul]
      exact h2
    · rw [Nat.zero_div]
      exact h3.trans (foldl_channels_eq (fun _ => max_eq_left) _ _)
    · rw [Nat.zero_div]
      exact h4.trans (foldl_channels_eq (fun v _ => Nat.zero_min v) _ _)
  | succ m ih =>
    have hdata := hx.dataValid (m + 1)
    have hstart : m / size * size ≤ m := Nat.div_mul_le_self m size
    rcases Numbers.mod_succ_lt_or_eq hsize m with hlt | hend
    · obtain ⟨hdiv, hmod⟩ := Numbers.div_mod_succ_of_lt hlt
      have hnot : ¬((x (m + 1)).stream.column = 0 ∧ (x (m + 1)).stream.row = 0) := by
        rw [hx.first, hmod]
        omega
      obtain ⟨h1, h2, h3, h4⟩ := normalize_inside (c := c) hdata hnot
      rw [ih.tempMax] at h1
      rw [ih.tempMin] at h2
      refine ⟨?_, ?_, ?_, ?_⟩
      · rw [hdiv, windowMax, foldl_windowValues_succ _ _ _ _ hstart]
        exact h1
      · rw [hdiv, windowMin, foldl_windowValues_succ _ _ _ _ hstart]
        exact h2
      · rw [hdiv, ← ih.maxValue]
        exact h3
      · rw [hdiv, ← ih.minValue]
        exact h4
    · -- a new frame: the range of the last one is complete with this pixel
      obtain ⟨hdiv, hmod⟩ := Numbers.div_mod_succ_of_eq hsize hend
      obtain ⟨h1, h2, h3, h4⟩ := normalize_first (c := c) hdata ((hx.first _).mpr hmod)
      rw [ih.tempMax] at h3
      rw [ih.tempMin] at h4
      have hwhole : (m / size + 1) * size = m + 1 := by
        have h := Nat.div_add_mod' m size
        rw [Nat.succ_mul]
        omega
      refine ⟨?_, ?_, ?_, ?_⟩
      · rw [hdiv, hwhole, windowMax, windowValues_self]
        exact h1
      · rw [hdiv, hwhole, windowMin, windowValues_self]
        exact h2
      · rw [hdiv, frameMax, hwhole, windowMax, foldl_windowValues_succ _ _ _ _ hstart]
        exact h3
      · rw [hdiv, frameMin, hwhole, windowMin, foldl_windowValues_succ _ _ _ _ hstart]
        exact h4

theorem filterImage_normalize (hsize : 0 < size) (hx : Frames size x) (k : ℕ) {j : ℕ}
    (hj : j < c.inputValues) :
    (filterImage (normalizeProcess c) .initial x k).data j =
      stretched c.approxRes (frameMin c.inputValues size (fun k => (x k).data) ((k - 1) / size))
        (frameMax c.inputValues size (fun k => (x k).data) ((k - 1) / size))
        ((x k).data j).val := by
  cases k with
  | zero =>
    rw [Nat.zero_sub, Nat.zero_div]
    exact normalize_data (v := .initial) (hx.dataValid 0) hj rfl
  | succ m =>
    have hr := ranges_run (c := c) hsize hx m
    rw [Nat.add_sub_cancel, ← hr.maxValue, ← hr.minValue]
    exact normalize_data (hx.dataValid _) hj (difference_run c x (m + 1))

/-! ### Edge by edge -/

section Stream

variable {inp : ℕ → Sample} {lead arrive : ℕ → ℕ} {word : ℕ → ℕ → CnnValues}

theorem Format.column_row_zero_iff (hw : 0 < g.width) (k : ℕ) :
    g.column k = 0 ∧ g.row k = 0 ↔ k % (g.width * g.height) = 0 := by
  rw [Nat.mod_mul, Nat.add_eq_zero_iff, Nat.mul_eq_zero]
  constructor
  · rintro ⟨hcolumn, hrow⟩
    exact ⟨hcolumn, .inr hrow⟩
  · rintro ⟨hcolumn, hwidth | hrow⟩
    · omega
    · exact ⟨hcolumn, hrow⟩

theorem frames_arrive (hd : Delivers g inp lead arrive word) (hc : g.cycles = 1)
    (hw : 0 < g.width) : Frames (g.width * g.height) fun k => inp (arrive k) := by
  have hstream : ∀ k, (inp (arrive k)).stream = ⟨g.column k, g.row k, 0, true⟩ := fun k => by
    have hlead := hd.lead_le k
    have hroom := hd.room k
    rw [hd.stream k _ hlead (by omega), hc, Nat.sub_self, Nat.zero_min,
      decide_eq_true ⟨le_rfl, Nat.lt_succ_self _⟩]
  refine ⟨fun k => ?_, fun k => ?_⟩
  · rw [hstream]
  · rw [hstream]
    exact Format.column_row_zero_iff hw k

/-- The filter stretches the values of each pixel but the first ones of the frames by the
range of the frame before, taken one pixel late; the first pixel of a frame has still the
range of the pixels in front of it. -/
theorem normalize_stretches (hd : Delivers g inp lead arrive word) (hc : g.cycles = 1)
    (hq : Quiet inp lead) (hw : 0 < g.width) (hh : 0 < g.height) (k : ℕ) {j : ℕ}
    (hj : j < c.inputValues) :
    (filterOutput buffered (normalizeProcess c) .initial inp (arrive k + 3)).data j =
      stretched c.approxRes
        (frameMin c.inputValues (g.width * g.height) (word · 0) ((k - 1) / (g.width * g.height)))
        (frameMax c.inputValues (g.width * g.height) (word · 0) ((k - 1) / (g.width * g.height)))
        (word k 0 j).val := by
  have hdata : ∀ k, (inp (arrive k)).data = word k 0 := fun k => hd.data k 0 (by omega)
  have himage := filterImage_normalize (c := c) (Nat.mul_pos hw hh) (frames_arrive hd hc hw) k hj
  simp only [hdata] at himage
  rw [filterOutput_arrive (normalizeProcess_streams c) hd hc hq]
  exact himage

/-- Frames of two times two pixels with one channel. -/
theorem normalize_stretches_four :
    (filterOutput buffered (normalizeProcess ⟨1, 3⟩) .initial
        (paced ⟨2, 2, 1⟩ 3 fun k _ _ => Fin.ofNat 128 (10 * k)) (3 * 5 + 3)).data 0 =
      stretched 3 10 40 50 := by
  have hd : Delivers ⟨2, 2, 1⟩ (paced ⟨2, 2, 1⟩ 3 fun k _ _ => Fin.ofNat 128 (10 * k)) (3 * ·)
    (3 * ·) fun k _ _ => Fin.ofNat 128 (10 * k) := paced_delivers (by decide) (by decide)
  exact normalize_stretches hd rfl (fun t ht => absurd ht (Nat.not_lt_zero t)) (by decide)
    (by decide) 5 (by decide)

end Stream

end AlteraWorkshops.Cnn
