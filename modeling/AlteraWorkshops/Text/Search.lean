import Mathlib.Data.List.Infix
import Mathlib.Data.List.TakeWhile
import Mathlib.Tactic.Common

/-! Searching a text for a label that is followed by digits, and for a plain marker.
A character that neither the label nor the digits contain splits the search: no match
crosses it. A text made of lines can then be searched line by line, also when it was
cut off at any point. -/

namespace AlteraWorkshops.Text

variable {α β : Type*}

/-! ### Separators -/

section Separators

variable {label : List α} {c : α}

theorem prefix_append_separator (hc : c ∉ label) {l b : List α} :
    label <+: l ++ c :: b ↔ label <+: l := by
  refine ⟨fun h => ?_, fun h => h.trans (List.prefix_append l _)⟩
  rcases List.prefix_or_prefix_of_prefix h (List.prefix_append l (c :: b)) with hp | hp
  · exact hp
  · obtain ⟨r, rfl⟩ := hp
    rw [List.prefix_append_right_inj] at h
    cases r with
    | nil => simp
    | cons x r =>
      obtain ⟨rfl, -⟩ := List.cons_prefix_cons.mp h
      simp at hc

theorem infix_append_separator (hc : c ∉ label) {a b : List α} :
    label <:+: a ++ c :: b ↔ label <:+: a ∨ label <:+: c :: b := by
  induction a with
  | nil =>
    simp only [List.nil_append, List.infix_nil]
    refine ⟨.inr, ?_⟩
    rintro (rfl | h)
    · exact List.nil_infix
    · exact h
  | cons x a ih =>
    rw [List.cons_append, List.infix_cons_iff, ih, ← List.cons_append,
      prefix_append_separator hc, ← or_assoc, ← List.infix_cons_iff]

/-- A marker whose first character occurs only once can only be found there. -/
theorem infix_iff_prefix {l : α} {ls a b : List α} (ha : l ∉ a) (hb : l ∉ b) :
    l :: ls <:+: a ++ l :: b ↔ ls <+: b := by
  induction a with
  | nil =>
    rw [List.nil_append, List.infix_cons_iff, List.cons_prefix_cons]
    constructor
    · rintro (⟨-, h⟩ | h)
      · exact h
      · exact absurd (h.subset List.mem_cons_self) hb
    · exact fun h => .inl ⟨rfl, h⟩
  | cons x a ih =>
    have hx : l ≠ x := fun h => ha (h ▸ List.mem_cons_self)
    rw [List.cons_append, List.infix_cons_iff, List.cons_prefix_cons,
      ih fun h => ha (List.mem_cons_of_mem x h)]
    simp [hx]

end Separators

/-! ### Search -/

section Search

variable [DecidableEq α]

/-- The label and at least one digit, right at the start. -/
def matchAt (digit : α → Bool) (label s : List α) : Option (List α) :=
  if label <+: s then
    let ds := (s.drop label.length).takeWhile digit
    if ds = [] then none else some ds
  else none

/-- The digits of the leftmost match. -/
def search (digit : α → Bool) (label : List α) : List α → Option (List α)
  | [] => matchAt digit label []
  | x :: s => (matchAt digit label (x :: s)).or (search digit label s)

/-- Whether the marker occurs, as a search without a result. -/
def contains (marker s : List α) : Option Unit := if marker <:+: s then some () else none

variable {digit : α → Bool} {label s : List α} {c : α}

theorem contains_eq_none_iff : contains label s = none ↔ ¬label <:+: s := by
  unfold contains
  split_ifs with h <;> simp [h]

theorem search_nil : search digit label [] = none := by
  unfold search matchAt
  split_ifs with h
  · simp
  · rfl

theorem search_of_matchAt {ds : List α} (h : matchAt digit label s = some ds) :
    search digit label s = some ds := by
  cases s with
  | nil => exact h
  | cons x s => rw [search, h, Option.some_or]

theorem search_label {ds : List α} (hne : ds ≠ []) (hds : ∀ d ∈ ds, digit d = true) :
    search digit label (label ++ ds) = some ds := by
  apply search_of_matchAt
  have htake : ds.takeWhile digit = ds := List.takeWhile_eq_self_iff.mpr hds
  rw [matchAt, if_pos (List.prefix_append label ds), List.drop_left, htake]
  exact if_neg hne

/-- A character that does not start the label is skipped. -/
theorem search_cons_of_ne {x l : α} {ls : List α} (h : l ≠ x) :
    search digit (l :: ls) (x :: s) = search digit (l :: ls) s := by
  have hnone : matchAt digit (l :: ls) (x :: s) = none :=
    if_neg fun hp => h (List.cons_prefix_cons.mp hp).1
  rw [search, hnone, Option.none_or]

theorem infix_of_search {ds : List α} (h : search digit label s = some ds) : label <:+: s := by
  induction s with
  | nil => exact absurd h (by simp [search_nil])
  | cons x s ih =>
    by_cases hp : label <+: x :: s
    · exact hp.isInfix
    · rw [search, matchAt, if_neg hp, Option.none_or] at h
      exact (ih h).trans (List.suffix_cons x s).isInfix

/-- A match needs room for a digit. -/
theorem length_lt_of_matchAt {ds : List α} (h : matchAt digit label s = some ds) :
    label.length < s.length := by
  by_contra hlen
  have hdrop : s.drop label.length = [] := List.drop_eq_nil_of_le (by omega)
  simp [matchAt, hdrop] at h

theorem length_lt_of_search {ds : List α} (h : search digit label s = some ds) :
    label.length < s.length := by
  induction s with
  | nil => exact length_lt_of_matchAt h
  | cons x s ih =>
    cases hm : matchAt digit label (x :: s) with
    | some es => exact length_lt_of_matchAt hm
    | none =>
      rw [search, hm, Option.none_or] at h
      exact (ih h).trans (Nat.lt_succ_self _)

theorem search_eq_none_of_length (h : s.length ≤ label.length) :
    search digit label s = none := by
  by_contra hne
  obtain ⟨ds, hds⟩ := Option.ne_none_iff_exists'.mp hne
  exact absurd (length_lt_of_search hds) (by omega)

theorem search_eq_none (h : ¬label <:+: s) : search digit label s = none := by
  by_contra hne
  obtain ⟨ds, hds⟩ := Option.ne_none_iff_exists'.mp hne
  exact h (infix_of_search hds)

theorem matchAt_append_separator (hc : c ∉ label) (hd : digit c = false) {l b : List α} :
    matchAt digit label (l ++ c :: b) = matchAt digit label l := by
  unfold matchAt
  by_cases hp : label <+: l
  · obtain ⟨r, rfl⟩ := hp
    have hdigits : (r ++ c :: b).takeWhile digit = r.takeWhile digit := by
      rw [List.takeWhile_append, List.takeWhile_cons_of_neg (by simp [hd]), List.append_nil]
      split_ifs with hlen
      · exact ((List.takeWhile_prefix digit).eq_of_length hlen).symm
      · rfl
    rw [if_pos ((prefix_append_separator hc).mpr (List.prefix_append label r)),
      if_pos (List.prefix_append label r), List.append_assoc, List.drop_left, List.drop_left,
      hdigits]
  · rw [if_neg hp, if_neg fun h => hp ((prefix_append_separator hc).mp h)]

end Search

/-- No match of the detector `f` crosses the character `c`. -/
structure SplitsAt (c : α) (f : List α → Option β) : Prop where
  nil : f [] = none
  split : ∀ a b, f (a ++ c :: b) = (f a).or (f (c :: b))

theorem search_splitsAt [DecidableEq α] {digit : α → Bool} {label : List α} {c : α}
    (hc : c ∉ label) (hd : digit c = false) : SplitsAt c (search digit label) where
  nil := search_nil
  split a b := by
    induction a with
    | nil => rw [List.nil_append, search_nil, Option.none_or]
    | cons x a ih =>
      rw [List.cons_append, search, ih, ← List.cons_append, matchAt_append_separator hc hd,
        ← Option.or_assoc, ← search]

theorem contains_splitsAt [DecidableEq α] {marker : List α} {c : α} (hne : marker ≠ [])
    (hc : c ∉ marker) : SplitsAt c (contains marker) where
  nil := contains_eq_none_iff.mpr fun h => hne (List.infix_nil.mp h)
  split a b := by
    unfold contains
    by_cases ha : marker <:+: a
    · rw [if_pos ha, if_pos ((infix_append_separator hc).mpr (.inl ha)), Option.some_or]
    · simp only [infix_append_separator hc, ha, false_or, ↓reduceIte, Option.none_or]

/-! ### Texts made of lines -/

/-- The text is over or goes on with `c`. -/
def Opens (c : α) (s : List α) : Prop := s = [] ∨ ∃ t, s = c :: t

/-- Nothing is detected, wherever the text is cut off. -/
def Silent (f : List α → Option β) (s : List α) : Prop := ∀ n, f (s.take n) = none

variable {c : α} {f : List α → Option β} {a b : List α}

theorem opens_cons (c : α) (s : List α) : Opens c (c :: s) := .inr ⟨s, rfl⟩

theorem Opens.take (h : Opens c b) (n : ℕ) : Opens c (b.take n) := by
  rcases h with rfl | ⟨t, rfl⟩
  · exact .inl List.take_nil
  · cases n with
    | zero => exact .inl rfl
    | succ n => exact .inr ⟨t.take n, rfl⟩

theorem opens_flatten (lines : List (List α)) : Opens c (lines.map (c :: ·)).flatten := by
  cases lines with
  | nil => exact .inl rfl
  | cons l lines => exact opens_cons c _

theorem SplitsAt.append (h : SplitsAt c f) (hb : Opens c b) : f (a ++ b) = (f a).or (f b) := by
  rcases hb with rfl | ⟨t, rfl⟩
  · rw [List.append_nil, h.nil, Option.or_none]
  · exact h.split a t

theorem SplitsAt.silent_append (h : SplitsAt c f) (hb : Opens c b) (hsa : Silent f a)
    (hsb : Silent f b) : Silent f (a ++ b) := by
  intro n
  rw [List.take_append, h.append (hb.take _), hsa, hsb, Option.or_none]

theorem SplitsAt.silent_flatten (h : SplitsAt c f) {lines : List (List α)}
    (hl : ∀ l ∈ lines, Silent f (c :: l)) : Silent f (lines.map (c :: ·)).flatten := by
  induction lines with
  | nil =>
    intro n
    rw [List.map_nil, List.flatten_nil, List.take_nil, h.nil]
  | cons l lines ih =>
    rw [List.map_cons, List.flatten_cons]
    exact h.silent_append (opens_flatten lines) (hl l List.mem_cons_self)
      (ih fun l' hl' => hl l' (List.mem_cons_of_mem l hl'))

/-- Of a text cut off anywhere only one line matters when all others are silent. -/
theorem SplitsAt.between (h : SplitsAt c f) {line : List α} (hsa : Silent f a)
    (hsb : Silent f b) (hline : Opens c line) (hb : Opens c b) (n : ℕ) :
    f ((a ++ line ++ b).take n) = f (line.take (n - a.length)) := by
  rw [List.take_append, List.take_append, h.append (hb.take _), h.append (hline.take _), hsa, hsb,
    Option.or_none, Option.none_or]

theorem silent_of_not_infix [DecidableEq α] {marker : List α}
    (hf : ∀ s, ¬marker <:+: s → f s = none) (h : ¬marker <:+: a) : Silent f a :=
  fun n => hf _ fun hi => h (hi.trans (List.take_prefix n a).isInfix)

end AlteraWorkshops.Text
