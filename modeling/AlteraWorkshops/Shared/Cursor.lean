import Mathlib.Data.Bool.Basic
import Mathlib.Data.Nat.Basic
import Mathlib.Logic.Function.Basic
import Mathlib.Tactic.Common

/-! A cursor that two clients share. Each client rewinds the cursor once and then
takes `n` items, and every take moves the cursor on, wrapping after `n`. The clients
know nothing of each other, so a client gets its own items only while the other one
stays away from the cursor. -/

namespace AlteraWorkshops.Shared

inductive Move
  | rewind | take
  deriving DecidableEq

/-- The cursor, and the items each client has taken since its rewind, if it has
rewound. -/
structure Cursor where
  position : ℕ
  taken : Bool → Option ℕ

variable {n : ℕ} {s : Cursor} {c : Bool} {m : Move} {l : List (Bool × Move)}

def Cursor.move (n : ℕ) (s : Cursor) (c : Bool) : Move → Cursor
  | .rewind => ⟨0, Function.update s.taken c (some 0)⟩
  | .take => ⟨(s.position + 1) % n, Function.update s.taken c ((s.taken c).map (· + 1))⟩

/-- A client rewinds first, and takes at most `n` items. -/
def Allowed (n : ℕ) (k : Option ℕ) : Move → Prop
  | .rewind => k = none
  | .take => ∃ j, k = some j ∧ j < n

/-- Both clients run their sequence from `s` to its end, in some interleaving. -/
def Ordered (n : ℕ) (s : Cursor) : List (Bool × Move) → Prop
  | [] => ∀ c, s.taken c = some n
  | (c, m) :: l => Allowed n (s.taken c) m ∧ Ordered n (s.move n c m) l

/-- Every item taken is the next one of the client that takes it. -/
def OwnItems (n : ℕ) (s : Cursor) : List (Bool × Move) → Prop
  | [] => True
  | (c, m) :: l => (m = .take → s.taken c = some s.position) ∧ OwnItems n (s.move n c m) l

/-- Some of the items are taken, and some are not. -/
def Mid (n : ℕ) (k : Option ℕ) : Prop := ∃ j, k = some j ∧ 0 < j ∧ j < n

/-- No client moves the cursor while the other one is amid its items. -/
def Uninterrupted (n : ℕ) (s : Cursor) : List (Bool × Move) → Prop
  | [] => True
  | (c, m) :: l => ¬Mid n (s.taken !c) ∧ Uninterrupted n (s.move n c m) l

instance : DecidablePred (Mid n) := fun k =>
  match k with
  | none => isFalse fun ⟨_, h, _⟩ => by cases h
  | some j => decidable_of_iff (0 < j ∧ j < n) ⟨fun h => ⟨j, rfl, h⟩, fun ⟨_, h, h'⟩ => by
      cases h
      exact h'⟩

instance decidableUninterrupted (n : ℕ) (s : Cursor) :
    (l : List (Bool × Move)) → Decidable (Uninterrupted n s l)
  | [] => isTrue trivial
  | (c, m) :: l =>
    have := decidableUninterrupted n (s.move n c m) l
    inferInstanceAs (Decidable (¬Mid n (s.taken !c) ∧ Uninterrupted n (s.move n c m) l))

/-! ### One move -/

@[simp] theorem Cursor.move_rewind_taken :
    (s.move n c .rewind).taken c = some 0 := Function.update_self _ _ _

@[simp] theorem Cursor.move_take_taken :
    (s.move n c .take).taken c = (s.taken c).map (· + 1) := Function.update_self _ _ _

@[simp] theorem Cursor.move_other : (s.move n c m).taken (!c) = s.taken !c := by
  have hne : (!c) ≠ c := by cases c <;> decide
  cases m <;> exact Function.update_of_ne hne _ _

/-- A client that takes its own item. -/
theorem move_take_own {j : ℕ} (hj : s.taken c = some j) (hown : s.taken c = some s.position) :
    s.position = j ∧ (s.move n c .take).taken c = some (j + 1) ∧
      (s.move n c .take).position = (j + 1) % n := by
  have hpos : s.position = j := Option.some.inj (hown.symm.trans hj)
  refine ⟨hpos, ?_, ?_⟩
  · rw [Cursor.move_take_taken, hj]
    rfl
  · rw [← hpos]
    rfl

theorem not_mid_zero : ¬Mid n (some 0) := fun ⟨_, h, h0, _⟩ => by
  cases h
  exact absurd h0 (lt_irrefl 0)

theorem eq_or_eq_not (b c : Bool) : b = c ∨ b = !c := by cases b <;> cases c <;> simp

/-! ### Uninterrupted clients get their own items -/

/-- The cursor is where the client amid its items needs it, and at the start when
there is none. -/
structure Settled (n : ℕ) (s : Cursor) : Prop where
  mid : ∀ c x, s.taken c = some x → 0 < x → x < n → s.position = x
  rest : (∀ c, ¬Mid n (s.taken c)) → (∃ c, s.taken c ≠ none) → s.position = 0

/-- A client that may take finds the cursor at its own item. -/
theorem Settled.ownItem (h : Settled n s) (hother : ¬Mid n (s.taken !c))
    (hm : Allowed n (s.taken c) .take) : s.taken c = some s.position := by
  obtain ⟨j, hj, hlt⟩ := hm
  rcases Nat.eq_zero_or_pos j with rfl | hpos
  · have h0 : s.position = 0 := by
      refine h.rest (fun b => ?_) ⟨c, by simp [hj]⟩
      rcases eq_or_eq_not b c with rfl | rfl
      · rw [hj]
        exact not_mid_zero
      · exact hother
    rw [hj, h0]
  · rw [hj, h.mid c j hj hpos hlt]

theorem Settled.move (h : Settled n s) (hother : ¬Mid n (s.taken !c))
    (hm : Allowed n (s.taken c) m) : Settled n (s.move n c m) := by
  have hother' : ¬Mid n ((s.move n c m).taken !c) := by rwa [Cursor.move_other]
  cases m with
  | rewind =>
    refine ⟨fun b x hx h0 hlt => ?_, fun _ _ => rfl⟩
    rcases eq_or_eq_not b c with rfl | rfl
    · rw [Cursor.move_rewind_taken, Option.some.injEq] at hx
      omega
    · exact absurd ⟨x, hx, h0, hlt⟩ hother'
  | take =>
    have hown := h.ownItem hother hm
    obtain ⟨j, hj, hlt⟩ := hm
    obtain ⟨-, htaken, hposition⟩ := move_take_own (n := n) hj hown
    refine ⟨fun b x hx h0 hlt' => ?_, fun hnone _ => ?_⟩
    · rcases eq_or_eq_not b c with rfl | rfl
      · rw [htaken, Option.some.injEq] at hx
        rw [hposition, hx, Nat.mod_eq_of_lt hlt']
      · exact absurd ⟨x, hx, h0, hlt'⟩ hother'
    · -- the last item has just been taken
      have hlast : j + 1 = n := by
        by_contra hne
        exact hnone c ⟨j + 1, htaken, by omega, by omega⟩
      rw [hposition, hlast, Nat.mod_self]

theorem ownItems_of_uninterrupted (h : Settled n s) (ho : Ordered n s l)
    (hu : Uninterrupted n s l) : OwnItems n s l := by
  induction l generalizing s with
  | nil => trivial
  | cons e l ih =>
    obtain ⟨c, m⟩ := e
    refine ⟨fun hm => ?_, ih (h.move hu.1 ho.1) ho.2 hu.2⟩
    subst hm
    exact h.ownItem hu.1 ho.1

/-! ### An interruption is never repaired -/

/-- The cursor follows the client that interrupted, and no rewind is left. -/
def Doomed (n : ℕ) (s : Cursor) : Prop :=
  ∃ c x y, s.taken c = some x ∧ 0 < x ∧ x < n ∧ s.taken (!c) = some y ∧ y ≤ n ∧
    s.position = y % n

theorem Doomed.move (h : Doomed n s) (hm : Allowed n (s.taken c) m)
    (hown : m = .take → s.taken c = some s.position) : Doomed n (s.move n c m) := by
  obtain ⟨b, x, y, hx, hx0, hxn, hy, hyn, hp⟩ := h
  cases m with
  | rewind =>
    have hnone : s.taken c = none := hm
    rcases eq_or_eq_not c b with rfl | rfl
    · rw [hx] at hnone
      cases hnone
    · rw [hy] at hnone
      cases hnone
  | take =>
    obtain ⟨j, hj, hlt⟩ := hm
    obtain ⟨hjp, htaken, hposition⟩ := move_take_own (n := n) hj (hown rfl)
    rcases eq_or_eq_not c b with rfl | rfl
    · -- the interrupted client takes: from now on it is the interrupter
      have hxj : x = j := by simpa [hx] using hj
      have hy' : y = j := by
        rcases Nat.eq_or_lt_of_le hyn with rfl | hlt'
        · rw [Nat.mod_self] at hp
          omega
        · rw [Nat.mod_eq_of_lt hlt'] at hp
          omega
      refine ⟨!c, y, j + 1, ?_, by omega, by omega, ?_, by omega, hposition⟩
      · rw [Cursor.move_other, hy]
      · rw [Bool.not_not, htaken]
    · refine ⟨b, x, j + 1, ?_, hx0, hxn, htaken, by omega, hposition⟩
      have := Cursor.move_other (n := n) (s := s) (c := !b) (m := .take)
      rw [Bool.not_not] at this
      rw [this, hx]

theorem not_ownItems_of_doomed (h : Doomed n s) (ho : Ordered n s l) : ¬OwnItems n s l := by
  induction l generalizing s with
  | nil =>
    obtain ⟨c, x, -, hx, -, hxn, -⟩ := h
    have hn := ho c
    rw [hx, Option.some.injEq] at hn
    omega
  | cons e l ih =>
    obtain ⟨c, m⟩ := e
    exact fun hown => ih (h.move ho.1 hown.1) ho.2 hown.2

/-- A move while the other client is amid its items dooms both. -/
theorem doomed_of_mid (hmid : Mid n (s.taken !c)) (hm : Allowed n (s.taken c) m)
    (hown : m = .take → s.taken c = some s.position) : Doomed n (s.move n c m) := by
  obtain ⟨x, hx, hx0, hxn⟩ := hmid
  have hother : (s.move n c m).taken (!c) = some x := by rw [Cursor.move_other, hx]
  cases m with
  | rewind =>
    refine ⟨!c, x, 0, hother, hx0, hxn, ?_, Nat.zero_le _, (Nat.zero_mod n).symm⟩
    rw [Bool.not_not, Cursor.move_rewind_taken]
  | take =>
    obtain ⟨j, hj, hlt⟩ := hm
    obtain ⟨-, htaken, hposition⟩ := move_take_own (n := n) hj (hown rfl)
    exact ⟨!c, x, j + 1, hother, hx0, hxn, by rw [Bool.not_not, htaken], hlt, hposition⟩

theorem uninterrupted_of_ownItems (ho : Ordered n s l) (hown : OwnItems n s l) :
    Uninterrupted n s l := by
  induction l generalizing s with
  | nil => trivial
  | cons e l ih =>
    obtain ⟨c, m⟩ := e
    refine ⟨fun hmid => ?_, ih ho.2 hown.2⟩
    exact not_ownItems_of_doomed (doomed_of_mid hmid ho.1 hown.1) ho.2 hown.2

/-- Before the first rewind. -/
theorem settled_start (p : ℕ) : Settled n ⟨p, fun _ => none⟩ where
  mid _ _ h := by cases h
  rest _ h := by
    obtain ⟨_, h⟩ := h
    exact absurd rfl h

/-- Both clients get their own items exactly when neither interrupts the other. -/
theorem ownItems_iff_uninterrupted {p : ℕ} (ho : Ordered n ⟨p, fun _ => none⟩ l) :
    OwnItems n ⟨p, fun _ => none⟩ l ↔ Uninterrupted n ⟨p, fun _ => none⟩ l :=
  ⟨uninterrupted_of_ownItems ho, ownItems_of_uninterrupted (settled_start p) ho⟩

end AlteraWorkshops.Shared
