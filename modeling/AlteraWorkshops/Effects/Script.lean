import Mathlib.Data.List.Basic
import Mathlib.Tactic.Common

/-! Programs that act on their surroundings and may stop early. What a program does is a
list of events; what it learns may depend on everything that happened before. A statement
about a program is about the events it adds and about how it ends, and is put together from
statements about its parts. -/

namespace AlteraWorkshops.Effects

variable {ε σ α β : Type}

/-- A program started after some events: its result, or why it stopped, and the events that
it adds. -/
def Script (ε σ α : Type) := List ε → Except σ α × List ε

namespace Script

/-! ### Programs -/

instance : Monad (Script ε σ) where
  pure a _ := (.ok a, [])
  bind m f l :=
    match m l with
    | (.ok a, e) => ((f a (l ++ e)).1, e ++ (f a (l ++ e)).2)
    | (.error s, e) => (.error s, e)

def stop (s : σ) : Script ε σ α := fun _ => (.error s, [])

def emit (e : ε) : Script ε σ Unit := fun _ => (.ok (), [e])

/-- An event that brings an answer. -/
def ask (answer : List ε → β) (event : β → ε) : Script ε σ β :=
  fun l => (.ok (answer l), [event (answer l)])

/-- `m` where the condition holds. -/
def when (c : Prop) [Decidable c] (m : Script ε σ Unit) : Script ε σ Unit :=
  if c then m else pure ()

/-- `body` for `0` up to `n - 1`. -/
def forRange : ℕ → (ℕ → Script ε σ Unit) → Script ε σ Unit
  | 0, _ => pure ()
  | n + 1, body => do
    forRange n body
    body n

/-- `body` for `i`, `i + 1` and so on while the test holds, in at most `fuel` rounds; the result
is whether the test ended the loop. -/
def forWhile (test : ℕ → Bool) (body : ℕ → Script ε σ Unit) : ℕ → ℕ → Script ε σ Bool
  | 0, _ => pure false
  | fuel + 1, i => if test i then body i >>= fun _ => forWhile test body fuel (i + 1) else pure true

theorem bind_apply (m : Script ε σ α) (f : α → Script ε σ β) (l : List ε) :
    (m >>= f) l = match m l with
      | (.ok a, e) => ((f a (l ++ e)).1, e ++ (f a (l ++ e)).2)
      | (.error s, e) => (.error s, e) := rfl

theorem bind_of_ok {m : Script ε σ α} {l e : List ε} {a : α} (h : m l = (.ok a, e))
    (f : α → Script ε σ β) : (m >>= f) l = ((f a (l ++ e)).1, e ++ (f a (l ++ e)).2) := by
  rw [bind_apply, h]

theorem bind_of_error {m : Script ε σ α} {l e : List ε} {s : σ} (h : m l = (.error s, e))
    (f : α → Script ε σ β) : (m >>= f) l = (.error s, e) := by
  rw [bind_apply, h]

theorem stop_bind (s : σ) (f : α → Script ε σ β) : (stop s : Script ε σ α) >>= f = stop s := rfl

instance : LawfulMonad (Script ε σ) := by
  refine LawfulMonad.mk' _ (fun m => ?_) (fun a f => ?_) fun m f g => ?_
  · funext l
    change (m >>= pure) l = m l
    rcases hm : m l with ⟨s | a, e⟩
    · exact bind_of_error hm pure
    · rw [bind_of_ok hm]
      exact congrArg (Prod.mk _) (List.append_nil e)
  · funext l
    have hpure : (pure a : Script ε σ _) l = (.ok a, []) := rfl
    rw [bind_of_ok hpure, List.append_nil, List.nil_append]
  · funext l
    rcases hm : m l with ⟨s | a, e⟩
    · rw [bind_of_error (bind_of_error hm f) g, bind_of_error hm]
    · rw [bind_of_ok hm]
      rcases hf : f a (l ++ e) with ⟨s | b, e'⟩
      · rw [bind_of_error hf]
        exact bind_of_error ((bind_of_ok hm f).trans (by rw [hf])) g
      · rw [bind_of_ok hf, bind_of_ok ((bind_of_ok hm f).trans (by rw [hf])) g]
        simp only [List.append_assoc]

/-- The first round of a loop apart. -/
theorem forRange_succ (n : ℕ) (body : ℕ → Script ε σ Unit) :
    forRange (n + 1) body = body 0 >>= fun _ => forRange n fun k => body (k + 1) := by
  induction n with
  | zero =>
    change (pure () >>= fun _ => body 0) = body 0 >>= fun _ => pure ()
    rw [pure_bind, bind_pure]
  | succ n ih =>
    change (forRange (n + 1) body >>= fun _ => body (n + 1)) = _
    rw [ih, bind_assoc]
    rfl

/-- The first `n` rounds of a loop whose test holds as often. -/
theorem forWhile_add {test : ℕ → Bool} {body : ℕ → Script ε σ Unit} {n i : ℕ} (fuel : ℕ)
    (htest : ∀ k < n, test (k + i) = true) : forWhile test body (n + fuel) i =
      forRange n (fun k => body (k + i)) >>= fun _ => forWhile test body fuel (n + i) := by
  induction n generalizing i with
  | zero => rw [Nat.zero_add, Nat.zero_add, forRange, pure_bind]
  | succ n ih =>
    have hfirst : test i = true := by simpa using htest 0 (Nat.succ_pos n)
    have hrest := ih (i := i + 1) fun k hk => by
      rw [Nat.add_left_comm, Nat.add_comm i]
      exact htest (k + 1) (Nat.succ_lt_succ hk)
    rw [Nat.add_right_comm, forWhile, if_pos hfirst, hrest, forRange_succ, bind_assoc, Nat.zero_add]
    simp only [Nat.add_right_comm _ 1 i, Nat.add_assoc]

/-- A loop whose test holds `n` times and no more. -/
theorem forWhile_eq_forRange {test : ℕ → Bool} {body : ℕ → Script ε σ Unit} {n fuel i : ℕ}
    (hfuel : n < fuel) (htest : ∀ k < n, test (k + i) = true) (hend : test (n + i) = false) :
    forWhile test body fuel i = forRange n (fun k => body (k + i)) >>= fun _ => pure true := by
  obtain ⟨m, rfl⟩ : ∃ m, fuel = n + (m + 1) := ⟨fuel - n - 1, by omega⟩
  rw [forWhile_add (m + 1) htest, forWhile, hend]
  rfl

/-- A loop whose test always holds. -/
theorem forWhile_of_always {test : ℕ → Bool} {body : ℕ → Script ε σ Unit} {i : ℕ} (fuel : ℕ)
    (htest : ∀ k, test (k + i) = true) : forWhile test body fuel i =
      forRange fuel (fun k => body (k + i)) >>= fun _ => pure false :=
  forWhile_add 0 fun k _ => htest k

/-- A check that stops. -/
theorem when_stop_bind {c : Prop} [Decidable c] (h : c) (s : σ) (f : Unit → Script ε σ β) :
    when c (stop s) >>= f = stop s := by
  rw [when, if_pos h, stop_bind]

theorem when_bind_of_not {c : Prop} [Decidable c] (h : ¬c) (m : Script ε σ Unit)
    (f : Unit → Script ε σ β) : when c m >>= f = f () := by
  rw [when, if_neg h, pure_bind]

/-! ### Statements about programs -/

/-- After the events `l` the program adds events and ends in a way that satisfy `Q`. -/
structure Ends (m : Script ε σ α) (l : List ε) (Q : Except σ α → List ε → Prop) : Prop where
  holds : Q (m l).1 (m l).2

/-- `P` of the events of a program that ends, `E` of those of one that stops early. -/
def Outcome (P E : List ε → Prop) : Except σ α → List ε → Prop
  | .ok _, e => P e
  | .error _, e => E e

variable {l : List ε} {Q R : Except σ α → List ε → Prop} {m : Script ε σ α}

namespace Ends

theorem pure {a : α} (h : Q (.ok a) []) : Ends (Pure.pure a) l Q := ⟨h⟩

theorem stop {s : σ} (h : Q (.error s) []) : Ends (Script.stop s) l Q := ⟨h⟩

theorem emit {e : ε} {Q : Except σ Unit → List ε → Prop} (h : Q (.ok ()) [e]) :
    Ends (Script.emit e) l Q := ⟨h⟩

theorem ask {answer : List ε → α} {event : α → ε}
    (h : Q (.ok (answer l)) [event (answer l)]) : Ends (Script.ask answer event) l Q := ⟨h⟩

theorem when {c : Prop} [Decidable c] {m : Script ε σ Unit} {Q : Except σ Unit → List ε → Prop}
    (hpos : c → Ends m l Q) (hneg : ¬c → Q (.ok ()) []) : Ends (Script.when c m) l Q := by
  unfold Script.when
  split_ifs with h
  · exact hpos h
  · exact Ends.pure (hneg h)

theorem mono (h : Ends m l Q) (himp : ∀ r e, Q r e → R r e) : Ends m l R := ⟨himp _ _ h.holds⟩

theorem and (h : Ends m l Q) (h' : Ends m l R) : Ends m l fun r e => Q r e ∧ R r e :=
  ⟨h.holds, h'.holds⟩

/-- One program after another. -/
theorem bind {f : α → Script ε σ β} {Q : Except σ β → List ε → Prop} (h : Ends m l R)
    (hok : ∀ a e, R (.ok a) e → Ends (f a) (l ++ e) fun r e' => Q r (e ++ e'))
    (herr : ∀ s e, R (.error s) e → Q (.error s) e) : Ends (m >>= f) l Q := by
  have hholds := h.holds
  rcases hm : m l with ⟨s | a, e⟩ <;> rw [hm] at hholds <;> constructor
  · rw [bind_of_error hm]
    exact herr s e hholds
  · rw [bind_of_ok hm]
    exact (hok a e hholds).holds

/-- After a program that does not stop. -/
theorem bind_ok {f : α → Script ε σ β} {Q : Except σ β → List ε → Prop} {a : α}
    {P : List ε → Prop} (h : Ends m l fun r e => r = .ok a ∧ P e)
    (hf : ∀ e, P e → Ends (f a) (l ++ e) fun r e' => Q r (e ++ e')) : Ends (m >>= f) l Q := by
  refine Ends.bind h ?_ fun s e hs => nomatch hs.1
  rintro _ e ⟨⟨⟩, he⟩
  exact hf e he

/-- After a program that cannot stop. -/
theorem bind_of_isEmpty [IsEmpty σ] {f : α → Script ε σ β} {Q : Except σ β → List ε → Prop}
    (h : Ends m l R) (hok : ∀ a e, R (.ok a) e → Ends (f a) (l ++ e) fun r e' => Q r (e ++ e')) :
    Ends (m >>= f) l Q := Ends.bind h hok fun s => isEmptyElim s

theorem emit_bind {e : ε} {f : Unit → Script ε σ β} {Q : Except σ β → List ε → Prop}
    (h : Ends (f ()) (l ++ [e]) fun r e' => Q r ([e] ++ e')) : Ends (Script.emit e >>= f) l Q := by
  refine Ends.bind_ok (Ends.emit (Q := fun r e' => r = .ok () ∧ e' = [e]) ⟨rfl, rfl⟩) ?_
  rintro _ rfl
  exact h

theorem ask_bind {answer : List ε → α} {event : α → ε} {f : α → Script ε σ β}
    {Q : Except σ β → List ε → Prop}
    (h : Ends (f (answer l)) (l ++ [event (answer l)]) fun r e => Q r ([event (answer l)] ++ e)) :
    Ends (Script.ask answer event >>= f) l Q := by
  refine Ends.bind_ok (a := answer l) (P := fun e => e = [event (answer l)])
    (Ends.ask ⟨rfl, rfl⟩) ?_
  rintro _ rfl
  exact h

/-- What the first of two programs makes sure of, whatever comes after it. -/
theorem bind_of_append {f : α → Script ε σ β} {P : List ε → Prop} (h : Ends m l fun _ e => P e)
    (hP : ∀ e e', P e → P (e ++ e')) : Ends (m >>= f) l fun _ e => P e :=
  Ends.bind h (fun _ e he => ⟨hP e _ he⟩) fun _ _ he => he

/-- What the second of two programs makes sure of, where the first one does not stop. -/
theorem bind_of_result {f : α → Script ε σ β} {Q : Except σ β → List ε → Prop} {a : α}
    (h : (m l).1 = .ok a) (hf : ∀ e, Ends (f a) (l ++ e) Q)
    (hQ : ∀ r e e', Q r e' → Q r (e ++ e')) : Ends (m >>= f) l Q := by
  refine Ends.bind_ok (P := fun _ => True) ⟨h, trivial⟩ fun e _ => ?_
  exact (hf e).mono fun r e' he' => hQ r e e' he'

/-- A loop: what holds of the first `j` rounds holds of the first `j + 1`. -/
theorem forRange {n : ℕ} {body : ℕ → Script ε σ Unit} {I : ℕ → List ε → Prop}
    {E : List ε → Prop} (h0 : I 0 [])
    (hstep : ∀ j e, j < n → I j e →
      Ends (body j) (l ++ e)
        (Outcome (fun e' => I (j + 1) (e ++ e')) fun e' => E (e ++ e'))) :
    Ends (Script.forRange n body) l (Outcome (I n) E) := by
  induction n with
  | zero => exact Ends.pure h0
  | succ n ih =>
    refine Ends.bind (ih fun j e hj => hstep j e (Nat.lt_succ_of_lt hj)) (fun _ e he => ?_)
      fun s e he => he
    apply (hstep n e (Nat.lt_succ_self n) he).mono
    intro r e' he'
    cases r with
    | ok _ => exact he'
    | error _ => exact he'

/-- A loop with a test whose rounds do not stop. -/
theorem forWhile_ok {test : ℕ → Bool} {body : ℕ → Script ε σ Unit} {I : ℕ → List ε → Prop}
    {fuel i : ℕ} (h : I i l)
    (hstep : ∀ j l, I j l → Ends (body j) l fun r e => r = .ok () ∧ I (j + 1) (l ++ e)) :
    Ends (Script.forWhile test body fuel i) l fun r _ => ∃ b, r = .ok b := by
  induction fuel generalizing i l with
  | zero => exact Ends.pure ⟨false, rfl⟩
  | succ fuel ih =>
    unfold Script.forWhile
    split_ifs
    · exact Ends.bind_ok (hstep i l h) fun _ he => ih he
    · exact Ends.pure ⟨true, rfl⟩

/-- A loop whose rounds do not stop. -/
theorem forRange_ok {n : ℕ} {body : ℕ → Script ε σ Unit}
    (h : ∀ j l, Ends (body j) l fun r _ => r = .ok ()) :
    Ends (Script.forRange n body) l fun r _ => r = .ok () := by
  induction n with
  | zero => exact Ends.pure rfl
  | succ n ih => exact Ends.bind_of_result ih.holds (fun _ => h n _) fun _ _ _ hr => hr

end Ends

/-! ### Events of one kind -/

/-- Whatever happened before, all the events that the program adds satisfy `P`. -/
def Emits (P : ε → Prop) (m : Script ε σ α) : Prop := ∀ l, Ends m l fun _ e => ∀ x ∈ e, P x

namespace Emits

variable {P : ε → Prop}

theorem pure (a : α) : Emits P (Pure.pure a : Script ε σ α) := fun _ =>
  Ends.pure fun _ hx => absurd hx List.not_mem_nil

theorem stop (s : σ) : Emits P (Script.stop s : Script ε σ α) := fun _ =>
  Ends.stop fun _ hx => absurd hx List.not_mem_nil

theorem emit {e : ε} (h : P e) : Emits P (Script.emit e : Script ε σ Unit) := fun _ =>
  Ends.emit fun _ hx => List.mem_singleton.mp hx ▸ h

theorem ask {answer : List ε → α} {event : α → ε} (h : ∀ a, P (event a)) :
    Emits P (Script.ask answer event : Script ε σ α) := fun _ =>
  Ends.ask fun _ hx => List.mem_singleton.mp hx ▸ h _

theorem when {c : Prop} [Decidable c] {m : Script ε σ Unit} (h : c → Emits P m) :
    Emits P (Script.when c m) := fun l =>
  Ends.when (fun hc => h hc l) fun _ _ hx => absurd hx List.not_mem_nil

theorem bind {f : α → Script ε σ β} (h : Emits P m) (hf : ∀ a, Emits P (f a)) :
    Emits P (m >>= f) := fun l =>
  Ends.bind (h l)
    (fun a e he => (hf a (l ++ e)).mono fun _ _ he' x hx =>
      (List.mem_append.mp hx).elim (he x) (he' x))
    fun _ _ he => he

theorem mono {P' : ε → Prop} (h : Emits P m) (himp : ∀ x, P x → P' x) : Emits P' m := fun l =>
  (h l).mono fun _ _ he x hx => himp x (he x hx)

theorem forRange {n : ℕ} {body : ℕ → Script ε σ Unit} (h : ∀ j < n, Emits P (body j)) :
    Emits P (Script.forRange n body) := by
  induction n with
  | zero => exact pure ()
  | succ n ih =>
    exact (ih fun j hj => h j (Nat.lt_succ_of_lt hj)).bind fun _ => h n (Nat.lt_succ_self n)

end Emits

/-! ### Stops of one kind -/

/-- Whatever happened before, every reason for which the program stops satisfies `P`. -/
def StopsFor (P : σ → Prop) (m : Script ε σ α) : Prop :=
  ∀ l, Ends m l fun r _ => ∀ s, r = .error s → P s

namespace StopsFor

variable {P : σ → Prop}

theorem pure (a : α) : StopsFor P (Pure.pure a : Script ε σ α) := fun _ => Ends.pure nofun

theorem stop {s : σ} (h : P s) : StopsFor P (Script.stop s : Script ε σ α) := fun _ =>
  Ends.stop fun _ hs => Except.error.inj hs ▸ h

theorem emit (e : ε) : StopsFor P (Script.emit e : Script ε σ Unit) := fun _ => Ends.emit nofun

theorem ask (answer : List ε → α) (event : α → ε) :
    StopsFor P (Script.ask answer event : Script ε σ α) := fun _ => Ends.ask nofun

theorem when {c : Prop} [Decidable c] {m : Script ε σ Unit} (h : c → StopsFor P m) :
    StopsFor P (Script.when c m) := fun l => Ends.when (fun hc => h hc l) fun _ => nofun

theorem bind {f : α → Script ε σ β} (h : StopsFor P m) (hf : ∀ a, StopsFor P (f a)) :
    StopsFor P (m >>= f) := fun l =>
  Ends.bind (h l) (fun a e _ => hf a (l ++ e)) fun _ _ hs _ hs' =>
    hs _ (congrArg _ (Except.error.inj hs'))

theorem forRange {n : ℕ} {body : ℕ → Script ε σ Unit} (h : ∀ j < n, StopsFor P (body j)) :
    StopsFor P (Script.forRange n body) := by
  induction n with
  | zero => exact pure ()
  | succ n ih =>
    exact (ih fun j hj => h j (Nat.lt_succ_of_lt hj)).bind fun _ => h n (Nat.lt_succ_self n)

end StopsFor

end Script

end AlteraWorkshops.Effects
