import Mathlib.Logic.Relation
import Mathlib.Tactic.Common

/-! Programs with loops as deterministic machines. A step goes on with another state or
ends with a result. A run that ends has one result, whichever way it is found; what an
invariant keeps going never ends; and two loops that go in step until they come to the same
state end the same way. -/

namespace AlteraWorkshops.Loops

variable {σ ρ : Type*}

/-- The run from a state ends with a result. -/
inductive Halts (step : σ → σ ⊕ ρ) : σ → ρ → Prop
  | done {s : σ} {r : ρ} (h : step s = .inr r) : Halts step s r
  | next {s s' : σ} {r : ρ} (h : step s = .inl s') (halts : Halts step s' r) : Halts step s r

def Terminates (step : σ → σ ⊕ ρ) (s : σ) : Prop := ∃ r, Halts step s r

/-- The run from a state comes through another one. -/
def Reaches (step : σ → σ ⊕ ρ) : σ → σ → Prop :=
  Relation.ReflTransGen fun s s' => step s = .inl s'

/-- The result of a run that ends within `n` steps. -/
def result (step : σ → σ ⊕ ρ) : ℕ → σ → Option ρ
  | 0, _ => none
  | n + 1, s =>
    match step s with
    | .inl s' => result step n s'
    | .inr r => some r

variable {step : σ → σ ⊕ ρ} {s s' s'' : σ} {r r' : ρ}

/-! ### Results -/

theorem halts_next (h : step s = .inl s') : Halts step s r ↔ Halts step s' r := by
  constructor
  · rintro (hdone | ⟨hnext, hrest⟩)
    · rw [h] at hdone
      cases hdone
    · rw [h] at hnext
      cases hnext
      exact hrest
  · exact .next h

theorem halts_done (h : step s = .inr r) : Halts step s r' ↔ r' = r := by
  constructor
  · rintro (hdone | ⟨hnext, -⟩)
    · rw [h] at hdone
      cases hdone
      rfl
    · rw [h] at hnext
      cases hnext
  · rintro rfl
    exact .done h

theorem Halts.unique (h : Halts step s r) (h' : Halts step s r') : r' = r := by
  induction h with
  | done hdone => exact (halts_done hdone).mp h'
  | next hnext _ ih => exact ih ((halts_next hnext).mp h')

theorem halts_iff_result : Halts step s r ↔ ∃ n, result step n s = some r := by
  constructor
  · intro h
    induction h with
    | done hdone => exact ⟨1, by rw [result, hdone]⟩
    | next hnext _ ih =>
      obtain ⟨n, hn⟩ := ih
      refine ⟨n + 1, ?_⟩
      rw [result, hnext]
      exact hn
  · rintro ⟨n, hn⟩
    induction n generalizing s with
    | zero => cases hn
    | succ n ih =>
      rw [result] at hn
      cases hstep : step s with
      | inl s' =>
        rw [hstep] at hn
        exact .next hstep (ih hn)
      | inr r' =>
        rw [hstep] at hn
        cases hn
        exact .done hstep

/-! ### Runs through a state -/

theorem Reaches.refl (s : σ) : Reaches step s s := Relation.ReflTransGen.refl

theorem Reaches.next (h : step s = .inl s') (hreach : Reaches step s' s'') : Reaches step s s'' :=
  Relation.ReflTransGen.head h hreach

theorem Reaches.one (h : step s = .inl s') : Reaches step s s' := .next h (.refl s')

/-- What comes before a state does not matter for how the run ends. -/
theorem Reaches.halts_iff (h : Reaches step s s') : Halts step s r ↔ Halts step s' r := by
  induction h using Relation.ReflTransGen.head_induction_on with
  | refl => rfl
  | head hnext _ ih => exact (halts_next hnext).trans ih

/-! ### Runs without an end -/

/-- States that always go on to such a state. -/
theorem not_terminates_of_invariant {P : σ → Prop}
    (hP : ∀ s, P s → ∃ s', step s = .inl s' ∧ P s') (hs : P s) : ¬Terminates step s := by
  rintro ⟨r, h⟩
  induction h with
  | done hdone =>
    obtain ⟨s', hnext, -⟩ := hP _ hs
    rw [hdone] at hnext
    cases hnext
  | next hnext _ ih =>
    obtain ⟨s', hnext', hs'⟩ := hP _ hs
    rw [hnext] at hnext'
    cases hnext'
    exact ih hs'

/-! ### Two loops -/

section Lockstep

variable {R : σ → σ → Prop}

theorem Halts.of_lockstep
    (hR : ∀ s t, R s t → step s = step t ∨ ∃ s' t', step s = .inl s' ∧ step t = .inl t' ∧ R s' t')
    {t : σ} (h : Halts step s r) (hst : R s t) : Halts step t r := by
  induction h generalizing t with
  | done hdone =>
    rcases hR _ _ hst with hsame | ⟨s', t', hs, -, -⟩
    · exact .done (hsame ▸ hdone)
    · rw [hdone] at hs
      cases hs
  | next hnext hrest ih =>
    rcases hR _ _ hst with hsame | ⟨s', t', hs, ht, hst'⟩
    · exact .next (hsame ▸ hnext) hrest
    · rw [hnext] at hs
      cases hs
      exact .next ht (ih hst')

/-- Two loops in step end the same way, or neither of them ends. -/
theorem halts_iff_of_lockstep
    (hR : ∀ s t, R s t → step s = step t ∨ ∃ s' t', step s = .inl s' ∧ step t = .inl t' ∧ R s' t')
    {t : σ} (hst : R s t) : Halts step s r ↔ Halts step t r := by
  have hswap : ∀ t s, R s t →
      step t = step s ∨ ∃ t' s', step t = .inl t' ∧ step s = .inl s' ∧ R s' t' := by
    intro t s h
    rcases hR s t h with hsame | ⟨s', t', hs, ht, h'⟩
    · exact .inl hsame.symm
    · exact .inr ⟨t', s', ht, hs, h'⟩
  exact ⟨fun h => h.of_lockstep hR hst,
    fun h => h.of_lockstep (R := fun t s => R s t) hswap hst⟩

end Lockstep

end AlteraWorkshops.Loops
