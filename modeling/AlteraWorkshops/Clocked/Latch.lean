import AlteraWorkshops.Clocked.Trace

/-! One-bit event flags. A flag has a set and a clear condition in every cycle;
the two flavours differ in which of them wins when both hold. Each is
characterized by the cycle of the set that is still remembered. -/

namespace AlteraWorkshops.Clocked

variable {q set clr : ℕ → Bool} {a b : ℕ}

theorem setDominant_iff (hab : a ≤ b)
    (hq : ∀ u, a ≤ u → u < b → q (u + 1) = (set u || (q u && !clr u))) :
    q b = true ↔ (∃ s, a ≤ s ∧ s < b ∧ set s = true ∧ ∀ u, s < u → u < b → clr u = false) ∨
      (q a = true ∧ ∀ u, a ≤ u → u < b → clr u = false) := by
  induction b, hab using Nat.le_induction with
  | base =>
    refine ⟨fun h => .inr ⟨h, fun u _ _ => by omega⟩, ?_⟩
    rintro (⟨s, h1, h2, -⟩ | ⟨h, -⟩)
    · omega
    · exact h
  | succ n hn ih =>
    have ih := ih (fun u h1 h2 => hq u h1 (by omega))
    rw [hq n hn (by omega)]
    simp only [Bool.or_eq_true, Bool.and_eq_true, Bool.not_eq_true', ih]
    constructor
    · rintro (hs | ⟨⟨s, h1, h2, h3, h4⟩ | ⟨h1, h2⟩, hc⟩)
      · exact .inl ⟨n, hn, by omega, hs, fun u _ _ => by omega⟩
      · refine .inl ⟨s, h1, by omega, h3, fun u hu hu' => ?_⟩
        rcases Nat.lt_succ_iff_lt_or_eq.mp hu' with hlt | rfl
        exacts [h4 u hu hlt, hc]
      · refine .inr ⟨h1, fun u hu hu' => ?_⟩
        rcases Nat.lt_succ_iff_lt_or_eq.mp hu' with hlt | rfl
        exacts [h2 u hu hlt, hc]
    · rintro (⟨s, h1, h2, h3, h4⟩ | ⟨h1, h2⟩)
      · rcases Nat.lt_succ_iff_lt_or_eq.mp h2 with hlt | rfl
        · exact .inr ⟨.inl ⟨s, h1, hlt, h3, fun u hu hu' => h4 u hu (by omega)⟩,
            h4 n hlt (by omega)⟩
        · exact .inl h3
      · exact .inr ⟨.inr ⟨h1, fun u hu hu' => h2 u hu (by omega)⟩, h2 n hn (by omega)⟩

theorem clearDominant_iff (hab : a ≤ b)
    (hq : ∀ u, a ≤ u → u < b → q (u + 1) = (!clr u && (set u || q u))) :
    q b = true ↔ (∃ s, a ≤ s ∧ s < b ∧ set s = true ∧ ∀ u, s ≤ u → u < b → clr u = false) ∨
      (q a = true ∧ ∀ u, a ≤ u → u < b → clr u = false) := by
  have hq' : ∀ u, a ≤ u → u < b →
      q (u + 1) = ((set u && !clr u) || (q u && !clr u)) := by
    intro u h1 h2
    rw [hq u h1 h2]
    cases clr u <;> cases set u <;> cases q u <;> rfl
  rw [setDominant_iff hab hq']
  refine or_congr_left ⟨?_, ?_⟩
  · rintro ⟨s, h1, h2, h3, h4⟩
    simp only [Bool.and_eq_true, Bool.not_eq_true'] at h3
    refine ⟨s, h1, h2, h3.1, fun u hu hu' => ?_⟩
    rcases hu.lt_or_eq with hlt | rfl
    exacts [h4 u hlt hu', h3.2]
  · rintro ⟨s, h1, h2, h3, h4⟩
    exact ⟨s, h1, h2, by simp [h3, h4 s le_rfl h2], fun u hu hu' => h4 u hu.le hu'⟩

end AlteraWorkshops.Clocked
