import AlteraWorkshops.Clocked.Trace

/-! The position under which `CNN_Convolution` sends the results of a matrix: kept from the
begin of the matrix to its last result, with one register for a matrix that begins before. -/

namespace AlteraWorkshops.Cnn

/-- `Out_Column`/`Out_Row`, their registers for the next matrix, and `Hold_Out_Position`. -/
structure OutPosition where
  out : ℕ × ℕ
  reg : ℕ × ℕ
  /-- 0 = waiting for new data, 1 = position loaded, 2 = loaded for this and the next one. -/
  hold : ℕ

namespace OutPosition

def initial : OutPosition := ⟨(0, 0), (0, 0), 0⟩

/-- `first`: a matrix begins; `done`: a last result goes out, and its assignments win. -/
def step (s : OutPosition) (first done : Bool) (position : ℕ × ℕ) : OutPosition :=
  let s' : OutPosition :=
    if first then
      if s.hold = 0 then { s with out := position, hold := 1 }
      else { s with reg := position, hold := 2 }
    else s
  if done then
    if s.hold = 2 then { s' with out := s.reg, hold := 1 } else { s' with hold := 0 }
  else s'

variable {s : ℕ → OutPosition} {first done : ℕ → Bool} {position : ℕ → ℕ × ℕ}
  {begins finish : ℕ → ℕ} {p t u : ℕ}

theorem step_quiet (s : OutPosition) (q : ℕ × ℕ) : s.step false false q = s := rfl

theorem step_first {s : OutPosition} (q : ℕ × ℕ) :
    s.step true false q =
      if s.hold = 0 then { s with out := q, hold := 1 } else { s with reg := q, hold := 2 } := rfl

theorem step_done {s : OutPosition} (q : ℕ × ℕ) :
    s.step false true q =
      if s.hold = 2 then { s with out := s.reg, hold := 1 } else { s with hold := 0 } := rfl

/-- Matrix `p` begins in edge `begins p`, and its last result goes out in edge `finish p`,
at most one matrix later. -/
structure Follows (s : ℕ → OutPosition) (first done : ℕ → Bool) (position : ℕ → ℕ × ℕ)
    (begins finish : ℕ → ℕ) : Prop where
  init : s 0 = initial
  next : ∀ t, s (t + 1) = (s t).step (first t) (done t) (position t)
  first_iff : ∀ t, first t = true ↔ ∃ p, t = begins p
  done_iff : ∀ t, done t = true ↔ ∃ p, t = finish p
  begins_lt : ∀ p, begins p < begins (p + 1)
  finish_lt : ∀ p, finish p < finish (p + 1)
  own : ∀ p, begins p < finish p
  late : ∀ p, finish p < begins (p + 2)

/-- From this edge on the position of matrix `p` is out. -/
def outFrom (begins finish : ℕ → ℕ) : ℕ → ℕ
  | 0 => begins 0
  | p + 1 => max (begins (p + 1)) (finish p)

namespace Follows

variable (h : Follows s first done position begins finish)

include h in
theorem first_eq_false (h1 : begins p < t) (h2 : t < begins (p + 1)) : first t = false := by
  rw [← Bool.not_eq_true, h.first_iff]
  rintro ⟨q, rfl⟩
  have hmono := strictMono_nat_of_lt_succ h.begins_lt
  have hlow := hmono.lt_iff_lt.mp h1
  have hhigh := hmono.lt_iff_lt.mp h2
  omega

include h in
theorem done_eq_false (h1 : p ≠ 0 → finish (p - 1) < t) (h2 : t < finish p) : done t = false := by
  rw [← Bool.not_eq_true, h.done_iff]
  rintro ⟨q, rfl⟩
  have hmono := strictMono_nat_of_lt_succ h.finish_lt
  have hhigh := hmono.lt_iff_lt.mp h2
  have hlow := hmono.lt_iff_lt.mp (h1 (by omega))
  omega

include h in
/-- Without an event nothing changes. -/
theorem eq_of_quiet (htu : t ≤ u) (hq : ∀ v, t ≤ v → v < u → first v = false ∧ done v = false) :
    s u = s t := by
  induction u, htu using Nat.le_induction with
  | base => rfl
  | succ u hu ih =>
    obtain ⟨hfirst, hdone⟩ := hq u hu (Nat.lt_succ_self u)
    rw [h.next, hfirst, hdone, step_quiet]
    exact ih fun v h1 h2 => hq v h1 (by omega)

include h in
/-- From its begin up to the next event a matrix is the only one. -/
theorem out_held (hs : (s (outFrom begins finish p + 1)).hold = 1 ∧
      (s (outFrom begins finish p + 1)).out = position (begins p))
    (h1 : outFrom begins finish p < t) (h2 : t ≤ begins (p + 1)) (h3 : t ≤ finish p) :
    (s t).hold = 1 ∧ (s t).out = position (begins p) := by
  have hsame : s t = s (outFrom begins finish p + 1) := by
    refine h.eq_of_quiet h1 fun v hv1 hv2 => ⟨?_, ?_⟩
    · refine h.first_eq_false (p := p) ?_ (by omega)
      cases p with
      | zero => exact hv1
      | succ p =>
        have hle : begins (p + 1) ≤ outFrom begins finish (p + 1) := le_max_left _ _
        omega
    · refine h.done_eq_false (p := p) (fun hp => ?_) (by omega)
      obtain ⟨q, rfl⟩ := Nat.exists_eq_succ_of_ne_zero hp
      exact lt_of_le_of_lt (le_max_right (begins (q + 1)) (finish q)) hv1
  rw [hsame]
  exact hs

include h in
/-- A matrix that begins before the last result of the one before has to wait. -/
theorem eq_waiting (hs : (s (begins (p + 1))).hold = 1 ∧
      (s (begins (p + 1))).out = position (begins p))
    (hlt : begins (p + 1) < finish p) (h1 : p ≠ 0 → finish (p - 1) < begins (p + 1))
    (ht1 : begins (p + 1) < t) (ht2 : t ≤ finish p) :
    s t = ⟨position (begins p), position (begins (p + 1)), 2⟩ := by
  have hfirst := (h.first_iff _).mpr ⟨p + 1, rfl⟩
  have hdone : done (begins (p + 1)) = false := h.done_eq_false h1 hlt
  have hlate := h.late p
  have hbegin : s (begins (p + 1) + 1) = ⟨position (begins p), position (begins (p + 1)), 2⟩ := by
    rw [h.next, hfirst, hdone, step_first, if_neg (by omega), hs.2]
  rw [← hbegin]
  refine h.eq_of_quiet ht1 fun v hv1 hv2 => ⟨?_, ?_⟩
  · exact h.first_eq_false (p := p + 1) hv1 (hv2.trans (ht2.trans_lt hlate))
  · exact h.done_eq_false (p := p) (fun hp => (h1 hp).trans hv1) (by omega)

include h in
/-- Up to the first begin nothing is held. -/
theorem hold_begins : (s (begins 0)).hold = 0 := by
  have hsame : s (begins 0) = s 0 := by
    refine h.eq_of_quiet (Nat.zero_le _) fun v _ hv => ⟨?_, ?_⟩
    · rw [← Bool.not_eq_true, h.first_iff]
      rintro ⟨q, rfl⟩
      have hle := (strictMono_nat_of_lt_succ h.begins_lt).monotone (Nat.zero_le q)
      omega
    · have hown := h.own 0
      exact h.done_eq_false (p := 0) (fun hne => absurd rfl hne) (by omega)
  rw [hsame, h.init]
  rfl

include h in
/-- If no matrix before `p` began in the edge of the last result of the one before, the
position of `p` is taken. -/
theorem out_after_outFrom (hne : ∀ q < p, finish q ≠ begins (q + 1)) :
    (s (outFrom begins finish p + 1)).hold = 1 ∧
      (s (outFrom begins finish p + 1)).out = position (begins p) := by
  induction p with
  | zero =>
    have hdone : done (begins 0) = false :=
      h.done_eq_false (p := 0) (fun hne => absurd rfl hne) (h.own 0)
    rw [outFrom, h.next, (h.first_iff _).mpr ⟨0, rfl⟩, hdone, step_first, if_pos h.hold_begins]
    exact ⟨rfl, rfl⟩
  | succ p ih =>
    have hlast := ih fun q hq => hne q (by omega)
    have hown := h.own p
    have hbegins := h.begins_lt p
    have hlate := h.late p
    have hbefore (hp : p ≠ 0) : finish (p - 1) < begins (p + 1) := by
      obtain ⟨q, rfl⟩ := Nat.exists_eq_succ_of_ne_zero hp
      exact h.late q
    have hfrom : outFrom begins finish p < begins (p + 1) ∧
        outFrom begins finish p < finish p := by
      cases p with
      | zero => exact ⟨hbegins, hown⟩
      | succ q => exact ⟨max_lt hbegins (h.late q), max_lt hown (h.finish_lt q)⟩
    rcases lt_trichotomy (finish p) (begins (p + 1)) with hlt | heq | hgt
    · -- the last result is out before the next matrix begins
      obtain ⟨hhold, -⟩ := h.out_held hlast hfrom.2 hlt.le le_rfl
      have hfirst : first (finish p) = false := h.first_eq_false hown hlt
      have hfree : (s (finish p + 1)).hold = 0 := by
        rw [h.next, hfirst, (h.done_iff _).mpr ⟨p, rfl⟩, step_done, if_neg (by omega)]
      have hsame : s (begins (p + 1)) = s (finish p + 1) := by
        refine h.eq_of_quiet hlt fun v hv1 hv2 => ⟨?_, ?_⟩
        · exact h.first_eq_false (p := p) (by omega) hv2
        · have hnext := h.own (p + 1)
          exact h.done_eq_false (p := p + 1) (fun _ => hv1) (by omega)
      have hdone : done (begins (p + 1)) = false :=
        h.done_eq_false (p := p + 1) (fun _ => hlt) (h.own _)
      rw [outFrom, max_eq_left hlt.le, h.next, (h.first_iff _).mpr ⟨p + 1, rfl⟩, hdone,
        step_first, hsame, if_pos hfree]
      exact ⟨rfl, rfl⟩
    · exact absurd heq (hne p (Nat.lt_succ_self p))
    · have hwaits := h.eq_waiting (h.out_held hlast hfrom.1 le_rfl hgt.le) hgt hbefore hgt le_rfl
      have hfirst : first (finish p) = false := h.first_eq_false (p := p + 1) hgt hlate
      rw [outFrom, max_eq_right hgt.le, h.next, hfirst, (h.done_iff _).mpr ⟨p, rfl⟩, step_done,
        hwaits, if_pos rfl]
      exact ⟨rfl, rfl⟩

include h in
/-- From then on it is out up to the last result. -/
theorem out_eq (hne : ∀ q < p, finish q ≠ begins (q + 1)) (h1 : outFrom begins finish p < t)
    (h2 : t ≤ finish p) : (s t).out = position (begins p) := by
  have htaken := h.out_after_outFrom hne
  rcases Nat.lt_or_ge (begins (p + 1)) t with hlt | hge
  · have hfrom : outFrom begins finish p < begins (p + 1) := by
      cases p with
      | zero => exact h.begins_lt 0
      | succ q => exact max_lt (h.begins_lt _) (h.late q)
    have hbefore (hp : p ≠ 0) : finish (p - 1) < begins (p + 1) := by
      obtain ⟨q, rfl⟩ := Nat.exists_eq_succ_of_ne_zero hp
      exact h.late q
    rw [h.eq_waiting (h.out_held htaken hfrom le_rfl (by omega)) (by omega) hbefore hlt h2]
  · exact (h.out_held htaken h1 hge h2).2

include h in
/-- A matrix that begins in the edge of the last result of the one before loses its
position: its results go out under that of the one before or of the next one. -/
theorem out_of_finish_eq (hne : ∀ q < p, finish q ≠ begins (q + 1))
    (heq : finish p = begins (p + 1)) (h1 : finish p < t) (h2 : t ≤ finish (p + 1)) :
    (s t).out =
      if t ≤ begins (p + 2) then position (begins p) else position (begins (p + 2)) := by
  have hown := h.own p
  have hbegins : begins (p + 1) < begins (p + 2) := h.begins_lt _
  have hfrom : outFrom begins finish p < finish p := by
    cases p with
    | zero => exact hown
    | succ q => exact max_lt hown (h.finish_lt q)
  obtain ⟨hhold, hout⟩ := h.out_held (h.out_after_outFrom hne) hfrom heq.le le_rfl
  have hafter : (s (finish p + 1)).hold = 0 ∧ (s (finish p + 1)).out = position (begins p) := by
    rw [h.next, (h.first_iff _).mpr ⟨p + 1, heq⟩, (h.done_iff _).mpr ⟨p, rfl⟩, step]
    simp only [if_true]
    rw [if_neg (show ¬(s (finish p)).hold = 2 by omega),
      if_neg (show ¬(s (finish p)).hold = 0 by omega)]
    exact ⟨rfl, hout⟩
  -- up to the next begin nothing is held
  have hfree (u : ℕ) (hu1 : finish p < u) (hu2 : u ≤ begins (p + 2)) (hu3 : u ≤ finish (p + 1)) :
      s u = s (finish p + 1) := by
    refine h.eq_of_quiet hu1 fun v hv1 hv2 => ⟨?_, ?_⟩
    · exact h.first_eq_false (p := p + 1) (by omega) (lt_of_lt_of_le hv2 hu2)
    · exact h.done_eq_false (p := p + 1) (fun _ => hv1) (by omega)
  split_ifs with hle
  · rw [hfree t h1 hle h2]
    exact hafter.2
  · have hlate : finish (p + 1) < begins (p + 2 + 1) := h.late (p + 1)
    have hdone : done (begins (p + 2)) = false :=
      h.done_eq_false (p := p + 1) (fun _ => by rw [Nat.add_sub_cancel]; omega) (by omega)
    have hbegin : (s (begins (p + 2) + 1)).out = position (begins (p + 2)) := by
      rw [h.next, (h.first_iff _).mpr ⟨p + 2, rfl⟩, hdone, step_first,
        hfree _ (by omega) le_rfl (by omega), if_pos hafter.1]
    rw [← hbegin]
    congr 1
    refine h.eq_of_quiet (not_le.mp hle) fun v hv1 hv2 => ⟨?_, ?_⟩
    · exact h.first_eq_false (p := p + 2) hv1 (by omega)
    · exact h.done_eq_false (p := p + 1) (fun _ => by rw [Nat.add_sub_cancel]; omega) (by omega)

end Follows

end OutPosition

end AlteraWorkshops.Cnn
