import Mathlib.Order.Monotone.Basic
import Mathlib.Tactic.Common

/-! A memory behind registers: a word is asked for, changed one cycle later, and written
back after two more. If no word is asked for while its change is on the way, the memory is
one that changes its words at once; bursts over its first words then change each of them
once, burst after burst. -/

namespace AlteraWorkshops.Clocked

variable {α : Type*} {ram : ℕ → ℕ → α} {wrAddr : ℕ → ℕ} {wrData : ℕ → α} {en : ℕ → Bool}
  {addr : ℕ → ℕ} {f : ℕ → α → α} {c k n t u : ℕ}

theorem kept (ram : ℕ → ℕ → α) (hram : ∀ t, ram (t + 1) =
      if en t then Function.update (ram t) (addr t) (wrData t) else ram t) (htu : t ≤ u)
    (hno : ∀ v, t ≤ v → v < u → en v = true → addr v ≠ c) : ram u c = ram t c := by
  induction u, htu using Nat.le_induction with
  | base => rfl
  | succ u hu ih =>
    rw [hram, ← ih fun v h1 h2 => hno v h1 (by omega)]
    split_ifs with hen
    · exact Function.update_of_ne (hno u hu (by omega) hen).symm _ _
    · rfl

/-- The requests `en`, `addr` of a memory, each for the change `f` of a word. Without a
request the last word is written again. -/
structure ReadModifyWrite (ram : ℕ → ℕ → α) (wrAddr : ℕ → ℕ) (wrData : ℕ → α) (en : ℕ → Bool)
    (addr : ℕ → ℕ) (f : ℕ → α → α) : Prop where
  write : ∀ t, ram (t + 1) = Function.update (ram t) (wrAddr t) (wrData t)
  wrAddr_eq : ∀ t, wrAddr (t + 2) = addr t
  wrData_eq : ∀ t, wrData (t + 2) = if en t then f t (ram (t + 1) (addr t)) else wrData (t + 1)
  held : ∀ t, en (t + 1) = false → addr (t + 1) = addr t
  fresh : ∀ t, en (t + 1) = true → addr (t + 1) = addr t → en t = false ∧ wrAddr (t + 1) = addr t

namespace ReadModifyWrite

theorem written (h : ReadModifyWrite ram wrAddr wrData en addr f) (t : ℕ) :
    ram (t + 3) = Function.update (ram (t + 2)) (addr t) (wrData (t + 2)) := by
  rw [h.write, h.wrAddr_eq]

theorem wrData_eq_ram (h : ReadModifyWrite ram wrAddr wrData en addr f) (t : ℕ) :
    wrData (t + 2) = ram (t + 3) (addr t) := by
  rw [h.written, Function.update_self]

/-- A request finds the word as it will be when the request before it is written. -/
theorem read_eq (h : ReadModifyWrite ram wrAddr wrData en addr f) (ht : en (t + 1) = true) :
    ram (t + 2) (addr (t + 1)) = ram (t + 3) (addr (t + 1)) := by
  rw [h.written]
  by_cases haddr : addr (t + 1) = addr t
  · obtain ⟨hen, hwr⟩ := h.fresh t ht haddr
    have hdata := h.wrData_eq t
    rw [hen, if_neg Bool.false_ne_true] at hdata
    rw [haddr, Function.update_self, hdata, h.write, hwr, Function.update_self]
  · rw [Function.update_of_ne haddr]

/-- The memory changes its words at once, three cycles after the request. -/
theorem atomic (h : ReadModifyWrite ram wrAddr wrData en addr f) (t : ℕ) :
    ram (t + 4) =
      if en (t + 1) then
        Function.update (ram (t + 3)) (addr (t + 1)) (f (t + 1) (ram (t + 3) (addr (t + 1))))
      else ram (t + 3) := by
  have hwritten := h.written (t + 1)
  have hdata := h.wrData_eq (t + 1)
  cases ht : en (t + 1) with
  | true =>
    rw [ht, if_pos rfl, h.read_eq ht] at hdata
    rw [hwritten, hdata, if_pos rfl]
  | false =>
    rw [ht, if_neg Bool.false_ne_true, show t + 1 + 1 = t + 2 from rfl, h.wrData_eq_ram t] at hdata
    rw [hwritten, hdata, h.held t ht, if_neg Bool.false_ne_true,
      Function.update_eq_self]

theorem stays (h : ReadModifyWrite ram wrAddr wrData en addr f) (htu : t ≤ u)
    (hno : ∀ v, t < v → v ≤ u → en v = false ∨ addr v ≠ c) : ram (u + 3) c = ram (t + 3) c := by
  induction u, htu using Nat.le_induction with
  | base => rfl
  | succ u hu ih =>
    rw [← ih fun v h1 h2 => hno v h1 (by omega), show u + 1 + 3 = u + 4 by omega, h.atomic]
    rcases hno (u + 1) (by omega) le_rfl with hoff | haddr
    · rw [hoff, if_neg Bool.false_ne_true]
    · split_ifs
      · rw [Function.update_of_ne haddr.symm]
      · rfl

/-- The next one who asks for a word finds what the one before made of it. -/
theorem found (h : ReadModifyWrite ram wrAddr wrData en addr f) (htu : t + 2 ≤ u)
    (hno : ∀ v, t < v → v < u → en v = false ∨ addr v ≠ addr t) :
    ram (u + 1) (addr t) = wrData (t + 2) := by
  obtain ⟨v, rfl⟩ : ∃ v, u = v + 2 := ⟨u - 2, by omega⟩
  rw [h.wrData_eq_ram]
  exact h.stays (u := v) (by omega) fun w h1 h2 => hno w h1 (by omega)

end ReadModifyWrite

/-! ### Bursts -/

/-- Burst `c` starts in cycle `start c` and goes over the first `n` words, one per cycle. -/
structure Bursts (n : ℕ) (start : ℕ → ℕ) (addr : ℕ → ℕ) : Prop where
  pos : 0 < n
  room : ∀ c, start c + n ≤ start (c + 1)
  addr_eq : ∀ c u, start c ≤ u → u < start (c + 1) → addr u = min (u - start c) (n - 1)

def Requests (n : ℕ) (start : ℕ → ℕ) (en : ℕ → Bool) : Prop :=
  ∀ c u, start c ≤ u → u < start (c + 1) → en u = decide (u < start c + n)

/-- Word `k` before burst `c`, which changes it by `g c k`. -/
def wordBefore (g : ℕ → ℕ → α → α) (w : ℕ → α) : ℕ → ℕ → α
  | 0, k => w k
  | c + 1, k => g c k (wordBefore g w c k)

variable {start : ℕ → ℕ} {g : ℕ → ℕ → α → α}

namespace Bursts

theorem addr_of_lt (h : Bursts n start addr) (c : ℕ) (hk : k < n) : addr (start c + k) = k := by
  have hroom := h.room c
  rw [h.addr_eq c _ (by omega) (by omega)]
  omega

theorem no_request (h : Bursts n start addr) (hen : Requests n start en) (hk : k < n)
    (h1 : start c + k < u)
    (h2 : u < start (c + 1) + k) : en u = false ∨ addr u ≠ k := by
  have hpos := h.pos
  have hroom := h.room (c + 1)
  rcases Nat.lt_or_ge u (start (c + 1)) with hlt | hge
  · rw [hen c u (by omega) hlt, h.addr_eq c u (by omega) hlt]
    rcases Nat.lt_or_ge u (start c + n) with hin | hout
    · exact .inr (by omega)
    · exact .inl (decide_eq_false (by omega))
  · rw [h.addr_eq (c + 1) u hge (by omega)]
    exact .inr (by omega)

/-- From its request in a burst to that in the next one a word has the value of the burst. -/
theorem words (h : Bursts n start addr) (hen : Requests n start en)
    (hm : ReadModifyWrite ram wrAddr wrData en addr f) (h0 : 0 < start 0)
    (hf : ∀ c, ∀ k < n, f (start c + k) = g c k) (hk : k < n)
    (h1 : start c + k ≤ u) (h2 : u < start (c + 1) + k) :
    ram (u + 3) k = wordBefore g (fun k => ram (start 0 + k + 2) k) (c + 1) k := by
  -- a burst finds the word as the burst before left it
  have hfirst (c : ℕ) (hpos : 0 < start c)
      (hold : ram (start c + k + 2) k =
        wordBefore g (fun k => ram (start 0 + k + 2) k) c k) :
      ram (start c + k + 3) k =
        wordBefore g (fun k => ram (start 0 + k + 2) k) (c + 1) k := by
    obtain ⟨v, hv⟩ : ∃ v, start c + k = v + 1 := ⟨start c + k - 1, by omega⟩
    have hroom := h.room c
    have hnow := hen c (start c + k) (by omega) (by omega)
    rw [decide_eq_true (by omega)] at hnow
    have haddr := h.addr_of_lt c hk
    have hchange := hf c k hk
    rw [hv] at hnow haddr hchange hold ⊢
    rw [show v + 1 + 3 = v + 4 by omega, hm.atomic, if_pos hnow, haddr, Function.update_self,
      hchange, show v + 3 = v + 1 + 2 by omega, hold]
    rfl
  have hstay (c u : ℕ) (h1 : start c + k ≤ u) (h2 : u < start (c + 1) + k) :
      ram (u + 3) k = ram (start c + k + 3) k :=
    hm.stays h1 fun v h3 h4 => h.no_request hen hk h3 (by omega)
  rw [hstay c u h1 h2]
  induction c generalizing u with
  | zero => exact hfirst 0 h0 rfl
  | succ c ih =>
    have hroom := h.room c
    have hlast := ih (u := start (c + 1) + k - 1) (by omega) (by omega)
    rw [← hstay c (start (c + 1) + k - 1) (by omega) (by omega)] at hlast
    refine hfirst (c + 1) (by omega) ?_
    rw [← hlast]
    congr 1
    omega

theorem wrData_eq (h : Bursts n start addr) (hen : Requests n start en)
    (hm : ReadModifyWrite ram wrAddr wrData en addr f) (h0 : 0 < start 0)
    (hf : ∀ c, ∀ k < n, f (start c + k) = g c k) (hk : k < n) :
    wrData (start c + k + 2) = wordBefore g (fun k => ram (start 0 + k + 2) k) (c + 1) k := by
  have hroom := h.room c
  have hword := h.words hen hm h0 hf hk (c := c) le_rfl (by omega)
  rw [hm.wrData_eq_ram, h.addr_of_lt c hk, hword]

/-! ### Plain writes -/

/-- A memory that is written in every cycle, with the data of the burst: from the write of
a word to that in the next burst it has the data. -/
theorem stored {β : Type*} (r : α → β) (val : ℕ → ℕ → β) (mem : ℕ → ℕ → α) (data : ℕ → α)
    (h : Bursts n start addr) (hw : ∀ t, mem (t + 1) = Function.update (mem t) (addr t) (data t))
    (hd : ∀ c u, start c ≤ u → u < start (c + 1) → r (data u) = val c (addr u)) (hk : k < n)
    (h1 : start c + k ≤ u) (h2 : u < start (c + 1) + k) : r (mem (u + 1) k) = val c k := by
  have hpos := h.pos
  have hroom := h.room c
  have hroom' := h.room (c + 1)
  induction u, h1 using Nat.le_induction with
  | base =>
    have haddr := h.addr_of_lt c hk
    rw [hw, haddr, Function.update_self, hd c _ (by omega) (by omega), haddr]
  | succ u hu ih =>
    rw [hw, Function.update_apply]
    split_ifs with haddr
    · have hin : u + 1 < start (c + 1) := by
        by_contra hge
        rw [h.addr_eq (c + 1) _ (by omega) (by omega)] at haddr
        omega
      rw [hd c _ (by omega) hin, ← haddr]
    · exact ih (by omega)

end Bursts

end AlteraWorkshops.Clocked
