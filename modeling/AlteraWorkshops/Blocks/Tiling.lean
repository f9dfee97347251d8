import Mathlib.Data.List.Basic
import Mathlib.Algebra.Order.Group.Nat
import Mathlib.Algebra.BigOperators.Group.List.Basic
import Mathlib.Algebra.GroupWithZero.Nat
import Mathlib.Tactic.Common

/-! A list cut into blocks of one length: the blocks from the front on, with or without a
shorter one at the end, put together again are the list. Nothing here names what the list
holds. -/

namespace AlteraWorkshops.Blocks

variable {α β : Type*} {n : ℕ} {l c : List α}

/-- Block `j` of a list that is cut after every `n` elements. -/
def block (n : ℕ) (l : List α) (j : ℕ) : List α := (l.drop (j * n)).take n

theorem length_block (j : ℕ) : (block n l j).length = min n (l.length - j * n) := by
  rw [block, List.length_take, List.length_drop]

@[simp] theorem block_zero : block n l 0 = l.take n := by rw [block, Nat.zero_mul, List.drop_zero]

/-- Behind a whole block in front the others move up. -/
theorem block_append (hc : c.length = n) (j : ℕ) : block n (c ++ l) (j + 1) = block n l j := by
  have hdrop : (j + 1) * n = c.length + j * n := by rw [Nat.add_mul, hc, Nat.one_mul, Nat.add_comm]
  rw [block, hdrop, List.drop_length_add_append]
  rfl

/-- The first `m` blocks together. -/
theorem flatMap_block (m : ℕ) : (List.range m).flatMap (block n l) = l.take (m * n) := by
  induction m with
  | zero => rw [Nat.zero_mul, List.take_zero, List.range_zero, List.flatMap_nil]
  | succ m ih =>
    rw [List.range_succ, List.flatMap_append, ih, List.flatMap_singleton, Nat.add_mul, Nat.one_mul,
      List.take_add]
    rfl

/-- Enough blocks are the whole list. -/
theorem flatMap_block_eq {m : ℕ} (hm : l.length ≤ m * n) :
    (List.range m).flatMap (block n l) = l := by
  rw [flatMap_block, List.take_of_length_le hm]

/-- The lengths of enough blocks add up to the length of the list. -/
theorem sum_length_block {L m : ℕ} (hm : L ≤ m * n) :
    ((List.range m).map fun j => min n (L - j * n)).sum = L := by
  have hsum (k : ℕ) : ((List.range k).map fun j => min n (L - j * n)).sum = min L (k * n) := by
    induction k with
    | zero => rw [Nat.zero_mul, Nat.min_zero, List.range_zero, List.map_nil, List.sum_nil]
    | succ k ih =>
      rw [List.range_succ, List.map_append, List.sum_append, ih, List.map_singleton,
        List.sum_singleton, Nat.add_mul, Nat.one_mul]
      omega
  rw [hsum, Nat.min_eq_left hm]

theorem length_flatMap_of_length {f : β → List α} {xs : List β} (hf : ∀ x ∈ xs, (f x).length = n) :
    (xs.flatMap f).length = n * xs.length := by
  induction xs with
  | nil => rfl
  | cons x xs ih =>
    rw [List.flatMap_cons, List.length_append, hf x List.mem_cons_self,
      ih fun y hy => hf y (List.mem_cons_of_mem x hy), List.length_cons, Nat.mul_succ, Nat.add_comm]

/-! ### Whole blocks -/

/-- The whole blocks of a list; what is left at the end is dropped. -/
def blocks (n : ℕ) (l : List α) : List (List α) := (List.range (l.length / n)).map (block n l)

theorem length_of_mem_blocks {b : List α} (hb : b ∈ blocks n l) : b.length = n := by
  obtain ⟨j, hj, rfl⟩ := List.mem_map.mp hb
  have hle : (j + 1) * n ≤ l.length :=
    (Nat.mul_le_mul_right n (List.mem_range.mp hj)).trans (Nat.div_mul_le_self ..)
  rw [Nat.add_mul, Nat.one_mul] at hle
  rw [length_block]
  omega

theorem blocks_append (hn : 0 < n) (hc : c.length = n) : blocks n (c ++ l) = c :: blocks n l := by
  have hlen : (c ++ l).length / n = l.length / n + 1 := by
    rw [List.length_append, hc, Nat.add_comm, Nat.add_div_right _ hn]
  have hfirst : block n (c ++ l) 0 = c := by rw [block_zero, ← hc, List.take_left]
  rw [blocks, hlen, List.range_succ_eq_map, List.map_cons, hfirst, List.map_map]
  exact congrArg (c :: ·) (List.map_congr_left fun j _ => block_append hc j)

/-- Lists of one length, put together, are cut where they were joined. -/
theorem blocks_flatMap (hn : 0 < n) {f : β → List α} (hf : ∀ x, (f x).length = n) (xs : List β) :
    blocks n (xs.flatMap f) = xs.map f := by
  induction xs with
  | nil => simp [blocks]
  | cons x xs ih => rw [List.flatMap_cons, blocks_append hn (hf x), ih, List.map_cons]

end AlteraWorkshops.Blocks
