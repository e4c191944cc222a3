/-
# A list cut into slices of one length

`slices n xs` cuts `xs` into pieces of `n` elements, the last one possibly
shorter.  The pieces put together again are the list (`flatten_slices`), none of
them is empty (`slice_ne_nil`) and each has at most `n` elements.
-/

import Mathlib.Algebra.Order.BigOperators.Group.Finset
import Mathlib.Data.List.Basic

namespace SidecarDOS
namespace Library

variable {β : Type}

/-- The `i`-th piece of `n` elements. -/
def slice (n : ℕ) (xs : List β) (i : ℕ) : List β := (xs.drop (i * n)).take n

/-- The number of pieces: `xs.length / n`, rounded up. -/
def sliceCount (n : ℕ) (xs : List β) : ℕ := (xs.length + n - 1) / n

def slices (n : ℕ) (xs : List β) : List (List β) := (List.range (sliceCount n xs)).map (slice n xs)

theorem length_slice_le (n : ℕ) (xs : List β) (i : ℕ) : (slice n xs i).length ≤ n :=
  List.length_take_le _ _

theorem sliceCount_pos {n : ℕ} {xs : List β} (hn : 0 < n) (hxs : xs ≠ []) :
    0 < sliceCount n xs := by
  have := List.length_pos_iff.2 hxs
  exact Nat.div_pos (by omega) hn

theorem mul_lt_of_lt_sliceCount {n i : ℕ} {xs : List β} (hi : i < sliceCount n xs) :
    i * n < xs.length := by
  have hn : 0 < n := by
    by_contra h
    rw [sliceCount, Nat.eq_zero_of_not_pos h, Nat.div_zero] at hi
    omega
  have := (Nat.le_div_iff_mul_le hn).1 (Nat.succ_le_of_lt hi)
  rw [Nat.succ_mul] at this
  omega

theorem slice_ne_nil {n i : ℕ} {xs : List β} (hi : i < sliceCount n xs) : slice n xs i ≠ [] := by
  have hlt := mul_lt_of_lt_sliceCount hi
  have hn : 0 < n := by
    by_contra h
    rw [sliceCount, Nat.eq_zero_of_not_pos h, Nat.div_zero] at hi
    omega
  intro h
  have := congrArg List.length h
  rw [slice, List.length_take, List.length_drop, List.length_nil] at this
  omega

/-- The pieces with their indices. -/
theorem zipIdx_slices (n : ℕ) (xs : List β) :
    (slices n xs).zipIdx = (List.range (sliceCount n xs)).map fun i => (slice n xs i, i) := by
  refine List.ext_getElem (by simp [slices]) fun i _ _ => ?_
  simp [slices]

/-- The first `k` pieces are a beginning of the list. -/
theorem flatMap_range_slice (n k : ℕ) (xs : List β) :
    (List.range k).flatMap (slice n xs) = xs.take (k * n) := by
  induction k with
  | zero => simp
  | succ k ih =>
    rw [List.range_succ, List.flatMap_append, ih, List.flatMap_singleton, Nat.succ_mul,
      List.take_add, slice]

/-- **Cut and put together again.** -/
theorem flatMap_slice {n : ℕ} (hn : 0 < n) (xs : List β) :
    (List.range (sliceCount n xs)).flatMap (slice n xs) = xs := by
  rw [flatMap_range_slice]
  refine List.take_of_length_le ?_
  rw [sliceCount]
  have := Nat.lt_div_mul_add hn (a := xs.length + n - 1)
  omega

/-- The lengths of the pieces add up. -/
theorem sum_length_slice {n : ℕ} (hn : 0 < n) (xs : List β) :
    ∑ i ∈ Finset.range (sliceCount n xs), (slice n xs i).length = xs.length := by
  have h := congrArg List.length (flatMap_slice hn xs)
  rw [List.length_flatMap] at h
  exact h

end Library
end SidecarDOS
