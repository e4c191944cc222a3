/-
# Bytes at an offset

`overwrite xs o ys` puts `ys` over `xs` from the offset `o` on, within `xs`: the length stays
the same (`length_overwrite`), the window is `ys` (`overwrite_within`) and everything else is as before
(`overwrite_outside`).  `toNat_join` puts a number together from a low byte and what is above it.
-/

import Mathlib.Algebra.Group.Nat.Defs
import Mathlib.Data.List.Basic

namespace SidecarDOS
namespace Library

variable {α : Type} {xs ys : List α} {o i : ℕ}

def overwrite (xs : List α) (o : ℕ) (ys : List α) : List α :=
  xs.take o ++ ys ++ xs.drop (o + ys.length)

theorem length_overwrite (h : o + ys.length ≤ xs.length) :
    (overwrite xs o ys).length = xs.length := by
  simp only [overwrite, List.length_append, List.length_take, List.length_drop]
  omega

theorem overwrite_within (h : o + ys.length ≤ xs.length) (hi : i < ys.length) :
    (overwrite xs o ys)[o + i]? = ys[i]? := by
  have htake : (xs.take o).length = o := List.length_take_of_le (by omega)
  rw [overwrite, List.append_assoc, List.getElem?_append_right (by omega), htake,
    Nat.add_sub_cancel_left, List.getElem?_append_left hi]

theorem overwrite_outside (h : o + ys.length ≤ xs.length) (hi : i < o ∨ o + ys.length ≤ i) :
    (overwrite xs o ys)[i]? = xs[i]? := by
  have htake : (xs.take o).length = o := List.length_take_of_le (by omega)
  rcases hi with hi | hi
  · rw [overwrite, List.append_assoc, List.getElem?_append_left (by omega),
      List.getElem?_take_of_lt hi]
  · rw [overwrite, List.getElem?_append_right (by rw [List.length_append]; omega),
      List.length_append, htake, List.getElem?_drop]
    congr 1
    omega

/-- The low byte and what is above it. -/
theorem toNat_join {a b : UInt32} (ha : a.toNat < 256) (hb : b.toNat < 2 ^ 24) :
    (a ||| b <<< 8).toNat = a.toNat + 256 * b.toNat := by
  have hshift : (b <<< 8).toNat = b.toNat <<< 8 := by
    have hlt : b.toNat * 2 ^ 8 < 2 ^ 32 := by omega
    rw [UInt32.toNat_shiftLeft, Nat.shiftLeft_eq, Nat.shiftLeft_eq]
    exact Nat.mod_eq_of_lt hlt
  rw [UInt32.toNat_or, hshift, Nat.or_comm, ← Nat.shiftLeft_add_eq_or_of_lt (i := 8) ha,
    Nat.shiftLeft_eq]
  omega

end Library
end SidecarDOS
