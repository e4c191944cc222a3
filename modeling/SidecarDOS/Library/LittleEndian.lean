/-
# Little-endian numerals of a fixed width

`toLE n v` is the little-endian layout of `v` in `n` bytes and `ofLE` reads a
layout of any width.  Each inverts the other: on numbers below `256 ^ n`
(`ofLE_toLE`) and on layouts of `n` bytes (`toLE_ofLE`); for a machine word the
two are one relation (`eq_ofLE_iff`).
-/

import SidecarDOS.Library.Scan
import Mathlib.Tactic.Ring

namespace SidecarDOS
namespace Library

/-- The `n` low bytes of `v`, the least significant first. -/
def toLE : ℕ → ℕ → List UInt8
  | 0, _ => []
  | n + 1, v => UInt8.ofNat v :: toLE n (v / 256)

/-- The number a little-endian layout stands for. -/
def ofLE : List UInt8 → ℕ
  | [] => 0
  | b :: bs => b.toNat + 256 * ofLE bs

@[simp] theorem length_toLE (n v : ℕ) : (toLE n v).length = n := by
  induction n generalizing v with
  | zero => rfl
  | succ n ih => rw [toLE, List.length_cons, ih]

theorem ofLE_lt (bs : List UInt8) : ofLE bs < 256 ^ bs.length := by
  induction bs with
  | nil => simp [ofLE]
  | cons b bs ih =>
    have hb : b.toNat < 256 := b.toNat_lt
    rw [ofLE, List.length_cons, Nat.pow_succ]
    omega

/-- Reading back a layout gives the number, reduced to the width. -/
theorem ofLE_toLE (n v : ℕ) : ofLE (toLE n v) = v % 256 ^ n := by
  induction n generalizing v with
  | zero => rw [toLE, ofLE, Nat.pow_zero, Nat.mod_one]
  | succ n ih =>
    have h : (UInt8.ofNat v).toNat = v % 256 := by simp
    rw [toLE, ofLE, ih, h, Nat.pow_succ, Nat.mul_comm (256 ^ n), Nat.mod_mul]

theorem ofLE_toLE_of_lt {n v : ℕ} (h : v < 256 ^ n) : ofLE (toLE n v) = v := by
  rw [ofLE_toLE, Nat.mod_eq_of_lt h]

/-- Every layout of `n` bytes is the layout of the number it stands for. -/
theorem toLE_ofLE (bs : List UInt8) : toLE bs.length (ofLE bs) = bs := by
  induction bs with
  | nil => rfl
  | cons b bs ih =>
    have hb : b.toNat < 256 := b.toNat_lt
    have hdiv : (b.toNat + 256 * ofLE bs) / 256 = ofLE bs := by omega
    have hmod : UInt8.ofNat (b.toNat + 256 * ofLE bs) = b := by
      apply UInt8.toNat_inj.1
      rw [UInt8.toNat_ofNat']
      omega
    rw [List.length_cons, ofLE, toLE, hdiv, hmod, ih]

variable {ε τ : Type} {n : ℕ} {toN : τ → ℕ} {ofN : ℕ → τ}

/-- For a word type `τ` of `n` bytes, reading a layout and laying out the word
are the same relation between words and layouts of `n` bytes. -/
theorem eq_ofLE_iff (hlt : ∀ v, toN v < 256 ^ n)
    (hof : ∀ v, ofN (toN v) = v) (hto : ∀ m, m < 256 ^ n → toN (ofN m) = m) {bs : List UInt8}
    (hbs : bs.length = n) (v : τ) : v = ofN (ofLE bs) ↔ toLE n (toN v) = bs := by
  constructor
  · rintro rfl
    rw [hto _ (hbs ▸ ofLE_lt bs), ← hbs, toLE_ofLE]
  · rintro rfl
    rw [ofLE_toLE_of_lt (hlt v), hof]

/-- A scanner of `n` raw bytes, read as a little-endian word, is exact for the
word's layout. -/
theorem Exact.word {m : Scan ε UInt8 (List UInt8)} (hm : Exact m (Format.block n))
    (hlt : ∀ v, toN v < 256 ^ n) (hof : ∀ v, ofN (toN v) = v)
    (hto : ∀ m, m < 256 ^ n → toN (ofN m) = m) :
    Exact (m >>= fun b => pure (ofN (ofLE b)))
      (⟨fun _ => True, fun v => toLE n (toN v)⟩ : Format UInt8 τ) := by
  refine hm.convert (fun a ha c b c' => ?_) fun b _ => ⟨toLE n (toN b), length_toLE _ _, rfl⟩
  rw [run_pure_ok, Prod.mk.injEq, eq_ofLE_iff hlt hof hto ha, true_and, and_comm]
  exact Iff.rfl

end Library
end SidecarDOS
