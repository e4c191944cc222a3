/-
# Arithmetic that traps

Where a language checks its arithmetic, a result that has no room stops the program.  Here it
is an error of the caller's choice, and whoever shows that there is room goes on with the
number (`add_bind`, `sub_bind`, `narrow_bind`).  A loop whose turns never fail under an invariant
is the loop without the checks (`foldlM_eq`).
-/

import Mathlib.Algebra.Ring.Int.Defs
import Mathlib.Algebra.Ring.Nat

namespace SidecarDOS
namespace Library
namespace Checked

variable {ε α β σ : Type}

/-- A sum of natural numbers in `w` bits. -/
def add (w : ℕ) (e : ε) (x y : ℕ) : Except ε ℕ := if x + y < 2 ^ w then .ok (x + y) else .error e

/-- A difference of numbers without a sign. -/
def sub (e : ε) (x y : ℕ) : Except ε ℕ := if y ≤ x then .ok (x - y) else .error e

/-- The conversion of an integer to `w` bits without a sign. -/
def narrow (w : ℕ) (e : ε) (x : ℤ) : Except ε ℕ :=
  if 0 ≤ x ∧ x < 2 ^ w then .ok x.toNat else .error e

theorem ok_bind {a : α} {k : α → Except ε β} : Except.ok a >>= k = k a := rfl

variable {e : ε} {x y w : ℕ} {k : ℕ → Except ε β}

theorem add_bind (h : x + y < 2 ^ w) : add w e x y >>= k = k (x + y) := by
  rw [add, if_pos h]
  rfl

theorem sub_bind (h : y ≤ x) : sub e x y >>= k = k (x - y) := by
  rw [sub, if_pos h]
  rfl

theorem narrow_bind (hle : y ≤ x) (hlt : x - y < 2 ^ w) :
    narrow w e (x - y : ℤ) >>= k = k (x - y) := by
  have hcast : (x - y : ℤ) = ((x - y : ℕ) : ℤ) := (Int.ofNat_sub hle).symm
  have hroom : 0 ≤ (x - y : ℤ) ∧ (x - y : ℤ) < 2 ^ w := by
    rw [hcast]
    exact ⟨Int.natCast_nonneg _, by exact_mod_cast hlt⟩
  rw [narrow, if_pos hroom, hcast]
  rfl

/-- The rule of loops. -/
theorem foldlM_eq {f : σ → α → Except ε σ} {g : σ → α → σ} {I : σ → Prop}
    (hok : ∀ s a, I s → f s a = .ok (g s a)) (hkeep : ∀ s a, I s → I (g s a)) (l : List α)
    {s : σ} (h : I s) : l.foldlM f s = .ok (l.foldl g s) := by
  induction l generalizing s with
  | nil => rfl
  | cons a l ih =>
    rw [List.foldlM_cons, hok s a h]
    exact ih (hkeep s a h)

end Checked
end Library
end SidecarDOS
