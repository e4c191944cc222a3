/-
# Numbered streams

`Ascends num lo hi l`: the numbers of the items of `l` rise strictly, from above `lo` to at
most `hi`.  So a stream in flight looks between a receiver that has seen `lo` and a sender
that has come to `hi`: what is sent is appended (`Ascends.append`), and what is received is taken
from the front.
-/

import Mathlib.Order.Basic
import Mathlib.Tactic.Basic

namespace SidecarDOS
namespace Library

variable {α β : Type} [Preorder α] {num : β → α} {lo mid hi hi' : α} {l l' : List β}

def Ascends (num : β → α) : α → α → List β → Prop
  | lo, hi, [] => lo ≤ hi
  | lo, hi, x :: xs => lo < num x ∧ Ascends num (num x) hi xs

namespace Ascends

theorem le (h : Ascends num lo hi l) : lo ≤ hi := by
  induction l generalizing lo with
  | nil => exact h
  | cons x l ih => exact h.1.le.trans (ih h.2)

theorem mono (h : Ascends num lo hi l) (hle : hi ≤ hi') : Ascends num lo hi' l := by
  induction l generalizing lo with
  | nil => exact le_trans h hle
  | cons x l ih => exact ⟨h.1, ih h.2⟩

theorem append (h : Ascends num lo mid l) (h' : Ascends num mid hi l') :
    Ascends num lo hi (l ++ l') := by
  induction l generalizing lo with
  | cons x l ih => exact ⟨h.1, ih h.2⟩
  | nil =>
    cases l' with
    | nil => exact le_trans h h'
    | cons y l' => exact ⟨lt_of_le_of_lt h h'.1, h'.2⟩

theorem single {x : β} (hlo : lo < num x) (hhi : num x ≤ hi) : Ascends num lo hi [x] := ⟨hlo, hhi⟩

/-- The numbers lie between the ends. -/
theorem mem (h : Ascends num lo hi l) {x : β} (hx : x ∈ l) : lo < num x ∧ num x ≤ hi := by
  induction l generalizing lo with
  | nil => exact absurd hx List.not_mem_nil
  | cons y l ih =>
    obtain ⟨hlt, htail⟩ := h
    rcases List.mem_cons.1 hx with rfl | hx
    · exact ⟨hlt, le htail⟩
    · obtain ⟨hy, hle⟩ := ih htail hx
      exact ⟨hlt.trans hy, hle⟩

/-- The upper end may come down to the items. -/
theorem bounded (h : Ascends num lo hi l) (hlo : lo ≤ hi') (hl : ∀ x ∈ l, num x ≤ hi') :
    Ascends num lo hi' l := by
  induction l generalizing lo with
  | nil => exact hlo
  | cons x l ih =>
    exact ⟨h.1, ih h.2 (hl x List.mem_cons_self) fun y hy => hl y (List.mem_cons_of_mem x hy)⟩

/-- A stream between equal numbers is empty. -/
theorem eq_nil (h : Ascends num lo hi l) (hle : hi ≤ lo) : l = [] := by
  cases l with
  | nil => rfl
  | cons x l =>
    have hx := h.mem List.mem_cons_self
    exact absurd (hx.1.trans_le (hx.2.trans hle)) (lt_irrefl lo)

end Ascends
end Library
end SidecarDOS
