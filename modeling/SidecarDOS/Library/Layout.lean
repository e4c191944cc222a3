/-
# Records in memory

A `Layout` lays the values of a type out in a fixed number of bytes and reads them back.  The
elements of an array lie one behind another; the members of a record lie each at the next
offset that its alignment divides, and what is behind the last one is filled up to the strictest
alignment.  Padding is zero; a layout without any is `Packed`, and then all bytes of its size are
those of a value.
-/

import SidecarDOS.Library.LittleEndian
import Mathlib.Algebra.BigOperators.Group.List.Lemmas
import Mathlib.Data.List.OfFn
import Mathlib.Logic.Equiv.Defs

namespace SidecarDOS
namespace Library

variable {α β : Type*}

structure Layout (α : Type*) where
  size : ℕ
  align : ℕ
  put : α → List UInt8
  get : List UInt8 → α
  length_put : ∀ a, (put a).length = size
  get_put : ∀ a, get (put a) = a

/-- How far the next multiple of `align` is from `offset`. -/
def padding (offset align : ℕ) : ℕ := (align - offset % align) % align

/-- The members of a record from an offset on, and what is behind them. -/
structure Members (α : Type*) where
  size : ℕ → ℕ
  align : ℕ
  put : ℕ → α → List UInt8
  get : ℕ → List UInt8 → α
  length_put : ∀ offset a, (put offset a).length = size offset
  get_put : ∀ offset a rest, get offset (put offset a ++ rest) = a

namespace Layout

/-- A word of `n` bytes, the least significant first. -/
def word (n : ℕ) (toN : α → ℕ) (ofN : ℕ → α) (hlt : ∀ v, toN v < 256 ^ n)
    (hof : ∀ v, ofN (toN v) = v) : Layout α where
  size := n
  align := n
  put v := toLE n (toN v)
  get bytes := ofN (ofLE bytes)
  length_put v := length_toLE n (toN v)
  get_put v := by rw [ofLE_toLE_of_lt (hlt v), hof]

def u8 : Layout UInt8 := word 1 UInt8.toNat UInt8.ofNat UInt8.toNat_lt fun _ => UInt8.ofNat_toNat

def u16 : Layout UInt16 :=
  word 2 UInt16.toNat UInt16.ofNat UInt16.toNat_lt fun _ => UInt16.ofNat_toNat

def u32 : Layout UInt32 :=
  word 4 UInt32.toNat UInt32.ofNat UInt32.toNat_lt fun _ => UInt32.ofNat_toNat

def u64 : Layout UInt64 :=
  word 8 UInt64.toNat UInt64.ofNat UInt64.toNat_lt fun _ => UInt64.ofNat_toNat

/-- The same bytes for values that correspond. -/
def map (l : Layout α) (e : α ≃ β) : Layout β where
  size := l.size
  align := l.align
  put b := l.put (e.symm b)
  get bytes := e (l.get bytes)
  length_put b := l.length_put _
  get_put b := by rw [l.get_put, e.apply_symm_apply]

def i32 : Layout Int32 := u32.map ⟨UInt32.toInt32, Int32.toUInt32, fun _ => rfl, fun _ => rfl⟩

section Array

variable (n : ℕ) (l : Layout α)

/-- The elements of an array, one behind another. -/
def elements (a : Fin n → α) : List (List UInt8) := List.ofFn fun i => l.put (a i)

theorem lengths_elements (a : Fin n → α) :
    (l.elements n a).map List.length = List.replicate n l.size := by
  rw [elements, List.map_ofFn, ← List.ofFn_const]
  congr 1
  funext i
  exact l.length_put (a i)

/-- An element is what lies at its place. -/
theorem element_eq (a : Fin n → α) (i : Fin n) :
    ((l.elements n a).flatten.drop (i * l.size)).take l.size = l.put (a i) := by
  have hi : i.val < (l.elements n a).length := by
    rw [elements, List.length_ofFn]
    exact i.isLt
  have hsum (k : ℕ) (hk : k ≤ n) :
      (((l.elements n a).map List.length).take k).sum = k * l.size := by
    rw [lengths_elements, List.take_replicate, List.sum_replicate_nat, Nat.min_eq_left hk]
  have hslice := List.drop_take_succ_flatten_eq_getElem (l.elements n a) i hi
  rw [hsum i i.isLt.le, hsum (i + 1) i.isLt, List.drop_take, Nat.succ_mul,
    Nat.add_sub_cancel_left] at hslice
  rw [hslice]
  exact List.getElem_ofFn _

def array : Layout (Fin n → α) where
  size := n * l.size
  align := l.align
  put a := (l.elements n a).flatten
  get bytes i := l.get ((bytes.drop (i * l.size)).take l.size)
  length_put a := by
    rw [List.length_flatten, lengths_elements, List.sum_replicate_nat]
  get_put a := by
    funext i
    rw [element_eq, l.get_put]

end Array

end Layout

namespace Members

def nil : Members Unit where
  size _ := 0
  align := 1
  put _ _ := []
  get _ _ := ()
  length_put _ _ := rfl
  get_put _ _ _ := rfl

/-- A member in front of others. -/
def cons (l : Layout α) (ms : Members β) : Members (α × β) where
  size offset :=
    let pad := padding offset l.align
    pad + l.size + ms.size (offset + pad + l.size)
  align := max l.align ms.align
  put offset a :=
    let pad := padding offset l.align
    List.replicate pad 0 ++ l.put a.1 ++ ms.put (offset + pad + l.size) a.2
  get offset bytes :=
    let pad := padding offset l.align
    (l.get ((bytes.drop pad).take l.size),
      ms.get (offset + pad + l.size) (bytes.drop (pad + l.size)))
  length_put offset a := by
    rw [List.length_append, List.length_append, List.length_replicate, l.length_put,
      ms.length_put]
  get_put offset a rest := by
    dsimp only
    generalize padding offset l.align = pad
    have hpad : (List.replicate pad (0 : UInt8)).length = pad := List.length_replicate
    have hfront : (List.replicate pad 0 ++ l.put a.1).length = pad + l.size := by
      rw [List.length_append, hpad, l.length_put]
    have hmember : ((List.replicate pad 0 ++ l.put a.1 ++
        ms.put (offset + pad + l.size) a.2 ++ rest).drop pad).take l.size = l.put a.1 := by
      rw [List.append_assoc, List.append_assoc, List.drop_left' hpad,
        List.take_left' (l.length_put a.1)]
    have hbehind : (List.replicate pad 0 ++ l.put a.1 ++
        ms.put (offset + pad + l.size) a.2 ++ rest).drop (pad + l.size) =
          ms.put (offset + pad + l.size) a.2 ++ rest := by
      rw [List.append_assoc, List.drop_left' hfront]
    rw [hmember, hbehind, l.get_put, ms.get_put]

/-- The record of these members, filled up to its alignment. -/
def record (ms : Members α) : Layout α where
  size := ms.size 0 + padding (ms.size 0) ms.align
  align := ms.align
  put a := ms.put 0 a ++ List.replicate (padding (ms.size 0) ms.align) 0
  get := ms.get 0
  length_put a := by rw [List.length_append, ms.length_put, List.length_replicate]
  get_put a := ms.get_put 0 a _

end Members

/-! ### Layouts without padding -/

/-- All bytes of that size are the layout of a value. -/
def Layout.Packed (l : Layout α) : Prop :=
  ∀ bytes : List UInt8, bytes.length = l.size → l.put (l.get bytes) = bytes

def Members.Packed (ms : Members α) (offset : ℕ) : Prop :=
  ∀ bytes : List UInt8, bytes.length = ms.size offset → ms.put offset (ms.get offset bytes) = bytes

variable {l : Layout α} {ms : Members β} {offset : ℕ}

theorem Members.put_cons (hpad : padding offset l.align = 0) (a : α × β) :
    (cons l ms).put offset a = l.put a.1 ++ ms.put (offset + l.size) a.2 := by
  simp only [Members.cons, hpad, Nat.add_zero, List.replicate_zero, List.nil_append]

theorem Members.put_record (hpad : padding (ms.size 0) ms.align = 0) (a : β) :
    ms.record.put a = ms.put 0 a := by
  simp only [Members.record, hpad, List.replicate_zero, List.append_nil]

namespace Layout

theorem Packed.word {τ : Type} {n : ℕ} {toN : τ → ℕ} {ofN : ℕ → τ} (hlt : ∀ v, toN v < 256 ^ n)
    (hof : ∀ v, ofN (toN v) = v) (hto : ∀ m, m < 256 ^ n → toN (ofN m) = m) :
    (Layout.word n toN ofN hlt hof).Packed := fun bytes hbytes =>
  (eq_ofLE_iff hlt hof hto (show bytes.length = n from hbytes) _).1 rfl

theorem Packed.map (h : l.Packed) (e : α ≃ β) : (l.map e).Packed := fun bytes hbytes =>
  (congrArg l.put (e.symm_apply_apply _)).trans (h bytes hbytes)

/-- Slices of one size, put together again. -/
theorem flatten_slices (n size : ℕ) {bytes : List UInt8} (h : bytes.length = n * size) :
    (List.ofFn fun i : Fin n => (bytes.drop (i * size)).take size).flatten = bytes := by
  induction n generalizing bytes with
  | zero =>
    rw [Nat.zero_mul] at h
    rw [List.length_eq_zero_iff.1 h]
    rfl
  | succ n ih =>
    rw [Nat.succ_mul] at h
    have hlen : (bytes.drop size).length = n * size := by
      rw [List.length_drop]
      omega
    have hrest := ih hlen
    simp only [List.drop_drop] at hrest
    simp only [List.ofFn_succ, Fin.val_zero, Fin.val_succ, Nat.zero_mul, List.drop_zero,
      List.flatten_cons, Nat.succ_mul, Nat.add_comm _ size, hrest]
    exact List.take_append_drop size bytes

theorem Packed.array (h : l.Packed) (n : ℕ) : (l.array n).Packed := by
  intro bytes hbytes
  have hslice (i : Fin n) : l.put (l.get ((bytes.drop (i * l.size)).take l.size)) =
      (bytes.drop (i * l.size)).take l.size := by
    have hle : (i + 1) * l.size ≤ n * l.size := Nat.mul_le_mul_right _ i.isLt
    rw [Nat.succ_mul, ← show bytes.length = n * l.size from hbytes] at hle
    refine h _ ?_
    rw [List.length_take, List.length_drop]
    omega
  have helements : l.elements n ((l.array n).get bytes) =
      List.ofFn fun i : Fin n => (bytes.drop (i * l.size)).take l.size :=
    congrArg List.ofFn (funext hslice)
  exact (congrArg List.flatten helements).trans (flatten_slices n l.size hbytes)

end Layout

namespace Members

theorem Packed.nil : Members.nil.Packed offset :=
  fun _ hbytes => (List.length_eq_zero_iff.1 hbytes).symm

theorem Packed.cons (hpad : padding offset l.align = 0) (h : l.Packed)
    (h' : ms.Packed (offset + l.size)) : (cons l ms).Packed offset := by
  intro bytes hbytes
  rw [put_cons hpad]
  simp only [Members.cons, hpad, Nat.add_zero, Nat.zero_add, List.drop_zero] at hbytes ⊢
  rw [h _ (by rw [List.length_take]; omega), h' _ (by rw [List.length_drop]; omega),
    List.take_append_drop]

theorem Packed.record (hpad : padding (ms.size 0) ms.align = 0) (h : ms.Packed 0) :
    ms.record.Packed := by
  intro bytes hbytes
  rw [put_record hpad]
  have hsize : bytes.length = ms.size 0 + padding (ms.size 0) ms.align := hbytes
  rw [hpad] at hsize
  exact h bytes hsize

end Members

end Library
end SidecarDOS
