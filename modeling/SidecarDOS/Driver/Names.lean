/-
# The names of the shared textures

A name goes through the driver's interface as 128 code units of UTF-16.  `MfEncoder::open` makes
it of 16 random bytes and a slot, and `windows/host/native/gpu.cpp` puts the slot behind the
bytes itself (`gpuName_eq`).  `nameOf` is what a name is to the driver: those of the encoder
pass the check of `IoControl` and are told apart (`nameOf_buffer`), and two names that pass are
the same just if they hold the same string (`nameOf_eq_iff`).
-/

import SidecarDOS.Driver.Abi
import Mathlib.Logic.Encodable.Basic
import Mathlib.Logic.Equiv.List

namespace SidecarDOS

/-- `encode_utf16`. -/
def utf16 (s : List Char) : List UInt16 :=
  s.flatMap fun c =>
    let n := c.toNat
    if n < 0x10000 then [.ofNat n]
    else [.ofNat (0xd800 + (n - 0x10000) / 0x400), .ofNat (0xdc00 + (n - 0x10000) % 0x400)]

theorem utf16_append (s t : List Char) : utf16 (s ++ t) = utf16 s ++ utf16 t := List.flatMap_append

namespace Host
namespace Abi

open SidecarDOS.Ipad.TrustStore (encode)

/-- What `MfEncoder::open` begins every name with, and what `IoControl` looks for. -/
def root : List Char := "Global\\SidecarDOS.".toList

/-- The `prefix` of `MfEncoder::open` for its random bytes. -/
def surfacePrefix (key : Id16) : List Char := root ++ encode key.bytes

/-- A name that `MfEncoder::open` returns. -/
def surfaceName (key : Id16) (i : Fin 3) : List Char :=
  surfacePrefix key ++ ('.' :: Nat.toDigits 10 i)

/-- A name that the constructor of `Encoder` gives to a texture: it gets the prefix with a zero
behind it. -/
def gpuName (wide : List UInt16) (i : Fin 3) : List UInt16 :=
  wide.takeWhile (· ≠ 0) ++ utf16 ['.'] ++ utf16 (Nat.toDigits 10 i)

end Abi
end Host

namespace Driver

open SidecarDOS.Host.Abi (root surfacePrefix surfaceName gpuName)
open SidecarDOS.Ipad.TrustStore (hexDigit hexChar encode)

/-- The string in a buffer. -/
def text (n : Fin 128 → UInt16) : List UInt16 := (List.ofFn n).takeWhile (· ≠ 0)

/-- The check of `IoControl` on a name. -/
def named (n : Fin 128 → UInt16) : Bool :=
  n 127 = 0 && (List.ofFn n).take 18 = utf16 root

/-- The bytes that hexadecimal digits stand for. -/
def unhex : List UInt16 → Bytes
  | h :: l :: rest =>
    .ofNat (16 * (hexDigit (.ofNat h.toNat)).getD 0 + (hexDigit (.ofNat l.toNat)).getD 0) ::
      unhex rest
  | _ => []

/-- The key and the slot that a name of the encoder tells. -/
def surfaceOf (text : List UInt16) : Option (Id16 × Fin 3) := do
  let key ← Id16.ofBytes (unhex ((text.drop 18).take 32))
  let i ← (List.finRange 3).find? fun i => utf16 (surfaceName key i) = text
  pure (key, i)

/-- The texture that a buffer names. -/
def nameOf (n : Fin 128 → UInt16) : SurfaceName :=
  let other := SurfaceName.other (Encodable.encode ((text n).map UInt16.toNat))
  if named n then (surfaceOf (text n)).elim (other true) fun (key, i) => .surface key i
  else other false

/-- A string of less than 128 code units and zeros behind it. -/
def buffer (utf : List UInt16) (i : Fin 128) : UInt16 := utf.getD i 0

/-! ### The code units of a name -/

variable {key : Id16} {i : Fin 3} {n m : Fin 128 → UInt16} {utf : List UInt16}

theorem unit_hexChar {v : ℕ} (h : v < 16) : ∃ u : UInt16, utf16 [hexChar v] = [u] ∧ u ≠ 0 ∧
    hexDigit (.ofNat u.toNat) = some v := by
  refine ⟨.ofNat (hexChar v).toNat, ?_⟩
  interval_cases v <;> decide

theorem utf16_encode (b : UInt8) (k : Bytes) : ∃ h l : UInt16,
    utf16 (encode (b :: k)) = h :: l :: utf16 (encode k) ∧ h ≠ 0 ∧ l ≠ 0 ∧
      hexDigit (.ofNat h.toNat) = some (b.toNat / 16) ∧
        hexDigit (.ofNat l.toNat) = some (b.toNat % 16) := by
  have hb := b.toNat_lt
  obtain ⟨h, hh, hh0, hhd⟩ := unit_hexChar (show b.toNat / 16 < 16 by omega)
  obtain ⟨l, hl, hl0, hld⟩ := unit_hexChar (show b.toNat % 16 < 16 by omega)
  have hcons : encode (b :: k) =
      [hexChar (b.toNat / 16)] ++ ([hexChar (b.toNat % 16)] ++ encode k) := rfl
  refine ⟨h, l, ?_, hh0, hl0, hhd, hld⟩
  rw [hcons, utf16_append, utf16_append, hh, hl]
  rfl

/-- The digits of a key are two code units for each byte, none of them zero, and tell the key. -/
theorem encode_units (k : Bytes) : (utf16 (encode k)).length = 2 * k.length ∧
    (∀ u ∈ utf16 (encode k), u ≠ 0) ∧ unhex (utf16 (encode k)) = k := by
  induction k with
  | nil => exact ⟨rfl, List.forall_mem_nil _, rfl⟩
  | cons b k ih =>
    obtain ⟨hlen, hne, hk⟩ := ih
    obtain ⟨h, l, heq, hh0, hl0, hhd, hld⟩ := utf16_encode b k
    have hb : UInt8.ofNat (16 * (b.toNat / 16) + b.toNat % 16) = b := by
      rw [Nat.div_add_mod, UInt8.ofNat_toNat]
    rw [heq]
    refine ⟨?_, List.forall_mem_cons.2 ⟨hh0, List.forall_mem_cons.2 ⟨hl0, hne⟩⟩, ?_⟩
    · rw [List.length_cons, List.length_cons, List.length_cons, hlen]
      omega
    · rw [unhex, hhd, hld, hk, Option.getD_some, Option.getD_some, hb]

/-- What `MfEncoder::open` puts behind the key. -/
def ending (i : Fin 3) : List UInt16 := utf16 ('.' :: Nat.toDigits 10 i)

theorem utf16_surfaceName (key : Id16) (i : Fin 3) : utf16 (surfaceName key i) =
    utf16 root ++ (utf16 (encode key.bytes) ++ ending i) := by
  rw [surfaceName, surfacePrefix, utf16_append, utf16_append, List.append_assoc, ending]

theorem length_ending (i : Fin 3) : (ending i).length = 2 := by
  revert i
  decide

theorem ending_ne (i : Fin 3) : ∀ u ∈ ending i, u ≠ 0 := by
  have hall : (ending i).all (· != 0) = true := by
    revert i
    decide
  exact fun u hu => bne_iff_ne.1 (List.all_eq_true.1 hall u hu)

theorem ending_inj {i j : Fin 3} (h : ending i = ending j) : i = j := by
  revert i j
  decide

theorem length_root : (utf16 root).length = 18 := by decide

theorem length_surfaceName (key : Id16) (i : Fin 3) : (utf16 (surfaceName key i)).length = 52 := by
  rw [utf16_surfaceName, List.length_append, List.length_append, length_root,
    (encode_units _).1, key.length_eq, length_ending]

theorem surfaceName_ne (key : Id16) (i : Fin 3) : ∀ u ∈ utf16 (surfaceName key i), u ≠ 0 := by
  have hroot : (utf16 root).all (· != 0) = true := by decide
  intro u hu
  rw [utf16_surfaceName, List.mem_append, List.mem_append] at hu
  obtain hu | hu | hu := hu
  · exact bne_iff_ne.1 (List.all_eq_true.1 hroot u hu)
  · exact (encode_units _).2.1 u hu
  · exact ending_ne i u hu

/-- The name that the texture gets is the one that the host registers. -/
theorem gpuName_eq (key : Id16) (i : Fin 3) :
    gpuName (utf16 (surfacePrefix key) ++ [0]) i = utf16 (surfaceName key i) := by
  have hne : ∀ u ∈ utf16 (surfacePrefix key), decide (u ≠ 0) = true := fun u hu =>
    decide_eq_true (surfaceName_ne key i u (by
      rw [surfaceName, utf16_append]
      exact List.mem_append_left _ hu))
  rw [gpuName, List.takeWhile_append_of_pos hne, surfaceName, utf16_append,
    show ('.' :: Nat.toDigits 10 i) = ['.'] ++ Nat.toDigits 10 i from rfl,
    utf16_append]
  simp

/-! ### Names in buffers -/

theorem surfaceOf_surfaceName (key : Id16) (i : Fin 3) :
    surfaceOf (utf16 (surfaceName key i)) = some (key, i) := by
  have hdigits : (utf16 (encode key.bytes)).length = 32 := by
    rw [(encode_units _).1, key.length_eq]
  have hkey : Id16.ofBytes (unhex (((utf16 (surfaceName key i)).drop 18).take 32)) = some key := by
    rw [utf16_surfaceName, List.drop_left' length_root, List.take_left' hdigits,
      (encode_units _).2.2]
    exact Id16.ofBytes_eq_some.2 rfl
  have hslot : ((List.finRange 3).find? fun j =>
      utf16 (surfaceName key j) = utf16 (surfaceName key i)) = some i := by
    cases hfind : (List.finRange 3).find? fun j =>
        utf16 (surfaceName key j) = utf16 (surfaceName key i) with
    | none =>
      have hnone := List.find?_eq_none.1 hfind i (List.mem_finRange i)
      exact absurd (decide_eq_true rfl) hnone
    | some j =>
      have hfound := List.find?_some hfind
      have hj : utf16 (surfaceName key j) = utf16 (surfaceName key i) := of_decide_eq_true hfound
      rw [utf16_surfaceName, utf16_surfaceName] at hj
      rw [ending_inj (List.append_cancel_left (List.append_cancel_left hj))]
  rw [surfaceOf, hkey, Option.bind_eq_bind, Option.bind_some, hslot]
  rfl

theorem eq_of_surfaceOf {t : List UInt16} (h : surfaceOf t = some (key, i)) :
    t = utf16 (surfaceName key i) := by
  obtain ⟨key', -, h⟩ := Option.bind_eq_some_iff.1 h
  obtain ⟨j, hj, h⟩ := Option.bind_eq_some_iff.1 h
  cases h
  have hfound := List.find?_some hj
  exact (of_decide_eq_true hfound).symm

theorem valid_nameOf (n : Fin 128 → UInt16) : (nameOf n).valid = named n := by
  unfold nameOf
  split
  · rename_i h
    rw [h]
    cases surfaceOf (text n) <;> rfl
  · rename_i h
    exact (Bool.eq_false_iff.2 h).symm

/-- Buffers that pass the check name one texture just if they hold one string. -/
theorem nameOf_eq_iff (hm : named m) (hn : named n) :
    nameOf m = nameOf n ↔ text m = text n := by
  have hencode {s t : List UInt16}
      (h : Encodable.encode (s.map UInt16.toNat) = Encodable.encode (t.map UInt16.toNat)) : s = t :=
    List.map_injective_iff.2 (fun _ _ => UInt16.toNat_inj.1) (Encodable.encode_injective h)
  simp only [nameOf, hm, hn, ↓reduceIte]
  refine ⟨fun h => ?_, fun h => by rw [h]⟩
  cases hsm : surfaceOf (text m) with
  | none =>
    cases hsn : surfaceOf (text n) with
    | none =>
      rw [hsm, hsn] at h
      exact hencode (SurfaceName.other.inj h).1
    | some b =>
      rw [hsm, hsn] at h
      cases h
  | some a =>
    cases hsn : surfaceOf (text n) with
    | none =>
      rw [hsm, hsn] at h
      cases h
    | some b =>
      rw [hsm, hsn] at h
      obtain ⟨hkey, hslot⟩ := SurfaceName.surface.inj h
      obtain rfl : a = b := Prod.ext hkey hslot
      rw [eq_of_surfaceOf hsm, eq_of_surfaceOf hsn]

theorem ofFn_buffer (h : utf.length ≤ 128) :
    List.ofFn (buffer utf) = utf ++ List.replicate (128 - utf.length) 0 := by
  refine List.ext_getElem ?_ fun k hk hk' => ?_
  · rw [List.length_ofFn, List.length_append, List.length_replicate]
    omega
  · rw [List.getElem_ofFn, buffer, List.getD_eq_getElem?_getD]
    by_cases hlt : k < utf.length
    · rw [List.getElem_append_left hlt, List.getElem?_eq_getElem hlt]
      rfl
    · rw [List.getElem_append_right (by omega), List.getElem_replicate,
        List.getElem?_eq_none (Nat.le_of_not_lt hlt)]
      rfl

theorem text_buffer (h : utf.length ≤ 128) (hne : ∀ u ∈ utf, u ≠ 0) : text (buffer utf) = utf := by
  have hzero (k : ℕ) : (List.replicate k (0 : UInt16)).takeWhile (· ≠ 0) = [] := by
    cases k with
    | zero => rfl
    | succ k => exact List.takeWhile_cons_of_neg (by decide)
  rw [text, ofFn_buffer h,
    List.takeWhile_append_of_pos fun u hu => decide_eq_true (hne u hu), hzero, List.append_nil]

/-- A name of the encoder passes the check and names the texture of its key and slot. -/
theorem nameOf_buffer (key : Id16) (i : Fin 3) :
    nameOf (buffer (utf16 (surfaceName key i))) = .surface key i := by
  have hlen := length_surfaceName key i
  have htake : (List.ofFn (buffer (utf16 (surfaceName key i)))).take 18 =
      utf16 root := by
    rw [ofFn_buffer (by omega), utf16_surfaceName, List.append_assoc]
    exact List.take_left' length_root
  have hend : buffer (utf16 (surfaceName key i)) 127 = 0 := by
    rw [buffer, List.getD_eq_getElem?_getD, List.getElem?_eq_none (by rw [hlen]; decide)]
    rfl
  have hnamed : named (buffer (utf16 (surfaceName key i))) = true := by
    rw [named, hend, htake]
    simp
  rw [nameOf, text_buffer (by omega) (surfaceName_ne key i), surfaceOf_surfaceName, hnamed]
  rfl

end Driver
end SidecarDOS
