/-
# The two wire runtimes and the schema's field formats

`Writer`, `Reader` of `windows/host/src/protocol/mod.rs` and `WireWriter`,
`WireReader` of `ipad/SidecarDOS/Protocol/Wire.swift`, side by side.  Both are a
growing byte buffer and a position in a byte string; every read goes through
`take`.  The host rejects with the texts of its `ensure!`s (`Host.Error`), the
iPad with the cases of `WireError`.

`Schema` states the field types of `protocol/schema.json` as formats
(`SidecarDOS.Library.Scan`): the layout of a field and the values that have one.
Every reader below is exact for its field type and every writer appends its
layout, so the two runtimes agree field by field.  A float is its bit pattern.
-/

import SidecarDOS.Library.Scan
import SidecarDOS.Library.LittleEndian

namespace SidecarDOS

open Library

abbrev Bytes : Type := List UInt8

/-- An IEEE binary32 number, as the bits that travel. -/
structure F32 where
  bits : UInt32
  deriving DecidableEq

/-- Neither an infinity nor a NaN: the exponent field is not all ones. -/
def F32.isFinite (v : F32) : Bool := v.bits.toNat / 2 ^ 23 % 256 != 255

/-- The bits of the absolute value. -/
def F32.magnitude (v : F32) : UInt32 := v.bits &&& 0x7fffffff

/-- `v.is_finite() && v.abs() <= 10000.`. -/
def F32.isDelta (v : F32) : Bool := v.magnitude ≤ 0x461c4000

/-- `(0.0..=1.0).contains(&v)`; -0 is 0. -/
def F32.isUnit (v : F32) : Bool := v.bits ≤ 0x3f800000 || v.bits = 0x80000000

/-- The UTF-8 bytes of a string. -/
def utf8 (s : String) : Bytes := s.toUTF8.data.toList

/-- The string of valid UTF-8 bytes, the decoder both runtimes share. -/
def ofUtf8 (b : Bytes) : Option String := String.fromUTF8? ⟨b.toArray⟩

theorem ofUtf8_eq_some {b : Bytes} {s : String} : ofUtf8 b = some s ↔ utf8 s = b := by
  rw [ofUtf8, utf8, String.fromUTF8?]
  constructor
  · intro h
    split at h
    · obtain rfl := Option.some.inj h
      rfl
    · exact absurd h (by simp)
  · rintro rfl
    have hv : ByteArray.IsValidUTF8 ⟨s.toUTF8.data.toList.toArray⟩ := s.isValidUTF8
    rw [dif_pos hv]
    exact congrArg some (String.toByteArray_inj.1 rfl)

/-! ### Constants of both protocol runtimes -/

def HEADER : ℕ := 36
def MAX_CONTROL : ℕ := 65536
def MAX_FRAME : ℕ := 2 * 1024 * 1024
def MAX_DATAGRAM : ℕ := 1200

namespace Host

def MAJOR : UInt8 := 1
def MINOR : UInt8 := 0

/-- What an `anyhow::Error` carries: the text of a failed `ensure!`, `bail!` or
`context`, a `FromUtf8Error`, the end of a stream inside `read_exact`, an error of
the connection itself, or one that Windows or a device reports. -/
inductive Error where
  | ensure (text : String)
  | utf8
  | eof
  | connection
  | platform
  deriving DecidableEq

structure Writer where
  buf : Bytes
  deriving DecidableEq

namespace Writer

def u8 (w : Writer) (v : UInt8) : Writer := ⟨w.buf ++ [v]⟩
def u16 (w : Writer) (v : UInt16) : Writer := ⟨w.buf ++ toLE 2 v.toNat⟩
def u32 (w : Writer) (v : UInt32) : Writer := ⟨w.buf ++ toLE 4 v.toNat⟩
def u64 (w : Writer) (v : UInt64) : Writer := ⟨w.buf ++ toLE 8 v.toNat⟩
def f32 (w : Writer) (v : F32) : Writer := w.u32 v.bits
def bytes (w : Writer) (v : Bytes) : Writer := ⟨(w.u32 (UInt32.ofNat v.length)).buf ++ v⟩
def string (w : Writer) (v : String) : Writer := w.bytes (utf8 v)

end Writer

/-- The reader's slice and position. -/
abbrev Reader : Type := Cursor UInt8
abbrev Read (α : Type) : Type := Scan Error UInt8 α

def ensure (cond : Prop) [Decidable cond] (text : String) : Read Unit :=
  require cond (.ensure text)

namespace Reader

def take (n : ℕ) : Read Bytes := fun r =>
  if h : n ≤ r.data.length - r.pos then .ok (r.rest.take n, r.advance n h)
  else .error (.ensure "truncated message")
def u8 : Read UInt8 := do return UInt8.ofNat (ofLE (← take 1))
def u16 : Read UInt16 := do return UInt16.ofNat (ofLE (← take 2))
def u32 : Read UInt32 := do return UInt32.ofNat (ofLE (← take 4))
def u64 : Read UInt64 := do return UInt64.ofNat (ofLE (← take 8))
def f32 : Read F32 := do
  let v := F32.mk (← u32)
  ensure v.isFinite "nonfinite number"
  return v
def bytes : Read Bytes := do
  let n := (← u32).toNat
  ensure (n ≤ MAX_FRAME) "field too large"
  take n
def string : Read String := do
  let b ← bytes
  ensure (b.length ≤ 1024) "string too long"
  match ofUtf8 b with
  | some s => return s
  | none => throw .utf8
def finish : Read Unit := fun r =>
  if r.pos = r.data.length then .ok ((), r) else .error (.ensure "trailing payload")

end Reader
end Host

namespace Ipad

inductive WireError where
  | malformed | oversized | version | unexpected | replay
  deriving DecidableEq

structure WireWriter where
  data : Bytes
  deriving DecidableEq

namespace WireWriter

def u8 (w : WireWriter) (v : UInt8) : WireWriter := ⟨w.data ++ [v]⟩
/-- `integer`: the little-endian bytes of a `FixedWidthInteger` of `n` bytes. -/
def integer (w : WireWriter) (n : ℕ) (v : ℕ) : WireWriter := ⟨w.data ++ toLE n v⟩
def u16 (w : WireWriter) (v : UInt16) : WireWriter := w.integer 2 v.toNat
def u32 (w : WireWriter) (v : UInt32) : WireWriter := w.integer 4 v.toNat
def u64 (w : WireWriter) (v : UInt64) : WireWriter := w.integer 8 v.toNat
def f32 (w : WireWriter) (v : F32) : WireWriter := w.u32 v.bits
def bytes (w : WireWriter) (v : Bytes) : WireWriter :=
  ⟨(w.u32 (UInt32.ofNat v.length)).data ++ v⟩
def string (w : WireWriter) (v : String) : WireWriter := w.bytes (utf8 v)

end WireWriter

abbrev WireReader : Type := Cursor UInt8
abbrev Read (α : Type) : Type := Scan WireError UInt8 α

/-- `guard cond else { throw e }`. -/
def guardElse (cond : Prop) [Decidable cond] (e : WireError) : Read Unit :=
  require cond e

namespace WireReader

def take (count : ℕ) : Read Bytes := fun r =>
  if h : count ≤ r.data.length - r.pos then .ok (r.rest.take count, r.advance count h)
  else .error .malformed
/-- `integer`: the next `n` bytes, read as a little-endian integer. -/
def integer (n : ℕ) : Read ℕ := do return ofLE (← take n)
def u8 : Read UInt8 := do return UInt8.ofNat (← integer 1)
def u16 : Read UInt16 := do return UInt16.ofNat (← integer 2)
def u32 : Read UInt32 := do return UInt32.ofNat (← integer 4)
def u64 : Read UInt64 := do return UInt64.ofNat (← integer 8)
def f32 : Read F32 := do
  let v := F32.mk (← u32)
  guardElse v.isFinite .malformed
  return v
def bytes : Read Bytes := do
  let count := (← u32).toNat
  guardElse (count ≤ MAX_FRAME) .oversized
  take count
def string : Read String := do
  let d ← bytes
  guardElse (d.length ≤ 1024) .malformed
  match ofUtf8 d with
  | some s => return s
  | none => throw .malformed
def finish : Read Unit := fun r =>
  if r.pos = r.data.length then .ok ((), r) else .error .malformed

end WireReader
end Ipad

/-! ### The schema's field types -/

namespace Schema

def u8 : Format UInt8 UInt8 := ⟨fun _ => True, fun v => [v]⟩
def u16 : Format UInt8 UInt16 := ⟨fun _ => True, fun v => toLE 2 v.toNat⟩
def u32 : Format UInt8 UInt32 := ⟨fun _ => True, fun v => toLE 4 v.toNat⟩
def u64 : Format UInt8 UInt64 := ⟨fun _ => True, fun v => toLE 8 v.toNat⟩
/-- Floats must be finite. -/
def f32 : Format UInt8 F32 := ⟨fun v => v.isFinite, fun v => toLE 4 v.bits.toNat⟩
/-- A u32 length followed by the bytes, at most 2 MiB of them. -/
def bytes : Format UInt8 Bytes := ⟨fun v => v.length ≤ MAX_FRAME, fun v => toLE 4 v.length ++ v⟩
/-- Strings are limited to 1,024 UTF-8 bytes. -/
def string : Format UInt8 String :=
  ⟨fun s => (utf8 s).length ≤ 1024, fun s => toLE 4 (utf8 s).length ++ utf8 s⟩

@[simp] theorem valid_u8 (v : UInt8) : u8.Valid v ↔ True := Iff.rfl
@[simp] theorem valid_u16 (v : UInt16) : u16.Valid v ↔ True := Iff.rfl
@[simp] theorem valid_u32 (v : UInt32) : u32.Valid v ↔ True := Iff.rfl
@[simp] theorem valid_u64 (v : UInt64) : u64.Valid v ↔ True := Iff.rfl
@[simp] theorem valid_f32 (v : F32) : f32.Valid v ↔ v.isFinite := Iff.rfl
@[simp] theorem valid_bytes (v : Bytes) : bytes.Valid v ↔ v.length ≤ MAX_FRAME := Iff.rfl
@[simp] theorem valid_string (s : String) : string.Valid s ↔ (utf8 s).length ≤ 1024 := Iff.rfl

theorem put_u8 (v : UInt8) : u8.put v = [v] := rfl
theorem put_u16 (v : UInt16) : u16.put v = toLE 2 v.toNat := rfl
theorem put_u32 (v : UInt32) : u32.put v = toLE 4 v.toNat := rfl
theorem put_u64 (v : UInt64) : u64.put v = toLE 8 v.toNat := rfl
theorem put_f32 (v : F32) : f32.put v = toLE 4 v.bits.toNat := rfl
theorem put_bytes (v : Bytes) : bytes.put v = toLE 4 v.length ++ v := rfl
theorem put_string (s : String) : string.put s = bytes.put (utf8 s) := rfl

end Schema

/-- The layout of a length is that of the length truncated to a `u32`. -/
theorem toLE_ofNat32 (n : ℕ) : toLE 4 (UInt32.ofNat n).toNat = toLE 4 n := by
  have h : ofLE (toLE 4 n) = n % 2 ^ 32 := ofLE_toLE 4 n
  rw [UInt32.toNat_ofNat', ← h]
  exact (length_toLE 4 n ▸ toLE_ofLE (toLE 4 n) :)

end SidecarDOS
