/-
# Both runtimes read and write the schema's field types exactly

Every reader of `SidecarDOS.Protocol.Wire`, the host's and the iPad's, is exact
for its field type, and every writer appends the field's layout.  The checked
readers are treated once for any runtime: a float (`exact_f32`), a byte field
(`exact_bytes`) and a string (`exact_string`) are exact whatever the error they
reject with, so the two runtimes differ in their errors only.
-/

import SidecarDOS.Protocol.Wire

namespace SidecarDOS

open Library

variable {ε : Type}

/-! ### Any runtime -/

section Words

variable {m : Scan ε UInt8 Bytes}

theorem exact_u8 (hm : Exact m (Format.block 1)) :
    Exact (m >>= fun b => pure (UInt8.ofNat (ofLE b))) Schema.u8 := by
  have h : Exact (m >>= fun b => pure (UInt8.ofNat (ofLE b)))
      (⟨fun _ => True, fun v => toLE 1 v.toNat⟩ : Format UInt8 UInt8) :=
    hm.word UInt8.toNat_lt (fun _ => UInt8.ofNat_toNat) fun _ h => UInt8.toNat_ofNat_of_lt' h
  exact h.congr (fun _ => Iff.rfl) fun v _ => by simp [Schema.put_u8, toLE]

theorem exact_u16 (hm : Exact m (Format.block 2)) :
    Exact (m >>= fun b => pure (UInt16.ofNat (ofLE b))) Schema.u16 :=
  hm.word UInt16.toNat_lt (fun _ => UInt16.ofNat_toNat) fun _ h => UInt16.toNat_ofNat_of_lt' h

theorem exact_u32 (hm : Exact m (Format.block 4)) :
    Exact (m >>= fun b => pure (UInt32.ofNat (ofLE b))) Schema.u32 :=
  hm.word UInt32.toNat_lt (fun _ => UInt32.ofNat_toNat) fun _ h => UInt32.toNat_ofNat_of_lt' h

theorem exact_u64 (hm : Exact m (Format.block 8)) :
    Exact (m >>= fun b => pure (UInt64.ofNat (ofLE b))) Schema.u64 :=
  hm.word UInt64.toNat_lt (fun _ => UInt64.ofNat_toNat) fun _ h => UInt64.toNat_ofNat_of_lt' h

end Words

theorem exact_f32 {m : Scan ε UInt8 UInt32} (hm : Exact m Schema.u32) (e : ε) :
    Exact (m >>= fun b => require (F32.mk b).isFinite e >>= fun _ => pure (F32.mk b))
      Schema.f32 := by
  refine hm.convert (fun b _ c v c' => ?_) fun v _ => ⟨v.bits, trivial, rfl⟩
  rw [require_bind_ok, run_pure_ok, Prod.mk.injEq]
  constructor
  · rintro ⟨hfin, rfl, rfl⟩
    exact ⟨rfl, hfin, rfl⟩
  · rintro ⟨rfl, hfin, hput⟩
    obtain rfl : v = F32.mk b := by
      have hbits : v.bits.toNat = b.toNat := by
        have hv : v.bits.toNat < 256 ^ 4 := v.bits.toNat_lt
        have hb : b.toNat < 256 ^ 4 := b.toNat_lt
        rw [← ofLE_toLE_of_lt hv, ← ofLE_toLE_of_lt hb]
        exact congrArg ofLE hput
      rw [← UInt32.toNat_inj.1 hbits]
    exact ⟨hfin, rfl, rfl⟩

theorem exact_bytes {m : Scan ε UInt8 UInt32} (hm : Exact m Schema.u32)
    {take : ℕ → Scan ε UInt8 Bytes} (ht : ∀ n, Exact (take n) (Format.block n)) (e : ε) :
    Exact (m >>= fun n => require (n.toNat ≤ MAX_FRAME) e >>= fun _ => take n.toNat)
      Schema.bytes := by
  intro c v c'
  have hk (n : UInt32) : Exact (require (n.toNat ≤ MAX_FRAME) e >>= fun _ => take n.toNat)
      ⟨fun v => n.toNat ≤ MAX_FRAME ∧ v.length = n.toNat, fun v => v⟩ := by
    intro c v c'
    rw [require_bind_ok, ht, and_assoc]
    exact Iff.rfl
  rw [hm.bind_ok fun n _ => hk n]
  constructor
  · rintro ⟨n, -, ⟨hn, hv⟩, hr⟩
    rw [Schema.valid_bytes, Schema.put_bytes, hv]
    exact ⟨hn, hr⟩
  · rintro ⟨hv, hr⟩
    have hlen : (UInt32.ofNat v.length).toNat = v.length := by
      have : v.length ≤ 2 * 1024 * 1024 := hv
      rw [UInt32.toNat_ofNat']
      omega
    rw [Schema.valid_bytes, ← hlen] at hv
    rw [Schema.put_bytes, ← hlen, ← Schema.put_u32] at hr
    exact ⟨UInt32.ofNat v.length, trivial, ⟨hv, hlen.symm⟩, hr⟩

theorem exact_string {m : Scan ε UInt8 Bytes} (hm : Exact m Schema.bytes)
    (e e' : ε) :
    Exact (m >>= fun b => require (b.length ≤ 1024) e >>= fun _ =>
      match ofUtf8 b with
      | some s => pure s
      | none => throw e') Schema.string := by
  refine hm.convert (fun b _ c s c' => ?_) fun s hs => ⟨utf8 s, ?_, rfl⟩
  · have hput : Schema.string.put s = Schema.bytes.put b ↔ utf8 s = b := by
      refine ⟨fun h => ?_, fun h => by rw [← h]; rfl⟩
      exact (List.append_inj h (by rw [length_toLE, length_toLE])).2
    rw [require_bind_ok, hput, ← ofUtf8_eq_some]
    cases h : ofUtf8 b with
    | none =>
      simp only [reduceCtorEq, and_false, iff_false, not_and]
      exact fun _ h' => absurd h' (by
        simp [throw, throwThe, MonadExceptOf.throw, StateT.lift, StateT.run, bind, Except.bind])
    | some s' =>
      have hs' := ofUtf8_eq_some.1 h
      rw [run_pure_ok, Prod.mk.injEq, Option.some.injEq]
      constructor
      · rintro ⟨hlen, rfl, rfl⟩
        rw [Schema.valid_string, hs']
        exact ⟨rfl, hlen, rfl⟩
      · rintro ⟨rfl, hlen, rfl⟩
        rw [Schema.valid_string, hs'] at hlen
        exact ⟨hlen, rfl, rfl⟩
  · exact Nat.le_trans hs (by decide)

/-! ### The host's runtime -/

namespace Host
namespace Reader

theorem take_exact (n : ℕ) : Exact (take n) (Format.block n) := exact_block fun _ => rfl

theorem u8_exact : Exact u8 Schema.u8 := exact_u8 (take_exact 1)

theorem u16_exact : Exact u16 Schema.u16 := exact_u16 (take_exact 2)

theorem u32_exact : Exact u32 Schema.u32 := exact_u32 (take_exact 4)

theorem u64_exact : Exact u64 Schema.u64 := exact_u64 (take_exact 8)

theorem f32_exact : Exact f32 Schema.f32 := exact_f32 u32_exact _

theorem bytes_exact : Exact bytes Schema.bytes := exact_bytes u32_exact take_exact _

theorem string_exact : Exact string Schema.string := exact_string bytes_exact _ _

theorem finish_ok (c : Reader) (r : Unit × Reader) :
    finish.run c = .ok r ↔ c.pos = c.data.length ∧ r = ((), c) := atEnd_run_ok

end Reader

namespace Writer

variable (w : Writer)

@[simp] theorem buf_u8 (v : UInt8) : (w.u8 v).buf = w.buf ++ Schema.u8.put v := rfl
@[simp] theorem buf_u16 (v : UInt16) : (w.u16 v).buf = w.buf ++ Schema.u16.put v := rfl
@[simp] theorem buf_u32 (v : UInt32) : (w.u32 v).buf = w.buf ++ Schema.u32.put v := rfl
@[simp] theorem buf_u64 (v : UInt64) : (w.u64 v).buf = w.buf ++ Schema.u64.put v := rfl
@[simp] theorem buf_f32 (v : F32) : (w.f32 v).buf = w.buf ++ Schema.f32.put v := rfl
@[simp] theorem buf_bytes (v : Bytes) : (w.bytes v).buf = w.buf ++ Schema.bytes.put v := by
  rw [bytes, buf_u32, Schema.put_u32, toLE_ofNat32, List.append_assoc, Schema.put_bytes]
@[simp] theorem buf_string (v : String) : (w.string v).buf = w.buf ++ Schema.string.put v :=
  w.buf_bytes (utf8 v)

end Writer
end Host

/-! ### The iPad's runtime -/

namespace Ipad
namespace WireReader

theorem take_exact (n : ℕ) : Exact (take n) (Format.block n) := exact_block fun _ => rfl

/-- `integer` followed by a conversion reads the raw bytes and converts them. -/
theorem integer_bind {α : Type} (n : ℕ) (f : ℕ → α) :
    (integer n >>= fun v => (pure (f v) : Read α)) = take n >>= fun b => pure (f (ofLE b)) := by
  rw [integer, bind_assoc]
  exact bind_congr fun b => pure_bind _ _

theorem u8_exact : Exact u8 Schema.u8 := by
  rw [u8, integer_bind]
  exact exact_u8 (take_exact 1)

theorem u16_exact : Exact u16 Schema.u16 := by
  rw [u16, integer_bind]
  exact exact_u16 (take_exact 2)

theorem u32_exact : Exact u32 Schema.u32 := by
  rw [u32, integer_bind]
  exact exact_u32 (take_exact 4)

theorem u64_exact : Exact u64 Schema.u64 := by
  rw [u64, integer_bind]
  exact exact_u64 (take_exact 8)

theorem f32_exact : Exact f32 Schema.f32 := exact_f32 u32_exact _

theorem bytes_exact : Exact bytes Schema.bytes := exact_bytes u32_exact take_exact _

theorem string_exact : Exact string Schema.string := exact_string bytes_exact _ _

theorem finish_ok (c : WireReader) (r : Unit × WireReader) :
    finish.run c = .ok r ↔ c.pos = c.data.length ∧ r = ((), c) := atEnd_run_ok

end WireReader

namespace WireWriter

variable (w : WireWriter)

@[simp] theorem data_u8 (v : UInt8) : (w.u8 v).data = w.data ++ Schema.u8.put v := rfl
@[simp] theorem data_u16 (v : UInt16) : (w.u16 v).data = w.data ++ Schema.u16.put v := rfl
@[simp] theorem data_u32 (v : UInt32) : (w.u32 v).data = w.data ++ Schema.u32.put v := rfl
@[simp] theorem data_u64 (v : UInt64) : (w.u64 v).data = w.data ++ Schema.u64.put v := rfl
@[simp] theorem data_f32 (v : F32) : (w.f32 v).data = w.data ++ Schema.f32.put v := rfl
@[simp] theorem data_bytes (v : Bytes) : (w.bytes v).data = w.data ++ Schema.bytes.put v := by
  rw [bytes, data_u32, Schema.put_u32, toLE_ofNat32, List.append_assoc, Schema.put_bytes]
@[simp] theorem data_string (v : String) : (w.string v).data = w.data ++ Schema.string.put v :=
  w.data_bytes (utf8 v)

end WireWriter
end Ipad

end SidecarDOS
