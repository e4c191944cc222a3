/-
# Packets in both implementations

`Packet` of `windows/host/src/protocol/mod.rs` and of
`ipad/SidecarDOS/Protocol/Wire.swift`: the 36-byte header, the body and the
message in it.  `layout` is the packet's byte string with a given minor version;
both encoders write minor 0 and both decoders ignore it, so a decoder accepts
exactly the layouts within its limit whose body length fits the u32 field
(`Host.Packet.decode_eq_ok`, `Ipad.Packet.decode_eq_ok`), and `message` accepts
exactly the bodies the schema lays out.
-/

import SidecarDOS.Protocol.Schema

namespace SidecarDOS

open Library

/-- `[u8; 16]`. -/
@[ext] structure Id16 where
  bytes : Bytes
  length_eq : bytes.length = 16
  deriving DecidableEq

/-- `[0; 16]`. -/
def Id16.zero : Id16 := ⟨List.replicate 16 0, rfl⟩

/-- `try_into` an array of 16 bytes. -/
def Id16.ofBytes (b : Bytes) : Option Id16 := if h : b.length = 16 then some ⟨b, h⟩ else none

theorem Id16.ofBytes_eq_some {b : Bytes} {v : Id16} : Id16.ofBytes b = some v ↔ v.bytes = b := by
  unfold Id16.ofBytes
  constructor
  · intro h
    split at h
    · rw [← Option.some.inj h]
    · exact absurd h (by simp)
  · rintro rfl
    rw [dif_pos v.length_eq]

/-- ASCII `SDOS`. -/
def MAGIC : Bytes := [0x53, 0x44, 0x4f, 0x53]

namespace Host

structure Packet where
  kind : UInt16
  sequence : UInt64
  session : Id16
  body : Bytes
  deriving DecidableEq

namespace Packet

def new {T : Type} [Wire T] (msg : T) (sequence : UInt64) (session : Id16) : Packet :=
  ⟨Wire.KIND T, sequence, session, (Wire.write msg ⟨[]⟩).buf⟩

def encode (p : Packet) : Bytes :=
  let w : Writer := ⟨MAGIC⟩
  let w := w |>.u8 MAJOR |>.u8 MINOR |>.u16 p.kind |>.u32 (UInt32.ofNat p.body.length)
    |>.u64 p.sequence
  w.buf ++ p.session.bytes ++ p.body

/-- `r.take(16)?.try_into()?`. -/
def takeId : Read Id16 := do
  match Id16.ofBytes (← Reader.take 16) with
  | some v => return v
  | none => throw (.ensure "could not convert slice to array")

/-- The reads of `decode` on `len` bytes, with the minor version it drops. -/
def read (len : ℕ) : Read (UInt8 × Packet) := do
  let magic ← Reader.take 4
  ensure (magic = MAGIC) "bad magic"
  let major ← Reader.u8
  ensure (major = MAJOR) "unsupported protocol major"
  let minor ← Reader.u8
  let kind ← Reader.u16
  let n ← Reader.u32
  let sequence ← Reader.u64
  let session ← takeId
  ensure (n.toNat = len - HEADER) "body length mismatch"
  let body ← Reader.take n.toNat
  return (minor, ⟨kind, sequence, session, body⟩)

def decode (data : Bytes) (limit : ℕ) : Except Error Packet :=
  if data.length ≥ HEADER ∧ data.length ≤ limit then
    (fun r => r.1.2) <$> (read data.length).run (Cursor.start data)
  else .error (.ensure "packet length out of bounds")

def message (T : Type) [Wire T] (p : Packet) : Except Error T :=
  if p.kind = Wire.KIND T then
    (fun r => r.1) <$> (do
      let v ← Wire.read
      Reader.finish
      return v : Read T).run (Cursor.start p.body)
  else .error (.ensure "unexpected message kind")

end Packet
end Host

namespace Ipad

structure Packet where
  kind : UInt16
  sequence : UInt64
  session : Bytes
  body : Bytes
  deriving DecidableEq

namespace Packet

/-- `init(_:sequence:session:)`. -/
def new {T : Type} [WireMessage T] (message : T) (sequence : UInt64) (session : Bytes) : Packet :=
  ⟨WireMessage.kind T, sequence, session, (WireMessage.write message ⟨[]⟩).data⟩

def encode (p : Packet) : Bytes :=
  let w : WireWriter := ⟨MAGIC⟩
  let w := w |>.u8 1 |>.u8 0 |>.u16 p.kind |>.u32 (UInt32.ofNat p.body.length) |>.u64 p.sequence
  w.data ++ p.session ++ p.body

/-- The reads of `init(data:limit:)` on `len` bytes, with the minor version it drops. -/
def read (len : ℕ) : Read (UInt8 × Packet) := do
  let magic ← WireReader.take 4
  guardElse (magic = MAGIC) .malformed
  let major ← WireReader.u8
  guardElse (major = 1) .version
  let minor ← WireReader.u8
  let kind ← WireReader.u16
  let length ← WireReader.u32
  let sequence ← WireReader.u64
  let session ← WireReader.take 16
  guardElse (length.toNat = len - HEADER) .malformed
  let body ← WireReader.take length.toNat
  return (minor, ⟨kind, sequence, session, body⟩)

/-- `init(data:limit:)`. -/
def decode (data : Bytes) (limit : ℕ) : Except WireError Packet :=
  if data.length ≥ HEADER ∧ data.length ≤ limit then
    (fun r => r.1.2) <$> (read data.length).run (Cursor.start data)
  else .error .oversized

def message (T : Type) [WireMessage T] (p : Packet) : Except WireError T :=
  if p.kind = WireMessage.kind T then
    (fun r => r.1) <$> (do
      let result ← WireMessage.read
      WireReader.finish
      return result : Read T).run (Cursor.start p.body)
  else .error .unexpected

end Packet
end Ipad

/-! ### What the decoders accept -/

/-- A packet's bytes with minor version `minor`: the header, in the order of the
protocol description, and the body. -/
def envelope (minor : UInt8) (kind : UInt16) (sequence : UInt64) (session body : Bytes) : Bytes :=
  MAGIC ++ ([1] ++ ([minor] ++ (toLE 2 kind.toNat ++ (toLE 4 body.length ++
    (toLE 8 sequence.toNat ++ (session ++ body))))))

theorem length_envelope {minor : UInt8} {kind : UInt16} {sequence : UInt64} {session body : Bytes}
    (hs : session.length = 16) :
    (envelope minor kind sequence session body).length = HEADER + body.length := by
  simp only [envelope, List.length_append, length_toLE, hs, MAGIC, HEADER, List.length_cons,
    List.length_nil]
  omega

/-- A u32 holds the length of a body shorter than `2 ^ 32`. -/
theorem toNat_bodyLength {n : ℕ} (h : n < 2 ^ 32) : (UInt32.ofNat n).toNat = n :=
  UInt32.toNat_ofNat_of_lt' h

section Accepting

open Format Schema

/-- What follows the session in a packet of `len` bytes, for a record `ρ` that
carries the body. -/
def bodyFormat {ρ : Type} (len : ℕ) (body : ρ → Bytes) : Format UInt8 ρ :=
  field (block (len - HEADER)) body nil

/-- The header of a packet of `len` bytes, in terms of its parts in `ρ`. -/
def packetFormat {ρ : Type} (len : ℕ) (minor : ρ → UInt8) (kind : ρ → UInt16)
    (sequence : ρ → UInt64) (session body : ρ → Bytes) : Format UInt8 ρ :=
  field (block 4) (fun _ => MAGIC) <| field u8 (fun _ => 1) <| field u8 minor <|
  field u16 kind <| field u32 (fun r => UInt32.ofNat (body r).length) <|
  field u64 sequence <| field (block 16) session <| bodyFormat len body

variable {ρ : Type} {len : ℕ} {minor : ρ → UInt8} {kind : ρ → UInt16} {sequence : ρ → UInt64}
  {session body : ρ → Bytes} {r : ρ}

theorem put_packetFormat : (packetFormat len minor kind sequence session body).put r =
    envelope (minor r) (kind r) (sequence r) (session r) (body r) := by
  simp only [packetFormat, bodyFormat, envelope, put_field, put_block, put_nil, put_u8, put_u16,
    put_u32, put_u64, toLE_ofNat32, List.append_nil]

theorem valid_packetFormat : (packetFormat len minor kind sequence session body).Valid r ↔
    (session r).length = 16 ∧ (body r).length = len - HEADER := by
  simp [packetFormat, bodyFormat, MAGIC]

/-- A scanner exact for `packetFormat` on the whole input accepts precisely the
envelopes as long as the input. -/
theorem run_packet_ok {ε : Type} {m : Scan ε UInt8 ρ} {d : Bytes}
    (hm : ExactOn (fun r => (body r).length < 2 ^ 32) m
      (packetFormat d.length minor kind sequence session body)) (hd : HEADER ≤ d.length) :
    (∃ c', m.run (Cursor.start d) = .ok (r, c')) ↔
      (body r).length < 2 ^ 32 ∧ (session r).length = 16 ∧
        d = envelope (minor r) (kind r) (sequence r) (session r) (body r) := by
  constructor
  · rintro ⟨c', h⟩
    obtain ⟨hK, hv, hr⟩ := (hm ..).1 h
    obtain ⟨hs, hb⟩ := valid_packetFormat.1 hv
    rw [put_packetFormat] at hr
    have hsplit := hr.2
    rw [Cursor.rest_start] at hsplit
    have hlen := congrArg List.length hsplit
    rw [List.length_append, length_envelope hs, hb] at hlen
    have hnil : c'.rest = [] := List.eq_nil_of_length_eq_zero (by omega)
    rw [hnil, List.append_nil] at hsplit
    exact ⟨hK, hs, hsplit⟩
  · rintro ⟨hK, hs, hsplit⟩
    have hlen := congrArg List.length hsplit
    rw [length_envelope hs] at hlen
    refine ⟨⟨d, d.length, Nat.le_refl _⟩, (hm ..).2 ⟨hK, valid_packetFormat.2 ⟨hs, by omega⟩, rfl, ?_⟩⟩
    rw [put_packetFormat, ← hsplit, Cursor.rest_start, Cursor.rest, List.drop_length,
      List.append_nil]

/-- The end of both decoders, in any runtime: a body length that does not match
the input is rejected, and the rest is the body. -/
theorem exactOn_body {ε : Type} {take : ℕ → Scan ε UInt8 Bytes}
    (ht : ∀ n, Exact (take n) (block n)) {e : ε} {n : UInt32} {K : ρ → Prop}
    {k : Bytes → Scan ε UInt8 ρ}
    (hK : ∀ r, K r → (body r).length < 2 ^ 32 ∧ UInt32.ofNat (body r).length = n)
    (hk : ∀ b, b.length < 2 ^ 32 → UInt32.ofNat b.length = n →
      ExactOn (fun r => K r ∧ body r = b) (k b) nil) :
    ExactOn K (require (n.toNat = len - HEADER) e >>= fun _ => take n.toNat >>= k)
      (bodyFormat len body) := by
  refine .require (fun r h hv => ?_) fun hn => ?_
  · obtain ⟨hlt, hn⟩ := hK r h
    rw [← hn, toNat_bodyLength hlt]
    exact hv.1
  · rw [bodyFormat, ← hn]
    refine .field (ht _) fun b hb => hk b ?_ ?_
    · rw [show b.length = n.toNat from hb]
      exact n.toNat_lt
    · rw [show b.length = n.toNat from hb, UInt32.ofNat_toNat]

end Accepting

namespace Host
namespace Packet

theorem takeId_exact : Exact takeId (Format.comap Id16.bytes (Format.block 16)) := by
  refine (Reader.take_exact 16).convert (fun b hb c v c' => ?_) fun v hv => ⟨v.bytes, hv, rfl⟩
  obtain ⟨id, hid⟩ : ∃ id : Id16, id.bytes = b := ⟨⟨b, hb⟩, rfl⟩
  rw [Id16.ofBytes_eq_some.2 hid, run_pure_ok, Prod.mk.injEq, ← hid]
  constructor
  · rintro ⟨rfl, rfl⟩
    exact ⟨rfl, v.length_eq, rfl⟩
  · rintro ⟨rfl, -, hv⟩
    exact ⟨Id16.ext hv, rfl⟩

theorem read_exact (len : ℕ) : ExactOn (fun r => r.2.body.length < 2 ^ 32) (read len)
    (packetFormat len (·.1) (·.2.kind) (·.2.sequence) (·.2.session.bytes) (·.2.body)) := by
  refine .field (Reader.take_exact 4) fun a _ => .require (fun r h _ => h.2.symm) ?_
  rintro rfl
  refine .field Reader.u8_exact fun b _ => .require (fun r h _ => h.2.symm) ?_
  rintro rfl
  refine .field Reader.u8_exact fun minor _ => .field Reader.u16_exact fun kind _ => ?_
  refine .field Reader.u32_exact fun n _ => .field Reader.u64_exact fun sequence _ => ?_
  refine .field takeId_exact fun session _ => exactOn_body Reader.take_exact ?_ ?_
  · rintro r ⟨⟨⟨⟨⟨⟨⟨hlt, _⟩, _⟩, _⟩, _⟩, hn⟩, _⟩, _⟩
    exact ⟨hlt, hn⟩
  · rintro b hlt rfl
    refine .nil fun r => ⟨?_, ?_⟩
    · rintro ⟨⟨⟨⟨⟨⟨⟨⟨_, _⟩, _⟩, rfl⟩, rfl⟩, _⟩, rfl⟩, rfl⟩, rfl⟩
      rfl
    · rintro rfl
      exact ⟨⟨⟨⟨⟨⟨⟨⟨hlt, rfl⟩, rfl⟩, rfl⟩, rfl⟩, rfl⟩, rfl⟩, rfl⟩, rfl⟩

/-- **The host's decoder accepts exactly the layouts of packets** within the
limit, under any minor version, and returns the packet laid out. -/
theorem decode_eq_ok {d : Bytes} {limit : ℕ} {p : Packet} : decode d limit = .ok p ↔
    d.length ≤ limit ∧ p.body.length < 2 ^ 32 ∧
      ∃ minor, d = envelope minor p.kind p.sequence p.session.bytes p.body := by
  unfold decode
  split
  · rename_i h
    have hrun (minor : UInt8) := run_packet_ok (r := (minor, p)) (read_exact d.length) h.1
    rw [map_eq_ok]
    constructor
    · rintro ⟨⟨⟨minor, _⟩, c'⟩, hr, rfl⟩
      obtain ⟨hlt, -, hd⟩ := (hrun minor).1 ⟨c', hr⟩
      exact ⟨h.2, hlt, minor, hd⟩
    · rintro ⟨-, hlt, minor, hd⟩
      obtain ⟨c', hr⟩ := (hrun minor).2 ⟨hlt, p.session.length_eq, hd⟩
      exact ⟨_, hr, rfl⟩
  · rename_i h
    refine ⟨fun h' => absurd h' (by simp), fun ⟨hl, _, minor, hd⟩ => absurd ⟨?_, hl⟩ h⟩
    rw [hd, length_envelope p.session.length_eq]
    exact Nat.le_add_right _ _

theorem encode_eq (p : Packet) :
    p.encode = envelope MINOR p.kind p.sequence p.session.bytes p.body := by
  simp only [encode, envelope, Writer.buf_u8, Writer.buf_u16, Writer.buf_u32, Writer.buf_u64,
    Schema.put_u8, Schema.put_u16, Schema.put_u32, Schema.put_u64, toLE_ofNat32, List.append_assoc,
    MAJOR]

/-- `message` accepts exactly the schema's layouts of valid values. -/
theorem message_eq_ok {T : Type} [Wire T] [Ipad.WireMessage T] [Record T] {p : Packet} {m : T} :
    p.message T = .ok m ↔
      p.kind = Wire.KIND T ∧ (Schema.format T).Valid m ∧ p.body = (Schema.format T).put m := by
  unfold message
  split
  · rename_i hk
    rw [Record.host_read.whole Reader.finish_ok]
    exact ⟨fun h => ⟨hk, h⟩, fun h => h.2⟩
  · rename_i hk
    exact ⟨fun h => absurd h (by simp), fun h => absurd h.1 hk⟩

theorem new_message {T : Type} [Wire T] [Ipad.WireMessage T] [Record T] (m : T)
    (sequence : UInt64) (session : Id16) :
    (new m sequence session).body = (Schema.format T).put m :=
  Record.host_write m ⟨[]⟩

end Packet
end Host

namespace Ipad
namespace Packet

theorem read_exact (len : ℕ) : ExactOn (fun r => r.2.body.length < 2 ^ 32) (read len)
    (packetFormat len (·.1) (·.2.kind) (·.2.sequence) (·.2.session) (·.2.body)) := by
  refine .field (WireReader.take_exact 4) fun a _ => .require (fun r h _ => h.2.symm) ?_
  rintro rfl
  refine .field WireReader.u8_exact fun b _ => .require (fun r h _ => h.2.symm) ?_
  rintro rfl
  refine .field WireReader.u8_exact fun minor _ => .field WireReader.u16_exact fun kind _ => ?_
  refine .field WireReader.u32_exact fun n _ => .field WireReader.u64_exact fun sequence _ => ?_
  refine .field (WireReader.take_exact 16) fun session _ =>
    exactOn_body WireReader.take_exact ?_ ?_
  · rintro r ⟨⟨⟨⟨⟨⟨⟨hlt, _⟩, _⟩, _⟩, _⟩, hn⟩, _⟩, _⟩
    exact ⟨hlt, hn⟩
  · rintro b hlt rfl
    refine .nil fun r => ⟨?_, ?_⟩
    · rintro ⟨⟨⟨⟨⟨⟨⟨⟨_, _⟩, _⟩, rfl⟩, rfl⟩, _⟩, rfl⟩, rfl⟩, rfl⟩
      rfl
    · rintro rfl
      exact ⟨⟨⟨⟨⟨⟨⟨⟨hlt, rfl⟩, rfl⟩, rfl⟩, rfl⟩, rfl⟩, rfl⟩, rfl⟩, rfl⟩

/-- **The iPad's decoder accepts exactly the layouts of packets** within the
limit, under any minor version, and returns the packet laid out. -/
theorem decode_eq_ok {d : Bytes} {limit : ℕ} {p : Packet} : decode d limit = .ok p ↔
    d.length ≤ limit ∧ p.body.length < 2 ^ 32 ∧ p.session.length = 16 ∧
      ∃ minor, d = envelope minor p.kind p.sequence p.session p.body := by
  unfold decode
  split
  · rename_i h
    have hrun (minor : UInt8) := run_packet_ok (r := (minor, p)) (read_exact d.length) h.1
    rw [map_eq_ok]
    constructor
    · rintro ⟨⟨⟨minor, _⟩, c'⟩, hr, rfl⟩
      obtain ⟨hlt, hs, hd⟩ := (hrun minor).1 ⟨c', hr⟩
      exact ⟨h.2, hlt, hs, minor, hd⟩
    · rintro ⟨-, hlt, hs, minor, hd⟩
      obtain ⟨c', hr⟩ := (hrun minor).2 ⟨hlt, hs, hd⟩
      exact ⟨_, hr, rfl⟩
  · rename_i h
    refine ⟨fun h' => absurd h' (by simp), fun ⟨hl, _, hs, minor, hd⟩ => absurd ⟨?_, hl⟩ h⟩
    rw [hd, length_envelope hs]
    exact Nat.le_add_right _ _

theorem encode_eq (p : Packet) :
    p.encode = envelope 0 p.kind p.sequence p.session p.body := by
  simp only [encode, envelope, WireWriter.data_u8, WireWriter.data_u16, WireWriter.data_u32,
    WireWriter.data_u64, Schema.put_u8, Schema.put_u16, Schema.put_u32, Schema.put_u64,
    toLE_ofNat32, List.append_assoc]

/-- `message` accepts exactly the schema's layouts of valid values. -/
theorem message_eq_ok {T : Type} [Host.Wire T] [WireMessage T] [Record T] {p : Packet} {m : T} :
    p.message T = .ok m ↔
      p.kind = Host.Wire.KIND T ∧ (Schema.format T).Valid m ∧
        p.body = (Schema.format T).put m := by
  unfold message
  rw [Record.kind_eq]
  split
  · rename_i hk
    rw [Record.ipad_read.whole WireReader.finish_ok]
    exact ⟨fun h => ⟨hk, h⟩, fun h => h.2⟩
  · rename_i hk
    exact ⟨fun h => absurd h (by simp), fun h => absurd h.1 hk⟩

theorem new_message {T : Type} [Host.Wire T] [WireMessage T] [Record T] (m : T)
    (sequence : UInt64) (session : Bytes) :
    (new m sequence session).body = (Schema.format T).put m :=
  Record.ipad_write m ⟨[]⟩

end Packet
end Ipad

end SidecarDOS
