/-
# The wire codec is exact in both languages

For every message type of the schema the host's `read` undoes `write` and
consumes the body exactly, nothing else is accepted, packets survive encoding
and decoding, and the iPad's runtime writes the same bytes and accepts the same
byte strings with the same values (`codec_exact`).  All of it follows from the
exactness of both codecs for one format (`Record`) and of both packet decoders
for one envelope (`SidecarDOS.Protocol.Packet`).
-/

import SidecarDOS.Protocol.Packet

namespace SidecarDOS

open Library

instance : (t : MessageType) → Host.Wire t.Value
  | .handshake => inferInstanceAs (Host.Wire Handshake)
  | .protocolVersion => inferInstanceAs (Host.Wire ProtocolVersion)
  | .hostInfo => inferInstanceAs (Host.Wire HostInfo)
  | .clientInfo => inferInstanceAs (Host.Wire ClientInfo)
  | .pairing => inferInstanceAs (Host.Wire Pairing)
  | .sessionStart => inferInstanceAs (Host.Wire SessionStart)
  | .sessionStop => inferInstanceAs (Host.Wire SessionStop)
  | .displayCapabilities => inferInstanceAs (Host.Wire DisplayCapabilities)
  | .displayMode => inferInstanceAs (Host.Wire DisplayMode)
  | .displayModeChange => inferInstanceAs (Host.Wire DisplayModeChange)
  | .encoderCapabilities => inferInstanceAs (Host.Wire EncoderCapabilities)
  | .encoderConfig => inferInstanceAs (Host.Wire EncoderConfig)
  | .videoConfig => inferInstanceAs (Host.Wire VideoConfig)
  | .videoFrame => inferInstanceAs (Host.Wire VideoFrame)
  | .videoFragment => inferInstanceAs (Host.Wire VideoFragment)
  | .keyframeRequest => inferInstanceAs (Host.Wire KeyframeRequest)
  | .inputEvent => inferInstanceAs (Host.Wire InputEvent)
  | .ping => inferInstanceAs (Host.Wire Ping)
  | .pong => inferInstanceAs (Host.Wire Pong)
  | .statistics => inferInstanceAs (Host.Wire Statistics)
  | .protocolError => inferInstanceAs (Host.Wire ProtocolError)

instance : (t : MessageType) → Ipad.WireMessage t.Value
  | .handshake => inferInstanceAs (Ipad.WireMessage Handshake)
  | .protocolVersion => inferInstanceAs (Ipad.WireMessage ProtocolVersion)
  | .hostInfo => inferInstanceAs (Ipad.WireMessage HostInfo)
  | .clientInfo => inferInstanceAs (Ipad.WireMessage ClientInfo)
  | .pairing => inferInstanceAs (Ipad.WireMessage Pairing)
  | .sessionStart => inferInstanceAs (Ipad.WireMessage SessionStart)
  | .sessionStop => inferInstanceAs (Ipad.WireMessage SessionStop)
  | .displayCapabilities => inferInstanceAs (Ipad.WireMessage DisplayCapabilities)
  | .displayMode => inferInstanceAs (Ipad.WireMessage DisplayMode)
  | .displayModeChange => inferInstanceAs (Ipad.WireMessage DisplayModeChange)
  | .encoderCapabilities => inferInstanceAs (Ipad.WireMessage EncoderCapabilities)
  | .encoderConfig => inferInstanceAs (Ipad.WireMessage EncoderConfig)
  | .videoConfig => inferInstanceAs (Ipad.WireMessage VideoConfig)
  | .videoFrame => inferInstanceAs (Ipad.WireMessage VideoFrame)
  | .videoFragment => inferInstanceAs (Ipad.WireMessage VideoFragment)
  | .keyframeRequest => inferInstanceAs (Ipad.WireMessage KeyframeRequest)
  | .inputEvent => inferInstanceAs (Ipad.WireMessage InputEvent)
  | .ping => inferInstanceAs (Ipad.WireMessage Ping)
  | .pong => inferInstanceAs (Ipad.WireMessage Pong)
  | .statistics => inferInstanceAs (Ipad.WireMessage Statistics)
  | .protocolError => inferInstanceAs (Ipad.WireMessage ProtocolError)

instance : (t : MessageType) → Record t.Value
  | .handshake => inferInstanceAs (Record Handshake)
  | .protocolVersion => inferInstanceAs (Record ProtocolVersion)
  | .hostInfo => inferInstanceAs (Record HostInfo)
  | .clientInfo => inferInstanceAs (Record ClientInfo)
  | .pairing => inferInstanceAs (Record Pairing)
  | .sessionStart => inferInstanceAs (Record SessionStart)
  | .sessionStop => inferInstanceAs (Record SessionStop)
  | .displayCapabilities => inferInstanceAs (Record DisplayCapabilities)
  | .displayMode => inferInstanceAs (Record DisplayMode)
  | .displayModeChange => inferInstanceAs (Record DisplayModeChange)
  | .encoderCapabilities => inferInstanceAs (Record EncoderCapabilities)
  | .encoderConfig => inferInstanceAs (Record EncoderConfig)
  | .videoConfig => inferInstanceAs (Record VideoConfig)
  | .videoFrame => inferInstanceAs (Record VideoFrame)
  | .videoFragment => inferInstanceAs (Record VideoFragment)
  | .keyframeRequest => inferInstanceAs (Record KeyframeRequest)
  | .inputEvent => inferInstanceAs (Record InputEvent)
  | .ping => inferInstanceAs (Record Ping)
  | .pong => inferInstanceAs (Record Pong)
  | .statistics => inferInstanceAs (Record Statistics)
  | .protocolError => inferInstanceAs (Record ProtocolError)

/-- A host packet as the iPad holds it: the session token is plain `Data`. -/
def Host.Packet.toIpad (p : Host.Packet) : Ipad.Packet :=
  ⟨p.kind, p.sequence, p.session.bytes, p.body⟩

section Message

variable {T : Type} [Host.Wire T] [Ipad.WireMessage T] [Record T]

/-- The host reads back what it wrote and consumes the body exactly. -/
theorem host_read_write {m : T} (hm : (Schema.format T).Valid m) :
    ∃ c', (Host.Wire.read : Host.Read T).run (Cursor.start (Host.Wire.write m ⟨[]⟩).buf) =
      .ok (m, c') ∧ c'.rest = [] := by
  obtain ⟨c', hrun, hrest, -⟩ := Record.host_read.run_put hm []
  rw [Record.host_write, List.nil_append]
  rw [List.append_nil] at hrun
  exact ⟨c', hrun, hrest⟩

theorem host_message_new {m : T} (hm : (Schema.format T).Valid m) (sequence : UInt64)
    (session : Id16) : (Host.Packet.new m sequence session).message T = .ok m :=
  Host.Packet.message_eq_ok.2 ⟨rfl, hm, Host.Packet.new_message m sequence session⟩

theorem ipad_message_new {m : T} (hm : (Schema.format T).Valid m) (sequence : UInt64)
    (session : Bytes) : (Ipad.Packet.new m sequence session).message T = .ok m :=
  Ipad.Packet.message_eq_ok.2
    ⟨Record.kind_eq, hm, Ipad.Packet.new_message m sequence session⟩

/-- An accepted body is the body its value writes. -/
theorem host_write_message {p : Host.Packet} {m : T} (h : p.message T = .ok m) :
    (Host.Wire.write m ⟨[]⟩).buf = p.body := by
  obtain ⟨-, -, hbody⟩ := Host.Packet.message_eq_ok.1 h
  rw [Record.host_write, List.nil_append, hbody]

theorem ipad_write_eq (m : T) :
    (Ipad.WireMessage.write m ⟨[]⟩).data = (Host.Wire.write m ⟨[]⟩).buf := by
  rw [Record.ipad_write, Record.host_write]

theorem ipad_new_eq (m : T) (sequence : UInt64) (session : Id16) :
    Ipad.Packet.new m sequence session.bytes = (Host.Packet.new m sequence session).toIpad := by
  rw [Ipad.Packet.new, Host.Packet.new, Host.Packet.toIpad, ipad_write_eq, Record.kind_eq]

theorem ipad_message_iff (p : Host.Packet) (m : T) :
    p.toIpad.message T = .ok m ↔ p.message T = .ok m :=
  Ipad.Packet.message_eq_ok.trans Host.Packet.message_eq_ok.symm

end Message

/-- A packet within a limit survives encoding and decoding. -/
theorem host_decode_encode {p : Host.Packet} {limit : ℕ} (hlimit : limit < 2 ^ 32)
    (hp : p.encode.length ≤ limit) : Host.Packet.decode p.encode limit = .ok p := by
  have hlen := congrArg List.length p.encode_eq
  rw [length_envelope p.session.length_eq] at hlen
  exact Host.Packet.decode_eq_ok.2 ⟨hp, by omega, Host.MINOR, p.encode_eq⟩

/-- Byte 5 of an envelope is its minor version. -/
theorem envelope_set_minor (minor minor' : UInt8) (kind : UInt16) (sequence : UInt64)
    (session body : Bytes) : (envelope minor kind sequence session body).set 5 minor' =
      envelope minor' kind sequence session body := rfl

/-- What is decoded encodes back, up to the minor version. -/
theorem host_encode_decode {d : Bytes} {limit : ℕ} {p : Host.Packet}
    (h : Host.Packet.decode d limit = .ok p) : ∃ minor, d = p.encode.set 5 minor := by
  obtain ⟨-, -, minor, hd⟩ := Host.Packet.decode_eq_ok.1 h
  exact ⟨minor, by rw [hd, p.encode_eq, envelope_set_minor]⟩

theorem ipad_encode_eq (p : Host.Packet) : p.toIpad.encode = p.encode := by
  rw [Ipad.Packet.encode_eq, Host.Packet.encode_eq]
  rfl

/-- The iPad decodes exactly the byte strings the host decodes, to the same packet. -/
theorem ipad_decode_iff (d : Bytes) (limit : ℕ) (q : Ipad.Packet) :
    Ipad.Packet.decode d limit = .ok q ↔
      ∃ p, Host.Packet.decode d limit = .ok p ∧ q = p.toIpad := by
  rw [Ipad.Packet.decode_eq_ok]
  constructor
  · rintro ⟨hl, hb, hs, minor, hd⟩
    exact ⟨⟨q.kind, q.sequence, ⟨q.session, hs⟩, q.body⟩,
      Host.Packet.decode_eq_ok.2 ⟨hl, hb, minor, hd⟩, rfl⟩
  · rintro ⟨p, hp, rfl⟩
    obtain ⟨hl, hb, minor, hd⟩ := Host.Packet.decode_eq_ok.1 hp
    exact ⟨hl, hb, p.session.length_eq, minor, hd⟩

/-- **The wire codec is exact in both languages.**  For every message type of
the schema and every value whose fields have a layout (byte fields up to 2 MiB,
strings up to 1,024 UTF-8 bytes, floats finite), the host reads back what it
wrote and consumes the body exactly; every accepted body is the one its value
writes; a packet within a limit is decoded from its encoding and a decoded byte
string is the encoding up to the minor version; and the iPad writes the same
bytes and accepts the same byte strings with the same values.  The limits the
program passes, 65,536 and 1,200, are far below `2 ^ 32`, from where on the
header's length field would wrap. -/
theorem codec_exact :
    (∀ (t : MessageType) (m : t.Value), (Schema.format t.Value).Valid m →
      (∃ c', (Host.Wire.read : Host.Read t.Value).run
          (Cursor.start (Host.Wire.write m ⟨[]⟩).buf) = .ok (m, c') ∧ c'.rest = []) ∧
        ∀ sequence session, (Host.Packet.new m sequence session).message t.Value = .ok m) ∧
    (∀ (t : MessageType) (p : Host.Packet) (m : t.Value), p.message t.Value = .ok m →
      (Host.Wire.write m ⟨[]⟩).buf = p.body) ∧
    (∀ (p : Host.Packet) (limit : ℕ), limit < 2 ^ 32 → p.encode.length ≤ limit →
      Host.Packet.decode p.encode limit = .ok p) ∧
    (∀ (d : Bytes) (limit : ℕ) (p : Host.Packet), Host.Packet.decode d limit = .ok p →
      ∃ minor, d = p.encode.set 5 minor) ∧
    (∀ (t : MessageType) (m : t.Value),
      (Ipad.WireMessage.write m ⟨[]⟩).data = (Host.Wire.write m ⟨[]⟩).buf) ∧
    (∀ (t : MessageType) (m : t.Value) (sequence : UInt64) (session : Id16),
      Ipad.Packet.new m sequence session.bytes = (Host.Packet.new m sequence session).toIpad) ∧
    (∀ (t : MessageType) (p : Host.Packet) (m : t.Value),
      p.toIpad.message t.Value = .ok m ↔ p.message t.Value = .ok m) ∧
    (∀ p : Host.Packet, p.toIpad.encode = p.encode) ∧
    ∀ (d : Bytes) (limit : ℕ) (q : Ipad.Packet), Ipad.Packet.decode d limit = .ok q ↔
      ∃ p, Host.Packet.decode d limit = .ok p ∧ q = p.toIpad :=
  ⟨fun _ _ hm => ⟨host_read_write hm, host_message_new hm⟩, fun _ _ _ => host_write_message,
    fun _ _ => host_decode_encode, fun _ _ _ => host_encode_decode, fun _ => ipad_write_eq,
    fun _ => ipad_new_eq, fun _ => ipad_message_iff, ipad_encode_eq, ipad_decode_iff⟩

/-- A host with a name that is not ASCII. -/
def sampleInfo : HostInfo := ⟨[0, 255, 128], "Büro"⟩

/-- A client's panel; the scale is 2, and a margin is -0. -/
def sampleCapabilities : DisplayCapabilities :=
  ⟨2732, 2048, 1366, 1024, 120, ⟨0x40000000⟩, ⟨0x41c00000⟩, ⟨0⟩, ⟨0x41a00000⟩, ⟨0x80000000⟩, 1⟩

/-- The hypotheses of `codec_exact` are satisfiable: byte strings, texts and floats are read back,
and the packet of the host is decoded by the client. -/
theorem codec_exact_sample :
    (Host.Packet.new sampleInfo 1 ⟨List.replicate 16 0, rfl⟩).message HostInfo = .ok sampleInfo ∧
      (Host.Packet.new sampleCapabilities 2 ⟨List.replicate 16 0, rfl⟩).message
        DisplayCapabilities = .ok sampleCapabilities ∧
      Ipad.Packet.decode (Host.Packet.new sampleInfo 1 ⟨List.replicate 16 0, rfl⟩).encode
        MAX_CONTROL = .ok (Host.Packet.new sampleInfo 1 ⟨List.replicate 16 0, rfl⟩).toIpad := by
  have hid : sampleInfo.hostId.length ≤ MAX_FRAME := by decide
  have hname : (utf8 sampleInfo.name).length ≤ 1024 := by decide
  have hinfo : (Schema.format HostInfo).Valid sampleInfo := ⟨hid, hname, trivial⟩
  have hcapabilities : (Schema.format DisplayCapabilities).Valid sampleCapabilities :=
    ⟨trivial, trivial, trivial, trivial, trivial, rfl, rfl, rfl, rfl, rfl, trivial, trivial⟩
  obtain ⟨hread, -, hdecode, -, -, -, -, -, hipad⟩ := codec_exact
  refine ⟨(hread .hostInfo _ hinfo).2 _ _, (hread .displayCapabilities _ hcapabilities).2 _ _, ?_⟩
  exact (hipad _ _ _).2 ⟨_, hdecode _ MAX_CONTROL (by decide) (by decide), rfl⟩

end SidecarDOS
