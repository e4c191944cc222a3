/-
# The schema, and both generated codecs against it

`Record.format` is a message's entry in `protocol/schema.json`: its fields in
schema order.  Every instance of `Record` carries the proofs that the host's and
the iPad's generated code read exactly that format and write it, under the same
message kind, so an instance is where a changed field of either codec shows.
-/

import SidecarDOS.Protocol.HostCodec
import SidecarDOS.Protocol.IpadCodec

namespace SidecarDOS

open Library

/-- A message of the schema with both of its generated codecs. -/
class Record (T : Type) [Host.Wire T] [Ipad.WireMessage T] where
  format : Format UInt8 T
  host_read : Exact (Host.Wire.read : Host.Read T) format
  host_write : ∀ (m : T) w, (Host.Wire.write m w).buf = w.buf ++ format.put m
  ipad_read : Exact (Ipad.WireMessage.read : Ipad.Read T) format
  ipad_write : ∀ (m : T) w, (Ipad.WireMessage.write m w).data = w.data ++ format.put m
  kind_eq : Ipad.WireMessage.kind T = Host.Wire.KIND T

namespace Schema

/-- The schema's format of the messages `T`. -/
abbrev format (T : Type) [Host.Wire T] [Ipad.WireMessage T] [Record T] : Format UInt8 T :=
  Record.format

open Format Host Ipad

instance : Record Handshake where
  format := field u8 (·.minMajor) <| field u8 (·.maxMajor) <| field u8 (·.minor) <|
    field bytes (·.clientId) <| field string (·.name) <| field u8 (·.trusted) <| nil
  host_read := ExactOn.exact <| .field Reader.u8_exact fun _ _ =>
    .field Reader.u8_exact fun _ _ => .field Reader.u8_exact fun _ _ =>
    .field Reader.bytes_exact fun _ _ => .field Reader.string_exact fun _ _ =>
    .field Reader.u8_exact fun _ _ => .nil fun ⟨_, _, _, _, _, _⟩ => by simp [and_assoc]
  host_write m w := by simp [Wire.write]
  ipad_read := ExactOn.exact <| .field WireReader.u8_exact fun _ _ =>
    .field WireReader.u8_exact fun _ _ => .field WireReader.u8_exact fun _ _ =>
    .field WireReader.bytes_exact fun _ _ => .field WireReader.string_exact fun _ _ =>
    .field WireReader.u8_exact fun _ _ => .nil fun ⟨_, _, _, _, _, _⟩ => by simp [and_assoc]
  ipad_write m w := by simp [WireMessage.write]
  kind_eq := rfl

instance : Record ProtocolVersion where
  format := field u8 (·.major) <| field u8 (·.minor) <| nil
  host_read := ExactOn.exact <| .field Reader.u8_exact fun _ _ =>
    .field Reader.u8_exact fun _ _ => .nil fun ⟨_, _⟩ => by simp
  host_write m w := by simp [Wire.write]
  ipad_read := ExactOn.exact <| .field WireReader.u8_exact fun _ _ =>
    .field WireReader.u8_exact fun _ _ => .nil fun ⟨_, _⟩ => by simp
  ipad_write m w := by simp [WireMessage.write]
  kind_eq := rfl

instance : Record HostInfo where
  format := field bytes (·.hostId) <| field string (·.name) <| nil
  host_read := ExactOn.exact <| .field Reader.bytes_exact fun _ _ =>
    .field Reader.string_exact fun _ _ => .nil fun ⟨_, _⟩ => by simp
  host_write m w := by simp [Wire.write]
  ipad_read := ExactOn.exact <| .field WireReader.bytes_exact fun _ _ =>
    .field WireReader.string_exact fun _ _ => .nil fun ⟨_, _⟩ => by simp
  ipad_write m w := by simp [WireMessage.write]
  kind_eq := rfl

instance : Record ClientInfo where
  format := field bytes (·.clientId) <| field string (·.name) <| nil
  host_read := ExactOn.exact <| .field Reader.bytes_exact fun _ _ =>
    .field Reader.string_exact fun _ _ => .nil fun ⟨_, _⟩ => by simp
  host_write m w := by simp [Wire.write]
  ipad_read := ExactOn.exact <| .field WireReader.bytes_exact fun _ _ =>
    .field WireReader.string_exact fun _ _ => .nil fun ⟨_, _⟩ => by simp
  ipad_write m w := by simp [WireMessage.write]
  kind_eq := rfl

instance : Record Pairing where
  format := field u8 (·.phase) <| field bytes (·.nonce) <| field bytes (·.proof) <|
    field bytes (·.secret) <| nil
  host_read := ExactOn.exact <| .field Reader.u8_exact fun _ _ =>
    .field Reader.bytes_exact fun _ _ => .field Reader.bytes_exact fun _ _ =>
    .field Reader.bytes_exact fun _ _ => .nil fun ⟨_, _, _, _⟩ => by simp [and_assoc]
  host_write m w := by simp [Wire.write]
  ipad_read := ExactOn.exact <| .field WireReader.u8_exact fun _ _ =>
    .field WireReader.bytes_exact fun _ _ => .field WireReader.bytes_exact fun _ _ =>
    .field WireReader.bytes_exact fun _ _ => .nil fun ⟨_, _, _, _⟩ => by simp [and_assoc]
  ipad_write m w := by simp [WireMessage.write]
  kind_eq := rfl

instance : Record SessionStart where
  format := field u32 (·.width) <| field u32 (·.height) <| field u32 (·.fps) <| nil
  host_read := ExactOn.exact <| .field Reader.u32_exact fun _ _ =>
    .field Reader.u32_exact fun _ _ => .field Reader.u32_exact fun _ _ =>
    .nil fun ⟨_, _, _⟩ => by simp [and_assoc]
  host_write m w := by simp [Wire.write]
  ipad_read := ExactOn.exact <| .field WireReader.u32_exact fun _ _ =>
    .field WireReader.u32_exact fun _ _ => .field WireReader.u32_exact fun _ _ =>
    .nil fun ⟨_, _, _⟩ => by simp [and_assoc]
  ipad_write m w := by simp [WireMessage.write]
  kind_eq := rfl

instance : Record SessionStop where
  format := field u8 (·.reason) <| nil
  host_read := ExactOn.exact <| .field Reader.u8_exact fun _ _ => .nil fun ⟨_⟩ => by simp
  host_write m w := by simp [Wire.write]
  ipad_read := ExactOn.exact <| .field WireReader.u8_exact fun _ _ => .nil fun ⟨_⟩ => by simp
  ipad_write m w := by simp [WireMessage.write]
  kind_eq := rfl

instance : Record DisplayCapabilities where
  format := field u32 (·.physicalWidth) <| field u32 (·.physicalHeight) <|
    field u32 (·.logicalWidth) <| field u32 (·.logicalHeight) <| field u32 (·.maxFps) <|
    field f32 (·.nativeScale) <| field f32 (·.safeTop) <| field f32 (·.safeRight) <|
    field f32 (·.safeBottom) <| field f32 (·.safeLeft) <| field u8 (·.orientation) <| nil
  host_read := ExactOn.exact <| .field Reader.u32_exact fun _ _ =>
    .field Reader.u32_exact fun _ _ => .field Reader.u32_exact fun _ _ =>
    .field Reader.u32_exact fun _ _ => .field Reader.u32_exact fun _ _ =>
    .field Reader.f32_exact fun _ _ => .field Reader.f32_exact fun _ _ =>
    .field Reader.f32_exact fun _ _ => .field Reader.f32_exact fun _ _ =>
    .field Reader.f32_exact fun _ _ => .field Reader.u8_exact fun _ _ =>
    .nil fun ⟨_, _, _, _, _, _, _, _, _, _, _⟩ => by simp [and_assoc]
  host_write m w := by simp [Wire.write]
  ipad_read := ExactOn.exact <| .field WireReader.u32_exact fun _ _ =>
    .field WireReader.u32_exact fun _ _ => .field WireReader.u32_exact fun _ _ =>
    .field WireReader.u32_exact fun _ _ => .field WireReader.u32_exact fun _ _ =>
    .field WireReader.f32_exact fun _ _ => .field WireReader.f32_exact fun _ _ =>
    .field WireReader.f32_exact fun _ _ => .field WireReader.f32_exact fun _ _ =>
    .field WireReader.f32_exact fun _ _ => .field WireReader.u8_exact fun _ _ =>
    .nil fun ⟨_, _, _, _, _, _, _, _, _, _, _⟩ => by simp [and_assoc]
  ipad_write m w := by simp [WireMessage.write]
  kind_eq := rfl

instance : Record DisplayMode where
  format := field u32 (·.width) <| field u32 (·.height) <| field u32 (·.fps) <|
    field u32 (·.scalePercent) <| nil
  host_read := ExactOn.exact <| .field Reader.u32_exact fun _ _ =>
    .field Reader.u32_exact fun _ _ => .field Reader.u32_exact fun _ _ =>
    .field Reader.u32_exact fun _ _ => .nil fun ⟨_, _, _, _⟩ => by simp [and_assoc]
  host_write m w := by simp [Wire.write]
  ipad_read := ExactOn.exact <| .field WireReader.u32_exact fun _ _ =>
    .field WireReader.u32_exact fun _ _ => .field WireReader.u32_exact fun _ _ =>
    .field WireReader.u32_exact fun _ _ => .nil fun ⟨_, _, _, _⟩ => by simp [and_assoc]
  ipad_write m w := by simp [WireMessage.write]
  kind_eq := rfl

instance : Record DisplayModeChange where
  format := field u32 (·.width) <| field u32 (·.height) <| field u32 (·.fps) <| nil
  host_read := ExactOn.exact <| .field Reader.u32_exact fun _ _ =>
    .field Reader.u32_exact fun _ _ => .field Reader.u32_exact fun _ _ =>
    .nil fun ⟨_, _, _⟩ => by simp [and_assoc]
  host_write m w := by simp [Wire.write]
  ipad_read := ExactOn.exact <| .field WireReader.u32_exact fun _ _ =>
    .field WireReader.u32_exact fun _ _ => .field WireReader.u32_exact fun _ _ =>
    .nil fun ⟨_, _, _⟩ => by simp [and_assoc]
  ipad_write m w := by simp [WireMessage.write]
  kind_eq := rfl

instance : Record EncoderCapabilities where
  format := field u32 (·.codecs) <| field u8 (·.hardware) <| field u32 (·.maxWidth) <|
    field u32 (·.maxHeight) <| nil
  host_read := ExactOn.exact <| .field Reader.u32_exact fun _ _ =>
    .field Reader.u8_exact fun _ _ => .field Reader.u32_exact fun _ _ =>
    .field Reader.u32_exact fun _ _ => .nil fun ⟨_, _, _, _⟩ => by simp [and_assoc]
  host_write m w := by simp [Wire.write]
  ipad_read := ExactOn.exact <| .field WireReader.u32_exact fun _ _ =>
    .field WireReader.u8_exact fun _ _ => .field WireReader.u32_exact fun _ _ =>
    .field WireReader.u32_exact fun _ _ => .nil fun ⟨_, _, _, _⟩ => by simp [and_assoc]
  ipad_write m w := by simp [WireMessage.write]
  kind_eq := rfl

instance : Record EncoderConfig where
  format := field u8 (·.codec) <| field u32 (·.bitrate) <| field u32 (·.fps) <|
    field u8 (·.preset) <| nil
  host_read := ExactOn.exact <| .field Reader.u8_exact fun _ _ =>
    .field Reader.u32_exact fun _ _ => .field Reader.u32_exact fun _ _ =>
    .field Reader.u8_exact fun _ _ => .nil fun ⟨_, _, _, _⟩ => by simp [and_assoc]
  host_write m w := by simp [Wire.write]
  ipad_read := ExactOn.exact <| .field WireReader.u8_exact fun _ _ =>
    .field WireReader.u32_exact fun _ _ => .field WireReader.u32_exact fun _ _ =>
    .field WireReader.u8_exact fun _ _ => .nil fun ⟨_, _, _, _⟩ => by simp [and_assoc]
  ipad_write m w := by simp [WireMessage.write]
  kind_eq := rfl

instance : Record VideoConfig where
  format := field u32 (·.generation) <| field u8 (·.codec) <| field u32 (·.width) <|
    field u32 (·.height) <| field u32 (·.fps) <| field u8 (·.bitDepth) <|
    field u8 (·.colorSpace) <| field bytes (·.parameterSets) <| nil
  host_read := ExactOn.exact <| .field Reader.u32_exact fun _ _ =>
    .field Reader.u8_exact fun _ _ => .field Reader.u32_exact fun _ _ =>
    .field Reader.u32_exact fun _ _ => .field Reader.u32_exact fun _ _ =>
    .field Reader.u8_exact fun _ _ => .field Reader.u8_exact fun _ _ =>
    .field Reader.bytes_exact fun _ _ => .nil fun ⟨_, _, _, _, _, _, _, _⟩ => by simp [and_assoc]
  host_write m w := by simp [Wire.write]
  ipad_read := ExactOn.exact <| .field WireReader.u32_exact fun _ _ =>
    .field WireReader.u8_exact fun _ _ => .field WireReader.u32_exact fun _ _ =>
    .field WireReader.u32_exact fun _ _ => .field WireReader.u32_exact fun _ _ =>
    .field WireReader.u8_exact fun _ _ => .field WireReader.u8_exact fun _ _ =>
    .field WireReader.bytes_exact fun _ _ =>
    .nil fun ⟨_, _, _, _, _, _, _, _⟩ => by simp [and_assoc]
  ipad_write m w := by simp [WireMessage.write]
  kind_eq := rfl

instance : Record VideoFrame where
  format := field u32 (·.generation) <| field u64 (·.frameId) <|
    field u64 (·.captureTimestamp) <| field u64 (·.encodeTimestamp) <|
    field u64 (·.sendTimestamp) <| field u8 (·.keyframe) <| field bytes (·.data) <| nil
  host_read := ExactOn.exact <| .field Reader.u32_exact fun _ _ =>
    .field Reader.u64_exact fun _ _ => .field Reader.u64_exact fun _ _ =>
    .field Reader.u64_exact fun _ _ => .field Reader.u64_exact fun _ _ =>
    .field Reader.u8_exact fun _ _ => .field Reader.bytes_exact fun _ _ =>
    .nil fun ⟨_, _, _, _, _, _, _⟩ => by simp [and_assoc]
  host_write m w := by simp [Wire.write]
  ipad_read := ExactOn.exact <| .field WireReader.u32_exact fun _ _ =>
    .field WireReader.u64_exact fun _ _ => .field WireReader.u64_exact fun _ _ =>
    .field WireReader.u64_exact fun _ _ => .field WireReader.u64_exact fun _ _ =>
    .field WireReader.u8_exact fun _ _ => .field WireReader.bytes_exact fun _ _ =>
    .nil fun ⟨_, _, _, _, _, _, _⟩ => by simp [and_assoc]
  ipad_write m w := by simp [WireMessage.write]
  kind_eq := rfl

instance : Record VideoFragment where
  format := field u32 (·.generation) <| field u64 (·.frameId) <|
    field u64 (·.captureTimestamp) <| field u64 (·.encodeTimestamp) <|
    field u64 (·.sendTimestamp) <| field u8 (·.keyframe) <| field u16 (·.index) <|
    field u16 (·.count) <| field u32 (·.totalBytes) <| field bytes (·.data) <| nil
  host_read := ExactOn.exact <| .field Reader.u32_exact fun _ _ =>
    .field Reader.u64_exact fun _ _ => .field Reader.u64_exact fun _ _ =>
    .field Reader.u64_exact fun _ _ => .field Reader.u64_exact fun _ _ =>
    .field Reader.u8_exact fun _ _ => .field Reader.u16_exact fun _ _ =>
    .field Reader.u16_exact fun _ _ => .field Reader.u32_exact fun _ _ =>
    .field Reader.bytes_exact fun _ _ =>
    .nil fun ⟨_, _, _, _, _, _, _, _, _, _⟩ => by simp [and_assoc]
  host_write m w := by simp [Wire.write]
  ipad_read := ExactOn.exact <| .field WireReader.u32_exact fun _ _ =>
    .field WireReader.u64_exact fun _ _ => .field WireReader.u64_exact fun _ _ =>
    .field WireReader.u64_exact fun _ _ => .field WireReader.u64_exact fun _ _ =>
    .field WireReader.u8_exact fun _ _ => .field WireReader.u16_exact fun _ _ =>
    .field WireReader.u16_exact fun _ _ => .field WireReader.u32_exact fun _ _ =>
    .field WireReader.bytes_exact fun _ _ =>
    .nil fun ⟨_, _, _, _, _, _, _, _, _, _⟩ => by simp [and_assoc]
  ipad_write m w := by simp [WireMessage.write]
  kind_eq := rfl

instance : Record KeyframeRequest where
  format := field u8 (·.reason) <| nil
  host_read := ExactOn.exact <| .field Reader.u8_exact fun _ _ => .nil fun ⟨_⟩ => by simp
  host_write m w := by simp [Wire.write]
  ipad_read := ExactOn.exact <| .field WireReader.u8_exact fun _ _ => .nil fun ⟨_⟩ => by simp
  ipad_write m w := by simp [WireMessage.write]
  kind_eq := rfl

instance : Record InputEvent where
  format := field u8 (·.kind) <| field u8 (·.phase) <| field u16 (·.contactId) <|
    field f32 (·.x) <| field f32 (·.y) <| field f32 (·.dx) <| field f32 (·.dy) <|
    field u32 (·.buttons) <| field u16 (·.physicalKey) <| field u32 (·.logicalKey) <|
    field u16 (·.modifiers) <| field u8 (·.isRepeat) <| nil
  host_read := ExactOn.exact <| .field Reader.u8_exact fun _ _ =>
    .field Reader.u8_exact fun _ _ => .field Reader.u16_exact fun _ _ =>
    .field Reader.f32_exact fun _ _ => .field Reader.f32_exact fun _ _ =>
    .field Reader.f32_exact fun _ _ => .field Reader.f32_exact fun _ _ =>
    .field Reader.u32_exact fun _ _ => .field Reader.u16_exact fun _ _ =>
    .field Reader.u32_exact fun _ _ => .field Reader.u16_exact fun _ _ =>
    .field Reader.u8_exact fun _ _ =>
    .nil fun ⟨_, _, _, _, _, _, _, _, _, _, _, _⟩ => by simp [and_assoc]
  host_write m w := by simp [Wire.write]
  ipad_read := ExactOn.exact <| .field WireReader.u8_exact fun _ _ =>
    .field WireReader.u8_exact fun _ _ => .field WireReader.u16_exact fun _ _ =>
    .field WireReader.f32_exact fun _ _ => .field WireReader.f32_exact fun _ _ =>
    .field WireReader.f32_exact fun _ _ => .field WireReader.f32_exact fun _ _ =>
    .field WireReader.u32_exact fun _ _ => .field WireReader.u16_exact fun _ _ =>
    .field WireReader.u32_exact fun _ _ => .field WireReader.u16_exact fun _ _ =>
    .field WireReader.u8_exact fun _ _ =>
    .nil fun ⟨_, _, _, _, _, _, _, _, _, _, _, _⟩ => by simp [and_assoc]
  ipad_write m w := by simp [WireMessage.write]
  kind_eq := rfl

instance : Record Ping where
  format := field u64 (·.clientTimestamp) <| nil
  host_read := ExactOn.exact <| .field Reader.u64_exact fun _ _ => .nil fun ⟨_⟩ => by simp
  host_write m w := by simp [Wire.write]
  ipad_read := ExactOn.exact <| .field WireReader.u64_exact fun _ _ => .nil fun ⟨_⟩ => by simp
  ipad_write m w := by simp [WireMessage.write]
  kind_eq := rfl

instance : Record Pong where
  format := field u64 (·.clientTimestamp) <| field u64 (·.hostReceive) <|
    field u64 (·.hostSend) <| nil
  host_read := ExactOn.exact <| .field Reader.u64_exact fun _ _ =>
    .field Reader.u64_exact fun _ _ => .field Reader.u64_exact fun _ _ =>
    .nil fun ⟨_, _, _⟩ => by simp [and_assoc]
  host_write m w := by simp [Wire.write]
  ipad_read := ExactOn.exact <| .field WireReader.u64_exact fun _ _ =>
    .field WireReader.u64_exact fun _ _ => .field WireReader.u64_exact fun _ _ =>
    .nil fun ⟨_, _, _⟩ => by simp [and_assoc]
  ipad_write m w := by simp [WireMessage.write]
  kind_eq := rfl

instance : Record Statistics where
  format := field f32 (·.fps) <| field u32 (·.bitrate) <| field u32 (·.rttUs) <|
    field u32 (·.lossPpm) <| field u16 (·.decodeQueue) <| field u32 (·.droppedFrames) <|
    field u64 (·.receivedBytes) <| field u32 (·.decodeUs) <| field u32 (·.renderUs) <|
    field u32 (·.estimatedLatencyUs) <| nil
  host_read := ExactOn.exact <| .field Reader.f32_exact fun _ _ =>
    .field Reader.u32_exact fun _ _ => .field Reader.u32_exact fun _ _ =>
    .field Reader.u32_exact fun _ _ => .field Reader.u16_exact fun _ _ =>
    .field Reader.u32_exact fun _ _ => .field Reader.u64_exact fun _ _ =>
    .field Reader.u32_exact fun _ _ => .field Reader.u32_exact fun _ _ =>
    .field Reader.u32_exact fun _ _ =>
    .nil fun ⟨_, _, _, _, _, _, _, _, _, _⟩ => by simp [and_assoc]
  host_write m w := by simp [Wire.write]
  ipad_read := ExactOn.exact <| .field WireReader.f32_exact fun _ _ =>
    .field WireReader.u32_exact fun _ _ => .field WireReader.u32_exact fun _ _ =>
    .field WireReader.u32_exact fun _ _ => .field WireReader.u16_exact fun _ _ =>
    .field WireReader.u32_exact fun _ _ => .field WireReader.u64_exact fun _ _ =>
    .field WireReader.u32_exact fun _ _ => .field WireReader.u32_exact fun _ _ =>
    .field WireReader.u32_exact fun _ _ =>
    .nil fun ⟨_, _, _, _, _, _, _, _, _, _⟩ => by simp [and_assoc]
  ipad_write m w := by simp [WireMessage.write]
  kind_eq := rfl

instance : Record ProtocolError where
  format := field u16 (·.code) <| field string (·.message) <| nil
  host_read := ExactOn.exact <| .field Reader.u16_exact fun _ _ =>
    .field Reader.string_exact fun _ _ => .nil fun ⟨_, _⟩ => by simp
  host_write m w := by simp [Wire.write]
  ipad_read := ExactOn.exact <| .field WireReader.u16_exact fun _ _ =>
    .field WireReader.string_exact fun _ _ => .nil fun ⟨_, _⟩ => by simp
  ipad_write m w := by simp [WireMessage.write]
  kind_eq := rfl

end Schema
end SidecarDOS
