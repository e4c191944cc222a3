/-
# The iPad's generated codec

`extension …: WireMessage` of `ipad/SidecarDOS/Protocol/Generated.swift`: the
fields each message writes and reads, in order.
-/

import SidecarDOS.Protocol.Messages

namespace SidecarDOS
namespace Ipad

open WireReader

/-- `protocol WireMessage`; `read` is its `init(from:)`. -/
class WireMessage (T : Type) where
  kind : UInt16
  write : T → WireWriter → WireWriter
  read : Read T

instance : WireMessage Handshake where
  kind := 1
  write m w :=
    w |>.u8 m.minMajor |>.u8 m.maxMajor |>.u8 m.minor |>.bytes m.clientId |>.string m.name
    |>.u8 m.trusted
  read := do
    let minMajor ← u8; let maxMajor ← u8; let minor ← u8; let clientId ← bytes
    let name ← string; let trusted ← u8
    return ⟨minMajor, maxMajor, minor, clientId, name, trusted⟩

instance : WireMessage ProtocolVersion where
  kind := 2
  write m w :=
    w |>.u8 m.major |>.u8 m.minor
  read := do
    let major ← u8; let minor ← u8
    return ⟨major, minor⟩

instance : WireMessage HostInfo where
  kind := 3
  write m w :=
    w |>.bytes m.hostId |>.string m.name
  read := do
    let hostId ← bytes; let name ← string
    return ⟨hostId, name⟩

instance : WireMessage ClientInfo where
  kind := 4
  write m w :=
    w |>.bytes m.clientId |>.string m.name
  read := do
    let clientId ← bytes; let name ← string
    return ⟨clientId, name⟩

instance : WireMessage Pairing where
  kind := 5
  write m w :=
    w |>.u8 m.phase |>.bytes m.nonce |>.bytes m.proof |>.bytes m.secret
  read := do
    let phase ← u8; let nonce ← bytes; let proof ← bytes; let secret ← bytes
    return ⟨phase, nonce, proof, secret⟩

instance : WireMessage SessionStart where
  kind := 6
  write m w :=
    w |>.u32 m.width |>.u32 m.height |>.u32 m.fps
  read := do
    let width ← u32; let height ← u32; let fps ← u32
    return ⟨width, height, fps⟩

instance : WireMessage SessionStop where
  kind := 7
  write m w :=
    w |>.u8 m.reason
  read := do
    let reason ← u8
    return ⟨reason⟩

instance : WireMessage DisplayCapabilities where
  kind := 8
  write m w :=
    w |>.u32 m.physicalWidth |>.u32 m.physicalHeight |>.u32 m.logicalWidth |>.u32 m.logicalHeight
    |>.u32 m.maxFps |>.f32 m.nativeScale |>.f32 m.safeTop |>.f32 m.safeRight |>.f32 m.safeBottom
    |>.f32 m.safeLeft |>.u8 m.orientation
  read := do
    let physicalWidth ← u32; let physicalHeight ← u32; let logicalWidth ← u32
    let logicalHeight ← u32; let maxFps ← u32; let nativeScale ← f32; let safeTop ← f32
    let safeRight ← f32; let safeBottom ← f32; let safeLeft ← f32; let orientation ← u8
    return ⟨physicalWidth, physicalHeight, logicalWidth, logicalHeight, maxFps, nativeScale,
      safeTop, safeRight, safeBottom, safeLeft, orientation⟩

instance : WireMessage DisplayMode where
  kind := 9
  write m w :=
    w |>.u32 m.width |>.u32 m.height |>.u32 m.fps |>.u32 m.scalePercent
  read := do
    let width ← u32; let height ← u32; let fps ← u32; let scalePercent ← u32
    return ⟨width, height, fps, scalePercent⟩

instance : WireMessage DisplayModeChange where
  kind := 10
  write m w :=
    w |>.u32 m.width |>.u32 m.height |>.u32 m.fps
  read := do
    let width ← u32; let height ← u32; let fps ← u32
    return ⟨width, height, fps⟩

instance : WireMessage EncoderCapabilities where
  kind := 11
  write m w :=
    w |>.u32 m.codecs |>.u8 m.hardware |>.u32 m.maxWidth |>.u32 m.maxHeight
  read := do
    let codecs ← u32; let hardware ← u8; let maxWidth ← u32; let maxHeight ← u32
    return ⟨codecs, hardware, maxWidth, maxHeight⟩

instance : WireMessage EncoderConfig where
  kind := 12
  write m w :=
    w |>.u8 m.codec |>.u32 m.bitrate |>.u32 m.fps |>.u8 m.preset
  read := do
    let codec ← u8; let bitrate ← u32; let fps ← u32; let preset ← u8
    return ⟨codec, bitrate, fps, preset⟩

instance : WireMessage VideoConfig where
  kind := 13
  write m w :=
    w |>.u32 m.generation |>.u8 m.codec |>.u32 m.width |>.u32 m.height |>.u32 m.fps
    |>.u8 m.bitDepth |>.u8 m.colorSpace |>.bytes m.parameterSets
  read := do
    let generation ← u32; let codec ← u8; let width ← u32; let height ← u32; let fps ← u32
    let bitDepth ← u8; let colorSpace ← u8; let parameterSets ← bytes
    return ⟨generation, codec, width, height, fps, bitDepth, colorSpace, parameterSets⟩

instance : WireMessage VideoFrame where
  kind := 14
  write m w :=
    w |>.u32 m.generation |>.u64 m.frameId |>.u64 m.captureTimestamp |>.u64 m.encodeTimestamp
    |>.u64 m.sendTimestamp |>.u8 m.keyframe |>.bytes m.data
  read := do
    let generation ← u32; let frameId ← u64; let captureTimestamp ← u64
    let encodeTimestamp ← u64; let sendTimestamp ← u64; let keyframe ← u8; let data ← bytes
    return ⟨generation, frameId, captureTimestamp, encodeTimestamp, sendTimestamp, keyframe, data⟩

instance : WireMessage VideoFragment where
  kind := 15
  write m w :=
    w |>.u32 m.generation |>.u64 m.frameId |>.u64 m.captureTimestamp |>.u64 m.encodeTimestamp
    |>.u64 m.sendTimestamp |>.u8 m.keyframe |>.u16 m.index |>.u16 m.count |>.u32 m.totalBytes
    |>.bytes m.data
  read := do
    let generation ← u32; let frameId ← u64; let captureTimestamp ← u64
    let encodeTimestamp ← u64; let sendTimestamp ← u64; let keyframe ← u8; let index ← u16
    let count ← u16; let totalBytes ← u32; let data ← bytes
    return ⟨generation, frameId, captureTimestamp, encodeTimestamp, sendTimestamp, keyframe,
      index, count, totalBytes, data⟩

instance : WireMessage KeyframeRequest where
  kind := 16
  write m w :=
    w |>.u8 m.reason
  read := do
    let reason ← u8
    return ⟨reason⟩

instance : WireMessage InputEvent where
  kind := 17
  write m w :=
    w |>.u8 m.kind |>.u8 m.phase |>.u16 m.contactId |>.f32 m.x |>.f32 m.y |>.f32 m.dx |>.f32 m.dy
    |>.u32 m.buttons |>.u16 m.physicalKey |>.u32 m.logicalKey |>.u16 m.modifiers |>.u8 m.isRepeat
  read := do
    let kind ← u8; let phase ← u8; let contactId ← u16; let x ← f32; let y ← f32; let dx ← f32
    let dy ← f32; let buttons ← u32; let physicalKey ← u16; let logicalKey ← u32
    let modifiers ← u16; let isRepeat ← u8
    return ⟨kind, phase, contactId, x, y, dx, dy, buttons, physicalKey, logicalKey, modifiers,
      isRepeat⟩

instance : WireMessage Ping where
  kind := 18
  write m w :=
    w |>.u64 m.clientTimestamp
  read := do
    let clientTimestamp ← u64
    return ⟨clientTimestamp⟩

instance : WireMessage Pong where
  kind := 19
  write m w :=
    w |>.u64 m.clientTimestamp |>.u64 m.hostReceive |>.u64 m.hostSend
  read := do
    let clientTimestamp ← u64; let hostReceive ← u64; let hostSend ← u64
    return ⟨clientTimestamp, hostReceive, hostSend⟩

instance : WireMessage Statistics where
  kind := 20
  write m w :=
    w |>.f32 m.fps |>.u32 m.bitrate |>.u32 m.rttUs |>.u32 m.lossPpm |>.u16 m.decodeQueue
    |>.u32 m.droppedFrames |>.u64 m.receivedBytes |>.u32 m.decodeUs |>.u32 m.renderUs
    |>.u32 m.estimatedLatencyUs
  read := do
    let fps ← f32; let bitrate ← u32; let rttUs ← u32; let lossPpm ← u32; let decodeQueue ← u16
    let droppedFrames ← u32; let receivedBytes ← u64; let decodeUs ← u32; let renderUs ← u32
    let estimatedLatencyUs ← u32
    return ⟨fps, bitrate, rttUs, lossPpm, decodeQueue, droppedFrames, receivedBytes, decodeUs,
      renderUs, estimatedLatencyUs⟩

instance : WireMessage ProtocolError where
  kind := 21
  write m w :=
    w |>.u16 m.code |>.string m.message
  read := do
    let code ← u16; let message ← string
    return ⟨code, message⟩

end Ipad
end SidecarDOS
