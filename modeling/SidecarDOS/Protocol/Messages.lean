/-
# The messages of the protocol

The records of `protocol/schema.json`, which `generated.rs` and
`Generated.swift` declare with the same fields, and `MessageType`, their
enumeration.
-/

import SidecarDOS.Protocol.Fields

namespace SidecarDOS

structure Handshake where
  (minMajor maxMajor minor : UInt8)
  clientId : Bytes
  name : String
  trusted : UInt8
  deriving DecidableEq

structure ProtocolVersion where
  (major minor : UInt8)
  deriving DecidableEq

structure HostInfo where
  hostId : Bytes
  name : String
  deriving DecidableEq

structure ClientInfo where
  clientId : Bytes
  name : String
  deriving DecidableEq

structure Pairing where
  phase : UInt8
  (nonce proof secret : Bytes)
  deriving DecidableEq

structure SessionStart where
  (width height fps : UInt32)
  deriving DecidableEq

structure SessionStop where
  reason : UInt8
  deriving DecidableEq

structure DisplayCapabilities where
  (physicalWidth physicalHeight logicalWidth logicalHeight maxFps : UInt32)
  (nativeScale safeTop safeRight safeBottom safeLeft : F32)
  orientation : UInt8
  deriving DecidableEq

structure DisplayMode where
  (width height fps scalePercent : UInt32)
  deriving DecidableEq

structure DisplayModeChange where
  (width height fps : UInt32)
  deriving DecidableEq

structure EncoderCapabilities where
  codecs : UInt32
  hardware : UInt8
  (maxWidth maxHeight : UInt32)
  deriving DecidableEq

structure EncoderConfig where
  codec : UInt8
  (bitrate fps : UInt32)
  preset : UInt8
  deriving DecidableEq

structure VideoConfig where
  generation : UInt32
  codec : UInt8
  (width height fps : UInt32)
  (bitDepth colorSpace : UInt8)
  parameterSets : Bytes
  deriving DecidableEq

structure VideoFrame where
  generation : UInt32
  (frameId captureTimestamp encodeTimestamp sendTimestamp : UInt64)
  keyframe : UInt8
  data : Bytes
  deriving DecidableEq

structure VideoFragment where
  generation : UInt32
  (frameId captureTimestamp encodeTimestamp sendTimestamp : UInt64)
  keyframe : UInt8
  (index count : UInt16)
  totalBytes : UInt32
  data : Bytes
  deriving DecidableEq

structure KeyframeRequest where
  reason : UInt8
  deriving DecidableEq

structure InputEvent where
  (kind phase : UInt8)
  contactId : UInt16
  (x y dx dy : F32)
  buttons : UInt32
  physicalKey : UInt16
  logicalKey : UInt32
  modifiers : UInt16
  isRepeat : UInt8
  deriving DecidableEq

structure Ping where
  clientTimestamp : UInt64
  deriving DecidableEq

structure Pong where
  (clientTimestamp hostReceive hostSend : UInt64)
  deriving DecidableEq

structure Statistics where
  fps : F32
  (bitrate rttUs lossPpm : UInt32)
  decodeQueue : UInt16
  droppedFrames : UInt32
  receivedBytes : UInt64
  (decodeUs renderUs estimatedLatencyUs : UInt32)
  deriving DecidableEq

structure ProtocolError where
  code : UInt16
  message : String
  deriving DecidableEq

/-- The message types of the schema. -/
inductive MessageType where
  | handshake | protocolVersion | hostInfo | clientInfo | pairing | sessionStart | sessionStop
  | displayCapabilities | displayMode | displayModeChange | encoderCapabilities | encoderConfig
  | videoConfig | videoFrame | videoFragment | keyframeRequest | inputEvent | ping | pong
  | statistics | protocolError
  deriving DecidableEq

/-- The values of a message type. -/
abbrev MessageType.Value : MessageType → Type
  | .handshake => Handshake
  | .protocolVersion => ProtocolVersion
  | .hostInfo => HostInfo
  | .clientInfo => ClientInfo
  | .pairing => Pairing
  | .sessionStart => SessionStart
  | .sessionStop => SessionStop
  | .displayCapabilities => DisplayCapabilities
  | .displayMode => DisplayMode
  | .displayModeChange => DisplayModeChange
  | .encoderCapabilities => EncoderCapabilities
  | .encoderConfig => EncoderConfig
  | .videoConfig => VideoConfig
  | .videoFrame => VideoFrame
  | .videoFragment => VideoFragment
  | .keyframeRequest => KeyframeRequest
  | .inputEvent => InputEvent
  | .ping => Ping
  | .pong => Pong
  | .statistics => Statistics
  | .protocolError => ProtocolError

end SidecarDOS
