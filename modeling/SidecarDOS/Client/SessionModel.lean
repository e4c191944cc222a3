/-
# The iPad's session

`SessionModel` of `ipad/SidecarDOS/App/SessionModel.swift` together with the
state of `QUICTransport` that it reads.  Everything runs on the main actor, so
the session is a state machine: an `Event` is one callback, and a `Moment` is
what the platform answers while it runs (the clock, the keychain, VideoToolbox).
A method that throws returns the session it leaves (`Result`), because Swift
keeps what was assigned before a throw.  `log` lists what the session did that
others can see or that lasts.

Texts shown to the user, the statistics' floating-point figures and the renderer
are left out; nothing here reads them.  Callbacks of an earlier connection are
no events: each compares its epoch with the transport's and returns.
-/

import SidecarDOS.Client.H264Decoder
import SidecarDOS.Pairing.Proof
import SidecarDOS.Video.Completeness

namespace SidecarDOS
namespace Ipad

inductive State where
  | idle | connecting | pairing | streaming | reconnecting | failed
  deriving DecidableEq

/-- What is thrown to the transport or to `failed`. -/
inductive Failure where
  | wire (e : WireError)
  | trust (e : TrustError)
  | peer (e : ProtocolError)
  | orientation
  | network
  deriving DecidableEq

/-- `error is TrustError`. -/
def Failure.isTrustError : Failure → Bool
  | .trust _ => true
  | _ => false

structure DiscoveredHost where
  id : String
  name : String
  deriving DecidableEq

/-- What the platform answers during one callback. -/
structure Moment where
  now : ℕ := 0
  /-- The keychain can be read and written. -/
  keychain : Bool := true
  /-- `NWConnection(from: group)` for the input stream succeeds. -/
  inputStream : Bool := true
  /-- VideoToolbox, for each frame decoded in this callback. -/
  videoToolbox : ℕ → VideoToolbox := fun _ => {}
  deviceName : String := "iPad"
  capabilities : DisplayCapabilities := ⟨0, 0, 0, 0, 0, ⟨0⟩, ⟨0⟩, ⟨0⟩, ⟨0⟩, ⟨0⟩, 0⟩
  statistics : Statistics := ⟨⟨0⟩, 0, 0, 0, 0, 0, 0, 0, 0, 0⟩

structure Transport where
  /-- The peer's certificate, once TLS has verified the connection. -/
  certificate : Bytes := []
  session : Bytes := List.replicate 16 0
  group : Bool := false
  control : Bool := false
  /-- The control stream is being read. -/
  reading : Bool := false
  input : Bool := false
  controlSequence : ℕ := 0
  inputSequence : ℕ := 0
  sends : ℕ := 0
  epoch : ℕ := 0
  /-- The host `connect` was given to pin. -/
  pinned : Option TrustedHost := none
  /-- `closeGracefully` was called in this epoch. -/
  closing : Bool := false

namespace Transport

def close (t : Transport) : Transport := { epoch := t.epoch + 1 }

def connect (t : Transport) (trusted : Option TrustedHost) : Transport :=
  { t.close with group := true, pinned := trusted }

end Transport

/-- What the session did: a packet sent on the control or the input stream, a
proof computed with a key, a call of `TrustStore.save`, a host forgotten. -/
inductive Effect where
  | sent (isInput : Bool) (packet : Packet)
  | proved (key certificate client nonce : Bytes)
  | save (key : String) (host : TrustedHost)
  | forgot (key : String)
  deriving DecidableEq

structure SessionModel where
  state : State := .idle
  /-- The hosts in the keychain. -/
  keychain : String → Option TrustedHost := fun _ => none
  renderer : Bool := true
  host : Option DiscoveredHost := none
  trusted : Option TrustedHost := none
  clientID : Bytes
  hostID : Bytes := []
  nonce : Bytes := []
  pairKey : Bytes := []
  generation : Option UInt32 := none
  lastSequence : ℕ := 0
  pairingNew : Bool := false
  configured : Bool := false
  wantsConnection : Bool := false
  foreground : Bool := true
  reconnectAttempt : ℕ := 0
  reconnectTask : Bool := false
  timeoutTask : Bool := false
  timer : Bool := false
  lastStatistics : ℕ := 0
  lastKeyframe : ℕ := 0
  videoSize : ℕ × ℕ := (1920, 1080)
  assembler : FrameAssembler := {}
  decoder : H264Decoder := {}
  transport : Transport := {}
  idleTimerDisabled : Bool := false
  log : List Effect := []

/-- The session a method leaves and what it threw, if it did. -/
abbrev Result : Type := SessionModel × Except Failure Unit

/-- What follows a call that may throw. -/
def Result.andThen (r : Result) (k : SessionModel → Result) : Result :=
  match r with
  | (m, .ok ()) => k m
  | (m, .error e) => (m, .error e)

/-- `do { … } catch { … }`. -/
def Result.catching (r : Result) (handle : SessionModel → Failure → SessionModel) : SessionModel :=
  match r with
  | (m, .ok ()) => m
  | (m, .error e) => handle m e

namespace SessionModel

/-- `failed(_:)`. -/
def failed (m : SessionModel) (e : Failure) : SessionModel :=
  if ¬ m.wantsConnection then { m with transport := m.transport.close, state := .idle }
  else
    let m := { m with
      transport := m.transport.close
      decoder := m.decoder.reset
      timer := false
      timeoutTask := false
      idleTimerDisabled := false }
    if ¬ (m.foreground ∧ m.trusted ≠ none ∧ ¬ e.isTrustError) then
      { m with wantsConnection := false, state := .failed }
    else { m with
      state := .reconnecting
      reconnectAttempt := m.reconnectAttempt + 1
      reconnectTask := true }

/-- The transport's `fail(_:)`: it closes and reports. -/
def fail (m : SessionModel) (e : Failure) : SessionModel :=
  { m with transport := m.transport.close }.failed e

/-- The transport's `send(_:input:)`. -/
def send {T : Type} [WireMessage T] (m : SessionModel) (message : T) (isInput : Bool) : Result :=
  if ¬ (if isInput then m.transport.input else m.transport.control) then
    (m, .error (.wire .unexpected))
  else if ¬ m.transport.sends < 128 then
    (m.fail (.wire .oversized), .error (.wire .oversized))
  else
    let t := if isInput then { m.transport with inputSequence := m.transport.inputSequence + 1 }
      else { m.transport with controlSequence := m.transport.controlSequence + 1 }
    let packet := Packet.new message
      (UInt64.ofNat (if isInput then t.inputSequence else t.controlSequence)) t.session
    if ¬ packet.encode.length ≤ MAX_CONTROL then
      ({ m with transport := t }, .error (.wire .oversized))
    else ({ m with
      transport := { t with sends := t.sends + 1 }
      log := m.log ++ [Effect.sent isInput packet] }, .ok ())

/-- `requestKeyframe(reason:)`. -/
def requestKeyframe (m : SessionModel) (now : ℕ) (reason : UInt8) : SessionModel :=
  if m.state ≠ .streaming then m
  else if ¬ now - m.lastKeyframe ≥ 200000 then m
  else ({ m with lastKeyframe := now }.send (⟨reason⟩ : KeyframeRequest) false).catching failed

/-- `decoder.decode(frame)`, with the call of `onResetNeeded` it may end in. -/
def decode (env : Moment) (m : SessionModel) (frame : ReceivedFrame × ℕ) : SessionModel :=
  let (decoder, reset) := m.decoder.decode (env.videoToolbox frame.2) frame.1
  let m := { m with decoder := decoder }
  if reset then m.requestKeyframe env.now 3 else m

def consumeFrames (m : SessionModel) (env : Moment) : SessionModel :=
  let out := (m.assembler.expire env.now).drain env.now
  let m := out.2.zipIdx.foldl (decode env) { m with assembler := out.1 }
  if m.assembler.requiresKeyframe then m.requestKeyframe env.now 2 else m

/-- `open()`. -/
def openConnection (m : SessionModel) (env : Moment) : SessionModel :=
  if ¬ (m.wantsConnection ∧ m.foreground) then m
  else match m.host with
    | none => m
    | some host =>
      if ¬ env.keychain then m.failed (.trust .keychain)
      else
        let trusted := m.keychain host.id
        { m with
          trusted := trusted
          configured := false
          generation := none
          lastSequence := 0
          assembler := {}
          decoder := m.decoder.reset
          lastStatistics := env.now
          state := if m.reconnectAttempt = 0 then .connecting else .reconnecting
          transport := m.transport.connect trusted
          timeoutTask := true }

/-- `ready()`. -/
def ready (m : SessionModel) (env : Moment) : SessionModel :=
  (m.send (⟨1, 1, 0, m.clientID, env.deviceName, if m.trusted = none then 0 else 1⟩ : Handshake)
    false).catching failed

/-- `sendProof()`. -/
def sendProof (crypto : Crypto) (m : SessionModel) : Result :=
  if ¬ (m.nonce.length = 32 ∧ m.transport.certificate ≠ []) then (m, .error (.wire .unexpected))
  else
    let proof := TrustStore.proof crypto m.pairKey m.transport.certificate m.clientID m.nonce 1
    let m := { m with
      log := m.log ++ [Effect.proved m.pairKey m.transport.certificate m.clientID m.nonce] }
    m.send (⟨2, m.nonce, proof, []⟩ : Pairing) false

/-- `pair(code:)`, with what its `do` block threw. -/
def pairing (crypto : Crypto) (m : SessionModel) (code : String) : Result :=
  match TrustStore.code code with
  | .error e => (m, .error (.trust e))
  | .ok key => { m with pairKey := key }.sendProof crypto

/-! ### Control packets -/

/-- Phase 0 of a `Pairing` message. -/
def pairingPhase0 (m : SessionModel) (pair : Pairing) : Result :=
  ({ m with pairingNew := true, nonce := pair.nonce, state := .pairing }, .ok ())

/-- Phase 1. -/
def pairingPhase1 (crypto : Crypto) (m : SessionModel) (pair : Pairing) : Result :=
  match m.trusted with
  | none => (m, .error (.trust .invalidProof))
  | some trusted =>
    if ¬ trusted.hostID = m.hostID then (m, .error (.trust .invalidProof))
    else { m with
      pairingNew := false, nonce := pair.nonce, pairKey := trusted.secret }.sendProof crypto

/-- The end of phase 3, behind the host's verified proof. -/
def pairingDone (m : SessionModel) (env : Moment) : Result :=
  { m with pairKey := [], configured := true, state := .connecting }.send env.capabilities false

/-- Phase 3. -/
def pairingPhase3 (crypto : Crypto) (m : SessionModel) (env : Moment) (pair : Pairing) : Result :=
  match m.host with
  | none => (m, .error (.trust .invalidProof))
  | some host =>
    if ¬ (pair.nonce = m.nonce ∧
        TrustStore.verify crypto pair.proof m.pairKey m.transport.certificate m.clientID m.nonce 2) then
      (m, .error (.trust .invalidProof))
    else if m.pairingNew then
      if ¬ pair.secret.length = 32 then (m, .error (.trust .invalidProof))
      else
        let saved : TrustedHost :=
          ⟨crypto.sha256 m.transport.certificate, pair.secret, m.hostID⟩
        let m := { m with log := m.log ++ [Effect.save host.id saved] }
        if ¬ env.keychain then (m, .error (.trust .keychain))
        else { m with
          keychain := Function.update m.keychain host.id (some saved)
          trusted := some saved }.pairingDone env
    else m.pairingDone env

def onPairing (crypto : Crypto) (m : SessionModel) (env : Moment) (pair : Pairing) : Result :=
  if ¬ pair.nonce.length = 32 then (m, .error (.wire .malformed))
  else if pair.phase = 0 then m.pairingPhase0 pair
  else if pair.phase = 1 then m.pairingPhase1 crypto pair
  else if pair.phase = 3 then m.pairingPhase3 crypto env pair
  else (m, .error (.wire .unexpected))

def onProtocolVersion (m : SessionModel) (version : ProtocolVersion) : Result :=
  if version.major = 1 then (m, .ok ()) else (m, .error (.wire .version))

def onHostInfo (m : SessionModel) (info : HostInfo) : Result :=
  if info.hostId.length = 16 then ({ m with hostID := info.hostId }, .ok ())
  else (m, .error (.wire .malformed))

def onSessionStart (m : SessionModel) (start : SessionStart) : Result :=
  if 320 ≤ start.width ∧ start.width ≤ 4094 ∧ 320 ≤ start.height ∧ start.height ≤ 4094 then
    ({ m with videoSize := (start.width.toNat, start.height.toNat) }, .ok ())
  else (m, .error (.wire .malformed))

def onEncoderCapabilities (m : SessionModel) (caps : EncoderCapabilities) : Result :=
  if caps.codecs &&& 1 = 1 ∧ caps.hardware = 1 then (m, .ok ()) else (m, .error (.wire .unexpected))

def onVideoConfig (m : SessionModel) (env : Moment) (config : VideoConfig) : Result :=
  if ¬ (m.configured ∧ config.codec = 1 ∧ config.bitDepth = 8 ∧ config.colorSpace = 1 ∧
      320 ≤ config.width ∧ config.width ≤ 4094 ∧ 320 ≤ config.height ∧ config.height ≤ 4094 ∧
      config.width % 2 = 0 ∧ config.height % 2 = 0 ∧ 30 ≤ config.fps ∧ config.fps ≤ 60) then
    (m, .error (.wire .malformed))
  else
    let m := { m with
      generation := some config.generation
      videoSize := (config.width.toNat, config.height.toNat)
      assembler := {}
      decoder := m.decoder.reset
      state := .streaming
      reconnectAttempt := 0
      timeoutTask := false
      idleTimerDisabled := true
      timer := true }
    (m.requestKeyframe env.now 0, .ok ())

def onPong (m : SessionModel) (env : Moment) (pong : Pong) : Result :=
  if env.now ≥ pong.clientTimestamp.toNat ∧ pong.hostSend ≥ pong.hostReceive then (m, .ok ())
  else (m, .error (.wire .malformed))

/-- `try p.message(T.self)` and what follows it. -/
def reading {T : Type} [WireMessage T] (m : SessionModel) (p : Packet) (k : T → Result) : Result :=
  match p.message T with
  | .ok v => k v
  | .error e => (m, .error (.wire e))

/-- The `switch` of `packet(_:)`. -/
def dispatch (crypto : Crypto) (m : SessionModel) (env : Moment) (p : Packet) : Result :=
  if p.kind = WireMessage.kind ProtocolVersion then m.reading p m.onProtocolVersion
  else if p.kind = WireMessage.kind HostInfo then m.reading p m.onHostInfo
  else if p.kind = WireMessage.kind Pairing then m.reading p (m.onPairing crypto env)
  else if p.kind = WireMessage.kind SessionStart then m.reading p m.onSessionStart
  else if p.kind = WireMessage.kind EncoderCapabilities then m.reading p m.onEncoderCapabilities
  else if p.kind = WireMessage.kind VideoConfig then m.reading p (m.onVideoConfig env)
  else if p.kind = WireMessage.kind Pong then m.reading p (m.onPong env)
  else if p.kind = WireMessage.kind ProtocolError then m.reading p fun e => (m, .error (.peer e))
  else (m, .error (.wire .unexpected))

/-- The transport's `activateInput()`. -/
def activateInput (m : SessionModel) (env : Moment) : SessionModel :=
  if ¬ (¬ m.transport.input ∧ m.transport.group) then m
  else if ¬ env.inputStream then m.fail (.wire .unexpected)
  else { m with transport := { m.transport with input := true } }

/-- `packet(_:)`. -/
def packet (crypto : Crypto) (m : SessionModel) (env : Moment) (p : Packet) : Result :=
  if ¬ p.sequence.toNat > m.lastSequence then (m, .error (.wire .replay))
  else
    let m := { m with lastSequence := p.sequence.toNat }
    if p.kind = WireMessage.kind SessionStart then
      if ¬ (m.configured ∧ p.session.length = 16 ∧ p.session ≠ List.replicate 16 0) then
        (m, .error (.wire .unexpected))
      else
        let m := { m with transport := { m.transport with session := p.session } }
        (m.activateInput env).dispatch crypto env p
    else if p.session ≠ m.transport.session then (m, .error (.wire .replay))
    else m.dispatch crypto env p

/-- The packets of one received chunk, one after another until one throws. -/
def packets (crypto : Crypto) (env : Moment) : SessionModel → List Packet → Result
  | m, [] => (m, .ok ())
  | m, p :: ps => (m.packet crypto env p).andThen fun m => packets crypto env m ps

/-! ### Other callbacks -/

/-- `datagram(_:)`, called with at most 1,200 bytes. -/
def datagram (m : SessionModel) (env : Moment) (data : Bytes) : Result :=
  if m.state ≠ .streaming then (m, .ok ())
  else match Packet.decode data MAX_DATAGRAM with
    | .error e => (m, .error (.wire e))
    | .ok p =>
      if p.session ≠ m.transport.session then (m, .ok ())
      else match p.message VideoFragment with
        | .error e => (m, .error (.wire e))
        | .ok fragment =>
          if some fragment.generation ≠ m.generation then (m, .ok ())
          else match m.assembler.ingest fragment env.now with
            | (assembler, .error e) => ({ m with assembler := assembler }, .error (.wire e))
            | (assembler, .ok ()) => ({ m with assembler := assembler }.consumeFrames env, .ok ())

/-- `tick()`. -/
def tick (m : SessionModel) (env : Moment) : SessionModel :=
  if m.state ≠ .streaming then m
  else
    let m := m.consumeFrames env
    if ¬ env.now - m.lastStatistics ≥ 1000000 then m
    else
      let m := ((m.send (⟨UInt64.ofNat env.now⟩ : Ping) false).andThen fun m =>
        m.send env.statistics false).catching failed
      { m with lastStatistics := env.now }

/-- `input(_:)`. -/
def input (m : SessionModel) (e : InputEvent) : SessionModel :=
  if m.state ≠ .streaming then m else (m.send e true).catching failed

/-- `disconnect()`. -/
def disconnect (m : SessionModel) : SessionModel :=
  let m := { m with
    wantsConnection := false, reconnectTask := false, timeoutTask := false, timer := false }
  let m := if m.state = .streaming then
      (m.send (⟨0⟩ : SessionStop) false).catching fun m _ => m
    else m
  { m with
    transport := { m.transport with closing := true }
    decoder := m.decoder.reset
    state := .idle
    idleTimerDisabled := false }

/-- `connect(_:)`. -/
def connect (m : SessionModel) (env : Moment) (host : DiscoveredHost) : SessionModel :=
  let m := m.disconnect
  if ¬ (m.renderer ∧ m.clientID.length = 16) then m
  else { m with
    host := some host, wantsConnection := true, foreground := true,
    reconnectAttempt := 0 }.openConnection env

/-- `forgetHost()`; nobody looks at whether the keychain deletes the host. -/
def forgetHost (m : SessionModel) (env : Moment) : SessionModel :=
  let m := match m.host with
    | some host => { m with
      keychain := if env.keychain then Function.update m.keychain host.id none else m.keychain
      log := m.log ++ [Effect.forgot host.id] }
    | none => m
  { m.disconnect with trusted := none }

/-- `sceneActive(_:)`. -/
def sceneActive (m : SessionModel) (env : Moment) (active : Bool) : SessionModel :=
  let m := { m with foreground := active }
  if active then
    if m.wantsConnection ∧ m.state ≠ .streaming ∧ m.state ≠ .connecting ∧ m.state ≠ .pairing then
      { m with reconnectAttempt := 0 }.openConnection env
    else m
  else
    let m := { m with
      reconnectTask := false, timeoutTask := false, timer := false
      transport := m.transport.close
      decoder := m.decoder.reset
      idleTimerDisabled := false }
    if m.wantsConnection then { m with state := .reconnecting } else m

/-- `orientationChanged()`. -/
def orientationChanged (m : SessionModel) (env : Moment) : SessionModel :=
  if m.state ≠ .streaming then m
  else if (env.capabilities.orientation = 1) ≠ (m.videoSize.1 > m.videoSize.2) then
    m.failed .orientation
  else m

/-- The TLS verification of a certificate chain that begins with `certificate`. -/
def verifyCertificate (crypto : Crypto) (m : SessionModel) (certificate : Bytes) : SessionModel :=
  match m.transport.pinned with
  | some trusted =>
    if crypto.sha256 certificate ≠ trusted.certificateHash then
      m.fail (.trust .certificateChanged)
    else { m with transport := { m.transport with certificate := certificate } }
  | none => { m with transport := { m.transport with certificate := certificate } }

/-- One callback on the main actor. -/
inductive Event where
  | connect (host : DiscoveredHost)
  | disconnect
  | forgetHost
  | pair (code : String)
  | input (e : InputEvent)
  | sceneActive (active : Bool)
  | orientationChanged
  /-- TLS asks for the verdict on a certificate. -/
  | certificate (certificate : Bytes)
  /-- The connection group is ready; its control stream is created. -/
  | groupReady
  /-- The control stream is ready. -/
  | controlReady
  /-- A chunk on the control stream: what `parser.append` returned. -/
  | received (result : Except WireError (List Packet))
  | datagram (data : Bytes)
  /-- A send has completed. -/
  | sendCompleted
  /-- A stream or the group has failed or ended. -/
  | transportFailed
  | decoded (index : ℕ) (ok : Bool)
  | tick
  /-- The 0.2 s of `closeGracefully` are over. -/
  | graceElapsed
  | reconnectDue
  | timeoutDue

/-- The session behind one callback. -/
def step (crypto : Crypto) (m : SessionModel) (e : Moment × Event) : SessionModel :=
  match e.2 with
  | .connect host => m.connect e.1 host
  | .disconnect => m.disconnect
  | .forgetHost => m.forgetHost e.1
  | .pair code => (m.pairing crypto code).1
  | .input event => m.input event
  | .sceneActive active => m.sceneActive e.1 active
  | .orientationChanged => m.orientationChanged e.1
  | .certificate certificate =>
    if m.transport.group ∧ m.transport.certificate = [] then m.verifyCertificate crypto certificate
    else m
  | .groupReady =>
    if m.transport.group then { m with transport := { m.transport with control := true } } else m
  | .controlReady =>
    if m.transport.control ∧ ¬ m.transport.reading then
      { m with transport := { m.transport with reading := true } }.ready e.1
    else m
  | .received result =>
    if ¬ m.transport.reading then m
    else match result with
      | .ok ps => (packets crypto e.1 m ps).catching fail
      | .error error => m.fail (.wire error)
  | .datagram data =>
    if ¬ m.transport.control then m
    else if ¬ data.length ≤ MAX_DATAGRAM then m.fail (.wire .oversized)
    else (m.datagram e.1 data).catching fail
  | .sendCompleted =>
    { m with transport := { m.transport with sends := m.transport.sends - 1 } }
  | .transportFailed => if m.transport.group then m.fail .network else m
  | .decoded index ok =>
    let (decoder, reset) := m.decoder.completed index ok
    let m := { m with decoder := decoder }
    if reset then m.requestKeyframe e.1.now 3 else m
  | .tick => if m.timer then m.tick e.1 else m
  | .graceElapsed => if m.transport.closing then { m with transport := m.transport.close } else m
  | .reconnectDue =>
    if m.reconnectTask then { m with reconnectTask := false }.openConnection e.1 else m
  | .timeoutDue =>
    if m.timeoutTask then
      let m := { m with timeoutTask := false }
      if m.state = .streaming then m else m.failed (.wire .unexpected)
    else m

end SessionModel
end Ipad
end SidecarDOS
