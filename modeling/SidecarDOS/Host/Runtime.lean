/-
# The host's tasks

`run` and `session` of `windows/host/src/app/runtime.rs`, the input task that a
session spawns, and the pipeline thread, around the queue of 256 commands between
them.  A task is cut where it waits; what it does from there to its next wait is
one step of `step`, and the steps of all tasks interleave at will.  A task's
step is a computation that keeps its state when it fails (`Task`), because what was
enqueued and stored before a `?` stays.  `Wake` is what the platform answers
during one step.
-/

import SidecarDOS.Host.Pipeline
import SidecarDOS.Protocol.HostCodec

namespace SidecarDOS
namespace Host

open Library (exec demand)

/-- What the tray asks for. -/
inductive Action where
  | disconnect
  | position (p : Position)
  | quality (q : UInt8)
  | exit

structure AdaptiveBitrate where
  (current min max : UInt32)
  healthy : UInt8 := 0
  last : ℕ

/-- `update`: the estimate behind a report, and the new rate if it has changed. -/
def AdaptiveBitrate.update (a : AdaptiveBitrate) (s : Statistics) (now : ℕ) :
    AdaptiveBitrate × Option UInt32 :=
  if now - a.last < 1000000 then (a, none)
  else
    let a := { a with last := now }
    let before := a.current
    let a :=
      if s.lossPpm > 20000 ∨ s.rttUs > 60000 ∨ s.decodeQueue > 1 ∨ s.droppedFrames > 3 then
        { a with current := Max.max (a.current * 3 / 4) a.min, healthy := 0 }
      else if s.lossPpm < 2000 ∧ s.rttUs < 30000 ∧ s.decodeQueue = 0 then
        let a := { a with healthy := a.healthy + 1 }
        if a.healthy ≥ 5 then
          { a with current := Min.min (a.current + a.current / 20) a.max, healthy := 0 }
        else a
      else { a with healthy := 0 }
    (a, if before ≠ a.current then some a.current else none)

/-- The local variables of `session` while it loops. -/
structure Session where
  id : Id16
  token : Id16
  abr : AdaptiveBitrate
  lastId : UInt64 := 0
  /-- The last keyframe request; the first one is never too early. -/
  lastKey : Option ℕ := none
  guard : ℕ := 0
  sequence : UInt64 := 10
  /-- The input task was spawned. -/
  input : Bool := false

/-- Where `run` waits, or that it has ended. -/
inductive Phase where
  | accepting
  /-- In `session`, for the client's capabilities. -/
  | greeting (id : Id16)
  /-- In the loop of `session`. -/
  | session (s : Session)
  /-- `session` has returned. -/
  | ended (id : Id16) (result : Except Error Bool)
  | returned (result : Except Error Unit)

/-- The task that reads the input stream of a session.  When it is aborted, it still runs
to its next wait. -/
structure InputTask where
  token : Id16
  guard : ℕ := 0
  aborted : Bool := false

structure Runtime where
  config : Config
  run : Phase := .accepting
  reserve : Option (Id16 × ℕ) := none
  /-- `ui.exit`. -/
  exit : Bool := false
  queue : List Command := []
  pipeline : Pipeline
  inputs : List InputTask := []
  /-- The control packets of all sessions. -/
  sent : List Packet := []

/-- What is answered during one step.  A `Bool` tells whether a call succeeds. -/
structure Wake where
  now : ℕ := 0
  /-- `telemetry::now_us()`. -/
  clock : UInt64 := 0
  /-- Writes on the connection. -/
  link : Bool := true
  /-- Writes of the configuration file. -/
  written : Bool := true
  /-- `c.max_datagram_size().is_some()`. -/
  datagrams : Bool := true
  token : Id16 := ⟨List.replicate 16 1, List.length_replicate⟩

/-- What an attempt to connect comes to. -/
inductive Incoming where
  /-- The endpoint is closed. -/
  | none
  /-- The connection fails. -/
  | failed
  /-- The host exits during the authentication. -/
  | shutdown
  /-- The authentication fails or takes too long. -/
  | rejected
  | authenticated (id : Id16)

/-- What wakes a task. -/
inductive RuntimeEvent where
  | exit
  /-- `run`, while it accepts. -/
  | incoming (i : Incoming)
  | action (a : Option Action)
  /-- `session`: `display::modes` of the capabilities that the client sent. -/
  | capabilities (modes : Except Error (List DisplayMode))
  | packet (p : Option (Except Error Packet))
  | stream (ok : Bool)
  /-- The frame in `frames`, with what `send_frame` returns. -/
  | frame (sent : Option Bool)
  | event
  | closed
  /-- `run`, behind a session. -/
  | finish
  /-- A packet on the stream of the `i`-th input task. -/
  | input (i : ℕ) (p : Except Error Packet)
  /-- An aborted task is dropped. -/
  | dropped (i : ℕ)
  /-- A turn of the pipeline thread. -/
  | turn (t : Turn)
  /-- The pipeline is dropped at the end of `run`. -/
  | shutdown

abbrev Task (α : Type) : Type := ExceptT Error (StateM Runtime) α

namespace Task

def check (cond : Prop) [Decidable cond] (text : String) : Task Unit :=
  demand cond (.ensure text)

/-- A computation that keeps no state. -/
def lift {α : Type} : Except Error α → Task α
  | .ok a => pure a
  | .error e => throw e

/-- `Pipeline::command`. -/
def command (c : Command) : Task Unit := do
  let s ← get
  check (s.queue.length < 256 ∧ s.pipeline.stopped = false)
    "pipeline input queue full or stopped"
  modify fun s => { s with queue := s.queue ++ [c] }

/-- A control packet of the session is written. -/
def write {T : Type} [Wire T] (w : Wake) (v : T) (sequence : UInt64) (token : Id16) : Task Unit := do
  demand (w.link = true) .connection
  modify fun s => { s with sent := s.sent ++ [Packet.new v sequence token] }

/-- `config.display.position = p; config.save(..)?; pipeline.command(..)?`. -/
def position (w : Wake) (p : Position) : Task Unit := do
  modify fun s => { s with config := { s.config with display.position := p } }
  let s ← get
  lift (s.config.save w.written)
  command (.placement p)

/-- What the tray's quality stands for. -/
def rateOf (q : UInt8) : UInt32 := if q = 1 then 6000000 else if q = 2 then 20000000 else 12000000

def quality (w : Wake) (q : UInt8) : Task Unit := do
  modify fun s => { s with
    config := { s.config with video.adaptive := q = 0, video.bitrate := rateOf q } }
  let s ← get
  lift (s.config.save w.written)
  modify fun s => { s with pipeline := { s.pipeline with bitrate := rateOf q } }

/-! ### The session -/

/-- `display::preferred`: the first mode closest to 1920 by 1080. -/
def preferred : List DisplayMode → Option DisplayMode
  | [] => none
  | m :: modes =>
    let distance (m : DisplayMode) : ℕ :=
      ((m.width.toNat : ℤ) * m.height.toNat - 1920 * 1080).natAbs
    some (modes.foldl (fun best m => if distance m < distance best then m else best) m)

/-- `session` up to its loop. -/
def greet (w : Wake) (id : Id16) (modes : Except Error (List DisplayMode)) : Task Session := do
  let modes ← lift modes
  let preferred ← match preferred modes with
    | some m => pure m
    | none => throw (.ensure "no supported display mode")
  let is (m : DisplayMode) : Bool := m.width = preferred.width ∧ m.height = preferred.height
  check (w.datagrams = true) "iPad did not negotiate QUIC Datagram"
  command (.connect id (modes.filter is ++ modes.filter (! is ·)))
  -- `authenticate` has sent four packets on the control stream
  write w (⟨preferred.width, preferred.height, preferred.fps⟩ : SessionStart) 5 w.token
  write w (⟨1, 1, 4094, 4094⟩ : EncoderCapabilities) 6 w.token
  let video := (← get).config.video
  return ⟨id, w.token, ⟨video.bitrate, video.minBitrate, video.maxBitrate, 0, w.now⟩, 0, none, 0, 10,
    false⟩

/-- `s.fps >= 0. && s.fps <= 240.`: the bits of 0 to 240 are in order, and -0 is 0. -/
def fpsInRange (fps : F32) : Bool := fps.bits ≤ 0x43700000 || fps.bits = 0x80000000

/-- A control packet: the loop goes on, or `session` returns whether it ends for good. -/
def packet (w : Wake) (s : Session) (p : Packet) : Task (Session ⊕ Bool) := do
  check (p.session = s.token) "wrong session"
  check (p.sequence.toNat > s.guard) "replayed or out-of-order reliable message"
  let s := { s with guard := p.sequence.toNat }
  if p.kind = Wire.KIND SessionStop then
    let stop ← lift (p.message SessionStop)
    return .inr (stop.reason = 0)
  else if p.kind = Wire.KIND KeyframeRequest then
    let _ ← lift (p.message KeyframeRequest)
    if s.lastKey.all fun t => w.now - t > 200000 then
      modify fun r => { r with pipeline := { r.pipeline with keyframe := true } }
      return .inl { s with lastKey := some w.now }
    else return .inl s
  else if p.kind = Wire.KIND DisplayModeChange then
    let m ← lift (p.message DisplayModeChange)
    command (.mode m)
    return .inl s
  else if p.kind = Wire.KIND Statistics then
    let stats ← lift (p.message Statistics)
    check (stats.lossPpm ≤ 1000000 ∧ fpsInRange stats.fps) "invalid statistics"
    if (← get).config.video.adaptive then
      let out := s.abr.update stats w.now
      match out.2 with
      | some rate => modify fun r => { r with pipeline := { r.pipeline with bitrate := rate } }
      | none => pure ()
      return .inl { s with abr := out.1 }
    else return .inl s
  else if p.kind = Wire.KIND Ping then
    let ping ← lift (p.message Ping)
    let s := { s with sequence := s.sequence + 1 }
    write w (⟨ping.clientTimestamp, w.clock, w.clock⟩ : Pong) s.sequence s.token
    return .inl s
  else throw (.ensure "unexpected session control message")

/-- The arms of the loop's `select!`. -/
def select (w : Wake) (s : Session) : RuntimeEvent → Task (Session ⊕ Bool)
  | .packet none => throw (.ensure "control stream ended")
  | .packet (some (.error e)) => throw e
  | .packet (some (.ok p)) => packet w s p
  | .stream ok => do
    if s.input then return .inl s
    demand (ok = true) .connection
    modify fun r => { r with inputs := r.inputs ++ [⟨s.token, 0, false⟩] }
    return .inl { s with input := true }
  | .frame sent => do
    match (← get).pipeline.frames with
    | none => return .inl s
    | some f =>
      let key (r : Runtime) : Runtime := { r with pipeline := { r.pipeline with keyframe := true } }
      if f.frameId > s.lastId + 1 then modify key
      match sent with
      | none => throw .connection
      | some sent =>
        if ¬ sent then modify key
        return .inl { s with lastId := f.frameId }
  | .event => do
    match (← get).pipeline.events with
    | [] => return .inl s
    | head :: rest =>
      modify fun r => { r with pipeline := { r.pipeline with events := rest } }
      match head with
      | .ready config =>
        let s := { s with sequence := s.sequence + 1 }
        write w config s.sequence s.token
        return .inl s
      | .failed e => throw e
  | .action (some .disconnect) => return .inr true
  | .action (some .exit) => throw (.ensure "host exit requested")
  | .action none => throw (.ensure "host exit requested")
  | .action (some (.position p)) => do position w p; return .inl s
  | .action (some (.quality q)) => do quality w q; return .inl s
  | .closed => throw .connection
  | _ => return .inl s

/-! ### `run` -/

/-- The arm for a tray action, while `run` accepts; `false` leaves the loop. -/
def act (w : Wake) : Option Action → Task Bool
  | none => return false
  | some .exit => return false
  | some (.position p) => do position w p; return true
  | some (.quality q) => do quality w q; return true
  | some .disconnect => do
    modify fun s => { s with reserve := none }
    command (.disconnect true)
    return true

/-- What `run` does behind a session. -/
def finish (w : Wake) (id : Id16) (result : Except Error Bool) : Task Unit := do
  let s ← get
  let immediate : Bool := result = .ok true ∨ s.exit = true
  command (.disconnect immediate)
  modify fun s => { s with
    reserve := if immediate then none else some (id, w.now + s.config.display.reconnectGraceMs * 1000) }

/-! ### The input task -/

/-- One round of the input task's loop: its guard behind the packet. -/
def read (task : InputTask) (p : Except Error Packet) : Task ℕ := do
  let p ← lift p
  check (p.session = task.token) "input session mismatch"
  check (p.sequence.toNat > task.guard) "replayed or out-of-order reliable message"
  let event ← lift (p.message InputEvent)
  let s ← get
  check (s.queue.length < 256 ∧ s.pipeline.stopped = false) "input queue overflow"
  modify fun s => { s with queue := s.queue ++ [.input event] }
  return p.sequence.toNat

end Task

namespace Runtime

/-- The head of `while !ui.exit.load(..)`. -/
def resumed (s : Runtime) : Phase := if s.exit then .returned (.ok ()) else .accepting

/-- `session` returns, and drops its input task. -/
def ended (s : Runtime) (id : Id16) (result : Except Error Bool) : Runtime :=
  { s with run := .ended id result, inputs := s.inputs.map ({ · with aborted := true }) }

/-- `let _ = commands.try_send(c)`. -/
def trySend (s : Runtime) (c : Command) : Runtime := (exec (Task.command c) s).2

/-- An attempt to connect. -/
def incoming (s : Runtime) (w : Wake) : Incoming → Runtime
  | .none => { s with run := .returned (.ok ()) }
  | .failed => { s with run := s.resumed }
  | .shutdown => { s with run := .returned (.ok ()) }
  | .rejected => { s with run := s.resumed }
  | .authenticated id =>
    if s.reserve.any fun r => r.1 ≠ id ∧ w.now < r.2 then { s with run := s.resumed }
    else { s with run := .greeting id, pipeline := { s.pipeline with events := [] } }

/-- A step of `run`, up to its next wait. -/
def wakeRun (s : Runtime) (w : Wake) (e : RuntimeEvent) : Runtime :=
  match s.run with
  | .accepting =>
    match e with
    | .incoming i => s.incoming w i
    | .action a =>
      match exec (Task.act w a) s with
      | (.ok true, s) => { s with run := s.resumed }
      | (.ok false, s) => { s with run := .returned (.ok ()) }
      | (.error e, s) => { s with run := .returned (.error e) }
    | _ => s
  | .greeting id =>
    match e with
    | .capabilities modes =>
      match exec (Task.greet w id modes) s with
      | (.ok session, s) => { s with run := .session session }
      | (.error e, s) => s.ended id (.error e)
    | _ => s
  | .session session =>
    match exec (Task.select w session e) s with
    | (.ok (.inl session), s) => { s with run := .session session }
    | (.ok (.inr immediate), s) => s.ended session.id (.ok immediate)
    | (.error e, s) => s.ended session.id (.error e)
  | .ended id result =>
    match e with
    | .finish =>
      match exec (Task.finish w id result) s with
      | (.ok (), s) => { s with run := s.resumed }
      | (.error e, s) => { s with run := .returned (.error e) }
    | _ => s
  | .returned _ => s

/-- A packet arrives at an input task. -/
def wakeInput (s : Runtime) (i : ℕ) (p : Except Error Packet) : Runtime :=
  match s.inputs[i]? with
  | none => s
  | some task =>
    match exec (Task.read task p) s with
    | (.ok guard, s) =>
      if task.aborted then { s with inputs := s.inputs.eraseIdx i }
      else { s with inputs := s.inputs.set i { task with guard := guard } }
    | (.error _, s) => { s with inputs := s.inputs.eraseIdx i }.trySend (.disconnect false)

def step (s : Runtime) (e : Wake × RuntimeEvent) : Runtime :=
  match e.2 with
  | .exit => { s with exit := true }
  | .input i p => s.wakeInput i p
  | .dropped i =>
    if s.inputs[i]?.any InputTask.aborted then { s with inputs := s.inputs.eraseIdx i } else s
  | .turn t => { s with
      queue := s.queue.tail
      pipeline := s.pipeline.step (.turn t s.queue.head?) }
  | .shutdown =>
    match s.run with
    | .returned _ =>
      -- the one `send` that waits for room
      if s.queue.length < 256 ∧ .shutdown ∉ s.queue ∧ s.pipeline.stopped = false then
        { s with queue := s.queue ++ [.shutdown] }
      else s
    | _ => s
  | other => s.wakeRun e.1 other

/-- The host as `run` starts it. -/
def Initial (s : Runtime) : Prop :=
  ∃ config changed now, config.validate = .ok () ∧
    s = { config := config, pipeline := .spawn config changed now }

end Runtime

end Host
end SidecarDOS
