/-
# The pipeline thread

The thread that `Pipeline::spawn` of `windows/host/src/app/runtime.rs` starts, with
`SessionState` of `app/mod.rs`, `Reconciler` of `topology/mod.rs` and the parts of
`display/driver.rs`, `encoder/mf.rs` and `windows/driver/Driver.cpp` that it
calls.  `turn` is one pass of its loop.  The body of the loop is a computation
that keeps its state when it fails (`Op`): the error path behind it starts from
what the failed operation left.  A `Turn` is what Windows, the driver and the
encoder answer during one pass, which takes place at one time `now`, in
microseconds.
-/

import SidecarDOS.Host.Config
import SidecarDOS.Library.Stateful
import SidecarDOS.Protocol.Messages
import SidecarDOS.Protocol.Packet

namespace SidecarDOS
namespace Host

open Library (exec demand)

/-! ### What a session holds on to -/

inductive SessionState where
  | idle
  | streaming (device : Id16)
  | grace (device : Id16) (deadline : ℕ)
  deriving DecidableEq

namespace SessionState

def accepts : SessionState → Id16 → Bool
  | idle, _ => true
  | streaming _, _ => false
  | grace d _, device => d = device

def disconnect (s : SessionState) (now grace : ℕ) : SessionState :=
  match s with
  | streaming device => .grace device (now + grace)
  | s => s

def expired (s : SessionState) (now : ℕ) : Bool :=
  match s with
  | grace _ deadline => now ≥ deadline
  | _ => false

def isStreaming : SessionState → Bool
  | streaming _ => true
  | _ => false

end SessionState

/-- `Reconciler`; its counter stays below 4 because `result` follows `ready`. -/
structure Reconciler where
  due : ℕ
  retries : ℕ := 0
  dirty : Bool := true
  lastApplied : Option ℕ := none

namespace Reconciler

def changed (r : Reconciler) (now : ℕ) : Reconciler :=
  if r.lastApplied.any fun t => now - t < 750000 then r
  else { r with due := now + 200000, retries := 0, dirty := true }

def ready (r : Reconciler) (now : ℕ) : Bool := r.dirty && r.retries < 3 && now ≥ r.due

def result (r : Reconciler) (now : ℕ) (matched : Bool) : Reconciler :=
  let r := { r with dirty := !matched }
  if matched then r
  else { r with retries := r.retries + 1, due := now + 750000, lastApplied := some now }

end Reconciler

/-! ### The driver and the encoder -/

structure Bounds where
  (x y : ℤ)
  (width height : UInt32)
  deriving DecidableEq

/-- The virtual monitor that has arrived: its identity, and width, height and fps of its
modes. -/
structure Monitor where
  identity : Id16
  modes : List (UInt32 × UInt32 × UInt32)
  deriving DecidableEq

structure Slot where
  (frame captureUs : UInt64)

/-- What `SD_STATUS` reports; the ABI has been checked. -/
structure Status where
  (generation width height fps : UInt32)
  slots : Fin 3 → Slot

structure EncoderSettings where
  (width height fps bitrate : UInt32)

/-- What is answered during one turn.  A `Bool` tells whether a call succeeds. -/
structure Turn where
  now : ℕ := 0
  /-- `Driver::open`. -/
  opens : Bool := true
  /-- The driver's adapter is ready. -/
  ready : Bool := true
  /-- `IddCxMonitorCreate` and `IddCxMonitorArrival`. -/
  arrives : Bool := true
  /-- `SD_STOP`. -/
  stops : Bool := true
  /-- `Injector::event`. -/
  injects : Bool := true
  /-- `topology::current_bounds().ok()`. -/
  bounds : Option Bounds := none
  /-- `topology::reconcile`, if it succeeds. -/
  reconciled : Option (Bounds × Bool) := none
  /-- `Injector::new`. -/
  injector : Bool := true
  /-- `SD_STATUS`, if it succeeds. -/
  status : Option Status := none
  /-- `MfEncoder::open`. -/
  encoder : Bool := true
  /-- `SD_SURFACES`. -/
  surfaces : Bool := true
  /-- `request_keyframe`. -/
  keyframe : Bool := true
  /-- `sd_gpu_bitrate`. -/
  bitrate : Bool := true
  /-- The `n`-th `poll` of the turn, if it succeeds. -/
  polls : ℕ → Option (Option VideoFrame) := fun _ => some none
  /-- `encode` for a slot and its metadata, if it succeeds. -/
  encodes : Fin 3 → Slot → Option Bool := fun _ _ => some true

/-- The checks of `Device::arrive` on one mode. -/
def fitsDevice (m : DisplayMode) : Bool :=
  320 ≤ m.width && 320 ≤ m.height && m.width ≤ 4094 && m.height ≤ 4094 && m.width % 2 = 0 &&
    m.height % 2 = 0 && 30 ≤ m.fps && m.fps ≤ 60 &&
      (m.width.toNat + 160) * (m.height.toNat + 30) * m.fps.toNat ≤ 655350000

/-- `Device::arrive`: the monitor that is there now departs first. -/
def arrive (t : Turn) (monitor : Option Monitor) (identity : Id16) (modes : List DisplayMode) :
    Option Monitor × Bool :=
  if ¬ (t.ready ∧ modes.all fitsDevice) then (monitor, false)
  else if t.arrives then
    (some ⟨identity, modes.map fun m => (m.width, m.height, m.fps)⟩, true)
  else (none, false)

/-! ### The thread -/

inductive Command where
  | connect (device : Id16) (modes : List DisplayMode)
  | disconnect (immediate : Bool)
  | input (event : InputEvent)
  | mode (m : DisplayModeChange)
  | placement (p : Position)
  | shutdown
  deriving DecidableEq

/-- `Event`; a failure is sent as its text. -/
inductive PipelineEvent where
  | ready (config : VideoConfig)
  | failed (e : Error)

/-- The variables of the thread, and what it shares with others: `keyframe`, `bitrate`,
`displayChanged`, `frames` and `events`. -/
structure Pipeline where
  /-- The thread has left its loop. -/
  stopped : Bool := false
  /-- A handle of the driver is open. -/
  driver : Bool := false
  monitor : Option Monitor := none
  encoder : Option EncoderSettings := none
  /-- The bounds of the injector. -/
  input : Option Bounds := none
  state : SessionState := .idle
  cfg : Display := {}
  seen : Fin 3 → UInt64 := fun _ => 0
  modeRequest : Option (UInt32 × UInt32 × UInt32) := none
  reconcile : Reconciler := ⟨0, 0, true, none⟩
  generation : UInt32 := 0
  serial : UInt64 := 0
  encodeRate : UInt32 := 0
  lastProbe : ℕ := 0
  lastBounds : Option Bounds := none
  startup : Option ℕ := none
  previousModes : List DisplayMode := []
  keyframe : Bool := true
  bitrate : UInt32 := 12000000
  displayChanged : Bool := false
  frames : Option VideoFrame := none
  events : List PipelineEvent := []

/-- A part of the loop's body: it may fail and keeps its state. -/
abbrev Op (α : Type) : Type := ExceptT Error (StateM Pipeline) α

namespace Op

def check (cond : Prop) [Decidable cond] (text : String) : Op Unit :=
  demand cond (.ensure text)

/-- A call of the platform. -/
def call (ok : Bool) : Op Unit := demand (ok = true) .platform

/-- `driver.as_ref().context("driver missing")?.start(device, &modes)?`. -/
def start (t : Turn) (device : Id16) (modes : List DisplayMode) : Op Unit := do
  let s ← get
  check (s.driver = true) "driver missing"
  check (modes ≠ [] ∧ modes.length ≤ 4) "invalid display mode count"
  let out := arrive t s.monitor device modes
  modify fun s => { s with monitor := out.1 }
  check (out.2 = true) "virtual monitor arrival"

/-- `if let Some(d) = &driver { d.stop()?; }`. -/
def stop (t : Turn) : Op Unit := do
  let s ← get
  if s.driver then
    call t.stops
    modify fun s => { s with monitor := none }

/-- `if driver.is_none() { driver = Some(display::Driver::open()?); }`. -/
def openDriver (t : Turn) : Op Unit := do
  let s ← get
  if ¬ s.driver then
    call t.opens
    modify fun s => { s with driver := true }

/-- The rest of `Connect`, from `modes.first()` on. -/
def adopt (t : Turn) (device : Id16) (modes : List DisplayMode) (replaceMonitor : Bool) : Op Unit :=
  match modes with
  | [] => throw (.ensure "no display modes")
  | m :: _ => modify fun s => { s with
      previousModes := modes
      modeRequest := if replaceMonitor then some (m.width, m.height, m.fps) else none
      state := .streaming device
      encoder := none
      input := none
      seen := fun _ => 0
      generation := 0
      reconcile := ⟨t.now, 0, true, none⟩
      startup := some t.now
      frames := none }

def connect (t : Turn) (device : Id16) (modes : List DisplayMode) : Op Unit := do
  let s ← get
  check (s.state.accepts device) "display reserved for another device"
  openDriver t
  let replaceMonitor : Bool := s.state = .idle ∨ modes ≠ s.previousModes
  if replaceMonitor then start t device modes
  adopt t device modes replaceMonitor

def disconnect (t : Turn) (immediate : Bool) : Op Unit := do
  modify fun s => { s with encoder := none, input := none, frames := none }
  if immediate then
    stop t
    modify fun s => { s with state := .idle }
  else
    modify fun s => { s with state := s.state.disconnect t.now (s.cfg.reconnectGraceMs * 1000) }

def mode (t : Turn) (m : DisplayModeChange) : Op Unit := do
  check (320 ≤ m.width ∧ m.width ≤ 4094 ∧ 320 ≤ m.height ∧ m.height ≤ 4094 ∧ m.width % 2 = 0 ∧
    m.height % 2 = 0 ∧ 30 ≤ m.fps ∧ m.fps ≤ 60) "invalid mode request"
  let s ← get
  check (s.previousModes.any fun mode => mode.width = m.width ∧ mode.height = m.height)
    "requested mode was not advertised"
  if s.previousModes.any fun mode => mode.fps ≠ m.fps then
    let modes := s.previousModes.map fun mode => { mode with fps := m.fps }
    modify fun s => { s with
      encoder := none, input := none, frames := none, previousModes := modes }
    match s.state with
    | .streaming device => start t device modes
    | _ => pure ()
    modify fun s => { s with startup := some t.now }
  modify fun s => { s with
    modeRequest := some (m.width, m.height, m.fps)
    reconcile := s.reconcile.changed t.now
    keyframe := true }

/-- The `match` on the command; `false` leaves the loop. -/
def handle (t : Turn) : Option Command → Op Bool
  | some .shutdown => pure false
  | some (.connect device modes) => do connect t device modes; pure true
  | some (.disconnect immediate) => do disconnect t immediate; pure true
  | some (.input _) => do
    let s ← get
    if s.input.isSome then call t.injects
    pure true
  | some (.mode m) => do mode t m; pure true
  | some (.placement p) => do
    modify fun s => { s with
      cfg := { s.cfg with position := p }, reconcile := s.reconcile.changed t.now }
    pure true
  | none => pure true

/-- The grace period ends. -/
def expire (t : Turn) : Op Unit := do
  let s ← get
  if s.state.expired t.now then
    stop t
    modify fun s => { s with state := .idle }

/-- The display change, the probe of the desktop's bounds and `topology::reconcile`. -/
def reconcile (t : Turn) : Op Unit := do
  modify fun s => if s.displayChanged then
    { s with displayChanged := false, reconcile := s.reconcile.changed t.now } else s
  modify fun s => if t.now - s.lastProbe > 1000000 then
    if t.bounds ≠ s.lastBounds then { s with
      lastProbe := t.now, lastBounds := t.bounds, reconcile := s.reconcile.changed t.now }
    else { s with lastProbe := t.now } else s
  let s ← get
  if s.reconcile.ready t.now then
    match t.reconciled with
    | some (b, matched) =>
      if s.input.isNone then call t.injector
      modify fun s => { s with
        input := some b
        lastBounds := some b
        modeRequest := none
        reconcile := s.reconcile.result t.now matched }
    | none => modify fun s => { s with reconcile := s.reconcile.result t.now false }

/-- `status.fps.clamp(30, 60)`. -/
def clampFps (fps : UInt32) : UInt32 := if fps < 30 then 30 else if 60 < fps then 60 else fps

/-- A new generation gets a new encoder and new surfaces. -/
def openEncoder (t : Turn) (status : Status) : Op Unit := do
  modify fun s => { s with
    encoder := none, seen := fun _ => 0, generation := status.generation }
  let s ← get
  let settings : EncoderSettings :=
    ⟨status.width, status.height, clampFps status.fps, s.bitrate⟩
  call t.encoder
  call t.surfaces
  modify fun s => { s with encoder := some settings, encodeRate := settings.bitrate }
  check (s.events.length < 4) "pipeline control queue full"
  modify fun s => { s with
    events := s.events ++ [.ready ⟨status.generation, 1, status.width, status.height,
      settings.fps, 8, 1, []⟩]
    keyframe := true
    startup := none }

/-- A keyframe that was asked for, and a bitrate that has changed. -/
def adjust (t : Turn) (status : Status) (settings : EncoderSettings) : Op Unit := do
  let s ← get
  if s.keyframe then
    modify fun s => { s with keyframe := false }
    call t.keyframe
  if s.bitrate ≠ s.encodeRate then
    check (status.width = settings.width ∧ status.height = settings.height ∧
      clampFps status.fps = settings.fps) "resolution/fps change requires encoder recreation"
    call t.bitrate
    modify fun s' => { s' with
      encoder := some { settings with bitrate := s.bitrate }, encodeRate := s.bitrate }

/-- At most `n` more frames leave the encoder, from the `i`-th `poll` on. -/
def poll (t : Turn) : ℕ → ℕ → Op Unit
  | 0, _ => pure ()
  | n + 1, i =>
    match t.polls i with
    | none => throw .platform
    | some none => pure ()
    | some (some frame) => do
      modify fun s => { s with
        serial := s.serial + 1, frames := some { frame with frameId := s.serial + 1 } }
      poll t n (i + 1)

/-- The slot with the newest frame that has not been seen; the last one of several. -/
def newest (slots : Fin 3 → Slot) (seen : Fin 3 → UInt64) : Option (Fin 3) :=
  (List.finRange 3).foldl (fun best i =>
    if (slots i).frame > seen i then
      match best with
      | some j => if (slots j).frame ≤ (slots i).frame then some i else some j
      | none => some i
    else best) none

/-- One turn of the loop over the slots: a stale one is encoded as frame 0. -/
def submit (t : Turn) (slots : Fin 3 → Slot) (newest : Option (Fin 3)) (i : Fin 3) : Op Unit := do
  let s ← get
  if (slots i).frame > s.seen i then
    let metadata := if some i ≠ newest then { slots i with frame := 0 } else slots i
    match t.encodes i metadata with
    | none => throw .platform
    | some true => modify fun s => { s with seen := Function.update s.seen i (slots i).frame }
    | some false => pure ()

/-- The body of the loop from `d.status()` on. -/
def stream (t : Turn) : Op Unit := do
  let s ← get
  check (s.driver = true) "driver missing"
  match t.status with
  | none => throw .platform
  | some status =>
    if status.width = 0 ∨ s.input = none then
      check (¬ s.startup.any fun t₀ => t.now - t₀ > 8000000)
        "virtual display did not become active"
    else
      if s.encoder.isNone ∨ s.generation ≠ status.generation then openEncoder t status
      let s ← get
      match s.encoder with
      | none => throw (.ensure "encoder missing")
      | some settings =>
        adjust t status settings
        poll t 4 0
        let s ← get
        let newest := newest status.slots s.seen
        (List.finRange 3).forM (submit t status.slots newest)

/-- `operation`. -/
def operation (t : Turn) (cmd : Option Command) : Op Bool := do
  let go ← handle t cmd
  if ¬ go then pure false
  else
    expire t
    let s ← get
    if s.state.isStreaming then
      reconcile t
      stream t
    pure true

end Op

namespace Pipeline

/-- The error path.  Closing the handle makes the monitor depart. -/
def failed (s : Pipeline) (e : Error) : Pipeline :=
  { s with
    events := if s.events.length < 4 then s.events ++ [.failed e] else s.events
    encoder := none
    input := none
    monitor := if s.driver then none else s.monitor
    driver := false
    state := .idle
    frames := none }

/-- What follows the loop. -/
def shutdown (s : Pipeline) : Pipeline :=
  { s with
    stopped := true
    encoder := none
    input := none
    monitor := if s.driver then none else s.monitor
    driver := false }

/-- One pass of the loop. -/
def turn (s : Pipeline) (t : Turn) (cmd : Option Command) : Pipeline :=
  match exec (Op.operation t cmd) s with
  | (.ok true, s) => s
  | (.ok false, s) => s.shutdown
  | (.error e, s) => s.failed e

/-- The thread as `spawn` starts it. -/
def spawn (config : Config) (displayChanged : Bool) (now : ℕ) : Pipeline where
  cfg := config.display
  bitrate := config.video.bitrate
  displayChanged := displayChanged
  lastProbe := now
  reconcile := ⟨now, 0, true, none⟩

/-- A turn of the thread, or what others do with what they share with it. -/
inductive Activity where
  | turn (t : Turn) (cmd : Option Command)
  | keyframe
  | bitrate (rate : UInt32)
  | displayChanged
  /-- An event is received. -/
  | event

def step (s : Pipeline) : Activity → Pipeline
  | .turn t cmd => if s.stopped then s else s.turn t cmd
  | .keyframe => { s with keyframe := true }
  | .bitrate rate => { s with bitrate := rate }
  | .displayChanged => { s with displayChanged := true }
  | .event => { s with events := s.events.tail }

end Pipeline

end Host
end SidecarDOS
