/-
# The host and the driver over bytes

`Wired` is the pipeline thread beside the driver as `Display` has it, but what passes between
them are the bytes of requests and replies: the thread keeps the `Host.Abi.Status` that it has
read and registers names, the monitor is started and stopped by requests, and anybody may send
any bytes with any code at any time.  Every run of it is one of `Display` (`Wired.run_eq`), so
what holds in all states of `Display` holds over the wire.
-/

import SidecarDOS.Driver.Control
import SidecarDOS.Driver.Display

namespace SidecarDOS

/-- What the turn reads of the answer. -/
def Host.Abi.Status.read (s : Host.Abi.Status) : Host.Status :=
  ⟨s.generation, s.width, s.height, s.fps, s.slots⟩

namespace Driver

open Library (exec)
open SidecarDOS.Host (Pipeline Turn Command Op)

/-- `Phase`, with what was read. -/
inductive Wired.Phase where
  | idle
  | asks
  | read (status : Host.Abi.Status)
  | slots (status : Host.Abi.Status) (newest : Option (Fin 3)) (rest : List (Fin 3))

structure Wired where
  driver : State := {}
  host : Pipeline
  phase : Wired.Phase := .idle
  key : Id16 := Id16.zero

inductive Wired.Input where
  | move (m : Move)
  /-- `Driver::start` and `Driver::stop`, whose answers a turn is given. -/
  | start (id : Id16) (modes : List DisplayMode)
  | stop
  /-- Somebody's request. -/
  | control (c : Ioctl)

namespace Wired

variable (s : Wired)

def failed (host : Pipeline) (e : Host.Error) : Wired :=
  { s with host := host.failed e, phase := .idle }

def approach (t : Turn) (cmd : Option Command) : Wired :=
  match exec (Op.approach t cmd) s.host with
  | (.ok (some true), host) => { s with host := host }
  | (.ok (some false), host) => { s with host := host.shutdown }
  | (.ok none, host) => { s with host := host, phase := .asks }
  | (.error e, host) => s.failed host e

/-- `d.status()`, if it is answered. -/
def ask : Wired :=
  match s.driver.ioControl Host.Abi.ask with
  | (_, none) => s
  | (driver, some reply) =>
    match Host.Abi.status reply with
    | some status => { s with driver := driver, phase := .read status }
    | none => { s with driver := driver }.failed s.host .platform

def registers (t : Turn) (status : Host.Status) : Bool :=
  status.width ≠ 0 && s.host.input.isSome &&
    (s.host.encoder.isNone || s.host.generation ≠ status.generation) && t.encoder

def prepared (t : Turn) (status : Host.Abi.Status) : Wired :=
  match exec (Op.prepare t status.read) s.host with
  | (.ok none, host) => { s with host := host, phase := .idle }
  | (.ok (some newest), host) =>
    { s with host := host, phase := .slots status newest (List.finRange 3) }
  | (.error e, host) => s.failed host e

def prepare (t : Turn) (key : Id16) (status : Host.Abi.Status) : Wired :=
  if s.registers t status.read then
    let driver := s.driver.create key status.width status.height
    match Host.Abi.surfaces status.generation (Host.Abi.surfaceName key) with
    | none => { s with driver := driver, key := key }.prepared { t with surfaces := false } status
    | some c =>
      match driver.ioControl c with
      | (_, none) => s
      | (driver, some reply) =>
        { s with driver := driver, key := key }.prepared
          { t with surfaces := t.surfaces && (Host.Abi.ioctl 0 reply).isSome } status
  else s.prepared t status

def texture (i : Fin 3) : Option Texture := s.driver.textures (.surface s.key i)

def visit (g : Gpu) (status : Host.Abi.Status) (newest : Option (Fin 3)) (i : Fin 3)
    (rest : List (Fin 3)) : Wired :=
  let slot := status.slots i
  let metadata := if some i ≠ newest then { slot with frame := 0 } else slot
  let taken := g.input (s.texture i) metadata
  let t : Turn := { encodes := fun _ metadata => (g.input (s.texture i) metadata).1.encoded }
  let driver := { s.driver with
    textures := Function.update s.driver.textures (.surface s.key i) taken.2 }
  match exec (Op.submit t status.slots newest i) s.host with
  | (.error e, host) => { s with driver := driver }.failed host e
  | (.ok (), host) =>
    if slot.frame > s.host.seen i then
      { s with host := host, driver := driver, phase := .slots status newest rest }
    else { s with host := host, phase := .slots status newest rest }

def move : Move → Wired
  | .driver e => { s with driver := s.driver.step e }
  | .keyframe => { s with host := s.host.step .keyframe }
  | .bitrate rate => { s with host := s.host.step (.bitrate rate) }
  | .displayChanged => { s with host := s.host.step .displayChanged }
  | .event => { s with host := s.host.step .event }
  | .turn t cmd =>
    match s.phase with
    | .idle => if s.host.stopped then s else s.approach t cmd
    | _ => s
  | .ask ok =>
    match s.phase with
    | .asks => if ok then s.ask else s.failed s.host Host.Error.platform
    | _ => s
  | .prepare t key =>
    match s.phase with
    | .read status => s.prepare t key status
    | _ => s
  | .visit g =>
    match s.phase with
    | .slots status newest (i :: rest) => s.visit g status newest i rest
    | .slots _ _ [] => { s with phase := .idle }
    | _ => s

def step : Input → Wired
  | .move m => s.move m
  | .start id modes => match Host.Abi.start id modes with
    | some c => { s with driver := (s.driver.ioControl c).1 }
    | none => s
  | .stop => { s with driver := (s.driver.ioControl Host.Abi.stop).1 }
  | .control c => { s with driver := (s.driver.ioControl c).1 }

/-- The move of `Display`; none, if the request is completed as invalid. -/
def Input.display : Input → Option Move
  | .move m => some m
  | .start _ modes => some (.driver (.start 1 modes))
  | .stop => some (.driver .stop)
  | .control c => c.event.map .driver

end Wired

/-- What the thread has read of the driver's answer. -/
def Phase.wired : Phase → Wired.Phase
  | .idle => .idle
  | .asks => .asks
  | .read status => .read (.ofSd status.sent)
  | .slots status newest rest => .slots (.ofSd status.sent) newest rest

/-- The system over the wire, which has no record of the visits. -/
def Display.wired (s : Display) : Wired := ⟨s.driver, s.host, s.phase.wired, s.key⟩

/-- The answer tells the host just what the model hands it. -/
theorem read_sent (status : Status) : (Host.Abi.Status.ofSd status.sent).read = status.host := by
  have hslots (i : Fin 3) : (⟨(status.sent.slots i).frame, (status.sent.slots i).captureUs⟩ :
      Host.Slot) = slotOf (status.slots i) := by
    simp only [Status.sent]
    cases status.slots i <;> rfl
  simp only [Host.Abi.Status.read, Host.Abi.Status.ofSd, Status.host, hslots]
  rfl

namespace Display

variable (s : Display)

theorem wired_approach (t : Turn) (cmd : Option Command) :
    s.wired.approach t cmd = (s.approach t cmd).wired := by
  have hhost : s.wired.host = s.host := rfl
  unfold Wired.approach approach
  rw [hhost]
  generalize exec (Op.approach t cmd) s.host = r
  obtain ⟨(e | (_ | _ | _)), host⟩ := r <;> rfl

theorem wired_ask : s.wired.ask = s.driver.status.elim s.wired fun status =>
    { s with driver := s.driver.step .status, phase := .read status }.wired := by
  have hdriver : s.wired.driver = s.driver := rfl
  rw [Wired.ask, hdriver, ioControl_ask]
  cases s.driver.status with
  | none => rfl
  | some status =>
    simp only [Option.elim_some, status_sent]
    rfl

theorem wired_prepared (t : Turn) (status : Status) :
    s.wired.prepared t (.ofSd status.sent) = (s.prepared t status).wired := by
  have hhost : s.wired.host = s.host := rfl
  unfold Wired.prepared prepared
  rw [hhost, read_sent]
  generalize exec (Op.prepare t status.host) s.host = r
  obtain ⟨(e | (_ | _)), host⟩ := r <;> rfl

theorem wired_prepare (t : Turn) (key : Id16) (status : Status) :
    s.wired.prepare t key (.ofSd status.sent) = (s.prepare t key status).wired := by
  have hregisters : s.wired.registers t (Host.Abi.Status.ofSd status.sent).read =
      s.registers t status.host := by
    rw [read_sent]
    rfl
  unfold Wired.prepare prepare
  rw [hregisters]
  split
  · -- The names reach the driver as those of the textures that have been created.
    obtain ⟨c, hc, hreply⟩ := ioControl_surfaces (s.driver.create key status.width status.height)
      status.host.generation key
    have hsurfaces : Host.Abi.surfaces (Host.Abi.Status.ofSd status.sent).generation
        (Host.Abi.surfaceName key) = some c := hc
    have hdriver : s.wired.driver.create key (Host.Abi.Status.ofSd status.sent).width
        (Host.Abi.Status.ofSd status.sent).height =
          s.driver.create key status.width status.height := rfl
    simp only [hsurfaces, hdriver, hreply]
    cases (s.driver.create key status.width status.height).surfaces
        ⟨1, status.host.generation.toNat, .surface key⟩ with
    | none => rfl
    | some a =>
      obtain ⟨ok, driver⟩ := a
      have hok : (Host.Abi.ioctl 0 ⟨ok, []⟩).isSome = ok := by cases ok <;> rfl
      simp only [Option.elim_some, hok]
      exact wired_prepared { s with driver := driver, key := key } _ status
  · exact s.wired_prepared t status

theorem wired_visit (g : Gpu) (status : Status) (newest : Option (Fin 3)) (i : Fin 3)
    (rest : List (Fin 3)) :
    s.wired.visit g (.ofSd status.sent) newest i rest = (s.visit g status newest i rest).wired := by
  have hslots : (Host.Abi.Status.ofSd status.sent).slots = status.host.slots :=
    congrArg Host.Status.slots (read_sent status)
  have hhost : s.wired.host = s.host := rfl
  have htexture : s.wired.texture i = s.texture i := rfl
  unfold Wired.visit visit
  simp only [hslots, hhost, htexture]
  generalize exec (Op.submit
    { encodes := fun _ metadata => (g.input (s.texture i) metadata).1.encoded }
    status.host.slots newest i) s.host = r
  obtain ⟨(e | _), host⟩ := r
  · rfl
  · by_cases hnew : (status.host.slots i).frame > s.host.seen i
    · simp only [hnew, ↓reduceIte]
      rfl
    · simp only [hnew, ↓reduceIte]
      rfl

/-- A move over the wire is a move. -/
theorem wired_move (m : Move) : s.wired.move m = (s.step m).wired := by
  have hphase : s.wired.phase = s.phase.wired := rfl
  cases m with
  | turn t cmd =>
    simp only [Wired.move, step, hphase]
    cases s.phase with
    | idle =>
      simp only [Phase.wired]
      have hhost : s.wired.host = s.host := rfl
      rw [hhost]
      split
      · rfl
      · exact s.wired_approach t cmd
    | _ => rfl
  | ask ok =>
    simp only [Wired.move, step, hphase]
    cases s.phase with
    | asks =>
      simp only [Phase.wired]
      split
      · rw [wired_ask]
        cases s.driver.status <;> rfl
      · rfl
    | _ => rfl
  | prepare t key =>
    simp only [Wired.move, step, hphase]
    cases s.phase with
    | read status => exact s.wired_prepare t key status
    | _ => rfl
  | visit g =>
    simp only [Wired.move, step, hphase]
    cases s.phase with
    | slots status newest rest =>
      cases rest with
      | nil => rfl
      | cons i rest => exact s.wired_visit g status newest i rest
    | _ => rfl
  | _ => rfl

theorem wired_step (i : Wired.Input) : s.wired.step i = (i.display.elim s s.step).wired := by
  have hdriver (d : State) :
      ({ s.wired with driver := d } : Wired) = { s with driver := d }.wired := rfl
  cases i with
  | move m => exact s.wired_move m
  | start id modes =>
    have hstart := step_start s.driver id modes
    simp only [Wired.step, Wired.Input.display, Option.elim_some, step, ← hstart]
    cases Host.Abi.start id modes <;> rfl
  | stop =>
    have hstop := ioControl_step s.driver Host.Abi.stop
    rw [event_stop, Option.elim_some] at hstop
    simp only [Wired.step, Wired.Input.display, Option.elim_some, step, ← hstop]
    rfl
  | control c =>
    have hcontrol := ioControl_step s.driver c
    have hwired : s.wired.driver = s.driver := rfl
    simp only [Wired.step, Wired.Input.display, hwired, hcontrol]
    cases c.event <;> rfl

end Display

/-- **What passes as bytes changes nothing.**  From any state, the runs over the wire are those of
`Display`, with one move for each request that is not completed as invalid. -/
theorem Wired.run_eq (s : Display) (is : List Wired.Input) :
    is.foldl Wired.step s.wired =
      ((is.filterMap Wired.Input.display).foldl Display.step s).wired := by
  induction is generalizing s with
  | nil => rfl
  | cons i is ih =>
    rw [List.foldl_cons, s.wired_step, ih]
    cases h : i.display with
    | none => rw [List.filterMap_cons_none h, Option.elim_none]
    | some m => rw [List.filterMap_cons_some h, List.foldl_cons, Option.elim_some]

end Driver
end SidecarDOS
