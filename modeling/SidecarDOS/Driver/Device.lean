/-
# The display driver

`Device`, its worker threads and the callbacks of `windows/driver/Driver.cpp`.  A call is cut
into the sections that it runs under `mutex`, so a step of `State` is one section of
one call, one pass of a worker, or the publication of what the worker has copied: `mutex`
is still held then, but the key of the copy's texture is released already.  A request
holds `requests` from its first section to its last.  The calls of IddCx stand between
sections and answer as they like.  A section that has to wait for a lock changes nothing.

The counters of 32 bits are taken not to wrap.
-/

import SidecarDOS.Host.Pipeline

namespace SidecarDOS
namespace Driver

open SidecarDOS.Host (fitsDevice)

structure Luid where
  low : UInt32 := 0
  high : Int32 := 0
  deriving DecidableEq

/-- What a worker has captured: number and time, which a slot of the status tells, and the
worker, which it does not. -/
structure Capture where
  worker : ℕ
  (frame captureUs : UInt64)
  deriving DecidableEq

/-- `SdStatus`; a slot that has been cleared is empty. -/
structure Status where
  generation : ℕ := 0
  width : UInt32 := 0
  height : UInt32 := 0
  fps : UInt32 := 0
  luid : Luid := {}
  slots : Fin 3 → Option Capture := fun _ => none

/-- A name of a shared texture: one that `MfEncoder::open` makes of 16 bytes and a slot, or
another one, which begins like those or does not. -/
inductive SurfaceName where
  | surface (key : Id16) (slot : Fin 3)
  | other (n : ℕ) (named : Bool)
  deriving DecidableEq

/-- The check of `IoControl` on a name. -/
def SurfaceName.valid : SurfaceName → Bool
  | surface _ _ => true
  | other _ named => named

/-- `SdSurfaces`; what has been cleared has no ABI. -/
structure Surfaces where
  abi : UInt32 := 0
  generation : ℕ := 0
  names : Fin 3 → SurfaceName := fun _ => .other 0 false

/-- The members of `Device` that a request or a worker reads. -/
structure Device where
  adapter : Bool := false
  ready : Bool := false
  /-- The handle of the monitor. -/
  monitor : Option ℕ := none
  /-- The number of the worker. -/
  worker : Option ℕ := none
  status : Status := {}
  surfaces : Surfaces := {}
  surfaceRevision : ℕ := 0

/-- A worker and the locals of its `run`: its copies of the names and its counter. -/
structure Worker where
  monitor : ℕ
  luid : Luid
  ended : Bool := false
  shared : Fin 3 → Option SurfaceName := fun _ => none
  localRevision : ℕ := 0
  frame : UInt64 := 0

/-- The keys of a keyed mutex. -/
inductive Key where
  | zero
  | one
  deriving DecidableEq

/-- A shared texture.  Its keyed mutex has been released with a key, or somebody holds
it; its content is a capture or nothing yet. -/
structure Texture where
  (width height : UInt32)
  key : Option Key := some .zero
  content : Option Capture := none

/-- What a worker finds in one pass: the size of the surface, the time, which names open as
textures of the surface's format, which mutexes are busy although their key is 0, and whether
`ReleaseSync` succeeds. -/
structure Pass where
  (width height : UInt32)
  captureUs : UInt64
  opens : Fin 3 → Bool := fun _ => true
  busy : Fin 3 → Bool := fun _ => false
  releases : Bool := true

/-- A path of a mode commit. -/
structure Path where
  monitor : Option ℕ
  (numerator denominator : UInt32)

namespace Device

/-- The last section of `depart`. -/
def depart (d : Device) : Device :=
  { d with
    status := { d.status with
      generation := d.status.generation + 1, width := 0, height := 0, slots := fun _ => none }
    surfaces := {} }

/-- The section of `arrive` behind its `depart`. -/
def retime (d : Device) (fps : UInt32) : Device :=
  { d with status := { d.status with fps := fps } }

/-- The section of `Assign`. -/
def assign (d : Device) : Device := d.depart

def commitPath (d : Device) (p : Path) : Device :=
  if p.monitor = d.monitor ∧ p.denominator ≠ 0 then
    let fps := p.numerator / p.denominator
    if 30 ≤ fps ∧ fps ≤ 60 ∧ fps ≠ d.status.fps then
      { d with
        status := { d.status with fps := fps, generation := d.status.generation + 1 }
        surfaces := {} }
    else d
  else d

def commit (d : Device) (paths : List Path) : Device := paths.foldl commitPath d

/-- `SD_SURFACES`, if the request is valid. -/
def register (d : Device) (s : Surfaces) : Option Device :=
  if s.abi = 1 ∧ s.generation = d.status.generation ∧ (List.finRange 3).all fun i =>
      (s.names i).valid then
    some { d with surfaces := s, surfaceRevision := d.surfaceRevision + 1 }
  else none

/-- A worker finds surfaces of another size, or belongs to another adapter. -/
def resize (d : Device) (luid : Luid) (width height : UInt32) : Device :=
  if d.status.width ≠ width ∨ d.status.height ≠ height ∨ d.status.luid ≠ luid then
    { d with
      status := ⟨d.status.generation + 1, width, height, d.status.fps, luid, fun _ => none⟩
      surfaces := {} }
  else d

def publish (d : Device) (i : Fin 3) (c : Capture) : Device :=
  { d with status := { d.status with slots := Function.update d.status.slots i (some c) } }

end Device

namespace Worker

/-- The worker opens the surfaces of a new registration for the generation it sees. -/
def reopen (w : Worker) (d : Device) (textures : SurfaceName → Option Texture) (p : Pass) :
    Worker :=
  if w.localRevision ≠ d.surfaceRevision ∧ d.surfaces.generation = d.status.generation then
    { w with
      shared := fun i =>
        match textures (d.surfaces.names i) with
        | some t =>
          if p.opens i ∧ t.width = p.width ∧ t.height = p.height then some (d.surfaces.names i)
          else none
        | none => none
      localRevision := d.surfaceRevision }
  else w

/-- The worker counts the frame and looks for surfaces. -/
def look (w : Worker) (d : Device) (textures : SurfaceName → Option Texture) (p : Pass) : Worker :=
  { w with frame := w.frame + 1 }.reopen d textures p

/-- `AcquireSync(0, 0)` succeeds for slot `i`. -/
def acquires (w : Worker) (textures : SurfaceName → Option Texture) (p : Pass) (i : Fin 3) :
    Bool :=
  match w.shared i with
  | some name => (textures name).any fun t => t.key = some .zero && !p.busy i
  | none => false

/-- The slot of the copy, and its texture. -/
def target (w : Worker) (textures : SurfaceName → Option Texture) (p : Pass) :
    Option (Fin 3 × SurfaceName) := do
  let i ← (List.finRange 3).find? (w.acquires textures p)
  let name ← w.shared i
  pure (i, name)

end Worker

/-- `CopyResource`, which does nothing between two sizes, and `ReleaseSync(1)`. -/
def Texture.copy (t : Texture) (p : Pass) (c : Capture) : Texture :=
  { t with
    key := if p.releases then some .one else none
    content := if t.width = p.width ∧ t.height = p.height then some c else t.content }

/-! ### Calls under way -/

/-- Where a `stopWorker` stands; `join`: it waits for the end of that worker's thread. -/
inductive Stopping where
  | take (expected : Option ℕ)
  | join (worker : ℕ)

inductive Departing where
  | take
  | stop (s : Stopping)
  | leave

/-- The request that holds `requests`: `START`, with the frame rate of its first mode, or one
that departs only.  `create` and `arrival` are the calls of IddCx. -/
inductive Request where
  | depart (d : Departing) (fps : Option UInt32)
  | retime (fps : UInt32)
  | create
  | announce (monitor : ℕ)
  | arrival (monitor : ℕ)

inductive Call where
  | cleanup (d : Departing)
  | unassign (s : Stopping)
  | assign (monitor : ℕ) (luid : Luid) (s : Stopping)
  | reset (monitor : ℕ) (luid : Luid)
  | construct (monitor : ℕ) (luid : Luid)
  | register (monitor worker : ℕ)
  /-- The worker that `next` still owns is destroyed. -/
  | discard (worker : ℕ)

/-- What one step of a call is answered: a monitor that is created, or whether an arrival or the
start of a thread succeeds. -/
structure Answer where
  monitor : Option ℕ := none
  ok : Bool := true

structure State where
  device : Device := {}
  /-- The worker that holds `mutex` has copied to this slot. -/
  publishing : Option (Fin 3 × Capture) := none
  request : Option Request := none
  calls : List Call := []
  workers : List Worker := []
  textures : SurfaceName → Option Texture := fun _ => none
  /-- The answers to `STATUS`, in their order. -/
  replies : List Status := []

namespace State

variable (s : State)

/-- A section under `mutex`: `s'`, once nobody holds it. -/
def locked (s' : State) : State := if s.publishing.isSome then s else s'

/-- The worker with that number has returned from `run`. -/
def joined (i : ℕ) : Bool := (s.workers[i]?).all Worker.ended

/-- One step of `stopWorker`; no phase is left when it returns. -/
def stopWorker : Stopping → State × Option Stopping
  | .take expected =>
    if s.publishing.isSome then (s, some (.take expected))
    else
      match s.device.worker with
      | none => (s, none)
      | some i =>
        if expected.all fun m => (s.workers[i]?).any fun w => w.monitor = m then
          ({ s with device := { s.device with worker := none } }, some (.join i))
        else (s, none)
  | .join i => if s.joined i then (s, none) else (s, some (.join i))

/-- One step of `depart`. -/
def depart : Departing → State × Option Departing
  | .take =>
    if s.publishing.isSome then (s, some .take)
    else ({ s with device := { s.device with monitor := none } },
      some (.stop (.take s.device.monitor)))
  | .stop p =>
    match s.stopWorker p with
    | (s, some p) => (s, some (.stop p))
    | (s, none) => (s, some .leave)
  | .leave =>
    if s.publishing.isSome then (s, some .leave) else ({ s with device := s.device.depart }, none)

/-- One step of the request that holds `requests`. -/
def advance (a : Answer) : State :=
  match s.request with
  | none => s
  | some (.depart p fps) =>
    match s.depart p with
    | (s, some p) => { s with request := some (.depart p fps) }
    | (s, none) => { s with request := fps.map .retime }
  | some (.retime fps) =>
    s.locked { s with device := s.device.retime fps, request := some .create }
  | some .create => { s with request := a.monitor.map .announce }
  | some (.announce m) =>
    s.locked { s with device := { s.device with monitor := some m }, request := some (.arrival m) }
  | some (.arrival _) =>
    if a.ok then { s with request := none }
    else s.locked { s with device := { s.device with monitor := none }, request := none }

/-- One step of a call that does not hold `requests`. -/
def callStep (a : Answer) : Call → State × Option Call
  | .cleanup p =>
    match s.depart p with
    | (s, some p) => (s, some (.cleanup p))
    | (s, none) => (s, none)
  | .unassign p =>
    match s.stopWorker p with
    | (s, some p) => (s, some (.unassign p))
    | (s, none) => (s, none)
  | .assign m luid p =>
    match s.stopWorker p with
    | (s, some p) => (s, some (.assign m luid p))
    | (s, none) => (s, some (.reset m luid))
  | .reset m luid =>
    if s.publishing.isSome then (s, some (.reset m luid))
    else ({ s with device := s.device.assign }, some (.construct m luid))
  | .construct m luid =>
    if a.ok then
      ({ s with workers := s.workers ++ [{ monitor := m, luid := luid }] },
        some (.register m s.workers.length))
    else (s, none)
  | .register m i =>
    if s.publishing.isSome then (s, some (.register m i))
    else if s.device.monitor = some m then
      ({ s with device := { s.device with worker := some i } }, s.device.worker.map .discard)
    else (s, some (.discard i))
  | .discard i => if s.joined i then (s, none) else (s, some (.discard i))

/-- What the driver is when worker `i` has looked at the status and at the surfaces. -/
def look (i : ℕ) (w : Worker) (p : Pass) : State :=
  let d := s.device.resize w.luid p.width p.height
  { s with device := d, workers := s.workers.set i (w.look d s.textures p) }

/-- The copy to the texture of slot `j`. -/
def copy (j : Fin 3) (name : SurfaceName) (p : Pass) (c : Capture) : State :=
  { s with
    textures := Function.update s.textures name ((s.textures name).map (·.copy p c))
    publishing := if p.releases then some (j, c) else none }

/-- One pass of a worker's loop, up to `ReleaseSync`. -/
def pass (i : ℕ) (p : Pass) : State :=
  match s.workers[i]? with
  | none => s
  | some w =>
    if w.ended then s
    else s.locked <|
      let w' := w.look (s.device.resize w.luid p.width p.height) s.textures p
      match w'.target s.textures p with
      | none => s.look i w p
      | some (j, name) => (s.look i w p).copy j name p ⟨i, w'.frame, p.captureUs⟩

/-- The texture to which a pass copies. -/
def copies (i : ℕ) (p : Pass) : Option SurfaceName :=
  match s.workers[i]? with
  | none => none
  | some w =>
    if w.ended ∨ s.publishing.isSome then none
    else ((w.look (s.device.resize w.luid p.width p.height) s.textures p).target
      s.textures p).map Prod.snd

/-- `STATUS`, once nobody holds a lock. -/
def status : Option Status :=
  if s.request.isSome ∨ s.publishing.isSome then none else some s.device.status

/-- `SURFACES`, once nobody holds a lock: whether it is valid, and what it leaves. -/
def surfaces (r : Surfaces) : Option (Bool × State) :=
  if s.request.isSome ∨ s.publishing.isSome then none
  else
    match s.device.register r with
    | some d => some (true, { s with device := d })
    | none => some (false, s)

end State

/-- `IoControl`, the callbacks of IddCx and of WDF, and the steps of what is under way. -/
inductive Event where
  | adapterReady (ok : Bool)
  | enterD0 (ok : Bool)
  | exitD0
  | start (abi : UInt32) (modes : List DisplayMode)
  /-- `STOP`, or the handle is closed. -/
  | stop
  | status
  | surfaces (r : Surfaces)
  | advance (a : Answer)
  | cleanup
  | commit (paths : List Path)
  | assign (monitor : ℕ) (luid : Luid)
  | unassign (monitor : ℕ)
  | call (i : ℕ) (a : Answer)
  | pass (i : ℕ) (p : Pass)
  | publish
  /-- A worker returns from `run`. -/
  | ended (i : ℕ)

namespace State

variable (s : State)

/-- A request that takes `requests`, if nobody holds it. -/
def takes (r : Request) : State :=
  if s.request.isSome then s else { s with request := some r }

/-- The checks of `arrive`; the modes are the first `count` ones. -/
def arrives (abi : UInt32) (modes : List DisplayMode) : Bool :=
  s.device.ready && s.device.adapter && abi = 1 && 1 ≤ modes.length && modes.length ≤ 4 &&
    modes.all fitsDevice

def step : Event → State
  | .adapterReady ok => { s with device := { s.device with ready := ok } }
  | .enterD0 ok => if ok then { s with device := { s.device with adapter := true } } else s
  | .exitD0 =>
    if s.request.isSome then s
    else { s with
      device := { s.device with ready := false }, request := some (.depart .take none) }
  | .start abi modes =>
    if s.arrives abi modes then s.takes (.depart .take (modes.head?.map (·.fps))) else s
  | .stop => s.takes (.depart .take none)
  | .status =>
    match s.status with
    | some status => { s with replies := s.replies ++ [status] }
    | none => s
  | .surfaces r => (s.surfaces r).elim s Prod.snd
  | .advance a => s.advance a
  | .cleanup => { s with calls := s.calls ++ [.cleanup .take] }
  | .commit paths => s.locked { s with device := s.device.commit paths }
  | .assign m luid => { s with calls := s.calls ++ [.assign m luid (.take (some m))] }
  | .unassign m => { s with calls := s.calls ++ [.unassign (.take (some m))] }
  | .call i a =>
    match s.calls[i]? with
    | none => s
    | some c =>
      match s.callStep a c with
      | (s, some c) => { s with calls := s.calls.set i c }
      | (s, none) => { s with calls := s.calls.eraseIdx i }
  | .pass i p => s.pass i p
  | .publish =>
    match s.publishing with
    | some (i, c) => { s with device := s.device.publish i c, publishing := none }
    | none => s
  | .ended i => match s.workers[i]? with
    | some w => { s with workers := s.workers.set i { w with ended := true } }
    | none => s

end State

end Driver
end SidecarDOS
