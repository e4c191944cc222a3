/-
# The host and the driver

`Display` is the pipeline thread beside the driver.  A turn of the thread takes several
steps (`Host.Op.operation_eq`), and whatever the driver does may happen between them: up to
`d.status()`, the answer to it, the body up to the loop over the slots, which registers
surfaces where it opens an encoder, and one call of `encode` for each slot.
`Encoder::input` of `windows/host/native/gpu.cpp` takes the key 1 of the slot's texture and
releases it with 0, and a `Visit` records what it met there.
-/

import SidecarDOS.Driver.Device
import SidecarDOS.Host.Passes

namespace SidecarDOS
namespace Driver

open Library (exec)
open SidecarDOS.Host (Pipeline Turn Command Op)

/-- What a slot tells of a capture. -/
def slotOf : Option Capture → Host.Slot
  | some c => ⟨c.frame, c.captureUs⟩
  | none => ⟨0, 0⟩

/-- The answer to `STATUS` as the host reads it. -/
def Status.host (s : Status) : Host.Status :=
  ⟨.ofNat s.generation, s.width, s.height, s.fps, fun i => slotOf (s.slots i)⟩

/-! ### `Encoder::input` -/

/-- What one call of `input` meets: whether `AcquireSync` fails otherwise than by its timeout,
`pump` succeeds, there are credits and fewer than three frames pending, the conversion
up to `ReleaseSync(0)` succeeds, and what follows it does. -/
structure Gpu where
  abandoned : Bool := false
  pumps : Bool := true
  room : Bool := true
  converts : Bool := true
  submits : Bool := true

inductive Outcome where
  /-- `S_FALSE`. -/
  | later
  | failed
  /-- `S_OK` without a sample for the transform. -/
  | discarded
  | submitted
  deriving DecidableEq

/-- `MfEncoder::encode`. -/
def Outcome.encoded : Outcome → Option Bool
  | later => some false
  | failed => none
  | discarded | submitted => some true

/-- `Encoder::input` for a texture and its metadata, and the texture behind it. -/
def Gpu.input (g : Gpu) (texture : Option Texture) (metadata : Host.Slot) :
    Outcome × Option Texture :=
  if g.abandoned then (.failed, texture)
  else if texture.any fun t => t.key = some .one then
    (if ¬ g.pumps then .failed
      else if metadata.frame = 0 ∨ ¬ g.room then .discarded
      else if g.converts ∧ g.submits then .submitted
      else .failed,
      texture.map fun t => { t with key := some .zero })
  else (.later, texture)

/-! ### The thread beside the driver -/

/-- Where a turn stands. -/
inductive Phase where
  | idle
  /-- Before `d.status()`. -/
  | asks
  | read (status : Status)
  /-- In the loop over the slots. -/
  | slots (status : Status) (newest : Option (Fin 3)) (rest : List (Fin 3))

/-- A call of `encode` that took a slot: what the answer to `STATUS` told of it, the metadata
that were handed over, whether they went to the transform with the pixels, the frame that
is seen since, and the content of the texture. -/
structure Visit where
  announced : Option Capture
  metadata : Host.Slot
  submitted : Bool
  seen : UInt64
  content : Option Capture

structure Display where
  driver : State := {}
  host : Pipeline
  phase : Phase := .idle
  /-- The bytes in the names of the encoder's textures. -/
  key : Id16 := Id16.zero
  visits : List Visit := []

inductive Move where
  | driver (e : Event)
  /-- A request for a keyframe, a bitrate, a display change or the receipt of an event. -/
  | keyframe
  | bitrate (rate : UInt32)
  | displayChanged
  | event
  /-- A turn begins. -/
  | turn (t : Turn) (cmd : Option Command)
  /-- The call of `d.status()`, and whether it succeeds. -/
  | ask (ok : Bool)
  /-- The answers of a turn and the random bytes of an encoder that is opened. -/
  | prepare (t : Turn) (key : Id16)
  | visit (g : Gpu)

/-- Three textures are created. -/
def State.create (s : State) (key : Id16) (width height : UInt32) : State :=
  { s with textures := fun name => match name with
      | .surface key' i => if key' = key then some { width := width, height := height }
        else s.textures (.surface key' i)
      | .other n named => s.textures (.other n named) }

namespace Display

variable (s : Display)

/-- The turn fails. -/
def failed (host : Pipeline) (e : Host.Error) : Display :=
  { s with host := host.failed e, phase := .idle }

def approach (t : Turn) (cmd : Option Command) : Display :=
  match exec (Op.approach t cmd) s.host with
  | (.ok (some true), host) => { s with host := host }
  | (.ok (some false), host) => { s with host := host.shutdown }
  | (.ok none, host) => { s with host := host, phase := .asks }
  | (.error e, host) => s.failed host e

/-- `prepare` opens an encoder and goes on to `d.surfaces(..)`. -/
def registers (t : Turn) (status : Host.Status) : Bool :=
  status.width ≠ 0 && s.host.input.isSome &&
    (s.host.encoder.isNone || s.host.generation ≠ status.generation) && t.encoder

def prepared (t : Turn) (status : Status) : Display :=
  match exec (Op.prepare t status.host) s.host with
  | (.ok none, host) => { s with host := host, phase := .idle }
  | (.ok (some newest), host) =>
    { s with host := host, phase := .slots status newest (List.finRange 3) }
  | (.error e, host) => s.failed host e

/-- A registration waits for the driver's locks. -/
def prepare (t : Turn) (key : Id16) (status : Status) : Display :=
  if s.registers t status.host then
    match (s.driver.create key status.width status.height).surfaces
        ⟨1, status.host.generation.toNat, .surface key⟩ with
    | none => s
    | some (ok, driver) =>
      { s with driver := driver, key := key }.prepared { t with surfaces := t.surfaces && ok }
        status
  else s.prepared t status

/-- The texture of the encoder for slot `i`. -/
def texture (i : Fin 3) : Option Texture := s.driver.textures (.surface s.key i)

/-- One turn of the loop over the slots. -/
def visit (g : Gpu) (status : Status) (newest : Option (Fin 3)) (i : Fin 3)
    (rest : List (Fin 3)) : Display :=
  let slot := status.host.slots i
  let metadata := if some i ≠ newest then { slot with frame := 0 } else slot
  let taken := g.input (s.texture i) metadata
  let t : Turn := { encodes := fun _ metadata => (g.input (s.texture i) metadata).1.encoded }
  match exec (Op.submit t status.host.slots newest i) s.host with
  | (.error e, host) =>
    { s with driver := { s.driver with
        textures := Function.update s.driver.textures (.surface s.key i) taken.2 } }.failed host e
  | (.ok (), host) =>
    if slot.frame > s.host.seen i then
      { s with
        host := host
        driver := { s.driver with
          textures := Function.update s.driver.textures (.surface s.key i) taken.2 }
        phase := .slots status newest rest
        visits := if taken.1.encoded = some true then
            s.visits ++ [⟨status.slots i, metadata, taken.1 = .submitted, host.seen i,
              (s.texture i).bind Texture.content⟩]
          else s.visits }
    else { s with host := host, phase := .slots status newest rest }

def step : Move → Display
  | .driver e => { s with driver := s.driver.step e }
  | .keyframe => { s with host := s.host.step .keyframe }
  | .bitrate rate => { s with host := s.host.step (.bitrate rate) }
  | .displayChanged => { s with host := s.host.step .displayChanged }
  | .event => { s with host := s.host.step .event }
  | .turn t cmd =>
    match s.phase with
    | .idle => if s.host.stopped then s else s.approach t cmd
    | _ => s
  | .ask ok =>
    match s.phase with
    | .asks =>
      if ok then
        match s.driver.status with
        | none => s
        | some status => { s with driver := s.driver.step .status, phase := .read status }
      else s.failed s.host Host.Error.platform
    | _ => s
  | .prepare t key =>
    match s.phase with
    | .read status => s.prepare t key status
    | _ => s
  | .visit g =>
    match s.phase with
    | .slots status newest (i :: rest) => s.visit g status newest i rest
    | .slots _ _ [] => { s with phase := .idle }
    | _ => s

end Display

end Driver
end SidecarDOS
