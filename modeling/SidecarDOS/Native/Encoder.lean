/-
# The hardware encoder

`Encoder` of `windows/host/native/gpu.cpp`: `pump`, `input` and `sd_gpu_poll`.  What Media
Foundation, Direct3D and DXGI answer during one call is an `Answers`, so the transform
may do as it likes: send any events, refuse a sample, put out samples that it has never
been given.  A call that throws keeps its state.  `log` is not a member of the program:
it tells what has been done with the platform, the latest first.
-/

import SidecarDOS.Driver.Device
import SidecarDOS.Library.Runs
import Mathlib.Algebra.Ring.Nat

namespace SidecarDOS
namespace Native

open Library (exec demand Within)
open Driver (Key)

/-- `LONGLONG`: the key of `pending` and the time of a sample, in units of 100 ns. -/
abbrev Time : Type := Int64

/-- `static_cast<LONGLONG>(capture * 10)`. -/
def time (capture : UInt64) : Time := (capture * 10).toInt64

inductive HResult where
  /-- That of a call that fails. -/
  | call
  | invalidArg
  | unexpected
  | fail
  | insufficientBuffer
  deriving DecidableEq

/-- What one turn of the loop of `pump` fetches. -/
inductive Fetched where
  /-- `MF_E_NO_EVENTS_AVAILABLE`. -/
  | nothing
  /-- `GetEvent`, `GetStatus` or `GetType` fails, or the event's status is a failure. -/
  | failed
  | needInput
  | haveOutput
  | error
  | other
  deriving DecidableEq

/-- A sample that the transform puts out. -/
structure Output where
  /-- `GetSampleTime`, if it succeeds. -/
  time : Option Time
  /-- `MFSampleExtension_CleanPoint`, 0 without one. -/
  clean : UInt32 := 0
  /-- `ConvertToContiguousBuffer` and `Lock`, if they succeed. -/
  data : Option Bytes
  unlocks : Bool := true

/-- What `ProcessOutput` answers. -/
inductive Processed where
  /-- `MF_E_TRANSFORM_STREAM_CHANGE`, and whether the new type can be set. -/
  | streamChange (typed : Bool)
  | failed
  /-- Success without a sample. -/
  | empty
  | sample (o : Output)

/-- What is answered during one call. -/
structure Answers where
  events : ℕ → Fetched := fun _ => .nothing
  /-- `AcquireSync` fails otherwise than by its timeout. -/
  abandoned : Bool := false
  /-- The calls from `CreateTexture2D` to `VideoProcessorBlt`. -/
  converts : Bool := true
  /-- `ReleaseSync(0)`. -/
  releases : Bool := true
  /-- `ReleaseSync(0)` in the destructor of the lease. -/
  drops : Bool := true
  /-- The calls from `MFCreateDXGISurfaceBuffer` to `SetSampleDuration`. -/
  wraps : Bool := true
  /-- `ProcessInput`. -/
  accepts : Bool := true
  /-- `GetOutputStreamInfo`, and what allocates a sample. -/
  allocates : Bool := true
  processed : Processed := .failed

/-- What has been done with the platform. -/
inductive Step where
  | needInput
  | haveOutput
  | acquired (slot : ℕ)
  /-- The pixels of the slot's texture have been read. -/
  | converted (slot : ℕ)
  | released (slot : ℕ)
  /-- `ProcessInput` has taken a sample. -/
  | accepted (time : Time) (frame capture : UInt64)
  /-- `ProcessOutput` has been called. -/
  | processed
  /-- An entry of `pending` has gone to `out`. -/
  | settled (time : Time) (frame capture : UInt64)
  deriving DecidableEq

structure Encoder where
  pending : List (Time × UInt64 × UInt64) := []
  credits : ℕ := 0
  outputs : ℕ := 0
  /-- The keys that the mutexes have been released with; one that is held has none. -/
  mutexes : ℕ → Option Key := fun _ => some .zero
  /-- `owned` of the lease of the call that is running. -/
  owned : Bool := false
  log : List Step := []

/-- What `sd_gpu_poll` returns beside its status. -/
structure NativeOutput where
  (frame captureUs : UInt64)
  keyframe : UInt32
  data : Bytes

/-- An entry point of the bridge: `S_OK` and `S_FALSE` are results. -/
abbrev Call (α : Type) : Type := ExceptT HResult (StateM Encoder) α

namespace Encoder

def check (ok : Bool) : Call Unit := demand (ok = true) .call

/-- `pump`: at most `n` more events, from the `i`-th on. -/
def pump (a : Answers) : ℕ → ℕ → Call Unit
  | 0, _ => pure ()
  | n + 1, i =>
    match a.events i with
    | .nothing => pure ()
    | .failed => throw .call
    | .needInput => do
      modify fun e => { e with credits := min (e.credits + 1) 3, log := .needInput :: e.log }
      pump a n (i + 1)
    | .haveOutput => do
      modify fun e => { e with outputs := min (e.outputs + 1) 4, log := .haveOutput :: e.log }
      pump a n (i + 1)
    | .error => throw .fail
    | .other => pump a n (i + 1)

/-- `AcquireSync(1, 0)`; `false` is its timeout. -/
def acquire (a : Answers) (slot : ℕ) : Call Bool := do
  demand (a.abandoned = false) .fail
  let e ← get
  if e.mutexes slot = some .one then
    modify fun e => { e with
      mutexes := Function.update e.mutexes slot none
      owned := true
      log := .acquired slot :: e.log }
    pure true
  else pure false

/-- The mutex of the slot is released with key 0. -/
def freed (e : Encoder) (slot : ℕ) : Encoder :=
  { e with
    mutexes := Function.update e.mutexes slot (some .zero)
    owned := false
    log := .released slot :: e.log }

/-- The destructor of `MutexLease`. -/
def drop (a : Answers) (slot : ℕ) (e : Encoder) : Encoder :=
  if e.owned then if a.drops then e.freed slot else { e with owned := false } else e

/-- A body with a lease; the lease ends however the body does. -/
def leased {α : Type} (a : Answers) (slot : ℕ) (m : Call α) : Call α := ExceptT.mk do
  let r ← m.run
  modify (drop a slot)
  pure r

/-- `pending.emplace`, which leaves an entry with the same key as it is. -/
def emplace (pending : List (Time × UInt64 × UInt64)) (time : Time) (frame capture : UInt64) :
    List (Time × UInt64 × UInt64) :=
  if (pending.lookup time).isSome then pending else (time, frame, capture) :: pending

/-- `pending.erase`. -/
def erase (pending : List (Time × UInt64 × UInt64)) (time : Time) :
    List (Time × UInt64 × UInt64) :=
  pending.filter (·.1 ≠ time)

/-- `input` from the conversion on. -/
def submit (a : Answers) (slot : ℕ) (frame capture : UInt64) : Call Unit := do
  check a.converts
  modify fun e => { e with log := .converted slot :: e.log }
  check a.releases
  modify fun e => e.freed slot
  check a.wraps
  check a.accepts
  modify fun e => { e with
    credits := e.credits - 1
    pending := emplace e.pending (time capture) frame capture
    log := .accepted (time capture) frame capture :: e.log }

def input (a : Answers) (slot : ℕ) (frame capture : UInt64) : Call Bool :=
  if slot ≥ 3 then throw .invalidArg
  else leased a slot do
    let acquired ← acquire a slot
    if ¬ acquired then pure false
    else
      pump a 32 0
      let e ← get
      if ¬ (frame = 0 ∨ e.credits = 0 ∨ e.pending.length ≥ 3) then submit a slot frame capture
      pure true

/-- `sd_gpu_poll` behind the check that there is a sample. -/
def take (o : Output) (capacity : ℕ) : Call NativeOutput :=
  match o.time with
  | none => throw .call
  | some time => do
    let e ← get
    match e.pending.lookup time with
    | none => throw .unexpected
    | some (frame, capture) =>
      modify fun e => { e with
        pending := erase e.pending time, log := .settled time frame capture :: e.log }
      match o.data with
      | none => throw .call
      | some data =>
        demand (data.length ≤ capacity) .insufficientBuffer
        check o.unlocks
        pure ⟨frame, capture, o.clean, data⟩

/-- `sd_gpu_poll`; `none` is `S_FALSE`. -/
def poll (a : Answers) (capacity : ℕ) : Call (Option NativeOutput) := do
  pump a 32 0
  let e ← get
  if e.outputs = 0 then pure none
  else
    check a.allocates
    modify fun e => { e with outputs := e.outputs - 1, log := .processed :: e.log }
    match a.processed with
    | .streamChange typed => do
      check typed
      pure none
    | .failed => throw .call
    | .empty => throw .unexpected
    | .sample o => some <$> take o capacity

/-! ### What a call relates -/

section Within

variable {R : Encoder → Encoder → Prop} [Std.Refl R] [IsTrans Encoder R] {a : Answers}

/-- A relation that the two events keep is kept by `pump`. -/
theorem pump_within (hneed : ∀ e, R e { e with
      credits := min (e.credits + 1) 3, log := .needInput :: e.log })
    (hhave : ∀ e, R e { e with outputs := min (e.outputs + 1) 4, log := .haveOutput :: e.log })
    (n i : ℕ) {e : Encoder} : Within R (fun _ => True) (pump a n i) e := by
  induction n generalizing e i with
  | zero => exact .pure _
  | succ n ih =>
    unfold pump
    cases a.events i with
    | nothing => exact .pure _
    | failed => exact .throw trivial
    | error => exact .throw trivial
    | other => exact ih _
    | needInput => exact .modify_bind (hneed e) (ih _)
    | haveOutput => exact .modify_bind (hhave e) (ih _)

/-- A relation that is kept by what takes an output and by what settles an entry is kept
by `poll`. -/
theorem poll_within (hpump : ∀ e, Within R (fun _ => True) (pump a 32 0) e)
    (hprocess : ∀ e : Encoder, e.outputs ≠ 0 →
      R e { e with outputs := e.outputs - 1, log := .processed :: e.log })
    (hsettle : ∀ (e : Encoder) t frame capture, e.pending.lookup t = some (frame, capture) →
      R e { e with pending := erase e.pending t, log := .settled t frame capture :: e.log })
    (capacity : ℕ) {e : Encoder} : Within R (fun _ => True) (poll a capacity) e := by
  have htake (o : Output) {e : Encoder} : Within R (fun _ => True) (take o capacity) e := by
    unfold take
    cases o.time with
    | none => exact .throw trivial
    | some t =>
      refine .get_bind ?_
      split
      · exact .throw trivial
      · rename_i frame capture hlookup
        refine .modify_bind (hsettle e t frame capture hlookup) ?_
        cases o.data with
        | none => exact .throw trivial
        | some data =>
          exact .demand_bind trivial fun _ => .demand_bind trivial fun _ => .pure _
  refine (hpump e).bind fun _ e _ => .get_bind (.ite (fun _ => .pure _) fun hsome => ?_)
  refine .demand_bind trivial fun _ => .modify_bind (hprocess e hsome) ?_
  cases a.processed with
  | streamChange typed => exact .demand_bind trivial fun _ => .pure _
  | failed => exact .throw trivial
  | empty => exact .throw trivial
  | sample o => exact (htake o).bind fun _ _ _ => .pure _

end Within

/-! ### Runs -/

/-- A call of the bridge, or what the driver does with a mutex between two calls. -/
inductive Event where
  | input (a : Answers) (slot : ℕ) (frame capture : UInt64)
  | poll (a : Answers) (capacity : ℕ)
  | mutex (slot : ℕ) (key : Option Key)

def step (e : Encoder) : Event → Encoder
  | .input a slot frame capture => (exec (input a slot frame capture) e).2
  | .poll a capacity => (exec (poll a capacity) e).2
  | .mutex slot key => { e with mutexes := Function.update e.mutexes slot key }

/-- An encoder as `sd_gpu_create` makes it. -/
def Initial (e : Encoder) : Prop := e = {}

end Encoder

end Native
end SidecarDOS
