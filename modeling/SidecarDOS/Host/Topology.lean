/-
# The desktop's topology

`topology/mod.rs` and `topology/win.rs` of the host: the place of a display next to another one,
and `reconcile`, which puts the virtual display next to a physical one.  A snapshot is what one
query of the display configuration tells; `reconcile` makes two, `current_bounds` the
second.  What Windows tells of a target's device path, and whether a configuration is valid
and can be applied, are answers.  Coordinates and indices are numbers: a desktop is far
smaller than the range of `i32`, and a query takes fewer than 4096 modes.
-/

import SidecarDOS.Host.Pipeline

namespace SidecarDOS
namespace Host

/-- `Bounds::adjacent`. -/
def Bounds.adjacent (anchor : Bounds) (width height : UInt32) (pos : Position) : Bounds :=
  match pos with
  | .left => ⟨anchor.x - width.toNat, anchor.y, width, height⟩
  | .right => ⟨anchor.x + anchor.width.toNat, anchor.y, width, height⟩
  | .above => ⟨anchor.x, anchor.y - height.toNat, width, height⟩
  | .below => ⟨anchor.x, anchor.y + anchor.height.toNat, width, height⟩

namespace Topology

inductive OutputTechnology where
  | indirectWired
  | other (n : UInt32)
  deriving DecidableEq

/-- The target of a path. -/
structure TargetInfo where
  outputTechnology : OutputTechnology
  adapterId : UInt64
  id : UInt32
  targetAvailable : Bool := true
  modeInfoIdx : ℕ := 0
  refreshRate : UInt32 × UInt32 := (60, 1)
  deriving DecidableEq

structure SourceInfo where
  adapterId : UInt64
  id : UInt32
  modeInfoIdx : ℕ
  deriving DecidableEq

/-- `DISPLAYCONFIG_PATH_INFO`; of its flags only whether it is active. -/
structure PathInfo where
  sourceInfo : SourceInfo
  targetInfo : TargetInfo
  active : Bool := true
  deriving DecidableEq

inductive PixelFormat where
  | bpp32
  | other (n : UInt32)
  deriving DecidableEq

structure SourceMode where
  (width height : UInt32)
  pixelFormat : PixelFormat := .bpp32
  (x y : ℤ)
  deriving DecidableEq

/-- `DISPLAYCONFIG_MODE_INFO`: a source mode, or one of another type. -/
structure ModeInfo where
  adapterId : UInt64
  id : UInt32
  sourceMode : Option SourceMode
  deriving DecidableEq

structure Snapshot where
  paths : List PathInfo
  modes : List ModeInfo
  deriving DecidableEq

/-- What Windows answers: the device path of a target, by adapter and id, and whether
`SetDisplayConfig` validates and applies a configuration. -/
structure Os where
  devicePath : UInt64 → UInt32 → Option (List Char)
  validates : Bool := true
  applies : Bool := true

/-- `PATH_MODE_IDX_INVALID`. -/
def modeIdxInvalid : ℕ := 2 ^ 32 - 1

def sidecar (os : Os) (p : PathInfo) : Bool :=
  p.targetInfo.outputTechnology = .indirectWired &&
    (os.devicePath p.targetInfo.adapterId p.targetInfo.id).any fun path =>
      (path.map Char.toLower).tails.any fun tail =>
        ['s', 'd', 'c', '0', '0', '0', '1'].isPrefixOf tail

def sourceIndex (p : PathInfo) (m : List ModeInfo) : Option ℕ :=
  let idx := p.sourceInfo.modeInfoIdx
  (m[idx]?.filter fun v => v.sourceMode.isSome && v.id = p.sourceInfo.id &&
    v.adapterId = p.sourceInfo.adapterId).map fun _ => idx

def SourceMode.bounds (s : SourceMode) : Bounds := ⟨s.x, s.y, s.width, s.height⟩

def bounds (p : PathInfo) (m : List ModeInfo) : Option Bounds := do
  let v ← m[← sourceIndex p m]?
  v.sourceMode.map SourceMode.bounds

variable (os : Os) (s : Snapshot)

/-- `current_bounds`, for what the query finds. -/
def currentBounds : Except Error Bounds :=
  match (s.paths.find? fun p => p.active && sidecar os p).bind (bounds · s.modes) with
  | some b => .ok b
  | none => .error (.ensure "SidecarDOS display is not active")

/-! ### `reconcile` -/

def candidate : Option PathInfo :=
  (s.paths.find? fun p => sidecar os p && p.active).or
    (s.paths.find? fun p => sidecar os p && p.targetInfo.targetAvailable)

def active : List PathInfo := s.paths.filter (·.active)

def virtualIndex : Option ℕ := (active s).findIdx? (sidecar os)

def physical : List Bounds :=
  ((active s).filter fun p => !sidecar os p).filterMap (bounds · s.modes)

def anchor : Option Bounds :=
  ((physical os s).find? fun b => b.x = 0 && b.y = 0).or (physical os s).head?

/-- Width, height and frame rate. -/
def size (candidate : PathInfo) (requested : Option (UInt32 × UInt32 × UInt32)) :
    UInt32 × UInt32 × UInt32 :=
  requested.getD (((bounds candidate s.modes).map fun b => (b.width, b.height, 60)).getD
    (1920, 1080, 60))

/-- The active paths with the virtual one, and its index. -/
def activated (candidate : PathInfo) : List PathInfo × ℕ :=
  match virtualIndex os s with
  | some i => (active s, i)
  | none => (active s ++ [{ candidate with active := true }], (active s).length)

/-- The source mode of a path: what it has, or a new one with the given values. -/
def sourced (p : PathInfo) (modes : List ModeInfo) (mode : SourceMode) :
    PathInfo × List ModeInfo × ℕ :=
  match sourceIndex p modes with
  | some j => (p, modes, j)
  | none =>
    ({ p with sourceInfo := { p.sourceInfo with modeInfoIdx := modes.length } },
      modes ++ [⟨p.sourceInfo.adapterId, p.sourceInfo.id, some mode⟩], modes.length)

/-- The target mode is chosen anew. -/
def retarget (p : PathInfo) (fps : UInt32) : PathInfo :=
  { p with targetInfo := { p.targetInfo with modeInfoIdx := modeIdxInvalid, refreshRate := (fps, 1) } }

def ModeInfo.write (mode : SourceMode) (m : ModeInfo) : ModeInfo := { m with sourceMode := some mode }

/-- Every source moves. -/
def ModeInfo.move (x y : ℤ) (m : ModeInfo) : ModeInfo :=
  { m with sourceMode := m.sourceMode.map fun s => { s with x := s.x - x, y := s.y - y } }

/-- What a run of `reconcile` comes to: it fails, it finds the display in its place, or it has
submitted a configuration. -/
inductive Outcome where
  | failed (e : Error)
  | matched (b : Bounds)
  | applied (submitted : Snapshot) (b : Bounds)
  deriving DecidableEq

/-- The value that is returned. -/
def Outcome.value : Outcome → Except Error (Bounds × Bool)
  | failed e => .error e
  | matched b => .ok (b, true)
  | applied _ b => .ok (b, false)

/-- The configuration for a place of the virtual display. -/
def configure (candidate : PathInfo) (fps : UInt32) (desired : Bounds) (primary : Bool)
    (requested : Option (UInt32 × UInt32 × UInt32)) : Snapshot :=
  let (paths, i) := activated os s candidate
  let mode : SourceMode := ⟨desired.width, desired.height, .bpp32, desired.x, desired.y⟩
  let (p, modes, source) := sourced (paths.getD i candidate) s.modes mode
  let old := (modes[source]?).bind ModeInfo.sourceMode
  let p := if old.any (fun old => old.width ≠ desired.width ∨ old.height ≠ desired.height) ∨
    (virtualIndex os s).isNone ∨ requested.isSome then retarget p fps else p
  let modes := modes.modify source (ModeInfo.write mode)
  ⟨paths.set i p, if primary then modes.map (ModeInfo.move desired.x desired.y) else modes⟩

/-- `SetDisplayConfig` validates the configuration, and applies it. -/
def submit (config : Snapshot) (target : Bounds) : Outcome :=
  if ¬ os.validates then .failed (.ensure "topology validation failed")
  else if ¬ os.applies then .failed (.ensure "topology apply failed")
  else .applied config target

/-- `now` is what the query of `current_bounds` finds. -/
def reconcile (now : Snapshot) (position : Position) (primary : Bool)
    (requested : Option (UInt32 × UInt32 × UInt32)) : Outcome :=
  match candidate os s with
  | none => .failed (.ensure "virtual monitor not yet enumerated by Windows")
  | some candidate =>
    match anchor os s with
    | none => .failed (.ensure "no physical display anchor")
    | some anchor =>
      let (width, height, fps) := size s candidate requested
      let desired := anchor.adjacent width height position
      let (paths, i) := activated os s candidate
      let placed := bounds (paths.getD i candidate) s.modes
      if (virtualIndex os s).isSome ∧ placed = some desired ∧ ¬ primary ∧ requested.isNone then
        .matched desired
      else
        let target := if primary then { desired with x := 0, y := 0 } else desired
        if (virtualIndex os s).isSome ∧ currentBounds os now = .ok target ∧ requested.isNone then
          .matched target
        else submit os (configure os s candidate fps desired primary requested) target

end Topology
end Host
end SidecarDOS
