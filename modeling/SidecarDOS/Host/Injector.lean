/-
# The injector

`Injector` of `windows/host/src/input/win.rs` with `scan_code` of `input/mod.rs` and
`Bounds::map` of `topology/mod.rs`.  Every call of `SendInput` and of
`InjectSyntheticPointerInput` is an `Injection` that succeeds or fails; one that fails
changes nothing, and what the others have pressed and not released is kept in
`Windows`, which the program does not see.  A `BTreeMap` and a `BTreeSet` are lists
without their order.
-/

import SidecarDOS.Host.Pipeline

namespace SidecarDOS

namespace Host

open Library (exec demand)

/-- USB HID keyboard page 0x07 -> Windows scan code set 1. High bit encodes E0. -/
def scanCode (hid : UInt16) : Option UInt16 :=
  if 4 ≤ hid ∧ hid ≤ 29 then
    [0x1e, 0x30, 0x2e, 0x20, 0x12, 0x21, 0x22, 0x23, 0x17, 0x24, 0x25, 0x26, 0x32, 0x31, 0x18,
      0x19, 0x10, 0x13, 0x1f, 0x14, 0x16, 0x2f, 0x11, 0x2d, 0x15, 0x2c][(hid - 4).toNat]?
  else if 30 ≤ hid ∧ hid ≤ 38 then some (hid - 28)
  else if 58 ≤ hid ∧ hid ≤ 67 then some (hid + 1)
  else if 89 ≤ hid ∧ hid ≤ 97 then
    [0x4f, 0x50, 0x51, 0x4b, 0x4c, 0x4d, 0x47, 0x48, 0x49][(hid - 89).toNat]?
  else List.lookup hid
    [(39, 0x0b), (40, 0x1c), (41, 0x01), (42, 0x0e), (43, 0x0f), (44, 0x39), (45, 0x0c),
      (46, 0x0d), (47, 0x1a), (48, 0x1b), (49, 0x2b), (51, 0x27), (52, 0x28), (53, 0x29),
      (54, 0x33), (55, 0x34), (56, 0x35), (57, 0x3a), (68, 0x57), (69, 0x58), (73, 0x152),
      (74, 0x147), (75, 0x149), (76, 0x153), (77, 0x14f), (78, 0x151), (79, 0x14d), (80, 0x14b),
      (81, 0x150), (82, 0x148), (83, 0x45), (84, 0x135), (85, 0x37), (86, 0x4a), (87, 0x4e),
      (88, 0x11c), (98, 0x52), (99, 0x53), (224, 0x1d), (225, 0x2a), (226, 0x38), (227, 0x15b),
      (228, 0x11d), (229, 0x36), (230, 0x138), (231, 0x15c)]

example : [4, 79, 228, 65535].map scanCode = [some 0x1e, some 0x14d, some 0x11d, none] := by
  decide

/-! ### The injector and Windows -/

/-- What is injected; a key is told by its scan code, with the bit of an extended one. -/
inductive Injection where
  | key (code : UInt16) (up : Bool)
  | move
  | button (mask : UInt32) (down : Bool)
  | wheel
  | hwheel
  | touches
  deriving DecidableEq

/-- What Windows holds down because of the injector. -/
structure Windows where
  keys : UInt16 → Bool := fun _ => false
  buttons : UInt32 → Bool := fun _ => false

def Windows.after (w : Windows) : Injection → Windows
  | .key code up => { w with keys := Function.update w.keys code (! up) }
  | .button mask down => { w with buttons := Function.update w.buttons mask down }
  | _ => w

/-- `POINTER_FLAGS` of a contact. -/
inductive PointerFlags where
  | down | update | up | canceled
  deriving DecidableEq

structure Touch where
  location : ℤ × ℤ
  flags : PointerFlags
  deriving DecidableEq

structure Injector where
  touches : List (UInt16 × Touch) := []
  keys : List UInt16 := []
  buttons : UInt32 := 0
  bounds : Bounds
  /-- Not a field of the program. -/
  windows : Windows := {}
  /-- The contacts that Windows was told of last; not a field of the program either. -/
  batch : Option (List (UInt16 × Touch)) := none

/-- What is answered during one call. -/
structure Outcome where
  /-- The injection succeeds. -/
  ok : Injection → Bool := fun _ => true
  /-- The pixel of a coordinate, in the arithmetic of `f32`. -/
  pixel : Bounds → F32 → F32 → ℤ × ℤ := fun b _ _ => (b.x, b.y)

def Bounds.map (b : Bounds) (a : Outcome) (x y : F32) : Except Error (ℤ × ℤ) :=
  if x.isUnit ∧ y.isUnit ∧ b.width > 0 ∧ b.height > 0 then .ok (a.pixel b x y)
  else .error (.ensure "invalid input coordinate or display bounds")

abbrev Inject (α : Type) : Type := ExceptT Error (StateM Injector) α

namespace Injector

def check (cond : Prop) [Decidable cond] (text : String) : Inject Unit :=
  demand cond (.ensure text)

/-- A computation that keeps no state. -/
def lift {α : Type} : Except Error α → Inject α
  | .ok a => pure a
  | .error e => throw e

def send (a : Outcome) (i : Injection) : Inject Unit := do
  check (a.ok i = true)
    "input injection failed (check interactive session and target integrity level)"
  modify fun s => { s with windows := s.windows.after i }

/-! ### Touch -/

/-- `inject_touches`. -/
def injectTouches (a : Outcome) : Inject Unit := do
  let s ← get
  if s.touches ≠ [] then
    demand (a.ok .touches = true) .platform
    modify fun s => { s with batch := some s.touches }

/-- The contact of an id, if there is one. -/
def contact (s : Injector) (id : UInt16) : Option Touch := s.touches.lookup id

/-- `touches.remove`. -/
def remove (touches : List (UInt16 × Touch)) (id : UInt16) : List (UInt16 × Touch) :=
  touches.filter (·.1 ≠ id)

def touch (a : Outcome) (e : InputEvent) : Inject Unit := do
  check (e.contactId < 10) "too many touch contacts"
  let s ← get
  let location ← lift (s.bounds.map a e.x e.y)
  let location := match s.contact e.contactId with
    | some previous => if e.phase ≥ 2 then previous.location else location
    | none => location
  if e.phase = 0 then
    check ((s.contact e.contactId).isNone = true) "duplicate touch down"
  else
    check ((s.contact e.contactId).isSome = true) "touch update without down"
  let flags : PointerFlags :=
    if e.phase = 0 then .down else if e.phase = 1 then .update
    else if e.phase = 2 then .up else .canceled
  modify fun s => { s with
    touches := (e.contactId, ⟨location, flags⟩) :: remove s.touches e.contactId }
  injectTouches a
  modify fun s => { s with
    touches := (if e.phase ≥ 2 then remove s.touches e.contactId else s.touches).map
      fun t => (t.1, { t.2 with flags := .update }) }

/-! ### Mouse -/

/-- The masks of the left, the right and the middle button. -/
def masks : List UInt32 := [1, 2, 4]

def button (a : Outcome) (e : InputEvent) (mask : UInt32) : Inject Unit := do
  let s ← get
  if (e.buttons ^^^ s.buttons) &&& mask ≠ 0 then send a (.button mask (e.buttons &&& mask ≠ 0))

/-- The buttons and the wheel, behind the move. -/
def click (a : Outcome) (e : InputEvent) : Inject Unit := do
  masks.forM (button a e)
  modify fun s => { s with buttons := e.buttons }
  if e.kind = 1 then
    if e.dy.magnitude ≠ 0 then send a .wheel
    if e.dx.magnitude ≠ 0 then send a .hwheel

def mouse (a : Outcome) (e : InputEvent) : Inject Unit := do
  check (e.dx.isDelta ∧ e.dy.isDelta) "invalid mouse delta"
  let s ← get
  if s.touches = [] then
    if e.kind = 1 then
      let _ ← lift (s.bounds.map a e.x e.y)
    send a .move
    click a e

/-! ### Keyboard -/

structure Modifier where
  mask : UInt16
  (left right : UInt16)
  deriving DecidableEq

/-- Control, shift, alt and the Windows key. -/
def modifiers : List Modifier :=
  [⟨1, 0x1d, 0x11d⟩, ⟨2, 0x2a, 0x36⟩, ⟨4, 0x38, 0x138⟩, ⟨8, 0x15b, 0x15c⟩]

/-- `if self.keys.remove(&code) { Self::key(code, true)?; }`. -/
def releaseKey (a : Outcome) (code : UInt16) : Inject Unit := do
  let s ← get
  if code ∈ s.keys then
    modify fun s => { s with keys := s.keys.filter (· ≠ code) }
    send a (.key code true)

def modifier (a : Outcome) (e : InputEvent) (scan : UInt16) (m : Modifier) : Inject Unit :=
  if scan = m.left ∨ scan = m.right then pure ()
  else if e.modifiers &&& m.mask ≠ 0 then do
    let s ← get
    if m.left ∉ s.keys ∧ m.right ∉ s.keys then
      send a (.key m.left false)
      modify fun s => { s with keys := s.keys.insert m.left }
  else [m.left, m.right].forM (releaseKey a)

def keyboard (a : Outcome) (e : InputEvent) : Inject Unit :=
  match scanCode e.physicalKey with
  | none => pure ()
  | some scan => do
    modifiers.forM (modifier a e scan)
    let up : Bool := e.phase ≥ 2
    let s ← get
    if ¬ (up = true ∧ scan ∉ s.keys) then
      send a (.key scan up)
      modify fun s => { s with
        keys := if up then s.keys.filter (· ≠ scan) else s.keys.insert scan }

/-! ### Events -/

def event (a : Outcome) (e : InputEvent) : Inject Unit := do
  check (e.phase ≤ 3 ∧ e.buttons ≤ 7 ∧ e.isRepeat ≤ 1) "invalid input flags"
  if e.kind = 0 then touch a e
  else if e.kind = 1 ∨ e.kind = 2 then mouse a e
  else if e.kind = 3 then keyboard a e
  else throw (.ensure "unsupported input kind")

/-- `let _ = …`. -/
def attempt (a : Outcome) (s : Injector) (i : Injection) : Injector := (exec (send a i) s).2

/-- The first loop of `release_all`: every contact ends. -/
def cancel (s : Injector) : Injector :=
  { s with touches := s.touches.map fun t => (t.1, { t.2 with flags := .canceled }) }

def releaseAll (a : Outcome) (s : Injector) : Injector :=
  let s := { (exec (injectTouches a) s.cancel).2 with touches := [] }
  let s := { s.keys.foldl (fun s key => attempt a s (.key key true)) s with keys := [] }
  { masks.foldl (fun s mask =>
      if s.buttons &&& mask ≠ 0 then attempt a s (.button mask false) else s) s with buttons := 0 }

end Injector

end Host
end SidecarDOS
