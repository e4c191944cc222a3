/-
# The view

`InputView` of `ipad/SidecarDOS/Input/DisplaySurface.swift` with its pointer, its keyboard and
`releaseAll`, around the touches of `Ipad.InputView`.  A `Set` and a `Dictionary` are walked in
an order that is not told, which a callback brings along.
-/

import SidecarDOS.Client.InputView

namespace SidecarDOS
namespace Ipad

/-- `UIKey`. -/
structure UIKey where
  /-- `UInt16(key.keyCode.rawValue)`. -/
  code : UInt16
  (control shift alternate command : Bool := false)
  /-- `charactersIgnoringModifiers.unicodeScalars.first`. -/
  first : Option UInt32 := none

def UIKey.modifiers (key : UIKey) : UInt16 :=
  (if key.control then 1 else 0) ||| (if key.shift then 2 else 0) |||
    (if key.alternate then 4 else 0) ||| if key.command then 8 else 0

structure DisplaySurface where
  view : InputView := {}
  keys : List UInt16 := []

namespace DisplaySurface

variable (s : DisplaySurface)

/-- A point that the view has `normalized`. -/
abbrev Point : Type := F32 × F32

def touches (phase : UInt8) (mask : UInt32) (ts : List UITouch) :
    DisplaySurface × List InputEvent :=
  ({ s with view := (s.view.touches phase mask ts).1 }, (s.view.touches phase mask ts).2)

/-- `hover`; `none` is a location outside of the video. -/
def hover (location : Option Point) : DisplaySurface × List InputEvent :=
  match location with
  | some p =>
    if s.view.contacts = [] then
      ({ s with view := { s.view with lastMouse := p } }, [s.view.event 1 1 0 p])
    else (s, [])
  | none => (s, [])

/-- `scroll`; `dx` and `dy` are those of the event. -/
def scroll (dx dy : F32) : DisplaySurface × List InputEvent :=
  if s.view.contacts = [] then
    (s, [{ s.view.event 1 1 0 s.view.lastMouse with dx := dx, dy := dy }])
  else (s, [])

/-- `event` of a key. -/
def keyEvent (phase : UInt8) (code modifiers : UInt16) (logical : UInt32) (isRepeat : Bool) :
    InputEvent :=
  { s.view.event 3 phase 0 (⟨0⟩, ⟨0⟩) with
    physicalKey := code
    logicalKey := logical
    modifiers := modifiers
    isRepeat := if isRepeat then 1 else 0 }

/-- One round of the loop of `presses`; `none` is a press without a key. -/
def press (phase : UInt8) : Option UIKey → DisplaySurface × List InputEvent
  | none => (s, [])
  | some key =>
    ({ s with keys :=
        if phase ≥ 2 then s.keys.filter (· ≠ key.code) else s.keys.insert key.code },
      [s.keyEvent phase key.code key.modifiers (key.first.getD 0) (phase = 0 ∧ key.code ∈ s.keys)])

def presses (phase : UInt8) : DisplaySurface → List (Option UIKey) →
    DisplaySurface × List InputEvent
  | s, [] => (s, [])
  | s, p :: ps =>
    let head := s.press phase p
    let rest := presses phase head.1 ps
    (rest.1, head.2 ++ rest.2)

/-- `releaseAll`, with the contacts and the keys in the order in which they are walked. -/
def releaseAll (ids codes : List UInt16) : DisplaySurface × List InputEvent :=
  ({ view := { s.view with contacts := [], buttons := 0 }, keys := [] },
    ids.map (fun id => s.view.event 0 3 id (⟨0⟩, ⟨0⟩)) ++
      codes.map (fun code => s.keyEvent 3 code 0 0 false) ++
        [{ s.view with buttons := 0 }.event 1 2 0 s.view.lastMouse])

end DisplaySurface

end Ipad
end SidecarDOS
