/-
# The touches of the view

The part of `InputView` of `ipad/SidecarDOS/Input/DisplaySurface.swift` that turns the
callbacks of UIKit into input events.  The view and the video have a positive size, so
that `normalized` of a location yields a point of the unit square, and without `clamp`
only inside the video's rectangle.
-/

import SidecarDOS.Protocol.Messages

namespace SidecarDOS
namespace Ipad

inductive TouchType where
  | direct | indirectPointer | other
  deriving DecidableEq

/-- A touch in one callback: its object, whether it lies in the rectangle, and the clamped
point. -/
structure UITouch where
  identity : ℕ
  type : TouchType
  inside : Bool
  (x y : F32)
  unit : x.isUnit = true ∧ y.isUnit = true

/-- `contacts` is a list without its order. -/
structure InputView where
  contacts : List (ℕ × UInt16) := []
  buttons : UInt32 := 0
  lastMouse : F32 × F32 := (⟨0x3f000000⟩, ⟨0x3f000000⟩)

namespace InputView

/-- `event` without what only the mouse and the keyboard set. -/
def event (v : InputView) (kind phase : UInt8) (id : UInt16) (point : F32 × F32) : InputEvent :=
  ⟨kind, phase, id, point.1, point.2, ⟨0⟩, ⟨0⟩, v.buttons, 0, 0, 0, 0⟩

/-- `(UInt16(0)..<10).first(where: { !contacts.values.contains($0) })`. -/
def firstFree (v : InputView) : Option UInt16 :=
  [0, 1, 2, 3, 4, 5, 6, 7, 8, 9].find? (· ∉ v.contacts.map Prod.snd)

/-- `contacts.removeValue(forKey: identity)`. -/
def removed (v : InputView) (identity : ℕ) : List (ℕ × UInt16) :=
  v.contacts.filter (·.1 ≠ identity)

/-- The loop's check of a touch that begins; `none` continues with the next one. -/
def began (v : InputView) (t : UITouch) : Option InputView :=
  if t.inside then
    v.firstFree.map fun id => { v with contacts := (t.identity, id) :: v.removed t.identity }
  else none

/-- One round of the loop of `touches`. -/
def touch (v : InputView) (phase : UInt8) (mask : UInt32) (t : UITouch) :
    InputView × List InputEvent :=
  match t.type with
  | .indirectPointer =>
    let buttons : UInt32 := (if mask &&& 1 ≠ 0 then 1 else 0) ||| (if mask &&& 2 ≠ 0 then 2 else 0) |||
      if mask &&& 4 ≠ 0 then 4 else 0
    let v := { v with lastMouse := (t.x, t.y), buttons := buttons }
    (v, [v.event 1 phase 0 v.lastMouse])
  | .other => (v, [])
  | .direct =>
    match if phase = 0 then v.began t else some v with
    | none => (v, [])
    | some v =>
      match v.contacts.lookup t.identity with
      | none => (v, [])
      | some id =>
        ({ v with contacts := if phase ≥ 2 then v.removed t.identity else v.contacts },
          [v.event 0 phase id (t.x, t.y)])

/-- `touches`: the view behind a callback, and what it sends. -/
def touches (v : InputView) (phase : UInt8) (mask : UInt32) :
    List UITouch → InputView × List InputEvent
  | [] => (v, [])
  | t :: ts =>
    let head := v.touch phase mask t
    let rest := head.1.touches phase mask ts
    (rest.1, head.2 ++ rest.2)

end InputView

end Ipad
end SidecarDOS
