/-
# The records of the driver's interface

The host and the driver share no types: a request and its answer are bytes, which
`windows/host/src/display/driver.rs` and `windows/driver/Shared.h` declare as records of their
own languages.  They differ in the identity, 16 bytes here and a `GUID` there, and still lay out
the same bytes (`start_put`); what one side has written the other one reads (`start_get`,
`surfaces_get`, `status_get`).
-/

import SidecarDOS.Library.Layout
import SidecarDOS.Pairing.Code
import SidecarDOS.Driver.Edid

namespace SidecarDOS
namespace Driver

open Library (Layout Members)

/-! ### The records of the driver -/

structure Guid where
  data1 : UInt32
  (data2 data3 : UInt16)
  data4 : Fin 8 → UInt8

structure SdStart where
  (abi count : UInt32)
  identity : Guid
  modes : Fin 4 → SdMode

structure SdSlot where
  (frame captureUs : UInt64)

structure SdStatus where
  (abi generation width height fps luidLow : UInt32)
  luidHigh : Int32
  reserved : UInt32
  slots : Fin 3 → SdSlot

structure SdSurfaces where
  (abi generation : UInt32)
  names : Fin 3 → Fin 128 → UInt16

def Guid.members : Members (UInt32 × UInt16 × UInt16 × (Fin 8 → UInt8) × Unit) :=
  .cons .u32 <| .cons .u16 <| .cons .u16 <| .cons (.array 8 .u8) .nil

def Guid.layout : Layout Guid :=
  Guid.members.record.map
    ⟨fun (a, b, c, d, _) => ⟨a, b, c, d⟩, fun g => (g.data1, g.data2, g.data3, g.data4, ()),
      fun _ => rfl, fun _ => rfl⟩

def SdMode.layout : Layout SdMode :=
  (Members.cons .u32 <| .cons .u32 <| .cons .u32 .nil).record.map
    ⟨fun (w, h, fps, _) => ⟨w, h, fps⟩, fun m => (m.width, m.height, m.fps, ()),
      fun _ => rfl, fun _ => rfl⟩

def SdStart.layout : Layout SdStart :=
  (Members.cons .u32 <| .cons .u32 <| .cons Guid.layout <|
      .cons (.array 4 SdMode.layout) .nil).record.map
    ⟨fun (a, n, id, ms, _) => ⟨a, n, id, ms⟩, fun s => (s.abi, s.count, s.identity, s.modes, ()),
      fun _ => rfl, fun _ => rfl⟩

def SdSlot.layout : Layout SdSlot :=
  (Members.cons .u64 <| .cons .u64 .nil).record.map
    ⟨fun (f, c, _) => ⟨f, c⟩, fun s => (s.frame, s.captureUs, ()), fun _ => rfl, fun _ => rfl⟩

def SdStatus.layout : Layout SdStatus :=
  (Members.cons .u32 <| .cons .u32 <| .cons .u32 <| .cons .u32 <| .cons .u32 <| .cons .u32 <|
      .cons .i32 <| .cons .u32 <| .cons (.array 3 SdSlot.layout) .nil).record.map
    ⟨fun (a, g, w, h, fps, l, l', r, s, _) => ⟨a, g, w, h, fps, l, l', r, s⟩,
      fun s => (s.abi, s.generation, s.width, s.height, s.fps, s.luidLow, s.luidHigh, s.reserved,
        s.slots, ()),
      fun _ => rfl, fun _ => rfl⟩

def SdSurfaces.layout : Layout SdSurfaces :=
  (Members.cons .u32 <| .cons .u32 <| .cons (.array 3 (.array 128 .u16)) .nil).record.map
    ⟨fun (a, g, n, _) => ⟨a, g, n⟩, fun s => (s.abi, s.generation, s.names, ()),
      fun _ => rfl, fun _ => rfl⟩

/-- What `STATUS` copies of the driver's status. -/
def Status.sent (s : Status) : SdStatus :=
  ⟨1, .ofNat s.generation, s.width, s.height, s.fps, s.luid.low, s.luid.high, 0, fun i =>
    match s.slots i with
    | some c => ⟨c.frame, c.captureUs⟩
    | none => ⟨0, 0⟩⟩

end Driver

/-! ### The records of the host -/

namespace Host
namespace Abi

open Library (Layout Members)

structure Mode where
  width : UInt32 := 0
  height : UInt32 := 0
  fps : UInt32 := 0

structure Start where
  (abi count : UInt32)
  identity : Id16
  modes : Fin 4 → Mode

structure Status where
  (abi generation width height fps luidLow : UInt32)
  luidHigh : Int32
  reserved : UInt32
  slots : Fin 3 → Slot

structure Surfaces where
  (abi generation : UInt32)
  names : Fin 3 → Fin 128 → UInt16

/-- `[u8; 16]`. -/
def Id.layout : Layout Id16 where
  size := 16
  align := 1
  put := Id16.bytes
  get bytes := (Id16.ofBytes bytes).getD .zero
  length_put := Id16.length_eq
  get_put _ := congrArg (Option.getD · Id16.zero) (Id16.ofBytes_eq_some.2 rfl)

def Mode.layout : Layout Mode :=
  (Members.cons .u32 <| .cons .u32 <| .cons .u32 .nil).record.map
    ⟨fun (w, h, fps, _) => ⟨w, h, fps⟩, fun m => (m.width, m.height, m.fps, ()),
      fun _ => rfl, fun _ => rfl⟩

def Start.layout : Layout Start :=
  (Members.cons .u32 <| .cons .u32 <| .cons Id.layout <|
      .cons (.array 4 Mode.layout) .nil).record.map
    ⟨fun (a, n, id, ms, _) => ⟨a, n, id, ms⟩, fun s => (s.abi, s.count, s.identity, s.modes, ()),
      fun _ => rfl, fun _ => rfl⟩

def Slot.layout : Layout Slot :=
  (Members.cons .u64 <| .cons .u64 .nil).record.map
    ⟨fun (f, c, _) => ⟨f, c⟩, fun s => (s.frame, s.captureUs, ()), fun _ => rfl, fun _ => rfl⟩

def Status.layout : Layout Status :=
  (Members.cons .u32 <| .cons .u32 <| .cons .u32 <| .cons .u32 <| .cons .u32 <| .cons .u32 <|
      .cons .i32 <| .cons .u32 <| .cons (.array 3 Slot.layout) .nil).record.map
    ⟨fun (a, g, w, h, fps, l, l', r, s, _) => ⟨a, g, w, h, fps, l, l', r, s⟩,
      fun s => (s.abi, s.generation, s.width, s.height, s.fps, s.luidLow, s.luidHigh, s.reserved,
        s.slots, ()),
      fun _ => rfl, fun _ => rfl⟩

def Surfaces.layout : Layout Surfaces :=
  (Members.cons .u32 <| .cons .u32 <| .cons (.array 3 (.array 128 .u16)) .nil).record.map
    ⟨fun (a, g, n, _) => ⟨a, g, n⟩, fun s => (s.abi, s.generation, s.names, ()),
      fun _ => rfl, fun _ => rfl⟩

/-- The record that the driver finds in a request to start. -/
def Start.sd (s : Start) : Driver.SdStart :=
  ⟨s.abi, s.count, Driver.Guid.layout.get s.identity.bytes, fun i =>
    ⟨(s.modes i).width, (s.modes i).height, (s.modes i).fps⟩⟩

def Surfaces.sd (s : Surfaces) : Driver.SdSurfaces := ⟨s.abi, s.generation, s.names⟩

def Status.ofSd (s : Driver.SdStatus) : Status :=
  ⟨s.abi, s.generation, s.width, s.height, s.fps, s.luidLow, s.luidHigh, s.reserved, fun i =>
    ⟨(s.slots i).frame, (s.slots i).captureUs⟩⟩

end Abi
end Host

namespace Driver

open Library (Layout Members)
open SidecarDOS.Host.Abi (Start)

/-- The records have the sizes that `Shared.h` asserts, in both languages. -/
theorem sizes_eq : SdStart.layout.size = 72 ∧ Start.layout.size = 72 ∧
    SdStatus.layout.size = 80 ∧ Host.Abi.Status.layout.size = 80 ∧
    SdSurfaces.layout.size = 776 ∧ Host.Abi.Surfaces.layout.size = 776 := by
  decide

theorem Guid.packed : Guid.layout.Packed := by
  have hu8 : (Layout.u8).Packed := .word _ _ fun _ h => UInt8.toNat_ofNat_of_lt' h
  have hu16 : (Layout.u16).Packed := .word _ _ fun _ h => UInt16.toNat_ofNat_of_lt' h
  have hu32 : (Layout.u32).Packed := .word _ _ fun _ h => UInt32.toNat_ofNat_of_lt' h
  have hmembers : Guid.members.Packed 0 :=
    .cons (by decide) hu32 <| .cons (by decide) hu16 <| .cons (by decide) hu16 <|
      .cons (by decide) (hu8.array 8) .nil
  exact (hmembers.record (by decide)).map _

/-- Both declarations of the request to start lay out the same bytes. -/
theorem start_put (s : Start) : SdStart.layout.put s.sd = Start.layout.put s := by
  have hid : Guid.layout.put (Guid.layout.get s.identity.bytes) = s.identity.bytes :=
    Guid.packed _ s.identity.length_eq
  have hsd : SdStart.layout.put s.sd = Layout.u32.put s.abi ++ (Layout.u32.put s.count ++
      (Guid.layout.put (Guid.layout.get s.identity.bytes) ++
        ((Layout.array 4 Host.Abi.Mode.layout).put s.modes ++ []))) := by
    refine (Members.put_record (by decide) _).trans ?_
    simp (disch := decide) only [Members.put_cons]
    rfl
  have hhost : Start.layout.put s = Layout.u32.put s.abi ++ (Layout.u32.put s.count ++
      (s.identity.bytes ++ ((Layout.array 4 Host.Abi.Mode.layout).put s.modes ++ []))) := by
    refine (Members.put_record (by decide) _).trans ?_
    simp (disch := decide) only [Members.put_cons]
    rfl
  rw [hsd, hhost, hid]

/-- The driver reads what the host has written. -/
theorem start_get (s : Start) : SdStart.layout.get (Start.layout.put s) = s.sd := by
  rw [← start_put, SdStart.layout.get_put]

theorem surfaces_get (s : Host.Abi.Surfaces) :
    SdSurfaces.layout.get (Host.Abi.Surfaces.layout.put s) = s.sd :=
  SdSurfaces.layout.get_put s.sd

/-- The host reads what the driver has written. -/
theorem status_get (s : SdStatus) :
    Host.Abi.Status.layout.get (SdStatus.layout.put s) = .ofSd s :=
  Host.Abi.Status.layout.get_put (.ofSd s)

end Driver
end SidecarDOS
