/-
# `IoControl`

A request has a code, the bytes of its input and room for the bytes of its answer.
`State.ioControl` is `IoControl` of `windows/driver/Driver.cpp` up to the end of its first
section, and `Host.Abi` has the calls of `windows/host/src/display/driver.rs`.  Whatever its
code and its bytes are, a request makes a step of the driver or none (`ioControl_step`), and a
call makes the step with what it was given (`step_start`, `ioControl_ask`,
`ioControl_surfaces`).
-/

import SidecarDOS.Driver.Names

namespace SidecarDOS
namespace Driver

open SidecarDOS.Host (fitsDevice)

/-- `CTL_CODE`. -/
def ctlCode (device function method access : UInt32) : UInt32 :=
  device <<< 16 ||| access <<< 14 ||| function <<< 2 ||| method

/-! The codes of `Shared.h`: the device is unknown, input and answer are buffered, and the
requests other than `STATUS` need a handle that may write. -/

def sdStart : UInt32 := ctlCode 0x22 0x800 0 2

def sdStop : UInt32 := ctlCode 0x22 0x801 0 2

def sdStatus : UInt32 := ctlCode 0x22 0x802 0 1

def sdSurfaces : UInt32 := ctlCode 0x22 0x803 0 2

structure Ioctl where
  code : UInt32
  input : Bytes := []
  /-- `outSize`. -/
  room : ℕ := 0

/-- How a request has been completed: whether with success, and the bytes of the answer. -/
structure Reply where
  ok : Bool
  bytes : Bytes := []

/-- A mode as the checks read it. -/
def SdMode.display (m : SdMode) : DisplayMode := ⟨m.width, m.height, m.fps, 0⟩

/-- What `SURFACES` leaves in the driver. -/
def SdSurfaces.decode (r : SdSurfaces) : Surfaces := ⟨r.abi, r.generation.toNat, fun i =>
  nameOf (r.names i)⟩

/-- The check of `SURFACES`. -/
def SdSurfaces.valid (r : SdSurfaces) (generation : ℕ) : Bool :=
  r.abi = 1 && r.generation.toNat = generation &&
    (List.finRange 3).all fun i => named (r.names i)

namespace State

variable (s : State)

/-- The checks of `arrive`. -/
def admits (start : SdStart) : Bool :=
  s.device.ready && s.device.adapter && start.abi = 1 && 1 ≤ start.count && start.count ≤ 4 &&
    (List.finRange 4).all fun i =>
      start.count.toNat ≤ i.val || fitsDevice (start.modes i).display

/-- The request's own lock is taken before anything is looked at; no reply is a request that
waits for a lock or takes more steps. -/
def ioControl (c : Ioctl) : State × Option Reply :=
  if s.request.isSome then (s, none)
  else if c.code = sdStart ∧ c.input.length = SdStart.layout.size then
    let start := SdStart.layout.get c.input
    if s.admits start then
      ({ s with request := some (.depart .take (some (start.modes 0).fps)) }, none)
    else (s, some ⟨false, []⟩)
  else if c.code = sdStop then ({ s with request := some (.depart .take none) }, none)
  else if c.code = sdStatus ∧ SdStatus.layout.size ≤ c.room then
    if s.publishing.isSome then (s, none)
    else ({ s with replies := s.replies ++ [s.device.status] },
      some ⟨true, SdStatus.layout.put s.device.status.sent⟩)
  else if c.code = sdSurfaces ∧ c.input.length = SdSurfaces.layout.size then
    if s.publishing.isSome then (s, none)
    else
      let r := SdSurfaces.layout.get c.input
      if r.valid s.device.status.generation then
        ({ s with device := { s.device with
            surfaces := r.decode, surfaceRevision := s.device.surfaceRevision + 1 } },
          some ⟨true, []⟩)
      else (s, some ⟨false, []⟩)
  else (s, some ⟨false, []⟩)

end State

/-- The modes that `arrive` assigns. -/
def SdStart.assigned (start : SdStart) : List SdMode :=
  (List.ofFn start.modes).take start.count.toNat

/-- The modes of a request to start, if it has no more than there is place for. -/
def SdStart.listed (start : SdStart) : List DisplayMode :=
  if start.count ≤ 4 then start.assigned.map SdMode.display else []

/-- The identity as `memcpy` finds it. -/
def SdStart.memory (start : SdStart) : Id16 :=
  ⟨Guid.layout.put start.identity, Guid.layout.length_put _⟩

/-- What a request is to the driver; nothing, if it is completed as invalid. -/
def Ioctl.event (c : Ioctl) : Option Event :=
  if c.code = sdStart ∧ c.input.length = SdStart.layout.size then
    let start := SdStart.layout.get c.input
    some (.start start.abi start.listed)
  else if c.code = sdStop then some .stop
  else if c.code = sdStatus ∧ SdStatus.layout.size ≤ c.room then some .status
  else if c.code = sdSurfaces ∧ c.input.length = SdSurfaces.layout.size then
    some (.surfaces (SdSurfaces.layout.get c.input).decode)
  else none

end Driver

/-! ### The calls of the host -/

namespace Host
namespace Abi

open Driver (Ioctl Reply)

def START : UInt32 := 0x22a000

def STOP : UInt32 := 0x22a004

def STATUS : UInt32 := 0x226008

def SURFACES : UInt32 := 0x22a00c

def Mode.of (m : DisplayMode) : Mode := ⟨m.width, m.height, m.fps⟩

/-- What `ioctl` makes of a reply, with room for `room` bytes. -/
def ioctl (room : ℕ) (r : Reply) : Option Bytes :=
  if r.ok ∧ (room = 0 ∨ r.bytes.length = room) then some r.bytes else none

/-- The request of `Driver::start`. -/
def start (id : Id16) (modes : List DisplayMode) : Option Ioctl :=
  if modes ≠ [] ∧ modes.length ≤ 4 then
    some { code := START
           input := Start.layout.put ⟨1, .ofNat modes.length, id, fun i =>
             (modes[i.val]?).elim {} Mode.of⟩ }
  else none

/-- The request of `Driver::stop`. -/
def stop : Ioctl := { code := STOP }

/-- The request of `Driver::status`. -/
def ask : Ioctl := { code := STATUS, room := Status.layout.size }

/-- The rest of `Driver::status`. -/
def status (r : Reply) : Option Status := do
  let bytes ← ioctl Status.layout.size r
  let s := Status.layout.get bytes
  if s.abi = 1 then some s else none

/-- The request of `Driver::surfaces`. -/
def surfaces (generation : UInt32) (names : Fin 3 → List Char) : Option Ioctl :=
  if ∀ i, (utf16 (names i)).length < 128 then
    some { code := SURFACES
           input := Surfaces.layout.put ⟨1, generation, fun i =>
             Driver.buffer (utf16 (names i))⟩ }
  else none

end Abi
end Host

namespace Driver

open SidecarDOS.Host (fitsDevice)

/-! ### What a request is to the driver -/

variable {s : State} {c : Ioctl}

theorem codes_eq : Host.Abi.START = sdStart ∧ Host.Abi.STOP = sdStop ∧
    Host.Abi.STATUS = sdStatus ∧ Host.Abi.SURFACES = sdSurfaces := by
  decide

theorem mem_listed {start : SdStart} (h : start.count ≤ 4) {m : DisplayMode} :
    m ∈ start.listed ↔ ∃ i : Fin 4, i.val < start.count.toNat ∧ (start.modes i).display = m := by
  have hle : start.count.toNat ≤ 4 := h
  rw [SdStart.listed, if_pos h, List.mem_map, SdStart.assigned]
  constructor
  · rintro ⟨m, hm, rfl⟩
    obtain ⟨i, hi, rfl⟩ := List.mem_iff_getElem.1 hm
    rw [List.length_take, List.length_ofFn] at hi
    refine ⟨⟨i, by omega⟩, by simp only; omega, ?_⟩
    rw [List.getElem_take, List.getElem_ofFn]
  · rintro ⟨i, hi, rfl⟩
    refine ⟨start.modes i, List.mem_iff_getElem.2 ⟨i, ?_, ?_⟩, rfl⟩
    · rw [List.length_take, List.length_ofFn]
      omega
    · rw [List.getElem_take, List.getElem_ofFn]

theorem length_listed {start : SdStart} (h : start.count ≤ 4) :
    start.listed.length = start.count.toNat := by
  have hle : start.count.toNat ≤ 4 := h
  rw [SdStart.listed, if_pos h, List.length_map, SdStart.assigned, List.length_take,
    List.length_ofFn]
  omega

/-- The checks on the record are those on its modes. -/
theorem admits_eq (s : State) (start : SdStart) :
    s.admits start = s.arrives start.abi start.listed := by
  by_cases h : start.count ≤ 4
  · have hle : start.count.toNat ≤ 4 := h
    have hcount : (1 ≤ start.count) = (1 ≤ start.count.toNat) := rfl
    have hall : ((List.finRange 4).all fun i =>
        start.count.toNat ≤ i.val || fitsDevice (start.modes i).display) =
          start.listed.all fitsDevice := by
      rw [Bool.eq_iff_iff, List.all_eq_true, List.all_eq_true]
      constructor
      · intro hfits m hm
        obtain ⟨i, hi, rfl⟩ := (mem_listed h).1 hm
        have hfit := hfits i (List.mem_finRange i)
        rw [Bool.or_eq_true, decide_eq_true_eq] at hfit
        exact hfit.resolve_left (Nat.not_le.2 hi)
      · intro hfits i _
        rw [Bool.or_eq_true, decide_eq_true_eq]
        by_cases hi : start.count.toNat ≤ i
        · exact .inl hi
        · exact .inr (hfits _ ((mem_listed h).2 ⟨i, Nat.not_le.1 hi, rfl⟩))
    simp only [State.admits, State.arrives, hall, length_listed h, hcount, h, hle]
  · have hlisted : start.listed = [] := if_neg h
    rw [State.admits, State.arrives, hlisted, decide_eq_false h]
    simp

/-- What has been admitted begins with the first mode. -/
theorem head_listed {start : SdStart} (h : s.admits start = true) :
    start.listed.head?.map (·.fps) = some (start.modes 0).fps := by
  simp only [State.admits, Bool.and_eq_true, decide_eq_true_eq] at h
  obtain ⟨⟨⟨-, hpos⟩, hle⟩, -⟩ := h
  have hpos : 1 ≤ start.count.toNat := hpos
  obtain ⟨n, hn⟩ := Nat.exists_eq_add_of_le' hpos
  rw [SdStart.listed, if_pos hle, SdStart.assigned, hn, List.ofFn_succ, List.take_succ_cons]
  rfl

theorem register_decode (d : Device) (r : SdSurfaces) : d.register r.decode =
    if r.valid d.status.generation then
      some { d with surfaces := r.decode, surfaceRevision := d.surfaceRevision + 1 }
    else none := by
  have hvalid : (r.decode.abi = 1 ∧ r.decode.generation = d.status.generation ∧
      ((List.finRange 3).all fun i => (r.decode.names i).valid) = true) ↔
        r.valid d.status.generation = true := by
    simp only [SdSurfaces.decode, SdSurfaces.valid, valid_nameOf, Bool.and_eq_true,
      decide_eq_true_eq, and_assoc]
  rw [Device.register]
  exact if_congr hvalid rfl rfl

/-- While a request holds its lock, another one waits. -/
theorem step_held (h : s.request.isSome) (c : Ioctl) : c.event.elim s s.step = s := by
  have htakes (r : Request) : s.takes r = s := if_pos h
  unfold Ioctl.event
  split
  · simp only [Option.elim_some, State.step, htakes, ite_self]
  split
  · exact htakes _
  split
  · simp only [Option.elim_some, State.step, State.status, h, true_or, if_true]
  split
  · simp only [Option.elim_some, State.step, State.surfaces, h, true_or, if_true,
      Option.elim_none]
  · rfl

/-- **A request is a step of the driver or none**, whatever its code and its bytes are. -/
theorem ioControl_step (s : State) (c : Ioctl) :
    (s.ioControl c).1 = c.event.elim s s.step := by
  by_cases hheld : s.request.isSome
  · rw [step_held hheld, State.ioControl, if_pos hheld]
  · have htakes (r : Request) : s.takes r = { s with request := some r } := if_neg hheld
    have hfree : s.request.isSome = false := Bool.eq_false_iff.2 hheld
    rw [State.ioControl, if_neg hheld]
    unfold Ioctl.event
    split
    · -- `START`: the record and its modes pass the same checks.
      generalize SdStart.layout.get c.input = start
      simp only [Option.elim_some, State.step, ← admits_eq, htakes]
      split
      · rename_i hadmits
        rw [head_listed hadmits]
      · rfl
    split
    · exact (htakes _).symm
    split
    · simp only [Option.elim_some, State.step, State.status, hfree, Bool.false_eq_true, false_or]
      split <;> rfl
    split
    · -- `SURFACES`: the names pass the check as buffers just if they do as what they name.
      generalize SdSurfaces.layout.get c.input = r
      simp only [Option.elim_some, State.step, State.surfaces, hfree, Bool.false_eq_true, false_or,
        register_decode]
      split
      · rfl
      · split <;> rfl
    · rfl

/-! ### The calls of the host -/

variable {id key : Id16} {modes : List DisplayMode} {generation : UInt32}

/-- The scale of a mode stays with the host. -/
def unscaled (m : DisplayMode) : DisplayMode := { m with scalePercent := 0 }

/-- The driver finds the device's identity and the modes that the host has asked for. -/
theorem start_found (h : Host.Abi.start id modes = some c) :
    c.code = sdStart ∧ c.input.length = SdStart.layout.size ∧
      (SdStart.layout.get c.input).abi = 1 ∧ (SdStart.layout.get c.input).count ≤ 4 ∧
      (SdStart.layout.get c.input).memory = id ∧
      (SdStart.layout.get c.input).assigned = modes.map .of := by
  unfold Host.Abi.start at h
  split at h
  · rename_i hmodes
    cases h
    obtain ⟨-, hle⟩ := hmodes
    have hcount : (UInt32.ofNat modes.length).toNat = modes.length :=
      UInt32.toNat_ofNat_of_lt' (hle.trans_lt (by decide))
    have hcount_le : UInt32.ofNat modes.length ≤ 4 := by
      rw [UInt32.le_iff_toNat_le, hcount]
      exact hle
    dsimp only
    rw [start_get]
    have hsize : Host.Abi.Start.layout.size = SdStart.layout.size :=
      sizes_eq.2.1.trans sizes_eq.1.symm
    refine ⟨codes_eq.1, (Host.Abi.Start.layout.length_put _).trans hsize, rfl, hcount_le,
      Id16.ext (Guid.packed _ id.length_eq), ?_⟩
    refine List.ext_getElem ?_ fun i hi hi' => ?_
    · rw [SdStart.assigned, List.length_take, List.length_ofFn, List.length_map]
      exact (congrArg (min · 4) hcount).trans (Nat.min_eq_left hle)
    · rw [List.length_map] at hi'
      simp only [SdStart.assigned, Host.Abi.Start.sd, List.getElem_map, List.getElem_take,
        List.getElem_ofFn, List.getElem?_eq_getElem hi', Option.elim_some]
      rfl
  · cases h

theorem listed_found (h : Host.Abi.start id modes = some c) :
    (SdStart.layout.get c.input).listed = modes.map unscaled := by
  obtain ⟨-, -, -, hcount, -, hassigned⟩ := start_found h
  rw [SdStart.listed, if_pos hcount, hassigned, List.map_map]
  rfl

theorem arrives_unscaled (s : State) (abi : UInt32) (modes : List DisplayMode) :
    s.arrives abi (modes.map unscaled) = s.arrives abi modes := by
  have hfits : ((modes.map unscaled).all fitsDevice) = modes.all fitsDevice := by
    rw [List.all_map]
    rfl
  rw [State.arrives, State.arrives, List.length_map, hfits]

theorem step_unscaled (s : State) (abi : UInt32) (modes : List DisplayMode) :
    s.step (.start abi (modes.map unscaled)) = s.step (.start abi modes) := by
  have hhead : (modes.map unscaled).head?.map (·.fps) = modes.head?.map (·.fps) := by
    cases modes <;> rfl
  simp only [State.step, arrives_unscaled, hhead]

/-- `Driver::start` is the step that starts the monitor with these modes; where it makes no
request, the driver would refuse them. -/
theorem step_start (s : State) (id : Id16) (modes : List DisplayMode) :
    (Host.Abi.start id modes).elim s (fun c => (s.ioControl c).1) = s.step (.start 1 modes) := by
  cases h : Host.Abi.start id modes with
  | some c =>
    obtain ⟨hcode, hlen, habi, -⟩ := start_found h
    have hevent : c.event = some (.start 1 (modes.map unscaled)) := by
      rw [Ioctl.event, if_pos ⟨hcode, hlen⟩]
      dsimp only
      rw [habi, listed_found h]
    rw [Option.elim_some, ioControl_step, hevent, Option.elim_some, step_unscaled]
  | none =>
    unfold Host.Abi.start at h
    split at h
    · cases h
    · rename_i hmodes
      have hrefused : s.arrives 1 modes = false := by
        rw [Bool.eq_false_iff]
        intro harrives
        simp only [State.arrives, Bool.and_eq_true, decide_eq_true_eq] at harrives
        obtain ⟨⟨⟨-, hpos⟩, hle⟩, -⟩ := harrives
        exact hmodes ⟨List.length_pos_iff.1 hpos, hle⟩
      rw [Option.elim_none, State.step, hrefused]
      rfl

/-- **Windows is told of the modes that the host asks for.**  If the driver admits the request of
`Driver::start`, the monitor has the device's identity, and of the description that the driver
makes of the bytes, `Parse` tells exactly the host's modes in their order. -/
theorem start_described (h : Host.Abi.start id modes = some c)
    (hadmits : s.admits (SdStart.layout.get c.input) = true) {room : ℕ}
    (hroom : modes.length ≤ room) :
    (SdStart.layout.get c.input).memory = id ∧
      (s.ioControl c).1 = s.takes (.depart .take (modes.head?.map (·.fps))) ∧
      parse (makeEdid (SdStart.layout.get c.input).memory (SdStart.layout.get c.input).assigned)
        room = .success modes.length (modes.map fun m => signal (.of m)) := by
  obtain ⟨hcode, hlen, habi, -, hid, hassigned⟩ := start_found h
  have harrives : s.arrives 1 modes = true := by
    have hstep := arrives_unscaled s 1 modes
    rwa [admits_eq, habi, listed_found h, hstep] at hadmits
  have hstep := step_start s id modes
  rw [h, Option.elim_some, State.step, if_pos harrives] at hstep
  simp only [State.arrives, Bool.and_eq_true, decide_eq_true_eq, List.all_eq_true] at harrives
  obtain ⟨⟨⟨-, hpos⟩, hle⟩, hall⟩ := harrives
  have hlength : (modes.map SdMode.of).length ≤ 4 := by rwa [List.length_map]
  have hfits : ∀ m ∈ modes.map SdMode.of, Edid.Fits m := by
    intro _ hmap
    obtain ⟨m, hm, rfl⟩ := List.mem_map.1 hmap
    exact Edid.fits_of (hall m hm)
  have hmodes := Edid.modes_eq hlength fun i hi => Edid.decode_makeEdid id hlength hfits hi
  have hsize : (makeEdid id (modes.map .of)).length = 128 :=
    List.length_set.trans
      (@Edid.loop_spec _ 0 (Edid.length_header id) (modes.map SdMode.of) (by omega)).1
  have hne : modes.map SdMode.of ≠ [] := List.length_pos_iff.1 (by rwa [List.length_map])
  refine ⟨hid, hstep, ?_⟩
  rw [hid, hassigned, Edid.parse_eq hsize hmodes hne (by rwa [List.length_map]),
    List.length_map, List.map_map]
  rfl

/-- The hypotheses of `start_described` are satisfiable: a request with two modes. -/
theorem start_described_sample : ∃ c, Host.Abi.start Id16.zero sampleModes = some c ∧
    parse (makeEdid (SdStart.layout.get c.input).memory (SdStart.layout.get c.input).assigned) 4 =
      .success 2 (sampleModes.map fun m => signal (.of m)) := by
  obtain ⟨c, hstart⟩ : ∃ c, Host.Abi.start Id16.zero sampleModes = some c :=
    ⟨_, if_pos (by decide)⟩
  refine ⟨c, hstart, ?_⟩
  have hadmits : ({ device := { adapter := true, ready := true } } : State).admits
      (SdStart.layout.get c.input) = true := by
    rw [admits_eq, listed_found hstart, (start_found hstart).2.2.1]
    decide
  exact (start_described hstart hadmits (by decide)).2.2

theorem event_stop : Host.Abi.stop.event = some .stop := rfl

/-- The request of `Driver::status`, and what the host reads of its answer. -/
theorem ioControl_ask (s : State) : s.ioControl Host.Abi.ask = s.status.elim (s, none) fun status =>
    (s.step .status, some ⟨true, SdStatus.layout.put status.sent⟩) := by
  by_cases hheld : s.request.isSome
  · rw [State.ioControl, if_pos hheld, State.status, if_pos (.inl hheld)]
    rfl
  · have hcode : Host.Abi.ask.code = sdStatus ∧ SdStatus.layout.size ≤ Host.Abi.ask.room := by
      decide
    have hstart : ¬ (Host.Abi.ask.code = sdStart ∧
        Host.Abi.ask.input.length = SdStart.layout.size) := by
      decide
    have hstop : ¬ Host.Abi.ask.code = sdStop := by decide
    rw [State.ioControl, if_neg hheld, if_neg hstart, if_neg hstop, if_pos hcode]
    by_cases hpublishing : s.publishing.isSome
    · rw [if_pos hpublishing, State.status, if_pos (.inr hpublishing)]
      rfl
    · have hstatus : s.status = some s.device.status := if_neg (not_or.2 ⟨hheld, hpublishing⟩)
      rw [if_neg hpublishing, State.step, hstatus]
      rfl

theorem status_sent (status : Status) :
    Host.Abi.status ⟨true, SdStatus.layout.put status.sent⟩ = some (.ofSd status.sent) := by
  have hbytes : Host.Abi.ioctl Host.Abi.Status.layout.size ⟨true, SdStatus.layout.put status.sent⟩ =
      some (SdStatus.layout.put status.sent) :=
    if_pos ⟨rfl, .inr (SdStatus.layout.length_put _)⟩
  rw [Host.Abi.status, hbytes, Option.bind_eq_bind, Option.bind_some]
  dsimp only
  rw [status_get]
  rfl

/-- `Driver::surfaces` registers the textures of the encoder. -/
theorem ioControl_surfaces (s : State) (generation : UInt32) (key : Id16) :
    ∃ c, Host.Abi.surfaces generation (Host.Abi.surfaceName key) = some c ∧
      s.ioControl c = (s.surfaces ⟨1, generation.toNat, .surface key⟩).elim (s, none)
        fun (ok, s') => (s', some ⟨ok, []⟩) := by
  have hnames : ∀ i, (utf16 (Host.Abi.surfaceName key i)).length < 128 := fun i => by
    rw [length_surfaceName]
    decide
  have hdecode : (SdSurfaces.layout.get (Host.Abi.Surfaces.layout.put ⟨1, generation, fun i =>
      buffer (utf16 (Host.Abi.surfaceName key i))⟩)).decode =
        ⟨1, generation.toNat, .surface key⟩ := by
    rw [surfaces_get, Host.Abi.Surfaces.sd, SdSurfaces.decode]
    simp only [nameOf_buffer]
  refine ⟨_, if_pos hnames, ?_⟩
  generalize hput : Host.Abi.Surfaces.layout.put ⟨1, generation, fun i =>
    buffer (utf16 (Host.Abi.surfaceName key i))⟩ = bytes at hdecode
  have hlen : bytes.length = SdSurfaces.layout.size := by
    obtain ⟨-, -, -, -, hdriver, hhost⟩ := sizes_eq
    rw [← hput, Host.Abi.Surfaces.layout.length_put, hhost, hdriver]
  by_cases hheld : s.request.isSome
  · rw [State.ioControl, if_pos hheld, State.surfaces, if_pos (.inl hheld)]
    rfl
  · have hstart : ¬ (Host.Abi.SURFACES = sdStart ∧ bytes.length = SdStart.layout.size) :=
      fun h => absurd h.1 (by decide)
    have hstop : ¬ Host.Abi.SURFACES = sdStop := by decide
    have hstatus : ¬ (Host.Abi.SURFACES = sdStatus ∧ SdStatus.layout.size ≤ 0) := by decide
    rw [State.ioControl, if_neg hheld, if_neg hstart, if_neg hstop, if_neg hstatus,
      if_pos ⟨rfl, hlen⟩]
    by_cases hpublishing : s.publishing.isSome
    · rw [if_pos hpublishing, State.surfaces, if_pos (.inr hpublishing)]
      rfl
    · rw [if_neg hpublishing, State.surfaces, if_neg (not_or.2 ⟨hheld, hpublishing⟩), ← hdecode,
        register_decode]
      dsimp only
      split <;> rfl

end Driver
end SidecarDOS
