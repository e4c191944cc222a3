/-
# Trusting a device

`Identity` keeps at most 64 devices.  `trust` counts them before it knows whether the device is
one of them, and records its key before the file is written.  So it fails for a recorded device
when there are 64, and a failed write leaves the new key behind, which the device may never
learn.  Otherwise it trusts the device or changes nothing (`trust_all_or_nothing_iff`).
-/

import SidecarDOS.Host.Authenticate
import SidecarDOS.Library.Runs

namespace SidecarDOS
namespace Host
namespace Identity

open Library (Reaches)

/-- What is called on an identity; the host loads it again when it starts. -/
inductive Call where
  | trust (id key : Bytes) (written : Bool)
  | forgetAll (written : Bool)
  | load

def step (identity : Identity) : Call → Identity
  | .trust id key written => (identity.trust id key written).2
  | .forgetAll written => (identity.forgetAll written).2
  | .load => { identity with devices := identity.file }

/-- `load` has found no file: the identity is new, and the file written. -/
def Generated (identity : Identity) : Prop := identity.devices = ∅ ∧ identity.file = ∅

abbrev Reachable (identity : Identity) : Prop :=
  Reaches step Generated (fun _ _ => True) identity

variable {identity : Identity} {id key : Bytes} {written : Bool}

theorem length_insert_le (devices : AList fun _ : Bytes => Bytes) (id key : Bytes) :
    (devices.insert id key).keys.length ≤ devices.keys.length + 1 := by
  rw [AList.keys_insert, List.length_cons]
  exact Nat.succ_le_succ (@List.length_erase_le Bytes instBEqOfDecidableEq _ _)

/-- What `trust` does, for each outcome. -/
theorem trust_cases (identity : Identity) (id key : Bytes) (written : Bool) :
    64 ≤ identity.devices.keys.length ∧ identity.trust id key written =
        (.error (.ensure "trusted device limit reached"), identity) ∨
      identity.devices.keys.length < 64 ∧ written = true ∧ identity.trust id key written = (.ok (),
        { identity with
          devices := identity.devices.insert id key, file := identity.devices.insert id key }) ∨
      identity.devices.keys.length < 64 ∧ written = false ∧ identity.trust id key written =
        (.error (.ensure "device identities could not be written"),
          { identity with devices := identity.devices.insert id key }) := by
  unfold trust
  by_cases hroom : identity.devices.keys.length < 64
  · rw [if_neg (not_not.2 hroom)]
    cases written with
    | true => exact .inr (.inl ⟨hroom, rfl, rfl⟩)
    | false => exact .inr (.inr ⟨hroom, rfl, rfl⟩)
  · rw [if_pos hroom]
    exact .inl ⟨Nat.le_of_not_lt hroom, rfl⟩

/-- There are at most 64 devices, also in the file. -/
def Bounded (identity : Identity) : Prop :=
  identity.devices.keys.length ≤ 64 ∧ identity.file.keys.length ≤ 64

theorem Bounded.trust (h : identity.Bounded) (id key : Bytes) (written : Bool) :
    (identity.trust id key written).2.Bounded := by
  have hinsert := length_insert_le identity.devices id key
  obtain ⟨hfull, htrust⟩ | ⟨hroom, -, htrust⟩ | ⟨hroom, -, htrust⟩ :=
    trust_cases identity id key written
  · rw [htrust]
    exact h
  · rw [htrust]
    exact ⟨by dsimp only; omega, by dsimp only; omega⟩
  · rw [htrust]
    exact ⟨by dsimp only; omega, h.2⟩

theorem Reachable.bounded (h : identity.Reachable) : identity.Bounded := by
  refine h.invariant (fun _ hinit => ?_) fun identity call hbounded _ => ?_
  · rw [Bounded, hinit.1, hinit.2]
    exact ⟨Nat.zero_le _, Nat.zero_le _⟩
  · cases call with
    | trust id key written => exact hbounded.trust id key written
    | forgetAll written =>
      cases written with
      | true => exact ⟨Nat.zero_le _, Nat.zero_le _⟩
      | false => exact ⟨Nat.zero_le _, hbounded.2⟩
    | load => exact ⟨hbounded.2, hbounded.2⟩

/-- A call of `trust` records the key and nothing else, or changes nothing; it does not
refuse a device that is recorded for their number. -/
structure AllOrNothing (identity : Identity) (id key : Bytes) (written : Bool) : Prop where
  ok : (identity.trust id key written).1 = .ok () →
    (identity.trust id key written).2.trusted id = some key ∧
      (∀ other, other ≠ id →
        (identity.trust id key written).2.trusted other = identity.trusted other) ∧
      (identity.trust id key written).2.file = (identity.trust id key written).2.devices
  error : ∀ e, (identity.trust id key written).1 = .error e →
    ∀ other, (identity.trust id key written).2.trusted other = identity.trusted other
  recorded : identity.trusted id ≠ none →
    (identity.trust id key written).1 ≠ .error (.ensure "trusted device limit reached")
  bound : (identity.trust id key written).2.devices.keys.length ≤ 64

theorem AllOrNothing.of_full (hbound : identity.Bounded)
    (hfull : 64 ≤ identity.devices.keys.length) :
    identity.AllOrNothing id key written ↔ identity.trusted id = none := by
  have htrust : identity.trust id key written =
      (.error (.ensure "trusted device limit reached"), identity) :=
    if_pos (Nat.not_lt.2 hfull)
  constructor
  · intro h
    by_contra hrecorded
    exact h.recorded hrecorded (congrArg Prod.fst htrust)
  · intro hnone
    refine ⟨?_, ?_, fun hrecorded => absurd hnone hrecorded, ?_⟩ <;> rw [htrust]
    · exact nofun
    · exact fun _ _ _ => rfl
    · exact hbound.1

theorem AllOrNothing.of_room (hbound : identity.Bounded)
    (hroom : identity.devices.keys.length < 64) :
    identity.AllOrNothing id key written ↔ written = true ∨ identity.trusted id = some key := by
  have hid : (identity.trust id key written).2.trusted id = some key := by
    rw [trust_trusted, if_pos ⟨hroom, rfl⟩]
  have hother : ∀ other, other ≠ id →
      (identity.trust id key written).2.trusted other = identity.trusted other := by
    intro other hne
    rw [trust_trusted, if_neg fun h => hne h.2]
  have hbounded := (hbound.trust id key written).1
  obtain ⟨hfull, -⟩ | ⟨-, rfl, htrust⟩ | ⟨-, rfl, htrust⟩ := trust_cases identity id key written
  · exact absurd hroom (Nat.not_lt.2 hfull)
  · refine iff_of_true ⟨fun _ => ⟨hid, hother, by rw [htrust]⟩, ?_, ?_, hbounded⟩ (.inl rfl)
    · rw [htrust]
      exact nofun
    · rw [htrust]
      exact fun _ => nofun
  · constructor
    · intro h
      exact .inr ((h.error _ (congrArg Prod.fst htrust) id).symm.trans hid)
    · rintro (hwritten | hsame)
      · cases hwritten
      · refine ⟨?_, fun _ _ other => ?_, ?_, hbounded⟩
        · rw [htrust]
          exact nofun
        · by_cases hne : other = id
          · rw [hne, hid, hsame]
          · exact hother other hne
        · rw [htrust]
          exact fun _ h => absurd (Error.ensure.inj (Except.error.inj h)) (by decide)

/-- **When trusting a device is all or nothing.**  With fewer than 64 devices the file has to be
written, unless the key is known; with 64 the device may be none of them. -/
theorem trust_all_or_nothing_iff (h : identity.Reachable) (id key : Bytes) (written : Bool) :
    identity.AllOrNothing id key written ↔
      (identity.devices.keys.length < 64 → written = true ∨ identity.trusted id = some key) ∧
        (64 ≤ identity.devices.keys.length → identity.trusted id = none) := by
  have hbound := h.bounded
  rcases Nat.lt_or_ge identity.devices.keys.length 64 with hroom | hfull
  · rw [AllOrNothing.of_room hbound hroom]
    exact ⟨fun h => ⟨fun _ => h, fun hfull => absurd hroom (Nat.not_lt.2 hfull)⟩,
      fun h => h.1 hroom⟩
  · rw [AllOrNothing.of_full hbound hfull]
    exact ⟨fun h => ⟨fun hroom => absurd hroom (Nat.not_lt.2 hfull), fun _ => h⟩,
      fun h => h.2 hfull⟩

/-- A new identity with one device. -/
def sampleDevice : Identity := step { hostId := [1], cert := [2] } (.trust [3] [4] true)

theorem sampleDevice_reachable : sampleDevice.Reachable :=
  have hinit : Reachable { hostId := [1], cert := [2] } := .init ⟨rfl, rfl⟩
  .step (i := Call.trust [3] [4] true) hinit trivial

/-- The device is trusted with another key, which is written. -/
theorem trust_all_or_nothing_sample : sampleDevice.AllOrNothing [3] [5] true :=
  (trust_all_or_nothing_iff sampleDevice_reachable [3] [5] true).2
    ⟨fun _ => .inl rfl, fun hfull => absurd hfull (by decide)⟩

/-- The property fails for the device if the write fails: its key is another one in memory. -/
theorem trust_half_done : ¬ ∀ identity : Identity, identity.Reachable →
    ∀ id key written, identity.AllOrNothing id key written := by
  intro h
  have hkey := (h _ sampleDevice_reachable [3] [5] false).error _ rfl [3]
  exact absurd hkey (by decide)

end Identity
end Host
end SidecarDOS
