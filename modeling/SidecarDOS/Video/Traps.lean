/-
# The assembler never traps

Swift checks its arithmetic, and the fragments come from the network.  Every method of the
assembler is written here once more with the checks that the source has, so that it may end in a
`Fault`: a trap, or a part that `next` misses in a complete frame.  An assembler
that any calls lead to is `WellFormed`, whatever the fragments are, and then no check fails
(`assembler_sound`): the methods are those without the checks.
-/

import SidecarDOS.Library.Checked
import SidecarDOS.Video.Eviction

namespace SidecarDOS
namespace Ipad

open Library (Checked.add Checked.sub Checked.narrow Checked.ok_bind Checked.add_bind
  Checked.sub_bind Checked.narrow_bind Checked.foldlM_eq Reaches)

/-- What must not happen. -/
inductive Fault where
  | trap | missingPart
  deriving DecidableEq

/-! ### The methods with their checks -/

namespace Partial

/-- The second half of `ingest`; the sum of the sizes is an `Int`, and is formed twice. -/
def addChecked (p : Partial) (f : VideoFragment) : Except Fault (Except WireError Partial) :=
  if p.metadata.generation = f.generation ∧ p.metadata.count = f.count ∧
      p.metadata.totalBytes = f.totalBytes ∧ p.metadata.captureTimestamp = f.captureTimestamp ∧
      p.metadata.encodeTimestamp = f.encodeTimestamp ∧ p.metadata.keyframe = f.keyframe then
    match p.parts.lookup f.index.toNat with
    | none => do
      let sum ← Checked.add 63 .trap p.bytes f.data.length
      if sum ≤ f.totalBytes.toNat then
        let bytes ← Checked.add 63 .trap p.bytes f.data.length
        return .ok { p with
          parts := p.parts.insert f.index.toNat f.data
          bytes := bytes }
      else return .error .oversized
    | some part => return if part ≠ f.data then .error .malformed else .ok p
  else return .error .malformed

def assembleChecked (p : Partial) : Except Fault Bytes :=
  match p.assemble with
  | some data => .ok data
  | none => .error .missingPart

end Partial

namespace FrameAssembler

/-- `discard` with the conversion of the missing parts' number to `UInt32`. -/
def discardChecked (a : FrameAssembler) (id : ℕ) : Except Fault FrameAssembler :=
  match a.frames.lookup id with
  | some p => do
    let missing ← Checked.narrow 32 .trap (p.metadata.count.toNat - p.parts.keys.length)
    return { a with
      frames := a.frames.erase id
      missingFragments := a.missingFragments + UInt32.ofNat missing
      losses := a.losses + 1
      requiresKeyframe := true }
  | none => return a

def expireOneChecked (now : ℕ) (a : FrameAssembler) (id : ℕ) : Except Fault FrameAssembler :=
  match a.frames.lookup id with
  | some p =>
    if now ≥ p.arrival then do
      let age ← Checked.sub .trap now p.arrival
      if age > 40000 then a.discardChecked id else return a
    else return a
  | none => return a

def expireChecked (a : FrameAssembler) (now : ℕ) : Except Fault FrameAssembler :=
  a.frames.keys.foldlM (expireOneChecked now) a

/-- The oldest of two assemblies makes room. -/
def evictChecked (a : FrameAssembler) : Except Fault FrameAssembler :=
  match a.frames.keys.min? with
  | some oldest => if a.frames.keys.length ≥ 2 then a.discardChecked oldest else return a
  | none => return a

def trackChecked (a : FrameAssembler) (f : VideoFragment) (now : ℕ) :
    Except Fault FrameAssembler :=
  match a.frames.lookup f.frameId.toNat with
  | some _ => return a
  | none => do
    let a ← a.evictChecked
    return { a with frames := a.frames.insert f.frameId.toNat ⟨f, now, ∅, 0⟩ }

def ingestChecked (a : FrameAssembler) (f : VideoFragment) (now : ℕ) :
    Except Fault (FrameAssembler × Except WireError Unit) :=
  if ¬ InBounds f then return (a, .error .malformed)
  else if f.frameId.toNat ≤ a.last then return (a, .ok ())
  else do
    let a := { a with receivedFragments := a.receivedFragments + 1 }
    let a ← a.expireChecked now
    let a ← a.trackChecked f now
    match a.frames.lookup f.frameId.toNat with
    | none => return (a, .ok ())
    | some p =>
      match ← p.addChecked f with
      | .error e => return (a, .error e)
      | .ok p => return ({ a with frames := a.frames.insert f.frameId.toNat p }, .ok ())

/-- `last != 0, id != last + 1`: a frame in front of this one is missing. -/
def gapChecked (a : FrameAssembler) (id : ℕ) : Except Fault Bool :=
  if a.last ≠ 0 then do
    let successor ← Checked.add 64 .trap a.last 1
    return id ≠ successor
  else return false

/-- The condition under which `next` waits for the missing frame. -/
def waitsChecked (a : FrameAssembler) (id : ℕ) (p : Partial) (now : ℕ) : Except Fault Bool := do
  let gap ← a.gapChecked id
  if gap ∧ p.metadata.keyframe = 0 then
    let age ← Checked.sub .trap now p.arrival
    return age < 8000
  else return false

def nextLoopChecked (now : ℕ) (a : FrameAssembler) :
    List ℕ → Except Fault (FrameAssembler × Option ReceivedFrame)
  | [] => return (a, none)
  | id :: ids =>
    match a.frames.lookup id with
    | none => nextLoopChecked now a ids
    | some p =>
      if ¬ p.complete then nextLoopChecked now a ids
      else do
        let waits ← a.waitsChecked id p now
        if waits then return (a, none)
        else
          let gap ← a.gapChecked id
          let a := if gap then { a with requiresKeyframe := true } else a
          if a.requiresKeyframe ∧ p.metadata.keyframe = 0 then
            let a ← a.discardChecked id
            nextLoopChecked now a ids
          else
            let data ← p.assembleChecked
            return (a.deliver id, some
              { video := ⟨p.metadata.generation, UInt64.ofNat id, p.metadata.captureTimestamp,
                  p.metadata.encodeTimestamp, p.metadata.sendTimestamp, p.metadata.keyframe, data⟩
                receiveTimestamp := now })

def nextChecked (a : FrameAssembler) (now : ℕ) :
    Except Fault (FrameAssembler × Option ReceivedFrame) :=
  nextLoopChecked now a (a.frames.keys.insertionSort (· ≤ ·))

end FrameAssembler

/-! ### The representation -/

namespace Partial

/-- What an assembly is, whatever fragments it was made of. -/
structure WellFormed (p : Partial) : Prop where
  parts : ∀ i ∈ p.parts, i < p.metadata.count.toNat
  bytes : p.bytes = (p.parts.entries.map fun part => part.2.length).sum
  fits : p.bytes ≤ p.metadata.totalBytes.toNat
  totalBytes : p.metadata.totalBytes.toNat ≤ 2 * 1024 * 1024
  number : p.parts.keys.length ≤ p.metadata.count.toNat
  count : p.metadata.count.toNat ≤ 4096

variable {p p' : Partial} {f : VideoFragment}

theorem keys_subset (h : ∀ i ∈ p.parts, i < p.metadata.count.toNat) :
    p.parts.keys ⊆ List.range p.metadata.count.toNat :=
  fun i hi => List.mem_range.2 (h i (AList.mem_keys.2 hi))

theorem length_keys_le (h : ∀ i ∈ p.parts, i < p.metadata.count.toNat) :
    p.parts.keys.length ≤ p.metadata.count.toNat := by
  have hle := (List.subperm_of_subset p.parts.keys_nodup (keys_subset h)).length_le
  rwa [List.length_range] at hle

theorem WellFormed.new (hf : FrameAssembler.InBounds f) (now : ℕ) :
    WellFormed ⟨f, now, ∅, 0⟩ := by
  obtain ⟨-, hcount, -, -, htotal, -⟩ := hf
  exact ⟨fun i hi => absurd hi (AList.notMem_empty i), rfl, Nat.zero_le _, htotal, Nat.zero_le _,
    UInt16.le_iff_toNat_le.1 hcount⟩

theorem WellFormed.insert (h : p.WellFormed) {i : ℕ} {data : Bytes} (hnew : i ∉ p.parts)
    (hi : i < p.metadata.count.toNat)
    (hfits : p.bytes + data.length ≤ p.metadata.totalBytes.toNat) :
    WellFormed { p with parts := p.parts.insert i data, bytes := p.bytes + data.length } := by
  have hparts : ∀ j ∈ p.parts.insert i data, j < p.metadata.count.toNat := by
    intro j hj
    obtain rfl | hj := (AList.mem_insert _).1 hj
    · exact hi
    · exact h.parts j hj
  refine ⟨hparts, ?_, hfits, h.totalBytes, ?_, h.count⟩
  · dsimp only
    rw [AList.entries_insert_of_notMem hnew, List.map_cons, List.sum_cons, h.bytes, add_comm]
  · exact length_keys_le (p := { p with parts := p.parts.insert i data }) hparts

theorem WellFormed.add (h : p.WellFormed) (hf : FrameAssembler.InBounds f)
    (hadd : p.add f = .ok p') : p'.WellFormed ∧ p'.arrival = p.arrival := by
  unfold Partial.add at hadd
  split at hadd
  · rename_i hsame
    obtain ⟨-, hcount, htotal, -⟩ := hsame
    split at hadd
    · rename_i hnew
      split at hadd
      · rename_i hfits
        cases hadd
        have hindex : f.index.toNat < p.metadata.count.toNat := by
          rw [hcount]
          exact UInt16.lt_iff_toNat_lt.1 hf.2.2.1
        rw [← htotal] at hfits
        exact ⟨h.insert (AList.lookup_eq_none.1 hnew) hindex hfits, rfl⟩
      · cases hadd
    · split at hadd
      · cases hadd
      · cases hadd
        exact ⟨h, rfl⟩
  · cases hadd

/-- A complete assembly has every part. -/
theorem WellFormed.mem_parts (h : p.WellFormed) (hcomplete : p.complete = true) {i : ℕ}
    (hi : i < p.metadata.count.toNat) : i ∈ p.parts := by
  have hlength : p.parts.keys.length = p.metadata.count.toNat := (of_decide_eq_true hcomplete).1
  -- the indices are distinct, below the count, and as many as the count
  have hsubperm := List.subperm_of_subset p.parts.keys_nodup (keys_subset h.parts)
  have hperm := hsubperm.perm_of_length_le (by rw [List.length_range, hlength])
  exact AList.mem_keys.2 (hperm.mem_iff.2 (List.mem_range.2 hi))

theorem WellFormed.assemble (h : p.WellFormed) (hcomplete : p.complete = true) :
    ∃ data, p.assemble = some data := by
  have hpart (i : ℕ) (hi : i ∈ List.range p.metadata.count.toNat) :
      p.parts.lookup i = some ((p.parts.lookup i).getD []) := by
    obtain ⟨part, hpart⟩ := Option.isSome_iff_exists.1
      (AList.lookup_isSome.2 (h.mem_parts hcomplete (List.mem_range.1 hi)))
    rw [hpart]
    rfl
  exact ⟨_, foldlM_lookup _ hpart []⟩

theorem WellFormed.addChecked (h : p.WellFormed) (hf : FrameAssembler.InBounds f) :
    p.addChecked f = .ok (p.add f) := by
  unfold Partial.addChecked Partial.add
  split
  · cases p.parts.lookup f.index.toNat with
    | none =>
      have hroom : p.bytes + f.data.length < 2 ^ 63 := by
        have hsmall : f.data.length ≤ 1100 := hf.2.2.2.2.2.2.1
        have hfits := h.fits
        have htotal := h.totalBytes
        omega
      dsimp only
      rw [Checked.add_bind hroom]
      split
      · rw [Checked.add_bind hroom]
        rfl
      · rfl
    | some part => rfl
  · rfl

end Partial

namespace FrameAssembler

/-- What the assembler is at a time after which no fragment has arrived. -/
structure WellFormed (a : FrameAssembler) (now : ℕ) : Prop where
  few : a.frames.keys.length ≤ 2
  above : ∀ id p, a.frames.lookup id = some p → a.last < id ∧ id < 2 ^ 64
  assembly : ∀ id p, a.frames.lookup id = some p → p.WellFormed
  arrival : ∀ id p, a.frames.lookup id = some p → p.arrival ≤ now

variable {a b : FrameAssembler} {f : VideoFragment} {now later id : ℕ} {p : Partial}

theorem length_keys_le (h : ∀ id p, b.frames.lookup id = some p → a.frames.lookup id = some p) :
    b.frames.keys.length ≤ a.frames.keys.length := by
  refine (List.subperm_of_subset b.frames.keys_nodup fun id hid => ?_).length_le
  obtain ⟨p, hp⟩ := mem_keys_iff.1 hid
  exact mem_keys_iff.2 ⟨p, h id p hp⟩

/-- Assemblies may be removed, and those that are kept may follow a later frame. -/
theorem WellFormed.of_lookup (h : a.WellFormed now) (hle : now ≤ later)
    (hb : ∀ id p, b.frames.lookup id = some p → b.last < id ∧ a.frames.lookup id = some p) :
    b.WellFormed later where
  few := (length_keys_le fun id p hp => (hb id p hp).2).trans h.few
  above id p hp := ⟨(hb id p hp).1, (h.above id p (hb id p hp).2).2⟩
  assembly id p hp := h.assembly id p (hb id p hp).2
  arrival id p hp := (h.arrival id p (hb id p hp).2).trans hle

theorem WellFormed.shrinks (h : a.WellFormed now) (hle : now ≤ later) (hs : Shrinks a b) :
    b.WellFormed later :=
  h.of_lookup hle fun id p hp => ⟨hs.last ▸ (h.above id p (hs.lookup hp)).1, hs.lookup hp⟩

theorem WellFormed.same (h : a.WellFormed now) (hle : now ≤ later) (hframes : b.frames = a.frames)
    (hlast : b.last = a.last) : b.WellFormed later := by
  refine h.of_lookup hle fun id p hp => ?_
  rw [hframes] at hp
  exact ⟨hlast ▸ (h.above id p hp).1, hp⟩

theorem WellFormed.insert (h : a.WellFormed now) (hlast : a.last < id) (hid : id < 2 ^ 64)
    (hroom : id ∈ a.frames.keys ∨ a.frames.keys.length < 2) (hp : p.WellFormed)
    (harrival : p.arrival ≤ now) :
    WellFormed { a with frames := a.frames.insert id p } now := by
  have hlookup (id' : ℕ) (q : Partial) (hq : (a.frames.insert id p).lookup id' = some q) :
      id' = id ∧ q = p ∨ a.frames.lookup id' = some q := by
    by_cases heq : id' = id
    · rw [heq, AList.lookup_insert] at hq
      exact .inl ⟨heq, (Option.some.inj hq).symm⟩
    · rw [AList.lookup_insert_ne heq] at hq
      exact .inr hq
  constructor
  · dsimp only
    rw [AList.keys_insert, List.length_cons]
    obtain hmem | hroom := hroom
    · have hpos := List.length_pos_of_mem hmem
      have hfew := h.few
      rw [List.length_erase_of_mem hmem]
      omega
    · have hle : (a.frames.keys.erase id).length ≤ a.frames.keys.length := List.length_erase_le
      omega
  · intro id' q hq
    obtain ⟨rfl, -⟩ | hq := hlookup id' q hq
    · exact ⟨hlast, hid⟩
    · exact h.above id' q hq
  · intro id' q hq
    obtain ⟨-, rfl⟩ | hq := hlookup id' q hq
    · exact hp
    · exact h.assembly id' q hq
  · intro id' q hq
    obtain ⟨-, rfl⟩ | hq := hlookup id' q hq
    · exact harrival
    · exact h.arrival id' q hq

theorem WellFormed.discard (h : a.WellFormed now) (id : ℕ) : (a.discard id).WellFormed now :=
  h.shrinks (Nat.le_refl now) (a.discard_shrinks id)

theorem WellFormed.expire (h : a.WellFormed now) (hle : now ≤ later) :
    (a.expire later).WellFormed later :=
  h.shrinks hle (a.expire_shrinks later)

theorem length_discard (hmem : id ∈ a.frames.keys) :
    (a.discard id).frames.keys.length = a.frames.keys.length - 1 := by
  obtain ⟨p, hp⟩ := mem_keys_iff.1 hmem
  unfold FrameAssembler.discard
  rw [hp]
  dsimp only
  rw [AList.keys_erase, List.length_erase_of_mem hmem]

/-- There is room for the assembly that `track` adds. -/
theorem WellFormed.track (h : a.WellFormed now) (hf : InBounds f)
    (hlast : a.last < f.frameId.toNat) : (a.track f now).WellFormed now := by
  have hnew {b : FrameAssembler} (hs : Shrinks a b) (hroom : b.frames.keys.length < 2) :
      WellFormed { b with frames := b.frames.insert f.frameId.toNat ⟨f, now, ∅, 0⟩ } now :=
    (h.shrinks (Nat.le_refl now) hs).insert (hs.last ▸ hlast) f.frameId.toNat_lt (.inr hroom)
      (.new hf now) (Nat.le_refl now)
  have hfew := h.few
  unfold FrameAssembler.track
  split
  · exact h
  · cases hmin : a.frames.keys.min? with
    | none =>
      refine hnew (.refl a) ?_
      rw [List.min?_eq_none_iff.1 hmin]
      decide
    | some oldest =>
      dsimp only
      split
      · refine hnew (a.discard_shrinks oldest) ?_
        rw [length_discard (List.min?_mem hmin)]
        omega
      · rename_i hroom
        exact hnew (.refl a) (Nat.lt_of_not_ge hroom)

theorem WellFormed.counted (h : a.WellFormed now) (hle : now ≤ later) :
    WellFormed { a with receivedFragments := a.receivedFragments + 1 } later :=
  h.same hle rfl rfl

/-- Where `ingest` looks for the assembly of the fragment. -/
theorem WellFormed.tracked (h : a.WellFormed now) (hle : now ≤ later) (hf : InBounds f)
    (hlast : ¬ f.frameId.toNat ≤ a.last) :
    (({ a with receivedFragments := a.receivedFragments + 1 }.expire later).track f
      later).WellFormed later := by
  have hexpired := (h.counted hle).expire (Nat.le_refl later)
  have hshrinks := expire_shrinks { a with receivedFragments := a.receivedFragments + 1 } later
  exact hexpired.track hf (hshrinks.last.trans_lt (Nat.lt_of_not_ge hlast))

/-- What `ingest` leaves, also where it throws. -/
theorem WellFormed.ingest (h : a.WellFormed now) (hle : now ≤ later) :
    (a.ingest f later).1.WellFormed later := by
  have hlater : a.WellFormed later := h.same hle rfl rfl
  unfold FrameAssembler.ingest
  split
  · exact hlater
  rename_i hf
  split
  · exact hlater
  rename_i hlast
  have htracked := h.tracked hle (not_not.1 hf) hlast
  dsimp only
  generalize FrameAssembler.track _ f later = b at htracked
  split
  · exact htracked
  rename_i p hp
  split
  · exact htracked
  · rename_i p' hadd
    obtain ⟨hp', harrival⟩ := (htracked.assembly _ p hp).add (not_not.1 hf) hadd
    obtain ⟨hbehind, hid⟩ := htracked.above _ p hp
    exact htracked.insert hbehind hid (.inl (mem_keys_iff.2 ⟨p, hp⟩)) hp'
      (harrival.trans_le (htracked.arrival _ p hp))

theorem WellFormed.next (h : a.WellFormed now) (hle : now ≤ later) :
    (a.next later).1.WellFormed later := by
  obtain ⟨a', hnext, hs⟩ | ⟨a', r, hnext, hd⟩ := a.next_cases later
  · rw [hnext]
    exact h.shrinks hle hs
  · rw [hnext]
    exact h.of_lookup hle fun id p hp => hd.lookup hp

/-! ### No check fails -/

theorem WellFormed.discardChecked (h : a.WellFormed now) (id : ℕ) :
    a.discardChecked id = .ok (a.discard id) := by
  unfold FrameAssembler.discardChecked FrameAssembler.discard
  cases hp : a.frames.lookup id with
  | none => rfl
  | some p =>
    have hassembly := h.assembly id p hp
    have hnumber := hassembly.number
    have hcount := hassembly.count
    dsimp only
    rw [Checked.narrow_bind hnumber (by omega)]
    rfl

theorem WellFormed.expireChecked (h : a.WellFormed now) (later : ℕ) :
    a.expireChecked later = .ok (a.expire later) := by
  refine Checked.foldlM_eq (I := fun a => a.WellFormed now) (fun b id hb => ?_)
    (fun b id hb => hb.shrinks (Nat.le_refl now) (expireOne_shrinks later b id)) _ h
  unfold expireOneChecked expireOne
  cases hp : b.frames.lookup id with
  | none => rfl
  | some p =>
    dsimp only
    by_cases harrived : later ≥ p.arrival
    · rw [if_pos harrived, Checked.sub_bind harrived]
      by_cases hold : later - p.arrival > 40000
      · rw [if_pos hold, if_pos ⟨harrived, hold⟩]
        exact hb.discardChecked id
      · rw [if_neg hold, if_neg fun h => hold h.2]
        rfl
    · rw [if_neg harrived, if_neg fun h => harrived h.1]
      rfl

theorem WellFormed.trackChecked (h : a.WellFormed now) (f : VideoFragment) (later : ℕ) :
    a.trackChecked f later = .ok (a.track f later) := by
  unfold FrameAssembler.trackChecked FrameAssembler.track evictChecked
  cases a.frames.lookup f.frameId.toNat with
  | some p => rfl
  | none =>
    cases a.frames.keys.min? with
    | none => rfl
    | some oldest =>
      dsimp only
      split
      · rw [h.discardChecked]
        rfl
      · rfl

theorem WellFormed.ingestChecked (h : a.WellFormed now) (hle : now ≤ later) (f : VideoFragment) :
    a.ingestChecked f later = .ok (a.ingest f later) := by
  unfold FrameAssembler.ingestChecked FrameAssembler.ingest
  split
  · rfl
  rename_i hf
  split
  · rfl
  rename_i hlast
  have hcounted := h.counted hle
  have hexpired := hcounted.expire (Nat.le_refl later)
  have htracked := h.tracked hle (not_not.1 hf) hlast
  dsimp only
  rw [hcounted.expireChecked, Checked.ok_bind, hexpired.trackChecked, Checked.ok_bind]
  generalize FrameAssembler.track _ f later = b at htracked
  cases hp : b.frames.lookup f.frameId.toNat with
  | none => rfl
  | some p =>
    dsimp only
    rw [(htracked.assembly _ p hp).addChecked (not_not.1 hf)]
    cases p.add f with
    | error e => rfl
    | ok p' => rfl

/-- Where `last + 1` is formed, there is a frame behind the last one. -/
theorem gapChecked_eq (hbehind : a.last < id) (hid : id < 2 ^ 64) :
    a.gapChecked id = .ok (decide (a.last ≠ 0 ∧ id ≠ a.last + 1)) := by
  unfold gapChecked
  by_cases hlast : a.last ≠ 0
  · rw [if_pos hlast, Checked.add_bind (by omega)]
    exact congrArg Except.ok (decide_eq_decide.2 (and_iff_right hlast).symm)
  · rw [if_neg hlast, decide_eq_false fun h => hlast h.1]
    rfl

/-- Where the age of an assembly is formed, it has arrived. -/
theorem WellFormed.waitsChecked (h : a.WellFormed now) (hle : now ≤ later)
    (hp : a.frames.lookup id = some p) : a.waitsChecked id p later =
      .ok (decide (a.last ≠ 0 ∧ id ≠ a.last + 1 ∧ p.metadata.keyframe = 0 ∧
        later - p.arrival < 8000)) := by
  obtain ⟨hbehind, hid⟩ := h.above id p hp
  have harrival := (h.arrival id p hp).trans hle
  unfold FrameAssembler.waitsChecked
  rw [gapChecked_eq hbehind hid]
  simp only [Checked.ok_bind, decide_eq_true_eq]
  by_cases hgap : (a.last ≠ 0 ∧ id ≠ a.last + 1) ∧ p.metadata.keyframe = 0
  · rw [if_pos hgap, Checked.sub_bind harrival]
    refine congrArg Except.ok (decide_eq_decide.2 ⟨fun hage => ?_, fun h => h.2.2.2⟩)
    exact ⟨hgap.1.1, hgap.1.2, hgap.2, hage⟩
  · rw [if_neg hgap, decide_eq_false fun h => hgap ⟨⟨h.1, h.2.1⟩, h.2.2.1⟩]
    rfl

theorem WellFormed.nextLoopChecked (h : a.WellFormed now) (hle : now ≤ later) (ids : List ℕ) :
    nextLoopChecked later a ids = .ok (nextLoop later a ids) := by
  induction ids generalizing a with
  | nil => rfl
  | cons id ids ih =>
    unfold FrameAssembler.nextLoopChecked FrameAssembler.nextLoop
    cases hp : a.frames.lookup id with
    | none => exact ih h
    | some p =>
      obtain ⟨hbehind, hid⟩ := h.above id p hp
      dsimp only
      split
      · exact ih h
      rename_i hcomplete
      rw [not_not] at hcomplete
      rw [h.waitsChecked hle hp, gapChecked_eq hbehind hid]
      simp only [Checked.ok_bind, decide_eq_true_eq]
      split
      · rfl
      generalize hb : (if a.last ≠ 0 ∧ id ≠ a.last + 1 then { a with requiresKeyframe := true }
        else a : FrameAssembler) = b
      have hwell : b.WellFormed now := by
        rw [← hb]
        split
        · exact h.same (Nat.le_refl now) rfl rfl
        · exact h
      split
      · rw [hwell.discardChecked, Checked.ok_bind]
        exact ih (hwell.discard id)
      · obtain ⟨data, hdata⟩ := (h.assembly id p hp).assemble hcomplete
        unfold Partial.assembleChecked
        rw [hdata]
        rfl

theorem WellFormed.nextChecked (h : a.WellFormed now) (hle : now ≤ later) :
    a.nextChecked later = .ok (a.next later) :=
  h.nextLoopChecked hle _

/-! ### Runs -/

def Call.time : Call → ℕ
  | .ingest _ now | .expire now | .next now => now

/-- An assembler and the time of its last call. -/
structure Timed where
  assembler : FrameAssembler := {}
  time : ℕ := 0

namespace Timed

def step (t : Timed) (c : Call) : Timed := ⟨t.assembler.call c, c.time⟩

/-- What calls at times that do not decrease lead to, whether they throw or not. -/
abbrev Reachable (t : Timed) : Prop :=
  Reaches step (fun t => t.assembler = {}) (fun t c => t.time ≤ c.time) t

variable {t : Timed}

theorem wellFormed_init (now : ℕ) : WellFormed {} now where
  few := Nat.zero_le 2
  above _ _ := nofun
  assembly _ _ := nofun
  arrival _ _ := nofun

theorem wellFormed_call {a : FrameAssembler} {now : ℕ} (h : a.WellFormed now) (c : Call)
    (hle : now ≤ c.time) : (a.call c).WellFormed c.time := by
  cases c with
  | ingest f later => exact h.ingest hle
  | expire later => exact h.expire hle
  | next later => exact h.next hle

theorem Reachable.wellFormed (h : t.Reachable) : t.assembler.WellFormed t.time := by
  refine Reaches.invariant (I := fun t => t.assembler.WellFormed t.time) (fun t hinit => ?_)
    (fun t c hwell hle => wellFormed_call hwell c hle) h
  rw [hinit]
  exact wellFormed_init t.time

/-- **The assembler stays well formed and never traps.**  Behind any calls, whatever the fragments
say, two assemblies at most are held, each of a frame behind the last one and with what its
parts say; every complete one has all of its parts, and at any later time no method fails one
of its checks. -/
theorem assembler_sound (h : t.Reachable) :
    t.assembler.WellFormed t.time ∧
    (∀ id p, t.assembler.frames.lookup id = some p → p.complete = true →
      ∃ data, p.assemble = some data) ∧
    ∀ now, t.time ≤ now →
      (∀ f, t.assembler.ingestChecked f now = .ok (t.assembler.ingest f now)) ∧
      t.assembler.expireChecked now = .ok (t.assembler.expire now) ∧
      t.assembler.nextChecked now = .ok (t.assembler.next now) := by
  have hwell := h.wellFormed
  refine ⟨hwell, fun id p hp hcomplete => (hwell.assembly id p hp).assemble hcomplete,
    fun now hle => ⟨fun f => hwell.ingestChecked hle f, hwell.expireChecked now,
      hwell.nextChecked hle⟩⟩

/-- A frame of one fragment, and then another fragment of it that contradicts the first. -/
def sampleContradicted : Timed :=
  step (step {} (.ingest (sampleFragment 5) 0))
    (.ingest { sampleFragment 5 with generation := 2 } 1)

/-- The second fragment is rejected, and `next` delivers the first. -/
theorem assembler_sound_sample : (sampleContradicted.assembler.next 2).2.isSome = true ∧
    sampleContradicted.assembler.nextChecked 2 = .ok (sampleContradicted.assembler.next 2) :=
  have hfirst : Reachable (step {} (.ingest (sampleFragment 5) 0)) :=
    .step (i := Call.ingest (sampleFragment 5) 0) (.init rfl) (Nat.le_refl 0)
  have hsecond : Reachable sampleContradicted :=
    .step (i := Call.ingest { sampleFragment 5 with generation := 2 } 1) hfirst (Nat.zero_le 1)
  ⟨by decide, ((assembler_sound hsecond).2.2 2 (Nat.le_succ 1)).2.2⟩

/-- Were the clock to go back, `next` would trap on the age of a frame behind a gap. -/
example : ([.ingest (sampleFragment 5) 0, .next 0, .ingest { sampleFragment 7 with keyframe := 0 }
    10].foldl call {}).nextChecked 9 = .error .trap := by
  rfl

end Timed

end FrameAssembler
end Ipad
end SidecarDOS
