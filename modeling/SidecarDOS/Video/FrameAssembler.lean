/-
# The frame assembler

`FrameAssembler` of `ipad/SidecarDOS/Network/FrameAssembler.swift`.  A method
that mutates returns the assembler it leaves, also where it throws: `ingest`
counts, expires and opens an assembly before it rejects.  Dictionaries are
association lists under the numbers their keys stand for.  Frame ids and times
in microseconds are natural numbers; ids that are compared with `last + 1` lie
above `last`, and times do not decrease, so no checked operation of the source
overflows.
-/

import SidecarDOS.Protocol.Messages
import Mathlib.Data.List.AList
import Mathlib.Data.List.Sort

namespace SidecarDOS
namespace Ipad

structure ReceivedFrame where
  video : VideoFrame
  receiveTimestamp : ℕ
  deriving DecidableEq

/-- A frame some fragments of which have arrived: `meta` of the source is
`metadata`, and `parts` are by fragment index. -/
structure Partial where
  metadata : VideoFragment
  arrival : ℕ
  parts : AList (fun _ : ℕ => Bytes)
  bytes : ℕ

namespace Partial

def complete (p : Partial) : Bool :=
  p.parts.keys.length = p.metadata.count.toNat ∧ p.bytes = p.metadata.totalBytes.toNat

/-- The second half of `ingest`, on the assembly of the fragment's frame. -/
def add (p : Partial) (f : VideoFragment) : Except WireError Partial :=
  if p.metadata.generation = f.generation ∧ p.metadata.count = f.count ∧
      p.metadata.totalBytes = f.totalBytes ∧ p.metadata.captureTimestamp = f.captureTimestamp ∧
      p.metadata.encodeTimestamp = f.encodeTimestamp ∧ p.metadata.keyframe = f.keyframe then
    match p.parts.lookup f.index.toNat with
    | none =>
      if p.bytes + f.data.length ≤ f.totalBytes.toNat then
        .ok { p with
          parts := p.parts.insert f.index.toNat f.data
          bytes := p.bytes + f.data.length }
      else .error .oversized
    | some part => if part ≠ f.data then .error .malformed else .ok p
  else .error .malformed

/-- The loop of `next` over `0..<count`; `none` where a part is missing. -/
def assemble (p : Partial) : Option Bytes :=
  (List.range p.metadata.count.toNat).foldlM (fun data index => (data ++ ·) <$> p.parts.lookup index) []

/-- The loop appends the parts if none is missing. -/
theorem foldlM_lookup {parts : AList (fun _ : ℕ => Bytes)} {part : ℕ → Bytes} (indices : List ℕ)
    (h : ∀ i ∈ indices, parts.lookup i = some (part i)) (data : Bytes) :
    indices.foldlM (fun data index => (data ++ ·) <$> parts.lookup index) data =
      some (data ++ indices.flatMap part) := by
  induction indices generalizing data with
  | nil =>
    rw [List.foldlM_nil, List.flatMap_nil, List.append_nil]
    rfl
  | cons i indices ih =>
    obtain ⟨hi, hrest⟩ := List.forall_mem_cons.1 h
    rw [List.foldlM_cons, hi]
    exact (ih hrest _).trans (by rw [List.flatMap_cons, List.append_assoc])

end Partial

structure FrameAssembler where
  frames : AList (fun _ : ℕ => Partial) := ∅
  last : ℕ := 0
  losses : UInt32 := 0
  receivedFragments : UInt32 := 0
  missingFragments : UInt32 := 0
  requiresKeyframe : Bool := true

namespace FrameAssembler

def discard (a : FrameAssembler) (id : ℕ) : FrameAssembler :=
  match a.frames.lookup id with
  | some p => { a with
      frames := a.frames.erase id
      missingFragments :=
        a.missingFragments + UInt32.ofNat (p.metadata.count.toNat - p.parts.keys.length)
      losses := a.losses + 1
      requiresKeyframe := true }
  | none => a

/-- One turn of the loop of `expire`. -/
def expireOne (now : ℕ) (a : FrameAssembler) (id : ℕ) : FrameAssembler :=
  match a.frames.lookup id with
  | some p => if now ≥ p.arrival ∧ now - p.arrival > 40000 then a.discard id else a
  | none => a

def expire (a : FrameAssembler) (now : ℕ) : FrameAssembler := a.frames.keys.foldl (expireOne now) a

/-- `if frames[f.frameId] == nil { … }`: the oldest of two assemblies makes room. -/
def track (a : FrameAssembler) (f : VideoFragment) (now : ℕ) : FrameAssembler :=
  match a.frames.lookup f.frameId.toNat with
  | some _ => a
  | none =>
    let a := match a.frames.keys.min? with
      | some oldest => if a.frames.keys.length ≥ 2 then a.discard oldest else a
      | none => a
    { a with frames := a.frames.insert f.frameId.toNat ⟨f, now, ∅, 0⟩ }

/-- The first guard of `ingest`. -/
def InBounds (f : VideoFragment) : Prop :=
  f.count > 0 ∧ f.count ≤ 4096 ∧ f.index < f.count ∧ f.totalBytes > 0 ∧
    f.totalBytes.toNat ≤ MAX_FRAME ∧ f.data ≠ [] ∧ f.data.length ≤ 1100 ∧ f.keyframe ≤ 1

instance (f : VideoFragment) : Decidable (InBounds f) := by
  unfold InBounds
  infer_instance

def ingest (a : FrameAssembler) (f : VideoFragment) (now : ℕ) :
    FrameAssembler × Except WireError Unit :=
  if ¬ InBounds f then (a, .error .malformed)
  else if f.frameId.toNat ≤ a.last then (a, .ok ())
  else
    let a := { a with receivedFragments := a.receivedFragments + 1 }
    let a := a.expire now
    let a := a.track f now
    match a.frames.lookup f.frameId.toNat with
    | none => (a, .ok ())
    | some p =>
      match p.add f with
      | .error e => (a, .error e)
      | .ok p => ({ a with frames := a.frames.insert f.frameId.toNat p }, .ok ())

/-- The state `next` leaves when it returns the frame `id`: its assembly and
every older one are removed. -/
def deliver (a : FrameAssembler) (id : ℕ) : FrameAssembler :=
  let frames := a.frames.erase id
  { a with
    frames := (frames.keys.filter (· < id)).foldl (fun frames old => frames.erase old) frames
    last := id
    requiresKeyframe := false }

/-- The loop of `next` over the sorted ids. -/
def nextLoop (now : ℕ) (a : FrameAssembler) : List ℕ → FrameAssembler × Option ReceivedFrame
  | [] => (a, none)
  | id :: ids =>
    match a.frames.lookup id with
    | none => nextLoop now a ids
    | some p =>
      if ¬ p.complete then nextLoop now a ids
      else if a.last ≠ 0 ∧ id ≠ a.last + 1 ∧ p.metadata.keyframe = 0 ∧ now - p.arrival < 8000 then
        (a, none)
      else
        let a := if a.last ≠ 0 ∧ id ≠ a.last + 1 then { a with requiresKeyframe := true } else a
        if a.requiresKeyframe ∧ p.metadata.keyframe = 0 then nextLoop now (a.discard id) ids
        else match p.assemble with
          | none => (a, none)
          | some data => (a.deliver id, some
              { video := ⟨p.metadata.generation, UInt64.ofNat id, p.metadata.captureTimestamp,
                  p.metadata.encodeTimestamp, p.metadata.sendTimestamp, p.metadata.keyframe, data⟩
                receiveTimestamp := now })

def next (a : FrameAssembler) (now : ℕ) : FrameAssembler × Option ReceivedFrame :=
  nextLoop now a (a.frames.keys.insertionSort (· ≤ ·))

/-! ### What each operation can do -/

/-- `a'` has some of the assemblies of `a`, and asks for a keyframe if `a` does. -/
structure Shrinks (a a' : FrameAssembler) : Prop where
  lookup : ∀ {id p}, a'.frames.lookup id = some p → a.frames.lookup id = some p
  last : a'.last = a.last
  requires : a.requiresKeyframe = true → a'.requiresKeyframe = true

theorem Shrinks.refl (a : FrameAssembler) : Shrinks a a := ⟨fun h => h, rfl, fun h => h⟩

theorem Shrinks.trans {a b c : FrameAssembler} (h : Shrinks a b) (h' : Shrinks b c) :
    Shrinks a c :=
  ⟨fun hl => h.lookup (h'.lookup hl), h'.last.trans h.last, fun hr => h'.requires (h.requires hr)⟩

theorem lookup_erase_eq_some {frames : AList (fun _ : ℕ => Partial)} {id old : ℕ} {p : Partial} :
    (frames.erase old).lookup id = some p ↔ id ≠ old ∧ frames.lookup id = some p := by
  by_cases h : id = old
  · subst h
    simp
  · simp [AList.lookup_erase_ne h, h]

theorem discard_shrinks (a : FrameAssembler) (id : ℕ) : Shrinks a (a.discard id) := by
  unfold discard
  split
  · exact ⟨fun h => (lookup_erase_eq_some.1 h).2, rfl, fun _ => rfl⟩
  · exact .refl a

theorem expireOne_shrinks (now : ℕ) (a : FrameAssembler) (id : ℕ) :
    Shrinks a (expireOne now a id) := by
  unfold expireOne
  split
  · split
    · exact a.discard_shrinks id
    · exact .refl a
  · exact .refl a

theorem expire_shrinks (a : FrameAssembler) (now : ℕ) : Shrinks a (a.expire now) := by
  have hfold (ids : List ℕ) (b : FrameAssembler) (hb : Shrinks a b) :
      Shrinks a (ids.foldl (expireOne now) b) := by
    induction ids generalizing b with
    | nil => exact hb
    | cons id ids ih => exact ih _ (hb.trans (expireOne_shrinks now b id))
  exact hfold _ a (.refl a)

/-- Nothing expires within 40 ms. -/
theorem expire_eq_self {a : FrameAssembler} {now : ℕ}
    (h : ∀ {id p}, a.frames.lookup id = some p → now - p.arrival ≤ 40000) : a.expire now = a := by
  have hfold (ids : List ℕ) : ids.foldl (expireOne now) a = a := by
    induction ids with
    | nil => rfl
    | cons id ids ih =>
      have hone : expireOne now a id = a := by
        unfold expireOne
        split
        · rename_i p hp
          have := h hp
          rw [if_neg (by omega)]
        · rfl
      rw [List.foldl_cons, hone, ih]
  exact hfold _

/-- A fragment of a frame delivered before changes nothing. -/
theorem ingest_old {a : FrameAssembler} {f : VideoFragment} (now : ℕ)
    (h : f.frameId.toNat ≤ a.last) : (a.ingest f now).1 = a := by
  unfold ingest
  split
  · rfl
  · rfl

/-- After `track` the fragment's frame has an assembly, an old one or a new one. -/
theorem track_cases (a : FrameAssembler) (f : VideoFragment) (now : ℕ) :
    (a.track f now = a ∧ ∃ p, a.frames.lookup f.frameId.toNat = some p) ∨
      ∃ b, Shrinks a b ∧ a.frames.lookup f.frameId.toNat = none ∧
        a.track f now = { b with frames := b.frames.insert f.frameId.toNat ⟨f, now, ∅, 0⟩ } := by
  unfold track
  split
  · rename_i p hp
    exact .inl ⟨rfl, p, hp⟩
  · rename_i hnone
    refine .inr ⟨_, ?_, hnone, rfl⟩
    split
    · split
      · exact a.discard_shrinks _
      · exact .refl a
    · exact .refl a

/-- Where there is room, `track` adds an empty assembly. -/
theorem track_new {a : FrameAssembler} {f : VideoFragment} (now : ℕ)
    (h : a.frames.lookup f.frameId.toNat = none) (hroom : a.frames.keys.length < 2) :
    a.track f now = { a with frames := a.frames.insert f.frameId.toNat ⟨f, now, ∅, 0⟩ } := by
  unfold track
  rw [h]
  simp only [show ¬ a.frames.keys.length ≥ 2 by omega, ↓reduceIte]
  cases a.frames.keys.min? <;> rfl

theorem track_old {a : FrameAssembler} {f : VideoFragment} {p : Partial} (now : ℕ)
    (h : a.frames.lookup f.frameId.toNat = some p) : a.track f now = a := by
  unfold track
  rw [h]

theorem lookup_deliver {a : FrameAssembler} {id id' : ℕ} {p : Partial} :
    (a.deliver id).frames.lookup id' = some p ↔ id < id' ∧ a.frames.lookup id' = some p := by
  have hfold (olds : List ℕ) (frames : AList (fun _ : ℕ => Partial)) :
      (olds.foldl (fun frames old => frames.erase old) frames).lookup id' = some p ↔
        id' ∉ olds ∧ frames.lookup id' = some p := by
    induction olds generalizing frames with
    | nil => simp
    | cons old olds ih => rw [List.foldl_cons, ih, lookup_erase_eq_some, List.mem_cons, not_or,
        ← and_assoc, and_comm (a := id' ∉ olds)]
  rw [deliver, hfold, lookup_erase_eq_some]
  constructor
  · rintro ⟨hold, hne, hl⟩
    have hmem : id' ∈ (a.frames.erase id).keys := by
      rw [← AList.mem_keys, AList.mem_erase]
      exact ⟨hne, AList.lookup_isSome.1 (by rw [hl]; rfl)⟩
    have hge : ¬ id' < id := fun hlt => hold (List.mem_filter.2 ⟨hmem, decide_eq_true hlt⟩)
    exact ⟨by omega, hl⟩
  · rintro ⟨hlt, hl⟩
    refine ⟨fun hold => ?_, by omega, hl⟩
    have := of_decide_eq_true (List.mem_filter.1 hold).2
    omega

/-- What `next` does in a state `a` when it returns `r` and leaves `a'`. -/
structure Delivers (a : FrameAssembler) (now : ℕ) (a' : FrameAssembler) (r : ReceivedFrame) :
    Prop where
  frame : ∃ id p data, a.frames.lookup id = some p ∧ p.complete ∧ p.assemble = some data ∧
    a'.last = id ∧ r = ⟨⟨p.metadata.generation, UInt64.ofNat id, p.metadata.captureTimestamp,
      p.metadata.encodeTimestamp, p.metadata.sendTimestamp, p.metadata.keyframe, data⟩, now⟩
  reference : r.video.keyframe = 0 →
    a.requiresKeyframe = false ∧ (a.last ≠ 0 → a'.last = a.last + 1)
  settled : a'.requiresKeyframe = false
  lookup : ∀ {id p}, a'.frames.lookup id = some p → a'.last < id ∧ a.frames.lookup id = some p

theorem Delivers.of_shrinks {a b a' : FrameAssembler} {now : ℕ} {r : ReceivedFrame}
    (hs : Shrinks a b) (h : Delivers b now a' r) : Delivers a now a' r where
  frame := by
    obtain ⟨id, p, data, hl, hrest⟩ := h.frame
    exact ⟨id, p, data, hs.lookup hl, hrest⟩
  reference hk := by
    obtain ⟨hreq, hlast⟩ := h.reference hk
    refine ⟨?_, hs.last ▸ hlast⟩
    by_contra hne
    rw [hs.requires (by simpa using hne)] at hreq
    exact absurd hreq (by simp)
  settled := h.settled
  lookup hl := ⟨(h.lookup hl).1, hs.lookup (h.lookup hl).2⟩

/-- **`next` discards assemblies, or delivers one of them** whose reference
frame, if it has one, was delivered last. -/
theorem nextLoop_cases (now : ℕ) (a : FrameAssembler) (ids : List ℕ) :
    (∃ a', nextLoop now a ids = (a', none) ∧ Shrinks a a') ∨
      ∃ a' r, nextLoop now a ids = (a', some r) ∧ Delivers a now a' r := by
  induction ids generalizing a with
  | nil => exact .inl ⟨a, rfl, .refl a⟩
  | cons id ids ih =>
    rw [nextLoop]
    split
    · exact ih a
    rename_i p hp
    split
    · exact ih a
    rename_i hcomplete
    rw [not_not] at hcomplete
    split
    · exact .inl ⟨a, rfl, .refl a⟩
    rename_i hwait
    -- a gap in front of the frame makes the assembler ask for a keyframe
    generalize hb : (if a.last ≠ 0 ∧ id ≠ a.last + 1 then { a with requiresKeyframe := true }
      else a : FrameAssembler) = b
    have hs : Shrinks a b := by
      rw [← hb]
      split
      · exact ⟨fun h => h, rfl, fun _ => rfl⟩
      · exact .refl a
    have hframes : b.frames = a.frames := by rw [← hb]; split <;> rfl
    have hgap : b.requiresKeyframe = false → a.last ≠ 0 → id = a.last + 1 := by
      intro hreq hlast
      by_contra hne
      rw [← hb, if_pos ⟨hlast, hne⟩] at hreq
      exact absurd hreq (by simp)
    simp only
    split
    · have hsd : Shrinks a (b.discard id) := hs.trans (b.discard_shrinks id)
      obtain ⟨a', h, hs'⟩ | ⟨a', r, h, hd⟩ := ih (b.discard id)
      · exact .inl ⟨a', h, hsd.trans hs'⟩
      · exact .inr ⟨a', r, h, hd.of_shrinks hsd⟩
    rename_i hkey
    split
    · exact .inl ⟨b, rfl, hs⟩
    rename_i data hdata
    refine .inr ⟨_, _, rfl, ⟨id, p, data, hp, hcomplete, hdata, rfl, rfl⟩, fun hk => ?_, rfl,
      fun hl => ?_⟩
    · have hreq : b.requiresKeyframe = false := by
        by_contra hne
        exact hkey ⟨by simpa using hne, hk⟩
      refine ⟨?_, hgap hreq⟩
      by_contra hne
      rw [hs.requires (by simpa using hne)] at hreq
      exact absurd hreq (by simp)
    · obtain ⟨hlt, hl⟩ := lookup_deliver.1 hl
      exact ⟨hlt, hframes ▸ hl⟩

theorem next_cases (a : FrameAssembler) (now : ℕ) :
    (∃ a', a.next now = (a', none) ∧ Shrinks a a') ∨
      ∃ a' r, a.next now = (a', some r) ∧ Delivers a now a' r :=
  nextLoop_cases now a _

end FrameAssembler
end Ipad
end SidecarDOS
