/-
# What is counted as lost

`losses` counts the frames that the assembler discards, and `missingFragments` what is
missing of them then.  But the assembler remembers only the last frame delivered: a late
fragment of a frame that it has discarded opens a new assembly, which is discarded and
counted again (`losses_counted_twice`).  As long as no fragment of a discarded frame
comes later, no frame and no fragment is counted more than once (`losses_bounded`).
`Tally` is the assembler with what it does not remember.
-/

import Mathlib.Algebra.BigOperators.Group.Finset.Sigma
import Mathlib.Algebra.Order.BigOperators.Group.Finset
import Mathlib.Data.Finset.Option
import SidecarDOS.Video.Eviction

namespace SidecarDOS
namespace Ipad

open Library (Reaches Along)

namespace FrameAssembler

variable {a b c : FrameAssembler} {ids ids' : List ℕ} {now : ℕ}

/-! ### What is discarded -/

/-- What is missing of an assembly. -/
def gap (a : FrameAssembler) (id : ℕ) : ℕ :=
  match a.frames.lookup id with
  | some p => p.metadata.count.toNat - p.parts.keys.length
  | none => 0

/-- Some of the assemblies were discarded and counted. -/
structure Discards (a a' : FrameAssembler) (ids : List ℕ) : Prop where
  nodup : ids.Nodup
  held : ∀ id ∈ ids, id ∈ a.frames.keys
  lookup : ∀ id, a'.frames.lookup id = if id ∈ ids then none else a.frames.lookup id
  last : a'.last = a.last
  losses : a'.losses.toNat ≤ a.losses.toNat + ids.length
  missing : a'.missingFragments.toNat ≤ a.missingFragments.toNat + (ids.map a.gap).sum

namespace Discards

theorem same (hframes : b.frames = a.frames) (hlast : b.last = a.last)
    (hlosses : b.losses = a.losses) (hmissing : b.missingFragments = a.missingFragments) :
    Discards a b [] where
  nodup := .nil
  held _ h := absurd h List.not_mem_nil
  lookup id := by rw [hframes, if_neg List.not_mem_nil]
  last := hlast
  losses := by
    rw [hlosses]
    exact le_rfl
  missing := by
    rw [hmissing]
    exact le_rfl

theorem refl (a : FrameAssembler) : Discards a a [] := same rfl rfl rfl rfl

theorem lookup_eq_some (h : Discards a b ids) {id : ℕ} {p : Partial} :
    b.frames.lookup id = some p ↔ id ∉ ids ∧ a.frames.lookup id = some p := by
  rw [h.lookup]
  by_cases hid : id ∈ ids
  · simp [hid]
  · simp [hid]

theorem mem_keys (h : Discards a b ids) {id : ℕ} :
    id ∈ b.frames.keys ↔ id ∉ ids ∧ id ∈ a.frames.keys := by
  simp only [mem_keys_iff, h.lookup_eq_some, exists_and_left]

theorem trans (h : Discards a b ids) (h' : Discards b c ids') : Discards a c (ids ++ ids') := by
  have hnot : ∀ id ∈ ids', id ∉ ids := fun id hid => (h.mem_keys.1 (h'.held id hid)).1
  have hgap : ids'.map b.gap = ids'.map a.gap := by
    refine List.map_congr_left fun id hid => ?_
    unfold gap
    rw [h.lookup, if_neg (hnot id hid)]
  refine ⟨?_, fun id hid => ?_, fun id => ?_, h'.last.trans h.last, ?_, ?_⟩
  · exact h.nodup.append h'.nodup fun id hid hid' => hnot id hid' hid
  · rcases List.mem_append.1 hid with hid | hid
    · exact h.held id hid
    · exact (h.mem_keys.1 (h'.held id hid)).2
  · rw [h'.lookup, h.lookup]
    simp only [List.mem_append]
    by_cases hid : id ∈ ids
    · simp [hid]
    · simp [hid]
  · have hlosses := h.losses
    have hlosses' := h'.losses
    rw [List.length_append]
    omega
  · have hmissing := h.missing
    have hmissing' := h'.missing
    rw [hgap] at hmissing'
    rw [List.map_append, List.sum_append]
    omega

end Discards

theorem toNat_add_ofNat_le (x : UInt32) (n : ℕ) : (x + UInt32.ofNat n).toNat ≤ x.toNat + n := by
  rw [UInt32.toNat_add, UInt32.toNat_ofNat']
  exact (Nat.mod_le _ _).trans (Nat.add_le_add_left (Nat.mod_le _ _) _)

theorem discard_discards (a : FrameAssembler) {id : ℕ} (h : id ∈ a.frames.keys) :
    Discards a (a.discard id) [id] := by
  obtain ⟨p, hp⟩ := mem_keys_iff.1 h
  have hgap : a.gap id = p.metadata.count.toNat - p.parts.keys.length := by
    unfold gap
    rw [hp]
  unfold discard
  rw [hp]
  refine ⟨List.nodup_singleton id, fun id' hid' => ?_, fun id' => ?_, rfl, ?_, ?_⟩
  · rwa [List.mem_singleton.1 hid']
  · simp only [List.mem_singleton]
    split
    · rename_i heq
      rw [heq]
      exact AList.lookup_erase _ _
    · rename_i hne
      exact AList.lookup_erase_ne hne
  · exact toNat_add_ofNat_le a.losses 1
  · simp only [List.map_cons, List.map_nil, List.sum_singleton, hgap]
    exact toNat_add_ofNat_le _ _

/-- The frame has no assembly that expires now. -/
def Timely (a : FrameAssembler) (id now : ℕ) : Prop :=
  ∀ p, a.frames.lookup id = some p → now - p.arrival ≤ 40000

theorem expireOne_discards (now : ℕ) (a : FrameAssembler) (id : ℕ) :
    ∃ ids, Discards a (expireOne now a id) ids ∧ ∀ id ∈ ids, ¬ a.Timely id now := by
  unfold expireOne
  split
  · rename_i p hp
    split
    · rename_i hold
      refine ⟨_, a.discard_discards (mem_keys_iff.2 ⟨p, hp⟩), fun id' hid' htimely => ?_⟩
      have := htimely p (by rwa [List.mem_singleton.1 hid'])
      omega
    · exact ⟨_, .refl a, fun _ h => absurd h List.not_mem_nil⟩
  · exact ⟨_, .refl a, fun _ h => absurd h List.not_mem_nil⟩

theorem expire_discards (a : FrameAssembler) (now : ℕ) :
    ∃ ids, Discards a (a.expire now) ids ∧ ∀ id ∈ ids, ¬ a.Timely id now := by
  have hfold (olds : List ℕ) (b : FrameAssembler)
      (hb : ∃ ids, Discards a b ids ∧ ∀ id ∈ ids, ¬ a.Timely id now) :
      ∃ ids, Discards a (olds.foldl (expireOne now) b) ids ∧ ∀ id ∈ ids, ¬ a.Timely id now := by
    induction olds generalizing b with
    | nil => exact hb
    | cons old olds ih =>
      obtain ⟨ids, hb, hold⟩ := hb
      obtain ⟨ids', hone, hold'⟩ := expireOne_discards now b old
      refine ih _ ⟨_, hb.trans hone, fun id hid htimely => ?_⟩
      rcases List.mem_append.1 hid with hid | hid
      · exact hold id hid htimely
      · exact hold' id hid fun p hp => htimely p (hb.lookup_eq_some.1 hp).2
  exact hfold _ a ⟨_, .refl a, fun _ h => absurd h List.not_mem_nil⟩

/-- A frame without an assembly gets an empty one. -/
theorem track_discards (a : FrameAssembler) (f : VideoFragment) (now : ℕ) :
    (a.track f now = a ∧ f.frameId.toNat ∈ a.frames.keys) ∨
      ∃ b ids, Discards a b ids ∧ f.frameId.toNat ∉ a.frames.keys ∧
        a.track f now = { b with frames := b.frames.insert f.frameId.toNat ⟨f, now, ∅, 0⟩ } := by
  unfold track
  split
  · rename_i p hp
    exact .inl ⟨rfl, mem_keys_iff.2 ⟨p, hp⟩⟩
  · rename_i hnone
    have hnew : f.frameId.toNat ∉ a.frames.keys := fun h => by
      obtain ⟨p, hp⟩ := mem_keys_iff.1 h
      exact nomatch hnone.symm.trans hp
    cases hmin : a.frames.keys.min? with
    | none => exact .inr ⟨a, _, .refl a, hnew, rfl⟩
    | some old =>
      dsimp only
      split
      · exact .inr ⟨_, _, a.discard_discards (List.min?_mem hmin), hnew, rfl⟩
      · exact .inr ⟨a, _, .refl a, hnew, rfl⟩

theorem add_ok {p p' : Partial} {f : VideoFragment} (h : p.add f = .ok p') :
    p'.metadata = p.metadata ∧ p.metadata.count = f.count ∧ f.index.toNat ∈ p'.parts ∧
      ∀ i ∈ p.parts, i ∈ p'.parts := by
  unfold Partial.add at h
  split at h
  · rename_i hsame
    obtain ⟨-, hcount, -⟩ := hsame
    split at h
    · split at h
      · cases h
        exact ⟨rfl, hcount, (AList.mem_insert _).2 (.inl rfl), fun i hi =>
          (AList.mem_insert _).2 (.inr hi)⟩
      · exact nomatch h
    · rename_i part hpart
      split at h
      · exact nomatch h
      · cases h
        exact ⟨rfl, hcount, AList.lookup_isSome.1 (by rw [hpart]; rfl), fun i hi => hi⟩
  · exact nomatch h

/-- Some of the assemblies were discarded, and the fragment is in the one of its frame. -/
structure Adds (a a' b : FrameAssembler) (f : VideoFragment) (ids : List ℕ) (p : Partial) :
    Prop where
  discards : Discards a b ids
  kept : f.frameId.toNat ∉ ids
  count : p.metadata.count = f.count
  index : f.index.toNat ∈ p.parts
  parts : ∀ q, a.frames.lookup f.frameId.toNat = some q → ∀ i ∈ q.parts, i ∈ p.parts
  lookup : ∀ id, a'.frames.lookup id =
    if id = f.frameId.toNat then some p else b.frames.lookup id
  last : a'.last = b.last
  losses : a'.losses = b.losses
  missing : a'.missingFragments = b.missingFragments

theorem ingest_adds {f : VideoFragment} (hlast : a.last < f.frameId.toNat)
    (hok : (a.ingest f now).2 = .ok ()) (htimely : a.Timely f.frameId.toNat now) :
    ∃ b ids p, Adds a (a.ingest f now).1 b f ids p := by
  obtain ⟨-, c, q, p, hc, hq, hadd, heq⟩ := ingest_ok hlast hok
  obtain ⟨hmeta, hcount, hindex, hparts⟩ := add_ok hadd
  rw [heq]
  have hstart : Discards a { a with receivedFragments := a.receivedFragments + 1 } [] :=
    .same rfl rfl rfl rfl
  obtain ⟨ids, hexpire, hold⟩ :=
    expire_discards { a with receivedFragments := a.receivedFragments + 1 } now
  have hkept : f.frameId.toNat ∉ ids := fun h => hold _ h htimely
  have hdiscards := hstart.trans hexpire
  rw [List.nil_append] at hdiscards
  generalize FrameAssembler.expire _ now = b at hc hdiscards
  have hlookup : b.frames.lookup f.frameId.toNat = a.frames.lookup f.frameId.toNat := by
    rw [hdiscards.lookup, if_neg hkept]
  obtain ⟨htrack, -⟩ | ⟨d, ids', htrack, hnew, hinsert⟩ := track_discards b f now
  · have hcb : c = b := hc.trans htrack
    refine ⟨b, ids, p, hdiscards, hkept, by rw [hmeta, hcount], hindex, fun q' hq' => ?_,
      fun id => ?_, by rw [hcb], by rw [hcb], by rw [hcb]⟩
    · rw [← hlookup, ← hcb, hq] at hq'
      cases hq'
      exact hparts
    · split
      · rename_i hid
        rw [hid]
        exact AList.lookup_insert _
      · rename_i hne
        rw [hcb]
        exact AList.lookup_insert_ne hne
  · have hcd := hc.trans hinsert
    refine ⟨d, ids ++ ids', p, hdiscards.trans htrack, fun hid => ?_, by rw [hmeta, hcount],
      hindex, fun q' hq' => ?_, fun id => ?_, by rw [hcd], by rw [hcd], by rw [hcd]⟩
    · rcases List.mem_append.1 hid with hid | hid
      · exact hkept hid
      · exact hnew (htrack.held _ hid)
    · exact absurd (mem_keys_iff.2 ⟨q', hlookup.trans hq'⟩) hnew
    · split
      · rename_i hid
        rw [hid]
        exact AList.lookup_insert _
      · rename_i hne
        rw [hcd]
        exact (AList.lookup_insert_ne hne).trans (AList.lookup_insert_ne hne)

/-- What `next` leaves: it discards complete assemblies, and it may deliver one. -/
theorem nextLoop_discards (now : ℕ) (a : FrameAssembler) (ids : List ℕ) :
    ∃ b olds, Discards a b olds ∧
      (∀ id ∈ olds, (a.frames.lookup id).any Partial.complete = true) ∧
        (nextLoop now a ids = (b, none) ∨ ∃ id r, nextLoop now a ids = (b.deliver id, some r) ∧
          id ∈ b.frames.keys ∧ r.video.frameId = UInt64.ofNat id) := by
  induction ids generalizing a with
  | nil => exact ⟨a, [], .refl a, fun _ h => absurd h List.not_mem_nil, .inl rfl⟩
  | cons id ids ih =>
    rw [nextLoop]
    split
    · exact ih a
    rename_i p hp
    split
    · exact ih a
    rename_i hcomplete
    rw [not_not] at hcomplete
    split
    · exact ⟨a, [], .refl a, fun _ h => absurd h List.not_mem_nil, .inl rfl⟩
    generalize hb : (if a.last ≠ 0 ∧ id ≠ a.last + 1 then { a with requiresKeyframe := true }
      else a : FrameAssembler) = b
    have hsame : Discards a b [] := by
      rw [← hb]
      split
      · exact .same rfl rfl rfl rfl
      · exact .refl a
    have hheld : id ∈ b.frames.keys :=
      hsame.mem_keys.2 ⟨List.not_mem_nil, mem_keys_iff.2 ⟨p, hp⟩⟩
    simp only
    split
    · have hdiscards := hsame.trans (b.discard_discards hheld)
      obtain ⟨c, olds, hc, hcompletes, hresult⟩ := ih (b.discard id)
      refine ⟨c, _, hdiscards.trans hc, fun id' hid' => ?_, hresult⟩
      rcases List.mem_append.1 hid' with hid' | hid'
      · rw [List.nil_append, List.mem_singleton] at hid'
        rw [hid', hp]
        exact hcomplete
      · have hold := hcompletes id' hid'
        rw [hdiscards.lookup] at hold
        split at hold
        · exact absurd hold Bool.false_ne_true
        · exact hold
    · split
      · exact ⟨b, [], hsame, fun _ h => absurd h List.not_mem_nil, .inl rfl⟩
      · exact ⟨b, [], hsame, fun _ h => absurd h List.not_mem_nil,
          .inr ⟨id, _, rfl, hheld, rfl⟩⟩

/-! ### Runs -/

/-- The assemblies that are no longer held. -/
def gone (a a' : FrameAssembler) : Finset ℕ := a.frames.keys.toFinset \ a'.frames.keys.toFinset

theorem mem_gone {a a' : FrameAssembler} {id : ℕ} :
    id ∈ gone a a' ↔ id ∈ a.frames.keys ∧ id ∉ a'.frames.keys := by
  rw [gone, Finset.mem_sdiff, List.mem_toFinset, List.mem_toFinset]

/-- The assembler, the fragments that it took, and what became of the frames. -/
structure Tally where
  assembler : FrameAssembler := {}
  ingested : List VideoFragment := []
  delivered : Finset ℕ := ∅
  /-- Frames whose assembly was discarded: `next` also drops incomplete ones, and counts none. -/
  discarded : Finset ℕ := ∅

namespace Tally

def step (t : Tally) : Call → Tally
  | .ingest f now =>
    let a := (t.assembler.ingest f now).1
    { t with
      assembler := a
      ingested := f :: t.ingested
      discarded := t.discarded ∪ gone t.assembler a }
  | .expire now =>
    let a := t.assembler.expire now
    { t with assembler := a, discarded := t.discarded ∪ gone t.assembler a }
  | .next now =>
    let a := (t.assembler.next now).1
    let out := (t.assembler.next now).2.toFinset.image (·.video.frameId.toNat)
    let complete := {id ∈ gone t.assembler a |
      (t.assembler.frames.lookup id).any Partial.complete = true}
    { t with
      assembler := a
      delivered := t.delivered ∪ out
      discarded := t.discarded ∪ complete \ out }

theorem assembler_step (t : Tally) (c : Call) :
    (t.step c).assembler = t.assembler.call c := by
  cases c <;> rfl

/-- The frames of which a fragment was ingested. -/
def frames (t : Tally) : Finset ℕ := (t.ingested.map (·.frameId.toNat)).toFinset

/-- The frames that were ingested but not delivered. -/
def lost (t : Tally) : Finset ℕ := t.frames \ t.delivered

/-- The fragments of a frame that have not been ingested. -/
def absentOf (fs : List VideoFragment) (id : ℕ) : Finset ℕ :=
  let own := fs.filter (·.frameId.toNat = id)
  (own.flatMap fun f => List.range f.count.toNat).toFinset \
    (own.map (·.index.toNat)).toFinset

/-- The fragments of the lost frames that have not been ingested. -/
def absent (t : Tally) : Finset (Σ _ : ℕ, ℕ) := t.lost.sigma (absentOf t.ingested)

/-- No fragment is ingested twice, and `ingest` does not throw. -/
def Admits (t : Tally) : Call → Prop
  | .ingest f now => (t.assembler.ingest f now).2 = .ok () ∧
      ∀ g ∈ t.ingested, g.frameId = f.frameId → g.index ≠ f.index
  | _ => True

/-- The fragment comes before its frame is discarded. -/
def Prompt (t : Tally) : Call → Prop
  | .ingest f now =>
      f.frameId.toNat ∉ t.discarded ∧ t.assembler.Timely f.frameId.toNat now
  | _ => True

theorem mem_frames {t : Tally} {id : ℕ} :
    id ∈ t.frames ↔ ∃ f ∈ t.ingested, f.frameId.toNat = id := by
  simp only [frames, List.mem_toFinset, List.mem_map]

theorem mem_absentOf {fs : List VideoFragment} {id i : ℕ} : i ∈ absentOf fs id ↔
    (∃ f ∈ fs, f.frameId.toNat = id ∧ i < f.count.toNat) ∧
      ∀ f ∈ fs, f.frameId.toNat = id → f.index.toNat ≠ i := by
  simp [absentOf, and_assoc]

theorem absentOf_cons {f : VideoFragment} {fs : List VideoFragment} {id : ℕ}
    (h : id ≠ f.frameId.toNat) : absentOf (f :: fs) id = absentOf fs id := by
  unfold absentOf
  rw [List.filter_cons_of_neg (by simpa using h.symm)]

/-- What holds in every state of the runs. -/
structure Kept (t : Tally) : Prop where
  above : ∀ id ∈ t.assembler.frames.keys, t.assembler.last < id ∧ id < 2 ^ 64
  delivered : ∀ id ∈ t.delivered, id ≤ t.assembler.last
  held : ∀ id ∈ t.assembler.frames.keys, id ∉ t.discarded
  discarded : ∀ id ∈ t.discarded, id ∈ t.lost
  fresh : ∀ id ∈ t.frames,
    id ≤ t.assembler.last ∨ id ∈ t.assembler.frames.keys ∨ id ∈ t.discarded
  opened : ∀ id p, t.assembler.frames.lookup id = some p →
    ∃ f ∈ t.ingested, f.frameId.toNat = id ∧ p.metadata.count = f.count
  parts : ∀ id p, t.assembler.frames.lookup id = some p →
    ∀ f ∈ t.ingested, f.frameId.toNat = id → f.index.toNat ∈ p.parts
  losses : t.assembler.losses.toNat ≤ t.discarded.card
  missing : t.assembler.missingFragments.toNat ≤ ∑ id ∈ t.discarded, (absentOf t.ingested id).card

variable {t : Tally} {f : VideoFragment}

namespace Kept

theorem gap_le (h : Kept t) {id : ℕ} (hid : id ∈ t.assembler.frames.keys) :
    t.assembler.gap id ≤ (absentOf t.ingested id).card := by
  obtain ⟨p, hp⟩ := mem_keys_iff.1 hid
  obtain ⟨f, hf, hfid, hcount⟩ := h.opened id p hp
  have hgap : t.assembler.gap id =
      (Finset.range p.metadata.count.toNat).card - p.parts.keys.toFinset.card := by
    rw [Finset.card_range, List.toFinset_card_of_nodup p.parts.keys_nodup]
    unfold gap
    rw [hp]
  rw [hgap]
  refine (Finset.le_card_sdiff _ _).trans (Finset.card_le_card fun i hi => ?_)
  rw [Finset.mem_sdiff, Finset.mem_range, List.mem_toFinset] at hi
  refine mem_absentOf.2 ⟨⟨f, hf, hfid, hcount ▸ hi.1⟩, fun g hg hgid hgi => hi.2 ?_⟩
  rw [← hgi]
  exact h.parts id p hp g hg hgid

/-- Frames that are discarded count among the discarded ones. -/
theorem counted (h : Kept t) (hd : Discards t.assembler b ids) :
    b.losses.toNat ≤ (t.discarded ∪ ids.toFinset).card ∧
      b.missingFragments.toNat ≤
        ∑ id ∈ t.discarded ∪ ids.toFinset, (absentOf t.ingested id).card := by
  have hdisjoint : Disjoint t.discarded ids.toFinset := by
    rw [Finset.disjoint_right]
    exact fun id hid => h.held id (hd.held id (List.mem_toFinset.1 hid))
  have hsum : (ids.map t.assembler.gap).sum ≤
      ∑ id ∈ ids.toFinset, (absentOf t.ingested id).card := by
    rw [← List.sum_toFinset _ hd.nodup]
    exact Finset.sum_le_sum fun id hid => h.gap_le (hd.held id (List.mem_toFinset.1 hid))
  rw [Finset.card_union_of_disjoint hdisjoint, Finset.sum_union hdisjoint,
    List.toFinset_card_of_nodup hd.nodup]
  exact ⟨hd.losses.trans (Nat.add_le_add_right h.losses _),
    hd.missing.trans (Nat.add_le_add h.missing hsum)⟩

/-- Assemblies are left out, those in `gone` to the discarded ones, and frames are delivered. -/
theorem drop (h : Kept t) (hd : Discards t.assembler b ids) {a : FrameAssembler}
    {gone delivered : Finset ℕ} (hids : ids.toFinset ⊆ gone)
    (hgone : ∀ id ∈ gone, id ∈ t.assembler.frames.keys)
    (hlast : t.assembler.last ≤ a.last)
    (hlookup : ∀ id p, a.frames.lookup id = some p →
      t.assembler.frames.lookup id = some p ∧ id ∉ gone ∧ a.last < id)
    (hleft : ∀ id ∈ t.assembler.frames.keys, id ≤ a.last ∨ id ∈ a.frames.keys ∨ id ∈ gone)
    (hdelivered : ∀ id ∈ delivered, id ∈ t.delivered ∨
      id ∈ t.assembler.frames.keys ∧ id ∉ gone ∧ id ≤ a.last)
    (hlosses : a.losses = b.losses) (hmissing : a.missingFragments = b.missingFragments) :
    Kept { t with assembler := a, delivered := delivered, discarded := t.discarded ∪ gone } where
  above id hid := by
    obtain ⟨p, hp⟩ := mem_keys_iff.1 hid
    obtain ⟨hp, -, hlt⟩ := hlookup id p hp
    exact ⟨hlt, (h.above id (mem_keys_iff.2 ⟨p, hp⟩)).2⟩
  delivered id hid := by
    rcases hdelivered id hid with hid | ⟨-, -, hle⟩
    · exact (h.delivered id hid).trans hlast
    · exact hle
  held id hid hmem := by
    obtain ⟨p, hp⟩ := mem_keys_iff.1 hid
    obtain ⟨hp, hnot, -⟩ := hlookup id p hp
    rcases Finset.mem_union.1 hmem with hmem | hmem
    · exact h.held id (mem_keys_iff.2 ⟨p, hp⟩) hmem
    · exact hnot hmem
  discarded id hid := by
    rcases Finset.mem_union.1 hid with hid | hid
    · obtain ⟨hframe, hnot⟩ := Finset.mem_sdiff.1 (h.discarded id hid)
      refine Finset.mem_sdiff.2 ⟨hframe, fun hmem => ?_⟩
      rcases hdelivered id hmem with hmem | ⟨hheld, -, -⟩
      · exact hnot hmem
      · exact h.held id hheld hid
    · have hheld := hgone id hid
      obtain ⟨p, hp⟩ := mem_keys_iff.1 hheld
      obtain ⟨f, hf, hfid, -⟩ := h.opened id p hp
      refine Finset.mem_sdiff.2 ⟨mem_frames.2 ⟨f, hf, hfid⟩, fun hmem => ?_⟩
      rcases hdelivered id hmem with hmem | ⟨-, hnot, -⟩
      · exact absurd (h.delivered id hmem) (not_le.2 (h.above id hheld).1)
      · exact hnot hid
  fresh id hid := by
    rcases h.fresh id hid with hle | hheld | hmem
    · exact .inl (hle.trans hlast)
    · rcases hleft id hheld with hle | hheld | hmem
      · exact .inl hle
      · exact .inr (.inl hheld)
      · exact .inr (.inr (Finset.mem_union_right _ hmem))
    · exact .inr (.inr (Finset.mem_union_left _ hmem))
  opened id p hp := h.opened id p (hlookup id p hp).1
  parts id p hp := h.parts id p (hlookup id p hp).1
  losses := by
    refine (hlosses ▸ (h.counted hd).1).trans (Finset.card_le_card ?_)
    exact Finset.union_subset_union_right hids
  missing := by
    refine (hmissing ▸ (h.counted hd).2).trans (Finset.sum_le_sum_of_subset ?_)
    exact Finset.union_subset_union_right hids

end Kept

theorem gone_eq {a a' : FrameAssembler} (hd : Discards a b ids)
    (hkeys : ∀ id ∈ a.frames.keys, id ∈ a'.frames.keys ↔ id ∈ b.frames.keys) :
    gone a a' = ids.toFinset := by
  ext id
  rw [mem_gone, List.mem_toFinset]
  constructor
  · rintro ⟨hheld, hnot⟩
    by_contra hid
    exact hnot ((hkeys id hheld).2 (hd.mem_keys.2 ⟨hid, hheld⟩))
  · intro hid
    have hheld := hd.held id hid
    exact ⟨hheld, fun hmem => (hd.mem_keys.1 ((hkeys id hheld).1 hmem)).1 hid⟩

theorem kept_expire (h : Kept t) (now : ℕ) : Kept (t.step (.expire now)) := by
  obtain ⟨ids, hd, -⟩ := t.assembler.expire_discards now
  have hgone := gone_eq hd fun _ _ => Iff.rfl
  refine h.drop hd hgone.symm.subset (fun id hid => (mem_gone.1 hid).1) hd.last.symm.le
    (fun id p hp => ?_) (fun id hid => ?_) (fun id hid => .inl hid) rfl rfl
  · have hp' := (hd.lookup_eq_some.1 hp).2
    exact ⟨hp', fun hid => (mem_gone.1 hid).2 (mem_keys_iff.2 ⟨p, hp⟩),
      hd.last ▸ (h.above id (mem_keys_iff.2 ⟨p, hp'⟩)).1⟩
  · by_cases hmem : id ∈ (t.assembler.expire now).frames.keys
    · exact .inr (.inl hmem)
    · exact .inr (.inr (mem_gone.2 ⟨hid, hmem⟩))

/-- `next` that delivers nothing. -/
theorem kept_waits (h : Kept t) (hd : Discards t.assembler b ids)
    (hcomplete : ∀ id ∈ ids, (t.assembler.frames.lookup id).any Partial.complete = true) :
    Kept { t with
      assembler := b
      discarded := t.discarded ∪ {id ∈ gone t.assembler b |
        (t.assembler.frames.lookup id).any Partial.complete = true} } := by
  have hgone := gone_eq hd fun _ _ => Iff.rfl
  refine h.drop hd (fun id hid => ?_) (fun id hid => (mem_gone.1 (Finset.mem_filter.1 hid).1).1)
    hd.last.symm.le (fun id p hp => ?_) (fun id hid => ?_) (fun id hid => .inl hid) rfl rfl
  · exact Finset.mem_filter.2 ⟨hgone ▸ hid, hcomplete id (List.mem_toFinset.1 hid)⟩
  · have hp' := (hd.lookup_eq_some.1 hp).2
    exact ⟨hp', fun hid => (mem_gone.1 (Finset.mem_filter.1 hid).1).2 (mem_keys_iff.2 ⟨p, hp⟩),
      hd.last ▸ (h.above id (mem_keys_iff.2 ⟨p, hp'⟩)).1⟩
  · by_cases hmem : id ∈ b.frames.keys
    · exact .inr (.inl hmem)
    · have hid' : id ∈ gone t.assembler b := mem_gone.2 ⟨hid, hmem⟩
      refine .inr (.inr (Finset.mem_filter.2 ⟨hid', hcomplete id ?_⟩))
      exact List.mem_toFinset.1 (hgone ▸ hid')

/-- `next` that delivers a frame. -/
theorem kept_delivers (h : Kept t) (hd : Discards t.assembler b ids) {id : ℕ}
    (hcomplete : ∀ id ∈ ids, (t.assembler.frames.lookup id).any Partial.complete = true)
    (hheld : id ∈ b.frames.keys) :
    Kept { t with
      assembler := b.deliver id
      delivered := t.delivered ∪ {id}
      discarded := t.discarded ∪ {old ∈ gone t.assembler (b.deliver id) |
        (t.assembler.frames.lookup old).any Partial.complete = true} \ {id} } := by
  obtain ⟨hnot, hid⟩ := hd.mem_keys.1 hheld
  have hleft : ∀ {old}, old ∈ (b.deliver id).frames.keys ↔
      id < old ∧ old ∉ ids ∧ old ∈ t.assembler.frames.keys := by
    intro old
    rw [← hd.mem_keys, mem_keys_iff, mem_keys_iff]
    simp only [lookup_deliver, exists_and_left]
  have hgone : ∀ old ∈ ids, old ∈ ({old ∈ gone t.assembler (b.deliver id) |
      (t.assembler.frames.lookup old).any Partial.complete = true} \ {id} : Finset ℕ) := by
    intro old hold
    refine Finset.mem_sdiff.2 ⟨Finset.mem_filter.2 ⟨mem_gone.2 ⟨hd.held old hold, ?_⟩,
      hcomplete old hold⟩, fun heq => hnot (Finset.mem_singleton.1 heq ▸ hold)⟩
    exact fun hmem => (hleft.1 hmem).2.1 hold
  refine h.drop hd (a := b.deliver id) (fun old hold => hgone old (List.mem_toFinset.1 hold))
    (fun old hold => ?_) (h.above id hid).1.le (fun old p hp => ?_) (fun old hold => ?_)
    (fun new hnew => ?_) rfl rfl
  · exact (mem_gone.1 (Finset.mem_filter.1 (Finset.mem_sdiff.1 hold).1).1).1
  · obtain ⟨hlt, hb⟩ := lookup_deliver.1 hp
    refine ⟨(hd.lookup_eq_some.1 hb).2, fun hold => ?_, hlt⟩
    exact (mem_gone.1 (Finset.mem_filter.1 (Finset.mem_sdiff.1 hold).1).1).2
      (mem_keys_iff.2 ⟨p, hp⟩)
  · by_cases hle : old ≤ id
    · exact .inl hle
    · by_cases hmem : old ∈ ids
      · exact .inr (.inr (hgone old hmem))
      · exact .inr (.inl (hleft.2 ⟨not_le.1 hle, hmem, hold⟩))
  · rcases Finset.mem_union.1 hnew with hnew | hnew
    · exact .inl hnew
    · rw [Finset.mem_singleton] at hnew
      refine .inr ⟨hnew ▸ hid, fun hmem => (Finset.mem_sdiff.1 hmem).2 ?_, hnew.le⟩
      exact Finset.mem_singleton.2 hnew

theorem kept_next (h : Kept t) (now : ℕ) : Kept (t.step (.next now)) := by
  obtain ⟨b, olds, hd, hcomplete, hnext | ⟨id, r, hnext, hheld, hframe⟩⟩ :=
    nextLoop_discards now t.assembler (t.assembler.frames.keys.insertionSort (· ≤ ·))
  · have ha : (t.assembler.next now).1 = b := congrArg Prod.fst hnext
    have hout : (t.assembler.next now).2 = none := congrArg Prod.snd hnext
    simp only [step, ha, hout, Option.toFinset_none, Finset.image_empty, Finset.union_empty,
      Finset.sdiff_empty]
    exact kept_waits h hd hcomplete
  · have ha : (t.assembler.next now).1 = b.deliver id := congrArg Prod.fst hnext
    have hout : (t.assembler.next now).2 = some r := congrArg Prod.snd hnext
    have hnat : r.video.frameId.toNat = id := by
      rw [hframe, UInt64.toNat_ofNat_of_lt' (h.above id (hd.mem_keys.1 hheld).2).2]
    simp only [step, ha, hout, Option.toFinset_some, Finset.image_singleton, hnat]
    exact kept_delivers h hd hcomplete hheld

/-- A fragment of a frame that was not discarded is taken. -/
theorem Kept.take (h : Kept t) (hnot : f.frameId.toNat ∉ t.discarded) {a : FrameAssembler}
    (hlookup : ∀ id, id ≠ f.frameId.toNat → a.frames.lookup id = t.assembler.frames.lookup id)
    (hlast : a.last = t.assembler.last) (hlosses : a.losses = t.assembler.losses)
    (hmissing : a.missingFragments = t.assembler.missingFragments)
    (hheld : f.frameId.toNat ≤ a.last ∨ f.frameId.toNat ∈ a.frames.keys)
    (hown : ∀ p, a.frames.lookup f.frameId.toNat = some p → a.last < f.frameId.toNat ∧
      p.metadata.count = f.count ∧ ∀ g ∈ f :: t.ingested, g.frameId.toNat = f.frameId.toNat →
        g.index.toNat ∈ p.parts) :
    Kept { t with assembler := a, ingested := f :: t.ingested } where
  above id hid := by
    obtain ⟨p, hp⟩ := mem_keys_iff.1 hid
    by_cases heq : id = f.frameId.toNat
    · subst heq
      exact ⟨(hown p hp).1, f.frameId.toNat_lt⟩
    · rw [hlookup id heq] at hp
      exact hlast ▸ h.above id (mem_keys_iff.2 ⟨p, hp⟩)
  delivered id hid := hlast ▸ h.delivered id hid
  held id hid := by
    by_cases heq : id = f.frameId.toNat
    · exact heq ▸ hnot
    · obtain ⟨p, hp⟩ := mem_keys_iff.1 hid
      rw [hlookup id heq] at hp
      exact h.held id (mem_keys_iff.2 ⟨p, hp⟩)
  discarded id hid := by
    obtain ⟨hframe, hout⟩ := Finset.mem_sdiff.1 (h.discarded id hid)
    obtain ⟨g, hg, hgid⟩ := mem_frames.1 hframe
    exact Finset.mem_sdiff.2 ⟨mem_frames.2 ⟨g, List.mem_cons_of_mem _ hg, hgid⟩, hout⟩
  fresh id hid := by
    by_cases heq : id = f.frameId.toNat
    · rw [heq]
      exact hheld.imp_right .inl
    · obtain ⟨g, hg, hgid⟩ := mem_frames.1 hid
      rcases List.mem_cons.1 hg with rfl | hg
      · exact absurd hgid.symm heq
      · rw [mem_keys_iff, hlookup id heq, ← mem_keys_iff, hlast]
        exact h.fresh id (mem_frames.2 ⟨g, hg, hgid⟩)
  opened id p hp := by
    by_cases heq : id = f.frameId.toNat
    · subst heq
      exact ⟨f, List.mem_cons_self .., rfl, (hown p hp).2.1⟩
    · obtain ⟨g, hg, hgid, hcount⟩ := h.opened id p (hlookup id heq ▸ hp)
      exact ⟨g, List.mem_cons_of_mem _ hg, hgid, hcount⟩
  parts id p hp g hg hgid := by
    by_cases heq : id = f.frameId.toNat
    · subst heq
      exact (hown p hp).2.2 g hg hgid
    · rcases List.mem_cons.1 hg with rfl | hg
      · exact absurd hgid.symm heq
      · exact h.parts id p (hlookup id heq ▸ hp) g hg hgid
  losses := hlosses ▸ h.losses
  missing := by
    rw [hmissing]
    refine h.missing.trans (Finset.sum_le_sum fun id hid => ?_)
    rw [absentOf_cons fun heq => hnot (heq ▸ hid)]

theorem kept_ingest (h : Kept t) {now : ℕ} (hok : (t.assembler.ingest f now).2 = .ok ())
    (hprompt : Prompt t (.ingest f now)) : Kept (t.step (.ingest f now)) := by
  obtain ⟨hnot, htimely⟩ := hprompt
  by_cases hlast : t.assembler.last < f.frameId.toNat
  · obtain ⟨b, ids, p, ha⟩ := ingest_adds hlast hok htimely
    -- what makes room for the frame is discarded first
    have hdrop : Kept { t with assembler := b, discarded := t.discarded ∪ ids.toFinset } := by
      refine h.drop ha.discards subset_rfl
        (fun id hid => ha.discards.held id (List.mem_toFinset.1 hid)) ha.discards.last.symm.le
        (fun id q hq => ?_) (fun id hid => ?_) (fun id hid => .inl hid) rfl rfl
      · obtain ⟨hid, hq⟩ := ha.discards.lookup_eq_some.1 hq
        exact ⟨hq, fun hmem => hid (List.mem_toFinset.1 hmem),
          ha.discards.last ▸ (h.above id (mem_keys_iff.2 ⟨q, hq⟩)).1⟩
      · by_cases hmem : id ∈ ids
        · exact .inr (.inr (List.mem_toFinset.2 hmem))
        · exact .inr (.inl (ha.discards.mem_keys.2 ⟨hmem, hid⟩))
    have hown : (t.assembler.ingest f now).1.frames.lookup f.frameId.toNat = some p := by
      rw [ha.lookup, if_pos rfl]
    have hgone : gone t.assembler (t.assembler.ingest f now).1 = ids.toFinset := by
      refine gone_eq ha.discards fun id hid => ?_
      rw [mem_keys_iff, ha.lookup]
      split
      · rename_i heq
        rw [ha.discards.mem_keys, heq]
        exact ⟨fun _ => ⟨ha.kept, heq ▸ hid⟩, fun _ => ⟨p, rfl⟩⟩
      · rw [mem_keys_iff]
    simp only [step, hgone]
    refine hdrop.take (fun hmem => ?_) (fun id hid => ?_) ha.last ha.losses ha.missing
      (.inr (mem_keys_iff.2 ⟨p, hown⟩)) fun q hq => ?_
    · rcases Finset.mem_union.1 hmem with hmem | hmem
      · exact hnot hmem
      · exact ha.kept (List.mem_toFinset.1 hmem)
    · rw [ha.lookup, if_neg hid]
    · rw [hown] at hq
      cases hq
      refine ⟨by rwa [ha.last, ha.discards.last], ha.count, fun g hg hgid => ?_⟩
      rcases List.mem_cons.1 hg with rfl | hg
      · exact ha.index
      · rcases h.fresh f.frameId.toNat (mem_frames.2 ⟨g, hg, hgid⟩) with hle | hheld | hmem
        · omega
        · obtain ⟨q, hq⟩ := mem_keys_iff.1 hheld
          exact ha.parts q hq _ (h.parts _ q hq g hg hgid)
        · exact absurd hmem hnot
  · have hsame := ingest_old now (not_lt.1 hlast)
    have hgone : gone t.assembler t.assembler = ∅ := Finset.sdiff_self _
    simp only [step, hsame, hgone, Finset.union_empty]
    refine h.take hnot (fun _ _ => rfl) rfl rfl rfl (.inl (not_lt.1 hlast)) fun p hp => ?_
    exact absurd (h.above _ (mem_keys_iff.2 ⟨p, hp⟩)).1 hlast

theorem kept_init : Kept {} where
  above _ h := absurd h List.not_mem_nil
  delivered _ h := absurd h (Finset.notMem_empty _)
  held _ h := absurd h List.not_mem_nil
  discarded _ h := absurd h (Finset.notMem_empty _)
  fresh _ h := absurd h (Finset.notMem_empty _)
  opened _ _ h := nomatch h
  parts _ _ h := nomatch h
  losses := le_rfl
  missing := le_rfl

/-- **Nothing is counted as lost twice**, as long as no fragment of a discarded frame
comes later. -/
theorem losses_bounded
    (h : Reaches step (· = {}) (fun t c => Admits t c ∧ Prompt t c) t) :
    t.assembler.losses.toNat ≤ t.lost.card ∧
      t.assembler.missingFragments.toNat ≤ t.absent.card := by
  have hkept : Kept t := by
    refine h.invariant (I := Kept) ?_ fun s c hs hok => ?_
    · rintro s rfl
      exact kept_init
    cases c with
    | ingest f now => exact kept_ingest hs hok.1.1 hok.2
    | expire now => exact kept_expire hs now
    | next now => exact kept_next hs now
  have hsub : t.discarded ⊆ t.lost := hkept.discarded
  refine ⟨hkept.losses.trans (Finset.card_le_card hsub), hkept.missing.trans ?_⟩
  rw [absent, Finset.card_sigma]
  exact Finset.sum_le_sum_of_subset hsub

/-- A fragment of a frame of three. -/
def part (index : UInt16) : VideoFragment := ⟨1, 9, 0, 0, 0, 1, index, 3, 3, [7]⟩

/-- A frame of which one fragment arrives in time. -/
def sampleCalls : List Call := [.ingest (part 0) 0, .expire 50000]

/-- The hypothesis of `losses_bounded` is satisfiable: a frame of three is lost with two of
its fragments. -/
theorem losses_bounded_sample :
    (sampleCalls.foldl step {}).assembler.losses = 1 ∧
      (sampleCalls.foldl step {}).assembler.losses.toNat ≤
        (sampleCalls.foldl step {}).lost.card ∧
      (sampleCalls.foldl step {}).assembler.missingFragments.toNat ≤
        (sampleCalls.foldl step {}).absent.card := by
  have hinit : Reaches step (· = {}) (fun t c => Admits t c ∧ Prompt t c) ({} : Tally) := .init rfl
  have hcalls : Along step (fun t c => Admits t c ∧ Prompt t c) {} sampleCalls :=
    ⟨⟨⟨by decide, fun _ h => absurd h List.not_mem_nil⟩, by decide, fun p hp => nomatch hp⟩,
      ⟨trivial, trivial⟩, trivial⟩
  exact ⟨by decide, losses_bounded (hinit.along hcalls)⟩

/-- The same frame, of which another fragment arrives late. -/
def lateCalls : List Call := sampleCalls ++ [.ingest (part 1) 50000, .expire 100000]

/-- The property fails: a fragment of a frame that was discarded opens a new assembly, and the
frame is counted again when that expires. -/
theorem losses_counted_twice : ¬ ∀ t, Reaches step (· = {}) Admits t →
    t.assembler.losses.toNat ≤ t.lost.card ∧
      t.assembler.missingFragments.toNat ≤ t.absent.card := by
  intro h
  have hinit : Reaches step (· = {}) Admits ({} : Tally) := .init rfl
  have hcalls : Along step Admits {} lateCalls :=
    ⟨⟨by decide, by decide⟩, trivial, ⟨by decide, by decide⟩, trivial, trivial⟩
  exact absurd (h _ (hinit.along hcalls)).1 (by decide)

end Tally
end FrameAssembler
end Ipad
end SidecarDOS
