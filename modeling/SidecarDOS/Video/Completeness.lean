/-
# When frames arrive whole

One frame that the assembler expects, or two in a row, whose datagrams all
arrive within the 8 ms reorder wait, in any order and any number of times, with
`next` polled until `nil` behind every datagram (`FrameAssembler.feed`): the
frames are delivered whole and in order and nothing is counted as lost
(`frames_complete`).  The invariant is `Awaits`: every assembly is of an expected
frame and younger than the wait, so neither expiry nor eviction nor a gap can
strike.
-/

import SidecarDOS.Video.Reassembly

namespace SidecarDOS
namespace Ipad

open Library Host

namespace FrameAssembler

/-! ### Polling -/

/-- A delivery leaves fewer assemblies. -/
theorem Delivers.length_lt {a a' : FrameAssembler} {now : ℕ} {r : ReceivedFrame}
    (h : Delivers a now a' r) : a'.frames.keys.length < a.frames.keys.length := by
  obtain ⟨id, p, -, hp, -, -, hlast, -⟩ := h.frame
  have hmem {b : FrameAssembler} {k : ℕ} : k ∈ b.frames.keys ↔ ∃ q, b.frames.lookup k = some q := by
    rw [← AList.mem_keys, ← AList.lookup_isSome, Option.isSome_iff_exists]
  have hsub : id :: a'.frames.keys ⊆ a.frames.keys := by
    refine List.cons_subset.2 ⟨hmem.2 ⟨p, hp⟩, fun k hk => ?_⟩
    obtain ⟨q, hq⟩ := hmem.1 hk
    exact hmem.2 ⟨q, (h.lookup hq).2⟩
  have hnodup : (id :: a'.frames.keys).Nodup := by
    refine List.nodup_cons.2 ⟨fun hid => ?_, a'.frames.keys_nodup⟩
    obtain ⟨q, hq⟩ := hmem.1 hid
    have := (h.lookup hq).1
    omega
  exact (hnodup.subperm hsub).length_le

theorem next_length_lt {a a' : FrameAssembler} {now : ℕ} {r : ReceivedFrame}
    (h : a.next now = (a', some r)) : a'.frames.keys.length < a.frames.keys.length := by
  obtain ⟨b, heq, -⟩ | ⟨b, r', heq, hd⟩ := a.next_cases now
  · exact absurd (heq.symm.trans h) (by simp)
  · obtain ⟨rfl, -⟩ := Prod.mk.inj (heq.symm.trans h)
    exact hd.length_lt

/-- `while let frame = assembler.next(now: now)`: the state left at `nil` and the
frames returned before it. -/
def drain (a : FrameAssembler) (now : ℕ) : FrameAssembler × List ReceivedFrame :=
  match _h : a.next now with
  | (a', none) => (a', [])
  | (a', some r) =>
    let outs := drain a' now
    (outs.1, r :: outs.2)
termination_by a.frames.keys.length
decreasing_by exact next_length_lt _h

theorem drain_none {a a' : FrameAssembler} {now : ℕ} (h : a.next now = (a', none)) :
    a.drain now = (a', []) := by
  rw [drain]
  split
  · rename_i h'
    rw [(Prod.mk.inj (h'.symm.trans h)).1]
  · rename_i h'
    exact absurd (h'.symm.trans h) (by simp)

theorem drain_some {a a' : FrameAssembler} {now : ℕ} {r : ReceivedFrame}
    (h : a.next now = (a', some r)) :
    a.drain now = ((a'.drain now).1, r :: (a'.drain now).2) := by
  rw [drain]
  split
  · rename_i h'
    exact absurd (h'.symm.trans h) (by simp)
  · rename_i h'
    obtain ⟨rfl, hr⟩ := Prod.mk.inj (h'.symm.trans h)
    rw [Option.some.inj hr]

/-- `next` returns `nil` and changes nothing while every complete assembly waits
for the frames in front of it. -/
theorem next_eq_none {a : FrameAssembler} {now : ℕ}
    (h : ∀ {id p}, a.frames.lookup id = some p → p.complete →
      a.last ≠ 0 ∧ id ≠ a.last + 1 ∧ p.metadata.keyframe = 0 ∧ now - p.arrival < 8000) :
    a.next now = (a, none) := by
  have hloop (ids : List ℕ) : nextLoop now a ids = (a, none) := by
    induction ids with
    | nil => rfl
    | cons id ids ih =>
      rw [nextLoop]
      split
      · exact ih
      rename_i p hp
      split
      · exact ih
      rename_i hcomplete
      rw [if_pos (h hp (not_not.1 hcomplete))]
  exact hloop _

/-- `next` returns the oldest frame it has when that frame is complete and
follows the last one or is a keyframe. -/
theorem next_eq_some {a : FrameAssembler} (now : ℕ) {id : ℕ} {p : Partial} {data : Bytes}
    (hp : a.frames.lookup id = some p) (hcomplete : p.complete) (hdata : p.assemble = some data)
    (holdest : ∀ {id' p'}, a.frames.lookup id' = some p' → id ≤ id')
    (hready : id = a.last + 1 ∧ a.requiresKeyframe = false ∨ p.metadata.keyframe ≠ 0) :
    a.next now = (a.deliver id, some ⟨⟨p.metadata.generation, UInt64.ofNat id,
      p.metadata.captureTimestamp, p.metadata.encodeTimestamp, p.metadata.sendTimestamp,
      p.metadata.keyframe, data⟩, now⟩) := by
  have hloop (ids : List ℕ) (hids : ids.Pairwise (· ≤ ·)) (hmem : id ∈ ids) :
      nextLoop now a ids = (a.deliver id, some ⟨⟨p.metadata.generation, UInt64.ofNat id,
        p.metadata.captureTimestamp, p.metadata.encodeTimestamp, p.metadata.sendTimestamp,
        p.metadata.keyframe, data⟩, now⟩) := by
    induction ids with
    | nil => exact absurd hmem (by simp)
    | cons id' ids ih =>
      rw [nextLoop]
      by_cases hid : id' = id
      · subst hid
        rw [hp]
        have hwait : ¬ (a.last ≠ 0 ∧ id' ≠ a.last + 1 ∧ p.metadata.keyframe = 0 ∧
            now - p.arrival < 8000) := by
          rintro ⟨-, hgap, hkey, -⟩
          obtain ⟨h, -⟩ | h := hready
          · exact hgap h
          · exact h hkey
        simp only [hcomplete, not_true_eq_false, ↓reduceIte, if_neg hwait]
        rw [if_neg, hdata]
        · refine Prod.ext ?_ rfl
          dsimp only
          split <;> rfl
        · rintro ⟨hreq, hkey⟩
          obtain ⟨h, hreq'⟩ | h := hready
          · rw [if_neg (fun hgap => hgap.2 h), hreq'] at hreq
            exact absurd hreq (by simp)
          · exact h hkey
      · have hrest := ih (List.pairwise_cons.1 hids).2
          ((List.mem_cons.1 hmem).resolve_left fun h => hid h.symm)
        have hlt : id' < id := lt_of_le_of_ne ((List.pairwise_cons.1 hids).1 id
          ((List.mem_cons.1 hmem).resolve_left fun h => hid h.symm)) hid
        have hnone : a.frames.lookup id' = none := by
          by_contra hne
          obtain ⟨p', hp'⟩ := Option.ne_none_iff_exists'.1 hne
          have := holdest hp'
          omega
        rw [hnone]
        exact hrest
  refine hloop _ (List.pairwise_insertionSort _ _) ((List.mem_insertionSort _).2 ?_)
  rw [← AList.mem_keys, ← AList.lookup_isSome, hp]
  rfl

/-! ### Frames that are expected -/

/-- The frames `fs` come next: one that follows the last delivered frame or is a
later keyframe, or two that follow it, the second of them no keyframe. -/
def Expects (a : FrameAssembler) : List VideoFrame → Prop
  | [] => True
  | [f] => (a.last ≠ 0 ∧ f.frameId.toNat = a.last + 1 ∧ a.requiresKeyframe = false) ∨
      (f.keyframe ≠ 0 ∧ a.last < f.frameId.toNat)
  | [f, f'] => (a.last ≠ 0 ∧ f.frameId.toNat = a.last + 1 ∧ a.requiresKeyframe = false) ∧
      f'.frameId.toNat = a.last + 2 ∧ f'.keyframe = 0
  | _ => False

namespace Expects

variable {a : FrameAssembler}

theorem length_le {fs : List VideoFrame} (h : Expects a fs) : fs.length ≤ 2 := by
  match fs with
  | [] | [_] | [_, _] => simp
  | _ :: _ :: _ :: _ => exact h.elim

theorem last_lt {fs : List VideoFrame} (h : Expects a fs) :
    ∀ f ∈ fs, a.last < f.frameId.toNat := by
  match fs with
  | [] => simp
  | [f] =>
    rintro _ (_ | ⟨_, ⟨⟩⟩)
    obtain ⟨-, h, -⟩ | ⟨-, h⟩ := h <;> omega
  | [f, f'] =>
    obtain ⟨⟨-, hf, -⟩, hf', -⟩ := h
    rintro _ (_ | ⟨_, _ | ⟨_, ⟨⟩⟩⟩) <;> omega
  | _ :: _ :: _ :: _ => exact h.elim

/-- The first expected frame is the oldest. -/
theorem head_lt {f : VideoFrame} {fs : List VideoFrame} (h : Expects a (f :: fs)) :
    ∀ f' ∈ fs, f.frameId.toNat < f'.frameId.toNat := by
  match fs with
  | [] => simp
  | [f'] =>
    obtain ⟨⟨-, hf, -⟩, hf', -⟩ := h
    rintro _ (_ | ⟨_, ⟨⟩⟩)
    omega
  | _ :: _ :: _ => exact h.elim

/-- The first expected frame need not wait. -/
theorem ready {f : VideoFrame} {fs : List VideoFrame} (h : Expects a (f :: fs)) :
    f.frameId.toNat = a.last + 1 ∧ a.requiresKeyframe = false ∨ f.keyframe ≠ 0 := by
  match fs with
  | [] => exact h.imp (fun h => h.2) fun h => h.1
  | [_] => exact .inl h.1.2
  | _ :: _ :: _ => exact h.elim

/-- Every other expected frame waits for the first one. -/
theorem waits {f : VideoFrame} {fs : List VideoFrame} (h : Expects a (f :: fs)) :
    ∀ f' ∈ fs, a.last ≠ 0 ∧ f'.frameId.toNat ≠ a.last + 1 ∧ f'.keyframe = 0 := by
  match fs with
  | [] => simp
  | [f'] =>
    obtain ⟨⟨hlast, -, -⟩, hf', hkey⟩ := h
    rintro _ (_ | ⟨_, ⟨⟩⟩)
    exact ⟨hlast, by omega, hkey⟩
  | _ :: _ :: _ => exact h.elim

/-- Once the first frame is delivered, the others are expected. -/
theorem tail {f : VideoFrame} {fs : List VideoFrame} (h : Expects a (f :: fs)) :
    Expects (a.deliver f.frameId.toNat) fs := by
  match fs with
  | [] => trivial
  | [f'] =>
    obtain ⟨⟨-, hf, -⟩, hf', -⟩ := h
    refine .inl ⟨?_, ?_, rfl⟩
    · change f.frameId.toNat ≠ 0
      omega
    · change f'.frameId.toNat = f.frameId.toNat + 1
      omega
  | _ :: _ :: _ => exact h.elim

/-- What is expected depends on the last frame and the need of a keyframe. -/
theorem congr {b : FrameAssembler} {fs : List VideoFrame} (h : Expects a fs)
    (hlast : b.last = a.last) (hreq : b.requiresKeyframe = a.requiresKeyframe) : Expects b fs := by
  match fs with
  | [] => trivial
  | [_] | [_, _] => rwa [Expects, hlast, hreq]
  | _ :: _ :: _ :: _ => exact h.elim

end Expects

/-- Every assembly is of an expected frame and began at `t₀` or later. -/
structure Awaits (a : FrameAssembler) (cs : List Cut) (t₀ : ℕ) : Prop where
  frames : ∀ {id p}, a.frames.lookup id = some p →
    t₀ ≤ p.arrival ∧ ∃ c ∈ cs, c.id = id ∧ p.Of c
  expects : Expects a (cs.map Cut.frame)

/-- Fragment `i` of `c` is there. -/
def Has (a : FrameAssembler) (c : Cut) (i : ℕ) : Prop :=
  ∃ p, a.frames.lookup c.id = some p ∧ i ∈ p.parts

variable {a : FrameAssembler} {cs : List Cut} {t₀ : ℕ}

theorem Awaits.last_lt (h : Awaits a cs t₀) : ∀ c ∈ cs, a.last < c.id :=
  fun _ hc => h.expects.last_lt _ (List.mem_map_of_mem hc)

theorem Awaits.injOn (h : Awaits a cs t₀) : ∀ c ∈ cs, ∀ c' ∈ cs, c.id = c'.id → c = c' := by
  have hexp := h.expects
  match cs with
  | [] => simp
  | [c] => simp
  | [c, c'] =>
    have hlt : c.id < c'.id := hexp.head_lt _ (List.mem_singleton.2 rfl)
    rintro _ (_ | ⟨_, _ | ⟨_, ⟨⟩⟩⟩) _ (_ | ⟨_, _ | ⟨_, ⟨⟩⟩⟩) hid
    · rfl
    · omega
    · omega
    · rfl
  | _ :: _ :: _ :: _ => exact hexp.elim

/-- Less than two assemblies are open besides that of an expected frame. -/
theorem Awaits.room (h : Awaits a cs t₀) {c : Cut} (hc : c ∈ cs)
    (hnone : a.frames.lookup c.id = none) : a.frames.keys.length < 2 := by
  have hsub : c.id :: a.frames.keys ⊆ cs.map Cut.id := by
    refine List.cons_subset.2 ⟨List.mem_map_of_mem hc, fun k hk => ?_⟩
    rw [← AList.mem_keys, ← AList.lookup_isSome, Option.isSome_iff_exists] at hk
    obtain ⟨p, hp⟩ := hk
    obtain ⟨-, c', hc', rfl, -⟩ := h.frames hp
    exact List.mem_map_of_mem hc'
  have hnodup : (c.id :: a.frames.keys).Nodup :=
    List.nodup_cons.2 ⟨fun hk => AList.lookup_eq_none.1 hnone hk, a.frames.keys_nodup⟩
  have hle := (hnodup.subperm hsub).length_le
  have := h.expects.length_le
  rw [List.length_map] at this
  rw [List.length_map, List.length_cons] at hle
  omega

/-- **A fragment of an expected frame is kept**, and nothing is lost for it. -/
theorem Awaits.ingest (h : Awaits a cs t₀) {c : Cut} (hc : c ∈ cs) (hkey : c.frame.keyframe ≤ 1)
    {i now : ℕ} (hi : i < c.count) (hnow : t₀ ≤ now ∧ now < t₀ + 8000) :
    ∃ a', a.ingest (c.fragment i) now = (a', .ok ()) ∧ Awaits a' cs t₀ ∧ a'.losses = a.losses ∧
      a'.last = a.last ∧ Has a' c i ∧ ∀ c' j, Has a c' j → Has a' c' j := by
  have hlast := h.last_lt c hc
  have hid : (c.fragment i).frameId.toNat = c.id := rfl
  have hexpire : FrameAssembler.expire { a with receivedFragments := a.receivedFragments + 1 } now =
      { a with receivedFragments := a.receivedFragments + 1 } := by
    refine expire_eq_self fun {id p} hp => ?_
    have := (h.frames hp).1
    omega
  -- the frame's assembly, an old one or an empty one
  obtain ⟨p, b, hadmit, hb, hp, hof, harr, hold⟩ : ∃ p b,
      FrameAssembler.track { a with receivedFragments := a.receivedFragments + 1 }
        (c.fragment i) now = b ∧
      (b.losses = a.losses ∧ b.last = a.last ∧ b.requiresKeyframe = a.requiresKeyframe ∧
        ∀ id ≠ c.id, b.frames.lookup id = a.frames.lookup id) ∧
      b.frames.lookup c.id = some p ∧ p.Of c ∧ t₀ ≤ p.arrival ∧ ∀ j, Has a c j → j ∈ p.parts := by
    cases hl : a.frames.lookup c.id with
    | some p =>
      obtain ⟨harr, c', hc', hid', hof⟩ := h.frames hl
      obtain rfl := h.injOn c' hc' c hc hid'
      refine ⟨p, _, track_old now hl, ⟨rfl, rfl, rfl, fun _ _ => rfl⟩, hl, hof, harr, ?_⟩
      rintro j ⟨q, hq, hj⟩
      obtain rfl := Option.some.inj (hl.symm.trans hq)
      exact hj
    | none =>
      refine ⟨_, _, track_new now hl (h.room hc hl), ⟨rfl, rfl, rfl, fun id hne => ?_⟩,
        AList.lookup_insert _, Partial.of_new now hi, hnow.1, ?_⟩
      · exact AList.lookup_insert_ne hne
      · rintro j ⟨q, hq, -⟩
        exact absurd (hl.symm.trans hq) (by simp)
  obtain ⟨hloss, hblast, hreq, hother⟩ := hb
  obtain ⟨p', hadd, hof', harr', hparts⟩ := hof.add hi
  refine ⟨{ b with frames := b.frames.insert c.id p' }, ?_,
    ⟨fun {id q} hq => ?_, h.expects.congr hblast hreq⟩, hloss, hblast,
    ⟨p', AList.lookup_insert _, (hparts i).2 (.inl rfl)⟩, ?_⟩
  · unfold FrameAssembler.ingest
    rw [if_neg (not_not.2 (inBounds_fragment c hkey hi)), hid, if_neg (by omega)]
    simp only [hexpire, hadmit, hp, hadd]
  · by_cases hne : id = c.id
    · subst hne
      rw [AList.lookup_insert] at hq
      obtain rfl := Option.some.inj hq
      exact ⟨harr' ▸ harr, c, hc, rfl, hof'⟩
    · rw [AList.lookup_insert_ne hne, hother id hne] at hq
      exact h.frames hq
  · rintro c' j ⟨q, hq, hj⟩
    by_cases hne : c'.id = c.id
    · refine ⟨p', ?_, (hparts j).2 (.inr (hold j ⟨q, hne ▸ hq, hj⟩))⟩
      change (b.frames.insert c.id p').lookup c'.id = some p'
      rw [hne, AList.lookup_insert]
    · refine ⟨q, ?_, hj⟩
      change (b.frames.insert c.id p').lookup c'.id = some q
      rw [AList.lookup_insert_ne hne, hother _ hne, hq]

/-- What one poll until `nil` does with the expected frames: it delivers those in
front that are whole, and keeps what it has of the others. -/
structure Drained (a : FrameAssembler) (cs : List Cut) (t₀ : ℕ) (a' : FrameAssembler)
    (rs : List ReceivedFrame) (done rest : List Cut) : Prop where
  split : cs = done ++ rest
  carries : List.Forall₂ (fun c r => Carries c.frame r) done rs
  awaits : Awaits a' rest t₀
  losses : a'.losses = a.losses
  done_le : ∀ c ∈ done, c.id ≤ a'.last
  last_le : a.last ≤ a'.last
  has : ∀ c ∈ rest, ∀ i, Has a c i → Has a' c i
  idle : ∀ c ∈ rest.head?, ¬ ∀ i < c.count, Has a' c i

/-- **A poll delivers the whole frames in front.** -/
theorem Awaits.drain (h : Awaits a cs t₀) {now : ℕ} (hnow : now < t₀ + 8000) :
    ∃ done rest, Drained a cs t₀ (a.drain now).1 (a.drain now).2 done rest := by
  induction cs generalizing a with
  | nil =>
    have hnone : a.next now = (a, none) := next_eq_none fun hp => by
      obtain ⟨-, c, hc, -⟩ := h.frames hp
      exact absurd hc (by simp)
    rw [drain_none hnone]
    exact ⟨[], [], rfl, .nil, h, rfl, by simp, Nat.le_refl _, by simp, by simp⟩
  | cons c cs ih =>
    by_cases hwhole : ∀ i < c.count, Has a c i
    · -- the first frame is whole: it is delivered, and the others are expected next
      obtain ⟨p, hp, -⟩ := hwhole 0 c.count_pos
      obtain ⟨-, c', hc', hid, hof⟩ := h.frames hp
      obtain rfl := h.injOn c' hc' c List.mem_cons_self hid
      have hcomplete : p.complete := hof.complete_iff.2 fun i hi => by
        obtain ⟨q, hq, hmem⟩ := hwhole i hi
        obtain rfl := Option.some.inj (hp.symm.trans hq)
        exact hmem
      have hdata := hof.assemble hcomplete
      have hhead : ∀ c'' ∈ cs, c'.id < c''.id := fun c'' hc'' =>
        h.expects.head_lt _ (List.mem_map_of_mem hc'')
      have holdest {id : ℕ} {q : Partial} (hq : a.frames.lookup id = some q) : c'.id ≤ id := by
        obtain ⟨-, c'', hc'', rfl, -⟩ := h.frames hq
        obtain rfl | hc'' := List.mem_cons.1 hc''
        · exact Nat.le_refl _
        · exact (hhead c'' hc'').le
      have hkey : p.metadata.keyframe = c'.frame.keyframe := by
        obtain ⟨k, -, hmeta⟩ := hof.metadata
        rw [hmeta]
        rfl
      have hsome := next_eq_some now hp hcomplete hdata holdest (hkey.symm ▸ h.expects.ready)
      have hawaits : Awaits (a.deliver c'.id) cs t₀ := by
        refine ⟨fun {id q} hq => ?_, h.expects.tail⟩
        obtain ⟨hlt, hq⟩ := lookup_deliver.1 hq
        obtain ⟨harr, c'', hc'', rfl, hof''⟩ := h.frames hq
        refine ⟨harr, c'', (List.mem_cons.1 hc'').resolve_left ?_, rfl, hof''⟩
        rintro rfl
        omega
      obtain ⟨done, rest, hd⟩ := ih hawaits
      rw [drain_some hsome]
      have hlast : c'.id ≤ ((a.deliver c'.id).drain now).1.last := hd.last_le
      refine ⟨c' :: done, rest, by rw [hd.split, List.cons_append],
        .cons (hof.carries hcomplete hdata now) hd.carries, hd.awaits, hd.losses, ?_, ?_, ?_,
        hd.idle⟩
      · exact List.forall_mem_cons.2 ⟨hlast, hd.done_le⟩
      · exact (h.last_lt c' List.mem_cons_self).le.trans hlast
      · rintro c'' hc'' i ⟨q, hq, hi⟩
        have hmem : c'' ∈ cs := hd.split ▸ List.mem_append_right _ hc''
        exact hd.has c'' hc'' i ⟨q, lookup_deliver.2 ⟨hhead c'' hmem, hq⟩, hi⟩
    · -- it is not: a complete assembly is of a frame behind it and waits
      have hnone : a.next now = (a, none) := next_eq_none fun {id p} hp hcomplete => by
        obtain ⟨harr, c', hc', rfl, hof⟩ := h.frames hp
        obtain rfl | hc' := List.mem_cons.1 hc'
        · exact absurd (fun i hi => ⟨p, hp, hof.complete_iff.1 hcomplete i hi⟩) hwhole
        · obtain ⟨hlast, hgap, hkey⟩ := h.expects.waits _ (List.mem_map_of_mem hc')
          obtain ⟨k, -, hmeta⟩ := hof.metadata
          exact ⟨hlast, hgap, by rw [hmeta]; exact hkey, by omega⟩
      rw [drain_none hnone]
      refine ⟨[], c :: cs, rfl, .nil, h, rfl, by simp, Nat.le_refl _, fun _ _ _ hi => hi, ?_⟩
      rintro _ ⟨⟩
      exact hwhole

/-! ### A whole delivery -/

/-- A datagram that arrives at `time`, and the poll behind it at `polled`. -/
structure Arrival where
  data : Bytes
  time : ℕ
  polled : ℕ

/-- Datagrams arrive one after another, with `next` polled until `nil` behind each. -/
def feed (a : FrameAssembler) : List Arrival → FrameAssembler × List ReceivedFrame
  | [] => (a, [])
  | e :: es =>
    let out := (a.receive e.data e.time).1.drain e.polled
    let outs := feed out.1 es
    (outs.1, out.2 ++ outs.2)

/-- Fragments tell their frames and indices. -/
theorem fragment_inj {c c' : Cut} {i j : ℕ} (hi : i < c.count) (hj : j < c'.count)
    (h : c.fragment i = c'.fragment j) : c.id = c'.id ∧ (c = c' → i = j) := by
  refine ⟨congrArg (fun f => f.frameId.toNat) h, ?_⟩
  rintro rfl
  have := congrArg (fun f => f.index.toNat) h
  simpa only [c.toNat_index hi, c.toNat_index hj] using this

/-- **Expected frames are delivered** once the rest of their fragments arrives. -/
theorem Awaits.feed {all : List Cut} (hkey : ∀ c ∈ all, c.frame.keyframe ≤ 1) {es : List Arrival}
    (hfrom : ∀ e ∈ es, ∃ c ∈ all, ∃ i < c.count, fragmentOf e.data = .ok (c.fragment i))
    (htimes : ∀ e ∈ es, t₀ ≤ e.time ∧ e.time < t₀ + 8000 ∧ e.polled < t₀ + 8000)
    (h : Awaits a cs t₀) (hall : ∀ c ∈ all, c ∈ cs ∨ c.id ≤ a.last)
    (hrest : ∀ c ∈ cs, ∀ i < c.count, Has a c i ∨
      ∃ e ∈ es, fragmentOf e.data = .ok (c.fragment i))
    (hidle : ∀ c ∈ cs.head?, ¬ ∀ i < c.count, Has a c i) :
    List.Forall₂ (fun c r => Carries c.frame r) cs (a.feed es).2 ∧
      (a.feed es).1.losses = a.losses := by
  induction es generalizing a cs with
  | nil =>
    cases cs with
    | nil => exact ⟨.nil, rfl⟩
    | cons c cs =>
      refine absurd (fun i hi => ?_) (hidle c rfl)
      exact (hrest c List.mem_cons_self i hi).resolve_right (by simp)
  | cons e es ih =>
    obtain ⟨c, hc, i, hi, hf⟩ := hfrom e List.mem_cons_self
    obtain ⟨ht, ht', htp⟩ := htimes e List.mem_cons_self
    -- the datagram is kept, or it is of a frame that was delivered before
    obtain ⟨a₁, hrec, h₁, hloss₁, hlast₁, hnew, hold⟩ : ∃ a₁, (a.receive e.data e.time).1 = a₁ ∧
        Awaits a₁ cs t₀ ∧ a₁.losses = a.losses ∧ a₁.last = a.last ∧ (c ∈ cs → Has a₁ c i) ∧
        ∀ c' j, Has a c' j → Has a₁ c' j := by
      by_cases hcs : c ∈ cs
      · obtain ⟨a₁, hin, h₁, hloss, hlast, hnew, hold⟩ := h.ingest hcs (hkey c hc) hi ⟨ht, ht'⟩
        exact ⟨a₁, by rw [receive, hf]; exact congrArg Prod.fst hin, h₁, hloss, hlast,
          fun _ => hnew, hold⟩
      · have hle := (hall c hc).resolve_left hcs
        refine ⟨a, ?_, h, rfl, rfl, fun h => absurd h hcs, fun _ _ h => h⟩
        rw [receive, hf]
        exact ingest_old e.time hle
    obtain ⟨done, rest, hd⟩ := h₁.drain htp
    have hall' : ∀ c' ∈ all, c' ∈ rest ∨ c'.id ≤ (a₁.drain e.polled).1.last := by
      intro c' hc'
      obtain hc' | hle := hall c' hc'
      · rw [hd.split, List.mem_append] at hc'
        exact hc'.symm.imp_right (hd.done_le c')
      · have := hd.last_le
        exact .inr (by omega)
    have hrest' : ∀ c' ∈ rest, ∀ j < c'.count, Has (a₁.drain e.polled).1 c' j ∨
        ∃ e' ∈ es, fragmentOf e'.data = .ok (c'.fragment j) := by
      intro c' hc' j hj
      have hcs : c' ∈ cs := hd.split ▸ List.mem_append_right _ hc'
      obtain hhas | ⟨e', he', hf'⟩ := hrest c' hcs j hj
      · exact .inl (hd.has c' hc' j (hold c' j hhas))
      obtain rfl | he' := List.mem_cons.1 he'
      · obtain ⟨hid, hindex⟩ := fragment_inj hj hi (Except.ok.inj (hf'.symm.trans hf))
        have hccs : c ∈ cs := (hall c hc).resolve_right fun hle => by
          have := h.last_lt c' hcs
          omega
        obtain rfl := h.injOn c' hcs c hccs hid
        obtain rfl := hindex rfl
        exact .inl (hd.has c' hc' j (hnew hccs))
      · exact .inr ⟨e', he', hf'⟩
    obtain ⟨hcarries, hloss⟩ := ih (fun e' he' => hfrom e' (List.mem_cons_of_mem _ he'))
      (fun e' he' => htimes e' (List.mem_cons_of_mem _ he')) hd.awaits hall' hrest' hd.idle
    rw [FrameAssembler.feed, hrec]
    refine ⟨?_, hloss.trans (hd.losses.trans hloss₁)⟩
    rw [hd.split]
    exact List.rel_append hd.carries hcarries

end FrameAssembler

/-- The cuts of frames that were sent completely. -/
theorem exists_cuts {sendings : List Sending} (h : ∀ s ∈ sendings, s.sendFrame.2 = .ok true) :
    ∃ cs : List Cut, cs.map Cut.frame = sendings.map Sending.frame ∧
      (∀ s ∈ sendings, ∀ d ∈ s.sendFrame.1,
        ∃ c ∈ cs, ∃ i < c.count, fragmentOf d = .ok (c.fragment i)) ∧
      ∀ c ∈ cs, ∀ i < c.count,
        ∃ s ∈ sendings, ∃ d ∈ s.sendFrame.1, fragmentOf d = .ok (c.fragment i) := by
  induction sendings with
  | nil => exact ⟨[], rfl, by simp, by simp⟩
  | cons s sendings ih =>
    obtain ⟨hs, hrest⟩ := List.forall_mem_cons.1 h
    obtain ⟨cs, hframes, hfrom, hall⟩ := ih hrest
    obtain ⟨size, hp, hemits⟩ := Sending.emits_all hs
    have hfrag (i : ℕ) : fragmentOf (hp.cut.datagram s.session i) = .ok (hp.cut.fragment i) :=
      fragmentOf_datagram _ _ (le_trans (hp.length_datagram_le i) (min_le_right _ _))
    refine ⟨hp.cut :: cs, congrArg (s.frame :: ·) hframes, List.forall_mem_cons.2 ⟨?_, ?_⟩,
      List.forall_mem_cons.2 ⟨?_, ?_⟩⟩
    · intro d hd
      rw [hemits, List.mem_map] at hd
      obtain ⟨i, hi, rfl⟩ := hd
      exact ⟨_, List.mem_cons_self, i, List.mem_range.1 hi, hfrag i⟩
    · intro s' hs' d hd
      obtain ⟨c, hc, hi⟩ := hfrom s' hs' d hd
      exact ⟨c, List.mem_cons_of_mem _ hc, hi⟩
    · intro i hi
      refine ⟨s, List.mem_cons_self, _, ?_, hfrag i⟩
      rw [hemits]
      exact List.mem_map_of_mem (List.mem_range.2 hi)
    · intro c hc i hi
      obtain ⟨s', hs', hd⟩ := hall c hc i hi
      exact ⟨s', List.mem_cons_of_mem _ hs', hd⟩

/-- **Fragmentation is complete.**  For every frame of 1 byte to 2 MiB and every
datagram size above the overhead that needs at most 4,096 fragments: a fresh
frame is sent, every datagram fits the path and 1,200 bytes, decodes as a
fragment, and passes every guard of `ingest` in every state that the datagrams
of frames with different ids lead to.

And for frames that were sent completely and that the assembler expects (one
behind the last delivered frame, a later keyframe, or two behind it the second
of which is no keyframe), while no assembly is open: if their datagrams arrive in
any order and number within 8 ms of `t₀`, with `next` polled until `nil` behind
each, then exactly these frames are returned, whole and in order, and no loss is
counted. -/
theorem fragmentation_complete :
    (∀ (s : Sending) (size : ℕ), s.maxDatagramSize = some size → s.frame.data ≠ [] →
      s.frame.data.length ≤ MAX_FRAME → overhead < size →
      sliceCount (min (min size MAX_DATAGRAM - overhead) 1100) s.frame.data ≤ 4096 →
      s.frame.keyframe ≤ 1 →
      (s.now.toNat - s.frame.captureTimestamp.toNat ≤ 80000 → (∀ i, s.outcome i = .sent) →
        s.sendFrame.2 = .ok true) ∧
      ∀ d ∈ s.sendFrame.1, d.length ≤ min size MAX_DATAGRAM ∧
        ∃ p f, Packet.decode d MAX_DATAGRAM = .ok p ∧ p.message VideoFragment = .ok f ∧
          ∀ sendings : List Sending, s ∈ sendings →
            (sendings.Pairwise fun s s' => s.frame.frameId < s'.frame.frameId) →
            ∀ ops, Emitted sendings ops → ∀ now,
              ((FrameAssembler.run {} ops).1.ingest f now).2 = .ok ()) ∧
    ∀ (a : FrameAssembler) (sendings : List Sending) (es : List FrameAssembler.Arrival) (t₀ : ℕ),
      a.frames = ∅ → a.Expects (sendings.map Sending.frame) →
      (∀ s ∈ sendings, s.sendFrame.2 = .ok true ∧ s.frame.keyframe ≤ 1) →
      (∀ e ∈ es, ∃ s ∈ sendings, e.data ∈ s.sendFrame.1) →
      (∀ s ∈ sendings, ∀ d ∈ s.sendFrame.1, ∃ e ∈ es, e.data = d) →
      (∀ e ∈ es, t₀ ≤ e.time ∧ e.time < t₀ + 8000 ∧ e.polled < t₀ + 8000) →
      List.Forall₂ Carries (sendings.map Sending.frame) (a.feed es).2 ∧
        (a.feed es).1.losses = a.losses := by
  refine ⟨fun s size hsize hne hlen hmtu hcount hkey => ?_,
    fun a sendings es t₀ hempty hexpects hsent hfrom hall htimes => ?_⟩
  · have hmtu' : overhead < min size MAX_DATAGRAM := lt_min hmtu (by decide)
    have hp : s.Passes size := ⟨hsize, hlen, hmtu',
      sliceCount_pos (lt_min (Nat.sub_pos_of_lt hmtu') (by decide)) hne, hcount⟩
    refine ⟨Sending.sends_all hp, fun d hd => ?_⟩
    obtain ⟨size', h', i, hi, rfl⟩ := Sending.emits hd
    obtain rfl := Option.some.inj (hsize.symm.trans h'.size_eq)
    have hfrag : fragmentOf (h'.cut.datagram s.session i) = .ok (h'.cut.fragment i) :=
      fragmentOf_datagram _ _ (le_trans (h'.length_datagram_le i) (min_le_right _ _))
    obtain ⟨p, hdecode, hmessage⟩ : ∃ p, Packet.decode (h'.cut.datagram s.session i) MAX_DATAGRAM =
        .ok p ∧ p.message VideoFragment = .ok (h'.cut.fragment i) := by
      unfold fragmentOf at hfrag
      cases hdec : Packet.decode (h'.cut.datagram s.session i) MAX_DATAGRAM with
      | ok p => exact ⟨p, rfl, by simpa [hdec, bind, Except.bind] using hfrag⟩
      | error e => simp [hdec, bind, Except.bind] at hfrag
    refine ⟨h'.length_datagram_le i, p, _, hdecode, hmessage, fun sendings hs hids ops hops now => ?_⟩
    obtain ⟨hsound, -⟩ := FrameAssembler.sound_init.run (injOn_cuts hids) hops.from
    have hc : h'.cut ∈ cuts sendings := ⟨s, hs, size, h', rfl⟩
    exact (hsound.ingest (injOn_cuts hids) hc hi now).2.2
      (FrameAssembler.inBounds_fragment _ hkey hi)
  · obtain ⟨cs, hframes, hfrom', hall'⟩ := exists_cuts fun s hs => (hsent s hs).1
    have hkey : ∀ c ∈ cs, c.frame.keyframe ≤ 1 := by
      intro c hc
      have hmem : c.frame ∈ sendings.map Sending.frame := hframes ▸ List.mem_map_of_mem hc
      obtain ⟨s, hs, heq⟩ := List.mem_map.1 hmem
      exact heq ▸ (hsent s hs).2
    have hawaits : a.Awaits cs t₀ := by
      refine ⟨fun hp => ?_, hframes.symm ▸ hexpects⟩
      rw [hempty] at hp
      exact absurd hp (by simp)
    have harrive : ∀ e ∈ es, ∃ c ∈ cs, ∃ i < c.count, fragmentOf e.data = .ok (c.fragment i) := by
      intro e he
      obtain ⟨s, hs, hd⟩ := hfrom e he
      exact hfrom' s hs e.data hd
    have hrest : ∀ c ∈ cs, ∀ i < c.count, a.Has c i ∨
        ∃ e ∈ es, fragmentOf e.data = .ok (c.fragment i) := by
      intro c hc i hi
      obtain ⟨s, hs, d, hd, hf⟩ := hall' c hc i hi
      obtain ⟨e, he, rfl⟩ := hall s hs d hd
      exact .inr ⟨e, he, hf⟩
    have hidle : ∀ c ∈ cs.head?, ¬ ∀ i < c.count, a.Has c i := by
      rintro c - hwhole
      obtain ⟨p, hp, -⟩ := hwhole 0 c.count_pos
      rw [hempty] at hp
      exact absurd hp (by simp)
    obtain ⟨hcarries, hloss⟩ :=
      hawaits.feed hkey harrive htimes (fun c hc => .inl hc) hrest hidle
    rw [← hframes]
    exact ⟨List.forall₂_map_left_iff.2 hcarries, hloss⟩

/-- The hypotheses of `fragmentation_complete` are satisfiable: a keyframe in two
fragments that arrive in reverse at a new assembler. -/
theorem fragmentation_complete_sample :
    (∀ d ∈ (sampleSending 1 1).sendFrame.1, d.length ≤ 87) ∧
      List.Forall₂ Carries [(sampleSending 1 1).frame] (FrameAssembler.feed {}
        ((sampleSending 1 1).sendFrame.1.reverse.map (⟨·, 5, 6⟩))).2 := by
  refine ⟨fun d hd => ?_, ?_⟩
  · exact ((fragmentation_complete.1 (sampleSending 1 1) 87 rfl (by decide) (by decide)
      (by decide) (by decide) (by decide)).2 d hd).1
  · refine (fragmentation_complete.2 {} [sampleSending 1 1] _ 5 rfl (.inr (by decide)) (by decide)
      (fun e he => ?_) (fun s hs d hd => ?_) (fun e he => ?_)).1
    · obtain ⟨d, hd, rfl⟩ := List.mem_map.1 he
      exact ⟨sampleSending 1 1, List.mem_singleton.2 rfl, List.mem_reverse.1 hd⟩
    · obtain rfl := List.mem_singleton.1 hs
      exact ⟨_, List.mem_map_of_mem (List.mem_reverse.2 hd), rfl⟩
    · obtain ⟨d, -, rfl⟩ := List.mem_map.1 he
      exact ⟨Nat.le_refl 5, show 5 < 5 + 8000 by decide, show 6 < 5 + 8000 by decide⟩

end Ipad
end SidecarDOS
