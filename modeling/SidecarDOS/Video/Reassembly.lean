/-
# What the assembler delivers

Assemblies built from the datagrams of cut frames are beginnings of those
frames (`Partial.Of`), whatever arrives, expires or is discarded in between
(`FrameAssembler.Sound`), so a complete one is the frame.  Along any run the
delivered frames are host frames with increasing ids, the first one is a
keyframe and every other one that is not follows the one before it
(`delivers_host_frames`).
-/

import SidecarDOS.Video.FrameAssembler
import SidecarDOS.Video.SendFrame

namespace SidecarDOS
namespace Ipad

open Library Host

/-- `r` is the host's frame; only the time of sending is that of a fragment. -/
def Carries (frame : VideoFrame) (r : ReceivedFrame) : Prop :=
  r.video = { frame with sendTimestamp := r.video.sendTimestamp }

namespace Partial

/-- The assembly `p` holds fragments of `c` and nothing else. -/
structure Of (c : Cut) (p : Partial) : Prop where
  metadata : ∃ i < c.count, p.metadata = c.fragment i
  part : ∀ {i d}, p.parts.lookup i = some d → i < c.count ∧ d = c.part i
  bytes : p.bytes = ∑ i ∈ p.parts.keys.toFinset, (c.part i).length

variable {c : Cut} {p : Partial}

theorem of_new (now : ℕ) {i : ℕ} (hi : i < c.count) : Of c ⟨c.fragment i, now, ∅, 0⟩ where
  metadata := ⟨i, hi, rfl⟩
  part h := by simp at h
  bytes := by simp

theorem Of.mem_lt (h : Of c p) {i : ℕ} (hi : i ∈ p.parts) : i < c.count := by
  obtain ⟨d, hd⟩ := Option.isSome_iff_exists.1 (AList.lookup_isSome.2 hi)
  exact (h.part hd).1

theorem Of.keys_subset (h : Of c p) : p.parts.keys.toFinset ⊆ Finset.range c.count := by
  intro i hi
  rw [List.mem_toFinset, ← AList.mem_keys] at hi
  exact Finset.mem_range.2 (h.mem_lt hi)

/-- **A fragment is added to its frame's assembly**, or is there already. -/
theorem Of.add (h : Of c p) {i : ℕ} (hi : i < c.count) : ∃ p', p.add (c.fragment i) = .ok p' ∧
    Of c p' ∧ p'.arrival = p.arrival ∧ ∀ j, j ∈ p'.parts ↔ j = i ∨ j ∈ p.parts := by
  obtain ⟨k, hk, hmeta⟩ := h.metadata
  rw [Partial.add, hmeta, if_pos ⟨rfl, rfl, rfl, rfl, rfl, rfl⟩, c.toNat_index hi]
  cases hl : p.parts.lookup i with
  | some d =>
    obtain ⟨-, rfl⟩ := h.part hl
    have hmem : i ∈ p.parts := AList.lookup_isSome.1 (by rw [hl]; rfl)
    refine ⟨p, by simp, h, rfl, fun j => ⟨.inr, ?_⟩⟩
    rintro (rfl | hj)
    · exact hmem
    · exact hj
  | none =>
    have hnot : i ∉ p.parts.keys.toFinset := by
      rw [List.mem_toFinset, ← AList.mem_keys]
      exact AList.lookup_eq_none.1 hl
    -- the parts present and the new one are distinct slices of the frame
    have hroom : p.bytes + (c.part i).length ≤ c.frame.data.length := by
      have hle := Finset.sum_le_sum_of_subset (f := fun j => (c.part j).length)
        (Finset.insert_subset (Finset.mem_range.2 hi) h.keys_subset)
      rwa [Finset.sum_insert hnot, c.sum_length_part, add_comm, ← h.bytes] at hle
    rw [c.data_fragment, c.toNat_totalBytes]
    simp only [if_pos hroom]
    refine ⟨_, rfl, ⟨⟨k, hk, rfl⟩, ?_, ?_⟩, rfl, fun j => ?_⟩
    · intro j d hj
      by_cases hji : j = i
      · subst hji
        rw [AList.lookup_insert] at hj
        exact ⟨hi, (Option.some.inj hj).symm⟩
      · rw [AList.lookup_insert_ne hji] at hj
        exact h.part hj
    · have hkeys : (p.parts.insert i (c.part i)).keys.toFinset =
          insert i p.parts.keys.toFinset := by
        ext j
        simp only [List.mem_toFinset, ← AList.mem_keys, AList.mem_insert, Finset.mem_insert]
      rw [hkeys, Finset.sum_insert hnot, h.bytes, add_comm]
    · exact AList.mem_insert _

theorem Of.complete_iff (h : Of c p) : p.complete ↔ ∀ i < c.count, i ∈ p.parts := by
  obtain ⟨k, -, hmeta⟩ := h.metadata
  have hcard : p.parts.keys.toFinset.card = p.parts.keys.length :=
    List.toFinset_card_of_nodup p.parts.keys_nodup
  rw [Partial.complete, hmeta, c.toNat_count, c.toNat_totalBytes, decide_eq_true_iff]
  constructor
  · rintro ⟨hlen, -⟩ i hi
    have hall : p.parts.keys.toFinset = Finset.range c.count :=
      Finset.eq_of_subset_of_card_le h.keys_subset (by rw [hcard, hlen, Finset.card_range])
    rw [AList.mem_keys, ← List.mem_toFinset, hall]
    exact Finset.mem_range.2 hi
  · intro hall
    have hkeys : p.parts.keys.toFinset = Finset.range c.count := by
      refine Finset.Subset.antisymm h.keys_subset fun i hi => ?_
      rw [List.mem_toFinset, ← AList.mem_keys]
      exact hall i (Finset.mem_range.1 hi)
    rw [← hcard, hkeys, Finset.card_range, h.bytes, hkeys, c.sum_length_part]
    exact ⟨rfl, rfl⟩

/-- **A complete assembly is the frame.** -/
theorem Of.assemble (h : Of c p) (hp : p.complete) : p.assemble = some c.frame.data := by
  obtain ⟨k, -, hmeta⟩ := h.metadata
  have hall := h.complete_iff.1 hp
  have hpart (i : ℕ) (hi : i ∈ List.range c.count) : p.parts.lookup i = some (c.part i) := by
    obtain ⟨d, hd⟩ := Option.isSome_iff_exists.1
      (AList.lookup_isSome.2 (hall i (List.mem_range.1 hi)))
    obtain ⟨-, rfl⟩ := h.part hd
    exact hd
  rw [Partial.assemble, hmeta, c.toNat_count, foldlM_lookup _ hpart, c.flatMap_part,
    List.nil_append]

/-- What `next` returns for a complete assembly carries the frame. -/
theorem Of.carries (h : Of c p) (hp : p.complete) {data : Bytes} (hdata : p.assemble = some data)
    (now : ℕ) : Carries c.frame ⟨⟨p.metadata.generation, UInt64.ofNat c.id,
      p.metadata.captureTimestamp, p.metadata.encodeTimestamp, p.metadata.sendTimestamp,
      p.metadata.keyframe, data⟩, now⟩ := by
  obtain ⟨k, -, hmeta⟩ := h.metadata
  rw [h.assemble hp] at hdata
  obtain rfl := Option.some.inj hdata
  rw [hmeta, Carries, Cut.id, UInt64.ofNat_toNat]
  rfl

end Partial

/-! ### The assembler's invariant -/

namespace FrameAssembler

/-- Every assembly is one of a frame of `pool` behind the last delivered one,
and the first frame must be a keyframe. -/
structure Sound (pool : Set Cut) (a : FrameAssembler) : Prop where
  frames : ∀ {id p}, a.frames.lookup id = some p → a.last < id ∧ ∃ c ∈ pool, c.id = id ∧ p.Of c
  started : a.last = 0 → a.requiresKeyframe = true

variable {pool : Set Cut} {a : FrameAssembler}

theorem sound_init : Sound pool {} where
  frames h := by simp at h
  started _ := rfl

theorem Sound.shrinks (h : Sound pool a) {b : FrameAssembler} (hs : Shrinks a b) :
    Sound pool b where
  frames hl := hs.last ▸ h.frames (hs.lookup hl)
  started hlast := hs.requires (h.started (hs.last ▸ hlast))

theorem Sound.insert (h : Sound pool a) {c : Cut} (hc : c ∈ pool) (hlast : a.last < c.id)
    {p : Partial} (hp : p.Of c) : Sound pool { a with frames := a.frames.insert c.id p } where
  frames {id q} hl := by
    by_cases hid : id = c.id
    · subst hid
      rw [AList.lookup_insert] at hl
      obtain rfl := Option.some.inj hl
      exact ⟨hlast, c, hc, rfl, hp⟩
    · rw [AList.lookup_insert_ne hid] at hl
      exact h.frames hl
  started := h.started

/-- `send_frame`'s bounds are the assembler's. -/
theorem inBounds_fragment (c : Cut) (hkey : c.frame.keyframe ≤ 1) {i : ℕ} (hi : i < c.count) :
    InBounds (c.fragment i) := by
  have hcount := c.toNat_count i
  have hindex := c.toNat_index hi
  have htotal := c.toNat_totalBytes i
  have hpos := c.count_pos
  have hlen := List.length_pos_iff.2 c.data_ne
  refine ⟨?_, ?_, ?_, ?_, ?_, c.part_ne_nil hi, le_trans (c.length_part_le i) c.size_le, hkey⟩
  · rw [gt_iff_lt, UInt16.lt_iff_toNat_lt, hcount]
    exact hpos
  · rw [UInt16.le_iff_toNat_le, hcount]
    exact c.count_le
  · rw [UInt16.lt_iff_toNat_lt, hcount, hindex]
    exact hi
  · rw [gt_iff_lt, UInt32.lt_iff_toNat_lt, htotal]
    exact hlen
  · rw [htotal]
    exact c.data_le

/-- **A fragment of the pool is taken in**: the invariant holds on, no frame is
delivered, and within bounds nothing is thrown. -/
theorem Sound.ingest (h : Sound pool a) (hpool : Set.InjOn Cut.id pool) {c : Cut} (hc : c ∈ pool)
    {i : ℕ} (hi : i < c.count) (now : ℕ) :
    Sound pool (a.ingest (c.fragment i) now).1 ∧ (a.ingest (c.fragment i) now).1.last = a.last ∧
      (InBounds (c.fragment i) → (a.ingest (c.fragment i) now).2 = .ok ()) := by
  unfold FrameAssembler.ingest
  split
  · rename_i hb
    exact ⟨h, rfl, fun hb' => absurd hb' hb⟩
  split
  · exact ⟨h, rfl, fun _ => rfl⟩
  rename_i hlast
  have hid : (c.fragment i).frameId.toNat = c.id := rfl
  rw [hid] at hlast ⊢
  simp only
  generalize ha₁ : { a with receivedFragments := a.receivedFragments + 1 } = a₁
  have hs₁ : Shrinks a a₁ := by rw [← ha₁]; exact ⟨fun h => h, rfl, fun h => h⟩
  have hs₂ : Shrinks a (a₁.expire now) := hs₁.trans (a₁.expire_shrinks now)
  generalize a₁.expire now = a₂ at hs₂
  -- `track` finds the frame's assembly or opens it
  obtain ⟨hs₃, hl₃, p, hp, hof⟩ : Sound pool (a₂.track (c.fragment i) now) ∧
      (a₂.track (c.fragment i) now).last = a.last ∧
      ∃ p, (a₂.track (c.fragment i) now).frames.lookup c.id = some p ∧ p.Of c := by
    obtain ⟨heq, p, hp⟩ | ⟨b, hsb, -, heq⟩ := a₂.track_cases (c.fragment i) now
    · have hs := h.shrinks hs₂
      rw [heq]
      obtain ⟨-, c', hc', hid', hof⟩ := hs.frames hp
      obtain rfl := hpool hc' hc hid'
      exact ⟨hs, hs₂.last, p, hp, hof⟩
    · rw [heq]
      have hs := hs₂.trans hsb
      have hof := Partial.of_new (c := c) now hi
      refine ⟨(h.shrinks hs).insert hc ?_ hof, hs.last, _, AList.lookup_insert _, hof⟩
      rw [hs.last]
      omega
  rw [hp]
  obtain ⟨p', hadd, hof', -, -⟩ := hof.add hi
  simp only [hadd]
  refine ⟨hs₃.insert hc ?_ hof', hl₃, fun _ => trivial⟩
  rw [hl₃]
  omega

/-- **A delivered frame is a frame of the pool**, behind the last one and, unless
it is a keyframe, right behind it. -/
theorem Sound.delivers (h : Sound pool a) {now : ℕ} {a' : FrameAssembler} {r : ReceivedFrame}
    (hd : Delivers a now a' r) : Sound pool a' ∧ ∃ c ∈ pool, Carries c.frame r ∧ a.last < c.id ∧
      a'.last = c.id ∧ (r.video.keyframe = 0 → a.last ≠ 0 ∧ c.id = a.last + 1) := by
  obtain ⟨id, p, data, hp, hcomplete, hdata, hlast, hr⟩ := hd.frame
  obtain ⟨hlt, c, hc, rfl, hof⟩ := h.frames hp
  refine ⟨⟨fun hl => ?_, fun h0 => ?_⟩, c, hc, ?_, hlt, hlast, fun hk => ?_⟩
  · obtain ⟨hlt', hl⟩ := hd.lookup hl
    exact ⟨hlt', (h.frames hl).2⟩
  · omega
  · rw [hr]
    exact hof.carries hcomplete hdata now
  · obtain ⟨hreq, hnext⟩ := hd.reference hk
    have h0 : a.last ≠ 0 := fun h0 => by
      rw [h.started h0] at hreq
      exact absurd hreq (by simp)
    exact ⟨h0, hlast ▸ hnext h0⟩

/-! ### Runs -/

/-- A datagram arrives: what `datagram(_:)` does with the assembler. -/
def receive (a : FrameAssembler) (data : Bytes) (now : ℕ) :
    FrameAssembler × Except WireError Unit :=
  match fragmentOf data with
  | .ok f => a.ingest f now
  | .error e => (a, .error e)

inductive Op where
  | receive (data : Bytes) (now : ℕ)
  | expire (now : ℕ)
  | next (now : ℕ)

def step (a : FrameAssembler) : Op → FrameAssembler × Option ReceivedFrame
  | .receive data now => ((a.receive data now).1, none)
  | .expire now => (a.expire now, none)
  | .next now => a.next now

/-- The state a run leaves and the frames it returned, in order. -/
def run (a : FrameAssembler) : List Op → FrameAssembler × List ReceivedFrame
  | [] => (a, [])
  | op :: ops =>
    let out := a.step op
    let outs := run out.1 ops
    (outs.1, out.2.toList ++ outs.2)

/-- The frames `rs` may be delivered behind the frame `last`. -/
inductive Chained (pool : Set Cut) : ℕ → List ReceivedFrame → Prop where
  | nil (last : ℕ) : Chained pool last []
  | cons {last : ℕ} {c : Cut} {r : ReceivedFrame} {rs : List ReceivedFrame} (hc : c ∈ pool)
      (hr : Carries c.frame r) (hlt : last < c.id)
      (hkey : r.video.keyframe = 0 → last ≠ 0 ∧ c.id = last + 1) (hrs : Chained pool c.id rs) :
      Chained pool last (r :: rs)

/-- Every datagram of `op` is one of the pool's, if it is one at all. -/
def Op.From (pool : Set Cut) (op : Op) : Prop :=
  ∀ data now, op = .receive data now →
    ∃ c ∈ pool, ∃ i < c.count, fragmentOf data = .ok (c.fragment i)

/-- **One step** keeps the invariant, and a frame it returns continues the chain. -/
theorem Sound.step (h : Sound pool a) (hpool : Set.InjOn Cut.id pool) {op : Op}
    (hop : op.From pool) : Sound pool (a.step op).1 ∧
      ∀ rs, Chained pool (a.step op).1.last rs →
        Chained pool a.last ((a.step op).2.toList ++ rs) := by
  cases op with
  | receive data now =>
    obtain ⟨c, hc, i, hi, hf⟩ := hop data now rfl
    obtain ⟨hs, hlast, -⟩ := h.ingest hpool hc hi now
    have hrec : (a.receive data now).1 = (a.ingest (c.fragment i) now).1 := by
      rw [receive, hf]
    rw [FrameAssembler.step, hrec]
    exact ⟨hs, fun rs hrs => hlast ▸ hrs⟩
  | expire now =>
    have hs := a.expire_shrinks now
    exact ⟨h.shrinks hs, fun rs hrs => hs.last ▸ hrs⟩
  | next now =>
    rw [FrameAssembler.step]
    obtain ⟨a', heq, hs⟩ | ⟨a', r, heq, hd⟩ := a.next_cases now
    · rw [heq]
      exact ⟨h.shrinks hs, fun rs hrs => hs.last ▸ hrs⟩
    · rw [heq]
      obtain ⟨hs, c, hc, hcarries, hlt, hlast, hkey⟩ := h.delivers hd
      exact ⟨hs, fun rs hrs => .cons hc hcarries hlt hkey (hlast ▸ hrs)⟩

/-- **A whole run** keeps the invariant and returns a chain of frames. -/
theorem Sound.run (h : Sound pool a) (hpool : Set.InjOn Cut.id pool) {ops : List Op}
    (hops : ∀ op ∈ ops, op.From pool) :
    Sound pool (a.run ops).1 ∧ Chained pool a.last (a.run ops).2 := by
  induction ops generalizing a with
  | nil => exact ⟨h, .nil _⟩
  | cons op ops ih =>
    obtain ⟨hs, hchain⟩ := h.step hpool (hops op List.mem_cons_self)
    obtain ⟨hs', hrs⟩ := ih hs fun op' hop' => hops op' (List.mem_cons_of_mem _ hop')
    exact ⟨hs', hchain _ hrs⟩

namespace Chained

variable {last : ℕ} {rs : List ReceivedFrame}

theorem id_eq {c : Cut} {r : ReceivedFrame} (hr : Carries c.frame r) :
    r.video.frameId.toNat = c.id := by
  rw [hr, Cut.id]

theorem carries (h : Chained pool last rs) : ∀ r ∈ rs, ∃ c ∈ pool, Carries c.frame r := by
  induction h with
  | nil => simp
  | cons hc hr _ _ _ ih => exact List.forall_mem_cons.2 ⟨⟨_, hc, hr⟩, ih⟩

theorem lt_of_mem (h : Chained pool last rs) : ∀ r ∈ rs, last < r.video.frameId.toNat := by
  induction h with
  | nil => simp
  | cons _ hr hlt _ _ ih =>
    exact List.forall_mem_cons.2 ⟨id_eq hr ▸ hlt, fun r hmem => hlt.trans (ih r hmem)⟩

theorem increasing (h : Chained pool last rs) :
    rs.Pairwise fun r r' => r.video.frameId < r'.video.frameId := by
  induction h with
  | nil => exact .nil
  | cons _ hr _ _ hrs ih =>
    refine .cons (fun r hmem => ?_) ih
    rw [UInt64.lt_iff_toNat_lt, id_eq hr]
    exact hrs.lt_of_mem r hmem

/-- Behind a delivered frame, a frame that is not a keyframe is the next one. -/
theorem follows (h : Chained pool last rs) :
    rs.IsChain fun r r' => r'.video.keyframe = 0 →
      r'.video.frameId.toNat = r.video.frameId.toNat + 1 := by
  induction h with
  | nil => exact .nil
  | cons _ hr _ _ hrs ih =>
    cases hrs with
    | nil => exact .singleton _
    | cons _ hr' _ hkey' _ =>
      refine .cons_cons (fun hk => ?_) ih
      rw [id_eq hr, id_eq hr', (hkey' hk).2]

theorem head_keyframe (h : Chained pool 0 rs) : ∀ r ∈ rs.head?, r.video.keyframe ≠ 0 := by
  cases h with
  | nil => simp
  | cons _ _ _ hkey _ =>
    rintro r ⟨⟩ hk
    exact absurd rfl (hkey hk).1

end Chained

end FrameAssembler

/-! ### The frames a host publishes -/

/-- The cuts of the sendings in a list. -/
def cuts (sendings : List Sending) : Set Cut :=
  fun c => ∃ s ∈ sendings, ∃ size, ∃ h : s.Passes size, h.cut = c

theorem cut_unique {s : Sending} {size size' : ℕ} (h : s.Passes size) (h' : s.Passes size') :
    h.cut = h'.cut := by
  obtain rfl := Option.some.inj (h.size_eq.symm.trans h'.size_eq)
  rfl

/-- Increasing ids tell the cuts apart. -/
theorem injOn_cuts {sendings : List Sending}
    (hids : sendings.Pairwise fun s s' => s.frame.frameId < s'.frame.frameId) :
    Set.InjOn Cut.id (cuts sendings) := by
  rintro c ⟨s, hs, size, h, rfl⟩ c' ⟨s', hs', size', h', rfl⟩ hid
  have hid' : s.frame.frameId = s'.frame.frameId := UInt64.toNat_inj.1 hid
  let R (s s' : Sending) : Prop := s.frame.frameId = s'.frame.frameId → s = s'
  have hR : sendings.Pairwise R := hids.imp fun hlt heq => absurd heq (UInt64.ne_of_lt hlt)
  have hflip : sendings.Pairwise (flip R) :=
    hids.imp fun {s s'} hlt (heq : s'.frame.frameId = s.frame.frameId) =>
      absurd heq.symm (UInt64.ne_of_lt hlt)
  have hsame := List.Pairwise.forall_of_forall_of_flip (R := R) (fun _ _ _ => rfl) hR hflip
  obtain rfl := hsame hs hs' hid'
  exact cut_unique h h'

/-- Emitted datagrams carry fragments of the cuts. -/
theorem fragmentOf_emitted {sendings : List Sending} {s : Sending} (hs : s ∈ sendings) {d : Bytes}
    (hd : d ∈ s.sendFrame.1) :
    ∃ c ∈ cuts sendings, c.frame = s.frame ∧ ∃ i < c.count, fragmentOf d = .ok (c.fragment i) := by
  obtain ⟨size, h, i, hi, rfl⟩ := Sending.emits hd
  exact ⟨h.cut, ⟨s, hs, size, h, rfl⟩, rfl, i, hi, fragmentOf_datagram _ _
    (le_trans (h.length_datagram_le i) (min_le_right _ _))⟩

/-- The datagrams that arrive in a run are emitted ones. -/
def Emitted (sendings : List Sending) (ops : List FrameAssembler.Op) : Prop :=
  ∀ data now, .receive data now ∈ ops → ∃ s ∈ sendings, data ∈ s.sendFrame.1

theorem Emitted.from {sendings : List Sending} {ops : List FrameAssembler.Op}
    (h : Emitted sendings ops) : ∀ op ∈ ops, op.From (cuts sendings) := by
  rintro op hop data now rfl
  obtain ⟨s, hs, hd⟩ := h data now hop
  obtain ⟨c, hc, -, hi⟩ := fragmentOf_emitted hs hd
  exact ⟨c, hc, hi⟩

/-- **End-to-end video safety.**  The host publishes frames with increasing ids
and sends each over a path of any datagram size, possibly abandoning it; its
datagrams are lost, duplicated, delayed and reordered at will, interleaved with
`expire` and `next` at any times.  Every frame `next` returns is the host frame
with its id, up to the time of sending; the ids increase; the first frame is a
keyframe, and every other frame that is not a keyframe has the id behind the one
returned before it. -/
theorem delivers_host_frames (sendings : List Sending)
    (hids : sendings.Pairwise fun s s' => s.frame.frameId < s'.frame.frameId)
    (ops : List FrameAssembler.Op) (hops : Emitted sendings ops) :
    let rs := (FrameAssembler.run {} ops).2
    (∀ r ∈ rs, ∃ s ∈ sendings, Carries s.frame r) ∧
    (rs.Pairwise fun r r' => r.video.frameId < r'.video.frameId) ∧
    (∀ r ∈ rs.head?, r.video.keyframe ≠ 0) ∧
    rs.IsChain fun r r' => r'.video.keyframe = 0 →
      r'.video.frameId.toNat = r.video.frameId.toNat + 1 := by
  intro rs
  obtain ⟨-, hchain⟩ := FrameAssembler.sound_init.run (injOn_cuts hids) hops.from
  refine ⟨fun r hr => ?_, hchain.increasing, hchain.head_keyframe, hchain.follows⟩
  obtain ⟨_, ⟨s, hs, size, h, rfl⟩, hcarries⟩ := hchain.carries r hr
  exact ⟨s, hs, hcarries⟩

/-- A frame of three bytes, sent in two fragments. -/
def sampleSending (frameId : UInt64) (keyframe : UInt8) : Sending where
  session := ⟨List.replicate 16 1, rfl⟩
  frame := ⟨1, frameId, 0, 0, 0, keyframe, [7, 8, 9]⟩
  maxDatagramSize := some 87
  now := 0
  clock _ := 0
  outcome _ := .sent

def sampleSendings : List Sending :=
  [sampleSending 1 1, sampleSending 2 0, sampleSending 3 0, sampleSending 4 1]

/-- The fragments of a keyframe come in reverse, those of the frame behind it twice; a fragment of
the third frame is lost, and a keyframe follows. -/
def sampleOps : List FrameAssembler.Op :=
  (sampleSending 1 1).sendFrame.1.reverse.map (.receive · 0) ++ [.next 1] ++
    ((sampleSending 2 0).sendFrame.1 ++ (sampleSending 2 0).sendFrame.1).map (.receive · 2) ++
      [.next 3] ++ ((sampleSending 3 0).sendFrame.1.take 1).map (.receive · 4) ++
        (sampleSending 4 1).sendFrame.1.map (.receive · 5) ++ [.expire 6, .next 7]

theorem sampleOps_emitted : Emitted sampleSendings sampleOps := by
  intro data now h
  simp only [sampleOps, List.mem_append, List.mem_map, List.mem_reverse, List.mem_cons,
    List.not_mem_nil, reduceCtorEq, or_false, FrameAssembler.Op.receive.injEq, or_self] at h
  obtain (((⟨d, hd, rfl, -⟩ | ⟨d, hd, rfl, -⟩) | ⟨d, hd, rfl, -⟩) | ⟨d, hd, rfl, -⟩) := h
  · exact ⟨_, .head _, hd⟩
  · exact ⟨_, .tail _ (.head _), hd⟩
  · exact ⟨_, .tail _ (.tail _ (.head _)), List.mem_of_mem_take hd⟩
  · exact ⟨_, .tail _ (.tail _ (.tail _ (.head _))), hd⟩

/-- The hypotheses of `delivers_host_frames` are satisfiable: three of the frames are returned. -/
theorem delivers_host_frames_sample :
    (FrameAssembler.run {} sampleOps).2.map (·.video.frameId) = [1, 2, 4] ∧
      ∀ r ∈ (FrameAssembler.run {} sampleOps).2, ∃ s ∈ sampleSendings, Carries s.frame r := by
  have hids : sampleSendings.Pairwise fun s s' => s.frame.frameId < s'.frame.frameId := by decide
  exact ⟨by decide +kernel, (delivers_host_frames sampleSendings hids _ sampleOps_emitted).1⟩

end Ipad
end SidecarDOS
