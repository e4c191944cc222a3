/-
# Frames cut into datagrams

`send_frame` of `windows/host/src/network/mod.rs`.  `Sending` is what one call
meets: its arguments, the datagram size the connection allows, the clock and
what becomes of each datagram.  A frame that passes the checks is a `Cut`: it is
cut into non-empty slices of at most 1,100 bytes, and the call emits the
datagrams of a beginning of them (`Sending.emits`), all of them when it returns
`Ok(true)` (`Sending.emits_all`).  Every datagram fits the path and carries its
fragment to the iPad (`Cut.length_datagram`, `fragmentOf_datagram`).
-/

import SidecarDOS.Library.Slices
import SidecarDOS.Protocol.Codec

namespace SidecarDOS

open Library

namespace Host

/-- The sum of the sizes of a datagram's fields other than its data. -/
def overhead : ℕ := HEADER + 4 + 8 * 4 + 1 + 2 + 2 + 4 + 4

/-- What `timeout_at` of one `send_datagram_wait` returns. -/
inductive SendOutcome where
  | sent
  | failed
  | elapsed

structure Sending where
  session : Id16
  frame : VideoFrame
  /-- `max_datagram_size` of the connection. -/
  maxDatagramSize : Option ℕ
  /-- `now_us` at the check of the frame's age. -/
  now : UInt64
  /-- `now_us` at each fragment. -/
  clock : ℕ → UInt64
  outcome : ℕ → SendOutcome

/-- A frame cut into slices of `size` bytes: what `send_frame` has checked when
it starts to send. -/
@[ext] structure Cut where
  frame : VideoFrame
  size : ℕ
  clock : ℕ → UInt64
  size_pos : 0 < size
  size_le : size ≤ 1100
  data_le : frame.data.length ≤ MAX_FRAME
  data_ne : frame.data ≠ []
  count_le : sliceCount size frame.data ≤ 4096

namespace Cut

variable (c : Cut)

def count : ℕ := sliceCount c.size c.frame.data

def id : ℕ := c.frame.frameId.toNat

/-- The bytes of the fragment with a given index. -/
def part (index : ℕ) : Bytes := slice c.size c.frame.data index

def fragment (index : ℕ) : VideoFragment where
  generation := c.frame.generation
  frameId := c.frame.frameId
  captureTimestamp := c.frame.captureTimestamp
  encodeTimestamp := c.frame.encodeTimestamp
  sendTimestamp := c.clock index
  keyframe := c.frame.keyframe
  index := UInt16.ofNat index
  count := UInt16.ofNat c.count
  totalBytes := UInt32.ofNat c.frame.data.length
  data := c.part index

def packet (session : Id16) (index : ℕ) : Packet := Packet.new (c.fragment index) 0 session

def datagram (session : Id16) (index : ℕ) : Bytes := (c.packet session index).encode

end Cut

namespace Sending

/-- The loop of `send_frame` over the enumerated chunks. -/
def sendLoop (s : Sending) (count : ℕ) : List (Bytes × ℕ) → List Bytes × Except Error Bool
  | [] => ([], .ok true)
  | (data, index) :: rest =>
    let v : VideoFragment :=
      { generation := s.frame.generation
        frameId := s.frame.frameId
        captureTimestamp := s.frame.captureTimestamp
        encodeTimestamp := s.frame.encodeTimestamp
        sendTimestamp := s.clock index
        keyframe := s.frame.keyframe
        index := UInt16.ofNat index
        count := UInt16.ofNat count
        totalBytes := UInt32.ofNat s.frame.data.length
        data := data }
    match s.outcome index with
    | .sent =>
      let out := sendLoop s count rest
      ((Packet.new v 0 s.session).encode :: out.1, out.2)
    | .failed => ([], .error .connection)
    | .elapsed => ([], .ok false)

/-- `send_frame`: the datagrams it emits and what it returns. -/
def sendFrame (s : Sending) : List Bytes × Except Error Bool :=
  if ¬ s.frame.data.length ≤ MAX_FRAME then ([], .error (.ensure "encoded frame too large"))
  else match s.maxDatagramSize with
    | none => ([], .error (.ensure "peer must support QUIC Datagram"))
    | some size =>
      let mtu := min size MAX_DATAGRAM
      if ¬ mtu > overhead then ([], .error (.ensure "datagram MTU too small"))
      else
        let chunk := min (mtu - overhead) 1100
        let count := sliceCount chunk s.frame.data
        if ¬ (count > 0 ∧ count ≤ 4096) then ([], .error (.ensure "invalid fragment count"))
        else if s.now.toNat - s.frame.captureTimestamp.toNat > 80000 then ([], .ok false)
        else s.sendLoop count (slices chunk s.frame.data).zipIdx

/-- The checks of `send_frame`, for a connection that allows `size`. -/
structure Passes (s : Sending) (size : ℕ) : Prop where
  size_eq : s.maxDatagramSize = some size
  data_le : s.frame.data.length ≤ MAX_FRAME
  mtu_lt : overhead < min size MAX_DATAGRAM
  count_pos : 0 < sliceCount (min (min size MAX_DATAGRAM - overhead) 1100) s.frame.data
  count_le : sliceCount (min (min size MAX_DATAGRAM - overhead) 1100) s.frame.data ≤ 4096

theorem Passes.size_pos {s : Sending} {size : ℕ} (h : s.Passes size) :
    0 < min (min size MAX_DATAGRAM - overhead) 1100 :=
  lt_min (Nat.sub_pos_of_lt h.mtu_lt) (by decide)

theorem Passes.data_ne {s : Sending} {size : ℕ} (h : s.Passes size) : s.frame.data ≠ [] := by
  intro hnil
  have hpos := h.count_pos
  rw [hnil, sliceCount, List.length_nil, Nat.div_pos_iff] at hpos
  omega

/-- The frame as it is cut once the checks have passed. -/
def Passes.cut {s : Sending} {size : ℕ} (h : s.Passes size) : Cut where
  frame := s.frame
  size := min (min size MAX_DATAGRAM - overhead) 1100
  clock := s.clock
  size_pos := h.size_pos
  size_le := min_le_right _ _
  data_le := h.data_le
  data_ne := h.data_ne
  count_le := h.count_le

/-- The loop emits datagrams of the cut's fragments, in order and from the first one on. -/
theorem sendLoop_prefix {s : Sending} {size : ℕ} (h : s.Passes size) (indices : List ℕ) :
    ∃ unsent, (s.sendLoop h.cut.count (indices.map fun i => (h.cut.part i, i))).1 ++ unsent =
      indices.map (h.cut.datagram s.session) ∧
      ((s.sendLoop h.cut.count (indices.map fun i => (h.cut.part i, i))).2 = .ok true →
        unsent = []) := by
  induction indices with
  | nil => exact ⟨[], rfl, fun _ => rfl⟩
  | cons i indices ih =>
    rw [List.map_cons, List.map_cons, sendLoop]
    cases s.outcome i with
    | sent =>
      obtain ⟨unsent, heq, hall⟩ := ih
      exact ⟨unsent, congrArg (h.cut.datagram s.session i :: ·) heq, hall⟩
    | failed => exact ⟨_, rfl, fun h => absurd h (by simp)⟩
    | elapsed => exact ⟨_, rfl, fun h => absurd h (by simp)⟩

/-- The checks, and the loop behind them. -/
theorem sendFrame_cases (s : Sending) :
    (s.sendFrame.1 = [] ∧ s.sendFrame.2 ≠ .ok true) ∨ ∃ size, ∃ h : s.Passes size, s.sendFrame =
      s.sendLoop h.cut.count ((List.range h.cut.count).map fun i => (h.cut.part i, i)) := by
  unfold sendFrame
  split
  · exact .inl ⟨rfl, by simp⟩
  rename_i hlen
  split
  · exact .inl ⟨rfl, by simp⟩
  rename_i size hsize
  simp only
  split
  · exact .inl ⟨rfl, by simp⟩
  rename_i hmtu
  split
  · exact .inl ⟨rfl, by simp⟩
  rename_i hcount
  split
  · exact .inl ⟨rfl, by simp⟩
  rw [not_not] at hlen hmtu hcount
  refine .inr ⟨size, ⟨hsize, hlen, hmtu, hcount.1, hcount.2⟩, ?_⟩
  rw [zipIdx_slices]
  rfl

/-- **Only the frame's own datagrams are emitted.** -/
theorem emits {s : Sending} {d : Bytes} (hd : d ∈ s.sendFrame.1) :
    ∃ size, ∃ h : s.Passes size, ∃ i < h.cut.count, d = h.cut.datagram s.session i := by
  obtain ⟨hnil, -⟩ | ⟨size, h, heq⟩ := s.sendFrame_cases
  · rw [hnil] at hd
    exact absurd hd (by simp)
  obtain ⟨unsent, hpre, -⟩ := sendLoop_prefix h (List.range h.cut.count)
  rw [heq] at hd
  have hmem := List.mem_append_left unsent hd
  rw [hpre, List.mem_map] at hmem
  obtain ⟨i, hi, rfl⟩ := hmem
  exact ⟨size, h, i, List.mem_range.1 hi, rfl⟩

/-- **A frame reported as sent was emitted completely.** -/
theorem emits_all {s : Sending} (hs : s.sendFrame.2 = .ok true) : ∃ size, ∃ h : s.Passes size,
    s.sendFrame.1 = (List.range h.cut.count).map (h.cut.datagram s.session) := by
  obtain ⟨-, hne⟩ | ⟨size, h, heq⟩ := s.sendFrame_cases
  · exact absurd hs hne
  obtain ⟨unsent, hpre, hall⟩ := sendLoop_prefix h (List.range h.cut.count)
  rw [heq] at hs ⊢
  rw [hall hs, List.append_nil] at hpre
  exact ⟨size, h, hpre⟩

/-- A fresh frame within the bounds is sent, unless a datagram is not. -/
theorem sends_all {s : Sending} {size : ℕ} (h : s.Passes size)
    (hfresh : s.now.toNat - s.frame.captureTimestamp.toNat ≤ 80000)
    (hsent : ∀ i, s.outcome i = .sent) : s.sendFrame.2 = .ok true := by
  have hloop (count : ℕ) (chunks : List (Bytes × ℕ)) : (s.sendLoop count chunks).2 = .ok true := by
    induction chunks with
    | nil => rfl
    | cons chunk chunks ih =>
      obtain ⟨data, index⟩ := chunk
      rw [sendLoop, hsent]
      exact ih
  unfold sendFrame
  rw [if_neg (not_not.2 h.data_le), h.size_eq]
  simp only [gt_iff_lt, h.count_pos, h.count_le, and_self, not_true_eq_false,
    h.mtu_lt, not_lt.2 hfresh, ↓reduceIte, hloop]

end Sending

namespace Cut

variable (c : Cut)

theorem count_pos : 0 < c.count := sliceCount_pos c.size_pos c.data_ne

theorem length_part_le (i : ℕ) : (c.part i).length ≤ c.size := length_slice_le _ _ _

theorem part_ne_nil {i : ℕ} (hi : i < c.count) : c.part i ≠ [] := slice_ne_nil hi

theorem flatMap_part : (List.range c.count).flatMap c.part = c.frame.data :=
  flatMap_slice c.size_pos _

theorem sum_length_part : ∑ i ∈ Finset.range c.count, (c.part i).length = c.frame.data.length :=
  sum_length_slice c.size_pos _

@[simp] theorem toNat_count (i : ℕ) : (c.fragment i).count.toNat = c.count :=
  UInt16.toNat_ofNat_of_lt' (lt_of_le_of_lt c.count_le (by decide))

theorem toNat_index {i : ℕ} (hi : i < c.count) : (c.fragment i).index.toNat = i :=
  UInt16.toNat_ofNat_of_lt' (lt_of_lt_of_le hi (le_trans c.count_le (by decide)))

@[simp] theorem toNat_totalBytes (i : ℕ) :
    (c.fragment i).totalBytes.toNat = c.frame.data.length :=
  UInt32.toNat_ofNat_of_lt' (lt_of_le_of_lt c.data_le (by decide))

@[simp] theorem data_fragment (i : ℕ) : (c.fragment i).data = c.part i := rfl

theorem valid_fragment (i : ℕ) : (Schema.format VideoFragment).Valid (c.fragment i) :=
  ⟨trivial, trivial, trivial, trivial, trivial, trivial, trivial, trivial, trivial,
    le_trans (c.length_part_le i) (le_trans c.size_le (by decide)), trivial⟩

/-- A datagram is its data and 85 bytes. -/
theorem length_datagram (session : Id16) (i : ℕ) :
    (c.datagram session i).length = overhead + (c.part i).length := by
  have hbody : (c.packet session i).body.length = 49 + (c.part i).length := by
    rw [packet, Packet.new_message]
    simp only [Schema.format, Record.format, Format.put_field, Format.put_nil, Schema.put_u8,
      Schema.put_u16, Schema.put_u32, Schema.put_u64, Schema.put_bytes, List.length_append,
      length_toLE, List.length_cons, List.length_nil, data_fragment]
    omega
  rw [datagram, Packet.encode_eq, length_envelope (c.packet session i).session.length_eq, hbody,
    overhead, HEADER]
  omega

end Cut

/-- Every datagram fits the path and the protocol's 1,200 bytes. -/
theorem Sending.Passes.length_datagram_le {s : Sending} {size : ℕ} (h : s.Passes size) (i : ℕ) :
    (h.cut.datagram s.session i).length ≤ min size MAX_DATAGRAM := by
  have hpart : (h.cut.part i).length ≤ min (min size MAX_DATAGRAM - overhead) 1100 :=
    h.cut.length_part_le i
  have := h.mtu_lt
  rw [Cut.length_datagram]
  omega

end Host

namespace Ipad

/-- The fragment in a datagram: the decoding at the start of `datagram(_:)`. -/
def fragmentOf (data : Bytes) : Except WireError VideoFragment := do
  (← Packet.decode data MAX_DATAGRAM).message VideoFragment

/-- **A datagram carries its fragment** from the host's encoder through the iPad's decoder. -/
theorem fragmentOf_datagram (c : Host.Cut) (session : Id16) {i : ℕ}
    (hlen : (c.datagram session i).length ≤ MAX_DATAGRAM) :
    fragmentOf (c.datagram session i) = .ok (c.fragment i) := by
  have hdecode : Packet.decode (c.datagram session i) MAX_DATAGRAM =
      .ok (c.packet session i).toIpad :=
    (ipad_decode_iff ..).2 ⟨_, host_decode_encode (by decide) hlen, rfl⟩
  have hmessage : (c.packet session i).toIpad.message VideoFragment = .ok (c.fragment i) := by
    rw [ipad_message_iff]
    exact host_message_new (c.valid_fragment i) 0 session
  simp only [fragmentOf, hdecode, bind, Except.bind, hmessage]

end Ipad
end SidecarDOS
