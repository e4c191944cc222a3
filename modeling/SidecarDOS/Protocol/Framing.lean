/-
# Control packets on a stream

`read_packet` of `windows/host/src/network/mod.rs` reads a header and a body
with two exact reads; `StreamParser` of `ipad/SidecarDOS/Protocol/Wire.swift`
keeps a buffer and takes packets off its front as chunks arrive.  Both are the
sized-frame splitter of `SidecarDOS.Library.Framing` with sizes and decoders
that agree (`Host.readPacket_eq`, `Ipad.StreamParser.turn_eq`), so the parser
returns what the reader returns under every segmentation.
-/

import SidecarDOS.Library.Framing
import SidecarDOS.Protocol.Codec

namespace SidecarDOS

open Library

namespace Host

/-- `read_exact` of `n` bytes from a stream that ends. -/
def readExact (n : ℕ) (stream : Bytes) : Except Error (Bytes × Bytes) :=
  if n ≤ stream.length then .ok (stream.take n, stream.drop n) else .error .eof

/-- `read_packet`: the packet and the stream behind it. -/
def readPacket (stream : Bytes) : Except Error (Packet × Bytes) := do
  let (header, stream) ← readExact HEADER stream
  if header.take 4 ≠ MAGIC then throw (.ensure "invalid stream framing")
  let len := ofLE ((header.drop 8).take 4)
  if ¬ len ≤ MAX_CONTROL - HEADER then throw (.ensure "oversized reliable message")
  let (body, stream) ← readExact len stream
  return (← Packet.decode (header ++ body) MAX_CONTROL, stream)

/-- The size `read_packet` takes from a header. -/
def frameSize (header : Bytes) : Except Error ℕ :=
  if header.take 4 ≠ MAGIC then .error (.ensure "invalid stream framing")
  else if ofLE ((header.drop 8).take 4) ≤ MAX_CONTROL - HEADER
    then .ok (HEADER + ofLE ((header.drop 8).take 4))
  else .error (.ensure "oversized reliable message")

theorem frameSize_eq_ok {h : Bytes} {n : ℕ} : frameSize h = .ok n ↔
    h.take 4 = MAGIC ∧ n = HEADER + ofLE ((h.drop 8).take 4) ∧ n ≤ MAX_CONTROL := by
  unfold frameSize
  split
  · rename_i hm
    simp [hm]
  · rename_i hm
    rw [not_not] at hm
    split
    · simp only [Except.ok.injEq, hm, true_and, MAX_CONTROL, HEADER] at *
      omega
    · simp only [reduceCtorEq, hm, true_and, MAX_CONTROL, HEADER, false_iff] at *
      omega

/-- Control packets behind each other on a stream. -/
def frames : Splitter Error UInt8 Packet :=
  .sized HEADER frameSize (Packet.decode · MAX_CONTROL) (by decide) fun h => by
    obtain ⟨-, rfl, -⟩ := frameSize_eq_ok.1 h
    exact Nat.le_add_right _ _

/-- A packet in front of a stream, or why there is none. -/
def ofFront : Front Error UInt8 Packet → Except Error (Packet × Bytes)
  | .more => .error .eof
  | .bad e => .error e
  | .frame p rest => .ok (p, rest)

/-- The two reads of `read_packet` are one look at the front of the stream. -/
theorem readPacket_eq (stream : Bytes) :
    readPacket stream = ofFront (frames.front stream) := by
  change _ = ofFront (Splitter.sizedFront HEADER frameSize (Packet.decode · MAX_CONTROL) stream)
  unfold readPacket Splitter.sizedFront readExact frameSize
  by_cases hh : HEADER ≤ stream.length
  swap
  · simp [hh, not_le.1 hh, bind, Except.bind, ofFront]
  simp only [hh, not_lt.2 hh, ↓reduceIte]
  by_cases hm : (stream.take HEADER).take 4 = MAGIC
  swap
  · simp [hm, bind, Except.bind, throw, throwThe, MonadExceptOf.throw, ofFront]
  by_cases hl : ofLE (((stream.take HEADER).drop 8).take 4) ≤ MAX_CONTROL - HEADER
  swap
  · simp [hm, hl, bind, Except.bind, throw, throwThe, MonadExceptOf.throw, ofFront]
  by_cases hb : ofLE (((stream.take HEADER).drop 8).take 4) ≤ (stream.drop HEADER).length
  · have hb' : ¬ stream.length < HEADER + ofLE (((stream.take HEADER).drop 8).take 4) := by
      rw [List.length_drop] at hb
      omega
    simp only [hm, hl, hb, hb', bind, Except.bind, pure, Except.pure, ne_eq, not_true_eq_false,
      ↓reduceIte, ← List.take_add, List.drop_drop]
    cases Packet.decode (stream.take (HEADER + ofLE (((stream.take HEADER).drop 8).take 4)))
      MAX_CONTROL <;> rfl
  · have hb' : stream.length < HEADER + ofLE (((stream.take HEADER).drop 8).take 4) := by
      rw [List.length_drop] at hb
      omega
    simp [-List.length_drop, hm, hl, hb, hb', bind, Except.bind, ofFront]

theorem readPacket_lt {stream rest : Bytes} {p : Packet} (h : readPacket stream = .ok (p, rest)) :
    rest.length < stream.length := by
  rw [readPacket_eq] at h
  cases hf : frames.front stream with
  | more => simp [hf, ofFront] at h
  | bad e => simp [hf, ofFront] at h
  | frame p' rest' =>
    rw [hf] at h
    obtain ⟨-, rfl⟩ := Prod.mk.inj (Except.ok.inj h)
    exact frames.rest_lt hf

/-- `read_packet` over and over, until it fails. -/
def readAll (stream : Bytes) : List Packet × Error :=
  match _h : readPacket stream with
  | .ok (p, rest) => (p :: (readAll rest).1, (readAll rest).2)
  | .error e => ([], e)
termination_by stream.length
decreasing_by all_goals exact readPacket_lt _h

/-- Why the front of a stream holds no packet. -/
def whyNot : Front Error UInt8 Packet → Error
  | .bad e => e
  | _ => .eof

theorem readAll_eq (stream : Bytes) :
    readAll stream = ((frames.split stream).1, whyNot (frames.front (frames.split stream).2)) := by
  induction stream using readAll.induct with
  | case1 stream p rest h ih =>
    have hf : frames.front stream = .frame p rest := by
      rw [readPacket_eq] at h
      cases hf : frames.front stream <;> simp_all [ofFront]
    rw [readAll, frames.split_frame hf]
    split
    · rename_i h'
      obtain ⟨rfl, rfl⟩ := Prod.mk.inj (Except.ok.inj (h.symm.trans h'))
      rw [ih]
    · rename_i h'
      exact absurd (h.symm.trans h') (by simp)
  | case2 stream e h =>
    have hstuck : ∀ p rest, frames.front stream ≠ .frame p rest := by
      intro p rest hf
      rw [readPacket_eq, hf] at h
      exact absurd h (by simp [ofFront])
    rw [readAll, frames.split_stuck hstuck]
    split
    · rename_i h'
      exact absurd (h.symm.trans h') (by simp)
    · rename_i e' h'
      rw [readPacket_eq] at h'
      cases hf : frames.front stream with
      | frame p rest => exact absurd hf (hstuck p rest)
      | more => simp_all [ofFront, whyNot]
      | bad e => simp_all [ofFront, whyNot]

/-- The parts of a header and the body behind it. -/
theorem header_parts (d : Bytes) : d = d.take 4 ++ ((d.drop 4).take 1 ++ ((d.drop 5).take 1 ++
    ((d.drop 6).take 2 ++ ((d.drop 8).take 4 ++ ((d.drop 12).take 8 ++ ((d.drop 20).take 16 ++
      d.drop HEADER)))))) := by
  have h (i n : ℕ) : (d.drop i).take n ++ d.drop (i + n) = d.drop i := by
    rw [← List.drop_drop, List.take_append_drop]
  rw [show HEADER = 20 + 16 from rfl, h 20 16, h 12 8, h 8 4, h 6 2, h 5 1, h 4 1,
    List.take_append_drop]

/-- An announced packet is decoded unless its major version is another. -/
theorem decode_announced {d : Bytes} (h : frameSize (d.take HEADER) = .ok d.length) :
    (∃ p, Packet.decode d MAX_CONTROL = .ok p) ∨
      Packet.decode d MAX_CONTROL = .error (.ensure "unsupported protocol major") := by
  obtain ⟨hmagic, hlen, hmax⟩ := frameSize_eq_ok.1 h
  have hle : HEADER ≤ d.length := by omega
  rw [List.take_take, show min 4 HEADER = 4 by decide] at hmagic
  rw [List.drop_take, List.take_take, show min 4 (HEADER - 8) = 4 by decide] at hlen
  have hpart (i n : ℕ) (hi : i + n ≤ HEADER) : ((d.drop i).take n).length = n := by
    rw [List.length_take, List.length_drop]
    omega
  obtain ⟨major, hmajor⟩ := List.length_eq_one_iff.1 (hpart 4 1 (by decide))
  obtain ⟨minor, hminor⟩ := List.length_eq_one_iff.1 (hpart 5 1 (by decide))
  have hd := header_parts d
  rw [hmagic, hmajor, hminor] at hd
  by_cases hM : major = MAJOR
  · refine .inl ⟨⟨UInt16.ofNat (ofLE ((d.drop 6).take 2)), UInt64.ofNat (ofLE ((d.drop 12).take 8)),
      ⟨(d.drop 20).take 16, hpart 20 16 (by decide)⟩, d.drop HEADER⟩,
      Packet.decode_eq_ok.2 ⟨hmax, ?_, minor, ?_⟩⟩
    · rw [List.length_drop]
      exact lt_of_le_of_lt (Nat.sub_le _ _) (lt_of_le_of_lt hmax (by decide))
    · have hkind := (Library.eq_ofLE_iff (fun v : UInt16 => v.toNat_lt)
        (fun _ => UInt16.ofNat_toNat) (fun _ h => UInt16.toNat_ofNat_of_lt' h)
        (hpart 6 2 (by decide)) _).1 rfl
      have hseq := (Library.eq_ofLE_iff (fun v : UInt64 => v.toNat_lt)
        (fun _ => UInt64.ofNat_toNat) (fun _ h => UInt64.toNat_ofNat_of_lt' h)
        (hpart 12 8 (by decide)) _).1 rfl
      have hbody : toLE 4 (d.drop HEADER).length = (d.drop 8).take 4 := by
        rw [List.length_drop, hlen, Nat.add_sub_cancel_left]
        exact (hpart 8 4 (by decide) ▸ toLE_ofLE ((d.drop 8).take 4) :)
      rw [envelope, hkind, hseq, hbody]
      rw [hM] at hd
      exact hd
  · right
    have hread : (Cursor.start d).Reads d ⟨d, d.length, Nat.le_refl _⟩ := by
      refine ⟨rfl, ?_⟩
      rw [Cursor.rest_start, Cursor.rest, List.drop_length, List.append_nil]
    nth_rewrite 2 [hd] at hread
    obtain ⟨c₁, h₁, h₂⟩ := Cursor.reads_append.1 hread
    obtain ⟨c₂, h₂, -⟩ := Cursor.reads_append.1 h₂
    have ht := (Reader.take_exact 4 (Cursor.start d) MAGIC c₁).2 ⟨rfl, h₁⟩
    have hu := (Reader.u8_exact c₁ major c₂).2 ⟨trivial, h₂⟩
    rw [Packet.decode, if_pos ⟨hle, hmax⟩, Packet.read, run_bind_of_ok ht, ensure,
      require_bind_of rfl, run_bind_of_ok hu, ensure, require_bind_of_not hM]
    rfl

/-- What can be wrong in front of a stream: nonsense, an over-long length or
another major version; never the end of the stream. -/
theorem front_bad {stream : Bytes} {e : Error} (h : frames.front stream = .bad e) :
    e = .ensure "invalid stream framing" ∨ e = .ensure "oversized reliable message" ∨
      e = .ensure "unsupported protocol major" := by
  change Splitter.sizedFront HEADER frameSize (Packet.decode · MAX_CONTROL) stream = _ at h
  unfold Splitter.sizedFront at h
  split at h
  · exact absurd h (by simp)
  cases hn : frameSize (stream.take HEADER) with
  | error e' =>
    rw [hn] at h
    obtain rfl : e' = e := by simpa using h
    unfold frameSize at hn
    split at hn
    · exact .inl (Except.error.inj hn).symm
    split at hn
    · exact absurd hn (by simp)
    · exact .inr (.inl (Except.error.inj hn).symm)
  | ok n =>
    obtain ⟨-, hlen, -⟩ := frameSize_eq_ok.1 hn
    rw [hn] at h
    simp only at h
    split at h
    · exact absurd h (by simp)
    rename_i hle
    have hd : frameSize ((stream.take n).take HEADER) = .ok (stream.take n).length := by
      rw [List.take_take, min_eq_left (by omega), hn, List.length_take, min_eq_left (by omega)]
    obtain ⟨p, hp⟩ | herr := decode_announced hd
    · rw [hp] at h
      exact absurd h (by simp)
    · rw [herr] at h
      exact .inr (.inr (Front.bad.inj h).symm)

end Host

namespace Ipad

structure StreamParser where
  buffer : Bytes

namespace StreamParser

/-- The length the loop of `append` reads from a header. -/
def length (header : Bytes) : Except WireError ℕ :=
  (fun r => r.1) <$> (do
    guardElse ((← WireReader.take 4) = MAGIC) .malformed
    let _ ← WireReader.take 4
    let length := (← WireReader.u32).toNat + HEADER
    guardElse (length ≤ MAX_CONTROL) .oversized
    return length : Read ℕ).run (Cursor.start header)

/-- One turn of the loop of `append`: a packet and the buffer behind it, or
`none` where the loop ends. -/
def turn (buffer : Bytes) : Except WireError (Option (Packet × Bytes)) :=
  if buffer.length ≥ HEADER then do
    let length ← length (buffer.take HEADER)
    if buffer.length < length then return none
    return some (← Packet.decode (buffer.take length) MAX_CONTROL, buffer.drop length)
  else return none

theorem frameSize_of_length {h : Bytes} {n : ℕ} (hn : length h = .ok n) :
    Host.frameSize h = .ok n := by
  rw [length, map_eq_ok] at hn
  obtain ⟨⟨_, c⟩, hrun, rfl⟩ := hn
  obtain ⟨magic, c₁, h₁, hrun⟩ := run_bind_ok.1 hrun
  obtain ⟨hmagic, hrun⟩ := require_bind_ok.1 hrun
  obtain ⟨x, c₂, h₂, hrun⟩ := run_bind_ok.1 hrun
  obtain ⟨v, c₃, h₃, hrun⟩ := run_bind_ok.1 hrun
  obtain ⟨hmax, hrun⟩ := require_bind_ok.1 hrun
  obtain ⟨rfl, rfl⟩ := Prod.mk.inj (run_pure_ok.1 hrun)
  obtain ⟨hl₁, hr₁⟩ := (WireReader.take_exact ..).1 h₁
  obtain ⟨hl₂, hr₂⟩ := (WireReader.take_exact ..).1 h₂
  obtain ⟨-, hr₃⟩ := (WireReader.u32_exact ..).1 h₃
  have hsplit : h = magic ++ (x ++ (toLE 4 v.toNat ++ c.rest)) := by
    have := hr₁.2
    rwa [hr₂.2, hr₃.2, Cursor.rest_start] at this
  have hfour : h.take 4 = magic := by rw [hsplit, List.take_left' hl₁]
  have hv : (h.drop 8).take 4 = toLE 4 v.toNat := by
    rw [hsplit, ← List.append_assoc, List.drop_left' (by rw [List.length_append, hl₁, hl₂]),
      List.take_left' (length_toLE _ _)]
  refine Host.frameSize_eq_ok.2 ?_
  rw [hfour, hv, ofLE_toLE_of_lt (show v.toNat < 256 ^ 4 from v.toNat_lt)]
  exact ⟨hmagic, Nat.add_comm .., hmax⟩

/-- The parser reads the size of a packet where the host does. -/
theorem length_eq_ok {h : Bytes} (hh : h.length = HEADER) (n : ℕ) :
    length h = .ok n ↔ Host.frameSize h = .ok n := by
  refine ⟨frameSize_of_length, fun hn => ?_⟩
  obtain ⟨hmagic, rfl, hmax⟩ := Host.frameSize_eq_ok.1 hn
  rw [length, map_eq_ok]
  have hpart (i n : ℕ) : (h.drop i).take n ++ h.drop (i + n) = h.drop i := by
    rw [← List.drop_drop, List.take_append_drop]
  have hlen (i n : ℕ) (hi : i + n ≤ HEADER) : ((h.drop i).take n).length = n := by
    rw [List.length_take, List.length_drop]
    omega
  have hread : (Cursor.start h).Reads
      (h.take 4 ++ ((h.drop 4).take 4 ++ ((h.drop 8).take 4 ++ h.drop 12)))
      ⟨h, h.length, Nat.le_refl _⟩ := by
    refine ⟨rfl, ?_⟩
    rw [Cursor.rest_start, Cursor.rest, List.drop_length, List.append_nil, hpart 8 4, hpart 4 4,
      List.take_append_drop]
  obtain ⟨c₁, h₁, h₂⟩ := Cursor.reads_append.1 hread
  obtain ⟨c₂, h₂, h₃⟩ := Cursor.reads_append.1 h₂
  obtain ⟨c₃, h₃, -⟩ := Cursor.reads_append.1 h₃
  have hlt : ofLE ((h.drop 8).take 4) < 2 ^ 32 := by
    have := ofLE_lt ((h.drop 8).take 4)
    rwa [hlen 8 4 (by decide)] at this
  have hv := toNat_bodyLength hlt
  have hput : toLE 4 (UInt32.ofNat (ofLE ((h.drop 8).take 4))).toNat = (h.drop 8).take 4 := by
    rw [hv]
    exact (hlen 8 4 (by decide) ▸ toLE_ofLE ((h.drop 8).take 4) :)
  refine ⟨(HEADER + ofLE ((h.drop 8).take 4), c₃), run_bind_ok.2 ⟨MAGIC, c₁, ?_, ?_⟩, rfl⟩
  · exact (WireReader.take_exact ..).2 ⟨rfl, hmagic ▸ h₁⟩
  refine require_bind_ok.2 ⟨rfl, run_bind_ok.2 ⟨(h.drop 4).take 4, c₂, ?_, ?_⟩⟩
  · exact (WireReader.take_exact ..).2 ⟨hlen 4 4 (by decide), h₂⟩
  refine run_bind_ok.2 ⟨UInt32.ofNat (ofLE ((h.drop 8).take 4)), c₃, ?_, ?_⟩
  · refine (WireReader.u32_exact ..).2 ⟨trivial, ?_⟩
    rw [Schema.put_u32, hput]
    exact h₃
  rw [hv, Nat.add_comm]
  exact require_bind_ok.2 ⟨hmax, run_pure_ok.2 rfl⟩

/-- Control packets behind each other in the buffer. -/
def frames : Splitter WireError UInt8 Packet :=
  .sized HEADER length (Packet.decode · MAX_CONTROL) (by decide) fun hn => by
    obtain ⟨-, rfl, -⟩ := Host.frameSize_eq_ok.1 (frameSize_of_length hn)
    exact Nat.le_add_right _ _

/-- A look at the front of the buffer, as a turn of the loop. -/
def ofFront : Front WireError UInt8 Packet → Except WireError (Option (Packet × Bytes))
  | .more => .ok none
  | .bad e => .error e
  | .frame p rest => .ok (some (p, rest))

theorem turn_eq (buffer : Bytes) : turn buffer = ofFront (frames.front buffer) := by
  change _ = ofFront (Splitter.sizedFront HEADER length (Packet.decode · MAX_CONTROL) buffer)
  unfold turn Splitter.sizedFront
  by_cases hh : HEADER ≤ buffer.length
  swap
  · simp [hh, not_le.1 hh, ofFront, pure, Except.pure]
  simp only [ge_iff_le, hh, not_lt.2 hh, ↓reduceIte, bind, Except.bind]
  cases hn : length (buffer.take HEADER) with
  | error e => rfl
  | ok n =>
    by_cases hle : buffer.length < n
    · simp [hle, ofFront, pure, Except.pure]
    simp only [hle, ↓reduceIte]
    cases Packet.decode (buffer.take n) MAX_CONTROL <;> rfl

theorem turn_lt {buffer rest : Bytes} {p : Packet} (h : turn buffer = .ok (some (p, rest))) :
    rest.length < buffer.length := by
  rw [turn_eq] at h
  cases hf : frames.front buffer with
  | more => simp [hf, ofFront] at h
  | bad e => simp [hf, ofFront] at h
  | frame p' rest' =>
    rw [hf] at h
    obtain ⟨-, rfl⟩ := Prod.mk.inj (Option.some.inj (Except.ok.inj h))
    exact frames.rest_lt hf

/-- The loop of `append`: what it returns or throws, and the buffer it leaves.
A throw loses the packets in `result`. -/
def drain (buffer : Bytes) (result : List Packet) : Except WireError (List Packet) × Bytes :=
  match _h : turn buffer with
  | .ok (some (p, rest)) => drain rest (result ++ [p])
  | .ok none => (.ok result, buffer)
  | .error e => (.error e, buffer)
termination_by buffer.length
decreasing_by all_goals exact turn_lt _h

def append (parser : StreamParser) (bytes : Bytes) :
    Except WireError (List Packet) × StreamParser :=
  if parser.buffer.length + bytes.length ≤ MAX_CONTROL * 2 then
    let out := drain (parser.buffer ++ bytes) []
    (out.1, ⟨out.2⟩)
  else (.error .oversized, parser)

/-- The chunks of a stream, appended one after another. -/
def appends (parser : StreamParser) : List Bytes → List (Except WireError (List Packet)) × StreamParser
  | [] => ([], parser)
  | bytes :: chunks =>
    let out := parser.append bytes
    let outs := appends out.2 chunks
    (out.1 :: outs.1, outs.2)

theorem drain_frame {buffer rest : Bytes} {p : Packet} (h : frames.front buffer = .frame p rest)
    (result : List Packet) : drain buffer result = drain rest (result ++ [p]) := by
  have hturn : turn buffer = .ok (some (p, rest)) := by rw [turn_eq, h, ofFront]
  rw [drain]
  split
  · rename_i h'
    obtain ⟨rfl, rfl⟩ := Prod.mk.inj (Option.some.inj (Except.ok.inj (hturn.symm.trans h')))
    rfl
  · rename_i h'
    exact absurd (hturn.symm.trans h') (by simp)
  · rename_i h'
    exact absurd (hturn.symm.trans h') (by simp)

theorem drain_more {buffer : Bytes} (h : frames.front buffer = .more) (result : List Packet) :
    drain buffer result = (.ok result, buffer) := by
  have hturn : turn buffer = .ok none := by rw [turn_eq, h, ofFront]
  rw [drain]
  split
  · rename_i h'
    exact absurd (hturn.symm.trans h') (by simp)
  · rfl
  · rename_i h'
    exact absurd (hturn.symm.trans h') (by simp)

theorem drain_bad {buffer : Bytes} {e : WireError} (h : frames.front buffer = .bad e)
    (result : List Packet) : drain buffer result = (.error e, buffer) := by
  have hturn : turn buffer = .error e := by rw [turn_eq, h, ofFront]
  rw [drain]
  split
  · rename_i h'
    exact absurd (hturn.symm.trans h') (by simp)
  · rename_i h'
    exact absurd (hturn.symm.trans h') (by simp)
  · rename_i h'
    rw [Except.error.inj (hturn.symm.trans h')]

/-- The loop takes all packets off the front, and throws on a nonsense tail. -/
theorem drain_eq (buffer : Bytes) (result : List Packet) : drain buffer result =
    (match frames.front (frames.split buffer).2 with
      | .bad e => .error e
      | _ => .ok (result ++ (frames.split buffer).1), (frames.split buffer).2) := by
  induction buffer using Splitter.split.induct frames generalizing result with
  | case1 buffer p rest h ih =>
    rw [drain_frame h, ih, frames.split_frame h]
    simp only [List.append_assoc, List.singleton_append]
  | case2 buffer h => rw [drain_more h, frames.split_more h, h, List.append_nil]
  | case3 buffer e h => rw [drain_bad h, frames.split_bad h, h]

theorem append_eq (parser : StreamParser) (bytes : Bytes) : parser.append bytes =
    ((frames.push (MAX_CONTROL * 2) .oversized parser.buffer bytes).1,
      ⟨(frames.push (MAX_CONTROL * 2) .oversized parser.buffer bytes).2⟩) := by
  unfold append Splitter.push
  split
  · rw [drain_eq]
    cases frames.front (frames.split (parser.buffer ++ bytes)).2 <;> rfl
  · rfl

theorem appends_eq (parser : StreamParser) (chunks : List Bytes) : parser.appends chunks =
    ((frames.pushes (MAX_CONTROL * 2) .oversized parser.buffer chunks).1,
      ⟨(frames.pushes (MAX_CONTROL * 2) .oversized parser.buffer chunks).2⟩) := by
  induction chunks generalizing parser with
  | nil => rfl
  | cons bytes chunks ih =>
    rw [appends, append_eq, ih]
    rfl

/-- A buffer the loop stops at is shorter than the largest packet. -/
theorem length_lt_of_more {buffer : Bytes} (h : frames.front buffer = .more) :
    buffer.length < MAX_CONTROL := by
  change Splitter.sizedFront HEADER length (Packet.decode · MAX_CONTROL) buffer = .more at h
  exact Splitter.length_lt_of_sizedFront (by decide)
    (fun hn => (Host.frameSize_eq_ok.1 (frameSize_of_length hn)).2.2) h

/-- Reader and parser find the same packet in front of a stream, or neither does. -/
theorem front_agree (stream : Bytes) :
    Front.Agree Host.Packet.toIpad (Host.frames.front stream) (frames.front stream) :=
  Splitter.sizedFront_agree (fun _ hh => length_eq_ok hh) (fun d => ipad_decode_iff d MAX_CONTROL)
    stream

end StreamParser
end Ipad

/-- An encoded packet of at most 64 KiB stands in front of whatever follows it. -/
theorem front_encode {p : Host.Packet} (hp : p.encode.length ≤ MAX_CONTROL) (rest : Bytes) :
    Host.frames.front (p.encode ++ rest) = .frame p rest := by
  have hlen := congrArg List.length p.encode_eq
  rw [length_envelope p.session.length_eq] at hlen
  have htake : (p.encode ++ rest).take p.encode.length = p.encode := List.take_left
  have hsize : Host.frameSize ((p.encode ++ rest).take HEADER) = .ok p.encode.length := by
    have hlt : p.body.length < 256 ^ 4 := by
      rw [MAX_CONTROL] at hp
      omega
    have hfield : ((p.encode ++ rest).drop 8).take 4 = toLE 4 p.body.length := by
      rw [p.encode_eq, envelope, ← List.append_assoc, ← List.append_assoc, ← List.append_assoc,
        List.append_assoc, List.drop_left' (by simp [MAGIC]), List.append_assoc,
        List.take_left' (length_toLE ..)]
    refine Host.frameSize_eq_ok.2 ⟨?_, ?_, hp⟩
    · rw [List.take_take, p.encode_eq, envelope, List.append_assoc]
      rfl
    · rw [List.drop_take, List.take_take, show min 4 (HEADER - 8) = 4 by decide, hfield,
        ofLE_toLE_of_lt hlt, hlen]
  change Splitter.sizedFront HEADER Host.frameSize (Host.Packet.decode · MAX_CONTROL) _ = _
  unfold Splitter.sizedFront
  have hle : ¬ (p.encode ++ rest).length < HEADER := by
    rw [List.length_append]
    omega
  have hle' : ¬ (p.encode ++ rest).length < p.encode.length := by
    rw [List.length_append]
    omega
  simp only [if_neg hle, hsize, if_neg hle', htake, host_decode_encode (by decide) hp,
    List.drop_left]

/-- **Framing does not depend on segmentation, and both implementations agree
on it.**  Let a stream arrive in chunks of at most 16,384 bytes.  If the host's
reader takes the packets `ps` off it and then runs out of bytes, the iPad's
parser throws at no chunk, returns exactly `ps` and keeps less than 65,536
bytes.  Otherwise the reader stops at a bad magic, an over-long length or an
unsupported major version, and then the parser throws at some chunk.  It never
returns a packet beyond `ps`.  A stream of encoded packets of at most 65,536
bytes each is recovered exactly. -/
theorem framing_agrees (chunks : List Bytes) (hchunks : ∀ bytes ∈ chunks, bytes.length ≤ 16384) :
    let read := Host.readAll chunks.flatten
    let out := (Ipad.StreamParser.mk []).appends chunks
    (read.2 = .eof →
      (∀ r ∈ out.1, ∃ packets, r = .ok packets) ∧
        Splitter.returned out.1 = read.1.map Host.Packet.toIpad ∧ out.2.buffer.length < 65536) ∧
    (read.2 ≠ .eof →
      (read.2 = .ensure "invalid stream framing" ∨ read.2 = .ensure "oversized reliable message" ∨
        read.2 = .ensure "unsupported protocol major") ∧ ∃ e, .error e ∈ out.1) ∧
    (∃ unreturned, Splitter.returned out.1 ++ unreturned = read.1.map Host.Packet.toIpad) ∧
    ∀ packets : List Host.Packet, (∀ p ∈ packets, p.encode.length ≤ 65536) →
      chunks.flatten = packets.flatMap Host.Packet.encode →
      (∀ r ∈ out.1, ∃ packets, r = .ok packets) ∧
        Splitter.returned out.1 = packets.map Host.Packet.toIpad := by
  intro read out
  have hread : read = ((Host.frames.split chunks.flatten).1,
      Host.whyNot (Host.frames.front (Host.frames.split chunks.flatten).2)) := Host.readAll_eq _
  have hout : out = ((Ipad.StreamParser.frames.pushes (MAX_CONTROL * 2) .oversized [] chunks).1,
      ⟨(Ipad.StreamParser.frames.pushes (MAX_CONTROL * 2) .oversized [] chunks).2⟩) :=
    Ipad.StreamParser.appends_eq _ _
  have hsplit := Splitter.split_agree Host.frames Ipad.StreamParser.front_agree chunks.flatten
  obtain ⟨hmore, hbad, hpre⟩ := Splitter.pushes_eq_split .oversized
    Ipad.StreamParser.length_lt_of_more (by decide : MAX_CONTROL + 16384 ≤ MAX_CONTROL * 2 + 1)
    (rfl : Ipad.StreamParser.frames.front [] = .more) hchunks
  rw [List.nil_append, hsplit] at hmore hbad hpre
  have htail := Ipad.StreamParser.front_agree (Host.frames.split chunks.flatten).2
  have hall (hf : Host.frames.front (Host.frames.split chunks.flatten).2 = .more) :
      Ipad.StreamParser.frames.front (Host.frames.split chunks.flatten).2 = .more := by
    rw [hf] at htail
    generalize Ipad.StreamParser.frames.front (Host.frames.split chunks.flatten).2 = f at htail
    cases htail
    rfl
  rw [hread, hout]
  refine ⟨fun heof => ?_, fun hne => ?_, hpre, fun packets hlen hpackets => ?_⟩
  · cases hf : Host.frames.front (Host.frames.split chunks.flatten).2 with
    | frame p rest => exact absurd hf (Host.frames.front_tail _ p rest)
    | bad e =>
      rw [hf] at heof
      have he : e = .eof := heof
      obtain h | h | h := Host.front_bad hf <;> exact absurd (he.symm.trans h) (by simp)
    | more =>
      obtain ⟨hok, hret, hkept⟩ := hmore (hall hf)
      refine ⟨hok, hret, ?_⟩
      rw [hkept]
      exact Ipad.StreamParser.length_lt_of_more (hall hf)
  · cases hf : Host.frames.front (Host.frames.split chunks.flatten).2 with
    | frame p rest => exact absurd hf (Host.frames.front_tail _ p rest)
    | more =>
      rw [hf] at hne
      exact absurd rfl hne
    | bad e =>
      refine ⟨Host.front_bad hf, ?_⟩
      rw [hf] at htail
      generalize hg : Ipad.StreamParser.frames.front _ = g at htail
      cases htail with
      | bad _ e' => exact hbad e' hg
  · have hwhole := Host.frames.split_flatMap rfl fun p hp => front_encode (hlen p hp)
    rw [← hpackets] at hwhole
    rw [hwhole] at hmore hall
    obtain ⟨hok, hret, -⟩ := hmore rfl
    exact ⟨hok, hret⟩

/-- The hypotheses of `framing_agrees` are satisfiable: a ping, cut after five bytes. -/
theorem framing_agrees_ping :
    let p := Host.Packet.new (⟨42⟩ : Ping) 1 ⟨List.replicate 16 0, rfl⟩
    Splitter.returned ((Ipad.StreamParser.mk []).appends
      [p.encode.take 5, p.encode.drop 5]).1 = [p.toIpad] := by
  intro p
  exact ((framing_agrees [p.encode.take 5, p.encode.drop 5] (by decide)).2.2.2 [p]
    (by decide) (by decide)).2

end SidecarDOS
