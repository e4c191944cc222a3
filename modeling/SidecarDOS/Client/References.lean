/-
# Frames and their references

A frame that is no IDR is decoded against the frame before it.  The assembler may leave frames
out, in front of a keyframe; the decoder leaves out what it cannot take, and then waits
for an IDR.  What the session hands to VideoToolbox is therefore gapless: every frame is an IDR
or follows the one handed over just before, in the same session of VideoToolbox (`Based`),
as long as the frames are those that `MfEncoder` prepares (`references_kept`).
-/

import SidecarDOS.Client.Changes
import SidecarDOS.Client.Decoding

namespace SidecarDOS

open Host (Sending Cut)

namespace Ipad

/-! ### The decoder -/

namespace H264Decoder

open Host.H264 (has)

/-- A session has parameter sets, and who waits for no IDR has a session. -/
structure Lined (d : H264Decoder) : Prop where
  sets : d.session ≠ none → d.sps ≠ [] ∧ d.pps ≠ []
  session : d.waitingForIDR = false → d.session ≠ none

/-- In the units that `decode` looks at, parameter sets come with an IDR. -/
def Bears (received : ReceivedFrame) : Prop :=
  ∀ units, nals received.video.data = .ok units →
    has 7 units = true ∨ has 8 units = true → has 5 units = true

variable {d d' : H264Decoder} {vt : VideoToolbox} {received : ReceivedFrame}

theorem Lined.reset (d : H264Decoder) : d.reset.Lined := ⟨fun h => absurd rfl h, nofun⟩

/-- The frame is not handed over, and the decoder waits, or it is, as an IDR or behind the frames
of the same session. -/
def Hands (d d' : H264Decoder) (received : ReceivedFrame) : Prop :=
  d'.jobs = d.jobs ∧ d'.waitingForIDR = true ∨
    d'.jobs = d.jobs ++ [⟨received, d'.epoch⟩] ∧ d'.waitingForIDR = false ∧
      ∃ units, nals received.video.data = .ok units ∧
        (has 5 units = true ∨ d.waitingForIDR = false ∧ d'.epoch = d.epoch)

theorem submit_hands (hd : d.Lined) (vt : VideoToolbox) (received : ReceivedFrame) :
    (∃ e, d.submit vt received = (d, .error e)) ∨ ∃ d', d.submit vt received = (d', .ok false) ∧
      d'.Lined ∧ d'.epoch = d.epoch ∧ d'.jobs = d.jobs ++ [⟨received, d'.epoch⟩] ∧
        d'.waitingForIDR = false := by
  unfold submit
  split
  · exact .inl ⟨_, rfl⟩
  rename_i hsession
  split
  · exact .inl ⟨_, rfl⟩
  split
  · exact .inl ⟨_, rfl⟩
  · exact .inr ⟨_, rfl, ⟨hd.sets, fun _ hnone => hsession (.inl hnone)⟩, rfl, rfl, rfl⟩

theorem configure_lined (vt : VideoToolbox) (hsps : d.sps ≠ []) (hpps : d.pps ≠ []) :
    (∃ d' e, d.configure vt = (d', .error e) ∧ d'.jobs = d.jobs) ∨
      ∃ d', d.configure vt = (d', .ok ()) ∧ d'.Lined ∧ d'.jobs = d.jobs := by
  unfold configure
  dsimp only
  split
  · exact .inl ⟨_, _, rfl, rfl⟩
  split
  · exact .inl ⟨_, _, rfl, rfl⟩
  · exact .inr ⟨_, rfl, ⟨fun _ => ⟨hsps, hpps⟩, fun _ => Option.some_ne_none _⟩, rfl⟩

/-- Only a parameter set is noticed as a change. -/
theorem foldl_parameterSet_changed (units : List Bytes) (s : H264Decoder × Bool)
    (h : (units.foldl parameterSet s).2 = true) :
    s.2 = true ∨ has 7 units = true ∨ has 8 units = true := by
  induction units generalizing s with
  | nil => exact .inl h
  | cons nal units ih =>
    have hcons (type : UInt8) :
        has type (nal :: units) = true ↔ nalType nal = type ∨ has type units = true := by
      rw [has, List.any_cons, Bool.or_eq_true, decide_eq_true_eq]
      rfl
    rw [hcons, hcons]
    rcases ih _ h with hfirst | hrest
    · unfold parameterSet at hfirst
      split_ifs at hfirst with _ hseven height
      · exact .inl hfirst
      · exact .inr (.inl (.inl hseven.1))
      · exact .inr (.inr (.inl height.1))
      · exact .inl hfirst
    · exact .inr (hrest.imp .inr .inr)

/-- The `do` block. -/
theorem attempt_hands (hd : d.Lined) (vt : VideoToolbox) (hbears : Bears received) :
    (∃ d' e, d.attempt vt received = (d', .error e) ∧ d'.jobs = d.jobs) ∨
      ∃ d' reset, d.attempt vt received = (d', .ok reset) ∧ d'.Lined ∧ d.Hands d' received := by
  unfold attempt
  cases hunits : nals received.video.data with
  | error e => exact .inl ⟨_, _, rfl, rfl⟩
  | ok units =>
    have hstore := foldl_parameterSet_fst units d false
    have hsame := foldl_parameterSet_same units (d, false)
    have hchanged := foldl_parameterSet_changed units (d, false)
    dsimp only
    generalize units.foldl parameterSet (d, false) = s at hstore hsame hchanged ⊢
    obtain ⟨d₁, changed⟩ := s
    obtain rfl : d₁ = d.store units := hstore
    have hsets (hsession : d.session ≠ none) :
        (d.store units).sps ≠ [] ∧ (d.store units).pps ≠ [] := by
      obtain ⟨hsps, hpps⟩ := hd.sets hsession
      exact ⟨getD_latest_ne (by decide) hsps, getD_latest_ne (by decide) hpps⟩
    have hlined : (d.store units).Lined := ⟨hsets, hd.session⟩
    dsimp only
    by_cases hwaiting : (d.store units).waitingForIDR ∧ ¬ units.any fun nal => nalType nal = 5
    · rw [if_pos hwaiting]
      exact .inr ⟨_, _, rfl, hlined, .inl ⟨rfl, hwaiting.1⟩⟩
    rw [if_neg hwaiting]
    by_cases hnew : changed ∨ (d.store units).session = none
    · rw [if_pos hnew]
      by_cases hready : (d.store units).sps ≠ [] ∧ (d.store units).pps ≠ [] ∧
          units.any fun nal => nalType nal = 5
      · rw [if_neg (not_not.2 hready)]
        obtain ⟨d', e, hconfigure, hjobs⟩ | ⟨d', hconfigure, hlined', hjobs⟩ :=
          configure_lined vt hready.1 hready.2.1
        · rw [hconfigure]
          exact .inl ⟨_, _, rfl, hjobs⟩
        · rw [hconfigure]
          dsimp only
          obtain ⟨e, hsubmit⟩ | ⟨d'', hsubmit, hlined'', -, hjobs', hwaits⟩ :=
            submit_hands hlined' vt received
          · rw [hsubmit]
            exact .inl ⟨_, _, rfl, hjobs⟩
          · rw [hsubmit]
            exact .inr ⟨_, _, rfl, hlined'', .inr ⟨hjobs' ▸ hjobs ▸ rfl, hwaits, units, hunits,
              .inl hready.2.2⟩⟩
      · rw [if_pos hready]
        -- A decoder that does not wait has a session, so the sets are new and come with an IDR.
        have hwaits : d.waitingForIDR = true := by
          by_contra hn
          have hsession := hd.session (Bool.not_eq_true _ ▸ hn)
          have hsets' := hchanged (hnew.resolve_right hsession)
          exact hready ⟨(hsets hsession).1, (hsets hsession).2,
            hbears units hunits (hsets'.resolve_left Bool.false_ne_true)⟩
        exact .inr ⟨_, _, rfl, hlined, .inl ⟨rfl, hwaits⟩⟩
    · rw [if_neg hnew]
      have hsame' : d.store units = d := by
        rw [not_or, Bool.not_eq_true] at hnew
        exact congrArg Prod.fst (hsame hnew.1)
      rw [hsame'] at hwaiting ⊢
      obtain ⟨e, hsubmit⟩ | ⟨d', hsubmit, hlined', hepoch, hjobs, hwaits⟩ :=
        submit_hands hd vt received
      · exact .inl ⟨_, _, hsubmit, rfl⟩
      · refine .inr ⟨_, _, hsubmit, hlined', .inr ⟨hjobs, hwaits, units, hunits, ?_⟩⟩
        by_cases hw : d.waitingForIDR = true
        · exact .inl (not_not.1 fun hn => hwaiting ⟨hw, hn⟩)
        · exact .inr ⟨Bool.not_eq_true _ ▸ hw, hepoch⟩

/-- What `decode` does with a frame. -/
theorem decode_hands (hd : d.Lined) (vt : VideoToolbox) (hbears : Bears received) :
    (d.decode vt received).1.Lined ∧ d.Hands (d.decode vt received).1 received := by
  unfold decode
  split
  · exact ⟨⟨hd.sets, nofun⟩, .inl ⟨rfl, rfl⟩⟩
  · obtain ⟨d', e, hattempt, hjobs⟩ | ⟨d', reset, hattempt, hlined, hhands⟩ :=
      attempt_hands hd vt hbears
    · rw [hattempt]
      exact ⟨.reset d', .inl ⟨hjobs, rfl⟩⟩
    · rw [hattempt]
      exact ⟨hlined, hhands⟩

/-- A frame that comes back leaves the decoder lined up. -/
theorem Lined.completed (hd : d.Lined) (index : ℕ) (ok : Bool) :
    (d.completed index ok).1.Lined ∧ (d.completed index ok).1.epoch = d.epoch ∧
      ((d.completed index ok).1.waitingForIDR = false → d.waitingForIDR = false) ∧
        (d.completed index ok).1.jobs.length ≤ d.jobs.length := by
  unfold H264Decoder.completed
  split
  · exact ⟨hd, rfl, id, le_rfl⟩
  · dsimp only
    have hlength := List.length_eraseIdx_le d.jobs index
    split
    · exact ⟨⟨hd.sets, hd.session⟩, rfl, id, hlength⟩
    split
    · exact ⟨⟨hd.sets, hd.session⟩, rfl, id, hlength⟩
    · exact ⟨⟨hd.sets, nofun⟩, rfl, nofun, hlength⟩

end H264Decoder

/-! ### What has been handed over -/

/-- Every frame, the newest first, is an IDR or follows the one before it in the same session of
VideoToolbox. -/
def Based : List Job → Prop
  | [] => True
  | job :: older => Based older ∧ (H264Decoder.HasIDR job.frame ∨ ∃ previous ∈ older.head?,
      previous.epoch = job.epoch ∧
        job.frame.video.frameId.toNat = previous.frame.video.frameId.toNat + 1)

/-- The decoder goes on behind the frame with the id `last`, or waits for an IDR. -/
structure Follows (d : H264Decoder) (log : List Job) (last : ℕ) : Prop where
  lined : d.Lined
  based : Based log
  ready : d.waitingForIDR = false → ∃ job ∈ log.head?, job.epoch = d.epoch ∧
    job.frame.video.frameId.toNat = last

namespace Follows

variable {d d' : H264Decoder} {log : List Job} {last : ℕ} {r : ReceivedFrame}

/-- A decoder that waits follows nothing. -/
theorem waits (h : Follows d log last) (hlined : d'.Lined) (hwaits : d'.waitingForIDR = true)
    (last' : ℕ) : Follows d' log last' :=
  ⟨hlined, h.based, fun hn => absurd (hwaits.symm.trans hn) Bool.noConfusion⟩

/-- The next frame: `new` is what VideoToolbox has got. -/
theorem decode (h : Follows d log last) (vt : VideoToolbox) (hbears : H264Decoder.Bears r)
    (hidr : r.video.keyframe ≠ 0 → ∀ units, H264Decoder.nals r.video.data = .ok units →
      Host.H264.has 5 units = true)
    (hnext : r.video.keyframe = 0 → r.video.frameId.toNat = last + 1) :
    ∃ new, (d.decode vt r).1.jobs = d.jobs ++ new ∧ (∀ job ∈ new, job.frame = r) ∧
      Follows (d.decode vt r).1 (new.reverse ++ log) r.video.frameId.toNat := by
  obtain ⟨hlined, ⟨hjobs, hwaits⟩ | ⟨hjobs, hwaits, units, hunits, hbase⟩⟩ :=
    H264Decoder.decode_hands h.lined vt hbears
  · exact ⟨[], by rw [hjobs, List.append_nil], nofun, h.waits hlined hwaits _⟩
  · refine ⟨_, hjobs, List.forall_mem_singleton.2 rfl, hlined, ⟨h.based, ?_⟩, fun _ => ?_⟩
    · rcases hbase with hfive | ⟨hready, hepoch⟩
      · exact .inl ⟨units, hunits, hfive⟩
      by_cases hkeyframe : r.video.keyframe = 0
      · obtain ⟨previous, hprevious, hsame, hid⟩ := h.ready hready
        exact .inr ⟨previous, hprevious, hsame.trans hepoch.symm, hid ▸ hnext hkeyframe⟩
      · exact .inl ⟨units, hunits, hidr hkeyframe units hunits⟩
    · exact ⟨_, rfl, rfl, rfl⟩

end Follows

/-! ### The frames of the host -/

section Frames

variable {sendings : List Sending} {pool : Set Cut} {r : ReceivedFrame}

/-- What is sent of one generation in one session. -/
def stream (sendings : List Sending) (session : Bytes) (generation : UInt32) : List Sending :=
  sendings.filter fun s => s.session.bytes = session ∧ s.frame.generation = generation

/-- The ids of a generation increase in every session. -/
def Increasing (sendings : List Sending) : Prop :=
  sendings.Pairwise fun s s' => s.session = s'.session →
    s.frame.generation = s'.frame.generation → s.frame.frameId < s'.frame.frameId

theorem Increasing.injOn (h : Increasing sendings) (session : Bytes) (generation : UInt32) :
    Set.InjOn Cut.id (cuts (stream sendings session generation)) := by
  refine injOn_cuts (List.pairwise_filter.2 (h.imp fun {s s'} hlt hs hs' => ?_))
  obtain ⟨hsession, hgeneration⟩ := of_decide_eq_true hs
  obtain ⟨hsession', hgeneration'⟩ := of_decide_eq_true hs'
  exact hlt (Id16.ext (hsession.trans hsession'.symm)) (hgeneration.trans hgeneration'.symm)

/-- The id of the last frame of a list, behind the frame `last`. -/
def lastId (last : ℕ) (rs : List ReceivedFrame) : ℕ :=
  rs.foldl (fun _ r => r.video.frameId.toNat) last

/-- What `next` returns until `nil` continues the chain. -/
theorem drain_chained {a : FrameAssembler} (h : FrameAssembler.Sound pool a) (now : ℕ) :
    FrameAssembler.Sound pool (a.drain now).1 ∧
      FrameAssembler.Chained pool a.last (a.drain now).2 ∧
        (a.drain now).1.last = lastId a.last (a.drain now).2 := by
  obtain ⟨a', hnext, hs⟩ | ⟨a', r, hnext, hd⟩ := a.next_cases now
  · rw [FrameAssembler.drain_none hnext]
    exact ⟨h.shrinks hs, .nil _, hs.last⟩
  · have hlt := hd.length_lt
    obtain ⟨hsound, c, hc, hcarries, hlast, hlast', hkeyframe⟩ := h.delivers hd
    obtain ⟨hrest, hchained, hend⟩ := drain_chained hsound now
    rw [FrameAssembler.drain_some hnext]
    refine ⟨hrest, .cons hc hcarries hlast hkeyframe (hlast' ▸ hchained), ?_⟩
    rw [hend, hlast', ← FrameAssembler.Chained.id_eq hcarries]
    rfl
termination_by a.frames.keys.length

/-- A frame that carries a prepared one. -/
theorem bears_of_carries {frame : VideoFrame} (hprepared : Host.H264.Prepared frame)
    (hr : Carries frame r) : H264Decoder.Bears r ∧ (r.video.keyframe ≠ 0 → ∀ units,
      H264Decoder.nals r.video.data = .ok units → Host.H264.has 5 units = true) := by
  have hdata : r.video.data = frame.data := by rw [hr]
  have hkeyframe : r.video.keyframe = frame.keyframe := by rw [hr]
  unfold H264Decoder.Bears
  rw [hdata, hkeyframe]
  exact ⟨fun units hunits => (hprepared.idr hunits).2,
    fun hne units hunits => (hprepared.idr hunits).1 hne⟩

/-- What the iPad reads in a datagram of the host. -/
theorem decode_emitted {s : Sending} {data : Bytes} (hdata : data ∈ s.sendFrame.1) :
    ∃ size, ∃ h : s.Passes size, ∃ i < h.cut.count, ∃ q, Packet.decode data MAX_DATAGRAM = .ok q ∧
      q.session = s.session.bytes ∧ q.message VideoFragment = .ok (h.cut.fragment i) := by
  obtain ⟨size, h, i, hi, rfl⟩ := Sending.emits hdata
  have hlen : (h.cut.datagram s.session i).length ≤ MAX_DATAGRAM :=
    (h.length_datagram_le i).trans (min_le_right _ _)
  refine ⟨size, h, i, hi, _,
    (ipad_decode_iff ..).2 ⟨_, host_decode_encode (by decide) hlen, rfl⟩, rfl, ?_⟩
  rw [ipad_message_iff]
  exact host_message_new (h.cut.valid_fragment i) 0 s.session

end Frames

/-! ### The session -/

namespace SessionModel

variable {sendings : List Sending} {crypto : Crypto} {env : Moment} {p : Prop}
  {m m' : SessionModel} {log : List Job} {last : ℕ}

theorem Resets.follows (h : Resets m m') (hf : Follows m.decoder log last) :
    Follows m'.decoder log last ∧ m'.decoder.jobs = m.decoder.jobs := by
  rcases h with heq | heq
  · rw [heq]
    exact ⟨hf, rfl⟩
  · rw [heq]
    exact ⟨hf.waits (.reset _) rfl last, rfl⟩

/-- The stream that the assembler holds is one of the host's, and that of the connection as long
as there is one. -/
structure Tied (sendings : List Sending) (m : SessionModel) (session : Bytes)
    (generation : UInt32) : Prop where
  current : m.generation = some generation
  token : m.transport.group = true → m.transport.session = session
  sound : FrameAssembler.Sound (cuts (stream sendings session generation)) m.assembler

/-- What holds while frames are decoded: `last` is the id of the last one, and `final` that of the
last of all, which is the assembler's. -/
structure Decoding (sendings : List Sending) (m : SessionModel) (log : List Job)
    (last final : ℕ) : Prop where
  wired : m.Wired
  follows : Follows m.decoder log last
  sent : ∀ job ∈ log, ∃ s ∈ sendings, Carries s.frame job.frame
  tied : m.state = .streaming → m.assembler.last = final ∧
    ∃ session generation, Tied sendings m session generation

/-- What a session keeps. -/
structure Referenced (sendings : List Sending) (m : SessionModel) (log : List Job) : Prop where
  wired : m.Wired
  lined : m.decoder.Lined
  based : Based log
  sent : ∀ job ∈ log, ∃ s ∈ sendings, Carries s.frame job.frame
  tied : m.state = .streaming → Follows m.decoder log m.assembler.last ∧
    ∃ session generation, Tied sendings m session generation

theorem Resets.lined (h : Resets m m') (hlined : m.decoder.Lined) : m'.decoder.Lined := by
  rcases h with heq | heq
  · exact heq ▸ hlined
  · exact heq ▸ .reset _

/-- A stream goes on, or a new one begins. -/
theorem Change.tied (sendings : List Sending) (h : Change p m m') (hwired : m.Wired) :
    Resets m m' ∧ m'.Wired ∧
    (m'.state = .streaming → (m.state = .streaming ∧ m'.assembler = m.assembler ∧
      ∀ session generation, Tied sendings m session generation →
        Tied sendings m' session generation) ∨
      p ∧ m'.assembler = {} ∧ m'.decoder = m.decoder.reset ∧ ∃ generation,
        Tied sendings m' m.transport.session generation) := by
  cases h with
  | assigned h =>
    simp only [video, Prod.mk.injEq] at h
    obtain ⟨hstate, hdecoder, hassembler, hgeneration, hcontrol, hgroup, hsession⟩ := h
    refine ⟨.inl hdecoder, fun hc => hgroup ▸ hwired (hcontrol ▸ hc), fun hs => .inl ?_⟩
    refine ⟨hstate ▸ hs, hassembler, fun session generation ht => ⟨?_, ?_, ?_⟩⟩
    · exact hgeneration.trans ht.current
    · exact fun hg => hsession.trans (ht.token (hgroup ▸ hg))
    · exact hassembler ▸ ht.sound
  | left hstate hdecoder hwired' => exact ⟨hdecoder, hwired' hwired, fun hs => absurd hs hstate⟩
  | closed hstate hdecoder hassembler hgeneration hcontrol hgroup =>
    refine ⟨hdecoder, fun hc => absurd (hcontrol.symm.trans hc) Bool.noConfusion, fun hs => ?_⟩
    refine .inl ⟨hstate ▸ hs, hassembler, fun session generation ht => ⟨?_, ?_, ?_⟩⟩
    · exact hgeneration.trans ht.current
    · exact fun hg => absurd (hgroup.symm.trans hg) Bool.noConfusion
    · exact hassembler ▸ ht.sound
  | ready hgroup h =>
    simp only [video, Prod.mk.injEq] at h
    obtain ⟨hstate, hdecoder, hassembler, hgeneration, -, hgroup', hsession⟩ := h
    refine ⟨.inl hdecoder, fun _ => hgroup'.trans hgroup, fun hs => .inl ?_⟩
    refine ⟨hstate ▸ hs, hassembler, fun session generation ht => ⟨?_, ?_, ?_⟩⟩
    · exact hgeneration.trans ht.current
    · exact fun hg => hsession.trans (ht.token (hgroup' ▸ hg))
    · exact hassembler ▸ ht.sound
  | began hp generation h =>
    simp only [video, Prod.mk.injEq] at h
    obtain ⟨-, hdecoder, hassembler, hgeneration, hcontrol, hgroup, hsession⟩ := h
    refine ⟨.inr hdecoder, fun hc => hgroup ▸ hwired (hcontrol ▸ hc), fun _ => .inr ?_⟩
    refine ⟨hp, hassembler, hdecoder, generation, hgeneration, fun _ => hsession, ?_⟩
    exact hassembler ▸ FrameAssembler.sound_init

/-- A stream that is there goes on or ends. -/
theorem Decoding.changes {final : ℕ} (h : Decoding sendings m log last final)
    (hc : Changes False m m') : Decoding sendings m' log last final ∧
      m'.decoder.jobs = m.decoder.jobs := by
  induction hc with
  | refl => exact ⟨h, rfl⟩
  | tail _ hchange ih =>
    obtain ⟨ih, hjobs⟩ := ih
    obtain ⟨hresets, hwired, htied⟩ := hchange.tied sendings ih.wired
    obtain ⟨hfollows, hjobs'⟩ := hresets.follows ih.follows
    refine ⟨⟨hwired, hfollows, ih.sent, fun hs => ?_⟩, hjobs'.trans hjobs⟩
    obtain ⟨hs', hassembler, hkeeps⟩ | ⟨hfalse, -⟩ := htied hs
    · obtain ⟨hfinal, session, generation, ht⟩ := ih.tied hs'
      exact ⟨hassembler ▸ hfinal, session, generation, hkeeps _ _ ht⟩
    · exact hfalse.elim

theorem Referenced.changes (h : Referenced sendings m log) (hc : Changes p m m') :
    Referenced sendings m' log ∧ m'.decoder.jobs = m.decoder.jobs := by
  induction hc with
  | refl => exact ⟨h, rfl⟩
  | tail _ hchange ih =>
    obtain ⟨ih, hjobs⟩ := ih
    obtain ⟨hresets, hwired, htied⟩ := hchange.tied sendings ih.wired
    refine ⟨⟨hwired, hresets.lined ih.lined, ih.based, ih.sent, fun hs => ?_⟩, ?_⟩
    · obtain ⟨hs', hassembler, hkeeps⟩ | ⟨-, -, hreset, generation, ht⟩ := htied hs
      · obtain ⟨hfollows, session, generation, ht⟩ := ih.tied hs'
        rw [hassembler]
        exact ⟨(hresets.follows hfollows).1, session, generation, hkeeps _ _ ht⟩
      · refine ⟨⟨hresets.lined ih.lined, ih.based, fun hn => ?_⟩, _, generation, ht⟩
        rw [hreset] at hn
        exact nomatch hn
    · rcases hresets with heq | heq
      · exact (congrArg H264Decoder.jobs heq).trans hjobs
      · exact (congrArg H264Decoder.jobs heq).trans hjobs

/-! ### Decoding -/

/-- VideoToolbox has got some frames, which the log tells of. -/
def Feeding (sendings : List Sending) (m m' : SessionModel) (log : List Job) : Prop :=
  ∃ new, m'.decoder.jobs = m.decoder.jobs ++ new ∧ Referenced sendings m' (new.reverse ++ log)

theorem Referenced.feeding (h : Referenced sendings m' log)
    (hjobs : m'.decoder.jobs = m.decoder.jobs) : Feeding sendings m m' log :=
  ⟨[], hjobs.trans (List.append_nil _).symm, h⟩

theorem Feeding.changes (h : Feeding sendings m m' log) {m'' : SessionModel}
    (hc : Changes p m' m'') : Feeding sendings m m'' log := by
  obtain ⟨new, hjobs, h⟩ := h
  obtain ⟨h, hjobs'⟩ := h.changes hc
  exact ⟨new, hjobs'.trans hjobs, h⟩

/-- One frame. -/
theorem Decoding.decode {final : ℕ} {r : ReceivedFrame} (h : Decoding sendings m log last final)
    {s : Sending} (hs : s ∈ sendings) (hprepared : Host.H264.Prepared s.frame)
    (hr : Carries s.frame r) (hnext : r.video.keyframe = 0 → r.video.frameId.toNat = last + 1)
    (env : Moment) (i : ℕ) : ∃ new,
      (m.decode env (r, i)).decoder.jobs = m.decoder.jobs ++ new ∧
        Decoding sendings (m.decode env (r, i)) (new.reverse ++ log) r.video.frameId.toNat
          final := by
  obtain ⟨hbears, hidr⟩ := bears_of_carries hprepared hr
  obtain ⟨new, hjobs, hnew, hfollows⟩ := h.follows.decode (env.videoToolbox i) hbears hidr hnext
  have hdecoded : Decoding sendings
      { m with decoder := (m.decoder.decode (env.videoToolbox i) r).1 }
      (new.reverse ++ log) r.video.frameId.toNat final := by
    refine ⟨h.wired, hfollows, fun job hjob => ?_, fun hstate => ?_⟩
    · rcases List.mem_append.1 hjob with hmem | hmem
      · exact ⟨s, hs, hnew job (List.mem_reverse.1 hmem) ▸ hr⟩
      · exact h.sent job hmem
    · obtain ⟨hlast, session, generation, ht⟩ := h.tied hstate
      exact ⟨hlast, session, generation, ht.current, ht.token, ht.sound⟩
  unfold SessionModel.decode
  dsimp only
  split
  · obtain ⟨hdecoded, hjobs'⟩ := hdecoded.changes (requestKeyframe_changes _ env.now 3)
    exact ⟨new, hjobs'.trans hjobs, hdecoded⟩
  · exact ⟨new, hjobs, hdecoded⟩

/-- The loop of `consumeFrames`. -/
theorem Decoding.foldl {final : ℕ} {session : Bytes} {generation : UInt32} {rs : List ReceivedFrame}
    (hprepared : ∀ s ∈ sendings, Host.H264.Prepared s.frame)
    (hrs : FrameAssembler.Chained (cuts (stream sendings session generation)) last rs)
    (h : Decoding sendings m log last final) (env : Moment) (i : ℕ) : ∃ new,
      ((rs.zipIdx i).foldl (SessionModel.decode env) m).decoder.jobs = m.decoder.jobs ++ new ∧
        Decoding sendings ((rs.zipIdx i).foldl (SessionModel.decode env) m) (new.reverse ++ log)
          (lastId last rs) final := by
  induction hrs generalizing m log i with
  | nil last => exact ⟨[], (List.append_nil _).symm, h⟩
  | cons hc hr hlt hkey _ ih =>
    obtain ⟨s, hs, size, hpasses, rfl⟩ := hc
    have hmem : s ∈ sendings := (List.mem_filter.1 hs).1
    have hid := FrameAssembler.Chained.id_eq hr
    obtain ⟨new, hjobs, hone⟩ := h.decode hmem (hprepared s hmem) hr
      (fun hk => hid.trans (hkey hk).2) env i
    rw [hid] at hone
    obtain ⟨new', hjobs', hrest⟩ := ih hone (i + 1)
    refine ⟨new ++ new', ?_, ?_⟩
    · rw [List.zipIdx_cons, List.foldl_cons, hjobs', hjobs, List.append_assoc]
    · rw [List.zipIdx_cons, List.foldl_cons, List.reverse_append, List.append_assoc, lastId,
        List.foldl_cons, hid]
      exact hrest

theorem Referenced.consumeFrames (h : Referenced sendings m log)
    (hprepared : ∀ s ∈ sendings, Host.H264.Prepared s.frame) (hstate : m.state = .streaming)
    (env : Moment) : Feeding sendings m (m.consumeFrames env) log := by
  obtain ⟨hfollows, session, generation, ht⟩ := h.tied hstate
  have hshrinks := m.assembler.expire_shrinks env.now
  obtain ⟨hsound, hchained, hlast⟩ := drain_chained (ht.sound.shrinks hshrinks) env.now
  rw [hshrinks.last] at hchained hlast
  have hdecoding : Decoding sendings
      { m with assembler := ((m.assembler.expire env.now).drain env.now).1 } log m.assembler.last
      (lastId m.assembler.last ((m.assembler.expire env.now).drain env.now).2) :=
    ⟨h.wired, hfollows, h.sent, fun _ => ⟨hlast, session, generation, ht.current, ht.token, hsound⟩⟩
  obtain ⟨new, hjobs, hend⟩ := hdecoding.foldl hprepared hchained env 0
  have hfed : Feeding sendings m (List.foldl (SessionModel.decode env)
      { m with assembler := ((m.assembler.expire env.now).drain env.now).1 }
      ((m.assembler.expire env.now).drain env.now).2.zipIdx) log := by
    refine ⟨new, hjobs, hend.wired, hend.follows.lined, hend.follows.based, hend.sent, fun hs => ?_⟩
    obtain ⟨hfinal, htied⟩ := hend.tied hs
    exact ⟨hfinal ▸ hend.follows, htied⟩
  unfold SessionModel.consumeFrames
  dsimp only
  split
  · exact hfed.changes (p := False) (requestKeyframe_changes _ env.now 2)
  · exact hfed

/-- A datagram of the host. -/
theorem Referenced.datagram (h : Referenced sendings m log) (hids : Increasing sendings)
    (hprepared : ∀ s ∈ sendings, Host.H264.Prepared s.frame) (hcontrol : m.transport.control = true)
    {data : Bytes} {s : Sending} (hs : s ∈ sendings) (hdata : data ∈ s.sendFrame.1)
    (env : Moment) : Feeding sendings m (m.datagram env data).1 log := by
  obtain ⟨size, hpasses, i, hi, q, hdecode, hsession, hmessage⟩ := decode_emitted hdata
  unfold SessionModel.datagram
  split
  · exact h.feeding rfl
  rename_i hstate
  rw [hdecode]
  dsimp only
  split
  · exact h.feeding rfl
  rename_i htoken
  rw [hmessage]
  dsimp only
  split
  · exact h.feeding rfl
  rename_i hgeneration
  obtain ⟨hfollows, session, generation, ht⟩ := h.tied (not_not.1 hstate)
  -- The checks leave the datagrams of the stream that the assembler holds.
  have hmem : s ∈ stream sendings session generation := by
    refine List.mem_filter.2 ⟨hs, decide_eq_true ⟨?_, ?_⟩⟩
    · rw [← hsession, not_not.1 htoken, ht.token (h.wired hcontrol)]
    · have hcurrent := ht.current
      rw [← not_not.1 hgeneration] at hcurrent
      exact Option.some.inj hcurrent
  obtain ⟨hsound, hlast, -⟩ := ht.sound.ingest (hids.injOn session generation)
    ⟨s, hmem, size, hpasses, rfl⟩ hi env.now
  have hingest (assembler : FrameAssembler)
      (hassembler : assembler = (m.assembler.ingest (hpasses.cut.fragment i) env.now).1) :
      Referenced sendings { m with assembler := assembler } log := by
    subst hassembler
    refine ⟨h.wired, h.lined, h.based, h.sent, fun _ => ?_⟩
    exact ⟨hlast ▸ hfollows, session, generation, ht.current, ht.token, hsound⟩
  cases hout : m.assembler.ingest (hpasses.cut.fragment i) env.now with
  | mk assembler result =>
    have hreferenced := hingest assembler (congrArg Prod.fst hout).symm
    cases result with
    | error e => exact hreferenced.feeding rfl
    | ok => exact hreferenced.consumeFrames hprepared (not_not.1 hstate) env

theorem Referenced.tick (h : Referenced sendings m log)
    (hprepared : ∀ s ∈ sendings, Host.H264.Prepared s.frame) (env : Moment) :
    Feeding sendings m (m.tick env) log := by
  unfold SessionModel.tick
  split
  · exact h.feeding rfl
  rename_i hstate
  have hfed := h.consumeFrames hprepared (not_not.1 hstate) env
  dsimp only
  split
  · exact hfed
  · refine hfed.changes (p := False) (.trans (.catching (.andThen ?_ fun m' => ?_) failed_changes)
      (.same rfl))
    · exact send_changes _ _ _
    · exact send_changes _ _ _

/-- A frame comes back from VideoToolbox. -/
theorem Referenced.completed (h : Referenced sendings m log) (index : ℕ) (ok : Bool) :
    Referenced sendings { m with decoder := (m.decoder.completed index ok).1 } log := by
  obtain ⟨hlined, hepoch, hready, -⟩ := h.lined.completed index ok
  refine ⟨h.wired, hlined, h.based, h.sent, fun hstate => ?_⟩
  obtain ⟨hfollows, session, generation, ht⟩ := h.tied hstate
  refine ⟨⟨hlined, h.based, fun hn => ?_⟩, session, generation, ht.current, ht.token, ht.sound⟩
  rw [hepoch]
  exact hfollows.ready (hready hn)

end SessionModel

/-! ### Runs -/

/-- The session, and what VideoToolbox has got from it, the newest first. -/
structure Watched where
  model : SessionModel
  log : List Job

namespace Watched

open Library (Reaches Along)
open SessionModel (Event)

/-- What VideoToolbox gets in an event stands behind the jobs it had. -/
def step (crypto : Crypto) (w : Watched) (e : Moment × Event) : Watched :=
  let model := w.model.step crypto e
  ⟨model, (model.decoder.jobs.drop w.model.decoder.jobs.length).reverse ++ w.log⟩

def Initial (w : Watched) : Prop := w.model.Initial ∧ w.log = []

/-- What arrives as a datagram. -/
def arrives : Event → List Bytes
  | .datagram data => [data]
  | _ => []

/-- Datagrams are the host's, and a session starts before its video. -/
structure Honest (crypto : Crypto) (sendings : List Sending) (w : Watched)
    (e : Moment × Event) : Prop where
  orderly : w.model.Orderly crypto e
  sent : ∀ data ∈ arrives e.2, ∃ s ∈ sendings, data ∈ s.sendFrame.1

instance (crypto : Crypto) (sendings : List Sending) (w : Watched) (e : Moment × Event) :
    Decidable (w.Honest crypto sendings e) :=
  decidable_of_iff (w.model.Orderly crypto e ∧
    ∀ data ∈ arrives e.2, ∃ s ∈ sendings, data ∈ s.sendFrame.1)
    ⟨fun h => ⟨h.1, h.2⟩, fun h => ⟨h.orderly, h.sent⟩⟩

variable {crypto : Crypto} {sendings : List Sending} {w : Watched} {e : Moment × Event}

theorem referenced_init (h : w.Initial) : w.model.Referenced sendings w.log := by
  obtain ⟨⟨clientID, keychain, renderer, now, hmodel⟩, hlog⟩ := h
  rw [hmodel, hlog]
  refine ⟨nofun, ⟨fun hsession => absurd rfl hsession, nofun⟩, trivial, nofun, fun hstate => ?_⟩
  cases renderer <;> exact nomatch hstate

/-- An event that hands over what the log tells of. -/
theorem referenced_of_feeding
    (h : SessionModel.Feeding sendings w.model (w.model.step crypto e) w.log) :
    (w.step crypto e).model.Referenced sendings (w.step crypto e).log := by
  obtain ⟨new, hjobs, h⟩ := h
  unfold step
  dsimp only
  rw [hjobs, List.drop_left]
  exact h

/-- An event that hands nothing over. -/
theorem referenced_of_le {m : SessionModel} (hm : w.model.step crypto e = m)
    (hjobs : m.decoder.jobs.length ≤ w.model.decoder.jobs.length)
    (h : m.Referenced sendings w.log) :
    (w.step crypto e).model.Referenced sendings (w.step crypto e).log := by
  subst hm
  unfold step
  dsimp only
  rw [List.drop_eq_nil_of_le hjobs]
  exact h

theorem referenced_step (hids : Increasing sendings)
    (hprepared : ∀ s ∈ sendings, Host.H264.Prepared s.frame)
    (h : w.model.Referenced sendings w.log) (hok : w.Honest crypto sendings e) :
    (w.step crypto e).model.Referenced sendings (w.step crypto e).log := by
  by_cases hfeeds : SessionModel.Feeds e.2
  · obtain ⟨env, e⟩ := e
    cases e with
    | datagram data =>
      refine referenced_of_feeding ?_
      simp only [SessionModel.step]
      split
      · exact h.feeding rfl
      rename_i hcontrol
      split
      · exact (h.feeding rfl).changes (p := True) (SessionModel.fail_changes w.model _)
      obtain ⟨s, hs, hdata⟩ := hok.sent data (List.mem_singleton.2 rfl)
      have hfed := h.datagram hids hprepared (not_not.1 hcontrol) hs hdata env
      exact hfed.changes (p := True) (.catching (.refl _) SessionModel.fail_changes)
    | tick =>
      refine referenced_of_feeding ?_
      simp only [SessionModel.step]
      split
      · exact h.tick hprepared env
      · exact h.feeding rfl
    | decoded index ok =>
      have hcompleted := h.completed index ok
      obtain ⟨-, -, -, hlength⟩ := h.lined.completed index ok
      by_cases hreset : (w.model.decoder.completed index ok).2 = true
      · obtain ⟨hchanged, hjobs⟩ := hcompleted.changes (p := True)
          (SessionModel.requestKeyframe_changes _ env.now 3)
        exact referenced_of_le (if_pos hreset) (hjobs ▸ hlength) hchanged
      · exact referenced_of_le (if_neg hreset) hlength hcompleted
    | _ => exact hfeeds.elim
  · obtain ⟨hchanged, hjobs⟩ := h.changes (p := True)
      (SessionModel.step_changes trivial hfeeds hok.orderly)
    exact referenced_of_le rfl (congrArg List.length hjobs).le hchanged

theorem referenced (hids : Increasing sendings)
    (hprepared : ∀ s ∈ sendings, Host.H264.Prepared s.frame)
    (h : Reaches (step crypto) Initial (Honest crypto sendings) w) :
    w.model.Referenced sendings w.log :=
  h.invariant (I := fun w : Watched => w.model.Referenced sendings w.log)
    (fun _ h => referenced_init h) fun _ _ h hok => referenced_step hids hprepared h hok

/-- **No frame is decoded without its reference.**  The host sends frames that `MfEncoder` has
prepared, in any number of sessions and generations; the ids of each increase.  Datagrams are
lost, duplicated and reordered, connections come and go, and VideoToolbox fails and completes at
any time.  Every frame that VideoToolbox gets is then a frame of the host, and has an IDR, unless
it follows, in the same session of VideoToolbox, the frame that was handed over just before. -/
theorem references_kept (crypto : Crypto) (hids : Increasing sendings)
    (hprepared : ∀ s ∈ sendings, Host.H264.Prepared s.frame)
    (h : Reaches (step crypto) Initial (Honest crypto sendings) w) :
    Based w.log ∧ ∀ job ∈ w.log, ∃ s ∈ sendings, Carries s.frame job.frame := by
  have hreferenced := referenced hids hprepared h
  exact ⟨hreferenced.based, hreferenced.sent⟩

/-- A keyframe with its parameter sets, and a frame that refers to it. -/
def keyframeUnit : Bytes := [0, 0, 0, 1, 0x67, 1, 0, 0, 0, 1, 0x68, 1, 0, 0, 0, 1, 0x65, 1]

def deltaUnit : Bytes := [0, 0, 0, 1, 0x41, 1]

/-- The session that `streamPackets` starts. -/
def streamToken : Id16 := ⟨List.replicate 16 4, rfl⟩

def streamSending (frame : VideoFrame) : Sending where
  session := streamToken
  frame := frame
  maxDatagramSize := some 1200
  now := 0
  clock _ := 0
  outcome _ := .sent

def streamSendings : List Sending :=
  [streamSending ⟨1, 1, 0, 0, 0, 1, keyframeUnit⟩, streamSending ⟨1, 2, 0, 0, 0, 0, deltaUnit⟩]

theorem streamSendings_prepared : ∀ s ∈ streamSendings, Host.H264.Prepared s.frame := by
  refine List.forall_mem_cons.2 ⟨?_, List.forall_mem_singleton.2 ?_⟩
  · exact ⟨[], keyframeUnit, true, by decide +kernel, by decide +kernel, rfl⟩
  · exact ⟨[keyframeUnit], deltaUnit, false, by decide +kernel, by decide +kernel, rfl⟩

/-- The two frames arrive behind the start of the stream. -/
def streamedEvents : List (Moment × Event) :=
  SessionModel.streamEvents ++ (streamSendings.flatMap fun s => s.sendFrame.1).map fun data =>
    ({ now := 1010000 }, .datagram data)

/-- The hypotheses of `references_kept` are satisfiable: both frames are handed over. -/
theorem references_kept_sample :
    let w := streamedEvents.foldl (step .sample) ⟨SessionModel.streamSession, []⟩
    w.log.length = 2 ∧ Based w.log ∧
      ∀ job ∈ w.log, ∃ s ∈ streamSendings, Carries s.frame job.frame := by
  intro w
  have hrun : Along (step .sample) (Honest .sample streamSendings)
      ⟨SessionModel.streamSession, []⟩ streamedEvents := by
    decide +kernel
  have hreaches : Reaches (step .sample) Initial (Honest .sample streamSendings) w :=
    (Reaches.init ⟨SessionModel.streamSession_initial, rfl⟩).along hrun
  have hids : Increasing streamSendings :=
    List.pairwise_pair.2 fun _ _ => by decide
  exact ⟨by decide +kernel, references_kept .sample hids streamSendings_prepared hreaches⟩

end Watched

end Ipad
end SidecarDOS
