/-
# Asking for a keyframe until one arrives

The client has two flags for "a keyframe is needed": `requiresKeyframe` of the
assembler and `waitingForIDR` of the decoder.  Every call of `consumeFrames` polls
the first; the second makes one request when it is set, and that request is
dropped when the last one is less than 200 ms old.  So recovery is certain as long
as the decoder never waits on its own (`Synced`), and a run keeps that as long as
the last frame handed to the decoder decodes and no frame in VideoToolbox fails
(`recovers`).  A decoder that overflows, rejects a frame or is told of a failed
one waits on its own: later ticks ask for nothing (`recovery_lost`).
-/

import SidecarDOS.Client.Callbacks
import SidecarDOS.Library.Runs

namespace SidecarDOS
namespace Ipad

open Library (Reaches Along)

/-! ### The decoder -/

namespace H264Decoder

/-- The access unit contains an IDR. -/
def HasIDR (received : ReceivedFrame) : Prop :=
  ∃ units, nals received.video.data = .ok units ∧ units.any fun nal => nalType nal = 5

/-- The parameter sets of an access unit, and whether it changes them. -/
def parameterSets (d : H264Decoder) (units : List Bytes) : (Bytes × Bytes) × Bool :=
  let out := units.foldl parameterSet (d, false)
  ((out.1.sps, out.1.pps), out.2)

/-- The decoder needs no IDR behind this frame: VideoToolbox takes the frame, or the
decoder did not wait and leaves out a frame that comes with other parameter sets. -/
def Decodes (d : H264Decoder) (vt : VideoToolbox) (received : ReceivedFrame) : Prop :=
  d.inFlight < 2 ∧ ∃ units, nals received.video.data = .ok units ∧
    let idr := units.any fun nal => nalType nal = 5
    let ((sps, pps), changed) := d.parameterSets units
    (d.waitingForIDR → idr) ∧
    if changed ∨ d.session = none then
      if sps ≠ [] ∧ pps ≠ [] ∧ idr then
        (vt.createFormat ∧ vt.createSession ∧ vt.setRealTime) ∧
          vt.createBlock ∧ vt.createSample ∧ vt.decodeFrame
      else d.waitingForIDR = false
    else d.format ≠ none ∧ vt.createBlock ∧ vt.createSample ∧ vt.decodeFrame

theorem foldl_parameterSet (units : List Bytes) (s : H264Decoder × Bool) :
    ∃ sps pps changed, units.foldl parameterSet s = ({ s.1 with sps := sps, pps := pps }, changed) := by
  induction units generalizing s with
  | nil => exact ⟨s.1.sps, s.1.pps, s.2, rfl⟩
  | cons nal units ih =>
    obtain ⟨sps, pps, changed, h⟩ := ih (parameterSet s nal)
    refine ⟨sps, pps, changed, ?_⟩
    rw [List.foldl_cons, h]
    unfold parameterSet
    split_ifs <;> rfl

theorem submit_waiting (d : H264Decoder) (vt : VideoToolbox) (received : ReceivedFrame)
    (hsession : d.session ≠ none) :
    (∃ d', d.submit vt received = (d', .ok false) ∧ d'.waitingForIDR = false) ∧
        d.format ≠ none ∧ vt.createBlock ∧ vt.createSample ∧ vt.decodeFrame ∨
      (∃ d' e, d.submit vt received = (d', .error e)) ∧
        ¬ (d.format ≠ none ∧ vt.createBlock ∧ vt.createSample ∧ vt.decodeFrame) := by
  unfold submit
  split
  · rename_i h
    exact .inr ⟨⟨_, _, rfl⟩, fun ⟨hformat, _⟩ => h.elim hsession hformat⟩
  rename_i h
  rw [not_or] at h
  split
  · rename_i hvt
    exact .inr ⟨⟨_, _, rfl⟩, fun ⟨_, hblock, hsample, _⟩ => hvt ⟨hblock, hsample⟩⟩
  rename_i hvt
  rw [not_not] at hvt
  split
  · rename_i hdecode
    exact .inr ⟨⟨_, _, rfl⟩, fun ⟨_, _, _, h⟩ => hdecode h⟩
  · rename_i hdecode
    exact .inl ⟨⟨_, rfl, rfl⟩, h.2, hvt.1, hvt.2, not_not.1 hdecode⟩

theorem configure_cases (d : H264Decoder) (vt : VideoToolbox) :
    (vt.createFormat ∧ vt.createSession ∧ vt.setRealTime) ∧
        (∃ d', d.configure vt = (d', .ok ()) ∧ d'.session ≠ none ∧ d'.format ≠ none) ∨
      ¬ (vt.createFormat ∧ vt.createSession ∧ vt.setRealTime) ∧
        ∃ d' e, d.configure vt = (d', .error e) := by
  unfold configure
  dsimp only
  split
  · rename_i h
    exact .inr ⟨fun hvt => h hvt.1, _, _, rfl⟩
  rename_i hformat
  split
  · rename_i h
    exact .inr ⟨fun hvt => h hvt.2, _, _, rfl⟩
  · rename_i h
    exact .inl ⟨⟨not_not.1 hformat, not_not.1 h⟩, _, rfl, Option.some_ne_none _,
      Option.some_ne_none _⟩

/-- `decode` leaves the decoder waiting unless the frame decodes. -/
theorem decode_waiting_iff (d : H264Decoder) (vt : VideoToolbox) (received : ReceivedFrame) :
    (d.decode vt received).1.waitingForIDR = false ↔ d.Decodes vt received := by
  unfold decode Decodes
  by_cases hroom : d.inFlight < 2
  swap
  · simp [hroom]
  simp only [hroom, not_true_eq_false, if_false, true_and]
  unfold attempt
  cases nals received.video.data with
  | error e => simp [reset]
  | ok units =>
    obtain ⟨sps, pps, changed, hfold⟩ := foldl_parameterSet units (d, false)
    simp only [parameterSets, hfold, Except.ok.injEq, exists_eq_left']
    generalize (units.any fun nal => nalType nal = 5) = idr
    by_cases hidr : d.waitingForIDR ∧ ¬ idr
    · simp [hidr]
    have hneeds : d.waitingForIDR → idr := fun h => by_contra fun hn => hidr ⟨h, hn⟩
    rw [if_neg hidr, and_iff_right hneeds]
    by_cases hnew : changed ∨ d.session = none
    · rw [if_pos hnew, if_pos hnew]
      by_cases hsets : sps ≠ [] ∧ pps ≠ [] ∧ idr
      · rw [if_neg (not_not.2 hsets), if_pos hsets]
        obtain ⟨hvt, d', h, hsession, hformat⟩ | ⟨hvt, d', e, h⟩ :=
          configure_cases { d with sps := sps, pps := pps } vt
        · rw [h, and_iff_right hvt]
          obtain ⟨⟨d'', h, hwaiting⟩, -, htakes⟩ | ⟨⟨d'', e, h⟩, htakes⟩ :=
            submit_waiting d' vt received hsession
          · simp only [h, hwaiting, htakes, and_self]
          · simp only [h, reset, Bool.true_eq_false, false_iff]
            exact fun ht => htakes ⟨hformat, ht⟩
        · simp only [h, reset, Bool.true_eq_false, false_iff]
          exact fun ht => hvt ht.1
      · rw [if_pos hsets, if_neg hsets]
    · rw [if_neg hnew, if_neg hnew]
      obtain ⟨⟨d', h, hwaiting⟩, htakes⟩ | ⟨⟨d', e, h⟩, htakes⟩ :=
        submit_waiting { d with sps := sps, pps := pps } vt received fun h => hnew (.inr h)
      · simp only [h, hwaiting, true_iff]
        exact htakes
      · simp only [h, reset, Bool.true_eq_false, false_iff]
        exact htakes

/-- A decoder that waits is satisfied by an IDR alone. -/
theorem Decodes.hasIDR {d : H264Decoder} {vt : VideoToolbox} {received : ReceivedFrame}
    (h : d.Decodes vt received) (hwaiting : d.waitingForIDR = true) : HasIDR received := by
  obtain ⟨-, units, hunits, hidr, -⟩ := h
  exact ⟨units, hunits, hidr hwaiting⟩

/-- The decoder behind a list of frames, each with its index in the call. -/
def decodeAll (videoToolbox : ℕ → VideoToolbox) (d : H264Decoder)
    (frames : List (ReceivedFrame × ℕ)) : H264Decoder :=
  frames.foldl (fun d frame => (d.decode (videoToolbox frame.2) frame.1).1) d

/-- The last of the frames decodes. -/
def DecodesLast (videoToolbox : ℕ → VideoToolbox) (d : H264Decoder)
    (frames : List (ReceivedFrame × ℕ)) : Prop :=
  ∀ frame ∈ frames.getLast?,
    (decodeAll videoToolbox d frames.dropLast).Decodes (videoToolbox frame.2) frame.1

theorem decodeAll_waiting_iff (videoToolbox : ℕ → VideoToolbox) (d : H264Decoder)
    {frames : List (ReceivedFrame × ℕ)} (h : frames ≠ []) :
    (decodeAll videoToolbox d frames).waitingForIDR = false ↔
      DecodesLast videoToolbox d frames := by
  obtain ⟨frames, frame, rfl⟩ := List.eq_nil_or_concat frames |>.resolve_left h
  simp [decodeAll, DecodesLast, decode_waiting_iff]

/-- Among frames that satisfy a waiting decoder there is an IDR. -/
theorem exists_hasIDR (videoToolbox : ℕ → VideoToolbox) (frames : List (ReceivedFrame × ℕ))
    (d : H264Decoder) (hwaiting : d.waitingForIDR = true)
    (h : (decodeAll videoToolbox d frames).waitingForIDR = false) :
    ∃ frame ∈ frames, HasIDR frame.1 := by
  induction frames generalizing d with
  | nil => exact absurd (hwaiting.symm.trans h) Bool.noConfusion
  | cons frame frames ih =>
    by_cases hfirst : (d.decode (videoToolbox frame.2) frame.1).1.waitingForIDR = true
    · obtain ⟨frame', hmem, hidr⟩ := ih _ hfirst h
      exact ⟨frame', List.mem_cons_of_mem _ hmem, hidr⟩
    · rw [Bool.not_eq_true, decode_waiting_iff] at hfirst
      exact ⟨frame, List.mem_cons_self .., hfirst.hasIDR hwaiting⟩

end H264Decoder

/-! ### The assembler -/

namespace FrameAssembler

theorem ingest_requires {a : FrameAssembler} (h : a.requiresKeyframe = true) (f : VideoFragment)
    (now : ℕ) : (a.ingest f now).1.requiresKeyframe = true := by
  have hadmit (b : FrameAssembler) (hb : b.requiresKeyframe = true) :
      (b.track f now).requiresKeyframe = true := by
    obtain ⟨heq, -⟩ | ⟨c, hs, -, heq⟩ := b.track_cases f now
    · rwa [heq]
    · rw [heq]
      exact hs.requires hb
  have hcount := hadmit _
    ((expire_shrinks { a with receivedFragments := a.receivedFragments + 1 } now).requires h)
  unfold ingest
  split
  · exact h
  split
  · exact h
  dsimp only
  split
  · exact hcount
  · split <;> exact hcount

/-- Without a delivery the request for a keyframe stands. -/
theorem drain_requires {a : FrameAssembler} {now : ℕ} (h : a.requiresKeyframe = true)
    (hnil : (a.drain now).2 = []) : (a.drain now).1.requiresKeyframe = true := by
  obtain ⟨a', hnext, hs⟩ | ⟨a', r, hnext, -⟩ := a.next_cases now
  · rw [drain_none hnext]
    exact hs.requires h
  · rw [drain_some hnext] at hnil
    exact absurd hnil (List.cons_ne_nil _ _)

end FrameAssembler

/-! ### The session -/

namespace SessionModel

variable {crypto : Crypto} {m m' m'' : SessionModel}

/-- The stream is untouched. -/
structure Keeps (m m' : SessionModel) : Prop where
  state : m'.state = m.state
  decoder : m'.decoder = m.decoder
  assembler : m'.assembler = m.assembler
  control : m'.transport.control = m.transport.control
  group : m'.transport.group = m.transport.group
  session : m'.transport.session = m.transport.session

/-- The connection is closed, and the session has left streaming. -/
structure Ended (m : SessionModel) : Prop where
  state : m.state ≠ .streaming
  control : m.transport.control = false
  group : m.transport.group = false
  session : m.transport.session.length = 16

theorem Keeps.trans (h : Keeps m m') (h' : Keeps m' m'') : Keeps m m'' where
  state := h'.state.trans h.state
  decoder := h'.decoder.trans h.decoder
  assembler := h'.assembler.trans h.assembler
  control := h'.control.trans h.control
  group := h'.group.trans h.group
  session := h'.session.trans h.session

theorem Ended.keeps (h : Ended m) (h' : Keeps m m') : Ended m' where
  state := h'.state ▸ h.state
  control := h'.control.trans h.control
  group := h'.group.trans h.group
  session := h'.session ▸ h.session

/-- The method leaves the stream alone or ends it. -/
def Steady (m m' : SessionModel) : Prop := Keeps m m' ∨ Ended m'

namespace Steady

/-- Other fields were assigned. -/
theorem same (hstate : m'.state = m.state) (hdecoder : m'.decoder = m.decoder)
    (hassembler : m'.assembler = m.assembler) (hcontrol : m'.transport.control = m.transport.control)
    (hgroup : m'.transport.group = m.transport.group)
    (hsession : m'.transport.session = m.transport.session) : Steady m m' :=
  .inl ⟨hstate, hdecoder, hassembler, hcontrol, hgroup, hsession⟩

theorem refl (m : SessionModel) : Steady m m := same rfl rfl rfl rfl rfl rfl

theorem trans (h : Steady m m') (h' : Steady m' m'') : Steady m m'' := by
  obtain h' | h' := h'
  · obtain h | h := h
    · exact .inl (h.trans h')
    · exact .inr (h.keeps h')
  · exact .inr h'

/-- Other fields were assigned before. -/
theorem after (h : Steady m' m'') (hstate : m'.state = m.state) (hdecoder : m'.decoder = m.decoder)
    (hassembler : m'.assembler = m.assembler) (hcontrol : m'.transport.control = m.transport.control)
    (hgroup : m'.transport.group = m.transport.group)
    (hsession : m'.transport.session = m.transport.session) : Steady m m'' :=
  (same hstate hdecoder hassembler hcontrol hgroup hsession).trans h

theorem andThen {r : Result} {k : SessionModel → Result} (h : Steady m r.1)
    (hk : ∀ m', Steady m' (k m').1) : Steady m (r.andThen k).1 := by
  obtain ⟨m', ⟨⟩ | e⟩ := r
  · exact h
  · exact h.trans (hk _)

theorem catching {r : Result} {handle : SessionModel → Failure → SessionModel} (h : Steady m r.1)
    (hk : ∀ m' e, Steady m' (handle m' e)) : Steady m (r.catching handle) := by
  obtain ⟨m', e | ⟨⟩⟩ := r
  · exact h.trans (hk _ _)
  · exact h

end Steady

theorem failed_ended (m : SessionModel) (e : Failure) : Ended (m.failed e) := by
  rw [failed]
  split
  · exact ⟨State.noConfusion, rfl, rfl, rfl⟩
  · dsimp only
    split
    · exact ⟨State.noConfusion, rfl, rfl, rfl⟩
    · exact ⟨State.noConfusion, rfl, rfl, rfl⟩

theorem failed_steady (m : SessionModel) (e : Failure) : Steady m (m.failed e) :=
  .inr (failed_ended m e)

theorem fail_steady (m : SessionModel) (e : Failure) : Steady m (m.fail e) :=
  .inr (failed_ended _ e)

theorem send_steady {T : Type} [WireMessage T] (m : SessionModel) (message : T) (isInput : Bool) :
    Steady m (m.send message isInput).1 := by
  cases isInput <;> simp only [send, Bool.false_eq_true, if_true, if_false]
  all_goals
    split
    · exact .refl m
    split
    · exact fail_steady m _
    split
    · exact .same rfl rfl rfl rfl rfl rfl
    · exact .same rfl rfl rfl rfl rfl rfl

theorem sendProof_steady (crypto : Crypto) (m : SessionModel) :
    Steady m (m.sendProof crypto).1 := by
  unfold sendProof
  split
  · exact .refl m
  · exact .after (send_steady _ _ _) rfl rfl rfl rfl rfl rfl

theorem requestKeyframe_steady (m : SessionModel) (now : ℕ) (reason : UInt8) :
    Steady m (m.requestKeyframe now reason) := by
  unfold requestKeyframe
  split
  · exact .refl m
  · split
    · exact .refl m
    · exact .catching (.after (send_steady _ _ _) rfl rfl rfl rfl rfl rfl) failed_steady

theorem decode_steady (env : Moment) (m : SessionModel) (frame : ReceivedFrame × ℕ) :
    Steady { m with decoder := (m.decoder.decode (env.videoToolbox frame.2) frame.1).1 }
      (m.decode env frame) := by
  unfold decode
  dsimp only
  split
  · exact requestKeyframe_steady _ _ _
  · exact .refl _

theorem foldl_decode_steady (env : Moment) (frames : List (ReceivedFrame × ℕ)) (m : SessionModel) :
    Steady { m with decoder := H264Decoder.decodeAll env.videoToolbox m.decoder frames }
      (frames.foldl (decode env) m) := by
  induction frames generalizing m with
  | nil => exact .refl m
  | cons frame frames ih =>
    have hrest := ih (m.decode env frame)
    rw [List.foldl_cons]
    obtain h | h := decode_steady env m frame
    · have hdecoder := congrArg (H264Decoder.decodeAll env.videoToolbox · frames) h.decoder
      exact hrest.after h.state hdecoder h.assembler h.control h.group h.session
    · obtain hrest | hrest := hrest
      · have hset : Ended { m.decode env frame with
            decoder := H264Decoder.decodeAll env.videoToolbox (m.decode env frame).decoder frames } :=
          ⟨h.state, h.control, h.group, h.session⟩
        exact .inr (hset.keeps hrest)
      · exact .inr hrest

/-- The assembler behind the loop of `consumeFrames`, and the frames it has handed over. -/
def handed (m : SessionModel) (env : Moment) : FrameAssembler × List ReceivedFrame :=
  (m.assembler.expire env.now).drain env.now

theorem consumeFrames_steady (m : SessionModel) (env : Moment) :
    Steady { m with
      assembler := (m.handed env).1
      decoder := H264Decoder.decodeAll env.videoToolbox m.decoder (m.handed env).2.zipIdx }
      (m.consumeFrames env) := by
  unfold consumeFrames
  dsimp only
  have h := foldl_decode_steady env (m.handed env).2.zipIdx
    { m with assembler := (m.handed env).1 }
  split
  · exact h.trans (requestKeyframe_steady _ _ _)
  · exact h

/-- A `consumeFrames` call in this state hands no frame over, or the last one decodes, or
it leaves the assembler asking for a keyframe. -/
def Hands (m : SessionModel) (env : Moment) : Prop :=
  (m.handed env).1.requiresKeyframe = false →
    H264Decoder.DecodesLast env.videoToolbox m.decoder (m.handed env).2.zipIdx

/-- The datagram holds a fragment of the stream, and the assembler takes it. -/
def Ingests (m : SessionModel) (env : Moment) (data : Bytes) (a : FrameAssembler) : Prop :=
  ∃ p f, Packet.decode data MAX_DATAGRAM = .ok p ∧ p.session = m.transport.session ∧
    p.message VideoFragment = .ok f ∧ some f.generation = m.generation ∧
    m.assembler.ingest f env.now = (a, .ok ())

/-- Decoding goes well in this callback: its `consumeFrames` call ends with a frame that
decodes, and no frame of the decoder's session comes back with an error while the
assembler does not ask for a keyframe. -/
def Healthy (m : SessionModel) (e : Moment × Event) : Prop :=
  m.state = .streaming → match e.2 with
    | .tick => m.timer → m.Hands e.1
    | .datagram data => ∀ a, m.Ingests e.1 data a → { m with assembler := a }.Hands e.1
    | .decoded index ok => m.assembler.requiresKeyframe = false →
      ∀ job ∈ m.decoder.jobs[index]?, job.epoch = m.decoder.epoch → ok = true
    | _ => True

/-- A `KeyframeRequest` was sent since the log was `log`. -/
def Requested (log : List Effect) (m : SessionModel) : Prop :=
  ∃ l, m.log = log ++ l ∧ ∃ reason n session,
    .sent false (Packet.new (⟨reason⟩ : KeyframeRequest) n session) ∈ l

/-- While the decoder waits, a `consumeFrames` call that the limiter lets through asks for a
keyframe or hands an IDR over. -/
def Recovers (m : SessionModel) (env : Moment) : Prop :=
  m.state = .streaming → m.transport.control = true → m.transport.sends < 128 →
    m.decoder.waitingForIDR = true → env.now - m.lastKeyframe ≥ 200000 →
    Requested m.log (m.consumeFrames env) ∨ ∃ frame ∈ (m.handed env).2, H264Decoder.HasIDR frame

/-- The session as `init` leaves it. -/
def Initial (m : SessionModel) : Prop :=
  ∃ clientID keychain renderer now, m =
    { clientID := clientID
      keychain := keychain
      renderer := renderer
      state := if renderer then .idle else .failed
      lastStatistics := now }

/-- What the decoder waits for is polled: as long as the connection stands, the decoder
does not wait for an IDR that the assembler does not ask for. -/
structure Polled (m : SessionModel) : Prop where
  control : m.transport.control = true → m.transport.group = true
  session : m.transport.session.length = 16
  synced : m.transport.group = true → m.state = .streaming → m.decoder.waitingForIDR = true →
    m.assembler.requiresKeyframe = true

namespace Polled

theorem ended (h : Ended m) : Polled m :=
  ⟨fun hc => absurd (h.control.symm.trans hc) Bool.noConfusion, h.session,
    fun _ hs => absurd hs h.state⟩

theorem steady (h : Polled m) (hs : Steady m m') : Polled m' := by
  obtain hs | hs := hs
  · refine ⟨?_, hs.session ▸ h.session, ?_⟩
    · rw [hs.control, hs.group]
      exact h.control
    · rw [hs.group, hs.state, hs.decoder, hs.assembler]
      exact h.synced
  · exact .ended hs

/-- Without a connection there is nothing to poll for. -/
theorem closed {t : Transport} (ht : m.transport = t.close) : Polled m := by
  refine ⟨fun hc => ?_, ?_, fun hg => ?_⟩
  · rw [ht] at hc
    cases hc
  · rw [ht]
    rfl
  · rw [ht] at hg
    cases hg

/-- The session leaves streaming, or does not stream. -/
theorem off (h : Polled m) (hstate : m'.state ≠ .streaming)
    (hcontrol : m'.transport.control = m.transport.control)
    (hgroup : m'.transport.group = m.transport.group)
    (hsession : m'.transport.session = m.transport.session) : Polled m' :=
  ⟨fun hc => hgroup ▸ h.control (hcontrol ▸ hc), hsession ▸ h.session,
    fun _ hs => absurd hs hstate⟩

/-- A session that begins to stream has an assembler that asks for a keyframe. -/
theorem asks (h : Polled m) (ha : m'.assembler.requiresKeyframe = true)
    (hcontrol : m'.transport.control = m.transport.control)
    (hgroup : m'.transport.group = m.transport.group)
    (hsession : m'.transport.session = m.transport.session) : Polled m' :=
  ⟨fun hc => hgroup ▸ h.control (hcontrol ▸ hc), hsession ▸ h.session, fun _ _ _ => ha⟩

theorem openConnection (h : Polled m) (env : Moment) : Polled (m.openConnection env) := by
  unfold SessionModel.openConnection
  split
  · exact h
  split
  · exact h
  split
  · exact h.steady (failed_steady m _)
  · refine ⟨fun _ => rfl, rfl, fun _ hs => absurd hs ?_⟩
    dsimp only
    split <;> exact nofun

/-! #### Control packets -/

theorem onPairing (h : Polled m) (env : Moment) (pair : Pairing) :
    Polled (m.onPairing crypto env pair).1 := by
  have hdone (m' : SessionModel) (h : Polled m') : Polled (m'.pairingDone env).1 := by
    have hset : Polled { m' with pairKey := [], configured := true, state := .connecting } :=
      h.off nofun rfl rfl rfl
    exact hset.steady (send_steady _ _ _)
  unfold SessionModel.onPairing
  split
  · exact h
  split
  · exact h.off nofun rfl rfl rfl
  split
  · unfold pairingPhase1
    split
    · exact h
    split
    · exact h
    · exact h.steady (.after (sendProof_steady _ _) rfl rfl rfl rfl rfl rfl)
  split
  · unfold pairingPhase3
    split
    · exact h
    split
    · exact h
    split
    · split
      · exact h
      dsimp only
      split
      · exact h.steady (.same rfl rfl rfl rfl rfl rfl)
      · exact hdone _ (h.steady (.same rfl rfl rfl rfl rfl rfl))
    · exact hdone m h
  · exact h

theorem reading {T : Type} [WireMessage T] (h : Polled m) (p : Packet) {k : T → Result}
    (hk : ∀ v, Polled (k v).1) : Polled (m.reading p k).1 := by
  unfold SessionModel.reading
  split
  · exact hk _
  · exact h

theorem onVideoConfig (h : Polled m) (env : Moment) (config : VideoConfig) :
    Polled (m.onVideoConfig env config).1 := by
  unfold SessionModel.onVideoConfig
  split
  · exact h
  dsimp only
  generalize hm : ({ m with
      generation := some config.generation
      videoSize := (config.width.toNat, config.height.toNat)
      assembler := {}
      decoder := m.decoder.reset
      state := .streaming
      reconnectAttempt := 0
      timeoutTask := false
      idleTimerDisabled := true
      timer := true } : SessionModel) = m'
  have hset : Polled m' := by
    subst hm
    exact h.asks rfl rfl rfl rfl
  exact hset.steady (requestKeyframe_steady _ _ _)

theorem dispatch (h : Polled m) (env : Moment) (p : Packet) :
    Polled (m.dispatch crypto env p).1 := by
  unfold SessionModel.dispatch
  split
  · refine h.reading p fun v => ?_
    unfold onProtocolVersion
    split <;> exact h
  split
  · refine h.reading p fun v => ?_
    unfold onHostInfo
    split
    · exact h.steady (.same rfl rfl rfl rfl rfl rfl)
    · exact h
  split
  · exact h.reading p fun pair => h.onPairing env pair
  split
  · refine h.reading p fun v => ?_
    unfold onSessionStart
    split
    · exact h.steady (.same rfl rfl rfl rfl rfl rfl)
    · exact h
  split
  · refine h.reading p fun v => ?_
    unfold onEncoderCapabilities
    split <;> exact h
  split
  · exact h.reading p fun config => h.onVideoConfig env config
  split
  · refine h.reading p fun v => ?_
    unfold onPong
    split <;> exact h
  split
  · exact h.reading p fun _ => h
  · exact h

theorem packet (h : Polled m) (env : Moment) (p : Packet) : Polled (m.packet crypto env p).1 := by
  unfold SessionModel.packet
  split
  · exact h
  have hseq : Polled { m with lastSequence := p.sequence.toNat } :=
    h.steady (.same rfl rfl rfl rfl rfl rfl)
  dsimp only
  split
  · split
    · exact hseq
    rename_i hstart
    rw [not_not] at hstart
    have hset : Polled { m with
        lastSequence := p.sequence.toNat
        transport := { m.transport with session := p.session } } :=
      ⟨h.control, hstart.2.1, h.synced⟩
    refine Polled.dispatch (.steady hset ?_) env p
    unfold activateInput
    split
    · exact .refl _
    split
    · exact fail_steady _ _
    · exact .same rfl rfl rfl rfl rfl rfl
  split
  · exact hseq
  · exact hseq.dispatch env p

theorem packets (h : Polled m) (env : Moment) (ps : List Packet) :
    Polled (packets crypto env m ps).1 := by
  obtain ⟨-, h, -⟩ := packets_induction crypto env (I := fun m _ => Polled m)
    (fun m p _ h => h.packet env p) ps m h
  exact h

theorem handed_requires {env : Moment} (h : m.assembler.requiresKeyframe = true)
    (hnil : (m.handed env).2 = []) : (m.handed env).1.requiresKeyframe = true :=
  FrameAssembler.drain_requires ((FrameAssembler.expire_shrinks _ _).requires h) hnil

theorem consumeFrames (h : Polled m) {env : Moment} (hands : m.Hands env) :
    Polled (m.consumeFrames env) := by
  have hset : Polled { m with
      assembler := (m.handed env).1
      decoder := H264Decoder.decodeAll env.videoToolbox m.decoder (m.handed env).2.zipIdx } := by
    refine ⟨h.control, h.session, fun hgroup hstate hwaiting => ?_⟩
    by_contra hrequires
    rw [Bool.not_eq_true] at hrequires
    have hlast := hands hrequires
    by_cases hnil : (m.handed env).2 = []
    · -- without a frame nothing has changed
      simp only [hnil] at hwaiting
      have := handed_requires (h.synced hgroup hstate hwaiting) hnil
      exact absurd (hrequires.symm.trans this) Bool.noConfusion
    · have hne : (m.handed env).2.zipIdx ≠ [] := by simpa using hnil
      rw [← H264Decoder.decodeAll_waiting_iff _ _ hne] at hlast
      exact absurd (hlast.symm.trans hwaiting) Bool.noConfusion
  exact hset.steady (consumeFrames_steady m env)

theorem ingested (h : Polled m) {env : Moment} {data : Bytes} {a : FrameAssembler}
    (ha : m.Ingests env data a) : Polled { m with assembler := a } := by
  obtain ⟨p, f, -, -, -, -, ha⟩ := ha
  refine ⟨h.control, h.session, fun hgroup hstate hwaiting => ?_⟩
  have := FrameAssembler.ingest_requires (h.synced hgroup hstate hwaiting) f env.now
  rwa [ha] at this

theorem datagram (h : Polled m) {env : Moment} {data : Bytes}
    (hands : m.state = .streaming → ∀ a, m.Ingests env data a →
      { m with assembler := a }.Hands env) : Polled (m.datagram env data).1 := by
  unfold SessionModel.datagram
  split
  · exact h
  rename_i hstate
  split
  · exact h
  rename_i p hp
  split
  · exact h
  rename_i hsession
  split
  · exact h
  rename_i f hf
  split
  · exact h
  rename_i hgeneration
  split
  · rename_i a e ha
    refine ⟨h.control, h.session, fun hgroup hstate hwaiting => ?_⟩
    have := FrameAssembler.ingest_requires (h.synced hgroup hstate hwaiting) f env.now
    rwa [ha] at this
  · rename_i a ha
    have hingests : m.Ingests env data a :=
      ⟨p, f, hp, not_not.1 hsession, hf, not_not.1 hgeneration, ha⟩
    exact (h.ingested hingests).consumeFrames (hands (not_not.1 hstate) a hingests)

theorem tick (h : Polled m) {env : Moment} (hands : m.state = .streaming → m.Hands env) :
    Polled (m.tick env) := by
  unfold SessionModel.tick
  split
  · exact h
  rename_i hstate
  have hconsumed := h.consumeFrames (hands (not_not.1 hstate))
  dsimp only
  split
  · exact hconsumed
  · refine hconsumed.steady (.trans ?_
      (show Steady (Result.catching _ failed) _ from .same rfl rfl rfl rfl rfl rfl))
    exact .catching (.andThen (send_steady _ _ _) fun m' => send_steady m' _ _) failed_steady

theorem decoded (h : Polled m) {index : ℕ} {ok : Bool}
    (hok : m.state = .streaming → m.assembler.requiresKeyframe = false →
      ∀ job ∈ m.decoder.jobs[index]?, job.epoch = m.decoder.epoch → ok = true) :
    Polled { m with decoder := (m.decoder.completed index ok).1 } := by
  refine ⟨h.control, h.session, fun hgroup hstate hwaiting => ?_⟩
  by_contra hrequires
  rw [Bool.not_eq_true] at hrequires
  have hsettled : m.decoder.waitingForIDR = false := by
    by_contra hw
    rw [Bool.not_eq_false] at hw
    exact absurd (hrequires.symm.trans (h.synced hgroup hstate hw)) Bool.noConfusion
  have hjob := hok hstate hrequires
  dsimp only at hwaiting
  unfold H264Decoder.completed at hwaiting
  cases hj : m.decoder.jobs[index]? with
  | none => simp [hj, hsettled] at hwaiting
  | some job =>
    simp only [hj] at hwaiting
    split at hwaiting
    · simp [hsettled] at hwaiting
    · rename_i hepoch
      rw [not_not] at hepoch
      simp [hjob job hj hepoch.symm, hsettled] at hwaiting

theorem disconnect (h : Polled m) : Polled m.disconnect := by
  have hset : Polled { m with
      wantsConnection := false, reconnectTask := false, timeoutTask := false, timer := false } :=
    h.steady (.same rfl rfl rfl rfl rfl rfl)
  unfold SessionModel.disconnect
  dsimp only
  split
  · have hsent := hset.steady (.catching (send_steady _ (⟨0⟩ : SessionStop) false)
      fun m' _ => .refl m')
    exact hsent.off nofun rfl rfl rfl
  · exact h.off nofun rfl rfl rfl

theorem forgetHost (h : Polled m) (env : Moment) : Polled (m.forgetHost env) := by
  unfold SessionModel.forgetHost
  dsimp only
  split
  · refine Polled.steady (Polled.disconnect (h.steady ?_)) (.same rfl rfl rfl rfl rfl rfl)
    exact .same rfl rfl rfl rfl rfl rfl
  · exact h.disconnect.steady (.same rfl rfl rfl rfl rfl rfl)

theorem connect (h : Polled m) (env : Moment) (host : DiscoveredHost) :
    Polled (m.connect env host) := by
  unfold SessionModel.connect
  dsimp only
  split
  · exact h.disconnect
  · refine Polled.openConnection (h.disconnect.steady ?_) env
    exact .same rfl rfl rfl rfl rfl rfl

theorem sceneActive (h : Polled m) (env : Moment) (active : Bool) :
    Polled (m.sceneActive env active) := by
  unfold SessionModel.sceneActive
  dsimp only
  split
  · split
    · refine Polled.openConnection (h.steady ?_) env
      exact .same rfl rfl rfl rfl rfl rfl
    · exact h.steady (.same rfl rfl rfl rfl rfl rfl)
  · split <;> exact closed (t := m.transport) rfl

theorem step (h : Polled m) {e : Moment × Event} (he : m.Healthy e) :
    Polled (step crypto m e) := by
  obtain ⟨env, e⟩ := e
  cases e with
  | connect host => exact h.connect env host
  | disconnect => exact h.disconnect
  | forgetHost => exact h.forgetHost env
  | pair code =>
    simp only [SessionModel.step, pairing]
    split
    · exact h
    · exact h.steady (.after (sendProof_steady _ _) rfl rfl rfl rfl rfl rfl)
  | input event =>
    simp only [SessionModel.step, input]
    split
    · exact h
    · exact h.steady (.catching (send_steady _ _ _) failed_steady)
  | sceneActive active => exact h.sceneActive env active
  | orientationChanged =>
    simp only [SessionModel.step, orientationChanged]
    split
    · exact h
    split
    · exact h.steady (failed_steady _ _)
    · exact h
  | certificate certificate =>
    simp only [SessionModel.step, verifyCertificate]
    split
    · split
      · split
        · exact h.steady (fail_steady _ _)
        · exact h.steady (.same rfl rfl rfl rfl rfl rfl)
      · exact h.steady (.same rfl rfl rfl rfl rfl rfl)
    · exact h
  | groupReady =>
    simp only [SessionModel.step]
    split
    · rename_i hgroup
      exact ⟨fun _ => hgroup, h.session, h.synced⟩
    · exact h
  | controlReady =>
    simp only [SessionModel.step, ready]
    split
    · refine h.steady (.catching (.after (send_steady _ _ _) ?_ ?_ ?_ ?_ ?_ ?_) failed_steady)
      all_goals rfl
    · exact h
  | received result =>
    simp only [SessionModel.step]
    split
    · exact h
    · cases result with
      | ok ps => exact (h.packets env ps).steady (.catching (.refl _) fail_steady)
      | error error => exact h.steady (fail_steady _ _)
  | datagram data =>
    simp only [SessionModel.step]
    split
    · exact h
    split
    · exact h.steady (fail_steady _ _)
    · exact (h.datagram he).steady (.catching (.refl _) fail_steady)
  | sendCompleted => exact h.steady (.same rfl rfl rfl rfl rfl rfl)
  | transportFailed =>
    simp only [SessionModel.step]
    split
    · exact h.steady (fail_steady _ _)
    · exact h
  | decoded index ok =>
    have hset := h.decoded he
    simp only [SessionModel.step]
    split
    · exact hset.steady (requestKeyframe_steady _ _ _)
    · exact hset
  | tick =>
    simp only [SessionModel.step]
    split
    · rename_i htimer
      exact h.tick fun hstate => he hstate htimer
    · exact h
  | graceElapsed =>
    simp only [SessionModel.step]
    split
    · exact closed (t := m.transport) rfl
    · exact h
  | reconnectDue =>
    simp only [SessionModel.step]
    split
    · refine Polled.openConnection (h.steady ?_) env
      exact .same rfl rfl rfl rfl rfl rfl
    · exact h
  | timeoutDue =>
    simp only [SessionModel.step]
    split
    · have hset : Polled { m with timeoutTask := false } :=
        h.steady (.same rfl rfl rfl rfl rfl rfl)
      split
      · exact hset
      · exact hset.steady (failed_steady _ _)
    · exact h

end Polled

theorem Initial.polled (h : Initial m) : Polled m := by
  obtain ⟨clientID, keychain, renderer, now, rfl⟩ := h
  exact ⟨nofun, rfl, nofun⟩

/-! ### Requests -/

/-- A request has gone out since the log was `log`, or the next one can. -/
def Asks (log : List Effect) (now : ℕ) (m : SessionModel) : Prop :=
  Requested log m ∨ m.log = log ∧ m.state = .streaming ∧ m.transport.control = true ∧
    m.transport.sends < 128 ∧ m.transport.session.length = 16 ∧ now - m.lastKeyframe ≥ 200000

theorem Requested.quiet {log : List Effect} (h : Requested log m) (hq : Quiet m m') :
    Requested log m' := by
  obtain ⟨l, hlog, reason, n, session, hmem⟩ := h
  obtain ⟨l', hlog', -⟩ := hq.log
  exact ⟨l ++ l', by rw [hlog', hlog, List.append_assoc], reason, n, session,
    List.mem_append_left _ hmem⟩

/-- The limiter, the transport and the size of the packet let the request through. -/
theorem Asks.requestKeyframe {log : List Effect} {now : ℕ} (h : Asks log now m) (reason : UInt8) :
    Requested log (m.requestKeyframe now reason) := by
  obtain h | ⟨rfl, hstate, hcontrol, hsends, hsession, hopen⟩ := h
  · exact h.quiet (requestKeyframe_quiet m now reason)
  have hfits (n : UInt64) : (Packet.new (⟨reason⟩ : KeyframeRequest) n
      m.transport.session).encode.length ≤ MAX_CONTROL := by
    rw [Packet.encode_eq, length_envelope (by exact hsession)]
    show HEADER + 1 ≤ MAX_CONTROL
    decide
  unfold SessionModel.requestKeyframe
  rw [if_neg (not_not.2 hstate), if_neg (not_not.2 hopen)]
  unfold send
  simp only [Bool.false_eq_true, if_false, hcontrol, not_true_eq_false, hsends, hfits]
  exact ⟨_, rfl, reason, _, _, List.mem_singleton_self _⟩

theorem Asks.foldl_decode {log : List Effect} (env : Moment) (frames : List (ReceivedFrame × ℕ))
    (h : Asks log env.now m) : Asks log env.now (frames.foldl (decode env) m) := by
  induction frames generalizing m with
  | nil => exact h
  | cons frame frames ih =>
    refine ih ?_
    unfold decode
    dsimp only
    have hset (d : H264Decoder) : Asks log env.now { m with decoder := d } := h
    split
    · exact .inl ((hset _).requestKeyframe 3)
    · exact hset _

/-- In a polled session no request is lost in a call whose last frame decodes. -/
theorem Polled.recovered (h : Polled m) {env : Moment} (hands : m.Hands env) : m.Recovers env := by
  intro hstate hcontrol hsends hwaiting hopen
  have hrequires := h.synced (h.control hcontrol) hstate hwaiting
  cases hleft : (m.handed env).1.requiresKeyframe with
  | true =>
    refine .inl ?_
    unfold SessionModel.consumeFrames
    dsimp only
    have hasks : Asks m.log env.now { m with assembler := (m.handed env).1 } :=
      .inr ⟨rfl, hstate, hcontrol, hsends, h.session, hopen⟩
    have hasks := hasks.foldl_decode env (m.handed env).2.zipIdx
    split
    · exact hasks.requestKeyframe 2
    · rename_i hneg
      obtain hk | hended := foldl_decode_steady env (m.handed env).2.zipIdx
        { m with assembler := (m.handed env).1 }
      · exact absurd (hk.assembler ▸ hleft) hneg
      · exact hasks.resolve_right fun hstream => hended.state hstream.2.1
  | false =>
    refine .inr ?_
    have hne : (m.handed env).2.zipIdx ≠ [] := by
      intro hnil
      have := handed_requires hrequires (List.zipIdx_eq_nil_iff.1 hnil)
      exact absurd (hleft.symm.trans this) Bool.noConfusion
    have hlast := hands hleft
    rw [← H264Decoder.decodeAll_waiting_iff _ _ hne] at hlast
    obtain ⟨frame, hmem, hidr⟩ := H264Decoder.exists_hasIDR _ _ _ hwaiting hlast
    exact ⟨frame.1, List.fst_mem_of_mem_zipIdx hmem, hidr⟩

/-- **Recovery requests are not lost while decoding goes well.**  In every run in which
each `consumeFrames` call ends with a frame that decodes, or leaves the assembler asking
for a keyframe, and frames come back from VideoToolbox without an error, a decoder that
waits for an IDR gets it in a `consumeFrames` call or the call sends a
`KeyframeRequest`, if the limiter and the transport let one through. -/
theorem recovers (crypto : Crypto) (m : SessionModel)
    (h : Reaches (step crypto) Initial Healthy m) (env : Moment) (a : FrameAssembler)
    (ha : a = m.assembler ∨ ∃ data, m.Ingests env data a)
    (hands : { m with assembler := a }.Hands env) : { m with assembler := a }.Recovers env := by
  have hm : Polled m := h.invariant (fun _ h => h.polled) fun _ _ h he => h.step he
  obtain rfl | ⟨data, ha⟩ := ha
  · exact hm.recovered hands
  · exact (hm.ingested ha).recovered hands

/-! ### A decoder that waits on its own -/

/-- The condition is needed in every call: without it the decoder waits, and the assembler
does not ask for what it waits for. -/
theorem waits_unpolled {env : Moment} (h : ¬ m.Hands env)
    (hstate : (m.consumeFrames env).state = .streaming) :
    (m.consumeFrames env).decoder.waitingForIDR = true ∧
      (m.consumeFrames env).assembler.requiresKeyframe = false := by
  unfold Hands at h
  rw [Classical.not_imp] at h
  obtain ⟨hrequires, hlast⟩ := h
  obtain hk | hended := consumeFrames_steady m env
  · rw [hk.decoder, hk.assembler]
    refine ⟨?_, hrequires⟩
    have hne : (m.handed env).2.zipIdx ≠ [] := by
      intro hnil
      rw [hnil] at hlast
      exact hlast nofun
    rwa [← H264Decoder.decodeAll_waiting_iff _ _ hne, Bool.not_eq_false] at hlast
  · exact absurd hstate hended.state

theorem handed_empty (env : Moment) (hempty : m.assembler.frames = ∅) :
    m.handed env = (m.assembler, []) := by
  have hexpire : m.assembler.expire env.now = m.assembler := by
    rw [FrameAssembler.expire, hempty]
    rfl
  have hnext : m.assembler.next env.now = (m.assembler, none) := by
    rw [FrameAssembler.next, hempty]
    rfl
  rw [handed, hexpire, FrameAssembler.drain_none hnext]

/-- Such a session asks for nothing while no assembly is open. -/
theorem not_recovers {env : Moment} (hempty : m.assembler.frames = ∅)
    (hrequires : m.assembler.requiresKeyframe = false) (hstate : m.state = .streaming)
    (hcontrol : m.transport.control = true) (hsends : m.transport.sends < 128)
    (hwaiting : m.decoder.waitingForIDR = true) (hopen : env.now - m.lastKeyframe ≥ 200000) :
    ¬ m.Recovers env := by
  intro h
  have hhanded := handed_empty env hempty
  obtain ⟨l, hlog, reason, n, session, hmem⟩ | ⟨frame, hmem, -⟩ :=
    h hstate hcontrol hsends hwaiting hopen
  · have hsilent : m.consumeFrames env = m := by
      show ite _ _ _ = _
      simp only [handed] at hhanded
      simp only [hhanded, List.zipIdx_nil, List.foldl_nil, hrequires, Bool.false_eq_true, if_false]
    rw [hsilent, List.self_eq_append_right] at hlog
    rw [hlog] at hmem
    cases hmem
  · rw [hhanded] at hmem
    cases hmem

/-- A session with a saved host whose certificate is `[1]`. -/
def streamSession : SessionModel where
  clientID := List.replicate 16 7
  keychain := fun _ => some ⟨Crypto.sample.sha256 [1], List.replicate 32 3, List.replicate 16 8⟩

/-- The host reconnects and configures a stream. -/
def streamPackets : List Packet :=
  let session := List.replicate 16 0
  let session' := List.replicate 16 4
  let nonce := List.replicate 32 5
  let proof := TrustStore.proof .sample (List.replicate 32 3) [1] (List.replicate 16 7) nonce 2
  [.new (⟨List.replicate 16 8, "PC"⟩ : HostInfo) 1 session,
    .new (⟨1, nonce, [], []⟩ : Pairing) 2 session, .new (⟨3, nonce, proof, []⟩ : Pairing) 3 session,
    .new (⟨1280, 720, 60⟩ : SessionStart) 4 session',
    .new (⟨1, 1, 1280, 720, 60, 8, 1, []⟩ : VideoConfig) 5 session']

def streamEvents : List (Moment × Event) :=
  [({}, .connect ⟨"pc", "PC"⟩), ({}, .certificate [1]), ({}, .groupReady), ({}, .controlReady),
    ({ now := 1000000 }, .received (.ok streamPackets))]

theorem streamSession_initial : Initial streamSession :=
  ⟨_, _, true, 0, rfl⟩

/-- A tick finds the limiter closed. -/
def freshEvents : List (Moment × Event) :=
  streamEvents ++ [({ now := 1100000 }, .tick)]

def freshStream : SessionModel := freshEvents.foldl (step .sample) streamSession

theorem freshStream_handed : (freshStream.handed { now := 1300000 }).1.requiresKeyframe = true ∧
    (freshStream.handed { now := 1300000 }).2 = [] := by
  decide +kernel

/-- What `Recovers` asks of the session. -/
theorem freshStream_state : freshStream.state = .streaming ∧ freshStream.transport.control = true ∧
    freshStream.transport.sends < 128 ∧ freshStream.decoder.waitingForIDR = true ∧
      freshStream.lastKeyframe = 1000000 := by
  decide +kernel

/-- The hypotheses of `recovers` are satisfiable: the tick at 1.3 s repeats the request that
was suppressed at 1.1 s. -/
theorem recovers_sample :
    Requested freshStream.log (freshStream.consumeFrames { now := 1300000 }) := by
  have hrun : Along (step .sample) Healthy streamSession freshEvents := by
    refine ⟨fun _ => trivial, fun _ => trivial, fun _ => trivial, fun _ => trivial,
      fun _ => trivial, fun _ _ hrequires => absurd hrequires ?_, trivial⟩
    decide +kernel
  have hands : freshStream.Hands { now := 1300000 } :=
    fun hrequires => absurd (freshStream_handed.1.symm.trans hrequires) Bool.noConfusion
  have htick {m : SessionModel} (hm : Reaches (step .sample) Initial Healthy m) {env : Moment}
      (hands : m.Hands env) : m.Recovers env := recovers .sample m hm env _ (.inl rfl) hands
  obtain ⟨hstate, hcontrol, hsends, hwaiting, hlast⟩ := freshStream_state
  have hopen : ({ now := 1300000 } : Moment).now - freshStream.lastKeyframe ≥ 200000 := by
    rw [hlast]
    decide
  have hm : Reaches (step .sample) Initial Healthy freshStream :=
    (Reaches.init streamSession_initial).along hrun
  refine (htick hm hands hstate hcontrol hsends hwaiting hopen).resolve_right ?_
  rintro ⟨frame, hmem, -⟩
  have hmem : frame ∈ (freshStream.handed { now := 1300000 }).2 := hmem
  rw [freshStream_handed.2] at hmem
  cases hmem

/-- An access unit with parameter sets and an IDR, in one fragment. -/
def keyframeDatagram : Bytes :=
  let data := [0, 0, 1, 0x67, 1, 0, 0, 1, 0x68, 1, 0, 0, 1, 0x65, 1]
  (Packet.new (⟨1, 1, 0, 0, 0, 1, 0, 1, 15, data⟩ : VideoFragment) 1 (List.replicate 16 4)).encode

/-- The first keyframe arrives, and 20 ms behind the first request it comes back from
VideoToolbox with an error. -/
def lostEvents : List (Moment × Event) :=
  streamEvents ++ [({ now := 1010000 }, .datagram keyframeDatagram),
    ({ now := 1020000 }, .decoded 0 false)]

def lostStream : SessionModel := lostEvents.foldl (step .sample) streamSession

theorem lostStream_state : lostStream.assembler.frames.entries = [] ∧
    lostStream.assembler.requiresKeyframe = false ∧ lostStream.state = .streaming ∧
      lostStream.transport.control = true ∧ lostStream.transport.sends < 128 ∧
        lostStream.decoder.waitingForIDR = true ∧
          lostStream.lastKeyframe = 1000000 := by
  decide +kernel

/-- The property fails behind these events: the decoder waits, and at 1.3 s nothing is sent. -/
theorem recovery_lost : ¬ ∀ (crypto : Crypto) (m : SessionModel),
    Reaches (step crypto) Initial (fun _ _ => True) m → ∀ env, m.Recovers env := by
  intro h
  have hrun : Along (step .sample) (fun _ _ => True) streamSession lostEvents :=
    .of_forall (fun _ _ => trivial) _ lostEvents
  have hm : Reaches (step .sample) Initial (fun _ _ => True) lostStream :=
    (Reaches.init streamSession_initial).along hrun
  obtain ⟨hempty, hrequires, hstate, hcontrol, hsends, hwaiting, hlast⟩ := lostStream_state
  have hopen : ({ now := 1300000 } : Moment).now - lostStream.lastKeyframe ≥ 200000 := by
    rw [hlast]
    decide
  exact not_recovers (AList.ext hempty) hrequires hstate hcontrol hsends hwaiting hopen
    (h .sample _ hm { now := 1300000 })

end SessionModel
end Ipad
end SidecarDOS
