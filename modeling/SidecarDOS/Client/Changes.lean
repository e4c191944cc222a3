/-
# What a callback does to the video

Decoding apart, a callback does little to the stream of video: it assigns other fields, it leaves
streaming, it closes the connection, the connection gets ready, or the stream begins (`Change`).
Every method that hands no frame to the decoder is some of these, one after another
(`Changes`), if a session starts before its video (`Announced`).
-/

import SidecarDOS.Client.Recovery

namespace SidecarDOS
namespace Ipad
namespace SessionModel

variable {p : Prop} {crypto : Crypto} {env : Moment} {m m' m'' : SessionModel}

/-- What the video is about. -/
def video (m : SessionModel) :
    State × H264Decoder × FrameAssembler × Option UInt32 × Bool × Bool × Bytes :=
  (m.state, m.decoder, m.assembler, m.generation, m.transport.control, m.transport.group,
    m.transport.session)

/-- The decoder is the same, or has been reset. -/
def Resets (m m' : SessionModel) : Prop :=
  m'.decoder = m.decoder ∨ m'.decoder = m.decoder.reset

/-- A control stream belongs to a group. -/
def Wired (m : SessionModel) : Prop := m.transport.control = true → m.transport.group = true

/-- A change; a stream begins only where `p` holds. -/
inductive Change (p : Prop) (m m' : SessionModel) : Prop where
  | assigned (h : m'.video = m.video)
  | left (hstate : m'.state ≠ .streaming) (hdecoder : Resets m m') (hwired : Wired m → Wired m')
  | closed (hstate : m'.state = m.state) (hdecoder : Resets m m')
    (hassembler : m'.assembler = m.assembler) (hgeneration : m'.generation = m.generation)
    (hcontrol : m'.transport.control = false) (hgroup : m'.transport.group = false)
  | ready (hgroup : m.transport.group = true)
    (h : m'.video = { m with transport := { m.transport with control := true } }.video)
  | began (hp : p) (generation : UInt32) (h : m'.video = { m with
      state := .streaming
      generation := some generation
      assembler := {}
      decoder := m.decoder.reset }.video)

/-- Some changes, one after another. -/
def Changes (p : Prop) : SessionModel → SessionModel → Prop := Relation.ReflTransGen (Change p)

namespace Changes

theorem refl (m : SessionModel) : Changes p m m := Relation.ReflTransGen.refl

theorem trans (h : Changes p m m') (h' : Changes p m' m'') : Changes p m m'' :=
  Relation.ReflTransGen.trans h h'

theorem one (h : Change p m m') : Changes p m m' := Relation.ReflTransGen.single h

/-- Other fields were assigned. -/
theorem same (h : m'.video = m.video) : Changes p m m' := one (.assigned h)

/-- Other fields were assigned before. -/
theorem after (h : Changes p m' m'') (hvideo : m'.video = m.video) : Changes p m m'' :=
  (same hvideo).trans h

theorem andThen {r : Result} {k : SessionModel → Result} (h : Changes p m r.1)
    (hk : ∀ m', Changes p m' (k m').1) : Changes p m (r.andThen k).1 := by
  obtain ⟨m', ⟨⟩ | e⟩ := r
  · exact h
  · exact h.trans (hk _)

theorem catching {r : Result} {handle : SessionModel → Failure → SessionModel} (h : Changes p m r.1)
    (hk : ∀ m' e, Changes p m' (handle m' e)) : Changes p m (r.catching handle) := by
  obtain ⟨m', e | ⟨⟩⟩ := r
  · exact h.trans (hk _ _)
  · exact h

end Changes

/-! ### Failures and messages -/

theorem failed_changes (m : SessionModel) (e : Failure) : Changes p m (m.failed e) := by
  have hended := failed_ended m e
  have hdecoder : Resets m (m.failed e) := by
    unfold failed Resets
    dsimp only
    split_ifs
    · exact .inr rfl
    · exact .inr rfl
    · exact .inl rfl
  exact .one (.left hended.state hdecoder fun _ hcontrol =>
    absurd (hended.control.symm.trans hcontrol) Bool.noConfusion)

/-- The connection is closed, and perhaps the decoder is reset. -/
theorem closed_changes {t : Transport} (ht : m'.transport = t.close) (hstate : m'.state = m.state)
    (hdecoder : Resets m m') (hassembler : m'.assembler = m.assembler)
    (hgeneration : m'.generation = m.generation) : Changes p m m' :=
  .one (.closed hstate hdecoder hassembler hgeneration (by rw [ht]; rfl) (by rw [ht]; rfl))

theorem fail_changes (m : SessionModel) (e : Failure) : Changes p m (m.fail e) := by
  have hclose : Changes p m { m with transport := m.transport.close } :=
    closed_changes rfl rfl (.inl rfl) rfl rfl
  exact hclose.trans (failed_changes _ e)

theorem send_changes {T : Type} [WireMessage T] (m : SessionModel) (message : T) (isInput : Bool) :
    Changes p m (m.send message isInput).1 := by
  cases isInput <;> simp only [send, Bool.false_eq_true, if_true, if_false]
  all_goals
    split
    · exact .refl m
    split
    · exact fail_changes m _
    split
    · exact .same rfl
    · exact .same rfl

theorem requestKeyframe_changes (m : SessionModel) (now : ℕ) (reason : UInt8) :
    Changes p m (m.requestKeyframe now reason) := by
  unfold requestKeyframe
  split
  · exact .refl m
  · split
    · exact .refl m
    · exact .catching (.after (send_changes _ _ _) rfl) failed_changes

theorem sendProof_changes (crypto : Crypto) (m : SessionModel) :
    Changes p m (m.sendProof crypto).1 := by
  unfold sendProof
  split
  · exact .refl m
  · exact .after (send_changes _ _ _) rfl

/-- The session does not stream now. -/
theorem left_changes (hstate : m'.state ≠ .streaming) (hdecoder : Resets m m')
    (hcontrol : m'.transport.control = m.transport.control)
    (hgroup : m'.transport.group = m.transport.group) : Changes p m m' := by
  refine .one (.left hstate hdecoder fun hwired hc => ?_)
  rw [hgroup]
  exact hwired (hcontrol ▸ hc)

theorem openConnection_changes (m : SessionModel) (env : Moment) :
    Changes p m (m.openConnection env) := by
  unfold openConnection
  split
  · exact .refl m
  split
  · exact .refl m
  split
  · exact failed_changes m _
  · refine .one (.left ?_ (.inr rfl) fun _ _ => rfl)
    dsimp only
    split <;> exact nofun

/-! ### Control packets -/

theorem onPairing_changes (m : SessionModel) (env : Moment) (pair : Pairing) :
    Changes p m (m.onPairing crypto env pair).1 := by
  have hdone (m' : SessionModel) : Changes p m' (m'.pairingDone env).1 := by
    have hset : Changes p m' { m' with pairKey := [], configured := true, state := .connecting } :=
      left_changes nofun (.inl rfl) rfl rfl
    exact hset.trans (send_changes _ _ _)
  unfold onPairing
  split
  · exact .refl m
  split
  · exact left_changes nofun (.inl rfl) rfl rfl
  split
  · unfold pairingPhase1
    split
    · exact .refl m
    split
    · exact .refl m
    · exact .after (sendProof_changes _ _) rfl
  split
  · unfold pairingPhase3
    split
    · exact .refl m
    split
    · exact .refl m
    split
    · split
      · exact .refl m
      dsimp only
      split
      · exact .same rfl
      · exact .after (hdone _) rfl
    · exact hdone m
  · exact .refl m

theorem reading_changes {T : Type} [WireMessage T] (m : SessionModel) (q : Packet) {k : T → Result}
    (hk : ∀ v, Changes p m (k v).1) : Changes p m (m.reading q k).1 := by
  unfold reading
  split
  · exact hk _
  · exact .refl m

theorem onVideoConfig_changes (hp : p) (m : SessionModel) (env : Moment) (config : VideoConfig) :
    Changes p m (m.onVideoConfig env config).1 := by
  unfold onVideoConfig
  split
  · exact .refl m
  · dsimp only
    generalize hm : ({ m with
        generation := some config.generation
        videoSize := (config.width.toNat, config.height.toNat)
        assembler := {}
        decoder := m.decoder.reset
        state := .streaming
        reconnectAttempt := 0
        timeoutTask := false
        idleTimerDisabled := true
        timer := true } : SessionModel) = m'
    have hbegan : Changes p m m' := by
      subst hm
      exact .one (.began hp config.generation rfl)
    exact hbegan.trans (requestKeyframe_changes _ _ _)

theorem dispatch_changes (hp : p) (m : SessionModel) (env : Moment) (q : Packet) :
    Changes p m (m.dispatch crypto env q).1 := by
  unfold dispatch
  split
  · refine reading_changes m q fun v => ?_
    unfold onProtocolVersion
    split <;> exact .refl m
  split
  · refine reading_changes m q fun v => ?_
    unfold onHostInfo
    split
    · exact .same rfl
    · exact .refl m
  split
  · exact reading_changes m q fun pair => onPairing_changes m env pair
  split
  · refine reading_changes m q fun v => ?_
    unfold onSessionStart
    split
    · exact .same rfl
    · exact .refl m
  split
  · refine reading_changes m q fun v => ?_
    unfold onEncoderCapabilities
    split <;> exact .refl m
  split
  · exact reading_changes m q fun config => onVideoConfig_changes hp m env config
  split
  · refine reading_changes m q fun v => ?_
    unfold onPong
    split <;> exact .refl m
  split
  · exact reading_changes m q fun _ => .refl m
  · exact .refl m

theorem packet_changes (hp : p) (m : SessionModel) (env : Moment) (q : Packet)
    (hstart : q.kind = WireMessage.kind SessionStart → m.state ≠ .streaming) :
    Changes p m (m.packet crypto env q).1 := by
  have hseq : Changes p m { m with lastSequence := q.sequence.toNat } := .same rfl
  unfold packet
  split
  · exact .refl m
  dsimp only
  split
  · rename_i hkind
    split
    · exact hseq
    · have hset : Changes p m { m with
          lastSequence := q.sequence.toNat
          transport := { m.transport with session := q.session } } :=
        left_changes (hstart hkind) (.inl rfl) rfl rfl
      refine (hset.trans ?_).trans (dispatch_changes hp _ env q)
      unfold activateInput
      split
      · exact .refl _
      split
      · exact fail_changes _ _
      · exact .same rfl
  split
  · exact hseq
  · exact hseq.trans (dispatch_changes hp _ env q)

/-- A session starts before its video. -/
def Announced (crypto : Crypto) (env : Moment) : SessionModel → List Packet → Prop
  | _, [] => True
  | m, q :: qs => (q.kind = WireMessage.kind SessionStart → m.state ≠ .streaming) ∧
      ∀ m', m.packet crypto env q = (m', .ok ()) → Announced crypto env m' qs

instance Announced.decidable (crypto : Crypto) (env : Moment) :
    ∀ (m : SessionModel) (qs : List Packet), Decidable (Announced crypto env m qs)
  | _, [] => .isTrue trivial
  | m, q :: qs =>
    match hpacket : m.packet crypto env q with
    | (_, .error e) =>
      decidable_of_iff (q.kind = WireMessage.kind SessionStart → m.state ≠ .streaming)
        ⟨fun h => ⟨h, fun _ hok => by rw [hpacket] at hok; cases hok⟩, And.left⟩
    | (m', .ok ()) =>
      have := Announced.decidable crypto env m' qs
      decidable_of_iff
        ((q.kind = WireMessage.kind SessionStart → m.state ≠ .streaming) ∧
          Announced crypto env m' qs)
        ⟨fun h => ⟨h.1, fun _ hok => by rw [hpacket] at hok; cases hok; exact h.2⟩,
          fun h => ⟨h.1, h.2 m' hpacket⟩⟩

theorem packets_changes (hp : p) {qs : List Packet} (h : Announced crypto env m qs) :
    Changes p m (packets crypto env m qs).1 := by
  induction qs generalizing m with
  | nil => exact .refl m
  | cons q qs ih =>
    have hfirst : Changes p m (m.packet crypto env q).1 := packet_changes hp m env q h.1
    unfold packets
    rcases hpacket : m.packet crypto env q with ⟨m', e | ⟨⟩⟩
    · rw [hpacket] at hfirst
      exact hfirst
    · rw [hpacket] at hfirst
      exact hfirst.trans (ih (h.2 m' hpacket))

/-! ### Callbacks -/

theorem disconnect_changes (m : SessionModel) : Changes p m m.disconnect := by
  have hset : Changes p m { m with
      wantsConnection := false, reconnectTask := false, timeoutTask := false, timer := false } :=
    .same rfl
  unfold disconnect
  dsimp only
  split
  · refine hset.trans (Changes.trans ?_ (left_changes nofun (.inr rfl) rfl rfl))
    exact .catching (send_changes _ _ _) fun m' _ => .refl m'
  · exact hset.trans (left_changes nofun (.inr rfl) rfl rfl)

theorem forgetHost_changes (m : SessionModel) (env : Moment) : Changes p m (m.forgetHost env) := by
  unfold forgetHost
  dsimp only
  split
  · rename_i host _
    have hset : Changes p m { m with
        keychain := if env.keychain then Function.update m.keychain host.id none else m.keychain
        log := m.log ++ [Effect.forgot host.id] } := .same rfl
    exact (hset.trans (disconnect_changes _)).trans (.same rfl)
  · exact (disconnect_changes m).trans (.same rfl)

theorem connect_changes (m : SessionModel) (env : Moment) (host : DiscoveredHost) :
    Changes p m (m.connect env host) := by
  unfold connect
  dsimp only
  split
  · exact disconnect_changes m
  · exact (disconnect_changes m).trans (.after (openConnection_changes _ env) rfl)

theorem sceneActive_changes (m : SessionModel) (env : Moment) (active : Bool) :
    Changes p m (m.sceneActive env active) := by
  unfold sceneActive
  dsimp only
  split
  · split
    · exact .after (openConnection_changes _ env) rfl
    · exact .same rfl
  · split
    · exact .one (.left nofun (.inr rfl) fun _ hcontrol => absurd hcontrol Bool.noConfusion)
    · exact closed_changes rfl rfl (.inr rfl) rfl rfl

/-- The event hands frames to the decoder, or tells of one. -/
def Feeds : Event → Prop
  | .datagram _ | .tick | .decoded _ _ => True
  | _ => False

/-- The packets of a chunk. -/
def chunk : Event → List Packet
  | .received (.ok qs) => qs
  | _ => []

/-- A chunk announces a session before its video. -/
def Orderly (crypto : Crypto) (m : SessionModel) (e : Moment × Event) : Prop :=
  Announced crypto e.1 m (chunk e.2)

instance (crypto : Crypto) (m : SessionModel) (e : Moment × Event) :
    Decidable (m.Orderly crypto e) :=
  inferInstanceAs (Decidable (Announced crypto e.1 m (chunk e.2)))

theorem step_changes (hp : p) {e : Moment × Event} (he : ¬ Feeds e.2) (hok : m.Orderly crypto e) :
    Changes p m (m.step crypto e) := by
  obtain ⟨env, e⟩ := e
  cases e with
  | connect host => exact connect_changes m env host
  | disconnect => exact disconnect_changes m
  | forgetHost => exact forgetHost_changes m env
  | pair code =>
    simp only [step, pairing]
    split
    · exact .refl m
    · exact .after (sendProof_changes _ _) rfl
  | input event =>
    simp only [step, input]
    split
    · exact .refl m
    · exact .catching (send_changes _ _ _) failed_changes
  | sceneActive active => exact sceneActive_changes m env active
  | orientationChanged =>
    simp only [step, orientationChanged]
    split
    · exact .refl m
    split
    · exact failed_changes m _
    · exact .refl m
  | certificate certificate =>
    simp only [step, verifyCertificate]
    split
    · split
      · split
        · exact fail_changes m _
        · exact .same rfl
      · exact .same rfl
    · exact .refl m
  | groupReady =>
    simp only [step]
    split
    · rename_i hgroup
      exact .one (.ready hgroup rfl)
    · exact .refl m
  | controlReady =>
    simp only [step, ready]
    split
    · exact .catching (.after (send_changes _ _ _) rfl) failed_changes
    · exact .refl m
  | received result =>
    simp only [step]
    split
    · exact .refl m
    · cases result with
      | ok qs => exact (packets_changes hp hok).trans (.catching (.refl _) fail_changes)
      | error error => exact fail_changes m _
  | datagram data => exact absurd trivial he
  | sendCompleted => exact .same rfl
  | transportFailed =>
    simp only [step]
    split
    · exact fail_changes m _
    · exact .refl m
  | decoded index ok => exact absurd trivial he
  | tick => exact absurd trivial he
  | graceElapsed =>
    simp only [step]
    split
    · exact closed_changes rfl rfl (.inl rfl) rfl rfl
    · exact .refl m
  | reconnectDue =>
    simp only [step]
    split
    · exact .after (openConnection_changes _ env) rfl
    · exact .refl m
  | timeoutDue =>
    simp only [step]
    split
    · split
      · exact .same rfl
      · exact .after (failed_changes _ _) rfl
    · exact .refl m

end SessionModel
end Ipad
end SidecarDOS
