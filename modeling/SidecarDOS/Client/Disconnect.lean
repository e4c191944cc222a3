/-
# After a disconnect

`disconnect` gives up the connection, but `closeGracefully` keeps the transport for
another 0.2 s, and the handlers of control packets do not ask whether the session still
wants a connection.  A `VideoConfig` that arrives in that time makes it stream again, and
nothing ends this (`disconnect_undone`); a `Pairing` message is answered, and saves a
host.  Every other callback leaves the session idle and sends nothing
(`disconnect_final`).
-/

import SidecarDOS.Client.Recovery

namespace SidecarDOS
namespace Ipad

open Library (Reaches Along)

/-- No packet was sent, and no host was saved. -/
def Effect.Silent : Effect → Prop
  | .sent _ _ => False
  | .save _ _ => False
  | _ => True

namespace SessionModel

variable {crypto : Crypto} {m m' m'' : SessionModel} {env : Moment}

/-- The session is idle, and none of its tasks is due. -/
structure Resting (m : SessionModel) : Prop where
  state : m.state = .idle
  wantsConnection : m.wantsConnection = false
  idleTimer : m.idleTimerDisabled = false
  reconnectTask : m.reconnectTask = false
  timeoutTask : m.timeoutTask = false
  timer : m.timer = false

/-- The session rests behind a callback, and has done nothing that lasts. -/
structure Rests (m m' : SessionModel) : Prop where
  resting : m'.Resting
  log : ∃ l, m'.log = m.log ++ l ∧ ∀ x ∈ l, x.Silent

namespace Rests

theorem refl (h : m.Resting) : Rests m m := ⟨h, [], (List.append_nil _).symm, nofun⟩

theorem trans (h : Rests m m') (h' : Rests m' m'') : Rests m m'' := by
  obtain ⟨l, hl, hsilent⟩ := h.log
  obtain ⟨l', hl', hsilent'⟩ := h'.log
  refine ⟨h'.resting, l ++ l', ?_, fun x hx => ?_⟩
  · rw [hl', hl, List.append_assoc]
  · rcases List.mem_append.1 hx with hx | hx
    · exact hsilent x hx
    · exact hsilent' x hx

/-- Other fields were assigned. -/
theorem same (h : m.Resting) (hs : (m'.state, m'.wantsConnection, m'.idleTimerDisabled,
    m'.reconnectTask, m'.timeoutTask, m'.timer, m'.log) = (m.state, m.wantsConnection,
      m.idleTimerDisabled, m.reconnectTask, m.timeoutTask, m.timer, m.log)) : Rests m m' := by
  simp only [Prod.mk.injEq] at hs
  obtain ⟨hstate, hwants, hidle, hreconnect, htimeout, htimer, hlog⟩ := hs
  refine ⟨⟨hstate.trans h.state, hwants.trans h.wantsConnection, hidle.trans h.idleTimer,
    hreconnect.trans h.reconnectTask, htimeout.trans h.timeoutTask, htimer.trans h.timer⟩, [], ?_,
    nofun⟩
  rw [hlog, List.append_nil]

end Rests

theorem failed_rests (h : m.Resting) (e : Failure) : Rests m (m.failed e) := by
  have hn : ¬ m.wantsConnection = true := by
    rw [h.wantsConnection]
    exact Bool.false_ne_true
  unfold failed
  rw [if_pos hn]
  refine .same h ?_
  rw [h.state]

theorem fail_rests (h : m.Resting) (e : Failure) : Rests m (m.fail e) :=
  have hclose : Rests m { m with transport := m.transport.close } := .same h rfl
  hclose.trans (failed_rests hclose.resting e)

theorem catching_fail_rests {r : Result} (h : Rests m r.1) : Rests m (r.catching fail) := by
  obtain ⟨m', e | ⟨⟩⟩ := r
  · exact h.trans (fail_rests h.resting e)
  · exact h

theorem catching_failed_rests {r : Result} (h : Rests m r.1) : Rests m (r.catching failed) := by
  obtain ⟨m', e | ⟨⟩⟩ := r
  · exact h.trans (failed_rests h.resting e)
  · exact h

/-- The message goes out on the control stream. -/
def Sends {T : Type} [WireMessage T] (m : SessionModel) (message : T) : Prop :=
  m.transport.control = true ∧ m.transport.sends < 128 ∧
    (Packet.new message (UInt64.ofNat (m.transport.controlSequence + 1))
      m.transport.session).encode.length ≤ MAX_CONTROL

/-- A message that does not go out. -/
theorem send_rests {T : Type} [WireMessage T] (h : m.Resting) {message : T}
    (hn : ¬ m.Sends message) : Rests m (m.send message false).1 := by
  unfold send
  simp only [Bool.false_eq_true, if_false]
  split
  · exact .refl h
  · split
    · exact fail_rests h _
    · split
      · exact .same h rfl
      · rename_i hcontrol hsends hlength
        exact absurd ⟨not_not.1 hcontrol, not_not.1 hsends, not_not.1 hlength⟩ hn

theorem requestKeyframe_rests (h : m.Resting) (now : ℕ) (reason : UInt8) :
    Rests m (m.requestKeyframe now reason) := by
  have hne : m.state ≠ .streaming := by
    rw [h.state]
    exact nofun
  unfold requestKeyframe
  rw [if_pos hne]
  exact .refl h

/-! ### Control packets -/

/-- A `Pairing` message is answered. -/
def Answers (crypto : Crypto) (m : SessionModel) (pair : Pairing) : Prop :=
  pair.nonce.length = 32 ∧
    (pair.phase = 0 ∨
      (pair.phase = 1 ∧ ∃ trusted, m.trusted = some trusted ∧ trusted.hostID = m.hostID ∧
        m.transport.certificate ≠ [] ∧ m.Sends (⟨2, pair.nonce, TrustStore.proof crypto
          trusted.secret m.transport.certificate m.clientID pair.nonce 1, []⟩ : Pairing)) ∨
      (pair.phase = 3 ∧ m.host ≠ none ∧ pair.nonce = m.nonce ∧
        TrustStore.verify crypto pair.proof m.pairKey m.transport.certificate m.clientID m.nonce 2 ∧
          (m.pairingNew = true → pair.secret.length = 32)))

/-- A `VideoConfig` starts the stream. -/
def Configures (m : SessionModel) (config : VideoConfig) : Prop :=
  m.configured ∧ config.codec = 1 ∧ config.bitDepth = 8 ∧ config.colorSpace = 1 ∧
    320 ≤ config.width ∧ config.width ≤ 4094 ∧ 320 ≤ config.height ∧ config.height ≤ 4094 ∧
    config.width % 2 = 0 ∧ config.height % 2 = 0 ∧ 30 ≤ config.fps ∧ config.fps ≤ 60

/-- A packet in order, of the connection's session, that is answered or starts the stream. -/
def Acts (crypto : Crypto) (m : SessionModel) (p : Packet) : Prop :=
  p.sequence.toNat > m.lastSequence ∧ p.session = m.transport.session ∧
    ((p.kind = WireMessage.kind Pairing ∧ ∃ pair, p.message Pairing = .ok pair ∧
        m.Answers crypto pair) ∨
      (p.kind = WireMessage.kind VideoConfig ∧ ∃ config, p.message VideoConfig = .ok config ∧
        m.Configures config))

theorem reading_rests {T : Type} [WireMessage T] (h : m.Resting) {p : Packet} {k : T → Result}
    (hk : ∀ v, p.message T = .ok v → Rests m (k v).1) : Rests m (m.reading p k).1 := by
  unfold reading
  split
  · rename_i v hv
    exact hk v hv
  · exact .refl h

theorem sendProof_rests (h : m.Resting) (hn : m.transport.certificate ≠ [] →
    ¬ m.Sends (⟨2, m.nonce, TrustStore.proof crypto m.pairKey m.transport.certificate m.clientID
      m.nonce 1, []⟩ : Pairing)) : Rests m (m.sendProof crypto).1 := by
  unfold sendProof
  split
  · exact .refl h
  · rename_i hcertificate
    have hproved : Rests m { m with
        log := m.log ++ [Effect.proved m.pairKey m.transport.certificate m.clientID m.nonce] } := by
      refine ⟨⟨h.state, h.wantsConnection, h.idleTimer, h.reconnectTask, h.timeoutTask, h.timer⟩, _,
        rfl, fun x hx => ?_⟩
      rw [List.mem_singleton.1 hx]
      exact trivial
    exact hproved.trans (send_rests hproved.resting (hn (not_not.1 hcertificate).2))

theorem pairingPhase1_rests (h : m.Resting) {pair : Pairing} (hphase : pair.phase = 1)
    (hnonce : pair.nonce.length = 32) (hn : ¬ m.Answers crypto pair) :
    Rests m (m.pairingPhase1 crypto pair).1 := by
  unfold pairingPhase1
  split
  · exact .refl h
  · rename_i trusted htrusted
    split
    · exact .refl h
    · rename_i hid
      have hmid : Rests m { m with
          pairingNew := false, nonce := pair.nonce, pairKey := trusted.secret } := .same h rfl
      refine hmid.trans (sendProof_rests hmid.resting fun hcertificate hsends => hn ⟨hnonce, ?_⟩)
      exact .inr (.inl ⟨hphase, trusted, htrusted, not_not.1 hid, hcertificate, hsends⟩)

/-- A proof that is accepted is answered. -/
theorem pairingPhase3_rests (h : m.Resting) {pair : Pairing} (hphase : pair.phase = 3)
    (hnonce : pair.nonce.length = 32) (hn : ¬ m.Answers crypto pair) :
    Rests m (m.pairingPhase3 crypto env pair).1 := by
  have hanswers (host : DiscoveredHost) (hhost : m.host = some host)
      (hproof : pair.nonce = m.nonce ∧ TrustStore.verify crypto pair.proof m.pairKey
        m.transport.certificate m.clientID m.nonce 2)
      (hsecret : m.pairingNew = true → pair.secret.length = 32) : False := by
    have hhost' : m.host ≠ none := by
      rw [hhost]
      exact nofun
    exact hn ⟨hnonce, .inr (.inr ⟨hphase, hhost', hproof.1, hproof.2, hsecret⟩)⟩
  unfold pairingPhase3
  split
  · exact .refl h
  · rename_i host hhost
    split
    · exact .refl h
    · rename_i hproof
      split
      · split
        · exact .refl h
        · rename_i hsecret
          exact (hanswers host hhost (not_not.1 hproof) fun _ => not_not.1 hsecret).elim
      · rename_i hknown
        exact (hanswers host hhost (not_not.1 hproof) fun hnew => absurd hnew hknown).elim

theorem onPairing_rests (h : m.Resting) {pair : Pairing} (hn : ¬ m.Answers crypto pair) :
    Rests m (m.onPairing crypto env pair).1 := by
  unfold onPairing
  split
  · exact .refl h
  · rename_i hnonce
    have hnonce := not_not.1 hnonce
    split
    · rename_i hphase
      exact absurd ⟨hnonce, .inl hphase⟩ hn
    · split
      · rename_i hphase
        exact pairingPhase1_rests h hphase hnonce hn
      · split
        · rename_i hphase
          exact pairingPhase3_rests h hphase hnonce hn
        · exact .refl h

theorem dispatch_rests (h : m.Resting) {p : Packet}
    (hpairing : p.kind = WireMessage.kind Pairing → ∀ pair, p.message Pairing = .ok pair →
      ¬ m.Answers crypto pair)
    (hconfig : p.kind = WireMessage.kind VideoConfig → ∀ config, p.message VideoConfig = .ok config →
      ¬ m.Configures config) : Rests m (m.dispatch crypto env p).1 := by
  unfold dispatch
  split
  · refine reading_rests h fun v _ => ?_
    unfold onProtocolVersion
    split
    · exact .refl h
    · exact .refl h
  split
  · refine reading_rests h fun v _ => ?_
    unfold onHostInfo
    split
    · exact .same h rfl
    · exact .refl h
  split
  · rename_i hkind
    exact reading_rests h fun pair hpair => onPairing_rests h (hpairing hkind pair hpair)
  split
  · refine reading_rests h fun v _ => ?_
    unfold onSessionStart
    split
    · exact .same h rfl
    · exact .refl h
  split
  · refine reading_rests h fun v _ => ?_
    unfold onEncoderCapabilities
    split
    · exact .refl h
    · exact .refl h
  split
  · rename_i hkind
    refine reading_rests h fun config hv => ?_
    unfold onVideoConfig
    split
    · exact .refl h
    · rename_i hstarts
      exact absurd (not_not.1 hstarts) (hconfig hkind config hv)
  split
  · refine reading_rests h fun v _ => ?_
    unfold onPong
    split
    · exact .refl h
    · exact .refl h
  split
  · exact reading_rests h fun _ _ => .refl h
  · exact .refl h

theorem activateInput_rests (h : m.Resting) : Rests m (m.activateInput env) := by
  unfold activateInput
  split
  · exact .refl h
  · split
    · exact fail_rests h _
    · exact .same h rfl

/-- A packet that is neither answered nor starts the stream. -/
theorem packet_rests (h : m.Resting) {p : Packet} (hn : ¬ m.Acts crypto p) :
    Rests m (m.packet crypto env p).1 := by
  unfold packet
  split
  · exact .refl h
  · rename_i hsequence
    have hmid : Rests m { m with lastSequence := p.sequence.toNat } := .same h rfl
    dsimp only
    split
    · rename_i hkind
      have hother {T : Type} [WireMessage T] (hne : WireMessage.kind SessionStart ≠
          WireMessage.kind T) : p.kind ≠ WireMessage.kind T := fun heq => hne (hkind.symm.trans heq)
      split
      · exact hmid
      · have hsession : Rests m { m with
            lastSequence := p.sequence.toNat
            transport := { m.transport with session := p.session } } := .same h rfl
        have hinput := hsession.trans (@activateInput_rests _ env hsession.resting)
        refine hinput.trans (dispatch_rests hinput.resting (fun heq => ?_) fun heq => ?_)
        · exact absurd heq (hother (by decide))
        · exact absurd heq (hother (by decide))
    · split
      · exact hmid
      · rename_i hsession
        refine hmid.trans (dispatch_rests hmid.resting (fun hkind pair hpair hanswers => hn ?_)
          fun hkind config hconfig hstarts => hn ?_)
        · exact ⟨not_not.1 hsequence, not_not.1 hsession, .inl ⟨hkind, pair, hpair, hanswers⟩⟩
        · exact ⟨not_not.1 hsequence, not_not.1 hsession, .inr ⟨hkind, config, hconfig, hstarts⟩⟩

/-- None of the packets of a chunk is answered or starts the stream. -/
def Idles (crypto : Crypto) (env : Moment) : SessionModel → List Packet → Prop
  | _, [] => True
  | m, p :: ps => ¬ m.Acts crypto p ∧
      ∀ m', m.packet crypto env p = (m', .ok ()) → Idles crypto env m' ps

theorem packets_rests {ps : List Packet} (h : m.Resting) (hn : Idles crypto env m ps) :
    Rests m (packets crypto env m ps).1 := by
  induction ps generalizing m with
  | nil => exact .refl h
  | cons p ps ih =>
    obtain ⟨hacts, hrest⟩ := hn
    have hp := @packet_rests _ _ env h _ hacts
    unfold packets
    rcases hpacket : m.packet crypto env p with ⟨m', e | ⟨⟩⟩
    · rw [hpacket] at hp
      exact hp
    · rw [hpacket] at hp
      exact hp.trans (ih hp.resting (hrest m' hpacket))

/-! ### Callbacks -/

/-- Nothing that the user asks for. -/
def Late : Event → Prop
  | .connect _ => False
  | .pair _ => False
  | _ => True

/-- A late callback that is harmless: no packet is answered or starts the stream, and no
`Handshake` goes out. -/
def Harmless (crypto : Crypto) (m : SessionModel) (e : Moment × Event) : Prop :=
  Late e.2 ∧ match e.2 with
    | .controlReady => m.transport.control = true → m.transport.reading = false →
        ¬ m.Sends (⟨1, 1, 0, m.clientID, e.1.deviceName, if m.trusted = none then 0 else 1⟩ :
          Handshake)
    | .received (.ok ps) => m.transport.reading = true → Idles crypto e.1 m ps
    | _ => True

/-- What does not stream has nothing to stop. -/
theorem disconnect_rests (h : m.Resting) : Rests m m.disconnect := by
  have hne : ¬ m.state = .streaming := by
    rw [h.state]
    exact nofun
  unfold disconnect
  dsimp only
  rw [if_neg hne]
  refine .same h ?_
  rw [h.state, h.wantsConnection, h.idleTimer, h.reconnectTask, h.timeoutTask, h.timer]

theorem forgetHost_rests (h : m.Resting) : Rests m (m.forgetHost env) := by
  have hdone {m' : SessionModel} (hforgot : Rests m m') :
      Rests m { m'.disconnect with trusted := none } := by
    have hdisconnect := hforgot.trans (disconnect_rests hforgot.resting)
    exact hdisconnect.trans (.same hdisconnect.resting rfl)
  unfold forgetHost
  dsimp only
  split
  · refine hdone ⟨⟨h.state, h.wantsConnection, h.idleTimer, h.reconnectTask, h.timeoutTask,
      h.timer⟩, _, rfl, fun x hx => ?_⟩
    rw [List.mem_singleton.1 hx]
    exact trivial
  · exact hdone (.refl h)

theorem sceneActive_rests (h : m.Resting) (active : Bool) : Rests m (m.sceneActive env active) := by
  have hwants : ¬ m.wantsConnection = true := by
    rw [h.wantsConnection]
    exact Bool.false_ne_true
  unfold sceneActive
  dsimp only
  split
  · rw [if_neg fun hall => hwants hall.1]
    exact .same h rfl
  · refine .same h ?_
    rw [h.idleTimer, h.reconnectTask, h.timeoutTask, h.timer]

theorem verifyCertificate_rests (h : m.Resting) (certificate : Bytes) :
    Rests m (m.verifyCertificate crypto certificate) := by
  unfold verifyCertificate
  split
  · split
    · exact fail_rests h _
    · exact .same h rfl
  · exact .same h rfl

/-- A harmless callback leaves the session resting. -/
theorem step_rests (h : m.Resting) {e : Moment × Event} (hok : m.Harmless crypto e) :
    Rests m (m.step crypto e) := by
  have hne : m.state ≠ .streaming := by
    rw [h.state]
    exact nofun
  obtain ⟨env, e⟩ := e
  obtain ⟨hlate, hok⟩ := hok
  cases e with
  | connect host => exact hlate.elim
  | pair code => exact hlate.elim
  | disconnect => exact disconnect_rests h
  | forgetHost => exact forgetHost_rests h
  | input event =>
    show Rests m (ite _ _ _)
    rw [if_pos hne]
    exact .refl h
  | sceneActive active => exact sceneActive_rests h active
  | orientationChanged =>
    show Rests m (ite _ _ _)
    rw [if_pos hne]
    exact .refl h
  | certificate certificate =>
    show Rests m (ite _ _ _)
    split
    · exact verifyCertificate_rests h certificate
    · exact .refl h
  | groupReady =>
    show Rests m (ite _ _ _)
    split
    · exact .same h rfl
    · exact .refl h
  | controlReady =>
    show Rests m (ite _ _ _)
    split
    · rename_i hready
      have hmid : Rests m { m with transport := { m.transport with reading := true } } :=
        .same h rfl
      have hsends := hok hready.1 (Bool.eq_false_iff.2 hready.2)
      exact hmid.trans (catching_failed_rests (send_rests hmid.resting hsends))
    · exact .refl h
  | received result =>
    show Rests m (ite _ _ _)
    split
    · exact .refl h
    · rename_i hreading
      cases result with
      | error e => exact fail_rests h _
      | ok ps => exact catching_fail_rests (packets_rests h (hok (not_not.1 hreading)))
  | datagram data =>
    show Rests m (ite _ _ _)
    split
    · exact .refl h
    · split
      · exact fail_rests h _
      · unfold datagram
        rw [if_pos hne]
        exact .refl h
  | sendCompleted => exact .same h rfl
  | transportFailed =>
    show Rests m (ite _ _ _)
    split
    · exact fail_rests h _
    · exact .refl h
  | decoded index ok =>
    have hmid : Rests m { m with decoder := (m.decoder.completed index ok).1 } := .same h rfl
    show Rests m (if (m.decoder.completed index ok).2 = true then requestKeyframe _ _ _ else _)
    split
    · exact hmid.trans (requestKeyframe_rests hmid.resting _ _)
    · exact hmid
  | tick =>
    show Rests m (ite _ _ _)
    rw [h.timer, if_neg Bool.false_ne_true]
    exact .refl h
  | graceElapsed =>
    show Rests m (ite _ _ _)
    split
    · exact .same h rfl
    · exact .refl h
  | reconnectDue =>
    show Rests m (ite _ _ _)
    rw [h.reconnectTask, if_neg Bool.false_ne_true]
    exact .refl h
  | timeoutDue =>
    show Rests m (ite _ _ _)
    rw [h.timeoutTask, if_neg Bool.false_ne_true]
    exact .refl h

theorem run_rests {es : List (Moment × Event)} (h : m.Resting)
    (hrun : Along (step crypto) (Harmless crypto) m es) : Rests m (es.foldl (step crypto) m) := by
  induction es generalizing m with
  | nil => exact .refl h
  | cons e es ih =>
    have he := step_rests h hrun.1
    exact he.trans (ih he.resting hrun.2)

/-- What a session that has given up the connection sends, whether or not it goes out. -/
theorem send_stopped {T : Type} [WireMessage T] (hwants : m.wantsConnection = false) (message : T) :
    ((m.send message false).1.wantsConnection, (m.send message false).1.reconnectTask,
      (m.send message false).1.timeoutTask, (m.send message false).1.timer) =
        (m.wantsConnection, m.reconnectTask, m.timeoutTask, m.timer) ∧
      ∃ l, (m.send message false).1.log = m.log ++ l ∧
        ∀ x ∈ l, ∃ n session, x = .sent false (Packet.new message n session) := by
  have hnothing {m' : SessionModel} (hlog : m'.log = m.log) : ∃ l, m'.log = m.log ++ l ∧
      ∀ x ∈ l, ∃ n session, x = Effect.sent false (Packet.new message n session) :=
    ⟨[], hlog.trans (List.append_nil _).symm, nofun⟩
  unfold send
  simp only [Bool.false_eq_true, if_false]
  split
  · exact ⟨rfl, hnothing rfl⟩
  split
  · have hn : ¬ ({ m with transport := m.transport.close } : SessionModel).wantsConnection = true := by
      rw [hwants]
      exact Bool.false_ne_true
    unfold fail failed
    rw [if_pos hn]
    exact ⟨rfl, hnothing rfl⟩
  split
  · exact ⟨rfl, hnothing rfl⟩
  · refine ⟨rfl, _, rfl, fun x hx => ?_⟩
    exact ⟨_, _, List.mem_singleton.1 hx⟩

/-- `disconnect` sends at most the `SessionStop`. -/
theorem disconnect_resting (m : SessionModel) : m.disconnect.Resting ∧
    ∃ l, m.disconnect.log = m.log ++ l ∧ ∀ x ∈ l, ∃ n session,
      x = .sent false (Packet.new (⟨0⟩ : SessionStop) n session) := by
  have hsend := send_stopped (m := { m with
    wantsConnection := false, reconnectTask := false, timeoutTask := false, timer := false }) rfl
    (⟨0⟩ : SessionStop)
  unfold disconnect
  dsimp only
  split
  · generalize send _ (⟨0⟩ : SessionStop) false = r at hsend ⊢
    obtain ⟨hfields, hlog⟩ := hsend
    simp only [Prod.mk.injEq] at hfields
    obtain ⟨hwants, hreconnect, htimeout, htimer⟩ := hfields
    obtain ⟨m', e | ⟨⟩⟩ := r
    · exact ⟨⟨rfl, hwants, rfl, hreconnect, htimeout, htimer⟩, hlog⟩
    · exact ⟨⟨rfl, hwants, rfl, hreconnect, htimeout, htimer⟩, hlog⟩
  · exact ⟨⟨rfl, rfl, rfl, rfl, rfl, rfl⟩, [], (List.append_nil _).symm, nofun⟩

/-- What a disconnect promises of the session behind it. -/
structure Final (m m' : SessionModel) : Prop where
  state : m'.state = .idle
  idleTimer : m'.idleTimerDisabled = false
  log : ∃ l, m'.log = m.log ++ l ∧ ∀ x ∈ l, x.Silent

/-- **A disconnect is final** as long as no packet is answered or starts the stream, and no
`Handshake` goes out, before the transport is closed. -/
theorem disconnect_final (crypto : Crypto) (m : SessionModel) {es : List (Moment × Event)}
    (hrun : Along (step crypto) (Harmless crypto) m.disconnect es) :
    m.disconnect.Final (es.foldl (step crypto) m.disconnect) ∧
      ∃ l, m.disconnect.log = m.log ++ l ∧ ∀ x ∈ l, ∃ n session,
        x = .sent false (Packet.new (⟨0⟩ : SessionStop) n session) := by
  obtain ⟨hresting, hstop⟩ := disconnect_resting m
  have hrests := run_rests hresting hrun
  exact ⟨⟨hrests.resting.state, hrests.resting.idleTimer, hrests.log⟩, hstop⟩

/-- A stream is running. -/
def streaming : SessionModel := streamEvents.foldl (step .sample) streamSession

/-- What still arrives of it: the answer to a ping, and the end of the grace period. -/
def lateEvents : List (Moment × Event) :=
  [({}, .tick), ({}, .received (.ok [.new (⟨0, 0, 0⟩ : Pong) 6 (List.replicate 16 4)])),
    ({}, .graceElapsed)]

/-- The hypothesis of `disconnect_final` is satisfiable. -/
theorem disconnect_final_sample :
    streaming.disconnect.Final (lateEvents.foldl (step .sample) streaming.disconnect) := by
  have hacts (m : SessionModel) :
      ¬ m.Acts .sample (.new (⟨0, 0, 0⟩ : Pong) 6 (List.replicate 16 4)) := by
    rintro ⟨-, -, ⟨hkind, -⟩ | ⟨hkind, -⟩⟩
    · exact absurd hkind (by decide)
    · exact absurd hkind (by decide)
  have hrun : Along (step .sample) (Harmless .sample) streaming.disconnect lateEvents :=
    ⟨⟨trivial, trivial⟩, ⟨trivial, fun _ => ⟨hacts _, fun _ _ => trivial⟩⟩, ⟨trivial, trivial⟩,
      trivial⟩
  exact (disconnect_final .sample streaming hrun).1

/-- The host has built another encoder, and its configuration arrives 50 ms behind the
disconnect; the grace period ends. -/
def undoneEvents : List (Moment × Event) :=
  [({ now := 2050000 }, .received (.ok
      [.new (⟨2, 1, 1280, 720, 60, 8, 1, []⟩ : VideoConfig) 6 (List.replicate 16 4)])),
    ({ now := 2200000 }, .graceElapsed)]

/-- The property fails for a `VideoConfig` that arrives in the grace period: the session streams
for good, and the device stays awake. -/
theorem disconnect_undone : ¬ ∀ (crypto : Crypto) (m : SessionModel) (es : List (Moment × Event)),
    Reaches (step crypto) Initial (fun _ _ => True) m → (∀ e ∈ es, Late e.2) →
      m.disconnect.Final (es.foldl (step crypto) m.disconnect) := by
  intro h
  have hstreaming : Along (step .sample) (fun _ _ => True) streamSession streamEvents :=
    ⟨trivial, trivial, trivial, trivial, trivial, trivial⟩
  have hlate : ∀ e ∈ undoneEvents, Late e.2 := by
    intro e he
    simp only [undoneEvents, List.mem_cons, List.not_mem_nil, or_false] at he
    rcases he with rfl | rfl
    · exact trivial
    · exact trivial
  have hfinal := h .sample streaming undoneEvents
    ((Reaches.init streamSession_initial).along hstreaming) hlate
  have hstate : (undoneEvents.foldl (step .sample) streaming.disconnect).state = .streaming := by
    decide +kernel
  cases hstate.symm.trans hfinal.state

end SessionModel
end Ipad
end SidecarDOS
