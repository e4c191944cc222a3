/-
# What a callback does to the credentials

Most methods of `SessionModel` neither read nor write what pairing is about: the
saved hosts, the key, the nonce and the flags of `Credentials`.  They are
`Quiet`: they keep the credentials, stay on the connection or close it, and send
messages that belong to neither pairing nor configuration.  `step_cases` says
what is left: a connection is opened, the host is forgotten, a code is entered,
a certificate is verified, or control packets are received.  `packet_cases` and
`onPairing_cases` go on from there.
-/

import SidecarDOS.Client.SessionModel

namespace SidecarDOS
namespace Ipad

open Library (Format toLE ofLE length_toLE ofLE_toLE_of_lt)

/-- What pairing reads and writes. -/
structure Credentials where
  keychain : String → Option TrustedHost
  host : Option DiscoveredHost
  trusted : Option TrustedHost
  clientID : Bytes
  nonce : Bytes
  pairKey : Bytes
  pairingNew : Bool
  configured : Bool

def SessionModel.credentials (m : SessionModel) : Credentials :=
  ⟨m.keychain, m.host, m.trusted, m.clientID, m.nonce, m.pairKey, m.pairingNew, m.configured⟩

/-- The connection is still the same one, or it is closed. -/
def Transport.Line (t t' : Transport) : Prop :=
  (t'.epoch = t.epoch ∧ t'.certificate = t.certificate ∧ t'.group = t.group) ∨
    (t.epoch < t'.epoch ∧ t'.certificate = [] ∧ t'.group = false)

namespace Transport.Line

variable {t t' t'' : Transport}

theorem refl (t : Transport) : t.Line t := .inl ⟨rfl, rfl, rfl⟩

theorem close (t : Transport) : t.Line t.close := .inr ⟨Nat.lt_succ_self _, rfl, rfl⟩

theorem trans (h : t.Line t') (h' : t'.Line t'') : t.Line t'' := by
  obtain ⟨h₁, h₂, h₃⟩ | ⟨h₁, h₂, h₃⟩ := h
  · obtain ⟨h₁', h₂', h₃'⟩ | ⟨h₁', h₂', h₃'⟩ := h'
    · exact .inl ⟨h₁'.trans h₁, h₂'.trans h₂, h₃'.trans h₃⟩
    · exact .inr ⟨by omega, h₂', h₃'⟩
  · obtain ⟨h₁', h₂', h₃'⟩ | ⟨h₁', h₂', h₃'⟩ := h'
    · exact .inr ⟨by omega, h₂'.trans h₂, h₃'.trans h₃⟩
    · exact .inr ⟨by omega, h₂', h₃'⟩

theorem epoch_le (h : t.Line t') : t.epoch ≤ t'.epoch := by
  obtain ⟨h, -⟩ | ⟨h, -⟩ := h <;> omega

end Transport.Line

/-- If the packet is a handshake, it gives this id of the client. -/
def Packet.Introduces (clientID : Bytes) (p : Packet) : Prop :=
  ∀ hello : Handshake, p.message Handshake = .ok hello → clientID.length = 16 →
    hello.clientId = clientID

theorem Packet.introduces_of_kind {clientID : Bytes} {p : Packet}
    (h : p.kind ≠ WireMessage.kind Handshake) : p.Introduces clientID :=
  fun _ hello => absurd (message_eq_ok.1 hello).1 h

theorem Packet.introduces_new (hello : Handshake) (sequence : UInt64) (session : Bytes) :
    (new hello sequence session).Introduces hello.clientId := by
  intro hello' h hlen
  obtain ⟨-, ⟨-, -, -, hvalid, -⟩, hbody⟩ := message_eq_ok.1 h
  rw [new_message] at hbody
  -- Behind the three version bytes stands the id with its length.
  obtain ⟨-, hbody⟩ := List.append_inj hbody rfl
  obtain ⟨-, hbody⟩ := List.append_inj hbody rfl
  obtain ⟨-, hbody⟩ := List.append_inj hbody rfl
  have hput : ∀ v : Bytes, Schema.bytes.put v = toLE 4 v.length ++ v := fun _ => rfl
  simp only [Format.put_field, hput, List.append_assoc] at hbody
  obtain ⟨hlength, hbody⟩ := List.append_inj hbody (by rw [length_toLE, length_toLE])
  have heq : hello.clientId.length = hello'.clientId.length := by
    have h := congrArg ofLE hlength
    rwa [ofLE_toLE_of_lt (by omega), ofLE_toLE_of_lt (lt_of_le_of_lt hvalid (by decide))] at h
  exact (List.append_inj hbody heq).1.symm

/-- A message that belongs to neither pairing nor configuration was sent. -/
def Effect.Plain (clientID : Bytes) : Effect → Prop
  | .sent _ p => p.kind ≠ WireMessage.kind Pairing ∧
      p.kind ≠ WireMessage.kind DisplayCapabilities ∧ p.Introduces clientID
  | _ => False

namespace SessionModel

variable {crypto : Crypto} {m m' m'' : SessionModel}

structure Quiet (m m' : SessionModel) : Prop where
  credentials : m'.credentials = m.credentials
  line : m.transport.Line m'.transport
  log : ∃ l, m'.log = m.log ++ l ∧ ∀ x ∈ l, x.Plain m.clientID

namespace Quiet

theorem of (hc : m'.credentials = m.credentials) (ht : m.transport.Line m'.transport)
    (hl : m'.log = m.log) : Quiet m m' :=
  ⟨hc, ht, [], by rw [hl, List.append_nil], fun _ hx => absurd hx List.not_mem_nil⟩

/-- Other fields were assigned. -/
theorem same (hc : m'.credentials = m.credentials) (ht : m'.transport = m.transport)
    (hl : m'.log = m.log) : Quiet m m' :=
  of hc (ht ▸ .refl _) hl

theorem refl (m : SessionModel) : Quiet m m := same rfl rfl rfl

theorem trans (h : Quiet m m') (h' : Quiet m' m'') : Quiet m m'' := by
  obtain ⟨l, hl, hplain⟩ := h.log
  obtain ⟨l', hl', hplain'⟩ := h'.log
  refine ⟨h'.credentials.trans h.credentials, h.line.trans h'.line, l ++ l', ?_, fun x hx => ?_⟩
  · rw [hl', hl, List.append_assoc]
  · obtain hx | hx := List.mem_append.1 hx
    · exact hplain x hx
    · have hid : m'.clientID = m.clientID := congrArg Credentials.clientID h.credentials
      exact hid ▸ hplain' x hx

/-- Other fields were assigned before. -/
theorem after (h : Quiet m' m'') (hc : m'.credentials = m.credentials)
    (ht : m.transport.Line m'.transport) (hl : m'.log = m.log) : Quiet m m'' :=
  (of hc ht hl).trans h

/-- What follows a call that may throw. -/
theorem andThen {r : Result} {k : SessionModel → Result} (h : Quiet m r.1)
    (hk : ∀ m', Quiet m' (k m').1) : Quiet m (r.andThen k).1 := by
  obtain ⟨m', ⟨⟩ | e⟩ := r
  · exact h
  · exact h.trans (hk _)

theorem catching {r : Result} {handle : SessionModel → Failure → SessionModel} (h : Quiet m r.1)
    (hk : ∀ m' e, Quiet m' (handle m' e)) : Quiet m (r.catching handle) := by
  obtain ⟨m', e | ⟨⟩⟩ := r
  · exact h.trans (hk _ _)
  · exact h

end Quiet

theorem failed_quiet (m : SessionModel) (e : Failure) : Quiet m (m.failed e) := by
  rw [failed]
  split
  · exact .of rfl (.close _) rfl
  · dsimp only
    split
    · exact .of rfl (.close _) rfl
    · exact .of rfl (.close _) rfl

theorem fail_quiet (m : SessionModel) (e : Failure) : Quiet m (m.fail e) :=
  .after (failed_quiet _ e) rfl (.close _) rfl

/-- What `send` does: it keeps the credentials, and it has written one packet or it throws. -/
theorem send_cases {T : Type} [WireMessage T] (m : SessionModel) (message : T) (isInput : Bool) :
    Quiet m (m.send message isInput).1 ∧ (m.send message isInput).2 ≠ .ok () ∨
      ∃ n t, m.transport.Line t ∧ t.epoch = m.transport.epoch ∧ m.send message isInput =
        ({ m with
          transport := t
          log := m.log ++ [Effect.sent isInput (Packet.new message n m.transport.session)] },
          .ok ()) := by
  cases isInput <;> simp only [send, Bool.false_eq_true, if_true, if_false]
  all_goals
    split
    · exact .inl ⟨.refl m, nofun⟩
    split
    · exact .inl ⟨fail_quiet m _, nofun⟩
    split
    · exact .inl ⟨.of rfl (.inl ⟨rfl, rfl, rfl⟩) rfl, nofun⟩
    · refine .inr ⟨_, _, ?_, ?_, rfl⟩
      · exact .inl ⟨rfl, rfl, rfl⟩
      · rfl

theorem send_quiet {T : Type} [WireMessage T] (m : SessionModel) (message : T) (isInput : Bool)
    (hpairing : WireMessage.kind T ≠ WireMessage.kind Pairing)
    (hcaps : WireMessage.kind T ≠ WireMessage.kind DisplayCapabilities)
    (hid : ∀ n session, (Packet.new message n session).Introduces m.clientID) :
    Quiet m (m.send message isInput).1 := by
  obtain ⟨h, -⟩ | ⟨n, t, hline, -, h⟩ := m.send_cases message isInput
  · exact h
  · rw [h]
    refine ⟨rfl, hline, _, rfl, fun x hx => ?_⟩
    rw [List.mem_singleton.1 hx]
    exact ⟨hpairing, hcaps, hid _ _⟩

/-- A message that is no handshake either. -/
theorem send_plain {T : Type} [WireMessage T] (m : SessionModel) (message : T) (isInput : Bool)
    (h : WireMessage.kind T ≠ WireMessage.kind Pairing ∧
      WireMessage.kind T ≠ WireMessage.kind DisplayCapabilities ∧
      WireMessage.kind T ≠ WireMessage.kind Handshake) :
    Quiet m (m.send message isInput).1 :=
  send_quiet m message isInput h.1 h.2.1 fun _ _ => Packet.introduces_of_kind h.2.2

theorem requestKeyframe_quiet (m : SessionModel) (now : ℕ) (reason : UInt8) :
    Quiet m (m.requestKeyframe now reason) := by
  unfold requestKeyframe
  split
  · exact .refl m
  · split
    · exact .refl m
    · exact .catching (.after (send_plain _ _ _ (by decide)) rfl (.refl _) rfl) failed_quiet

theorem decode_quiet (env : Moment) (m : SessionModel) (frame : ReceivedFrame × ℕ) :
    Quiet m (m.decode env frame) := by
  unfold decode
  dsimp only
  split
  · exact .after (requestKeyframe_quiet _ _ _) rfl (.refl _) rfl
  · exact .same rfl rfl rfl

theorem foldl_decode_quiet (env : Moment) : ∀ (frames : List (ReceivedFrame × ℕ))
    (m : SessionModel), Quiet m (frames.foldl (decode env) m)
  | [], m => .refl m
  | frame :: frames, m => (decode_quiet env m frame).trans (foldl_decode_quiet env frames _)

theorem consumeFrames_quiet (m : SessionModel) (env : Moment) : Quiet m (m.consumeFrames env) := by
  unfold consumeFrames
  dsimp only
  have h : Quiet m (((m.assembler.expire env.now).drain env.now).2.zipIdx.foldl (decode env)
      { m with assembler := ((m.assembler.expire env.now).drain env.now).1 }) :=
    .after (foldl_decode_quiet env _ _) rfl (.refl _) rfl
  split
  · exact h.trans (requestKeyframe_quiet _ _ _)
  · exact h

theorem ready_quiet (m : SessionModel) (env : Moment) : Quiet m (m.ready env) :=
  .catching (send_quiet _ _ _ (by decide) (by decide) (Packet.introduces_new _)) failed_quiet

theorem activateInput_quiet (m : SessionModel) (env : Moment) : Quiet m (m.activateInput env) := by
  unfold activateInput
  split
  · exact .refl m
  · split
    · exact fail_quiet m _
    · exact .of rfl (.inl ⟨rfl, rfl, rfl⟩) rfl

theorem reading_quiet {T : Type} [WireMessage T] (m : SessionModel) (p : Packet) {k : T → Result}
    (hk : ∀ v, Quiet m (k v).1) : Quiet m (m.reading p k).1 := by
  unfold reading
  split
  · exact hk _
  · exact .refl m

/-- The packets other than those of pairing. -/
theorem dispatch_quiet (m : SessionModel) (env : Moment) (p : Packet)
    (hp : p.kind ≠ WireMessage.kind Pairing) : Quiet m (m.dispatch crypto env p).1 := by
  unfold dispatch
  rw [if_neg hp]
  split
  · refine reading_quiet m p fun v => ?_
    unfold onProtocolVersion
    split <;> exact .refl m
  split
  · refine reading_quiet m p fun v => ?_
    unfold onHostInfo
    split
    · exact .same rfl rfl rfl
    · exact .refl m
  split
  · refine reading_quiet m p fun v => ?_
    unfold onSessionStart
    split
    · exact .same rfl rfl rfl
    · exact .refl m
  split
  · refine reading_quiet m p fun v => ?_
    unfold onEncoderCapabilities
    split <;> exact .refl m
  split
  · refine reading_quiet m p fun v => ?_
    unfold onVideoConfig
    split
    · exact .refl m
    · dsimp only
      exact .after (requestKeyframe_quiet _ _ _) rfl (.refl _) rfl
  split
  · refine reading_quiet m p fun v => ?_
    unfold onPong
    split <;> exact .refl m
  split
  · exact reading_quiet m p fun v => .refl m
  · exact .refl m

theorem datagram_quiet (m : SessionModel) (env : Moment) (data : Bytes) :
    Quiet m (m.datagram env data).1 := by
  unfold datagram
  split
  · exact .refl m
  split
  · exact .refl m
  split
  · exact .refl m
  split
  · exact .refl m
  split
  · exact .refl m
  split
  · exact .same rfl rfl rfl
  · exact .after (consumeFrames_quiet _ env) rfl (.refl _) rfl

theorem tick_quiet (m : SessionModel) (env : Moment) : Quiet m (m.tick env) := by
  unfold tick
  split
  · exact .refl m
  · dsimp only
    split
    · exact consumeFrames_quiet m env
    · refine .trans (consumeFrames_quiet m env) (.trans ?_
        (show Quiet (Result.catching _ failed) _ from .same rfl rfl rfl))
      exact .catching (.andThen (send_plain _ _ _ (by decide)) fun m' =>
        send_plain m' _ _ (by decide)) failed_quiet

theorem input_quiet (m : SessionModel) (e : InputEvent) : Quiet m (m.input e) := by
  unfold input
  split
  · exact .refl m
  · exact .catching (send_plain _ _ _ (by decide)) failed_quiet

theorem disconnect_quiet (m : SessionModel) : Quiet m m.disconnect := by
  have h := send_plain { m with
    wantsConnection := false, reconnectTask := false, timeoutTask := false, timer := false }
    (⟨0⟩ : SessionStop) false (by decide)
  unfold disconnect
  dsimp only
  split
  · refine .trans (.after (h.catching fun m' _ => .refl m') rfl (.refl _) rfl) (.of rfl ?_ rfl)
    exact .inl ⟨rfl, rfl, rfl⟩
  · exact .of rfl (.inl ⟨rfl, rfl, rfl⟩) rfl

theorem orientationChanged_quiet (m : SessionModel) (env : Moment) :
    Quiet m (m.orientationChanged env) := by
  unfold orientationChanged
  split
  · exact .refl m
  · split
    · exact failed_quiet m _
    · exact .refl m

/-! ### The callbacks that are not quiet -/

/-- A connection was opened, with what the keychain holds for the host. -/
structure Opened (m m' : SessionModel) : Prop where
  credentials : ∃ host, m.host = some host ∧ m'.credentials =
    { m.credentials with trusted := m.keychain host.id, configured := false }
  epoch : m.transport.epoch < m'.transport.epoch
  certificate : m'.transport.certificate = []
  log : m'.log = m.log

theorem openConnection_cases (m : SessionModel) (env : Moment) :
    Quiet m (m.openConnection env) ∨ Opened m (m.openConnection env) := by
  unfold openConnection
  split
  · exact .inl (.refl m)
  split
  · exact .inl (.refl m)
  rename_i host hhost
  split
  · exact .inl (failed_quiet m _)
  · exact .inr ⟨⟨host, hhost, rfl⟩, Nat.lt_succ_self _, rfl, rfl⟩

/-- The callback calls `open()`. -/
def Opens (m : SessionModel) : Event → Prop
  | .connect _ => True
  | .sceneActive active => active ∧ m.wantsConnection ∧ m.state ≠ .streaming ∧
      m.state ≠ .connecting ∧ m.state ≠ .pairing
  | .reconnectDue => m.reconnectTask
  | _ => False

/-- What `forgetHost` leaves. -/
structure Forgot (m m' : SessionModel) : Prop where
  credentials : ∃ keychain, m'.credentials =
    { m.credentials with keychain := keychain, trusted := none } ∧ (keychain = m.keychain ∨
      ∃ host, m.host = some host ∧ keychain = Function.update m.keychain host.id none)
  line : m.transport.Line m'.transport
  log : ∃ l, m'.log = m.log ++ l ∧ ∀ x ∈ l, x.Plain m.clientID ∨ ∃ key, x = .forgot key

theorem forgetHost_forgot (m : SessionModel) (env : Moment) : Forgot m (m.forgetHost env) := by
  unfold forgetHost
  dsimp only
  split
  · rename_i host hhost
    generalize hkeychain : (if env.keychain = true then Function.update m.keychain host.id none
      else m.keychain) = keychain
    obtain ⟨hc, hline, l, hl, hplain⟩ := disconnect_quiet { m with
      keychain := keychain
      log := m.log ++ [Effect.forgot host.id] }
    refine ⟨⟨keychain, congrArg (fun c : Credentials => { c with trusted := none }) hc, ?_⟩, hline,
      .forgot host.id :: l, ?_, fun x hx => ?_⟩
    · split at hkeychain
      · exact .inr ⟨host, hhost, hkeychain.symm⟩
      · exact .inl hkeychain.symm
    · dsimp only
      rw [hl, List.append_assoc, List.singleton_append]
    · obtain rfl | hx := List.mem_cons.1 hx
      · exact .inr ⟨_, rfl⟩
      · exact .inl (hplain x hx)
  · obtain ⟨hc, hline, l, hl, hplain⟩ := disconnect_quiet m
    exact ⟨⟨m.keychain, congrArg (fun c : Credentials => { c with trusted := none }) hc, .inl rfl⟩,
      hline, l, hl, fun x hx => .inl (hplain x hx)⟩

/-- What one callback does. -/
inductive Callback (crypto : Crypto) (m : SessionModel) (e : Moment × Event)
    (m' : SessionModel) : Prop where
  | quiet (h : Quiet m m')
  | opened (prior : SessionModel) (host : Option DiscoveredHost) (hopens : m.Opens e.2)
    (hprior : Quiet m prior) (hhost : host = prior.host ∨ ∃ h, e.2 = .connect h ∧ host = some h)
    (h : m' = { prior with host := host }.openConnection e.1)
  | forgot (he : e.2 = .forgetHost) (h : Forgot m m')
  | paired (code : String) (he : e.2 = .pair code) (h : m' = (m.pairing crypto code).1)
  | verified (certificate : Bytes) (he : e.2 = .certificate certificate)
    (hgroup : m.transport.group = true) (hempty : m.transport.certificate = [])
    (h : m' = { m with transport := { m.transport with certificate := certificate } })
  | received (ps : List Packet) (he : e.2 = .received (.ok ps))
    (hreading : m.transport.reading = true) (h : m' = (packets crypto e.1 m ps).catching fail)

theorem connect_callback (m : SessionModel) (env : Moment) (host : DiscoveredHost) :
    Callback crypto m (env, .connect host) (m.connect env host) := by
  unfold connect
  dsimp only
  split
  · exact .quiet (disconnect_quiet m)
  · exact .opened { m.disconnect with
      wantsConnection := true, foreground := true, reconnectAttempt := 0 } (some host) trivial
      ((disconnect_quiet m).trans (.same rfl rfl rfl)) (.inr ⟨host, rfl, rfl⟩) rfl

theorem sceneActive_callback (m : SessionModel) (env : Moment) (active : Bool) :
    Callback crypto m (env, .sceneActive active) (m.sceneActive env active) := by
  unfold sceneActive
  dsimp only
  split
  · rename_i hactive
    split
    · rename_i h
      exact .opened { m with foreground := active, reconnectAttempt := 0 } m.host ⟨hactive, h⟩
        (.same rfl rfl rfl) (.inl rfl) rfl
    · exact .quiet (.same rfl rfl rfl)
  · split
    · exact .quiet (.of rfl (.close _) rfl)
    · exact .quiet (.of rfl (.close _) rfl)

theorem certificate_callback (m : SessionModel) (env : Moment) (certificate : Bytes)
    (hgroup : m.transport.group = true) (hempty : m.transport.certificate = []) :
    Callback crypto m (env, .certificate certificate) (m.verifyCertificate crypto certificate) := by
  unfold verifyCertificate
  split
  · split
    · exact .quiet (fail_quiet m _)
    · exact .verified certificate rfl hgroup hempty rfl
  · exact .verified certificate rfl hgroup hempty rfl

theorem step_cases (crypto : Crypto) (m : SessionModel) (e : Moment × Event) :
    Callback crypto m e (step crypto m e) := by
  obtain ⟨env, event⟩ := e
  cases event with
  | connect host => exact connect_callback m env host
  | disconnect => exact .quiet (disconnect_quiet m)
  | forgetHost => exact .forgot rfl (forgetHost_forgot m env)
  | pair code => exact .paired code rfl rfl
  | input event => exact .quiet (input_quiet m event)
  | sceneActive active => exact sceneActive_callback m env active
  | orientationChanged => exact .quiet (orientationChanged_quiet m env)
  | certificate certificate =>
    dsimp only [step]
    split
    · rename_i h
      exact certificate_callback m env certificate h.1 h.2
    · exact .quiet (.refl m)
  | groupReady =>
    dsimp only [step]
    split
    · exact .quiet (.of rfl (.inl ⟨rfl, rfl, rfl⟩) rfl)
    · exact .quiet (.refl m)
  | controlReady =>
    dsimp only [step]
    split
    · exact .quiet (.after (ready_quiet _ env) rfl (.inl ⟨rfl, rfl, rfl⟩) rfl)
    · exact .quiet (.refl m)
  | received result =>
    dsimp only [step]
    split
    · exact .quiet (.refl m)
    · rename_i h
      cases result with
      | ok ps => exact .received ps rfl (by simpa using h) rfl
      | error error => exact .quiet (fail_quiet m _)
  | datagram data =>
    dsimp only [step]
    split
    · exact .quiet (.refl m)
    split
    · exact .quiet (fail_quiet m _)
    · exact .quiet ((datagram_quiet m env data).catching fail_quiet)
  | sendCompleted => exact .quiet (.of rfl (.inl ⟨rfl, rfl, rfl⟩) rfl)
  | transportFailed =>
    dsimp only [step]
    split
    · exact .quiet (fail_quiet m _)
    · exact .quiet (.refl m)
  | decoded index ok =>
    dsimp only [step]
    split
    · exact .quiet (.after (requestKeyframe_quiet _ _ _) rfl (.refl _) rfl)
    · exact .quiet (.same rfl rfl rfl)
  | tick =>
    dsimp only [step]
    split
    · exact .quiet (tick_quiet m env)
    · exact .quiet (.refl m)
  | graceElapsed =>
    dsimp only [step]
    split
    · exact .quiet (.of rfl (.close _) rfl)
    · exact .quiet (.refl m)
  | reconnectDue =>
    dsimp only [step]
    split
    · rename_i h
      exact .opened { m with reconnectTask := false } m.host h (.same rfl rfl rfl) (.inl rfl) rfl
    · exact .quiet (.refl m)
  | timeoutDue =>
    dsimp only [step]
    split
    · split
      · exact .quiet (.same rfl rfl rfl)
      · exact .quiet (.after (failed_quiet _ _) rfl (.refl _) rfl)
    · exact .quiet (.refl m)

/-! ### Control packets -/

/-- What one control packet does: all but those of pairing are quiet. -/
theorem packet_cases (crypto : Crypto) (m : SessionModel) (env : Moment) (p : Packet) :
    Quiet m (m.packet crypto env p).1 ∨ ∃ pair, p.message Pairing = .ok pair ∧
      m.packet crypto env p =
        { m with lastSequence := p.sequence.toNat }.onPairing crypto env pair := by
  have hkinds : (WireMessage.kind SessionStart) ≠ WireMessage.kind Pairing := by decide
  unfold packet
  split
  · exact .inl (.refl m)
  dsimp only
  split
  · rename_i hstart
    split
    · exact .inl (.same rfl rfl rfl)
    · have hdispatch (m' : SessionModel) : Quiet m' (m'.dispatch crypto env p).1 :=
        dispatch_quiet m' env p (by rwa [hstart])
      exact .inl (.after ((activateInput_quiet _ env).trans (hdispatch _)) rfl
        (.inl ⟨rfl, rfl, rfl⟩) rfl)
  split
  · exact .inl (.same rfl rfl rfl)
  by_cases hp : p.kind = WireMessage.kind Pairing
  · cases hmsg : p.message Pairing with
    | ok pair =>
      refine .inr ⟨pair, rfl, ?_⟩
      simp only [dispatch, hp, reading, hmsg]
      rfl
    | error e =>
      refine .inl ?_
      simp only [dispatch, hp, reading, hmsg]
      exact .same rfl rfl rfl
  · exact .inl (.after (dispatch_quiet _ env p hp) rfl (.refl _) rfl)

/-- `sendProof` at work: the proof is computed, and its message is sent unless the
transport refuses. -/
structure Proved (crypto : Crypto) (m m' : SessionModel) : Prop where
  credentials : m'.credentials = m.credentials
  line : m.transport.Line m'.transport
  log : ∃ l, m'.log = m.log ++ l ∧ ∀ x ∈ l, x.Plain m.clientID ∨
    (m.nonce.length = 32 ∧ m.transport.certificate ≠ []) ∧
      (x = .proved m.pairKey m.transport.certificate m.clientID m.nonce ∨
        ∃ n, x = .sent false (Packet.new (⟨2, m.nonce,
          TrustStore.proof crypto m.pairKey m.transport.certificate m.clientID m.nonce 1, []⟩ :
            Pairing) n m.transport.session))

theorem sendProof_proved (crypto : Crypto) (m : SessionModel) :
    Proved crypto m (m.sendProof crypto).1 := by
  unfold sendProof
  split
  · exact ⟨rfl, .refl _, [], (List.append_nil _).symm, fun _ hx => absurd hx List.not_mem_nil⟩
  · rename_i hguard
    rw [not_not] at hguard
    dsimp only
    generalize hmsg : (⟨2, m.nonce, TrustStore.proof crypto m.pairKey m.transport.certificate
      m.clientID m.nonce 1, []⟩ : Pairing) = msg
    obtain ⟨⟨hc, hline, l, hl, hplain⟩, -⟩ | ⟨n, t, hline, -, h⟩ := send_cases { m with
      log := m.log ++ [.proved m.pairKey m.transport.certificate m.clientID m.nonce] } msg false
    · refine ⟨hc, hline, _ :: l, hl.trans (List.append_assoc ..), fun x hx => ?_⟩
      obtain rfl | hx := List.mem_cons.1 hx
      · exact .inr ⟨hguard, .inl rfl⟩
      · exact .inl (hplain x hx)
    · rw [h]
      refine ⟨rfl, hline, [_, _], List.append_assoc .., fun x hx => .inr ⟨hguard, ?_⟩⟩
      obtain rfl | hx := List.mem_cons.1 hx
      · exact .inl rfl
      · subst hmsg
        exact .inr ⟨n, List.mem_singleton.1 hx⟩

/-- The client counts as authenticated, and its capabilities are sent unless the
transport refuses. -/
structure Configured (m m' : SessionModel) : Prop where
  credentials : m'.credentials = { m.credentials with pairKey := [], configured := true }
  line : m.transport.Line m'.transport
  log : ∃ l, m'.log = m.log ++ l ∧ ∀ x ∈ l, x.Plain m.clientID ∨ ∃ caps n,
    x = .sent false (Packet.new (caps : DisplayCapabilities) n m.transport.session)

theorem pairingDone_configured (m : SessionModel) (env : Moment) :
    Configured m (m.pairingDone env).1 := by
  unfold pairingDone
  obtain ⟨⟨hc, hline, l, hl, hplain⟩, -⟩ | ⟨n, t, hline, -, h⟩ := send_cases { m with
    pairKey := [], configured := true, state := .connecting } env.capabilities false
  · exact ⟨hc, hline, l, hl, fun x hx => .inl (hplain x hx)⟩
  · rw [h]
    exact ⟨rfl, hline, _, rfl, fun x hx => .inr ⟨_, n, List.mem_singleton.1 hx⟩⟩

/-- What a `Pairing` message does. -/
inductive PairingStep (crypto : Crypto) (m : SessionModel) (pair : Pairing) (m' : SessionModel) :
    Prop where
  | refused (h : m' = m)
  | challenged (hphase : pair.phase = 0)
    (h : m' = { m with pairingNew := true, nonce := pair.nonce, state := .pairing })
  | answered (trusted : TrustedHost) (hphase : pair.phase = 1) (htrusted : m.trusted = some trusted)
    (h : Proved crypto { m with
      pairingNew := false, nonce := pair.nonce, pairKey := trusted.secret } m')
  | accepted (hphase : pair.phase = 3) (hnonce : pair.nonce = m.nonce)
    (hproof : pair.proof =
      TrustStore.proof crypto m.pairKey m.transport.certificate m.clientID m.nonce 2)
    (hnew : m.pairingNew = false) (h : Configured m m')
  | paired (host : DiscoveredHost) (hphase : pair.phase = 3) (hhost : m.host = some host)
    (hnonce : pair.nonce = m.nonce)
    (hproof : pair.proof =
      TrustStore.proof crypto m.pairKey m.transport.certificate m.clientID m.nonce 2)
    (hnew : m.pairingNew = true) (hsecret : pair.secret.length = 32) (saved : TrustedHost)
    (hsaved : saved.secret = pair.secret)
    (h : m' = { m with log := m.log ++ [Effect.save host.id saved] } ∨ Configured { m with
      keychain := Function.update m.keychain host.id (some saved)
      trusted := some saved
      log := m.log ++ [Effect.save host.id saved] } m')

theorem onPairing_step (crypto : Crypto) (m : SessionModel) (env : Moment) (pair : Pairing) :
    PairingStep crypto m pair (m.onPairing crypto env pair).1 := by
  unfold onPairing
  split
  · exact .refused rfl
  split
  · rename_i hphase
    exact .challenged hphase rfl
  split
  · rename_i hphase
    unfold pairingPhase1
    split
    · exact .refused rfl
    split
    · exact .refused rfl
    · rename_i trusted htrusted _
      exact .answered trusted hphase htrusted (sendProof_proved _ _)
  split
  · rename_i hphase
    unfold pairingPhase3
    split
    · exact .refused rfl
    rename_i host hhost
    split
    · exact .refused rfl
    rename_i hverify
    rw [not_not] at hverify
    have hproof := of_decide_eq_true hverify.2
    split
    · rename_i hnew
      split
      · exact .refused rfl
      rename_i hsecret
      dsimp only
      split
      · exact .paired host hphase hhost hverify.1 hproof hnew (not_not.1 hsecret) _ rfl (.inl rfl)
      · exact .paired host hphase hhost hverify.1 hproof hnew (not_not.1 hsecret) _ rfl
          (.inr (pairingDone_configured _ env))
    · rename_i hnew
      exact .accepted hphase hverify.1 hproof (by simpa using hnew) (pairingDone_configured _ env)
  · exact .refused rfl

/-- The packets of a chunk are taken one after another; `I` speaks about the session
and the packets not taken yet. -/
theorem packets_induction (crypto : Crypto) (env : Moment) {I : SessionModel → List Packet → Prop}
    (hstep : ∀ m p ps, I m (p :: ps) → I (m.packet crypto env p).1 ps) :
    ∀ (ps : List Packet) (m : SessionModel), I m ps →
      ∃ rest, I (packets crypto env m ps).1 rest ∧ ((packets crypto env m ps).2 = .ok () → rest = [])
  | [], m, h => ⟨[], h, fun _ => rfl⟩
  | p :: ps, m, h => by
    have hp := hstep m p ps h
    rw [packets]
    cases hres : m.packet crypto env p with
    | mk m' outcome =>
      rw [hres] at hp
      cases outcome with
      | ok => exact packets_induction crypto env hstep ps m' hp
      | error e => exact ⟨ps, hp, nofun⟩

/-! ### Connections end and do not come back -/

theorem onPairing_line (m : SessionModel) (env : Moment) (pair : Pairing) :
    m.transport.Line (m.onPairing crypto env pair).1.transport := by
  cases onPairing_step crypto m env pair with
  | refused h => rw [h]; exact .refl _
  | challenged _ h => rw [h]; exact .refl _
  | answered _ _ _ h => exact h.line
  | accepted _ _ _ _ h => exact h.line
  | paired _ _ _ _ _ _ _ _ _ h =>
    obtain h | h := h
    · rw [h]
      exact .refl _
    · exact h.line

theorem packets_line (m : SessionModel) (env : Moment) (ps : List Packet) :
    m.transport.Line (packets crypto env m ps).1.transport := by
  have hstep : ∀ (m' : SessionModel) p (ps : List Packet), m.transport.Line m'.transport →
      m.transport.Line (m'.packet crypto env p).1.transport := by
    intro m' p ps h
    obtain hq | ⟨pair, -, heq⟩ := packet_cases crypto m' env p
    · exact h.trans hq.line
    · rw [heq]
      exact h.trans (onPairing_line { m' with lastSequence := p.sequence.toNat } env pair)
  obtain ⟨-, h, -⟩ := packets_induction crypto env
    (I := fun m' _ => m.transport.Line m'.transport) hstep ps m (.refl _)
  exact h

theorem step_epoch_le (crypto : Crypto) (m : SessionModel) (e : Moment × Event) :
    m.transport.epoch ≤ (step crypto m e).transport.epoch := by
  cases step_cases crypto m e with
  | quiet h => exact h.line.epoch_le
  | opened prior host _ hprior _ h =>
    rw [h]
    obtain hq | ho := openConnection_cases { prior with host := host } e.1
    · exact hprior.line.epoch_le.trans hq.line.epoch_le
    · exact hprior.line.epoch_le.trans ho.epoch.le
  | forgot _ h => exact h.line.epoch_le
  | paired code _ h =>
    rw [h, pairing]
    cases TrustStore.code code with
    | error e => exact le_rfl
    | ok key => exact (sendProof_proved crypto { m with pairKey := key }).line.epoch_le
  | verified _ _ _ _ h => rw [h]
  | received ps _ _ h =>
    have hq : Quiet (packets crypto e.1 m ps).1 (step crypto m e) :=
      h ▸ .catching (.refl _) fail_quiet
    exact (packets_line m e.1 ps).epoch_le.trans hq.line.epoch_le

/-! ### What a session vouches for -/

/-- A proof is for the client's own id and a nonce of the right length, and a handshake
gives that id. -/
def VouchesFor (clientID : Bytes) : Effect → Prop
  | .proved _ _ client nonce => client = clientID ∧ nonce.length = 32
  | .sent _ p => p.Introduces clientID
  | _ => True

theorem vouchesFor_of_plain {clientID : Bytes} {x : Effect} (h : x.Plain clientID) :
    VouchesFor clientID x := by
  cases x with
  | sent isInput p => exact h.2.2
  | proved => exact h.elim
  | save => trivial
  | forgot => trivial

/-- The client keeps its id, and what it has done since was for that id. -/
structure Honest (m m' : SessionModel) : Prop where
  clientID : m'.clientID = m.clientID
  log : ∃ l, m'.log = m.log ++ l ∧ ∀ x ∈ l, VouchesFor m.clientID x

namespace Honest

theorem same (hid : m'.clientID = m.clientID) (hlog : m'.log = m.log) : Honest m m' :=
  ⟨hid, [], by rw [hlog, List.append_nil], fun _ hx => absurd hx List.not_mem_nil⟩

theorem trans (h : Honest m m') (h' : Honest m' m'') : Honest m m'' := by
  obtain ⟨hid, l, hl, hp⟩ := h
  obtain ⟨hid', l', hl', hp'⟩ := h'
  refine ⟨hid'.trans hid, l ++ l', by rw [hl', hl, List.append_assoc], fun x hx => ?_⟩
  obtain hx | hx := List.mem_append.1 hx
  · exact hp x hx
  · exact hid ▸ hp' x hx

/-- Other fields were assigned before. -/
theorem after (h : Honest m' m'') (hid : m'.clientID = m.clientID) (hlog : m'.log = m.log) :
    Honest m m'' := (same hid hlog).trans h

theorem quiet (h : Quiet m m') : Honest m m' := by
  obtain ⟨l, hlog, hl⟩ := h.log
  exact ⟨congrArg Credentials.clientID h.credentials, l, hlog, fun x hx =>
    vouchesFor_of_plain (hl x hx)⟩

theorem proved (h : Proved crypto m m') : Honest m m' := by
  obtain ⟨l, hlog, hl⟩ := h.log
  refine ⟨congrArg Credentials.clientID h.credentials, l, hlog, fun x hx => ?_⟩
  obtain hplain | ⟨⟨hnonce, -⟩, rfl | ⟨sequence, rfl⟩⟩ := hl x hx
  · exact vouchesFor_of_plain hplain
  · exact ⟨rfl, hnonce⟩
  · have hkind : WireMessage.kind Pairing ≠ WireMessage.kind Handshake := by decide
    exact Packet.introduces_of_kind hkind

theorem configured (h : Configured m m') : Honest m m' := by
  obtain ⟨l, hlog, hl⟩ := h.log
  refine ⟨congrArg Credentials.clientID h.credentials, l, hlog, fun x hx => ?_⟩
  obtain hplain | ⟨caps, sequence, rfl⟩ := hl x hx
  · exact vouchesFor_of_plain hplain
  · have hkind : WireMessage.kind DisplayCapabilities ≠ WireMessage.kind Handshake := by decide
    exact Packet.introduces_of_kind hkind

theorem onPairing (m : SessionModel) (env : Moment) (pair : Pairing) :
    Honest m (m.onPairing crypto env pair).1 := by
  cases onPairing_step crypto m env pair with
  | refused h => rw [h]; exact same rfl rfl
  | challenged _ h => rw [h]; exact same rfl rfl
  | answered trusted _ _ h => exact (proved h).after rfl rfl
  | accepted _ _ _ _ h => exact configured h
  | paired host _ _ _ _ _ _ saved _ h =>
    have hsave : Honest m { m with log := m.log ++ [Effect.save host.id saved] } := by
      refine ⟨rfl, _, rfl, fun x hx => ?_⟩
      rw [List.mem_singleton.1 hx]
      trivial
    obtain h | h := h
    · rwa [h]
    · exact hsave.trans ((configured h).after rfl rfl)

theorem packets (m : SessionModel) (env : Moment) (ps : List Packet) :
    Honest m (packets crypto env m ps).1 := by
  have hstep : ∀ m' p (ps : List Packet), Honest m m' → Honest m (m'.packet crypto env p).1 := by
    intro m' p ps h
    obtain hq | ⟨pair, -, heq⟩ := packet_cases crypto m' env p
    · exact h.trans (quiet hq)
    · rw [heq]
      exact h.trans ((onPairing _ env pair).after rfl rfl)
  obtain ⟨-, h, -⟩ := packets_induction crypto env (I := fun m' _ => Honest m m') hstep ps m
    (same rfl rfl)
  exact h

end Honest

theorem step_honest (crypto : Crypto) (m : SessionModel) (e : Moment × Event) :
    Honest m (step crypto m e) := by
  cases step_cases crypto m e with
  | quiet h => exact .quiet h
  | opened prior host _ hprior _ h =>
    have hhost : Honest m { prior with host := host } := (Honest.quiet hprior).trans (.same rfl rfl)
    rw [h]
    obtain hq | ho := openConnection_cases { prior with host := host } e.1
    · exact hhost.trans (.quiet hq)
    · obtain ⟨_, -, hc⟩ := ho.credentials
      exact hhost.trans (.same (congrArg Credentials.clientID hc) ho.log)
  | forgot _ h =>
    obtain ⟨l, hlog, hl⟩ := h.log
    obtain ⟨_, hc, -⟩ := h.credentials
    refine ⟨congrArg Credentials.clientID hc, l, hlog, fun x hx => ?_⟩
    obtain hplain | ⟨key, rfl⟩ := hl x hx
    · exact vouchesFor_of_plain hplain
    · trivial
  | paired code _ h =>
    rw [h, pairing]
    cases TrustStore.code code with
    | error e => exact .same rfl rfl
    | ok key => exact .after (.proved (sendProof_proved crypto _)) rfl rfl
  | verified _ _ _ _ h => rw [h]; exact .same rfl rfl
  | received ps _ _ h =>
    rw [h]
    exact (Honest.packets m e.1 ps).trans (.quiet (.catching (.refl _) fail_quiet))

end SessionModel
end Ipad
end SidecarDOS
