/-
# What a session writes while it is set up

Until the session streams it writes a message only where the setup asks for one: when the
control stream is ready, when the code is entered, and behind the packets of the host that
challenge it (`challenge_spoke`) or prove that they are the host's (`proof_spoke`).  Each is at
most one packet (`Once`).  Other packets are not answered, but for a new stream, with which a
keyframe is requested (`dispatch_spoke`, `start_spoke`).
-/

import SidecarDOS.Client.Writes

namespace SidecarDOS
namespace Ipad

namespace SessionModel

variable {crypto : Crypto} {m m' m'' : SessionModel} {env : Moment} {l : List Effect} {p : Prop}

/-- At most one packet goes out on the control stream. -/
structure Once (m : SessionModel) (k : Bool → ℕ) : Prop where
  control : k false ≤ m.transport.counter false + 1
  input : k true = m.transport.counter true

theorem once_counter (m : SessionModel) : Once m m.transport.counter :=
  ⟨Nat.le_succ _, rfl⟩

/-- One message at most, behind which the session is as before, or has no connection. -/
def Replies (m m' : SessionModel) : Prop :=
  ∃ l k, Spoke m m' l k ∧ Once m k ∧ (m'.state = m.state ∨ Closed m m')

theorem Sending.replies {r : Result} (h : Sending m false r) (hroom : m.Roomy) : Replies m r.1 := by
  obtain ⟨l, k, hspoke, hk⟩ := h.spoke hroom
  have honce : Once m k := by
    rcases hk with rfl | rfl
    · exact once_counter m
    · exact ⟨by rw [Function.update_self], by rw [Function.update_of_ne (by decide)]⟩
  refine ⟨l, k, hspoke, honce, ?_⟩
  cases h with
  | refused => exact .inl rfl
  | closed e => exact .inr (fail_closed m e)
  | skipped => exact .inl rfl
  | sent => exact .inl rfl

theorem Replies.closed (h : Replies m m') (hclosed : Closed m' m'') (hlog : m''.log = m'.log) :
    Replies m m'' := by
  obtain ⟨l, k, hspoke, honce, -⟩ := h
  refine ⟨l, k, hspoke.closed hclosed hlog, honce, .inr (hclosed.of_le ?_)⟩
  rcases hspoke.line with hstays | hclosed
  · exact hstays.epoch.ge
  · exact hclosed.epoch.le

theorem Replies.failed {r : Result} (h : Replies m r.1) : Replies m (r.catching failed) := by
  obtain ⟨m', e | ⟨⟩⟩ := r
  · exact h.closed (failed_closed m' e) (failed_log m' e)
  · exact h

theorem Replies.fail {r : Result} (h : Replies m r.1) : Replies m (r.catching fail) := by
  obtain ⟨m', e | ⟨⟩⟩ := r
  · exact h.closed (fail_closed m' e) (failed_log _ e)
  · exact h

theorem replies_refl (m : SessionModel) : Replies m m :=
  ⟨[], _, .refl m, once_counter m, .inl rfl⟩

theorem ready_replies (hroom : m.Roomy) (env : Moment) : Replies m (m.ready env) :=
  ((send_sends m _ false).replies hroom).failed

theorem sendProof_replies (crypto : Crypto) (hroom : m.Roomy) :
    Replies m (m.sendProof crypto).1 := by
  unfold sendProof
  split
  · exact replies_refl m
  dsimp only
  generalize hmsg : (⟨2, m.nonce, TrustStore.proof crypto m.pairKey m.transport.certificate
    m.clientID m.nonce 1, []⟩ : Pairing) = msg
  obtain ⟨l, k, hspoke, honce, hstate⟩ := (send_sends { m with log := m.log ++
    [Effect.proved m.pairKey m.transport.certificate m.clientID m.nonce] } msg false).replies hroom
  have hproved : Unsaid [Effect.proved m.pairKey m.transport.certificate m.clientID m.nonce] :=
    fun b => rfl
  refine ⟨_, k, hspoke.after hproved rfl rfl rfl, ⟨honce.control, honce.input⟩, ?_⟩
  rcases hstate with hstate | hclosed
  · exact .inl hstate
  · exact .inr ⟨hclosed.epoch, hclosed.control, hclosed.input⟩

theorem pairing_replies (crypto : Crypto) (hroom : m.Roomy) (code : String) :
    Replies m (m.pairing crypto code).1 := by
  unfold pairing
  cases TrustStore.code code with
  | error e => exact replies_refl m
  | ok key =>
    have hroom' : Roomy { m with pairKey := key } := hroom
    obtain ⟨l, k, hspoke, honce, hstate⟩ := sendProof_replies crypto hroom'
    refine ⟨_, k, hspoke.after unsaid_nil (List.append_nil _).symm rfl rfl,
      ⟨honce.control, honce.input⟩, ?_⟩
    rcases hstate with hstate | hclosed
    · exact .inl hstate
    · exact .inr ⟨hclosed.epoch, hclosed.control, hclosed.input⟩

/-! ### Control packets -/

theorem reading_speaks {T : Type} [WireMessage T] {q : Packet} {k : T → Result}
    (hk : ∀ v, Speaks p m (k v).1) : Speaks p m (m.reading q k).1 := by
  unfold reading
  split
  · exact hk _
  · exact .refl m

/-- The packets that neither pair nor configure the stream. -/
theorem dispatch_speaks {q : Packet} (hpairing : q.kind ≠ WireMessage.kind Pairing)
    (hconfig : q.kind ≠ WireMessage.kind VideoConfig) :
    Speaks p m (m.dispatch crypto env q).1 := by
  unfold dispatch
  rw [if_neg hpairing, if_neg hconfig]
  split
  · refine reading_speaks fun v => ?_
    unfold onProtocolVersion
    split <;> exact .refl m
  split
  · refine reading_speaks fun v => ?_
    unfold onHostInfo
    split
    · exact .same rfl rfl (.inl rfl)
    · exact .refl m
  split
  · refine reading_speaks fun v => ?_
    unfold onSessionStart
    split
    · exact .same rfl rfl (.inl rfl)
    · exact .refl m
  split
  · refine reading_speaks fun v => ?_
    unfold onEncoderCapabilities
    split <;> exact .refl m
  split
  · refine reading_speaks fun v => ?_
    unfold onPong
    split <;> exact .refl m
  split
  · exact reading_speaks fun v => .refl m
  · exact .refl m

/-- With a new stream a keyframe is requested. -/
theorem onVideoConfig_spoke (hroom : m.Roomy) (env : Moment) (config : VideoConfig) :
    ∃ l k, Spoke m (m.onVideoConfig env config).1 l k ∧
      ((m.onVideoConfig env config).1.state = .pairing → m.state = .pairing) := by
  unfold onVideoConfig
  split
  · exact ⟨[], _, .refl m, id⟩
  · dsimp only
    have hspeaks := @requestKeyframe_speaks { m with
      generation := some config.generation
      videoSize := (config.width.toNat, config.height.toNat)
      assembler := {}
      decoder := m.decoder.reset
      state := .streaming
      reconnectAttempt := 0
      timeoutTask := false
      idleTimerDisabled := true
      timer := true } True (fun _ => trivial) env.now 0
    obtain ⟨l, k, hspoke, -⟩ := hspeaks.spoke hroom
    refine ⟨_, k, hspoke.after unsaid_nil (List.append_nil _).symm rfl rfl, fun hpairing => ?_⟩
    rcases hspeaks.settles with hstate | hcalm
    · exact absurd (hstate.symm.trans hpairing) nofun
    · exact absurd hpairing hcalm.2

theorem Spoke.fail {r : Result} {k : Bool → ℕ} (h : Spoke m r.1 l k) :
    Spoke m (r.catching fail) l k := by
  obtain ⟨m', e | ⟨⟩⟩ := r
  · exact h.closed (fail_closed m' e) (failed_log _ e)
  · exact h

theorem pairing_of_fail {r : Result} (h : r.1.state = .pairing → m.state = .pairing)
    (hpairing : (r.catching fail).state = .pairing) : m.state = .pairing := by
  obtain ⟨m', e | ⟨⟩⟩ := r
  · exact absurd hpairing (failed_calm _ e).2
  · exact h hpairing

/-- A packet that does not pair; only one that configures the stream is answered. -/
theorem dispatch_spoke (crypto : Crypto) (env : Moment) {q : Packet}
    (hpairing : q.kind ≠ WireMessage.kind Pairing)
    (hroom : m.Roomy) : ∃ l k, Spoke m ((m.dispatch crypto env q).catching fail) l k ∧
      (((m.dispatch crypto env q).catching fail).state = .pairing → m.state = .pairing) ∧
        (q.kind ≠ WireMessage.kind VideoConfig →
          k = m.transport.counter ∧ Settles m ((m.dispatch crypto env q).catching fail)) := by
  by_cases hconfig : q.kind = WireMessage.kind VideoConfig
  · obtain ⟨l, k, hspoke, hpairing⟩ : ∃ l k, Spoke m (m.reading q (m.onVideoConfig env)).1 l k ∧
        ((m.reading q (m.onVideoConfig env)).1.state = .pairing → m.state = .pairing) := by
      unfold reading
      split
      · exact onVideoConfig_spoke hroom env _
      · exact ⟨[], _, .refl m, id⟩
    have heq : m.dispatch crypto env q = m.reading q (m.onVideoConfig env) := by
      unfold dispatch
      simp only [hconfig]
      rfl
    rw [heq]
    exact ⟨l, k, hspoke.fail, pairing_of_fail hpairing, fun hn => absurd hconfig hn⟩
  · have hspeaks : Speaks False m ((m.dispatch crypto env q).catching fail) :=
      catching_fail_speaks (dispatch_speaks hpairing hconfig)
    obtain ⟨l, k, hspoke, hmute⟩ := hspeaks.spoke hroom
    refine ⟨l, k, hspoke, fun hpairing' => ?_, fun _ => ⟨hmute id, hspeaks.settles⟩⟩
    rcases hspeaks.settles with hstate | hcalm
    · exact hstate.symm.trans hpairing'
    · exact absurd hpairing' hcalm.2

/-- Behind a challenge the user is asked for the code, or the proof goes out. -/
theorem challenge_spoke {pair : Pairing} (hphase : pair.phase = 0 ∨ pair.phase = 1)
    (hroom : m.Roomy) : ∃ l k, Spoke m ((m.onPairing crypto env pair).catching fail) l k ∧
      Once m k ∧ (Closed m ((m.onPairing crypto env pair).catching fail) ∨
        ((m.onPairing crypto env pair).catching fail).state = .pairing ∧
          k = m.transport.counter ∨
        ((m.onPairing crypto env pair).catching fail).state = m.state) := by
  have hfail (e : Failure) : ∃ l k, Spoke m (m.fail e) l k ∧ Once m k ∧ (Closed m (m.fail e) ∨
      (m.fail e).state = .pairing ∧ k = m.transport.counter ∨ (m.fail e).state = m.state) :=
    ⟨[], _, (Spoke.refl m).closed (fail_closed m e) (failed_log _ e), once_counter m,
      .inl (fail_closed m e)⟩
  unfold onPairing
  split
  · exact hfail _
  split
  · exact ⟨_, _, (Spoke.refl m).assigned unsaid_nil (List.append_nil _).symm rfl rfl,
      once_counter m, .inr (.inl ⟨rfl, rfl⟩)⟩
  rename_i hzero
  rw [if_pos (hphase.resolve_left hzero)]
  unfold pairingPhase1
  split
  · exact hfail _
  rename_i trusted _
  split
  · exact hfail _
  have hroom' : Roomy { m with
    pairingNew := false, nonce := pair.nonce, pairKey := trusted.secret } := hroom
  obtain ⟨l, k, hspoke, honce, hstate⟩ := (sendProof_replies crypto hroom').fail
  refine ⟨_, k, hspoke.after unsaid_nil (List.append_nil _).symm rfl rfl,
    ⟨honce.control, honce.input⟩, ?_⟩
  rcases hstate with hstate | hclosed
  · exact .inr (.inr hstate)
  · exact .inl ⟨hclosed.epoch, hclosed.control, hclosed.input⟩

theorem pairingDone_spoke (hroom : m.Roomy) (env : Moment) :
    ∃ l k, Spoke { m with configured := true } ((m.pairingDone env).catching fail) l k ∧
      Once m k ∧ (Closed m ((m.pairingDone env).catching fail) ∨
        ((m.pairingDone env).catching fail).state = .connecting) := by
  have hroom' : Roomy { m with pairKey := [], configured := true, state := .connecting } := hroom
  obtain ⟨l, k, hspoke, honce, hstate⟩ :=
    ((send_sends _ env.capabilities false).replies hroom').fail
  refine ⟨_, k, hspoke.after unsaid_nil (List.append_nil _).symm rfl rfl,
    ⟨honce.control, honce.input⟩, ?_⟩
  rcases hstate with hstate | hclosed
  · exact .inr hstate
  · exact .inl ⟨hclosed.epoch, hclosed.control, hclosed.input⟩

/-- Behind the host's proof the session is configured, and its capabilities go out. -/
theorem proof_spoke {pair : Pairing} (hphase : pair.phase = 3) (hroom : m.Roomy) :
    ∃ l k, Spoke { m with configured := true } ((m.onPairing crypto env pair).catching fail) l k ∧
      Once m k ∧ (Closed m ((m.onPairing crypto env pair).catching fail) ∨
        ((m.onPairing crypto env pair).catching fail).state = .connecting) := by
  have hfail (m₁ : SessionModel) (e : Failure) (ht : m₁.transport = m.transport)
      (l : List Effect) (hl : Unsaid l) (hlog : m₁.log = m.log ++ l) :
      ∃ l k, Spoke { m with configured := true } (m₁.fail e) l k ∧ Once m k ∧
        (Closed m (m₁.fail e) ∨ (m₁.fail e).state = .connecting) := by
    have hclosed : Closed m (m₁.fail e) := (fail_closed m₁ e).of_le (by rw [ht])
    refine ⟨l, _, ⟨(failed_log _ e).trans hlog, fun b => ?_, fun b q hq => ?_, .inr ?_⟩,
      once_counter m, .inl hclosed⟩
    · rw [hl b]
      exact le_refl (m.transport.counter b)
    · rw [hl b] at hq
      exact absurd hq List.not_mem_nil
    · exact ⟨hclosed.epoch, hclosed.control, hclosed.input⟩
  have hnil (e : Failure) := hfail m e rfl [] unsaid_nil (List.append_nil _).symm
  unfold onPairing
  split
  · exact hnil _
  have hother : pair.phase ≠ 0 ∧ pair.phase ≠ 1 := by
    rw [hphase]
    decide
  rw [if_neg hother.1, if_neg hother.2]
  unfold pairingPhase3
  split
  · exact hnil _
  rename_i host _
  split
  · exact hnil _
  split
  · split
    · exact hnil _
    dsimp only
    have hsave (saved : TrustedHost) : Unsaid [Effect.save host.id saved] := fun b => rfl
    split
    · exact hfail { m with log := m.log ++ [Effect.save host.id _] } _ rfl _ (hsave _) rfl
    · obtain ⟨l, k, hspoke, honce, hstate⟩ := @pairingDone_spoke { m with
        log := m.log ++ [Effect.save host.id
          ⟨crypto.sha256 m.transport.certificate, pair.secret, m.hostID⟩]
        keychain := Function.update m.keychain host.id (some
          ⟨crypto.sha256 m.transport.certificate, pair.secret, m.hostID⟩)
        trusted := some ⟨crypto.sha256 m.transport.certificate, pair.secret, m.hostID⟩ } hroom env
      refine ⟨_, k, hspoke.after (hsave _) rfl rfl rfl, ⟨honce.control, honce.input⟩, ?_⟩
      rcases hstate with hclosed | hstate
      · exact .inl ⟨hclosed.epoch, hclosed.control, hclosed.input⟩
      · exact .inr hstate
  · exact pairingDone_spoke hroom env

/-- The packet is taken for the connection's next one. -/
theorem packet_eq {q : Packet} (hsequence : q.sequence.toNat > m.lastSequence)
    (hstart : q.kind ≠ WireMessage.kind SessionStart) (hsession : q.session = m.transport.session) :
    m.packet crypto env q =
      { m with lastSequence := q.sequence.toNat }.dispatch crypto env q := by
  unfold packet
  rw [if_neg (not_not.2 hsequence)]
  dsimp only
  rw [if_neg hstart, if_neg (not_not.2 hsession)]

theorem dispatch_pairing {q : Packet} (hkind : q.kind = WireMessage.kind Pairing) :
    m.dispatch crypto env q = m.reading q (m.onPairing crypto env) := by
  unfold dispatch
  simp only [hkind]
  rfl

theorem packet_challenge (crypto : Crypto) (env : Moment) {q : Packet}
    (hsequence : q.sequence.toNat > m.lastSequence)
    (hsession : q.session = m.transport.session) (hkind : q.kind = WireMessage.kind Pairing)
    (hphase : ∀ pair, q.message Pairing = .ok pair → pair.phase = 0 ∨ pair.phase = 1)
    (hroom : m.Roomy) : ∃ l k, Spoke { m with lastSequence := q.sequence.toNat }
      ((m.packet crypto env q).catching fail) l k ∧ Once m k ∧
        (Closed m ((m.packet crypto env q).catching fail) ∨
          ((m.packet crypto env q).catching fail).state = .pairing ∧ k = m.transport.counter ∨
          ((m.packet crypto env q).catching fail).state = m.state) := by
  rw [packet_eq hsequence (hkind ▸ by decide) hsession, dispatch_pairing hkind]
  unfold reading
  split
  · rename_i pair hpair
    have hroom' : Roomy { m with lastSequence := q.sequence.toNat } := hroom
    obtain ⟨l, k, hspoke, honce, hstate⟩ := challenge_spoke (hphase pair hpair) hroom'
    refine ⟨l, k, hspoke, ⟨honce.control, honce.input⟩, ?_⟩
    rcases hstate with hclosed | hstate
    · exact .inl ⟨hclosed.epoch, hclosed.control, hclosed.input⟩
    · exact .inr hstate
  · exact ⟨[], _, (Spoke.refl _).closed (fail_closed _ _) (failed_log _ _), once_counter m,
      .inl ((fail_closed _ _).of_le le_rfl)⟩

theorem packet_proof (crypto : Crypto) (env : Moment) {q : Packet}
    (hsequence : q.sequence.toNat > m.lastSequence)
    (hsession : q.session = m.transport.session) (hkind : q.kind = WireMessage.kind Pairing)
    (hphase : ∀ pair, q.message Pairing = .ok pair → pair.phase = 3) (hroom : m.Roomy) :
    ∃ l k, Spoke { m with lastSequence := q.sequence.toNat, configured := true }
      ((m.packet crypto env q).catching fail) l k ∧ Once m k ∧
        (Closed m ((m.packet crypto env q).catching fail) ∨
          ((m.packet crypto env q).catching fail).state = .connecting) := by
  rw [packet_eq hsequence (hkind ▸ by decide) hsession, dispatch_pairing hkind]
  unfold reading
  split
  · rename_i pair hpair
    have hroom' : Roomy { m with lastSequence := q.sequence.toNat } := hroom
    obtain ⟨l, k, hspoke, honce, hstate⟩ := proof_spoke (hphase pair hpair) hroom'
    refine ⟨l, k, hspoke, ⟨honce.control, honce.input⟩, ?_⟩
    rcases hstate with hclosed | hstate
    · exact .inl ⟨hclosed.epoch, hclosed.control, hclosed.input⟩
    · exact .inr hstate
  · exact ⟨[], _, (Spoke.refl _).closed ((fail_closed _ _).of_le le_rfl) (failed_log _ _),
      once_counter m, .inl ((fail_closed _ _).of_le le_rfl)⟩

/-- Behind a `SessionStart` the connection has its token, and may have an input stream. -/
theorem start_spoke (crypto : Crypto) (env : Moment) {q : Packet}
    (hsequence : q.sequence.toNat > m.lastSequence)
    (hstart : q.kind = WireMessage.kind SessionStart)
    (htoken : m.configured = true ∧ q.session.length = 16 ∧ q.session ≠ List.replicate 16 0)
    (hroom : m.Roomy) : ∃ i l, Spoke { m with
        lastSequence := q.sequence.toNat
        transport := { m.transport with session := q.session, input := i } }
      ((m.packet crypto env q).catching fail) l m.transport.counter ∧
        Settles m ((m.packet crypto env q).catching fail) := by
  have hkind : (WireMessage.kind SessionStart) ≠ WireMessage.kind Pairing ∧
    (WireMessage.kind SessionStart) ≠ WireMessage.kind VideoConfig := by decide
  have heq : m.packet crypto env q = ({ m with
      lastSequence := q.sequence.toNat
      transport := { m.transport with session := q.session } }.activateInput env).dispatch
        crypto env q := by
    unfold packet
    rw [if_neg (not_not.2 hsequence)]
    dsimp only
    rw [if_pos hstart, if_neg (not_not.2 htoken)]
  rw [heq]
  have hspeaks (m₁ : SessionModel) : Speaks False m₁ ((m₁.dispatch crypto env q).catching fail) :=
    catching_fail_speaks (dispatch_speaks (hstart ▸ hkind.1) (hstart ▸ hkind.2))
  unfold activateInput
  split
  · have h := hspeaks { m with
      lastSequence := q.sequence.toNat
      transport := { m.transport with session := q.session } }
    obtain ⟨l, k, hspoke, hmute⟩ := h.spoke hroom
    have hk := hmute id
    subst hk
    exact ⟨m.transport.input, l, hspoke, h.settles⟩
  split
  · have hclosed := fail_speaks (p := False) { m with
      lastSequence := q.sequence.toNat
      transport := { m.transport with session := q.session } } (.wire .unexpected)
    have h := hclosed.trans (hspeaks _)
    obtain ⟨l, k, hspoke, hmute⟩ := h.spoke hroom
    have hk := hmute id
    subst hk
    exact ⟨m.transport.input, l, hspoke, h.settles⟩
  · have h := hspeaks { m with
      lastSequence := q.sequence.toNat
      transport := { m.transport with session := q.session, input := true } }
    obtain ⟨l, k, hspoke, hmute⟩ := h.spoke hroom
    have hk := hmute id
    subst hk
    exact ⟨true, l, hspoke, h.settles⟩

/-! ### Chunks -/

theorem packets_append (env : Moment) (ps qs : List Packet) (m : SessionModel) :
    packets crypto env m (ps ++ qs) =
      (packets crypto env m ps).andThen fun m => packets crypto env m qs := by
  induction ps generalizing m with
  | nil => rfl
  | cons p ps ih =>
    show (m.packet crypto env p).andThen _ = ((m.packet crypto env p).andThen _).andThen _
    obtain ⟨m', e | ⟨⟩⟩ := m.packet crypto env p
    · rfl
    · exact ih m'

theorem step_chunk (m : SessionModel) (env : Moment) (ps : List Packet)
    (hreading : m.transport.reading = true) :
    m.step crypto (env, .received (.ok ps)) = (packets crypto env m ps).catching fail := by
  show (if ¬ m.transport.reading = true then m else _) = _
  rw [if_neg (not_not.2 hreading)]

theorem step_received (m : SessionModel) (env : Moment) (q : Packet)
    (hreading : m.transport.reading = true) :
    m.step crypto (env, .received (.ok [q])) = (m.packet crypto env q).catching fail := by
  rw [step_chunk m env [q] hreading]
  show ((m.packet crypto env q).andThen _).catching _ = _
  obtain ⟨m', e | ⟨⟩⟩ := m.packet crypto env q <;> rfl

/-- A chunk of several packets is as good as several chunks, as long as the connection is
open. -/
theorem received_append (m : SessionModel) (env : Moment) (ps qs : List Packet)
    (hreading : m.transport.reading = true)
    (hopen : (m.step crypto (env, .received (.ok ps))).transport.reading = true) :
    m.step crypto (env, .received (.ok (ps ++ qs))) =
      (m.step crypto (env, .received (.ok ps))).step crypto (env, .received (.ok qs)) := by
  rw [step_chunk _ env qs hopen]
  rw [step_chunk m env ps hreading] at hopen
  rw [step_chunk m env _ hreading, step_chunk m env ps hreading, packets_append]
  generalize packets crypto env m ps = r at hopen ⊢
  obtain ⟨m', e | ⟨⟩⟩ := r
  · have hclosed : (m'.fail e).transport.reading = false := by
      unfold fail failed
      dsimp only
      split_ifs <;> rfl
    exact absurd (hclosed.symm.trans hopen) Bool.false_ne_true
  · rfl

end SessionModel
end Ipad
end SidecarDOS
