/-
# A server without the key gets nothing

The client's side of pairing against an arbitrary server, on a connection that
was opened without a saved host, so that any certificate was accepted.  As long
as no code was submitted there, the client must not count as configured, save
the server or send its capabilities.  What protects it is `pairKey`: phase 3 is
accepted on a tag under it.  A connection begins with the `pairKey` that earlier
ones left, and at start-up and behind a successful pairing that is the empty
key, which everybody knows (`unpaired_unsafe`).  With a key that the server
lacks nothing can go wrong (`unpaired_safe`).
-/

import SidecarDOS.Client.Callbacks
import SidecarDOS.Protocol.Codec
import SidecarDOS.Library.Runs

namespace SidecarDOS
namespace Ipad

open Library (Reaches Along)

/-- A server: the keys it can compute tags with, the empty one among them, and
the tags that others have given it. -/
structure Server where
  keys : Set Bytes
  tags : Set Bytes
  empty_mem : [] ∈ keys

namespace Server

variable (server : Server) (crypto : Crypto)

/-- HMAC tags cannot be computed without the key. -/
def Makes (tag : Bytes) : Prop :=
  ∀ key input, tag = crypto.hmac key input → key ∈ server.keys ∨ tag ∈ server.tags

/-- The server does not know the key and was given no proof of a host under it. -/
def Lacks (key : Bytes) : Prop :=
  key ∉ server.keys ∧ ∀ certificate client nonce,
    TrustStore.proof crypto key certificate client nonce 2 ∉ server.tags

variable {server crypto}

theorem Lacks.not_makes {key certificate client nonce : Bytes} (h : server.Lacks crypto key) :
    ¬ server.Makes crypto (TrustStore.proof crypto key certificate client nonce 2) := by
  intro hmakes
  obtain hkey | htag := hmakes key _ rfl
  · exact h.1 hkey
  · exact h.2 _ _ _ htag

end Server

/-- `TrustStore.save` was called, or the capabilities were sent. -/
def Effect.Commits : Effect → Prop
  | .save _ _ => True
  | .sent _ p => p.kind = WireMessage.kind DisplayCapabilities
  | _ => False

theorem Effect.Plain.not_commits {clientID : Bytes} {x : Effect} (h : x.Plain clientID) :
    ¬ x.Commits := by
  cases x with
  | sent isInput p => exact h.2.1
  | _ => exact h.elim

namespace SessionModel

/-- The connection was just opened, and the keychain held nothing for the host. -/
def OpenedUntrusted (prior : SessionModel) (env : Moment) (m : SessionModel) : Prop :=
  prior.wantsConnection ∧ prior.foreground ∧ env.keychain ∧
    (∃ host, prior.host = some host ∧ prior.keychain host.id = none) ∧ m = prior.openConnection env

/-- A callback on that connection, before any code was submitted with success. -/
def Unpaired (server : Server) (crypto : Crypto) (m : SessionModel) (e : Moment × Event) : Prop :=
  ¬ m.Opens e.2 ∧
    (∀ ps, e.2 = .received (.ok ps) → ∀ p ∈ ps, ∀ pair, p.message Pairing = .ok pair →
      server.Makes crypto pair.proof) ∧
    ∀ code, e.2 = .pair code → (m.pairing crypto code).2 ≠ .ok ()

/-- The server lacks the codes that are entered. -/
def LacksCodes (server : Server) (crypto : Crypto) (e : Moment × Event) : Prop :=
  ∀ code, e.2 = .pair code → ∀ key, TrustStore.code code = .ok key → server.Lacks crypto key

/-- Not configured, and since the log was `log` neither was `TrustStore.save` called
nor were the capabilities sent. -/
def Uncommitted (log : List Effect) (m : SessionModel) : Prop :=
  m.configured = false ∧ ∃ l, m.log = log ++ l ∧ ∀ x ∈ l, ¬ x.Commits

variable {server : Server} {crypto : Crypto} {log : List Effect} {m m' : SessionModel}

/-- The invariant: the key in use is one the server lacks. -/
structure Guarded (server : Server) (crypto : Crypto) (log : List Effect) (m : SessionModel) :
    Prop where
  uncommitted : m.Uncommitted log
  trusted : m.trusted = none
  pairKey : server.Lacks crypto m.pairKey

namespace Guarded

/-- A step that keeps the flags and commits to nothing. -/
theorem of_log (h : Guarded server crypto log m) (htrusted : m'.trusted = none)
    (hkey : server.Lacks crypto m'.pairKey) (hconfigured : m'.configured = m.configured)
    {l : List Effect} (hlog : m'.log = m.log ++ l) (hl : ∀ x ∈ l, ¬ x.Commits) :
    Guarded server crypto log m' := by
  obtain ⟨⟨hfalse, l₀, hlog₀, hl₀⟩, -, -⟩ := h
  refine ⟨⟨hconfigured.trans hfalse, l₀ ++ l, ?_, fun x hx => ?_⟩, htrusted, hkey⟩
  · rw [hlog, hlog₀, List.append_assoc]
  · obtain hx | hx := List.mem_append.1 hx
    · exact hl₀ x hx
    · exact hl x hx

theorem quiet (h : Guarded server crypto log m) (hq : Quiet m m') :
    Guarded server crypto log m' := by
  obtain ⟨l, hlog, hl⟩ := hq.log
  have hc := hq.credentials
  simp only [credentials, Credentials.mk.injEq] at hc
  obtain ⟨-, -, htrusted, -, -, hkey, -, hconfigured⟩ := hc
  exact h.of_log (htrusted.trans h.trusted) (hkey ▸ h.pairKey) hconfigured hlog
    fun x hx => (hl x hx).not_commits

theorem proved (h : Guarded server crypto log m) (hp : Proved crypto m m') :
    Guarded server crypto log m' := by
  obtain ⟨l, hlog, hl⟩ := hp.log
  have hc := hp.credentials
  simp only [credentials, Credentials.mk.injEq] at hc
  obtain ⟨-, -, htrusted, -, -, hkey, -, hconfigured⟩ := hc
  refine h.of_log (htrusted.trans h.trusted) (hkey ▸ h.pairKey) hconfigured hlog fun x hx => ?_
  obtain hplain | ⟨-, rfl | ⟨n, rfl⟩⟩ := hl x hx
  · exact hplain.not_commits
  · exact fun hx => hx
  · exact (by decide : WireMessage.kind Pairing ≠ WireMessage.kind DisplayCapabilities)

/-- The host's proof in phase 3 would be a tag under a key that the server lacks. -/
theorem onPairing (h : Guarded server crypto log m) {env : Moment} {pair : Pairing}
    (hmakes : server.Makes crypto pair.proof) :
    Guarded server crypto log (m.onPairing crypto env pair).1 := by
  cases onPairing_step crypto m env pair with
  | refused heq => rwa [heq]
  | challenged _ heq =>
    rw [heq]
    exact h.of_log h.trusted h.pairKey rfl (List.append_nil _).symm fun _ hx =>
      absurd hx List.not_mem_nil
  | answered trusted _ htrusted _ => rw [h.trusted] at htrusted; cases htrusted
  | accepted _ _ hproof => rw [hproof] at hmakes; exact absurd hmakes h.pairKey.not_makes
  | paired _ _ _ _ hproof => rw [hproof] at hmakes; exact absurd hmakes h.pairKey.not_makes

theorem packets (h : Guarded server crypto log m) {env : Moment} {ps : List Packet}
    (hps : ∀ p ∈ ps, ∀ pair, p.message Pairing = .ok pair → server.Makes crypto pair.proof) :
    Guarded server crypto log (packets crypto env m ps).1 := by
  let I (m : SessionModel) (ps : List Packet) : Prop := Guarded server crypto log m ∧
    ∀ p ∈ ps, ∀ pair, p.message Pairing = .ok pair → server.Makes crypto pair.proof
  have hstep : ∀ m p ps, I m (p :: ps) → I (m.packet crypto env p).1 ps := by
    rintro m p ps ⟨h, hps⟩
    refine ⟨?_, fun q hq => hps q (List.mem_cons_of_mem _ hq)⟩
    obtain hq | ⟨pair, hpair, heq⟩ := packet_cases crypto m env p
    · exact h.quiet hq
    · have hm : Guarded server crypto log { m with lastSequence := p.sequence.toNat } :=
        h.quiet (.same rfl rfl rfl)
      rw [heq]
      exact hm.onPairing (hps p (List.mem_cons_self ..) pair hpair)
  obtain ⟨-, ⟨h, -⟩, -⟩ := packets_induction crypto env hstep ps m ⟨h, hps⟩
  exact h

/-- A code that is refused or not submitted. -/
theorem pairing (h : Guarded server crypto log m) {code : String}
    (hcode : ∀ key, TrustStore.code code = .ok key → server.Lacks crypto key) :
    Guarded server crypto log (m.pairing crypto code).1 := by
  unfold SessionModel.pairing
  cases hkey : TrustStore.code code with
  | error e => exact h
  | ok key =>
    have hset : Guarded server crypto log { m with pairKey := key } :=
      h.of_log h.trusted (hcode key hkey) rfl (List.append_nil _).symm fun _ hx =>
        absurd hx List.not_mem_nil
    exact hset.proved (sendProof_proved _ _)

theorem step (h : Guarded server crypto log m) {e : Moment × Event}
    (he : m.Unpaired server crypto e) (hcodes : LacksCodes server crypto e) :
    Guarded server crypto log (step crypto m e) := by
  obtain ⟨hopens, hreceived, -⟩ := he
  cases step_cases crypto m e with
  | quiet hq => exact h.quiet hq
  | opened _ _ hopens' => exact absurd hopens' hopens
  | forgot _ hf =>
    obtain ⟨l, hlog, hl⟩ := hf.log
    obtain ⟨_, hc, -⟩ := hf.credentials
    simp only [credentials, Credentials.mk.injEq] at hc
    obtain ⟨-, -, htrusted, -, -, hkey, -, hconfigured⟩ := hc
    refine h.of_log htrusted (hkey ▸ h.pairKey) hconfigured hlog fun x hx => ?_
    obtain hplain | ⟨key, rfl⟩ := hl x hx
    · exact hplain.not_commits
    · exact fun hx => hx
  | paired code he heq => rw [heq]; exact h.pairing (hcodes code he)
  | verified certificate _ _ _ heq =>
    rw [heq]
    exact h.of_log h.trusted h.pairKey rfl (List.append_nil _).symm fun _ hx =>
      absurd hx List.not_mem_nil
  | received ps he _ heq =>
    rw [heq]
    exact (h.packets (hreceived ps he)).quiet (.catching (.refl _) fail_quiet)

end Guarded

theorem OpenedUntrusted.guarded {prior : SessionModel} {env : Moment}
    (h : OpenedUntrusted prior env m) (hkey : server.Lacks crypto prior.pairKey) :
    Guarded server crypto prior.log m := by
  obtain ⟨hwants, hforeground, hkeychain, ⟨host, hhost, hnone⟩, rfl⟩ := h
  simp only [openConnection, hwants, hforeground, hhost, hkeychain]
  exact ⟨⟨rfl, [], (List.append_nil _).symm, fun _ hx => absurd hx List.not_mem_nil⟩, hnone, hkey⟩

/-- **A server that lacks the key gets nothing.**  On a connection opened without
a saved host, where no code is submitted with success, the client is never
configured, saves no host and does not send its capabilities, whatever packets
the server sends in whatever order, if the server lacks the key that earlier
connections left behind and the codes that are entered in vain. -/
theorem unpaired_safe (server : Server) (crypto : Crypto) (prior : SessionModel) (env : Moment)
    (hkey : server.Lacks crypto prior.pairKey) (m : SessionModel)
    (h : Reaches (step crypto) (OpenedUntrusted prior env)
      (fun m e => m.Unpaired server crypto e ∧ LacksCodes server crypto e) m) :
    m.Uncommitted prior.log :=
  (h.invariant (I := Guarded server crypto prior.log) (fun _ h => h.guarded hkey)
    fun _ _ h hok => h.step hok.1 hok.2).uncommitted

/-! ### A server that knows the key -/

/-- The session at start-up, about to connect to its first host. -/
def sampleSession : SessionModel where
  clientID := List.replicate 16 7
  host := some ⟨"pc", "PC"⟩
  wantsConnection := true

/-- A server that knows no key but the empty one. -/
def stranger : Server := ⟨{[]}, ∅, rfl⟩

/-- It challenges the client. -/
def strangerChallenge : Pairing := ⟨0, List.replicate 32 5, [], []⟩

/-- It answers for the host, with the empty key. -/
def strangerAnswer : Pairing :=
  ⟨3, List.replicate 32 5, TrustStore.proof .sample [] [1] (List.replicate 16 7)
    (List.replicate 32 5) 2, List.replicate 32 9⟩

def strangerPackets : List Packet :=
  [.new strangerChallenge 1 (List.replicate 16 0), .new strangerAnswer 2 (List.replicate 16 0)]

def strangerEvents : List (Moment × Event) :=
  [.certificate [1], .groupReady, .controlReady, .received (.ok strangerPackets)].map ({}, ·)

theorem stranger_makes : ∀ p ∈ strangerPackets, ∀ pair, p.message Pairing = .ok pair →
    stranger.Makes .sample pair.proof := by
  simp only [strangerPackets, List.forall_mem_cons]
  refine ⟨fun pair h => ?_, fun pair h => ?_, fun _ hp => absurd hp List.not_mem_nil⟩
  · rw [ipad_message_new ((valid_pairing _).2 (by decide +kernel))] at h
    cases h
    rintro (_ | ⟨b, key⟩) input htag <;> cases htag
  · rw [ipad_message_new ((valid_pairing _).2 (by decide +kernel))] at h
    cases h
    exact fun key input htag => .inl (Crypto.sample_hmac_inj htag).1.symm

theorem stranger_along (m : SessionModel) : Along (step .sample)
    (fun m e => m.Unpaired stranger .sample e ∧ LacksCodes stranger .sample e) m
    strangerEvents := by
  refine ⟨⟨⟨id, nofun, nofun⟩, nofun⟩, ⟨⟨id, nofun, nofun⟩, nofun⟩, ⟨⟨id, nofun, nofun⟩, nofun⟩,
    ⟨⟨id, fun ps hps => ?_, nofun⟩, nofun⟩, trivial⟩
  cases hps
  exact stranger_makes

/-- The hypotheses of `unpaired_safe` are satisfiable: with the code of an earlier
attempt in `pairKey`, the stranger's packets are of no use. -/
theorem unpaired_safe_sample : (strangerEvents.foldl (step .sample) ({ sampleSession with
    pairKey := List.replicate 16 3 }.openConnection {})).Uncommitted [] := by
  have hkey : stranger.Lacks .sample (List.replicate 16 3) :=
    ⟨fun h => absurd (Set.mem_singleton_iff.1 h) (by decide), fun _ _ _ => id⟩
  exact unpaired_safe stranger .sample { sampleSession with pairKey := List.replicate 16 3 } {}
    hkey _ ((Reaches.init ⟨rfl, rfl, rfl, ⟨_, rfl, rfl⟩, rfl⟩).along (stranger_along _))

/-- The property fails at start-up: two packets of a stranger make the client save it. -/
theorem unpaired_unsafe : ¬ ∀ (server : Server) (crypto : Crypto) (prior : SessionModel)
    (env : Moment) (m : SessionModel), Reaches (step crypto) (OpenedUntrusted prior env)
      (fun m e => m.Unpaired server crypto e) m → m.Uncommitted prior.log := by
  intro h
  have hinit : OpenedUntrusted sampleSession {} (sampleSession.openConnection {}) :=
    ⟨rfl, rfl, rfl, ⟨_, rfl, rfl⟩, rfl⟩
  have hrun := ((Reaches.init hinit).along (stranger_along _)).mono fun _ _ hok => hok.1
  have hfalse := (h stranger .sample sampleSession {} _ hrun).1
  revert hfalse
  decide +kernel

end SessionModel
end Ipad
end SidecarDOS
