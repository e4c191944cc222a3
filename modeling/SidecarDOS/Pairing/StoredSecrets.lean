/-
# The secrets that client and host have stored

One client and one host over their control streams, connection after connection.
A connection is known by the client's epoch; `up` and `down` are the packets that
are still on their way.  Connections break and attempts are given up at any
point, and each side may forget the other.

The two stores are written at different moments: the host's when it has verified
the client's proof, the client's when it has verified the host's.  Between the two
the host is ahead.  A client without a saved host asks for a new pairing, which
repairs that.  But the host also pairs anew when only it has forgotten the other;
then a break leaves two different secrets behind, and neither side asks for a new
pairing any more (`stored_secrets_diverge`).  As long as no new secret is stored
while the client holds an old one, the stores agree (`stored_secrets_agree`).
-/

import SidecarDOS.Client.Callbacks
import SidecarDOS.Host.Attempt
import SidecarDOS.Library.Runs
import SidecarDOS.Protocol.Codec

namespace SidecarDOS
namespace StoredSecrets

open Library (Reaches Along Ends exec)
open Ipad (SessionModel TrustStore.proof TrustStore.verify TrustStore.code)

/-- Where the host's task is, and on which connection. -/
inductive Attempt where
  | idle
  | hello (epoch : ℕ)
  | answer (epoch : ℕ) (w : Host.Awaiting)
  | session (epoch : ℕ)

def Attempt.epoch : Attempt → Option ℕ
  | .idle => none
  | .hello epoch => some epoch
  | .answer epoch _ => some epoch
  | .session epoch => some epoch

/-- The host has not answered with its own proof. -/
def Attempt.Open : Attempt → Prop
  | .hello _ => True
  | .answer _ _ => True
  | _ => False

structure World where
  client : SessionModel
  host : Host.AuthState
  attempt : Attempt := .idle
  /-- The last connection that the host has accepted. -/
  accepted : ℕ := 0
  up : ℕ → List Host.Packet := fun _ => []
  down : ℕ → List Ipad.Packet := fun _ => []

inductive Action where
  /-- A callback of the client other than a packet that arrives. -/
  | client (e : Ipad.Moment × SessionModel.Event)
  /-- The first `n` packets on their way arrive at the client. -/
  | deliver (env : Ipad.Moment) (n : ℕ)
  | accept (epoch : ℕ)
  /-- The next packet arrives at the host's attempt. -/
  | serve (draws : Host.Draws)
  /-- The session behind a successful attempt sends something. -/
  | message (p : Host.Packet)
  | giveUp
  | forgetAll (written : Bool)

/-- A packet of the client as the host reads it. -/
def toHost (p : Ipad.Packet) : Option Host.Packet :=
  (Id16.ofBytes p.session).map fun session => ⟨p.kind, p.sequence, session, p.body⟩

/-- What the client has written on the control stream since its log was `log`. -/
def sent (log : List Ipad.Effect) (m : SessionModel) : List Host.Packet :=
  (m.log.drop log.length).filterMap fun
    | .sent false p => toHost p
    | _ => none

/-- What the host has written since its log was `log`. -/
def written (log : List Host.Effect) (host : Host.AuthState) : List Ipad.Packet :=
  (host.log.drop log.length).filterMap fun
    | .sent p => some p.toIpad
    | _ => none

def callback (crypto : Crypto) (s : World) (e : Ipad.Moment × SessionModel.Event) : World :=
  let m := s.client.step crypto e
  let epoch := s.client.transport.epoch
  { s with client := m, up := Function.update s.up epoch (s.up epoch ++ sent s.client.log m) }

/-- The host's task has read the packet `p` of connection `epoch`. -/
def served (s : World) (epoch : ℕ) (rest : List Host.Packet) (host : Host.AuthState)
    (attempt : Attempt) : World :=
  { s with
    host := host
    attempt := attempt
    up := Function.update s.up epoch rest
    down := Function.update s.down epoch (s.down epoch ++ written s.host.log host) }

def step (crypto : Crypto) (s : World) : Action → World
  | .client e => callback crypto s e
  | .deliver env n =>
    if ¬ s.client.transport.reading then s
    else
      let epoch := s.client.transport.epoch
      { callback crypto s (env, .received (.ok ((s.down epoch).take n))) with
        down := Function.update s.down epoch ((s.down epoch).drop n) }
  | .accept epoch =>
    { s with host := { identity := s.host.identity }, attempt := .hello epoch, accepted := epoch }
  | .serve draws =>
    match s.attempt with
    | .hello epoch =>
      match s.up epoch with
      | [] => s
      | p :: rest =>
        let out := exec (Host.onHello draws p) s.host
        served s epoch rest out.2 (match out.1 with
          | .ok w => .answer epoch w
          | .error _ => .idle)
    | .answer epoch w =>
      match s.up epoch with
      | [] => s
      | p :: rest =>
        let out := exec (Host.onAnswer crypto draws w p) s.host
        served s epoch rest out.2 (match out.1 with
          | .ok _ => .session epoch
          | .error _ => .idle)
    | _ => s
  | .message p =>
    match s.attempt with
    | .session epoch => { s with down := Function.update s.down epoch (s.down epoch ++ [p.toIpad]) }
    | _ => s
  | .giveUp => { s with attempt := .idle }
  | .forgetAll written =>
    { s with host := { s.host with identity := (s.host.identity.forgetAll written).2 } }

/-- What the platform and the user do: packets come from the host alone, the
client's only host is `pc`, a code can be entered where the view asks for one, and
the host accepts each connection once. -/
def Admits (pc : String) (s : World) : Action → Prop
  | .client (_, e) => match e with
    | .received (.ok _) => False
    | .certificate certificate => certificate = s.host.identity.cert
    | .connect host => host.id = pc
    | .pair _ => s.client.state = .pairing
    | _ => True
  | .accept epoch => s.accepted < epoch ∧ epoch ≤ s.client.transport.epoch
  | .message p => p.kind ≠ Host.Wire.KIND Pairing
  | _ => True

/-- Neither side knows the other; the client's id has 16 bytes, as `TrustStore.identity`
draws it. -/
structure Init (pc : String) (s : World) : Prop where
  clientID : s.client.clientID.length = 16
  saved : s.client.keychain pc = none
  recorded : s.host.identity.trusted s.client.clientID = none
  host : s.client.host = none
  trusted : s.client.trusted = none
  attempt : s.attempt = .idle
  epoch : s.accepted ≤ s.client.transport.epoch
  up : s.up = fun _ => []
  down : s.down = fun _ => []

/-- The host stores a new secret for the client: it reads the proof of a new pairing
and has room for one more device. -/
def Stores (crypto : Crypto) (s : World) (a : Action) : Prop :=
  ∃ draws epoch w p rest answer, a = .serve draws ∧ s.attempt = .answer epoch w ∧
    w.isNew = true ∧ w.id.bytes = s.client.clientID ∧ s.up epoch = p :: rest ∧
    Host.Answers crypto s.host w p answer ∧ s.host.identity.devices.keys.length < 64

/-- A new secret is stored only while the client has none saved. -/
def Unsaved (crypto : Crypto) (pc : String) (s : World) (a : Action) : Prop :=
  Stores crypto s a → s.client.keychain pc = none

/-- The stored secrets are equal, and proofs under them verify in both directions. -/
def Agree (crypto : Crypto) (pc : String) (s : World) : Prop :=
  ∀ saved secret, s.client.keychain pc = some saved →
    s.host.identity.trusted s.client.clientID = some secret →
    saved.secret = secret ∧ ∀ cert nonce, nonce.length = 32 →
      Host.verify crypto secret cert s.client.clientID nonce 1
        (TrustStore.proof crypto saved.secret cert s.client.clientID nonce 1) = .ok () ∧
      TrustStore.verify crypto (Host.proof crypto secret cert s.client.clientID nonce 2)
        saved.secret cert s.client.clientID nonce 2 = true

/-! ### The client -/

/-- The host proof of a new pairing, with its secret. -/
def Brings (p : Ipad.Packet) (secret : Bytes) : Prop :=
  ∃ pair : Pairing, p.message Pairing = .ok pair ∧ pair.phase = 3 ∧ pair.secret.length = 32 ∧
    pair.secret = secret

/-- What the client has saved, and what the packets `d` bring it, is the secret that
the host has recorded, if it has recorded one. -/
structure Holds (pc : String) (record : Option Bytes) (c : Ipad.Credentials)
    (d : List Ipad.Packet) : Prop where
  host : ∀ host, c.host = some host → host.id = pc
  saved : ∀ saved, c.keychain pc = some saved → ∀ secret ∈ record, saved.secret = secret
  brings : ∀ p ∈ d, ∀ secret', Brings p secret' → ∀ secret ∈ record, secret' = secret

namespace Holds

variable {crypto : Crypto} {pc : String} {record : Option Bytes} {m m' : SessionModel}
  {c c' : Ipad.Credentials} {d d' : List Ipad.Packet}

theorem of (h : Holds pc record c d) (hhost : c'.host = c.host) (hkey : c'.keychain = c.keychain)
    (hd : d' ⊆ d) : Holds pc record c' d' where
  host := hhost ▸ h.host
  saved := hkey ▸ h.saved
  brings p hp := h.brings p (hd hp)

/-- The secret of a new pairing is saved as the packet brings it. -/
theorem onPairing {p : Ipad.Packet} {pair : Pairing} (h : Holds pc record m.credentials (p :: d))
    (hp : p.message Pairing = .ok pair) (env : Ipad.Moment) :
    Holds pc record (m.onPairing crypto env pair).1.credentials d := by
  have hd : Holds pc record m.credentials d := h.of rfl rfl (List.subset_cons_self ..)
  cases SessionModel.onPairing_step crypto m env pair with
  | refused heq => rwa [heq]
  | challenged _ heq => rw [heq]; exact hd.of rfl rfl (List.Subset.refl d)
  | answered trusted _ _ hproved =>
    rw [hproved.credentials]
    exact hd.of rfl rfl (List.Subset.refl d)
  | accepted _ _ _ _ hc =>
    rw [hc.credentials]
    exact hd.of rfl rfl (List.Subset.refl d)
  | paired host hphase hhost _ _ _ hsecret saved hsaved heq =>
    obtain heq | hc := heq
    · rw [heq]
      exact hd.of rfl rfl (List.Subset.refl d)
    · rw [hc.credentials]
      refine ⟨hd.host, fun saved' hsaved' secret hrecord => ?_, hd.brings⟩
      simp only [SessionModel.credentials, h.host host hhost, Function.update_self] at hsaved'
      cases hsaved'
      rw [hsaved]
      exact h.brings p (List.mem_cons_self ..) _ ⟨pair, hp, hphase, hsecret, rfl⟩ secret hrecord

theorem packets (env : Ipad.Moment) (ps : List Ipad.Packet)
    (h : Holds pc record m.credentials (ps ++ d)) :
    Holds pc record (SessionModel.packets crypto env m ps).1.credentials d := by
  have hstep : ∀ (m : SessionModel) p ps, Holds pc record m.credentials (p :: ps ++ d) →
      Holds pc record (m.packet crypto env p).1.credentials (ps ++ d) := by
    intro m p ps h
    obtain hq | ⟨pair, hp, heq⟩ := SessionModel.packet_cases crypto m env p
    · rw [hq.credentials]
      exact h.of rfl rfl (List.subset_cons_self ..)
    · rw [heq]
      exact onPairing (m := { m with lastSequence := p.sequence.toNat }) h hp env
  obtain ⟨rest, h, -⟩ := SessionModel.packets_induction crypto env
    (I := fun m ps => Holds pc record m.credentials (ps ++ d)) hstep ps m h
  exact h.of rfl rfl (List.subset_append_right ..)

/-- The callbacks other than packets. -/
theorem callback (h : Holds pc record m.credentials d) {e : Ipad.Moment × SessionModel.Event}
    (hreceived : ∀ ps, e.2 ≠ .received (.ok ps))
    (hconnect : ∀ host, e.2 = .connect host → host.id = pc) :
    Holds pc record (m.step crypto e).credentials d := by
  cases SessionModel.step_cases crypto m e with
  | quiet hq => rwa [hq.credentials]
  | opened prior host _ hprior hhost heq =>
    have hopen : Holds pc record { prior.credentials with host := host } d := by
      rw [hprior.credentials]
      refine ⟨fun host' heq' => ?_, h.saved, h.brings⟩
      obtain hhost | ⟨host'', he, hhost⟩ := hhost
      · refine h.host host' ?_
        rw [← heq', hhost]
        exact (congrArg Ipad.Credentials.host hprior.credentials).symm
      · cases hhost.symm.trans heq'
        exact hconnect _ he
    rw [heq]
    obtain hq | ho := SessionModel.openConnection_cases { prior with host := host } e.1
    · rw [hq.credentials]
      exact hopen
    · obtain ⟨_, -, hc⟩ := ho.credentials
      rw [hc]
      exact hopen.of rfl rfl (List.Subset.refl d)
  | forgot _ hf =>
    obtain ⟨keychain, hc, hkeychain⟩ := hf.credentials
    rw [hc]
    refine ⟨h.host, fun saved hsaved => h.saved saved ?_, h.brings⟩
    obtain rfl | ⟨host, hhost, rfl⟩ := hkeychain
    · exact hsaved
    · simp only [h.host host hhost, Function.update_self] at hsaved
      cases hsaved
  | paired code _ heq =>
    rw [heq, SessionModel.pairing]
    cases TrustStore.code code with
    | error e => exact h
    | ok key =>
      rw [(SessionModel.sendProof_proved crypto _).credentials]
      exact h.of rfl rfl (List.Subset.refl d)
  | verified _ _ _ _ heq => rw [heq]; exact h.of rfl rfl (List.Subset.refl d)
  | received ps he => exact absurd he (hreceived ps)

end Holds

/-! ### Both sides -/

theorem toIpad_of_toHost {p : Ipad.Packet} {q : Host.Packet} (h : toHost p = some q) :
    q.toIpad = p := by
  obtain ⟨session, hsession, rfl⟩ := Option.map_eq_some_iff.1 h
  rw [Id16.ofBytes_eq_some] at hsession
  rw [Host.Packet.toIpad, hsession]

theorem mem_sent {log : List Ipad.Effect} {m : SessionModel} {l : List Ipad.Effect}
    (hlog : m.log = log ++ l) {p : Host.Packet} (hp : p ∈ sent log m) :
    .sent false p.toIpad ∈ l := by
  rw [sent, hlog, List.drop_left] at hp
  obtain ⟨x, hx, hp⟩ := List.mem_filterMap.1 hp
  split at hp
  · rwa [toIpad_of_toHost hp]
  · cases hp

theorem mem_written {log : List Host.Effect} {host : Host.AuthState} {l : List Host.Effect}
    (hlog : host.log = log ++ l) {p : Ipad.Packet} (hp : p ∈ written log host) :
    ∃ q, .sent q ∈ l ∧ p = q.toIpad := by
  rw [written, hlog, List.drop_left] at hp
  obtain ⟨x, hx, hp⟩ := List.mem_filterMap.1 hp
  split at hp
  · cases hp
    exact ⟨_, hx, rfl⟩
  · cases hp

/-- A packet that the host does not write in an attempt's last stretch brings no secret. -/
theorem not_brings {p : Host.Packet} (h : ∀ pair, p.message Pairing = .ok pair → pair.phase ≠ 3)
    (secret : Bytes) : ¬ Brings p.toIpad secret := by
  rintro ⟨pair, hpair, hphase, -⟩
  exact h pair ((ipad_message_iff p pair).1 hpair) hphase

theorem not_brings_of_kind {p : Host.Packet} (h : p.kind ≠ Host.Wire.KIND Pairing)
    (secret : Bytes) : ¬ Brings p.toIpad secret :=
  not_brings (fun _ hpair => absurd (Host.Packet.message_eq_ok.1 hpair).1 h) secret

structure Inv (pc : String) (s : World) : Prop where
  clientID : s.client.clientID.length = 16
  holds : Holds pc (s.host.identity.trusted s.client.clientID) s.client.credentials
    (s.down s.client.transport.epoch)
  recorded : ∀ secret, s.host.identity.trusted s.client.clientID = some secret →
    secret.length = 32
  accepted : s.accepted ≤ s.client.transport.epoch
  /-- Nothing is on its way on connections that the host has not accepted. -/
  down : ∀ epoch, s.accepted < epoch → s.down epoch = []
  attempt : ∀ epoch, s.attempt.epoch = some epoch → epoch = s.accepted
  /-- The host's proof is the last thing of an attempt. -/
  pending : s.attempt.Open → ∀ p ∈ s.down s.accepted, ∀ secret, ¬ Brings p secret
  up : ∀ epoch, ∀ p ∈ s.up epoch, ∀ hello, p.message Handshake = .ok hello →
    hello.clientId = s.client.clientID
  id : ∀ epoch w, s.attempt = .answer epoch w → w.id.bytes = s.client.clientID

variable {crypto : Crypto} {pc : String} {s : World}

theorem Init.inv (h : Init pc s) : Inv pc s where
  clientID := h.clientID
  holds := ⟨fun _ hhost => absurd (h.host.symm.trans hhost) nofun,
    fun _ hsaved => absurd (h.saved.symm.trans hsaved) nofun,
    fun _ hp => absurd (h.down ▸ hp) List.not_mem_nil⟩
  recorded _ hsecret := absurd (h.recorded.symm.trans hsecret) nofun
  accepted := h.epoch
  down _ _ := by rw [h.down]
  attempt _ hepoch := by rw [h.attempt] at hepoch; cases hepoch
  pending hopen := by rw [h.attempt] at hopen; exact hopen.elim
  up _ _ hp := by rw [h.up] at hp; exact absurd hp List.not_mem_nil
  id _ _ hattempt := by rw [h.attempt] at hattempt; cases hattempt

namespace Inv

/-- A callback of the client; of the packets on their way to it, `d` are left. -/
theorem callback (h : Inv pc s) {e : Ipad.Moment × SessionModel.Event} {d : List Ipad.Packet}
    (hd : d ⊆ s.down s.client.transport.epoch)
    (hholds : Holds pc (s.host.identity.trusted s.client.clientID)
      (s.client.step crypto e).credentials d) :
    Inv pc { callback crypto s e with
      down := Function.update s.down s.client.transport.epoch d } := by
  obtain ⟨hid, l, hlog, hl⟩ := SessionModel.step_honest crypto s.client e
  have hepoch := SessionModel.step_epoch_le crypto s.client e
  have hdown : ∀ epoch, s.accepted < epoch →
      Function.update s.down s.client.transport.epoch d epoch = [] := by
    intro epoch hlt
    by_cases heq : epoch = s.client.transport.epoch
    · rw [heq, Function.update_self]
      exact List.subset_nil.1 (h.down _ (heq ▸ hlt) ▸ hd)
    · rw [Function.update_of_ne heq]
      exact h.down epoch hlt
  refine ⟨?_, ?_, ?_, h.accepted.trans hepoch, hdown, h.attempt, fun hopen p hp => ?_,
    fun epoch p hp hello hhello => ?_, fun epoch w hw => ?_⟩
  · exact hid ▸ h.clientID
  · dsimp only [StoredSecrets.callback]
    rw [hid]
    by_cases heq : (s.client.step crypto e).transport.epoch = s.client.transport.epoch
    · rwa [heq, Function.update_self]
    · rw [hdown _ (by have := h.accepted; omega)]
      exact hholds.of rfl rfl (List.nil_subset _)
  · dsimp only [StoredSecrets.callback]
    rw [hid]
    exact h.recorded
  · refine h.pending hopen p ?_
    change p ∈ Function.update s.down s.client.transport.epoch d s.accepted at hp
    by_cases heq : s.accepted = s.client.transport.epoch
    · rw [heq, Function.update_self] at hp
      exact heq ▸ hd hp
    · rwa [Function.update_of_ne heq] at hp
  · dsimp only [StoredSecrets.callback] at hp ⊢
    rw [hid]
    by_cases heq : epoch = s.client.transport.epoch
    · rw [heq, Function.update_self] at hp
      obtain hp | hp := List.mem_append.1 hp
      · exact h.up _ p hp hello hhello
      · exact hl _ (mem_sent hlog hp) hello ((ipad_message_iff p hello).2 hhello) h.clientID
    · rw [Function.update_of_ne heq] at hp
      exact h.up epoch p hp hello hhello
  · exact (h.id epoch w hw).trans hid.symm

theorem client (h : Inv pc s) {e : Ipad.Moment × SessionModel.Event}
    (ha : Admits pc s (.client e)) : Inv pc (step crypto s (.client e)) := by
  have hreceived : ∀ ps, e.2 ≠ .received (.ok ps) := by
    intro ps he
    simp only [Admits, he] at ha
  have hconnect : ∀ host, e.2 = .connect host → host.id = pc := by
    intro host he
    simpa only [Admits, he] using ha
  have hholds : Holds pc _ (s.client.step crypto e).credentials _ :=
    h.holds.callback hreceived hconnect
  have hcallback := h.callback (List.Subset.refl _) hholds
  rwa [Function.update_eq_self] at hcallback

theorem deliver (h : Inv pc s) (env : Ipad.Moment) (n : ℕ) :
    Inv pc (step crypto s (.deliver env n)) := by
  rw [step]
  split
  · exact h
  · rename_i hreading
    rw [not_not] at hreading
    refine h.callback (List.drop_subset ..) ?_
    have hpackets : Holds pc _ (SessionModel.packets crypto env s.client
        ((s.down s.client.transport.epoch).take n)).1.credentials
          ((s.down s.client.transport.epoch).drop n) :=
      .packets env _ (by rw [List.take_append_drop]; exact h.holds)
    simp only [SessionModel.step, hreading, not_true, if_false]
    rw [(SessionModel.Quiet.catching (.refl _) SessionModel.fail_quiet).credentials]
    exact hpackets

/-- The host has recorded a secret and written `out`, and that fits the client. -/
theorem wrote (h : Inv pc s) {epoch : ℕ} {rest : List Host.Packet} {host : Host.AuthState}
    {attempt : Attempt} {out : List Ipad.Packet} (hepoch : epoch = s.accepted)
    (hrest : rest ⊆ s.up epoch)
    (hrecorded : ∀ secret, host.identity.trusted s.client.clientID = some secret →
      secret.length = 32)
    (hsaved : ∀ saved, s.client.keychain pc = some saved →
      ∀ secret ∈ host.identity.trusted s.client.clientID, saved.secret = secret)
    (hbrings : ∀ p ∈ s.down s.client.transport.epoch ++ out, ∀ secret', Brings p secret' →
      s.accepted = s.client.transport.epoch →
        ∀ secret ∈ host.identity.trusted s.client.clientID, secret' = secret)
    (hattempt : ∀ e, attempt.epoch = some e → e = epoch)
    (hpending : attempt.Open → s.attempt.Open ∧ ∀ p ∈ out, ∀ secret, ¬ Brings p secret)
    (hid : ∀ e w, attempt = .answer e w → w.id.bytes = s.client.clientID) :
    Inv pc { s with
      host := host
      attempt := attempt
      up := Function.update s.up epoch rest
      down := Function.update s.down epoch (s.down epoch ++ out) } := by
  subst hepoch
  refine ⟨h.clientID, ⟨h.holds.host, hsaved, fun p hp secret' hb => ?_⟩, hrecorded, h.accepted,
    fun e he => ?_, fun e he => hattempt e he, fun hopen p hp secret => ?_,
    fun e p hp hello hhello => ?_, hid⟩
  · dsimp only at hp
    by_cases heq : s.client.transport.epoch = s.accepted
    · rw [heq, Function.update_self] at hp
      exact hbrings p (heq ▸ hp) secret' hb heq.symm
    · have hlt : s.accepted < s.client.transport.epoch := lt_of_le_of_ne h.accepted (Ne.symm heq)
      rw [Function.update_of_ne heq, h.down _ hlt] at hp
      exact absurd hp List.not_mem_nil
  · exact (Function.update_of_ne he.ne' ..).trans (h.down e he)
  · dsimp only at hp
    rw [Function.update_self] at hp
    obtain hp | hp := List.mem_append.1 hp
    · exact h.pending (hpending hopen).1 p hp secret
    · exact (hpending hopen).2 p hp secret
  · refine h.up e p ?_ hello hhello
    dsimp only at hp
    by_cases heq : e = s.accepted
    · rw [heq, Function.update_self] at hp
      exact heq ▸ hrest hp
    · rwa [Function.update_of_ne heq] at hp

/-- The host has recorded nothing and written nothing that brings a secret. -/
theorem wrote_same (h : Inv pc s) {epoch : ℕ} {rest : List Host.Packet} {host : Host.AuthState}
    {attempt : Attempt} {out : List Ipad.Packet} (hepoch : epoch = s.accepted)
    (hrest : rest ⊆ s.up epoch) (hidentity : host.identity = s.host.identity)
    (hout : ∀ p ∈ out, ∀ secret, ¬ Brings p secret)
    (hattempt : ∀ e, attempt.epoch = some e → e = epoch) (hopen : attempt.Open → s.attempt.Open)
    (hid : ∀ e w, attempt = .answer e w → w.id.bytes = s.client.clientID) :
    Inv pc { s with
      host := host
      attempt := attempt
      up := Function.update s.up epoch rest
      down := Function.update s.down epoch (s.down epoch ++ out) } := by
  refine h.wrote hepoch hrest (hidentity ▸ h.recorded) (hidentity ▸ h.holds.saved)
    (fun p hp secret' hb _ => ?_) hattempt (fun ho => ⟨hopen ho, hout⟩) hid
  obtain hp | hp := List.mem_append.1 hp
  · exact hidentity ▸ h.holds.brings p hp secret' hb
  · exact absurd hb (hout p hp secret')

theorem not_brings_of_plain {log : List Host.Effect} {host : Host.AuthState}
    {l : List Host.Effect} (hlog : host.log = log ++ l) (hl : ∀ x ∈ l, x.Plain) :
    ∀ p ∈ written log host, ∀ secret, ¬ Brings p secret := by
  intro p hp secret
  obtain ⟨q, hq, rfl⟩ := mem_written hlog hp
  exact not_brings_of_kind (hl _ hq) secret

/-- The client's handshake is read. -/
theorem serve_hello (h : Inv pc s) (draws : Host.Draws) {epoch : ℕ}
    (hattempt : s.attempt = .hello epoch) : Inv pc (step crypto s (.serve draws)) := by
  have hepoch : epoch = s.accepted := h.attempt epoch (by rw [hattempt]; rfl)
  have hopen : s.attempt.Open := by rw [hattempt]; trivial
  simp only [step, hattempt]
  cases hup : s.up epoch with
  | nil => exact h
  | cons p rest =>
    have hrest : rest ⊆ s.up epoch := hup ▸ List.subset_cons_self ..
    have hspec := Host.onHello_spec draws p s.host
    dsimp only
    unfold Ends at hspec
    generalize exec (Host.onHello draws p) s.host = out at hspec
    obtain ⟨r, host⟩ := out
    cases hspec with
    | refused e _ hplain =>
      obtain ⟨hidentity, l, hlog, hl⟩ := hplain
      exact h.wrote_same hepoch hrest hidentity (not_brings_of_plain hlog hl) nofun
        (fun _ => hopen) nofun
    | challenged w s₁ _ q hplain hid hlog hwrote _ _ hhello =>
      obtain ⟨hid₁, l, hlog₁, hl⟩ := hplain
      refine h.wrote_same hepoch hrest (hid.trans hid₁) (fun p hp secret => ?_) (fun e he => ?_)
        (fun _ => hopen) fun e w' hw => ?_
      · obtain ⟨q', hq, rfl⟩ :=
          mem_written (hlog.trans (by rw [hlog₁, List.append_assoc])) hp
        obtain hq | hq := List.mem_append.1 hq
        · exact not_brings_of_kind (hl _ hq) secret
        · cases List.mem_singleton.1 hq
          refine not_brings (fun pair hpair => ?_) secret
          cases hwrote.message.symm.trans hpair
          dsimp only
          split <;> decide
      · cases he
        rfl
      · cases hw
        obtain ⟨hello, hhello, hid'⟩ := hhello
        exact hid'.symm.trans (h.up epoch p (hup ▸ List.mem_cons_self ..) hello hhello)

/-- The client's proof is read: if the host stores a new secret, the client has none. -/
theorem serve_answer (h : Inv pc s) (draws : Host.Draws) {epoch : ℕ} {w : Host.Awaiting}
    (hattempt : s.attempt = .answer epoch w) (hunsaved : Unsaved crypto pc s (.serve draws)) :
    Inv pc (step crypto s (.serve draws)) := by
  have hepoch : epoch = s.accepted := h.attempt epoch (by rw [hattempt]; rfl)
  have hopen : s.attempt.Open := by rw [hattempt]; trivial
  have hid : w.id.bytes = s.client.clientID := h.id epoch w hattempt
  simp only [step, hattempt]
  cases hup : s.up epoch with
  | nil => exact h
  | cons p rest =>
    have hrest : rest ⊆ s.up epoch := hup ▸ List.subset_cons_self ..
    have hspec := Host.onAnswer_spec crypto draws w p s.host
    dsimp only
    unfold Ends at hspec
    generalize exec (Host.onAnswer crypto draws w p) s.host = out at hspec
    obtain ⟨r, host⟩ := out
    generalize hnext : (match r with
      | .ok _ => Attempt.session epoch
      | .error _ => .idle) = next
    have hnext_epoch : ∀ e, next.epoch = some e → e = epoch := by
      rintro e he
      cases r <;> cases hnext <;> cases he
      rfl
    have hclosed : ¬ next.Open := by cases r <;> cases hnext <;> exact fun ho => ho
    have hanswer : ∀ e w', next ≠ .answer e w' := by
      rintro e w' rfl
      exact hclosed trivial
    cases hspec with
    | refused e _ hplain _ =>
      obtain ⟨hidentity, l, hlog, hl⟩ := hplain
      exact h.wrote_same hepoch hrest hidentity (not_brings_of_plain hlog hl) hnext_epoch
        (fun ho => absurd ho hclosed) fun e w' hw => absurd hw (hanswer e w')
    | verified _ _ answer hanswer' hidentity hlog =>
      obtain ⟨l, hlog, hl⟩ := hlog
      rw [List.append_assoc] at hlog
      -- What the host writes is its proof, with the secret if the pairing is new.
      have hwritten : ∀ p ∈ written s.host.log host, ∀ secret, Brings p secret →
          w.isNew = true ∧ s.host.identity.devices.keys.length < 64 ∧ secret = draws.secret := by
        rintro p hp secret ⟨pair, hpair, -, hlength, rfl⟩
        obtain ⟨q, hq, rfl⟩ := mem_written hlog hp
        obtain hq | hq := List.mem_append.1 hq
        · split at hq <;> simp at hq
        · obtain ⟨hok, hq | ⟨q', hq, hwrote⟩⟩ := hl _ hq
          · cases hq
          · cases hq
            cases hwrote.message.symm.trans ((ipad_message_iff q pair).1 hpair)
            cases hnew : w.isNew with
            | true =>
              exact ⟨rfl, Host.Identity.room_of_trust_ok _ _ _ _ (hok hnew), by simp⟩
            | false => simp [hnew] at hlength
      by_cases hstores : w.isNew = true ∧ s.host.identity.devices.keys.length < 64
      · obtain ⟨hnew, hroom⟩ := hstores
        have hnone : s.client.keychain pc = none := hunsaved ⟨draws, epoch, w, p, rest, answer, rfl,
          hattempt, hnew, hid, hup, hanswer', hroom⟩
        have hrecord : host.identity.trusted s.client.clientID = some draws.secret := by
          rw [hidentity, if_pos hnew, Host.Identity.trust_trusted, if_pos ⟨hroom, hid.symm⟩]
        refine h.wrote hepoch hrest (fun secret hs => ?_) (fun saved hsaved => ?_)
          (fun p hp secret' hb hcurrent secret hs => ?_) hnext_epoch
          (fun ho => absurd ho hclosed) fun e w' hw => absurd hw (hanswer e w')
        · cases hrecord.symm.trans hs
          exact draws.secret_length
        · rw [hnone] at hsaved
          cases hsaved
        · cases hrecord.symm.trans hs
          obtain hp | hp := List.mem_append.1 hp
          · exact absurd hb (h.pending hopen p (hcurrent ▸ hp) secret')
          · exact (hwritten p hp secret' hb).2.2
      · have hidentity' : host.identity = s.host.identity := by
          rw [hidentity]
          split
          · rename_i hnew
            exact Host.Identity.trust_of_full _ _ _ _ fun hroom => hstores ⟨hnew, hroom⟩
          · rfl
        refine h.wrote_same hepoch hrest hidentity' (fun p hp secret hb => ?_) hnext_epoch
          (fun ho => absurd ho hclosed) fun e w' hw => absurd hw (hanswer e w')
        obtain ⟨hnew, hroom, -⟩ := hwritten p hp secret hb
        exact hstores ⟨hnew, hroom⟩

theorem step (h : Inv pc s) {a : Action} (ha : Admits pc s a) (hunsaved : Unsaved crypto pc s a) :
    Inv pc (step crypto s a) := by
  cases a with
  | client e => exact h.client ha
  | deliver env n => exact h.deliver env n
  | accept epoch =>
    obtain ⟨hlt, hle⟩ := ha
    have hdown : s.down epoch = [] := h.down epoch hlt
    refine ⟨h.clientID, h.holds, h.recorded, hle, fun e he => h.down e (hlt.trans he),
      fun e he => ?_, fun _ p hp => ?_, h.up, nofun⟩
    · cases he
      rfl
    · rw [StoredSecrets.step, hdown] at hp
      exact absurd hp List.not_mem_nil
  | serve draws =>
    cases hattempt : s.attempt with
    | hello epoch => exact h.serve_hello draws hattempt
    | answer epoch w => exact h.serve_answer draws hattempt hunsaved
    | idle => simpa only [StoredSecrets.step, hattempt] using h
    | session epoch => simpa only [StoredSecrets.step, hattempt] using h
  | message p =>
    cases hattempt : s.attempt with
    | session epoch =>
      have hepoch : epoch = s.accepted := h.attempt epoch (by rw [hattempt]; rfl)
      have hout : ∀ q ∈ [p.toIpad], ∀ secret, ¬ Brings q secret := by
        intro q hq secret
        rw [List.mem_singleton.1 hq]
        exact not_brings_of_kind ha secret
      have hsame : ∀ e, s.attempt.epoch = some e → e = epoch := by
        intro e he
        rw [hattempt] at he
        cases he
        rfl
      have hwrote := h.wrote_same hepoch (List.Subset.refl _) rfl hout hsame (fun ho => ho) h.id
      rw [Function.update_eq_self] at hwrote
      simpa only [StoredSecrets.step, hattempt] using hwrote
    | hello epoch => simpa only [StoredSecrets.step, hattempt] using h
    | answer epoch w => simpa only [StoredSecrets.step, hattempt] using h
    | idle => simpa only [StoredSecrets.step, hattempt] using h
  | giveUp =>
    exact ⟨h.clientID, h.holds, h.recorded, h.accepted, h.down, nofun, fun ho => ho.elim, h.up, nofun⟩
  | forgetAll written =>
    have hnone := s.host.identity.forgetAll_trusted written s.client.clientID
    refine ⟨h.clientID, ⟨h.holds.host, fun _ _ secret hs => ?_, fun _ _ _ _ secret hs => ?_⟩,
      fun secret hs => ?_, h.accepted, h.down, h.attempt, h.pending, h.up, h.id⟩
    · cases hnone.symm.trans hs
    · cases hnone.symm.trans hs
    · cases hnone.symm.trans hs

theorem agree (h : Inv pc s) : Agree crypto pc s := by
  intro saved secret hsaved hsecret
  have heq : saved.secret = secret := h.holds.saved saved hsaved secret hsecret
  subst heq
  refine ⟨rfl, fun cert nonce hnonce => ⟨?_, decide_eq_true rfl⟩⟩
  have hlength := h.recorded _ hsecret
  exact Host.verify_eq_ok.2 ⟨⟨h.clientID, hnonce, by omega⟩, rfl⟩

end Inv

/-! ### Runs -/

/-- **The stored secrets agree.**  In every run in which the host stores a new secret
only while the client has none saved, a saved and a recorded secret are equal in
every state, so that the proofs of a reconnect verify in both directions. -/
theorem stored_secrets_agree (crypto : Crypto) (pc : String) (s : World)
    (h : Reaches (step crypto) (Init pc) (fun s a => Admits pc s a ∧ Unsaved crypto pc s a) s) :
    Agree crypto pc s :=
  (h.invariant (I := Inv pc) (fun _ h => h.inv) fun _ _ h ha => h.step ha.1 ha.2).agree

def sampleWorld : World where
  client := { clientID := List.replicate 16 7 }
  host := { identity := { hostId := List.replicate 16 8, cert := [1] } }

/-- The client connects, and the user enters the code that the host shows. -/
def samplePairing (epoch : ℕ) (n : UInt8) : List Action :=
  [.client ({}, .connect ⟨"pc", "PC"⟩), .client ({}, .certificate [1]), .client ({}, .groupReady),
    .client ({}, .controlReady), .accept epoch, .serve (.sample n), .deliver {} 3,
    .client ({}, .pair "11111111111111111111111111111111"), .serve (.sample n)]

theorem sample_init : Init "pc" sampleWorld :=
  ⟨rfl, rfl, rfl, rfl, rfl, rfl, le_rfl, rfl, rfl⟩

/-- The first pairing, with the packet that ends it. -/
def sampleFirst : List Action :=
  samplePairing 1 1 ++ [.deliver {} 1]

theorem sample_unsaved : Along (step .sample)
    (fun s a => Admits "pc" s a ∧ Unsaved .sample "pc" s a) sampleWorld sampleFirst :=
  have admitted {s : World} {a : Action} (ha : Admits "pc" s a) (h : s.client.keychain "pc" = none) :
      Admits "pc" s a ∧ Unsaved .sample "pc" s a := ⟨ha, fun _ => h⟩
  ⟨admitted rfl rfl, admitted rfl rfl, admitted trivial rfl, admitted trivial rfl,
    admitted ⟨by decide +kernel, by decide +kernel⟩ rfl, admitted trivial (by decide +kernel),
    admitted trivial (by decide +kernel),
    admitted (show SessionModel.state _ = .pairing by decide +kernel) (by decide +kernel),
    admitted trivial (by decide +kernel), admitted trivial (by decide +kernel), trivial⟩

/-- The hypotheses of `stored_secrets_agree` are satisfiable: behind the first pairing
both sides have stored the secret that the host has drawn. -/
theorem stored_secrets_agree_sample : ∃ s : World,
    (s.client.keychain "pc").map Ipad.TrustedHost.secret = some (List.replicate 32 1) ∧
      s.host.identity.trusted s.client.clientID = some (List.replicate 32 1) ∧
      Agree .sample "pc" s :=
  ⟨sampleFirst.foldl (step .sample) sampleWorld, by decide +kernel, by decide +kernel,
    stored_secrets_agree .sample "pc" _ ((Reaches.init sample_init).along sample_unsaved)⟩

/-- The condition is needed at every step: a new secret that the host stores while the
client has another one saved leaves them with different secrets. -/
theorem stores_disagrees {draws : Host.Draws} {saved : Ipad.TrustedHost}
    (h : Stores crypto s (.serve draws)) (hsaved : s.client.keychain pc = some saved)
    (hsecret : saved.secret ≠ draws.secret) : ¬ Agree crypto pc (step crypto s (.serve draws)) := by
  obtain ⟨_, epoch, w, p, rest, answer, ⟨⟩, hattempt, hnew, hid, hup, hanswer, hroom⟩ := h
  have hspec := Host.onAnswer_spec crypto draws w p s.host
  intro hagree
  simp only [step, hattempt, hup] at hagree
  unfold Ends at hspec
  generalize exec (Host.onAnswer crypto draws w p) s.host = out at hspec hagree
  obtain ⟨r, host⟩ := out
  cases hspec with
  | refused _ _ _ hrefused => exact hrefused answer hanswer
  | verified _ _ _ _ hidentity =>
    have hrecord : host.identity.trusted s.client.clientID = some draws.secret := by
      rw [hidentity, if_pos hnew, Host.Identity.trust_trusted, if_pos ⟨hroom, hid.symm⟩]
    exact hsecret (hagree saved draws.secret hsaved hrecord).1

/-- They pair, the host forgets the client and pairs anew, and the connection breaks
before the host's proof arrives. -/
def sampleBreak : List Action :=
  samplePairing 1 1 ++ [.deliver {} 1, .forgetAll true, .giveUp] ++ samplePairing 2 2 ++
    [.client ({}, .transportFailed)]

theorem sample_admits : Along (step .sample) (Admits "pc") sampleWorld sampleBreak :=
  ⟨rfl, rfl, trivial, trivial, ⟨by decide +kernel, by decide +kernel⟩, trivial, trivial,
    (show SessionModel.state _ = .pairing by decide +kernel), trivial,
    trivial, trivial, trivial,
    rfl, (show ([1] : Bytes) = _ by decide +kernel), trivial, trivial,
    ⟨by decide +kernel, by decide +kernel⟩, trivial, trivial,
    (show SessionModel.state _ = .pairing by decide +kernel),
    trivial, trivial, trivial⟩

/-- The property fails: behind this run the client has saved the first secret, and the
host has recorded the second. -/
theorem stored_secrets_diverge : ¬ ∀ (crypto : Crypto) (pc : String) (s : World),
    Reaches (step crypto) (Init pc) (Admits pc) s → Agree crypto pc s := by
  intro h
  have hagree := h .sample "pc" _ ((Reaches.init sample_init).along sample_admits)
  have hsaved : ((sampleBreak.foldl (step .sample) sampleWorld).client.keychain "pc").map
      Ipad.TrustedHost.secret = some (List.replicate 32 1) := by decide +kernel
  have hrecord : (sampleBreak.foldl (step .sample) sampleWorld).host.identity.trusted
      (sampleBreak.foldl (step .sample) sampleWorld).client.clientID =
        some (List.replicate 32 2) := by decide +kernel
  obtain ⟨saved, hsaved, hsecret⟩ := Option.map_eq_some_iff.1 hsaved
  have heq := (hagree saved _ hsaved hrecord).1
  rw [hsecret] at heq
  exact absurd heq (by decide)

end StoredSecrets
end SidecarDOS
