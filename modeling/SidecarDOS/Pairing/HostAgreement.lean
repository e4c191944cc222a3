/-
# Whom the host authenticates

The host, one attempt after another, and any number of honest clients, in the
hands of an attacker who delivers what packets he likes to whom he likes in any
order.  He can compute an HMAC tag only with a key he knows, and he can pass on
the tags that honest parties have computed (`Made`).  `host_agreement`: behind
`authenticate` stands a proof that a client of that id computed in this very
attempt, with the key of this attempt, for the host's own certificate, and no
device is trusted before.

What carries it is that a tag's input shows its role, certificate, client and
nonce (`proofInput_inj`), and that no proof with the attempt's nonce is older
than the attempt (`Inv`).
-/

import SidecarDOS.Client.Callbacks
import SidecarDOS.Host.Attempt
import SidecarDOS.Protocol.Codec
import SidecarDOS.Library.Runs

namespace SidecarDOS
namespace HostAgreement

open Library (Reaches Ends exec)
open Ipad (SessionModel)

variable {ι : Type}

/-- Where the host's task is.  Behind the challenge stand, for the record, how much
each client had done and which secrets were stored when it was made. -/
inductive Stage (ι : Type) where
  | idle
  | hello
  | answer (w : Host.Awaiting) (since : ι → ℕ) (stored : Host.Identity)

/-- The host, what it did in earlier attempts, and the clients. -/
structure World (ι : Type) where
  host : Host.AuthState
  past : List Host.Effect := []
  stage : Stage ι := .idle
  clients : ι → SessionModel

inductive Action (ι : Type) where
  /-- A new connection; an attempt that was still running is given up. -/
  | accept
  | receive (draws : Host.Draws) (p : Host.Packet)
  | forgetAll (written : Bool)
  | client (i : ι) (e : Ipad.Moment × SessionModel.Event)

def step [DecidableEq ι] (crypto : Crypto) (s : World ι) : Action ι → World ι
  | .accept => { s with
      host := { identity := s.host.identity }
      past := s.past ++ s.host.log
      stage := .hello }
  | .receive draws p =>
    match s.stage with
    | .idle => s
    | .hello =>
      let out := exec (Host.onHello draws p) s.host
      { s with
        host := out.2
        stage := match out.1 with
          | .ok w => .answer w (fun i => (s.clients i).log.length) s.host.identity
          | .error _ => .idle }
    | .answer w _ _ => { s with host := (exec (Host.onAnswer crypto draws w p) s.host).2, stage := .idle }
  | .forgetAll written =>
    { s with host := { s.host with identity := (s.host.identity.forgetAll written).2 } }
  | .client i e => { s with clients := Function.update s.clients i ((s.clients i).step crypto e) }

/-- The attacker's rule: a tag in a packet for the host comes from a key he knows,
from a client or from the host. -/
def Made (crypto : Crypto) (known : Set Bytes) (s : World ι) (p : Host.Packet) : Prop :=
  ∀ answer : Pairing, p.message Pairing = .ok answer →
    ∀ key input, answer.proof = crypto.hmac key input → key ∈ known ∨
      (∃ i cert client nonce, .proved key cert client nonce ∈ (s.clients i).log ∧
        input = proofInput crypto cert client nonce 1) ∨
      ∃ client nonce, .proved key client nonce ∈ s.past ++ s.host.log ∧
        input = proofInput crypto s.host.identity.cert client nonce 2

/-- Codes and secrets are drawn that the attacker never learns, and nonces that no
client has seen. -/
structure Fresh (known : Set Bytes) (s : World ι) (draws : Host.Draws) : Prop where
  code : draws.code ∉ known
  secret : draws.secret ∉ known
  nonce : ∀ i key cert client, .proved key cert client draws.nonce ∉ (s.clients i).log

/-- What the attacker and the platform may do. -/
def Admits (crypto : Crypto) (known : Set Bytes) (s : World ι) : Action ι → Prop
  | .receive draws p => Fresh known s draws ∧ Made crypto known s p
  | _ => True

/-- The start: no attempt yet, and the attacker knows no stored secret. -/
structure Init (known : Set Bytes) (cert : Bytes) (s : World ι) : Prop where
  cert : s.host.identity.cert = cert
  stored : ∀ id key, s.host.identity.trusted id = some key → key ∉ known
  stage : s.stage = .idle
  log : s.host.log = []
  past : s.past = []
  clients : ∀ i, (s.clients i).log = []

/-- `authenticate` returns `Ok` for the client `id`. -/
def Accepts (crypto : Crypto) (s : World ι) (a : Action ι) (id : Id16) : Prop :=
  ∃ draws p w since stored name, a = .receive draws p ∧ s.stage = .answer w since stored ∧
    (exec (Host.onAnswer crypto draws w p) s.host).1 = .ok (id, name)

/-- `identity.trust` is called for the client `id`. -/
def Trusts [DecidableEq ι] (crypto : Crypto) (s : World ι) (a : Action ι) (id : Id16) : Prop :=
  ∃ secret, .trusted id secret ∈ (step crypto s a).host.log.drop s.host.log.length

/-- The host's attempt is with the client `id`: since its challenge an honest client
with this id has computed a proof, under the code shown in this attempt or the
stored secret, for the host's certificate and the nonce of this attempt. -/
def Agreed (s : World ι) (id : Id16) : Prop :=
  ∃ w since stored, s.stage = .answer w since stored ∧ w.id = id ∧
    (∃ i, (s.clients i).clientID = id.bytes ∧
      .proved w.key s.host.identity.cert id.bytes w.nonce ∈ (s.clients i).log.drop (since i)) ∧
    (w.isNew = true → .shown w.name w.key ∈ s.host.log) ∧
    (w.isNew = false → stored.trusted id.bytes = some w.key)

/-! ### The invariant -/

/-- What the challenge has fixed. -/
structure Challenged (known : Set Bytes) (s : World ι) (w : Host.Awaiting) (since : ι → ℕ)
    (stored : Host.Identity) : Prop where
  key : w.key ∉ known
  nonce : w.nonce.length = 32
  since : ∀ i, ∃ old new, (s.clients i).log = old ++ new ∧ old.length = since i ∧
    ∀ key cert client, .proved key cert client w.nonce ∉ old
  shown : w.isNew = true → .shown w.name w.key ∈ s.host.log
  stored : w.isNew = false → stored.trusted w.id.bytes = some w.key

structure Inv (known : Set Bytes) (cert : Bytes) (s : World ι) : Prop where
  cert : s.host.identity.cert = cert
  stored : ∀ id key, s.host.identity.trusted id = some key → key ∉ known
  clients : ∀ i key c client nonce, .proved key c client nonce ∈ (s.clients i).log →
    client = (s.clients i).clientID ∧ nonce.length = 32
  proofs : ∀ key client nonce, .proved key client nonce ∈ s.past ++ s.host.log → nonce.length = 32
  challenged : ∀ w since stored, s.stage = .answer w since stored →
    Challenged known s w since stored

variable {crypto : Crypto} {known : Set Bytes} {cert : Bytes} {s : World ι}

theorem Init.inv (h : Init known cert s) : Inv known cert s where
  cert := h.cert
  stored := h.stored
  clients i key c client nonce hx := by rw [h.clients] at hx; exact absurd hx List.not_mem_nil
  proofs key client nonce hx := by rw [h.past, h.log] at hx; exact absurd hx List.not_mem_nil
  challenged w since stored hs := by rw [h.stage] at hs; cases hs

namespace Inv

/-- The two secrets the host can come to hold. -/
theorem trust_stored (h : Inv known cert s) {id key : Bytes} {written : Bool} (hkey : key ∉ known) :
    ∀ id' key', (s.host.identity.trust id key written).2.trusted id' = some key' →
      key' ∉ known := by
  intro id' key' htrusted
  rw [Host.Identity.trust_trusted] at htrusted
  split at htrusted
  · cases htrusted
    exact hkey
  · exact h.stored id' key' htrusted

/-- The host has gone on and has done `l`. -/
theorem of_host (h : Inv known cert s) {host : Host.AuthState} {stage : Stage ι}
    {l : List Host.Effect} (hcert : host.identity.cert = s.host.identity.cert)
    (hstored : ∀ id key, host.identity.trusted id = some key → key ∉ known)
    (hlog : host.log = s.host.log ++ l)
    (hl : ∀ key client nonce, .proved key client nonce ∈ l → nonce.length = 32)
    (hstage : ∀ w since stored, stage = .answer w since stored →
      Challenged known { s with host := host, stage := stage } w since stored) :
    Inv known cert { s with host := host, stage := stage } where
  cert := hcert.trans h.cert
  stored := hstored
  clients := h.clients
  proofs key client nonce hx := by
    rw [hlog, ← List.append_assoc] at hx
    obtain hx | hx := List.mem_append.1 hx
    · exact h.proofs key client nonce hx
    · exact hl key client nonce hx
  challenged := hstage

/-- An attempt that ends without a proof. -/
theorem refused (h : Inv known cert s) {host : Host.AuthState} (hplain : Host.Plain s.host host) :
    Inv known cert { s with host := host, stage := .idle } := by
  obtain ⟨hid, l, hlog, hl⟩ := hplain
  exact h.of_host (hid ▸ rfl) (hid ▸ h.stored) hlog (fun k c n hx => (hl _ hx).elim) nofun

variable [DecidableEq ι]

/-- The first stretch: the nonce is new to every client, the key to the attacker. -/
theorem hello (h : Inv known cert s) {draws : Host.Draws} (hfresh : Fresh known s draws)
    (p : Host.Packet) (hstage : s.stage = .hello) :
    Inv known cert (step crypto s (.receive draws p)) := by
  have hspec := Host.onHello_spec draws p s.host
  simp only [step, hstage]
  unfold Ends at hspec
  generalize exec (Host.onHello draws p) s.host = out at hspec
  obtain ⟨r, host⟩ := out
  cases hspec with
  | refused e _ hplain => exact h.refused hplain
  | challenged w s₁ _ q hplain hid hlog _ hnonce hnew _ hstored =>
    obtain ⟨hid₁, l, hlog₁, hl⟩ := hplain
    have hid' : host.identity = s.host.identity := hid.trans hid₁
    refine h.of_host (hid' ▸ rfl) (hid' ▸ h.stored)
      (hlog.trans (by rw [hlog₁, List.append_assoc])) (fun k c n hx => ?_) ?_
    · obtain hx | hx := List.mem_append.1 hx
      · exact (hl _ hx).elim
      · cases List.mem_singleton.1 hx
    · rintro w' since stored ⟨⟩
      refine ⟨?_, hnonce ▸ draws.nonce_length, fun i => ?_, fun hw => ?_, hstored⟩
      · cases hw : w.isNew with
        | true => rw [(hnew hw).1]; exact hfresh.code
        | false => exact h.stored _ _ (hstored hw)
      · exact ⟨_, [], (List.append_nil _).symm, rfl, hnonce ▸ fun k c cl => hfresh.nonce i k c cl⟩
      · exact hlog ▸ List.mem_append_left _ (hnew hw).2

/-- The second stretch: what is trusted is a secret the attacker does not know. -/
theorem answer (h : Inv known cert s) {draws : Host.Draws} (hfresh : Fresh known s draws)
    (p : Host.Packet) {w : Host.Awaiting} {since : ι → ℕ} {stored : Host.Identity}
    (hstage : s.stage = .answer w since stored) :
    Inv known cert (step crypto s (.receive draws p)) := by
  have hspec := Host.onAnswer_spec crypto draws w p s.host
  simp only [step, hstage]
  unfold Ends at hspec
  generalize exec (Host.onAnswer crypto draws w p) s.host = out at hspec
  obtain ⟨r, host⟩ := out
  cases hspec with
  | refused e _ hplain _ => exact h.refused hplain
  | verified _ _ answer hanswer hid hlog hr =>
    obtain ⟨l, hlog, hl⟩ := hlog
    refine h.of_host ?_ ?_ (hlog.trans (List.append_assoc ..)) (fun k c n hx => ?_) nofun
    · rw [hid]
      split <;> simp
    · rw [hid]
      split
      · exact h.trust_stored hfresh.secret
      · exact h.stored
    · obtain hx | hx := List.mem_append.1 hx
      · split at hx <;> simp at hx
      · obtain ⟨-, hx | ⟨_, hx, _⟩⟩ := hl _ hx
        · cases hx
          exact (Host.verify_eq_ok.1 hanswer.verified).1.2.1
        · cases hx

theorem client (h : Inv known cert s) (i : ι) (e : Ipad.Moment × SessionModel.Event) :
    Inv known cert (step crypto s (.client i e)) where
  cert := h.cert
  stored := h.stored
  clients j key c client nonce hx := by
    dsimp only [step] at hx ⊢
    by_cases hj : j = i
    · subst hj
      rw [Function.update_self] at hx ⊢
      obtain ⟨hid, l, hlog, hl⟩ := SessionModel.step_honest crypto (s.clients j) e
      rw [hlog] at hx
      obtain hx | hx := List.mem_append.1 hx
      · exact hid ▸ h.clients j key c client nonce hx
      · exact hid ▸ hl _ hx
    · rw [Function.update_of_ne hj] at hx ⊢
      exact h.clients j key c client nonce hx
  proofs := h.proofs
  challenged w since stored hs := by
    obtain ⟨hkey, hnonce, hsince, hshown, hstored⟩ := h.challenged w since stored hs
    refine ⟨hkey, hnonce, fun j => ?_, hshown, hstored⟩
    obtain ⟨old, new, hlog, hlen, hold⟩ := hsince j
    dsimp only [step]
    by_cases hj : j = i
    · subst hj
      rw [Function.update_self]
      obtain ⟨-, l, hl, -⟩ := SessionModel.step_honest crypto (s.clients j) e
      exact ⟨old, new ++ l, by rw [hl, hlog, List.append_assoc], hlen, hold⟩
    · rw [Function.update_of_ne hj]
      exact ⟨old, new, hlog, hlen, hold⟩

theorem step (h : Inv known cert s) {a : Action ι} (ha : Admits crypto known s a) :
    Inv known cert (step crypto s a) := by
  cases a with
  | accept =>
    refine ⟨h.cert, h.stored, h.clients, ?_, nofun⟩
    simpa only [HostAgreement.step, List.append_nil] using h.proofs
  | receive draws p =>
    cases hstage : s.stage with
    | idle => simpa only [HostAgreement.step, hstage] using h
    | hello => exact h.hello ha.1 p hstage
    | answer w since stored => exact h.answer ha.1 p hstage
  | forgetAll written =>
    refine ⟨?_, fun id key hk => ?_, h.clients, h.proofs, fun w since stored hs => ?_⟩
    · exact (Host.Identity.forgetAll_cert ..).trans h.cert
    · rw [HostAgreement.step, Host.Identity.forgetAll_trusted] at hk
      cases hk
    · obtain ⟨hkey, hnonce, hsince, hshown, hstored⟩ := h.challenged w since stored hs
      exact ⟨hkey, hnonce, hsince, hshown, hstored⟩
  | client i e => exact h.client i e

omit [DecidableEq ι] in
/-- Only a client's own proof verifies: the attacker does not know the key, and the
host's proofs have another role. -/
theorem agreed (h : Inv known cert s) (hash : ∀ data, (crypto.sha256 data).length = 32)
    (hcert : ∀ data, crypto.sha256 data = crypto.sha256 cert → data = cert) {p : Host.Packet}
    (hmade : Made crypto known s p) {w : Host.Awaiting} {since : ι → ℕ} {stored : Host.Identity}
    (hstage : s.stage = .answer w since stored) {answer : Pairing}
    (hanswer : Host.Answers crypto s.host w p answer) : Agreed s w.id := by
  obtain ⟨hkey, hnonce, hsince, hshown, hstored⟩ := h.challenged w since stored hstage
  refine ⟨w, since, stored, hstage, rfl, ?_, hshown, hstored⟩
  obtain hk | ⟨i, cert', client, nonce, hx, hinput⟩ | ⟨client, nonce, hx, hinput⟩ :=
    hmade answer hanswer.message w.key _ (Host.verify_eq_ok.1 hanswer.verified).2
  · exact absurd hk hkey
  · obtain ⟨hclient, hlen⟩ := h.clients i _ _ _ _ hx
    obtain ⟨-, hsha, hid, rfl⟩ := proofInput_inj hash (hnonce.trans hlen.symm) hinput
    obtain rfl : cert' = s.host.identity.cert := by
      rw [h.cert] at hsha ⊢
      exact hcert _ hsha.symm
    obtain ⟨old, new, hlog, hold_length, hold⟩ := hsince i
    refine ⟨i, (hid.trans hclient).symm, ?_⟩
    rw [hlog, ← hold_length, List.drop_left, hid]
    rw [hlog] at hx
    exact (List.mem_append.1 hx).resolve_left (hold _ _ _)
  · have hlen := h.proofs _ _ _ hx
    obtain ⟨hrole, -⟩ := proofInput_inj hash (hnonce.trans hlen.symm) hinput
    exact absurd hrole (by decide)

end Inv

/-- The answer that the host verifies in a step. -/
def Verifies (crypto : Crypto) (s : World ι) (a : Action ι) (id : Id16) : Prop :=
  ∃ draws p w since stored answer, a = .receive draws p ∧ s.stage = .answer w since stored ∧
    w.id = id ∧ Host.Answers crypto s.host w p answer

theorem Accepts.verifies {a : Action ι} {id : Id16} (h : Accepts crypto s a id) :
    Verifies crypto s a id := by
  obtain ⟨draws, p, w, since, stored, name, rfl, hstage, hok⟩ := h
  have hspec := Host.onAnswer_spec crypto draws w p s.host
  unfold Ends at hspec
  rw [hok] at hspec
  cases hspec with
  | verified _ _ answer hanswer _ _ hr =>
    exact ⟨draws, p, w, since, stored, answer, rfl, hstage, (Prod.ext_iff.1 (hr _ rfl)).1.symm,
      hanswer⟩

theorem Trusts.verifies [DecidableEq ι] {a : Action ι} {id : Id16} (h : Trusts crypto s a id) :
    Verifies crypto s a id := by
  obtain ⟨secret, hx⟩ := h
  cases a with
  | accept => simp [step] at hx
  | forgetAll written => rw [step, List.drop_length] at hx; cases hx
  | client i e => rw [step, List.drop_length] at hx; cases hx
  | receive draws p =>
    cases hstage : s.stage with
    | idle => simp only [step, hstage, List.drop_length] at hx; cases hx
    | hello =>
      have hspec := Host.onHello_spec draws p s.host
      simp only [step, hstage] at hx
      unfold Ends at hspec
      generalize exec (Host.onHello draws p) s.host = out at hspec hx
      obtain ⟨r, host⟩ := out
      cases hspec with
      | refused e _ hplain =>
        obtain ⟨-, l, hlog, hl⟩ := hplain
        rw [hlog, List.drop_left] at hx
        exact (hl _ hx).elim
      | challenged w s₁ _ q hplain _ hlog =>
        obtain ⟨-, l, hlog₁, hl⟩ := hplain
        rw [hlog, hlog₁, List.append_assoc, List.drop_left] at hx
        obtain hx | hx := List.mem_append.1 hx
        · exact (hl _ hx).elim
        · cases List.mem_singleton.1 hx
    | answer w since stored =>
      have hspec := Host.onAnswer_spec crypto draws w p s.host
      simp only [step, hstage] at hx
      unfold Ends at hspec
      generalize exec (Host.onAnswer crypto draws w p) s.host = out at hspec hx
      obtain ⟨r, host⟩ := out
      cases hspec with
      | refused e _ hplain _ =>
        obtain ⟨-, l, hlog, hl⟩ := hplain
        rw [hlog, List.drop_left] at hx
        exact (hl _ hx).elim
      | verified _ _ answer hanswer _ hlog =>
        refine ⟨draws, p, w, since, stored, answer, rfl, hstage, ?_, hanswer⟩
        obtain ⟨l, hlog, hl⟩ := hlog
        rw [hlog, List.append_assoc, List.drop_left] at hx
        obtain hx | hx := List.mem_append.1 hx
        · split at hx
          · cases List.mem_singleton.1 hx
            rfl
          · cases hx
        · obtain ⟨-, hx | ⟨_, hx, _⟩⟩ := hl _ hx <;> cases hx

/-- **Whom the host authenticates.**  Against an attacker who controls every
connection and never learns a code or a stored secret, the host authenticates a
client, and trusts it, only when an honest client of that id has computed the
proof: in this attempt, with this attempt's key, and for the host's own certificate. -/
theorem host_agreement [DecidableEq ι] (crypto : Crypto) (known : Set Bytes) (cert : Bytes)
    (hash : ∀ data, (crypto.sha256 data).length = 32)
    (hcert : ∀ data, crypto.sha256 data = crypto.sha256 cert → data = cert) (s : World ι)
    (h : Reaches (step crypto) (Init known cert) (Admits crypto known) s) (a : Action ι)
    (ha : Admits crypto known s a) (id : Id16) (hid : Accepts crypto s a id ∨ Trusts crypto s a id) :
    Agreed s id := by
  have hinv : Inv known cert s := h.invariant (fun _ h => h.inv) fun _ _ h ha => h.step ha
  obtain ⟨draws, p, w, since, stored, answer, rfl, hstage, rfl, hanswer⟩ :=
    hid.elim Accepts.verifies Trusts.verifies
  exact hinv.agreed hash hcert ha.2 hstage hanswer

/-! ### A run -/

/-- A client that is connected to the host, and no attempt at the host yet. -/
def sampleWorld : World Unit where
  host := { identity := { hostId := List.replicate 16 8, cert := [1] } }
  clients _ :=
    { clientID := List.replicate 16 7
      transport := { certificate := [1], group := true, control := true, reading := true } }

/-- The client's answer to the challenge. -/
def sampleAnswer : Pairing :=
  ⟨2, List.replicate 32 0, Host.proof .sample (List.replicate 16 17) [1] (List.replicate 16 7)
    (List.replicate 32 0) 1, []⟩

/-- The client says hello, is challenged and gets the code. -/
def sampleActions : List (Action Unit) :=
  [.accept,
    .receive (.sample 0)
      (.new (⟨1, 1, 0, List.replicate 16 7, "iPad", 0⟩ : Handshake) 1 .zero),
    .client () ({}, .received (.ok [.new (⟨0, List.replicate 32 0, [], []⟩ : Pairing) 1
      (List.replicate 16 0)])),
    .client () ({}, .pair "11111111111111111111111111111111")]

def sampleAnswers : Action Unit :=
  .receive (.sample 1) (.new sampleAnswer 2 .zero)

theorem sample_log : ((sampleActions.foldl (step .sample) sampleWorld).clients ()).log.all (fun
    | .proved _ _ _ nonce => nonce = List.replicate 32 0
    | _ => true) = true := by decide +kernel

theorem sample_proved : .proved (List.replicate 16 17) [1] (List.replicate 16 7)
    (List.replicate 32 0) ∈ ((sampleActions.foldl (step .sample) sampleWorld).clients ()).log := by
  decide +kernel

theorem sample_accepts : Accepts .sample (sampleActions.foldl (step .sample) sampleWorld)
    sampleAnswers ⟨List.replicate 16 7, rfl⟩ := by
  have hstage : (match (sampleActions.foldl (step .sample) sampleWorld).stage with
    | .answer w _ _ => decide (w = ⟨⟨List.replicate 16 7, rfl⟩, "iPad", List.replicate 16 17, true,
        List.replicate 32 0⟩)
    | _ => false) = true := by decide +kernel
  cases h : (sampleActions.foldl (step .sample) sampleWorld).stage with
  | idle => simp [h] at hstage
  | hello => simp [h] at hstage
  | answer w since stored =>
    rw [h] at hstage
    obtain rfl := of_decide_eq_true hstage
    exact ⟨_, _, _, since, stored, "iPad", rfl, h, by decide +kernel⟩

/-- The hypotheses of `host_agreement` are satisfiable: a client pairs with the host. -/
theorem host_agreement_sample :
    Agreed (sampleActions.foldl (step .sample) sampleWorld) ⟨List.replicate 16 7, rfl⟩ := by
  have hcert : ∀ data, Crypto.sample.sha256 data = Crypto.sample.sha256 [1] → data = [1] := by
    intro data h
    by_contra hdata
    simp [Crypto.sample, hdata] at h
  have hinit : Init {[]} [1] sampleWorld :=
    ⟨rfl, nofun, rfl, rfl, rfl, fun _ => rfl⟩
  have hmade : ∀ (s : World Unit) p, p.kind ≠ Host.Wire.KIND Pairing → Made .sample {[]} s p :=
    fun s p hp answer h => absurd (Host.Packet.message_eq_ok.1 h).1 hp
  have hhello : Admits .sample {[]} (step .sample sampleWorld .accept) (.receive (.sample 0)
      (.new (⟨1, 1, 0, List.replicate 16 7, "iPad", 0⟩ : Handshake) 1 .zero)) :=
    ⟨⟨by decide, by decide, fun _ _ _ _ => List.not_mem_nil⟩, hmade _ _ (by decide)⟩
  have hrun : Reaches (step .sample) (Init {[]} [1]) (Admits .sample {[]})
      (sampleActions.foldl (step .sample) sampleWorld) :=
    (Reaches.init hinit).along ⟨trivial, hhello, trivial, trivial, trivial⟩
  refine host_agreement .sample {[]} [1] (fun _ => List.length_replicate) hcert _ hrun sampleAnswers
    ⟨⟨by decide, by decide, fun i key cert client hx => ?_⟩, ?_⟩ _ (.inl sample_accepts)
  · have hnonce := of_decide_eq_true (List.all_eq_true.1 sample_log _ hx)
    exact absurd hnonce (by decide)
  · intro answer hanswer key input htag
    rw [host_message_new ((valid_pairing _).2 (by decide +kernel))] at hanswer
    cases hanswer
    obtain ⟨rfl, rfl⟩ := Crypto.sample_hmac_inj htag
    exact .inr (.inl ⟨(), _, _, _, sample_proved, rfl⟩)

end HostAgreement
end SidecarDOS
