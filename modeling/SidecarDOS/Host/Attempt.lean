/-
# What an authentication attempt does

One lemma for each stretch of `authenticate`.  `onHello` changes no identity and
challenges the client with a nonce it has just drawn, under the code it shows or
the secret it has stored (`onHello_spec`).  `onAnswer` does nothing unless the
answer carries the client's proof under that key; behind the proof it may trust
the device and answers with the host's proof (`onAnswer_spec`).
-/

import SidecarDOS.Host.Authenticate
import SidecarDOS.Protocol.Codec
import SidecarDOS.Library.Stateful

namespace SidecarDOS
namespace Host

open Library (Ends ends_pure ends_throw ends_bind ends_get ends_modify ends_demand)

/-- `v` as `control.send` writes it. -/
def Wrote {T : Type} [Wire T] (v : T) (p : Packet) : Prop :=
  (∃ sequence session, p = Packet.new v sequence session) ∧ p.encode.length ≤ MAX_CONTROL

/-- A `Pairing` message is short enough to be read back. -/
theorem Wrote.message {v : Pairing} {p : Packet} (h : Wrote v p) : p.message Pairing = .ok v := by
  obtain ⟨⟨sequence, session, rfl⟩, hlen⟩ := h
  have hbytes : ∀ b : Bytes, (Schema.bytes.put b).length = 4 + b.length := fun b => by
    rw [show Schema.bytes.put b = Library.toLE 4 b.length ++ b from rfl, List.length_append,
      Library.length_toLE]
  have hbody : (Packet.new v sequence session).body.length ≤ MAX_FRAME := by
    rw [Packet.encode_eq, length_envelope (Packet.new v sequence session).session.length_eq] at hlen
    exact (Nat.le_add_left ..).trans (hlen.trans (by decide))
  have hput : (Schema.format Pairing).put v = [v.phase] ++ (Schema.bytes.put v.nonce ++
    (Schema.bytes.put v.proof ++ (Schema.bytes.put v.secret ++ []))) := rfl
  rw [Packet.new_message, hput] at hbody
  simp only [List.length_append, hbytes] at hbody
  exact host_message_new ((valid_pairing v).2 ⟨by omega, by omega, by omega⟩) sequence session

/-- A code was shown, or a message was sent that does not belong to pairing. -/
def Effect.Plain : Effect → Prop
  | .shown _ _ => True
  | .sent p => p.kind ≠ Wire.KIND Pairing
  | _ => False

/-- Nothing happened but such effects. -/
structure Plain (s s' : AuthState) : Prop where
  identity : s'.identity = s.identity
  log : ∃ l, s'.log = s.log ++ l ∧ ∀ x ∈ l, x.Plain

namespace Plain

variable {s s' s'' : AuthState}

theorem same (hid : s'.identity = s.identity) (hlog : s'.log = s.log) : Plain s s' :=
  ⟨hid, [], by rw [hlog, List.append_nil], fun _ hx => absurd hx List.not_mem_nil⟩

theorem refl (s : AuthState) : Plain s s := same rfl rfl

theorem trans (h : Plain s s') (h' : Plain s' s'') : Plain s s'' := by
  obtain ⟨hid, l, hl, hp⟩ := h
  obtain ⟨hid', l', hl', hp'⟩ := h'
  refine ⟨hid'.trans hid, l ++ l', by rw [hl', hl, List.append_assoc], fun x hx => ?_⟩
  obtain hx | hx := List.mem_append.1 hx
  · exact hp x hx
  · exact hp' x hx

end Plain

namespace Auth

variable {s : AuthState}

theorem check_bind {α : Type} {cond : Prop} [Decidable cond] {text : String} {k : Unit → Auth α}
    {Q : Except Error α → AuthState → Prop} (hok : cond → Ends (k ()) s Q)
    (herror : ∀ e, ¬ cond → Q (.error e) s) : Ends (check cond text >>= k) s Q :=
  ends_bind.2 (ends_demand.2 ⟨hok, herror _⟩)

theorem lift_bind {α β : Type} {x : Except Error α} {k : α → Auth β}
    {Q : Except Error β → AuthState → Prop} (hok : ∀ a, x = .ok a → Ends (k a) s Q)
    (herror : ∀ e, x = .error e → Q (.error e) s) : Ends (lift x >>= k) s Q := by
  cases x with
  | ok a => exact hok a rfl
  | error e => exact herror e rfl

/-- `control.send` keeps the identity, and it has written one packet or it fails. -/
theorem send_spec {T : Type} [Wire T] (draws : Draws) (v : T) :
    Ends (send draws v) s fun r s' => s'.identity = s.identity ∧
      (s'.log = s.log ∧ (∃ e, r = .error e) ∨ ∃ p, Wrote v p ∧
        s'.log = s.log ++ [.sent p] ∧ r = .ok ()) := by
  unfold send
  refine ends_bind.2 (ends_modify.2 (ends_bind.2 (ends_get.2 ?_)))
  refine check_bind (fun hlen => .ite (fun _ => ?_) fun _ => ?_) fun e =>
    fun _ => ⟨rfl, .inl ⟨rfl, e, rfl⟩⟩
  · exact ends_bind.2 (ends_throw.2 ⟨rfl, .inl ⟨rfl, _, rfl⟩⟩)
  · exact ⟨rfl, .inr ⟨_, ⟨⟨_, _, rfl⟩, hlen⟩, rfl, rfl⟩⟩

/-- A message that does not belong to pairing. -/
theorem send_plain {T : Type} [Wire T] (draws : Draws) (v : T)
    (hkind : Wire.KIND T ≠ Wire.KIND Pairing) :
    Ends (send draws v) s fun _ s' => Plain s s' := by
  refine (send_spec draws v).mono fun r s' ⟨hid, h⟩ => ⟨hid, ?_⟩
  obtain ⟨hlog, -⟩ | ⟨p, ⟨⟨_, _, rfl⟩, -⟩, hlog, -⟩ := h
  · exact (Plain.same hid hlog).log
  · refine ⟨_, hlog, fun x hx => ?_⟩
    rw [List.mem_singleton.1 hx]
    exact hkind

theorem receive_spec (p : Packet) : Ends (receive p) s fun r s' => s'.identity = s.identity ∧
    s'.log = s.log ∧ ((∃ e, r = .error e) ↔
      ¬ (p.sequence.toNat > s.control.guard ∧ p.session = s.control.session)) := by
  unfold receive
  refine ends_bind.2 (ends_get.2 ?_)
  refine check_bind (fun hsequence => ?_) fun e hsequence => ⟨rfl, rfl, ?_⟩
  · refine ends_bind.2 (ends_modify.2 (ends_bind.2 (ends_get.2 ?_)))
    refine ends_demand.2 ⟨fun hsession => ⟨rfl, rfl, ?_⟩, fun hsession => ⟨rfl, rfl, ?_⟩⟩
    · exact ⟨nofun, fun h => absurd ⟨hsequence, hsession⟩ h⟩
    · exact ⟨fun _ h => hsession h.2, fun _ => ⟨_, rfl⟩⟩
  · exact ⟨fun _ h => hsequence h.1, fun _ => ⟨e, rfl⟩⟩

end Auth

/-- How the first stretch ends: without a challenge, or with the challenge as the last
thing sent. -/
inductive Challenge (draws : Draws) (p : Packet) (s : AuthState) :
    Except Error Awaiting → AuthState → Prop where
  | refused (e : Error) (s' : AuthState) (h : Plain s s') : Challenge draws p s (.error e) s'
  | challenged (w : Awaiting) (s₁ s' : AuthState) (q : Packet) (h : Plain s s₁)
    (hid : s'.identity = s₁.identity) (hlog : s'.log = s₁.log ++ [.sent q])
    (hwrote : Wrote (⟨if w.isNew then 0 else 1, w.nonce, [], []⟩ : Pairing) q)
    (hnonce : w.nonce = draws.nonce)
    (hnew : w.isNew = true → w.key = draws.code ∧ .shown w.name w.key ∈ s₁.log)
    (hid' : ∃ hello, p.message Handshake = .ok hello ∧ hello.clientId = w.id.bytes)
    (hstored : w.isNew = false → s.identity.trusted w.id.bytes = some w.key) :
    Challenge draws p s (.ok w) s'

open Auth in
/-- The end of `onHello`. -/
theorem challenge_spec {draws : Draws} {p : Packet} {s s₁ : AuthState} (w : Awaiting)
    (h : Plain s s₁) (hnonce : w.nonce = draws.nonce)
    (hid' : ∃ hello, p.message Handshake = .ok hello ∧ hello.clientId = w.id.bytes)
    (hnew : w.isNew = true → w.key = draws.code ∧ .shown w.name w.key ∈ s₁.log)
    (hstored : w.isNew = false → s.identity.trusted w.id.bytes = some w.key) :
    Ends (do send draws (⟨if w.isNew then 0 else 1, w.nonce, [], []⟩ : Pairing); return w) s₁
      (Challenge draws p s) := by
  refine .bind (send_spec draws _) (fun _ s₂ ⟨hid, h₂⟩ => ?_) fun e s₂ ⟨hid, h₂⟩ => ?_
  · obtain ⟨-, e, hr⟩ | ⟨q, hwrote, hlog, -⟩ := h₂
    · cases hr
    · exact .challenged w s₁ s₂ q h hid hlog hwrote hnonce hnew hid' hstored
  · obtain ⟨hlog, -⟩ | ⟨q, -, -, hr⟩ := h₂
    · exact .refused e s₂ (h.trans (.same hid hlog))
    · cases hr

open Auth in
theorem onHello_spec (draws : Draws) (p : Packet) (s : AuthState) :
    Ends (onHello draws p) s (Challenge draws p s) := by
  unfold onHello
  refine .bind (receive_spec p) (fun _ s₁ h₁ => ?_) fun e s₁ h₁ => .refused e s₁ (.same h₁.1 h₁.2.1)
  replace h₁ : Plain s s₁ := .same h₁.1 h₁.2.1
  refine lift_bind (fun hello hhello => ?_) fun e _ => .refused e _ h₁
  refine check_bind (fun _ => ?_) fun e _ => .refused e _ h₁
  dsimp only
  split
  · rename_i id hid
    have hid' := (Id16.ofBytes_eq_some.1 hid).symm
    refine ends_bind.2 (ends_pure.2 ?_)
    refine lift_bind (fun version _ => ?_) fun e _ => .refused e _ h₁
    refine .bind (send_plain draws _ (by decide)) (fun _ s₂ h₂ => ?_) fun e s₂ h₂ =>
      .refused e _ (h₁.trans h₂)
    refine ends_bind.2 (ends_get.2 ?_)
    refine .bind (send_plain draws _ (by decide)) (fun _ s₃ h₃ => ?_) fun e s₃ h₃ =>
      .refused e _ ((h₁.trans h₂).trans h₃)
    have h := (h₁.trans h₂).trans h₃
    refine check_bind (fun _ => ?_) fun e _ => .refused e _ h
    refine ends_bind.2 (ends_get.2 ?_)
    dsimp only
    generalize htrusted : (if hello.trusted = 1 then s₃.identity.trusted id.bytes else none) = trusted
    cases trusted with
    | none =>
      refine ends_bind.2 (ends_modify.2 (challenge_spec ⟨id, hello.name, draws.code, true, draws.nonce⟩
        (h.trans ⟨rfl, _, rfl, fun x hx => ?_⟩) rfl ⟨hello, hhello, hid'⟩ (fun _ => ⟨rfl, ?_⟩) nofun))
      · rw [List.mem_singleton.1 hx]
        trivial
      · exact List.mem_append_right _ (List.mem_singleton.2 rfl)
    | some key =>
      refine challenge_spec ⟨id, hello.name, key, false, draws.nonce⟩ h rfl ⟨hello, hhello, hid'⟩
        nofun fun _ => ?_
      split at htrusted
      · rw [← h.identity]
        exact htrusted
      · cases htrusted
  · exact ends_bind.2 (ends_throw.2 (.refused _ _ h₁))

/-- The packet is the answer that `onAnswer` demands. -/
structure Answers (crypto : Crypto) (s : AuthState) (w : Awaiting) (p : Packet)
    (answer : Pairing) : Prop where
  envelope : p.sequence.toNat > s.control.guard ∧ p.session = s.control.session
  message : p.message Pairing = .ok answer
  fields : answer.phase = 2 ∧ answer.nonce = w.nonce ∧ answer.secret = []
  verified : verify crypto w.key s.identity.cert w.id.bytes w.nonce 1 answer.proof = .ok ()

/-- How the second stretch ends: the packet is refused, or it is the client's proof. -/
inductive Answer (crypto : Crypto) (draws : Draws) (s : AuthState) (w : Awaiting) (p : Packet) :
    Except Error (Id16 × String) → AuthState → Prop where
  | refused (e : Error) (s' : AuthState) (h : Plain s s')
    (hanswer : ∀ answer, ¬ Answers crypto s w p answer) : Answer crypto draws s w p (.error e) s'
  | verified (r : Except Error (Id16 × String)) (s' : AuthState) (answer : Pairing)
    (hanswer : Answers crypto s w p answer)
    (hid : s'.identity = if w.isNew then
      (s.identity.trust w.id.bytes draws.secret draws.written).2 else s.identity)
    (hlog : ∃ l, s'.log = s.log ++ (if w.isNew then [.trusted w.id draws.secret] else []) ++ l ∧
      ∀ x ∈ l, (w.isNew = true →
        (s.identity.trust w.id.bytes draws.secret draws.written).1 = .ok ()) ∧
        (x = .proved w.key w.id.bytes w.nonce ∨ ∃ q, x = .sent q ∧ Wrote
          (⟨3, w.nonce, proof crypto w.key s.identity.cert w.id.bytes w.nonce 2,
            if w.isNew then draws.secret else []⟩ : Pairing) q))
    (hr : ∀ a, r = .ok a → a = (w.id, w.name)) : Answer crypto draws s w p r s'

namespace Auth

theorem trust_spec {s : AuthState} (draws : Draws) (id : Id16) (key : Bytes) :
    Ends (trust draws id key) s fun r s' =>
      s'.identity = (s.identity.trust id.bytes key draws.written).2 ∧
        s'.log = s.log ++ [.trusted id key] ∧ r = (s.identity.trust id.bytes key draws.written).1 := by
  unfold trust
  refine ends_bind.2 (ends_modify.2 (ends_bind.2 (ends_get.2 (ends_bind.2 (ends_modify.2 ?_)))))
  dsimp only
  cases (s.identity.trust id.bytes key draws.written).1 <;> exact ⟨rfl, rfl, rfl⟩

/-- The end of `onAnswer`. -/
theorem answer_spec {s : AuthState} (draws : Draws) (w : Awaiting) (v : Pairing) :
    Ends (do emit (.proved w.key w.id.bytes w.nonce); send draws v; return (w.id, w.name)) s
      fun r s' => s'.identity = s.identity ∧
        (∃ l, s'.log = s.log ++ l ∧ ∀ x ∈ l, x = .proved w.key w.id.bytes w.nonce ∨
          ∃ q, x = .sent q ∧ Wrote v q) ∧
        ∀ a, r = .ok a → a = (w.id, w.name) := by
  refine ends_bind.2 (ends_modify.2 ?_)
  refine .bind (send_spec draws v) (fun _ s₁ ⟨hid, h₁⟩ => ?_) fun e s₁ ⟨hid, h₁⟩ => ?_
  · obtain ⟨-, e, hr⟩ | ⟨q, hwrote, hlog, -⟩ := h₁
    · cases hr
    · refine ⟨hid, ⟨_, hlog.trans (List.append_assoc ..), fun x hx => ?_⟩, fun a ha => ?_⟩
      · obtain rfl | hx := List.mem_cons.1 hx
        · exact .inl rfl
        · exact .inr ⟨q, List.mem_singleton.1 hx, hwrote⟩
      · cases ha
        rfl
  · obtain ⟨hlog, -⟩ | ⟨q, -, -, hr⟩ := h₁
    · exact ⟨hid, ⟨_, hlog, fun x hx => .inl (List.mem_singleton.1 hx)⟩, nofun⟩
    · cases hr

end Auth

open Auth in
theorem onAnswer_spec (crypto : Crypto) (draws : Draws) (w : Awaiting) (p : Packet)
    (s : AuthState) : Ends (onAnswer crypto draws w p) s (Answer crypto draws s w p) := by
  unfold onAnswer
  refine .bind (receive_spec p) (fun _ s₁ ⟨hid₁, hlog₁, henvelope⟩ => ?_)
    fun e s₁ ⟨hid₁, hlog₁, henvelope⟩ => .refused e s₁ (.same hid₁ hlog₁) fun _ h =>
      henvelope.1 ⟨e, rfl⟩ h.envelope
  have h₁ : Plain s s₁ := .same hid₁ hlog₁
  have henvelope : p.sequence.toNat > s.control.guard ∧ p.session = s.control.session := by
    by_contra h
    obtain ⟨e, he⟩ := henvelope.2 h
    cases he
  refine lift_bind (fun answer hmessage => ?_) fun e he => .refused e _ h₁ fun _ h => by
    rw [h.message] at he
    cases he
  have hsame : ∀ answer', Answers crypto s w p answer' → answer' = answer := fun _ h =>
    Except.ok.inj (h.message.symm.trans hmessage)
  refine check_bind (fun hfields => ?_) fun e he => .refused e _ h₁ fun answer' h =>
    he (hsame answer' h ▸ h.fields)
  refine ends_bind.2 (ends_get.2 ?_)
  dsimp only
  refine lift_bind (fun _ hverify => ?_) fun e he => .refused e _ h₁ fun answer' h => by
    rw [hid₁, ← hsame answer' h, h.verified] at he
    cases he
  have hanswer : Answers crypto s w p answer := ⟨henvelope, hmessage, hfields, hid₁ ▸ hverify⟩
  cases hnew : w.isNew with
  | false =>
    refine (answer_spec draws w _).mono fun r s' ⟨hid, ⟨l, hlog, hl⟩, hr⟩ => ?_
    refine .verified r s' answer hanswer ?_ ⟨l, ?_, ?_⟩ hr
    · rw [hnew, hid, hid₁]; rfl
    · rw [hnew, hlog, hlog₁]; simp
    · exact fun x hx => ⟨fun h => by simp [hnew] at h, by simpa [hnew, hid₁] using hl x hx⟩
  | true =>
    refine .bind (trust_spec draws w.id _) (fun _ s₂ ⟨hid₂, hlog₂, hok⟩ => ?_)
      fun e s₂ ⟨hid₂, hlog₂, _⟩ => ?_
    · refine (answer_spec draws w _).mono fun r s' ⟨hid, ⟨l, hlog, hl⟩, hr⟩ => ?_
      refine .verified r s' answer hanswer ?_ ⟨l, ?_, ?_⟩ hr
      · rw [hnew, hid, hid₂, hid₁]; rfl
      · rw [hnew, hlog, hlog₂, hlog₁]; simp
      · exact fun x hx => ⟨fun _ => hid₁ ▸ hok.symm, by simpa [hnew, hid₁] using hl x hx⟩
    · refine .verified _ s₂ answer hanswer ?_ ⟨[], ?_, ?_⟩ nofun
      · rw [hnew, hid₂, hid₁]; rfl
      · rw [hnew, hlog₂, hlog₁]; simp
      · exact fun x hx => absurd hx List.not_mem_nil

end Host
end SidecarDOS
