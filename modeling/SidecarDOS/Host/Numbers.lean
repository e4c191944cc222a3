/-
# How the host numbers its packets

`Control` numbers the packets of an attempt from 1 on, all with the zero token: two of
greeting, the challenge and the host's proof (`Opening`, `onHello_emits`, `onAnswer_emits`).
`session` goes on with its own token and the numbers 5 and 6, and then with a counter of its
own that begins at 10 (`Sessional`, `greet_emits`, `select_emits`).
-/

import SidecarDOS.Host.Attempt
import SidecarDOS.Host.Tasks
import SidecarDOS.Library.Numbered

namespace SidecarDOS
namespace Host

open Library (Ascends Ends Within exec ends_pure ends_throw ends_bind ends_get ends_modify
  ends_demand)

/-- The number of a packet. -/
abbrev Packet.number (p : Packet) : ℕ := p.sequence.toNat

/-! ### The attempt -/

/-- The packets of an attempt, by their numbers. -/
inductive Opening (p : Packet) : Prop where
  | version (hnumber : p.number = 1) (hkind : p.kind = Wire.KIND ProtocolVersion)
    (hsession : p.session = .zero)
  | info (hnumber : p.number = 2) (hkind : p.kind = Wire.KIND HostInfo)
    (hsession : p.session = .zero)
  | challenge (hnumber : p.number = 3) (hkind : p.kind = Wire.KIND Pairing)
    (hsession : p.session = .zero)
    (hphase : ∀ pair, p.message Pairing = .ok pair → pair.phase = 0 ∨ pair.phase = 1)
  | proof (hnumber : p.number = 4) (hkind : p.kind = Wire.KIND Pairing)
    (hsession : p.session = .zero)
    (hphase : ∀ pair, p.message Pairing = .ok pair → pair.phase = 3)

/-- The packets among the effects. -/
def packets (l : List Effect) : List Packet :=
  l.filterMap fun
    | .sent p => some p
    | _ => none

/-- What an attempt has written. -/
structure Emits (s s' : AuthState) : Prop where
  session : s'.control.session = s.control.session
  written : ∃ l, s'.log = s.log ++ l ∧
    Ascends Packet.number s.control.sequence s'.control.sequence (packets l) ∧
      ∀ p ∈ packets l, Opening p

namespace Emits

variable {s s' s'' : AuthState}

theorem trans (h : Emits s s') (h' : Emits s' s'') : Emits s s'' := by
  obtain ⟨l, hl, hascends, hopening⟩ := h.written
  obtain ⟨l', hl', hascends', hopening'⟩ := h'.written
  have happend : packets (l ++ l') = packets l ++ packets l' := List.filterMap_append
  refine ⟨h'.session.trans h.session, l ++ l', by rw [hl', hl, List.append_assoc], ?_,
    fun p hp => ?_⟩
  · rw [happend]
    exact hascends.append hascends'
  · rw [happend] at hp
    rcases List.mem_append.1 hp with hp | hp
    · exact hopening p hp
    · exact hopening' p hp

/-- Nothing was written. -/
theorem silent {l : List Effect} (hlog : s'.log = s.log ++ l) (hl : packets l = [])
    (hsession : s'.control.session = s.control.session)
    (hsequence : s.control.sequence ≤ s'.control.sequence) : Emits s s' := by
  refine ⟨hsession, l, hlog, ?_, fun p hp => ?_⟩
  · rw [hl]
    exact hsequence
  · rw [hl] at hp
    exact absurd hp List.not_mem_nil

end Emits

namespace Auth

variable {s : AuthState}

/-- `control.send` writes the next packet, or fails. -/
theorem send_emits {T : Type} [Wire T] (draws : Draws) (v : T)
    (hroom : s.control.sequence + 1 < 2 ^ 64)
    (hopening : Wrote v (Packet.new v (UInt64.ofNat (s.control.sequence + 1)) s.control.session) →
      Opening (Packet.new v (UInt64.ofNat (s.control.sequence + 1)) s.control.session)) :
    Ends (send draws v) s fun _ s' => Emits s s' ∧
      s'.control = ⟨s.control.sequence + 1, s.control.guard, s.control.session⟩ := by
  have hsilent : Emits s
      { s with control := { s.control with sequence := s.control.sequence + 1 } } :=
    .silent (List.append_nil _).symm rfl rfl (Nat.le_succ _)
  unfold send
  refine ends_bind.2 (ends_modify.2 (ends_bind.2 (ends_get.2 ?_)))
  refine check_bind (fun hlen => .ite (fun _ => ?_) fun _ => ?_) fun _ _ => ⟨hsilent, rfl⟩
  · exact ends_bind.2 (ends_throw.2 ⟨hsilent, rfl⟩)
  · refine ends_modify.2 ⟨⟨rfl, [_], rfl, ?_, fun p hp => ?_⟩, rfl⟩
    · have hnumber : (UInt64.ofNat (s.control.sequence + 1)).toNat = s.control.sequence + 1 :=
        UInt64.toNat_ofNat_of_lt' hroom
      refine .single ?_ hnumber.le
      show s.control.sequence < (UInt64.ofNat (s.control.sequence + 1)).toNat
      rw [hnumber]
      exact Nat.lt_succ_self _
    · cases List.mem_singleton.1 hp
      exact hopening ⟨⟨_, _, rfl⟩, hlen⟩

/-- `control.receive` takes a packet that is in order and has the token. -/
theorem receive_emits (p : Packet) : Ends (receive p) s fun r s' => Emits s s' ∧
    (r = .ok () → p.number > s.control.guard ∧ p.session = s.control.session ∧
      s'.control = ⟨s.control.sequence, p.number, s.control.session⟩) := by
  have hrefl : Emits s s := .silent (List.append_nil _).symm rfl rfl le_rfl
  have hguard : Emits s { s with control := { s.control with guard := p.number } } :=
    .silent (List.append_nil _).symm rfl rfl le_rfl
  unfold receive
  refine ends_bind.2 (ends_get.2 ?_)
  refine check_bind (fun hsequence => ?_) fun e _ => ⟨hrefl, nofun⟩
  refine ends_bind.2 (ends_modify.2 (ends_bind.2 (ends_get.2 ?_)))
  exact ends_demand.2 ⟨fun hsession => ⟨hguard, fun _ => ⟨hsequence, hsession, rfl⟩⟩,
    fun _ => ⟨hguard, nofun⟩⟩

theorem trust_emits (draws : Draws) (id : Id16) (key : Bytes) :
    Ends (trust draws id key) s fun _ s' => Emits s s' ∧ s'.control = s.control := by
  unfold trust
  refine ends_bind.2 (ends_modify.2 (ends_bind.2 (ends_get.2 (ends_bind.2 (ends_modify.2 ?_)))))
  dsimp only
  cases (s.identity.trust id.bytes key draws.written).1 <;>
    exact ⟨.silent rfl rfl rfl le_rfl, rfl⟩

end Auth

section Stretch

variable {s : AuthState} {p : Packet}

open Auth in
/-- The end of `onHello`. -/
theorem challenge_emits {draws : Draws} {s₁ : AuthState} (w : Awaiting) (h : Emits s s₁)
    (hnumber : p.number > s.control.guard) (hcontrol : s₁.control = ⟨2, p.number, .zero⟩) :
    Ends (do send draws (⟨if w.isNew then 0 else 1, w.nonce, [], []⟩ : Pairing); return w) s₁
      fun r s' => Emits s s' ∧
        ∀ w', r = .ok w' → p.number > s.control.guard ∧ s'.control = ⟨3, p.number, .zero⟩ := by
  refine .bind (send_emits draws _ ?_ ?_) (fun _ s₂ ⟨h₂, hcontrol₂⟩ => ?_)
    fun e s₂ ⟨h₂, _⟩ => ⟨h.trans h₂, nofun⟩
  · rw [hcontrol]
    exact Nat.lt_of_lt_of_le (by decide : 2 + 1 < 4) (by decide)
  · rw [hcontrol]
    refine fun hwrote => .challenge rfl rfl rfl fun pair hpair => ?_
    cases hwrote.message.symm.trans hpair
    cases w.isNew with
    | false => exact .inr rfl
    | true => exact .inl rfl
  · rw [hcontrol] at hcontrol₂
    exact ends_pure.2 ⟨h.trans h₂, fun _ _ => ⟨hnumber, hcontrol₂⟩⟩

open Auth in
/-- The first stretch writes at most three packets; behind it they are written. -/
theorem onHello_emits (draws : Draws) (hsequence : s.control.sequence = 0)
    (hsession : s.control.session = .zero) : Ends (onHello draws p) s fun r s' => Emits s s' ∧
      ∀ w, r = .ok w → p.number > s.control.guard ∧ s'.control = ⟨3, p.number, .zero⟩ := by
  unfold onHello
  refine .bind (receive_emits p) (fun _ s₁ ⟨h₁, hok⟩ => ?_) fun e s₁ ⟨h₁, _⟩ => ⟨h₁, nofun⟩
  obtain ⟨hnumber, -, hcontrol₁⟩ := hok rfl
  replace hcontrol₁ : s₁.control = ⟨0, p.number, .zero⟩ := by rw [hcontrol₁, hsequence, hsession]
  refine lift_bind (fun hello _ => ?_) fun e _ => ⟨h₁, nofun⟩
  refine check_bind (fun _ => ?_) fun e _ => ⟨h₁, nofun⟩
  dsimp only
  split
  swap
  · exact ends_bind.2 (ends_throw.2 ⟨h₁, nofun⟩)
  rename_i id _
  refine ends_bind.2 (ends_pure.2 (lift_bind (fun version _ => ?_) fun e _ => ⟨h₁, nofun⟩))
  refine .bind (send_emits draws _ ?_ ?_) (fun _ s₂ ⟨h₂, hcontrol₂⟩ => ?_)
    fun e s₂ ⟨h₂, _⟩ => ⟨h₁.trans h₂, nofun⟩
  · rw [hcontrol₁]
    exact Nat.lt_of_lt_of_le (by decide : 0 + 1 < 2) (by decide)
  · rw [hcontrol₁]
    exact fun _ => .version rfl rfl rfl
  rw [hcontrol₁] at hcontrol₂
  refine ends_bind.2 (ends_get.2 ?_)
  refine .bind (send_emits draws _ ?_ ?_) (fun _ s₃ ⟨h₃, hcontrol₃⟩ => ?_)
    fun e s₃ ⟨h₃, _⟩ => ⟨(h₁.trans h₂).trans h₃, nofun⟩
  · rw [hcontrol₂]
    exact Nat.lt_of_lt_of_le (by decide : 0 + 1 + 1 < 3) (by decide)
  · rw [hcontrol₂]
    exact fun _ => .info rfl rfl rfl
  rw [hcontrol₂] at hcontrol₃
  have h := (h₁.trans h₂).trans h₃
  refine check_bind (fun _ => ?_) fun e _ => ⟨h, nofun⟩
  refine ends_bind.2 (ends_get.2 ?_)
  dsimp only
  generalize (if hello.trusted = 1 then s₃.identity.trusted _ else none) = trusted
  cases trusted with
  | none =>
    have hshown : Emits s₃ { s₃ with log := s₃.log ++ [.shown hello.name draws.code] } :=
      .silent rfl rfl rfl le_rfl
    refine ends_bind.2 (ends_modify.2 ?_)
    exact challenge_emits ⟨id, hello.name, draws.code, true, draws.nonce⟩ (h.trans hshown)
      hnumber hcontrol₃
  | some key => exact challenge_emits ⟨id, hello.name, key, false, draws.nonce⟩ h hnumber hcontrol₃

open Auth in
/-- The second stretch writes the host's proof. -/
theorem onAnswer_emits (crypto : Crypto) (draws : Draws) (w : Awaiting)
    (hsequence : s.control.sequence = 3) (hsession : s.control.session = .zero) :
    Ends (onAnswer crypto draws w p) s fun r s' => Emits s s' ∧
      ∀ a, r = .ok a → p.number > s.control.guard ∧ s'.control = ⟨4, p.number, .zero⟩ := by
  unfold onAnswer
  refine .bind (receive_emits p) (fun _ s₁ ⟨h₁, hok⟩ => ?_) fun e s₁ ⟨h₁, _⟩ => ⟨h₁, nofun⟩
  obtain ⟨hnumber, -, hcontrol₁⟩ := hok rfl
  rw [hsequence, hsession] at hcontrol₁
  refine lift_bind (fun answer _ => ?_) fun e _ => ⟨h₁, nofun⟩
  refine check_bind (fun _ => ?_) fun e _ => ⟨h₁, nofun⟩
  refine ends_bind.2 (ends_get.2 ?_)
  refine lift_bind (fun _ _ => ?_) fun e _ => ⟨h₁, nofun⟩
  have hend {s₂ : AuthState} (h : Emits s s₂) (hcontrol : s₂.control = ⟨3, p.number, .zero⟩)
      (v : Pairing) (hphase : v.phase = 3) :
      Ends (do emit (.proved w.key w.id.bytes w.nonce); send draws v; return (w.id, w.name)) s₂
        fun r s' => Emits s s' ∧
          ∀ a, r = .ok a → p.number > s.control.guard ∧ s'.control = ⟨4, p.number, .zero⟩ := by
    refine ends_bind.2 (ends_modify.2 ?_)
    have hproved : Emits s₂ { s₂ with log := s₂.log ++ [.proved w.key w.id.bytes w.nonce] } :=
      .silent rfl rfl rfl le_rfl
    refine .bind (send_emits draws v ?_ ?_) (fun _ s₃ ⟨h₃, hcontrol₃⟩ => ?_)
      fun e s₃ ⟨h₃, _⟩ => ⟨(h.trans hproved).trans h₃, nofun⟩
    · rw [hcontrol]
      exact Nat.lt_of_lt_of_le (by decide : 3 + 1 < 5) (by decide)
    · rw [hcontrol]
      refine fun hwrote => .proof rfl rfl rfl fun pair hpair => ?_
      cases hwrote.message.symm.trans hpair
      exact hphase
    · rw [hcontrol] at hcontrol₃
      exact ends_pure.2 ⟨(h.trans hproved).trans h₃, fun _ _ => ⟨hnumber, hcontrol₃⟩⟩
  dsimp only
  split
  · refine .bind (trust_emits draws w.id _) (fun _ s₂ ⟨h₂, hcontrol₂⟩ => ?_)
      fun e s₂ ⟨h₂, _⟩ => ⟨h₁.trans h₂, nofun⟩
    exact hend (h₁.trans h₂) (hcontrol₂.trans hcontrol₁) _ rfl
  · exact hend h₁ hcontrol₁ _ rfl

end Stretch

/-! ### The session -/

/-- A packet of the session with the token `token`. -/
structure Sessional (token : Id16) (p : Packet) : Prop where
  number : 5 ≤ p.number
  session : p.session = token
  kind : p.kind ≠ Wire.KIND Pairing
  start : p.kind = Wire.KIND SessionStart ↔ p.number = 5

theorem sessional_new {T : Type} [Wire T] (v : T) {n : UInt64} {token : Id16}
    (hnumber : 5 ≤ n.toNat) (hkind : Wire.KIND T ≠ Wire.KIND Pairing)
    (hstart : Wire.KIND T = Wire.KIND SessionStart ↔ n.toNat = 5) :
    Sessional token (Packet.new v n token) := ⟨hnumber, rfl, hkind, hstart⟩

/-- How `session` begins: `SessionStart` comes first, if anything is written. -/
structure Greets (w : Wake) (s : Runtime) (r : Except Error Session) (s' : Runtime) : Prop where
  inputs : s'.inputs = s.inputs
  written : ∃ l, s'.sent = s.sent ++ l ∧ Ascends Packet.number 4 6 l ∧
    (∀ q ∈ l, Sessional w.token q) ∧
      ((∃ q ∈ l, q.number = 5) ∨ l = [] ∧ ∃ e, r = .error e)
  session : ∀ σ, r = .ok σ →
    (σ.token, σ.input, σ.sequence, σ.guard) = (w.token, false, 10, 0)

/-- Nothing was written, and the input tasks are the same. -/
def Quiet (s s' : Runtime) : Prop := (s'.sent, s'.inputs) = (s.sent, s.inputs)

instance : Std.Refl Quiet := ⟨fun _ => rfl⟩

instance : IsTrans Runtime Quiet := ⟨fun _ _ _ h h' => Eq.trans h' h⟩

/-- What an arm of the loop does that has numbers behind `σ`'s. -/
structure Selects (σ : Session) (guard : ℕ) (s : Runtime) (r : Except Error (Session ⊕ Bool))
    (s' : Runtime) : Prop where
  inputs : s'.inputs = s.inputs
  written : ∃ l k, s'.sent = s.sent ++ l ∧ Ascends Packet.number σ.sequence.toNat k l ∧
    (∀ q ∈ l, Sessional σ.token q) ∧ ∀ σ', r = .ok (.inl σ') →
      σ'.sequence.toNat = k ∧ (σ'.token, σ'.input, σ'.guard) = (σ.token, σ.input, guard)

namespace Selects

variable {s s' : Runtime} {σ : Session} {guard : ℕ} {r : Except Error (Session ⊕ Bool)}

theorem silent (h : Quiet s s') (hr : ∀ σ', r = .ok (.inl σ') →
    (σ'.token, σ'.input, σ'.sequence, σ'.guard) = (σ.token, σ.input, σ.sequence, guard)) :
    Selects σ guard s r s' := by
  obtain ⟨hsent, hinputs⟩ := Prod.mk.inj h
  refine ⟨hinputs, [], _, by rw [hsent, List.append_nil], le_refl σ.sequence.toNat, nofun,
    fun σ' hσ' => ?_⟩
  have heq := hr σ' hσ'
  simp only [Prod.mk.injEq] at heq
  obtain ⟨htoken, hinput, hsequence, hguard⟩ := heq
  exact ⟨by rw [hsequence], by rw [htoken, hinput, hguard]⟩

/-- The session goes on as it was, but for its guard and what does not number packets. -/
theorem same {σ' : Session} (h : Quiet s s')
    (hσ' : (σ'.token, σ'.input, σ'.sequence, σ'.guard) =
      (σ.token, σ.input, σ.sequence, guard)) : Selects σ guard s (.ok (.inl σ')) s' :=
  silent h fun _ heq => Sum.inl.inj (Except.ok.inj heq) ▸ hσ'

theorem error {e : Error} (h : Quiet s s') : Selects σ guard s (.error e) s' := silent h nofun

end Selects

namespace Task

variable {s : Runtime} {σ : Session} {guard : ℕ}

theorem lift_bind_ends {α β : Type} {x : Except Error α} {k : α → Task β}
    {Q : Except Error β → Runtime → Prop} (hok : ∀ a, x = .ok a → Ends (k a) s Q)
    (herror : ∀ e, Q (.error e) s) : Ends (lift x >>= k) s Q := by
  cases x with
  | ok a => exact hok a rfl
  | error e => exact herror e

theorem check_bind {α : Type} {cond : Prop} [Decidable cond] {text : String} {k : Unit → Task α}
    {Q : Except Error α → Runtime → Prop} (hok : cond → Ends (k ()) s Q)
    (herror : ∀ e, Q (.error e) s) : Ends (check cond text >>= k) s Q :=
  ends_bind.2 (ends_demand.2 ⟨hok, fun _ => herror _⟩)

theorem command_quiet (c : Command) : Within Quiet (fun _ => True) (command c) s :=
  .get_bind (.demand_bind trivial fun _ => .modify rfl)

theorem position_quiet (w : Wake) (p : Position) :
    Within Quiet (fun _ => True) (position w p) s := by
  refine .modify_bind rfl (.get_bind ?_)
  refine lift_bind_ends (fun _ _ => command_quiet _) fun _ => ?_
  exact ⟨fun _ _ => trivial, rfl⟩

theorem quality_quiet (w : Wake) (q : UInt8) :
    Within Quiet (fun _ => True) (quality w q) s := by
  refine .modify_bind rfl (.get_bind ?_)
  refine lift_bind_ends (fun _ _ => ends_modify.2 ⟨nofun, rfl⟩) fun _ => ?_
  exact ⟨fun _ _ => trivial, rfl⟩

theorem write_spec {T : Type} [Wire T] (w : Wake) (v : T) (n : UInt64) (token : Id16) :
    Ends (write w v n token) s fun r s' => (∃ e, r = .error e) ∧ Quiet s s' ∨
      r = .ok () ∧ s'.sent = s.sent ++ [Packet.new v n token] ∧ s'.inputs = s.inputs := by
  unfold write
  refine ends_bind.2 (ends_demand.2 ⟨fun _ => ?_, fun _ => .inl ⟨⟨_, rfl⟩, rfl⟩⟩)
  exact ends_modify.2 (.inr ⟨rfl, rfl, rfl⟩)

theorem greet_greets (w : Wake) (id : Id16) (modes : Except Error (List DisplayMode)) :
    Ends (greet w id modes) s (Greets w s) := by
  have herror {s' : Runtime} (h : Quiet s s') (e : Error) : Greets w s (.error e) s' := by
    obtain ⟨hsent, hinputs⟩ := Prod.mk.inj h
    exact ⟨hinputs, ⟨[], by rw [hsent, List.append_nil], (by decide : 4 ≤ 6), nofun,
      .inr ⟨rfl, e, rfl⟩⟩, nofun⟩
  unfold greet
  refine lift_bind_ends (fun modes _ => ?_) (herror rfl)
  dsimp only
  split
  swap
  · exact ends_bind.2 (ends_throw.2 (herror rfl _))
  rename_i preferred _
  refine ends_bind.2 (ends_pure.2 (check_bind (fun _ => ?_) (herror rfl)))
  refine .bind (command_quiet _) (fun _ s₁ h₁ => ?_) fun e _ h => herror h.2 e
  obtain ⟨hsent, hinputs⟩ := Prod.mk.inj h₁.2
  refine .bind (write_spec w _ 5 w.token) (fun _ s₂ h₂ => ?_) fun e s₂ h₂ => ?_
  swap
  · obtain ⟨-, h₂⟩ | ⟨hok, -⟩ := h₂
    · exact herror (h₂.trans h₁.2) e
    · cases hok
  obtain ⟨⟨_, hok⟩, -⟩ | ⟨-, hsent₂, hinputs₂⟩ := h₂
  · cases hok
  rw [hsent] at hsent₂
  have hfirst : Sessional w.token
      (Packet.new (⟨preferred.width, preferred.height, preferred.fps⟩ : SessionStart) 5 w.token) :=
    sessional_new _ (by decide) (by decide) (by decide)
  refine .bind (write_spec w _ 6 w.token) (fun _ s₃ h₃ => ?_) fun e s₃ h₃ => ?_
  swap
  · obtain ⟨-, h₃⟩ | ⟨hok, -⟩ := h₃
    · obtain ⟨hsent₃, hinputs₃⟩ := Prod.mk.inj h₃
      refine ⟨hinputs₃.trans (hinputs₂.trans hinputs), ⟨_, hsent₃.trans hsent₂, ?_, fun q hq => ?_,
        .inl ⟨_, List.mem_singleton.2 rfl, rfl⟩⟩, nofun⟩
      · exact (by decide : 4 < (5 : UInt64).toNat ∧ (5 : UInt64).toNat ≤ 6)
      rw [List.mem_singleton.1 hq]
      exact hfirst
    · cases hok
  obtain ⟨⟨_, hok⟩, -⟩ | ⟨-, hsent₃, hinputs₃⟩ := h₃
  · cases hok
  rw [hsent₂, List.append_assoc] at hsent₃
  refine ends_bind.2 (ends_get.2 (ends_pure.2 ⟨hinputs₃.trans (hinputs₂.trans hinputs),
    ⟨_, hsent₃, ?_, fun q hq => ?_, .inl ⟨_, List.mem_cons_self, rfl⟩⟩, fun σ hσ => ?_⟩))
  · exact (by decide : 4 < (5 : UInt64).toNat ∧ (5 : UInt64).toNat < (6 : UInt64).toNat ∧
      (6 : UInt64).toNat ≤ 6)
  · rcases List.mem_cons.1 hq with rfl | hq
    · exact hfirst
    · rw [List.mem_singleton.1 hq]
      exact sessional_new _ (by decide) (by decide) (by decide)
  · cases hσ
    rfl

/-- One packet with the session's next number. -/
theorem write_selects {T : Type} [Wire T] (w : Wake) (v : T)
    (hsequence : 5 ≤ σ.sequence.toNat ∧ σ.sequence.toNat + 1 < 2 ^ 64)
    (hkind : Wire.KIND T ≠ Wire.KIND Pairing ∧ Wire.KIND T ≠ Wire.KIND SessionStart) :
    Ends (do write w v (σ.sequence + 1) σ.token; return .inl { σ with
      guard := guard, sequence := σ.sequence + 1 }) s (Selects σ guard s) := by
  have hnumber : (Packet.new v (σ.sequence + 1) σ.token).number = σ.sequence.toNat + 1 := by
    show (σ.sequence + 1).toNat = σ.sequence.toNat + 1
    rw [UInt64.toNat_add]
    exact Nat.mod_eq_of_lt hsequence.2
  refine .bind (write_spec w v _ σ.token) (fun _ s' h => ?_) fun e s' h => ?_
  swap
  · obtain ⟨-, h⟩ | ⟨hok, -⟩ := h
    · exact .error h
    · cases hok
  obtain ⟨⟨_, hok⟩, -⟩ | ⟨-, hsent, hinputs⟩ := h
  · cases hok
  refine ends_pure.2 ⟨hinputs, _, _, hsent, .single (by omega) hnumber.le, fun q hq => ?_,
    fun σ' hσ' => ?_⟩
  · cases List.mem_singleton.1 hq
    exact ⟨by omega, rfl, hkind.1, fun hstart => absurd hstart hkind.2, fun hfive => by omega⟩
  · cases hσ'
    exact ⟨hnumber, rfl⟩

theorem packet_selects (w : Wake) (p : Packet)
    (hsequence : 5 ≤ σ.sequence.toNat ∧ σ.sequence.toNat + 1 < 2 ^ 64) :
    Ends (packet w σ p) s (Selects σ p.number s) := by
  have herror {s' : Runtime} (h : Quiet s s') (e : Error) : Selects σ p.number s (.error e) s' :=
    .error h
  unfold packet
  refine check_bind (fun _ => check_bind (fun _ => ?_) (herror rfl)) (herror rfl)
  dsimp only
  refine .ite (fun _ => ?_) fun _ => .ite (fun _ => ?_) fun _ => .ite (fun _ => ?_) fun _ =>
    .ite (fun _ => ?_) fun _ => .ite (fun _ => ?_) fun _ => herror rfl _
  · exact lift_bind_ends (fun _ _ => .silent rfl nofun) (herror rfl)
  · refine lift_bind_ends (fun _ _ => .ite (fun _ => ?_) fun _ => .same rfl rfl) (herror rfl)
    exact ends_bind.2 (ends_modify.2 (.same rfl rfl))
  · refine lift_bind_ends (fun m _ => ?_) (herror rfl)
    exact .bind (command_quiet (.mode m)) (fun _ _ h => .same h.2 rfl) fun e _ h => herror h.2 e
  · refine lift_bind_ends (fun stats _ => check_bind (fun _ => ?_) (herror rfl)) (herror rfl)
    refine ends_bind.2 (ends_get.2 (.ite (fun _ => ?_) fun _ => .same rfl rfl))
    split
    · exact ends_bind.2 (ends_modify.2 (.same rfl rfl))
    · exact .same rfl rfl
  · refine lift_bind_ends (fun ping _ => ?_) (herror rfl)
    exact write_selects w _ hsequence (by decide)

/-- The arms of the loop but for those of the two streams. -/
theorem select_selects (w : Wake) {e : RuntimeEvent} (hpacket : ∀ p, e ≠ .packet (some (.ok p)))
    (hstream : ∀ ok, e ≠ .stream ok)
    (hsequence : 5 ≤ σ.sequence.toNat ∧ σ.sequence.toNat + 1 < 2 ^ 64) :
    Ends (select w σ e) s (Selects σ σ.guard s) := by
  unfold select
  split
  · exact .error rfl
  · exact .error rfl
  · rename_i p
    exact absurd rfl (hpacket p)
  · rename_i ok
    exact absurd rfl (hstream ok)
  · refine ends_bind.2 (ends_get.2 ?_)
    dsimp only
    split
    · exact .same rfl rfl
    · refine .ite (fun _ => ends_bind.2 (ends_modify.2 ?_)) fun _ => ?_
      all_goals
        show Ends _ _ _
        split
        · exact .error rfl
        · refine .ite (fun _ => ?_) fun _ => .same rfl rfl
          exact ends_bind.2 (ends_modify.2 (.same rfl rfl))
  · refine ends_bind.2 (ends_get.2 ?_)
    dsimp only
    split
    · exact .same rfl rfl
    · refine ends_bind.2 (ends_modify.2 ?_)
      show Ends _ _ _
      split
      · exact (write_selects w _ hsequence (by decide)).mono fun _ _ h => ⟨h.inputs, h.written⟩
      · exact .error rfl
  · exact .silent rfl nofun
  · exact .error rfl
  · exact .error rfl
  · exact .bind (position_quiet w _) (fun _ _ h => .same h.2 rfl) fun _ _ h => .error h.2
  · exact .bind (quality_quiet w _) (fun _ _ h => .same h.2 rfl) fun _ _ h => .error h.2
  · exact .error rfl
  · exact .same rfl rfl

theorem read_marks (task : InputTask) (p : Except Error Packet) :
    Ends (read task p) s fun r s' => Quiet s s' ∧
      ∀ guard, r = .ok guard → ∃ q, p = .ok q ∧ guard = q.number := by
  unfold read
  refine lift_bind_ends (fun q hq => ?_) fun _ => ⟨rfl, nofun⟩
  refine check_bind (fun _ => check_bind (fun _ => ?_) fun _ => ⟨rfl, nofun⟩) fun _ => ⟨rfl, nofun⟩
  refine lift_bind_ends (fun event _ => ?_) fun _ => ⟨rfl, nofun⟩
  refine ends_bind.2 (ends_get.2 (check_bind (fun _ => ?_) fun _ => ⟨rfl, nofun⟩))
  exact ends_bind.2 (ends_modify.2 (ends_pure.2 ⟨rfl, fun _ h => ⟨q, hq, (Except.ok.inj h).symm⟩⟩))

end Task

/-! ### The input tasks -/

/-- What an input task goes by. -/
def InputTask.mark (task : InputTask) : Id16 × ℕ := (task.token, task.guard)

namespace Runtime

variable {s s' : Runtime}

theorem ended_mark (s : Runtime) (id : Id16) (result : Except Error Bool) :
    (s.ended id result).inputs.map InputTask.mark = s.inputs.map InputTask.mark := by
  show (s.inputs.map _).map InputTask.mark = _
  rw [List.map_map]
  rfl

/-- `run` spawns input tasks and aborts them, but it ends none. -/
theorem wakeRun_mark (s : Runtime) (w : Wake) (e : RuntimeEvent) :
    s.inputs.map InputTask.mark <+: (s.wakeRun w e).inputs.map InputTask.mark := by
  have hwakes := s.wakes w e
  generalize s.wakeRun w e = s' at hwakes ⊢
  cases hwakes with
  | stays => exact List.prefix_rfl
  | incoming hphase =>
    unfold incoming
    split
    · exact List.prefix_rfl
    · exact List.prefix_rfl
    · exact List.prefix_rfl
    · exact List.prefix_rfl
    · split <;> exact List.prefix_rfl
  | acted hphase hexec =>
    exact ((Task.act_feeds (E := fun _ => True) _ _ (fun _ _ => trivial)
      fun _ _ => trivial).of_exec hexec).2.inputs.map _
  | actFailed hphase hexec =>
    exact ((Task.act_feeds (E := fun _ => True) _ _ (fun _ _ => trivial)
      fun _ _ => trivial).of_exec hexec).2.inputs.map _
  | greeted hphase hexec => exact ((Task.greet_feeds ..).of_exec hexec).2.inputs.map _
  | greetFailed hphase hexec =>
    rw [ended_mark]
    exact ((Task.greet_feeds ..).of_exec hexec).2.inputs.map _
  | selected hphase hexec => exact ((Task.select_feeds ..).of_exec hexec).2.inputs.map _
  | stopped hphase hexec =>
    rw [ended_mark]
    exact ((Task.select_feeds ..).of_exec hexec).2.inputs.map _
  | failed hphase hexec =>
    rw [ended_mark]
    exact ((Task.select_feeds ..).of_exec hexec).2.inputs.map _
  | finished hphase hexec => exact ((Task.finish_feeds ..).of_exec hexec).2.inputs.map _
  | finishFailed hphase hexec => exact ((Task.finish_feeds ..).of_exec hexec).2.inputs.map _

/-- Behind a packet an input task goes on with a new guard, or is gone. -/
theorem wakeInput_inputs (s : Runtime) (i : ℕ) (p : Except Error Packet) :
    (s.inputs[i]? = none ∧ (s.wakeInput i p).inputs = s.inputs) ∨
      (s.wakeInput i p).inputs = s.inputs.eraseIdx i ∨
      ∃ q task, p = .ok q ∧ s.inputs[i]? = some task ∧
        (s.wakeInput i p).inputs = s.inputs.set i { task with guard := q.number } := by
  have hread {task : InputTask} {r : Except Error ℕ} {m : Runtime}
      (hexec : exec (Task.read task p) s = (r, m)) : m.inputs = s.inputs ∧
        ∀ guard, r = .ok guard → ∃ q, p = .ok q ∧ guard = q.number := by
    obtain ⟨hquiet, hguard⟩ := (Task.read_marks task p).of_exec hexec
    exact ⟨(Prod.mk.inj hquiet).2, hguard⟩
  have hreads := s.reads i p
  generalize s.wakeInput i p = s' at hreads ⊢
  cases hreads with
  | none h => exact .inl ⟨h, rfl⟩
  | last h haborted hexec => exact .inr (.inl (by rw [(hread hexec).1]))
  | @read task _ _ h haborted hexec =>
    obtain ⟨hinputs, hguard⟩ := hread hexec
    obtain ⟨q, hq, rfl⟩ := hguard _ rfl
    exact .inr (.inr ⟨q, task, hq, h, by rw [hinputs]⟩)
  | @failed _ _ m h hexec =>
    refine .inr (.inl ?_)
    have hsend : Quiet _ (exec (Task.command (.disconnect false))
      { m with inputs := m.inputs.eraseIdx i }).2 := (Task.command_quiet (.disconnect false)).2
    exact (Prod.mk.inj hsend).2.trans (by rw [(hread hexec).1])

theorem wakeInput_kept (s : Runtime) (i : ℕ) (p : Except Error Packet) :
    ((s.wakeInput i p).run, (s.wakeInput i p).sent) = (s.run, s.sent) := by
  have hread {task : InputTask} {r : Except Error ℕ} {m : Runtime}
      (hexec : exec (Task.read task p) s = (r, m)) : (m.run, m.sent) = (s.run, s.sent) :=
    Prod.ext ((Task.read_feeds task p).of_exec hexec).2.run
      (Prod.mk.inj ((Task.read_marks task p).of_exec hexec).1).1
  have hreads := s.reads i p
  generalize s.wakeInput i p = s' at hreads ⊢
  cases hreads with
  | none h => rfl
  | last h haborted hexec => exact (hread hexec :)
  | read h haborted hexec => exact (hread hexec :)
  | @failed _ _ m h hexec =>
    have hsend := Task.command_feeds (s := { m with inputs := m.inputs.eraseIdx i })
      (c := .disconnect false) (P := fun _ => True) (E := fun _ => True) trivial fun _ => trivial
    have hquiet : Quiet _ (exec (Task.command (.disconnect false))
      { m with inputs := m.inputs.eraseIdx i }).2 := (Task.command_quiet (.disconnect false)).2
    exact (Prod.ext hsend.2.run (Prod.mk.inj hquiet).1).trans (hread hexec)

/-! ### The start of `session` -/

/-- What `session` comes to behind the client's capabilities. -/
structure Begins (s : Runtime) (w : Wake) (s' : Runtime) : Prop where
  written : ∃ l, s'.sent = s.sent ++ l ∧ Ascends Packet.number 4 6 l ∧
    (∀ q ∈ l, Sessional w.token q) ∧
      ((∃ q ∈ l, q.number = 5) ∨ l = [] ∧ ∃ id result, s'.run = .ended id result)
  inputs : s'.inputs.length = s.inputs.length
  run : (∃ σ, s'.run = .session σ ∧
      (σ.token, σ.input, σ.sequence, σ.guard) = (w.token, false, 10, 0)) ∨
    ∃ id result, s'.run = .ended id result

theorem wakeRun_begins {w : Wake} {id : Id16} {modes : Except Error (List DisplayMode)}
    (hrun : s.run = .greeting id) : Begins s w (s.wakeRun w (.capabilities modes)) := by
  unfold wakeRun
  rw [hrun]
  dsimp only
  have hgreets := Task.greet_greets w id modes (s := s)
  rcases hexec : exec (Task.greet w id modes) s with ⟨error | σ, m⟩
  · obtain ⟨hinputs, ⟨l, hsent, hascends, hl, hfirst⟩, -⟩ := hgreets.of_exec hexec
    refine ⟨⟨l, hsent, hascends, hl, hfirst.imp_right fun h => ⟨h.1, id, _, rfl⟩⟩,
      (List.length_map _).trans (congrArg List.length hinputs), .inr ⟨id, _, rfl⟩⟩
  · obtain ⟨hinputs, ⟨l, hsent, hascends, hl, hfirst⟩, hsession⟩ := hgreets.of_exec hexec
    refine ⟨⟨l, hsent, hascends, hl, .inl (hfirst.resolve_right ?_)⟩, congrArg List.length hinputs,
      .inl ⟨σ, rfl, hsession σ rfl⟩⟩
    rintro ⟨-, e, he⟩
    cases he

/-! ### The loop of `session` -/

/-- What a wake of the loop comes to: packets with the next numbers, and at most one new input
task. -/
structure Continues (s : Runtime) (σ : Session) (guard : ℕ) (s' : Runtime) : Prop where
  written : ∃ l k, s'.sent = s.sent ++ l ∧ Ascends Packet.number σ.sequence.toNat k l ∧
    (∀ q ∈ l, Sessional σ.token q) ∧ ∀ σ', s'.run = .session σ' →
      σ'.sequence.toNat = k ∧ σ'.token = σ.token ∧ σ'.guard = guard
  inputs : (s'.inputs.length = s.inputs.length ∧
      ∀ σ', s'.run = .session σ' → σ'.input = σ.input) ∨
    (σ.input = false ∧ s'.inputs = s.inputs ++ [⟨σ.token, 0, false⟩] ∧
      ∀ σ', s'.run = .session σ' → σ'.input = true)
  run : (∃ σ', s'.run = .session σ') ∨ ∃ id result, s'.run = .ended id result

theorem wakeRun_continues {w : Wake} {e : RuntimeEvent} {σ : Session} {guard : ℕ}
    (hrun : s.run = .session σ) (h : Ends (Task.select w σ e) s (Selects σ guard s)) :
    Continues s σ guard (s.wakeRun w e) := by
  unfold wakeRun
  rw [hrun]
  dsimp only
  rcases hexec : exec (Task.select w σ e) s with ⟨error | σ' | immediate, m⟩
  · obtain ⟨hinputs, l, k, hsent, hascends, hl, -⟩ := h.of_exec hexec
    refine ⟨⟨l, k, hsent, hascends, hl, nofun⟩, .inl ⟨?_, nofun⟩, .inr ⟨_, _, rfl⟩⟩
    exact (List.length_map _).trans (congrArg List.length hinputs)
  · obtain ⟨hinputs, l, k, hsent, hascends, hl, hok⟩ := h.of_exec hexec
    obtain ⟨hsequence, hσ'⟩ := hok σ' rfl
    simp only [Prod.mk.injEq] at hσ'
    refine ⟨⟨l, k, hsent, hascends, hl, fun σ'' hσ'' => ?_⟩,
      .inl ⟨congrArg List.length hinputs, fun σ'' hσ'' => ?_⟩, .inl ⟨σ', rfl⟩⟩
    · cases hσ''
      exact ⟨hsequence, hσ'.1, hσ'.2.2⟩
    · cases hσ''
      exact hσ'.2.1
  · obtain ⟨hinputs, l, k, hsent, hascends, hl, -⟩ := h.of_exec hexec
    refine ⟨⟨l, k, hsent, hascends, hl, nofun⟩, .inl ⟨?_, nofun⟩, .inr ⟨_, _, rfl⟩⟩
    exact (List.length_map _).trans (congrArg List.length hinputs)

/-- The client's input stream arrives. -/
theorem wakeRun_stream {w : Wake} {ok : Bool} {σ : Session} (hrun : s.run = .session σ) :
    Continues s σ σ.guard (s.wakeRun w (.stream ok)) := by
  have hwritten {s' : Runtime} (hsent : s'.sent = s.sent)
      (h : ∀ σ', s'.run = .session σ' → (σ'.sequence, σ'.token, σ'.guard) =
        (σ.sequence, σ.token, σ.guard)) :
      ∃ l k, s'.sent = s.sent ++ l ∧ Ascends Packet.number σ.sequence.toNat k l ∧
        (∀ q ∈ l, Sessional σ.token q) ∧ ∀ σ', s'.run = .session σ' →
          σ'.sequence.toNat = k ∧ σ'.token = σ.token ∧ σ'.guard = σ.guard := by
    refine ⟨[], _, by rw [hsent, List.append_nil], le_refl σ.sequence.toNat, nofun,
      fun σ' hσ' => ?_⟩
    have heq := h σ' hσ'
    simp only [Prod.mk.injEq] at heq
    exact ⟨by rw [heq.1], heq.2⟩
  unfold wakeRun
  rw [hrun]
  dsimp only [Task.select]
  by_cases hinput : σ.input = true
  · rw [if_pos hinput]
    refine ⟨hwritten rfl ?_, .inl ⟨rfl, ?_⟩, .inl ⟨σ, rfl⟩⟩
    · rintro σ' ⟨⟩
      rfl
    · rintro σ' ⟨⟩
      rfl
  rw [if_neg hinput]
  cases ok with
  | false => exact ⟨hwritten rfl nofun, .inl ⟨List.length_map _, nofun⟩, .inr ⟨_, _, rfl⟩⟩
  | true =>
    refine ⟨hwritten rfl ?_, .inr ⟨Bool.eq_false_iff.2 hinput, rfl, ?_⟩, .inl ⟨_, rfl⟩⟩
    · rintro σ' ⟨⟩
      rfl
    · rintro σ' ⟨⟩
      rfl

end Runtime

end Host
end SidecarDOS
