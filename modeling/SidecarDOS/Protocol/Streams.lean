/-
# What is on the streams

The client's packets are numbered from the host's guard on (`Ups`, `Ins`), the host's from the
client's last one on (`Downs`); with where the host is (`Stage`) they are the invariant of the
connection (`Flows`).  The host draws its token when it has read the client's third packet.
Then no packet with the zero token is on its way to it any more, and none follows.
-/

import SidecarDOS.Protocol.Pacing

namespace SidecarDOS
namespace Connection

open Library (Ascends)
open Ipad (SessionModel said)
open Host (Opening Sessional)
open StoredSecrets (toHost)

variable {crypto : Crypto} {token : Id16} {submitted : Bool} {m m' : SessionModel}

/-! ### The streams -/

variable {s s' : World} {last guard : ℕ}

/-- The client's packets on the control stream are numbered from the host's guard on.  They carry
the zero token until the host draws its own; at that moment none is on its way. -/
structure Ups (token : Id16) (last guard : ℕ) (s : World) : Prop where
  ascends : ∃ hi, Ascends number guard hi s.up ∧
    (s.Open → hi ≤ s.client.transport.controlSequence) ∧ (last ≤ 4 → hi ≤ 3)
  session : ∀ p ∈ s.up, p.session = (if last ≤ 4 then Id16.zero else token).bytes

/-- The host's packets are numbered from the client's last one on, up to `last`. -/
structure Downs (token : Id16) (last : ℕ) (s : World) : Prop where
  items : ∀ p ∈ s.down, Opening p ∨ 5 ≤ last ∧ Sessional token p
  ascends : s.Open → Ascends Host.Packet.number s.client.lastSequence last s.down
  knows : s.Open → Knows token s.submitted s.client
  start : s.Open → 5 ≤ last → 4 ≤ s.client.lastSequence ∧
    3 ≤ s.client.transport.controlSequence ∧
      (5 ≤ s.client.lastSequence ∨ ∃ p ∈ s.down, p.number = 5)

/-- The task that reads the input stream has the token, and has seen the packets up to `lo`. -/
def Tracks (token : Id16) (lo : ℕ) (s : World) : Prop :=
  ∀ i, s.task = some i → ∃ task, s.host.inputs[i]? = some task ∧ task.mark = (token, lo)

/-- The packets on the input stream carry the session's token. -/
structure Ins (token : Id16) (last : ℕ) (s : World) : Prop where
  ascends : ∃ lo hi, Ascends number lo hi s.input ∧
    (s.Open → hi ≤ s.client.transport.inputSequence) ∧ Tracks token lo s ∧
      ∀ σ, s.attempt = .running → s.host.run = .session σ → σ.input = false →
        lo = 0 ∧ s.task = none
  session : ∀ p ∈ s.input, p.session = token.bytes
  early : last ≤ 4 → s.input = [] ∧ s.task = none

theorem Downs.congr (h : Downs token last s)
    (heq : (s'.client, s'.epoch, s'.submitted, s'.down) =
      (s.client, s.epoch, s.submitted, s.down)) : Downs token last s' := by
  simp only [Prod.mk.injEq] at heq
  obtain ⟨hclient, hepoch, hsubmitted, hdown⟩ := heq
  have hopen : s'.Open → s.Open := fun hopen => by
    unfold World.Open at hopen ⊢
    rwa [← hclient, ← hepoch]
  refine ⟨?_, fun ho => ?_, fun ho => ?_, fun ho => ?_⟩
  · rw [hdown]
    exact h.items
  · rw [hdown, hclient]
    exact h.ascends (hopen ho)
  · rw [hsubmitted, hclient]
    exact h.knows (hopen ho)
  · rw [hdown, hclient]
    exact h.start (hopen ho)

/-- Nothing has been written on the input stream. -/
theorem Ins.of_nil (hinput : s.input = []) (htask : s.task = none) : Ins token last s := by
  refine ⟨⟨0, 0, ?_, fun _ => Nat.zero_le _, fun i hi => ?_, fun _ _ _ _ => ⟨rfl, htask⟩⟩,
    fun p hp => ?_, fun _ => ⟨hinput, htask⟩⟩
  · rw [hinput]
    exact le_refl 0
  · cases htask.symm.trans hi
  · rw [hinput] at hp
    exact absurd hp List.not_mem_nil

/-- The client's side of a callback of the open connection. -/
def calledBack (s : World) (down : List Host.Packet) (m : SessionModel) (submitted : Bool)
    (l : List Ipad.Effect) : World :=
  { s with
    client := m
    down := down
    up := s.up ++ said false l
    input := s.input ++ said true l
    submitted := submitted }

theorem callback_eq {l : List Ipad.Effect} (s : World) (down : List Host.Packet)
    (e : Ipad.Moment × SessionModel.Event) (hopen : s.Open)
    (hlog : (s.client.step crypto e).log = s.client.log ++ l) :
    callback crypto { s with down := down } e =
      calledBack s down (s.client.step crypto e) (s.submitted || enters e.2) l := by
  have hwrote (b : Bool) : wrote b s.client.log (s.client.step crypto e) = said b l := by
    rw [wrote, hlog, List.drop_left]
  unfold callback
  rw [if_pos (show World.Open { s with down := down } from hopen)]
  simp only [hwrote, calledBack]

section Turned

variable {down : List Host.Packet} {l : List Ipad.Effect} {k : Bool → ℕ} {next : ℕ}

theorem Ups.turned (h : Ups token last guard s) (hdowns : Downs token last s) (hopen : s.Open)
    (hproceeds : Proceeds token submitted next s.client m l k) :
    Ups token last guard (calledBack s down m submitted l) := by
  obtain ⟨hi, hascends, hhi, hearly⟩ := h.ascends
  have hlast : s.client.lastSequence ≤ last := (hdowns.ascends hopen).le
  refine ⟨⟨k false, (hascends.mono (hhi hopen)).append (hproceeds.ascends false), fun hopen' => ?_,
    fun hle => (hproceeds.early (by omega)).1⟩, fun p hp => ?_⟩
  · have hcounter := (hproceeds.still (hopen'.trans hopen.symm)).2.2 false
    exact hcounter.ge
  rcases List.mem_append.1 hp with hp | hp
  · exact h.session p hp
  rw [hproceeds.session false p hp]
  by_cases hle : last ≤ 4
  · rw [if_pos hle, if_pos (by omega)]
  rw [if_neg hle]
  split
  · rename_i hlt
    -- between its capabilities and the host's token the client is silent
    have hthree := (hdowns.start hopen (by omega)).2.1
    have hnil := (hproceeds.ascends false).eq_nil ((hproceeds.early hlt).1.trans hthree)
    rw [hnil] at hp
    exact absurd hp List.not_mem_nil
  · rfl

theorem Ins.turned (h : Ins token last s) (hdowns : Downs token last s) (hopen : s.Open)
    (hproceeds : Proceeds token submitted next s.client m l k) :
    Ins token last (calledBack s down m submitted l) := by
  obtain ⟨lo, hi, hascends, hhi, htracks, hfresh⟩ := h.ascends
  have hlast : s.client.lastSequence ≤ last := (hdowns.ascends hopen).le
  refine ⟨⟨lo, k true, (hascends.mono (hhi hopen)).append (hproceeds.ascends true),
    fun hopen' => ?_,
    htracks, hfresh⟩, fun p hp => ?_, fun hle => ?_⟩
  · have hcounter := (hproceeds.still (hopen'.trans hopen.symm)).2.2 true
    exact hcounter.ge
  · rcases List.mem_append.1 hp with hp | hp
    · exact h.session p hp
    rw [hproceeds.session true p hp]
    split
    · rename_i hlt
      rw [(hproceeds.early hlt).2] at hp
      exact absurd hp List.not_mem_nil
    · rfl
  · obtain ⟨hinput, htask⟩ := h.early hle
    refine ⟨?_, htask⟩
    show s.input ++ said true l = []
    rw [hinput, (hproceeds.early (by omega)).2]
    rfl

theorem Downs.turned (h : Downs token last s) (hopen : s.Open)
    (hproceeds : Proceeds token submitted next s.client m l k) (hdown : down ⊆ s.down)
    (hascends : Ascends Host.Packet.number next last down)
    (hle : s.client.lastSequence ≤ next)
    (hstart : (∃ p ∈ s.down, p.number = 5) → 5 ≤ next ∨ ∃ p ∈ down, p.number = 5) :
    Downs token last (calledBack s down m submitted l) := by
  have hstill (hopen' : (calledBack s down m submitted l).Open) :=
    hproceeds.still (hopen'.trans hopen.symm)
  refine ⟨fun p hp => h.items p (hdown hp), fun hopen' => ?_, fun hopen' => (hstill hopen').2.1,
    fun hopen' hfive => ?_⟩
  · show Ascends Host.Packet.number m.lastSequence last down
    rw [(hstill hopen').1]
    exact hascends
  · obtain ⟨hfour, hthree, hnext⟩ := h.start hopen hfive
    obtain ⟨hlast, -, hcounter⟩ := hstill hopen'
    have hcontrol : m.transport.controlSequence = k false := hcounter false
    have hmono : s.client.transport.controlSequence ≤ k false := (hproceeds.ascends false).le
    show 4 ≤ m.lastSequence ∧ 3 ≤ m.transport.controlSequence ∧
      (5 ≤ m.lastSequence ∨ ∃ p ∈ down, p.number = 5)
    rw [hlast, hcontrol]
    refine ⟨by omega, by omega, ?_⟩
    rcases hnext with hnext | hnext
    · exact .inl (by omega)
    · exact hstart hnext

end Turned

/-! ### Both sides -/

/-- `run` does not serve a session. -/
def Idle (run : Host.Phase) : Prop := run = .accepting ∨ ∃ result, run = .returned result

/-- Where the host is, with the number of its last packet and its guard. -/
inductive Stage (token : Id16) (s : World) : ℕ → ℕ → Prop where
  | waiting (hattempt : s.attempt = .waiting) : Stage token s 0 0
  | hello (hattempt : s.attempt = .hello) (hrun : Idle s.host.run)
      (hcontrol : s.auth.control = {}) :
      Stage token s 0 0
  | answer {w : Host.Awaiting} {guard : ℕ} (hattempt : s.attempt = .answer w)
      (hrun : Idle s.host.run) (hcontrol : s.auth.control = ⟨3, guard, .zero⟩)
      (hguard : 1 ≤ guard) :
      Stage token s 3 guard
  | greeting {id : Id16} {guard : ℕ} (hattempt : s.attempt = .running)
      (hrun : s.host.run = .greeting id) (hcontrol : s.auth.control = ⟨4, guard, .zero⟩)
      (hguard : 2 ≤ guard) : Stage token s 4 guard
  | session {σ : Host.Session} (hattempt : s.attempt = .running) (hrun : s.host.run = .session σ)
      (htoken : σ.token = token) (hsequence : 5 ≤ σ.sequence.toNat) :
      Stage token s σ.sequence.toNat σ.guard
  | ended {last guard : ℕ} (hattempt : s.attempt = .ended) : Stage token s last guard

theorem Stage.congr (h : Stage token s last guard)
    (heq : (s'.attempt, s'.auth, s'.host.run) = (s.attempt, s.auth, s.host.run)) :
    Stage token s' last guard := by
  simp only [Prod.mk.injEq] at heq
  obtain ⟨hattempt', hauth', hrun'⟩ := heq
  cases h with
  | waiting hattempt => exact .waiting (hattempt'.trans hattempt)
  | hello hattempt hrun hcontrol =>
    exact .hello (hattempt'.trans hattempt) (hrun' ▸ hrun) (hauth' ▸ hcontrol)
  | answer hattempt hrun hcontrol hguard =>
    exact .answer (hattempt'.trans hattempt) (hrun' ▸ hrun) (hauth' ▸ hcontrol) hguard
  | greeting hattempt hrun hcontrol hguard =>
    exact .greeting (hattempt'.trans hattempt) (hrun'.trans hrun) (hauth' ▸ hcontrol) hguard
  | session hattempt hrun htoken hsequence =>
    exact .session (hattempt'.trans hattempt) (hrun'.trans hrun) htoken hsequence
  | ended hattempt => exact .ended (hattempt'.trans hattempt)

/-- While `session` has the connection, it waits for the client's capabilities or is in its
loop. -/
theorem Stage.running (h : Stage token s last guard) (hattempt : s.attempt = .running) :
    (∃ id, s.host.run = .greeting id ∧ last = 4 ∧ 2 ≤ guard) ∨
      ∃ σ, s.host.run = .session σ ∧ σ.token = token ∧ 5 ≤ σ.sequence.toNat ∧
        last = σ.sequence.toNat ∧ guard = σ.guard := by
  cases h with
  | waiting ha => cases ha.symm.trans hattempt
  | hello ha => cases ha.symm.trans hattempt
  | answer ha => cases ha.symm.trans hattempt
  | greeting _ hrun _ hguard => exact .inl ⟨_, hrun, rfl, hguard⟩
  | session _ hrun htoken hsequence => exact .inr ⟨_, hrun, htoken, hsequence, rfl, rfl⟩
  | ended ha => cases ha.symm.trans hattempt

structure Flows (token : Id16) (last guard : ℕ) (s : World) : Prop where
  stage : Stage token s last guard
  ups : Ups token last guard s
  downs : Downs token last s
  ins : Ins token last s

/-- Some token, last packet and guard fit the connection. -/
def Inv (s : World) : Prop :=
  s.epoch ≤ s.client.transport.epoch ∧
    ∃ token last guard, token ≠ Id16.zero ∧ Flows token last guard s

theorem toHost_eq {p : Ipad.Packet} {session : Id16} (h : p.session = session.bytes) :
    toHost p = some ⟨p.kind, p.sequence, session, p.body⟩ := by
  rw [toHost, Id16.ofBytes_eq_some.2 h.symm]
  rfl

/-- What is known of the packet that comes next to the client. -/
structure Next (last : ℕ) (s : World) (p : Host.Packet) (rest : List Host.Packet) : Prop where
  number : s.client.lastSequence < p.number
  ascends : Ascends Host.Packet.number p.number last rest
  proof : 5 ≤ p.number → 4 ≤ s.client.lastSequence
  next : s.client.lastSequence < 5 → p.number ≤ 5
  start : (∃ q ∈ s.down, q.number = 5) → 5 ≤ p.number ∨ ∃ q ∈ rest, q.number = 5

theorem Downs.next (h : Downs token last s) (hopen : s.Open) {p : Host.Packet}
    {rest : List Host.Packet} (hdown : s.down = p :: rest) : Next last s p rest := by
  have hascends := h.ascends hopen
  rw [hdown] at hascends
  obtain ⟨hnumber, hrest⟩ := hascends
  have hle := hrest.le
  have hfive : ∀ q ∈ s.down, q.number = 5 → q = p ∨ q ∈ rest ∧ p.number < 5 := by
    intro q hq hfive
    rw [hdown] at hq
    rcases List.mem_cons.1 hq with hq | hq
    · exact .inl hq
    · exact .inr ⟨hq, hfive ▸ (hrest.mem hq).1⟩
  refine ⟨hnumber, hrest, fun hge => (h.start hopen (by omega)).1, fun hlt => ?_, ?_⟩
  · by_cases hlast : last ≤ 4
    · omega
    obtain ⟨-, -, hstart⟩ := h.start hopen (by omega)
    obtain ⟨q, hq, hnum⟩ := hstart.resolve_left (by omega)
    rcases hfive q hq hnum with rfl | ⟨-, hlt'⟩
    · exact hnum.le
    · exact hlt'.le
  · rintro ⟨q, hq, hnum⟩
    rcases hfive q hq hnum with rfl | ⟨hq, -⟩
    · exact .inl hnum.ge
    · exact .inr ⟨q, hq, hnum⟩

namespace Flows

/-- The invariant decides every check. -/
theorem accepted (h : Flows token last guard s) (htoken : token ≠ .zero) : Accepted s := by
  refine ⟨fun hopen p rest hdown => ?_, fun p rest hup => ?_, fun p rest hinput => ?_⟩
  · have hnext := h.downs.next hopen hdown
    have hitem := (h.downs.items p (hdown ▸ List.mem_cons_self)).imp_right And.right
    exact (h.downs.knows hopen).fits htoken hitem hnext.number hnext.proof hnext.next
  · have hsession := h.ups.session p (hup ▸ List.mem_cons_self)
    refine ⟨_, toHost_eq hsession, ?_⟩
    obtain ⟨hi, hascends, -, -⟩ := h.ups.ascends
    rw [hup] at hascends
    have hnumber : guard < number p := hascends.1
    unfold Passes
    cases h.stage with
    | waiting hattempt =>
      rw [hattempt]
      trivial
    | hello hattempt _ hcontrol =>
      rw [hattempt, hcontrol]
      exact ⟨hnumber, rfl⟩
    | answer hattempt _ hcontrol =>
      rw [hattempt, hcontrol]
      exact ⟨hnumber, rfl⟩
    | greeting hattempt hrun hcontrol =>
      rw [hattempt, hrun, hcontrol]
      exact ⟨hnumber, rfl⟩
    | session hattempt hrun hσ hsequence =>
      rw [hattempt, hrun]
      refine ⟨hnumber, ?_⟩
      rw [hσ]
      exact if_neg (by omega)
    | ended hattempt =>
      rw [hattempt]
      trivial
  · have hsession := h.ins.session p (hinput ▸ List.mem_cons_self)
    refine ⟨_, toHost_eq hsession, fun i task htask hget => ?_⟩
    obtain ⟨lo, hi, hascends, -, htracks, -⟩ := h.ins.ascends
    rw [hinput] at hascends
    obtain ⟨task', hget', hmark⟩ := htracks i htask
    cases hget.symm.trans hget'
    obtain ⟨htask, hlo⟩ := Prod.mk.inj hmark
    rw [hlo, htask]
    exact ⟨hascends.1, rfl⟩

/-- The callbacks of the open connection. -/
theorem turned {down : List Host.Packet} {l : List Ipad.Effect} {k : Bool → ℕ} {next : ℕ}
    (h : Flows token last guard s) (hopen : s.Open)
    (hproceeds : Proceeds token submitted next s.client m l k) (hdown : down ⊆ s.down)
    (hascends : Ascends Host.Packet.number next last down)
    (hle : s.client.lastSequence ≤ next)
    (hstart : (∃ p ∈ s.down, p.number = 5) → 5 ≤ next ∨ ∃ p ∈ down, p.number = 5) :
    Flows token last guard (calledBack s down m submitted l) :=
  ⟨h.stage.congr rfl, h.ups.turned h.downs hopen hproceeds, 
    h.downs.turned hopen hproceeds hdown hascends hle hstart, h.ins.turned h.downs hopen hproceeds⟩

/-- Behind the connection the client's callbacks do not matter. -/
theorem closed (h : Flows token last guard s) (hclosed : m.transport.epoch ≠ s.epoch) :
    Flows token last guard { s with client := m } := by
  obtain ⟨hi, hascends, -, hearly⟩ := h.ups.ascends
  obtain ⟨lo, hi', hascends', -, htracks, hfresh⟩ := h.ins.ascends
  have hshut : ¬ World.Open { s with client := m } := hclosed
  exact ⟨h.stage.congr rfl,
    ⟨⟨hi, hascends, fun hopen => absurd hopen hshut, hearly⟩, h.ups.session⟩,
    ⟨h.downs.items, fun hopen => absurd hopen hshut, fun hopen => absurd hopen hshut,
      fun hopen => absurd hopen hshut⟩,
    ⟨⟨lo, hi', hascends', fun hopen => absurd hopen hshut, htracks, hfresh⟩, h.ins.session,
      h.ins.early⟩⟩

end Flows

/-! ### The host's tasks -/

theorem step_mark (s : Host.Runtime) (e : Host.Wake × Host.RuntimeEvent)
    (htarget : target e.2 = none) :
    s.inputs.map Host.InputTask.mark <+: (s.step e).inputs.map Host.InputTask.mark := by
  obtain ⟨w, e⟩ := e
  cases e with
  | exit => exact List.prefix_rfl
  | input i p => cases htarget
  | dropped i => cases htarget
  | turn t => exact List.prefix_rfl
  | shutdown =>
    dsimp only [Host.Runtime.step]
    split
    · split <;> exact List.prefix_rfl
    · exact List.prefix_rfl
  | _ => exact s.wakeRun_mark w _

theorem step_inputs (s : Host.Runtime) (e : Host.Wake × Host.RuntimeEvent) {j : ℕ}
    (htarget : target e.2 = some j) : (s.step e).inputs = s.inputs ∨
      (s.step e).inputs = s.inputs.eraseIdx j ∨ ∃ p task, e.2 = .input j (.ok p) ∧
        s.inputs[j]? = some task ∧
          (s.step e).inputs = s.inputs.set j { task with guard := p.number } := by
  obtain ⟨w, e⟩ := e
  cases e with
  | input i p =>
    cases htarget
    rcases s.wakeInput_inputs j p with ⟨-, heq⟩ | heq | ⟨q, task, rfl, htask, heq⟩
    · exact .inl heq
    · exact .inr (.inl heq)
    · exact .inr (.inr ⟨q, task, rfl, htask, heq⟩)
  | dropped i =>
    cases htarget
    dsimp only [Host.Runtime.step]
    split
    · exact .inr (.inl rfl)
    · exact .inl rfl
  | _ => cases htarget

/-- What does not wake `run` leaves it where it is, and writes nothing. -/
theorem step_kept (s : Host.Runtime) {e : Host.Wake × Host.RuntimeEvent} {j : ℕ}
    (htarget : target e.2 = some j) : ((s.step e).run, (s.step e).sent) = (s.run, s.sent) := by
  obtain ⟨w, e⟩ := e
  cases e with
  | input i p => exact s.wakeInput_kept i p
  | dropped i =>
    dsimp only [Host.Runtime.step]
    split <;> rfl
  | _ => cases htarget

theorem Idle.step {s : Host.Runtime} (h : Idle s.run) {e : Host.Wake × Host.RuntimeEvent}
    (hincoming : ∀ i, e.2 ≠ .incoming i) : Idle (s.step e).run := by
  obtain ⟨w, e⟩ := e
  have hresumed (s : Host.Runtime) : Idle s.resumed := by
    unfold Host.Runtime.resumed
    split
    · exact .inr ⟨_, rfl⟩
    · exact .inl rfl
  have hwake : Idle (s.wakeRun w e).run := by
    have hwakes := s.wakes w e
    generalize s.wakeRun w e = s' at hwakes ⊢
    have hnot {run : Host.Phase} (hrun : s.run = run) (hidle : ¬ Idle run) : Idle s'.run :=
      absurd (hrun ▸ h) hidle
    cases hwakes with
    | stays => exact h
    | incoming => exact absurd rfl (hincoming _)
    | acted hphase hexec =>
      dsimp only
      split
      · exact hresumed _
      · exact .inr ⟨_, rfl⟩
    | actFailed => exact .inr ⟨_, rfl⟩
    | greeted hphase => exact hnot hphase (by rintro (h | ⟨_, h⟩) <;> cases h)
    | greetFailed hphase => exact hnot hphase (by rintro (h | ⟨_, h⟩) <;> cases h)
    | selected hphase => exact hnot hphase (by rintro (h | ⟨_, h⟩) <;> cases h)
    | stopped hphase => exact hnot hphase (by rintro (h | ⟨_, h⟩) <;> cases h)
    | failed hphase => exact hnot hphase (by rintro (h | ⟨_, h⟩) <;> cases h)
    | finished hphase => exact hnot hphase (by rintro (h | ⟨_, h⟩) <;> cases h)
    | finishFailed hphase => exact .inr ⟨_, rfl⟩
  cases e with
  | exit => exact h
  | input i p => exact (Prod.mk.inj (s.wakeInput_kept i p)).1 ▸ h
  | dropped i =>
    dsimp only [Host.Runtime.step]
    split <;> exact h
  | turn t => exact h
  | shutdown =>
    dsimp only [Host.Runtime.step]
    split
    · split <;> exact h
    · exact h
  | _ => exact hwake

/-- An authenticated client gets a session, unless another one is reserved. -/
theorem Idle.incoming {s : Host.Runtime} (h : Idle s.run) (w : Host.Wake) (id : Id16) :
    ((s.step (w, .incoming (.authenticated id))).sent,
      (s.step (w, .incoming (.authenticated id))).inputs) = (s.sent, s.inputs) ∧
        ((s.step (w, .incoming (.authenticated id))).run = .greeting id ∨
          Serves (s.step (w, .incoming (.authenticated id))).run = false) := by
  show ((s.wakeRun w (.incoming (.authenticated id))).sent,
      (s.wakeRun w (.incoming (.authenticated id))).inputs) = (s.sent, s.inputs) ∧
        ((s.wakeRun w (.incoming (.authenticated id))).run = .greeting id ∨
          Serves (s.wakeRun w (.incoming (.authenticated id))).run = false)
  unfold Host.Runtime.wakeRun
  rcases h with hrun | ⟨result, hrun⟩
  · rw [hrun]
    dsimp only [Host.Runtime.incoming]
    split
    · refine ⟨rfl, .inr ?_⟩
      dsimp only [Host.Runtime.resumed]
      split <;> rfl
    · exact ⟨rfl, .inl rfl⟩
  · rw [hrun]
    refine ⟨rfl, .inr ?_⟩
    rw [hrun]
    rfl

theorem mark_of_prefix {tasks tasks' : List Host.InputTask} {i : ℕ} {mark : Id16 × ℕ}
    (h : tasks.map Host.InputTask.mark <+: tasks'.map Host.InputTask.mark)
    (htask : ∃ task, tasks[i]? = some task ∧ task.mark = mark) :
    ∃ task, tasks'[i]? = some task ∧ task.mark = mark := by
  obtain ⟨task, hget, hmark⟩ := htask
  have hmapped : (tasks.map Host.InputTask.mark)[i]? = some mark := by
    rw [List.getElem?_map, hget, Option.map_some, hmark]
  obtain ⟨rest, hrest⟩ := h
  have hmapped' : (tasks'.map Host.InputTask.mark)[i]? = some mark := by
    rw [← hrest, List.getElem?_append_left, hmapped]
    exact (List.getElem?_eq_some_iff.1 hmapped).1
  rw [List.getElem?_map] at hmapped'
  exact Option.map_eq_some_iff.1 hmapped'

/-- The connection's input task is still found, unless a packet has just come to it. -/
theorem Tracks.woken {lo : ℕ} (h : Tracks token lo s) (e : Host.Wake × Host.RuntimeEvent)
    (hgrow : ¬ (s.attempt = .running ∧ s.host.inputs.length < (s.host.step e).inputs.length))
    (hinput : ∀ i p, e.2 = .input i (.ok p) → s.task ≠ some i) :
    Tracks token lo (Connection.woken s e) := by
  show ∀ i, tracked s e.2 (s.host.step e) = some i →
    ∃ task, (s.host.step e).inputs[i]? = some task ∧ task.mark = (token, lo)
  unfold tracked
  rw [if_neg hgrow]
  cases htarget : target e.2 with
  | none =>
    have hprefix := step_mark s.host e htarget
    have hle : s.host.inputs.length ≤ (s.host.step e).inputs.length := by
      simpa using hprefix.length_le
    rw [if_neg (not_lt.2 hle)]
    exact fun i hi => mark_of_prefix hprefix (h i hi)
  | some j =>
    have hsame (heq : (s.host.step e).inputs.length = s.host.inputs.length) :
        ¬ (s.host.step e).inputs.length < s.host.inputs.length := by omega
    rcases step_inputs s.host e htarget with heq | heq | ⟨p, task, he, htask, heq⟩
    · rw [if_neg (hsame (by rw [heq])), heq]
      exact h
    · rw [heq]
      by_cases hj : j < s.host.inputs.length
      · have hlength := List.length_eraseIdx_of_lt hj
        rw [if_pos (by omega)]
        cases htask : s.task with
        | none => exact nofun
        | some i =>
          obtain ⟨task, hget, hmark⟩ := h i htask
          dsimp only
          intro i' hi'
          split at hi'
          · cases hi'
          rename_i hne
          cases hi'
          refine ⟨task, ?_, hmark⟩
          split
          · rename_i hlt
            rw [List.getElem?_eraseIdx_of_ge (by omega), Nat.sub_add_cancel (by omega), hget]
          · rw [List.getElem?_eraseIdx_of_lt (by omega), hget]
      · rw [List.eraseIdx_of_length_le (not_lt.1 hj), if_neg (lt_irrefl _)]
        exact h
    · rw [if_neg (hsame (by rw [heq, List.length_set])), heq]
      intro i hi
      have hne : j ≠ i := fun hji => hinput j p he (hji ▸ hi)
      rw [List.getElem?_set_ne hne]
      exact h i hi

theorem tracked_none (htask : s.task = none) {e : Host.RuntimeEvent} {host : Host.Runtime}
    (hgrow : ¬ (s.attempt = .running ∧ s.host.inputs.length < host.inputs.length)) :
    tracked s e host = none := by
  unfold tracked
  rw [if_neg hgrow, htask]
  split
  · split
    · rename_i heq
      cases heq
    · rfl
  · rfl

/-- What the host has written is on its way to the client. -/
theorem woken_down {e : Host.Wake × Host.RuntimeEvent} {l : List Host.Packet}
    (hrunning : s.attempt = .running) (hsent : (s.host.step e).sent = s.host.sent ++ l) :
    (woken s e).down = s.down ++ l := by
  show (if s.attempt = .running then s.down ++ (s.host.step e).sent.drop s.host.sent.length
    else s.down) = s.down ++ l
  rw [if_pos hrunning, hsent, List.drop_left]

theorem woken_down_same {e : Host.Wake × Host.RuntimeEvent}
    (hsent : (s.host.step e).sent = s.host.sent) : (woken s e).down = s.down := by
  show (if s.attempt = .running then s.down ++ (s.host.step e).sent.drop s.host.sent.length
    else s.down) = s.down
  rw [hsent, List.drop_length, List.append_nil, ite_self]

theorem woken_attempt {e : Host.Wake × Host.RuntimeEvent} (hrunning : s.attempt = .running) :
    (woken s e).attempt = if Serves (s.host.step e).run then .running else .ended := by
  show (if s.attempt = .running ∧ ¬ Serves (s.host.step e).run = true then Attempt.ended
    else s.attempt) = _
  rw [hrunning]
  cases Serves (s.host.step e).run <;> rfl

theorem running_of_woken {e : Host.Wake × Host.RuntimeEvent}
    (h : (woken s e).attempt = .running) : s.attempt = .running := by
  have hattempt : (if s.attempt = .running ∧ ¬ Serves (s.host.step e).run = true then Attempt.ended
    else s.attempt) = .running := h
  split at hattempt
  · cases hattempt
  · exact hattempt

theorem Ins.woken (h : Ins token last s) {e : Host.Wake × Host.RuntimeEvent}
    (hgrow : ¬ (s.attempt = .running ∧ s.host.inputs.length < (s.host.step e).inputs.length))
    (hinput : ∀ i p, e.2 = .input i (.ok p) → s.task ≠ some i)
    (hrun : (s.host.step e).run = s.host.run) : Ins token last (Connection.woken s e) := by
  obtain ⟨lo, hi, hascends, hhi, htracks, hfresh⟩ := h.ascends
  refine ⟨⟨lo, hi, hascends, hhi, htracks.woken e hgrow hinput, fun σ hrunning hσ hfalse => ?_⟩,
    h.session, fun hle => ⟨(h.early hle).1, tracked_none (h.early hle).2 hgrow⟩⟩
  obtain ⟨hlo, htask⟩ := hfresh σ (running_of_woken hrunning) (hrun.symm.trans hσ) hfalse
  exact ⟨hlo, tracked_none htask hgrow⟩

/-- The input task reads the next packet. -/
theorem Ins.read (h : Ins token last s) {p : Ipad.Packet} {rest : List Ipad.Packet} {i : ℕ}
    (hinput : s.input = p :: rest) (htask : s.task = some i) {q : Host.Packet}
    (hq : q.number = number p) (wake : Host.Wake) :
    Ins token last (Connection.woken { s with input := rest } (wake, .input i (.ok q))) := by
  obtain ⟨lo, hi, hascends, hhi, htracks, hfresh⟩ := h.ascends
  rw [hinput] at hascends
  obtain ⟨task, hget, hmark⟩ := htracks i htask
  have hlt : i < s.host.inputs.length := (List.getElem?_eq_some_iff.1 hget).1
  have hsome : s.task ≠ none := htask ▸ nofun
  have hrun := (Prod.mk.inj (s.host.wakeInput_kept i (.ok q))).1
  refine ⟨⟨number p, hi, hascends.2, hhi, ?_, fun σ hrunning hσ hfalse => ?_⟩,
    fun p' hp' => h.session p' (hinput ▸ List.mem_cons_of_mem p hp'),
    fun hle => absurd (h.early hle).2 hsome⟩
  swap
  · have hnone := hfresh σ (running_of_woken (s := { s with input := rest }) hrunning)
      (hrun.symm.trans hσ) hfalse
    exact absurd hnone.2 hsome
  show ∀ i', tracked s (.input i (.ok q)) (s.host.wakeInput i (.ok q)) = some i' →
    ∃ task, (s.host.wakeInput i (.ok q)).inputs[i']? = some task ∧ task.mark = (token, number p)
  unfold tracked
  rcases s.host.wakeInput_inputs i (.ok q) with ⟨hnone, -⟩ | heq | ⟨q', task', hq', hget', heq⟩
  · cases hget.symm.trans hnone
  · have hlength := List.length_eraseIdx_of_lt hlt
    rw [heq, if_neg (by omega), if_pos (by omega), htask]
    simp [target]
  · rw [heq, List.length_set, if_neg fun hn => lt_irrefl _ hn.2, if_neg (lt_irrefl _), htask]
    rintro i' ⟨⟩
    cases hq'
    cases hget.symm.trans hget'
    refine ⟨_, List.getElem?_set_self hlt, ?_⟩
    rw [← hq]
    exact Prod.ext (Prod.mk.inj hmark).1 rfl

namespace Flows

/-- The host wakes, but not for this connection. -/
theorem beside (h : Flows token last guard s) (e : Host.Wake × Host.RuntimeEvent)
    (hattempt : s.attempt ≠ .running) (hinput : ∀ i p, e.2 = .input i (.ok p) → s.task ≠ some i)
    (hincoming : ∀ i, e.2 = .incoming i → s.attempt = .waiting ∨ s.attempt = .ended) :
    Flows token last guard (woken s e) := by
  have hgrow : ¬ (s.attempt = .running ∧
      s.host.inputs.length < (s.host.step e).inputs.length) := fun h => hattempt h.1
  have hwoken : woken s e = { s with
      host := s.host.step e, task := tracked s e.2 (s.host.step e) } := by
    unfold woken
    dsimp only
    rw [if_neg hattempt, if_neg fun h => hattempt h.1]
  obtain ⟨lo, hi, hascends, hhi, htracks, -⟩ := h.ins.ascends
  have htracks' := htracks.woken e hgrow hinput
  have hnot {a : Attempt} (ha : s.attempt = a) (hw : a ≠ .waiting) (ho : a ≠ .ended) :
      ∀ i, e.2 ≠ .incoming i := fun i hi => (hincoming i hi).elim (ha ▸ hw) (ha ▸ ho)
  rw [hwoken] at htracks' ⊢
  refine ⟨?_, ⟨h.ups.ascends, h.ups.session⟩,
    h.downs.congr rfl,
    ⟨⟨lo, hi, hascends, hhi, htracks', fun _ hrunning => absurd hrunning hattempt⟩, h.ins.session,
      fun hle => ⟨(h.ins.early hle).1, tracked_none (h.ins.early hle).2 hgrow⟩⟩⟩
  cases h.stage with
  | waiting ha => exact .waiting ha
  | hello ha hrun hcontrol =>
    exact .hello ha (hrun.step (hnot ha nofun nofun)) hcontrol
  | answer ha hrun hcontrol hguard =>
    exact .answer ha (hrun.step (hnot ha nofun nofun)) hcontrol hguard
  | greeting ha => exact absurd ha hattempt
  | session ha => exact absurd ha hattempt
  | ended ha => exact .ended ha

/-- The host wakes for the input stream, or for something that `session` does not see. -/
theorem kept (h : Flows token last guard s) (input : List Ipad.Packet)
    {e : Host.Wake × Host.RuntimeEvent}
    (hkept : ((s.host.step e).run, (s.host.step e).sent) = (s.host.run, s.host.sent))
    (hins : Ins token last (woken { s with input := input } e)) :
    Flows token last guard (woken { s with input := input } e) := by
  obtain ⟨hrun, hsent⟩ := Prod.mk.inj hkept
  have hserves : s.attempt = .running → Serves s.host.run = true := fun hrunning => by
    rcases h.stage.running hrunning with ⟨id, hphase, -⟩ | ⟨σ, hphase, -⟩
    · rw [hphase]
      rfl
    · rw [hphase]
      rfl
  have hattempt : (woken { s with input := input } e).attempt = s.attempt := by
    show (if s.attempt = .running ∧ ¬ Serves (s.host.step e).run = true then Attempt.ended
      else s.attempt) = s.attempt
    rw [hrun, if_neg fun hn => hn.2 (hserves hn.1)]
  have hdown : (woken { s with input := input } e).down = s.down := woken_down_same hsent
  refine ⟨h.stage.congr ?_, ⟨h.ups.ascends, h.ups.session⟩, h.downs.congr ?_, hins⟩
  · rw [hattempt]
    exact congrArg _ (congrArg _ hrun)
  · rw [hdown]
    rfl

/-- `session` returns before it has drawn its token. -/
theorem refused {id : Id16} {wake : Host.Wake} {error : Host.Error}
    (h : Flows token last guard s) (hrunning : s.attempt = .running)
    (hrun : s.host.run = .greeting id) :
    Flows token last guard (woken s (wake, .capabilities (.error error))) := by
  have hstep : s.host.step (wake, .capabilities (.error error)) =
      s.host.ended id (.error error) := by
    show s.host.wakeRun wake (.capabilities (.error error)) = _
    unfold Host.Runtime.wakeRun
    rw [hrun]
    rfl
  have hlength : (s.host.step (wake, .capabilities (.error error))).inputs.length =
      s.host.inputs.length := by
    rw [hstep]
    exact List.length_map _
  have hgrow : ¬ (s.attempt = .running ∧ s.host.inputs.length <
      (s.host.step (wake, .capabilities (.error error))).inputs.length) := by omega
  have hattempt : (woken s (wake, .capabilities (.error error))).attempt = .ended := by
    rw [woken_attempt hrunning, hstep]
    rfl
  have hdown : (woken s (wake, .capabilities (.error error))).down = s.down :=
    woken_down_same (by rw [hstep]; rfl)
  have hnone (htask : s.task = none) :
      (woken s (wake, .capabilities (.error error))).task = none :=
    @tracked_none s htask (.capabilities (.error error)) (s.host.step _) hgrow
  obtain ⟨lo, hi, hascends, hhi, htracks, -⟩ := h.ins.ascends
  refine ⟨.ended hattempt, ⟨h.ups.ascends, h.ups.session⟩, h.downs.congr ?_,
    ⟨⟨lo, hi, hascends, hhi, htracks.woken _ hgrow nofun, fun _ hn => ?_⟩, h.ins.session,
      fun hle => ⟨(h.ins.early hle).1, hnone (h.ins.early hle).2⟩⟩⟩
  · rw [hdown]
    rfl
  · cases hattempt.symm.trans hn

/-- The loop of `session` wakes. -/
theorem continues {σ : Host.Session} (up : List Ipad.Packet) {e : Host.Wake × Host.RuntimeEvent}
    (hrunning : s.attempt = .running) (hσ : s.host.run = .session σ)
    (hsequence : 5 ≤ σ.sequence.toNat) (htarget : target e.2 = none)
    (hups : Ups σ.token σ.sequence.toNat guard { s with up := up })
    (hdowns : Downs σ.token σ.sequence.toNat s) (hins : Ins σ.token σ.sequence.toNat s)
    (h : Host.Runtime.Continues s.host σ guard (s.host.step e)) :
    ∃ last', Flows σ.token last' guard (woken { s with up := up } e) := by
  obtain ⟨l, k, hsent, hascends, hl, hnext⟩ := h.written
  have hle : σ.sequence.toNat ≤ k := hascends.le
  have hdown : (woken { s with up := up } e).down = s.down ++ l := woken_down hrunning hsent
  refine ⟨k, ?_, ⟨?_, ?_⟩, ⟨?_, ?_, hdowns.knows, ?_⟩, ?_⟩
  · have hattempt : (woken { s with up := up } e).attempt =
        if Serves (s.host.step e).run then .running else .ended := woken_attempt hrunning
    rcases h.run with ⟨σ', hσ'⟩ | ⟨id, result, hended⟩
    · obtain ⟨rfl, htoken, rfl⟩ := hnext σ' hσ'
      rw [hσ'] at hattempt
      exact .session hattempt hσ' htoken (hsequence.trans hle)
    · rw [hended] at hattempt
      exact .ended hattempt
  · obtain ⟨hi, hup, hhi, -⟩ := hups.ascends
    exact ⟨hi, hup, hhi, fun hfour => by omega⟩
  · intro p hp
    have hsession := hups.session p hp
    rw [if_neg (by omega)] at hsession ⊢
    exact hsession
  · rw [hdown]
    intro p hp
    rcases List.mem_append.1 hp with hp | hp
    · exact (hdowns.items p hp).imp_right fun hitem => ⟨by omega, hitem.2⟩
    · exact .inr ⟨by omega, hl p hp⟩
  · rw [hdown]
    exact fun hopen => (hdowns.ascends hopen).append hascends
  · rw [hdown]
    intro hopen _
    obtain ⟨hfour, hthree, hstart⟩ := hdowns.start hopen hsequence
    refine ⟨hfour, hthree, hstart.imp_right ?_⟩
    rintro ⟨p, hp, hfive⟩
    exact ⟨p, List.mem_append_left l hp, hfive⟩
  · obtain ⟨lo, hi, hinput, hhi, htracks, hfresh⟩ := hins.ascends
    refine ⟨⟨lo, hi, hinput, hhi, ?_⟩, hins.session, fun hfour => by omega⟩
    rcases h.inputs with ⟨hlength, hsame⟩ | ⟨hfalse, hnew, htrue⟩
    · have hgrow : ¬ (s.attempt = .running ∧
          s.host.inputs.length < (s.host.step e).inputs.length) := by omega
      have hnone : ∀ i p, e.2 = .input i (.ok p) → s.task ≠ some i := fun i p he => by
        rw [he] at htarget
        cases htarget
      refine ⟨htracks.woken e hgrow hnone, fun σ' _ hσ' hfalse => ?_⟩
      obtain ⟨hlo, htask⟩ := hfresh σ hrunning hσ ((hsame σ' hσ').symm.trans hfalse)
      exact ⟨hlo, tracked_none htask hgrow⟩
    · obtain ⟨rfl, -⟩ := hfresh σ hrunning hσ hfalse
      have htask : (woken { s with up := up } e).task = some s.host.inputs.length := by
        show tracked s e.2 (s.host.step e) = _
        unfold tracked
        rw [hnew, if_pos ⟨hrunning, by simp⟩]
      refine ⟨fun i hi => ?_, fun σ' _ hσ' hfalse' => ?_⟩
      · cases htask.symm.trans hi
        refine ⟨⟨σ.token, 0, false⟩, ?_, rfl⟩
        show (s.host.step e).inputs[s.host.inputs.length]? = _
        rw [hnew, List.getElem?_concat_length]
      · exact absurd ((htrue σ' hσ').symm.trans hfalse') Bool.noConfusion

/-- Behind the client's third packet nothing is on its way to the host, and the client has
read the host's proof. -/
theorem third {p : Ipad.Packet} {rest : List Ipad.Packet} (h : Flows token 4 guard s)
    (hguard : 2 ≤ guard) (hup : s.up = p :: rest) : rest = [] ∧
      (s.Open → 4 ≤ s.client.lastSequence ∧ 3 ≤ s.client.transport.controlSequence) := by
  obtain ⟨hi, hups, hhi, hearly⟩ := h.ups.ascends
  rw [hup] at hups
  obtain ⟨hnumber, hrest⟩ := hups
  have hthree : hi = 3 := by
    have hle := hrest.le
    have hbound := hearly le_rfl
    omega
  refine ⟨hrest.eq_nil (by omega), fun hopen => ?_⟩
  have hcontrol := hhi hopen
  refine ⟨?_, by omega⟩
  by_contra hlt
  have hle := (h.downs.knows hopen).answer (by omega)
  omega

/-- `session` reads the client's capabilities, draws its token and greets the client. -/
theorem begins {p : Ipad.Packet} {rest : List Ipad.Packet} {id : Id16}
    (h : Flows token 4 guard s) (hrunning : s.attempt = .running)
    (hrun : s.host.run = .greeting id) (hguard : 2 ≤ guard) (hup : s.up = p :: rest)
    (auth : Host.AuthState) (wake : Host.Wake) (modes : Except Host.Error (List DisplayMode)) :
    ∃ last', Flows wake.token last' 0
      (woken { s with up := rest, auth := auth } (wake, .capabilities modes)) := by
  have hbegins : Host.Runtime.Begins s.host wake (s.host.step (wake, .capabilities modes)) :=
    Host.Runtime.wakeRun_begins hrun
  generalize he : (wake, Host.RuntimeEvent.capabilities modes) = e at hbegins ⊢
  obtain ⟨l, hsent, hascends, hl, hfirst⟩ := hbegins.written
  obtain ⟨rfl, hread⟩ := h.third hguard hup
  have hattempt : (woken { s with up := [], auth := auth } e).attempt =
      if Serves (s.host.step e).run then .running else .ended := woken_attempt hrunning
  have hdown : (woken { s with up := [], auth := auth } e).down = s.down ++ l :=
    woken_down hrunning hsent
  have hups' (last' : ℕ) : Ups wake.token last' 0 (woken { s with up := [], auth := auth } e) :=
    ⟨⟨3, (by decide : 0 ≤ 3), fun hopen => (hread hopen).2, fun _ => le_rfl⟩, nofun⟩
  obtain ⟨hinput, htask⟩ := h.ins.early le_rfl
  have hnone : (woken { s with up := [], auth := auth } e).task = none :=
    @tracked_none s htask e.2 (s.host.step e) fun hn => absurd hn.2 hbegins.inputs.not_gt
  have hins (last' : ℕ) : Ins wake.token last' (woken { s with up := [], auth := auth } e) :=
    .of_nil hinput hnone
  have hknows (hopen : s.Open) : Knows wake.token s.submitted s.client :=
    (h.downs.knows hopen).retoken (Nat.lt_succ_of_le (h.downs.ascends hopen).le)
  have hitems (p : Host.Packet) (hp : p ∈ s.down) : Opening p :=
    (h.downs.items p hp).resolve_right fun hn => absurd hn.1 (by decide)
  rcases hfirst with hfive | ⟨rfl, id', result, hended⟩
  · refine ⟨10, ?_, hups' 10, ⟨?_, ?_, hknows, fun hopen _ => ?_⟩, hins 10⟩
    · rcases hbegins.run with ⟨σ, hσ, heq⟩ | ⟨id', result, hended⟩
      · simp only [Prod.mk.injEq] at heq
        obtain ⟨htoken, -, hsequence, hzero⟩ := heq
        rw [hσ] at hattempt
        have hten : σ.sequence.toNat = 10 := by
          rw [hsequence]
          rfl
        rw [← hten, ← hzero]
        exact .session hattempt hσ htoken (by omega)
      · rw [hended] at hattempt
        exact .ended hattempt
    · rw [hdown]
      intro p hp
      rcases List.mem_append.1 hp with hp | hp
      · exact .inl (hitems p hp)
      · exact .inr ⟨by decide, hl p hp⟩
    · rw [hdown]
      exact fun hopen => ((h.downs.ascends hopen).append hascends).mono (by decide)
    · obtain ⟨q, hq, hnum⟩ := hfive
      refine ⟨(hread hopen).1, (hread hopen).2, .inr ⟨q, ?_, hnum⟩⟩
      rw [hdown]
      exact List.mem_append_right s.down hq
  · rw [List.append_nil] at hdown
    rw [hended] at hattempt
    refine ⟨4, .ended hattempt, hups' 4, ⟨?_, ?_, hknows, fun _ hge => ?_⟩, hins 4⟩
    · rw [hdown]
      exact fun p hp => .inl (hitems p hp)
    · rw [hdown]
      exact h.downs.ascends
    · exact absurd hge (by decide)

/-- The host has read a packet in its attempt, and has written what `host` tells. -/
theorem answers {p : Ipad.Packet} {rest : List Ipad.Packet} {auth : Host.AuthState}
    {attempt : Attempt} {last' guard' : ℕ} (h : Flows token last guard s)
    (hup : s.up = p :: rest) (hattempt : attempt ≠ .running) (hemits : Host.Emits s.auth auth)
    (hlast : s.auth.control.sequence = last) (hle : last ≤ last' ∧ last' ≤ 4)
    (hpackets : ∀ q ∈ answered s.auth.log auth, q.number ≤ last')
    (hguard : guard' = number p)
    (hstage : Stage token { s with auth := auth, attempt := attempt } last' guard') :
    Flows token last' guard' { s with
      up := rest
      auth := auth
      down := s.down ++ answered s.auth.log auth
      attempt := attempt } := by
  obtain ⟨l, hlog, hascends, hopening⟩ := hemits.written
  have hanswered : answered s.auth.log auth = Host.packets l := by
    rw [answered, hlog, List.drop_left]
  rw [hanswered] at hpackets ⊢
  obtain ⟨hi, hups, hhi, hearly⟩ := h.ups.ascends
  rw [hup] at hups
  refine ⟨hstage.congr rfl, ⟨⟨hi, hguard ▸ hups.2, hhi, fun _ => hearly (by omega)⟩,
    fun q hq => ?_⟩, ⟨fun q hq => ?_, fun hopen => ?_, h.downs.knows, fun _ hge => by omega⟩, ?_⟩
  · have hsession := h.ups.session q (hup ▸ List.mem_cons_of_mem p hq)
    rw [if_pos (by omega)] at hsession ⊢
    exact hsession
  · rcases List.mem_append.1 hq with hq | hq
    · exact .inl ((h.downs.items q hq).resolve_right fun hn => by omega)
    · exact .inl (hopening q hq)
  · rw [hlast] at hascends
    exact (h.downs.ascends hopen).append (hascends.bounded hle.1 hpackets)
  · obtain ⟨lo, hi', hins, hhi', htracks, -⟩ := h.ins.ascends
    exact ⟨⟨lo, hi', hins, hhi', htracks, fun _ hrun => absurd hrun hattempt⟩, h.ins.session,
      fun _ => h.ins.early (by omega)⟩

/-- `run` hands the connection over to `session`, unless it is reserved for another client. -/
theorem handed {id : Id16} {wake : Host.Wake} (h : Flows token 4 guard s)
    (hidle : Idle s.host.run) (hcontrol : s.auth.control = ⟨4, guard, .zero⟩) (hguard : 2 ≤ guard) :
    Flows token 4 guard
      (woken { s with attempt := .running } (wake, .incoming (.authenticated id))) := by
  obtain ⟨hsame, hrun⟩ := hidle.incoming wake id
  generalize (wake, Host.RuntimeEvent.incoming (.authenticated id)) = e at hsame hrun ⊢
  obtain ⟨hsent, hinputs⟩ := Prod.mk.inj hsame
  have hdown : (woken { s with attempt := .running } e).down = s.down := woken_down_same hsent
  have hattempt : (woken { s with attempt := .running } e).attempt =
      if Serves (s.host.step e).run then .running else .ended := woken_attempt rfl
  obtain ⟨hinput, htask⟩ := h.ins.early le_rfl
  have hnone : (woken { s with attempt := .running } e).task = none :=
    @tracked_none { s with attempt := .running } htask e.2 (s.host.step e) fun hn =>
      absurd hn.2 (congrArg List.length hinputs).not_gt
  refine ⟨?_, ⟨h.ups.ascends, h.ups.session⟩, h.downs.congr ?_, .of_nil hinput hnone⟩
  · rcases hrun with hrun | hrun
    · rw [hrun] at hattempt
      exact .greeting hattempt hrun hcontrol hguard
    · rw [hrun] at hattempt
      exact .ended hattempt
  · rw [hdown]
    rfl

end Flows

theorem answered_le {auth auth' : Host.AuthState} (h : Host.Emits auth auth') :
    ∀ q ∈ answered auth.log auth', q.number ≤ auth'.control.sequence ∧ q.number ≤ 4 := by
  obtain ⟨l, hlog, hascends, hopening⟩ := h.written
  intro q hq
  rw [answered, hlog, List.drop_left] at hq
  refine ⟨(hascends.mem hq).2, ?_⟩
  cases hopening q hq with
  | version hnumber => omega
  | info hnumber => omega
  | challenge hnumber => omega
  | proof hnumber => omega

end Connection
end SidecarDOS
