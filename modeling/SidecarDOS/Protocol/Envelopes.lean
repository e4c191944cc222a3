/-
# Client and host accept each other's envelopes

Four counters and two tokens meet on a connection: the client's counters for its two streams,
`Control`'s counter and the one of the loop of `session`; the zero token and the one that `session`
draws.  Every step of the connection keeps `Flows`, which decides every check.
-/

import SidecarDOS.Host.Teardown
import SidecarDOS.Library.Runs
import SidecarDOS.Protocol.Streams

namespace SidecarDOS
namespace Connection

open Library (Reaches Along exec Ends)
open Ipad (SessionModel)
open Host.Runtime (sampleHost sampleWake)

variable {crypto : Crypto} {token : Id16} {s : World} {last guard : ℕ}

/-! ### The steps -/

theorem Room.roomy (h : Room s) : s.client.Roomy := by
  obtain ⟨hcontrol, hinput, -⟩ := h
  show s.client.transport.controlSequence + s.client.transport.inputSequence + 128 < 2 ^ 64
  omega

theorem Room.session (h : Room s) {σ : Host.Session} (hrun : s.host.run = .session σ) :
    σ.sequence.toNat < 2 ^ 62 := by
  have hlt : counter s.host.run < 2 ^ 62 := h.2.2
  rw [hrun] at hlt
  exact hlt

namespace Inv

theorem callback (h : Inv s) (hroom : Room s) (e : Ipad.Moment × SessionModel.Event)
    (hreceived : s.Open → ∀ ps, e.2 ≠ .received (.ok ps))
    (hpair : s.Open → ∀ code, e.2 = .pair code → s.client.state = .pairing ∧ s.submitted = false) :
    Inv (callback crypto s e) := by
  obtain ⟨hepoch, token, last, guard, htoken, hflows⟩ := h
  have hepoch' := hepoch.trans (SessionModel.step_epoch_le crypto s.client e)
  by_cases hopen : s.Open
  · obtain ⟨l, k, hproceeds⟩ := (hflows.downs.knows hopen).callback crypto hroom.roomy
      (hreceived hopen) (hpair hopen)
    rw [show Connection.callback crypto s e = Connection.callback crypto { s with down := s.down } e
      from rfl, callback_eq s s.down e hopen hproceeds.log]
    exact ⟨hepoch', token, last, guard, htoken, hflows.turned hopen hproceeds (List.Subset.refl _)
      (hflows.downs.ascends hopen) le_rfl .inr⟩
  · unfold Connection.callback
    rw [if_neg hopen]
    refine ⟨hepoch', token, last, guard, htoken, hflows.closed ?_⟩
    have hne : s.client.transport.epoch ≠ s.epoch := hopen
    have hle := SessionModel.step_epoch_le crypto s.client e
    omega

theorem deliver (h : Inv s) (hroom : Room s) (env : Ipad.Moment) :
    Inv (step crypto s (.deliver env)) := by
  dsimp only [step]
  split
  · exact h
  rename_i p rest hdown
  split
  swap
  · exact h
  rename_i hcond
  obtain ⟨hopen, hreading⟩ := hcond
  obtain ⟨hepoch, token, last, guard, htoken, hflows⟩ := h
  have hnext := hflows.downs.next hopen hdown
  obtain ⟨l, k, hproceeds⟩ := (hflows.downs.knows hopen).receives crypto hroom.roomy
    hreading htoken ((hflows.downs.items p (hdown ▸ List.mem_cons_self)).imp_right And.right)
    hnext.number hnext.proof hnext.next env
  rw [callback_eq s rest _ hopen hproceeds.log, show enters (.received (.ok [p.toIpad])) = false
    from rfl, Bool.or_false]
  exact ⟨hepoch.trans (SessionModel.step_epoch_le crypto s.client _), token, last, guard, htoken,
    hflows.turned hopen hproceeds (hdown ▸ List.subset_cons_self ..) hnext.ascends
      hnext.number.le hnext.start⟩

theorem accept (h : Inv s) (identity : Host.Identity) :
    Inv (step crypto s (.accept identity)) := by
  obtain ⟨hepoch, token, last, guard, htoken, hflows⟩ := h
  dsimp only [step]
  split
  · rename_i hattempt hrun
    obtain ⟨rfl, rfl⟩ : last = 0 ∧ guard = 0 := by
      cases hflows.stage with
      | waiting => exact ⟨rfl, rfl⟩
      | hello ha => cases ha.symm.trans hattempt
      | answer ha => cases ha.symm.trans hattempt
      | greeting ha => cases ha.symm.trans hattempt
      | session ha => cases ha.symm.trans hattempt
      | ended ha => cases ha.symm.trans hattempt
    obtain ⟨lo, hi, hascends, hhi, htracks, -⟩ := hflows.ins.ascends
    refine ⟨hepoch, token, 0, 0, htoken, .hello rfl (.inl hrun) rfl,
      ⟨hflows.ups.ascends, hflows.ups.session⟩,
      hflows.downs.congr rfl,
      ⟨⟨lo, hi, hascends, hhi, htracks, nofun⟩, hflows.ins.session, hflows.ins.early⟩⟩
  · exact ⟨hepoch, token, last, guard, htoken, hflows⟩

theorem giveUp (h : Inv s) : Inv (step crypto s .giveUp) := by
  obtain ⟨hepoch, token, last, guard, htoken, hflows⟩ := h
  obtain ⟨lo, hi, hascends, hhi, htracks, -⟩ := hflows.ins.ascends
  have hover : Inv { s with attempt := .ended } :=
    ⟨hepoch, token, last, guard, htoken, .ended rfl, ⟨hflows.ups.ascends, hflows.ups.session⟩,
      hflows.downs.congr rfl,
      ⟨⟨lo, hi, hascends, hhi, htracks, nofun⟩, hflows.ins.session, hflows.ins.early⟩⟩
  dsimp only [step]
  split
  · exact hover
  · exact hover
  · exact ⟨hepoch, token, last, guard, htoken, hflows⟩

theorem served_client (crypto : Crypto) (s : World) (draws : Host.Draws) (wake : Host.Wake)
    (q : Host.Packet) : ((served crypto s draws wake q).epoch,
      (served crypto s draws wake q).client) = (s.epoch, s.client) := by
  unfold served
  split
  · dsimp only
    split <;> rfl
  · dsimp only
    split <;> rfl
  · split <;> rfl
  · rfl

/-- The host reads a packet of its attempt. -/
theorem served_hello (h : Flows token last guard s) {p : Ipad.Packet} {rest : List Ipad.Packet}
    (hup : s.up = p :: rest) (hattempt : s.attempt = .hello) {q : Host.Packet}
    (hq : q.number = number p) (draws : Host.Draws) (wake : Host.Wake) :
    ∃ last guard, Flows token last guard (served crypto { s with up := rest } draws wake q) := by
  obtain ⟨rfl, hidle, hcontrol⟩ :
      last = 0 ∧ Idle s.host.run ∧ s.auth.control = {} := by
    cases h.stage with
    | waiting ha => cases ha.symm.trans hattempt
    | hello _ hrun hcontrol => exact ⟨rfl, hrun, hcontrol⟩
    | answer ha => cases ha.symm.trans hattempt
    | greeting ha => cases ha.symm.trans hattempt
    | session ha => cases ha.symm.trans hattempt
    | ended ha => cases ha.symm.trans hattempt
  have hspec := Host.onHello_emits (s := s.auth) (p := q) draws (by rw [hcontrol])
    (by rw [hcontrol])
  unfold served
  dsimp only
  rw [hattempt]
  dsimp only
  rcases hexec : exec (Host.onHello draws q) s.auth with ⟨e | w, auth⟩
  · obtain ⟨hemits, -⟩ := hspec.of_exec hexec
    refine ⟨4, number p, h.answers hup nofun hemits (by rw [hcontrol]) ⟨by decide, le_rfl⟩
      (fun q hq => (answered_le hemits q hq).2) rfl (.ended rfl)⟩
  · obtain ⟨hemits, hok⟩ := hspec.of_exec hexec
    obtain ⟨hguard, hcontrol'⟩ := hok w rfl
    rw [hcontrol, hq] at hguard
    rw [hq] at hcontrol'
    refine ⟨3, number p, h.answers hup nofun hemits (by rw [hcontrol]) ⟨by decide, by decide⟩
      (fun q hq => ?_) rfl (.answer rfl hidle hcontrol' hguard)⟩
    have hle := (answered_le hemits q hq).1
    rw [hcontrol'] at hle
    exact hle

theorem served_answer (h : Flows token last guard s) {p : Ipad.Packet} {rest : List Ipad.Packet}
    (hup : s.up = p :: rest) {w : Host.Awaiting} (hattempt : s.attempt = .answer w)
    {q : Host.Packet} (hq : q.number = number p) (draws : Host.Draws) (wake : Host.Wake) :
    ∃ last guard, Flows token last guard (served crypto { s with up := rest } draws wake q) := by
  obtain ⟨rfl, hidle, hcontrol, hpositive⟩ :
      last = 3 ∧ Idle s.host.run ∧ s.auth.control = ⟨3, guard, .zero⟩ ∧ 1 ≤ guard := by
    cases h.stage with
    | waiting ha => cases ha.symm.trans hattempt
    | hello ha => cases ha.symm.trans hattempt
    | answer _ hrun hcontrol hguard => exact ⟨rfl, hrun, hcontrol, hguard⟩
    | greeting ha => cases ha.symm.trans hattempt
    | session ha => cases ha.symm.trans hattempt
    | ended ha => cases ha.symm.trans hattempt
  have hspec := Host.onAnswer_emits (s := s.auth) (p := q) crypto draws w (by rw [hcontrol])
    (by rw [hcontrol])
  have hover (auth : Host.AuthState) (hemits : Host.Emits s.auth auth) :
      Flows token 4 (number p) { s with
        up := rest
        auth := auth
        down := s.down ++ answered s.auth.log auth
        attempt := .ended } :=
    h.answers hup nofun hemits (by rw [hcontrol]) ⟨by decide, le_rfl⟩
      (fun q hq => (answered_le hemits q hq).2) rfl (.ended rfl)
  unfold served
  dsimp only
  rw [hattempt]
  dsimp only
  rcases hexec : exec (Host.onAnswer crypto draws w q) s.auth with ⟨e | ⟨id, name⟩, auth⟩
  · exact ⟨4, number p, hover auth (hspec.of_exec hexec).1⟩
  · obtain ⟨hemits, hok⟩ := hspec.of_exec hexec
    obtain ⟨hguard, hcontrol'⟩ := hok _ rfl
    rw [hcontrol, hq] at hguard
    rw [hq] at hcontrol'
    replace hguard : guard < number p := hguard
    exact ⟨4, number p, (hover auth hemits).handed hidle hcontrol' (by omega)⟩

/-- `session` reads a packet. -/
theorem served_running (h : Flows token last guard s) (htoken : token ≠ .zero)
    (hroom : Room s) {p : Ipad.Packet}
    {rest : List Ipad.Packet} (hup : s.up = p :: rest) (hattempt : s.attempt = .running)
    {q : Host.Packet} (hq : q.number = number p) (draws : Host.Draws) {wake : Host.Wake}
    (hwake : wake.token ≠ .zero) : ∃ token last guard, token ≠ Id16.zero ∧
      Flows token last guard (served crypto { s with up := rest } draws wake q) := by
  rcases h.stage.running hattempt with ⟨id, hrun, rfl, hguard⟩ | ⟨σ, hrun, hσ, hsequence, rfl, rfl⟩
  · obtain ⟨last', hflows⟩ := h.begins hattempt hrun hguard hup
      (exec (onCapabilities s.host.config.video.fps q) s.auth).2 wake
      (exec (onCapabilities s.host.config.video.fps q) s.auth).1
    refine ⟨wake.token, last', 0, hwake, ?_⟩
    unfold served
    simp only [hattempt, hrun] at hflows ⊢
    exact hflows
  · obtain ⟨hi, hups, hhi, -⟩ := h.ups.ascends
    rw [hup] at hups
    have hups' : Ups σ.token σ.sequence.toNat q.number { s with up := rest } :=
      ⟨⟨hi, hq ▸ hups.2, hhi, fun hfour => by omega⟩, fun p' hp' =>
        hσ ▸ h.ups.session p' (hup ▸ List.mem_cons_of_mem p hp')⟩
    have hlt := hroom.session hrun
    have hselects : Ends (Host.Task.select wake σ (.packet (some (.ok q)))) s.host
        (Host.Selects σ q.number s.host) :=
      Host.Task.packet_selects wake q ⟨hsequence, by omega⟩
    have hcontinues : Host.Runtime.Continues s.host σ q.number
        (s.host.step (wake, .packet (some (.ok q)))) :=
      Host.Runtime.wakeRun_continues hrun hselects
    obtain ⟨last', hflows⟩ := Flows.continues rest hattempt hrun hsequence rfl hups' (hσ ▸ h.downs)
      (hσ ▸ h.ins) hcontinues
    refine ⟨σ.token, last', q.number, hσ ▸ htoken, ?_⟩
    unfold served
    simp only [hattempt, hrun] at hflows ⊢
    exact hflows

theorem serve (h : Inv s) (hroom : Room s) (draws : Host.Draws) {wake : Host.Wake}
    (hwake : wake.token ≠ .zero) : Inv (step crypto s (.serve draws wake)) := by
  obtain ⟨hepoch, token, last, guard, htoken, hflows⟩ := h
  dsimp only [step]
  split
  · exact ⟨hepoch, token, last, guard, htoken, hflows⟩
  rename_i p rest hup
  split
  · exact ⟨hepoch, token, last, guard, htoken, hflows⟩
  rename_i hattempt
  rw [toHost_eq (hflows.ups.session p (hup ▸ List.mem_cons_self))]
  dsimp only
  generalize hq : (⟨p.kind, p.sequence, _, p.body⟩ : Host.Packet) = q
  have hnumber : q.number = number p := by rw [← hq]
  have hepoch' : (served crypto { s with up := rest } draws wake q).epoch ≤
      (served crypto { s with up := rest } draws wake q).client.transport.epoch := by
    obtain ⟨hclient, heq⟩ := Prod.mk.inj (served_client crypto { s with up := rest } draws wake q)
    rw [hclient, heq]
    exact hepoch
  have hfound (h : ∃ last guard, Flows token last guard
      (served crypto { s with up := rest } draws wake q)) :
      Inv (served crypto { s with up := rest } draws wake q) :=
    have ⟨last, guard, hflows⟩ := h
    ⟨hepoch', token, last, guard, htoken, hflows⟩
  have hstages : s.attempt = .hello ∨ (∃ w, s.attempt = .answer w) ∨ s.attempt = .running := by
    cases ha : s.attempt with
    | waiting => exact absurd (.inl ha) hattempt
    | hello => exact .inl rfl
    | answer w => exact .inr (.inl ⟨w, rfl⟩)
    | running => exact .inr (.inr rfl)
    | ended => exact absurd (.inr ha) hattempt
  rcases hstages with ha | ⟨w, ha⟩ | ha
  · exact hfound (served_hello hflows hup ha hnumber draws wake)
  · exact hfound (served_answer hflows hup ha hnumber draws wake)
  · exact ⟨hepoch', served_running hflows htoken hroom hup ha hnumber draws hwake⟩

/-- Of what wakes it, `session` sees nothing but the capabilities that it waits for. -/
theorem greeting_stays {host : Host.Runtime} {id : Id16} (hrun : host.run = .greeting id)
    (w : Host.Wake) {e : Host.RuntimeEvent}
    (hcapabilities : ∀ modes, e ≠ .capabilities (.ok modes)) :
    (∃ error, e = .capabilities (.error error)) ∨ host.wakeRun w e = host := by
  unfold Host.Runtime.wakeRun
  rw [hrun]
  cases e with
  | capabilities modes =>
    cases modes with
    | error error => exact .inl ⟨error, rfl⟩
    | ok modes => exact absurd rfl (hcapabilities modes)
  | _ => exact .inr rfl

/-- The loop of `session` goes on with whatever is no packet. -/
theorem session_continues (hroom : Room s) {σ : Host.Session} (hrun : s.host.run = .session σ)
    (hsequence : 5 ≤ σ.sequence.toNat) (w : Host.Wake) {e : Host.RuntimeEvent}
    (hpacket : ∀ p, e ≠ .packet (some (.ok p))) :
    Host.Runtime.Continues s.host σ σ.guard (s.host.wakeRun w e) := by
  have hlt := hroom.session hrun
  by_cases hstream : ∃ ok, e = .stream ok
  · obtain ⟨ok, rfl⟩ := hstream
    exact Host.Runtime.wakeRun_stream hrun
  · exact Host.Runtime.wakeRun_continues hrun (Host.Task.select_selects w hpacket
      (fun ok hok => hstream ⟨ok, hok⟩) ⟨hsequence, by omega⟩)

/-- The host wakes while `session` has the connection. -/
theorem host_running (h : Flows token last guard s) (hroom : Room s)
    (hattempt : s.attempt = .running) {e : Host.Wake × Host.RuntimeEvent}
    (hinput : ∀ i p, e.2 = .input i (.ok p) → s.task ≠ some i)
    (hcapabilities : ∀ modes, e.2 ≠ .capabilities (.ok modes))
    (hpacket : ∀ p, e.2 ≠ .packet (some (.ok p))) :
    ∃ last guard, Flows token last guard (woken s e) := by
  have hkept (hkept : ((s.host.step e).run, (s.host.step e).sent) = (s.host.run, s.host.sent))
      (hgrow : (s.host.step e).inputs.length ≤ s.host.inputs.length) :
      ∃ last guard, Flows token last guard (woken s e) :=
    ⟨last, guard, h.kept s.input hkept (h.ins.woken (fun hn => by omega) hinput
      (Prod.mk.inj hkept).1)⟩
  cases htarget : target e.2 with
  | some j =>
    refine hkept (step_kept s.host htarget) ?_
    rcases step_inputs s.host e htarget with heq | heq | ⟨_, _, -, -, heq⟩
    · rw [heq]
    · rw [heq]
      exact List.length_eraseIdx_le ..
    · rw [heq, List.length_set]
  | none =>
    have hsame (hstep : ((s.host.step e).run, (s.host.step e).sent, (s.host.step e).inputs) =
        (s.host.run, s.host.sent, s.host.inputs)) :
        ∃ last guard, Flows token last guard (woken s e) := by
      simp only [Prod.mk.injEq] at hstep
      exact hkept (by rw [hstep.1, hstep.2.1]) (by rw [hstep.2.2])
    obtain ⟨w, e⟩ := e
    have hwake (hstep : s.host.step (w, e) = s.host.wakeRun w e) :
        ∃ last guard, Flows token last guard (woken s (w, e)) := by
      rcases h.stage.running hattempt with ⟨id, hrun, rfl, -⟩ | ⟨σ, hrun, hσ, hsequence, rfl, rfl⟩
      · rcases greeting_stays hrun w hcapabilities with ⟨error, rfl⟩ | hstays
        · exact ⟨4, guard, h.refused hattempt hrun⟩
        · exact hsame (by rw [hstep, hstays])
      · have hcontinues : Host.Runtime.Continues s.host σ σ.guard (s.host.step (w, e)) :=
          hstep ▸ session_continues hroom hrun hsequence w hpacket
        obtain ⟨last', hflows⟩ := Flows.continues s.up hattempt hrun hsequence
          htarget (hσ ▸ ⟨h.ups.ascends, h.ups.session⟩) (hσ ▸ h.downs) (hσ ▸ h.ins) hcontinues
        exact ⟨last', σ.guard, hσ ▸ hflows⟩
    cases e with
    | exit => exact hsame rfl
    | turn t => exact hsame rfl
    | shutdown =>
      refine hsame ?_
      dsimp only [Host.Runtime.step]
      split
      · split <;> rfl
      · rfl
    | input i p => cases htarget
    | dropped i => cases htarget
    | _ => exact hwake rfl

theorem input (h : Inv s) (wake : Host.Wake) : Inv (step crypto s (.input wake)) := by
  obtain ⟨hepoch, token, last, guard, htoken, hflows⟩ := h
  dsimp only [step]
  split
  swap
  · exact ⟨hepoch, token, last, guard, htoken, hflows⟩
  rename_i p rest i hinput htask
  rw [toHost_eq (hflows.ins.session p (hinput ▸ List.mem_cons_self))]
  dsimp only
  refine ⟨hepoch, token, last, guard, htoken, hflows.kept rest ?_
    (hflows.ins.read hinput htask rfl wake)⟩
  exact step_kept s.host (j := i) rfl

theorem host (h : Inv s) {e : Host.Wake × Host.RuntimeEvent} (ha : Admits s (.host e)) :
    Inv (step crypto s (.host e)) := by
  obtain ⟨hepoch, token, last, guard, htoken, hflows⟩ := h
  obtain ⟨hroom, ha⟩ := ha
  obtain ⟨w, e⟩ := e
  have hinput : ∀ i p, e = .input i (.ok p) → s.task ≠ some i := by
    rintro i p rfl
    exact ha
  by_cases hattempt : s.attempt = .running
  · have hnot : ¬ (s.attempt = .waiting ∨ s.attempt = .ended) := by
      rw [hattempt]
      decide
    obtain ⟨last', guard', hflows'⟩ := host_running hflows hroom hattempt (e := (w, e)) hinput
      (by rintro modes rfl; exact hnot ha) (by rintro p rfl; exact hnot ha)
    exact ⟨hepoch, token, last', guard', htoken, hflows'⟩
  · refine ⟨hepoch, token, last, guard, htoken, hflows.beside (w, e) hattempt hinput ?_⟩
    rintro i rfl
    exact ha

theorem step (h : Inv s) {a : Action} (ha : Admits s a) : Inv (step crypto s a) := by
  cases a with
  | client e =>
    obtain ⟨hroom, ha⟩ := ha
    obtain ⟨env, event⟩ := e
    refine h.callback hroom (env, event) ?_ ?_
    · rintro hopen ps rfl
      exact ha hopen
    · rintro hopen code rfl
      exact ha hopen
  | deliver env => exact h.deliver ha.1 env
  | accept identity => exact h.accept identity
  | serve draws wake => exact h.serve ha.1 draws ha.2
  | input wake => exact h.input wake
  | host e => exact h.host ha
  | giveUp => exact h.giveUp

end Inv

theorem Init.inv (h : Init s) : Inv s := by
  obtain ⟨m, env, ⟨hwants, hforeground, hhost, hkeychain⟩, hclient⟩ := h.client
  have hopened : s.client.transport.reading = false ∧ s.client.transport.controlSequence = 0 ∧
      s.client.transport.session = Id16.zero.bytes ∧ s.client.lastSequence = 0 ∧
        s.client.state ≠ .streaming ∧ s.client.state ≠ .pairing := by
    rw [hclient]
    unfold SessionModel.openConnection
    rw [if_neg (not_not.2 ⟨hwants, hforeground⟩)]
    split
    · rename_i hnone
      exact absurd hnone hhost
    · rw [if_neg (not_not.2 hkeychain)]
      refine ⟨rfl, rfl, rfl, rfl, ?_⟩
      dsimp only
      split <;> exact ⟨nofun, nofun⟩
  obtain ⟨-, hzero, hsession, hlast, hstreaming, hpairing⟩ := hopened
  have hfresh := h.fresh
  have hup : s.up = [] := by rw [hfresh]
  have hinput : s.input = [] := by rw [hfresh]
  have hdown : s.down = [] := by rw [hfresh]
  have htask : s.task = none := by rw [hfresh]
  refine ⟨h.epoch.le, ({} : Host.Wake).token, 0, 0, by decide, .waiting (by rw [hfresh]),
    ⟨⟨0, ?_, fun _ => Nat.zero_le _, fun _ => by decide⟩, ?_⟩,
    ⟨?_, ?_, fun _ => ?_, fun _ hge => ?_⟩,
    .of_nil hinput htask⟩
  · rw [hup]
    exact le_refl 0
  · rw [hup]
    exact nofun
  · rw [hdown]
    exact nofun
  · rw [hdown, hlast]
    exact fun _ => le_refl 0
  · refine ⟨⟨fun _ => ⟨hzero, hlast⟩, fun _ => by omega, fun _ => by omega, fun _ => by omega,
      fun _ => ⟨hstreaming, hsession⟩, fun hge => by omega, fun hge => by omega⟩, fun hp => ?_⟩
    exact absurd hp hpairing
  · exact absurd hge (by decide)

/-- **Honest peers accept each other's envelopes.**  In every run of a connection, over
reliable streams and with a token that is not zero, every packet in front of its reader passes the
sequence and token checks that the reader makes. -/
theorem envelopes_accepted (crypto : Crypto) (s : World)
    (h : Reaches (step crypto) Init Admits s) : Accepted s := by
  have hinv : Inv s := h.invariant (fun _ h => h.inv) fun _ _ h ha => h.step ha
  obtain ⟨-, token, last, guard, htoken, hflows⟩ := hinv
  exact hflows.accepted htoken

/-! ### A run -/

def samplePhone : SessionModel where
  clientID := List.replicate 16 7
  host := some ⟨"pc", "PC"⟩
  wantsConnection := true

def sampleWorld : World where
  client := samplePhone.openConnection {}
  epoch := 1
  auth := { identity := { hostId := List.replicate 16 8, cert := [1] } }
  host := sampleHost

def samplePad : Ipad.Moment := { capabilities := Host.samplePanel 2732 2048 }

def sampleTurn : Host.Turn where
  now := 1000000
  bounds := some ⟨0, 0, 1920, 1080⟩
  reconciled := some (⟨0, 0, 1920, 1080⟩, true)
  status := some ⟨1, 1920, 1080, 60, fun _ => ⟨0, 0⟩⟩

/-- The client pairs with the code that the host shows, tells its capabilities, and reads the
host's token and its first configuration, whereupon it streams. -/
def sampleActions : List Action :=
  [.client ({}, .certificate [1]), .client ({}, .groupReady), .client ({}, .controlReady),
    .accept { hostId := List.replicate 16 8, cert := [1] }, .serve (.sample 1) sampleWake,
    .deliver {}, .deliver {}, .deliver {}, .client ({}, .pair "11111111111111111111111111111111"),
    .serve (.sample 1) sampleWake, .deliver samplePad, .serve (.sample 1) sampleWake,
    .host (sampleWake, .turn sampleTurn), .host (sampleWake, .turn sampleTurn),
    .host (sampleWake, .event), .host (sampleWake, .stream true), .deliver samplePad,
    .deliver samplePad, .deliver samplePad, .client ({ now := 2000000 }, .tick),
    .client ({}, .input ⟨0, 0, 0, ⟨0⟩, ⟨0⟩, ⟨0⟩, ⟨0⟩, 0, 0, 0, 0, 0⟩)]

theorem sample_init : Init sampleWorld :=
  ⟨⟨samplePhone, {}, ⟨rfl, rfl, nofun, rfl⟩, rfl⟩, rfl, rfl⟩

theorem sample_allowed : Along (step .sample) Allowed sampleWorld sampleActions :=
  have hwake : sampleWake.token ≠ .zero := by decide
  have hcode : SessionModel.state _ = .pairing ∧ World.submitted _ = false := by decide +kernel
  ⟨trivial, trivial, trivial, trivial, hwake, trivial, trivial, trivial, fun _ => hcode, hwake,
    trivial, hwake, trivial, trivial, trivial, trivial, trivial, trivial, trivial, trivial, trivial,
    trivial⟩

/-- The hypotheses of `envelopes_accepted` are satisfiable: behind this run a keyframe request,
a ping, statistics and an input event are on their way to the host. -/
theorem envelopes_accepted_sample : ∃ s : World, s.up.map number = [4, 5, 6] ∧
    s.input.map number = [1] ∧ Accepted s := by
  have hadmits : Along (step .sample) Admits sampleWorld sampleActions :=
    Along.and (by decide +kernel) sample_allowed
  exact ⟨sampleActions.foldl (step .sample) sampleWorld, by decide +kernel, by decide +kernel,
    envelopes_accepted .sample _ ((Reaches.init sample_init).along hadmits)⟩

end Connection
end SidecarDOS
