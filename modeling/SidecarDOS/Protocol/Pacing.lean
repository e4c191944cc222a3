/-
# What the client has written by when

What ties the counters of a connection together is the number of the host's last packet that the
client has read (`Knows`): it bounds what the client can have written by then, and it tells
which token the client uses.  A callback of the client keeps to these bounds (`Proceeds`), a
control packet from the host moves them on.
-/

import SidecarDOS.Client.Setup
import SidecarDOS.Protocol.Connection

namespace SidecarDOS
namespace Connection

open Library (Ascends)
open Ipad (SessionModel said)
open Ipad.SessionModel (Stays Closed Spoke Tells Settles Replies)
open Host (Opening Sessional)

variable {crypto : Crypto} {token : Id16} {submitted : Bool} {m m' : SessionModel}

/-! ### The client -/

/-- What the client has written by the time it has read the host's packets up to
`lastSequence`. -/
structure Paced (token : Id16) (m : SessionModel) : Prop where
  unread : m.transport.reading = false →
    m.transport.controlSequence = 0 ∧ m.lastSequence = 0
  hello : m.lastSequence < 3 → m.transport.controlSequence ≤ 1
  answer : m.lastSequence < 4 → m.transport.controlSequence ≤ 2
  capabilities : m.lastSequence < 5 → m.transport.controlSequence ≤ 3
  silent : m.lastSequence < 5 → m.state ≠ .streaming ∧ m.transport.session = Id16.zero.bytes
  configured : 4 ≤ m.lastSequence → m.configured = true
  session : 5 ≤ m.lastSequence → m.transport.session = token.bytes

/-- The user is asked for a code behind the challenge alone. -/
structure Knows (token : Id16) (submitted : Bool) (m : SessionModel) : Prop
    extends Paced token m where
  pairing : m.state = .pairing →
    m.lastSequence = 3 ∧ (submitted = false → m.transport.controlSequence ≤ 1)

abbrev number (p : Ipad.Packet) : ℕ := p.sequence.toNat

/-- What a callback of the open connection writes, and how it leaves the client if the connection
is still open. -/
structure Proceeds (token : Id16) (submitted : Bool) (last : ℕ) (m m' : SessionModel)
    (l : List Ipad.Effect) (k : Bool → ℕ) : Prop where
  log : m'.log = m.log ++ l
  ascends : ∀ b, Ascends number (m.transport.counter b) (k b) (said b l)
  session : ∀ b, ∀ q ∈ said b l,
    q.session = (if m.lastSequence < 5 then Id16.zero else token).bytes
  early : m.lastSequence < 5 → k false ≤ 3 ∧ said true l = []
  still : m'.transport.epoch = m.transport.epoch → m'.lastSequence = last ∧
    Knows token submitted m' ∧ ∀ b, m'.transport.counter b = k b

/-- A connection that stays open has the counters that were said. -/
theorem stays_of_spoke {l : List Ipad.Effect} {k : Bool → ℕ} (h : Spoke m m' l k)
    (hepoch : m'.transport.epoch = m.transport.epoch) : Stays m m' k :=
  h.line.resolve_right fun hclosed => absurd hepoch hclosed.epoch.ne'

namespace Paced

/-- The bounds hold of the client that a callback leaves. -/
theorem of_stays {submitted' : Bool} {k : Bool → ℕ} (h : Paced token m)
    (hstays : Stays m m' k) (hunread : m.transport.reading = false → k false = 0)
    (hhello : m.lastSequence < 3 → k false ≤ 1) (hanswer : m.lastSequence < 4 → k false ≤ 2)
    (hcapabilities : m.lastSequence < 5 → k false ≤ 3)
    (hsilent : m.lastSequence < 5 → m'.state ≠ .streaming)
    (hpairing : m'.state = .pairing →
      m.lastSequence = 3 ∧ (submitted' = false → k false ≤ 1)) : Knows token submitted' m' := by
  obtain ⟨hconfigured, hlast⟩ := Prod.mk.inj hstays.link
  have hcontrol : m'.transport.controlSequence = k false := hstays.counter false
  refine ⟨⟨?_, ?_, ?_, ?_, ?_, ?_, ?_⟩, ?_⟩
  · rw [hstays.reading, hcontrol, hlast]
    exact fun hreading => ⟨hunread hreading, (h.unread hreading).2⟩
  · rw [hlast, hcontrol]
    exact hhello
  · rw [hlast, hcontrol]
    exact hanswer
  · rw [hlast, hcontrol]
    exact hcapabilities
  · rw [hlast, hstays.session]
    exact fun hlt => ⟨hsilent hlt, (h.silent hlt).2⟩
  · rw [hlast, hconfigured]
    exact h.configured
  · rw [hlast, hstays.session]
    exact h.session
  · rw [hlast, hcontrol]
    exact hpairing

theorem proceeds {submitted' : Bool} {l : List Ipad.Effect} {k : Bool → ℕ}
    (h : Paced token m) (hspoke : Spoke m m' l k)
    (hearly : m.lastSequence < 5 → k false ≤ 3 ∧ k true = m.transport.counter true)
    (hknows : Stays m m' k → Knows token submitted' m') :
    Proceeds token submitted' m.lastSequence m m' l k := by
  refine ⟨hspoke.log, hspoke.ascends, fun b q hq => ?_, fun hlt => ⟨(hearly hlt).1, ?_⟩,
    fun hepoch => ?_⟩
  · rw [hspoke.session b q hq]
    split
    · rename_i hlt
      exact (h.silent hlt).2
    · rename_i hge
      exact h.session (by omega)
  · exact (hspoke.ascends true).eq_nil (hearly hlt).2.le
  · have hstays := stays_of_spoke hspoke hepoch
    exact ⟨(Prod.mk.inj hstays.link).2, hknows hstays, hstays.counter⟩

end Paced

namespace Knows

/-- A callback that leaves the counters alone until the client has its token. -/
theorem quiet {k : Bool → ℕ} (h : Knows token submitted m) (hstays : Stays m m' k)
    (hsettles : Settles m m') (hmute : m.lastSequence < 5 → k = m.transport.counter) :
    Knows token submitted m' := by
  have hcontrol (hlt : m.lastSequence < 5) : k false = m.transport.controlSequence :=
    congrFun (hmute hlt) false
  refine h.of_stays hstays (fun hreading => ?_) (fun hlt => ?_) (fun hlt => ?_) (fun hlt => ?_)
    (fun hlt hstreaming => (h.silent hlt).1 (hsettles.streaming hstreaming)) fun hpairing => ?_
  · obtain ⟨hzero, hlast⟩ := h.unread hreading
    rw [hcontrol (by omega), hzero]
  · rw [hcontrol (by omega)]
    exact h.hello hlt
  · rw [hcontrol (by omega)]
    exact h.answer hlt
  · rw [hcontrol hlt]
    exact h.capabilities hlt
  · rcases hsettles with hstate | hcalm
    · obtain ⟨hlast, hsubmitted⟩ := h.pairing (hstate.symm.trans hpairing)
      rw [hcontrol (by omega)]
      exact ⟨hlast, hsubmitted⟩
    · exact absurd hpairing hcalm.2

theorem tells (h : Knows token submitted m) (htells : Tells m m') :
    ∃ l k, Proceeds token submitted m.lastSequence m m' l k := by
  obtain ⟨l, k, hspoke, hsettles, hmute⟩ := htells
  have hcounter (hlt : m.lastSequence < 5) : k = m.transport.counter := hmute (h.silent hlt).1
  refine ⟨l, k, h.proceeds hspoke (fun hlt => ?_) fun hstays => h.quiet hstays hsettles hcounter⟩
  rw [hcounter hlt]
  exact ⟨h.capabilities hlt, rfl⟩

/-- At most one message goes out, behind which the session is as before. -/
theorem replies {submitted' : Bool} (h : Knows token submitted m) (hreplies : Replies m m')
    (hhello : m.transport.reading = true ∧ (m.lastSequence < 3 → m.transport.controlSequence = 0))
    (hanswer : m.lastSequence < 4 → m.transport.controlSequence ≤ 1)
    (hcapabilities : m.lastSequence < 5 → m.transport.controlSequence ≤ 2)
    (hpairing : m.state = .pairing → m.lastSequence = 3 ∧ submitted' = true) :
    ∃ l k, Proceeds token submitted' m.lastSequence m m' l k := by
  obtain ⟨l, k, hspoke, honce, hstate⟩ := hreplies
  have hcontrol : k false ≤ m.transport.controlSequence + 1 := honce.control
  refine ⟨l, k, h.proceeds hspoke (fun hlt => ⟨?_, honce.input⟩) fun hstays => ?_⟩
  · have hle := hcapabilities hlt
    omega
  have hsame : m'.state = m.state :=
    hstate.resolve_right fun hclosed => absurd hstays.epoch hclosed.epoch.ne'
  refine h.of_stays hstays (fun hreading => ?_) (fun hlt => ?_) (fun hlt => ?_) (fun hlt => ?_)
    (fun hlt => ?_) fun hpairing' => ?_
  · exact absurd (hreading.symm.trans hhello.1) Bool.false_ne_true
  · have hle := hhello.2 hlt
    omega
  · have hle := hanswer hlt
    omega
  · have hle := hcapabilities hlt
    omega
  · rw [hsame]
    exact (h.silent hlt).1
  · obtain ⟨hlast, hsubmitted⟩ := hpairing (hsame.symm.trans hpairing')
    exact ⟨hlast, fun hn => absurd (hsubmitted.symm.trans hn) Bool.noConfusion⟩

/-- The hello goes out when the control stream is ready. -/
theorem controlReady (h : Knows token submitted m) (hroom : m.Roomy) (env : Ipad.Moment) :
    ∃ l k, Proceeds token submitted m.lastSequence m (m.step crypto (env, .controlReady)) l k := by
  dsimp only [SessionModel.step]
  split
  · rename_i hcond
    obtain ⟨hzero, hlast⟩ := h.unread (Bool.eq_false_iff.2 hcond.2)
    have h' : Knows token submitted
        { m with transport := { m.transport with reading := true } } :=
      ⟨⟨nofun, h.hello, h.answer, h.capabilities, h.silent, h.configured, h.session⟩, h.pairing⟩
    have hroom' : SessionModel.Roomy
        { m with transport := { m.transport with reading := true } } := hroom
    obtain ⟨l, k, hproceeds⟩ := h'.replies (SessionModel.ready_replies hroom' env)
      ⟨rfl, fun _ => hzero⟩ (fun _ => hzero.trans_le (Nat.zero_le _))
      (fun _ => hzero.trans_le (Nat.zero_le _)) fun hpairing => by
        have hthree := (h.pairing hpairing).1
        omega
    exact ⟨l, k, hproceeds.log, hproceeds.ascends, hproceeds.session, hproceeds.early,
      hproceeds.still⟩
  · exact h.tells ⟨[], _, .refl m, .inl rfl, fun _ => rfl⟩

/-- The code is entered. -/
theorem pair (h : Knows token submitted m) (hroom : m.Roomy) (env : Ipad.Moment) (code : String)
    (hpairing : m.state = .pairing) (hsubmitted : submitted = false) :
    ∃ l k, Proceeds token (submitted || enters (.pair code)) m.lastSequence m
      (m.step crypto (env, .pair code)) l k := by
  obtain ⟨hlast, hcontrol⟩ := h.pairing hpairing
  have hreading : m.transport.reading = true := by
    by_contra hreading
    have hzero := (h.unread (Bool.eq_false_iff.2 hreading)).2
    omega
  cases hcode : enters (.pair code) with
  | true =>
    rw [Bool.or_true]
    exact h.replies (SessionModel.pairing_replies crypto hroom code)
      ⟨hreading, fun hlt => by omega⟩ (fun _ => hcontrol hsubmitted)
      (fun _ => (hcontrol hsubmitted).trans (Nat.le_succ _)) fun _ => ⟨hlast, rfl⟩
  | false =>
    have hrefused : (m.pairing crypto code).1 = m := by
      unfold SessionModel.pairing
      cases hparse : Ipad.TrustStore.code code with
      | error e => rfl
      | ok key =>
        rw [enters, hparse] at hcode
        cases hcode
    rw [Bool.or_false]
    refine h.tells ?_
    show Tells m (m.pairing crypto code).1
    rw [hrefused]
    exact ⟨[], _, .refl m, .inl rfl, fun _ => rfl⟩

/-- The callbacks but for control packets. -/
theorem callback (crypto : Crypto) (h : Knows token submitted m) (hroom : m.Roomy)
    {e : Ipad.Moment × SessionModel.Event} (hreceived : ∀ ps, e.2 ≠ .received (.ok ps))
    (hpair : ∀ code, e.2 = .pair code → m.state = .pairing ∧ submitted = false) :
    ∃ l k, Proceeds token (submitted || enters e.2) m.lastSequence m (m.step crypto e) l k := by
  obtain ⟨env, event⟩ := e
  have hordinary (he : SessionModel.Ordinary event) (henters : enters event = false) :
      ∃ l k, Proceeds token (submitted || enters event) m.lastSequence m
        (m.step crypto (env, event)) l k := by
    rw [henters, Bool.or_false]
    exact h.tells (SessionModel.step_tells crypto he hroom)
  cases event with
  | pair code =>
    obtain ⟨hpairing, hsubmitted⟩ := hpair code rfl
    exact h.pair hroom env code hpairing hsubmitted
  | controlReady =>
    rw [show enters .controlReady = false from rfl, Bool.or_false]
    exact h.controlReady hroom env
  | received result =>
    cases result with
    | ok ps => exact absurd rfl (hreceived ps)
    | error error => exact hordinary trivial rfl
  | _ => exact hordinary trivial rfl

end Knows

/-! ### Control packets at the client -/

/-- The callback begins with an assignment to the session. -/
theorem Proceeds.before {m₀ : SessionModel} {last : ℕ} {l : List Ipad.Effect} {k : Bool → ℕ}
    (h : Proceeds token submitted last m₀ m' l k)
    (hsame : (m₀.log, m₀.transport.counter, m₀.transport.epoch) =
      (m.log, m.transport.counter, m.transport.epoch))
    (hlast : m₀.lastSequence < 5 ↔ m.lastSequence < 5) :
    Proceeds token submitted last m m' l k := by
  simp only [Prod.mk.injEq] at hsame
  obtain ⟨hlog, hcounter, hepoch⟩ := hsame
  refine ⟨hlog ▸ h.log, hcounter ▸ h.ascends, fun b q hq => ?_, fun hlt => h.early (hlast.2 hlt),
    fun hstill => h.still (hstill.trans hepoch.symm)⟩
  rw [h.session b q hq]
  simp only [hlast]

namespace Knows

variable {p : Host.Packet}

/-- A packet with the zero token fits a client that has not read `SessionStart`. -/
theorem session_of_zero (h : Knows token submitted m) (hlt : m.lastSequence < 5)
    (hsession : p.session = .zero) : p.toIpad.session = m.transport.session := by
  rw [(h.silent hlt).2]
  exact congrArg Id16.bytes hsession

/-- The packet that comes next passes the client's checks. -/
theorem fits (h : Knows token submitted m) (htoken : token ≠ .zero)
    (hitem : Opening p ∨ Sessional token p) (hnumber : m.lastSequence < p.number)
    (hproof : 5 ≤ p.number → 4 ≤ m.lastSequence)
    (hnext : m.lastSequence < 5 → p.number ≤ 5) : Fits m p.toIpad := by
  have hopening (hlt : m.lastSequence < 5) (hkind : p.kind ≠ Host.Wire.KIND SessionStart)
      (hsession : p.session = .zero) : Fits m p.toIpad := by
    refine ⟨hnumber, ?_⟩
    rw [if_neg (show ¬ p.toIpad.kind = Ipad.WireMessage.kind SessionStart from hkind)]
    exact h.session_of_zero hlt hsession
  rcases hitem with hitem | hitem
  · cases hitem with
    | version hn hkind hsession => exact hopening (by omega) (hkind ▸ by decide) hsession
    | info hn hkind hsession => exact hopening (by omega) (hkind ▸ by decide) hsession
    | challenge hn hkind hsession => exact hopening (by omega) (hkind ▸ by decide) hsession
    | proof hn hkind hsession => exact hopening (by omega) (hkind ▸ by decide) hsession
  · have hsession : p.toIpad.session = token.bytes := congrArg Id16.bytes hitem.session
    refine ⟨hnumber, ?_⟩
    split
    · refine ⟨h.configured (hproof hitem.number), ?_, ?_⟩
      · rw [hsession]
        exact token.length_eq
      · rw [hsession]
        exact fun hzero => htoken (Id16.ext hzero)
    · rename_i hkind
      have hfive : p.number ≠ 5 := fun hfive => hkind (hitem.start.2 hfive)
      have hge := hitem.number
      rw [hsession]
      exact (h.session (by by_contra hlt; have := hnext (by omega); omega)).symm

/-- One of the first two packets is not answered. -/
theorem greeted (h : Knows token submitted m) (hroom : m.Roomy)
    (hreading : m.transport.reading = true) (hnumber : m.lastSequence < p.number)
    (hlt : p.number < 3) (hsession : p.session = .zero)
    (hkind : p.kind ≠ Host.Wire.KIND Pairing ∧ p.kind ≠ Host.Wire.KIND VideoConfig ∧
      p.kind ≠ Host.Wire.KIND SessionStart) (env : Ipad.Moment) :
    ∃ l k, Proceeds token submitted p.number m
      (m.step crypto (env, .received (.ok [p.toIpad]))) l k := by
  have hcontrol := h.hello (by omega)
  have hfits : p.toIpad.session = m.transport.session := h.session_of_zero (by omega) hsession
  have h' : Knows token submitted { m with lastSequence := p.number } := by
    refine ⟨⟨fun hn => absurd (hn.symm.trans hreading) Bool.false_ne_true, fun _ => hcontrol,
      fun _ => hcontrol.trans (by decide), fun _ => hcontrol.trans (by decide),
      fun _ => h.silent (by omega), fun (hge : 4 ≤ p.number) => by omega,
      fun (hge : 5 ≤ p.number) => by omega⟩, fun hpairing => ?_⟩
    have hthree := (h.pairing hpairing).1
    omega
  have hroom' : SessionModel.Roomy { m with lastSequence := p.number } := hroom
  obtain ⟨l, k, hspoke, -, hmute⟩ :=
    SessionModel.dispatch_spoke crypto env (q := p.toIpad) hkind.1 hroom'
  obtain ⟨rfl, hsettles⟩ := hmute hkind.2.1
  rw [SessionModel.step_received m env _ hreading, SessionModel.packet_eq hnumber hkind.2.2 hfits]
  have htells : Tells _ _ := ⟨l, _, hspoke, hsettles, fun _ => rfl⟩
  obtain ⟨l, k, hproceeds⟩ := h'.tells htells
  refine ⟨l, k, hproceeds.before rfl ⟨fun _ => ?_, fun _ => ?_⟩⟩
  · omega
  · show p.number < 5
    omega

/-- Behind the challenge the client waits for the code, or has answered. -/
theorem challenged (h : Knows token submitted m) (hroom : m.Roomy)
    (hreading : m.transport.reading = true) (hlast : m.lastSequence < 3) (hnumber : p.number = 3)
    (hkind : p.kind = Host.Wire.KIND Pairing) (hsession : p.session = .zero)
    (hphase : ∀ pair, p.message Pairing = .ok pair → pair.phase = 0 ∨ pair.phase = 1)
    (env : Ipad.Moment) : ∃ l k, Proceeds token submitted p.number m
      (m.step crypto (env, .received (.ok [p.toIpad]))) l k := by
  have hcontrol := h.hello hlast
  have hsilent := h.silent (by omega)
  have hfits : p.toIpad.session = m.transport.session := h.session_of_zero (by omega) hsession
  have hstate : m.state ≠ .pairing := fun hpairing => by
    have hthree := (h.pairing hpairing).1
    omega
  obtain ⟨l, k, hspoke, honce, hend⟩ := SessionModel.packet_challenge crypto env
    (q := p.toIpad) (show m.lastSequence < p.number by omega) hfits hkind
    (fun pair hpair => hphase pair ((ipad_message_iff p pair).1 hpair)) hroom
  rw [SessionModel.step_received m env _ hreading]
  have hle : k false ≤ m.transport.controlSequence + 1 := honce.control
  have h' : Paced token { m with lastSequence := p.number } :=
    ⟨fun hn => absurd (hn.symm.trans hreading) Bool.false_ne_true,
      fun (hlt : p.number < 3) => by omega, fun _ => hcontrol.trans (by decide),
      fun _ => hcontrol.trans (by decide), fun _ => hsilent,
      fun (hge : 4 ≤ p.number) => by omega, fun (hge : 5 ≤ p.number) => by omega⟩
  have hproceeds : Proceeds token submitted p.number _ _ l k := h'.proceeds hspoke
    (fun _ => ⟨by omega, honce.input⟩) fun hstays => ?_
  · exact ⟨l, k, hproceeds.before rfl ⟨fun _ => by omega, fun _ => show p.number < 5 by omega⟩⟩
  · have hopen : ¬ Closed m _ := fun hclosed => absurd hstays.epoch hclosed.epoch.ne'
    refine h'.of_stays hstays (fun hn => absurd (hn.symm.trans hreading) Bool.false_ne_true)
      (fun (hlt : p.number < 3) => by omega) (fun _ => by omega) (fun _ => by omega)
      (fun _ hstreaming => ?_) fun hpairing => ⟨hnumber, fun _ => ?_⟩
    · rcases hend.resolve_left hopen with ⟨hpairing, -⟩ | hsame
      · exact absurd (hpairing.symm.trans hstreaming) nofun
      · exact hsilent.1 (hsame.symm.trans hstreaming)
    · rcases hend.resolve_left hopen with ⟨-, hk⟩ | hsame
      · rw [hk]
        exact hcontrol
      · exact absurd (hsame.symm.trans hpairing) hstate

/-- Behind the host's proof the client is configured, and its capabilities go out. -/
theorem proved (h : Knows token submitted m) (hroom : m.Roomy)
    (hreading : m.transport.reading = true) (hlast : m.lastSequence < 4) (hnumber : p.number = 4)
    (hkind : p.kind = Host.Wire.KIND Pairing) (hsession : p.session = .zero)
    (hphase : ∀ pair, p.message Pairing = .ok pair → pair.phase = 3) (env : Ipad.Moment) :
    ∃ l k, Proceeds token submitted p.number m
      (m.step crypto (env, .received (.ok [p.toIpad]))) l k := by
  have hcontrol := h.answer hlast
  have hsilent := h.silent (by omega)
  have hfits : p.toIpad.session = m.transport.session := h.session_of_zero (by omega) hsession
  obtain ⟨l, k, hspoke, honce, hend⟩ := SessionModel.packet_proof crypto env
    (q := p.toIpad) (show m.lastSequence < p.number by omega) hfits hkind
    (fun pair hpair => hphase pair ((ipad_message_iff p pair).1 hpair)) hroom
  rw [SessionModel.step_received m env _ hreading]
  have hle : k false ≤ m.transport.controlSequence + 1 := honce.control
  have h' : Paced token { m with lastSequence := p.number, configured := true } :=
    ⟨fun hn => absurd (hn.symm.trans hreading) Bool.false_ne_true,
      fun (hlt : p.number < 3) => by omega, fun (hlt : p.number < 4) => by omega,
      fun _ => hcontrol.trans (by decide), fun _ => hsilent, fun _ => rfl,
      fun (hge : 5 ≤ p.number) => by omega⟩
  have hproceeds : Proceeds token submitted p.number _ _ l k := h'.proceeds hspoke
    (fun _ => ⟨by omega, honce.input⟩) fun hstays => ?_
  · exact ⟨l, k, hproceeds.before rfl ⟨fun _ => by omega, fun _ => show p.number < 5 by omega⟩⟩
  · have hopen : ¬ Closed m _ := fun hclosed => absurd hstays.epoch hclosed.epoch.ne'
    have hstate := hend.resolve_left hopen
    exact h'.of_stays hstays (fun hn => absurd (hn.symm.trans hreading) Bool.false_ne_true)
      (fun (hlt : p.number < 3) => by omega) (fun (hlt : p.number < 4) => by omega)
      (fun _ => by omega) (fun _ hstreaming => absurd (hstate.symm.trans hstreaming) nofun)
      fun hpairing => absurd (hstate.symm.trans hpairing) nofun

/-- `SessionStart` brings the token. -/
theorem started (h : Knows token submitted m) (hroom : m.Roomy)
    (hreading : m.transport.reading = true) (htoken : token ≠ .zero)
    (hlast : m.lastSequence = 4) (hnumber : p.number = 5) (hitem : Sessional token p)
    (env : Ipad.Moment) : ∃ l k, Proceeds token submitted p.number m
      (m.step crypto (env, .received (.ok [p.toIpad]))) l k := by
  have hsession : p.toIpad.session = token.bytes := congrArg Id16.bytes hitem.session
  have hcontrol := h.capabilities (by omega)
  have hsilent := h.silent (by omega)
  have hfits : m.configured = true ∧ p.toIpad.session.length = 16 ∧
      p.toIpad.session ≠ List.replicate 16 0 := by
    rw [hsession]
    exact ⟨h.configured (by omega), token.length_eq, fun hzero => htoken (Id16.ext hzero)⟩
  obtain ⟨i, l, hspoke, hsettles⟩ := SessionModel.start_spoke crypto env (q := p.toIpad)
    (show m.lastSequence < p.number by omega) (hitem.start.2 hnumber) hfits hroom
  rw [SessionModel.step_received m env _ hreading]
  have hnothing (b : Bool) : said b l = [] := (hspoke.ascends b).eq_nil le_rfl
  refine ⟨l, _, hspoke.log, hspoke.ascends, fun b q hq => ?_, fun _ => ⟨hcontrol, hnothing true⟩,
    fun hepoch => ?_⟩
  · rw [hnothing b] at hq
    exact absurd hq List.not_mem_nil
  have hstays := stays_of_spoke hspoke hepoch
  refine ⟨(Prod.mk.inj hstays.link).2, ?_, hstays.counter⟩
  have h' : Paced token { m with
      lastSequence := p.number
      transport := { m.transport with session := p.toIpad.session, input := i } } :=
    ⟨fun hn => absurd (hn.symm.trans hreading) Bool.false_ne_true,
      fun (hlt : p.number < 3) => by omega, fun (hlt : p.number < 4) => by omega,
      fun (hlt : p.number < 5) => by omega, fun (hlt : p.number < 5) => by omega,
      fun _ => hfits.1, fun _ => hsession⟩
  refine h'.of_stays hstays (fun hn => absurd (hn.symm.trans hreading) Bool.false_ne_true)
    (fun (hlt : p.number < 3) => by omega) (fun (hlt : p.number < 4) => by omega)
    (fun (hlt : p.number < 5) => by omega) (fun (hlt : p.number < 5) => by omega)
    fun hpairing => ?_
  rcases hsettles with hsame | hcalm
  · have hthree := (h.pairing (hsame.symm.trans hpairing)).1
    omega
  · exact absurd hpairing hcalm.2

/-- The packets behind `SessionStart`. -/
theorem continued (h : Knows token submitted m) (hroom : m.Roomy)
    (hreading : m.transport.reading = true) (hlast : 5 ≤ m.lastSequence)
    (hnumber : m.lastSequence < p.number) (hitem : Sessional token p) (env : Ipad.Moment) :
    ∃ l k, Proceeds token submitted p.number m
      (m.step crypto (env, .received (.ok [p.toIpad]))) l k := by
  have hsession : p.toIpad.session = m.transport.session := by
    rw [h.session hlast]
    exact congrArg Id16.bytes hitem.session
  have hstart : p.kind ≠ Host.Wire.KIND SessionStart := fun hkind => by
    have hfive := hitem.start.1 hkind
    omega
  have h' : Paced token { m with lastSequence := p.number } :=
    ⟨fun hn => absurd (hn.symm.trans hreading) Bool.false_ne_true,
      fun (hlt : p.number < 3) => by omega, fun (hlt : p.number < 4) => by omega,
      fun (hlt : p.number < 5) => by omega, fun (hlt : p.number < 5) => by omega,
      fun _ => h.configured (by omega), fun _ => h.session hlast⟩
  have hroom' : SessionModel.Roomy { m with lastSequence := p.number } := hroom
  obtain ⟨l, k, hspoke, hpairing, -⟩ :=
    SessionModel.dispatch_spoke crypto env (q := p.toIpad) hitem.kind hroom'
  rw [SessionModel.step_received m env _ hreading, SessionModel.packet_eq hnumber hstart hsession]
  have hproceeds : Proceeds token submitted p.number _ _ l k := h'.proceeds hspoke
    (fun (hlt : p.number < 5) => by omega) fun hstays => ?_
  · exact ⟨l, k, hproceeds.before rfl ⟨fun (hlt : p.number < 5) => by omega, fun hlt => by omega⟩⟩
  · refine h'.of_stays hstays (fun hn => absurd (hn.symm.trans hreading) Bool.false_ne_true)
      (fun (hlt : p.number < 3) => by omega) (fun (hlt : p.number < 4) => by omega)
      (fun (hlt : p.number < 5) => by omega) (fun (hlt : p.number < 5) => by omega)
      fun hpairing' => ?_
    have hthree := (h.pairing (hpairing hpairing')).1
    omega

/-- Which token the host will draw does not matter yet. -/
theorem retoken {token' : Id16} (h : Knows token submitted m) (hlt : m.lastSequence < 5) :
    Knows token' submitted m :=
  ⟨⟨h.unread, h.hello, h.answer, h.capabilities, h.silent, h.configured, fun hge => by omega⟩,
    h.pairing⟩

theorem receives (crypto : Crypto) (h : Knows token submitted m) (hroom : m.Roomy)
    (hreading : m.transport.reading = true) (htoken : token ≠ .zero)
    (hitem : Opening p ∨ Sessional token p) (hnumber : m.lastSequence < p.number)
    (hproof : 5 ≤ p.number → 4 ≤ m.lastSequence) (hnext : m.lastSequence < 5 → p.number ≤ 5)
    (env : Ipad.Moment) : ∃ l k, Proceeds token submitted p.number m
      (m.step crypto (env, .received (.ok [p.toIpad]))) l k := by
  rcases hitem with hitem | hitem
  · cases hitem with
    | version hn hkind hsession =>
      exact h.greeted hroom hreading hnumber (by omega) hsession (hkind ▸ by decide) env
    | info hn hkind hsession =>
      exact h.greeted hroom hreading hnumber (by omega) hsession (hkind ▸ by decide) env
    | challenge hn hkind hsession hphase =>
      exact h.challenged hroom hreading (by omega) hn hkind hsession hphase env
    | proof hn hkind hsession hphase =>
      exact h.proved hroom hreading (by omega) hn hkind hsession hphase env
  · have hge := hitem.number
    have hfour := hproof hge
    by_cases hlt : m.lastSequence < 5
    · have hle := hnext hlt
      exact h.started hroom hreading htoken (by omega) (by omega) hitem env
    · exact h.continued hroom hreading (by omega) hnumber hitem env

end Knows

end Connection
end SidecarDOS
