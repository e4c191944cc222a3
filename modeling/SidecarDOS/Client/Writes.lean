/-
# What a session writes

A callback is a sequence of moves: it assigns, it sends a packet, or it closes the
connection (`Move`, `Speaks`).  By induction on the moves its packets carry the token of the
connection, and their numbers rise from the counters of the streams (`Speaks.spoke`).  A
session that does not stream says nothing, but for the messages that set up the connection,
each of which is one `send` (`Sending.spoke`).
-/

import SidecarDOS.Client.SessionModel
import SidecarDOS.Library.Numbered

namespace SidecarDOS
namespace Ipad

open Library (Ascends)

namespace Transport

/-- The stream is open. -/
def stream (t : Transport) (isInput : Bool) : Bool := if isInput then t.input else t.control

def counter (t : Transport) (isInput : Bool) : ℕ :=
  if isInput then t.inputSequence else t.controlSequence

def count (t : Transport) (isInput : Bool) : Transport :=
  if isInput then { t with inputSequence := t.inputSequence + 1 }
  else { t with controlSequence := t.controlSequence + 1 }

/-- The streams of a connection, and what goes into its packets. -/
def wires (t : Transport) : ℕ × Bytes × Bool × Bool × Bool × ℕ × ℕ × ℕ :=
  (t.epoch, t.session, t.reading, t.control, t.input, t.controlSequence, t.inputSequence, t.sends)

end Transport

/-- The packet that was sent on the stream. -/
def Effect.packet (isInput : Bool) : Effect → Option Packet
  | .sent b p => if b = isInput then some p else none
  | _ => none

def said (isInput : Bool) (l : List Effect) : List Packet := l.filterMap (Effect.packet isInput)

theorem said_append (b : Bool) (l l' : List Effect) : said b (l ++ l') = said b l ++ said b l' :=
  List.filterMap_append

/-- Nothing was sent. -/
def Unsaid (l : List Effect) : Prop := ∀ b, said b l = []

theorem unsaid_nil : Unsaid [] := fun _ => rfl

namespace SessionModel

variable {crypto : Crypto} {m m' m'' : SessionModel} {env : Moment} {l : List Effect} {p : Prop}

/-- The connection was closed, or another one was opened. -/
structure Closed (m m' : SessionModel) : Prop where
  epoch : m.transport.epoch < m'.transport.epoch
  control : m'.transport.control = false
  input : m'.transport.input = false

theorem Closed.of_le (h : Closed m' m'') (hle : m.transport.epoch ≤ m'.transport.epoch) :
    Closed m m'' :=
  ⟨hle.trans_lt h.epoch, h.control, h.input⟩

/-- The state of a session that neither streams nor waits for a code. -/
def Calm (s : State) : Prop := s ≠ .streaming ∧ s ≠ .pairing

/-- The state is as before, or calm. -/
def Settles (m m' : SessionModel) : Prop := m'.state = m.state ∨ Calm m'.state

theorem Settles.trans (h : Settles m m') (h' : Settles m' m'') : Settles m m'' := by
  rcases h' with h' | h'
  · rcases h with h | h
    · exact .inl (h'.trans h)
    · exact .inr (h' ▸ h)
  · exact .inr h'

theorem Settles.streaming (h : Settles m m') (hs : m'.state = .streaming) :
    m.state = .streaming := by
  rcases h with h | h
  · exact h ▸ hs
  · exact absurd hs h.1

/-- What a session knows of its connection. -/
def link (m : SessionModel) : Bool × ℕ := (m.configured, m.lastSequence)

/-- A move of a callback; packets are sent only where `p` holds. -/
inductive Move (p : Prop) (m m' : SessionModel) : Prop where
  | assigned (l : List Effect) (hlog : m'.log = m.log ++ l) (hl : Unsaid l)
    (hwires : m'.transport.wires = m.transport.wires) (hlink : m'.link = m.link)
    (hstate : Settles m m')
  | sent (hp : p) (b : Bool) (q : Packet) (hstream : m.transport.stream b = true)
    (hroom : m.transport.sends < 128) (hlog : m'.log = m.log ++ [.sent b q])
    (hq : q.sequence = UInt64.ofNat (m.transport.counter b + 1) ∧ q.session = m.transport.session)
    (hwires : m'.transport.wires =
      { m.transport.count b with sends := m.transport.sends + 1 }.wires)
    (hlink : m'.link = m.link) (hstate : m'.state = m.state)
  | closed (h : Closed m m') (hlog : m'.log = m.log) (hstate : Settles m m')

/-- Some moves, one after another. -/
def Speaks (p : Prop) : SessionModel → SessionModel → Prop := Relation.ReflTransGen (Move p)

namespace Speaks

theorem refl (m : SessionModel) : Speaks p m m := Relation.ReflTransGen.refl

theorem trans (h : Speaks p m m') (h' : Speaks p m' m'') : Speaks p m m'' :=
  Relation.ReflTransGen.trans h h'

theorem one (h : Move p m m') : Speaks p m m' := Relation.ReflTransGen.single h

/-- Other fields were assigned. -/
theorem same (hwires : m'.transport.wires = m.transport.wires)
    (hlink : (m'.link, m'.log) = (m.link, m.log)) (hstate : Settles m m') : Speaks p m m' := by
  obtain ⟨hlink, hlog⟩ := Prod.mk.inj hlink
  exact one (.assigned [] (by rw [hlog, List.append_nil]) unsaid_nil hwires hlink hstate)

/-- Other fields were assigned before. -/
theorem after (h : Speaks p m' m'') (hwires : m'.transport.wires = m.transport.wires)
    (hlink : (m'.link, m'.log) = (m.link, m.log)) (hstate : Settles m m') : Speaks p m m'' :=
  (same hwires hlink hstate).trans h

theorem settles (h : Speaks p m m') : Settles m m' := by
  induction h with
  | refl => exact .inl rfl
  | tail _ hmove ih =>
    cases hmove with
    | assigned _ _ _ _ _ hstate => exact ih.trans hstate
    | sent _ _ _ _ _ _ _ _ _ hstate => exact ih.trans (.inl hstate)
    | closed _ _ hstate => exact ih.trans hstate

end Speaks

/-! ### One message -/

theorem failed_calm (m : SessionModel) (e : Failure) : Calm (m.failed e).state := by
  unfold failed
  dsimp only
  split_ifs <;> exact ⟨nofun, nofun⟩

theorem failed_log (m : SessionModel) (e : Failure) : (m.failed e).log = m.log := by
  unfold failed
  dsimp only
  split_ifs <;> rfl

theorem failed_closed (m : SessionModel) (e : Failure) : Closed m (m.failed e) := by
  unfold failed
  dsimp only
  split_ifs <;> exact ⟨Nat.lt_succ_self _, rfl, rfl⟩

theorem fail_closed (m : SessionModel) (e : Failure) : Closed m (m.fail e) :=
  (failed_closed { m with transport := m.transport.close } e).of_le (Nat.le_succ _)

/-- What `send` does: it throws, and has closed the connection, or not, or it has sent
a packet. -/
inductive Sending (m : SessionModel) (b : Bool) : Result → Prop where
  | refused (e : Failure) : Sending m b (m, .error e)
  | closed (e : Failure) : Sending m b (m.fail e, .error e)
  | skipped (e : Failure) : Sending m b ({ m with transport := m.transport.count b }, .error e)
  | sent (q : Packet) (hstream : m.transport.stream b = true) (hroom : m.transport.sends < 128)
    (hq : q.sequence = UInt64.ofNat (m.transport.counter b + 1) ∧ q.session = m.transport.session) :
    Sending m b ({ m with
      transport := { m.transport.count b with sends := m.transport.sends + 1 }
      log := m.log ++ [Effect.sent b q] }, .ok ())

theorem send_sends {T : Type} [WireMessage T] (m : SessionModel) (message : T) (b : Bool) :
    Sending m b (m.send message b) := by
  cases b <;> simp only [send, Bool.false_eq_true, if_true, if_false]
  all_goals
    split
    · exact .refused _
    rename_i hstream
    split
    · exact .closed _
    rename_i hroom
    split
    · exact .skipped _
    · exact .sent _ (not_not.1 hstream) (not_not.1 hroom) ⟨rfl, rfl⟩

/-- A message that throws ends in `failed`. -/
theorem Sending.failed {b : Bool} {r : Result} (h : Sending m b r) {e : Failure}
    (hr : r.2 = .error e) : Move p m (r.1.failed e) := by
  have hclosed (m₁ : SessionModel) (hle : m.transport.epoch ≤ m₁.transport.epoch)
      (hlog : m₁.log = m.log) : Move p m (m₁.failed e) :=
    .closed ((failed_closed m₁ e).of_le hle) ((failed_log m₁ e).trans hlog)
      (.inr (failed_calm m₁ e))
  cases h with
  | refused => exact hclosed m le_rfl rfl
  | closed e' => exact hclosed _ (fail_closed m e').epoch.le (failed_log _ e')
  | skipped =>
    refine hclosed _ ?_ rfl
    cases b <;> exact le_rfl
  | sent => exact nomatch hr

theorem Sending.move {b : Bool} {r : Result} (h : Sending m b r) (hp : p) (hr : r.2 = .ok ()) :
    Move p m r.1 := by
  cases h with
  | refused => exact nomatch hr
  | closed => exact nomatch hr
  | skipped => exact nomatch hr
  | sent q hstream hroom hq => exact .sent hp b q hstream hroom rfl hq rfl rfl rfl

theorem send_speaks {T : Type} [WireMessage T] {message : T} {b : Bool} (hp : p) :
    Speaks p m ((m.send message b).catching failed) := by
  have h := send_sends m message b
  rcases hsend : m.send message b with ⟨m', e | ⟨⟩⟩
  · rw [hsend] at h
    exact .one (h.failed rfl)
  · rw [hsend] at h
    exact .one (h.move hp rfl)

/-! ### The callbacks -/

theorem failed_speaks (m : SessionModel) (e : Failure) : Speaks p m (m.failed e) :=
  .one (.closed (failed_closed m e) (failed_log m e) (.inr (failed_calm m e)))

theorem fail_speaks (m : SessionModel) (e : Failure) : Speaks p m (m.fail e) :=
  .one (.closed (fail_closed m e) (failed_log _ e) (.inr (failed_calm _ e)))

theorem catching_fail_speaks {r : Result} (h : Speaks p m r.1) : Speaks p m (r.catching fail) := by
  obtain ⟨m', e | ⟨⟩⟩ := r
  · exact h.trans (fail_speaks m' e)
  · exact h

theorem requestKeyframe_speaks (hp : m.state = .streaming → p) (now : ℕ) (reason : UInt8) :
    Speaks p m (m.requestKeyframe now reason) := by
  unfold requestKeyframe
  split
  · exact .refl m
  rename_i hstreaming
  split
  · exact .refl m
  · exact .after (send_speaks (hp (not_not.1 hstreaming))) rfl rfl (.inl rfl)

theorem decode_speaks (hp : m.state = .streaming → p) (env : Moment) (frame : ReceivedFrame × ℕ) :
    Speaks p m (m.decode env frame) := by
  unfold decode
  dsimp only
  split
  · refine .after (requestKeyframe_speaks ?_ _ _) rfl rfl (.inl rfl)
    exact hp
  · exact .same rfl rfl (.inl rfl)

theorem foldl_decode_speaks (hp : m.state = .streaming → p) (env : Moment)
    (frames : List (ReceivedFrame × ℕ)) : Speaks p m (frames.foldl (decode env) m) := by
  induction frames generalizing m with
  | nil => exact .refl m
  | cons frame frames ih =>
    have h := decode_speaks hp env frame
    exact h.trans (ih fun hstreaming => hp (h.settles.streaming hstreaming))

theorem consumeFrames_speaks (hp : m.state = .streaming → p) (env : Moment) :
    Speaks p m (m.consumeFrames env) := by
  have h := @foldl_decode_speaks
    { m with assembler := ((m.assembler.expire env.now).drain env.now).1 } p hp env
    ((m.assembler.expire env.now).drain env.now).2.zipIdx
  unfold consumeFrames
  dsimp only
  split
  · exact .after (h.trans (requestKeyframe_speaks (fun hs => hp (h.settles.streaming hs)) _ _))
      rfl rfl
      (.inl rfl)
  · exact .after h rfl rfl (.inl rfl)

theorem datagram_speaks (hp : m.state = .streaming → p) (env : Moment) (data : Bytes) :
    Speaks p m (m.datagram env data).1 := by
  unfold datagram
  split
  · exact .refl m
  split
  · exact .refl m
  split
  · exact .refl m
  split
  · exact .refl m
  split
  · exact .refl m
  split
  · exact .same rfl rfl (.inl rfl)
  · refine .after (consumeFrames_speaks ?_ env) rfl rfl (.inl rfl)
    exact hp

theorem tick_speaks (hp : m.state = .streaming → p) (env : Moment) : Speaks p m (m.tick env) := by
  unfold tick
  split
  · exact .refl m
  rename_i hstreaming
  replace hp := hp (not_not.1 hstreaming)
  dsimp only
  have hframes : Speaks p m _ := consumeFrames_speaks (fun _ => hp) env
  generalize m.consumeFrames env = m₁ at hframes ⊢
  split
  · exact hframes
  have h := send_sends m₁ (⟨UInt64.ofNat env.now⟩ : Ping) false
  rcases hsend : m₁.send (⟨UInt64.ofNat env.now⟩ : Ping) false with ⟨m₂, e | ⟨⟩⟩
  · rw [hsend] at h
    have hfailed : Speaks p m₁ (m₂.failed e) := .one (h.failed rfl)
    exact (hframes.trans hfailed).trans (.same rfl rfl (.inl rfl))
  · rw [hsend] at h
    have hsent : Speaks p m₁ m₂ := .one (h.move hp rfl)
    have hstatistics : Speaks p m₂ ((m₂.send env.statistics false).catching failed) :=
      send_speaks hp
    exact ((hframes.trans hsent).trans hstatistics).trans (.same rfl rfl (.inl rfl))

theorem input_speaks (hp : m.state = .streaming → p) (e : InputEvent) :
    Speaks p m (m.input e) := by
  unfold input
  split
  · exact .refl m
  · rename_i hstreaming
    exact send_speaks (hp (not_not.1 hstreaming))

theorem orientationChanged_speaks (m : SessionModel) (env : Moment) :
    Speaks p m (m.orientationChanged env) := by
  unfold orientationChanged
  split
  · exact .refl m
  split
  · exact failed_speaks m _
  · exact .refl m

theorem openConnection_closes (m : SessionModel) (env : Moment) : m.openConnection env = m ∨
    Closed m (m.openConnection env) ∧ (m.openConnection env).log = m.log ∧
      Calm (m.openConnection env).state := by
  unfold openConnection
  split
  · exact .inl rfl
  split
  · exact .inl rfl
  split
  · exact .inr ⟨failed_closed m _, failed_log m _, failed_calm m _⟩
  · refine .inr ⟨⟨Nat.lt_succ_self _, rfl, rfl⟩, rfl, ?_⟩
    dsimp only
    split_ifs <;> exact ⟨nofun, nofun⟩

theorem openConnection_speaks (m : SessionModel) (env : Moment) :
    Speaks p m (m.openConnection env) := by
  rcases openConnection_closes m env with heq | ⟨hclosed, hlog, hstate⟩
  · rw [heq]
    exact .refl m
  · exact .one (.closed hclosed hlog (.inr hstate))

theorem sceneActive_speaks (m : SessionModel) (env : Moment) (active : Bool) :
    Speaks p m (m.sceneActive env active) := by
  unfold sceneActive
  dsimp only
  split
  · split
    · exact .after (openConnection_speaks _ env) rfl rfl (.inl rfl)
    · exact .same rfl rfl (.inl rfl)
  · split
    · exact .one (.closed ⟨Nat.lt_succ_self _, rfl, rfl⟩ rfl (.inr ⟨nofun, nofun⟩))
    · exact .one (.closed ⟨Nat.lt_succ_self _, rfl, rfl⟩ rfl (.inl rfl))

theorem verifyCertificate_speaks (m : SessionModel) (certificate : Bytes) :
    Speaks p m (m.verifyCertificate crypto certificate) := by
  unfold verifyCertificate
  split
  · split
    · exact fail_speaks m _
    · exact .same rfl rfl (.inl rfl)
  · exact .same rfl rfl (.inl rfl)

/-! ### What was said -/

/-- The connection is still open, and its counters have come to `k`. -/
structure Stays (m m' : SessionModel) (k : Bool → ℕ) : Prop where
  epoch : m'.transport.epoch = m.transport.epoch
  session : m'.transport.session = m.transport.session
  reading : m'.transport.reading = m.transport.reading
  input : m'.transport.input = m.transport.input
  counter : ∀ b, m'.transport.counter b = k b
  link : m'.link = m.link

/-- What was said between two states: the packets carry the token of the connection, and
their numbers rise from its counters. -/
structure Spoke (m m' : SessionModel) (l : List Effect) (k : Bool → ℕ) : Prop where
  log : m'.log = m.log ++ l
  ascends : ∀ b, Ascends (fun q : Packet => q.sequence.toNat) (m.transport.counter b) (k b)
    (said b l)
  session : ∀ b, ∀ q ∈ said b l, q.session = m.transport.session
  line : Stays m m' k ∨ Closed m m'

namespace Spoke

variable {k : Bool → ℕ}

theorem counter_wires {t t' : Transport} (h : t'.wires = t.wires) (b : Bool) :
    t'.counter b = t.counter b := by
  simp only [Transport.wires, Prod.mk.injEq] at h
  obtain ⟨-, -, -, -, -, hcontrol, hinput, -⟩ := h
  cases b with
  | false => exact hcontrol
  | true => exact hinput

theorem of_wires (hwires : m'.transport.wires = m.transport.wires) (hlink : m'.link = m.link) :
    Stays m m' m.transport.counter := by
  have hcounter := counter_wires hwires
  simp only [Transport.wires, Prod.mk.injEq] at hwires
  obtain ⟨hepoch, hsession, hreading, -, hinput, -, -, -⟩ := hwires
  exact ⟨hepoch, hsession, hreading, hinput, hcounter, hlink⟩

theorem refl (m : SessionModel) : Spoke m m [] m.transport.counter :=
  ⟨(List.append_nil _).symm, fun b => le_refl (m.transport.counter b), nofun,
    .inl (of_wires rfl rfl)⟩

/-- Nothing is said behind what was said. -/
theorem assigned {l' : List Effect} (h : Spoke m m' l k) (hl : Unsaid l')
    (hlog : m''.log = m'.log ++ l') (hwires : m''.transport.wires = m'.transport.wires)
    (hlink : m''.link = m'.link) : Spoke m m'' (l ++ l') k := by
  refine ⟨by rw [hlog, h.log, List.append_assoc], fun b => ?_, fun b q hq => ?_, ?_⟩
  · rw [said_append, hl b, List.append_nil]
    exact h.ascends b
  · rw [said_append, hl b, List.append_nil] at hq
    exact h.session b q hq
  · have hcounter := counter_wires hwires
    simp only [Transport.wires, Prod.mk.injEq] at hwires
    obtain ⟨hepoch, hsession, hreading, hcontrol, hinput, -, -, -⟩ := hwires
    rcases h.line with hstays | hclosed
    · exact .inl ⟨hepoch.trans hstays.epoch, hsession.trans hstays.session,
        hreading.trans hstays.reading, hinput.trans hstays.input,
        fun b => (hcounter b).trans (hstays.counter b), hlink.trans hstays.link⟩
    · exact .inr ⟨hclosed.epoch.trans_eq hepoch.symm, hcontrol.trans hclosed.control,
        hinput.trans hclosed.input⟩

/-- Something was assigned before. -/
theorem after {l' : List Effect} (h : Spoke m' m'' l' k) (hl : Unsaid l)
    (hlog : m'.log = m.log ++ l) (hwires : m'.transport.wires = m.transport.wires)
    (hlink : m'.link = m.link) : Spoke m m'' (l ++ l') k := by
  have hcounter := counter_wires hwires
  simp only [Transport.wires, Prod.mk.injEq] at hwires
  obtain ⟨hepoch, hsession, hreading, -, hinput, -, -, -⟩ := hwires
  refine ⟨by rw [h.log, hlog, List.append_assoc], fun b => ?_, fun b q hq => ?_, ?_⟩
  · rw [said_append, hl b, List.nil_append, ← hcounter b]
    exact h.ascends b
  · rw [said_append, hl b, List.nil_append] at hq
    exact (h.session b q hq).trans hsession
  · rcases h.line with hstays | hclosed
    · exact .inl ⟨hstays.epoch.trans hepoch, hstays.session.trans hsession,
        hstays.reading.trans hreading, hstays.input.trans hinput, hstays.counter,
        hstays.link.trans hlink⟩
    · exact .inr (hclosed.of_le hepoch.ge)

theorem closed (h : Spoke m m' l k) (hclosed : Closed m' m'') (hlog : m''.log = m'.log) :
    Spoke m m'' l k := by
  refine ⟨hlog.trans h.log, h.ascends, h.session, .inr (hclosed.of_le ?_)⟩
  rcases h.line with hstays | hclosed'
  · exact hstays.epoch.ge
  · exact hclosed'.epoch.le

/-- Only an open connection has open streams. -/
theorem stays {b : Bool} (h : Spoke m m' l k) (hstream : m'.transport.stream b = true) :
    Stays m m' k := by
  rcases h.line with hstays | hclosed
  · exact hstays
  · cases b with
    | false => exact absurd (hclosed.control.symm.trans hstream) Bool.false_ne_true
    | true => exact absurd (hclosed.input.symm.trans hstream) Bool.false_ne_true

/-- A packet is said on an open stream. -/
theorem sent {b : Bool} {q : Packet} (h : Spoke m m' l k) (hstream : m'.transport.stream b = true)
    (hroom : k b + 1 < 2 ^ 64) (hlog : m''.log = m'.log ++ [.sent b q])
    (hq : q.sequence = UInt64.ofNat (m'.transport.counter b + 1) ∧
      q.session = m'.transport.session)
    (hwires : m''.transport.wires =
      { m'.transport.count b with sends := m'.transport.sends + 1 }.wires)
    (hlink : m''.link = m'.link) :
    Spoke m m'' (l ++ [.sent b q]) (Function.update k b (k b + 1)) := by
  have hstays := h.stays hstream
  have hsequence : q.sequence.toNat = k b + 1 := by
    rw [hq.1, hstays.counter b]
    exact UInt64.toNat_ofNat_of_lt' hroom
  have hsaid : said b [.sent b q] = [q] := by simp [said, Effect.packet]
  have hother {b' : Bool} (hb : b' ≠ b) : said b' [.sent b q] = [] := by
    simp [said, Effect.packet, hb.symm]
  refine ⟨by rw [hlog, h.log, List.append_assoc], fun b' => ?_, fun b' q' hq' => ?_, ?_⟩
  · rw [said_append]
    by_cases hb : b' = b
    · subst hb
      rw [hsaid, Function.update_self]
      exact (h.ascends b').append (.single (hsequence ▸ Nat.lt_succ_self _) hsequence.le)
    · rw [hother hb, List.append_nil, Function.update_of_ne hb]
      exact h.ascends b'
  · rw [said_append] at hq'
    rcases List.mem_append.1 hq' with hq' | hq'
    · exact h.session b' q' hq'
    · by_cases hb : b' = b
      · subst hb
        rw [hsaid, List.mem_singleton] at hq'
        rw [hq', hq.2, hstays.session]
      · rw [hother hb] at hq'
        exact absurd hq' List.not_mem_nil
  · have hcounter := counter_wires hwires
    have hcount : ∀ b', m''.transport.counter b' = Function.update k b (k b + 1) b' := by
      intro b'
      rw [hcounter b']
      have h₁ := hstays.counter b'
      cases b <;> cases b' <;> exact h₁ ▸ rfl
    cases b with
    | false =>
      simp only [Transport.wires, Prod.mk.injEq] at hwires
      obtain ⟨hepoch, hsession, hreading, -, hinput, -, -, -⟩ := hwires
      exact .inl ⟨hepoch.trans hstays.epoch, hsession.trans hstays.session,
        hreading.trans hstays.reading, hinput.trans hstays.input, hcount,
        hlink.trans hstays.link⟩
    | true =>
      simp only [Transport.wires, Prod.mk.injEq] at hwires
      obtain ⟨hepoch, hsession, hreading, -, hinput, -, -, -⟩ := hwires
      exact .inl ⟨hepoch.trans hstays.epoch, hsession.trans hstays.session,
        hreading.trans hstays.reading, hinput.trans hstays.input, hcount,
        hlink.trans hstays.link⟩

end Spoke

/-- The counters have room for the packets of a callback. -/
def Roomy (m : SessionModel) : Prop :=
  m.transport.controlSequence + m.transport.inputSequence + 128 < 2 ^ 64

/-- **A callback speaks in order**: at most 128 packets are on their way to the transport, so
that no counter wraps. -/
theorem Speaks.spoke (h : Speaks p m m') (hroom : m.Roomy) :
    ∃ l k, Spoke m m' l k ∧ (¬ p → k = m.transport.counter) := by
  have hmoves : ∃ l k, Spoke m m' l k ∧ (¬ p → k = m.transport.counter) ∧
      k false + k true ≤ m.transport.counter false + m.transport.counter true + 128 ∧
        (Stays m m' k → k false + k true ≤ m.transport.counter false + m.transport.counter true +
          m'.transport.sends) := by
    induction h with
    | refl =>
      exact ⟨[], _, .refl m, fun _ => rfl, Nat.le_add_right _ _, fun _ => Nat.le_add_right _ _⟩
    | @tail m₁ m₂ _ hmove ih =>
      obtain ⟨l, k, hspoke, hmute, hbound, hsends⟩ := ih
      cases hmove with
      | assigned l' hlog hl hwires hlink _ =>
        refine ⟨l ++ l', k, hspoke.assigned hl hlog hwires hlink, hmute, hbound, fun hstays => ?_⟩
        have hsent : m₂.transport.sends = m₁.transport.sends := by
          simp only [Transport.wires, Prod.mk.injEq] at hwires
          exact hwires.2.2.2.2.2.2.2
        rw [hsent]
        refine hsends ?_
        rcases hspoke.line with hstays' | hclosed
        · exact hstays'
        · simp only [Transport.wires, Prod.mk.injEq] at hwires
          exact absurd (hwires.1.symm.trans hstays.epoch) hclosed.epoch.ne'
      | sent hp b q hstream hroom' hlog hq hwires hlink _ =>
        have hk : k b ≤ k false + k true := by
          cases b with
          | false => exact Nat.le_add_right _ _
          | true => exact Nat.le_add_left _ _
        have hsum : Function.update k b (k b + 1) false + Function.update k b (k b + 1) true =
            k false + k true + 1 := by
          cases b <;> simp [Function.update] <;> omega
        have hle := hsends (hspoke.stays hstream)
        have hroom : k b + 1 < 2 ^ 64 := by
          have h : m.transport.counter false + m.transport.counter true + 128 < 2 ^ 64 := hroom
          omega
        have hsent : m₂.transport.sends = m₁.transport.sends + 1 := by
          simp only [Transport.wires, Prod.mk.injEq] at hwires
          exact hwires.2.2.2.2.2.2.2
        exact ⟨_, _, hspoke.sent hstream hroom hlog hq hwires hlink, absurd hp, by omega,
          fun _ => by omega⟩
      | closed hclosed hlog _ =>
        refine ⟨l, k, hspoke.closed hclosed hlog, hmute, hbound, fun hstays => ?_⟩
        refine absurd hstays.epoch (ne_of_gt (lt_of_le_of_lt ?_ hclosed.epoch))
        rcases hspoke.line with hstays | hclosed
        · exact hstays.epoch.ge
        · exact hclosed.epoch.le
  obtain ⟨l, k, hspoke, hmute, -, -⟩ := hmoves
  exact ⟨l, k, hspoke, hmute⟩

/-- What one message says, whether it is sent or throws. -/
theorem Sending.spoke {b : Bool} {r : Result} (h : Sending m b r) (hroom : m.Roomy) :
    ∃ l k, Spoke m r.1 l k ∧ (k = m.transport.counter ∨
      k = Function.update m.transport.counter b (m.transport.counter b + 1)) := by
  have hcount : m.transport.counter b + 1 < 2 ^ 64 := by
    have h : m.transport.counter false + m.transport.counter true + 128 < 2 ^ 64 := hroom
    cases b <;> omega
  cases h with
  | refused => exact ⟨[], _, .refl m, .inl rfl⟩
  | closed e => exact ⟨[], _, (Spoke.refl m).closed (fail_closed m e) (failed_log _ e), .inl rfl⟩
  | skipped e =>
    refine ⟨[], _, ⟨(List.append_nil _).symm, fun b' => ?_, nofun, .inl ?_⟩, .inr rfl⟩
    · show m.transport.counter b' ≤
        Function.update m.transport.counter b (m.transport.counter b + 1) b'
      by_cases hb : b' = b
      · rw [hb, Function.update_self]
        exact Nat.le_succ _
      · rw [Function.update_of_ne hb]
    · cases b with
      | false => exact ⟨rfl, rfl, rfl, rfl, fun b => by cases b <;> rfl, rfl⟩
      | true => exact ⟨rfl, rfl, rfl, rfl, fun b => by cases b <;> rfl, rfl⟩
  | sent q hstream hroom' hq =>
    exact ⟨_, _, @Spoke.sent m m _ _ _ b q (.refl m) hstream hcount rfl hq rfl rfl, .inr rfl⟩

/-- What a callback says: nothing, unless the session streams. -/
def Tells (m m' : SessionModel) : Prop :=
  ∃ l k, Spoke m m' l k ∧ Settles m m' ∧ (m.state ≠ .streaming → k = m.transport.counter)

theorem Speaks.tells (h : Speaks (m.state = .streaming) m m') (hroom : m.Roomy) : Tells m m' := by
  obtain ⟨l, k, hspoke, hmute⟩ := h.spoke hroom
  exact ⟨l, k, hspoke, h.settles, hmute⟩

theorem disconnect_tells (hroom : m.Roomy) : Tells m m.disconnect := by
  unfold disconnect
  dsimp only
  split
  · rename_i hstreaming
    have hsends := send_sends { m with
      wantsConnection := false, reconnectTask := false, timeoutTask := false, timer := false }
      (⟨0⟩ : SessionStop) false
    obtain ⟨l, k, hspoke, -⟩ := hsends.spoke hroom
    generalize SessionModel.send _ (⟨0⟩ : SessionStop) false = r at hspoke
    have hr : (r.catching fun m _ => m) = r.1 := by
      obtain ⟨m', e | ⟨⟩⟩ := r <;> rfl
    rw [hr]
    refine ⟨_, k, .after (.assigned hspoke unsaid_nil (List.append_nil _).symm ?_ ?_) unsaid_nil
      (List.append_nil _).symm rfl rfl, .inr ⟨nofun, nofun⟩, fun hn => absurd hstreaming hn⟩
    · rfl
    · rfl
  · exact ⟨_, _, .assigned (.refl m) unsaid_nil (List.append_nil _).symm rfl rfl,
      .inr ⟨nofun, nofun⟩, fun _ => rfl⟩

theorem connect_tells (hroom : m.Roomy) (env : Moment) (host : DiscoveredHost) :
    Tells m (m.connect env host) := by
  obtain ⟨l, k, hspoke, hsettles, hmute⟩ := disconnect_tells hroom
  unfold connect
  dsimp only
  split
  · exact ⟨l, k, hspoke, hsettles, hmute⟩
  generalize hm' : ({ m.disconnect with
    host := some host, wantsConnection := true, foreground := true, reconnectAttempt := 0 } :
      SessionModel) = m'
  have hassigned : Spoke m m' (l ++ []) k :=
    hspoke.assigned unsaid_nil (by rw [← hm', List.append_nil]) (by rw [← hm']) (by rw [← hm']; rfl)
  rcases openConnection_closes m' env with heq | ⟨hclosed, hlog, hstate⟩
  · rw [heq]
    refine ⟨_, k, hassigned, ?_, hmute⟩
    rw [← hm']
    exact hsettles
  · exact ⟨_, k, hassigned.closed hclosed hlog, .inr hstate, hmute⟩

theorem forgetHost_tells (hroom : m.Roomy) (env : Moment) : Tells m (m.forgetHost env) := by
  unfold forgetHost
  dsimp only
  split
  · rename_i host _
    obtain ⟨l, k, hspoke, hsettles, hmute⟩ := @disconnect_tells { m with
      keychain := if env.keychain then Function.update m.keychain host.id none else m.keychain
      log := m.log ++ [Effect.forgot host.id] } hroom
    have hforgot : Unsaid [Effect.forgot host.id] := fun b => rfl
    refine ⟨_, k, .assigned (.after hspoke hforgot rfl rfl rfl) unsaid_nil
      (List.append_nil _).symm rfl rfl, hsettles, hmute⟩
  · obtain ⟨l, k, hspoke, hsettles, hmute⟩ := disconnect_tells hroom
    exact ⟨_, k, hspoke.assigned unsaid_nil (List.append_nil _).symm rfl rfl, hsettles, hmute⟩

/-- The callbacks but for control packets, and those that set up the connection. -/
def Ordinary : Event → Prop
  | .pair _ => False
  | .controlReady => False
  | .received (.ok _) => False
  | _ => True

theorem step_tells (crypto : Crypto) {e : Moment × Event} (he : Ordinary e.2) (hroom : m.Roomy) :
    Tells m (step crypto m e) := by
  obtain ⟨env, event⟩ := e
  have hrefl : Tells m m := Speaks.tells (.refl m) hroom
  have hstill (t : Transport) (h : (t.epoch, t.session, t.reading, t.input, t.controlSequence,
      t.inputSequence) = (m.transport.epoch, m.transport.session, m.transport.reading,
        m.transport.input, m.transport.controlSequence, m.transport.inputSequence)) :
      Tells m { m with transport := t } := by
    simp only [Prod.mk.injEq] at h
    obtain ⟨hepoch, hsession, hreading, hinput, hcontrol, hinputs⟩ := h
    refine ⟨[], _, ⟨(List.append_nil _).symm, (Spoke.refl m).ascends, nofun, .inl ?_⟩, .inl rfl,
      fun _ => rfl⟩
    refine ⟨hepoch, hsession, hreading, hinput, fun b => ?_, rfl⟩
    cases b with
    | false => exact hcontrol
    | true => exact hinputs
  cases event with
  | connect host => exact connect_tells hroom env host
  | disconnect => exact disconnect_tells hroom
  | forgetHost => exact forgetHost_tells hroom env
  | pair code => exact he.elim
  | input event => exact (input_speaks id event).tells hroom
  | sceneActive active => exact (sceneActive_speaks m env active).tells hroom
  | orientationChanged => exact (orientationChanged_speaks m env).tells hroom
  | certificate certificate =>
    dsimp only [step]
    split
    · exact (verifyCertificate_speaks m certificate).tells hroom
    · exact hrefl
  | groupReady =>
    dsimp only [step]
    split
    · exact hstill _ rfl
    · exact hrefl
  | controlReady => exact he.elim
  | received result =>
    dsimp only [step]
    split
    · exact hrefl
    · cases result with
      | ok ps => exact he.elim
      | error error => exact (fail_speaks m _).tells hroom
  | datagram data =>
    dsimp only [step]
    split
    · exact hrefl
    split
    · exact (fail_speaks m _).tells hroom
    · exact (catching_fail_speaks (datagram_speaks id env data)).tells hroom
  | sendCompleted => exact hstill _ rfl
  | transportFailed =>
    dsimp only [step]
    split
    · exact (fail_speaks m _).tells hroom
    · exact hrefl
  | decoded index ok =>
    dsimp only [step]
    split
    · refine Speaks.tells (.after (requestKeyframe_speaks ?_ _ _) rfl rfl (.inl rfl)) hroom
      exact id
    · exact Speaks.tells (.same rfl rfl (.inl rfl)) hroom
  | tick =>
    dsimp only [step]
    split
    · exact (tick_speaks id env).tells hroom
    · exact hrefl
  | graceElapsed =>
    dsimp only [step]
    split
    · exact Speaks.tells (.one (.closed ⟨Nat.lt_succ_self _, rfl, rfl⟩ rfl (.inl rfl))) hroom
    · exact hrefl
  | reconnectDue =>
    dsimp only [step]
    split
    · exact Speaks.tells (.after (openConnection_speaks _ env) rfl rfl (.inl rfl)) hroom
    · exact hrefl
  | timeoutDue =>
    dsimp only [step]
    split
    · split
      · exact Speaks.tells (.same rfl rfl (.inl rfl)) hroom
      · exact Speaks.tells (.after (failed_speaks _ _) rfl rfl (.inl rfl)) hroom
    · exact hrefl

end SessionModel
end Ipad
end SidecarDOS
