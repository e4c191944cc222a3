/-
# One connection between client and host

The client's session and the host's tasks, joined by the streams of one connection: the
control stream in both directions, and the client's input stream.  The streams are reliable
and in order; what was written and not yet read is in `up`, `input` and `down`.  The connection
begins with the client's `open()`.  The host may serve others before it accepts it and
when it is over.

`Fits` and `Passes` are the checks of the two sides on the packet that comes next; the connection
is `Accepted` when every packet in front of its reader passes.
-/

import SidecarDOS.Client.Setup
import SidecarDOS.Host.Modes
import SidecarDOS.Host.Numbers
import SidecarDOS.Pairing.StoredSecrets

namespace SidecarDOS
namespace Connection

open Library (exec)
open Ipad (SessionModel TrustStore.code)
open StoredSecrets (toHost)

/-- Where the host is with the connection. -/
inductive Attempt where
  /-- It has not accepted it. -/
  | waiting
  | hello
  | answer (w : Host.Awaiting)
  /-- `session` has it. -/
  | running
  | ended
  deriving DecidableEq

structure World where
  client : SessionModel
  /-- The client's epoch while the connection is open. -/
  epoch : ℕ
  /-- `authenticate`, and the `Control` that `session` takes over. -/
  auth : Host.AuthState
  host : Host.Runtime
  attempt : Attempt := .waiting
  /-- The host's task that reads the input stream. -/
  task : Option ℕ := none
  up : List Ipad.Packet := []
  input : List Ipad.Packet := []
  down : List Host.Packet := []
  /-- The user has entered a code. -/
  submitted : Bool := false

inductive Action where
  /-- A callback of the client other than a control packet. -/
  | client (e : Ipad.Moment × SessionModel.Event)
  /-- The next control packet arrives at the client; a chunk of several is as good as
  several chunks (`received_append`). -/
  | deliver (env : Ipad.Moment)
  /-- The host accepts the connection. -/
  | accept (identity : Host.Identity)
  /-- The next control packet arrives at the host. -/
  | serve (draws : Host.Draws) (wake : Host.Wake)
  /-- The next input packet arrives at the host. -/
  | input (wake : Host.Wake)
  /-- Anything else that wakes the host's tasks. -/
  | host (e : Host.Wake × Host.RuntimeEvent)
  /-- The authentication takes too long, or the host exits. -/
  | giveUp

/-! ### The client -/

/-- The connection is open at the client. -/
def World.Open (s : World) : Prop := s.client.transport.epoch = s.epoch

instance (s : World) : Decidable s.Open := inferInstanceAs (Decidable (_ = _))

/-- What the client has written on a stream since its log was `log`. -/
def wrote (isInput : Bool) (log : List Ipad.Effect) (m : SessionModel) : List Ipad.Packet :=
  Ipad.said isInput (m.log.drop log.length)

/-- The callback enters a code. -/
def enters : SessionModel.Event → Bool
  | .pair code => (TrustStore.code code).isOk
  | _ => false

def callback (crypto : Crypto) (s : World) (e : Ipad.Moment × SessionModel.Event) : World :=
  let m := s.client.step crypto e
  if s.Open then { s with
    client := m
    up := s.up ++ wrote false s.client.log m
    input := s.input ++ wrote true s.client.log m
    submitted := s.submitted || enters e.2 }
  else { s with client := m }

/-! ### The host -/

open Host.Auth in
/-- `session`, up to the modes of the client's display. -/
def onCapabilities (fps : UInt32) (p : Host.Packet) : Host.Auth (List DisplayMode) := do
  receive p
  let capabilities ← lift (p.message DisplayCapabilities)
  lift (Host.modes capabilities fps)

/-- `session` has not returned. -/
def Serves : Host.Phase → Bool
  | .greeting _ => true
  | .session _ => true
  | _ => false

/-- The input task that an event may end. -/
def target : Host.RuntimeEvent → Option ℕ
  | .input i _ => some i
  | .dropped i => some i
  | _ => none

/-- Where the connection's input task is behind an event: it is the newest one, or has moved
up behind one that has ended. -/
def tracked (s : World) (e : Host.RuntimeEvent) (host : Host.Runtime) : Option ℕ :=
  if s.attempt = .running ∧ s.host.inputs.length < host.inputs.length then
    some s.host.inputs.length
  else if host.inputs.length < s.host.inputs.length then
    match target e, s.task with
    | some j, some i => if j = i then none else some (if j < i then i - 1 else i)
    | _, task => task
  else s.task

/-- The host's tasks wake; while `session` has the connection, they write on it. -/
def woken (s : World) (e : Host.Wake × Host.RuntimeEvent) : World :=
  let host := s.host.step e
  { s with
    host := host
    task := tracked s e.2 host
    down := if s.attempt = .running then s.down ++ host.sent.drop s.host.sent.length else s.down
    attempt := if s.attempt = .running ∧ ¬ Serves host.run then .ended else s.attempt }

/-- What the host has written in an attempt since its log was `log`. -/
def answered (log : List Host.Effect) (auth : Host.AuthState) : List Host.Packet :=
  Host.packets (auth.log.drop log.length)

/-- The host has read the control packet `p`. -/
def served (crypto : Crypto) (s : World) (draws : Host.Draws) (wake : Host.Wake)
    (p : Host.Packet) : World :=
  match s.attempt with
  | .hello =>
    let out := exec (Host.onHello draws p) s.auth
    let s := { s with auth := out.2, down := s.down ++ answered s.auth.log out.2 }
    match out.1 with
    | .ok w => { s with attempt := .answer w }
    | .error _ => { s with attempt := .ended }
  | .answer w =>
    let out := exec (Host.onAnswer crypto draws w p) s.auth
    let s := { s with auth := out.2, down := s.down ++ answered s.auth.log out.2 }
    match out.1 with
    | .ok (id, _) => woken { s with attempt := .running } (wake, .incoming (.authenticated id))
    | .error _ => { s with attempt := .ended }
  | .running =>
    match s.host.run with
    | .greeting _ =>
      let out := exec (onCapabilities s.host.config.video.fps p) s.auth
      woken { s with auth := out.2 } (wake, .capabilities out.1)
    | _ => woken s (wake, .packet (some (.ok p)))
  | _ => s

/-! ### The connection -/

def step (crypto : Crypto) (s : World) : Action → World
  | .client e => callback crypto s e
  | .deliver env =>
    match s.down with
    | [] => s
    | p :: rest =>
      if s.Open ∧ s.client.transport.reading then
        callback crypto { s with down := rest } (env, .received (.ok [p.toIpad]))
      else s
  | .accept identity =>
    match s.attempt, s.host.run with
    | .waiting, .accepting => { s with auth := { identity := identity }, attempt := .hello }
    | _, _ => s
  | .serve draws wake =>
    match s.up with
    | [] => s
    | p :: rest =>
      if s.attempt = .waiting ∨ s.attempt = .ended then s
      else match toHost p with
        | some p => served crypto { s with up := rest } draws wake p
        | none => s
  | .input wake =>
    match s.input, s.task with
    | p :: rest, some i =>
      match toHost p with
      | some p => woken { s with input := rest } (wake, .input i (.ok p))
      | none => s
    | _, _ => s
  | .host e => woken s e
  | .giveUp =>
    match s.attempt with
    | .hello => { s with attempt := .ended }
    | .answer _ => { s with attempt := .ended }
    | _ => s

/-- The number of the last packet of the loop of `session`. -/
def counter : Host.Phase → ℕ
  | .session σ => σ.sequence.toNat
  | _ => 0

/-- A QUIC stream carries less than 2^62 bytes, and so fewer packets. -/
def Room (s : World) : Prop :=
  s.client.transport.controlSequence < 2 ^ 62 ∧ s.client.transport.inputSequence < 2 ^ 62 ∧
    counter s.host.run < 2 ^ 62

instance (s : World) : Decidable (Room s) := inferInstanceAs (Decidable (_ ∧ _ ∧ _))

/-- What the platform and the user do: packets come from the other side alone, a code is entered
once and where the view asks for one, the token that the host draws is not zero, and the host
serves one connection at a time. -/
def Allowed (s : World) : Action → Prop
  | .client (_, .received (.ok _)) => ¬ s.Open
  | .client (_, .pair _) => s.Open → s.client.state = .pairing ∧ s.submitted = false
  | .serve _ wake => wake.token ≠ .zero
  | .host (_, .input i (.ok _)) => s.task ≠ some i
  | .host (_, .incoming _) => s.attempt = .waiting ∨ s.attempt = .ended
  | .host (_, .capabilities (.ok _)) => s.attempt = .waiting ∨ s.attempt = .ended
  | .host (_, .packet (some (.ok _))) => s.attempt = .waiting ∨ s.attempt = .ended
  | _ => True

def Admits (s : World) (a : Action) : Prop := Room s ∧ Allowed s a

/-- The client has just opened the connection, and the host has not accepted it. -/
structure Init (s : World) : Prop where
  client : ∃ (m : SessionModel) (env : Ipad.Moment),
    (m.wantsConnection = true ∧ m.foreground = true ∧ m.host ≠ none ∧ env.keychain = true) ∧
      s.client = m.openConnection env
  epoch : s.epoch = s.client.transport.epoch
  fresh : s = { client := s.client, epoch := s.epoch, auth := s.auth, host := s.host }

/-! ### The checks -/

/-- The sequence and session checks of `packet(_:)`. -/
def Fits (m : SessionModel) (p : Ipad.Packet) : Prop :=
  p.sequence.toNat > m.lastSequence ∧
    if p.kind = Ipad.WireMessage.kind SessionStart then
      m.configured = true ∧ p.session.length = 16 ∧ p.session ≠ List.replicate 16 0
    else p.session = m.transport.session

/-- The replay guard and the token check of the host's next read on the control stream. -/
def Passes (s : World) (p : Host.Packet) : Prop :=
  match s.attempt, s.host.run with
  | .waiting, _ => True
  | .ended, _ => True
  | .running, .session σ => p.sequence.toNat > σ.guard ∧ p.session = σ.token
  | _, _ => p.sequence.toNat > s.auth.control.guard ∧ p.session = s.auth.control.session

/-- Every packet in front of its reader passes the reader's checks. -/
structure Accepted (s : World) : Prop where
  down : s.Open → ∀ p rest, s.down = p :: rest → Fits s.client p.toIpad
  up : ∀ p rest, s.up = p :: rest → ∃ q, toHost p = some q ∧ Passes s q
  input : ∀ p rest, s.input = p :: rest → ∃ q, toHost p = some q ∧
    ∀ i task, s.task = some i → s.host.inputs[i]? = some task →
      q.sequence.toNat > task.guard ∧ q.session = task.token

end Connection
end SidecarDOS
