/-
# The host's side of authentication

`authenticate` of `windows/host/src/app/runtime.rs` with the `Identity` of
`windows/host/src/pairing/mod.rs`.  The task is cut where it waits for a packet:
`onHello` runs from the client's first packet to the wait for its second one,
`onAnswer` from there to the end.  A stretch is a computation that keeps its
state when it fails (`Auth`), because what was sent and stored before a `?` is
sent and stored.  `log` lists what others can see or that lasts.
-/

import SidecarDOS.Library.Stateful
import SidecarDOS.Pairing.Proof
import Mathlib.Data.List.AList

namespace SidecarDOS
namespace Host

/-- `Identity`, without the TLS key; `file` is what the last successful `save`
wrote. -/
structure Identity where
  hostId : Bytes
  cert : Bytes
  devices : AList (fun _ : Bytes => Bytes) := ∅
  file : AList (fun _ : Bytes => Bytes) := ∅

namespace Identity

def trusted (identity : Identity) (id : Bytes) : Option Bytes := identity.devices.lookup id

/-- `trust`; `written` tells whether the file can be written. -/
def trust (identity : Identity) (id key : Bytes) (written : Bool) : Except Error Unit × Identity :=
  if ¬ identity.devices.keys.length < 64 then
    (.error (.ensure "trusted device limit reached"), identity)
  else
    let identity := { identity with devices := identity.devices.insert id key }
    if written then (.ok (), { identity with file := identity.devices })
    else (.error (.ensure "device identities could not be written"), identity)

def forgetAll (identity : Identity) (written : Bool) : Except Error Unit × Identity :=
  let identity := { identity with devices := ∅ }
  if written then (.ok (), { identity with file := identity.devices })
  else (.error (.ensure "device identities could not be written"), identity)

variable (identity : Identity) (id key : Bytes) (written : Bool)

@[simp] theorem trust_cert : (identity.trust id key written).2.cert = identity.cert := by
  unfold trust
  split
  · rfl
  · cases written <;> rfl

@[simp] theorem forgetAll_cert : (identity.forgetAll written).2.cert = identity.cert := by
  cases written <;> rfl

/-- `trust` records the secret unless 64 devices are known already; a failed write
does not take it back. -/
theorem trust_trusted (id' : Bytes) : (identity.trust id key written).2.trusted id' =
    if identity.devices.keys.length < 64 ∧ id' = id then some key else identity.trusted id' := by
  unfold trust trusted
  by_cases hroom : identity.devices.keys.length < 64
  · by_cases hid : id' = id
    · subst hid
      cases written <;> simp [hroom, AList.lookup_insert]
    · cases written <;> simp [hroom, hid, AList.lookup_insert_ne]
  · simp [hroom]

theorem trust_of_full (h : ¬ identity.devices.keys.length < 64) :
    (identity.trust id key written).2 = identity := by
  rw [trust, if_pos h]

theorem room_of_trust_ok (h : (identity.trust id key written).1 = .ok ()) :
    identity.devices.keys.length < 64 := by
  by_contra hroom
  simp [trust, hroom] at h

@[simp] theorem forgetAll_trusted (id' : Bytes) :
    (identity.forgetAll written).2.trusted id' = none := by
  cases written <;> rfl

end Identity

/-- `Control`: the counters and the token of the control stream. -/
structure Control where
  sequence : ℕ := 0
  guard : ℕ := 0
  session : Id16 := .zero

/-- What the host did: a packet sent, a code shown, a proof computed with a key,
a device trusted. -/
inductive Effect where
  | sent (packet : Packet)
  | shown (name : String) (code : Bytes)
  | proved (key client nonce : Bytes)
  | trusted (id : Id16) (secret : Bytes)

/-- The state of the task. -/
structure AuthState where
  identity : Identity
  control : Control := {}
  log : List Effect := []

/-- A stretch of the task: it may fail and keeps its state. -/
abbrev Auth (α : Type) : Type := ExceptT Error (StateM AuthState) α

/-- What the platform answers during one stretch: whether the `n`-th write on
the connection succeeds, the random bytes drawn, the computer's name, and
whether the identity file can be written. -/
structure Draws where
  link : ℕ → Bool := fun _ => true
  code : Bytes := List.replicate 16 0
  nonce : Bytes := List.replicate 32 0
  secret : Bytes := List.replicate 32 0
  code_length : code.length = 16 := by rfl
  nonce_length : nonce.length = 32 := by rfl
  secret_length : secret.length = 32 := by rfl
  computerName : String := "Windows PC"
  written : Bool := true

/-- One code, and a nonce and a secret for each `n`. -/
def Draws.sample (n : UInt8) : Draws where
  code := List.replicate 16 17
  nonce := List.replicate 32 n
  secret := List.replicate 32 n

namespace Auth

def check (cond : Prop) [Decidable cond] (text : String) : Auth Unit :=
  Library.demand cond (.ensure text)

def emit (e : Effect) : Auth Unit := modify fun s => { s with log := s.log ++ [e] }

/-- A computation that keeps no state, as part of a stretch. -/
def lift {α : Type} : Except Error α → Auth α
  | .ok a => pure a
  | .error e => throw e

/-- `control.send`. -/
def send {T : Type} [Wire T] (draws : Draws) (v : T) : Auth Unit := do
  modify fun s => { s with control := { s.control with sequence := s.control.sequence + 1 } }
  let control := (← get).control
  let packet := Packet.new v (UInt64.ofNat control.sequence) control.session
  check (packet.encode.length ≤ MAX_CONTROL) "control too large"
  if ¬ draws.link control.sequence then throw .connection
  emit (.sent packet)

/-- `control.receive`, behind the read of a packet. -/
def receive (p : Packet) : Auth Unit := do
  check (p.sequence.toNat > (← get).control.guard) "replayed or out-of-order reliable message"
  modify fun s => { s with control := { s.control with guard := p.sequence.toNat } }
  check (p.session = (← get).control.session) "session mismatch"

/-- `identity.trust`. -/
def trust (draws : Draws) (id : Id16) (key : Bytes) : Auth Unit := do
  emit (.trusted id key)
  let out := (← get).identity.trust id.bytes key draws.written
  modify fun s => { s with identity := out.2 }
  lift out.1

end Auth

/-- `negotiate`. -/
def negotiate (min max _minor : UInt8) : Except Error (UInt8 × UInt8) :=
  if min > MAJOR ∨ max < MAJOR ∨ min > max then .error (.ensure "no compatible protocol version")
  else .ok (MAJOR, MINOR)

/-- The local variables of `authenticate` while it waits for the client's answer. -/
structure Awaiting where
  id : Id16
  name : String
  key : Bytes
  isNew : Bool
  nonce : Bytes
  deriving DecidableEq

open Auth in
/-- `authenticate`, from the client's `Handshake` to the wait for its answer. -/
def onHello (draws : Draws) (p : Packet) : Auth Awaiting := do
  receive p
  let hello ← lift (p.message Handshake)
  check (hello.clientId.length = 16 ∧ (utf8 hello.name).length ≤ 128) "invalid client identity"
  let id ← match Id16.ofBytes hello.clientId with
    | some id => pure id
    | none => throw (.ensure "could not convert slice to array")
  let (major, minor) ← lift (negotiate hello.minMajor hello.maxMajor hello.minor)
  send draws (⟨major, minor⟩ : ProtocolVersion)
  send draws (⟨(← get).identity.hostId, draws.computerName⟩ : HostInfo)
  check (hello.trusted ≤ 1) "invalid pairing state"
  let identity := (← get).identity
  let trusted := if hello.trusted = 1 then identity.trusted id.bytes else none
  let isNew := trusted.isNone
  let key := trusted.getD draws.code
  if isNew then emit (.shown hello.name key)
  send draws (⟨if isNew then 0 else 1, draws.nonce, [], []⟩ : Pairing)
  return ⟨id, hello.name, key, isNew, draws.nonce⟩

open Auth in
/-- `authenticate`, from the client's answer to the end. -/
def onAnswer (crypto : Crypto) (draws : Draws) (w : Awaiting) (p : Packet) :
    Auth (Id16 × String) := do
  receive p
  let answer ← lift (p.message Pairing)
  check (answer.phase = 2 ∧ answer.nonce = w.nonce ∧ answer.secret = []) "unexpected pairing response"
  let cert := (← get).identity.cert
  lift (verify crypto w.key cert w.id.bytes w.nonce 1 answer.proof)
  let secret := if w.isNew then draws.secret else w.key
  if w.isNew then trust draws w.id secret
  emit (.proved w.key w.id.bytes w.nonce)
  send draws (⟨3, w.nonce, proof crypto w.key cert w.id.bytes w.nonce 2,
    if w.isNew then secret else []⟩ : Pairing)
  return (w.id, w.name)

end Host
end SidecarDOS
