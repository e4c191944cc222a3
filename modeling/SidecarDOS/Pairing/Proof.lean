/-
# Pairing proofs

`proof` and `verify` of `windows/host/src/pairing/mod.rs` and of
`ipad/SidecarDOS/Pairing/TrustStore.swift`, and the code typed in by the user.
Both sides authenticate the same byte string, `proofInput`, which has no length
prefixes: its parts are told apart by their lengths, so it determines the role,
the certificate's hash, the client and the nonce (`proofInput_inj`).

SHA-256 and HMAC are those of CryptoKit and of the `sha2` and `hmac` crates;
here they are whatever `Crypto` says.
-/

import SidecarDOS.Protocol.Packet

namespace SidecarDOS

/-- The library functions behind `SHA256.hash` and `HMAC<SHA256>`. -/
structure Crypto where
  sha256 : Bytes → Bytes
  hmac : Bytes → Bytes → Bytes

/-- Functions for runs on fixed inputs: a tag shows its key and its input, and the
certificate `[1]` shares its hash with no other. -/
def Crypto.sample : Crypto where
  sha256 data := List.replicate 32 (if data = [1] then 1 else 0)
  hmac key input := key.flatMap (fun b => [1, b]) ++ 0 :: input

/-- `b"SidecarDOS pairing v1"`. -/
def proofLabel : Bytes := utf8 "SidecarDOS pairing v1"

/-- The byte string both sides authenticate. -/
def proofInput (crypto : Crypto) (certificate client nonce : Bytes) (role : UInt8) : Bytes :=
  proofLabel ++ [role] ++ crypto.sha256 certificate ++ client ++ nonce

theorem Crypto.sample_hmac_inj : ∀ {key key' input input' : Bytes},
    sample.hmac key input = sample.hmac key' input' → key = key' ∧ input = input'
  | [], [], _, _, h => ⟨rfl, (List.cons.inj h).2⟩
  | [], _ :: _, _, _, h => absurd (List.cons.inj h).1 (by decide)
  | _ :: _, [], _, _, h => absurd (List.cons.inj h).1 (by decide)
  | b :: key, b' :: key', input, input', h => by
    obtain ⟨hb, h⟩ := List.cons.inj (List.cons.inj h).2
    obtain ⟨hkey, hinput⟩ := sample_hmac_inj h
    exact ⟨by rw [hb, hkey], hinput⟩

/-- The input binds each of its parts, for nonces of one length. -/
theorem proofInput_inj {crypto : Crypto} {certificate certificate' client client' nonce nonce' : Bytes}
    {role role' : UInt8} (hash : ∀ data, (crypto.sha256 data).length = 32)
    (hnonce : nonce.length = nonce'.length)
    (h : proofInput crypto certificate client nonce role =
      proofInput crypto certificate' client' nonce' role') :
    role = role' ∧ crypto.sha256 certificate = crypto.sha256 certificate' ∧ client = client' ∧
      nonce = nonce' := by
  simp only [proofInput, List.append_assoc] at h
  have h₁ := List.append_cancel_left h
  obtain ⟨hrole, h₂⟩ := List.append_inj h₁ rfl
  obtain ⟨hcert, h₃⟩ := List.append_inj h₂ (by rw [hash, hash])
  obtain ⟨hclient, hnonce'⟩ := List.append_inj' h₃ hnonce
  exact ⟨(List.cons.inj hrole).1, hcert, hclient, hnonce'⟩

/-- The bounds of a `Pairing` message on the wire. -/
theorem valid_pairing (pair : Pairing) : (Schema.format Pairing).Valid pair ↔
    pair.nonce.length ≤ MAX_FRAME ∧ pair.proof.length ≤ MAX_FRAME ∧
      pair.secret.length ≤ MAX_FRAME := by
  simp [Schema.format, Record.format]

namespace Host

/-- `pairing::proof`. -/
def proof (crypto : Crypto) (key certificate client nonce : Bytes) (role : UInt8) : Bytes :=
  crypto.hmac key (proofInput crypto certificate client nonce role)

/-- `pairing::verify`; a tag of another length or value is a `MacError`. -/
def verify (crypto : Crypto) (key certificate client nonce : Bytes) (role : UInt8)
    (received : Bytes) : Except Error Unit :=
  if ¬ (client.length = 16 ∧ nonce.length = 32 ∧ key.length ≥ 16) then
    .error (.ensure "invalid authentication context")
  else if received = crypto.hmac key (proofInput crypto certificate client nonce role) then .ok ()
  else .error (.ensure "MAC tag mismatch")

theorem verify_eq_ok {crypto : Crypto} {key certificate client nonce received : Bytes}
    {role : UInt8} : verify crypto key certificate client nonce role received = .ok () ↔
      (client.length = 16 ∧ nonce.length = 32 ∧ key.length ≥ 16) ∧
        received = proof crypto key certificate client nonce role := by
  unfold verify proof
  split
  · rename_i h
    simp [h]
  · rename_i h
    rw [not_not] at h
    split
    · rename_i h'
      simp [h, h']
    · rename_i h'
      simp [h']

end Host

namespace Ipad

inductive TrustError where
  | keychain | invalidCode | invalidProof | certificateChanged
  deriving DecidableEq

structure TrustedHost where
  certificateHash : Bytes
  secret : Bytes
  hostID : Bytes
  deriving DecidableEq

namespace TrustStore

def proof (crypto : Crypto) (key certificate client nonce : Bytes) (role : UInt8) : Bytes :=
  crypto.hmac key (proofInput crypto certificate client nonce role)

def verify (crypto : Crypto) (received key certificate client nonce : Bytes) (role : UInt8) :
    Bool :=
  received = crypto.hmac key (proofInput crypto certificate client nonce role)

/-- `Character.isWhitespace`: the Unicode property White_Space. -/
def isWhitespace (c : Char) : Bool :=
  let n := c.toNat
  (0x9 ≤ n && n ≤ 0xd) || n = 0x20 || n = 0x85 || n = 0xa0 || n = 0x1680 ||
    (0x2000 ≤ n && n ≤ 0x200a) || n = 0x2028 || n = 0x2029 || n = 0x202f || n = 0x205f || n = 0x3000

def hexDigit (c : Char) : Option ℕ :=
  let n := c.toNat
  if 0x30 ≤ n ∧ n ≤ 0x39 then some (n - 0x30)
  else if 0x61 ≤ n ∧ n ≤ 0x66 then some (n - 0x61 + 10)
  else if 0x41 ≤ n ∧ n ≤ 0x46 then some (n - 0x41 + 10)
  else none

/-- The value of hexadecimal digits, most significant first; none for no digits. -/
def hexValue : List Char → Option ℕ
  | [] => none
  | digits => digits.foldlM (fun v c => (16 * v + ·) <$> hexDigit c) 0

/-- `UInt8(_:radix: 16)`: an optional sign and digits, in range. -/
def byte : List Char → Option UInt8
  | '+' :: digits => do
    let v ← hexValue digits
    if v < 256 then return UInt8.ofNat v else none
  | '-' :: digits => do
    let v ← hexValue digits
    if v = 0 then return 0 else none
  | digits => do
    let v ← hexValue digits
    if v < 256 then return UInt8.ofNat v else none

/-- The loop of `code` over pairs of characters. -/
def pairs : List Char → Except TrustError Bytes
  | c :: c' :: rest =>
    match byte [c, c'] with
    | some b => (b :: ·) <$> pairs rest
    | none => .error .invalidCode
  | _ => .ok []

/-- `code`, for a string as its characters.  Only ASCII letters have a lower case
that matters. -/
def code (string : String) : Except TrustError Bytes :=
  let clean := (string.toList.filter fun c => !isWhitespace c && c != '-').map Char.toLower
  if clean.length = 32 then pairs clean else .error .invalidCode

end TrustStore
end Ipad
end SidecarDOS
