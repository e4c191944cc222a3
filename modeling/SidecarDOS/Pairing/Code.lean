/-
# The pairing code

A Swift string is a collection of characters, and a character a cluster of Unicode scalars; what
`code` takes from Unicode is a `Unicode`.  `Unicode.code` is `TrustStore.code` for any string; it
drops, counts and pairs characters, and parses the pairs as `UInt8(_:radix:)` does.  That
takes a sign.  The minus sign is dropped before, but a plus sign may stand in the place of
a zero, so a code is accepted that is not the hexadecimal code of any key; without one the parser
accepts exactly the codes of 16 bytes (`code_exact_iff`).
-/

import SidecarDOS.Pairing.Proof
import Mathlib.Tactic.IntervalCases

namespace SidecarDOS
namespace Ipad
namespace TrustStore

/-! ### Digits -/

/-- The digit of a value in `hex::encode`. -/
def hexChar (v : ℕ) : Char := if v < 10 then Char.ofNat (0x30 + v) else Char.ofNat (0x57 + v)

/-- `hex::encode`. -/
def encode (k : Bytes) : List Char :=
  k.flatMap fun b => [hexChar (b.toNat / 16), hexChar (b.toNat % 16)]

def IsHex (c : Char) : Prop := (hexDigit c).isSome = true

instance : DecidablePred IsHex := fun c => inferInstanceAs (Decidable ((hexDigit c).isSome = true))

/-- A sign or a digit. -/
def IsToken (c : Char) : Prop := IsHex c ∨ c = '+' ∨ c = '-'

theorem hexDigit_eq {c : Char} {v : ℕ} (h : hexDigit c = some v) :
    v < 16 ∧ c.toNat < 128 ∧ c.toLower = hexChar v := by
  unfold hexDigit at h
  have hc := Char.ofNat_toNat c
  dsimp only at h
  generalize c.toNat = n at h hc
  subst hc
  split at h
  · rename_i hn
    obtain ⟨hlow, hhigh⟩ := hn
    obtain rfl := Option.some.inj h
    interval_cases n <;> decide
  split at h
  · rename_i hn
    obtain ⟨hlow, hhigh⟩ := hn
    obtain rfl := Option.some.inj h
    interval_cases n <;> decide
  split at h
  · rename_i hn
    obtain ⟨hlow, hhigh⟩ := hn
    obtain rfl := Option.some.inj h
    interval_cases n <;> decide
  · cases h

theorem hexDigit_hexChar {v : ℕ} (h : v < 16) : hexDigit (hexChar v) = some v := by
  interval_cases v <;> decide

theorem toLower_of_not_ascii {c : Char} (h : ¬ c.toNat < 128) : c.toLower = c := by
  refine dif_neg fun hc => h ?_
  have hle : c.toNat ≤ 'Z'.toNat := hc.2
  exact hle.trans_lt (by decide)

/-- The case of a letter does not matter for what it is read as. -/
theorem hexDigit_toLower (c : Char) : hexDigit c.toLower = hexDigit c := by
  by_cases h : c.toNat < 128
  · have hascii : ∀ n < 128, hexDigit (Char.ofNat n).toLower = hexDigit (Char.ofNat n) := by decide
    simpa only [Char.ofNat_toNat] using hascii c.toNat h
  · rw [toLower_of_not_ascii h]

theorem toLower_eq_sign {c sign : Char} (hsign : sign = '+' ∨ sign = '-') :
    c.toLower = sign ↔ c = sign := by
  by_cases h : c.toNat < 128
  · have hascii : ∀ n < 128, ((Char.ofNat n).toLower = '+' ↔ Char.ofNat n = '+') ∧
        ((Char.ofNat n).toLower = '-' ↔ Char.ofNat n = '-') := by decide
    have hc := hascii c.toNat h
    rw [Char.ofNat_toNat] at hc
    obtain rfl | rfl := hsign
    · exact hc.1
    · exact hc.2
  · rw [toLower_of_not_ascii h]

theorem isToken_toLower (c : Char) : IsToken c.toLower ↔ IsToken c := by
  rw [IsToken, IsToken, IsHex, IsHex, hexDigit_toLower, toLower_eq_sign (.inl rfl),
    toLower_eq_sign (.inr rfl)]

theorem IsToken.ascii {c : Char} (h : IsToken c) : c.toNat < 128 ∧ c ≠ '\r' := by
  obtain h | rfl | rfl := h
  · obtain ⟨v, hv⟩ := Option.isSome_iff_exists.1 h
    exact ⟨(hexDigit_eq hv).2.1, fun heq => absurd (heq ▸ h) (by decide)⟩
  · decide
  · decide

theorem hexValue_digits {digits : List Char} {v : ℕ} (h : hexValue digits = some v) :
    ∀ c ∈ digits, IsHex c := by
  have hfold (digits : List Char) (v w : ℕ)
      (h : digits.foldlM (fun v c => (16 * v + ·) <$> hexDigit c) v = some w) :
      ∀ c ∈ digits, IsHex c := by
    induction digits generalizing v with
    | nil => exact nofun
    | cons c digits ih =>
      rw [List.foldlM_cons] at h
      obtain ⟨v', hv', h⟩ := Option.bind_eq_some_iff.1 h
      obtain ⟨n, hn, -⟩ := Option.map_eq_some_iff.1 hv'
      exact List.forall_mem_cons.2 ⟨by rw [IsHex, hn]; rfl, ih v' h⟩
  cases digits with
  | nil => cases h
  | cons c digits => exact hfold _ _ _ h

/-- Whatever is parsed consists of digits and a sign. -/
theorem byte_tokens {digits : List Char} {b : UInt8} (h : byte digits = some b) :
    ∀ c ∈ digits, IsToken c := by
  unfold byte at h
  split at h
  · obtain ⟨v, hv, -⟩ := Option.bind_eq_some_iff.1 h
    exact List.forall_mem_cons.2 ⟨.inr (.inl rfl), fun c hc => .inl (hexValue_digits hv c hc)⟩
  · obtain ⟨v, hv, -⟩ := Option.bind_eq_some_iff.1 h
    exact List.forall_mem_cons.2 ⟨.inr (.inr rfl), fun c hc => .inl (hexValue_digits hv c hc)⟩
  · obtain ⟨v, hv, -⟩ := Option.bind_eq_some_iff.1 h
    exact fun c hc => .inl (hexValue_digits hv c hc)

theorem byte_hex {c c' : Char} {v v' : ℕ} (h : hexDigit c = some v) (h' : hexDigit c' = some v') :
    byte [c, c'] = some (UInt8.ofNat (16 * v + v')) := by
  have hhex : IsHex c := by
    rw [IsHex, h]
    rfl
  have hplus : c ≠ '+' := fun heq => absurd (heq ▸ hhex) (by decide)
  have hminus : c ≠ '-' := fun heq => absurd (heq ▸ hhex) (by decide)
  have hv := (hexDigit_eq h).1
  have hv' := (hexDigit_eq h').1
  have hvalue : hexValue [c, c'] = some (16 * v + v') := by
    simp [hexValue, h, h']
  rw [byte]
  · rw [hvalue]
    exact if_pos (by omega)
  · simpa using hplus
  · simpa using hminus

theorem byte_plus {c : Char} {v : ℕ} (h : hexDigit c = some v) :
    byte ['+', c] = some (UInt8.ofNat v) := by
  have hv := (hexDigit_eq h).1
  have hvalue : hexValue [c] = some v := by
    simp [hexValue, h]
  rw [byte, hvalue]
  exact if_pos (by omega)

/-- Without a minus sign, a pair is parsed if it is two digits, or a plus sign and a digit. -/
theorem byte_isSome {c c' : Char} (hminus : c ≠ '-') :
    (∃ b, byte [c, c'] = some b) ↔ (IsHex c ∨ c = '+') ∧ IsHex c' := by
  constructor
  · rintro ⟨b, hb⟩
    unfold byte at hb
    split at hb
    · rename_i digits heq
      obtain ⟨rfl, rfl⟩ := List.cons.inj heq
      obtain ⟨v, hv, -⟩ := Option.bind_eq_some_iff.1 hb
      exact ⟨.inr rfl, hexValue_digits hv c' (List.mem_singleton.2 rfl)⟩
    · rename_i digits heq
      exact absurd (List.cons.inj heq).1 hminus
    · obtain ⟨v, hv, -⟩ := Option.bind_eq_some_iff.1 hb
      have hdigits := hexValue_digits hv
      exact ⟨.inl (hdigits c (by simp)), hdigits c' (by simp)⟩
  · rintro ⟨hc | rfl, hc'⟩
    · obtain ⟨v, hv⟩ := Option.isSome_iff_exists.1 hc
      obtain ⟨v', hv'⟩ := Option.isSome_iff_exists.1 hc'
      exact ⟨_, byte_hex hv hv'⟩
    · obtain ⟨v', hv'⟩ := Option.isSome_iff_exists.1 hc'
      exact ⟨_, byte_plus hv'⟩

/-- The loop over pairs ends with nothing left. -/
theorem eq_nil_of_short {α : Type} {t : List α} (hshort : ∀ c c' rest, t = c :: c' :: rest → False)
    (heven : t.length % 2 = 0) : t = [] := by
  cases t with
  | nil => rfl
  | cons c t =>
    cases t with
    | nil => exact absurd heven (by simp)
    | cons c' rest => exact absurd rfl (hshort c c' rest)

theorem even_rest {α : Type} {c c' : α} {rest : List α}
    (heven : (c :: c' :: rest).length % 2 = 0) : rest.length % 2 = 0 := by
  rw [List.length_cons, List.length_cons] at heven
  omega

theorem cons_map_eq_ok {ε : Type} {b : UInt8} {k : Bytes} {r : Except ε Bytes} :
    (b :: ·) <$> r = .ok k ↔ ∃ rest, r = .ok rest ∧ k = b :: rest := by
  cases r with
  | error e => exact iff_of_false nofun nofun
  | ok rest =>
    constructor
    · intro h
      exact ⟨rest, rfl, (Except.ok.inj h).symm⟩
    · rintro ⟨_, hrest, rfl⟩
      obtain rfl := Except.ok.inj hrest
      rfl

/-- Pairs of digits, the first of which may be a plus sign. -/
def Paired : List Char → Prop
  | c :: c' :: rest => ((IsHex c ∨ c = '+') ∧ IsHex c') ∧ Paired rest
  | [_] => False
  | [] => True

/-- What `pairs` accepts among lists of an even length. -/
theorem pairs_isOk {t : List Char} (hminus : '-' ∉ t) (heven : t.length % 2 = 0) :
    (∃ k, pairs t = .ok k) ↔ Paired t := by
  fun_induction pairs t with
  | case1 c c' rest b hb ih =>
    have hc : c ≠ '-' := fun heq => hminus (heq ▸ List.mem_cons_self)
    have hrest : '-' ∉ rest := fun hmem =>
      hminus (List.mem_cons_of_mem _ (List.mem_cons_of_mem _ hmem))
    rw [Paired, ← ih hrest (even_rest heven), ← byte_isSome hc, and_iff_right ⟨b, hb⟩]
    constructor
    · rintro ⟨k, hk⟩
      obtain ⟨k', hk', -⟩ := cons_map_eq_ok.1 hk
      exact ⟨k', hk'⟩
    · rintro ⟨k', hk'⟩
      exact ⟨_, cons_map_eq_ok.2 ⟨k', hk', rfl⟩⟩
  | case2 c c' rest hb =>
    have hc : c ≠ '-' := fun heq => hminus (heq ▸ List.mem_cons_self)
    rw [Paired, ← byte_isSome hc, hb]
    exact iff_of_false nofun nofun
  | case3 t hshort =>
    rw [eq_nil_of_short hshort heven]
    exact iff_of_true ⟨_, rfl⟩ trivial

theorem hexChar_inj {v v' : ℕ} (hv : v < 16) (hv' : v' < 16) (h : hexChar v = hexChar v') :
    v = v' := by
  have hdigit := hexDigit_hexChar hv
  rw [h, hexDigit_hexChar hv'] at hdigit
  exact (Option.some.inj hdigit).symm

/-- Two digits are the code of the byte that they are read as. -/
theorem eq_ofNat_iff {v v' : ℕ} (hv : v < 16) (hv' : v' < 16) (b : UInt8) :
    b = UInt8.ofNat (16 * v + v') ↔
      hexChar v = hexChar (b.toNat / 16) ∧ hexChar v' = hexChar (b.toNat % 16) := by
  have hnat : (UInt8.ofNat (16 * v + v')).toNat = 16 * v + v' := by
    rw [UInt8.toNat_ofNat']
    omega
  have hb := b.toNat_lt
  rw [← UInt8.toNat_inj, hnat]
  constructor
  · intro h
    exact ⟨congrArg hexChar (by omega), congrArg hexChar (by omega)⟩
  · rintro ⟨hhigh, hlow⟩
    have hhigh := hexChar_inj hv (by omega) hhigh
    have hlow := hexChar_inj hv' (by omega) hlow
    omega

/-- Digits are read as the bytes that they are the code of. -/
theorem pairs_encode {t : List Char} (hhex : ∀ c ∈ t, IsHex c) (heven : t.length % 2 = 0)
    (k : Bytes) : pairs t = .ok k ↔ t.map Char.toLower = encode k := by
  fun_induction pairs t generalizing k with
  | case1 c c' rest b hb ih =>
    obtain ⟨hc, hc', hrest⟩ := List.forall_mem_cons.1 hhex |>.imp_right List.forall_mem_cons.1
    obtain ⟨v, hv⟩ := Option.isSome_iff_exists.1 hc
    obtain ⟨v', hv'⟩ := Option.isSome_iff_exists.1 hc'
    obtain ⟨hlt, -, hlower⟩ := hexDigit_eq hv
    obtain ⟨hlt', -, hlower'⟩ := hexDigit_eq hv'
    obtain rfl := Option.some.inj ((byte_hex hv hv').symm.trans hb)
    rw [cons_map_eq_ok, List.map_cons, List.map_cons, hlower, hlower']
    cases k with
    | nil => exact iff_of_false (fun ⟨_, _, h⟩ => nomatch h) nofun
    | cons b k =>
      have hencode : encode (b :: k) = hexChar (b.toNat / 16) :: hexChar (b.toNat % 16) ::
        encode k := rfl
      rw [hencode, List.cons.injEq, List.cons.injEq, ← and_assoc, ← eq_ofNat_iff hlt hlt' b,
        ← ih hrest (even_rest heven) k]
      constructor
      · rintro ⟨k', hk', h⟩
        obtain ⟨hb, rfl⟩ := List.cons.inj h
        exact ⟨hb, hk'⟩
      · rintro ⟨rfl, hk⟩
        exact ⟨k, hk, rfl⟩
  | case2 c c' rest hb =>
    obtain ⟨hc, hc', -⟩ := List.forall_mem_cons.1 hhex |>.imp_right List.forall_mem_cons.1
    obtain ⟨v, hv⟩ := Option.isSome_iff_exists.1 hc
    obtain ⟨v', hv'⟩ := Option.isSome_iff_exists.1 hc'
    cases (byte_hex hv hv').symm.trans hb
  | case3 t hshort =>
    rw [eq_nil_of_short hshort heven]
    cases k with
    | nil => exact iff_of_true rfl rfl
    | cons b k => exact iff_of_false nofun nofun

theorem isHex_hexChar {v : ℕ} (h : v < 16) : IsHex (hexChar v) := by
  rw [IsHex, hexDigit_hexChar h]
  rfl

theorem toLower_hexChar {v : ℕ} (h : v < 16) : (hexChar v).toLower = hexChar v :=
  (hexDigit_eq (hexDigit_hexChar h)).2.2

theorem mem_encode {k : Bytes} {c : Char} (h : c ∈ encode k) : ∃ v < 16, c = hexChar v := by
  obtain ⟨b, -, hc⟩ := List.mem_flatMap.1 h
  have hb := b.toNat_lt
  obtain rfl | hc := List.mem_cons.1 hc
  · exact ⟨_, by omega, rfl⟩
  · exact ⟨_, by omega, List.mem_singleton.1 hc⟩

theorem length_encode (k : Bytes) : (encode k).length = 2 * k.length := by
  induction k with
  | nil => rfl
  | cons b k ih =>
    rw [encode, List.flatMap_cons, List.length_append, ← encode, ih, List.length_cons]
    simp only [List.length_cons, List.length_nil]
    omega

theorem lower_encode (k : Bytes) : (encode k).map Char.toLower = encode k := by
  refine (List.map_congr_left fun c hc => ?_).trans (List.map_id _)
  obtain ⟨v, hv, rfl⟩ := mem_encode hc
  exact toLower_hexChar hv

theorem lower_lower {t : List Char} (hhex : ∀ c ∈ t, IsHex c) :
    (t.map Char.toLower).map Char.toLower = t.map Char.toLower := by
  rw [List.map_map]
  refine List.map_congr_left fun c hc => ?_
  obtain ⟨v, hv⟩ := Option.isSome_iff_exists.1 (hhex c hc)
  obtain ⟨hlt, -, hlower⟩ := hexDigit_eq hv
  rw [Function.comp_apply, hlower, toLower_hexChar hlt]

theorem isHex_toLower {c : Char} : IsHex c.toLower ↔ IsHex c := by
  rw [IsHex, IsHex, hexDigit_toLower]

theorem paired_toLower (t : List Char) : Paired (t.map Char.toLower) ↔ Paired t := by
  fun_induction Paired t with
  | case1 c c' rest ih =>
    rw [List.map_cons, List.map_cons, Paired, isHex_toLower, isHex_toLower,
      toLower_eq_sign (.inl rfl), ih]
  | case2 c => rfl
  | case3 => rfl

theorem paired_of_hex {t : List Char} (hhex : ∀ c ∈ t, IsHex c) (heven : t.length % 2 = 0) :
    Paired t := by
  fun_induction Paired t with
  | case1 c c' rest ih =>
    obtain ⟨hc, hc', hrest⟩ := List.forall_mem_cons.1 hhex |>.imp_right List.forall_mem_cons.1
    rw [List.length_cons, List.length_cons] at heven
    exact ⟨⟨.inl hc, hc'⟩, ih hrest (by omega)⟩
  | case2 c => exact absurd heven (by simp)
  | case3 => trivial

theorem Paired.token {t : List Char} (h : Paired t) : ∀ c ∈ t, IsHex c ∨ c = '+' := by
  fun_induction Paired t with
  | case1 c c' rest ih =>
    exact List.forall_mem_cons.2 ⟨h.1.1, List.forall_mem_cons.2 ⟨.inl h.1.2, ih h.2⟩⟩
  | case2 c => exact h.elim
  | case3 => exact nofun

/-! ### Characters -/

/-- What Swift takes from Unicode: the extended grapheme clusters of a string, which are its
characters, and the lower case of a scalar. -/
structure Unicode where
  characters : List Char → List (List Char)
  lowercased : Char → List Char
  flatten_characters : ∀ string, (characters string).flatten = string
  ne_nil : ∀ string, ∀ c ∈ characters string, c ≠ []
  /-- ASCII scalars are characters of their own, but for a line break of two. -/
  ascii : ∀ string, ∀ c ∈ characters string, (∀ x ∈ c, x.toNat < 128 ∧ x ≠ '\r') → c.length = 1
  lowercased_ascii : ∀ x, x.toNat < 128 → lowercased x = [x.toLower]
  /-- Only ASCII letters become digits. -/
  lowercased_other : ∀ x, ¬ x.toNat < 128 → ∃ y ∈ lowercased x, ¬ IsToken y

namespace Unicode

/-- `Character.isWhitespace`: that of its first scalar. -/
def isWhitespace (c : List Char) : Bool := c.head?.any TrustStore.isWhitespace

/-- `string.filter { !$0.isWhitespace && $0 != "-" }`. -/
def filter (u : Unicode) (string : List Char) : List Char :=
  ((u.characters string).filter fun c => !isWhitespace c && c != ['-']).flatten

/-- The loop of `code` over pairs of characters. -/
def pairs : List (List Char) → Except TrustError Bytes
  | c :: c' :: rest =>
    match byte (c ++ c') with
    | some b => (b :: ·) <$> pairs rest
    | none => .error .invalidCode
  | _ => .ok []

/-- `code`. -/
def code (u : Unicode) (string : List Char) : Except TrustError Bytes :=
  let clean := u.characters ((u.filter string).flatMap u.lowercased)
  if clean.length = 32 then pairs clean else .error .invalidCode

/-- Every scalar a character. -/
def scalars : Unicode where
  characters string := string.map fun x => [x]
  lowercased x := [x.toLower]
  flatten_characters string := by
    rw [← List.flatMap_def, List.flatMap_singleton']
  ne_nil string c hc := by
    obtain ⟨x, -, rfl⟩ := List.mem_map.1 hc
    exact List.cons_ne_nil _ _
  ascii string c hc _ := by
    obtain ⟨x, -, rfl⟩ := List.mem_map.1 hc
    rfl
  lowercased_ascii _ _ := rfl
  lowercased_other x hx := by
    refine ⟨x, ?_, fun h => hx h.ascii.1⟩
    rw [toLower_of_not_ascii hx]
    exact List.mem_singleton.2 rfl

/-! ### Acceptance -/

variable {u : Unicode} {string : List Char}

/-- Signs and digits are characters of their own. -/
theorem characters_tokens {t : List Char} (ht : ∀ c ∈ t, IsToken c) :
    u.characters t = t.map fun x => [x] := by
  have hsingle : ∀ c ∈ u.characters t, ∃ x, c = [x] := by
    intro c hc
    refine List.length_eq_one_iff.1 (u.ascii t c hc fun x hx => (ht x ?_).ascii)
    rw [← u.flatten_characters t]
    exact List.mem_flatten_of_mem hc hx
  have hflatten (clusters : List (List Char)) (h : ∀ c ∈ clusters, ∃ x, c = [x]) :
      clusters = clusters.flatten.map fun x => [x] := by
    induction clusters with
    | nil => rfl
    | cons c clusters ih =>
      obtain ⟨x, rfl⟩ := h c List.mem_cons_self
      rw [List.flatten_cons, List.map_append,
        ← ih fun c hc => h c (List.mem_cons_of_mem _ hc)]
      rfl
  rw [hflatten _ hsingle, u.flatten_characters]

theorem pairs_singletons (t : List Char) :
    pairs (t.map fun x => [x]) = TrustStore.pairs t := by
  fun_induction TrustStore.pairs t with
  | case1 c c' rest b hb ih =>
    rw [List.map_cons, List.map_cons, pairs, List.singleton_append, hb, ih]
  | case2 c c' rest hb =>
    rw [List.map_cons, List.map_cons, pairs, List.singleton_append, hb]
  | case3 t hshort =>
    cases t with
    | nil => rfl
    | cons c t =>
      cases t with
      | nil => rfl
      | cons c' rest => exact absurd rfl (hshort c c' rest)

theorem filter_scalars (string : List Char) : scalars.filter string =
    string.filter fun c => !TrustStore.isWhitespace c && c != '-' := by
  induction string with
  | nil => rfl
  | cons c string ih =>
    have hcluster : (!isWhitespace [c] && [c] != ['-']) =
        (!TrustStore.isWhitespace c && c != '-') := by
      rw [bne, List.cons_beq_cons, beq_self_eq_true, Bool.and_true]
      rfl
    unfold filter scalars at ih ⊢
    dsimp only at ih ⊢
    rw [List.map_cons, List.filter_cons, List.filter_cons, hcluster]
    split
    · rw [List.flatten_cons, ih]
      rfl
    · exact ih

/-- `TrustStore.code` is the case in which every scalar is a character. -/
theorem code_scalars (string : String) : scalars.code string.toList = TrustStore.code string := by
  have hlower (t : List Char) : t.flatMap scalars.lowercased = t.map Char.toLower :=
    List.flatMap_pure_eq_map _ _
  have hcharacters (t : List Char) : scalars.characters t = t.map fun x => [x] := rfl
  rw [code, hlower, filter_scalars, hcharacters, List.length_map, pairs_singletons]
  rfl

/-- Whatever an even number of characters is parsed as consists of digits and signs. -/
theorem pairs_tokens {clusters : List (List Char)} {k : Bytes} (h : pairs clusters = .ok k)
    (heven : clusters.length % 2 = 0) : ∀ x ∈ clusters.flatten, IsToken x := by
  fun_induction pairs clusters generalizing k with
  | case1 c c' rest b hb ih =>
    obtain ⟨k', hk', -⟩ := cons_map_eq_ok.1 h
    rw [List.flatten_cons, List.flatten_cons, ← List.append_assoc]
    exact List.forall_mem_append.2 ⟨byte_tokens hb, ih hk' (even_rest heven)⟩
  | case2 c c' rest hb => cases h
  | case3 clusters hshort =>
    rw [eq_nil_of_short hshort heven]
    exact nofun

/-- Only a letter of ASCII becomes a digit. -/
theorem token_of_lowercased {x : Char} (h : ∀ y ∈ u.lowercased x, IsToken y) : IsToken x := by
  by_cases hx : x.toNat < 128
  · rw [u.lowercased_ascii x hx] at h
    exact (isToken_toLower x).1 (h _ (List.mem_singleton.2 rfl))
  · obtain ⟨y, hy, hnot⟩ := u.lowercased_other x hx
    exact absurd (h y hy) hnot

theorem lowercased_tokens {t : List Char} (ht : ∀ c ∈ t, IsToken c) :
    t.flatMap u.lowercased = t.map Char.toLower := by
  induction t with
  | nil => rfl
  | cons c t ih =>
    obtain ⟨hc, ht⟩ := List.forall_mem_cons.1 ht
    rw [List.flatMap_cons, List.map_cons, u.lowercased_ascii c hc.ascii.1, ih ht]
    rfl

/-- Signs and digits are parsed as `TrustStore.code` parses them. -/
theorem code_of_tokens (ht : ∀ c ∈ u.filter string, IsToken c) :
    u.code string = if (u.filter string).length = 32 then
      TrustStore.pairs ((u.filter string).map Char.toLower) else .error .invalidCode := by
  have hlower : ∀ c ∈ (u.filter string).map Char.toLower, IsToken c :=
    List.forall_mem_map.2 fun c hc => (isToken_toLower c).2 (ht c hc)
  rw [code, lowercased_tokens ht, characters_tokens hlower, List.length_map, List.length_map,
    pairs_singletons]

theorem tokens_of_code {k : Bytes} (h : u.code string = .ok k) :
    ∀ c ∈ u.filter string, IsToken c := by
  unfold code at h
  dsimp only at h
  split at h
  · rename_i hlength
    have htokens := pairs_tokens h (by rw [hlength])
    rw [u.flatten_characters] at htokens
    exact fun x hx =>
      token_of_lowercased fun y hy => htokens y (List.mem_flatMap.2 ⟨x, hx, hy⟩)
  · cases h

/-- The minus sign is dropped, unless it is part of a character that is no digit. -/
theorem minus_not_mem (ht : ∀ c ∈ u.filter string, IsToken c) : '-' ∉ u.filter string := by
  intro hmem
  obtain ⟨c, hc, hminus⟩ := List.mem_flatten.1 hmem
  obtain ⟨hmemc, hkept⟩ := List.mem_filter.1 hc
  have hlength := u.ascii string c hmemc fun x hx => (ht x (List.mem_flatten_of_mem hc hx)).ascii
  obtain ⟨x, rfl⟩ := List.length_eq_one_iff.1 hlength
  obtain rfl := List.mem_singleton.1 hminus
  exact absurd hkept (by simp)

theorem code_isOk :
    (∃ k, u.code string = .ok k) ↔ (u.filter string).length = 32 ∧ Paired (u.filter string) := by
  have hiff (ht : ∀ c ∈ u.filter string, IsToken c) (hlength : (u.filter string).length = 32) :
      (∃ k, u.code string = .ok k) ↔ Paired (u.filter string) := by
    have hminus : '-' ∉ (u.filter string).map Char.toLower := by
      intro hmem
      obtain ⟨c, hc, heq⟩ := List.mem_map.1 hmem
      obtain rfl := (toLower_eq_sign (.inr rfl)).1 heq
      exact minus_not_mem ht hc
    rw [code_of_tokens ht, if_pos hlength, pairs_isOk hminus, paired_toLower]
    rw [List.length_map, hlength]
  constructor
  · rintro ⟨k, hk⟩
    have ht := tokens_of_code hk
    have hlength : (u.filter string).length = 32 := by
      rw [code_of_tokens ht] at hk
      by_contra hne
      rw [if_neg hne] at hk
      cases hk
    exact ⟨hlength, (hiff ht hlength).1 ⟨k, hk⟩⟩
  · rintro ⟨hlength, hpaired⟩
    exact (hiff (fun c hc => (hpaired.token c hc).imp_right .inl) hlength).2 hpaired

/-- The bytes of a code of digits alone. -/
theorem code_eq_ok (hhex : ∀ c ∈ u.filter string, IsHex c)
    (hlength : (u.filter string).length = 32) (k : Bytes) :
    u.code string = .ok k ↔ (u.filter string).map Char.toLower = encode k := by
  have hlower : ∀ c ∈ (u.filter string).map Char.toLower, IsHex c :=
    List.forall_mem_map.2 fun c hc => isHex_toLower.2 (hhex c hc)
  rw [code_of_tokens fun c hc => .inl (hhex c hc), if_pos hlength, pairs_encode hlower,
    lower_lower hhex]
  rw [List.length_map, hlength]

/-- 32 hexadecimal digits of either case. -/
def HexCode (t : List Char) : Prop := t.length = 32 ∧ ∀ c ∈ t, IsHex c

/-- 32 characters that are parsed, among them a plus sign. -/
def Signed (t : List Char) : Prop := t.length = 32 ∧ Paired t ∧ '+' ∈ t

/-- `string` is accepted if it is the code of a key, and read as that key. -/
structure Exact (u : Unicode) (string : List Char) : Prop where
  accepts : (∃ k, u.code string = .ok k) ↔ HexCode (u.filter string)
  decodes : ∀ k, u.code string = .ok k ↔
    k.length = 16 ∧ (u.filter string).map Char.toLower = encode k
  encoded : ∀ k, k.length = 16 → u.filter string = encode k → u.code string = .ok k

/-- **The pairing code.**  A string is a key's code with whitespace and hyphens, and is then read
as this key, or it is rejected; but for a plus sign in the place of a zero. -/
theorem code_exact_iff (u : Unicode) (string : List Char) :
    Exact u string ↔ ¬ Signed (u.filter string) := by
  constructor
  · rintro hexact ⟨hlength, hpaired, hplus⟩
    have hhex := (hexact.accepts.1 (code_isOk.2 ⟨hlength, hpaired⟩)).2
    exact absurd (hhex '+' hplus) (by decide)
  · intro hsigned
    have haccepts : (∃ k, u.code string = .ok k) ↔ HexCode (u.filter string) := by
      rw [code_isOk]
      constructor
      · rintro ⟨hlength, hpaired⟩
        refine ⟨hlength, fun c hc => (hpaired.token c hc).resolve_right ?_⟩
        rintro rfl
        exact hsigned ⟨hlength, hpaired, hc⟩
      · rintro ⟨hlength, hhex⟩
        exact ⟨hlength, paired_of_hex hhex (by rw [hlength])⟩
    have hdecodes (k : Bytes) : u.code string = .ok k ↔
        k.length = 16 ∧ (u.filter string).map Char.toLower = encode k := by
      constructor
      · intro hk
        obtain ⟨hlength, hhex⟩ := haccepts.1 ⟨k, hk⟩
        have hencode := (code_eq_ok hhex hlength k).1 hk
        have hlength' := congrArg List.length hencode
        rw [List.length_map, length_encode] at hlength'
        exact ⟨by omega, hencode⟩
      · rintro ⟨hk, hencode⟩
        have hlength := congrArg List.length hencode
        rw [List.length_map, length_encode, hk] at hlength
        refine (code_eq_ok (fun c hc => ?_) hlength k).2 hencode
        have hmem : c.toLower ∈ encode k := hencode ▸ List.mem_map_of_mem hc
        obtain ⟨v, hv, heq⟩ := mem_encode hmem
        exact isHex_toLower.1 (heq ▸ isHex_hexChar hv)
    refine ⟨haccepts, hdecodes, fun k hk hfilter => (hdecodes k).2 ⟨hk, ?_⟩⟩
    rw [hfilter, lower_encode]

/-- A plus sign and a digit for each byte. -/
theorem signed_accepted :
    let string := (List.replicate 16 ['+', 'f']).flatten
    scalars.code string = .ok (List.replicate 16 0xf) ∧ ¬ Exact scalars string := by
  have hcode : scalars.code (List.replicate 16 ['+', 'f']).flatten =
      .ok (List.replicate 16 0xf) := by decide
  refine ⟨hcode, fun hexact => ?_⟩
  have hhex := (hexact.accepts.1 ⟨_, hcode⟩).2 '+' (by decide)
  exact absurd hhex (by decide)

end Unicode

end TrustStore
end Ipad
end SidecarDOS
