/-
# The byte stream format of H.264

Annex B puts a start code of three or four bytes before every unit.  `split` scans for the
start codes and tells the units between them; `join` puts them together again.  Whatever
is split comes from its units (`join_split`), and units that neither contain a start code nor
end in zero are told apart exactly (`split_join`).  A unit that has been split off may end in
zeros: a start code of three bytes behind it takes the last one (`split_plain_append`).
-/

import Mathlib.Data.List.Basic
import Mathlib.Tactic.Basic

namespace SidecarDOS
namespace Library
namespace AnnexB

inductive Code where
  | three | four
  deriving DecidableEq

def Code.bytes : Code → List UInt8
  | .three => [0, 0, 1]
  | .four => [0, 0, 0, 1]

theorem Code.bytes_eq (c : Code) : ∃ r, c.bytes = 0 :: 0 :: r := by
  cases c with
  | three => exact ⟨[1], rfl⟩
  | four => exact ⟨[0, 1], rfl⟩

/-- What precedes the first start code, and every unit behind its start code. -/
def split : List UInt8 → List UInt8 × List (Code × List UInt8)
  | 0 :: 0 :: 1 :: rest => ([], (.three, (split rest).1) :: (split rest).2)
  | 0 :: 0 :: 0 :: 1 :: rest => ([], (.four, (split rest).1) :: (split rest).2)
  | b :: rest => (b :: (split rest).1, (split rest).2)
  | [] => ([], [])

def join (us : List (Code × List UInt8)) : List UInt8 := us.flatMap fun u => u.1.bytes ++ u.2

/-- No start code is in the unit. -/
def Plain (u : List UInt8) : Prop := ¬ [0, 0, 1] <:+: u

/-- A start code may follow the unit. -/
def Clean (u : List UInt8) : Prop := Plain u ∧ u.getLast? ≠ some 0

variable {u rest bytes : List UInt8} {us : List (Code × List UInt8)}

@[simp] theorem join_nil : join [] = [] := rfl

@[simp] theorem join_cons (c : Code) (u : List UInt8) (us : List (Code × List UInt8)) :
    join ((c, u) :: us) = c.bytes ++ (u ++ join us) := by
  rw [← List.append_assoc]
  rfl

theorem Plain.nil : Plain [] := by
  unfold Plain
  decide

theorem Plain.tail {b : UInt8} (h : Plain (b :: u)) : Plain u :=
  fun hu => h (hu.trans (List.suffix_cons b u).isInfix)

/-- No start code of three bytes is at the front of a plain unit. -/
theorem Plain.not_prefix (h : Plain u) : ¬ [0, 0, 1] <+: u := fun hu => h hu.isInfix

theorem split_three (rest : List UInt8) :
    split (0 :: 0 :: 1 :: rest) = ([], (.three, (split rest).1) :: (split rest).2) := by
  rw [split]

theorem split_four (rest : List UInt8) :
    split (0 :: 0 :: 0 :: 1 :: rest) = ([], (.four, (split rest).1) :: (split rest).2) := by
  rw [split]

theorem split_code (c : Code) (rest : List UInt8) :
    split (c.bytes ++ rest) = ([], (c, (split rest).1) :: (split rest).2) := by
  cases c with
  | three => exact split_three rest
  | four => exact split_four rest

/-- Where no start code is, the scanner goes on by a byte. -/
theorem split_cons {b : UInt8} (hthree : ¬ [0, 0, 1] <+: b :: rest)
    (hfour : ¬ [0, 0, 0, 1] <+: b :: rest) :
    split (b :: rest) = (b :: (split rest).1, (split rest).2) := by
  rw [split]
  · rintro rest' rfl rfl
    exact hthree (List.prefix_append [0, 0, 1] rest')
  · rintro rest' rfl rfl
    exact hfour (List.prefix_append [0, 0, 0, 1] rest')

/-- Nothing is lost, and nothing comes twice. -/
theorem join_split (bytes : List UInt8) : (split bytes).1 ++ join (split bytes).2 = bytes := by
  fun_induction split bytes with
  | case1 rest ih => rw [join_cons, ih]; rfl
  | case2 rest ih => rw [join_cons, ih]; rfl
  | case3 b rest _ _ ih => rw [List.cons_append, ih]
  | case4 => rfl

/-- No unit contains a start code, nor does what precedes them. -/
theorem plain_split (bytes : List UInt8) :
    Plain (split bytes).1 ∧ ∀ u ∈ (split bytes).2, Plain u.2 := by
  fun_induction split bytes with
  | case1 rest ih => exact ⟨.nil, List.forall_mem_cons.2 ih⟩
  | case2 rest ih => exact ⟨.nil, List.forall_mem_cons.2 ih⟩
  | case3 b rest hthree _ ih =>
    refine ⟨fun hinfix => ?_, ih.2⟩
    rcases List.infix_cons_iff.1 hinfix with hprefix | hinfix
    · -- what precedes the units is a prefix of the rest
      have hrest : [0, 0, 1] <+: b :: rest := by
        refine hprefix.trans ?_
        conv => rhs; rw [← join_split rest]
        exact List.cons_prefix_cons.2 ⟨rfl, List.prefix_append _ _⟩
      obtain ⟨rest', hrest'⟩ := hrest
      obtain ⟨rfl, rfl⟩ := List.cons.inj hrest'
      exact hthree rest' rfl rfl
    · exact ih.1 hinfix
  | case4 => exact ⟨.nil, nofun⟩

theorem split_plain (h : Plain u) : split u = (u, []) := by
  induction u with
  | nil => rw [split]
  | cons b u ih =>
    rw [split_cons h.not_prefix fun hfour => ?_, ih h.tail]
    exact h.tail.not_prefix (List.cons_prefix_cons.1 hfour).2

/-- What becomes of a unit and the start code behind it: one of three bytes takes a zero. -/
def settle : List UInt8 → Code → List UInt8 × Code
  | [0], .three => ([], .four)
  | b :: u, c => (b :: (settle u c).1, (settle u c).2)
  | [], c => ([], c)

theorem split_plain_append (h : Plain u) (c : Code) (rest : List UInt8) :
    split (u ++ (c.bytes ++ rest)) =
      ((settle u c).1, ((settle u c).2, (split rest).1) :: (split rest).2) := by
  fun_induction settle u c with
  | case1 => exact split_four rest
  | case2 b u c hlast ih =>
    obtain ⟨r, hr⟩ := c.bytes_eq
    have hthree : ¬ [0, 0, 1] <+: b :: (u ++ (c.bytes ++ rest)) := by
      intro hprefix
      match u with
      | [] =>
        simp only [hr, List.nil_append, List.cons_append, List.cons_prefix_cons] at hprefix
        exact absurd hprefix.2.2.1 (by decide)
      | [x] =>
        simp only [hr, List.nil_append, List.cons_append, List.cons_prefix_cons] at hprefix
        exact absurd hprefix.2.2.1 (by decide)
      | x :: y :: u =>
        simp only [List.cons_append, List.cons_prefix_cons] at hprefix
        obtain ⟨rfl, rfl, rfl, -⟩ := hprefix
        exact h.not_prefix (List.prefix_append [0, 0, 1] u)
    have hfour : ¬ [0, 0, 0, 1] <+: b :: (u ++ (c.bytes ++ rest)) := by
      intro hprefix
      match u with
      | [] =>
        cases c with
        | three => exact hlast rfl (List.cons_prefix_cons.1 hprefix).1.symm rfl
        | four =>
          simp only [Code.bytes, List.nil_append, List.cons_append,
            List.cons_prefix_cons] at hprefix
          exact absurd hprefix.2.2.2.1 (by decide)
      | [x] =>
        simp only [hr, List.nil_append, List.cons_append, List.cons_prefix_cons] at hprefix
        exact absurd hprefix.2.2.2.1 (by decide)
      | [x, y] =>
        simp only [hr, List.nil_append, List.cons_append, List.cons_prefix_cons] at hprefix
        exact absurd hprefix.2.2.2.1 (by decide)
      | x :: y :: z :: u =>
        simp only [List.cons_append, List.cons_prefix_cons] at hprefix
        obtain ⟨-, rfl, rfl, rfl, -⟩ := hprefix
        exact h.tail.not_prefix (List.prefix_append [0, 0, 1] u)
    rw [List.cons_append, split_cons hthree hfour, ih h.tail]
  | case3 c => exact split_code c rest

/-- The start code of three bytes takes the zero that the unit ends with, and is one of four. -/
theorem settle_cases (u : List UInt8) (c : Code) :
    settle u c = (u, c) ∨ ∃ v, u = v ++ [0] ∧ settle u c = (v, .four) := by
  fun_induction settle u c with
  | case1 => exact .inr ⟨[], rfl, rfl⟩
  | case2 b u c _ ih =>
    rcases ih with heq | ⟨v, rfl, heq⟩
    · exact .inl (by rw [heq])
    · exact .inr ⟨b :: v, rfl, by rw [heq]⟩
  | case3 c => exact .inl rfl

theorem settle_clean (h : u.getLast? ≠ some 0) (c : Code) : settle u c = (u, c) := by
  rcases settle_cases u c with heq | ⟨v, rfl, -⟩
  · exact heq
  · exact absurd List.getLast?_concat h

/-- Clean units are told apart. -/
theorem split_append_join (hu : Clean u) (h : ∀ v ∈ us, Clean v.2) :
    split (u ++ join us) = (u, us) := by
  induction us generalizing u with
  | nil => rw [join_nil, List.append_nil, split_plain hu.1]
  | cons v us ih =>
    obtain ⟨c, v⟩ := v
    obtain ⟨hv, hus⟩ := List.forall_mem_cons.1 h
    rw [join_cons, split_plain_append hu.1, settle_clean hu.2, ih hv hus]

theorem Clean.nil : Clean [] := ⟨.nil, nofun⟩

theorem split_join (h : ∀ v ∈ us, Clean v.2) : split (join us) = ([], us) :=
  split_append_join .nil h

/-- A unit put in front of units loses a zero at most. -/
theorem split_insert (hu : Plain u) {c : Code} (hrest : c.bytes <+: rest) :
    (split ([0, 0, 0, 1] ++ u ++ rest)).2.map Prod.snd =
      (settle u c).1 :: (split rest).2.map Prod.snd := by
  obtain ⟨rest, rfl⟩ := hrest
  rw [List.append_assoc, show ([0, 0, 0, 1] : List UInt8) = Code.four.bytes from rfl, split_code,
    split_plain_append hu, split_code]
  rfl

/-! ### Where the start codes are -/

/-- Where the start codes of units begin and end that begin at `i`. -/
def positions : ℕ → List (Code × List UInt8) → List (ℕ × ℕ)
  | _, [] => []
  | i, (c, u) :: us =>
    (i, i + c.bytes.length) :: positions (i + c.bytes.length + u.length) us

@[simp] theorem length_positions (i : ℕ) (us : List (Code × List UInt8)) :
    (positions i us).length = us.length := by
  induction us generalizing i with
  | nil => rfl
  | cons v us ih => rw [positions, List.length_cons, List.length_cons, ih]

/-- A unit ends where the next start code begins, or at the end. -/
def limit (bytes : List UInt8) (codes : List (ℕ × ℕ)) : ℕ :=
  (codes.head?.map Prod.fst).getD bytes.length

theorem limit_positions {n : ℕ} (us : List (Code × List UInt8))
    (h : bytes.length = n + (join us).length) : limit bytes (positions n us) = n := by
  cases us with
  | nil => exact h
  | cons u us => rfl

/-- The start codes are at their positions. -/
theorem map_positions {pre : List UInt8} (h : bytes = pre ++ join us) :
    (positions pre.length us).map (fun p => (bytes.take p.2).drop p.1) =
      us.map fun u => u.1.bytes := by
  induction us generalizing pre with
  | nil => rfl
  | cons v us ih =>
    obtain ⟨c, u⟩ := v
    have hcode : (bytes.take (pre.length + c.bytes.length)).drop pre.length = c.bytes := by
      rw [h, join_cons, ← List.append_assoc, ← List.length_append, List.take_left, List.drop_left]
    have hrest : bytes = pre ++ c.bytes ++ u ++ join us := by
      rw [h, join_cons, List.append_assoc, List.append_assoc]
    have ih := ih hrest
    rw [List.length_append, List.length_append] at ih
    rw [positions, List.map_cons, hcode, ih, List.map_cons]

/-- The units with their start codes make up what is joined. -/
theorem flatten_zipWith (us : List (Code × List UInt8)) :
    (List.zipWith (· ++ ·) (us.map fun u => u.1.bytes) (us.map Prod.snd)).flatten = join us := by
  induction us with
  | nil => rfl
  | cons v us ih =>
    rw [List.map_cons, List.map_cons, List.zipWith_cons_cons, List.flatten_cons, ih, join_cons,
      List.append_assoc]

variable {ε : Type} {e : ε} {f : List (ℕ × ℕ) → Except ε (List (List UInt8))}
  {pre : List UInt8} {nals : List (List UInt8)}

/-- `f` cuts the units out of `bytes` by the positions of the start codes, and fails with `e` if
one is empty. -/
structure Cuts (bytes : List UInt8) (e : ε)
    (f : List (ℕ × ℕ) → Except ε (List (List UInt8))) : Prop where
  nil : f [] = .ok []
  cons : ∀ i start codes, f ((i, start) :: codes) =
    if limit bytes codes > start then
      ((bytes.take (limit bytes codes)).drop start :: ·) <$> f codes
    else .error e

/-- The first unit lies between its start code and the rest. -/
theorem cut_first {c : Code} (h : bytes = pre ++ join ((c, u) :: us)) :
    ∃ n, n = (pre ++ c.bytes).length ∧ (bytes.take (n + u.length)).drop n = u ∧
      limit bytes (positions (n + u.length) us) = n + u.length ∧
        bytes = pre ++ c.bytes ++ u ++ join us := by
  rw [join_cons, ← List.append_assoc] at h
  have h' : bytes = pre ++ c.bytes ++ u ++ join us := h.trans (List.append_assoc ..).symm
  refine ⟨_, rfl, ?_, limit_positions us ?_, h'⟩
  · rw [h', ← List.length_append, List.take_left, List.drop_left]
  · rw [h', List.length_append, List.length_append]

theorem map_cons_eq_ok {r : Except ε (List (List UInt8))} :
    (u :: ·) <$> r = .ok nals ↔ ∃ rest, r = .ok rest ∧ nals = u :: rest := by
  cases r with
  | error e => exact ⟨nofun, nofun⟩
  | ok rest => exact ⟨fun h => ⟨rest, rfl, (Except.ok.inj h).symm⟩, fun ⟨_, hrest, hnals⟩ =>
      Except.ok.inj hrest ▸ congrArg _ hnals.symm⟩

/-- Every unit is cut out, unless one is empty. -/
theorem Cuts.eq_ok (hf : Cuts bytes e f) (h : bytes = pre ++ join us) :
    f (positions pre.length us) = .ok nals ↔ (∀ u ∈ us, u.2 ≠ []) ∧ nals = us.map Prod.snd := by
  induction us generalizing pre nals with
  | nil =>
    rw [positions, hf.nil]
    exact ⟨fun h => ⟨nofun, (Except.ok.inj h).symm⟩, fun h => congrArg _ h.2.symm⟩
  | cons v us ih =>
    obtain ⟨c, u⟩ := v
    obtain ⟨n, hstart, hslice, hlimit, h'⟩ := cut_first h
    have hrest (rest : List (List UInt8)) : f (positions (n + u.length) us) = .ok rest ↔
        (∀ u ∈ us, u.2 ≠ []) ∧ rest = us.map Prod.snd := by
      rw [hstart, ← List.length_append]
      exact ih h'
    rw [positions, hf.cons, ← List.length_append, ← hstart, hlimit, hslice]
    by_cases hu : u = []
    · subst hu
      rw [if_neg (show ¬ n + ([] : List UInt8).length > n from Nat.lt_irrefl n)]
      exact ⟨nofun, fun h => absurd rfl (h.1 _ List.mem_cons_self)⟩
    · rw [if_pos (Nat.lt_add_of_pos_right (List.length_pos_iff.2 hu)), map_cons_eq_ok,
        List.forall_mem_cons, List.map_cons]
      constructor
      · rintro ⟨rest, hok, rfl⟩
        obtain ⟨hus, rfl⟩ := (hrest rest).1 hok
        exact ⟨⟨hu, hus⟩, rfl⟩
      · rintro ⟨⟨-, hus⟩, rfl⟩
        exact ⟨_, (hrest _).2 ⟨hus, rfl⟩, rfl⟩

end AnnexB
end Library
end SidecarDOS
