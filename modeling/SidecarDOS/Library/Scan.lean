/-
# Record formats and scanners that are exact for them

A *format* says which values have a layout and what the layout is; a *scanner*
reads a value from a cursor over a finite input and may reject.  A scanner is
*exact* for a format (`Exact`) when it accepts precisely the layouts of valid
values, returns the value laid out and moves the cursor past the layout.  The
one equivalence carries both directions of a codec law: what is written is read
back (`Exact.run_put`) and what is accepted was written (`Exact.eq_put`).

Records are read field after field, so `ExactOn.field` composes a record's
scanner from its fields' scanners.  Each field read so far is remembered as a
condition `K` on the record that is still to be built, and `ExactOn.nil` closes
the record once those conditions determine it.
-/

import Mathlib.Data.List.Basic
import Mathlib.Tactic.Basic

namespace SidecarDOS
namespace Library

/-- A position in a finite input, never past its end. -/
structure Cursor (β : Type) where
  data : List β
  pos : ℕ
  pos_le : pos ≤ data.length

namespace Cursor

variable {β : Type}

/-- The cursor before the first symbol of `xs`. -/
def start (xs : List β) : Cursor β := ⟨xs, 0, Nat.zero_le _⟩

/-- The symbols not read yet. -/
def rest (c : Cursor β) : List β := c.data.drop c.pos

/-- The cursor `n` symbols further. -/
def advance (c : Cursor β) (n : ℕ) (h : n ≤ c.data.length - c.pos) : Cursor β :=
  ⟨c.data, c.pos + n, by have := c.pos_le; omega⟩

/-- From `c`, reading exactly the symbols `w` leads to `c'`. -/
def Reads (c : Cursor β) (w : List β) (c' : Cursor β) : Prop :=
  c'.data = c.data ∧ c.rest = w ++ c'.rest

@[simp] theorem rest_start (xs : List β) : (start xs).rest = xs := rfl

theorem length_rest (c : Cursor β) : c.rest.length = c.data.length - c.pos := by
  rw [rest, List.length_drop]

theorem Reads.pos_eq {c c' : Cursor β} {w : List β} (h : c.Reads w c') :
    c'.pos = c.pos + w.length := by
  have hl := congrArg List.length h.2
  rw [List.length_append, length_rest, length_rest, h.1] at hl
  have := c.pos_le
  have := h.1 ▸ c'.pos_le
  omega

/-- Two cursors over one input at one position are the same. -/
theorem ext_pos {c c' : Cursor β} (hd : c.data = c'.data) (hp : c.pos = c'.pos) : c = c' := by
  obtain ⟨data, pos, _⟩ := c
  obtain ⟨data', pos', _⟩ := c'
  obtain rfl : data = data' := hd
  obtain rfl : pos = pos' := hp
  rfl

/-- A scan has one end: the input and the word read determine it. -/
theorem Reads.unique {c c₁ c₂ : Cursor β} {w : List β} (h₁ : c.Reads w c₁) (h₂ : c.Reads w c₂) :
    c₁ = c₂ :=
  ext_pos (h₁.1.trans h₂.1.symm) (h₁.pos_eq.trans h₂.pos_eq.symm)

theorem reads_nil {c c' : Cursor β} : c.Reads [] c' ↔ c' = c := by
  constructor
  · intro h
    exact ext_pos h.1 h.pos_eq
  · rintro rfl
    exact ⟨rfl, rfl⟩

theorem reads_advance (c : Cursor β) (n : ℕ) (h : n ≤ c.data.length - c.pos) :
    c.Reads (c.rest.take n) (c.advance n h) := by
  refine ⟨rfl, ?_⟩
  rw [advance, rest, rest, ← List.drop_drop, List.take_append_drop]

/-- Reading `u ++ v` is reading `u` and then `v`. -/
theorem reads_append {c c'' : Cursor β} {u v : List β} :
    c.Reads (u ++ v) c'' ↔ ∃ c', c.Reads u c' ∧ c'.Reads v c'' := by
  constructor
  · rintro ⟨hd, hr⟩
    have hl : u.length ≤ c.data.length - c.pos := by
      rw [← length_rest, hr, List.append_assoc, List.length_append]
      omega
    have hu : c.rest.take u.length = u := by rw [hr, List.append_assoc, List.take_left]
    have hread := c.reads_advance u.length hl
    rw [hu] at hread
    refine ⟨c.advance u.length hl, hread, hd, ?_⟩
    have := hread.2.symm.trans (hr.trans (List.append_assoc ..))
    exact List.append_cancel_left this
  · rintro ⟨c', hu, hv⟩
    exact ⟨hv.1.trans hu.1, by rw [hu.2, hv.2, List.append_assoc]⟩

/-- Reading all of `w` from the start of `w ++ r` leaves `r`. -/
theorem start_reads {w r : List β} {c' : Cursor β} :
    (start (w ++ r)).Reads w c' ↔ c'.data = w ++ r ∧ c'.rest = r := by
  refine and_congr_right fun _ => ?_
  rw [rest_start]
  exact ⟨fun h => (List.append_cancel_left h).symm, fun h => by rw [h]⟩

end Cursor

/-- A reader of `α` from a cursor that may reject with `ε`. -/
abbrev Scan (ε β α : Type) : Type := StateT (Cursor β) (Except ε) α

/-- Which values of `α` have a layout over `β`, and the layout. -/
structure Format (β α : Type) where
  Valid : α → Prop
  put : α → List β

variable {ε β α γ ρ : Type}

namespace Format

/-- The format of exactly `n` raw symbols. -/
def block (n : ℕ) : Format β (List β) := ⟨fun v => v.length = n, fun v => v⟩

/-- The empty record. -/
def nil : Format β ρ := ⟨fun _ => True, fun _ => []⟩

/-- A record whose next field `proj` is laid out by `f`. -/
def field (f : Format β α) (proj : ρ → α) (rest : Format β ρ) : Format β ρ :=
  ⟨fun r => f.Valid (proj r) ∧ rest.Valid r, fun r => f.put (proj r) ++ rest.put r⟩

/-- Values of `α` laid out as their image under `g`. -/
def comap (g : α → γ) (f : Format β γ) : Format β α := ⟨fun a => f.Valid (g a), fun a => f.put (g a)⟩

@[simp] theorem valid_block (n : ℕ) (v : List β) : (block n).Valid v ↔ v.length = n := Iff.rfl
@[simp] theorem put_block (n : ℕ) (v : List β) : (block n).put v = v := rfl
@[simp] theorem valid_nil (r : ρ) : (nil : Format β ρ).Valid r ↔ True := Iff.rfl
@[simp] theorem put_nil (r : ρ) : (nil : Format β ρ).put r = [] := rfl
@[simp] theorem valid_field (f : Format β α) (proj : ρ → α) (rest : Format β ρ) (r : ρ) :
    (field f proj rest).Valid r ↔ f.Valid (proj r) ∧ rest.Valid r := Iff.rfl
@[simp] theorem put_field (f : Format β α) (proj : ρ → α) (rest : Format β ρ) (r : ρ) :
    (field f proj rest).put r = f.put (proj r) ++ rest.put r := rfl

end Format

/-- A scan of a sequence of steps succeeds when each step does. -/
theorem run_bind_ok {m : Scan ε β α} {k : α → Scan ε β γ} {c : Cursor β} {r : γ × Cursor β} :
    (m >>= k).run c = .ok r ↔ ∃ a c', m.run c = .ok (a, c') ∧ (k a).run c' = .ok r := by
  rw [StateT.run_bind]
  cases h : m.run c with
  | error e => simp [bind, Except.bind]
  | ok p => simp [bind, Except.bind, Prod.ext_iff, and_assoc]

theorem run_bind_of_ok {m : Scan ε β α} {k : α → Scan ε β γ} {c c' : Cursor β} {a : α}
    (h : m.run c = .ok (a, c')) : (m >>= k).run c = (k a).run c' := by
  rw [StateT.run_bind, h]
  rfl

theorem run_pure_ok {a : α} {c : Cursor β} {r : α × Cursor β} :
    (pure a : Scan ε β α).run c = .ok r ↔ r = (a, c) := by
  rw [StateT.run_pure]
  exact ⟨fun h => (Except.ok.inj h).symm, fun h => by rw [h]; rfl⟩

/-- Reject with `e` unless `cond` holds; reads nothing. -/
def require (cond : Prop) [Decidable cond] (e : ε) : Scan ε β Unit :=
  if cond then pure () else throw e

theorem require_bind_ok {cond : Prop} [Decidable cond] {e : ε} {k : Unit → Scan ε β γ}
    {c : Cursor β} {r : γ × Cursor β} :
    (require cond e >>= k).run c = .ok r ↔ cond ∧ (k ()).run c = .ok r := by
  rw [run_bind_ok, require]
  split
  · rename_i h
    refine ⟨fun ⟨_, c', h₁, h₂⟩ => ⟨h, ?_⟩, fun h₂ => ⟨(), c, run_pure_ok.2 rfl, h₂.2⟩⟩
    obtain ⟨-, rfl⟩ := Prod.mk.inj (run_pure_ok.1 h₁)
    exact h₂
  · rename_i h
    simp [h, throw, throwThe, MonadExceptOf.throw, StateT.lift, StateT.run, bind, Except.bind]

theorem require_bind_of {cond : Prop} [Decidable cond] {e : ε} {k : Unit → Scan ε β γ}
    {c : Cursor β} (h : cond) : (require cond e >>= k).run c = (k ()).run c := by
  rw [require, if_pos h]
  rfl

theorem require_bind_of_not {cond : Prop} [Decidable cond] {e : ε} {k : Unit → Scan ε β γ}
    {c : Cursor β} (h : ¬ cond) : (require cond e >>= k).run c = .error e := by
  rw [require, if_neg h]
  rfl

/-- The value of a run, without the cursor. -/
theorem map_eq_ok {δ : Type} {x : Except ε α} {g : α → δ} {b : δ} :
    g <$> x = .ok b ↔ ∃ a, x = .ok a ∧ g a = b := by
  cases x <;> simp [Functor.map, Except.map]

/-- `m` accepts, among the values satisfying `K`, exactly the layouts of `f`. -/
def ExactOn (K : α → Prop) (m : Scan ε β α) (f : Format β α) : Prop :=
  ∀ c a c', m.run c = .ok (a, c') ↔ K a ∧ f.Valid a ∧ c.Reads (f.put a) c'

/-- `m` accepts exactly the layouts of `f` and returns the value laid out. -/
def Exact (m : Scan ε β α) (f : Format β α) : Prop :=
  ∀ c a c', m.run c = .ok (a, c') ↔ f.Valid a ∧ c.Reads (f.put a) c'

theorem ExactOn.exact {m : Scan ε β α} {f : Format β α} (h : ExactOn (fun _ => True) m f) :
    Exact m f :=
  fun c a c' => (h c a c').trans (by rw [true_and])

/-- Two formats with the same valid values and the same layouts have the same
exact scanners. -/
theorem Exact.congr {m : Scan ε β α} {f g : Format β α} (h : Exact m f)
    (hv : ∀ a, f.Valid a ↔ g.Valid a) (hp : ∀ a, g.Valid a → f.put a = g.put a) : Exact m g := by
  intro c a c'
  rw [h, hv]
  exact and_congr_right fun ha => by rw [hp a ha]

/-- A scanner that takes the next `n` symbols, or rejects when fewer are left,
is exact for `Format.block n`. -/
theorem exact_block {m : Scan ε β (List β)} {n : ℕ} {e : ε}
    (hm : ∀ c, m.run c = if h : n ≤ c.data.length - c.pos
      then .ok (c.rest.take n, c.advance n h) else .error e) :
    Exact m (Format.block n) := by
  intro c a c'
  rw [hm]
  constructor
  · intro h
    split at h
    · rename_i hn
      obtain ⟨rfl, rfl⟩ := Prod.mk.inj (Except.ok.inj h)
      refine ⟨?_, c.reads_advance n hn⟩
      rw [← Cursor.length_rest] at hn
      exact List.length_take_of_le hn
    · exact absurd h (by simp)
  · rintro ⟨ha, hr⟩
    have hlen : a.length = n := ha
    have hn : n ≤ c.data.length - c.pos := by
      rw [← Cursor.length_rest, hr.2, List.length_append, Format.put_block, hlen]
      omega
    have htake : c.rest.take n = a := by rw [hr.2, Format.put_block, ← hlen, List.take_left]
    rw [dif_pos hn, htake]
    have := c.reads_advance n hn
    rw [htake] at this
    rw [this.unique hr]

/-- Sequencing: the second format may depend on the value the first one read. -/
theorem Exact.bind_ok {m : Scan ε β α} {f : Format β α} (hm : Exact m f) {k : α → Scan ε β γ}
    {g : α → Format β γ} (hk : ∀ a, f.Valid a → Exact (k a) (g a)) {c c' : Cursor β} {b : γ} :
    (m >>= k).run c = .ok (b, c') ↔
      ∃ a, f.Valid a ∧ (g a).Valid b ∧ c.Reads (f.put a ++ (g a).put b) c' := by
  rw [run_bind_ok]
  constructor
  · rintro ⟨a, c₁, h₁, h₂⟩
    obtain ⟨ha, hr⟩ := (hm ..).1 h₁
    obtain ⟨hb, hr'⟩ := (hk a ha ..).1 h₂
    exact ⟨a, ha, hb, Cursor.reads_append.2 ⟨c₁, hr, hr'⟩⟩
  · rintro ⟨a, ha, hb, hr⟩
    obtain ⟨c₁, hr₁, hr₂⟩ := Cursor.reads_append.1 hr
    exact ⟨a, c₁, (hm ..).2 ⟨ha, hr₁⟩, (hk a ha ..).2 ⟨hb, hr₂⟩⟩

/-- A scanner followed by a conversion that reads nothing and accepts `a` as
`b` exactly when `b` is valid for `g` and laid out as `a` is. -/
theorem Exact.convert {m : Scan ε β α} {f : Format β α} (hm : Exact m f) {k : α → Scan ε β γ}
    {g : Format β γ}
    (hk : ∀ a, f.Valid a → ∀ c b c', (k a).run c = .ok (b, c') ↔
      c' = c ∧ g.Valid b ∧ g.put b = f.put a)
    (hg : ∀ b, g.Valid b → ∃ a, f.Valid a ∧ f.put a = g.put b) : Exact (m >>= k) g := by
  intro c b c'
  rw [run_bind_ok]
  constructor
  · rintro ⟨a, c₁, h₁, h₂⟩
    obtain ⟨ha, hr⟩ := (hm ..).1 h₁
    obtain ⟨rfl, hb, hput⟩ := (hk a ha ..).1 h₂
    exact ⟨hb, hput ▸ hr⟩
  · rintro ⟨hb, hr⟩
    obtain ⟨a, ha, hput⟩ := hg b hb
    exact ⟨a, c', (hm ..).2 ⟨ha, hput ▸ hr⟩, (hk a ha ..).2 ⟨rfl, hb, hput.symm⟩⟩

/-- The next field of a record: its value becomes a condition on the record. -/
theorem ExactOn.field {m : Scan ε β α} {f : Format β α} (hm : Exact m f) {proj : ρ → α}
    {K : ρ → Prop} {k : α → Scan ε β ρ} {rest : Format β ρ}
    (hk : ∀ a, f.Valid a → ExactOn (fun r => K r ∧ proj r = a) (k a) rest) :
    ExactOn K (m >>= k) (Format.field f proj rest) := by
  intro c r c'
  rw [run_bind_ok]
  constructor
  · rintro ⟨a, c₁, h₁, h₂⟩
    obtain ⟨ha, hr⟩ := (hm ..).1 h₁
    obtain ⟨⟨hK, rfl⟩, hv, hr'⟩ := (hk a ha ..).1 h₂
    exact ⟨hK, ⟨ha, hv⟩, Cursor.reads_append.2 ⟨c₁, hr, hr'⟩⟩
  · rintro ⟨hK, ⟨ha, hv⟩, hr⟩
    obtain ⟨c₁, hr₁, hr₂⟩ := Cursor.reads_append.1 hr
    exact ⟨proj r, c₁, (hm ..).2 ⟨ha, hr₁⟩, (hk _ ha ..).2 ⟨⟨hK, rfl⟩, hv, hr₂⟩⟩

/-- A check of what was read so far costs nothing when the record satisfies it. -/
theorem ExactOn.require {cond : Prop} [Decidable cond] {e : ε} {K : ρ → Prop}
    {k : Unit → Scan ε β ρ} {f : Format β ρ} (hc : ∀ r, K r → f.Valid r → cond)
    (hk : cond → ExactOn K (k ()) f) : ExactOn K (Library.require cond e >>= k) f := by
  intro c r c'
  rw [require_bind_ok]
  exact ⟨fun ⟨h, h'⟩ => (hk h ..).1 h', fun h => ⟨hc r h.1 h.2.1, (hk (hc r h.1 h.2.1) ..).2 h⟩⟩

/-- The end of a record, when the fields read determine it. -/
theorem ExactOn.nil {K : ρ → Prop} {r₀ : ρ} (h : ∀ r, K r ↔ r = r₀) :
    ExactOn K (pure r₀ : Scan ε β ρ) Format.nil := by
  intro c r c'
  rw [run_pure_ok, h, Prod.mk.injEq, Format.valid_nil, Format.put_nil, Cursor.reads_nil, true_and]

/-- **What is written is read back**, and the cursor stands right behind it. -/
theorem Exact.run_put {m : Scan ε β α} {f : Format β α} (hm : Exact m f) {a : α}
    (ha : f.Valid a) (r : List β) :
    ∃ c', m.run (Cursor.start (f.put a ++ r)) = .ok (a, c') ∧ c'.rest = r ∧
      c'.pos = (f.put a).length := by
  have hall : (Cursor.start (f.put a ++ r)).Reads (f.put a ++ r)
      ⟨f.put a ++ r, (f.put a ++ r).length, Nat.le_refl _⟩ := by
    refine ⟨rfl, ?_⟩
    rw [Cursor.rest_start, Cursor.rest, List.drop_length, List.append_nil]
  obtain ⟨c', hu, -⟩ := Cursor.reads_append.1 hall
  refine ⟨c', (hm ..).2 ⟨ha, hu⟩, (Cursor.start_reads.1 hu).2, ?_⟩
  rw [hu.pos_eq, Cursor.start, Nat.zero_add]

/-- **What is accepted was written**: the symbols consumed are the layout of
the value returned. -/
theorem Exact.eq_put {m : Scan ε β α} {f : Format β α} (hm : Exact m f) {xs : List β} {a : α}
    {c' : Cursor β} (h : m.run (Cursor.start xs) = .ok (a, c')) :
    f.Valid a ∧ xs = f.put a ++ c'.rest := by
  obtain ⟨ha, hr⟩ := (hm ..).1 h
  exact ⟨ha, hr.2⟩

/-- A scanner that reads nothing and rejects unless the input is used up. -/
theorem atEnd_run_ok {e : ε} {c : Cursor β} {r : Unit × Cursor β} :
    (if c.pos = c.data.length then .ok ((), c) else .error e : Except ε _) = .ok r ↔
      c.pos = c.data.length ∧ r = ((), c) := by
  split
  · rename_i h
    exact ⟨fun hr => ⟨h, (Except.ok.inj hr).symm⟩, fun hr => by rw [hr.2]⟩
  · rename_i h
    exact ⟨fun hr => absurd hr (by simp), fun hr => absurd hr.1 h⟩

/-- A scanner that must consume the whole input accepts exactly the layouts
themselves: nothing truncated and nothing behind them. -/
theorem Exact.whole {m : Scan ε β α} {f : Format β α} (hm : Exact m f) {finish : Scan ε β Unit}
    (hfin : ∀ c r, finish.run c = .ok r ↔ c.pos = c.data.length ∧ r = ((), c)) {xs : List β}
    {a : α} :
    (fun r => r.1) <$> (m >>= fun v => finish >>= fun _ => pure v).run (Cursor.start xs) = .ok a ↔
      f.Valid a ∧ xs = f.put a := by
  rw [map_eq_ok]
  constructor
  · rintro ⟨⟨_, c'⟩, h, rfl⟩
    obtain ⟨a, c₁, h₁, h₂⟩ := run_bind_ok.1 h
    obtain ⟨_, c₂, h₂, h₃⟩ := run_bind_ok.1 h₂
    obtain ⟨hpos, hc₂⟩ := (hfin ..).1 h₂
    obtain ⟨rfl, -⟩ := Prod.mk.inj (run_pure_ok.1 h₃)
    obtain ⟨ha, hr⟩ := hm.eq_put h₁
    rw [Cursor.rest, hpos, List.drop_length, List.append_nil] at hr
    exact ⟨ha, hr⟩
  · rintro ⟨ha, rfl⟩
    obtain ⟨c', h, -, hpos⟩ := hm.run_put ha []
    rw [List.append_nil] at h
    have hdata : c'.data = f.put a := ((hm ..).1 h).2.1
    exact ⟨(a, c'), run_bind_ok.2 ⟨a, c', h, run_bind_ok.2
      ⟨(), c', (hfin ..).2 ⟨by rw [hpos, hdata], rfl⟩, run_pure_ok.2 rfl⟩⟩, rfl⟩

/-- Two scanners exact for one format accept the same inputs with the same
values, whatever errors they reject with. -/
theorem Exact.agree {ε' : Type} {m : Scan ε β α} {m' : Scan ε' β α} {f : Format β α}
    (hm : Exact m f) (hm' : Exact m' f) (c : Cursor β) (a : α) (c' : Cursor β) :
    m.run c = .ok (a, c') ↔ m'.run c = .ok (a, c') :=
  (hm ..).trans (hm' ..).symm

end Library
end SidecarDOS
