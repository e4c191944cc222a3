/-
# Splitting a stream into frames, all at once and chunk by chunk

A *splitter* looks at the front of a stream: it finds a frame, or nonsense, or
too little to tell.  What it finds in a frame or in nonsense does not change
when more symbols arrive, and that is all segmentation independence needs:
splitting is then a homomorphism (`Splitter.split_append`), so a receiver that
keeps the symbols it could not use yet and splits again with every chunk
(`Splitter.push`) returns the frames of the whole stream, whatever the chunks
(`Splitter.pushes_eq_split`).  A cap on what may be kept is harmless as long as
a front that is still incomplete stays a chunk below the cap.
-/

import Mathlib.Data.List.Basic
import Mathlib.Tactic.Basic

namespace SidecarDOS
namespace Library

/-- What stands at the front of a stream. -/
inductive Front (ε β φ : Type) where
  | more
  | bad (e : ε)
  | frame (a : φ) (rest : List β)

/-- Two findings at one front: the same frame up to `g`, and nonsense for both
or for none, whatever their errors. -/
inductive Front.Agree {ε ε' β φ ψ : Type} (g : φ → ψ) : Front ε β φ → Front ε' β ψ → Prop where
  | more : Agree g .more .more
  | bad (e : ε) (e' : ε') : Agree g (.bad e) (.bad e')
  | frame (a : φ) (rest : List β) : Agree g (.frame a rest) (.frame (g a) rest)

/-- A way to look at the front of a stream that later symbols do not change. -/
structure Splitter (ε β φ : Type) where
  front : List β → Front ε β φ
  rest_lt : ∀ {xs a rest}, front xs = .frame a rest → rest.length < xs.length
  frame_append : ∀ {xs a rest}, front xs = .frame a rest →
    ∀ ys, front (xs ++ ys) = .frame a (rest ++ ys)
  bad_append : ∀ {xs e}, front xs = .bad e → ∀ ys, front (xs ++ ys) = .bad e

namespace Splitter

variable {ε β φ : Type} (s : Splitter ε β φ)

/-- The frames of a stream and the symbols behind the last of them. -/
def split (xs : List β) : List φ × List β :=
  match _h : s.front xs with
  | .frame a rest => (a :: (split rest).1, (split rest).2)
  | .more => ([], xs)
  | .bad _ => ([], xs)
termination_by xs.length
decreasing_by all_goals exact s.rest_lt _h

theorem split_frame {xs rest : List β} {a : φ} (h : s.front xs = .frame a rest) :
    s.split xs = (a :: (s.split rest).1, (s.split rest).2) := by
  rw [split]
  split
  · rename_i h'
    obtain ⟨rfl, rfl⟩ := Front.frame.inj (h.symm.trans h')
    rfl
  · rename_i h'
    exact absurd (h.symm.trans h') (by simp)
  · rename_i h'
    exact absurd (h.symm.trans h') (by simp)

theorem split_stuck {xs : List β} (h : ∀ a rest, s.front xs ≠ .frame a rest) :
    s.split xs = ([], xs) := by
  rw [split]
  split
  · rename_i h'
    exact absurd h' (h _ _)
  · rfl
  · rfl

theorem split_more {xs : List β} (h : s.front xs = .more) : s.split xs = ([], xs) :=
  s.split_stuck fun _ _ => by rw [h]; simp

theorem split_bad {xs : List β} {e : ε} (h : s.front xs = .bad e) : s.split xs = ([], xs) :=
  s.split_stuck fun _ _ => by rw [h]; simp

/-- No frame is left in front of the tail. -/
theorem front_tail (xs : List β) (a : φ) (rest : List β) :
    s.front (s.split xs).2 ≠ .frame a rest := by
  induction xs using split.induct s with
  | case1 xs a' rest' h ih =>
    rw [s.split_frame h]
    exact ih
  | case2 xs h => rw [s.split_more h, h]; simp
  | case3 xs e h => rw [s.split_bad h, h]; simp

/-- **Splitting is a homomorphism**: the frames of `xs ++ ys` are those of `xs`
and then those of the tail of `xs` continued by `ys`. -/
theorem split_append (xs ys : List β) :
    s.split (xs ++ ys) =
      ((s.split xs).1 ++ (s.split ((s.split xs).2 ++ ys)).1,
        (s.split ((s.split xs).2 ++ ys)).2) := by
  induction xs using split.induct s with
  | case1 xs a rest h ih =>
    rw [s.split_frame (s.frame_append h ys), s.split_frame h, ih, List.cons_append]
  | case2 xs h => rw [s.split_more h, List.nil_append]
  | case3 xs e h => rw [s.split_bad h, List.nil_append]

/-- A stream written frame by frame splits into those frames. -/
theorem split_flatMap {w : φ → List β} (hnil : s.front [] = .more) {as : List φ}
    (hw : ∀ a ∈ as, ∀ rest, s.front (w a ++ rest) = .frame a rest) :
    s.split (as.flatMap w) = (as, []) := by
  induction as with
  | nil => exact s.split_more hnil
  | cons a as ih =>
    have hfront := hw a List.mem_cons_self (as.flatMap w)
    rw [List.flatMap_cons, s.split_frame hfront, ih fun b hb => hw b (List.mem_cons_of_mem _ hb)]

/-- Splitters that find the same fronts split a stream at the same places. -/
theorem split_agree {ε' ψ : Type} {t : Splitter ε' β ψ} {g : φ → ψ}
    (h : ∀ xs, Front.Agree g (s.front xs) (t.front xs)) (xs : List β) :
    t.split xs = ((s.split xs).1.map g, (s.split xs).2) := by
  induction xs using split.induct s with
  | case1 xs a rest hs ih =>
    have hx := h xs
    rw [hs] at hx
    generalize ht : t.front xs = f at hx
    cases hx
    rw [s.split_frame hs, t.split_frame ht, ih, List.map_cons]
  | case2 xs hs =>
    have hx := h xs
    rw [hs] at hx
    generalize ht : t.front xs = f at hx
    cases hx
    rw [s.split_more hs, t.split_more ht, List.map_nil]
  | case3 xs e hs =>
    have hx := h xs
    rw [hs] at hx
    generalize ht : t.front xs = f at hx
    cases hx
    rw [s.split_bad hs, t.split_bad ht, List.map_nil]

/-- One chunk arrives behind the symbols kept: the frames completed, or the
error of a nonsense front or of a full buffer, and the symbols kept now. -/
def push (cap : ℕ) (full : ε) (kept chunk : List β) : Except ε (List φ) × List β :=
  if kept.length + chunk.length ≤ cap then
    match s.front (s.split (kept ++ chunk)).2 with
    | .bad e => (.error e, (s.split (kept ++ chunk)).2)
    | _ => (.ok (s.split (kept ++ chunk)).1, (s.split (kept ++ chunk)).2)
  else (.error full, kept)

/-- The chunks of a stream, one after another. -/
def pushes (cap : ℕ) (full : ε) : List β → List (List β) → List (Except ε (List φ)) × List β
  | kept, [] => ([], kept)
  | kept, chunk :: chunks =>
    let out := s.push cap full kept chunk
    let outs := pushes cap full out.2 chunks
    (out.1 :: outs.1, outs.2)

/-- The frames that were returned, in order. -/
def returned (rs : List (Except ε (List φ))) : List φ :=
  rs.flatMap fun r => match r with
    | .ok as => as
    | .error _ => []

@[simp] theorem returned_nil : returned ([] : List (Except ε (List φ))) = [] := rfl
@[simp] theorem returned_ok (as : List φ) (rs : List (Except ε (List φ))) :
    returned (.ok as :: rs) = as ++ returned rs := rfl
@[simp] theorem returned_error (e : ε) (rs : List (Except ε (List φ))) :
    returned (.error e :: rs) = returned rs := rfl

variable {s} {cap : ℕ} {full : ε}

theorem push_more {kept chunk : List β} (hlen : kept.length + chunk.length ≤ cap)
    (h : s.front (s.split (kept ++ chunk)).2 = .more) :
    s.push cap full kept chunk = (.ok (s.split (kept ++ chunk)).1, (s.split (kept ++ chunk)).2) := by
  rw [push, if_pos hlen, h]

theorem push_bad {kept chunk : List β} {e : ε} (hlen : kept.length + chunk.length ≤ cap)
    (h : s.front (s.split (kept ++ chunk)).2 = .bad e) :
    s.push cap full kept chunk = (.error e, (s.split (kept ++ chunk)).2) := by
  rw [push, if_pos hlen, h]

/-- Behind a nonsense front no chunk completes a frame, and the front stays. -/
theorem push_stuck {kept : List β} {e : ε} (h : s.front kept = .bad e) (chunk : List β) :
    ∃ e' kept', s.push cap full kept chunk = (.error e', kept') ∧ s.front kept' = .bad e := by
  by_cases hlen : kept.length + chunk.length ≤ cap
  · have hbad := s.bad_append h chunk
    have htail : (s.split (kept ++ chunk)).2 = kept ++ chunk := by rw [s.split_bad hbad]
    refine ⟨e, kept ++ chunk, ?_, hbad⟩
    rw [push_bad hlen (htail ▸ hbad), htail]
  · exact ⟨full, kept, by rw [push, if_neg hlen], h⟩

/-- Behind a nonsense front nothing is returned any more. -/
theorem pushes_stuck {kept : List β} {e : ε} (h : s.front kept = .bad e) (chunks : List (List β)) :
    returned (s.pushes cap full kept chunks).1 = [] := by
  induction chunks generalizing kept with
  | nil => rfl
  | cons chunk chunks ih =>
    obtain ⟨e', kept', hpush, hfront⟩ : ∃ e' kept', s.push cap full kept chunk = (.error e', kept') ∧
        s.front kept' = .bad e := push_stuck h chunk
    rw [pushes, hpush, returned_error]
    exact ih hfront

/-- **Chunks do not matter.**  If an incomplete front is shorter than `bound`,
no chunk is longer than `n`, and the cap leaves room for both, then a receiver
that starts with an incomplete front returns the frames of the whole stream and
keeps its tail when that tail is incomplete; otherwise it rejects some chunk,
having returned none but those frames. -/
theorem pushes_eq_split (full : ε) {bound n : ℕ} (hbound : ∀ {xs}, s.front xs = .more → xs.length < bound)
    (hcap : bound + n ≤ cap + 1) {kept : List β} (hkept : s.front kept = .more)
    {chunks : List (List β)} (hchunks : ∀ chunk ∈ chunks, chunk.length ≤ n) :
    let whole := s.split (kept ++ chunks.flatten)
    let out := s.pushes cap full kept chunks
    (s.front whole.2 = .more →
      (∀ r ∈ out.1, ∃ as, r = .ok as) ∧ returned out.1 = whole.1 ∧ out.2 = whole.2) ∧
    (∀ e, s.front whole.2 = .bad e → ∃ e', .error e' ∈ out.1) ∧
    ∃ unreturned, returned out.1 ++ unreturned = whole.1 := by
  induction chunks generalizing kept with
  | nil =>
    rw [List.flatten_nil, List.append_nil, s.split_more hkept]
    exact ⟨fun _ => ⟨by simp [pushes], rfl, rfl⟩, fun e he => absurd (hkept.symm.trans he) (by simp),
      [], rfl⟩
  | cons chunk chunks ih =>
    have hlen : kept.length + chunk.length ≤ cap := by
      have := hbound hkept
      have := hchunks chunk List.mem_cons_self
      omega
    rw [List.flatten_cons, ← List.append_assoc, s.split_append (kept ++ chunk)]
    cases hfront : s.front (s.split (kept ++ chunk)).2 with
    | frame a rest => exact absurd hfront (s.front_tail _ a rest)
    | more =>
      obtain ⟨hmore, hbad, unreturned, hpre⟩ :=
        ih hfront fun c hc => hchunks c (List.mem_cons_of_mem _ hc)
      rw [pushes, push_more hlen hfront]
      refine ⟨fun h => ?_, fun e he => ?_, unreturned, ?_⟩
      · obtain ⟨hok, hret, htail⟩ := hmore h
        refine ⟨?_, by rw [returned_ok, hret], htail⟩
        rintro r (_ | ⟨_, hr⟩)
        · exact ⟨_, rfl⟩
        · exact hok r hr
      · obtain ⟨e', he'⟩ := hbad e he
        exact ⟨e', List.mem_cons_of_mem _ he'⟩
      · rw [returned_ok, List.append_assoc, hpre]
    | bad e =>
      have hall : s.split ((s.split (kept ++ chunk)).2 ++ chunks.flatten) =
          ([], (s.split (kept ++ chunk)).2 ++ chunks.flatten) :=
        s.split_bad (s.bad_append hfront _)
      rw [pushes, push_bad hlen hfront, hall]
      refine ⟨fun h => ?_, fun _ _ => ⟨e, List.mem_cons_self⟩, ?_⟩
      · exact absurd ((s.bad_append hfront _).symm.trans h) (by simp)
      · exact ⟨(s.split (kept ++ chunk)).1, by
          rw [returned_error, pushes_stuck hfront, List.nil_append, List.append_nil]⟩

/-! ### Frames that begin with a header of a fixed length -/

/-- The front of a stream of frames whose first `header` symbols give the
frame's `size`. -/
def sizedFront (header : ℕ) (size : List β → Except ε ℕ) (decode : List β → Except ε φ)
    (xs : List β) : Front ε β φ :=
  if xs.length < header then .more
  else match size (xs.take header) with
    | .error e => .bad e
    | .ok n =>
      if xs.length < n then .more
      else match decode (xs.take n) with
        | .error e => .bad e
        | .ok a => .frame a (xs.drop n)

section Sized

variable {header : ℕ} {size : List β → Except ε ℕ} {decode : List β → Except ε φ}

/-- More symbols do not change a front that is told apart already. -/
theorem sizedFront_append (hsize : ∀ {h n}, size h = .ok n → header ≤ n) {xs : List β}
    (hx : sizedFront header size decode xs ≠ .more) (ys : List β) :
    sizedFront header size decode (xs ++ ys) =
      match sizedFront header size decode xs with
      | .frame a rest => .frame a (rest ++ ys)
      | f => f := by
  unfold sizedFront at hx ⊢
  have hlen : (xs ++ ys).length = xs.length + ys.length := List.length_append
  by_cases h : xs.length < header
  · rw [if_pos h] at hx
    exact absurd rfl hx
  rw [if_neg h] at hx ⊢
  rw [if_neg (by omega), List.take_append_of_le_length (by omega)]
  cases hn : size (xs.take header) with
  | error e => rfl
  | ok n =>
    have := hsize hn
    rw [hn] at hx
    by_cases h' : xs.length < n
    · simp only [if_pos h', ne_eq, not_true_eq_false] at hx
    simp only [if_neg h', if_neg (show ¬ (xs ++ ys).length < n by omega)]
    rw [List.take_append_of_le_length (by omega), List.drop_append_of_le_length (by omega)]
    cases decode (xs.take n) <;> rfl

/-- An incomplete front is shorter than the largest frame. -/
theorem length_lt_of_sizedFront {bound : ℕ} (hheader : header ≤ bound)
    (hbound : ∀ {h n}, size h = .ok n → n ≤ bound) {xs : List β}
    (hx : sizedFront header size decode xs = .more) : xs.length < bound := by
  unfold sizedFront at hx
  split at hx
  · omega
  cases hn : size (xs.take header) with
  | error e => simp [hn] at hx
  | ok n =>
    have := hbound hn
    simp only [hn] at hx
    split at hx
    · omega
    · cases hd : decode (xs.take n) <;> simp [hd] at hx

theorem sizedFront_eq_frame {xs rest : List β} {a : φ}
    (h : sizedFront header size decode xs = .frame a rest) :
    ∃ n, size (xs.take header) = .ok n ∧ n ≤ xs.length ∧ decode (xs.take n) = .ok a ∧
      rest = xs.drop n := by
  unfold sizedFront at h
  split at h
  · exact absurd h (by simp)
  cases hn : size (xs.take header) with
  | error e => simp [hn] at h
  | ok n =>
    simp only [hn] at h
    split at h
    · exact absurd h (by simp)
    cases hd : decode (xs.take n) with
    | error e => simp [hd] at h
    | ok b =>
      simp only [hd, Front.frame.injEq] at h
      exact ⟨n, rfl, by omega, h.1 ▸ hd, h.2.symm⟩

/-- A stream of sized frames. -/
def sized (header : ℕ) (size : List β → Except ε ℕ) (decode : List β → Except ε φ)
    (hheader : 0 < header) (hsize : ∀ {h n}, size h = .ok n → header ≤ n) : Splitter ε β φ where
  front := sizedFront header size decode
  rest_lt h := by
    obtain ⟨n, hn, hle, -, rfl⟩ := sizedFront_eq_frame h
    have := hsize hn
    rw [List.length_drop]
    omega
  frame_append h ys := by rw [sizedFront_append hsize (by rw [h]; simp), h]
  bad_append h ys := by rw [sizedFront_append hsize (by rw [h]; simp), h]

/-- Splitters by the same sizes agree when their decoders do. -/
theorem sizedFront_agree {ε' ψ : Type} {size' : List β → Except ε' ℕ}
    {decode' : List β → Except ε' ψ} {g : φ → ψ}
    (hsize : ∀ h, h.length = header → ∀ n, size' h = .ok n ↔ size h = .ok n)
    (hdecode : ∀ xs b, decode' xs = .ok b ↔ ∃ a, decode xs = .ok a ∧ b = g a) (xs : List β) :
    Front.Agree g (sizedFront header size decode xs) (sizedFront header size' decode' xs) := by
  unfold sizedFront
  split
  · exact .more
  rename_i hlen
  have hsize := hsize (xs.take header) (List.length_take_of_le (by omega))
  cases hn : size (xs.take header) with
  | error e =>
    cases hn' : size' (xs.take header) with
    | error e' => exact .bad e e'
    | ok n => exact absurd ((hsize n).1 hn') (by simp [hn])
  | ok n =>
    rw [(hsize n).2 hn]
    by_cases h : xs.length < n
    · simp only [if_pos h]
      exact .more
    simp only [if_neg h]
    cases hd : decode (xs.take n) with
    | ok a =>
      rw [(hdecode _ (g a)).2 ⟨a, hd, rfl⟩]
      exact .frame a _
    | error e =>
      cases hd' : decode' (xs.take n) with
      | error e' => exact .bad e e'
      | ok b =>
        obtain ⟨a, ha, -⟩ := (hdecode _ b).1 hd'
        exact absurd ha (by simp [hd])

end Sized

end Splitter

end Library
end SidecarDOS
