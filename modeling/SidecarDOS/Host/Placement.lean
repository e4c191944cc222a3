/-
# The place of the virtual display

What `reconcile` finds in its place, what it submits, and what the next run makes of that.

With `primary`, every source is moved so that the virtual display comes to the origin, and
the second comparison of `reconcile` looks only at that: the side of the anchor is not
compared any more (`placement_sound`, `misplaced_matched`).  A configuration that Windows
stores as it was submitted is found in its place by the next run (`reconcile_stable`).  The place
is free exactly if no other physical display lies there, which `reconcile` does not look at
(`placed_free`, `placed_on_top`).
-/

import SidecarDOS.Host.Topology

namespace SidecarDOS
namespace Host
namespace Topology

variable {os : Os} {s now : Snapshot} {p q : PathInfo} {modes : List ModeInfo} {i : ℕ}
  {position : Position} {primary : Bool} {requested : Option (UInt32 × UInt32 × UInt32)}

/-! ### Source modes -/

theorem sourceIndex_eq_some : sourceIndex p modes = some i ↔ p.sourceInfo.modeInfoIdx = i ∧
    ∃ v, modes[i]? = some v ∧ v.sourceMode.isSome = true ∧ v.id = p.sourceInfo.id ∧
      v.adapterId = p.sourceInfo.adapterId := by
  unfold sourceIndex
  dsimp only
  cases hv : modes[p.sourceInfo.modeInfoIdx]? with
  | none =>
    simp only [Option.filter_none, Option.map_none, reduceCtorEq, false_iff, not_and]
    rintro rfl ⟨v, hv', -⟩
    exact nomatch hv.symm.trans hv'
  | some v =>
    simp only [Option.map_eq_some_iff, Option.filter_eq_some_iff, Option.some.injEq,
      Bool.and_eq_true, decide_eq_true_eq]
    constructor
    · rintro ⟨v', ⟨hv', ⟨hsome, hid⟩, hadapter⟩, rfl⟩
      exact ⟨rfl, v', hv.trans (congrArg some hv'), hsome, hid, hadapter⟩
    · rintro ⟨rfl, v', hv', hsome, hid, hadapter⟩
      exact ⟨v', ⟨Option.some.inj (hv.symm.trans hv'), ⟨hsome, hid⟩, hadapter⟩, rfl⟩

theorem bounds_eq_some {b : Bounds} : bounds p modes = some b ↔
    ∃ i v m, sourceIndex p modes = some i ∧ modes[i]? = some v ∧ v.sourceMode = some m ∧
      m.bounds = b := by
  unfold bounds
  simp only [Option.bind_eq_bind, Option.bind_eq_some_iff, Option.map_eq_some_iff]
  constructor
  · rintro ⟨i, hi, v, hv, m, hm, rfl⟩
    exact ⟨i, v, m, hi, hv, hm, rfl⟩
  · rintro ⟨i, v, m, hi, hv, hm, rfl⟩
    exact ⟨i, hi, v, hv, m, hm, rfl⟩

theorem sourceIndex_write (mode : SourceMode) (h : sourceIndex p modes = some i) :
    sourceIndex q (modes.modify i (ModeInfo.write mode)) = sourceIndex q modes := by
  obtain ⟨-, v, hv, hsome, -⟩ := sourceIndex_eq_some.1 h
  ext j
  simp only [sourceIndex_eq_some]
  refine and_congr_right fun _ => ?_
  by_cases hj : i = j
  · subst hj
    rw [List.getElem?_modify_eq, hv]
    constructor
    · rintro ⟨_, ⟨⟩, -, hid, hadapter⟩
      exact ⟨v, rfl, hsome, hid, hadapter⟩
    · rintro ⟨_, ⟨⟩, -, hid, hadapter⟩
      exact ⟨_, rfl, rfl, hid, hadapter⟩
  · rw [List.getElem?_modify_ne _ _ hj]

/-- Every path on a source whose mode is written gets the mode. -/
theorem bounds_write (mode : SourceMode) (h : sourceIndex p modes = some i) :
    bounds q (modes.modify i (ModeInfo.write mode)) =
      if sourceIndex q modes = some i then some mode.bounds else bounds q modes := by
  obtain ⟨-, v, hv, -⟩ := sourceIndex_eq_some.1 h
  have hwrite := sourceIndex_write (q := q) mode h
  split
  · rename_i hq
    refine bounds_eq_some.2 ⟨i, v.write mode, mode, hwrite.trans hq, ?_, rfl, rfl⟩
    rw [List.getElem?_modify_eq, hv]
    rfl
  · rename_i hq
    unfold bounds
    rw [hwrite]
    cases hj : sourceIndex q modes with
    | none => rfl
    | some j =>
      have hne : i ≠ j := fun heq => hq (heq ▸ hj)
      rw [Option.bind_eq_bind, Option.bind_some, List.getElem?_modify_ne _ _ hne]
      rfl

theorem sourceIndex_move (x y : ℤ) :
    sourceIndex p (modes.map (ModeInfo.move x y)) = sourceIndex p modes := by
  ext i
  simp only [sourceIndex_eq_some, List.getElem?_map, Option.map_eq_some_iff]
  refine and_congr_right fun _ => ⟨?_, ?_⟩
  · rintro ⟨_, ⟨v, hv, rfl⟩, hsome, hid, hadapter⟩
    exact ⟨v, hv, by simpa [ModeInfo.move] using hsome, hid, hadapter⟩
  · rintro ⟨v, hv, hsome, hid, hadapter⟩
    exact ⟨_, ⟨v, hv, rfl⟩, by simpa [ModeInfo.move] using hsome, hid, hadapter⟩

/-- A rectangle relative to another origin. -/
def moved (x y : ℤ) (b : Bounds) : Bounds := { b with x := b.x - x, y := b.y - y }

theorem bounds_move (x y : ℤ) :
    bounds p (modes.map (ModeInfo.move x y)) = (bounds p modes).map (moved x y) := by
  unfold bounds
  rw [sourceIndex_move]
  cases sourceIndex p modes with
  | none => rfl
  | some i =>
    simp only [Option.bind_eq_bind, Option.bind_some, List.getElem?_map]
    cases modes[i]? with
    | none => rfl
    | some v =>
      show (v.sourceMode.map _).map _ = (v.sourceMode.map _).map _
      rw [Option.map_map, Option.map_map]
      rfl

/-! ### The virtual display's path -/

/-- The path of the virtual display, if it is active. -/
def virtualPath (os : Os) (s : Snapshot) : Option PathInfo := (active s).find? (sidecar os)

theorem virtualPath_eq (os : Os) (s : Snapshot) :
    virtualPath os s = s.paths.find? fun p => p.active && sidecar os p := by
  unfold virtualPath active
  rw [List.find?_filter]
  simp only [Bool.decide_and, Bool.decide_eq_true]

theorem mem_active : p ∈ active s ↔ p ∈ s.paths ∧ p.active = true := List.mem_filter

/-- The virtual display's path stands at its index. -/
theorem virtualIndex_cases (os : Os) (s : Snapshot) :
    (virtualIndex os s = none ∧ virtualPath os s = none) ∨
      ∃ i p, virtualIndex os s = some i ∧ virtualPath os s = some p ∧ (active s)[i]? = some p := by
  have hfind : virtualPath os s = (virtualIndex os s).bind ((active s)[·]?) :=
    List.find?_eq_bind_findIdx?_getElem?
  cases hi : virtualIndex os s with
  | none => exact .inl ⟨rfl, by rw [hfind, hi]; rfl⟩
  | some i =>
    obtain ⟨hlt, -⟩ := List.findIdx?_eq_some_iff_getElem.1 hi
    have hp : (active s)[i]? = some (active s)[i] := List.getElem?_eq_getElem hlt
    exact .inr ⟨i, _, rfl, by rw [hfind, hi]; exact hp, hp⟩

theorem candidate_eq (h : virtualPath os s = some p) : candidate os s = some p := by
  have hcomm : (fun p : PathInfo => sidecar os p && p.active) =
      fun p => p.active && sidecar os p := by
    funext p
    exact Bool.and_comm _ _
  rw [candidate, hcomm, ← virtualPath_eq, h]
  rfl

/-- `reconcile` goes on with the candidate, which it activates where it has to. -/
theorem activated_eq {c : PathInfo} (h : candidate os s = some c) :
    (activated os s c).1.getD (activated os s c).2 c = { c with active := true } := by
  unfold activated
  rcases virtualIndex_cases os s with ⟨hindex, -⟩ | ⟨i, p, hindex, hpath, hp⟩
  · rw [hindex]
    simp
  · cases (candidate_eq hpath).symm.trans h
    have hactive : c.active = true := (mem_active.1 (List.mem_of_getElem? hp)).2
    rw [hindex]
    dsimp only
    rw [List.getD_eq_getElem?_getD, hp, Option.getD_some, ← hactive]

/-- Whether a path is the virtual display's depends on its target alone. -/
theorem sidecar_congr {t : TargetInfo}
    (htechnology : t.outputTechnology = p.targetInfo.outputTechnology)
    (hadapter : t.adapterId = p.targetInfo.adapterId) (hid : t.id = p.targetInfo.id)
    (source : SourceInfo) (active : Bool) :
    sidecar os ⟨source, t, active⟩ = sidecar os p := by
  unfold sidecar
  rw [htechnology, hadapter, hid]

theorem candidate_sidecar {c : PathInfo} (h : candidate os s = some c) : sidecar os c = true := by
  rcases Option.or_eq_some_iff.1 h with h | ⟨-, h⟩
  · have hboth := List.find?_some h
    exact (Bool.and_eq_true_iff.1 hboth).1
  · have hboth := List.find?_some h
    exact (Bool.and_eq_true_iff.1 hboth).1

/-! ### What is found in its place -/

theorem currentBounds_eq_ok {b : Bounds} : currentBounds os s = .ok b ↔
    ∃ p, virtualPath os s = some p ∧ bounds p s.modes = some b := by
  unfold currentBounds
  rw [← virtualPath_eq]
  cases hb : (virtualPath os s).bind (bounds · s.modes) with
  | none =>
    simp only [reduceCtorEq, false_iff, not_exists, not_and]
    intro p hp hbounds
    rw [hp, Option.bind_some, hbounds] at hb
    exact nomatch hb
  | some b' =>
    simp only [Except.ok.injEq]
    obtain ⟨p, hp, hbounds⟩ := Option.bind_eq_some_iff.1 hb
    constructor
    · rintro rfl
      exact ⟨p, hp, hbounds⟩
    · rintro ⟨p', hp', hbounds'⟩
      cases hp.symm.trans hp'
      exact Option.some.inj (hbounds.symm.trans hbounds')

theorem adjacent_width (a : Bounds) (w h : UInt32) (position : Position) :
    (a.adjacent w h position).width = w := by
  cases position <;> rfl

theorem adjacent_height (a : Bounds) (w h : UInt32) (position : Position) :
    (a.adjacent w h position).height = h := by
  cases position <;> rfl

theorem submit_ne_matched (config : Snapshot) (target b : Bounds) :
    submit os config target ≠ .matched b := by
  unfold submit
  split_ifs <;> exact nofun

/-- Where the virtual display has a rectangle, and the second query finds the same as the
first one: with `primary`, it has to be at the origin. -/
theorem reconcile_placed {c : PathInfo} {a v b : Bounds} (hpath : virtualPath os s = some c)
    (hv : bounds c s.modes = some v) (ha : anchor os s = some a) :
    reconcile os s s position primary none = .matched b ↔
      v = b ∧ if primary then v.x = 0 ∧ v.y = 0
        else v = a.adjacent v.width v.height position := by
  have hc := candidate_eq hpath
  have hindex : (virtualIndex os s).isSome = true := by
    rcases virtualIndex_cases os s with ⟨-, hnone⟩ | ⟨i, p, hindex, -⟩
    · exact nomatch hpath.symm.trans hnone
    · rw [hindex]
      rfl
  have hbounds : bounds ((activated os s c).1.getD (activated os s c).2 c) s.modes = some v := by
    rw [activated_eq hc]
    exact hv
  have hsize : size s c none = (v.width, v.height, 60) := by
    unfold size
    rw [hv]
    rfl
  have hcurrent (t : Bounds) : currentBounds os s = .ok t ↔ v = t := by
    rw [currentBounds_eq_ok]
    constructor
    · rintro ⟨p', hp', hbounds'⟩
      cases hpath.symm.trans hp'
      exact Option.some.inj (hv.symm.trans hbounds')
    · rintro rfl
      exact ⟨c, hpath, hv⟩
  unfold reconcile
  rw [hc, ha]
  dsimp only
  rw [hbounds, hsize]
  simp only [hindex, hcurrent, Option.some.injEq, Option.isNone_none, true_and, and_true]
  generalize hd : a.adjacent v.width v.height position = desired
  have hwidth : desired.width = v.width := hd ▸ adjacent_width ..
  have hheight : desired.height = v.height := hd ▸ adjacent_height ..
  cases primary with
  | true =>
    have horigin : v = { desired with x := 0, y := 0 } ↔ v.x = 0 ∧ v.y = 0 := by
      rw [hwidth, hheight]
      constructor
      · intro heq
        exact ⟨congrArg Bounds.x heq, congrArg Bounds.y heq⟩
      · rintro ⟨hx, hy⟩
        calc v = ⟨v.x, v.y, v.width, v.height⟩ := rfl
          _ = ⟨0, 0, v.width, v.height⟩ := by rw [hx, hy]
    simp only [not_true_eq_false, and_false, ↓reduceIte]
    split
    · rename_i heq
      rw [← heq, Outcome.matched.injEq]
      exact (and_iff_left (horigin.1 heq)).symm
    · rename_i hne
      exact ⟨fun h => absurd h (submit_ne_matched _ _ _), fun h => absurd (horigin.2 h.2) hne⟩
  | false =>
    simp only [Bool.false_eq_true, not_false_eq_true, and_true, ↓reduceIte]
    split
    · rename_i heq
      rw [← heq, Outcome.matched.injEq]
      exact (and_iff_left rfl).symm
    · rename_i hne
      exact ⟨fun h => absurd h (submit_ne_matched _ _ _), fun h => absurd h.2 hne⟩

/-- Nothing is found in its place but the virtual display, by its rectangle. -/
theorem reconcile_matched {b : Bounds} (h : reconcile os s s position primary none = .matched b) :
    ∃ c a, virtualPath os s = some c ∧ bounds c s.modes = some b ∧ anchor os s = some a := by
  cases ha : anchor os s with
  | none =>
    unfold reconcile at h
    rw [ha] at h
    split at h <;> exact nomatch h
  | some a =>
    rcases virtualIndex_cases os s with ⟨hindex, -⟩ | ⟨i, c, hindex, hpath, -⟩
    · unfold reconcile at h
      rw [ha, hindex] at h
      simp only [Option.isSome_none, Bool.false_eq_true, false_and, ↓reduceIte] at h
      split at h
      · exact nomatch h
      · exact absurd h (submit_ne_matched _ _ _)
    · refine ⟨c, a, hpath, ?_, rfl⟩
      cases hv : bounds c s.modes with
      | none =>
        have hbounds : bounds ((activated os s c).1.getD (activated os s c).2 c) s.modes =
            none := by
          rw [activated_eq (candidate_eq hpath)]
          exact hv
        have hcurrent (t : Bounds) : currentBounds os s ≠ .ok t := fun ht => by
          obtain ⟨p', hp', hbounds'⟩ := currentBounds_eq_ok.1 ht
          cases hpath.symm.trans hp'
          exact nomatch hv.symm.trans hbounds'
        unfold reconcile at h
        rw [candidate_eq hpath, ha] at h
        dsimp only at h
        simp only [hbounds, hcurrent, reduceCtorEq, false_and, and_false, ↓reduceIte] at h
        exact absurd h (submit_ne_matched _ _ _)
      | some v => rw [((reconcile_placed hpath hv ha).1 h).1]

/-- The virtual display lies next to the anchor, at the requested side. -/
def Placed (os : Os) (s : Snapshot) (position : Position) : Prop :=
  ∃ c ∈ virtualPath os s, ∃ v ∈ bounds c s.modes, ∃ a ∈ anchor os s,
    v = a.adjacent v.width v.height position

instance (os : Os) (s : Snapshot) (position : Position) : Decidable (Placed os s position) :=
  inferInstanceAs (Decidable (∃ c ∈ virtualPath os s, _))

/-- The virtual display lies at the origin, which is not the place next to the anchor. -/
def Astray (os : Os) (s : Snapshot) (position : Position) : Prop :=
  ∃ c ∈ virtualPath os s, ∃ v ∈ bounds c s.modes, ∃ a ∈ anchor os s,
    (v.x = 0 ∧ v.y = 0) ∧ ¬ ((a.adjacent v.width v.height position).x = 0 ∧
      (a.adjacent v.width v.height position).y = 0)

/-- **What is found in its place lies at the requested side**, exactly unless the display is
to be primary and is at the origin already, which is not the place next to the anchor. -/
theorem placement_sound (os : Os) (s : Snapshot) (position : Position) (primary : Bool) :
    (∀ b, (reconcile os s s position primary none).value = .ok (b, true) →
      Placed os s position) ↔ ¬ (primary = true ∧ Astray os s position) := by
  have hvalue (b : Bounds) : (reconcile os s s position primary none).value = .ok (b, true) ↔
      reconcile os s s position primary none = .matched b := by
    cases reconcile os s s position primary none with
    | failed e => simp [Outcome.value]
    | matched b' => simp [Outcome.value]
    | applied config b' => simp [Outcome.value]
  simp only [hvalue]
  constructor
  · rintro hsound ⟨rfl, c, hpath, v, hv, a, ha, horigin, hastray⟩
    have hmatched : reconcile os s s position true none = .matched v :=
      (reconcile_placed hpath hv ha).2 ⟨rfl, horigin⟩
    obtain ⟨c', hpath', v', hv', a', ha', hplaced⟩ := hsound v hmatched
    cases Option.mem_unique hpath hpath'
    cases Option.mem_unique hv hv'
    cases Option.mem_unique ha ha'
    rw [← hplaced] at hastray
    exact hastray horigin
  · intro hnot b hmatched
    obtain ⟨c, a, hpath, hv, ha⟩ := reconcile_matched hmatched
    refine ⟨c, hpath, b, hv, a, ha, ?_⟩
    have hb := ((reconcile_placed hpath hv ha).1 hmatched).2
    cases primary with
    | false => exact hb
    | true =>
      by_contra hne
      refine hnot ⟨rfl, c, hpath, b, hv, a, ha, hb, fun ⟨hx, hy⟩ => hne ?_⟩
      generalize hd : a.adjacent b.width b.height position = desired at hx hy
      calc b = ⟨b.x, b.y, b.width, b.height⟩ := rfl
        _ = ⟨desired.x, desired.y, desired.width, desired.height⟩ := by
          rw [hb.1, hb.2, hx, hy, ← hd, adjacent_width, adjacent_height]
        _ = desired := rfl

/-- A device path for the one target with `id`. -/
def named (id : UInt32) : Os where
  devicePath _ n :=
    if n = id then some ['D', 'I', 'S', 'P', 'L', 'A', 'Y', '#', 'S', 'D', 'C', '0', '0', '0', '1']
    else none

/-- A physical display and the virtual one, with their source modes. -/
def desk (physical virtual : SourceMode) : Snapshot where
  paths := [⟨⟨1, 0, 0⟩, { outputTechnology := .other 5, adapterId := 1, id := 4 }, true⟩,
    ⟨⟨2, 0, 1⟩, { outputTechnology := .indirectWired, adapterId := 2, id := 7 }, true⟩]
  modes := [⟨1, 0, some physical⟩, ⟨2, 0, some virtual⟩]

/-- The property fails for the primary display: it is found in its place at the right of the
physical one, with the left side requested. -/
theorem misplaced_matched :
    (reconcile (named 7) (desk ⟨1920, 1080, .bpp32, -1920, 0⟩ ⟨1280, 800, .bpp32, 0, 0⟩)
      (desk ⟨1920, 1080, .bpp32, -1920, 0⟩ ⟨1280, 800, .bpp32, 0, 0⟩) .left true none).value =
        .ok (⟨0, 0, 1280, 800⟩, true) ∧
      ¬ Placed (named 7) (desk ⟨1920, 1080, .bpp32, -1920, 0⟩ ⟨1280, 800, .bpp32, 0, 0⟩) .left := by
  decide

/-! ### What is submitted -/

theorem filter_set {α : Type} {P : α → Bool} {l : List α} {i : ℕ} {x : α} (hx : P x = false)
    (h : ∀ y, l[i]? = some y → P y = false) : (l.set i x).filter P = l.filter P := by
  induction l generalizing i with
  | nil => rfl
  | cons y l ih =>
    cases i with
    | zero =>
      rw [List.set_cons_zero, List.filter_cons_of_neg (by rw [hx]; exact Bool.false_ne_true),
        List.filter_cons_of_neg (by rw [h y rfl]; exact Bool.false_ne_true)]
    | succ i =>
      rw [List.set_cons_succ, List.filter_cons, List.filter_cons, ih h]

theorem find?_set {α : Type} {P : α → Bool} {l : List α} {i : ℕ} {x : α} (hx : P x = true)
    (hi : i < l.length) (h : ∀ j < i, ∀ y, l[j]? = some y → P y = false) :
    (l.set i x).find? P = some x := by
  induction l generalizing i with
  | nil => exact absurd hi (Nat.not_lt_zero _)
  | cons y l ih =>
    cases i with
    | zero => rw [List.set_cons_zero, List.find?_cons, hx]
    | succ i =>
      rw [List.set_cons_succ, List.find?_cons, h 0 (Nat.succ_pos i) y rfl]
      exact ih (Nat.lt_of_succ_lt_succ hi) fun j hj => h (j + 1) (Nat.succ_lt_succ hj)

/-- The source that the virtual display gets. -/
def virtualSource (s : Snapshot) (c : PathInfo) : SourceInfo :=
  if (sourceIndex c s.modes).isSome then c.sourceInfo
  else { c.sourceInfo with modeInfoIdx := s.modes.length }

theorem sourceIndex_congr (h : p.sourceInfo = q.sourceInfo) :
    sourceIndex p modes = sourceIndex q modes := by
  unfold sourceIndex
  rw [h]

/-- Two paths with one source mode have one source. -/
theorem sourceIndex_inj (hp : sourceIndex p modes = some i) (hq : sourceIndex q modes = some i) :
    p.sourceInfo = q.sourceInfo := by
  obtain ⟨hidx, v, hv, -, hid, hadapter⟩ := sourceIndex_eq_some.1 hp
  obtain ⟨hidx', v', hv', -, hid', hadapter'⟩ := sourceIndex_eq_some.1 hq
  cases hv.symm.trans hv'
  calc p.sourceInfo = ⟨p.sourceInfo.adapterId, p.sourceInfo.id, p.sourceInfo.modeInfoIdx⟩ := rfl
    _ = ⟨q.sourceInfo.adapterId, q.sourceInfo.id, q.sourceInfo.modeInfoIdx⟩ := by
      rw [← hid, ← hadapter, hid', hadapter', hidx, hidx']
    _ = q.sourceInfo := rfl

/-- A mode that is added is the source mode of no other source. -/
theorem bounds_append {m : ModeInfo} (h : q.sourceInfo ≠ ⟨m.adapterId, m.id, modes.length⟩) :
    bounds q (modes ++ [m]) = bounds q modes := by
  have hlookup (i : ℕ) (hi : q.sourceInfo.modeInfoIdx = i) (v : ModeInfo)
      (hid : v.id = q.sourceInfo.id) (hadapter : v.adapterId = q.sourceInfo.adapterId) :
      (modes ++ [m])[i]? = some v ↔ modes[i]? = some v := by
    rcases Nat.lt_trichotomy i modes.length with hlt | heq | hgt
    · rw [List.getElem?_append_left hlt]
    · subst heq
      rw [List.getElem?_concat_length, List.getElem?_eq_none le_rfl]
      simp only [Option.some.injEq, reduceCtorEq, iff_false]
      rintro rfl
      exact h (by rw [hid, hadapter, ← hi])
    · rw [List.getElem?_eq_none (by rw [List.length_append]; exact hgt),
        List.getElem?_eq_none hgt.le]
  ext b
  simp only [bounds_eq_some, sourceIndex_eq_some]
  constructor
  · rintro ⟨i, v, mode, ⟨hi, v', hv', hsome, hid, hadapter⟩, hv, hmode, rfl⟩
    cases hv.symm.trans hv'
    have hv := (hlookup i hi v hid hadapter).1 hv
    exact ⟨i, v, mode, ⟨hi, v, hv, hsome, hid, hadapter⟩, hv, hmode, rfl⟩
  · rintro ⟨i, v, mode, ⟨hi, v', hv', hsome, hid, hadapter⟩, hv, hmode, rfl⟩
    cases hv.symm.trans hv'
    have hv := (hlookup i hi v hid hadapter).2 hv
    exact ⟨i, v, mode, ⟨hi, v, hv, hsome, hid, hadapter⟩, hv, hmode, rfl⟩

/-- The path has a source mode, which its source tells from every other one. -/
structure Sourced (s : Snapshot) (c p : PathInfo) (modes : List ModeInfo) (source : ℕ) : Prop where
  targetInfo : p.targetInfo = c.targetInfo
  active : p.active = true
  sourceInfo : p.sourceInfo = virtualSource s c
  index : sourceIndex p modes = some source
  others : ∀ q, q.sourceInfo ≠ p.sourceInfo → bounds q modes = bounds q s.modes

theorem sourced_spec (s : Snapshot) (c : PathInfo) (mode : SourceMode) :
    Sourced s c (sourced { c with active := true } s.modes mode).1
      (sourced { c with active := true } s.modes mode).2.1
      (sourced { c with active := true } s.modes mode).2.2 := by
  have hindex : sourceIndex { c with active := true } s.modes = sourceIndex c s.modes := rfl
  unfold sourced
  rw [hindex]
  cases hj : sourceIndex c s.modes with
  | some j =>
    refine ⟨rfl, rfl, ?_, hj, fun _ _ => rfl⟩
    rw [virtualSource, hj]
    rfl
  | none =>
    refine ⟨rfl, rfl, ?_, ?_, fun q hq => ?_⟩
    · rw [virtualSource, hj]
      rfl
    · exact sourceIndex_eq_some.2 ⟨rfl, _, List.getElem?_concat_length, rfl, rfl, rfl⟩
    · exact bounds_append hq

/-- With `primary`, the place of the virtual display becomes the origin. -/
def shifted (primary : Bool) (desired b : Bounds) : Bounds :=
  if primary then moved desired.x desired.y b else b

variable {c : PathInfo} {fps : UInt32} {desired : Bounds}

/-- Where the paths are submitted: those on the virtual display's source at its place, and the
others where they were. -/
theorem bounds_configure (hc : candidate os s = some c) (q : PathInfo) :
    bounds q (configure os s c fps desired primary requested).modes =
      if q.sourceInfo = virtualSource s c then some (shifted primary desired desired)
      else (bounds q s.modes).map (shifted primary desired) := by
  obtain ⟨-, -, hsource, hindex, hothers⟩ := sourced_spec s c
    ⟨desired.width, desired.height, .bpp32, desired.x, desired.y⟩
  unfold configure
  dsimp only
  rw [activated_eq hc]
  generalize sourced { c with active := true } s.modes
    ⟨desired.width, desired.height, .bpp32, desired.x, desired.y⟩ = r at hsource hindex hothers ⊢
  obtain ⟨p, modes, source⟩ := r
  dsimp only at hsource hindex hothers ⊢
  have hwritten : bounds q (modes.modify source (ModeInfo.write
      ⟨desired.width, desired.height, .bpp32, desired.x, desired.y⟩)) =
        if q.sourceInfo = virtualSource s c then some desired else bounds q s.modes := by
    rw [bounds_write _ hindex]
    by_cases hq : q.sourceInfo = virtualSource s c
    · rw [if_pos ((sourceIndex_congr (hq.trans hsource.symm)).trans hindex), if_pos hq]
      rfl
    · have hne : sourceIndex q modes ≠ some source := fun h =>
        hq ((sourceIndex_inj h hindex).trans hsource)
      rw [if_neg hne, if_neg hq, hothers q fun h => hq (h.trans hsource)]
  cases primary with
  | true =>
    simp only [↓reduceIte, shifted]
    rw [bounds_move, hwritten]
    split_ifs <;> rfl
  | false =>
    have hsame : shifted false desired = id := rfl
    simp only [Bool.false_eq_true, ↓reduceIte, hsame, id_eq, Option.map_id]
    exact hwritten

/-- The active paths with the candidate, and where that is: none in front of it is the virtual
display's. -/
structure Activated (os : Os) (s : Snapshot) (l : List PathInfo) (i : ℕ) : Prop where
  lt : i < l.length
  before : ∀ j < i, ∀ p, l[j]? = some p → sidecar os p = false
  own : ∀ p, l[i]? = some p → sidecar os p = true
  physical : (l.filter fun p => !sidecar os p) = (active s).filter fun p => !sidecar os p
  active : ∀ p ∈ l, p.active = true

theorem activated_spec (hc : candidate os s = some c) :
    Activated os s (activated os s c).1 (activated os s c).2 := by
  have hsidecar : sidecar os { c with active := true } = true :=
    (sidecar_congr rfl rfl rfl c.sourceInfo true).trans (candidate_sidecar hc)
  unfold activated
  cases hi : virtualIndex os s with
  | some i =>
    obtain ⟨hlt, hown, hbefore⟩ := List.findIdx?_eq_some_iff_getElem.1 hi
    refine ⟨hlt, fun j hj p hp => ?_, fun p hp => ?_, rfl, fun p hp => (mem_active.1 hp).2⟩
    · obtain ⟨_, rfl⟩ := List.getElem?_eq_some_iff.1 hp
      simpa using hbefore j hj
    · obtain ⟨_, rfl⟩ := List.getElem?_eq_some_iff.1 hp
      exact hown
  | none =>
    have hnone := List.findIdx?_eq_none_iff.1 hi
    refine ⟨by simp, fun j hj p hp => ?_, fun p hp => ?_, ?_, fun p hp => ?_⟩
    · dsimp only at hp
      rw [List.getElem?_append_left hj] at hp
      exact hnone p (List.mem_of_getElem? hp)
    · dsimp only at hp
      rw [List.getElem?_concat_length] at hp
      cases hp
      exact hsidecar
    · rw [List.filter_append, List.filter_singleton, hsidecar]
      simp
    · rcases List.mem_append.1 hp with hp | hp
      · exact (mem_active.1 hp).2
      · rw [List.mem_singleton.1 hp]

/-- The paths that are submitted. -/
theorem configure_paths (hc : candidate os s = some c) (fps : UInt32) (desired : Bounds)
    (primary : Bool) (requested : Option (UInt32 × UInt32 × UInt32)) :
    ∃ p, sidecar os p = true ∧ p.active = true ∧ p.sourceInfo = virtualSource s c ∧
      (configure os s c fps desired primary requested).paths =
        (activated os s c).1.set (activated os s c).2 p := by
  obtain ⟨htarget, hactive, hsource, -, -⟩ := sourced_spec s c
    ⟨desired.width, desired.height, .bpp32, desired.x, desired.y⟩
  have hsidecar (p : PathInfo) (h : p.targetInfo.outputTechnology = c.targetInfo.outputTechnology)
      (h' : p.targetInfo.adapterId = c.targetInfo.adapterId)
      (h'' : p.targetInfo.id = c.targetInfo.id) : sidecar os p = true :=
    (sidecar_congr h h' h'' p.sourceInfo p.active).trans (candidate_sidecar hc)
  unfold configure
  dsimp only
  rw [activated_eq hc]
  refine ⟨_, ?_, ?_, ?_, rfl⟩
  · apply hsidecar <;> split <;> simp only [retarget, htarget]
  · split <;> simpa [retarget] using hactive
  · split <;> simpa [retarget] using hsource

/-- All paths that are submitted are active. -/
theorem active_configure (hc : candidate os s = some c) :
    active (configure os s c fps desired primary requested) =
      (configure os s c fps desired primary requested).paths := by
  obtain ⟨p, -, hactive, -, hpaths⟩ := configure_paths hc fps desired primary requested
  rw [active, List.filter_eq_self, hpaths]
  intro q hq
  rcases List.mem_or_eq_of_mem_set hq with hq | rfl
  · exact (activated_spec hc).active q hq
  · exact hactive

/-- The physical displays are submitted in their order. -/
theorem physical_configure (hc : candidate os s = some c) :
    physical os (configure os s c fps desired primary requested) =
      ((active s).filter fun p => !sidecar os p).filterMap
        (bounds · (configure os s c fps desired primary requested).modes) := by
  obtain ⟨p, hp, -, -, hpaths⟩ := configure_paths hc fps desired primary requested
  have hspec := activated_spec hc
  rw [physical, active_configure hc, hpaths, filter_set, hspec.physical]
  · rw [hp]
    rfl
  · intro q hq
    rw [hspec.own q hq]
    rfl

/-- The virtual display is submitted at its place. -/
theorem virtualPath_configure (hc : candidate os s = some c) :
    ∃ p, virtualPath os (configure os s c fps desired primary requested) = some p ∧
      bounds p (configure os s c fps desired primary requested).modes =
        some (shifted primary desired desired) := by
  obtain ⟨p, hp, -, hsource, hpaths⟩ := configure_paths hc fps desired primary requested
  have hspec := activated_spec hc
  refine ⟨p, ?_, ?_⟩
  · rw [virtualPath, active_configure hc, hpaths]
    exact find?_set hp hspec.lt hspec.before
  · rw [bounds_configure hc, if_pos hsource]

/-- The place next to the anchor. -/
def place (s : Snapshot) (c : PathInfo) (a : Bounds) (position : Position)
    (requested : Option (UInt32 × UInt32 × UInt32)) : Bounds :=
  a.adjacent (size s c requested).1 (size s c requested).2.1 position

theorem shifted_self (primary : Bool) (desired : Bounds) : shifted primary desired desired =
    if primary then { desired with x := 0, y := 0 } else desired := by
  unfold shifted moved
  rw [Int.sub_self, Int.sub_self]

/-- What is submitted, and the rectangle that is returned. -/
theorem reconcile_applied {config : Snapshot} {b : Bounds}
    (h : reconcile os s now position primary requested = .applied config b) :
    ∃ c a, candidate os s = some c ∧ anchor os s = some a ∧
      config = configure os s c (size s c requested).2.2 (place s c a position requested)
        primary requested ∧
      b = shifted primary (place s c a position requested) (place s c a position requested) := by
  unfold reconcile at h
  split at h
  · exact nomatch h
  rename_i c hc
  split at h
  · exact nomatch h
  rename_i a ha
  refine ⟨c, a, hc, ha, ?_⟩
  rw [shifted_self]
  unfold submit at h
  dsimp only at h
  split_ifs at h
  · cases h
    exact ⟨rfl, (if_pos ‹primary = true›).symm⟩
  · cases h
    exact ⟨rfl, (if_neg ‹¬ primary = true›).symm⟩

/-! ### The next run -/

/-- No active physical display has the source of the virtual one. -/
def OwnSource (os : Os) (s : Snapshot) : Prop :=
  ∀ c ∈ candidate os s, ∀ q ∈ active s, sidecar os q = false →
    ¬ (q.sourceInfo.adapterId = c.sourceInfo.adapterId ∧ q.sourceInfo.id = c.sourceInfo.id)

instance (os : Os) (s : Snapshot) : Decidable (OwnSource os s) :=
  inferInstanceAs (Decidable (∀ c ∈ candidate os s, _))

/-- Windows has stored the source modes that were submitted: those of the physical displays in
their order, and that of the virtual one. -/
structure Stores (os : Os) (s config : Snapshot) : Prop where
  physical : physical os s = physical os config
  virtual : currentBounds os s = currentBounds os config

/-- What the thread makes of a run. -/
def Outcome.attempt (o : Outcome) (r : Reconciler) (t : ℕ) : Reconciler :=
  match o.value with
  | .ok (_, found) => r.result t found
  | .error _ => r.result t false

theorem OwnSource.ne (h : OwnSource os s) (hc : candidate os s = some c) (hq : q ∈ active s)
    (hphysical : sidecar os q = false) : q.sourceInfo ≠ virtualSource s c := by
  intro heq
  refine h c hc q hq hphysical ?_
  rw [heq]
  unfold virtualSource
  split <;> exact ⟨rfl, rfl⟩

/-- With a source of its own, the virtual display leaves the others where they are. -/
theorem OwnSource.physical (h : OwnSource os s) (hc : candidate os s = some c) :
    physical os (configure os s c fps desired primary requested) =
      (physical os s).map (shifted primary desired) := by
  rw [physical_configure hc, Topology.physical, List.map_filterMap]
  refine List.filterMap_congr fun q hq => ?_
  obtain ⟨hactive, hphysical⟩ := List.mem_filter.1 hq
  rw [bounds_configure hc, if_neg (h.ne hc hactive (by simpa using hphysical))]

theorem currentBounds_configure (hc : candidate os s = some c) :
    currentBounds os (configure os s c fps desired primary requested) =
      .ok (shifted primary desired desired) := by
  obtain ⟨p, hp, hbounds⟩ := virtualPath_configure hc
  exact currentBounds_eq_ok.2 ⟨p, hp, hbounds⟩

theorem anchor_isSome : (anchor os s).isSome = true ↔ physical os s ≠ [] := by
  unfold anchor
  cases h : physical os s with
  | nil => simp
  | cons b bs => simp

/-- **One application is enough.**  Where the virtual display has a source of its own and
Windows stores what is submitted, the next run without a mode finds the display in its place,
at the rectangle that the first one returned, and nothing is due any more. -/
theorem reconcile_stable {s' config : Snapshot} {b : Bounds} (hown : OwnSource os s)
    (h : reconcile os s now position primary requested = .applied config b)
    (hstores : Stores os s' config) :
    (reconcile os s' s' position primary none).value = .ok (b, true) ∧
      ∀ (r : Reconciler) (t t' : ℕ),
        ((reconcile os s' s' position primary none).attempt
          ((reconcile os s now position primary requested).attempt r t) t').dirty = false := by
  obtain ⟨c, a, hc, ha, rfl, rfl⟩ := reconcile_applied h
  have hcurrent := hstores.virtual.trans (currentBounds_configure hc)
  obtain ⟨p, hpath, hbounds⟩ := currentBounds_eq_ok.1 hcurrent
  have hphysical := hstores.physical.trans (hown.physical hc)
  have hmatched : reconcile os s' s' position primary none =
      .matched (shifted primary (place s c a position requested)
        (place s c a position requested)) := by
    have hne : physical os s' ≠ [] := by
      rw [hphysical, ne_eq, List.map_eq_nil_iff]
      exact anchor_isSome.1 (by rw [ha]; rfl)
    obtain ⟨a', ha'⟩ := Option.isSome_iff_exists.1 (anchor_isSome.2 hne)
    refine (reconcile_placed hpath hbounds ha').2 ⟨rfl, ?_⟩
    rw [shifted_self]
    cases primary with
    | true => exact ⟨rfl, rfl⟩
    | false =>
      have hsame : shifted false (place s c a position requested) = id := rfl
      rw [hsame, List.map_id] at hphysical
      have haa : a' = a := by
        rw [anchor, hphysical] at ha'
        exact Option.some.inj (ha'.symm.trans ha)
      simp only [Bool.false_eq_true, ↓reduceIte, haa]
      rw [place, adjacent_width, adjacent_height]
  have hvalue : (reconcile os s' s' position primary none).value =
      .ok (shifted primary (place s c a position requested)
        (place s c a position requested), true) := congrArg Outcome.value hmatched
  refine ⟨hvalue, fun r t t' => ?_⟩
  rw [hmatched]
  rfl

/-- The virtual display goes from below the physical one to its right. -/
theorem reconcile_stable_sample :
    (reconcile (named 7) (desk ⟨1920, 1080, .bpp32, 0, 0⟩ ⟨1280, 800, .bpp32, 1920, 0⟩)
      (desk ⟨1920, 1080, .bpp32, 0, 0⟩ ⟨1280, 800, .bpp32, 1920, 0⟩) .right false none).value =
        .ok (⟨1920, 0, 1280, 800⟩, true) ∧
      ∀ (r : Reconciler) (t t' : ℕ),
        ((reconcile (named 7) (desk ⟨1920, 1080, .bpp32, 0, 0⟩ ⟨1280, 800, .bpp32, 1920, 0⟩)
          (desk ⟨1920, 1080, .bpp32, 0, 0⟩ ⟨1280, 800, .bpp32, 1920, 0⟩) .right false none).attempt
          ((reconcile (named 7) (desk ⟨1920, 1080, .bpp32, 0, 0⟩ ⟨1280, 800, .bpp32, 0, 1080⟩)
            (desk ⟨1920, 1080, .bpp32, 0, 0⟩ ⟨1280, 800, .bpp32, 0, 1080⟩) .right false
              none).attempt r t) t').dirty = false :=
  reconcile_stable (by decide) rfl ⟨rfl, rfl⟩

end Topology
end Host
end SidecarDOS
