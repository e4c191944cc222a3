/-
# Displays in the way

`reconcile` places the virtual display at a side of one physical display, the anchor, and looks
at no other.  The place is apart from the anchor at every side (`adjacent_apart`); it is
apart from all of them exactly if it is free in the snapshot (`placed_free`), which a desktop
with one physical display grants (`alone_free`) and one with two does not (`placed_on_top`).
-/

import SidecarDOS.Host.Placement

namespace SidecarDOS
namespace Host

/-- A pixel lies in the rectangle. -/
def Bounds.Contains (b : Bounds) (x y : ℤ) : Prop :=
  (b.x ≤ x ∧ x < b.x + b.width.toNat) ∧ b.y ≤ y ∧ y < b.y + b.height.toNat

/-- The rectangles share a pixel. -/
def Bounds.Overlaps (a b : Bounds) : Prop := ∃ x y, a.Contains x y ∧ b.Contains x y

namespace Topology

variable {os : Os} {s now : Snapshot} {position : Position} {primary : Bool}
  {requested : Option (UInt32 × UInt32 × UInt32)} {a b : Bounds}

/-! ### Rectangles -/

/-- The larger of the corners lies in both rectangles, if any pixel does. -/
theorem overlaps_iff : a.Overlaps b ↔
    (max a.x b.x < a.x + a.width.toNat ∧ max a.x b.x < b.x + b.width.toNat) ∧
      max a.y b.y < a.y + a.height.toNat ∧ max a.y b.y < b.y + b.height.toNat := by
  constructor
  · rintro ⟨x, y, ⟨⟨hax, hax'⟩, hay, hay'⟩, ⟨hbx, hbx'⟩, hby, hby'⟩
    have hx : max a.x b.x ≤ x := max_le hax hbx
    have hy : max a.y b.y ≤ y := max_le hay hby
    exact ⟨⟨hx.trans_lt hax', hx.trans_lt hbx'⟩, hy.trans_lt hay', hy.trans_lt hby'⟩
  · rintro ⟨⟨hax, hbx⟩, hay, hby⟩
    exact ⟨max a.x b.x, max a.y b.y, ⟨⟨le_max_left _ _, hax⟩, le_max_left _ _, hay⟩,
      ⟨le_max_right _ _, hbx⟩, le_max_right _ _, hby⟩

instance (a b : Bounds) : Decidable (a.Overlaps b) := decidable_of_iff _ overlaps_iff.symm

/-- Whether rectangles overlap does not depend on the origin. -/
theorem overlaps_moved (x y : ℤ) : (moved x y a).Overlaps (moved x y b) ↔ a.Overlaps b := by
  constructor
  · rintro ⟨px, py, ha, hb⟩
    refine ⟨px + x, py + y, ?_, ?_⟩
    · simp only [Bounds.Contains, moved] at ha ⊢
      omega
    · simp only [Bounds.Contains, moved] at hb ⊢
      omega
  · rintro ⟨px, py, ha, hb⟩
    refine ⟨px - x, py - y, ?_, ?_⟩
    · simp only [Bounds.Contains, moved] at ha ⊢
      omega
    · simp only [Bounds.Contains, moved] at hb ⊢
      omega

theorem overlaps_shifted (primary : Bool) (desired : Bounds) :
    (shifted primary desired a).Overlaps (shifted primary desired b) ↔ a.Overlaps b := by
  cases primary with
  | true => exact overlaps_moved _ _
  | false => exact Iff.rfl

/-- The place next to the anchor is apart from it, whatever its size. -/
theorem adjacent_apart (a : Bounds) (w h : UInt32) (position : Position) :
    ¬ a.Overlaps (a.adjacent w h position) := by
  rintro ⟨x, y, ⟨⟨hax, hax'⟩, hay, hay'⟩, ⟨hbx, hbx'⟩, hby, hby'⟩
  cases position with
  | left =>
    simp only [Bounds.adjacent] at hbx'
    omega
  | right =>
    simp only [Bounds.adjacent] at hbx
    omega
  | above =>
    simp only [Bounds.adjacent] at hby'
    omega
  | below =>
    simp only [Bounds.adjacent] at hby
    omega

/-! ### The submitted rectangles -/

/-- The place next to the anchor is free: no active physical display overlaps it, and if one has
the source of the virtual display, whose rectangle it gets, then that has no pixel. -/
def Free (os : Os) (s : Snapshot) (position : Position)
    (requested : Option (UInt32 × UInt32 × UInt32)) : Prop :=
  ∀ c ∈ candidate os s, ∀ a ∈ anchor os s, ∀ q ∈ active s, sidecar os q = false →
    if q.sourceInfo = virtualSource s c then
      ¬ (place s c a position requested).Overlaps (place s c a position requested)
    else ∀ r ∈ bounds q s.modes, ¬ r.Overlaps (place s c a position requested)

instance (os : Os) (s : Snapshot) (position : Position)
    (requested : Option (UInt32 × UInt32 × UInt32)) : Decidable (Free os s position requested) :=
  inferInstanceAs (Decidable (∀ c ∈ candidate os s, _))

/-- **The virtual display is submitted on top of no physical display**, exactly if its place is
free in the snapshot. -/
theorem placed_free {config : Snapshot}
    (h : reconcile os s now position primary requested = .applied config b) :
    currentBounds os config = .ok b ∧
      ((∀ r ∈ physical os config, ¬ r.Overlaps b) ↔ Free os s position requested) := by
  obtain ⟨c, a, hc, ha, rfl, rfl⟩ := reconcile_applied h
  refine ⟨currentBounds_configure hc, ?_⟩
  generalize hD : place s c a position requested = D
  have hfree : Free os s position requested ↔ ∀ q ∈ active s, sidecar os q = false →
      if q.sourceInfo = virtualSource s c then ¬ D.Overlaps D
      else ∀ r ∈ bounds q s.modes, ¬ r.Overlaps D := by
    simp only [Free, hc, ha, Option.mem_def, Option.some.injEq, forall_eq', hD]
  have hmem (r : Bounds) :
      r ∈ physical os (configure os s c (size s c requested).2.2 D primary requested) ↔
        ∃ q ∈ active s, sidecar os q = false ∧
          bounds q (configure os s c (size s c requested).2.2 D primary requested).modes =
            some r := by
    rw [physical_configure hc, List.mem_filterMap]
    simp only [List.mem_filter, Bool.not_eq_true', and_assoc]
  rw [hfree]
  constructor
  · intro hall q hq hphysical
    split
    · rename_i hshared
      rw [← overlaps_shifted primary D]
      refine hall _ ((hmem _).2 ⟨q, hq, hphysical, ?_⟩)
      rw [bounds_configure hc, if_pos hshared]
    · rename_i hown
      intro r hr
      rw [← overlaps_shifted primary D]
      refine hall _ ((hmem _).2 ⟨q, hq, hphysical, ?_⟩)
      rw [bounds_configure hc, if_neg hown, Option.mem_def.1 hr]
      rfl
  · intro hall r hr
    obtain ⟨q, hq, hphysical, hbounds⟩ := (hmem r).1 hr
    have hq' := hall q hq hphysical
    rw [bounds_configure hc] at hbounds
    split_ifs at hq' hbounds with hshared
    · cases hbounds
      rwa [overlaps_shifted]
    · obtain ⟨r', hr', rfl⟩ := Option.map_eq_some_iff.1 hbounds
      rw [overlaps_shifted]
      exact hq' r' hr'

/-- Two physical displays side by side, and the virtual one, which is not active yet. -/
def desks : Snapshot where
  paths := [⟨⟨1, 0, 0⟩, { outputTechnology := .other 5, adapterId := 1, id := 4 }, true⟩,
    ⟨⟨1, 1, 1⟩, { outputTechnology := .other 5, adapterId := 1, id := 5 }, true⟩,
    ⟨⟨2, 0, modeIdxInvalid⟩, { outputTechnology := .indirectWired, adapterId := 2, id := 7 },
      false⟩]
  modes := [⟨1, 0, some ⟨1920, 1080, .bpp32, 0, 0⟩⟩, ⟨1, 1, some ⟨1920, 1080, .bpp32, 1920, 0⟩⟩]

/-- Below two displays there is a free place, and the virtual one gets it. -/
theorem placed_free_sample : ∃ config,
    reconcile (named 7) desks desks .below false none = .applied config ⟨0, 1080, 1920, 1080⟩ ∧
      (physical (named 7) config).length = 2 ∧
        ∀ r ∈ physical (named 7) config, ¬ r.Overlaps ⟨0, 1080, 1920, 1080⟩ :=
  ⟨_, rfl, rfl, (@placed_free (named 7) desks desks .below false none _ _ rfl).2.2 (by decide)⟩

/-- The property fails for two displays side by side, which do not overlap: the right of the
anchor is the place of the other one. -/
theorem placed_on_top :
    (physical (named 7) desks).Pairwise (fun a b => ¬ a.Overlaps b) ∧ ∃ config b,
      reconcile (named 7) desks desks .right false none = .applied config b ∧
        ∃ r ∈ physical (named 7) config, r.Overlaps b := by
  refine ⟨by decide, _, _, rfl, ?_⟩
  decide

/-- A virtual display with a source of its own has a free place next to the only physical
display. -/
theorem alone_free (hown : OwnSource os s) (halone : physical os s = [a]) :
    Free os s position requested := by
  intro c hc a' ha' q hq hphysical
  rw [if_neg (hown.ne hc hq hphysical)]
  intro r hr
  have hmem : r ∈ physical os s :=
    List.mem_filterMap.2 ⟨q, List.mem_filter.2 ⟨hq, by rw [hphysical]; rfl⟩, hr⟩
  have hanchor : a' = a := by
    rw [anchor, halone] at ha'
    simp only [List.find?_singleton, List.head?_cons, Option.mem_def] at ha'
    split at ha' <;> exact (Option.some.inj ha').symm
  rw [halone, List.mem_singleton] at hmem
  rw [hmem, hanchor]
  exact adjacent_apart a _ _ position

end Topology
end Host
end SidecarDOS
