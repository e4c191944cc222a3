/-
# The modes that the host asks for

`display::modes` of `windows/host/src/display/mod.rs` scales the panel of the client
down to a few sizes and checks the pixel clock of each, but not that they are still
as large as the driver wants them: of a panel whose long edge is more than four
times the short one, the shorter edge falls below 320 (`narrow_refused`).  And a mode
change gives every advertised size another frame rate without a look at its clock
(`fast_refused`).  The driver accepts the modes exactly where neither happens
(`modes_accepted`).
-/

import Mathlib.Algebra.Order.Floor.Semifield
import Mathlib.Data.Rat.Floor
import SidecarDOS.Host.Reservation
import SidecarDOS.Host.Tasks

namespace SidecarDOS
namespace Host

open Library (Reaches Ends Yields ends_pure ends_bind)

/-! ### `display::modes` -/

/-- `(max_edge as f64 / w.max(h) as f64).min(1.0)`, exactly. -/
def scale (maxEdge w h : UInt32) : ℚ := min ((maxEdge.toNat : ℚ) / (max w h).toNat) 1

/-- `((v as f64 * scale) as u32) & !1`, exactly. -/
def scaled (v : UInt32) (scale : ℚ) : UInt32 := UInt32.ofNat ⌊(v.toNat : ℚ) * scale⌋₊ &&& ~~~1

/-- `if !sizes.contains(&pair) { sizes.push(pair) }`. -/
def push (sizes : List (UInt32 × UInt32)) (pair : UInt32 × UInt32) : List (UInt32 × UInt32) :=
  if pair ∈ sizes then sizes else sizes ++ [pair]

/-- The sizes of a panel. -/
def sizes (w h : UInt32) : List (UInt32 × UInt32) :=
  let sizes := [1280, 1920, max w h].foldl (fun sizes maxEdge =>
    push sizes (scaled w (scale maxEdge w h), scaled h (scale maxEdge w h))) []
  let fullHd : UInt32 × UInt32 := if w ≥ h then (1920, 1080) else (1080, 1920)
  if fullHd.1 ≤ w ∧ fullHd.2 ≤ h then push sizes fullHd else sizes

/-- The limit of the EDID's pixel clock. -/
def Clocked (width height fps : UInt32) : Prop :=
  (width.toNat + 160) * (height.toNat + 30) * fps.toNat ≤ 655350000

instance (width height fps : UInt32) : Decidable (Clocked width height fps) :=
  inferInstanceAs (Decidable (_ ≤ _))

/-- `display::modes`; the scale of a valid client lies between 1 and 4. -/
def modes (c : DisplayCapabilities) (fps : UInt32) : Except Error (List DisplayMode) :=
  if ¬ (320 ≤ c.physicalWidth ∧ c.physicalWidth ≤ 4094 ∧
      320 ≤ c.physicalHeight ∧ c.physicalHeight ≤ 4094) then
    .error (.ensure "unsupported iPad dimensions")
  else if ¬ (0x3f800000 ≤ c.nativeScale.bits ∧ c.nativeScale.bits ≤ 0x40800000 ∧
      c.maxFps ≥ 30) then
    .error (.ensure "invalid display capabilities")
  else if ¬ (c.logicalWidth > 0 ∧ c.logicalHeight > 0) then
    .error (.ensure "invalid logical resolution")
  else
    let fps := min (min fps c.maxFps) 60
    let sizes := sizes c.physicalWidth c.physicalHeight
    if ¬ (sizes.all fun size => Clocked size.1 size.2 fps) = true then
      .error (.ensure "display timing exceeds EDID clock limit")
    else .ok (sizes.map fun size => ⟨size.1, size.2, fps, if size.1 ≥ 2300 then 150 else 100⟩)

/-- The modes in the order of the `Connect`: those of the preferred size come first. -/
def sorted (preferred : DisplayMode) (modes : List DisplayMode) : List DisplayMode :=
  let is (m : DisplayMode) : Bool := m.width = preferred.width ∧ m.height = preferred.height
  modes.filter is ++ modes.filter (! is ·)

/-- The long edge of the panel is at most four times the short one, or it is not scaled. -/
def Compact (c : DisplayCapabilities) : Prop :=
  max c.physicalWidth.toNat c.physicalHeight.toNat ≤ 1280 ∨
    max c.physicalWidth.toNat c.physicalHeight.toNat ≤
      4 * min c.physicalWidth.toNat c.physicalHeight.toNat

/-! ### The sizes -/

theorem toNat_even (v : UInt32) : (v &&& ~~~1).toNat = v.toNat / 2 * 2 := by
  have hmask : (~~~1 : UInt32).toNat = (2 ^ 31 - 1) * 2 ^ 1 := rfl
  have hv : v.toNat < 2 ^ 32 := v.toNat_lt
  rw [UInt32.toNat_and, hmask]
  refine Nat.eq_of_testBit_eq fun i => ?_
  rw [Nat.testBit_and, Nat.testBit_mul_two_pow, Nat.testBit_two_pow_sub_one]
  have hhalf : v.toNat / 2 * 2 = v.toNat / 2 ^ 1 * 2 ^ 1 := rfl
  rw [hhalf, Nat.testBit_mul_two_pow, Nat.testBit_div_two_pow]
  by_cases hi : 1 ≤ i
  · rw [Nat.sub_add_cancel hi]
    by_cases hlt : i - 1 < 31
    · simp [hi, hlt]
    · have hhigh : v.toNat.testBit i = false := by
        refine Nat.testBit_lt_two_pow (lt_of_lt_of_le hv ?_)
        exact Nat.pow_le_pow_right (by decide) (by omega)
      simp [hhigh]
  · simp [hi]

theorem toNat_max (v w : UInt32) : (max v w).toNat = max v.toNat w.toNat := by
  show (if v ≤ w then w else v).toNat = _
  split
  · rename_i h
    exact (max_eq_right h).symm
  · rename_i h
    have hle : ¬ v.toNat ≤ w.toNat := h
    exact (max_eq_left (by omega)).symm

theorem toNat_min (v w : UInt32) : (min v w).toNat = min v.toNat w.toNat := by
  show (if v ≤ w then v else w).toNat = _
  split
  · rename_i h
    exact (min_eq_left h).symm
  · rename_i h
    have hle : ¬ v.toNat ≤ w.toNat := h
    exact (min_eq_right (by omega)).symm

/-- The floor of an edge that is scaled down, and an edge that is not. -/
theorem floor_scale (v maxEdge : UInt32) {w h : UInt32} (hw : 0 < w.toNat) :
    ⌊(v.toNat : ℚ) * scale maxEdge w h⌋₊ =
      if max w.toNat h.toNat ≤ maxEdge.toNat then v.toNat
      else v.toNat * maxEdge.toNat / max w.toNat h.toNat := by
  have hlongest : 0 < max w.toNat h.toNat := lt_of_lt_of_le hw (le_max_left ..)
  unfold scale
  rw [toNat_max]
  generalize max w.toNat h.toNat = longest at *
  have hpos : (0 : ℚ) < longest := Nat.cast_pos.2 hlongest
  split
  · rename_i hle
    have hone : (1 : ℚ) ≤ (maxEdge.toNat : ℚ) / longest := by
      rw [le_div_iff₀ hpos, one_mul]
      exact Nat.cast_le.2 hle
    rw [min_eq_right hone, mul_one, Nat.floor_natCast]
  · rename_i hlt
    have hone : (maxEdge.toNat : ℚ) / longest ≤ 1 := by
      rw [div_le_one hpos]
      exact Nat.cast_le.2 (by omega)
    rw [min_eq_left hone, ← mul_div_assoc, ← Nat.cast_mul, Nat.floor_div_eq_div]

/-- What the driver wants of an edge. -/
def Edge (v : UInt32) : Prop := 320 ≤ v.toNat ∧ v.toNat ≤ 4094 ∧ v.toNat % 2 = 0

theorem floor_le (v maxEdge w h : UInt32) :
    ⌊(v.toNat : ℚ) * scale maxEdge w h⌋₊ ≤ v.toNat := by
  have hle : (v.toNat : ℚ) * scale maxEdge w h ≤ v.toNat :=
    mul_le_of_le_one_right (Nat.cast_nonneg _) (min_le_right ..)
  exact (Nat.floor_le_floor hle).trans (Nat.floor_natCast _).le

theorem toNat_scaled (v maxEdge w h : UInt32) : (scaled v (scale maxEdge w h)).toNat =
    ⌊(v.toNat : ℚ) * scale maxEdge w h⌋₊ / 2 * 2 := by
  have hle := floor_le v maxEdge w h
  have hv : v.toNat < 2 ^ 32 := v.toNat_lt
  rw [scaled, toNat_even, UInt32.toNat_ofNat_of_lt' (hle.trans_lt hv)]

instance (v : UInt32) : Decidable (Edge v) := inferInstanceAs (Decidable (_ ∧ _ ∧ _))

theorem scaled_edge {v w h : UInt32} (maxEdge : UInt32) (hv : v = w ∨ v = h)
    (hw : 320 ≤ w.toNat ∧ w.toNat ≤ 4094) (hh : 320 ≤ h.toNat ∧ h.toNat ≤ 4094) :
    Edge (scaled v (scale maxEdge w h)) ↔ max w.toNat h.toNat ≤ maxEdge.toNat ∨
      320 * max w.toNat h.toNat ≤ v.toNat * maxEdge.toNat := by
  have hv' : 320 ≤ v.toNat ∧ v.toNat ≤ 4094 := by
    rcases hv with rfl | rfl
    · exact hw
    · exact hh
  have hlongest : 320 ≤ max w.toNat h.toNat := hw.1.trans (le_max_left ..)
  have hle := floor_le v maxEdge w h
  unfold Edge
  rw [toNat_scaled]
  rw [floor_scale v maxEdge (by omega)] at hle ⊢
  generalize max w.toNat h.toNat = longest at *
  split at hle
  · rename_i hshort
    rw [if_pos hshort]
    exact ⟨fun _ => .inl hshort, fun _ => ⟨by omega, by omega, by omega⟩⟩
  · rename_i hlong
    rw [if_neg hlong]
    have hiff : 320 ≤ v.toNat * maxEdge.toNat / longest ↔
        320 * longest ≤ v.toNat * maxEdge.toNat :=
      Nat.le_div_iff_mul_le (by omega)
    rw [← hiff]
    constructor
    · rintro ⟨hge, -, -⟩
      exact .inr (by omega)
    · rintro (hshort | hge)
      · exact absurd hshort hlong
      · exact ⟨by omega, by omega, by omega⟩

theorem mem_push {sizes : List (UInt32 × UInt32)} {pair size : UInt32 × UInt32} :
    size ∈ push sizes pair ↔ size ∈ sizes ∨ size = pair := by
  unfold push
  split
  · rename_i hmem
    constructor
    · exact .inl
    · rintro (h | rfl)
      · exact h
      · exact hmem
  · rw [List.mem_append, List.mem_singleton]

theorem length_push (sizes : List (UInt32 × UInt32)) (pair : UInt32 × UInt32) :
    (push sizes pair).length ≤ sizes.length + 1 := by
  unfold push
  split
  · omega
  · rw [List.length_append, List.length_singleton]

/-- The size of a panel with the long edge `maxEdge`. -/
abbrev sizeOf (maxEdge w h : UInt32) : UInt32 × UInt32 :=
  (scaled w (scale maxEdge w h), scaled h (scale maxEdge w h))

/-- The sizes that the panel is scaled to. -/
abbrev scaledSizes (w h : UInt32) : List (UInt32 × UInt32) :=
  push (push (push [] (sizeOf 1280 w h)) (sizeOf 1920 w h)) (sizeOf (max w h) w h)

theorem sizes_cases (w h : UInt32) : sizes w h = scaledSizes w h ∨
    sizes w h = push (scaledSizes w h) (1920, 1080) ∨
      sizes w h = push (scaledSizes w h) (1080, 1920) := by
  unfold sizes
  dsimp only
  by_cases hwide : w ≥ h
  · rw [if_pos hwide]
    split
    · exact .inr (.inl rfl)
    · exact .inl rfl
  · rw [if_neg hwide]
    split
    · exact .inr (.inr rfl)
    · exact .inl rfl

theorem mem_scaledSizes {w h : UInt32} {size : UInt32 × UInt32} :
    size ∈ scaledSizes w h ↔ ∃ maxEdge ∈ [1280, 1920, max w h], size = sizeOf maxEdge w h := by
  simp [mem_push, or_assoc]

theorem mem_sizes {w h : UInt32} {size : UInt32 × UInt32} (hsize : size ∈ sizes w h) :
    size ∈ scaledSizes w h ∨ size = (1920, 1080) ∨ size = (1080, 1920) := by
  rcases sizes_cases w h with heq | heq | heq
  · rw [heq] at hsize
    exact .inl hsize
  · rw [heq, mem_push] at hsize
    exact hsize.imp_right .inl
  · rw [heq, mem_push] at hsize
    exact hsize.imp_right .inr

theorem scaledSizes_subset {w h : UInt32} {size : UInt32 × UInt32}
    (hsize : size ∈ scaledSizes w h) : size ∈ sizes w h := by
  rcases sizes_cases w h with heq | heq | heq
  · rwa [heq]
  · rw [heq]
    exact mem_push.2 (.inl hsize)
  · rw [heq]
    exact mem_push.2 (.inl hsize)

theorem length_sizes (w h : UInt32) : (sizes w h).length ≤ 4 := by
  have hscaled : (scaledSizes w h).length ≤ 3 := by
    have hone := length_push [] (sizeOf 1280 w h)
    have htwo := length_push (push [] (sizeOf 1280 w h)) (sizeOf 1920 w h)
    have hthree := length_push (push (push [] (sizeOf 1280 w h)) (sizeOf 1920 w h))
      (sizeOf (max w h) w h)
    rw [List.length_nil] at hone
    unfold scaledSizes
    omega
  rcases sizes_cases w h with heq | heq | heq
  · rw [heq]
    omega
  · rw [heq]
    exact (length_push ..).trans (Nat.succ_le_succ hscaled)
  · rw [heq]
    exact (length_push ..).trans (Nat.succ_le_succ hscaled)

/-- Every size suits the driver exactly where the panel is compact. -/
theorem sizes_edges {w h : UInt32} (hw : 320 ≤ w.toNat ∧ w.toNat ≤ 4094)
    (hh : 320 ≤ h.toNat ∧ h.toNat ≤ 4094) :
    (∀ size ∈ sizes w h, Edge size.1 ∧ Edge size.2) ↔ max w.toNat h.toNat ≤ 1280 ∨
      max w.toNat h.toNat ≤ 4 * min w.toNat h.toNat := by
  constructor
  · intro hall
    have hsize := hall _ (scaledSizes_subset (mem_scaledSizes.2 ⟨1280, List.mem_cons_self .., rfl⟩))
    have hfirst := (scaled_edge 1280 (.inl rfl) hw hh).1 hsize.1
    have hsecond := (scaled_edge 1280 (.inr rfl) hw hh).1 hsize.2
    have h1280 : (1280 : UInt32).toNat = 1280 := rfl
    rw [h1280] at hfirst hsecond
    omega
  · intro hcompact size hsize
    rcases mem_sizes hsize with hsize | rfl | rfl
    · obtain ⟨maxEdge, hmem, rfl⟩ := mem_scaledSizes.1 hsize
      have hmaxEdge : max w.toNat h.toNat ≤ maxEdge.toNat ∨ 1280 ≤ maxEdge.toNat := by
        simp only [List.mem_cons, List.not_mem_nil, or_false] at hmem
        rcases hmem with rfl | rfl | rfl
        · exact .inr (le_refl 1280)
        · exact .inr (by decide)
        · exact .inl (toNat_max w h).ge
      refine ⟨(scaled_edge maxEdge (.inl rfl) hw hh).2 ?_, (scaled_edge maxEdge (.inr rfl) hw hh).2 ?_⟩
      · rcases hmaxEdge with hmaxEdge | hmaxEdge
        · exact .inl hmaxEdge
        · have hmul := Nat.mul_le_mul_left w.toNat hmaxEdge
          omega
      · rcases hmaxEdge with hmaxEdge | hmaxEdge
        · exact .inl hmaxEdge
        · have hmul := Nat.mul_le_mul_left h.toNat hmaxEdge
          omega
    · exact ⟨by decide, by decide⟩
    · exact ⟨by decide, by decide⟩

/-! ### What the driver accepts -/

theorem even_iff (v : UInt32) : v % 2 = 0 ↔ v.toNat % 2 = 0 := by
  rw [← UInt32.toNat_inj, UInt32.toNat_mod]
  rfl

theorem fitsDevice_iff (m : DisplayMode) : fitsDevice m = true ↔
    (Edge m.width ∧ Edge m.height) ∧ (30 ≤ m.fps ∧ m.fps ≤ 60) ∧
      Clocked m.width m.height m.fps := by
  have hle (v w : UInt32) : v ≤ w ↔ v.toNat ≤ w.toNat := Iff.rfl
  unfold fitsDevice Edge Clocked
  simp only [Bool.and_eq_true, decide_eq_true_eq, even_iff, hle]
  have h320 : (320 : UInt32).toNat = 320 := rfl
  have h4094 : (4094 : UInt32).toNat = 4094 := rfl
  rw [h320, h4094]
  constructor
  · rintro ⟨⟨⟨⟨⟨⟨⟨⟨hw, hh⟩, hw'⟩, hh'⟩, heven⟩, heven'⟩, hfps⟩, hfps'⟩, hclocked⟩
    exact ⟨⟨⟨hw, hw', heven⟩, hh, hh', heven'⟩, ⟨hfps, hfps'⟩, hclocked⟩
  · rintro ⟨⟨⟨hw, hw', heven⟩, hh, hh', heven'⟩, ⟨hfps, hfps'⟩, hclocked⟩
    exact ⟨⟨⟨⟨⟨⟨⟨⟨hw, hh⟩, hw'⟩, hh'⟩, heven⟩, heven'⟩, hfps⟩, hfps'⟩, hclocked⟩

theorem accepted_iff (modes : List DisplayMode) : Accepted modes ↔
    (modes ≠ [] ∧ modes.length ≤ 4) ∧ ∀ m ∈ modes, (Edge m.width ∧ Edge m.height) ∧
      (30 ≤ m.fps ∧ m.fps ≤ 60) ∧ Clocked m.width m.height m.fps := by
  unfold Accepted
  rw [List.all_eq_true]
  exact and_congr_right fun _ => forall₂_congr fun m _ => fitsDevice_iff m

theorem sorted_perm (p : DisplayMode) (modes : List DisplayMode) : (sorted p modes).Perm modes :=
  List.filter_append_perm _ modes

/-- The order of the modes does not matter. -/
theorem accepted_sorted (p : DisplayMode) (modes : List DisplayMode) :
    Accepted (sorted p modes) ↔ Accepted modes := by
  have hperm := sorted_perm p modes
  rw [accepted_iff, accepted_iff, hperm.length_eq, ← List.length_pos_iff, hperm.length_eq,
    List.length_pos_iff]
  simp only [hperm.mem_iff]

theorem modes_eq {c : DisplayCapabilities} {fps : UInt32}
    (hpanel : 320 ≤ c.physicalWidth ∧ c.physicalWidth ≤ 4094 ∧
      320 ≤ c.physicalHeight ∧ c.physicalHeight ≤ 4094)
    (hclient : 0x3f800000 ≤ c.nativeScale.bits ∧ c.nativeScale.bits ≤ 0x40800000 ∧ c.maxFps ≥ 30)
    (hlogical : c.logicalWidth > 0 ∧ c.logicalHeight > 0)
    (hclocked : ((sizes c.physicalWidth c.physicalHeight).all fun size =>
      Clocked size.1 size.2 (min (min fps c.maxFps) 60)) = true) :
    modes c fps = .ok ((sizes c.physicalWidth c.physicalHeight).map fun size =>
      ⟨size.1, size.2, min (min fps c.maxFps) 60, if size.1 ≥ 2300 then 150 else 100⟩) := by
  unfold modes
  dsimp only
  rw [if_neg (not_not.2 hpanel), if_neg (not_not.2 hclient), if_neg (not_not.2 hlogical),
    if_neg (not_not.2 hclocked)]

/-- What `display::modes` has checked. -/
theorem modes_ok {c : DisplayCapabilities} {fps : UInt32} {list : List DisplayMode}
    (h : modes c fps = .ok list) :
    ((320 ≤ c.physicalWidth.toNat ∧ c.physicalWidth.toNat ≤ 4094) ∧
      320 ≤ c.physicalHeight.toNat ∧ c.physicalHeight.toNat ≤ 4094) ∧ 30 ≤ c.maxFps ∧
    (∀ size ∈ sizes c.physicalWidth c.physicalHeight,
      Clocked size.1 size.2 (min (min fps c.maxFps) 60)) ∧
    list = (sizes c.physicalWidth c.physicalHeight).map fun size =>
      ⟨size.1, size.2, min (min fps c.maxFps) 60, if size.1 ≥ 2300 then 150 else 100⟩ := by
  unfold modes at h
  dsimp only at h
  split_ifs at h with hpanel hclient hlogical hclocked
  obtain ⟨hw, hw', hh, hh'⟩ := hpanel
  refine ⟨⟨⟨hw, hw'⟩, hh, hh'⟩, hclient.2.2, fun size hsize => ?_, (Except.ok.inj h).symm⟩
  exact of_decide_eq_true (List.all_eq_true.1 hclocked size hsize)

theorem accepted_modes {c : DisplayCapabilities} {fps : UInt32} {list : List DisplayMode}
    (hfps : 30 ≤ fps ∧ fps ≤ 60) (h : modes c fps = .ok list) :
    Accepted list ↔ Compact c := by
  obtain ⟨⟨hw, hh⟩, hmax, hclocked, rfl⟩ := modes_ok h
  have hrate : 30 ≤ min (min fps c.maxFps) 60 ∧ min (min fps c.maxFps) 60 ≤ 60 := by
    show 30 ≤ (min (min fps c.maxFps) 60).toNat ∧ (min (min fps c.maxFps) 60).toNat ≤ 60
    rw [toNat_min, toNat_min]
    have hfps' : 30 ≤ fps.toNat := hfps.1
    have hmax' : 30 ≤ c.maxFps.toNat := hmax
    have h60 : (60 : UInt32).toNat = 60 := rfl
    omega
  have hcount : (sizes c.physicalWidth c.physicalHeight) ≠ [] :=
    List.ne_nil_of_mem (scaledSizes_subset (mem_scaledSizes.2 ⟨1280, List.mem_cons_self .., rfl⟩))
  have hlength := length_sizes c.physicalWidth c.physicalHeight
  unfold Compact
  rw [accepted_iff, ← sizes_edges hw hh, List.length_map, List.forall_mem_map]
  constructor
  · rintro ⟨-, hall⟩ size hsize
    exact (hall size hsize).1
  · intro hall
    refine ⟨⟨by simpa using hcount, hlength⟩, fun size hsize => ?_⟩
    exact ⟨hall size hsize, hrate, hclocked size hsize⟩

/-- The list of the `Connect` that `session` enqueues. -/
theorem greet_connect (s : Runtime) (w : Wake) (id : Id16) (c : DisplayCapabilities) (fps : UInt32) :
    Ends (Task.greet w id (modes c fps)) s fun r s' => ∀ session, r = .ok session →
      ∃ list p, modes c fps = .ok list ∧ Task.preferred list = some p ∧
        s'.queue = s.queue ++ [.connect id (sorted p list)] := by
  have hwrite {T : Type} [Wire T] (v : T) (sequence : UInt64) (token : Id16) (s₁ : Runtime) :
      Yields (Task.write w v sequence token) s₁ fun _ s' => s'.queue = s₁.queue := by
    unfold Task.write
    exact .demand_bind fun _ => .modify rfl
  unfold Task.greet
  cases hmodes : modes c fps with
  | error e => exact nofun
  | ok list =>
    refine ends_bind.2 (ends_pure.2 ?_)
    dsimp only
    split
    · rename_i p hpreferred
      refine Yields.demand_bind fun _ => ?_
      refine Yields.bind (P := fun _ s' => s'.queue = s.queue ++ [.connect id (sorted p list)])
        ((Task.command_spec s _).mono ?_) fun _ s₁ hs₁ => ?_
      · rintro r s' (⟨-, rfl, rfl⟩ | ⟨-, rfl, -⟩)
        · exact fun _ _ => rfl
        · exact nofun
      · refine (hwrite _ _ _ _).bind fun _ s₂ hs₂ => (hwrite _ _ _ _).bind fun _ s₃ hs₃ => ?_
        exact .get_bind (.pure ⟨list, p, rfl, hpreferred, hs₃.trans (hs₂.trans hs₁)⟩)
    · exact nofun

namespace Pipeline

variable {s s' : Pipeline} {t : Turn} {cmd : Option Command}

/-- The advertised sizes of a session are those of a list that the driver once took. -/
def Advertises (s : Pipeline) : Prop :=
  s.state ≠ .idle → (s.previousModes ≠ [] ∧ s.previousModes.length ≤ 4) ∧
    ∀ mode ∈ s.previousModes, Edge mode.width ∧ Edge mode.height

theorem advertises_of_accepted (h : Accepted s.previousModes) : s.Advertises := by
  obtain ⟨hcount, hall⟩ := (accepted_iff _).1 h
  exact fun _ => ⟨hcount, fun mode hmode => (hall mode hmode).1⟩

theorem Advertises.same (hs : Same s s') (h : s.Advertises) : s'.Advertises := by
  unfold Advertises
  rw [hs.state, hs.previousModes]
  exact h

theorem connect_advertises {device : Id16} {modes : List DisplayMode}
    (hs : Op.Connects device modes s s') (h : s.Advertises) : s'.Advertises := by
  rcases hs.monitor with ⟨haccepted, -⟩ | ⟨⟨deadline, hgrace⟩, hmodes, -⟩
  · refine advertises_of_accepted ?_
    rwa [hs.previousModes]
  · intro _
    rw [hs.previousModes, hmodes]
    refine h ?_
    rw [hgrace]
    exact nofun

theorem mode_advertises {m : DisplayModeChange} (hs : Op.Modes m s s') (h : s.Advertises) :
    s'.Advertises := by
  intro hstate
  rw [hs.state] at hstate
  obtain ⟨⟨hne, hlength⟩, hall⟩ := h hstate
  by_cases hretimes : Op.Retimes s m
  · rw [hs.retimed hretimes, retimed, List.length_map, List.forall_mem_map]
    exact ⟨⟨by simpa using hne, hlength⟩, hall⟩
  · rw [(hs.kept hretimes).1]
    exact ⟨⟨hne, hlength⟩, hall⟩

theorem handle_advertises (h : s.Advertises) :
    Yields (Op.handle t cmd) s fun _ s' => s'.state.expired t.now = false → s'.Advertises := by
  unfold Op.handle
  split
  · exact .pure fun _ => h
  · exact (Op.connect_yields _ _).bind fun _ _ hs => .pure fun _ => connect_advertises hs h
  · refine (Op.disconnect_yields _).bind fun _ s₁ hs => .pure fun _ hstate => ?_
    rcases hs with hidle | ⟨hgrace, -, hmodes⟩
    · exact absurd hidle hstate
    · rw [hmodes]
      refine h fun hidle => hstate ?_
      rw [hgrace, hidle]
      rfl
  · refine .get_bind (.ite (fun _ => ?_) fun _ => .pure fun _ => h)
    exact .demand_bind fun _ => .pure fun _ => h
  · exact (Op.mode_yields _).bind fun _ _ hs => .pure fun _ => mode_advertises hs h
  · exact .modify_bind (.pure fun _ => h)
  · exact .pure fun _ => h

theorem reaches_advertises (h : Reaches step Initial (fun _ _ => True) s)
    (hrunning : s.stopped = false) : s.Advertises := by
  revert hrunning
  refine h.invariant (I := fun s => s.stopped = false → s.Advertises) ?_ fun s a hs _ => ?_
  · rintro _ ⟨config, changed, now, -, rfl⟩ - hstate
    exact absurd rfl hstate
  · cases a with
    | turn t cmd =>
      intro hrunning
      have hstep : s.step (.turn t cmd) = if s.stopped then s else s.turn t cmd := rfl
      rw [hstep] at hrunning ⊢
      split at hrunning
      · rename_i hstopped
        exact absurd (hrunning.symm.trans hstopped) Bool.false_ne_true
      · rename_i hn
        rw [if_neg hn]
        exact turn_keeps (fun _ hidle hstate => absurd hidle hstate) (fun _ _ => .same)
          (handle_advertises (hs (Bool.eq_false_iff.2 hn))) hrunning
    | keyframe => exact hs
    | bitrate rate => exact hs
    | displayChanged => exact hs
    | event => exact hs

/-- A mode change of a session fails at nothing but the pixel clock of a size. -/
theorem accepted_retimed (h : Reaches step Initial (fun _ _ => True) s)
    (hrunning : s.stopped = false) {device : Id16} (hstate : s.state = .streaming device)
    {m : DisplayModeChange} (hm : Op.Requests s m) : Accepted (retimed s.previousModes m.fps) ↔
      ∀ mode ∈ s.previousModes, Clocked mode.width mode.height m.fps := by
  obtain ⟨⟨hne, hlength⟩, hall⟩ := reaches_advertises h hrunning (by rw [hstate]; exact nofun)
  obtain ⟨⟨-, -, -, -, -, -, hfps⟩, -⟩ := hm
  rw [accepted_iff, retimed, List.length_map, List.forall_mem_map]
  constructor
  · rintro ⟨-, haccepted⟩ mode hmode
    exact (haccepted mode hmode).2.2
  · intro hclocked
    refine ⟨⟨by simpa using hne, hlength⟩, fun mode hmode => ?_⟩
    exact ⟨hall mode hmode, hfps, hclocked mode hmode⟩

end Pipeline

/-- The list of a `Connect` fails at nothing but an edge that has become too short. -/
theorem accepted_connect {c : DisplayCapabilities} {fps : UInt32} {list : List DisplayMode}
    {p : DisplayMode} (hfps : 30 ≤ fps ∧ fps ≤ 60) (hmodes : modes c fps = .ok list) :
    Accepted (sorted p list) ↔ Compact c := by
  rw [accepted_sorted, accepted_modes hfps hmodes]

/-- **The driver accepts the modes** of a `Connect` exactly where the panel is compact, and
those of a mode change exactly where every size can be had at the new frame rate. -/
theorem modes_accepted (c : DisplayCapabilities) (s : Pipeline) :
    (∀ fps list p, 30 ≤ fps ∧ fps ≤ 60 → modes c fps = .ok list → Task.preferred list = some p →
      (Accepted (sorted p list) ↔ Compact c)) ∧
    ∀ device m, Reaches Pipeline.step Pipeline.Initial (fun _ _ => True) s → s.stopped = false →
      s.state = .streaming device → Op.Requests s m → Op.Retimes s m →
        (Accepted (retimed s.previousModes m.fps) ↔
          ∀ mode ∈ s.previousModes, Clocked mode.width mode.height m.fps) :=
  ⟨fun _ _ _ hfps hmodes _ => accepted_connect hfps hmodes,
    fun _ _ hs hrunning hstate hm _ => Pipeline.accepted_retimed hs hrunning hstate hm⟩

/-! ### Panels -/

def samplePanel (width height : UInt32) : DisplayCapabilities :=
  ⟨width, height, width, height, 60, ⟨0x40000000⟩, ⟨0⟩, ⟨0⟩, ⟨0⟩, ⟨0⟩, 0⟩

/-- The thread behind the `Connect` of a device with these modes. -/
def sampleSession (list : List DisplayMode) : Pipeline :=
  Pipeline.step (.spawn {} false 0)
    (.turn (Pipeline.sampleTurn 0) (some (.connect (Pipeline.sampleDevice 1) list)))

theorem sampleSession_reaches (list : List DisplayMode) :
    Reaches Pipeline.step Pipeline.Initial (fun _ _ => True) (sampleSession list) := by
  have hinit : Pipeline.Initial (.spawn {} false 0) := ⟨{}, false, 0, by decide, rfl⟩
  exact (Reaches.init hinit).step trivial

def sampleLarge : List DisplayMode :=
  [⟨1280, 958, 60, 100⟩, ⟨1920, 1438, 60, 100⟩, ⟨2732, 2048, 60, 150⟩, ⟨1920, 1080, 60, 100⟩]

/-- The hypotheses of `modes_accepted` are satisfiable: a large iPad gets its modes, and half
their frame rate when it asks for it. -/
theorem modes_accepted_sample : Accepted (sorted ⟨1920, 1080, 60, 100⟩ sampleLarge) ∧
    Accepted (retimed
      (sampleSession (sorted ⟨1920, 1080, 60, 100⟩ sampleLarge)).previousModes 30) := by
  have hlarge : modes (samplePanel 2732 2048) 60 = .ok sampleLarge :=
    (modes_eq (by decide) (by decide) (by decide) (by decide +kernel)).trans
      (congrArg Except.ok (by decide +kernel))
  have hstate : (sampleSession (sorted ⟨1920, 1080, 60, 100⟩ sampleLarge)).state =
      .streaming (Pipeline.sampleDevice 1) := by
    decide +kernel
  obtain ⟨hconnect, hmode⟩ := modes_accepted (samplePanel 2732 2048)
    (sampleSession (sorted ⟨1920, 1080, 60, 100⟩ sampleLarge))
  have hconnect := hconnect _ _ ⟨1920, 1080, 60, 100⟩ (by decide) hlarge (by decide)
  have hmode := hmode _ ⟨1920, 1080, 30⟩ (sampleSession_reaches _) (by decide +kernel) hstate
    ⟨by decide, by decide +kernel⟩ (by decide +kernel)
  exact ⟨hconnect.2 (.inr (by decide)), hmode.2 (by decide +kernel)⟩

def sampleNarrow : List DisplayMode :=
  [⟨1280, 160, 60, 100⟩, ⟨1920, 240, 60, 100⟩, ⟨2560, 320, 60, 150⟩]

/-- A panel of 2560 by 320 gets a mode of 1280 by 160. -/
theorem narrow_refused : modes (samplePanel 2560 320) 60 = .ok sampleNarrow ∧
    ∀ p, ¬ Accepted (sorted p sampleNarrow) := by
  have hmodes : modes (samplePanel 2560 320) 60 = .ok sampleNarrow :=
    (modes_eq (by decide) (by decide) (by decide) (by decide +kernel)).trans
      (congrArg Except.ok (by decide +kernel))
  refine ⟨hmodes, fun p haccepted => ?_⟩
  rw [accepted_sorted, accepted_iff] at haccepted
  exact absurd (haccepted.2 _ (List.mem_cons_self ..)).1.2 (by decide)

def sampleSquare : List DisplayMode :=
  [⟨1280, 1280, 30, 100⟩, ⟨1920, 1920, 30, 100⟩, ⟨4094, 4094, 30, 150⟩, ⟨1920, 1080, 30, 100⟩]

/-- A panel of 4094 by 4094 at 30 frames per second can ask for 60. -/
theorem fast_refused : modes (samplePanel 4094 4094) 30 = .ok sampleSquare ∧
    Op.Requests (sampleSession sampleSquare) ⟨4094, 4094, 60⟩ ∧
      Op.Retimes (sampleSession sampleSquare) ⟨4094, 4094, 60⟩ ∧
        ¬ Accepted (retimed (sampleSession sampleSquare).previousModes 60) := by
  have hmodes : modes (samplePanel 4094 4094) 30 = .ok sampleSquare :=
    (modes_eq (by decide) (by decide) (by decide) (by decide +kernel)).trans
      (congrArg Except.ok (by decide +kernel))
  refine ⟨hmodes, ⟨by decide, by decide +kernel⟩, by decide +kernel, ?_⟩
  intro haccepted
  exact absurd haccepted.2 (by decide +kernel)

/-- The property fails for both lists: that of a `Connect`, and that of a mode change. -/
theorem modes_refused :
    (¬ ∀ c fps list p, 30 ≤ fps ∧ fps ≤ 60 → modes c fps = .ok list → Task.preferred list = some p →
      Accepted (sorted p list)) ∧
    ¬ ∀ s device m, Reaches Pipeline.step Pipeline.Initial (fun _ _ => True) s → s.stopped = false →
      s.state = .streaming device → Op.Requests s m → Op.Retimes s m →
        Accepted (retimed s.previousModes m.fps) := by
  constructor
  · intro h
    obtain ⟨hmodes, hrefused⟩ := narrow_refused
    exact hrefused _ (h _ _ _ ⟨2560, 320, 60, 150⟩ (by decide) hmodes (by decide))
  · intro h
    obtain ⟨-, hrequests, hretimes, hrefused⟩ := fast_refused
    exact hrefused (h _ (Pipeline.sampleDevice 1) _ (sampleSession_reaches _)
      (by decide +kernel) (by decide +kernel) hrequests hretimes)

end Host
end SidecarDOS
