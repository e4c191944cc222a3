/-
# What stays pressed

The injector releases what it keeps in `keys` and `buttons` when it is dropped.  It
keeps too little in two places: a modifier leaves `keys` before its release is
injected, and the buttons of a mouse event enter `buttons` when all of them have
been injected.  So a release of a modifier that fails leaves the key down, and a
button that fails behind another one that was pressed leaves that one down
(`key_stuck`, `button_stuck`).  Nothing else leaves anything down
(`nothing_stays`).
-/

import Mathlib.Data.List.TakeWhile
import Mathlib.Data.Nat.Bitwise
import SidecarDOS.Host.Injector
import SidecarDOS.Library.Runs

namespace SidecarDOS
namespace Host

open Library (Reaches Ends Within exec ends_pure ends_throw ends_bind ends_get ends_modify
  ends_demand)

/-! ### The bits of a mask -/

/-- A mask of one bit tells it. -/
theorem and_mask_iff {mask : UInt32} {k : ℕ} (hk : mask.toNat = 2 ^ k) (v : UInt32) :
    v &&& mask ≠ 0 ↔ v.toNat.testBit k = true := by
  rw [Ne, ← UInt32.toNat_inj, UInt32.toNat_and, hk, Nat.and_two_pow]
  cases v.toNat.testBit k
  · simp
  · simp

theorem xor_mask_iff {mask : UInt32} {k : ℕ} (hk : mask.toNat = 2 ^ k) (v w : UInt32) :
    (v ^^^ w) &&& mask ≠ 0 ↔ v.toNat.testBit k ≠ w.toNat.testBit k := by
  rw [and_mask_iff hk, UInt32.toNat_xor, Nat.testBit_xor]
  cases v.toNat.testBit k <;> cases w.toNat.testBit k <;> decide

theorem masks_two_pow {mask : UInt32} (h : mask ∈ Injector.masks) : ∃ k, mask.toNat = 2 ^ k := by
  simp only [Injector.masks, List.mem_cons, List.not_mem_nil, or_false] at h
  rcases h with rfl | rfl | rfl
  · exact ⟨0, rfl⟩
  · exact ⟨1, rfl⟩
  · exact ⟨2, rfl⟩

/-- A button that is to change is up exactly where it is to be down. -/
theorem mask_changes {mask : UInt32} (h : mask ∈ Injector.masks) {v w : UInt32}
    (hchange : (v ^^^ w) &&& mask ≠ 0) : v &&& mask ≠ 0 ↔ ¬ w &&& mask ≠ 0 := by
  obtain ⟨k, hk⟩ := masks_two_pow h
  rw [xor_mask_iff hk] at hchange
  rw [and_mask_iff hk, and_mask_iff hk]
  revert hchange
  cases v.toNat.testBit k <;> cases w.toNat.testBit k <;> decide

theorem mask_kept {mask : UInt32} (h : mask ∈ Injector.masks) {v w : UInt32}
    (hkept : ¬ (v ^^^ w) &&& mask ≠ 0) : v &&& mask ≠ 0 ↔ w &&& mask ≠ 0 := by
  obtain ⟨k, hk⟩ := masks_two_pow h
  rw [xor_mask_iff hk, not_not] at hkept
  rw [and_mask_iff hk, and_mask_iff hk, hkept]

namespace Injector

variable {s s' : Injector} {a : Outcome} {e : InputEvent}

/-- What Windows holds down is kept. -/
structure Tracks (s : Injector) : Prop where
  keys : ∀ code, s.windows.keys code = true → code ∈ s.keys
  buttons : ∀ mask, s.windows.buttons mask = true → s.buttons &&& mask ≠ 0

/-- Windows holds nothing down. -/
structure Up (s : Injector) : Prop where
  keys : ∀ code, s.windows.keys code = false
  buttons : ∀ mask, s.windows.buttons mask = false

/-- The keys that are kept are those that Windows holds down. -/
def Keyed (s : Injector) : Prop := ∀ code, s.windows.keys code = true ↔ code ∈ s.keys

/-- Only the three buttons are pressed, and those that are down are kept. -/
def Buttoned (s : Injector) : Prop :=
  ∀ mask, s.windows.buttons mask = true → mask ∈ masks ∧ s.buttons &&& mask ≠ 0

/-- A key is down that is not kept. -/
def Stuck (s : Injector) : Prop := ∃ code, s.windows.keys code = true ∧ code ∉ s.keys

theorem Tracks.of_keyed (hkeys : s.Keyed) (hbuttons : s.Buttoned) : s.Tracks :=
  ⟨fun code hcode => (hkeys code).1 hcode, fun mask hmask => (hbuttons mask hmask).2⟩

theorem Stuck.not_tracks (h : s.Stuck) : ¬ s.Tracks := by
  obtain ⟨code, hdown, hkept⟩ := h
  exact fun ht => hkept (ht.keys code hdown)

/-! ### The plan of an event -/

/-- The first injection of a plan that fails. -/
def halt (a : Outcome) (plan : List Injection) : Option Injection := plan.find? fun i => ! a.ok i

/-- What a modifier injects. -/
def Modifier.plan (m : Modifier) (keys : List UInt16) (e : InputEvent) (scan : UInt16) :
    List Injection :=
  if scan = m.left ∨ scan = m.right then []
  else if e.modifiers &&& m.mask ≠ 0 then
    if m.left ∉ keys ∧ m.right ∉ keys then [.key m.left false] else []
  else ([m.left, m.right].filter (· ∈ keys)).map (.key · true)

/-- What the buttons of a mouse event inject. -/
def buttonPlan (buttons : UInt32) (e : InputEvent) (masks : List UInt32) : List Injection :=
  (masks.filter fun mask => (e.buttons ^^^ buttons) &&& mask ≠ 0).map
    fun mask => .button mask (e.buttons &&& mask ≠ 0)

/-- The first modifier that fails is one that is released. -/
def KeySlips (s : Injector) (a : Outcome) (e : InputEvent) : Prop :=
  ∃ scan code, scanCode e.physicalKey = some scan ∧
    halt a (modifiers.flatMap (Modifier.plan · s.keys e scan)) = some (.key code true)

/-- A mouse event gets to its buttons. -/
def Clicks (s : Injector) (a : Outcome) (e : InputEvent) : Prop :=
  (e.dx.isDelta ∧ e.dy.isDelta) ∧ s.touches = [] ∧
    (e.kind = 1 → ∃ p, s.bounds.map a e.x e.y = .ok p) ∧ a.ok .move = true

/-- A button fails behind one that was pressed. -/
def ButtonSlips (s : Injector) (a : Outcome) (e : InputEvent) : Prop :=
  s.Clicks a e ∧ (∃ i, halt a (buttonPlan s.buttons e masks) = some i) ∧
    ∃ mask, .button mask true ∈ (buttonPlan s.buttons e masks).takeWhile a.ok

/-- The event leaves something down that is not kept. -/
def Slips (s : Injector) (a : Outcome) (e : InputEvent) : Prop :=
  (e.phase ≤ 3 ∧ e.buttons ≤ 7 ∧ e.isRepeat ≤ 1) ∧
    ((e.kind = 3 ∧ s.KeySlips a e) ∨ ((e.kind = 1 ∨ e.kind = 2) ∧ s.ButtonSlips a e))

theorem halt_append (a : Outcome) (plan plan' : List Injection) :
    halt a (plan ++ plan') = (halt a plan).or (halt a plan') :=
  List.find?_append

theorem halt_cons_of_ok {i : Injection} {plan : List Injection} (h : a.ok i = true) :
    halt a (i :: plan) = halt a plan := by
  simp [halt, h]

theorem halt_cons_of_fails {i : Injection} {plan : List Injection} (h : ¬ a.ok i = true) :
    halt a (i :: plan) = some i := by
  simp [halt, h]

/-! ### The keyboard -/

/-- The keyboard leaves the buttons alone, and the keys other than `codes`. -/
structure Rest (codes : List UInt16) (s s' : Injector) : Prop where
  buttons : s'.buttons = s.buttons
  pressed : s'.windows.buttons = s.windows.buttons
  keys : ∀ code ∉ codes, code ∈ s'.keys ↔ code ∈ s.keys

theorem Rest.refl (codes : List UInt16) (s : Injector) : Rest codes s s :=
  ⟨rfl, rfl, fun _ _ => Iff.rfl⟩

theorem Rest.trans {codes codes' : List UInt16} {s'' : Injector} (h : Rest codes s s')
    (h' : Rest codes' s' s'') : Rest (codes ++ codes') s s'' := by
  refine ⟨h'.buttons.trans h.buttons, h'.pressed.trans h.pressed, fun code hcode => ?_⟩
  rw [List.mem_append, not_or] at hcode
  rw [h'.keys code hcode.2, h.keys code hcode.1]

theorem Rest.mono {codes codes' : List UInt16} (h : Rest codes s s') (hsub : codes ⊆ codes') :
    Rest codes' s s' :=
  ⟨h.buttons, h.pressed, fun code hcode => h.keys code fun hmem => hcode (hsub hmem)⟩

/-- How a part of the keyboard ends whose plan stops at `i`. -/
def Settles (i : Option Injection) (r : Except Error Unit) (s' : Injector) : Prop :=
  match i with
  | none => r = .ok () ∧ s'.Keyed
  | some (.key _ true) => (∃ e, r = .error e) ∧ s'.Stuck
  | some _ => (∃ e, r = .error e) ∧ s'.Keyed

theorem Settles.ok {i : Option Injection} {u : Unit} (h : Settles i (.ok u) s') :
    i = none ∧ s'.Keyed := by
  unfold Settles at h
  split at h
  · exact ⟨rfl, h.2⟩
  · obtain ⟨⟨e, he⟩, -⟩ := h
    cases he
  · obtain ⟨⟨e, he⟩, -⟩ := h
    cases he

theorem Settles.error {e : Error} (h : Settles none (.error e) s') : False := by
  cases h.1

/-- A part of the keyboard that touches `codes` and follows `plan`. -/
def Part (a : Outcome) (codes : List UInt16) (plan : List Injection) (m : Inject Unit)
    (s : Injector) : Prop :=
  Ends m s fun r s' => Rest codes s s' ∧ Settles (halt a plan) r s'

theorem Part.pure (hs : s.Keyed) : Part a [] [] (Pure.pure ()) s :=
  ends_pure.2 ⟨.refl _ s, rfl, hs⟩

theorem Part.bind {codes codes' : List UInt16} {plan plan' : List Injection} {m : Inject Unit}
    {k : Unit → Inject Unit} (h : Part a codes plan m s)
    (hk : ∀ s', Rest codes s s' → s'.Keyed → Part a codes' plan' (k ()) s') :
    Part a (codes ++ codes') (plan ++ plan') (m >>= k) s := by
  unfold Part
  rw [halt_append]
  refine Ends.bind h (fun _ s' ⟨hrest, hsettles⟩ => ?_) fun e s' ⟨hrest, hsettles⟩ => ?_
  · obtain ⟨hhalt, hkeyed⟩ := hsettles.ok
    rw [hhalt, Option.none_or]
    exact (hk s' hrest hkeyed).mono fun _ _ ⟨hrest', hsettles'⟩ => ⟨hrest.trans hrest', hsettles'⟩
  · refine ⟨hrest.mono (List.subset_append_left ..), ?_⟩
    cases hhalt : halt a plan with
    | none =>
      rw [hhalt] at hsettles
      exact hsettles.error.elim
    | some i =>
      rw [hhalt] at hsettles
      exact hsettles

theorem Part.mono {codes codes' : List UInt16} {plan : List Injection} {m : Inject Unit}
    (h : Part a codes plan m s) (hsub : codes ⊆ codes') : Part a codes' plan m s :=
  Ends.mono h fun _ _ ⟨hrest, hsettles⟩ => ⟨hrest.mono hsub, hsettles⟩

/-- A release leaves `keys` first. -/
theorem releaseKey_part (hs : s.Keyed) (code : UInt16) :
    Part a [code] (if code ∈ s.keys then [.key code true] else []) (releaseKey a code) s := by
  unfold Part releaseKey
  refine ends_bind.2 (ends_get.2 (.ite (fun hmem => ?_) fun hmem => ?_))
  · rw [if_pos hmem]
    have hrest (w : Windows) (hw : w.buttons = s.windows.buttons) : Rest [code] s
        { s with keys := s.keys.filter (· ≠ code), windows := w } := by
      refine ⟨rfl, hw, fun code' hne => ?_⟩
      rw [List.mem_singleton] at hne
      simp [hne]
    refine ends_bind.2 (ends_modify.2 (ends_bind.2 (ends_demand.2 ⟨fun hok => ?_, fun hfail => ?_⟩)))
    · rw [halt_cons_of_ok hok]
      refine ends_modify.2 ⟨hrest _ rfl, rfl, fun code' => ?_⟩
      show Function.update s.windows.keys code false code' = true ↔ _
      by_cases heq : code' = code
      · subst heq
        simp
      · rw [Function.update_of_ne heq, hs code']
        simp [heq]
    · rw [halt_cons_of_fails hfail]
      exact ⟨hrest _ rfl, ⟨_, rfl⟩, code, (hs code).2 hmem, by simp⟩
  · rw [if_neg hmem]
    exact ends_pure.2 ⟨.refl _ s, rfl, hs⟩

/-- A press enters `keys` behind its injection. -/
theorem pressKey_part (hs : s.Keyed) (code : UInt16) :
    Part a [code] [.key code false] (do
      send a (.key code false)
      modify fun s => { s with keys := s.keys.insert code }) s := by
  unfold Part
  refine ends_bind.2 (ends_bind.2 (ends_demand.2 ⟨fun hok => ?_, fun hfail => ?_⟩))
  · rw [halt_cons_of_ok hok]
    refine ends_modify.2 (ends_modify.2 ⟨⟨rfl, rfl, fun code' hne => ?_⟩, rfl, fun code' => ?_⟩)
    · rw [List.mem_singleton] at hne
      simp [hne]
    · show Function.update s.windows.keys code true code' = true ↔ code' ∈ s.keys.insert code
      by_cases heq : code' = code
      · subst heq
        simp
      · rw [Function.update_of_ne heq, hs code']
        simp [heq]
  · rw [halt_cons_of_fails hfail]
    exact ⟨.refl _ s, ⟨_, rfl⟩, hs⟩

theorem modifier_part (hs : s.Keyed) (scan : UInt16) {m : Modifier} (hne : m.left ≠ m.right) :
    Part a [m.left, m.right] (m.plan s.keys e scan) (modifier a e scan m) s := by
  unfold modifier Modifier.plan
  split
  · exact (Part.pure hs).mono (List.nil_subset _)
  · split
    · refine ends_bind.2 (ends_get.2 (.ite (fun hup => ?_) fun hup => ?_))
      · rw [if_pos hup]
        exact (pressKey_part hs m.left).mono (by simp)
      · rw [if_neg hup]
        exact (Part.pure hs).mono (List.nil_subset _)
    · have hplan : (([m.left, m.right].filter (· ∈ s.keys)).map (.key · true) : List Injection) =
          (if m.left ∈ s.keys then [.key m.left true] else []) ++
            ((if m.right ∈ s.keys then [.key m.right true] else []) ++ []) := by
        by_cases hl : m.left ∈ s.keys <;> by_cases hr : m.right ∈ s.keys <;> simp [hl, hr]
      rw [hplan]
      refine (releaseKey_part hs m.left).bind fun s₁ hrest hs₁ => ?_
      have hright := hrest.keys m.right (by simpa using hne.symm)
      have hpart := releaseKey_part (a := a) hs₁ m.right
      simp only [hright] at hpart
      exact hpart.bind fun s₂ _ hs₂ => Part.pure hs₂

theorem plan_congr {m : Modifier} {keys keys' : List UInt16} (scan : UInt16)
    (hleft : m.left ∈ keys' ↔ m.left ∈ keys) (hright : m.right ∈ keys' ↔ m.right ∈ keys) :
    m.plan keys' e scan = m.plan keys e scan := by
  have hfilter : [m.left, m.right].filter (· ∈ keys') = [m.left, m.right].filter (· ∈ keys) := by
    refine List.filter_congr fun code hcode => ?_
    rcases List.mem_pair.1 hcode with rfl | rfl
    · exact decide_eq_decide.2 hleft
    · exact decide_eq_decide.2 hright
  unfold Modifier.plan
  simp only [hfilter, hleft, hright]

/-- The two codes of a modifier. -/
abbrev Modifier.codes (m : Modifier) : List UInt16 := [m.left, m.right]

/-- The loop follows the plan that the keys before it have laid out. -/
theorem modifiers_part (hs : s.Keyed) (scan : UInt16) (ms : List Modifier)
    (hne : ∀ m ∈ ms, m.left ≠ m.right)
    (hdisjoint : ms.Pairwise fun m n => ∀ code ∈ m.codes, code ∉ n.codes) :
    Part a (ms.flatMap Modifier.codes) (ms.flatMap (Modifier.plan · s.keys e scan))
      (ms.forM (modifier a e scan)) s := by
  induction ms generalizing s with
  | nil => exact Part.pure hs
  | cons m ms ih =>
    obtain ⟨hm, hms⟩ := List.pairwise_cons.1 hdisjoint
    rw [List.flatMap_cons, List.flatMap_cons]
    refine (modifier_part hs scan (hne m (List.mem_cons_self ..))).bind fun s₁ hrest hs₁ => ?_
    have hplans : ms.flatMap (Modifier.plan · s.keys e scan) =
        ms.flatMap (Modifier.plan · s₁.keys e scan) := by
      refine List.flatMap_congr fun n hn => ?_
      have hkept (code : UInt16) (hcode : code ∈ n.codes) : code ∈ s₁.keys ↔ code ∈ s.keys :=
        hrest.keys code fun hmem => hm n hn code hmem hcode
      exact (plan_congr scan (hkept _ (by simp)) (hkept _ (by simp))).symm
    rw [hplans]
    exact ih hs₁ (fun n hn => hne n (List.mem_cons_of_mem _ hn)) hms

theorem keyboard_ends (hs : s.Keyed) : Ends (keyboard a e) s fun _ s' =>
    (s'.buttons = s.buttons ∧ s'.windows.buttons = s.windows.buttons) ∧
      (s.KeySlips a e → s'.Stuck) ∧ (¬ s.KeySlips a e → s'.Keyed) := by
  unfold keyboard KeySlips
  split
  · rename_i hscan
    refine ends_pure.2 ⟨⟨rfl, rfl⟩, ?_, fun _ => hs⟩
    rintro ⟨scan, code, hsome, -⟩
    cases hscan.symm.trans hsome
  · rename_i scan hscan
    have hne : ∀ m ∈ modifiers, m.left ≠ m.right := by simp [modifiers]
    have hdisjoint : modifiers.Pairwise fun m n => ∀ code ∈ m.codes, code ∉ n.codes := by
      simp [modifiers, Modifier.codes]
    have hloop := modifiers_part (a := a) (e := e) hs scan modifiers hne hdisjoint
    refine Ends.bind hloop (fun _ s₁ ⟨hrest, hsettles⟩ => ?_) fun error s₁ ⟨hrest, hsettles⟩ => ?_
    · obtain ⟨hhalt, hs₁⟩ := hsettles.ok
      have hsafe : ¬ ∃ scan' code, scanCode e.physicalKey = some scan' ∧
          halt a (modifiers.flatMap (Modifier.plan · s.keys e scan')) = some (.key code true) := by
        rintro ⟨scan', code, hscan', hslips⟩
        cases hscan.symm.trans hscan'
        cases hhalt.symm.trans hslips
      refine ends_bind.2 (ends_get.2 (.ite (fun _ => ?_) fun _ => ?_))
      · refine ends_bind.2 (ends_bind.2 (ends_demand.2 ⟨fun _ => ends_modify.2 (ends_modify.2 ?_),
          fun _ => ⟨⟨hrest.buttons, hrest.pressed⟩, fun h => absurd h hsafe, fun _ => hs₁⟩⟩))
        refine ⟨⟨hrest.buttons, hrest.pressed⟩, fun h => absurd h hsafe, fun _ code => ?_⟩
        show Function.update s₁.windows.keys scan (! decide (e.phase ≥ 2)) code = true ↔
          code ∈ if decide (e.phase ≥ 2) then s₁.keys.filter (· ≠ scan) else s₁.keys.insert scan
        cases decide (e.phase ≥ 2)
        · by_cases heq : code = scan
          · subst heq
            simp
          · rw [Function.update_of_ne heq, hs₁ code]
            simp [heq]
        · by_cases heq : code = scan
          · subst heq
            simp
          · rw [Function.update_of_ne heq, hs₁ code]
            simp [heq]
      · exact ends_pure.2 ⟨⟨hrest.buttons, hrest.pressed⟩, fun h => absurd h hsafe, fun _ => hs₁⟩
    · refine ⟨⟨hrest.buttons, hrest.pressed⟩, ?_, fun hn => ?_⟩
      · rintro ⟨scan', code, hscan', hslips⟩
        cases hscan.symm.trans hscan'
        rw [hslips] at hsettles
        exact hsettles.2
      · cases hhalt : halt a (modifiers.flatMap (Modifier.plan · s.keys e scan)) with
        | none =>
          rw [hhalt] at hsettles
          exact hsettles.error.elim
        | some i =>
          rw [hhalt] at hsettles
          unfold Settles at hsettles
          split at hsettles
          · rename_i hnone
            cases hnone
          · rename_i code hcode
            cases hcode
            exact absurd ⟨scan, code, hscan, hhalt⟩ hn
          · exact hsettles.2

/-! ### The mouse -/

/-- The loop follows its plan until an injection fails. -/
theorem buttons_ends (ms : List UInt32) : Ends (ms.forM (button a e)) s fun r s' =>
    s' = { s with windows :=
      ((buttonPlan s.buttons e ms).takeWhile a.ok).foldl Windows.after s.windows } ∧
      (r = .ok () ↔ halt a (buttonPlan s.buttons e ms) = none) := by
  induction ms generalizing s with
  | nil => exact ends_pure.2 ⟨rfl, by simp [halt, buttonPlan]⟩
  | cons mask ms ih =>
    refine ends_bind.2 ?_
    unfold button
    refine ends_bind.2 (ends_get.2 (.ite (fun hchange => ?_) fun hkept => ?_))
    · have hplan : buttonPlan s.buttons e (mask :: ms) =
          .button mask (e.buttons &&& mask ≠ 0) :: buttonPlan s.buttons e ms := by
        simp [buttonPlan, hchange]
      rw [hplan]
      refine ends_bind.2 (ends_demand.2 ⟨fun hok => ends_modify.2 ?_, fun hfail => ?_⟩)
      · rw [halt_cons_of_ok hok, List.takeWhile_cons_of_pos hok, List.foldl_cons]
        exact ih
      · rw [halt_cons_of_fails hfail, List.takeWhile_cons_of_neg hfail]
        exact ⟨rfl, by simp⟩
    · have hplan : buttonPlan s.buttons e (mask :: ms) = buttonPlan s.buttons e ms := by
        simp [buttonPlan, hkept]
      rw [hplan]
      exact ends_pure.2 ih

/-- What Windows holds down behind some buttons. -/
theorem after_buttons (w : Windows) (f : UInt32 → Bool) (ms : List UInt32) :
    (ms.map fun mask => Injection.button mask (f mask)).foldl Windows.after w =
      ⟨w.keys, fun mask => if mask ∈ ms then f mask else w.buttons mask⟩ := by
  induction ms generalizing w with
  | nil => simp
  | cons m ms ih =>
    rw [List.map_cons, List.foldl_cons, ih]
    refine Windows.mk.injEq .. ▸ ⟨rfl, funext fun mask => ?_⟩
    show (if mask ∈ ms then f mask else Function.update w.buttons m (f m) mask) = _
    by_cases hmask : mask ∈ ms
    · simp [hmask]
    · by_cases heq : mask = m
      · subst heq
        simp
      · simp [hmask, heq]

/-- The buttons that change. -/
abbrev changing (buttons : UInt32) (e : InputEvent) : List UInt32 :=
  masks.filter fun mask => (e.buttons ^^^ buttons) &&& mask ≠ 0

/-- The buttons that have been injected when the loop ends. -/
abbrev injected (a : Outcome) (buttons : UInt32) (e : InputEvent) : List UInt32 :=
  (changing buttons e).takeWhile fun mask => a.ok (.button mask (e.buttons &&& mask ≠ 0))

theorem takeWhile_plan (buttons : UInt32) : (buttonPlan buttons e masks).takeWhile a.ok =
    (injected a buttons e).map fun mask => .button mask (e.buttons &&& mask ≠ 0) := by
  unfold buttonPlan
  rw [List.takeWhile_map]
  rfl

theorem mem_injected {buttons mask : UInt32} (h : mask ∈ injected a buttons e) :
    mask ∈ masks ∧ (e.buttons ^^^ buttons) &&& mask ≠ 0 := by
  have hmem := List.takeWhile_subset _ h
  rw [List.mem_filter] at hmem
  exact ⟨hmem.1, of_decide_eq_true hmem.2⟩

/-- Without a failure all of them have. -/
theorem injected_all {buttons : UInt32} (h : halt a (buttonPlan buttons e masks) = none) :
    injected a buttons e = changing buttons e := by
  refine List.takeWhile_eq_self_iff.2 fun mask hmask => ?_
  have hnone := List.find?_eq_none.1 h (.button mask (e.buttons &&& mask ≠ 0))
    (List.mem_map.2 ⟨mask, hmask, rfl⟩)
  simpa using hnone

theorem mem_takeWhile_plan {buttons : UInt32} :
    (∃ mask, Injection.button mask true ∈ (buttonPlan buttons e masks).takeWhile a.ok) ↔
      ∃ mask ∈ injected a buttons e, e.buttons &&& mask ≠ 0 := by
  rw [takeWhile_plan]
  constructor
  · rintro ⟨mask, hmem⟩
    obtain ⟨mask', hmask', heq⟩ := List.mem_map.1 hmem
    injection heq with heq hdown
    exact ⟨mask', hmask', of_decide_eq_true hdown⟩
  · rintro ⟨mask, hmask, hdown⟩
    exact ⟨mask, List.mem_map.2 ⟨mask, hmask, by rw [decide_eq_true hdown]⟩⟩

/-- What a part of the mouse leaves. -/
structure Moves (s : Injector) (slips : Prop) (s' : Injector) : Prop where
  keys : s'.keys = s.keys
  down : s'.windows.keys = s.windows.keys
  stuck : slips → ¬ s'.Tracks
  buttoned : ¬ slips → s'.Buttoned

/-- A press that is not committed is not kept. -/
theorem buttons_failed (hs : s.Buttoned) (hclicks : s.Clicks a e)
    (hhalt : halt a (buttonPlan s.buttons e masks) ≠ none) : Moves s (s.ButtonSlips a e)
      { s with windows :=
        ((buttonPlan s.buttons e masks).takeWhile a.ok).foldl Windows.after s.windows } := by
  have hslips : s.ButtonSlips a e ↔ ∃ mask ∈ injected a s.buttons e, e.buttons &&& mask ≠ 0 := by
    unfold ButtonSlips
    rw [mem_takeWhile_plan]
    exact ⟨fun h => h.2.2, fun h => ⟨hclicks, Option.ne_none_iff_exists'.1 hhalt, h⟩⟩
  rw [takeWhile_plan, after_buttons, hslips]
  refine ⟨rfl, rfl, ?_, fun hn mask hdown => ?_⟩
  · rintro ⟨mask, hmask, hdown⟩ htracks
    obtain ⟨hmem, hchange⟩ := mem_injected hmask
    refine (mask_changes hmem hchange).1 hdown (htracks.buttons mask ?_)
    show (if mask ∈ injected a s.buttons e then _ else _) = true
    rw [if_pos hmask]
    exact decide_eq_true hdown
  · replace hdown : (if mask ∈ injected a s.buttons e then
        decide (e.buttons &&& mask ≠ 0) else s.windows.buttons mask) = true := hdown
    split at hdown
    · rename_i hmask
      exact absurd ⟨mask, hmask, of_decide_eq_true hdown⟩ hn
    · exact hs mask hdown

/-- Once all buttons have been injected they are committed. -/
theorem buttons_done (hs : s.Buttoned) {buttons : UInt32}
    (hhalt : halt a (buttonPlan s.buttons e masks) = none) (hbuttons : buttons = e.buttons) :
    Buttoned { s with
      windows := ((buttonPlan s.buttons e masks).takeWhile a.ok).foldl Windows.after s.windows
      buttons := buttons } := by
  subst hbuttons
  rw [takeWhile_plan, after_buttons, injected_all hhalt]
  intro mask hdown
  replace hdown : (if mask ∈ changing s.buttons e then
      decide (e.buttons &&& mask ≠ 0) else s.windows.buttons mask) = true := hdown
  split at hdown
  · rename_i hmask
    exact ⟨(List.mem_filter.1 hmask).1, of_decide_eq_true hdown⟩
  · rename_i hmask
    obtain ⟨hmem, hkept⟩ := hs mask hdown
    refine ⟨hmem, (mask_kept hmem fun hchange => hmask ?_).2 hkept⟩
    exact List.mem_filter.2 ⟨hmem, decide_eq_true hchange⟩

/-- The wheel presses nothing. -/
theorem send_ends {i : Injection} (hi : ∀ w, Windows.after w i = w) :
    Ends (send a i) s fun _ s' => s' = s := by
  unfold send
  refine ends_bind.2 (ends_demand.2 ⟨fun _ => ends_modify.2 ?_, fun _ => rfl⟩)
  rw [hi]

theorem click_ends (hs : s.Buttoned) (hclicks : s.Clicks a e) :
    Ends (click a e) s fun _ s' => Moves s (s.ButtonSlips a e) s' := by
  unfold click
  refine Ends.bind (buttons_ends masks) (fun _ s₁ ⟨hs₁, hok⟩ => ?_) fun error s₁ ⟨hs₁, herror⟩ => ?_
  · have hhalt := hok.1 rfl
    have hmoves : Moves s (s.ButtonSlips a e) { s₁ with buttons := e.buttons } := by
      subst hs₁
      refine ⟨rfl, ?_, ?_, fun _ => buttons_done hs hhalt rfl⟩
      · rw [takeWhile_plan, after_buttons]
      · rintro ⟨-, ⟨i, hi⟩, -⟩
        cases hhalt.symm.trans hi
    refine ends_bind.2 (ends_modify.2 (.ite (fun _ => ?_) fun _ => ends_pure.2 hmoves))
    have hwheel {i : Injection} (hi : ∀ w, Windows.after w i = w) :
        Ends (send a i) { s₁ with buttons := e.buttons } fun _ s' =>
          Moves s (s.ButtonSlips a e) s' :=
      (send_ends hi).mono fun _ _ heq => heq ▸ hmoves
    refine .ite (fun _ => ?_) fun _ => .ite (fun _ => hwheel fun _ => rfl) fun _ =>
      ends_pure.2 hmoves
    refine Ends.bind (send_ends fun _ => rfl) (fun _ s₂ hs₂ => ?_) fun _ s₂ hs₂ => hs₂ ▸ hmoves
    subst hs₂
    exact .ite (fun _ => hwheel fun _ => rfl) fun _ => ends_pure.2 hmoves
  · subst hs₁
    exact buttons_failed hs hclicks fun hnone => nomatch herror.2 hnone

theorem mouse_ends (hs : s.Buttoned) :
    Ends (mouse a e) s fun _ s' => Moves s (s.ButtonSlips a e) s' := by
  have hstay (hn : ¬ s.Clicks a e) : Moves s (s.ButtonSlips a e) s :=
    ⟨rfl, rfl, fun h => absurd h.1 hn, fun _ => hs⟩
  have hmove (hdelta : e.dx.isDelta ∧ e.dy.isDelta) (htouches : s.touches = [])
      (hmap : e.kind = 1 → ∃ p, s.bounds.map a e.x e.y = .ok p) :
      Ends (send a .move >>= fun _ => click a e) s fun _ s' => Moves s (s.ButtonSlips a e) s' := by
    unfold send
    refine ends_bind.2 (ends_bind.2 (ends_demand.2 ⟨fun hok => ends_modify.2 ?_, fun hn => ?_⟩))
    · exact click_ends hs ⟨hdelta, htouches, hmap, hok⟩
    · exact hstay fun h => hn h.2.2.2
  unfold mouse
  refine ends_bind.2 (ends_demand.2 ⟨fun hdelta => ?_, fun hn => hstay fun h => hn h.1⟩)
  refine ends_bind.2 (ends_get.2 (.ite (fun htouches => ?_) fun hn => ?_))
  · refine .ite (fun hkind => ?_) fun hkind => ?_
    · cases hmap : s.bounds.map a e.x e.y with
      | ok p => exact hmove hdelta htouches fun _ => ⟨p, hmap⟩
      | error error =>
        refine hstay fun h => ?_
        obtain ⟨p, hp⟩ := h.2.2.1 hkind
        cases hmap.symm.trans hp
    · exact hmove hdelta htouches fun h => absurd h hkind
  · exact ends_pure.2 (hstay fun h => hn h.2.1)

/-! ### Events -/

/-- Nothing is pressed or released. -/
structure Quiet (s s' : Injector) : Prop where
  keys : s'.keys = s.keys
  buttons : s'.buttons = s.buttons
  windows : s'.windows = s.windows

instance : Std.Refl Quiet := ⟨fun _ => ⟨rfl, rfl, rfl⟩⟩

instance : IsTrans Injector Quiet :=
  ⟨fun _ _ _ h h' => ⟨h'.keys.trans h.keys, h'.buttons.trans h.buttons,
    h'.windows.trans h.windows⟩⟩

theorem injectTouches_quiet : Within Quiet (fun _ => True) (injectTouches a) s := by
  unfold injectTouches
  refine .get_bind (.ite (fun _ => ?_) fun _ => .pure _)
  exact .demand_bind trivial fun _ => .modify ⟨rfl, rfl, rfl⟩

theorem touch_quiet : Within Quiet (fun _ => True) (touch a e) s := by
  have hrest (location : ℤ × ℤ) (flags : PointerFlags) (s₁ : Injector) :
      Within Quiet (fun _ => True) (do
        modify fun s => { s with
          touches := (e.contactId, ⟨location, flags⟩) :: remove s.touches e.contactId }
        injectTouches a
        modify fun s => { s with
          touches := (if e.phase ≥ 2 then remove s.touches e.contactId else s.touches).map
            fun t => (t.1, { t.2 with flags := .update }) }) s₁ :=
    .modify_bind ⟨rfl, rfl, rfl⟩ (injectTouches_quiet.bind fun _ _ _ => .modify ⟨rfl, rfl, rfl⟩)
  unfold touch
  refine .demand_bind trivial fun _ => .get_bind ?_
  cases s.bounds.map a e.x e.y with
  | error error => exact .throw trivial
  | ok p =>
    refine ends_bind.2 (ends_pure.2 ?_)
    dsimp only
    refine .ite (fun _ => ?_) fun _ => ?_
    · exact Within.demand_bind trivial fun _ => hrest _ _ _
    · exact Within.demand_bind trivial fun _ => hrest _ _ _

/-- What an event leaves. -/
structure Handles (s : Injector) (slips : Prop) (s' : Injector) : Prop where
  stuck : slips → ¬ s'.Tracks
  keyed : ¬ slips → s'.Keyed
  buttoned : ¬ slips → s'.Buttoned

theorem event_ends (hkeys : s.Keyed) (hbuttons : s.Buttoned) :
    Ends (event a e) s fun _ s' => Handles s (s.Slips a e) s' := by
  have hquiet {s' : Injector} (hn : ¬ s.Slips a e) (h : Quiet s s') :
      Handles s (s.Slips a e) s' := by
    refine ⟨fun h => absurd h hn, fun _ code => ?_, fun _ mask => ?_⟩
    · rw [h.keys, h.windows]
      exact hkeys code
    · rw [h.buttons, h.windows]
      exact hbuttons mask
  unfold event
  refine ends_bind.2 (ends_demand.2 ⟨fun hvalid => ?_, fun hn => ?_⟩)
  · refine .ite (fun hkind => ?_) fun _ => .ite (fun hkind => ?_) fun hmouse =>
      .ite (fun hkind => ?_) fun hkind => ?_
    · refine Ends.mono touch_quiet fun _ s' hs' => hquiet ?_ hs'.2
      rintro ⟨-, ⟨h, -⟩ | ⟨h | h, -⟩⟩
      · exact absurd (hkind.symm.trans h) (by decide)
      · exact absurd (hkind.symm.trans h) (by decide)
      · exact absurd (hkind.symm.trans h) (by decide)
    · have hslips : s.Slips a e ↔ s.ButtonSlips a e := by
        constructor
        · rintro ⟨-, ⟨h, -⟩ | ⟨-, h⟩⟩
          · rcases hkind with hkind | hkind
            · exact absurd (hkind.symm.trans h) (by decide)
            · exact absurd (hkind.symm.trans h) (by decide)
          · exact h
        · exact fun h => ⟨hvalid, .inr ⟨hkind, h⟩⟩
      rw [hslips]
      refine (mouse_ends hbuttons).mono fun _ s' hs' => ⟨hs'.stuck, fun _ code => ?_, hs'.buttoned⟩
      rw [hs'.keys, hs'.down]
      exact hkeys code
    · have hslips : s.Slips a e ↔ s.KeySlips a e := by
        constructor
        · rintro ⟨-, ⟨-, h⟩ | ⟨h, -⟩⟩
          · exact h
          · exact absurd h hmouse
        · exact fun h => ⟨hvalid, .inl ⟨hkind, h⟩⟩
      rw [hslips]
      refine (keyboard_ends hkeys).mono fun _ s' ⟨⟨hkept, hpressed⟩, hstuck, hkeyed⟩ => ?_
      refine ⟨fun h => (hstuck h).not_tracks, hkeyed, fun _ mask => ?_⟩
      rw [hkept, hpressed]
      exact hbuttons mask
    · refine ends_throw.2 (hquiet ?_ (Std.Refl.refl s))
      rintro ⟨-, ⟨h, -⟩ | ⟨h, -⟩⟩
      · exact hkind h
      · exact hmouse h
  · exact hquiet (fun h => hn h.1) (Std.Refl.refl s)

/-! ### Release -/

theorem attempt_eq {i : Injection} (h : a.ok i = true) :
    attempt a s i = { s with windows := s.windows.after i } := by
  have hsend : Ends (send a i) s fun _ s' => s' = { s with windows := s.windows.after i } := by
    unfold send
    exact ends_bind.2 (ends_demand.2 ⟨fun _ => ends_modify.2 rfl, absurd h⟩)
  exact hsend

theorem attempt_keys (hok : ∀ i, a.ok i = true) (codes : List UInt16) (s : Injector) :
    codes.foldl (fun s code => attempt a s (.key code true)) s = { s with windows :=
      ⟨fun code => if code ∈ codes then false else s.windows.keys code, s.windows.buttons⟩ } := by
  induction codes generalizing s with
  | nil => simp
  | cons c codes ih =>
    rw [List.foldl_cons, ih, attempt_eq (hok _)]
    have hkeys : (fun code => if code ∈ codes then false
        else Function.update s.windows.keys c false code) =
        fun code => if code ∈ c :: codes then false else s.windows.keys code := by
      funext code
      by_cases hcode : code ∈ codes
      · simp [hcode]
      · by_cases heq : code = c
        · subst heq
          simp
        · simp [hcode, heq]
    exact congrArg (fun keys => { s with windows := ⟨keys, s.windows.buttons⟩ }) hkeys

theorem attempt_buttons (hok : ∀ i, a.ok i = true) (ms : List UInt32) (s : Injector) :
    ms.foldl (fun s mask =>
      if s.buttons &&& mask ≠ 0 then attempt a s (.button mask false) else s) s =
      { s with windows := ⟨s.windows.keys, fun mask =>
        if mask ∈ ms ∧ s.buttons &&& mask ≠ 0 then false else s.windows.buttons mask⟩ } := by
  induction ms generalizing s with
  | nil => simp
  | cons m ms ih =>
    rw [List.foldl_cons]
    by_cases hdown : s.buttons &&& m ≠ 0
    · rw [if_pos hdown, ih, attempt_eq (hok _)]
      have hbuttons : (fun mask => if mask ∈ ms ∧ s.buttons &&& mask ≠ 0 then false
          else Function.update s.windows.buttons m false mask) = fun mask =>
          if mask ∈ m :: ms ∧ s.buttons &&& mask ≠ 0 then false else s.windows.buttons mask := by
        funext mask
        by_cases heq : mask = m
        · subst heq
          rw [Function.update_self, ite_self, if_pos ⟨List.mem_cons_self .., hdown⟩]
        · simp [heq]
      exact congrArg (fun buttons => { s with windows := ⟨s.windows.keys, buttons⟩ }) hbuttons
    · rw [if_neg hdown, ih]
      have hbuttons : (fun mask => if mask ∈ ms ∧ s.buttons &&& mask ≠ 0 then false
          else s.windows.buttons mask) = fun mask =>
          if mask ∈ m :: ms ∧ s.buttons &&& mask ≠ 0 then false else s.windows.buttons mask := by
        funext mask
        by_cases heq : mask = m
        · subst heq
          simp [not_not.1 hdown]
        · simp [heq]
      exact congrArg (fun buttons => { s with windows := ⟨s.windows.keys, buttons⟩ }) hbuttons

/-- When every injection succeeds, what is kept is released. -/
theorem releaseAll_windows (hok : ∀ i, a.ok i = true) : (s.releaseAll a).windows =
    ⟨fun code => if code ∈ s.keys then false else s.windows.keys code, fun mask =>
      if mask ∈ masks ∧ s.buttons &&& mask ≠ 0 then false else s.windows.buttons mask⟩ := by
  have hquiet : Quiet s.cancel (exec (injectTouches a) s.cancel).2 := injectTouches_quiet.out.2
  unfold releaseAll
  dsimp only
  rw [attempt_keys hok, attempt_buttons hok, hquiet.keys, hquiet.buttons, hquiet.windows]
  rfl

/-- A release that succeeds leaves nothing down exactly where what is down is kept. -/
theorem releaseAll_up (hok : ∀ i, a.ok i = true)
    (hmasks : ∀ mask, s.windows.buttons mask = true → mask ∈ masks) :
    (s.releaseAll a).Up ↔ s.Tracks := by
  have hup : (s.releaseAll a).Up ↔ (∀ code, s.windows.keys code = true → code ∈ s.keys) ∧
      ∀ mask, s.windows.buttons mask = true → mask ∈ masks ∧ s.buttons &&& mask ≠ 0 := by
    have hwindows := releaseAll_windows (s := s) hok
    constructor
    · rintro ⟨hkeys, hbuttons⟩
      rw [hwindows] at hkeys hbuttons
      refine ⟨fun code hdown => ?_, fun mask hdown => ?_⟩
      · by_contra hn
        have hup := hkeys code
        simp only [if_neg hn] at hup
        exact Bool.noConfusion (hdown.symm.trans hup)
      · by_contra hn
        have hup := hbuttons mask
        simp only [if_neg hn] at hup
        exact Bool.noConfusion (hdown.symm.trans hup)
    · rintro ⟨hkeys, hbuttons⟩
      constructor
      · intro code
        rw [hwindows]
        refine ite_eq_left_iff.2 fun hn => ?_
        exact Bool.eq_false_iff.2 fun hdown => hn (hkeys code hdown)
      · intro mask
        rw [hwindows]
        refine ite_eq_left_iff.2 fun hn => ?_
        exact Bool.eq_false_iff.2 fun hdown => hn (hbuttons mask hdown)
  rw [hup]
  constructor
  · rintro ⟨hkeys, hbuttons⟩
    exact ⟨hkeys, fun mask hmask => (hbuttons mask hmask).2⟩
  · rintro ⟨hkeys, hbuttons⟩
    exact ⟨hkeys, fun mask hmask => ⟨hmasks mask hmask, hbuttons mask hmask⟩⟩

/-! ### Runs -/

/-- What handling an event leaves, whether it returns or fails. -/
def step (s : Injector) (i : Outcome × InputEvent) : Injector := (exec (event i.1 i.2) s).2

/-- An injector as `new` makes it. -/
def Initial (s : Injector) : Prop := ∃ bounds, s = { bounds := bounds }

/-- The event does not leave anything down that is not kept. -/
def Careful (s : Injector) (i : Outcome × InputEvent) : Prop := ¬ s.Slips i.1 i.2

theorem reaches_kept (h : Reaches step Initial Careful s) : s.Keyed ∧ s.Buttoned := by
  refine h.invariant (I := fun s => s.Keyed ∧ s.Buttoned) ?_ fun s i hs hcareful => ?_
  · rintro _ ⟨bounds, rfl⟩
    exact ⟨fun code => by simp, fun mask hmask => by simp at hmask⟩
  · have hends : Handles s (s.Slips i.1 i.2) (s.step i) := event_ends hs.1 hs.2
    exact ⟨hends.keyed hcareful, hends.buttoned hcareful⟩

/-- **Nothing stays pressed** in a run in which no modifier's release fails first and no
button fails behind a pressed one: what Windows holds down is kept at every point, and a
release that succeeds leaves nothing down.  Any other event leaves something down that is not
kept. -/
theorem nothing_stays (h : Reaches step Initial Careful s) : s.Tracks ∧
    (∀ a : Outcome, (∀ i, a.ok i = true) → (s.releaseAll a).Up) ∧
      ∀ i, (s.step i).Tracks ↔ s.Careful i := by
  obtain ⟨hkeys, hbuttons⟩ := reaches_kept h
  have htracks := Tracks.of_keyed hkeys hbuttons
  refine ⟨htracks, fun a hok => ?_, fun i => ?_⟩
  · exact (releaseAll_up hok fun mask hmask => (hbuttons mask hmask).1).2 htracks
  · have hends : Handles s (s.Slips i.1 i.2) (s.step i) := event_ends hkeys hbuttons
    refine ⟨fun ht hslips => hends.stuck hslips ht, fun hcareful => ?_⟩
    exact Tracks.of_keyed (hends.keyed hcareful) (hends.buttoned hcareful)

/-! ### A mouse and a keyboard -/

def sampleBounds : Bounds := ⟨0, 0, 1920, 1080⟩

/-- The letter of the usage `hid` goes down. -/
def samplePress (hid : UInt16) (modifiers : UInt16) : InputEvent :=
  ⟨3, 0, 0, ⟨0⟩, ⟨0⟩, ⟨0⟩, ⟨0⟩, 0, hid, 0, modifiers, 0⟩

/-- A mouse event with these buttons. -/
def sampleMouse (buttons : UInt32) : InputEvent :=
  ⟨2, 0, 0, ⟨0⟩, ⟨0⟩, ⟨0⟩, ⟨0⟩, buttons, 0, 0, 0, 0⟩

/-- The hypothesis of `nothing_stays` is satisfiable: `A` is pressed with the shift key, and
both keys are kept and released. -/
theorem nothing_stays_sample : ∃ s : Injector, s.windows.keys 0x1e = true ∧
    s.windows.keys 0x2a = true ∧ s.Tracks ∧ (s.releaseAll {}).Up := by
  have hcareful : Careful { bounds := sampleBounds } ({}, samplePress 4 2) := by
    rintro ⟨-, ⟨-, scan, code, -, hhalt⟩ | ⟨h | h, -⟩⟩
    · have hnone : halt {} (modifiers.flatMap
          (Modifier.plan · [] (samplePress 4 2) scan)) = none :=
        List.find?_eq_none.2 fun _ _ => Bool.false_ne_true
      cases hnone.symm.trans hhalt
    · exact absurd h (by decide)
    · exact absurd h (by decide)
  have h := nothing_stays ((Reaches.init ⟨sampleBounds, rfl⟩).step hcareful)
  exact ⟨_, by decide, by decide, h.1, h.2.1 {} fun _ => rfl⟩

/-- The shift key's release fails behind a letter, and the key has left `keys`. -/
def sampleShift : Injector :=
  [(({} : Outcome), samplePress 4 2), ({ ok := fun i => i ≠ .key 0x2a true }, samplePress 5 0)].foldl
    step { bounds := sampleBounds }

theorem key_stuck : Reaches step Initial (fun _ _ => True) sampleShift ∧ sampleShift.Stuck :=
  ⟨(Reaches.init ⟨sampleBounds, rfl⟩).along ⟨trivial, trivial, trivial⟩, 0x2a, by decide, by decide⟩

/-- Both buttons are to go down, and the right one fails. -/
def sampleButtons : Injector :=
  step { bounds := sampleBounds } ({ ok := fun i => i ≠ .button 2 true }, sampleMouse 3)

theorem button_stuck : Reaches step Initial (fun _ _ => True) sampleButtons ∧
    sampleButtons.windows.buttons 1 = true ∧ sampleButtons.buttons &&& 1 = 0 :=
  ⟨(Reaches.init ⟨sampleBounds, rfl⟩).step trivial, by decide, by decide⟩

/-- The property fails: a button is down that is not kept, and behind `release_all` the shift key
is still down. -/
theorem release_incomplete : (¬ ∀ s, Reaches step Initial (fun _ _ => True) s → s.Tracks) ∧
    ¬ ∀ s, Reaches step Initial (fun _ _ => True) s →
      ∀ a : Outcome, (∀ i, a.ok i = true) → (s.releaseAll a).Up := by
  constructor
  · intro h
    obtain ⟨hs, hdown, hkept⟩ := button_stuck
    exact (h _ hs).buttons 1 hdown hkept
  · intro h
    have hdown : (sampleShift.releaseAll {}).windows.keys 0x2a = true := by
      decide
    have hup := (h _ key_stuck.1 {} fun _ => rfl).keys 0x2a
    exact Bool.noConfusion (hdown.symm.trans hup)

end Injector

end Host
end SidecarDOS
