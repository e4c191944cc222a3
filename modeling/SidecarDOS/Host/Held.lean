/-
# Keys and buttons where Windows takes every injection

A keyboard event brings the modifiers that are down in line with its own before it handles its
key: of a modifier that it has, one key is pressed unless one is down, and both are released
otherwise; the modifier that the key itself belongs to is left alone
(`modifiers_synchronised`).  A mouse event does the same with the buttons, unless a contact is
active: then it is dropped as a whole, a release along with it, and the button stays down
until the next one (`buttons_follow`).
-/

import SidecarDOS.Host.Presses

namespace SidecarDOS
namespace Host
namespace Injector

open Library (Reaches Ends exec ends_pure ends_bind ends_get ends_modify ends_demand)

variable {s s' : Injector} {a : Outcome} {e : InputEvent}

/-! ### Runs -/

/-- What the pipeline does with an injector. -/
inductive Call where
  | event (a : Outcome) (e : InputEvent)
  | releaseAll (a : Outcome)
  | bounds (b : Bounds)

def perform (s : Injector) : Call → Injector
  | .event a e => (exec (event a e) s).2
  | .releaseAll a => s.releaseAll a
  | .bounds b => { s with bounds := b }

/-- Every injection succeeds. -/
def Call.Works : Call → Prop
  | .event a _ | .releaseAll a => ∀ i, a.ok i = true
  | .bounds _ => True

/-- The injectors that any calls lead to, in any order. -/
abbrev Reachable (s : Injector) : Prop := Reaches perform Initial (fun _ c => c.Works) s

/-! ### The mouse -/

/-- The buttons that Windows holds down are those that are kept. -/
def Clicked (s : Injector) : Prop :=
  ∀ mask, s.windows.buttons mask = true ↔ mask ∈ masks ∧ s.buttons &&& mask ≠ 0

/-- The injector behind a mouse event. -/
def clicked (s : Injector) (e : InputEvent) : Injector :=
  { s with
    buttons := e.buttons
    windows := ⟨s.windows.keys, fun mask =>
      if mask ∈ changing s.buttons e then e.buttons &&& mask ≠ 0 else s.windows.buttons mask⟩ }

theorem mem_changing {buttons mask : UInt32} : mask ∈ changing buttons e ↔
    mask ∈ masks ∧ (e.buttons ^^^ buttons) &&& mask ≠ 0 := by
  rw [List.mem_filter, decide_eq_true_eq]

theorem Clicked.clicked (h : s.Clicked) (e : InputEvent) : (s.clicked e).Clicked := by
  intro mask
  show (if mask ∈ changing s.buttons e then decide (e.buttons &&& mask ≠ 0)
    else s.windows.buttons mask) = true ↔ mask ∈ masks ∧ e.buttons &&& mask ≠ 0
  by_cases hmem : mask ∈ masks
  · by_cases hchange : (e.buttons ^^^ s.buttons) &&& mask ≠ 0
    · rw [if_pos (mem_changing.2 ⟨hmem, hchange⟩), decide_eq_true_eq]
      exact ⟨fun hdown => ⟨hmem, hdown⟩, fun hdown => hdown.2⟩
    · rw [if_neg fun hin => hchange (mem_changing.1 hin).2, h mask]
      exact and_congr_right fun _ => (mask_kept hmem hchange).symm
  · rw [if_neg fun hin => hmem (mem_changing.1 hin).1, h mask]
    exact iff_of_false (fun hdown => hmem hdown.1) fun hdown => hmem hdown.1

theorem send_ok (hok : ∀ i, a.ok i = true) (i : Injection) : Ends (send a i) s fun r s' =>
    r = .ok () ∧ s' = { s with windows := s.windows.after i } := by
  unfold send
  exact ends_bind.2 (ends_demand.2 ⟨fun _ => ends_modify.2 ⟨rfl, rfl⟩, absurd (hok i)⟩)

theorem click_ok (hok : ∀ i, a.ok i = true) : Ends (click a e) s fun r s' =>
    r = .ok () ∧ s' = s.clicked e := by
  have hhalt : halt a (buttonPlan s.buttons e masks) = none :=
    List.find?_eq_none.2 fun i _ => by rw [hok i]; decide
  unfold click
  refine Ends.bind (buttons_ends masks) (fun _ s₁ ⟨hs₁, _⟩ => ?_) fun error s₁ ⟨_, herror⟩ => ?_
  · rw [takeWhile_plan, injected_all hhalt, after_buttons] at hs₁
    have hclicked : ({ s₁ with buttons := e.buttons } : Injector) = s.clicked e := by
      rw [hs₁]
      rfl
    refine ends_bind.2 (ends_modify.2 ?_)
    rw [hclicked]
    have hwheel {i : Injection} (hi : ∀ w, Windows.after w i = w) :
        Ends (send a i) (s.clicked e) fun r s' => r = .ok () ∧ s' = s.clicked e :=
      (send_ok hok i).mono fun r s' ⟨hr, hs'⟩ => ⟨hr, by rw [hs', hi]⟩
    refine .ite (fun _ => .ite (fun _ => ?_) fun _ => .ite (fun _ => hwheel fun _ => rfl) fun _ =>
      ends_pure.2 ⟨rfl, rfl⟩) fun _ => ends_pure.2 ⟨rfl, rfl⟩
    refine Ends.bind_ok (hwheel fun _ => rfl) fun s₂ hs₂ => ?_
    rw [hs₂]
    exact .ite (fun _ => hwheel fun _ => rfl) fun _ => ends_pure.2 ⟨rfl, rfl⟩
  · exact absurd (herror.2 hhalt) nofun

/-- A mouse event is refused as it is, dropped while a contact is active, or sets the buttons. -/
theorem mouse_ok (hok : ∀ i, a.ok i = true) : Ends (mouse a e) s fun r s' =>
    (∃ error, r = .error error) ∧ s' = s ∨
      r = .ok () ∧ s' = if s.touches = [] then s.clicked e else s := by
  have hmove : Ends (send a .move >>= fun _ => click a e) s fun r s' =>
      r = .ok () ∧ s' = s.clicked e := by
    refine Ends.bind_ok (send_ok hok .move) fun s₁ hs₁ => ?_
    obtain rfl : s₁ = s := hs₁
    exact click_ok hok
  unfold mouse
  refine ends_bind.2 (ends_demand.2 ⟨fun _ => ?_, fun _ => .inl ⟨⟨_, rfl⟩, rfl⟩⟩)
  refine ends_bind.2 (ends_get.2 (.ite (fun htouches => ?_) fun htouches => ?_))
  · rw [if_pos htouches]
    refine .ite (fun _ => ?_) fun _ => hmove.mono fun _ _ h => .inr h
    cases s.bounds.map a e.x e.y with
    | ok p => exact hmove.mono fun _ _ h => .inr h
    | error error => exact .inl ⟨⟨error, rfl⟩, rfl⟩
  · rw [if_neg htouches]
    exact ends_pure.2 (.inr ⟨rfl, rfl⟩)

/-! ### What is held -/

theorem not_keySlips (hok : ∀ i, a.ok i = true) : ¬ s.KeySlips a e := by
  rintro ⟨scan, code, -, hhalt⟩
  have hfails := List.find?_some hhalt
  rw [hok] at hfails
  exact Bool.noConfusion hfails

/-- Windows is told of the contacts, if there are any. -/
def told (s : Injector) : Injector :=
  { s with batch := if s.touches = [] then s.batch else some s.touches }

theorem injectTouches_ok (hok : ∀ i, a.ok i = true) :
    Ends (injectTouches a) s fun r s' => r = .ok () ∧ s' = s.told := by
  unfold injectTouches told
  refine ends_bind.2 (ends_get.2 (.ite (fun hsome => ?_) fun hnone => ?_))
  · rw [if_neg hsome]
    exact ends_bind.2 (ends_demand.2 ⟨fun _ => ends_modify.2 ⟨rfl, rfl⟩, absurd (hok _)⟩)
  · rw [if_pos (not_not.1 hnone)]
    exact ends_pure.2 ⟨rfl, rfl⟩

/-- `release_all` ends every contact and lets go of everything. -/
theorem releaseAll_eq (hok : ∀ i, a.ok i = true) : s.releaseAll a = { s.cancel.told with
    touches := []
    keys := []
    buttons := 0
    windows := ⟨fun code => if code ∈ s.keys then false else s.windows.keys code, fun mask =>
      if mask ∈ masks ∧ s.buttons &&& mask ≠ 0 then false else s.windows.buttons mask⟩ } := by
  have hinject : (exec (injectTouches a) s.cancel).2 = s.cancel.told :=
    (injectTouches_ok (s := s.cancel) hok : Ends ..).2
  unfold releaseAll
  dsimp only
  rw [attempt_keys hok, attempt_buttons hok, hinject]
  rfl

/-- What Windows holds down is what is kept. -/
structure Held (s : Injector) : Prop where
  keyed : s.Keyed
  clicked : s.Clicked

theorem Held.of_quiet (h : s.Held) (hquiet : Quiet s s') : s'.Held := by
  refine ⟨fun code => ?_, fun mask => ?_⟩
  · rw [hquiet.windows, hquiet.keys]
    exact h.keyed code
  · rw [hquiet.windows, hquiet.buttons]
    exact h.clicked mask

theorem Held.event (h : s.Held) (hok : ∀ i, a.ok i = true) (e : InputEvent) :
    Ends (Injector.event a e) s fun _ s' => s'.Held := by
  have hquiet {s' : Injector} (hs' : Quiet s s') : s'.Held := h.of_quiet hs'
  unfold Injector.event
  refine ends_bind.2 (ends_demand.2 ⟨fun _ => ?_, fun _ => h⟩)
  refine .ite (fun _ => ?_) fun _ => .ite (fun _ => ?_) fun _ => .ite (fun _ => ?_) fun _ => h
  · exact Ends.mono touch_quiet fun _ s' hs' => hquiet hs'.2
  · refine (mouse_ok hok).mono fun _ s' hs' => ?_
    rcases hs' with ⟨-, rfl⟩ | ⟨-, rfl⟩
    · exact h
    · split
      · exact ⟨h.keyed, h.clicked.clicked e⟩
      · exact h
  · refine (keyboard_ends h.keyed).mono fun _ s' ⟨⟨hbuttons, hpressed⟩, _, hkeyed⟩ => ?_
    refine ⟨hkeyed (not_keySlips hok), fun mask => ?_⟩
    rw [hpressed, hbuttons]
    exact h.clicked mask

theorem Held.releaseAll (h : s.Held) (hok : ∀ i, a.ok i = true) : (s.releaseAll a).Held := by
  rw [releaseAll_eq hok]
  refine ⟨fun code => ?_, fun mask => ?_⟩
  · show (if code ∈ s.keys then false else s.windows.keys code) = true ↔ code ∈ []
    by_cases hmem : code ∈ s.keys
    · simp [hmem]
    · simp [hmem, mt (h.keyed code).1 hmem]
  · show (if mask ∈ masks ∧ s.buttons &&& mask ≠ 0 then false else s.windows.buttons mask) = true ↔
      mask ∈ masks ∧ 0 &&& mask ≠ 0
    by_cases hmem : mask ∈ masks ∧ s.buttons &&& mask ≠ 0
    · simp [hmem]
    · simp [hmem, mt (h.clicked mask).1 hmem]

theorem Reachable.held (h : s.Reachable) : s.Held := by
  refine h.invariant ?_ fun s c hs hworks => ?_
  · rintro _ ⟨bounds, rfl⟩
    exact ⟨fun code => by simp, fun mask => by simp⟩
  · cases c with
    | event a e => exact hs.event hworks e
    | releaseAll a => exact hs.releaseAll hworks
    | bounds b => exact ⟨hs.keyed, hs.clicked⟩

theorem event_mouse_eq (a : Outcome) (hkind : e.kind = 1 ∨ e.kind = 2) : event a e = (do
    check (e.phase ≤ 3 ∧ e.buttons ≤ 7 ∧ e.isRepeat ≤ 1) "invalid input flags"
    mouse a e) := by
  have hne : ¬ e.kind = 0 := by
    rcases hkind with hkind | hkind
    · rw [hkind]
      decide
    · rw [hkind]
      decide
  unfold event
  rw [if_neg hne, if_pos hkind]

/-- **Buttons follow the mouse while no contact is active.**  Behind a mouse event that is
handled then, exactly the buttons with a bit in it are down; one that comes while a contact is
active changes nothing, and what is down stays down. -/
theorem buttons_follow (h : s.Reachable) (hok : ∀ i, a.ok i = true)
    (hkind : e.kind = 1 ∨ e.kind = 2) (hr : (exec (event a e) s).1 = .ok ()) :
    (s.touches = [] → ∀ mask, (s.perform (.event a e)).windows.buttons mask = true ↔
      mask ∈ masks ∧ e.buttons &&& mask ≠ 0) ∧
    (s.touches ≠ [] → s.perform (.event a e) = s) := by
  have hends : Ends (event a e) s fun r s' => r = .ok () →
      s' = if s.touches = [] then s.clicked e else s := by
    rw [event_mouse_eq a hkind]
    refine ends_bind.2 (ends_demand.2 ⟨fun _ => ?_, fun _ => nofun⟩)
    refine (mouse_ok hok).mono fun r s' hs' hr => ?_
    rcases hs' with ⟨⟨error, herror⟩, -⟩ | ⟨-, hs'⟩
    · cases herror.symm.trans hr
    · exact hs'
  have hs' : s.perform (.event a e) = if s.touches = [] then s.clicked e else s := hends hr
  rw [hs']
  refine ⟨fun htouches => ?_, fun htouches => if_neg htouches⟩
  rw [if_pos htouches]
  exact h.held.clicked.clicked e

/-- The left button is down. -/
def samplePressed : Injector := perform { bounds := sampleBounds } (.event {} (sampleMouse 1))

theorem samplePressed_reachable : samplePressed.Reachable :=
  have hinit : Reachable { bounds := sampleBounds } := .init ⟨sampleBounds, rfl⟩
  .step (i := Call.event {} (sampleMouse 1)) hinit fun _ => rfl

/-- The left button is released. -/
theorem buttons_follow_sample :
    ¬ (samplePressed.perform (.event {} (sampleMouse 0))).windows.buttons 1 = true :=
  fun hdown => ((buttons_follow samplePressed_reachable (fun _ => rfl) (.inr rfl) rfl).1 rfl 1).1
    hdown |>.2 rfl

/-- A finger comes down in the left upper corner. -/
def sampleFinger : InputEvent := ⟨0, 0, 0, ⟨0⟩, ⟨0⟩, ⟨0⟩, ⟨0⟩, 0, 0, 0, 0, 0⟩

/-- A touch or a mouse event that `event` handles, every injection succeeding. -/
def Succeeds (s : Injector) (i : Outcome × InputEvent) : Prop :=
  i.2.kind ≤ 2 ∧ (∀ j, i.1.ok j = true) ∧ (exec (event i.1 i.2) s).1 = .ok ()

/-- The release of the left button is dropped while a finger is down. -/
theorem release_dropped : ¬ ∀ s i, Reaches step Initial Succeeds s → s.Succeeds i →
    i.2.kind = 1 ∨ i.2.kind = 2 → ∀ mask ∈ masks, i.2.buttons &&& mask = 0 →
      (s.step i).windows.buttons mask = false := by
  intro h
  have hbutton : Succeeds { bounds := sampleBounds } ({}, sampleMouse 1) := by
    refine ⟨?_, fun _ => rfl, ?_⟩
    · decide
    · rfl
  have hfinger : (step { bounds := sampleBounds } ({}, sampleMouse 1)).Succeeds
      ({}, sampleFinger) := by
    refine ⟨?_, fun _ => rfl, ?_⟩
    · decide
    · rfl
  have hmouse : ((step { bounds := sampleBounds } ({}, sampleMouse 1)).step
      ({}, sampleFinger)).Succeeds ({}, sampleMouse 0) := by
    refine ⟨?_, fun _ => rfl, ?_⟩
    · decide
    · rfl
  have hinit : Reaches step Initial Succeeds { bounds := sampleBounds } := .init ⟨sampleBounds, rfl⟩
  have hs := (hinit.step hbutton).step hfinger
  have hup := h _ _ hs hmouse (.inr rfl) 1 (by decide) rfl
  exact absurd hup (by decide)

/-! ### Modifiers -/

/-- The keys behind the loop over the modifiers, as far as this one is concerned. -/
def Modifier.synced (m : Modifier) (e : InputEvent) (scan : UInt16) (keys : List UInt16) :
    List UInt16 :=
  if scan = m.left ∨ scan = m.right then keys
  else if e.modifiers &&& m.mask ≠ 0 then
    if m.left ∉ keys ∧ m.right ∉ keys then keys.insert m.left else keys
  else keys.filter (· ∉ m.codes)

theorem releaseKey_ok (hok : ∀ i, a.ok i = true) (code : UInt16) :
    Ends (releaseKey a code) s fun r s' => r = .ok () ∧ s'.keys = s.keys.filter (· ≠ code) := by
  unfold releaseKey
  refine ends_bind.2 (ends_get.2 (.ite (fun hmem => ?_) fun hmem => ?_))
  · refine ends_bind.2 (ends_modify.2 ((send_ok hok _).mono fun r s' ⟨hr, hs'⟩ => ⟨hr, ?_⟩))
    rw [hs']
  · refine ends_pure.2 ⟨rfl, (List.filter_eq_self.2 fun code' hcode' => ?_).symm⟩
    exact decide_eq_true fun heq => hmem (heq ▸ hcode')

theorem modifier_ok (hok : ∀ i, a.ok i = true) (scan : UInt16) (m : Modifier) :
    Ends (modifier a e scan m) s fun r s' => r = .ok () ∧ s'.keys = m.synced e scan s.keys := by
  unfold modifier Modifier.synced
  split
  · exact ends_pure.2 ⟨rfl, rfl⟩
  split
  · refine ends_bind.2 (ends_get.2 (.ite (fun hup => ?_) fun hup => ?_))
    · rw [if_pos hup]
      refine Ends.bind_ok (send_ok hok _) fun s₁ hs₁ => ?_
      refine ends_modify.2 ⟨rfl, ?_⟩
      rw [hs₁]
    · rw [if_neg hup]
      exact ends_pure.2 ⟨rfl, rfl⟩
  · refine Ends.bind_ok (releaseKey_ok hok m.left) fun s₁ hs₁ => ?_
    refine Ends.bind_ok (releaseKey_ok hok m.right) fun s₂ hs₂ => ?_
    refine ends_pure.2 ⟨rfl, ?_⟩
    rw [hs₂, hs₁, List.filter_filter]
    refine List.filter_congr fun code _ => ?_
    simp [Bool.and_comm]

/-- The keys behind the whole loop. -/
theorem modifiers_ok (hok : ∀ i, a.ok i = true) (scan : UInt16) (ms : List Modifier) :
    Ends (ms.forM (modifier a e scan)) s fun r s' => r = .ok () ∧
      s'.keys = ms.foldl (fun keys m => m.synced e scan keys) s.keys := by
  induction ms generalizing s with
  | nil => exact ends_pure.2 ⟨rfl, rfl⟩
  | cons m ms ih =>
    refine Ends.bind_ok (modifier_ok hok scan m) fun s₁ hs₁ => ?_
    rw [List.foldl_cons, ← hs₁]
    exact ih

/-- The key's own modifier is left alone, and so is a key of no modifier. -/
theorem mem_synced {m : Modifier} {scan code : UInt16} {keys : List UInt16}
    (h : scan ∉ m.codes → code ∉ m.codes) : code ∈ m.synced e scan keys ↔ code ∈ keys := by
  unfold Modifier.synced
  split
  · rfl
  rename_i hown
  have hcode := h (mt List.mem_pair.1 hown)
  split
  · split
    · rw [List.mem_insert_iff]
      exact or_iff_right fun heq => hcode (heq ▸ List.mem_cons_self)
    · rfl
  · rw [List.mem_filter, decide_eq_true_eq]
    exact and_iff_left hcode

theorem mem_foldl_synced {ms : List Modifier} {scan code : UInt16} {keys : List UInt16}
    (h : ∀ m ∈ ms, scan ∉ m.codes → code ∉ m.codes) :
    code ∈ ms.foldl (fun keys m => m.synced e scan keys) keys ↔ code ∈ keys := by
  induction ms generalizing keys with
  | nil => rfl
  | cons m ms ih =>
    obtain ⟨hm, hms⟩ := List.forall_mem_cons.1 h
    rw [List.foldl_cons, ih hms, mem_synced hm]

/-- What becomes of the keys of a modifier depends on them alone. -/
theorem synced_congr {m : Modifier} {scan : UInt16} {keys keys' : List UInt16}
    (h : ∀ code ∈ m.codes, code ∈ keys' ↔ code ∈ keys) :
    ∀ code ∈ m.codes, code ∈ m.synced e scan keys' ↔ code ∈ m.synced e scan keys := by
  intro code hcode
  unfold Modifier.synced
  simp only [h m.left (by simp), h m.right (by simp)]
  split
  · exact h code hcode
  split
  · split
    · rw [List.mem_insert_iff, List.mem_insert_iff, h code hcode]
    · exact h code hcode
  · rw [List.mem_filter, List.mem_filter, h code hcode]

theorem foldl_synced {ms : List Modifier} {m : Modifier} {scan : UInt16} {keys : List UInt16}
    (hdisjoint : ms.Pairwise fun m n => ∀ code ∈ m.codes, code ∉ n.codes) (hm : m ∈ ms) :
    ∀ code ∈ m.codes, code ∈ ms.foldl (fun keys m => m.synced e scan keys) keys ↔
      code ∈ m.synced e scan keys := by
  induction ms generalizing keys with
  | nil => exact absurd hm List.not_mem_nil
  | cons n ms ih =>
    obtain ⟨hn, hms⟩ := List.pairwise_cons.1 hdisjoint
    intro code hcode
    rw [List.foldl_cons]
    rcases List.mem_cons.1 hm with rfl | hm
    · exact mem_foldl_synced fun n' hn' _ => hn n' hn' code hcode
    · rw [ih hms hm code hcode]
      refine synced_congr (fun code' hcode' => mem_synced fun _ hmem => ?_) code hcode
      exact hn m hm code' hmem hcode'

/-- The keys behind a keyboard event. -/
theorem keyboard_ok (hok : ∀ i, a.ok i = true) {scan : UInt16}
    (hscan : scanCode e.physicalKey = some scan) : Ends (keyboard a e) s fun r s' => r = .ok () ∧
      ∀ code, code ∈ s'.keys ↔ if code = scan then e.phase < 2
        else code ∈ modifiers.foldl (fun keys m => m.synced e scan keys) s.keys := by
  unfold keyboard
  rw [hscan]
  refine Ends.bind_ok (modifiers_ok hok scan modifiers) fun s₁ hs₁ => ?_
  rw [← hs₁]
  refine ends_bind.2 (ends_get.2 (.ite (fun _ => ?_) fun hskip => ?_))
  · refine Ends.bind_ok (send_ok hok _) fun s₂ hs₂ => ?_
    refine ends_modify.2 ⟨rfl, fun code => ?_⟩
    rw [hs₂]
    by_cases hup : e.phase ≥ 2
    · rw [decide_eq_true hup, if_pos rfl, List.mem_filter, decide_eq_true_eq]
      by_cases heq : code = scan
      · rw [if_pos heq]
        exact iff_of_false (fun h => h.2 heq) (UInt8.not_lt.2 hup)
      · rw [if_neg heq]
        exact and_iff_left heq
    · rw [decide_eq_false hup, if_neg Bool.false_ne_true, List.mem_insert_iff]
      by_cases heq : code = scan
      · rw [if_pos heq]
        exact iff_of_true (.inl heq) (UInt8.not_le.1 hup)
      · rw [if_neg heq]
        exact or_iff_right heq
  · obtain ⟨hup, hmem⟩ := not_not.1 hskip
    refine ends_pure.2 ⟨rfl, fun code => ?_⟩
    by_cases heq : code = scan
    · rw [if_pos heq, heq]
      exact iff_of_false hmem (UInt8.not_lt.2 (of_decide_eq_true hup))
    · rw [if_neg heq]

theorem modifiers_disjoint :
    modifiers.Pairwise fun m n => ∀ code ∈ m.codes, code ∉ n.codes := by
  simp [modifiers, Modifier.codes]

/-- The keys of a modifier that the event has: one is pressed unless one is down. -/
structure Pressed (m : Modifier) (keys keys' : List UInt16) : Prop where
  kept : ∀ code ∈ m.codes, code ∈ keys → code ∈ keys'
  one : ∀ code ∈ m.codes, ∀ code' ∈ m.codes, code ∈ keys' → code ∉ keys →
    code' ∈ keys' → code' ∉ keys → code = code'

theorem synced_pressed {m : Modifier} {scan : UInt16} {keys : List UInt16}
    (hbit : e.modifiers &&& m.mask ≠ 0) : Pressed m keys (m.synced e scan keys) := by
  unfold Modifier.synced
  rw [if_pos hbit]
  split
  · exact ⟨fun _ _ => id, fun _ _ _ _ h h' => absurd h h'⟩
  split
  · refine ⟨fun code _ hcode => List.mem_insert_of_mem hcode, fun code _ code' _ h hn h' hn' => ?_⟩
    rw [List.mem_insert_iff] at h h'
    rw [h.resolve_right hn, h'.resolve_right hn']
  · exact ⟨fun _ _ => id, fun _ _ _ _ h h' => absurd h h'⟩

theorem synced_iff {m : Modifier} {scan : UInt16} {keys : List UInt16} (hscan : scan ∉ m.codes) :
    (∃ code ∈ m.codes, code ∈ m.synced e scan keys) ↔ e.modifiers &&& m.mask ≠ 0 := by
  unfold Modifier.synced
  rw [if_neg (mt List.mem_pair.2 hscan)]
  by_cases hbit : e.modifiers &&& m.mask ≠ 0
  · rw [if_pos hbit]
    refine iff_of_true ?_ hbit
    split
    · exact ⟨m.left, List.mem_cons_self, List.mem_insert_self⟩
    · rename_i hdown
      rw [not_and_or, not_not, not_not] at hdown
      rcases hdown with hdown | hdown
      · exact ⟨m.left, by simp, hdown⟩
      · exact ⟨m.right, by simp, hdown⟩
  · rw [if_neg hbit]
    refine iff_of_false ?_ hbit
    rintro ⟨code, hcode, hmem⟩
    exact of_decide_eq_true (List.mem_filter.1 hmem).2 hcode

/-- **The modifiers are those of the event.**  Behind a keyboard event whose key has a scan code,
for every modifier but the key's own one of its keys is down exactly if the event has it; if so,
none has been released and at most one pressed.  The key is down unless it has been released,
nothing else has changed, and Windows holds down the keys that are kept. -/
theorem modifiers_synchronised (h : s.Reachable) (hok : ∀ i, a.ok i = true) {scan : UInt16}
    (hscan : scanCode e.physicalKey = some scan) (hs' : s' = (exec (keyboard a e) s).2) :
    (∀ m ∈ modifiers, scan ∉ m.codes →
      ((∃ code ∈ m.codes, code ∈ s'.keys) ↔ e.modifiers &&& m.mask ≠ 0) ∧
        (e.modifiers &&& m.mask ≠ 0 → Pressed m s.keys s'.keys)) ∧
    (scan ∈ s'.keys ↔ e.phase < 2) ∧
    (∀ code, code ≠ scan → (∀ m ∈ modifiers, scan ∉ m.codes → code ∉ m.codes) →
      (code ∈ s'.keys ↔ code ∈ s.keys)) ∧
    (∀ code, s.windows.keys code = true ↔ code ∈ s.keys) ∧
    ∀ code, s'.windows.keys code = true ↔ code ∈ s'.keys := by
  have hkeyboard : ∀ code, code ∈ s'.keys ↔ if code = scan then e.phase < 2
      else code ∈ modifiers.foldl (fun keys m => m.synced e scan keys) s.keys := by
    rw [hs']
    exact (keyboard_ok hok hscan : Ends ..).2
  have hclass (m : Modifier) (hm : m ∈ modifiers) (hown : scan ∉ m.codes) :
      ∀ code ∈ m.codes, code ∈ s'.keys ↔ code ∈ m.synced e scan s.keys := by
    intro code hcode
    have hne : code ≠ scan := fun heq => hown (heq ▸ hcode)
    rw [hkeyboard, if_neg hne, foldl_synced modifiers_disjoint hm code hcode]
  refine ⟨fun m hm hown => ⟨?_, fun hbit => ?_⟩, ?_, fun code hne hother => ?_, h.held.keyed, ?_⟩
  · rw [← synced_iff hown]
    exact exists_congr fun code => and_congr_right (hclass m hm hown code)
  · have hpressed : Pressed m s.keys (m.synced e scan s.keys) := synced_pressed hbit
    refine ⟨fun code hcode hmem => ?_, fun code hcode code' hcode' hmem hn hmem' hn' => ?_⟩
    · exact (hclass m hm hown code hcode).2 (hpressed.kept code hcode hmem)
    · exact hpressed.one code hcode code' hcode' ((hclass m hm hown code hcode).1 hmem) hn
        ((hclass m hm hown code' hcode').1 hmem') hn'
  · rw [hkeyboard, if_pos rfl]
  · rw [hkeyboard, if_neg hne, mem_foldl_synced hother]
  · rw [hs']
    exact (keyboard_ends h.held.keyed : Ends ..).2.2 (not_keySlips hok)

/-- `A` goes down with the shift key, which is pressed for it. -/
theorem modifiers_synchronised_sample :
    ∃ code ∈ [0x2a, 0x36], code ∈ (exec (keyboard {} (samplePress 4 2)) samplePressed).2.keys :=
  ((modifiers_synchronised samplePressed_reachable (fun _ => rfl)
    (rfl : scanCode (samplePress 4 2).physicalKey = some 0x1e) rfl).1 ⟨2, 0x2a, 0x36⟩ (by decide)
      (by decide)).1.2 (by decide)

end Injector
end Host
end SidecarDOS
