/-
# What a stream of events does to the injector

A `Shadow` is what the view can know of the injector: the contacts, the keys and the buttons
that it keeps.  `Shadow.after` is what an event makes of them, and the injector does the same
unless the platform refuses an injection (`event_lands`); that is the only error of an event
that `Suits`.
-/

import SidecarDOS.Host.Contacts

namespace SidecarDOS
namespace Host

open Library (Ends Within exec_demand_bind ends_pure ends_bind ends_get ends_modify ends_demand)

structure Shadow where
  held : Set UInt16
  keys : List UInt16
  buttons : UInt32

def Injector.shadow (s : Injector) : Shadow := ⟨s.held, s.keys, s.buttons⟩

/-- The keys behind a keyboard event. -/
def keysAfter (e : InputEvent) (keys : List UInt16) : List UInt16 :=
  match scanCode e.physicalKey with
  | none => keys
  | some scan =>
    let keys := Injector.modifiers.foldl (fun keys m => m.synced e scan keys) keys
    if e.phase ≥ 2 then keys.filter (· ≠ scan) else keys.insert scan

open scoped Classical in
/-- What an event makes of a shadow; a mouse event is dropped while a contact is active. -/
noncomputable def Shadow.after (s : Shadow) (e : InputEvent) : Shadow :=
  if e.kind = 0 then { s with held := moved s.held e }
  else if e.kind = 3 then { s with keys := keysAfter e s.keys }
  else if s.held = ∅ then { s with buttons := e.buttons } else s

/-- The event has what the injector checks. -/
structure Shadow.Suits (s : Shadow) (e : InputEvent) : Prop where
  flags : e.phase ≤ 3 ∧ e.buttons ≤ 7 ∧ e.isRepeat ≤ 1
  kind : e.kind = 0 ∧ Fits s.held e ∨
    e.kind = 1 ∧ (e.x.isUnit = true ∧ e.y.isUnit = true) ∧ e.dx.isDelta = true ∧
      e.dy.isDelta = true ∨
    e.kind = 3

namespace Injector

variable {s s' : Injector} {o : Outcome} {e : InputEvent} {P Q : Injector → Prop}
  {m : Inject Unit}

/-- The program does `Q`, or the platform refuses an injection. -/
def Lands (o : Outcome) (m : Inject Unit) (s : Injector) (Q : Injector → Prop) : Prop :=
  Ends m s fun r s' => (∀ error, r = .error error → ∃ i, o.ok i = false) ∧ (r = .ok () → Q s')

theorem Lands.bind {k : Unit → Inject Unit} (h : Lands o m s P)
    (hk : ∀ s', P s' → Lands o (k ()) s' Q) : Lands o (m >>= k) s Q :=
  Ends.bind h (fun _ s' hs' => hk s' (hs'.2 rfl)) fun error _ he =>
    ⟨fun _ _ => he.1 error rfl, nofun⟩

theorem Lands.mono (h : Lands o m s P) (hQ : ∀ s', P s' → Q s') : Lands o m s Q :=
  Ends.mono h fun _ s' hs' => ⟨hs'.1, fun hr => hQ s' (hs'.2 hr)⟩

theorem Lands.pure (h : Q s) : Lands o (Pure.pure ()) s Q := ends_pure.2 ⟨nofun, fun _ => h⟩

theorem Lands.get_bind {k : Injector → Inject Unit} (h : Lands o (k s) s Q) :
    Lands o (get >>= k) s Q := ends_bind.2 (ends_get.2 h)

theorem Lands.modify {f : Injector → Injector} (h : Q (f s)) : Lands o (modify f) s Q :=
  ends_modify.2 ⟨nofun, fun _ => h⟩

theorem Lands.ite {c : Prop} [Decidable c] {m' : Inject Unit} (h : c → Lands o m s Q)
    (h' : ¬ c → Lands o m' s Q) : Lands o (if c then m else m') s Q := Ends.ite h h'

/-- A check that passes. -/
theorem Lands.check_bind {c : Prop} [Decidable c] (hc : c) {text : String} {k : Unit → Inject Unit}
    (h : Lands o (k ()) s Q) : Lands o (check c text >>= k) s Q :=
  ends_bind.2 (ends_demand.2 ⟨fun _ => h, absurd hc⟩)

theorem send_lands (i : Injection) :
    Lands o (send o i) s fun s' => s' = { s with windows := s.windows.after i } := by
  unfold send
  refine ends_bind.2 (ends_demand.2 ⟨fun _ => ends_modify.2 ⟨nofun, fun _ => rfl⟩, fun hok => ?_⟩)
  exact ⟨fun _ _ => ⟨i, Bool.eq_false_iff.2 hok⟩, nofun⟩

/-- The keys and the buttons become these; the contacts and the bounds stay. -/
def Becomes (keys : List UInt16) (buttons : UInt32) (s s' : Injector) : Prop :=
  s'.keys = keys ∧ s'.buttons = buttons ∧ s'.touches = s.touches ∧ s'.bounds = s.bounds

/-! ### The keyboard -/

theorem releaseKey_lands (code : UInt16) :
    Lands o (releaseKey o code) s (Becomes (s.keys.filter (· ≠ code)) s.buttons s) := by
  unfold releaseKey
  refine .get_bind (.ite (fun _ => ?_) fun hn => .pure ⟨?_, rfl, rfl, rfl⟩)
  · refine Lands.bind (.modify rfl) fun s' hs' => (send_lands _).mono fun s'' hs'' => ?_
    subst hs' hs''
    exact ⟨rfl, rfl, rfl, rfl⟩
  · refine (List.filter_eq_self.2 fun code' hcode' => ?_).symm
    exact decide_eq_true fun heq => hn (heq ▸ hcode')

theorem modifier_lands (scan : UInt16) (m : Modifier) :
    Lands o (modifier o e scan m) s (Becomes (m.synced e scan s.keys) s.buttons s) := by
  unfold modifier Modifier.synced
  split
  · exact .pure ⟨rfl, rfl, rfl, rfl⟩
  split
  · refine .get_bind (.ite (fun hup => ?_) fun hup => ?_)
    · rw [if_pos hup]
      refine (send_lands _).bind fun s' hs' => .modify ?_
      subst hs'
      exact ⟨rfl, rfl, rfl, rfl⟩
    · rw [if_neg hup]
      exact .pure ⟨rfl, rfl, rfl, rfl⟩
  · refine (releaseKey_lands m.left).bind fun s₁ h₁ => ?_
    refine (releaseKey_lands m.right).bind fun s₂ h₂ => ?_
    obtain ⟨hkeys₁, hbuttons₁, htouches₁, hbounds₁⟩ := h₁
    obtain ⟨hkeys₂, hbuttons₂, htouches₂, hbounds₂⟩ := h₂
    refine .pure ⟨?_, hbuttons₂.trans hbuttons₁, htouches₂.trans htouches₁,
      hbounds₂.trans hbounds₁⟩
    rw [hkeys₂, hkeys₁, List.filter_filter]
    refine List.filter_congr fun code _ => ?_
    simp [Bool.and_comm]

theorem modifiers_lands (scan : UInt16) (ms : List Modifier) :
    Lands o (ms.forM (modifier o e scan)) s
      (Becomes (ms.foldl (fun keys m => m.synced e scan keys) s.keys) s.buttons s) := by
  induction ms generalizing s with
  | nil => exact .pure ⟨rfl, rfl, rfl, rfl⟩
  | cons m ms ih =>
    refine (modifier_lands scan m).bind fun s₁ h₁ => ih.mono fun s₂ h₂ => ?_
    obtain ⟨hkeys₁, hbuttons₁, htouches₁, hbounds₁⟩ := h₁
    obtain ⟨hkeys₂, hbuttons₂, htouches₂, hbounds₂⟩ := h₂
    rw [List.foldl_cons, ← hkeys₁]
    exact ⟨hkeys₂, hbuttons₂.trans hbuttons₁, htouches₂.trans htouches₁, hbounds₂.trans hbounds₁⟩

theorem keyboard_lands : Lands o (keyboard o e) s (Becomes (keysAfter e s.keys) s.buttons s) := by
  unfold keyboard keysAfter
  cases scanCode e.physicalKey with
  | none => exact .pure ⟨rfl, rfl, rfl, rfl⟩
  | some scan =>
    refine (modifiers_lands scan modifiers).bind fun s₁ h₁ => .get_bind ?_
    obtain ⟨hkeys, hbuttons, htouches, hbounds⟩ := h₁
    dsimp only
    rw [← hkeys]
    refine .ite (fun _ => ?_) fun hskip => ?_
    · refine (send_lands _).bind fun s₂ h₂ => .modify ?_
      subst h₂
      refine ⟨?_, hbuttons, htouches, hbounds⟩
      by_cases hup : e.phase ≥ 2 <;> simp [hup]
    · obtain ⟨hup, hmem⟩ := not_not.1 hskip
      refine .pure ⟨?_, hbuttons, htouches, hbounds⟩
      rw [if_pos (of_decide_eq_true hup)]
      have hsame : s₁.keys.filter (· ≠ scan) = s₁.keys := by
        refine List.filter_eq_self.2 fun code hcode => decide_eq_true ?_
        rintro rfl
        exact hmem hcode
      exact hsame.symm

/-! ### The mouse -/

theorem button_lands (mask : UInt32) :
    Lands o (button o e mask) s (Becomes s.keys s.buttons s) := by
  unfold button
  refine .get_bind (.ite (fun _ => (send_lands _).mono fun s' hs' => ?_) fun _ => .pure ?_)
  · subst hs'
    exact ⟨rfl, rfl, rfl, rfl⟩
  · exact ⟨rfl, rfl, rfl, rfl⟩

theorem buttons_lands (ms : List UInt32) :
    Lands o (ms.forM (button o e)) s (Becomes s.keys s.buttons s) := by
  induction ms generalizing s with
  | nil => exact .pure ⟨rfl, rfl, rfl, rfl⟩
  | cons mask ms ih =>
    refine (button_lands mask).bind fun s₁ h₁ => ih.mono fun s₂ h₂ => ?_
    obtain ⟨hkeys₁, hbuttons₁, htouches₁, hbounds₁⟩ := h₁
    obtain ⟨hkeys₂, hbuttons₂, htouches₂, hbounds₂⟩ := h₂
    exact ⟨hkeys₂.trans hkeys₁, hbuttons₂.trans hbuttons₁, htouches₂.trans htouches₁,
      hbounds₂.trans hbounds₁⟩

theorem click_lands : Lands o (click o e) s (Becomes s.keys e.buttons s) := by
  have hsend (i : Injection) (s' : Injector) (h : Becomes s.keys e.buttons s s') :
      Lands o (send o i) s' (Becomes s.keys e.buttons s) :=
    (send_lands i).mono fun s'' hs'' => by
      subst hs''
      exact h
  unfold click
  refine (buttons_lands masks).bind fun s₁ h₁ => ?_
  have hclicked : Becomes s.keys e.buttons s { s₁ with buttons := e.buttons } :=
    ⟨h₁.1, rfl, h₁.2.2⟩
  refine Lands.bind (.modify hclicked) fun s₂ h₂ => .ite (fun _ => ?_) fun _ => .pure h₂
  have hwheel (s₃ : Injector) (h₃ : Becomes s.keys e.buttons s s₃) :
      Lands o (if e.dx.magnitude ≠ 0 then send o .hwheel else pure () : Inject Unit) s₃
        (Becomes s.keys e.buttons s) :=
    .ite (fun _ => hsend _ _ h₃) fun _ => .pure h₃
  exact .ite (fun _ => (hsend _ _ h₂).bind hwheel) fun _ => hwheel s₂ h₂

/-- A mouse event that is well formed, behind the contacts if there are any. -/
theorem mouse_lands (hunit : e.x.isUnit = true ∧ e.y.isUnit = true)
    (hdelta : e.dx.isDelta = true ∧ e.dy.isDelta = true)
    (hbounds : s.bounds.width > 0 ∧ s.bounds.height > 0) :
    Lands o (mouse o e) s
      (Becomes s.keys (if s.touches = [] then e.buttons else s.buttons) s) := by
  have hmap : s.bounds.map o e.x e.y = .ok (o.pixel s.bounds e.x e.y) :=
    if_pos ⟨hunit.1, hunit.2, hbounds⟩
  have hmove (s' : Injector) (h : s' = s) :
      Lands o (send o .move >>= fun _ => click o e) s' (Becomes s.keys e.buttons s) := by
    subst h
    refine (send_lands _).bind fun s₁ h₁ => ?_
    subst h₁
    exact click_lands
  unfold mouse
  refine .check_bind hdelta (.get_bind (.ite (fun hnone => ?_) fun hsome => .pure ?_))
  · rw [if_pos hnone]
    refine .ite (fun _ => ?_) fun _ => hmove s rfl
    dsimp only
    rw [hmap]
    exact hmove s rfl
  · rw [if_neg hsome]
    exact ⟨rfl, rfl, rfl, rfl⟩

/-! ### Events -/

theorem attempt_keys_kept (s : Injector) (i : Injection) : (attempt o s i).keys = s.keys := by
  unfold attempt send check
  rw [exec_demand_bind]
  split <;> rfl

/-- `release_all` drops every key. -/
theorem releaseAll_keys (s : Injector) : (s.releaseAll o).keys = [] := by
  have hmasks (ms : List UInt32) (s : Injector) : (ms.foldl (fun s mask =>
      if s.buttons &&& mask ≠ 0 then attempt o s (.button mask false) else s) s).keys = s.keys := by
    induction ms generalizing s with
    | nil => rfl
    | cons mask ms ih =>
      refine (ih _).trans ?_
      dsimp only
      split
      · exact attempt_keys_kept s _
      · rfl
  exact hmasks masks _

theorem held_eq_empty : s.held = ∅ ↔ s.touches = [] := by
  constructor
  · intro h
    refine List.eq_nil_iff_forall_not_mem.2 fun touch hmem => ?_
    have hheld : touch.1 ∈ s.held := ⟨touch.2, hmem⟩
    rw [h] at hheld
    exact hheld
  · intro h
    refine Set.eq_empty_of_forall_notMem fun id hid => ?_
    obtain ⟨touch, hmem⟩ := hid
    rw [h] at hmem
    exact List.not_mem_nil hmem

theorem Becomes.shadow {keys : List UInt16} {buttons : UInt32} (h : Becomes keys buttons s s') :
    s'.shadow = ⟨s.held, keys, buttons⟩ ∧ s'.bounds = s.bounds := by
  obtain ⟨hkeys, hbuttons, htouches, hbounds⟩ := h
  unfold Injector.shadow held
  rw [hkeys, hbuttons, htouches]
  exact ⟨rfl, hbounds⟩

/-- **Events land.** An event that suits the shadow of the injector does to it what it does to the
shadow, unless the platform refuses an injection. -/
theorem event_lands (h : s.shadow.Suits e) (hbounds : s.bounds.width > 0 ∧ s.bounds.height > 0) :
    Lands o (event o e) s fun s' => s'.shadow = s.shadow.after e ∧ s'.bounds = s.bounds := by
  rcases h.kind with ⟨hkind, hfits⟩ | ⟨hkind, hunit, hdelta⟩ | hkind
  · have hquiet : Within Quiet (fun _ => True) (touch o e) s := touch_quiet
    have htouch : Ends (touch o e) s _ := touch_passes hfits hbounds
    unfold event
    refine .check_bind h.flags (.ite (fun _ => ?_) (absurd hkind))
    refine ⟨fun error herror => ⟨_, htouch.error error herror⟩, fun hr => ⟨?_, htouch.bounds⟩⟩
    have hsame := hquiet.out.2
    unfold Injector.shadow
    rw [Shadow.after, if_pos hkind, htouch.held hr, hsame.keys, hsame.buttons]
  · have hne : ¬ e.kind = 0 := by rw [hkind]; decide
    have hkeyboard : ¬ e.kind = 3 := by rw [hkind]; decide
    unfold event
    refine .check_bind h.flags (.ite (fun h0 => absurd h0 hne) fun _ => .ite (fun _ => ?_) ?_)
    · refine (mouse_lands hunit hdelta hbounds).mono fun s' hs' => ?_
      rw [hs'.shadow.1, Shadow.after, if_neg hne, if_neg hkeyboard]
      refine ⟨?_, hs'.shadow.2⟩
      have hnone : s.shadow.held = ∅ ↔ s.touches = [] := held_eq_empty
      simp only [hnone]
      split <;> rfl
    · exact fun hn => absurd (.inl hkind) hn
  · have hne : ¬ e.kind = 0 := by rw [hkind]; decide
    have hmouse : ¬ (e.kind = 1 ∨ e.kind = 2) := by rw [hkind]; decide
    unfold event
    refine .check_bind h.flags (.ite (fun h0 => absurd h0 hne) fun _ => .ite
      (fun h12 => absurd h12 hmouse) fun _ => .ite (fun _ => ?_) fun hn => absurd hkind hn)
    refine keyboard_lands.mono fun s' hs' => ?_
    rw [hs'.shadow.1, Shadow.after, if_neg hne, if_pos hkind]
    exact ⟨rfl, hs'.shadow.2⟩

end Injector

end Host
end SidecarDOS
