/-
# From the view to the injector

`TouchPath` with all that the view sends: touches, the pointer, the wheel, the keyboard, and what
`releaseAll` sends when the view is dismantled and another one takes its place.  Behind the
events under way the injector has the contacts of the view, and its keys are keys of the view
or left keys of modifiers, which are pressed without an event of their own (`Mirrors`).  Every
callback keeps this, and so does every event that is handled and every change of the bounds
while no contact is held.
-/

import SidecarDOS.Client.DisplaySurface
import SidecarDOS.Host.Shadow

namespace SidecarDOS
namespace Host

open Ipad (InputView DisplaySurface UITouch UIKey)
open Library (Reaches Along exec)

/-! ### Events on shadows -/

/-- A mouse event that the injector takes. -/
structure Points (e : InputEvent) : Prop where
  kind : e.kind = 1
  flags : e.phase ≤ 3 ∧ e.buttons ≤ 7 ∧ e.isRepeat ≤ 1
  unit : e.x.isUnit = true ∧ e.y.isUnit = true
  delta : e.dx.isDelta = true ∧ e.dy.isDelta = true

namespace Shadow

variable {s : Shadow} {e : InputEvent} {es : List InputEvent}

theorem after_touch (hkind : e.kind = 0) : s.after e = { s with held := moved s.held e } :=
  if_pos hkind

theorem after_key (hkind : e.kind = 3) : s.after e = { s with keys := keysAfter e s.keys } := by
  have hne : ¬ e.kind = 0 := by rw [hkind]; decide
  unfold Shadow.after
  rw [if_neg hne, if_pos hkind]

theorem after_mouse (hkind : e.kind = 1) :
    (s.after e).held = s.held ∧ (s.after e).keys = s.keys ∧
      (s.held = ∅ → (s.after e).buttons = e.buttons) := by
  have hne : ¬ e.kind = 0 := by rw [hkind]; decide
  have hkeyboard : ¬ e.kind = 3 := by rw [hkind]; decide
  unfold Shadow.after
  rw [if_neg hne, if_neg hkeyboard]
  split
  · exact ⟨rfl, rfl, fun _ => rfl⟩
  · rename_i hheld
    exact ⟨rfl, rfl, fun h => absurd h hheld⟩

theorem Suits.of_points (h : Points e) : s.Suits e :=
  ⟨h.flags, .inr (.inl ⟨h.kind, h.unit, h.delta⟩)⟩

/-- Touches and mouse events, which leave the keys alone. -/
theorem plays_along {held : Set UInt16} (h : Plays s.held es held)
    (hpoints : ∀ e ∈ es, e.kind = 1 → Points e) : Along Shadow.after Suits s es ∧
      (es.foldl Shadow.after s).held = held ∧ (es.foldl Shadow.after s).keys = s.keys := by
  induction es generalizing s with
  | nil => exact ⟨trivial, h, rfl⟩
  | cons e es ih =>
    obtain ⟨hpoint, hpoints⟩ := List.forall_mem_cons.1 hpoints
    rcases h with ⟨hkind, hfits, hrest⟩ | ⟨hkind, hrest⟩
    · have hafter := after_touch (s := s) hkind
      have hheld : moved s.held e = (s.after e).held := by rw [hafter]
      rw [hheld] at hrest
      obtain ⟨halong, hend, hkeys⟩ := ih hrest hpoints
      refine ⟨⟨⟨hfits.flags, .inl ⟨hkind, hfits⟩⟩, halong⟩, hend, hkeys.trans ?_⟩
      rw [hafter]
    · obtain ⟨hheld, hsame, -⟩ := after_mouse (s := s) hkind
      rw [← hheld] at hrest
      obtain ⟨halong, hend, hkeys⟩ := ih hrest hpoints
      exact ⟨⟨.of_points (hpoint hkind), halong⟩, hend, hkeys.trans hsame⟩

end Shadow

/-! ### Keys -/

namespace Injector

/-- The left keys of the modifiers. -/
def Left (code : UInt16) : Prop := ∃ m ∈ modifiers, code = m.left

theorem mem_synced_left {m : Modifier} {e : InputEvent} {scan code : UInt16} {keys : List UInt16}
    (h : code ∈ m.synced e scan keys) : code = m.left ∨ code ∈ keys := by
  unfold Modifier.synced at h
  split at h
  · exact .inr h
  split at h
  · split at h
    · exact List.mem_insert_iff.1 h
    · exact .inr h
  · exact .inr (List.mem_filter.1 h).1

theorem mem_foldl_left {ms : List Modifier} {e : InputEvent} {scan code : UInt16}
    {keys : List UInt16} (hms : ms ⊆ modifiers)
    (h : code ∈ ms.foldl (fun keys m => m.synced e scan keys) keys) : Left code ∨ code ∈ keys := by
  induction ms generalizing keys with
  | nil => exact .inr h
  | cons m ms ih =>
    obtain ⟨hm, hms⟩ := List.cons_subset.1 hms
    rcases ih hms h with hleft | hmem
    · exact .inl hleft
    · exact (mem_synced_left hmem).imp_left fun heq => ⟨m, hm, heq⟩

/-- A key that is down behind a keyboard event is a left key, or was down and is not released, or
is the key of the event. -/
theorem mem_keysAfter {e : InputEvent} {keys : List UInt16} {code : UInt16}
    (h : code ∈ keysAfter e keys) : Left code ∨
      (code ∈ keys ∧ (e.phase ≥ 2 → scanCode e.physicalKey ≠ some code)) ∨
        scanCode e.physicalKey = some code ∧ ¬ e.phase ≥ 2 := by
  unfold keysAfter at h
  cases hscan : scanCode e.physicalKey with
  | none =>
    rw [hscan] at h
    exact .inr (.inl ⟨h, fun _ => nofun⟩)
  | some scan =>
    rw [hscan] at h
    dsimp only at h
    split at h
    · obtain ⟨hmem, hne⟩ := List.mem_filter.1 h
      have hne : code ≠ scan := of_decide_eq_true hne
      refine (mem_foldl_left (List.Subset.refl _) hmem).imp_right fun hkeys => .inl ⟨hkeys, ?_⟩
      exact fun _ heq => hne (Option.some.inj heq).symm
    · rename_i hdown
      rcases List.mem_insert_iff.1 h with rfl | hmem
      · exact .inr (.inr ⟨rfl, hdown⟩)
      · refine (mem_foldl_left (List.Subset.refl _) hmem).imp_right fun hkeys => .inl ⟨hkeys, ?_⟩
        exact fun hup => absurd hup hdown

/-- The keys that are no left ones only grow with those before. -/
theorem synced_mono {m : Modifier} {e : InputEvent} {scan code : UInt16} {keys keys' : List UInt16}
    (hcode : code ≠ m.left) (h : code ∈ keys → code ∈ keys') (hmem : code ∈ m.synced e scan keys) :
    code ∈ m.synced e scan keys' := by
  have hkeys : code ∈ keys := (mem_synced_left hmem).resolve_left hcode
  unfold Modifier.synced at hmem ⊢
  split
  · exact h hkeys
  rename_i hown
  rw [if_neg hown] at hmem
  split
  · split
    · exact List.mem_insert_of_mem (h hkeys)
    · exact h hkeys
  · rename_i hbit
    rw [if_neg hbit] at hmem
    exact List.mem_filter.2 ⟨h hkeys, (List.mem_filter.1 hmem).2⟩

theorem keysAfter_mono {e : InputEvent} {code : UInt16} {keys keys' : List UInt16}
    (hcode : ¬ Left code) (h : code ∈ keys → code ∈ keys') (hmem : code ∈ keysAfter e keys) :
    code ∈ keysAfter e keys' := by
  have hfoldl (scan : UInt16) (ms : List Modifier) (hms : ms ⊆ modifiers)
      (keys keys' : List UInt16) (h : code ∈ keys → code ∈ keys') :
      code ∈ ms.foldl (fun keys m => m.synced e scan keys) keys →
        code ∈ ms.foldl (fun keys m => m.synced e scan keys) keys' := by
    induction ms generalizing keys keys' with
    | nil => exact h
    | cons m ms ih =>
      obtain ⟨hm, hms⟩ := List.cons_subset.1 hms
      exact ih hms _ _ (synced_mono (fun heq => hcode ⟨m, hm, heq⟩) h)
  unfold keysAfter at hmem ⊢
  cases hscan : scanCode e.physicalKey with
  | none =>
    rw [hscan] at hmem
    exact h hmem
  | some scan =>
    rw [hscan] at hmem
    dsimp only at hmem ⊢
    have hkeys := hfoldl scan modifiers (List.Subset.refl _) keys keys' h
    split
    · rename_i hup
      rw [if_pos hup] at hmem
      obtain ⟨hmem, hne⟩ := List.mem_filter.1 hmem
      exact List.mem_filter.2 ⟨hkeys hmem, hne⟩
    · rename_i hdown
      rw [if_neg hdown] at hmem
      exact List.mem_insert_iff.2 ((List.mem_insert_iff.1 hmem).imp_right hkeys)

theorem mem_synced_bare {m : Modifier} {e : InputEvent} {scan code : UInt16} {keys : List UInt16}
    (hbare : e.modifiers = 0) (h : code ∈ m.synced e scan keys) :
    code ∈ keys ∧ (code ∈ m.codes → scan ∈ m.codes) := by
  unfold Modifier.synced at h
  split at h
  · rename_i hown
    exact ⟨h, fun _ => List.mem_pair.2 hown⟩
  split at h
  · rename_i hbit
    rw [hbare, UInt16.zero_and] at hbit
    exact absurd rfl hbit
  · obtain ⟨hmem, hn⟩ := List.mem_filter.1 h
    exact ⟨hmem, fun hcode => absurd hcode (of_decide_eq_true hn)⟩

theorem mem_foldl_bare {ms : List Modifier} {e : InputEvent} {scan code : UInt16}
    {keys : List UInt16} (hbare : e.modifiers = 0)
    (h : code ∈ ms.foldl (fun keys m => m.synced e scan keys) keys) :
    code ∈ keys ∧ ∀ m ∈ ms, code ∈ m.codes → scan ∈ m.codes := by
  induction ms generalizing keys with
  | nil => exact ⟨h, nofun⟩
  | cons m ms ih =>
    obtain ⟨hmem, hms⟩ := ih h
    obtain ⟨hkeys, hm⟩ := mem_synced_bare hbare hmem
    exact ⟨hkeys, List.forall_mem_cons.2 ⟨hm, hms⟩⟩

/-- A key that is still down when another one is released without modifiers: it is not that one,
and belongs to no modifier but that one's. -/
theorem mem_keysAfter_bare {e : InputEvent} {keys : List UInt16} {code : UInt16}
    (hup : e.phase ≥ 2) (hbare : e.modifiers = 0) (h : code ∈ keysAfter e keys) :
    code ∈ keys ∧ ∀ scan, scanCode e.physicalKey = some scan →
      code ≠ scan ∧ ∀ m ∈ modifiers, code ∈ m.codes → scan ∈ m.codes := by
  unfold keysAfter at h
  cases hscan : scanCode e.physicalKey with
  | none =>
    rw [hscan] at h
    exact ⟨h, fun _ => nofun⟩
  | some scan =>
    rw [hscan] at h
    dsimp only at h
    rw [if_pos hup] at h
    obtain ⟨hmem, hne⟩ := List.mem_filter.1 h
    obtain ⟨hkeys, hmodifiers⟩ := mem_foldl_bare hbare hmem
    refine ⟨hkeys, ?_⟩
    rintro _ ⟨⟩
    exact ⟨of_decide_eq_true hne, hmodifiers⟩

end Injector

/-! ### The view -/

section View

variable {v : InputView} {d d' d'' : DisplaySurface} {active : List ℕ} {phase : UInt8}
  {es es' : List InputEvent}

/-- The ids of the contacts differ, and the last point of the mouse lies in the video. -/
structure Aims (v : InputView) : Prop where
  nodup : (v.contacts.map Prod.snd).Nodup
  unit : v.lastMouse.1.isUnit = true ∧ v.lastMouse.2.isUnit = true

theorem contacts_empty : contacts {} = ∅ :=
  Set.eq_empty_of_forall_notMem fun _ ⟨_, hmem⟩ => List.not_mem_nil hmem

theorem zero_isDelta : F32.isDelta ⟨0⟩ = true := by decide

theorem points_event (h : Aims v) (hphase : phase ≤ 3) (hbuttons : v.buttons ≤ 7) :
    Points (v.event 1 phase 0 v.lastMouse) :=
  ⟨rfl, ⟨hphase, hbuttons, UInt8.zero_le⟩, h.unit, zero_isDelta, zero_isDelta⟩

theorem Aims.removed (h : Aims v) (identity : ℕ) : ((v.removed identity).map Prod.snd).Nodup :=
  h.nodup.sublist (List.filter_sublist.map _)

theorem Aims.began (h : Aims v) {t : UITouch} {v' : InputView} (hbegan : v.began t = some v') :
    Aims v' := by
  unfold InputView.began at hbegan
  split at hbegan
  · obtain ⟨id, hfree, rfl⟩ := Option.map_eq_some_iff.1 hbegan
    have hnew : id ∉ (v.removed t.identity).map Prod.snd := by
      intro hmem
      obtain ⟨c, hc, rfl⟩ := List.mem_map.1 hmem
      exact (firstFree_spec hfree).2 ⟨c.1, (mem_removed.1 hc).1⟩
    exact ⟨List.nodup_cons.2 ⟨hnew, h.removed t.identity⟩, h.unit⟩
  · cases hbegan

theorem Aims.touch (h : Aims v) (hphase : phase ≤ 3) (mask : UInt32) (t : UITouch) :
    Aims (v.touch phase mask t).1 ∧ ∀ e ∈ (v.touch phase mask t).2, e.kind = 1 → Points e := by
  unfold InputView.touch
  cases t.type with
  | indirectPointer =>
    have haims (buttons : UInt32) :
        Aims { v with lastMouse := (t.x, t.y), buttons := buttons } := ⟨h.nodup, t.unit⟩
    refine ⟨haims _, List.forall_mem_singleton.2 fun _ => points_event (haims _) hphase ?_⟩
    dsimp only
    split_ifs <;> decide
  | other => exact ⟨h, nofun⟩
  | direct =>
    dsimp only
    split
    · exact ⟨h, nofun⟩
    · rename_i v' hbegan
      have haims : Aims v' := by
        split at hbegan
        · exact h.began hbegan
        · obtain rfl : v = v' := Option.some.inj hbegan
          exact h
      split
      · exact ⟨haims, nofun⟩
      · refine ⟨⟨?_, haims.unit⟩, List.forall_mem_singleton.2 fun hkind => ?_⟩
        · dsimp only
          split
          · exact haims.removed t.identity
          · exact haims.nodup
        · have hne : ¬ (0 : UInt8) = 1 := by decide
          exact absurd hkind hne

theorem Aims.touches (h : Aims v) (hphase : phase ≤ 3) (mask : UInt32) (ts : List UITouch) :
    Aims (v.touches phase mask ts).1 ∧
      ∀ e ∈ (v.touches phase mask ts).2, e.kind = 1 → Points e := by
  induction ts generalizing v with
  | nil => exact ⟨h, nofun⟩
  | cons t ts ih =>
    obtain ⟨hhead, hpoints⟩ := h.touch hphase mask t
    obtain ⟨hrest, hpoints'⟩ := ih hhead
    exact ⟨hrest, List.forall_mem_append.2 ⟨hpoints, hpoints'⟩⟩

/-- What a view keeps. -/
structure Ready (d : DisplaySurface) (active : List ℕ) : Prop where
  kept : Kept d.view active
  aims : Aims d.view

theorem ready_new : Ready {} [] := by
  have hbuttons : (0 : UInt32) ≤ 7 := UInt32.zero_le
  have hmiddle : F32.isUnit ⟨0x3f000000⟩ = true := by decide
  exact ⟨⟨nofun, nofun, nofun, nofun, hbuttons⟩, ⟨.nil, hmiddle, hmiddle⟩⟩

/-- The contacts are those of the view, and the keys its keys or left keys of modifiers. -/
structure Mirrors (d : DisplaySurface) (s : Shadow) : Prop where
  held : s.held = contacts d.view
  keys : ∀ code ∈ s.keys, Injector.Left code ∨ ∃ hid ∈ d.keys, scanCode hid = some code

/-- The events lead from the shadows of one view to those of another. -/
def Leads (d : DisplaySurface) (es : List InputEvent) (d' : DisplaySurface) : Prop :=
  ∀ s, Mirrors d s →
    Along Shadow.after Shadow.Suits s es ∧ Mirrors d' (es.foldl Shadow.after s)

theorem Leads.nil (d : DisplaySurface) : Leads d [] d := fun _ h => ⟨trivial, h⟩

theorem Leads.append (h : Leads d es d') (h' : Leads d' es' d'') : Leads d (es ++ es') d'' := by
  intro s hs
  obtain ⟨halong, hmirrors⟩ := h s hs
  obtain ⟨halong', hmirrors'⟩ := h' _ hmirrors
  rw [List.foldl_append]
  exact ⟨halong.append halong', hmirrors'⟩

/-- A mouse event changes nothing that a view tells of. -/
theorem leads_mouse {e : InputEvent} (h : Points e) (hcontacts : contacts d'.view = contacts d.view)
    (hkeys : d'.keys = d.keys) : Leads d [e] d' := by
  intro s hs
  obtain ⟨hheld, hsame, -⟩ := Shadow.after_mouse (s := s) h.kind
  refine ⟨⟨.of_points h, trivial⟩, ?_, ?_⟩
  · exact (hheld.trans hs.held).trans hcontacts.symm
  · intro code hcode
    rw [List.foldl_cons, List.foldl_nil, hsame] at hcode
    rw [hkeys]
    exact hs.keys code hcode

theorem touches_leads {ts : List UITouch} (mask : UInt32) (h : Ready d active) (hphase : phase ≤ 3)
    (hset : (ts.map UITouch.identity).Nodup) (hbegins : phase = 0 → ∀ t ∈ ts, t.identity ∉ active) :
    Ready (d.touches phase mask ts).1 (ts.foldl (touched phase) active) ∧
      Leads d (d.touches phase mask ts).2 (d.touches phase mask ts).1 := by
  obtain ⟨hkept, hplays⟩ := touches_plays mask h.kept hphase hset hbegins
  obtain ⟨haims, hpoints⟩ := h.aims.touches hphase mask ts
  refine ⟨⟨hkept, haims⟩, fun s hs => ?_⟩
  rw [← hs.held] at hplays
  obtain ⟨halong, hheld, hkeys⟩ := Shadow.plays_along hplays hpoints
  refine ⟨halong, hheld, ?_⟩
  intro code hcode
  exact hs.keys code (hkeys ▸ hcode)

theorem hover_leads {location : Option DisplaySurface.Point} (h : Ready d active)
    (hunit : ∀ p ∈ location, p.1.isUnit = true ∧ p.2.isUnit = true) :
    Ready (d.hover location).1 active ∧ Leads d (d.hover location).2 (d.hover location).1 := by
  unfold DisplaySurface.hover
  cases location with
  | none => exact ⟨h, .nil d⟩
  | some p =>
    dsimp only
    split
    · have hready : Ready { d with view := { d.view with lastMouse := p } } active :=
        ⟨⟨h.kept.objects, h.kept.ids, h.kept.small, h.kept.active, h.kept.buttons⟩,
          ⟨h.aims.nodup, hunit p rfl⟩⟩
      have hpoints : Points (d.view.event 1 1 0 p) := by
        have hphase : (1 : UInt8) ≤ 3 := by decide
        exact points_event hready.aims hphase h.kept.buttons
      exact ⟨hready, leads_mouse hpoints rfl rfl⟩
    · exact ⟨h, .nil d⟩

theorem scroll_leads {dx dy : F32} (h : Ready d active)
    (hdelta : dx.isDelta = true ∧ dy.isDelta = true) :
    Ready (d.scroll dx dy).1 active ∧ Leads d (d.scroll dx dy).2 (d.scroll dx dy).1 := by
  unfold DisplaySurface.scroll
  split
  · have hphase : (1 : UInt8) ≤ 3 := by decide
    have hpoints := points_event h.aims hphase h.kept.buttons
    exact ⟨h, leads_mouse ⟨rfl, hpoints.flags, hpoints.unit, hdelta⟩ rfl rfl⟩
  · exact ⟨h, .nil d⟩

theorem press_leads (h : Ready d active) (hphase : phase ≤ 3) (p : Option UIKey) :
    Ready (d.press phase p).1 active ∧ Leads d (d.press phase p).2 (d.press phase p).1 := by
  cases p with
  | none => exact ⟨h, .nil d⟩
  | some key =>
    refine ⟨⟨h.kept, h.aims⟩, fun s hs => ?_⟩
    obtain ⟨e, he⟩ : ∃ e, (d.press phase (some key)).2 = [e] := ⟨_, rfl⟩
    have hevent := List.singleton_inj.1 he
    have hkind : e.kind = 3 := by rw [← hevent]; rfl
    have hcode : e.physicalKey = key.code := by rw [← hevent]; rfl
    have hup : e.phase = phase := by rw [← hevent]; rfl
    have hflags : e.phase ≤ 3 ∧ e.buttons ≤ 7 ∧ e.isRepeat ≤ 1 := by
      rw [← hevent]
      refine ⟨hphase, h.kept.buttons, ?_⟩
      dsimp only [DisplaySurface.keyEvent]
      split <;> decide
    rw [he]
    refine ⟨⟨⟨hflags, .inr (.inr hkind)⟩, trivial⟩, ?_⟩
    rw [List.foldl_cons, List.foldl_nil, Shadow.after_key hkind]
    refine ⟨hs.held, fun code hmem => ?_⟩
    dsimp only [DisplaySurface.press]
    rcases Injector.mem_keysAfter hmem with hleft | ⟨hkeys, hkept⟩ | ⟨hscan, hdown⟩
    · exact .inl hleft
    · refine (hs.keys code hkeys).imp_right ?_
      rintro ⟨hid, hmem, hscan⟩
      refine ⟨hid, ?_, hscan⟩
      split
      · rename_i hends
        refine List.mem_filter.2 ⟨hmem, decide_eq_true ?_⟩
        rintro rfl
        exact hkept (hup ▸ hends) (hcode ▸ hscan)
      · exact List.mem_insert_of_mem hmem
    · refine .inr ⟨key.code, ?_, hcode ▸ hscan⟩
      rw [if_neg (hup ▸ hdown)]
      exact List.mem_insert_self

theorem presses_leads (h : Ready d active) (hphase : phase ≤ 3) (ps : List (Option UIKey)) :
    Ready (d.presses phase ps).1 active ∧
      Leads d (d.presses phase ps).2 (d.presses phase ps).1 := by
  induction ps generalizing d with
  | nil => exact ⟨h, .nil d⟩
  | cons p ps ih =>
    obtain ⟨hhead, hleads⟩ := press_leads h hphase p
    obtain ⟨hrest, hleads'⟩ := ih hhead
    exact ⟨hrest, hleads.append hleads'⟩

/-! ### `releaseAll` -/

/-- Every contact is canceled. -/
theorem cancel_along {s : Shadow} {ids : List UInt16} (hbuttons : v.buttons ≤ 7)
    (hsmall : ∀ id ∈ ids, id < 10) (hnodup : ids.Nodup) (hheld : ∀ id, id ∈ s.held ↔ id ∈ ids) :
    Along Shadow.after Shadow.Suits s (ids.map fun id => v.event 0 3 id (⟨0⟩, ⟨0⟩)) ∧
      (ids.map fun id => v.event 0 3 id (⟨0⟩, ⟨0⟩)).foldl Shadow.after s =
        { s with held := ∅ } := by
  induction ids generalizing s with
  | nil =>
    have hempty : s.held = ∅ := Set.eq_empty_of_forall_notMem fun id h => nomatch (hheld id).1 h
    refine ⟨trivial, ?_⟩
    rw [← hempty]
    rfl
  | cons id ids ih =>
    obtain ⟨hid, hsmall⟩ := List.forall_mem_cons.1 hsmall
    obtain ⟨hnew, hnodup⟩ := List.nodup_cons.1 hnodup
    have hmem : id ∈ s.held := (hheld id).2 List.mem_cons_self
    have hphase : (3 : UInt8) ≤ 3 := UInt8.le_rfl
    have hunit : F32.isUnit ⟨0⟩ = true := by decide
    have hfits : Fits s.held (v.event 0 3 id (⟨0⟩, ⟨0⟩)) := by
      refine ⟨⟨hphase, hbuttons, UInt8.zero_le⟩, hid, ⟨hunit, hunit⟩, ?_⟩
      exact iff_of_false (by decide : ¬ (3 : UInt8) = 0) (not_not.2 hmem)
    have hafter : s.after (v.event 0 3 id (⟨0⟩, ⟨0⟩)) = { s with held := s.held \ {id} } :=
      Shadow.after_touch rfl
    have hrest : ∀ id', id' ∈ s.held \ {id} ↔ id' ∈ ids := by
      intro id'
      rw [Set.mem_sdiff, hheld, List.mem_cons, Set.mem_singleton_iff]
      constructor
      · rintro ⟨heq | hids, hne⟩
        · exact absurd heq hne
        · exact hids
      · intro hids
        refine ⟨.inr hids, ?_⟩
        rintro rfl
        exact hnew hids
    obtain ⟨halong, hend⟩ := ih (s := { s with held := s.held \ {id} }) hsmall hnodup hrest
    rw [← hafter] at halong hend
    refine ⟨⟨⟨hfits.flags, .inl ⟨rfl, hfits⟩⟩, halong⟩, hend.trans ?_⟩
    rw [hafter]

/-- Every key of a list is released without modifiers. -/
theorem release_along {s : Shadow} (hbuttons : d.view.buttons ≤ 7) (codes : List UInt16) :
    let es := codes.map fun code => d.keyEvent 3 code 0 0 false
    Along Shadow.after Shadow.Suits s es ∧ (es.foldl Shadow.after s).held = s.held ∧
      ∀ code ∈ (es.foldl Shadow.after s).keys, code ∈ s.keys ∧ ∀ hid ∈ codes,
        ∀ scan, scanCode hid = some scan → code ≠ scan ∧
          ∀ m ∈ Injector.modifiers, code ∈ m.codes → scan ∈ m.codes := by
  induction codes generalizing s with
  | nil => exact ⟨trivial, rfl, fun _ h => ⟨h, nofun⟩⟩
  | cons hid codes ih =>
    have hphase : (3 : UInt8) ≤ 3 := UInt8.le_rfl
    have hafter : s.after (d.keyEvent 3 hid 0 0 false) =
        { s with keys := keysAfter (d.keyEvent 3 hid 0 0 false) s.keys } := Shadow.after_key rfl
    have hsuits : s.Suits (d.keyEvent 3 hid 0 0 false) :=
      ⟨⟨hphase, hbuttons, UInt8.zero_le⟩, .inr (.inr rfl)⟩
    obtain ⟨halong, hheld, hkeys⟩ := ih (s := s.after (d.keyEvent 3 hid 0 0 false))
    refine ⟨⟨hsuits, halong⟩, hheld.trans (by rw [hafter]), fun code hcode => ?_⟩
    obtain ⟨hmem, hrest⟩ := hkeys code hcode
    rw [hafter] at hmem
    have hup : (d.keyEvent 3 hid 0 0 false).phase ≥ 2 := by
      change (2 : UInt8) ≤ 3
      decide
    obtain ⟨hmem, hfirst⟩ := Injector.mem_keysAfter_bare hup rfl hmem
    exact ⟨hmem, List.forall_mem_cons.2 ⟨hfirst, hrest⟩⟩

/-- What a view leaves that is dismantled: no contact, no button, and of the keys at most the left
one of a modifier, if the view held no key but those of the same modifier. -/
structure Emptied (d : DisplaySurface) (s : Shadow) : Prop where
  held : s.held = ∅
  buttons : s.buttons = 0
  keys : ∀ code ∈ s.keys, ∃ m ∈ Injector.modifiers, code = m.left ∧
    ∀ hid ∈ d.keys, ∀ scan, scanCode hid = some scan → scan ∈ m.codes

/-- `ids` and `codes` are the contacts and the keys of the view. -/
structure Walks (d : DisplaySurface) (ids codes : List UInt16) : Prop where
  ids : ids.Perm (d.view.contacts.map Prod.snd)
  codes : codes.Perm d.keys

theorem releaseAll_along {s : Shadow} {ids codes : List UInt16} (h : Ready d active)
    (hwalks : Walks d ids codes) (hs : Mirrors d s) :
    Along Shadow.after Shadow.Suits s (d.releaseAll ids codes).2 ∧
      Emptied d ((d.releaseAll ids codes).2.foldl Shadow.after s) := by
  have hids (id : UInt16) : id ∈ ids ↔ id ∈ contacts d.view := by
    rw [hwalks.ids.mem_iff, List.mem_map]
    constructor
    · rintro ⟨c, hc, rfl⟩
      exact ⟨c.1, hc⟩
    · rintro ⟨identity, hmem⟩
      exact ⟨_, hmem, rfl⟩
  have hsmall : ∀ id ∈ ids, id < 10 := by
    intro id hid
    obtain ⟨identity, hmem⟩ := (hids id).1 hid
    exact h.kept.small _ hmem
  have hnodup : ids.Nodup := hwalks.ids.nodup_iff.2 h.aims.nodup
  have hheld (id : UInt16) : id ∈ s.held ↔ id ∈ ids := by rw [hs.held, hids]
  obtain ⟨hcancel, hcanceled⟩ := cancel_along h.kept.buttons hsmall hnodup hheld
  obtain ⟨hrelease, hreleased, hkeys⟩ :=
    release_along (d := d) (s := { s with held := ∅ }) h.kept.buttons codes
  rw [← hcanceled] at hrelease hreleased hkeys
  have haims : Aims { d.view with buttons := 0 } := ⟨h.aims.nodup, h.aims.unit⟩
  have hphase : (2 : UInt8) ≤ 3 := by decide
  have hlast := points_event haims hphase UInt32.zero_le
  unfold DisplaySurface.releaseAll
  dsimp only
  rw [List.foldl_append, List.foldl_append]
  obtain ⟨hheld', hkeys', hbuttons'⟩ := Shadow.after_mouse (s := _) hlast.kind
  refine ⟨(hcancel.append hrelease).append ?_, ?_, ?_, ?_⟩
  · exact ⟨.of_points hlast, trivial⟩
  · exact hheld'.trans (hreleased.trans (congrArg Shadow.held hcanceled))
  · exact hbuttons' (hreleased.trans (congrArg Shadow.held hcanceled))
  · intro code hcode
    obtain ⟨hmem, hall⟩ := hkeys code (hkeys' ▸ hcode)
    have hmem : code ∈ s.keys := by
      rw [hcanceled] at hmem
      exact hmem
    rcases hs.keys code hmem with ⟨m, hm, rfl⟩ | ⟨hid, hhid, hscan⟩
    · refine ⟨m, hm, rfl, fun hid hhid scan hscan => ?_⟩
      exact (hall hid (hwalks.codes.mem_iff.2 hhid) scan hscan).2 m hm List.mem_cons_self
    · exact absurd rfl (hall hid (hwalks.codes.mem_iff.2 hhid) code hscan).1

/-- The same contacts, and fewer keys except for left ones. -/
structure Below (s s' : Shadow) : Prop where
  held : s.held = s'.held
  keys : ∀ code ∈ s.keys, ¬ Injector.Left code → code ∈ s'.keys

theorem Below.after {s s' : Shadow} {e : InputEvent} (h : Below s s') (he : s'.Suits e) :
    s.Suits e ∧ Below (s.after e) (s'.after e) := by
  refine ⟨⟨he.flags, h.held.symm ▸ he.kind⟩, ?_⟩
  rcases he.kind with ⟨hkind, -⟩ | ⟨hkind, -⟩ | hkind
  · rw [Shadow.after_touch hkind, Shadow.after_touch hkind]
    exact ⟨congrArg (moved · e) h.held, h.keys⟩
  · obtain ⟨hheld, hkeys, -⟩ := Shadow.after_mouse (s := s) hkind
    obtain ⟨hheld', hkeys', -⟩ := Shadow.after_mouse (s := s') hkind
    exact ⟨(hheld.trans h.held).trans hheld'.symm, hkeys ▸ hkeys' ▸ h.keys⟩
  · rw [Shadow.after_key hkind, Shadow.after_key hkind]
    refine ⟨h.held, fun code hmem hleft => ?_⟩
    exact Injector.keysAfter_mono hleft (fun hcode => h.keys code hcode hleft) hmem

theorem Below.along {s s' : Shadow} (h : Below s s') (hes : Along Shadow.after Shadow.Suits s' es) :
    Along Shadow.after Shadow.Suits s es ∧
      Below (es.foldl Shadow.after s) (es.foldl Shadow.after s') := by
  induction es generalizing s s' with
  | nil => exact ⟨trivial, h⟩
  | cons e es ih =>
    obtain ⟨hsuits, hbelow⟩ := h.after hes.1
    obtain ⟨halong, hend⟩ := ih hbelow hes.2
    exact ⟨⟨hsuits, halong⟩, hend⟩

theorem Mirrors.of_below {s s' : Shadow} (h : Mirrors d s') (hbelow : Below s s') :
    Mirrors d s := by
  refine ⟨hbelow.held.trans h.held, fun code hcode => ?_⟩
  by_cases hleft : Injector.Left code
  · exact .inl hleft
  · exact h.keys code (hbelow.keys code hcode hleft)

/-- The view that takes the place of one that is dismantled. -/
theorem releaseAll_leads {ids codes : List UInt16} (h : Ready d active)
    (hwalks : Walks d ids codes) : Leads d (d.releaseAll ids codes).2 {} := by
  intro s hs
  obtain ⟨halong, hempty⟩ := releaseAll_along h hwalks hs
  refine ⟨halong, ?_, fun code hcode => ?_⟩
  · exact hempty.held.trans contacts_empty.symm
  · obtain ⟨m, hm, rfl, -⟩ := hempty.keys code hcode
    exact .inl ⟨m, hm, rfl⟩

end View

/-! ### The view and the injector -/

/-- The view, the direct touches that are down, the events under way, and the injector, unless
the pipeline has stopped. -/
structure InputPath where
  surface : DisplaySurface := {}
  active : List ℕ := []
  queue : List InputEvent := []
  input : Option Injector

namespace InputPath

variable {s : InputPath}

inductive Activity where
  | touches (phase : UInt8) (mask : UInt32) (ts : List UITouch)
  | hover (location : Option DisplaySurface.Point)
  | scroll (dx dy : F32)
  | presses (phase : UInt8) (ps : List (Option UIKey))
  /-- `dismantleUIView`, and `makeUIView` of another view. -/
  | dismantle (ids codes : List UInt16)
  /-- The next event is handled. -/
  | handle (o : Outcome)
  /-- `topology::reconcile` yields these bounds. -/
  | reconcile (o : Outcome) (b : Bounds)

/-- The view behind a callback, and what it has sent. -/
def callback (s : InputPath) (r : DisplaySurface × List InputEvent) : InputPath :=
  { s with surface := r.1, queue := s.queue ++ r.2 }

def handle (s : InputPath) (o : Outcome) : InputPath :=
  match s.queue, s.input with
  | [], _ => s
  | _ :: rest, none => { s with queue := rest }
  | e :: rest, some i =>
    match exec (Injector.event o e) i with
    | (.ok _, i) => { s with queue := rest, input := some i }
    | (.error _, _) => { s with queue := rest, input := none }

def step (s : InputPath) : Activity → InputPath
  | .touches phase mask ts =>
    { s.callback (s.surface.touches phase mask ts) with
      active := ts.foldl (touched phase) s.active }
  | .hover location => s.callback (s.surface.hover location)
  | .scroll dx dy => s.callback (s.surface.scroll dx dy)
  | .presses phase ps => s.callback (s.surface.presses phase ps)
  | .dismantle ids codes =>
    { s.callback (s.surface.releaseAll ids codes) with surface := {}, active := [] }
  | .handle o => s.handle o
  | .reconcile o b => { s with input := s.input.map fun i =>
      if i.bounds ≠ b then { i.releaseAll o with bounds := b } else i }

def Initial (s : InputPath) : Prop :=
  ∃ b : Bounds, (b.width > 0 ∧ b.height > 0) ∧ s = { input := some { bounds := b } }

/-- What the platforms promise: UIKit begins a touch that is not down, and a callback is about
a set of touches; a point lies in the video; a display that is active has a size.  It is no
promise of theirs that a scroll moves by 10000 points at most, beyond which `mouse` refuses it
("invalid mouse delta"). -/
def Regular (s : InputPath) : Activity → Prop
  | .touches phase _ ts => phase ≤ 3 ∧ (ts.map UITouch.identity).Nodup ∧
      (phase = 0 → ∀ t ∈ ts, t.identity ∉ s.active)
  | .hover location => ∀ p ∈ location, p.1.isUnit = true ∧ p.2.isUnit = true
  | .scroll dx dy => dx.isDelta = true ∧ dy.isDelta = true
  | .presses phase _ => phase ≤ 3
  | .dismantle ids codes => Walks s.surface ids codes
  | .handle _ => True
  | .reconcile _ b => b.width > 0 ∧ b.height > 0

/-- The bounds change while no contact is held. -/
def Calm (s : InputPath) (a : Activity) : Prop :=
  s.Regular a ∧ ∀ o b, a = .reconcile o b → ∀ i, s.input = some i → i.bounds ≠ b → i.touches = []

/-- The events under way suit the injector one after another, and lead to what the view has. -/
structure Agrees (s : InputPath) : Prop where
  ready : Ready s.surface s.active
  bounds : ∀ i ∈ s.input, i.bounds.width > 0 ∧ i.bounds.height > 0
  along : ∀ i ∈ s.input, Along Shadow.after Shadow.Suits i.shadow s.queue ∧
    Mirrors s.surface (s.queue.foldl Shadow.after i.shadow)

/-- A callback of the view. -/
theorem callback_agrees (h : s.Agrees) {d : DisplaySurface} {es : List InputEvent}
    {active : List ℕ} (hready : Ready d active) (hleads : Leads s.surface es d) :
    ({ s with surface := d, active := active, queue := s.queue ++ es } : InputPath).Agrees := by
  refine ⟨hready, h.bounds, fun i hi => ?_⟩
  obtain ⟨halong, hmirrors⟩ := h.along i hi
  obtain ⟨halong', hmirrors'⟩ := hleads _ hmirrors
  rw [List.foldl_append]
  exact ⟨halong.append halong', hmirrors'⟩

theorem handle_agrees (h : s.Agrees) (o : Outcome) : (s.handle o).Agrees := by
  unfold handle
  split
  · exact h
  · rename_i hinput
    exact ⟨h.ready, fun i hi => absurd (hinput ▸ hi) nofun, fun i hi => absurd (hinput ▸ hi) nofun⟩
  · rename_i e rest i hqueue hinput
    have hbounds := h.bounds i hinput
    obtain ⟨halong, hmirrors⟩ := h.along i hinput
    rw [hqueue] at halong hmirrors
    split
    · rename_i i' hexec
      have hlands := (Injector.event_lands (o := o) halong.1 hbounds).of_exec hexec
      obtain ⟨hshadow, hsame⟩ := hlands.2 rfl
      refine ⟨h.ready, ?_, ?_⟩
      · rintro _ ⟨⟩
        rw [hsame]
        exact hbounds
      · rintro _ ⟨⟩
        rw [hshadow]
        exact ⟨halong.2, hmirrors⟩
    · exact ⟨h.ready, nofun, nofun⟩

theorem reconcile_agrees (h : s.Agrees) {o : Outcome} {b : Bounds}
    (hok : s.Calm (.reconcile o b)) : (s.step (.reconcile o b)).Agrees := by
  refine ⟨h.ready, fun i hi => ?_, fun i hi => ?_⟩
  all_goals
    obtain ⟨j, hj, rfl⟩ := Option.map_eq_some_iff.1 hi
    split
  · exact hok.1
  · exact h.bounds j hj
  · rename_i hchange
    have hempty := hok.2 o b rfl j hj hchange
    have hbelow : Below ({ j.releaseAll o with bounds := b } : Injector).shadow j.shadow := by
      refine ⟨?_, fun code hcode => absurd hcode ?_⟩
      · have hnone : ({ j.releaseAll o with bounds := b } : Injector).held = ∅ :=
          Injector.held_eq_empty.2 (Injector.releaseAll_touches j)
        exact hnone.trans (Injector.held_eq_empty.2 hempty).symm
      · have hkeys : ({ j.releaseAll o with bounds := b } : Injector).shadow.keys = [] :=
          Injector.releaseAll_keys j
        rw [hkeys]
        exact List.not_mem_nil
    obtain ⟨halong, hmirrors⟩ := h.along j hj
    obtain ⟨halong', hend⟩ := hbelow.along halong
    exact ⟨halong', hmirrors.of_below hend⟩
  · exact h.along j hj

/-- Every activity keeps the agreement. -/
theorem step_agrees {a : Activity} (h : s.Agrees) (hok : s.Calm a) : (s.step a).Agrees := by
  cases a with
  | touches phase mask ts =>
    obtain ⟨hready, hleads⟩ := touches_leads mask h.ready hok.1.1 hok.1.2.1 hok.1.2.2
    exact callback_agrees h hready hleads
  | hover location =>
    obtain ⟨hready, hleads⟩ := hover_leads h.ready hok.1
    exact callback_agrees h hready hleads
  | scroll dx dy =>
    obtain ⟨hready, hleads⟩ := scroll_leads h.ready hok.1
    exact callback_agrees h hready hleads
  | presses phase ps =>
    obtain ⟨hready, hleads⟩ := presses_leads h.ready hok.1 ps
    exact callback_agrees h hready hleads
  | dismantle ids codes =>
    exact callback_agrees h ready_new (releaseAll_leads h.ready hok.1)
  | handle o => exact handle_agrees h o
  | reconcile o b => exact reconcile_agrees h hok

theorem initial_agrees (h : Initial s) : s.Agrees := by
  obtain ⟨b, hbounds, rfl⟩ := h
  have hheld : ({ bounds := b } : Injector).held = ∅ := Injector.held_eq_empty.2 rfl
  refine ⟨ready_new, ?_, ?_⟩
  · rintro _ ⟨⟩
    exact hbounds
  · rintro _ ⟨⟩
    exact ⟨trivial, hheld.trans contacts_empty.symm, nofun⟩

theorem reaches_agrees (h : Reaches step Initial Calm s) : s.Agrees :=
  h.invariant (fun _ => initial_agrees) fun _ _ => step_agrees

/-! ### The results -/

/-- The next event fails with the platform alone. -/
def Unbroken (s : InputPath) : Prop :=
  ∀ i e rest, s.input = some i → s.queue = e :: rest → ∀ o error,
    (exec (Injector.event o e) i).1 = .error error → ∃ injection, o.ok injection = false

/-- **No event is refused.** As long as the bounds of the display change while the injector holds no
contact, and no scroll moves by more than 10000 points, nothing that the view sends is an error of
its own: no touch, no mouse event, no key, and nothing of `releaseAll`. -/
theorem events_pass (h : Reaches step Initial Calm s) : s.Unbroken := by
  intro i e rest hinput hqueue o error herror
  have hagrees := reaches_agrees h
  obtain ⟨halong, -⟩ := hagrees.along i hinput
  rw [hqueue] at halong
  have hlands := Injector.event_lands (o := o) halong.1 (hagrees.bounds i hinput)
  exact hlands.1 error herror

/-- A path on which nothing has happened. -/
def samplePath : InputPath := { input := some { bounds := Injector.sampleBounds } }

theorem samplePath_initial : Initial samplePath := by
  refine ⟨Injector.sampleBounds, ?_, rfl⟩
  decide

/-- The key of an a, with shift held. -/
def sampleKey : UIKey := { code := 4, shift := true }

/-- The key goes down, and its event is handled. -/
def sampleDown : InputPath := (samplePath.step (.presses 0 [some sampleKey])).step (.handle {})

theorem sampleDown_reaches : Reaches step Initial Calm sampleDown := by
  have hpress : Calm samplePath (.presses 0 [some sampleKey]) := ⟨UInt8.zero_le, nofun⟩
  exact ((Reaches.init samplePath_initial).step hpress).step ⟨trivial, nofun⟩

/-- The hypothesis of `events_pass` is satisfiable: the key goes up again. -/
theorem events_pass_sample : ∃ (s : InputPath) (i : Injector) (e : InputEvent), s.input = some i ∧
    s.queue = [e] ∧ e.kind = 3 ∧ e.phase = 2 ∧ s.Unbroken := by
  have hup : Calm sampleDown (.presses 2 [some sampleKey]) := by
    refine ⟨?_, nofun⟩
    change (2 : UInt8) ≤ 3
    decide
  exact ⟨_, _, _, rfl, rfl, rfl, rfl, events_pass (sampleDown_reaches.step hup)⟩

/-- **Nothing sticks.** Behind the events under way the injector has the contacts of the view, and
each of its keys is one that the view holds or the left key of a modifier. -/
theorem nothing_sticks (h : Reaches step Initial Calm s) {i : Injector} (hinput : s.input = some i)
    (hqueue : s.queue = []) : i.held = contacts s.surface.view ∧
      ∀ code ∈ i.keys, Injector.Left code ∨ ∃ hid ∈ s.surface.keys, scanCode hid = some code := by
  obtain ⟨-, hmirrors⟩ := (reaches_agrees h).along i hinput
  rw [hqueue] at hmirrors
  exact ⟨hmirrors.held, hmirrors.keys⟩

/-- The hypotheses of `nothing_sticks` are satisfiable, and the left keys are needed: the key goes
up while shift is still held, and shift, which no press of its own has told of, stays down. -/
theorem nothing_sticks_sample : ∃ (s : InputPath) (i : Injector), s.input = some i ∧
    s.surface.keys = [] ∧ i.keys = [0x2a] ∧ i.held = contacts s.surface.view ∧
      ∀ code ∈ i.keys, Injector.Left code ∨ ∃ hid ∈ s.surface.keys, scanCode hid = some code := by
  have hup : Calm sampleDown (.presses 2 [some sampleKey]) := by
    refine ⟨?_, nofun⟩
    change (2 : UInt8) ≤ 3
    decide
  have hhandle : Calm (sampleDown.step (.presses 2 [some sampleKey])) (.handle {}) :=
    ⟨trivial, nofun⟩
  have hreaches := (sampleDown_reaches.step hup).step hhandle
  exact ⟨_, _, rfl, rfl, rfl, nothing_sticks hreaches rfl rfl⟩

/-- What one event does to the injector, if it goes on. -/
theorem handle_shadow (h : s.Agrees) (o : Outcome) {e : InputEvent} {rest : List InputEvent}
    (hqueue : s.queue = e :: rest) : (s.handle o).queue = rest ∧
      ∀ i, (s.handle o).input = some i → ∃ j, s.input = some j ∧ i.shadow = j.shadow.after e := by
  unfold handle
  split
  · rename_i hnil
    cases hnil.symm.trans hqueue
  · rename_i hcons hinput
    exact ⟨(List.cons.inj (hcons.symm.trans hqueue)).2, fun i hi => absurd (hinput ▸ hi) nofun⟩
  · rename_i e' rest' j hcons hinput
    obtain ⟨rfl, rfl⟩ := List.cons.inj (hcons.symm.trans hqueue)
    obtain ⟨halong, -⟩ := h.along j hinput
    rw [hqueue] at halong
    have hlands := Injector.event_lands (o := o) halong.1 (h.bounds j hinput)
    split
    · rename_i i' hexec
      refine ⟨rfl, ?_⟩
      rintro _ ⟨⟩
      exact ⟨j, hinput, ((hlands.of_exec hexec).2 rfl).1⟩
    · exact ⟨rfl, nofun⟩

/-- What the injector is when every event under way has been handled. -/
theorem handles_shadow (h : s.Agrees) (os : List Outcome) (hlength : os.length = s.queue.length)
    {i : Injector} (hinput : (os.foldl handle s).input = some i) :
    ∃ j, s.input = some j ∧ i.shadow = s.queue.foldl Shadow.after j.shadow := by
  induction os generalizing s with
  | nil =>
    rw [List.length_eq_zero_iff.1 hlength.symm]
    exact ⟨i, hinput, rfl⟩
  | cons o os ih =>
    rcases hqueue : s.queue with - | ⟨e, rest⟩
    · rw [hqueue] at hlength
      cases hlength
    obtain ⟨hrest, hinputs⟩ := handle_shadow h o hqueue
    have hshorter : os.length = (s.handle o).queue.length := by
      rw [hqueue] at hlength
      rw [hrest]
      exact Nat.succ.inj hlength
    obtain ⟨i', hi', hshadow⟩ := ih (handle_agrees h o) hshorter hinput
    obtain ⟨j, hj, hfirst⟩ := hinputs i' hi'
    refine ⟨j, hj, ?_⟩
    rw [hshadow, hrest, hfirst]
    rfl

/-- **A dismantled view lets go.** When all that a view sends at its end has been handled, the
injector holds no contact and no button.  Each key that stays is the left one of a modifier whose
keys are the only ones that the view held; if it held none, the left keys of several may stay. -/
theorem dismantled (h : Reaches step Initial Calm s) {ids codes : List UInt16}
    (hwalks : Walks s.surface ids codes) (os : List Outcome) {i : Injector}
    (hlength : os.length = (s.step (.dismantle ids codes)).queue.length)
    (hinput : (os.foldl handle (s.step (.dismantle ids codes))).input = some i) :
    i.held = ∅ ∧ i.buttons = 0 ∧ ∀ code ∈ i.keys, ∃ m ∈ Injector.modifiers, code = m.left ∧
      ∀ hid ∈ s.surface.keys, ∀ scan, scanCode hid = some scan → scan ∈ m.codes := by
  have hagrees := reaches_agrees h
  have hnext : (s.step (.dismantle ids codes)).Agrees := step_agrees hagrees ⟨hwalks, nofun⟩
  obtain ⟨j, hj, hshadow⟩ := handles_shadow hnext os hlength hinput
  obtain ⟨-, hmirrors⟩ := hagrees.along j hj
  obtain ⟨-, hempty⟩ := releaseAll_along hagrees.ready hwalks hmirrors
  have hqueue : (s.step (.dismantle ids codes)).queue =
      s.queue ++ (s.surface.releaseAll ids codes).2 := rfl
  rw [hqueue, List.foldl_append] at hshadow
  rw [← hshadow] at hempty
  exact ⟨hempty.held, hempty.buttons, hempty.keys⟩

/-- The hypotheses of `dismantled` are satisfiable: the view holds the key, and shift goes up with
it. -/
theorem dismantled_sample : ∃ i : Injector,
    ([{}, {}].foldl handle (sampleDown.step (.dismantle [] [4]))).input = some i ∧ i.keys = [] ∧
      i.held = ∅ ∧ i.buttons = 0 ∧ ∀ code ∈ i.keys, ∃ m ∈ Injector.modifiers, code = m.left ∧
        ∀ hid ∈ sampleDown.surface.keys, ∀ scan, scanCode hid = some scan → scan ∈ m.codes := by
  have hwalks : Walks sampleDown.surface [] [4] := ⟨.refl _, .refl _⟩
  exact ⟨_, rfl, rfl, dismantled sampleDown_reaches hwalks [{}, {}] rfl rfl⟩

end InputPath

end Host
end SidecarDOS
