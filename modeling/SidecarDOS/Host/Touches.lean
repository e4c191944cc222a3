/-
# Contacts on both sides

The view and the injector each keep the contacts that touch the display, and agree
through the stream of events alone.  `Plays` says what the injector's contacts
become when it has handled the events under way: it takes them, and ends with the
contacts of the view.  Every callback of UIKit keeps this, and every event that is
handled.  But when the bounds of the display change, `release_all` drops the contacts of
the injector, and the next move of a finger that is still down is an error, which
stops the pipeline (`contact_dropped`).  As long as the bounds change while no contact
is held, touches fail with the platform alone (`touches_pass`).
-/

import Mathlib.Data.Set.Insert
import SidecarDOS.Client.InputView
import SidecarDOS.Host.Presses

namespace SidecarDOS
namespace Host

open Ipad (InputView UITouch)
open Library (Reaches Along Ends Within exec ends_pure ends_bind ends_get ends_modify ends_demand)

/-! ### What a stream of events does to the contacts -/

/-- What the injector checks of a touch. -/
structure Fits (held : Set UInt16) (e : InputEvent) : Prop where
  flags : e.phase ≤ 3 ∧ e.buttons ≤ 7 ∧ e.isRepeat ≤ 1
  id : e.contactId < 10
  unit : e.x.isUnit = true ∧ e.y.isUnit = true
  phase : e.phase = 0 ↔ e.contactId ∉ held

/-- The contacts behind a touch. -/
def moved (held : Set UInt16) (e : InputEvent) : Set UInt16 :=
  if e.phase = 0 then insert e.contactId held
  else if e.phase ≥ 2 then held \ {e.contactId} else held

/-- The events fit one after another, and lead from `held` to `held'`; only touches and mouse
events are sent. -/
def Plays : Set UInt16 → List InputEvent → Set UInt16 → Prop
  | held, [], held' => held = held'
  | held, e :: es, held' =>
    (e.kind = 0 ∧ Fits held e ∧ Plays (moved held e) es held') ∨ (e.kind = 1 ∧ Plays held es held')

theorem Plays.append {held held' held'' : Set UInt16} {es es' : List InputEvent}
    (h : Plays held es held') (h' : Plays held' es' held'') : Plays held (es ++ es') held'' := by
  induction es generalizing held with
  | nil =>
    obtain rfl : held = held' := h
    exact h'
  | cons e es ih =>
    rcases h with ⟨hkind, hfits, hrest⟩ | ⟨hkind, hrest⟩
    · exact .inl ⟨hkind, hfits, ih hrest⟩
    · exact .inr ⟨hkind, ih hrest⟩

/-! ### The view -/

section View

variable {v v' : InputView} {t : UITouch} {phase : UInt8}

/-- The contacts of a view. -/
def contacts (v : InputView) : Set UInt16 := {id | ∃ identity, (identity, id) ∈ v.contacts}

/-- Objects and ids go one to one, and the ids are those of the injector. -/
structure Kept (v : InputView) (active : List ℕ) : Prop where
  objects : ∀ c ∈ v.contacts, ∀ c' ∈ v.contacts, c.1 = c'.1 → c = c'
  ids : ∀ c ∈ v.contacts, ∀ c' ∈ v.contacts, c.2 = c'.2 → c = c'
  small : ∀ c ∈ v.contacts, c.2 < 10
  active : ∀ c ∈ v.contacts, c.1 ∈ active
  buttons : v.buttons ≤ 7

theorem firstFree_spec {id : UInt16} (h : v.firstFree = some id) : id < 10 ∧ id ∉ contacts v := by
  have hmem := List.mem_of_find?_eq_some h
  have hfree := List.find?_some h
  constructor
  · simp only [List.mem_cons, List.not_mem_nil, or_false] at hmem
    rcases hmem with rfl | rfl | rfl | rfl | rfl | rfl | rfl | rfl | rfl | rfl <;> decide
  · rintro ⟨identity, hid⟩
    have hfree := of_decide_eq_true hfree
    exact hfree (List.mem_map.2 ⟨_, hid, rfl⟩)

theorem mem_removed {identity : ℕ} {c : ℕ × UInt16} :
    c ∈ v.removed identity ↔ c ∈ v.contacts ∧ c.1 ≠ identity := by
  unfold InputView.removed
  rw [List.mem_filter, decide_eq_true_eq]

/-- The direct touches that are down, behind a callback about one of them. -/
def touched (phase : UInt8) (active : List ℕ) (t : UITouch) : List ℕ :=
  if t.type = .direct then
    if phase = 0 then t.identity :: active
    else if phase ≥ 2 then active.filter (· ≠ t.identity) else active
  else active

theorem lookup_mem {identity : ℕ} {id : UInt16} (h : v.contacts.lookup identity = some id) :
    (identity, id) ∈ v.contacts := by
  obtain ⟨l₁, l₂, heq, -⟩ := List.lookup_eq_some_iff.1 h
  rw [heq]
  exact List.mem_append_right _ (List.mem_cons_self ..)

theorem Kept.began {active : List ℕ} (hv : Kept v active) (hactive : t.identity ∉ active)
    {id : UInt16} (hfree : v.firstFree = some id) :
    Kept { v with contacts := (t.identity, id) :: v.removed t.identity } (t.identity :: active) ∧
      contacts { v with contacts := (t.identity, id) :: v.removed t.identity } =
        insert id (contacts v) := by
  obtain ⟨hsmall, hnew⟩ := firstFree_spec hfree
  have hobject (c : ℕ × UInt16) (hc : c ∈ v.contacts) : c.1 ≠ t.identity :=
    fun heq => hactive (heq ▸ hv.active c hc)
  have hmem (c : ℕ × UInt16) : c ∈ (t.identity, id) :: v.removed t.identity ↔
      c = (t.identity, id) ∨ c ∈ v.contacts := by
    rw [List.mem_cons, mem_removed]
    exact or_congr_right ⟨And.left, fun hc => ⟨hc, hobject c hc⟩⟩
  have hid (c : ℕ × UInt16) (hc : c ∈ v.contacts) : c.2 ≠ id :=
    fun heq => hnew ⟨c.1, heq ▸ hc⟩
  constructor
  · refine ⟨fun c hc c' hc' heq => ?_, fun c hc c' hc' heq => ?_, fun c hc => ?_, fun c hc => ?_,
      hv.buttons⟩
    · rcases (hmem c).1 hc with rfl | hc <;> rcases (hmem c').1 hc' with rfl | hc'
      · rfl
      · exact absurd heq.symm (hobject c' hc')
      · exact absurd heq (hobject c hc)
      · exact hv.objects c hc c' hc' heq
    · rcases (hmem c).1 hc with rfl | hc <;> rcases (hmem c').1 hc' with rfl | hc'
      · rfl
      · exact absurd heq.symm (hid c' hc')
      · exact absurd heq (hid c hc)
      · exact hv.ids c hc c' hc' heq
    · rcases (hmem c).1 hc with rfl | hc
      · exact hsmall
      · exact hv.small c hc
    · rcases (hmem c).1 hc with rfl | hc
      · exact List.mem_cons_self ..
      · exact List.mem_cons_of_mem _ (hv.active c hc)
  · ext id'
    constructor
    · rintro ⟨identity, hmem'⟩
      rcases (hmem _).1 hmem' with heq | hmem'
      · exact .inl (Prod.mk.inj heq).2
      · exact .inr ⟨identity, hmem'⟩
    · rintro (rfl | ⟨identity, hmem'⟩)
      · exact ⟨t.identity, (hmem _).2 (.inl rfl)⟩
      · exact ⟨identity, (hmem _).2 (.inr hmem')⟩

theorem Kept.removed {active : List ℕ} (hv : Kept v active) {id : UInt16}
    (hmem : (t.identity, id) ∈ v.contacts) :
    Kept { v with contacts := v.removed t.identity } (active.filter (· ≠ t.identity)) ∧
      contacts { v with contacts := v.removed t.identity } = contacts v \ {id} := by
  have hsub (c : ℕ × UInt16) (hc : c ∈ v.removed t.identity) : c ∈ v.contacts :=
    (mem_removed.1 hc).1
  constructor
  · refine ⟨fun c hc c' hc' => hv.objects c (hsub c hc) c' (hsub c' hc'),
      fun c hc c' hc' => hv.ids c (hsub c hc) c' (hsub c' hc'),
      fun c hc => hv.small c (hsub c hc), fun c hc => ?_, hv.buttons⟩
    rw [List.mem_filter, decide_eq_true_eq]
    exact ⟨hv.active c (hsub c hc), (mem_removed.1 hc).2⟩
  · ext id'
    constructor
    · rintro ⟨identity, hmem'⟩
      obtain ⟨hmem', hne⟩ := mem_removed.1 hmem'
      refine ⟨⟨identity, hmem'⟩, fun heq => hne ?_⟩
      obtain rfl : id' = id := heq
      exact (Prod.mk.inj (hv.ids _ hmem' _ hmem rfl)).1
    · rintro ⟨⟨identity, hmem'⟩, hne⟩
      refine ⟨identity, mem_removed.2 ⟨hmem', fun heq => hne ?_⟩⟩
      obtain rfl : identity = t.identity := heq
      exact (Prod.mk.inj (hv.objects _ hmem' _ hmem rfl)).2

/-- A touch that begins gets the first free id, if it lies inside and there is one. -/
theorem touch_begins {active : List ℕ} (mask : UInt32) (hv : Kept v active) (htype : t.type = .direct)
    (hactive : t.identity ∉ active) :
    Kept (v.touch 0 mask t).1 (t.identity :: active) ∧
      Plays (contacts v) (v.touch 0 mask t).2 (contacts (v.touch 0 mask t).1) := by
  have hstay : Kept v (t.identity :: active) :=
    ⟨hv.objects, hv.ids, hv.small, fun c hc => List.mem_cons_of_mem _ (hv.active c hc), hv.buttons⟩
  unfold InputView.touch
  rw [htype]
  dsimp only
  rw [if_pos rfl]
  unfold InputView.began
  split
  · exact ⟨hstay, rfl⟩
  · rename_i v' hbegan
    split at hbegan
    · obtain ⟨id, hfree, rfl⟩ := Option.map_eq_some_iff.1 hbegan
      obtain ⟨hsmall, hnew⟩ := firstFree_spec hfree
      obtain ⟨hkept, hcontacts⟩ := hv.began hactive hfree
      have hzero : (0 : UInt8) ≤ 3 := by decide
      have hrepeat : (0 : UInt8) ≤ 1 := by decide
      rw [List.lookup_cons_self]
      refine ⟨hkept, .inl ⟨rfl, ⟨⟨hzero, hv.buttons, hrepeat⟩, hsmall, t.unit, ?_⟩, ?_⟩⟩
      · exact ⟨fun _ => hnew, fun _ => rfl⟩
      · exact hcontacts.symm
    · cases hbegan

/-- A touch that goes on or ends has its contact, or is none of the view's. -/
theorem touch_continues {active : List ℕ} (mask : UInt32) (hv : Kept v active)
    (htype : t.type = .direct) (hphase : phase ≤ 3) (hne : phase ≠ 0) :
    Kept (v.touch phase mask t).1 (touched phase active t) ∧
      Plays (contacts v) (v.touch phase mask t).2 (contacts (v.touch phase mask t).1) := by
  unfold InputView.touch touched
  rw [htype]
  dsimp only
  rw [if_neg hne, if_pos rfl, if_neg hne]
  dsimp only
  split
  · rename_i hlookup
    refine ⟨⟨hv.objects, hv.ids, hv.small, fun c hc => ?_, hv.buttons⟩, rfl⟩
    split
    · have hnone := List.lookup_eq_none_iff.1 hlookup c hc
      rw [List.mem_filter, decide_eq_true_eq]
      exact ⟨hv.active c hc, fun heq => by simp [heq] at hnone⟩
    · exact hv.active c hc
  · rename_i id hlookup
    have hmem := lookup_mem hlookup
    have hrepeat : (0 : UInt8) ≤ 1 := by decide
    have hfits : Fits (contacts v) (v.event 0 phase id (t.x, t.y)) := by
      refine ⟨⟨hphase, hv.buttons, hrepeat⟩, hv.small _ hmem, t.unit, fun h => absurd h hne, ?_⟩
      exact fun hn => absurd ⟨t.identity, hmem⟩ hn
    have hmoved (held : Set UInt16) : moved held (v.event 0 phase id (t.x, t.y)) =
        if phase ≥ 2 then held \ {id} else held :=
      if_neg hne
    split
    · rename_i hends
      obtain ⟨hkept, hcontacts⟩ := hv.removed hmem
      refine ⟨hkept, .inl ⟨rfl, hfits, ?_⟩⟩
      rw [hmoved, if_pos hends]
      exact hcontacts.symm
    · rename_i hgoes
      refine ⟨hv, .inl ⟨rfl, hfits, ?_⟩⟩
      rw [hmoved, if_neg hgoes]
      rfl

/-- The events of a touch fit the contacts that the view had, and lead to those it has. -/
theorem touch_plays {active : List ℕ} (mask : UInt32) (hv : Kept v active) (hphase : phase ≤ 3)
    (hbegins : t.type = .direct → phase = 0 → t.identity ∉ active) :
    Kept (v.touch phase mask t).1 (touched phase active t) ∧
      Plays (contacts v) (v.touch phase mask t).2 (contacts (v.touch phase mask t).1) := by
  cases htype : t.type with
  | direct =>
    by_cases hne : phase = 0
    · subst hne
      have hbegan := touch_begins mask hv htype (hbegins htype rfl)
      have htouched : touched 0 active t = t.identity :: active := by
        rw [touched, if_pos htype, if_pos rfl]
      rw [htouched]
      exact hbegan
    · exact touch_continues mask hv htype hphase hne
  | indirectPointer =>
    unfold InputView.touch touched
    rw [htype]
    refine ⟨⟨hv.objects, hv.ids, hv.small, hv.active, ?_⟩, .inr ⟨rfl, rfl⟩⟩
    dsimp only
    split_ifs <;> decide
  | other =>
    unfold InputView.touch touched
    rw [htype]
    exact ⟨hv, rfl⟩

/-- A callback of UIKit sends what leads from the contacts before it to those behind it. -/
theorem touches_plays {active : List ℕ} {ts : List UITouch} (mask : UInt32) (hv : Kept v active)
    (hphase : phase ≤ 3) (hset : (ts.map UITouch.identity).Nodup)
    (hbegins : phase = 0 → ∀ t ∈ ts, t.identity ∉ active) :
    Kept (v.touches phase mask ts).1 (ts.foldl (touched phase) active) ∧
      Plays (contacts v) (v.touches phase mask ts).2 (contacts (v.touches phase mask ts).1) := by
  induction ts generalizing v active with
  | nil => exact ⟨hv, rfl⟩
  | cons t ts ih =>
    obtain ⟨hkept, hplays⟩ := touch_plays mask hv hphase fun _ h0 =>
      hbegins h0 t (List.mem_cons_self ..)
    rw [List.map_cons, List.nodup_cons] at hset
    have hbegins' : phase = 0 → ∀ t' ∈ ts, t'.identity ∉ touched phase active t := by
      intro h0 t' ht' hmem
      have hactive := hbegins h0 t' (List.mem_cons_of_mem _ ht')
      unfold touched at hmem
      split at hmem
      · rcases List.mem_cons.1 hmem with heq | hmem
        · exact hset.1 (heq ▸ List.mem_map_of_mem ht')
        · exact hactive hmem
      · exact hactive hmem
    obtain ⟨hkept', hplays'⟩ := ih hkept hset.2 hbegins'
    exact ⟨hkept', hplays.append hplays'⟩

end View

/-! ### The injector -/

namespace Injector

variable {s s' : Injector} {o : Outcome} {e : InputEvent}

/-- The contacts of an injector. -/
def held (s : Injector) : Set UInt16 := {id | ∃ touch, (id, touch) ∈ s.touches}

theorem contact_isSome (s : Injector) (id : UInt16) : (s.contact id).isSome = true ↔ id ∈ s.held := by
  unfold contact
  rw [List.lookup_isSome_iff]
  constructor
  · rintro ⟨c, hc, heq⟩
    obtain rfl : id = c.1 := by simpa using heq
    exact ⟨c.2, hc⟩
  · rintro ⟨touch, hmem⟩
    exact ⟨(id, touch), hmem, by simp⟩

/-- The contacts do not change. -/
structure Grips (s s' : Injector) : Prop where
  touches : s'.touches = s.touches
  bounds : s'.bounds = s.bounds
  batch : s'.batch = s.batch

instance : Std.Refl Grips := ⟨fun _ => ⟨rfl, rfl, rfl⟩⟩

instance : IsTrans Injector Grips :=
  ⟨fun _ _ _ h h' => ⟨h'.touches.trans h.touches, h'.bounds.trans h.bounds,
    h'.batch.trans h.batch⟩⟩

theorem send_grips (i : Injection) : Within Grips (fun _ => True) (send o i) s := by
  unfold send
  exact .demand_bind trivial fun _ => .modify ⟨rfl, rfl, rfl⟩

theorem button_grips (mask : UInt32) : Within Grips (fun _ => True) (button o e mask) s := by
  unfold button
  exact .get_bind (.ite (fun _ => send_grips _) fun _ => .pure _)

theorem click_grips : Within Grips (fun _ => True) (click o e) s := by
  unfold click
  refine (Within.forM (fun mask _ => button_grips mask) masks).bind fun _ _ _ => ?_
  refine .modify_bind ⟨rfl, rfl, rfl⟩ (.ite (fun _ => .ite (fun _ => ?_) fun _ => ?_) fun _ => .pure _)
  · exact (send_grips _).bind fun _ _ _ => .ite (fun _ => send_grips _) fun _ => .pure _
  · exact .ite (fun _ => send_grips _) fun _ => .pure _

theorem mouse_grips : Within Grips (fun _ => True) (mouse o e) s := by
  have hmove (s : Injector) :
      Within Grips (fun _ => True) (send o .move >>= fun _ => click o e) s :=
    (send_grips _).bind fun _ _ _ => click_grips
  unfold mouse
  refine .demand_bind trivial fun _ => .get_bind (.ite (fun _ => ?_) fun _ => .pure _)
  refine .ite (fun _ => ?_) fun _ => hmove s
  cases s.bounds.map o e.x e.y with
  | ok p => exact hmove s
  | error error => exact .throw trivial

theorem held_remove (touches : List (UInt16 × Touch)) (id id' : UInt16) :
    (∃ touch, (id', touch) ∈ remove touches id) ↔ (∃ touch, (id', touch) ∈ touches) ∧ id' ≠ id := by
  unfold remove
  simp only [List.mem_filter, decide_eq_true_eq]
  exact ⟨fun ⟨touch, hmem, hne⟩ => ⟨⟨touch, hmem⟩, hne⟩,
    fun ⟨⟨touch, hmem⟩, hne⟩ => ⟨touch, hmem, hne⟩⟩

/-- The contacts behind a touch that has been injected. -/
theorem held_moved (hfits : Fits s.held e) (t : Touch) (hs' : s'.touches =
    (if e.phase ≥ 2 then remove ((e.contactId, t) :: remove s.touches e.contactId) e.contactId
      else (e.contactId, t) :: remove s.touches e.contactId).map
        fun t => (t.1, { t.2 with flags := .update })) : s'.held = moved s.held e := by
  have hflags (touches : List (UInt16 × Touch)) (id : UInt16) :
      (∃ touch, (id, touch) ∈ touches.map fun t => (t.1, { t.2 with flags := .update })) ↔
        ∃ touch, (id, touch) ∈ touches := by
    constructor
    · rintro ⟨touch, hmem⟩
      obtain ⟨c, hc, heq⟩ := List.mem_map.1 hmem
      exact ⟨c.2, (Prod.mk.inj heq).1 ▸ hc⟩
    · rintro ⟨touch, hmem⟩
      exact ⟨_, List.mem_map.2 ⟨_, hmem, rfl⟩⟩
  have hcons (id : UInt16) :
      (∃ touch, (id, touch) ∈ (e.contactId, t) :: remove s.touches e.contactId) ↔
        id = e.contactId ∨ id ∈ s.held := by
    constructor
    · rintro ⟨touch, hmem⟩
      rcases List.mem_cons.1 hmem with heq | hmem
      · exact .inl (Prod.mk.inj heq).1
      · exact .inr ((held_remove ..).1 ⟨touch, hmem⟩).1
    · intro h
      by_cases heq : id = e.contactId
      · exact ⟨t, heq ▸ List.mem_cons_self ..⟩
      · obtain ⟨touch, hmem⟩ := (held_remove s.touches e.contactId id).2
          ⟨h.resolve_left heq, heq⟩
        exact ⟨touch, List.mem_cons_of_mem _ hmem⟩
  ext id
  show (∃ touch, (id, touch) ∈ s'.touches) ↔ id ∈ moved s.held e
  rw [hs', hflags]
  unfold moved
  by_cases hends : e.phase ≥ 2
  · have hne : e.phase ≠ 0 := by
      intro h0
      rw [h0] at hends
      exact absurd hends (by decide)
    rw [if_pos hends, if_neg hne, if_pos hends, held_remove, hcons]
    constructor
    · rintro ⟨hor, hid⟩
      exact ⟨hor.resolve_left hid, hid⟩
    · rintro ⟨hmem, hid⟩
      exact ⟨.inr hmem, hid⟩
  · rw [if_neg hends, hcons]
    by_cases h0 : e.phase = 0
    · rw [if_pos h0]
      rfl
    · rw [if_neg h0, if_neg hends]
      have hheld : e.contactId ∈ s.held := not_not.1 (mt hfits.phase.2 h0)
      constructor
      · rintro (rfl | hmem)
        · exact hheld
        · exact hmem
      · exact .inr

/-- What an event does that fits: it fails with the platform, or moves its contact. -/
structure Passes (s : Injector) (o : Outcome) (after : Set UInt16) (r : Except Error Unit)
    (s' : Injector) : Prop where
  error : ∀ error, r = .error error → o.ok .touches = false
  held : r = .ok () → s'.held = after
  bounds : s'.bounds = s.bounds

theorem touch_passes (hfits : Fits s.held e) (hbounds : s.bounds.width > 0 ∧ s.bounds.height > 0) :
    Ends (touch o e) s fun r s' => Passes s o (moved s.held e) r s' := by
  have hrest (location : ℤ × ℤ) (flags : PointerFlags) : Ends (do
      modify fun s => { s with
        touches := (e.contactId, ⟨location, flags⟩) :: remove s.touches e.contactId }
      injectTouches o
      modify fun s => { s with
        touches := (if e.phase ≥ 2 then remove s.touches e.contactId else s.touches).map
          fun t => (t.1, { t.2 with flags := .update }) } : Inject Unit) s
      fun r s' => Passes s o (moved s.held e) r s' := by
    unfold injectTouches
    refine ends_bind.2 (ends_modify.2 (ends_bind.2 (ends_bind.2 (ends_get.2 ?_))))
    refine .ite (fun _ => ?_) fun hn => absurd (List.cons_ne_nil _ _) hn
    refine ends_bind.2 (ends_demand.2 ⟨fun _ => ends_modify.2 (ends_modify.2 ?_), fun hfails => ?_⟩)
    · exact ⟨nofun, fun _ => held_moved hfits _ rfl, rfl⟩
    · exact ⟨fun _ _ => Bool.eq_false_iff.2 hfails, nofun, rfl⟩
  have hmap : s.bounds.map o e.x e.y = .ok (o.pixel s.bounds e.x e.y) :=
    if_pos ⟨hfits.unit.1, hfits.unit.2, hbounds⟩
  unfold touch
  refine ends_bind.2 (ends_demand.2 ⟨fun _ => ends_bind.2 (ends_get.2 ?_), absurd hfits.id⟩)
  dsimp only
  rw [hmap]
  refine ends_bind.2 (ends_pure.2 ?_)
  dsimp only
  refine .ite (fun h0 => ?_) fun hne => ?_
  · have hnone : (s.contact e.contactId).isNone = true := by
      rw [← Option.not_isSome, Bool.not_eq_true', Bool.eq_false_iff, Ne, contact_isSome]
      exact hfits.phase.1 h0
    exact ends_bind.2 (ends_demand.2 ⟨fun _ => hrest _ _, absurd hnone⟩)
  · have hsome : (s.contact e.contactId).isSome = true :=
      (contact_isSome ..).2 (not_not.1 (mt hfits.phase.2 hne))
    exact ends_bind.2 (ends_demand.2 ⟨fun _ => hrest _ _, absurd hsome⟩)

theorem event_touch (hkind : e.kind = 0) (hfits : Fits s.held e)
    (hbounds : s.bounds.width > 0 ∧ s.bounds.height > 0) :
    Ends (event o e) s fun r s' => Passes s o (moved s.held e) r s' := by
  unfold event
  refine ends_bind.2 (ends_demand.2 ⟨fun _ => ?_, absurd hfits.flags⟩)
  exact .ite (fun _ => touch_passes hfits hbounds) (absurd hkind)

theorem event_mouse (hkind : e.kind = 1) : Within Grips (fun _ => True) (event o e) s := by
  have hne : ¬ e.kind = 0 := by
    rw [hkind]
    decide
  unfold event
  refine .demand_bind trivial fun _ => .ite (fun h => absurd h hne) fun _ => ?_
  exact .ite (fun _ => mouse_grips) fun hn => absurd (.inl hkind) hn

theorem attempt_grips (s : Injector) (i : Injection) : Grips s (attempt o s i) :=
  (send_grips i).out.2

theorem foldl_grips {α : Type} {f : Injector → α → Injector} (h : ∀ s a, Grips s (f s a))
    (as : List α) (s : Injector) : Grips s (as.foldl f s) := by
  induction as generalizing s with
  | nil => exact Std.Refl.refl s
  | cons a as ih => exact IsTrans.trans _ _ _ (h s a) (ih (f s a))

/-- `release_all` drops every contact. -/
theorem releaseAll_touches (s : Injector) : (s.releaseAll o).touches = [] := by
  unfold releaseAll
  dsimp only
  rw [(foldl_grips (fun s mask => ?_) ..).touches]
  · dsimp only
    rw [(foldl_grips (fun s key => attempt_grips s _) ..).touches]
  · split
    · exact attempt_grips s _
    · exact Std.Refl.refl s

end Injector

/-! ### The view and the injector -/

/-- The view, the direct touches that are down, the events under way, and the injector, unless
the pipeline has stopped. -/
structure TouchPath where
  view : InputView := {}
  active : List ℕ := []
  queue : List InputEvent := []
  input : Option Injector

namespace TouchPath

variable {s : TouchPath}

inductive Activity where
  /-- A callback of UIKit. -/
  | touches (phase : UInt8) (mask : UInt32) (ts : List UITouch)
  /-- The next event is handled. -/
  | handle (o : Outcome)
  /-- `topology::reconcile` yields these bounds. -/
  | reconcile (o : Outcome) (b : Bounds)

def step (s : TouchPath) : Activity → TouchPath
  | .touches phase mask ts => { s with
      view := (s.view.touches phase mask ts).1
      active := ts.foldl (touched phase) s.active
      queue := s.queue ++ (s.view.touches phase mask ts).2 }
  | .handle o =>
    match s.queue, s.input with
    | [], _ => s
    | _ :: rest, none => { s with queue := rest }
    | e :: rest, some i =>
      match exec (Injector.event o e) i with
      | (.ok _, i) => { s with queue := rest, input := some i }
      | (.error _, _) => { s with queue := rest, input := none }
  | .reconcile o b => { s with input := s.input.map fun i =>
      if i.bounds ≠ b then { i.releaseAll o with bounds := b } else i }

/-- A view without contacts and a new injector of a display that is there. -/
def Initial (s : TouchPath) : Prop :=
  ∃ b : Bounds, (b.width > 0 ∧ b.height > 0) ∧ s = { input := some { bounds := b } }

/-- What the platforms promise: UIKit begins a touch that is not down, and a callback is about
a set of touches; a display that is active has a size. -/
def Regular (s : TouchPath) : Activity → Prop
  | .touches phase _ ts => phase ≤ 3 ∧ (ts.map UITouch.identity).Nodup ∧
      (phase = 0 → ∀ t ∈ ts, t.identity ∉ s.active)
  | .handle _ => True
  | .reconcile _ b => b.width > 0 ∧ b.height > 0

/-- The bounds change while no contact is held. -/
def Calm (s : TouchPath) (a : Activity) : Prop :=
  s.Regular a ∧ ∀ o b, a = .reconcile o b → ∀ i, s.input = some i → i.bounds ≠ b → i.touches = []

/-- The next event, if it is a touch, fails with the platform alone. -/
def Unbroken (s : TouchPath) : Prop :=
  ∀ i e rest, s.input = some i → s.queue = e :: rest → e.kind = 0 → ∀ o error,
    (exec (Injector.event o e) i).1 = .error error → o.ok .touches = false

/-- Both sides agree through the events under way. -/
structure Agrees (s : TouchPath) : Prop where
  kept : Kept s.view s.active
  plays : ∀ i, s.input = some i → (i.bounds.width > 0 ∧ i.bounds.height > 0) ∧
    Plays i.held s.queue (contacts s.view)

theorem touches_agrees (h : s.Agrees) {phase : UInt8} {mask : UInt32} {ts : List UITouch}
    (hok : s.Regular (.touches phase mask ts)) : (s.step (.touches phase mask ts)).Agrees := by
  obtain ⟨hphase, hset, hbegins⟩ := hok
  obtain ⟨hkept, hplays⟩ := touches_plays mask h.kept hphase hset hbegins
  refine ⟨hkept, fun i hi => ?_⟩
  obtain ⟨hbounds, hqueue⟩ := h.plays i hi
  exact ⟨hbounds, hqueue.append hplays⟩

theorem handle_agrees (h : s.Agrees) (o : Outcome) : (s.step (.handle o)).Agrees := by
  rcases hqueue : s.queue with - | ⟨e, rest⟩
  · have hstep : s.step (.handle o) = s := by simp only [step, hqueue]
    rw [hstep]
    exact h
  rcases hinput : s.input with - | i
  · have hstep : s.step (.handle o) = { s with queue := rest } := by
      simp only [step, hqueue, hinput]
    rw [hstep]
    exact ⟨h.kept, fun i hi => absurd (hinput.symm.trans hi) nofun⟩
  obtain ⟨hbounds, hplays⟩ := h.plays i hinput
  rw [hqueue] at hplays
  rcases hexec : exec (Injector.event o e) i with ⟨error | u, i'⟩
  · have hstep : s.step (.handle o) = { s with queue := rest, input := none } := by
      simp only [step, hqueue, hinput, hexec]
    rw [hstep]
    exact ⟨h.kept, nofun⟩
  · have hstep : s.step (.handle o) = { s with queue := rest, input := some i' } := by
      simp only [step, hqueue, hinput, hexec]
    rw [hstep]
    refine ⟨h.kept, ?_⟩
    rintro _ ⟨⟩
    rcases hplays with ⟨hkind, hfits, hrest⟩ | ⟨hkind, hrest⟩
    · have hpasses := (Injector.event_touch hkind hfits hbounds).of_exec hexec
      rw [hpasses.bounds, hpasses.held rfl]
      exact ⟨hbounds, hrest⟩
    · have hgrips := ((Injector.event_mouse hkind).of_exec hexec).2
      have hheld : i'.held = i.held := by
        unfold Injector.held
        rw [hgrips.touches]
      rw [hgrips.bounds, hheld]
      exact ⟨hbounds, hrest⟩

theorem reconcile_agrees (h : s.Agrees) {o : Outcome} {b : Bounds}
    (hok : s.Calm (.reconcile o b)) : (s.step (.reconcile o b)).Agrees := by
  refine ⟨h.kept, fun i hi => ?_⟩
  obtain ⟨j, hj, rfl⟩ := Option.map_eq_some_iff.1 hi
  obtain ⟨hbounds, hplays⟩ := h.plays j hj
  split
  · rename_i hchange
    have hempty := hok.2 o b rfl j hj hchange
    have hheld : ({ j.releaseAll o with bounds := b } : Injector).held = j.held := by
      unfold Injector.held
      rw [hempty]
      exact congrArg (fun touches => {id : UInt16 | ∃ touch, (id, touch) ∈ touches})
        (Injector.releaseAll_touches j)
    refine ⟨hok.1, ?_⟩
    rw [hheld]
    exact hplays
  · exact ⟨hbounds, hplays⟩

/-- Every activity keeps the agreement. -/
theorem step_agrees {a : Activity} (h : s.Agrees) (hok : s.Calm a) : (s.step a).Agrees := by
  cases a with
  | touches phase mask ts => exact touches_agrees h hok.1
  | handle o => exact handle_agrees h o
  | reconcile o b => exact reconcile_agrees h hok

theorem initial_agrees (h : Initial s) : s.Agrees := by
  obtain ⟨b, hbounds, rfl⟩ := h
  have hbuttons : (0 : UInt32) ≤ 7 := by decide
  refine ⟨⟨nofun, nofun, nofun, nofun, hbuttons⟩, ?_⟩
  rintro _ ⟨⟩
  refine ⟨hbounds, ?_⟩
  have hheld : ({ bounds := b } : Injector).held = ∅ :=
    Set.eq_empty_of_forall_notMem fun _ ⟨_, hmem⟩ => List.not_mem_nil hmem
  have hcontacts : contacts {} = ∅ :=
    Set.eq_empty_of_forall_notMem fun _ ⟨_, hmem⟩ => List.not_mem_nil hmem
  exact hheld.trans hcontacts.symm

theorem reaches_agrees (h : Reaches step Initial Calm s) : s.Agrees :=
  h.invariant (fun _ => initial_agrees) fun _ _ => step_agrees

/-- The next event fits the contacts of the injector. -/
theorem Agrees.unbroken (h : s.Agrees) : s.Unbroken := by
  intro i e rest hinput hqueue hkind o error herror
  obtain ⟨hbounds, hplays⟩ := h.plays i hinput
  rw [hqueue] at hplays
  rcases hplays with ⟨-, hfits, -⟩ | ⟨hmouse, -⟩
  · exact Injector.Passes.error (Injector.event_touch hkind hfits hbounds) error herror
  · rw [hkind] at hmouse
    exact absurd hmouse (by decide)

/-- **Touches pass.** As long as the bounds of the display change while the injector
holds no contact, no touch that the view sends is an error of its own. -/
theorem touches_pass (h : Reaches step Initial Calm s) : s.Unbroken :=
  (reaches_agrees h).unbroken

/-- A finger in the middle of the view. -/
def sampleTouch : UITouch := ⟨0, .direct, true, ⟨0x3f000000⟩, ⟨0x3f000000⟩, rfl, rfl⟩

/-- A path on which nothing has happened. -/
def samplePath : TouchPath := { input := some { bounds := Injector.sampleBounds } }

theorem samplePath_initial : Initial samplePath := by
  refine ⟨Injector.sampleBounds, ?_, rfl⟩
  decide

/-- A finger comes and goes, the display gets another size, and the finger comes and moves. -/
def sampleResized : List Activity :=
  [.touches 0 0 [sampleTouch], .handle {}, .touches 2 0 [sampleTouch], .handle {},
    .reconcile {} ⟨0, 0, 1280, 720⟩, .touches 0 0 [sampleTouch], .handle {},
    .touches 1 0 [sampleTouch]]

/-- The hypothesis of `touches_pass` is satisfiable: behind a change of the bounds a finger goes
down and moves, and its move does not fail where Windows takes it. -/
theorem touches_pass_sample : ∃ (s : TouchPath) (i : Injector) (e : InputEvent), s.input = some i ∧
    i.bounds = ⟨0, 0, 1280, 720⟩ ∧ s.queue = [e] ∧ e.kind = 0 ∧ e.phase = 1 ∧ s.Unbroken := by
  have hrun : Along step Calm samplePath sampleResized := by
    refine ⟨⟨⟨by decide, by decide, fun _ _ _ => List.not_mem_nil⟩, nofun⟩, ⟨trivial, nofun⟩,
      ⟨⟨by decide, by decide, fun h => absurd h (by decide)⟩, nofun⟩, ⟨trivial, nofun⟩,
      ⟨⟨by decide, by decide⟩, ?_⟩, ⟨⟨by decide, by decide, fun _ => by decide⟩, nofun⟩,
      ⟨trivial, nofun⟩, ⟨⟨by decide, by decide, fun h => absurd h (by decide)⟩, nofun⟩, trivial⟩
    rintro _ _ - i hi -
    obtain rfl := Option.some.inj hi
    rfl
  have h := touches_pass ((Reaches.init samplePath_initial).along hrun)
  exact ⟨_, _, _, rfl, rfl, rfl, by decide, by decide, h⟩

/-- The finger goes down, the display gets another size, and the finger moves. -/
def sampleDrop : List Activity :=
  [.touches 0 0 [sampleTouch], .handle {}, .reconcile {} ⟨0, 0, 1280, 720⟩,
    .touches 1 0 [sampleTouch]]

/-- The move of a contact that `release_all` has dropped is an error, though Windows takes
every injection. -/
theorem contact_dropped : ¬ ∀ s, Reaches step Initial Regular s → s.Unbroken := by
  intro h
  have hrun : Along step Regular samplePath sampleDrop := by
    refine ⟨⟨by decide, by decide, fun _ _ _ => List.not_mem_nil⟩, trivial,
      ⟨by decide, by decide⟩, ?_, trivial⟩
    exact ⟨by decide, by decide, fun h => absurd h (by decide)⟩
  have hfails := h _ ((Reaches.init samplePath_initial).along hrun) _ _ _ rfl rfl rfl {} _ rfl
  exact Bool.noConfusion hfails

end TouchPath

end Host
end SidecarDOS
