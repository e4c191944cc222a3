/-
# Batches of contacts

Every touch is injected together with all other contacts, and so is the end of all contacts in
`release_all`.  `batch` is what a call has passed to `InjectSyntheticPointerInput`, and `contacts`
what Windows has in contact by the batches it has taken.  Between two calls every contact
that is kept is one of Windows, and its flags are those of an update; so every batch tells
Windows of each of its contacts once, and begins only what is not in contact
(`batches_legal`).
-/

import Mathlib.Data.List.Nodup
import Mathlib.Data.List.Perm.Subperm
import SidecarDOS.Host.Held
import SidecarDOS.Host.Touches

namespace SidecarDOS
namespace Host

open Library (Reaches Ends Within exec exec_demand_bind ends_pure ends_bind ends_get ends_modify
  ends_demand)

/-- The contact stays on the display. -/
def PointerFlags.inContact : PointerFlags → Bool
  | .down | .update => true
  | .up | .canceled => false

/-- What is passed to `InjectSyntheticPointerInput`, without the numbers of the contacts. -/
abbrev Batch : Type := List (UInt16 × Touch)

/-- What Windows has in contact behind a batch. -/
def Batch.after (contacts : UInt16 → Bool) (batch : Batch) (id : UInt16) : Bool :=
  match batch.lookup id with
  | some t => t.flags.inContact
  | none => contacts id

/-- A batch that Windows can take: it tells of every contact once, begins what is not in contact,
and goes on with or ends what is. -/
structure Batch.Legal (contacts : UInt16 → Bool) (batch : Batch) : Prop where
  once : ∀ id, contacts id = true → (batch.map Prod.fst).count id = 1
  down : ∀ t ∈ batch, t.2.flags = .down ↔ contacts t.1 = false

namespace Injector

variable {s s' : Injector} {a : Outcome} {e : InputEvent}

/-- What Windows is told of by a call, where nothing is left of an earlier one. -/
def Call.batch (s : Injector) (c : Call) : Option Batch := (s.perform c).batch

/-! ### Touches -/

/-- The flags of a touch. -/
def flags (e : InputEvent) : PointerFlags :=
  if e.phase = 0 then .down else if e.phase = 1 then .update
  else if e.phase = 2 then .up else .canceled

theorem flags_down : flags e = .down ↔ e.phase = 0 := by
  unfold flags
  split_ifs with h
  · exact iff_of_true rfl h
  all_goals exact iff_of_false nofun h

theorem flags_inContact : (flags e).inContact = true ↔ ¬ e.phase ≥ 2 := by
  unfold flags
  split_ifs with h0 h1 h2
  · simp [h0, PointerFlags.inContact]
  · simp [h1, PointerFlags.inContact]
  · simp [h2, PointerFlags.inContact]
  · refine iff_of_false nofun (not_not.2 ?_)
    have h0 : e.phase.toNat ≠ 0 := fun h => h0 (UInt8.toNat_inj.1 h)
    have h1 : e.phase.toNat ≠ 1 := fun h => h1 (UInt8.toNat_inj.1 h)
    exact UInt8.le_iff_toNat_le.2 (by change 2 ≤ _; omega)

/-- The injector with the contact of an event among the others. -/
def inserted (s : Injector) (e : InputEvent) (location : ℤ × ℤ) : Injector :=
  { s with touches := (e.contactId, ⟨location, flags e⟩) :: remove s.touches e.contactId }

theorem told_inserted (s : Injector) (e : InputEvent) (location : ℤ × ℤ) :
    (s.inserted e location).told.batch = some (s.inserted e location).touches := rfl

/-- The injector behind the touch of an inserted contact. -/
def settled (s : Injector) (e : InputEvent) : Injector :=
  { s with
    touches := (if e.phase ≥ 2 then remove s.touches e.contactId else s.touches).map
      fun t => (t.1, { t.2 with flags := .update }) }

/-- A touch is refused as it is, or Windows is told of its contact with the others. -/
theorem touch_ok (hok : ∀ i, a.ok i = true) : Ends (touch a e) s fun r s' =>
    (∃ error, r = .error error) ∧ s' = s ∨
      r = .ok () ∧ e.contactId < 10 ∧ (e.phase = 0 ↔ e.contactId ∉ s.held) ∧
        ∃ location, s' = (s.inserted e location).told.settled e := by
  have hrest (location : ℤ × ℤ) : Ends (do
      modify fun s => { s with
        touches := (e.contactId, ⟨location, flags e⟩) :: remove s.touches e.contactId }
      injectTouches a
      modify fun s => { s with
        touches := (if e.phase ≥ 2 then remove s.touches e.contactId else s.touches).map
          fun t => (t.1, { t.2 with flags := .update }) } : Inject Unit) s
      fun r s' => r = .ok () ∧ s' = (s.inserted e location).told.settled e := by
    refine ends_bind.2 (ends_modify.2 (Ends.bind_ok (injectTouches_ok hok) fun s₂ hs₂ => ?_))
    rw [hs₂]
    exact ends_modify.2 ⟨rfl, rfl⟩
  unfold touch
  refine ends_bind.2 (ends_demand.2 ⟨fun hid => ?_, fun _ => .inl ⟨⟨_, rfl⟩, rfl⟩⟩)
  refine ends_bind.2 (ends_get.2 ?_)
  dsimp only
  cases s.bounds.map a e.x e.y with
  | error error => exact .inl ⟨⟨error, rfl⟩, rfl⟩
  | ok location =>
    refine ends_bind.2 (ends_pure.2 ?_)
    dsimp only
    refine .ite (fun hdown => ?_) fun hup => ?_
    · refine ends_bind.2 (ends_demand.2 ⟨fun hnone => ?_, fun _ => .inl ⟨⟨_, rfl⟩, rfl⟩⟩)
      have hfree : e.contactId ∉ s.held := by
        rw [← contact_isSome, Option.isNone_iff_eq_none.1 hnone]
        exact Bool.false_ne_true
      exact (hrest _).mono fun _ _ h => .inr ⟨h.1, hid, iff_of_true hdown hfree, _, h.2⟩
    · refine ends_bind.2 (ends_demand.2 ⟨fun hsome => ?_, fun _ => .inl ⟨⟨_, rfl⟩, rfl⟩⟩)
      have hheld : e.contactId ∈ s.held := (contact_isSome ..).1 hsome
      exact (hrest _).mono fun _ _ h => .inr ⟨h.1, hid, iff_of_false hup (not_not.2 hheld), _, h.2⟩

/-! ### Other events -/

theorem releaseKey_grips (code : UInt16) :
    Within Grips (fun _ => True) (releaseKey a code) s := by
  unfold releaseKey
  exact .get_bind (.ite (fun _ => .modify_bind ⟨rfl, rfl, rfl⟩ (send_grips _)) fun _ => .pure _)

theorem modifier_grips (scan : UInt16) (m : Modifier) :
    Within Grips (fun _ => True) (modifier a e scan m) s := by
  have hpress (s : Injector) : Within Grips (fun _ => True) (do
      send a (.key m.left false)
      modify fun s => { s with keys := s.keys.insert m.left } : Inject Unit) s :=
    (send_grips _).bind fun _ _ _ => .modify ⟨rfl, rfl, rfl⟩
  unfold modifier
  refine .ite (fun _ => .pure _) fun _ => .ite (fun _ => ?_) fun _ => ?_
  · exact .get_bind (.ite (fun _ => hpress s) fun _ => .pure _)
  · exact .forM (fun code _ => releaseKey_grips code) _

theorem keyboard_grips : Within Grips (fun _ => True) (keyboard a e) s := by
  unfold keyboard
  split
  · exact .pure _
  · refine (Within.forM (fun m _ => modifier_grips _ m) modifiers).bind fun _ s₁ _ => ?_
    refine .get_bind (.ite (fun _ => ?_) fun _ => .pure _)
    exact (send_grips _).bind fun _ _ _ => .modify ⟨rfl, rfl, rfl⟩

/-- An event that is no touch leaves the contacts alone, and everything if it is refused. -/
theorem event_other (hok : ∀ i, a.ok i = true)
    (hn : ¬ ((e.phase ≤ 3 ∧ e.buttons ≤ 7 ∧ e.isRepeat ≤ 1) ∧ e.kind = 0)) :
    Ends (event a e) s fun r s' => Grips s s' ∧ ∀ error, r = .error error → s' = s := by
  have hsame : Grips s s := Std.Refl.refl s
  unfold event
  refine ends_bind.2 (ends_demand.2 ⟨fun hvalid => ?_, fun _ => ⟨hsame, fun _ _ => rfl⟩⟩)
  refine .ite (fun hkind => absurd ⟨hvalid, hkind⟩ hn) fun _ => .ite (fun _ => ?_) fun _ =>
    .ite (fun _ => ?_) fun _ => ⟨hsame, fun _ _ => rfl⟩
  · have hmouse : Ends (mouse a e) s _ := mouse_ok hok
    refine ⟨(mouse_grips : Within ..).out.2, fun error herror => ?_⟩
    obtain ⟨-, hs'⟩ | ⟨hr, -⟩ := hmouse
    · exact hs'
    · cases hr.symm.trans herror
  · refine ⟨(keyboard_grips : Within ..).out.2, fun error herror => ?_⟩
    cases hscan : scanCode e.physicalKey with
    | none =>
      unfold keyboard at herror
      rw [hscan] at herror
      cases herror
    | some scan =>
      have hkeyboard : Ends (keyboard a e) s _ := keyboard_ok hok hscan
      cases hkeyboard.1.symm.trans herror

/-! ### Windows -/

/-- An injector, and what Windows has in contact by its batches. -/
structure Tracked where
  injector : Injector
  contacts : UInt16 → Bool := fun _ => false

namespace Tracked

def step (t : Tracked) (c : Call) : Tracked where
  injector := { t.injector.perform c with batch := none }
  contacts := match c.batch t.injector with
    | some batch => batch.after t.contacts
    | none => t.contacts

/-- The contacts that are kept are those of Windows; they are at rest, and each is kept once. -/
structure Sound (t : Tracked) : Prop where
  held : ∀ id, t.contacts id = true ↔ id ∈ t.injector.held
  nodup : (t.injector.touches.map Prod.fst).Nodup
  small : ∀ id ∈ t.injector.held, id < 10
  settled : ∀ touch ∈ t.injector.touches, touch.2.flags = .update
  idle : t.injector.batch = none

variable {t : Tracked}

theorem mem_held {s : Injector} {id : UInt16} : id ∈ s.held ↔ id ∈ s.touches.map Prod.fst := by
  constructor
  · rintro ⟨touch, hmem⟩
    exact List.mem_map.2 ⟨_, hmem, rfl⟩
  · intro hmem
    obtain ⟨⟨_, touch⟩, htouch, rfl⟩ := List.mem_map.1 hmem
    exact ⟨touch, htouch⟩

theorem map_remove (touches : Batch) (id : UInt16) :
    (remove touches id).map Prod.fst = (touches.map Prod.fst).filter (· ≠ id) := by
  rw [List.filter_map]
  rfl

theorem lookup_remove (touches : Batch) {id id' : UInt16} (hne : id' ≠ id) :
    (remove touches id).lookup id' = touches.lookup id' := by
  induction touches with
  | nil => rfl
  | cons touch touches ih =>
    obtain ⟨id'', touch⟩ := touch
    by_cases heq : id'' = id
    · have hne' : (id' == id'') = false := beq_eq_false_iff_ne.2 (heq ▸ hne)
      rw [remove, List.filter_cons_of_neg (by simp [heq]), List.lookup_cons, hne']
      exact ih
    · rw [remove, List.filter_cons_of_pos (by simp [heq]), List.lookup_cons, List.lookup_cons]
      rw [remove] at ih
      rw [ih]

/-- Contacts at rest stay as they are. -/
theorem Sound.after (h : t.Sound) (id : UInt16) :
    Batch.after t.contacts t.injector.touches id = t.contacts id := by
  unfold Batch.after
  cases hlookup : t.injector.touches.lookup id with
  | none => rfl
  | some touch =>
    obtain ⟨l₁, l₂, heq, -⟩ := List.lookup_eq_some_iff.1 hlookup
    have hmem : (id, touch) ∈ t.injector.touches := by
      rw [heq]
      exact List.mem_append_right _ List.mem_cons_self
    have hupdate : touch.flags = .update := h.settled _ hmem
    dsimp only
    rw [hupdate]
    exact ((h.held id).2 ⟨touch, hmem⟩).symm

theorem inserted_ids (s : Injector) (e : InputEvent) (location : ℤ × ℤ) :
    (s.inserted e location).touches.map Prod.fst =
      e.contactId :: (s.touches.map Prod.fst).filter (· ≠ e.contactId) :=
  congrArg _ (map_remove ..)

theorem inserted_nodup {ids : List UInt16} (h : ids.Nodup) (id : UInt16) :
    (id :: ids.filter (· ≠ id)).Nodup :=
  List.nodup_cons.2 ⟨by simp, h.filter _⟩

theorem settled_ids (s : Injector) (e : InputEvent) : (s.settled e).touches.map Prod.fst =
    (if e.phase ≥ 2 then remove s.touches e.contactId else s.touches).map Prod.fst :=
  List.map_map

/-- The batch of a touch is legal. -/
theorem Sound.legal (h : t.Sound) (hphase : e.phase = 0 ↔ e.contactId ∉ t.injector.held)
    (location : ℤ × ℤ) : Batch.Legal t.contacts (t.injector.inserted e location).touches := by
  constructor
  · intro id hid
    rw [inserted_ids]
    refine List.count_eq_one_of_mem (inserted_nodup h.nodup _) ?_
    by_cases heq : id = e.contactId
    · exact heq ▸ List.mem_cons_self
    · refine List.mem_cons_of_mem _ (List.mem_filter.2 ⟨?_, decide_eq_true heq⟩)
      exact mem_held.1 ((h.held id).1 hid)
  · refine List.forall_mem_cons.2 ⟨?_, fun touch htouch => ?_⟩
    · rw [flags_down, hphase, ← h.held, Bool.not_eq_true]
    · have hmem := List.mem_of_mem_filter htouch
      have hupdate := h.settled touch hmem
      have hheld := (h.held touch.1).2 ⟨touch.2, hmem⟩
      rw [hupdate, hheld]
      exact iff_of_false nofun nofun

theorem after_inserted (contacts : UInt16 → Bool) (s : Injector) (e : InputEvent)
    (location : ℤ × ℤ) (id : UInt16) : Batch.after contacts (s.inserted e location).touches id =
      if id = e.contactId then (flags e).inContact else Batch.after contacts s.touches id := by
  unfold Batch.after inserted
  dsimp only
  by_cases heq : id = e.contactId
  · rw [if_pos heq, heq, List.lookup_cons_self]
  · rw [if_neg heq, List.lookup_cons, beq_eq_false_iff_ne.2 heq]
    exact congrArg (fun r => match r with
      | some t => t.flags.inContact
      | none => contacts id) (lookup_remove s.touches heq)

theorem Sound.settle (h : t.Sound) (hid : e.contactId < 10) (location : ℤ × ℤ) {i : Injector}
    (htouches : i.touches = ((t.injector.inserted e location).settled e).touches)
    (hidle : i.batch = none) :
    Sound ⟨i, Batch.after t.contacts (t.injector.inserted e location).touches⟩ := by
  have hids : i.touches.map Prod.fst = _ := (congrArg _ htouches).trans (settled_ids ..)
  have hheld (id : UInt16) : id ∈ i.held ↔
      if id = e.contactId then ¬ e.phase ≥ 2 else id ∈ t.injector.held := by
    rw [mem_held, hids]
    by_cases hends : e.phase ≥ 2
    · rw [if_pos hends, map_remove, inserted_ids]
      by_cases heq : id = e.contactId
      · simp [heq, hends]
      · simp [heq, mem_held]
    · rw [if_neg hends, inserted_ids]
      by_cases heq : id = e.contactId
      · simp [heq, hends]
      · simp [heq, mem_held]
  constructor
  · intro id
    rw [hheld]
    dsimp only
    rw [after_inserted, h.after]
    split
    · exact flags_inContact
    · exact h.held id
  · rw [hids]
    have hnodup := inserted_nodup h.nodup e.contactId
    rw [← inserted_ids _ _ location] at hnodup
    split
    · rw [map_remove]
      exact hnodup.filter _
    · exact hnodup
  · intro id hmem
    rw [hheld] at hmem
    split at hmem
    · rename_i heq
      exact heq ▸ hid
    · exact h.small id hmem
  · intro touch hmem
    rw [htouches] at hmem
    obtain ⟨_, -, rfl⟩ := List.mem_map.1 hmem
    rfl
  · exact hidle

theorem Sound.of_touches (h : t.Sound) {i : Injector} (htouches : i.touches = t.injector.touches)
    (hidle : i.batch = none) : Sound ⟨i, t.contacts⟩ := by
  have hheld : i.held = t.injector.held := by
    unfold Injector.held
    rw [htouches]
  refine ⟨?_, ?_, ?_, ?_, hidle⟩
  · rw [hheld]
    exact h.held
  · rw [htouches]
    exact h.nodup
  · rw [hheld]
    exact h.small
  · rw [htouches]
    exact h.settled

/-- What holds of a call. -/
structure Fair (t : Tracked) (c : Call) : Prop where
  legal : ∀ batch, c.batch t.injector = some batch → batch.Legal t.contacts
  sound : (t.step c).Sound

theorem step_of_none {c : Call} (h : c.batch t.injector = none) :
    t.step c = ⟨{ t.injector.perform c with batch := none }, t.contacts⟩ := by
  unfold step
  rw [h]

theorem step_of_some {c : Call} {batch : Batch} (h : c.batch t.injector = some batch) :
    t.step c = ⟨{ t.injector.perform c with batch := none }, batch.after t.contacts⟩ := by
  unfold step
  rw [h]

theorem Fair.of_none (h : t.Sound) {c : Call} (hbatch : c.batch t.injector = none)
    (htouches : (t.injector.perform c).touches = t.injector.touches) : t.Fair c := by
  refine ⟨fun batch hsome => absurd (hbatch.symm.trans hsome) nofun, ?_⟩
  rw [step_of_none hbatch]
  exact h.of_touches htouches rfl

/-- A call that does nothing tells Windows of nothing. -/
theorem Sound.stays (h : t.Sound) {c : Call} (hperform : t.injector.perform c = t.injector) :
    t.Fair c ∧ t.step c = t := by
  have hbatch : c.batch t.injector = none := (congrArg Injector.batch hperform).trans h.idle
  refine ⟨.of_none h hbatch (congrArg Injector.touches hperform), ?_⟩
  rw [step_of_none hbatch, hperform, ← h.idle]

/-- A touch is injected legally, or refused as it is; any other event injects no contacts. -/
theorem Sound.event (h : t.Sound) (hok : ∀ i, a.ok i = true) (e : InputEvent) :
    t.Fair (.event a e) ∧ ∀ error, (exec (Injector.event a e) t.injector).1 = .error error →
      t.step (.event a e) = t := by
  by_cases hn : (e.phase ≤ 3 ∧ e.buttons ≤ 7 ∧ e.isRepeat ≤ 1) ∧ e.kind = 0
  swap
  · have hother : Ends (Injector.event a e) t.injector _ := event_other hok hn
    have hbatch : Call.batch t.injector (.event a e) = none := hother.1.batch.trans h.idle
    refine ⟨.of_none h hbatch hother.1.touches, fun error herror => ?_⟩
    exact (h.stays (c := .event a e) (hother.2 error herror)).2
  have hevent : exec (Injector.event a e) t.injector = exec (touch a e) t.injector := by
    unfold Injector.event check
    rw [exec_demand_bind, if_pos hn.1, if_pos hn.2]
  have htouch : Ends (touch a e) t.injector _ := touch_ok hok
  unfold Ends at htouch
  rw [← hevent] at htouch
  obtain ⟨-, hs'⟩ | ⟨hr, hid, hphase, location, hs'⟩ := htouch
  · have hstays := h.stays (c := .event a e) hs'
    exact ⟨hstays.1, fun _ _ => hstays.2⟩
  · have hbatch : Call.batch t.injector (.event a e) =
        some (t.injector.inserted e location).touches :=
      (congrArg Injector.batch hs').trans (told_inserted ..)
    refine ⟨⟨fun batch hbatch' => ?_, ?_⟩, fun error herror => ?_⟩
    · obtain rfl := Option.some.inj (hbatch.symm.trans hbatch')
      exact h.legal hphase location
    · rw [step_of_some hbatch]
      have htouches : (t.injector.perform (.event a e)).touches = _ := congrArg Injector.touches hs'
      exact h.settle hid location htouches rfl
    · cases hr.symm.trans herror

theorem cancel_ids (s : Injector) : s.cancel.touches.map Prod.fst = s.touches.map Prod.fst :=
  List.map_map

/-- The end of all contacts is legal. -/
theorem Sound.legal_cancel (h : t.Sound) : Batch.Legal t.contacts t.injector.cancel.touches := by
  constructor
  · intro id hid
    rw [cancel_ids]
    exact List.count_eq_one_of_mem h.nodup (mem_held.1 ((h.held id).1 hid))
  · intro touch htouch
    obtain ⟨c, hc, rfl⟩ := List.mem_map.1 htouch
    have hheld := (h.held c.1).2 ⟨c.2, hc⟩
    rw [hheld]
    exact iff_of_false nofun nofun

/-- Nothing is in contact then. -/
theorem Sound.after_cancel (h : t.Sound) (id : UInt16) :
    Batch.after t.contacts t.injector.cancel.touches id = false := by
  unfold Batch.after
  cases hlookup : t.injector.cancel.touches.lookup id with
  | none =>
    have hfree : id ∉ t.injector.held := by
      rw [mem_held, ← cancel_ids]
      intro hmem
      obtain ⟨c, hc, rfl⟩ := List.mem_map.1 hmem
      have hne := List.lookup_eq_none_iff.1 hlookup c hc
      exact absurd hne (by simp)
    exact Bool.eq_false_iff.2 fun hcontact => hfree ((h.held id).1 hcontact)
  | some touch =>
    obtain ⟨l₁, l₂, heq, -⟩ := List.lookup_eq_some_iff.1 hlookup
    have hmem : (id, touch) ∈ t.injector.cancel.touches := by
      rw [heq]
      exact List.mem_append_right _ List.mem_cons_self
    obtain ⟨c, -, hc⟩ := List.mem_map.1 hmem
    obtain ⟨-, rfl⟩ := Prod.mk.inj hc
    rfl

theorem Sound.releaseAll (h : t.Sound) (hok : ∀ i, a.ok i = true) : t.Fair (.releaseAll a) := by
  have heq : t.injector.perform (.releaseAll a) = _ := releaseAll_eq hok
  have htouches : (t.injector.perform (.releaseAll a)).touches = [] := congrArg Injector.touches heq
  have hbatch : Call.batch t.injector (.releaseAll a) =
      if t.injector.cancel.touches = [] then t.injector.batch else some t.injector.cancel.touches :=
    congrArg Injector.batch heq
  by_cases hempty : t.injector.cancel.touches = []
  · rw [if_pos hempty, h.idle] at hbatch
    exact .of_none h hbatch (htouches.trans (List.map_eq_nil_iff.1 hempty).symm)
  · rw [if_neg hempty] at hbatch
    refine ⟨fun batch hbatch' => ?_, ?_⟩
    · obtain rfl := Option.some.inj (hbatch.symm.trans hbatch')
      exact h.legal_cancel
    · rw [step_of_some hbatch]
      generalize t.injector.perform (.releaseAll a) = i at htouches
      have hheld (id : UInt16) : id ∉ ({ i with batch := none } : Injector).held := by
        rw [mem_held]
        dsimp only
        rw [htouches]
        exact List.not_mem_nil
      refine ⟨fun id => ?_, ?_, fun id hid => absurd hid (hheld id), ?_, rfl⟩
      · dsimp only
        rw [h.after_cancel]
        exact iff_of_false Bool.false_ne_true (hheld id)
      · dsimp only
        rw [htouches]
        exact List.nodup_nil
      · dsimp only
        rw [htouches]
        exact nofun

theorem Sound.fair (h : t.Sound) {c : Call} (hworks : c.Works) : t.Fair c := by
  cases c with
  | event a e => exact (h.event hworks e).1
  | releaseAll a => exact h.releaseAll hworks
  | bounds b => exact .of_none h h.idle rfl

/-- An injector as `new` makes it, without contacts. -/
def Initial (t : Tracked) : Prop := ∃ bounds, t = { injector := { bounds := bounds } }

/-- What any calls lead to while every injection succeeds. -/
abbrev Reachable (t : Tracked) : Prop := Reaches step Initial (fun _ c => c.Works) t

theorem Reachable.sound (h : t.Reachable) : t.Sound := by
  refine h.invariant ?_ fun t c hsound hworks => (hsound.fair hworks).sound
  rintro _ ⟨bounds, rfl⟩
  exact ⟨fun id => iff_of_false Bool.false_ne_true nofun, List.nodup_nil, nofun, nofun, rfl⟩

/-- **Batches of contacts are legal.**  After any calls of `event` and `release_all`, whether
events are refused or not, the contacts that are kept are those that Windows has in contact, at
most ten and each once; the next batch tells Windows of each of them once, and begins only
contacts that it does not have; and an event that is refused changes nothing. -/
theorem batches_legal (h : t.Reachable) :
    (∀ c : Call, c.Works → ∀ batch, c.batch t.injector = some batch → batch.Legal t.contacts) ∧
    (∀ id, t.contacts id = true ↔ id ∈ t.injector.touches.map Prod.fst) ∧
    (t.injector.touches.map Prod.fst).Nodup ∧ t.injector.touches.length ≤ 10 ∧
    ∀ (a : Outcome) (e : InputEvent) (error : Error), (∀ i, a.ok i = true) →
      (exec (Injector.event a e) t.injector).1 = .error error → t.step (.event a e) = t := by
  have hsound := h.sound
  refine ⟨fun c hworks => (hsound.fair hworks).legal, fun id => ?_, hsound.nodup, ?_,
    fun a e error hok herror => (hsound.event hok e).2 error herror⟩
  · rw [hsound.held, mem_held]
  · have hsubset : (t.injector.touches.map Prod.fst).map UInt16.toNat ⊆ List.range 10 := by
      intro n hn
      obtain ⟨id, hid, rfl⟩ := List.mem_map.1 hn
      exact List.mem_range.2 (UInt16.lt_iff_toNat_lt.1 (hsound.small id (mem_held.2 hid)))
    have hnodup := hsound.nodup.map fun _ _ => UInt16.toNat_inj.1
    have hlength := (List.subperm_of_subset hnodup hsubset).length_le
    rwa [List.length_map, List.length_map, List.length_range] at hlength

/-- A finger is down. -/
def sampleDown : Tracked :=
  step { injector := { bounds := sampleBounds } } (.event {} sampleFinger)

/-- `release_all` ends the contact of the finger. -/
theorem batches_legal_sample : ∃ batch,
    Call.batch sampleDown.injector (.releaseAll {}) = some batch ∧ batch.length = 1 ∧
      batch.Legal sampleDown.contacts :=
  have hinit : Reachable { injector := { bounds := sampleBounds } } := .init ⟨sampleBounds, rfl⟩
  have hdown : Reachable sampleDown := .step (i := Call.event {} sampleFinger) hinit fun _ => rfl
  ⟨_, rfl, rfl, (batches_legal hdown).1 (.releaseAll {}) (fun _ => rfl) _ rfl⟩

end Tracked

end Injector
end Host
end SidecarDOS
