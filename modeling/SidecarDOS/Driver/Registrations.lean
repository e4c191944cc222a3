/-
# Registrations and the metadata of the slots

A generation that begins invalidates the registration and, with it, the metadata of the slots;
but `Commit` leaves the metadata, a new registration does too, and a worker keeps the textures
that it has opened until it finds a registration for the generation that it sees
(`metadata_stale`).  Where neither comes while a slot has metadata, and no worker finds a free
texture when there is no registration for the generation that it sees, the metadata are those of the last
registration (`metadata_current`).  `Ledger` is the driver with what it does not remember.
-/

import SidecarDOS.Driver.Handoff

namespace SidecarDOS
namespace Driver

open Library (Reaches Along)

/-- Surfaces that were registered: the revision, and the generation that they are for. -/
structure Registration where
  (revision generation : ℕ)
  deriving DecidableEq

structure Ledger where
  driver : State := {}
  /-- The generation that each revision is for. -/
  registered : ℕ → ℕ := fun _ => 0
  /-- The revision of the textures of the last copy. -/
  copied : ℕ := 0
  /-- The revision of the textures through which each slot was written. -/
  written : Fin 3 → ℕ := fun _ => 0
  /-- For every copy, the registration of its texture and the current one. -/
  copies : List (Registration × Registration) := []

/-- A step of the driver; or somebody creates textures, takes keys or releases them. -/
inductive Change where
  | driver (e : Event)
  | textures (textures : SurfaceName → Option Texture)

namespace State

variable (s : State)

/-- The last registration, if it is for the generation of the status. -/
def current : Registration := ⟨s.device.surfaceRevision, s.device.status.generation⟩

/-- The slot that is published. -/
def publishes : Event → Option (Fin 3)
  | .publish => s.publishing.map Prod.fst
  | _ => none

/-- The revision of the textures of the worker that copies. -/
def source : Event → Option ℕ
  | .pass i p => if (s.copies i p).isSome then
      ((s.pass i p).workers[i]?).map Worker.localRevision
    else none
  | _ => none

/-- No slot has metadata. -/
def Clear : Prop := ∀ i, ∀ c ∈ s.device.status.slots i, c.frame = 0

instance : Decidable s.Clear := inferInstanceAs (Decidable (∀ i : Fin 3, ∀ c ∈ s.device.status.slots i, _))

/-- The commit changes the frame rate. -/
def Retimes (paths : List Path) : Prop :=
  ∃ p ∈ paths, p.monitor = s.device.monitor ∧ p.denominator ≠ 0 ∧
    30 ≤ p.numerator / p.denominator ∧ p.numerator / p.denominator ≤ 60 ∧
      p.numerator / p.denominator ≠ s.device.status.fps

instance (paths : List Path) : Decidable (s.Retimes paths) :=
  inferInstanceAs (Decidable (∃ p ∈ paths, _))

/-- The checks of `SD_SURFACES`. -/
def Accepts (r : Surfaces) : Prop :=
  r.abi = 1 ∧ r.generation = s.device.status.generation ∧
    (List.finRange 3).all (fun i => (r.names i).valid) = true

instance (r : Surfaces) : Decidable (s.Accepts r) := inferInstanceAs (Decidable (_ ∧ _))

/-- The worker finds no registration for the generation that it sees. -/
def Void (w : Worker) (p : Pass) : Prop :=
  s.device.status.width ≠ p.width ∨ s.device.status.height ≠ p.height ∨
    s.device.status.luid ≠ w.luid ∨
      s.device.surfaces.generation ≠ s.device.status.generation

instance (w : Worker) (p : Pass) : Decidable (s.Void w p) := inferInstanceAs (Decidable (_ ∨ _))

end State

namespace Ledger

def registration (t : Ledger) (revision : ℕ) : Registration := ⟨revision, t.registered revision⟩

def step (t : Ledger) : Change → Ledger
  | .textures textures => { t with driver := { t.driver with textures := textures } }
  | .driver e =>
    let driver := t.driver.step e
    let registered :=
      if driver.device.surfaceRevision = t.driver.device.surfaceRevision then t.registered
      else Function.update t.registered driver.device.surfaceRevision
        driver.device.surfaces.generation
    { driver := driver
      registered := registered
      copied := (t.driver.source e).getD t.copied
      written := (t.driver.publishes e).elim t.written fun i =>
        Function.update t.written i t.copied
      copies := t.copies ++
        (t.driver.source e).toList.map fun r => (⟨r, registered r⟩, driver.current) }

/-- Every slot with metadata was written through a texture of the last registration, which is
for the generation of the status; and so was every copy made. -/
def Valid (t : Ledger) : Prop :=
  (∀ i c, t.driver.device.status.slots i = some c → c.frame ≠ 0 →
    t.registration (t.written i) = t.driver.current) ∧
      ∀ x ∈ t.copies, x.1 = x.2

/-- The metadata have been cleared when a commit changes the frame rate and when surfaces are
registered, and no worker finds a free texture when there is no registration for it. -/
def Orderly (t : Ledger) : Change → Prop
  | .driver (.commit paths) =>
    t.driver.publishing = none → t.driver.Retimes paths → t.driver.Clear
  | .driver (.surfaces r) => t.driver.request = none → t.driver.publishing = none →
    t.driver.Accepts r → t.driver.Clear
  | .driver (.pass i p) => ∀ w ∈ t.driver.workers[i]?, w.ended = false →
    t.driver.publishing = none → t.driver.Void w p →
      ∀ j, w.acquires t.driver.textures p j = false
  | _ => True

instance (t : Ledger) (c : Change) : Decidable (Orderly t c) := by
  unfold Orderly
  split <;> infer_instance

end Ledger

namespace Device

variable {d : Device}

/-- A commit that does not change the frame rate changes nothing; none clears a slot. -/
theorem commit_slots (d : Device) (paths : List Path) :
    (d.commit paths).status.slots = d.status.slots := by
  have hpath (d : Device) (p : Path) : (d.commitPath p).status.slots = d.status.slots := by
    unfold commitPath
    dsimp only
    split_ifs <;> rfl
  unfold commit
  induction paths generalizing d with
  | nil => rfl
  | cons p ps ih => rw [List.foldl_cons, ih, hpath]

theorem resize_slots (d : Device) (luid : Luid) (width height : UInt32) :
    d.resize luid width height = d ∨
      (d.resize luid width height).status.slots = fun _ => none := by
  unfold resize
  split
  · exact .inr rfl
  · exact .inl rfl

end Device

namespace State

variable {s s' : State}

theorem commit_eq {paths : List Path} (h : ¬ s.Retimes paths) :
    s.device.commit paths = s.device := by
  unfold Device.commit
  induction paths with
  | nil => rfl
  | cons p ps ih =>
    have hpath : s.device.commitPath p = s.device := by
      unfold Device.commitPath
      dsimp only
      split_ifs with hp hfps
      · exact absurd ⟨p, List.mem_cons_self .., hp.1, hp.2, hfps⟩ h
      · rfl
      · rfl
    rw [List.foldl_cons, hpath]
    exact ih fun ⟨p, hp, hrest⟩ => h ⟨p, List.mem_cons_of_mem _ hp, hrest⟩

/-- The generation and the metadata are the same, or there are none. -/
def Keeps (s s' : State) : Prop :=
  (s'.device.status.generation = s.device.status.generation ∧
    s'.device.status.slots = s.device.status.slots) ∨ s'.device.status.slots = fun _ => none

theorem Keeps.of_status (h : s'.device.status = s.device.status) : Keeps s s' :=
  .inl ⟨congrArg Status.generation h, congrArg Status.slots h⟩

theorem Keeps.refl (s : State) : Keeps s s := .of_status rfl

theorem stopWorker_keeps (s : State) (p : Stopping) : Keeps s (s.stopWorker p).1 :=
  .of_status (s.stopWorker_quiet p).1.status

theorem depart_keeps (s : State) (p : Departing) : Keeps s (s.depart p).1 := by
  cases p with
  | take =>
    dsimp only [depart]
    split <;> exact .of_status rfl
  | stop p =>
    have hstop := s.stopWorker_keeps p
    dsimp only [depart]
    generalize s.stopWorker p = r at hstop ⊢
    rcases r with ⟨s', _ | p'⟩ <;> exact hstop
  | leave =>
    dsimp only [depart]
    split
    · exact .of_status rfl
    · exact .inr rfl

theorem locked_keeps (h : Keeps s s') : Keeps s (s.locked s') := by
  unfold locked
  split
  · exact .of_status rfl
  · exact h

theorem advance_keeps (s : State) (a : Answer) : Keeps s (s.advance a) := by
  unfold advance
  split
  · exact .of_status rfl
  · rename_i p fps _
    have hdepart := s.depart_keeps p
    generalize s.depart p = r at hdepart ⊢
    rcases r with ⟨s', _ | p'⟩ <;> exact hdepart
  · exact locked_keeps (.inl ⟨rfl, rfl⟩)
  · exact .of_status rfl
  · exact locked_keeps (.of_status rfl)
  · split
    · exact .of_status rfl
    · exact locked_keeps (.of_status rfl)

theorem callStep_keeps (s : State) (a : Answer) (c : Call) : Keeps s (s.callStep a c).1 := by
  cases c with
  | cleanup p =>
    have hdepart := s.depart_keeps p
    dsimp only [callStep]
    generalize s.depart p = r at hdepart ⊢
    rcases r with ⟨s', _ | p'⟩ <;> exact hdepart
  | unassign p =>
    have hstop := s.stopWorker_keeps p
    dsimp only [callStep]
    generalize s.stopWorker p = r at hstop ⊢
    rcases r with ⟨s', _ | p'⟩ <;> exact hstop
  | assign m luid p =>
    have hstop := s.stopWorker_keeps p
    dsimp only [callStep]
    generalize s.stopWorker p = r at hstop ⊢
    rcases r with ⟨s', _ | p'⟩ <;> exact hstop
  | reset m luid =>
    dsimp only [callStep]
    split
    · exact .of_status rfl
    · exact .inr rfl
  | construct m luid =>
    dsimp only [callStep]
    split <;> exact .of_status rfl
  | register m i =>
    dsimp only [callStep]
    split
    · exact .of_status rfl
    · split <;> exact .of_status rfl
  | discard i =>
    dsimp only [callStep]
    split <;> exact .of_status rfl

theorem look_keeps (s : State) (i : ℕ) (w : Worker) (p : Pass) : Keeps s (s.look i w p) := by
  rcases s.device.resize_slots w.luid p.width p.height with heq | hslots
  · exact .of_status (congrArg Device.status heq)
  · exact .inr hslots

theorem pass_keeps (s : State) (i : ℕ) (p : Pass) : Keeps s (s.pass i p) := by
  unfold pass
  split
  · exact .of_status rfl
  · rename_i w _
    split
    · exact .of_status rfl
    · refine locked_keeps ?_
      dsimp only
      split
      · exact s.look_keeps i w p
      · exact s.look_keeps i w p

/-- Only a commit begins a generation and leaves metadata, and only a publication adds some. -/
theorem step_keeps (s : State) {e : Event} (hcommit : ∀ paths, e ≠ .commit paths)
    (hpublish : e ≠ .publish) : Keeps s (s.step e) := by
  have htakes (r : Request) : Keeps s (s.takes r) := by
    unfold takes
    split <;> exact .of_status rfl
  cases e with
  | adapterReady ok => exact .of_status rfl
  | enterD0 ok =>
    dsimp only [step]
    split <;> exact .of_status rfl
  | exitD0 =>
    dsimp only [step]
    split <;> exact .of_status rfl
  | start abi modes =>
    dsimp only [step]
    split
    · exact htakes _
    · exact .of_status rfl
  | stop => exact htakes _
  | status =>
    dsimp only [step]
    split <;> exact .of_status rfl
  | surfaces r =>
    dsimp only [step]
    cases h : s.surfaces r with
    | none => exact .of_status rfl
    | some answer => exact .of_status (surfaces_status h)
  | advance a => exact s.advance_keeps a
  | cleanup => exact .of_status rfl
  | commit paths => exact absurd rfl (hcommit paths)
  | assign m luid => exact .of_status rfl
  | unassign m => exact .of_status rfl
  | call i a =>
    dsimp only [step]
    split
    · exact .of_status rfl
    · rename_i c _
      have hcall := s.callStep_keeps a c
      generalize s.callStep a c = r at hcall ⊢
      rcases r with ⟨s', _ | c'⟩ <;> exact hcall
  | pass i p => exact s.pass_keeps i p
  | publish => exact absurd rfl hpublish
  | ended i =>
    dsimp only [step]
    split <;> exact .of_status rfl

theorem step_surfaceRevision (s : State) {e : Event} (h : ∀ r, e ≠ .surfaces r) :
    (s.step e).device.surfaceRevision = s.device.surfaceRevision := by
  cases s.step_effect e with
  | quiet hquiet _ => exact hquiet.surfaceRevision
  | bump hbump => exact hbump.surfaceRevision
  | retime fps _ _ heq => rw [heq]; rfl
  | reply _ _ heq => rw [heq]
  | register r d he _ _ _ _ => exact absurd he (h r)
  | look i w p _ _ heq => rw [heq]; exact Device.resize_surfaceRevision
  | copy i w p j name c _ _ _ _ _ heq => rw [heq]; exact Device.resize_surfaceRevision
  | publish i c _ heq => rw [heq]; rfl

/-- A pass does nothing, or looks at the registration, and then it may copy. -/
theorem pass_cases (s : State) (i : ℕ) (p : Pass) :
    (s.pass i p = s ∧ s.copies i p = none) ∨
      ∃ w, s.workers[i]? = some w ∧ w.ended = false ∧ s.publishing = none ∧
        ((s.pass i p = s.look i w p ∧ s.copies i p = none) ∨
          ∃ j name c, s.pass i p = (s.look i w p).copy j name p c ∧ s.copies i p = some name ∧
            (w.look (s.device.resize w.luid p.width p.height) s.textures p).target s.textures p =
              some (j, name)) := by
  unfold pass copies locked
  cases hw : s.workers[i]? with
  | none => exact .inl ⟨rfl, rfl⟩
  | some w =>
    dsimp only
    cases hended : w.ended with
    | true => exact .inl ⟨by simp, by simp⟩
    | false =>
      cases hpublishing : s.publishing with
      | some x => exact .inl ⟨by simp, by simp⟩
      | none =>
        refine .inr ⟨w, rfl, hended, rfl, ?_⟩
        cases htarget : (w.look (s.device.resize w.luid p.width p.height) s.textures p).target
            s.textures p with
        | none => exact .inl ⟨by simp, by simp⟩
        | some target =>
          obtain ⟨j, name⟩ := target
          exact .inr ⟨j, name, _, by simp; rfl, by simp, rfl⟩

end State

namespace Ledger

variable {t : Ledger} {s : State}

/-- A step that neither registers, copies nor publishes. -/
theorem step_eq (t : Ledger) {e : Event} (hsource : t.driver.source e = none)
    (hpublishes : t.driver.publishes e = none)
    (hrevision : (t.driver.step e).device.surfaceRevision = t.driver.device.surfaceRevision) :
    t.step (.driver e) = { t with driver := t.driver.step e } := by
  simp only [step, hsource, hpublishes, hrevision, ↓reduceIte, Option.getD_none,
    Option.elim_none, Option.toList_none, List.map_nil, List.append_nil]

/-- What holds in every state of the runs. -/
structure Kept (t : Ledger) : Prop where
  registered : t.driver.device.surfaces.generation = t.driver.device.status.generation →
    t.registered t.driver.device.surfaceRevision = t.driver.device.status.generation
  slots : ∀ i c, t.driver.device.status.slots i = some c → c.frame ≠ 0 →
    t.registration (t.written i) = t.driver.current
  publishing : t.driver.publishing ≠ none → t.registration t.copied = t.driver.current
  copies : ∀ x ∈ t.copies, x.1 = x.2

namespace Kept

theorem init : Kept {} := ⟨fun h => h, nofun, fun h => absurd rfl h, nofun⟩

/-- The registration is the same, and no metadata are new. -/
theorem same (h : Kept t)
    (hgeneration : s.device.status.generation = t.driver.device.status.generation)
    (hslots : ∀ i c, s.device.status.slots i = some c → t.driver.device.status.slots i = some c)
    (hsurfaces : s.device.surfaces = t.driver.device.surfaces)
    (hrevision : s.device.surfaceRevision = t.driver.device.surfaceRevision)
    (hpublishing : s.publishing ≠ none → t.driver.publishing ≠ none) :
    Kept { t with driver := s } := by
  have hcurrent : s.current = t.driver.current := by
    unfold State.current
    rw [hgeneration, hrevision]
  refine ⟨?_, fun i c hc hframe => ?_, fun hp => ?_, h.copies⟩
  · rw [hgeneration, hsurfaces, hrevision]
    exact h.registered
  · exact (h.slots i c (hslots i c hc) hframe).trans hcurrent.symm
  · exact (h.publishing (hpublishing hp)).trans hcurrent.symm

/-- The registration changes and no slot has metadata. -/
theorem renewed (h : Kept t) {registered : ℕ → ℕ}
    (hregistered : s.device.surfaces.generation = s.device.status.generation →
      registered s.device.surfaceRevision = s.device.status.generation)
    (hclear : s.Clear) (hpublishing : s.publishing = none) :
    Kept { t with driver := s, registered := registered } :=
  ⟨hregistered, fun i c hc hframe => absurd (hclear i c hc) hframe,
    fun hp => absurd hpublishing hp, h.copies⟩

theorem bump (h : Kept t) (hbump : Bump t.driver s) (hclear : s.Clear) :
    Kept { t with driver := s } := by
  refine h.renewed (fun hgeneration => ?_) hclear hbump.publishing
  have hlt := hbump.generation
  rw [← hgeneration, hbump.surfaces] at hlt
  exact absurd hlt (Nat.not_lt_zero _)

theorem look (h : Kept t) (hunlocked : t.driver.publishing = none) (i : ℕ) (w : Worker)
    (p : Pass) : Kept { t with driver := t.driver.look i w p } := by
  have hdevice : (t.driver.look i w p).device =
    t.driver.device.resize w.luid p.width p.height := rfl
  have hkeep (heq : t.driver.device.resize w.luid p.width p.height = t.driver.device) :
      Kept { t with driver := t.driver.look i w p } := by
    rw [heq] at hdevice
    exact h.same (by rw [hdevice]) (fun j c hc => by rwa [hdevice] at hc) (by rw [hdevice])
      (by rw [hdevice]) fun hp => hp
  rcases t.driver.device.resize_slots w.luid p.width p.height with heq | hslots
  · exact hkeep heq
  · rcases t.driver.device.resize_cases w.luid p.width p.height with
      ⟨heq, -⟩ | ⟨hgeneration, hsurfaces, -⟩
    · exact hkeep heq
    · refine h.renewed (fun hvalid => ?_) (fun j c hc => ?_) hunlocked
      · rw [hdevice, hsurfaces, hgeneration] at hvalid
        exact nomatch hvalid
      · rw [hdevice, hslots] at hc
        exact nomatch hc

/-- A worker that copies has opened the last registration, for the generation of the status. -/
theorem stamp (h : Kept t) {i : ℕ} {p : Pass} {w : Worker} {j : Fin 3} {name : SurfaceName}
    (horderly : t.driver.Void w p → ∀ j, w.acquires t.driver.textures p j = false)
    (htarget : (w.look (t.driver.device.resize w.luid p.width p.height) t.driver.textures
      p).target t.driver.textures p = some (j, name)) :
    t.registration (w.look (t.driver.device.resize w.luid p.width p.height) t.driver.textures
      p).localRevision = (t.driver.look i w p).current := by
  have hvalid : t.driver.device.resize w.luid p.width p.height = t.driver.device ∧
      t.driver.device.surfaces.generation = t.driver.device.status.generation ∧
        (w.look (t.driver.device.resize w.luid p.width p.height) t.driver.textures
          p).localRevision = t.driver.device.surfaceRevision := by
    rcases w.look_cases (t.driver.device.resize w.luid p.width p.height) t.driver.textures p with
      ⟨hshared, hrevision, hopened⟩ | ⟨hgeneration, hrevision, -⟩
    · -- the worker has kept its textures, and one of them is free
      have hacquires : w.acquires t.driver.textures p j = true := by
        have hlook := (Worker.target_eq_some htarget).1
        unfold Worker.acquires at hlook ⊢
        rwa [hshared] at hlook
      have hnot : ¬ t.driver.Void w p := fun hvoid =>
        Bool.false_ne_true ((horderly hvoid j).symm.trans hacquires)
      simp only [State.Void, not_or, not_not] at hnot
      obtain ⟨hwidth, hheight, hluid, hgeneration⟩ := hnot
      have hresize : t.driver.device.resize w.luid p.width p.height = t.driver.device := by
        unfold Device.resize
        rw [if_neg (by simp [hwidth, hheight, hluid])]
      rw [hresize] at hopened hrevision ⊢
      refine ⟨rfl, hgeneration, hrevision.trans ?_⟩
      exact hopened.resolve_right (not_not.2 hgeneration)
    · rcases t.driver.device.resize_cases w.luid p.width p.height with
        ⟨heq, -⟩ | ⟨hnext, hsurfaces, -⟩
      · rw [heq] at hgeneration hrevision ⊢
        exact ⟨rfl, hgeneration, hrevision⟩
      · rw [hsurfaces, hnext] at hgeneration
        exact nomatch hgeneration
  obtain ⟨hdevice, hgeneration, hrevision⟩ := hvalid
  have hcurrent : (t.driver.look i w p).current = t.driver.current := by
    show State.current { t.driver with
      device := t.driver.device.resize w.luid p.width p.height, workers := _ } = _
    rw [hdevice]
    rfl
  rw [hcurrent, hrevision, registration, h.registered hgeneration]
  rfl

theorem pass (h : Kept t) (i : ℕ) (p : Pass) (horderly : Orderly t (.driver (.pass i p))) :
    Kept (t.step (.driver (.pass i p))) := by
  have hrevision : (t.driver.pass i p).device.surfaceRevision =
      t.driver.device.surfaceRevision := t.driver.step_surfaceRevision (e := .pass i p) nofun
  unfold step State.publishes State.source State.step
  dsimp only
  rw [if_pos hrevision]
  rcases t.driver.pass_cases i p with
    ⟨heq, hcopies⟩ | ⟨w, hw, hended, hunlocked, ⟨heq, hcopies⟩ | ⟨j, name, c, heq, hcopies, htarget⟩⟩
  · simp only [heq, hcopies, Option.isSome_none, Bool.false_eq_true, ↓reduceIte,
      Option.getD_none, Option.toList_none, List.map_nil, List.append_nil, Option.elim_none]
    exact h
  · simp only [heq, hcopies, Option.isSome_none, Bool.false_eq_true, ↓reduceIte,
      Option.getD_none, Option.toList_none, List.map_nil, List.append_nil, Option.elim_none]
    exact h.look hunlocked i w p
  · have hlook := h.look hunlocked i w p
    have hstamp := h.stamp (i := i) (horderly w hw hended hunlocked) htarget
    have hworker : ((t.driver.look i w p).copy j name p c).workers[i]? =
        some (w.look (t.driver.device.resize w.luid p.width p.height) t.driver.textures p) := by
      obtain ⟨hi, -⟩ := List.getElem?_eq_some_iff.1 hw
      exact List.getElem?_set_self hi
    simp only [heq, hcopies, Option.isSome_some, ↓reduceIte, hworker, Option.map_some,
      Option.getD_some, Option.toList_some, List.map_cons, List.map_nil, Option.elim_none]
    refine ⟨hlook.registered, hlook.slots, fun _ => hstamp, fun x hx => ?_⟩
    rcases List.mem_append.1 hx with hx | hx
    · exact h.copies x hx
    · rw [List.mem_singleton.1 hx]
      exact hstamp

theorem publish (h : Kept t) : Kept (t.step (.driver .publish)) := by
  unfold step State.publishes State.source State.step
  dsimp only
  cases hpublishing : t.driver.publishing with
  | none => simpa using h
  | some x =>
    obtain ⟨i, c⟩ := x
    have hstamp := h.publishing (by rw [hpublishing]; exact nofun)
    simp only [Device.publish, ↓reduceIte, Option.getD_none, Option.map_some, Option.elim_some,
      Option.toList_none, List.map_nil, List.append_nil]
    refine ⟨h.registered, fun j c' hc hframe => ?_, fun hp => absurd rfl hp, h.copies⟩
    dsimp only at hc ⊢
    by_cases hj : j = i
    · subst hj
      rw [Function.update_self]
      exact hstamp
    · rw [Function.update_of_ne hj] at hc ⊢
      exact h.slots j c' hc hframe

theorem commit (h : Kept t) (paths : List Path)
    (horderly : Orderly t (.driver (.commit paths))) :
    Kept { t with driver := t.driver.step (.commit paths) } := by
  unfold State.step State.locked
  dsimp only
  split
  · exact h
  · rename_i hlocked
    have hunlocked := unlocked hlocked
    rcases t.driver.device.commit_eq_or paths with heq | ⟨hlt, hsurfaces, hrevision⟩
    · rw [heq]
      exact h
    · have hretimes : t.driver.Retimes paths := by
        by_contra hnot
        rw [State.commit_eq hnot] at hlt
        exact absurd hlt (lt_irrefl _)
      refine h.bump ⟨hlt, hsurfaces, hrevision, hunlocked, hunlocked, rfl, rfl, rfl⟩
        fun i c hc => horderly hunlocked hretimes i c ?_
      rwa [← t.driver.device.commit_slots paths]

theorem surfaces (h : Kept t) (r : Surfaces) (horderly : Orderly t (.driver (.surfaces r))) :
    Kept (t.step (.driver (.surfaces r))) := by
  have hstep : t.driver.step (.surfaces r) = (t.driver.surfaces r).elim t.driver Prod.snd := rfl
  have hrefused (heq : t.driver.step (.surfaces r) = t.driver) :
      Kept (t.step (.driver (.surfaces r))) := by
    rw [t.step_eq rfl rfl (congrArg (·.device.surfaceRevision) heq), heq]
    exact h
  cases hanswer : t.driver.surfaces r with
  | none => exact hrefused (hstep.trans (by rw [hanswer]; rfl))
  | some answer =>
    obtain ⟨ok, s⟩ := answer
    have heq : t.driver.step (.surfaces r) = s := hstep.trans (by rw [hanswer]; rfl)
    obtain ⟨hrequest, hunlocked, ⟨d, -, hregister, rfl⟩ | ⟨-, rfl⟩⟩ :=
      State.surfaces_eq_some hanswer
    · have haccepts : t.driver.Accepts r := by
        unfold Device.register at hregister
        split_ifs at hregister with hvalid
        exact hvalid
      obtain ⟨hgeneration, rfl⟩ := Device.register_eq_some hregister
      simp only [step, heq, State.source, State.publishes, Option.getD_none, Option.elim_none,
        Option.toList_none, List.map_nil, List.append_nil, Nat.add_eq_left, one_ne_zero,
        ↓reduceIte]
      refine h.renewed (fun _ => ?_) (horderly hrequest hunlocked haccepts) hunlocked
      dsimp only
      rw [Function.update_self]
      exact hgeneration
    · exact hrefused heq

/-- A step that is neither a pass, a publication, a registration nor a commit. -/
theorem other (h : Kept t) {e : Event} (hpass : ∀ i p, e ≠ .pass i p) (hpublish : e ≠ .publish)
    (hsurfaces : ∀ r, e ≠ .surfaces r) (hcommit : ∀ paths, e ≠ .commit paths) :
    Kept { t with driver := t.driver.step e } := by
  have hslots : ∀ i c, (t.driver.step e).device.status.slots i = some c →
      t.driver.device.status.slots i = some c := by
    intro i c hc
    rcases t.driver.step_keeps hcommit hpublish with ⟨-, hslots⟩ | hslots
    · rwa [hslots] at hc
    · rw [hslots] at hc
      exact nomatch hc
  have hkeeps := t.driver.step_keeps hcommit hpublish
  have heffect := t.driver.step_effect e
  generalize t.driver.step e = s at hslots hkeeps heffect ⊢
  cases heffect with
  | quiet hquiet _ =>
    exact h.same (congrArg Status.generation hquiet.status) hslots hquiet.surfaces
      hquiet.surfaceRevision (hquiet.publishing ▸ fun hp => hp)
  | bump hbump =>
    refine h.bump hbump fun i c hc => ?_
    rcases hkeeps with ⟨hgeneration, -⟩ | hnone
    · exact absurd hgeneration hbump.generation.ne'
    · rw [hnone] at hc
      exact nomatch hc
  | retime fps _ _ heq => subst heq; exact h.same rfl hslots rfl rfl fun hp => hp
  | reply _ _ heq => subst heq; exact h.same rfl hslots rfl rfl fun hp => hp
  | register r d he _ _ _ _ => exact absurd he (hsurfaces r)
  | look i w p _ hunlocked heq => subst heq; exact h.look hunlocked i w p
  | copy i w p j name c he _ _ _ _ _ => exact absurd he (hpass i p)
  | publish i c _ heq => subst heq; exact h.same rfl hslots rfl rfl fun hp => absurd rfl hp

theorem step (h : Kept t) (c : Change) (horderly : Orderly t c) : Kept (t.step c) := by
  have hother {e : Event} (hpass : ∀ i p, e ≠ .pass i p) (hpublish : e ≠ .publish)
      (hsurfaces : ∀ r, e ≠ .surfaces r) (hcommit : ∀ paths, e ≠ .commit paths)
      (hquiet : t.driver.source e = none ∧ t.driver.publishes e = none) :
      Kept (t.step (.driver e)) := by
    rw [t.step_eq hquiet.1 hquiet.2 (t.driver.step_surfaceRevision hsurfaces)]
    exact h.other hpass hpublish hsurfaces hcommit
  cases c with
  | textures f => exact h.same rfl (fun _ _ hc => hc) rfl rfl fun hp => hp
  | driver e =>
    cases e with
    | pass i p => exact h.pass i p horderly
    | publish => exact h.publish
    | surfaces r => exact h.surfaces r horderly
    | commit paths =>
      rw [t.step_eq rfl rfl (t.driver.step_surfaceRevision (e := .commit paths) nofun)]
      exact h.commit paths horderly
    | _ => exact hother nofun nofun nofun nofun ⟨rfl, rfl⟩

end Kept

/-- **The metadata are those of the last registration**, and every copy goes to a texture of
the registration that is valid, in every run of requests, callbacks and workers in which
the metadata have been cleared when a commit changes the frame rate and when surfaces are
registered, and no worker finds a free texture when there is no registration for it. -/
theorem metadata_current (h : Reaches step (· = {}) Orderly t) : t.Valid := by
  have hkept : Kept t := by
    refine h.invariant (I := Kept) ?_ fun _ c hs horderly => hs.step c horderly
    rintro s rfl
    exact .init
  exact ⟨hkept.slots, hkept.copies⟩

/-- The textures that a host creates. -/
def sampleTextures (key : Id16) : SurfaceName → Option Texture
  | .surface key' _ => if key' = key then some { width := 1920, height := 1080 } else none
  | _ => none

/-- A host registers surfaces for the generation of the status, and the worker fills the first
slot. -/
def sampleFilled : List Change :=
  (Display.sampleArrival.map .driver) ++ [.textures (sampleTextures (Display.sampleKey 1)),
    .driver (.surfaces ⟨1, 3, .surface (Display.sampleKey 1)⟩),
    .driver (.pass 0 { width := 1920, height := 1080, captureUs := 10 }), .driver .publish]

def sampleLedger : Ledger := sampleFilled.foldl step {}

/-- The hypothesis of `metadata_current` is satisfiable: the first slot has metadata of the first
registration, which is for the third generation. -/
theorem metadata_current_sample : sampleLedger.written 0 = 1 ∧
    sampleLedger.driver.device.status.slots 0 = some ⟨0, 2, 10⟩ ∧
      sampleLedger.driver.current = ⟨1, 3⟩ ∧ sampleLedger.Valid := by
  have hinit : Reaches step (· = {}) Orderly ({} : Ledger) := .init rfl
  have horderly : Along step Orderly {} sampleFilled := by decide
  exact ⟨by decide, by decide, by decide, metadata_current (hinit.along horderly)⟩

/-- The property fails: a commit changes the frame rate, and the first slot keeps its metadata
in the generation that begins. -/
theorem metadata_stale : ¬ ∀ t, Reaches step (· = {}) (fun _ _ => True) t → t.Valid := by
  intro h
  have hinit : Reaches step (· = {}) (fun _ _ => True) ({} : Ledger) := .init rfl
  have hsteps : Along step (fun _ _ => True) {}
      (sampleFilled ++ [.driver (.commit [⟨some 7, 30, 1⟩])]) := by decide
  have hslot := (h _ (hinit.along hsteps)).1 0 ⟨0, 2, 10⟩ (by decide) (by decide)
  exact absurd hslot (by decide)

end Ledger

end Driver
end SidecarDOS
