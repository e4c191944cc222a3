/-
# What a step does to the memory that is shared

A step of the driver leaves what its threads share alone (`Quiet`), begins a generation
(`Bump`), or is one of the steps that do something else: the second section of `arrive`, an
answer to `STATUS`, a registration, a pass of a worker, with a copy or without, and a
publication.
`step_effect` is the only place where the calls are taken apart.
-/

import SidecarDOS.Driver.Device

namespace SidecarDOS
namespace Driver

/-- What is the same of a worker, which may have ended since; or it has just been started. -/
def Worker.Known (workers : List Worker) (w : Worker) : Prop :=
  (∃ w' ∈ workers, w.shared = w'.shared ∧ w.localRevision = w'.localRevision) ∨
    (w.shared = fun _ => none) ∧ w.localRevision = 0

theorem Worker.known {workers : List Worker} {w : Worker} (h : w ∈ workers) : w.Known workers :=
  .inl ⟨w, h, rfl, rfl⟩

/-- Status, surfaces, textures and the answers are the same. -/
structure Quiet (s s' : State) : Prop where
  status : s'.device.status = s.device.status
  surfaces : s'.device.surfaces = s.device.surfaces
  surfaceRevision : s'.device.surfaceRevision = s.device.surfaceRevision
  publishing : s'.publishing = s.publishing
  textures : s'.textures = s.textures
  replies : s'.replies = s.replies
  workers : ∀ w ∈ s'.workers, w.Known s.workers

/-- A generation has begun, and no surfaces are registered for it. -/
structure Bump (s s' : State) : Prop where
  generation : s.device.status.generation < s'.device.status.generation
  surfaces : s'.device.surfaces = {}
  surfaceRevision : s'.device.surfaceRevision = s.device.surfaceRevision
  unlocked : s.publishing = none
  publishing : s'.publishing = none
  textures : s'.textures = s.textures
  replies : s'.replies = s.replies
  workers : s'.workers = s.workers

/-- What a step does; only a `SURFACES` registers, and only a pass copies. -/
inductive Effect (e : Event) (s s' : State) : Prop where
  | quiet (h : Quiet s s')
      (hrequest : ∀ fps, s'.request = some (.retime fps) → s.request = some (.retime fps))
  | bump (h : Bump s s')
  | retime (fps : UInt32) (h : s.request = some (.retime fps)) (hunlocked : s.publishing = none)
      (heq : s' = { s with device := s.device.retime fps, request := some .create })
  | reply (hrequest : s.request = none) (hunlocked : s.publishing = none)
      (heq : s' = { s with replies := s.replies ++ [s.device.status] })
  | register (r : Surfaces) (d : Device) (he : e = .surfaces r)
      (hrequest : s.request = none) (hunlocked : s.publishing = none)
      (h : s.device.register r = some d)
      (heq : s' = { s with device := d })
  | look (i : ℕ) (w : Worker) (p : Pass) (hw : s.workers[i]? = some w)
      (hunlocked : s.publishing = none) (heq : s' = s.look i w p)
  | copy (i : ℕ) (w : Worker) (p : Pass) (j : Fin 3) (name : SurfaceName) (c : Capture)
      (he : e = .pass i p) (hcopies : s.copies i p = some name)
      (hw : s.workers[i]? = some w) (hunlocked : s.publishing = none)
      (htarget : (w.look (s.device.resize w.luid p.width p.height) s.textures p).target
        s.textures p = some (j, name))
      (heq : s' = (s.look i w p).copy j name p c)
  | publish (i : Fin 3) (c : Capture) (h : s.publishing = some (i, c))
      (heq : s' = { s with device := s.device.publish i c, publishing := none })

variable {e : Event} {s s' : State}

theorem Quiet.refl (s : State) : Quiet s s :=
  ⟨rfl, rfl, rfl, rfl, rfl, rfl, fun _ hw => Worker.known hw⟩

/-- Only the monitor, the worker's registration, the adapter or the calls have changed. -/
theorem Quiet.of (hdevice : (s'.device.status, s'.device.surfaces, s'.device.surfaceRevision) =
    (s.device.status, s.device.surfaces, s.device.surfaceRevision))
    (hrest : (s'.publishing, s'.textures, s'.replies, s'.workers) =
      (s.publishing, s.textures, s.replies, s.workers)) : Quiet s s' := by
  simp only [Prod.mk.injEq] at hdevice hrest
  obtain ⟨hstatus, hsurfaces, hrevision⟩ := hdevice
  obtain ⟨hpublishing, htextures, hreplies, hworkers⟩ := hrest
  refine ⟨hstatus, hsurfaces, hrevision, hpublishing, htextures, hreplies, fun w hw => ?_⟩
  rw [hworkers] at hw
  exact Worker.known hw

theorem Effect.refl (s : State) : Effect e s s := .quiet (.refl s) fun _ h => h

/-- A section that waits does nothing. -/
theorem Effect.locked {s'' : State} (h : s.publishing = none → Effect e s s'') :
    Effect e s (s.locked s'') := by
  unfold State.locked
  split
  · exact .refl s
  · rename_i hn
    exact h (by simpa using hn)

theorem unlocked (h : ¬ s.publishing.isSome = true) : s.publishing = none := by
  simpa using h

namespace Device

variable {d d' : Device}

/-- A commit changes nothing, or begins a generation. -/
theorem commit_eq_or (d : Device) (paths : List Path) : d.commit paths = d ∨
    d.status.generation < (d.commit paths).status.generation ∧ (d.commit paths).surfaces = {} ∧
      (d.commit paths).surfaceRevision = d.surfaceRevision := by
  have hpath (d : Device) (p : Path) : d.commitPath p = d ∨
      d.status.generation < (d.commitPath p).status.generation ∧ (d.commitPath p).surfaces = {} ∧
        (d.commitPath p).surfaceRevision = d.surfaceRevision := by
    unfold commitPath
    dsimp only
    split_ifs
    · exact .inr ⟨Nat.lt_succ_self _, rfl, rfl⟩
    · exact .inl rfl
    · exact .inl rfl
  unfold commit
  induction paths generalizing d with
  | nil => exact .inl rfl
  | cons p ps ih =>
    rw [List.foldl_cons]
    rcases hpath d p with heq | ⟨hlt, hsurfaces, hrevision⟩
    · rw [heq]
      exact ih d
    · rcases ih (d.commitPath p) with heq' | ⟨hlt', hsurfaces', hrevision'⟩
      · rw [heq']
        exact .inr ⟨hlt, hsurfaces, hrevision⟩
      · exact .inr ⟨hlt.trans hlt', hsurfaces', hrevision'.trans hrevision⟩

theorem register_eq_some {r : Surfaces} (h : d.register r = some d') :
    r.generation = d.status.generation ∧
      d' = { d with surfaces := r, surfaceRevision := d.surfaceRevision + 1 } := by
  unfold register at h
  split_ifs at h with hvalid
  exact ⟨hvalid.2.1, (Option.some.inj h).symm⟩

end Device

namespace State

theorem surfaces_eq_some {s : State} {r : Surfaces} {ok : Bool} (h : s.surfaces r = some (ok, s')) :
    s.request = none ∧ s.publishing = none ∧
      ((∃ d, ok = true ∧ s.device.register r = some d ∧ s' = { s with device := d }) ∨
        ok = false ∧ s' = s) := by
  unfold surfaces at h
  split_ifs at h with hlocks
  obtain ⟨hrequest, hpublishing⟩ : s.request = none ∧ s.publishing = none := by
    simpa [not_or] using hlocks
  refine ⟨hrequest, hpublishing, ?_⟩
  cases hregister : s.device.register r with
  | none =>
    rw [hregister] at h
    cases h
    exact .inr ⟨rfl, rfl⟩
  | some d =>
    rw [hregister] at h
    cases h
    exact .inl ⟨d, rfl, rfl, rfl⟩

theorem surfaces_effect {s : State} {r : Surfaces} {ok : Bool} (h : s.surfaces r = some (ok, s')) :
    Effect (.surfaces r) s s' := by
  obtain ⟨hrequest, hpublishing, ⟨d, -, hregister, heq⟩ | ⟨-, heq⟩⟩ := surfaces_eq_some h
  · exact .register r d rfl hrequest hpublishing hregister heq
  · rw [heq]
    exact .refl s

theorem surfaces_status {s : State} {r : Surfaces} {ok : Bool} (h : s.surfaces r = some (ok, s')) :
    s'.device.status = s.device.status := by
  obtain ⟨-, -, ⟨d, -, hregister, rfl⟩ | ⟨-, heq⟩⟩ := surfaces_eq_some h
  · obtain ⟨-, rfl⟩ := Device.register_eq_some hregister
    rfl
  · rw [heq]

theorem stopWorker_quiet (s : State) (p : Stopping) :
    Quiet s (s.stopWorker p).1 ∧ (s.stopWorker p).1.request = s.request := by
  cases p with
  | take expected =>
    dsimp only [stopWorker]
    split
    · exact ⟨.refl s, rfl⟩
    · split
      · exact ⟨.refl s, rfl⟩
      · split
        · exact ⟨.of rfl rfl, rfl⟩
        · exact ⟨.refl s, rfl⟩
  | join i =>
    dsimp only [stopWorker]
    split <;> exact ⟨.refl s, rfl⟩

/-- Every section of `depart` but the last leaves everything alone. -/
theorem depart_effect (s : State) (p : Departing) :
    ((s.depart p).2.isSome = true ∧ Quiet s (s.depart p).1 ∧
      (s.depart p).1.request = s.request) ∨
      (s.depart p).2 = none ∧ Bump s (s.depart p).1 := by
  cases p with
  | take =>
    dsimp only [depart]
    split
    · exact .inl ⟨rfl, .refl s, rfl⟩
    · exact .inl ⟨rfl, .of rfl rfl, rfl⟩
  | stop p =>
    have hstop := s.stopWorker_quiet p
    dsimp only [depart]
    generalize s.stopWorker p = r at hstop ⊢
    rcases r with ⟨s', _ | p'⟩ <;> exact .inl ⟨rfl, hstop⟩
  | leave =>
    dsimp only [depart]
    split
    · exact .inl ⟨rfl, .refl s, rfl⟩
    · rename_i h
      exact .inr ⟨rfl, Nat.lt_succ_self _, rfl, rfl, unlocked h, unlocked h, rfl, rfl, rfl⟩

theorem advance_effect (s : State) (a : Answer) : Effect e s (s.advance a) := by
  have hcreate (r : Option Request) (hr : ∀ fps, r ≠ some (.retime fps)) :
      Effect e s { s with request := r } :=
    .quiet (.of rfl rfl) fun fps h => absurd h (hr fps)
  unfold advance
  split
  · exact .refl s
  · rename_i p fps hrequest
    have hdepart := s.depart_effect p
    generalize s.depart p = r at hdepart ⊢
    rcases r with ⟨s', _ | p'⟩
    · rcases hdepart with ⟨h, -⟩ | ⟨-, h⟩
      · exact absurd h Bool.false_ne_true
      · exact .bump ⟨h.generation, h.surfaces, h.surfaceRevision, h.unlocked, h.publishing,
          h.textures, h.replies, h.workers⟩
    · rcases hdepart with ⟨-, h, -⟩ | ⟨h, -⟩
      · exact .quiet ⟨h.status, h.surfaces, h.surfaceRevision, h.publishing, h.textures, h.replies,
          h.workers⟩ nofun
      · exact nomatch h
  · rename_i fps hrequest
    exact .locked fun h => .retime fps hrequest h rfl
  · refine hcreate _ fun fps h => ?_
    rcases ham : a.monitor with _ | m
    · rw [ham] at h
      exact nomatch h
    · rw [ham] at h
      exact nomatch h
  · exact .locked fun _ => .quiet (.of rfl rfl) nofun
  · split
    · exact hcreate none nofun
    · exact .locked fun _ => .quiet (.of rfl rfl) nofun

/-- What a call does that does not hold `requests`. -/
theorem callStep_effect (s : State) (a : Answer) (c : Call) :
    (Quiet s (s.callStep a c).1 ∧ (s.callStep a c).1.request = s.request) ∨
      Bump s (s.callStep a c).1 := by
  have hwaits : Quiet s s ∧ s.request = s.request := ⟨.refl s, rfl⟩
  cases c with
  | cleanup p =>
    have hdepart := s.depart_effect p
    dsimp only [callStep]
    generalize s.depart p = r at hdepart ⊢
    rcases r with ⟨s', _ | p'⟩
    · rcases hdepart with ⟨h, -⟩ | ⟨-, h⟩
      · exact absurd h Bool.false_ne_true
      · exact .inr h
    · rcases hdepart with ⟨-, h⟩ | ⟨h, -⟩
      · exact .inl h
      · exact nomatch h
  | unassign p =>
    have hstop := s.stopWorker_quiet p
    dsimp only [callStep]
    generalize s.stopWorker p = r at hstop ⊢
    rcases r with ⟨s', _ | p'⟩ <;> exact .inl hstop
  | assign m luid p =>
    have hstop := s.stopWorker_quiet p
    dsimp only [callStep]
    generalize s.stopWorker p = r at hstop ⊢
    rcases r with ⟨s', _ | p'⟩ <;> exact .inl hstop
  | reset m luid =>
    dsimp only [callStep]
    split
    · exact .inl hwaits
    · rename_i h
      exact .inr ⟨Nat.lt_succ_self _, rfl, rfl, unlocked h, unlocked h, rfl, rfl, rfl⟩
  | construct m luid =>
    dsimp only [callStep]
    split
    · refine .inl ⟨⟨rfl, rfl, rfl, rfl, rfl, rfl, fun w hw => ?_⟩, rfl⟩
      rcases List.mem_append.1 hw with hw | hw
      · exact Worker.known hw
      · rw [List.mem_singleton.1 hw]
        exact .inr ⟨rfl, rfl⟩
    · exact .inl hwaits
  | register m i =>
    dsimp only [callStep]
    split
    · exact .inl hwaits
    · split
      · exact .inl ⟨.of rfl rfl, rfl⟩
      · exact .inl hwaits
  | discard i =>
    dsimp only [callStep]
    split <;> exact .inl hwaits

/-- **A step of the driver.**  Every step of a request, of a callback or of a worker leaves
what they share alone, begins a generation, or is one of the steps that `Effect` lists. -/
theorem step_effect (s : State) (e : Event) : Effect e s (s.step e) := by
  have hsame {s' : State} (hquiet : Quiet s s') (hrequest : s'.request = s.request) :
      Effect e s s' := .quiet hquiet fun fps h => hrequest ▸ h
  have htakes (fps : Option UInt32) : Effect e s (s.takes (.depart .take fps)) := by
    unfold takes
    split
    · exact .refl s
    · exact .quiet (.of rfl rfl) nofun
  cases e with
  | adapterReady ok => exact hsame (.of rfl rfl) rfl
  | enterD0 ok =>
    show Effect _ s (ite _ _ _)
    split
    · exact hsame (.of rfl rfl) rfl
    · exact .refl s
  | exitD0 =>
    show Effect _ s (ite _ _ _)
    split
    · exact .refl s
    · exact .quiet (.of rfl rfl) nofun
  | start abi modes =>
    show Effect _ s (ite _ _ _)
    split
    · exact htakes _
    · exact .refl s
  | stop => exact htakes none
  | status =>
    dsimp only [step, status]
    split_ifs with h
    · exact .refl s
    · obtain ⟨hrequest, hpublishing⟩ : s.request = none ∧ s.publishing = none := by
        simpa [not_or] using h
      exact .reply hrequest hpublishing rfl
  | surfaces r =>
    show Effect _ s ((s.surfaces r).elim s Prod.snd)
    cases h : s.surfaces r with
    | none => exact .refl s
    | some answer => exact surfaces_effect h
  | advance a => exact s.advance_effect a
  | cleanup => exact hsame (.of rfl rfl) rfl
  | commit paths =>
    refine .locked fun h => ?_
    rcases s.device.commit_eq_or paths with heq | ⟨hlt, hsurfaces, hrevision⟩
    · rw [heq]
      exact .refl s
    · exact .bump ⟨hlt, hsurfaces, hrevision, h, h, rfl, rfl, rfl⟩
  | assign m luid => exact hsame (.of rfl rfl) rfl
  | unassign m => exact hsame (.of rfl rfl) rfl
  | call i a =>
    dsimp only [step]
    split
    · exact .refl s
    · rename_i c _
      have hcall := s.callStep_effect a c
      generalize s.callStep a c = r at hcall ⊢
      rcases r with ⟨s', _ | c'⟩
      all_goals
        rcases hcall with ⟨h, hrequest⟩ | h
        · exact hsame ⟨h.status, h.surfaces, h.surfaceRevision, h.publishing, h.textures,
            h.replies, h.workers⟩ hrequest
        · exact .bump ⟨h.generation, h.surfaces, h.surfaceRevision, h.unlocked, h.publishing,
            h.textures, h.replies, h.workers⟩
  | pass i p =>
    show Effect _ s (s.pass i p)
    unfold pass
    split
    · exact .refl s
    · rename_i w hw
      split
      · exact .refl s
      · refine .locked fun hunlocked => ?_
        dsimp only
        split
        · exact .look i w p hw hunlocked rfl
        · rename_i j name htarget
          refine .copy i w p j name _ rfl ?_ hw hunlocked htarget rfl
          unfold copies
          rw [hw]
          dsimp only
          rw [if_neg (by simp [*]), htarget]
          rfl
  | publish =>
    dsimp only [step]
    split
    · rename_i i c h
      exact .publish i c h rfl
    · exact .refl s
  | ended i =>
    dsimp only [step]
    split
    · rename_i w hw
      refine hsame ⟨rfl, rfl, rfl, rfl, rfl, rfl, fun w' hw' => ?_⟩ rfl
      rcases List.mem_or_eq_of_mem_set hw' with hw' | rfl
      · exact Worker.known hw'
      · exact .inl ⟨w, List.mem_of_getElem? hw, rfl, rfl⟩
    · exact .refl s

end State

end Driver
end SidecarDOS
