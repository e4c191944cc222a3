/-
# The reservation of the display

The state of the pipeline thread reserves the display: for the device that
streams, and after a disconnect for the same device until the grace period is
over.  A `Connect` of another device is refused.  But `accepts` does not look at
the deadline, and every refusal is an error of the operation, so that the error
path takes the reservation and the monitor away from the device that has them
(`refusal_departs`).  The display stays reserved exactly where nothing is refused
(`display_reserved`).
-/

import SidecarDOS.Host.Turns
import SidecarDOS.Library.Runs

namespace SidecarDOS
namespace Host

open Library (Reaches Ends Within exec exec_bind ends_pure ends_bind ends_get ends_modify ends_demand)

/-- Without a handle of the driver there is no monitor and no session. -/
def Pipeline.Attached (s : Pipeline) : Prop :=
  s.stopped = false → s.driver = false → s.monitor = none ∧ s.state = .idle

/-- The handle stays open and attached, the thread in its loop, and the bitrate as it is. -/
structure Pipeline.Holds (s s' : Pipeline) : Prop where
  attached : s.Attached → s'.Attached
  driver : s.driver = true → s'.driver = true
  stopped : s'.stopped = s.stopped
  bitrate : s'.bitrate = s.bitrate

instance : Std.Refl Pipeline.Holds := ⟨fun _ => ⟨id, id, rfl, rfl⟩⟩

instance : IsTrans Pipeline Pipeline.Holds :=
  ⟨fun _ _ _ h h' => ⟨h'.attached ∘ h.attached, h'.driver ∘ h.driver, h'.stopped.trans h.stopped,
    h'.bitrate.trans h.bitrate⟩⟩

namespace Pipeline

variable {s s' : Pipeline}

/-- Nothing that belongs to the handle changes. -/
theorem Holds.same (h : (s'.stopped, s'.driver, s'.monitor, s'.state, s'.bitrate) =
    (s.stopped, s.driver, s.monitor, s.state, s.bitrate)) : Holds s s' := by
  simp only [Prod.mk.injEq] at h
  obtain ⟨hstopped, hdriver, hmonitor, hstate, hbitrate⟩ := h
  refine ⟨fun h => ?_, fun h => hdriver.trans h, hstopped, hbitrate⟩
  unfold Attached
  rw [hstopped, hdriver, hmonitor, hstate]
  exact h

theorem Same.holds (h : Same s s') : Holds s s' := by
  refine .same ?_
  rw [h.stopped, h.driver, h.monitor, h.state, h.bitrate]

theorem attached_of_driver (h : s.driver = true) : s.Attached :=
  fun _ hnone => absurd (h.symm.trans hnone) Bool.noConfusion

end Pipeline

namespace Op

open Pipeline (Same Holds attached_of_driver)

variable {α : Type}

/-- A part of the body other than the check of `Connect`: it does not fail like that
check, and it keeps the handle. -/
abbrev Minds (m : Op α) (s : Pipeline) : Prop := Within Holds (· ≠ reserved) m s

variable {s : Pipeline}

theorem Minds.call (ok : Bool) : Minds (call ok) s := .demand nofun

/-- `start` changes the monitor alone. -/
theorem start_minds (t : Turn) (device : Id16) (modes : List DisplayMode) :
    Minds (start t device modes) s := by
  unfold start
  refine .get_bind (.demand_bind (by decide) fun hdriver => .demand_bind (by decide) fun _ => ?_)
  exact (Within.modify ⟨fun _ => attached_of_driver hdriver, id, rfl, rfl⟩).bind fun _ _ _ =>
    .demand (by decide)

theorem stop_minds (t : Turn) : Minds (stop t) s := by
  unfold stop
  refine .get_bind (.ite (fun _ => (Minds.call _).bind fun _ s' _ => .modify ⟨fun h => ?_, id, rfl, rfl⟩)
    fun _ => .pure _)
  exact fun hstopped hdriver => ⟨rfl, (h hstopped hdriver).2⟩

/-- The session is over. -/
theorem idle_minds : Minds (modify fun s => { s with state := .idle } : Op PUnit) s :=
  .modify ⟨fun h hstopped hdriver => ⟨(h hstopped hdriver).1, rfl⟩, id, rfl, rfl⟩

theorem expire_minds (t : Turn) : Minds (expire t) s := by
  unfold expire
  exact .get_bind (.ite (fun _ => (stop_minds t).bind fun _ _ _ => idle_minds) fun _ => .pure _)

theorem disconnect_minds (t : Turn) (immediate : Bool) : Minds (disconnect t immediate) s := by
  unfold disconnect
  refine (Within.modify (.same rfl)).bind fun _ _ _ => .ite (fun _ => ?_)
    fun _ => .modify ⟨fun h hstopped hdriver => ?_, id, rfl, rfl⟩
  · exact (stop_minds t).bind fun _ _ _ => idle_minds
  · obtain ⟨hmonitor, hstate⟩ := h hstopped hdriver
    exact ⟨hmonitor, by simp only [hstate, SessionState.disconnect]⟩

theorem openDriver_spec (t : Turn) : Ends (openDriver t) s fun r s' =>
    ((∀ e, r = .error e → e ≠ reserved) ∧ Holds s s') ∧ (r = .ok () → s'.driver = true) := by
  unfold openDriver
  refine ends_bind.2 (ends_get.2 (.ite (fun hnone => ?_) fun hsome => ?_))
  · refine ends_bind.2 (ends_demand.2 ⟨fun _ => ends_modify.2 ⟨⟨nofun, ?_⟩, fun _ => rfl⟩,
      fun _ => ⟨⟨?_, Std.Refl.refl s⟩, nofun⟩⟩)
    · exact ⟨fun _ => attached_of_driver rfl, fun _ => rfl, rfl, rfl⟩
    · rintro _ ⟨⟩
      decide
  · exact ends_pure.2 ⟨⟨nofun, Std.Refl.refl s⟩, fun _ => not_not.1 hsome⟩

theorem adopt_minds (t : Turn) (device : Id16) (modes : List DisplayMode) (replaceMonitor : Bool)
    (hdriver : s.driver = true) : Minds (adopt t device modes replaceMonitor) s := by
  unfold adopt
  split
  · exact .throw (by decide)
  · exact .modify ⟨fun _ => attached_of_driver hdriver, id, rfl, rfl⟩

theorem connect_minds (t : Turn) {device : Id16} (modes : List DisplayMode)
    (h : s.state.accepts device = true) : Minds (connect t device modes) s := by
  unfold connect
  refine .get_bind (ends_bind.2 (ends_demand.2 ⟨fun _ => ?_, fun hn => absurd h hn⟩))
  refine Ends.bind (openDriver_spec t) (fun _ s₁ ⟨⟨_, hs₁⟩, hd₁⟩ => ?_) fun e _ ⟨⟨he, hs⟩, _⟩ =>
    ⟨fun _ heq => Except.error.inj heq ▸ he e rfl, hs⟩
  have hd₁ := hd₁ rfl
  generalize (decide (s.state = .idle ∨ modes ≠ s.previousModes)) = replaceMonitor
  have hrest : Minds (if replaceMonitor then start t device modes >>= fun _ =>
      adopt t device modes replaceMonitor else adopt t device modes replaceMonitor) s₁ :=
    .ite (fun _ => (start_minds t device modes).bind fun _ _ hs =>
      adopt_minds t device modes replaceMonitor (hs.driver hd₁)) fun _ =>
        adopt_minds t device modes replaceMonitor hd₁
  exact Ends.mono hrest fun _ _ ⟨he, hs⟩ => ⟨he, IsTrans.trans _ _ _ hs₁ hs⟩

theorem mode_minds (t : Turn) (m : DisplayModeChange) : Minds (mode t m) s := by
  unfold mode
  refine .demand_bind (by decide) fun _ => .get_bind (.demand_bind (by decide) fun _ => ?_)
  dsimp only
  refine .ite (fun _ => (Within.modify (.same rfl)).bind fun _ _ _ => ?_) fun _ => ?_
  · split
    · refine (start_minds t _ _).bind fun _ _ _ => ?_
      exact (Within.modify (.same rfl)).bind fun _ _ _ => .modify (.same rfl)
    · exact (Within.modify (.same rfl)).bind fun _ _ _ => .modify (.same rfl)
  · exact .modify (.same rfl)

/-- The one error of its kind comes from the check of `Connect`. -/
theorem handle_minds (t : Turn) (cmd : Option Command)
    (h : ∀ device modes, cmd = some (.connect device modes) → s.state.accepts device = true) :
    Minds (handle t cmd) s := by
  unfold handle
  split
  · exact .pure _
  · exact (connect_minds t _ (h _ _ rfl)).bind fun _ _ _ => .pure _
  · exact (disconnect_minds t _).bind fun _ _ _ => .pure _
  · refine .get_bind (.ite (fun _ => (Minds.call _).bind fun _ _ _ => .pure _) fun _ => .pure _)
  · exact (mode_minds t _).bind fun _ _ _ => .pure _
  · exact (Within.modify (.same rfl)).bind fun _ _ _ => .pure _
  · exact .pure _

theorem operation_minds (t : Turn) (cmd : Option Command)
    (h : ∀ device modes, cmd = some (.connect device modes) → s.state.accepts device = true) :
    Minds (operation t cmd) s := by
  unfold operation
  refine (handle_minds t cmd h).bind fun go _ _ => .ite (fun _ => .pure _) fun _ => ?_
  refine (expire_minds t).bind fun _ _ _ => .get_bind (.ite (fun _ => ?_) fun _ => .pure _)
  refine Within.bind ((reconcile_stays t).weaken (fun _ => Same.holds) fun _ => id) fun _ _ _ => ?_
  exact Within.bind ((stream_stays t).weaken (fun _ => Same.holds) fun _ => id) fun _ _ _ => .pure _

end Op

namespace Pipeline

variable {s : Pipeline} {t : Turn} {device : Id16} {modes : List DisplayMode}

/-- The thread refuses a `Connect`: the operation fails at its check. -/
def Refuses (s : Pipeline) (t : Turn) (device : Id16) (modes : List DisplayMode) : Prop :=
  (exec (Op.operation t (some (.connect device modes))) s).1 = .error reserved

/-- A refusal stops the operation before it does anything. -/
theorem exec_refused (h : s.state.accepts device = false) :
    exec (Op.operation t (some (.connect device modes))) s = (.error reserved, s) := by
  have hn : ¬ s.state.accepts device = true := by rw [h]; exact Bool.false_ne_true
  have hconnect : Ends (Op.connect t device modes) s fun r s' => r = .error reserved ∧ s' = s := by
    unfold Op.connect
    refine ends_bind.2 (ends_get.2 (ends_bind.2 (ends_demand.2 ⟨fun h => absurd h hn, fun _ => ?_⟩)))
    exact ⟨rfl, rfl⟩
  have hconnect : exec (Op.connect t device modes) s = (.error reserved, s) :=
    Prod.ext hconnect.1 hconnect.2
  rw [Op.operation, exec_bind, Op.handle, exec_bind, hconnect]

theorem refuses_iff : s.Refuses t device modes ↔ s.state.accepts device = false := by
  constructor
  · intro h
    by_contra haccepts
    refine (Op.operation_minds (s := s) t (some (.connect device modes)) ?_).1 reserved h rfl
    rintro _ _ ⟨⟩
    simpa using haccepts
  · intro h
    rw [Refuses, exec_refused h]

theorem turn_refused (h : s.Refuses t device modes) :
    s.turn t (some (.connect device modes)) = s.failed reserved := by
  rw [turn, exec_refused (refuses_iff.1 h)]

/-- A `Connect` is refused for the sake of a device that streams or that is still in its
grace period, and a refusal takes neither the reservation nor the monitor away. -/
structure Reserves (s : Pipeline) (t : Turn) (device : Id16) (modes : List DisplayMode) : Prop where
  only : s.Refuses t device modes → (∃ d, s.state = .streaming d) ∨
    ∃ d deadline, s.state = .grace d deadline ∧ d ≠ device ∧ t.now < deadline
  kept : s.Refuses t device modes →
    (s.turn t (some (.connect device modes))).state = s.state ∧
      (s.turn t (some (.connect device modes))).monitor = s.monitor

/-- **The display stays reserved exactly where nothing is refused**: in the idle state,
and in the grace period of the device that connects. -/
theorem display_reserved (s : Pipeline) (t : Turn) (device : Id16) (modes : List DisplayMode) :
    s.Reserves t device modes ↔
      s.state = .idle ∨ ∃ deadline, s.state = .grace device deadline := by
  have haccepts : s.state.accepts device = true ↔
      s.state = .idle ∨ ∃ deadline, s.state = .grace device deadline := by
    cases s.state <;> simp [SessionState.accepts]
  rw [← haccepts]
  constructor
  · intro h
    by_contra hn
    rw [Bool.not_eq_true] at hn
    have href : s.Refuses t device modes := refuses_iff.2 hn
    have hkept := (h.kept href).1
    rw [turn_refused href] at hkept
    rw [← hkept] at hn
    exact Bool.noConfusion hn
  · intro h
    have hn : ¬ s.Refuses t device modes := by
      rw [refuses_iff, h]
      exact Bool.noConfusion
    exact ⟨fun href => absurd href hn, fun href => absurd href hn⟩

/-! ### What a refusal does -/

/-- A thread that has just been spawned. -/
def Initial (s : Pipeline) : Prop :=
  ∃ config changed now, config.validate = .ok () ∧ s = spawn config changed now

theorem failed_attached (e : Error) (h : s.Attached) : (s.failed e).Attached := by
  intro hstopped _
  refine ⟨?_, rfl⟩
  show (if s.driver then none else s.monitor) = none
  split
  · rfl
  · rename_i hdriver
    exact (h hstopped (by simpa using hdriver)).1

/-- Every turn holds the handle up to the error path, or to the end of the loop. -/
theorem turn_holds (s : Pipeline) (t : Turn) (cmd : Option Command) : ∃ s', Holds s s' ∧
    (s.turn t cmd = s' ∨ s.turn t cmd = s'.shutdown ∨ ∃ e, s.turn t cmd = s'.failed e) := by
  by_cases href : ∃ device modes, cmd = some (.connect device modes) ∧ s.state.accepts device = false
  · obtain ⟨device, modes, rfl, href⟩ := href
    exact ⟨s, Std.Refl.refl s, .inr (.inr ⟨_, turn_refused (refuses_iff.2 href)⟩)⟩
  · have hminds := Op.operation_minds (s := s) t cmd fun device modes hcmd => by
      by_contra hn
      exact href ⟨device, modes, hcmd, by simpa using hn⟩
    refine ⟨_, hminds.out.2, ?_⟩
    unfold turn
    generalize exec (Op.operation t cmd) s = out
    obtain ⟨(e | _ | _), s'⟩ := out
    · exact .inr (.inr ⟨e, rfl⟩)
    · exact .inr (.inl rfl)
    · exact .inl rfl

theorem turn_attached (h : s.Attached) (t : Turn) (cmd : Option Command) :
    (s.turn t cmd).Attached := by
  obtain ⟨s', hs, hturn | hturn | ⟨e, hturn⟩⟩ := turn_holds s t cmd
  · exact hturn ▸ hs.attached h
  · rw [hturn]
    exact fun hstopped => nomatch hstopped
  · exact hturn ▸ failed_attached e (hs.attached h)

/-- Only others set the bitrate. -/
theorem turn_bitrate (s : Pipeline) (t : Turn) (cmd : Option Command) :
    (s.step (.turn t cmd)).bitrate = s.bitrate := by
  show (if s.stopped then s else s.turn t cmd).bitrate = _
  split
  · rfl
  · obtain ⟨s', hs, hturn | hturn | ⟨e, hturn⟩⟩ := turn_holds s t cmd
    · exact hturn ▸ hs.bitrate
    · exact hturn ▸ hs.bitrate
    · exact hturn ▸ hs.bitrate

theorem reaches_attached (h : Reaches step Initial (fun _ _ => True) s) : s.Attached := by
  refine h.invariant ?_ ?_
  · rintro _ ⟨_, _, _, -, rfl⟩ _ _
    exact ⟨rfl, rfl⟩
  · intro s a h _
    cases a with
    | turn t cmd =>
      show (if s.stopped then s else s.turn t cmd).Attached
      split
      · exact h
      · exact turn_attached h t cmd
    | keyframe => exact h
    | bitrate rate => exact h
    | displayChanged => exact h
    | event => exact h

/-- **A refusal gives the display away**: whoever streamed or was expected back, behind
the refusal the thread is idle, and the monitor and the handle are gone. -/
theorem refusal_departs (h : Reaches step Initial (fun _ _ => True) s) (hrunning : s.stopped = false)
    (href : s.Refuses t device modes) :
    (s.turn t (some (.connect device modes))).state = .idle ∧
      (s.turn t (some (.connect device modes))).monitor = none ∧
      (s.turn t (some (.connect device modes))).driver = false := by
  rw [turn_refused href]
  exact ⟨rfl, (failed_attached reserved (reaches_attached h) hrunning rfl).1, rfl⟩

/-! ### A late device -/

def sampleDevice (n : UInt8) : Id16 := ⟨List.replicate 16 n, List.length_replicate⟩

def sampleModes : List DisplayMode := [⟨1280, 720, 60, 100⟩]

/-- The driver answers, and no mode of the new monitor is set yet. -/
def sampleTurn (now : ℕ) : Turn where
  now := now
  status := some ⟨1, 0, 0, 60, fun _ => ⟨0, 0⟩⟩

/-- The first device connects and loses its connection after a second. -/
def sampleGrace : Pipeline :=
  [Activity.turn (sampleTurn 0) (some (.connect (sampleDevice 1) sampleModes)),
    .turn (sampleTurn 1000000) (some (.disconnect false))].foldl step (spawn {} false 0)

theorem sampleGrace_state : sampleGrace.state = .grace (sampleDevice 1) 5000000 := by
  decide +kernel

/-- The property fails when a second device connects 50 ms behind the end of the grace period,
before a tick has noticed the end: it is refused, and the monitor departs. -/
theorem reservation_lost : ¬ ∀ s, Reaches step Initial (fun _ _ => True) s →
    ∀ t device modes, s.Reserves t device modes := by
  intro h
  have hinit : Initial (spawn {} false 0) := ⟨{}, false, 0, by decide, rfl⟩
  have hgrace : Reaches step Initial (fun _ _ => True) sampleGrace :=
    (Reaches.init hinit).along ⟨trivial, trivial, trivial⟩
  have href : sampleGrace.Refuses (sampleTurn 5050000) (sampleDevice 2) sampleModes := by
    rw [refuses_iff, sampleGrace_state]
    decide
  obtain ⟨d, hd⟩ | ⟨d, deadline, hd, -, hnow⟩ := (h _ hgrace _ _ _).only href
  · rw [sampleGrace_state] at hd
    cases hd
  · rw [sampleGrace_state] at hd
    cases hd
    exact absurd hnow (by decide)

end Pipeline

end Host
end SidecarDOS
