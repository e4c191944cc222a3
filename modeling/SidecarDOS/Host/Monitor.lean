/-
# The host's picture of the monitor

A reconnect within the grace period does not start the driver again if the client's
modes are `previous_modes`: the thread takes these for the modes that the driver
has.  They are, as long as no mode change is handled in the grace period: that one
rewrites `previous_modes` and leaves the driver alone.  The input task of a session
that loses its stream makes it possible: its `Disconnect` is in the queue before a
mode change that `session` still reads (`picture_lost`).  In a run without it the
picture is right, and it is what makes the picture wrong (`pictures`).
-/

import SidecarDOS.Host.Teardown
import SidecarDOS.Host.Turns

namespace SidecarDOS
namespace Host

open Library (Reaches Along Ends Yields exec ends_pure ends_bind ends_get ends_modify ends_demand)

namespace Pipeline

variable {s s' : Pipeline} {t : Turn} {cmd : Option Command}

/-- The device for which the display is there. -/
def Holder (s : Pipeline) (d : Id16) : Prop :=
  s.state = .streaming d ∨ ∃ deadline, s.state = .grace d deadline

/-- The monitor that has arrived is the one of the session, with its modes. -/
def Pictured (s : Pipeline) : Prop :=
  ∀ d, s.Holder d → s.monitor = some ⟨d, timings s.previousModes⟩

/-- While the thread is in its loop, its picture of the monitor is right. -/
def Shown (s : Pipeline) : Prop := s.stopped = false → s.Pictured

/-- A mode change with another frame rate that is handled in the grace period. -/
def Late (s : Pipeline) (t : Turn) (m : DisplayModeChange) : Prop :=
  (∃ d deadline, s.state = .grace d deadline ∧ t.now < deadline) ∧ Op.Requests s m ∧ Op.Retimes s m

/-- No such mode change. -/
def Orderly (s : Pipeline) (a : Activity) : Prop :=
  ∀ t m, a = .turn t (some (.mode m)) → ¬ s.Late t m

theorem Holder.of_idle {d : Id16} (hs : s.state = .idle) : ¬ s.Holder d := by
  rintro (h | ⟨deadline, h⟩)
  · exact nomatch hs.symm.trans h
  · exact nomatch hs.symm.trans h

theorem pictured_of_idle (hs : s.state = .idle) : s.Pictured :=
  fun _ hd => absurd hd (Holder.of_idle hs)

theorem Pictured.same (hs : Same s s') (h : s.Pictured) : s'.Pictured := by
  intro d hd
  rw [hs.monitor, hs.previousModes]
  unfold Holder at hd
  rw [hs.state] at hd
  exact h d hd

theorem connect_pictured {device : Id16} {modes : List DisplayMode}
    (hs : Op.Connects device modes s s') (h : s.Pictured) : s'.Pictured := by
  intro d hd
  have hdevice : d = device := by
    rcases hd with hd | ⟨deadline, hd⟩
    · cases hs.state.symm.trans hd
      rfl
    · exact nomatch hs.state.symm.trans hd
  subst hdevice
  rw [hs.previousModes]
  rcases hs.monitor with ⟨-, hmonitor⟩ | ⟨⟨deadline, hgrace⟩, hmodes, hmonitor⟩
  · exact hmonitor
  · rw [hmonitor, hmodes]
    exact h d (.inr ⟨deadline, hgrace⟩)

theorem disconnect_pictured {grace : ℕ} (hstate : s'.state = s.state.disconnect t.now grace)
    (hmonitor : s'.monitor = s.monitor) (hmodes : s'.previousModes = s.previousModes)
    (h : s.Pictured) : s'.Pictured := by
  intro d hd
  rw [hmonitor, hmodes]
  refine h d ?_
  unfold Holder at hd
  rw [hstate] at hd
  cases hs : s.state with
  | idle =>
    rw [hs] at hd
    rcases hd with hd | ⟨deadline, hd⟩
    · exact nomatch hd
    · exact nomatch hd
  | streaming device =>
    rw [hs] at hd
    rcases hd with hd | ⟨deadline, hd⟩
    · exact nomatch hd
    · cases hd
      exact .inl hs
  | grace device until_ =>
    rw [hs] at hd
    rcases hd with hd | ⟨deadline, hd⟩
    · exact nomatch hd
    · cases hd
      exact .inr ⟨_, hs⟩

/-- In a session a mode change starts the driver with the new modes. -/
theorem mode_pictured {m : DisplayModeChange} (hs : Op.Modes m s s')
    (horderly : ¬ s.Late t m) (hexpired : s'.state.expired t.now = false) (h : s.Pictured) :
    s'.Pictured := by
  intro d hd
  have hholder : s.Holder d := by
    unfold Holder at hd ⊢
    rwa [hs.state] at hd
  by_cases hretimes : Op.Retimes s m
  · rcases hholder with hstreaming | ⟨deadline, hgrace⟩
    · exact (hs.streaming hretimes d hstreaming).2
    · rw [hs.state, hgrace] at hexpired
      have hnow : t.now < deadline := by simpa [SessionState.expired] using hexpired
      exact absurd ⟨⟨d, deadline, hgrace, hnow⟩, hs.requests, hretimes⟩ horderly
  · obtain ⟨hmodes, hmonitor⟩ := hs.kept hretimes
    rw [hmodes, hmonitor]
    exact h d hholder

theorem handle_pictured (horderly : s.Orderly (.turn t cmd)) (h : s.Pictured) :
    Yields (Op.handle t cmd) s fun _ s' => s'.state.expired t.now = false → s'.Pictured := by
  unfold Op.handle
  split
  · exact .pure fun _ => h
  · exact (Op.connect_yields _ _).bind fun _ _ hs => .pure fun _ => connect_pictured hs h
  · refine (Op.disconnect_yields _).bind fun _ _ hs => .pure fun _ => ?_
    rcases hs with hidle | ⟨hstate, hmonitor, hmodes⟩
    · exact pictured_of_idle hidle
    · exact disconnect_pictured hstate hmonitor hmodes h
  · refine .get_bind (.ite (fun _ => ?_) fun _ => .pure fun _ => h)
    exact .demand_bind fun _ => .pure fun _ => h
  · refine (Op.mode_yields _).bind fun _ _ hs => .pure fun hexpired => ?_
    exact mode_pictured hs (horderly t _ rfl) hexpired h
  · exact .modify_bind (.pure fun _ => h)
  · exact .pure fun _ => h

theorem turn_shown (horderly : s.Orderly (.turn t cmd)) (hrunning : s.stopped = false)
    (h : s.Shown) : (s.turn t cmd).Shown :=
  turn_keeps (fun _ => pictured_of_idle) (fun _ _ => .same) (handle_pictured horderly (h hrunning))

theorem step_shown (h : s.Shown) (a : Activity) (horderly : s.Orderly a) : (s.step a).Shown := by
  cases a with
  | turn t cmd =>
    show (if s.stopped then s else s.turn t cmd).Shown
    split
    · exact h
    · rename_i hrunning
      exact turn_shown horderly (Bool.eq_false_iff.2 hrunning) h
  | keyframe => exact h
  | bitrate rate => exact h
  | displayChanged => exact h
  | event => exact h

/-! ### A mode change in the grace period -/

/-- It rewrites the modes and leaves the rest alone. -/
theorem turn_late {m : DisplayModeChange} (h : s.Late t m) :
    (s.turn t (some (.mode m))).stopped = s.stopped ∧
      (s.turn t (some (.mode m))).state = s.state ∧
      (s.turn t (some (.mode m))).monitor = s.monitor ∧
      (s.turn t (some (.mode m))).previousModes = retimed s.previousModes m.fps := by
  obtain ⟨⟨d, deadline, hgrace, hnow⟩, ⟨hrange, hadvertised⟩, hretimes⟩ := h
  have hexpired : s.state.expired t.now = false := by
    rw [hgrace]
    simpa [SessionState.expired] using hnow
  have hmode : Ends (Op.mode t m) s fun r s' => r = .ok () ∧ s'.stopped = s.stopped ∧
      s'.state = s.state ∧ s'.monitor = s.monitor ∧
        s'.previousModes = retimed s.previousModes m.fps := by
    unfold Op.mode
    refine ends_bind.2 (ends_demand.2 ⟨fun _ => ends_bind.2 (ends_get.2 ?_), absurd hrange⟩)
    refine ends_bind.2 (ends_demand.2 ⟨fun _ => ?_, absurd hadvertised⟩)
    dsimp only
    refine .ite (fun _ => ends_bind.2 (ends_modify.2 ?_)) (absurd hretimes)
    rw [hgrace]
    exact ends_bind.2 (ends_modify.2 (ends_modify.2 ⟨rfl, rfl, rfl, rfl, rfl⟩))
  have hoperation : Ends (Op.operation t (some (.mode m))) s fun r s' => r = .ok true ∧
      s'.stopped = s.stopped ∧ s'.state = s.state ∧ s'.monitor = s.monitor ∧
        s'.previousModes = retimed s.previousModes m.fps := by
    unfold Op.operation Op.handle Op.expire
    refine ends_bind.2 (ends_bind.2 (hmode.mono fun r s' hs' => ?_))
    obtain ⟨rfl, hstopped, hstate, hmonitor, hmodes⟩ := hs'
    have hexpired' : ¬ s'.state.expired t.now = true := by
      rw [hstate, hexpired]
      exact Bool.false_ne_true
    have hstreaming : ¬ s'.state.isStreaming = true := by
      rw [hstate, hgrace]
      exact Bool.false_ne_true
    refine ends_pure.2 (.ite (absurd rfl) fun _ => ends_bind.2 (ends_bind.2 (ends_get.2 ?_)))
    refine .ite (fun hn => absurd hn hexpired') fun _ => ends_pure.2 (ends_bind.2 (ends_get.2 ?_))
    refine .ite (fun hn => absurd hn hstreaming) fun _ => ends_pure.2 ?_
    exact ⟨rfl, hstopped, hstate, hmonitor, hmodes⟩
  unfold turn
  unfold Ends at hoperation
  generalize exec (Op.operation t (some (.mode m))) s = out at hoperation ⊢
  obtain ⟨r, s'⟩ := out
  obtain ⟨rfl, hs'⟩ := hoperation
  exact hs'

theorem timings_retimed {modes : List DisplayMode} {fps : UInt32}
    (h : timings (retimed modes fps) = timings modes) : ∀ mode ∈ modes, mode.fps = fps := by
  intro mode hmode
  unfold timings retimed at h
  rw [List.map_map] at h
  have heq := List.map_inj_left.1 h mode hmode
  exact (congrArg (fun timing => timing.2.2) heq).symm

theorem orderly_of_shown (hrunning : s.stopped = false) (h : s.Shown) {a : Activity}
    (ha : (s.step a).Shown) : s.Orderly a := by
  rintro t m rfl hlate
  obtain ⟨hstopped, hstate, hmonitor, hmodes⟩ := turn_late hlate
  have hstep : s.step (.turn t (some (.mode m))) = s.turn t (some (.mode m)) :=
    if_neg (by rw [hrunning]; exact Bool.false_ne_true)
  rw [hstep] at ha
  obtain ⟨⟨d, deadline, hgrace, -⟩, -, hretimes⟩ := hlate
  have hbefore := h hrunning d (.inr ⟨deadline, hgrace⟩)
  have hafter := ha (hstopped.trans hrunning) d (.inr ⟨deadline, hstate.trans hgrace⟩)
  rw [hmonitor, hmodes, hbefore] at hafter
  have htimings : timings s.previousModes = timings (retimed s.previousModes m.fps) :=
    congrArg Monitor.modes (Option.some.inj hafter)
  have hsame := timings_retimed htimings.symm
  obtain ⟨mode, hmode, hne⟩ := List.any_eq_true.1 hretimes
  exact of_decide_eq_true hne (hsame mode hmode)

/-- **The host's picture of the monitor is right** in every run in which no mode change with
another frame rate is handled in the grace period; one that is makes it wrong. -/
theorem pictures (h : Reaches step Initial Orderly s) :
    s.Shown ∧ (s.stopped = false → ∀ a, (s.step a).Shown ↔ s.Orderly a) := by
  have hshown : s.Shown := by
    refine h.invariant ?_ fun _ a hs => step_shown hs a
    rintro _ ⟨config, changed, now, -, rfl⟩ -
    exact pictured_of_idle rfl
  exact ⟨hshown, fun hrunning a => ⟨orderly_of_shown hrunning hshown, step_shown hshown a⟩⟩

/-- A device connects and asks for 30 frames per second, loses its connection and comes back with
that. -/
def sampleReturn : List Activity :=
  [.turn (sampleTurn 0) (some (.connect (sampleDevice 1) sampleModes)),
    .turn (sampleTurn 500000) (some (.mode ⟨1280, 720, 30⟩)),
    .turn (sampleTurn 1000000) (some (.disconnect false)), .turn (sampleTurn 2000000) none,
    .turn (sampleTurn 3000000) (some (.connect (sampleDevice 1) [⟨1280, 720, 30, 100⟩]))]

/-- The hypothesis of `pictures` is satisfiable: behind a grace period the monitor is still the one
that the device asked for. -/
theorem pictures_sample : (sampleReturn.foldl step (spawn {} false 0)).monitor =
    some ⟨sampleDevice 1, [(1280, 720, 30)]⟩ := by
  have hinit : Initial (spawn {} false 0) := ⟨{}, false, 0, by decide, rfl⟩
  have hmode : ¬ Late ((spawn {} false 0).step
      (.turn (sampleTurn 0) (some (.connect (sampleDevice 1) sampleModes)))) (sampleTurn 500000)
      ⟨1280, 720, 30⟩ := by
    rintro ⟨⟨d, deadline, hgrace, -⟩, -⟩
    cases hgrace
  have horderly : Along step Orderly (spawn {} false 0) sampleReturn := by
    refine ⟨fun _ _ h => (nomatch h), ?_, fun _ _ h => (nomatch h), fun _ _ h => (nomatch h),
      fun _ _ h => (nomatch h), trivial⟩
    rintro _ _ ⟨⟩
    exact hmode
  exact (pictures ((Reaches.init hinit).along horderly)).1 rfl (sampleDevice 1) (.inl rfl)

end Pipeline

namespace Runtime

/-- The client asks for 30 frames per second. -/
def sampleChange : Packet := .new (⟨1280, 720, 30⟩ : DisplayModeChange) 1 sampleWake.token

/-- A device connects.  Its input stream breaks off, and the mode change that it sent before
is still read; the thread handles both commands. -/
def sampleLate : List (Wake × RuntimeEvent) :=
  sampleOpen ++ [(sampleWake, .turn (Pipeline.sampleTurn 0)),
    (sampleWake, .input 0 (.error .connection)), (sampleWake, .packet (some (.ok sampleChange))),
    (sampleWake, .turn (Pipeline.sampleTurn 1000000)),
    (sampleWake, .turn (Pipeline.sampleTurn 1010000))]

/-- The property fails for a mode change behind the `Disconnect` of an input task: the driver
still has 60 frames per second, and `previous_modes` says 30. -/
theorem picture_lost : ¬ ∀ s, Reaches step Initial (fun _ _ => True) s → s.pipeline.Shown := by
  intro h
  have hlate : Along step (fun _ _ => True) sampleHost sampleLate :=
    ⟨trivial, trivial, trivial, trivial, trivial, trivial, trivial, trivial, trivial⟩
  have hgrace : (sampleLate.foldl step sampleHost).pipeline.state =
      .grace (Pipeline.sampleDevice 1) 5000000 := by
    decide +kernel
  have hrunning : (sampleLate.foldl step sampleHost).pipeline.stopped = false := by
    decide +kernel
  have hmonitor : (sampleLate.foldl step sampleHost).pipeline.monitor ≠
      some ⟨Pipeline.sampleDevice 1,
        timings (sampleLate.foldl step sampleHost).pipeline.previousModes⟩ := by
    decide +kernel
  have hshown := h _ ((Reaches.init sampleHost_initial).along hlate)
  exact hmonitor (hshown hrunning _ (.inr ⟨_, hgrace⟩))

end Runtime

end Host
end SidecarDOS
