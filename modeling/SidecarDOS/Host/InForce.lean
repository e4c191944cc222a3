/-
# The bitrate in force

The rate lives in three places: in the configuration, in the estimate of the session that
runs, and in the target of the pipeline, which outlives sessions.  A session takes its
estimate from the configuration; the tray sets the configuration and the target; a report
moves the estimate, and the target with it.  While the bitrate adapts, the estimate is the
target (`InForce`) in every run whose sessions start with the configured rate in force, and in
which the tray lets a session adapt only at the rate of its estimate (`Attuned`): there a
report of congestion acts on the bitrate in force (`adapts`).  Where a step is not attuned,
the rates come apart (`greeted_inForce`, `selected_inForce`), and a report can raise the
target (`target_raised`).
-/

import SidecarDOS.Host.Reports

namespace SidecarDOS
namespace Host

open Library (Reaches Along Ends Within exec ends_pure ends_bind ends_modify)

namespace Runtime

variable {s s' : Runtime} {w : Wake} {e : RuntimeEvent}

/-- A session that starts while the bitrate adapts finds the configured rate in force; and the
quality that lets the bitrate adapt comes in a session only at the rate of its estimate. -/
def Attuned (s : Runtime) (i : Wake × RuntimeEvent) : Prop :=
  match s.run, i.2 with
  | .greeting _, .capabilities _ =>
    s.config.video.adaptive = true → s.pipeline.bitrate = s.config.video.bitrate
  | .session session, .action (some (.quality q)) =>
    q = 0 → session.abr.current = Task.rateOf q
  | _, _ => True

/-- The target is within the configured bounds. -/
structure Ranged (s : Runtime) : Prop where
  least : s.config.video.minBitrate ≤ s.pipeline.bitrate
  most : s.pipeline.bitrate ≤ s.config.video.maxBitrate

/-- While the bitrate adapts, a session's estimate is the target. -/
structure InForce (s : Runtime) : Prop where
  ranged : s.Ranged
  session : ∀ session, s.run = .session session → s.config.video.adaptive = true →
    session.abr.current = s.pipeline.bitrate

theorem Ranged.of_rates {v : Video} {target : UInt32} (hs : s.rates = (v, target))
    (hleast : v.minBitrate ≤ target) (hmost : target ≤ v.maxBitrate) : s.Ranged := by
  obtain ⟨hvideo, htarget⟩ := Prod.mk.inj hs
  refine ⟨?_, ?_⟩
  · rw [hvideo, htarget]
    exact hleast
  · rw [hvideo, htarget]
    exact hmost

theorem Ranged.steady (h : s.Ranged) (hs : Steady s s') : s'.Ranged := .of_rates hs h.least h.most

theorem Ranged.chooses {q : UInt8} (hq : Task.Chooses q s s') : s'.Ranged :=
  .of_rates hq.rates hq.least hq.most

theorem Ranged.refused {q : UInt8} (h : s.Ranged)
    (hs : s'.rates = (Task.chosen s.config.video q, s.pipeline.bitrate)) : s'.Ranged :=
  .of_rates hs h.least h.most

/-- Where a session runs, its estimate has to be the target. -/
theorem inForce_session {session : Session} (h : s.Ranged) :
    InForce { s with run := .session session } ↔
      (s.config.video.adaptive = true → session.abr.current = s.pipeline.bitrate) := by
  constructor
  · exact fun hs => hs.session session rfl
  · intro hsession
    refine ⟨h.steady rfl, ?_⟩
    rintro _ ⟨⟩
    exact hsession

/-- Where no session runs, the target alone is left to show. -/
theorem Ranged.inForce (h : s.Ranged) (hs : Steady s s')
    (hrun : ∀ session, s'.run ≠ .session session) : s'.InForce :=
  ⟨h.steady hs, fun session hs => absurd hs (hrun session)⟩

/-! ### The steps -/

theorem act_ranged (h : s.Ranged) (w : Wake) (a : Option Action) :
    Ends (Task.act w a) s fun _ s' => s'.Ranged := by
  unfold Task.act
  split
  · exact ends_pure.2 h
  · exact ends_pure.2 h
  · exact Ends.bind (Task.position_steady w _) (fun _ _ hs => ends_pure.2 (h.steady hs.2))
      fun _ _ hs => h.steady hs.2
  · refine Ends.bind (Task.quality_spec s w _) (fun _ _ hq => ends_pure.2 ?_) fun _ _ hq => ?_
    all_goals
      obtain ⟨-, hq⟩ | ⟨-, hrates⟩ := hq
      · exact .chooses hq
      · exact h.refused hrates
  · refine ends_bind.2 (ends_modify.2 ?_)
    exact Ends.bind (Task.command_steady _) (fun _ _ hs => ends_pure.2 ((h.steady rfl).steady hs.2))
      fun _ _ hs => (h.steady rfl).steady hs.2

/-- A report leaves the target within the bounds, and the estimate at the target. -/
theorem reported_inForce (hb : s.Bounded) (h : s.InForce) {session session' : Session}
    (stats : Statistics) (hrun : s.run = .session session) (hrun' : s'.run = .session session')
    (hadaptive : s.config.video.adaptive = true)
    (habr : session'.abr = (session.abr.update stats w.now).1)
    (hrates : s'.rates =
      (s.config.video, (session.abr.update stats w.now).2.getD s.pipeline.bitrate)) :
    s'.InForce := by
  have hcurrent := h.session session hrun hadaptive
  have hfits := hb.session session hrun
  obtain ⟨hvideo, htarget⟩ := Prod.mk.inj hrates
  have htarget : s'.pipeline.bitrate = session'.abr.current := by
    rw [htarget, habr, ← hcurrent, AdaptiveBitrate.update_getD]
  have habove : session.abr.Bounded := by
    refine ⟨?_, ?_, ?_⟩
    · rw [hfits.min, hcurrent]
      exact h.ranged.least
    · rw [hfits.max, hcurrent]
      exact h.ranged.most
    · rw [hfits.max]
      exact hb.most
  have hbounded := habove.update stats w.now
  obtain ⟨hmin, hmax⟩ := AdaptiveBitrate.update_bounds session.abr stats w.now
  refine ⟨⟨?_, ?_⟩, fun _ hs _ => ?_⟩
  · rw [htarget, habr, hvideo, ← hfits.min, ← hmin]
    exact hbounded.least
  · rw [htarget, habr, hvideo, ← hfits.max, ← hmax]
    exact hbounded.most
  · cases hrun'.symm.trans hs
    exact htarget.symm

theorem incoming_inForce (h : s.InForce) (i : Incoming) : (s.incoming w i).InForce := by
  unfold incoming
  split
  · exact h.ranged.inForce rfl fun _ hrun => nomatch hrun
  · exact h.ranged.inForce rfl (resumed_ne_session s)
  · exact h.ranged.inForce rfl fun _ hrun => nomatch hrun
  · exact h.ranged.inForce rfl (resumed_ne_session s)
  · split
    · exact h.ranged.inForce rfl (resumed_ne_session s)
    · exact h.ranged.inForce rfl fun _ hrun => nomatch hrun

theorem finish_steady (w : Wake) (id : Id16) (result : Except Error Bool) :
    Within Steady (fun _ => True) (Task.finish w id result) s := by
  unfold Task.finish
  exact .get_bind ((Task.command_steady _).bind fun _ _ _ => .modify rfl)

theorem read_steady (task : InputTask) (p : Except Error Packet) :
    Within Steady (fun _ => True) (Task.read task p) s := by
  unfold Task.read
  refine (Task.lift_steady _).bind fun p _ _ => .demand_bind trivial fun _ => ?_
  refine .demand_bind trivial fun _ => (Task.lift_steady _).bind fun event _ _ => ?_
  exact .get_bind (.demand_bind trivial fun _ => .modify_bind rfl (.pure _))

/-- The rates of a session that starts agree exactly if its start is attuned. -/
theorem greeted_inForce {id : Id16} {modes : Except Error (List DisplayMode)} {session : Session}
    {m : Runtime} (h : s.InForce) (hphase : s.run = .greeting id)
    (hexec : exec (Task.greet w id modes) s = (.ok session, m)) :
    InForce { m with run := .session session } ↔ s.Attuned (w, .capabilities modes) := by
  have hs : Steady s m := ((Task.greet_steady w id modes).of_exec hexec).2
  obtain ⟨hcurrent, -, -⟩ := (Task.greet_abr s w id modes).of_exec hexec _ rfl
  obtain ⟨hvideo, htarget⟩ := Prod.mk.inj hs
  have hattuned : s.Attuned (w, .capabilities modes) ↔
      (s.config.video.adaptive = true → s.pipeline.bitrate = s.config.video.bitrate) := by
    unfold Attuned
    rw [hphase]
  rw [inForce_session (h.ranged.steady hs), hattuned, hcurrent, hvideo, htarget]
  exact imp_congr_right fun _ => eq_comm

/-- A quality within a session. -/
theorem quality_inForce {session session' : Session} {q : UInt8} {m : Runtime}
    (hexec : exec (Task.select w session (.action (some (.quality q)))) s =
      (.ok (.inl session'), m)) :
    InForce { m with run := .session session' } ↔
      (q = 0 → session.abr.current = Task.rateOf q) := by
  have hselect : Ends (Task.select w session (.action (some (.quality q)))) s fun r s' =>
      r = .ok (.inl session') → Task.Chooses q s s' ∧ session' = session := by
    refine Ends.bind (Task.quality_spec s w q) (fun _ s' hq => ends_pure.2 ?_) fun _ _ _ => nofun
    rintro ⟨⟩
    obtain ⟨-, hq⟩ | ⟨⟨_, hr⟩, -⟩ := hq
    · exact ⟨hq, rfl⟩
    · cases hr
  obtain ⟨hq, rfl⟩ := hselect.of_exec hexec rfl
  obtain ⟨hvideo, htarget⟩ := Prod.mk.inj hq.rates
  have hadaptive : m.config.video.adaptive = true ↔ q = 0 := by
    rw [hvideo]
    exact decide_eq_true_iff
  rw [inForce_session (.chooses hq), hadaptive, htarget]

/-- The rates of a session that goes on still agree exactly if its step is attuned. -/
theorem selected_inForce {session session' : Session} {m : Runtime} (hb : s.Bounded)
    (h : s.InForce) (hphase : s.run = .session session)
    (hexec : exec (Task.select w session e) s = (.ok (.inl session'), m)) :
    InForce { m with run := .session session' } ↔ s.Attuned (w, e) := by
  by_cases he : ∃ q, e = .action (some (.quality q))
  · obtain ⟨q, rfl⟩ := he
    rw [quality_inForce hexec, Attuned, hphase]
  have hattuned : s.Attuned (w, e) := by
    unfold Attuned
    split
    · rename_i hgreeting _
      cases hphase.symm.trans hgreeting
    · rename_i q _ hq
      exact absurd ⟨q, hq⟩ he
    · trivial
  refine iff_of_true ?_ hattuned
  cases (Task.select_abr s w session e).of_exec hexec with
  | kept hs habr =>
    obtain ⟨hvideo, htarget⟩ := Prod.mk.inj hs
    refine (inForce_session (h.ranged.steady hs)).2 fun hadaptive => ?_
    rw [habr _ rfl, htarget]
    exact h.session session hphase (hvideo ▸ hadaptive)
  | reported stats hr hadaptive habr hrates =>
    cases hr
    exact reported_inForce hb h stats hphase rfl hadaptive habr hrates
  | chosen hq => exact absurd ⟨_, hq⟩ he
  | refused hr => cases hr

/-- Where no session is left, the target is within the bounds. -/
theorem select_ranged (h : s.Ranged) (session : Session) :
    Ends (Task.select w session e) s fun r s' => (∀ session', r ≠ .ok (.inl session')) →
      s'.Ranged := by
  refine (Task.select_abr s w session e).mono fun r s' hr hrun => ?_
  cases hr with
  | kept hs => exact h.steady hs
  | reported _ hr => exact absurd hr (hrun _)
  | chosen _ hr => exact absurd hr (hrun _)
  | refused _ hrates => exact h.refused hrates

theorem wakeRun_inForce (hb : s.Bounded) (h : s.InForce) (hok : s.Attuned (w, e)) :
    (s.wakeRun w e).InForce := by
  have hwakes := wakes s w e
  generalize s.wakeRun w e = s' at hwakes ⊢
  cases hwakes with
  | stays => exact h
  | incoming hphase => exact incoming_inForce h _
  | acted hphase hexec =>
    refine ((act_ranged h.ranged w _).of_exec hexec).inForce rfl fun session hrun => ?_
    split at hrun
    · exact resumed_ne_session _ _ hrun
    · cases hrun
  | actFailed hphase hexec =>
    exact ((act_ranged h.ranged w _).of_exec hexec).inForce rfl fun _ hrun => nomatch hrun
  | greeted hphase hexec => exact (greeted_inForce h hphase hexec).2 hok
  | greetFailed hphase hexec =>
    exact h.ranged.inForce ((Task.greet_steady w _ _).of_exec hexec).2 fun _ hrun => nomatch hrun
  | selected hphase hexec => exact (selected_inForce hb h hphase hexec).2 hok
  | stopped hphase hexec =>
    have hm := (select_ranged h.ranged _).of_exec hexec fun _ hr => nomatch hr
    exact hm.inForce rfl fun _ hrun => nomatch hrun
  | failed hphase hexec =>
    have hm := (select_ranged h.ranged _).of_exec hexec fun _ hr => nomatch hr
    exact hm.inForce rfl fun _ hrun => nomatch hrun
  | finished hphase hexec =>
    exact h.ranged.inForce ((finish_steady w _ _).of_exec hexec).2 (resumed_ne_session _)
  | finishFailed hphase hexec =>
    exact h.ranged.inForce ((finish_steady w _ _).of_exec hexec).2 fun _ hrun => nomatch hrun

theorem InForce.steady (h : s.InForce) (hs : Steady s s') (hrun : s'.run = s.run) : s'.InForce := by
  obtain ⟨hvideo, htarget⟩ := Prod.mk.inj hs
  refine ⟨h.ranged.steady hs, fun session hsession hadaptive => ?_⟩
  rw [htarget]
  exact h.session session (hrun.symm.trans hsession) (hvideo ▸ hadaptive)

theorem wakeInput_inForce (h : s.InForce) (i : ℕ) (p : Except Error Packet) :
    (s.wakeInput i p).InForce := by
  have hread {task : InputTask} {r : Except Error ℕ} {m s' : Runtime}
      (hexec : exec (Task.read task p) s = (r, m)) (hs : Steady m s') (hrun : s'.run = m.run) :
      s'.InForce :=
    (h.steady ((read_steady task p).of_exec hexec).2
      ((Task.read_feeds task p).of_exec hexec).2.run).steady hs hrun
  have hreads := reads s i p
  generalize s.wakeInput i p = s' at hreads ⊢
  cases hreads with
  | none => exact h
  | last _ _ hexec => exact hread hexec rfl rfl
  | read _ _ hexec => exact hread hexec rfl rfl
  | failed _ hexec =>
    rename_i _ _ m _
    have hm : InForce { m with inputs := m.inputs.eraseIdx i } := hread hexec rfl rfl
    have hfeeds := (Task.command_feeds (s := { m with inputs := m.inputs.eraseIdx i })
      (c := .disconnect false) (P := fun _ => True) (E := fun _ => True) trivial
      fun _ => trivial).out.2
    exact hm.steady (Task.command_steady _).out.2 hfeeds.run

theorem step_inForce (hb : s.Bounded) (h : s.InForce) (i : Wake × RuntimeEvent)
    (hok : s.Attuned i) : (s.step i).InForce := by
  obtain ⟨w, e⟩ := i
  unfold step
  split
  · exact h.steady rfl rfl
  · exact wakeInput_inForce h _ _
  · split
    · exact h.steady rfl rfl
    · exact h
  · exact h.steady (Prod.ext rfl (Pipeline.turn_bitrate _ _ _)) rfl
  · split
    · split
      · exact h.steady rfl rfl
      · exact h
    · exact h
  · exact wakeRun_inForce hb h hok

theorem initial_inForce (h : Initial s) : s.InForce := by
  obtain ⟨config, changed, now, hvalid, rfl⟩ := h
  obtain ⟨-, -, -, -, hmin, hmax, -⟩ := Config.validate_eq_ok.1 hvalid
  exact ⟨⟨hmin, hmax⟩, nofun⟩

theorem reaches_inForce (h : Reaches step Initial Attuned s) : s.Bounded ∧ s.InForce :=
  h.invariant (I := fun s => s.Bounded ∧ s.InForce)
    (fun _ hs => ⟨initial_bounded hs, initial_inForce hs⟩)
    fun _ i ⟨hb, h⟩ hok => ⟨step_bounded hb i, step_inForce hb h i hok⟩

/-- **A report of congestion acts on the bitrate in force**: in every run of sessions, reports
and qualities whose steps are attuned, it sets the target to three quarters, but not below the
least bitrate. -/
theorem adapts {p : Packet} {session : Session} {stats : Statistics}
    (hs : Reaches step Initial Attuned s) (h : Reports s w p session stats) :
    Lowers s.config.video.minBitrate.toNat s.pipeline.bitrate.toNat
      (s.step (w, .packet (some (.ok p)))).pipeline.bitrate.toNat := by
  obtain ⟨hb, hinForce⟩ := reaches_inForce hs
  have hcurrent := hinForce.session session h.run h.adaptive
  refine (report_lowers_iff hb h).2 ⟨hinForce.ranged.least, ?_⟩
  rw [hcurrent]
  exact agrees_self _ _

/-! ### Runs of sessions -/

/-- A client that loses packets. -/
def sampleStats : Statistics := ⟨⟨0⟩, 12000000, 20000, 50000, 0, 0, 0, 0, 0, 0⟩

theorem sampleStats_valid : (Schema.format Statistics).Valid sampleStats :=
  ⟨rfl, trivial, trivial, trivial, trivial, trivial, trivial, trivial, trivial, trivial, trivial⟩

def sampleReport : Packet := .new sampleStats 1 sampleWake.token

/-- A second later. -/
def sampleLater : Wake := { sampleWake with now := 1000000 }

/-- A session lowers the target; behind it the tray sets the quality 0, which stands for 12 Mbit/s,
and once more in the next session. -/
def sampleAgain : List (Wake × RuntimeEvent) :=
  sampleOpen ++ [(sampleLater, .packet (some (.ok sampleReport))), (sampleWake, .closed),
    (sampleWake, .finish), (sampleWake, .action (some (.quality 0)))] ++ sampleOpen ++
      [(sampleWake, .action (some (.quality 0)))]

/-- The hypotheses of `adapts` are satisfiable: in the second session a report lowers the target
from 12 to 9 Mbit/s. -/
theorem adapts_sample :
    (sampleAgain.foldl step sampleHost).pipeline.bitrate = 12000000 ∧
      Lowers (sampleAgain.foldl step sampleHost).config.video.minBitrate.toNat
        (sampleAgain.foldl step sampleHost).pipeline.bitrate.toNat
        ((sampleAgain.foldl step sampleHost).step
          (sampleLater, .packet (some (.ok sampleReport)))).pipeline.bitrate.toNat := by
  have hattuned : Along step Attuned sampleHost sampleAgain :=
    ⟨trivial, fun _ => rfl, trivial, trivial, trivial, trivial, trivial, trivial, fun _ => rfl,
      trivial, fun _ => rfl, trivial⟩
  have hreports : Reports (sampleAgain.foldl step sampleHost) sampleLater sampleReport
      ⟨Pipeline.sampleDevice 1, sampleWake.token, ⟨12000000, 2000000, 30000000, 0, 0⟩, 0, none, 0,
        10, true⟩ sampleStats :=
    ⟨rfl, rfl, by decide, host_message_new sampleStats_valid _ _, by decide, rfl, by decide,
      .inl (by decide)⟩
  exact ⟨rfl, adapts ((Reaches.init sampleHost_initial).along hattuned) hreports⟩

/-- The configuration asks for 20 Mbit/s, and adapts. -/
def sampleFast : Runtime :=
  { config := { video := { bitrate := 20000000 } }
    pipeline := .spawn { video := { bitrate := 20000000 } } false 0 }

theorem sampleFast_initial : Initial sampleFast := ⟨_, false, 0, by decide, rfl⟩

/-- The tray sets the quality 0, which stands for 12 Mbit/s, in a session. -/
def sampleQuality : List (Wake × RuntimeEvent) :=
  sampleOpen ++ [(sampleWake, .action (some (.quality 0)))]

/-- The property fails when the tray lowers the target in a session: a report of congestion
raises it from 12 to 15 Mbit/s. -/
theorem target_raised : ¬ ∀ s w p session stats, Reaches step Initial (fun _ _ => True) s →
    Reports s w p session stats → Lowers s.config.video.minBitrate.toNat s.pipeline.bitrate.toNat
      (s.step (w, .packet (some (.ok p)))).pipeline.bitrate.toNat := by
  intro h
  have hquality : Along step (fun _ _ => True) sampleFast sampleQuality :=
    ⟨trivial, trivial, trivial, trivial, trivial⟩
  have hs := (Reaches.init sampleFast_initial).along hquality
  have hreports : Reports (sampleQuality.foldl step sampleFast) sampleLater sampleReport
      ⟨Pipeline.sampleDevice 1, sampleWake.token, ⟨20000000, 2000000, 30000000, 0, 0⟩, 0, none, 0,
        10, true⟩ sampleStats :=
    ⟨rfl, rfl, by decide, host_message_new sampleStats_valid _ _, by decide, rfl, by decide,
      .inl (by decide)⟩
  have hle := (h _ _ _ _ _ hs hreports).le
  rw [step_reports hreports] at hle
  exact absurd hle (by decide)

end Runtime

end Host
end SidecarDOS
