/-
# The bitrate that adapts

`AdaptiveBitrate` is a variable of one session and starts there with the configured
bitrate, while the pipeline's target outlives sessions; the tray sets the target and
the configuration, but not the estimate of the session that runs (`Estimates`).  So a
report of congestion lowers the estimate, and the target is set to what comes of it:
that is what the report should do exactly where the two lead to the same lower rate
(`report_lowers_iff`).
-/

import SidecarDOS.Host.Teardown

namespace SidecarDOS
namespace Host

open Library (Ends Within exec ends_pure ends_throw ends_bind ends_get ends_modify
  ends_demand)

/-! ### The estimate -/

/-- A report of congestion. -/
def Congested (s : Statistics) : Prop :=
  s.lossPpm > 20000 ∨ s.rttUs > 60000 ∨ s.decodeQueue > 1 ∨ s.droppedFrames > 3

/-- The rate behind a report of congestion. -/
def lowered (least rate : ℕ) : ℕ := max least (3 * rate / 4)

namespace AdaptiveBitrate

variable {a : AdaptiveBitrate} {s : Statistics} {now : ℕ}

theorem update_bounds (a : AdaptiveBitrate) (s : Statistics) (now : ℕ) :
    (a.update s now).1.min = a.min ∧ (a.update s now).1.max = a.max := by
  unfold update
  dsimp only
  split_ifs <;> exact ⟨rfl, rfl⟩

/-- The new rate, if there is one, is that of the new estimate. -/
theorem update_getD (a : AdaptiveBitrate) (s : Statistics) (now : ℕ) :
    (a.update s now).2.getD a.current = (a.update s now).1.current := by
  have hnew (b : AdaptiveBitrate) :
      (if a.current ≠ b.current then some b.current else none).getD a.current = b.current := by
    split
    · rfl
    · rename_i hsame
      exact not_not.1 hsame
  unfold update
  split
  · rfl
  · exact hnew _

/-- The rate behind congestion, without an overflow. -/
theorem toNat_lowered (hcurrent : a.current ≤ 100000000) :
    (Max.max (a.current * 3 / 4) a.min).toNat = lowered a.min.toNat a.current.toNat := by
  have hle : a.current.toNat ≤ 100000000 := hcurrent
  have hmul : (a.current * 3 / 4).toNat = 3 * a.current.toNat / 4 := by
    rw [UInt32.toNat_div, UInt32.toNat_mul]
    show a.current.toNat * 3 % 4294967296 / 4 = _
    omega
  show (if a.current * 3 / 4 ≤ a.min then a.min else a.current * 3 / 4).toNat = _
  rw [lowered]
  split
  · rename_i h
    have hmin : (a.current * 3 / 4).toNat ≤ a.min.toNat := h
    omega
  · rename_i h
    have hmin : ¬ (a.current * 3 / 4).toNat ≤ a.min.toNat := h
    omega

theorem update_current_le (hcurrent : a.current ≤ 100000000) (hmin : a.min ≤ 100000000)
    (hmax : a.max ≤ 100000000) : (a.update s now).1.current ≤ 100000000 := by
  have hlowered : Max.max (a.current * 3 / 4) a.min ≤ 100000000 := by
    have hcurrent' : a.current.toNat ≤ 100000000 := hcurrent
    have hmin' : a.min.toNat ≤ 100000000 := hmin
    show (Max.max (a.current * 3 / 4) a.min).toNat ≤ 100000000
    rw [toNat_lowered hcurrent, lowered]
    omega
  have hraised : Min.min (a.current + a.current / 20) a.max ≤ 100000000 := by
    show (if a.current + a.current / 20 ≤ a.max then _ else a.max) ≤ 100000000
    split
    · rename_i h
      exact UInt32.le_trans h hmax
    · exact hmax
  unfold update
  dsimp only
  split_ifs
  all_goals first | exact hcurrent | exact hlowered | exact hraised

theorem update_congested (hdue : a.last + 1000000 ≤ now) (hs : Congested s) :
    (a.update s now).1.current = Max.max (a.current * 3 / 4) a.min ∧
      (a.update s now).2 = if a.current ≠ Max.max (a.current * 3 / 4) a.min then
        some (Max.max (a.current * 3 / 4) a.min) else none := by
  have hnow : ¬ now - a.last < 1000000 := by omega
  unfold Congested at hs
  unfold update
  rw [if_neg hnow]
  dsimp only
  rw [if_pos hs]
  exact ⟨rfl, rfl⟩

end AdaptiveBitrate

/-! ### What a task does to the rates -/

/-- The configured rates, and the target of the pipeline. -/
def Runtime.rates (s : Runtime) : Video × UInt32 := (s.config.video, s.pipeline.bitrate)

/-- The rates stay. -/
def Runtime.Steady (s s' : Runtime) : Prop := s'.rates = s.rates

instance : Std.Refl Runtime.Steady := ⟨fun _ => rfl⟩

instance : IsTrans Runtime Runtime.Steady := ⟨fun _ _ _ h h' => h'.trans h⟩

namespace Task

open SidecarDOS.Host.Runtime (Steady)

variable {s s' : Runtime}

theorem command_steady (c : Command) : Within Steady (fun _ => True) (command c) s :=
  .get_bind (.demand_bind trivial fun _ => .modify rfl)

theorem write_steady {T : Type} [Wire T] (w : Wake) (v : T) (sequence : UInt64) (token : Id16) :
    Within Steady (fun _ => True) (write w v sequence token) s :=
  .demand_bind trivial fun _ => .modify rfl

theorem lift_steady {α : Type} (x : Except Error α) :
    Within Steady (fun _ => True) (lift x) s := by
  cases x with
  | ok a => exact .pure a
  | error e => exact .throw trivial

theorem position_steady (w : Wake) (p : Position) :
    Within Steady (fun _ => True) (position w p) s := by
  unfold position
  refine .modify_bind rfl (.get_bind ?_)
  exact (lift_steady _).bind fun _ _ _ => command_steady _

/-- The rates behind the tray's quality `q`. -/
def chosen (v : Video) (q : UInt8) : Video :=
  { v with adaptive := decide (q = 0), bitrate := rateOf q }

/-- The tray sets the quality `q`, and the configuration allows it. -/
structure Chooses (q : UInt8) (s s' : Runtime) : Prop where
  least : s.config.video.minBitrate ≤ rateOf q
  most : rateOf q ≤ s.config.video.maxBitrate
  rates : s'.rates = (chosen s.config.video q, rateOf q)

/-- A quality that cannot be saved stays in the configuration, but does not reach the pipeline. -/
theorem quality_spec (s : Runtime) (w : Wake) (q : UInt8) : Ends (quality w q) s fun r s' =>
    (r = .ok () ∧ Chooses q s s') ∨
      (∃ e, r = .error e) ∧ s'.rates = (chosen s.config.video q, s.pipeline.bitrate) := by
  unfold quality
  refine ends_bind.2 (ends_modify.2 (ends_bind.2 (ends_get.2 ?_)))
  dsimp only
  generalize hconfig : ({ s.config with
    video.adaptive := decide (q = 0), video.bitrate := rateOf q } : Config) = config
  have hvideo : config.video = chosen s.config.video q := by
    subst hconfig
    rfl
  cases hsave : config.save w.written with
  | error e => exact .inr ⟨⟨e, rfl⟩, Prod.ext hvideo rfl⟩
  | ok _ =>
    have hvalid : config.validate = .ok () := by
      unfold Config.save at hsave
      split at hsave
      · assumption
      · cases hsave
    obtain ⟨-, -, -, -, hleast, hmost, -⟩ := Config.validate_eq_ok.1 hvalid
    rw [hvideo] at hleast hmost
    exact .inl ⟨rfl, hleast, hmost, Prod.ext hvideo rfl⟩

theorem greet_steady (w : Wake) (id : Id16) (modes : Except Error (List DisplayMode)) :
    Within Steady (fun _ => True) (greet w id modes) s := by
  unfold greet
  refine (lift_steady _).bind fun modes _ _ => ?_
  dsimp only
  split
  · refine .demand_bind trivial fun _ => (command_steady _).bind fun _ _ _ => ?_
    refine (write_steady ..).bind fun _ _ _ => (write_steady ..).bind fun _ _ _ => ?_
    exact .get_bind (.pure _)
  · exact .throw trivial

/-- A session starts with the rate that is configured. -/
theorem greet_abr (s : Runtime) (w : Wake) (id : Id16) (modes : Except Error (List DisplayMode)) :
    Ends (greet w id modes) s fun r s' => ∀ session, r = .ok session →
      session.abr.current = s'.config.video.bitrate ∧
        session.abr.min = s'.config.video.minBitrate ∧
          session.abr.max = s'.config.video.maxBitrate := by
  unfold greet
  refine .last (fun modes s => ?_) fun _ _ => nofun
  dsimp only
  split
  · refine .last (fun _ s => ?_) fun _ _ => nofun
    refine .last (fun _ s => ?_) fun _ _ => nofun
    refine .last (fun _ s => ?_) fun _ _ => nofun
    refine .last (fun _ s => ?_) fun _ _ => nofun
    refine .last (fun _ s => ?_) fun _ _ => nofun
    refine ends_bind.2 (ends_get.2 (ends_pure.2 ?_))
    rintro _ ⟨⟩
    exact ⟨rfl, rfl, rfl⟩
  · exact nofun

/-- What an arm of the loop does to the rates and to the estimate of its session. -/
inductive Estimates (session : Session) (now : ℕ) (e : RuntimeEvent) (s : Runtime)
    (r : Except Error (Session ⊕ Bool)) (s' : Runtime) : Prop where
  | kept (hs : Steady s s')
      (habr : ∀ session', r = .ok (.inl session') → session'.abr = session.abr)
  /-- A report reaches the estimate, and the new rate the pipeline. -/
  | reported {session' : Session} (stats : Statistics) (hr : r = .ok (.inl session'))
      (hadaptive : s.config.video.adaptive = true)
      (habr : session'.abr = (session.abr.update stats now).1)
      (hrates : s'.rates =
        (s.config.video, (session.abr.update stats now).2.getD s.pipeline.bitrate))
  /-- The tray's quality reaches the configuration and the pipeline, but not the estimate. -/
  | chosen {session' : Session} {q : UInt8} (he : e = .action (some (.quality q)))
      (hr : r = .ok (.inl session')) (hq : Chooses q s s') (habr : session'.abr = session.abr)
  | refused {error : Error} {q : UInt8} (hr : r = .error error)
      (hrates : s'.rates = (chosen s.config.video q, s.pipeline.bitrate))

namespace Estimates

variable {session session' : Session} {now : ℕ} {e : RuntimeEvent}

theorem error {error : Error} (hs : Steady s s') :
    Estimates session now e s (.error error) s' := .kept hs nofun

theorem stop {immediate : Bool} (hs : Steady s s') :
    Estimates session now e s (.ok (.inr immediate)) s' := .kept hs nofun

theorem same (hs : Steady s s') (h : session'.abr = session.abr) :
    Estimates session now e s (.ok (.inl session')) s' := by
  refine .kept hs ?_
  rintro _ ⟨⟩
  exact h

end Estimates

/-- A statement of an arm that leaves the rates alone, and what follows it. -/
theorem steady_bind {α : Type} {m : Task α} {k : α → Task (Session ⊕ Bool)} {session : Session}
    {now : ℕ} {e : RuntimeEvent} (h : Steady s s') (hm : Within Steady (fun _ => True) m s')
    (hk : ∀ a s'', Steady s s'' → Ends (k a) s'' (Estimates session now e s)) :
    Ends (m >>= k) s' (Estimates session now e s) :=
  Ends.bind hm (fun a s'' ⟨_, hs⟩ => hk a s'' (IsTrans.trans _ _ _ h hs))
    fun _ _ ⟨_, hs⟩ => .error (IsTrans.trans _ _ _ h hs)

theorem packet_abr (s : Runtime) (w : Wake) (session : Session) (p : Packet) :
    Ends (packet w session p) s (Estimates session w.now (.packet (some (.ok p))) s) := by
  have hs : Steady s s := Std.Refl.refl s
  unfold packet
  refine steady_bind hs (.demand trivial) fun _ s hs => ?_
  refine steady_bind hs (.demand trivial) fun _ s hs => ?_
  dsimp only
  refine .ite (fun _ => ?_) fun _ => .ite (fun _ => ?_) fun _ => .ite (fun _ => ?_) fun _ =>
    .ite (fun _ => ?_) fun _ => .ite (fun _ => ?_) fun _ => ends_throw.2 (.error hs)
  · exact steady_bind hs (lift_steady _) fun _ _ hs => ends_pure.2 (.stop hs)
  · refine steady_bind hs (lift_steady _) fun _ s hs => .ite (fun _ => ?_) fun _ =>
      ends_pure.2 (.same hs rfl)
    exact steady_bind hs (.modify rfl) fun _ _ hs => ends_pure.2 (.same hs rfl)
  · refine steady_bind hs (lift_steady _) fun _ s hs => ?_
    exact steady_bind hs (command_steady _) fun _ _ hs => ends_pure.2 (.same hs rfl)
  · refine steady_bind hs (lift_steady _) fun stats s hs => ?_
    refine steady_bind hs (.demand trivial) fun _ s hs => ends_bind.2 (ends_get.2 ?_)
    refine .ite (fun hadaptive => ?_) fun _ => ends_pure.2 (.same hs rfl)
    obtain ⟨hvideo, htarget⟩ := Prod.mk.inj hs
    rw [hvideo] at hadaptive
    cases hrate : (session.abr.update stats w.now).2 with
    | some rate =>
      refine ends_bind.2 (ends_modify.2 (ends_pure.2 (.reported stats rfl hadaptive rfl ?_)))
      rw [hrate, ← hvideo]
      rfl
    | none =>
      refine ends_pure.2 (.reported stats rfl hadaptive rfl ?_)
      rw [hrate]
      exact hs
  · refine steady_bind hs (lift_steady _) fun _ s hs => ?_
    exact steady_bind hs (write_steady ..) fun _ _ hs => ends_pure.2 (.same hs rfl)

theorem select_abr (s : Runtime) (w : Wake) (session : Session) (e : RuntimeEvent) :
    Ends (select w session e) s (Estimates session w.now e s) := by
  have hs : Steady s s := Std.Refl.refl s
  unfold select
  split
  · exact ends_throw.2 (.error hs)
  · exact ends_throw.2 (.error hs)
  · exact packet_abr s w session _
  · refine .ite (fun _ => ends_pure.2 (.same hs rfl)) fun _ => ?_
    refine steady_bind hs (.demand trivial) fun _ s hs => ?_
    exact steady_bind hs (.modify rfl) fun _ _ hs => ends_pure.2 (.same hs rfl)
  · refine ends_bind.2 (ends_get.2 ?_)
    dsimp only
    split
    · exact ends_pure.2 (.same hs rfl)
    · refine .ite (fun _ => steady_bind hs (.modify rfl) fun _ s hs => ?_) fun _ => ?_
      all_goals
        split
        · exact ends_throw.2 (.error hs)
        · refine .ite (fun _ => ?_) fun _ => ends_pure.2 (.same hs rfl)
          exact steady_bind hs (.modify rfl) fun _ _ hs => ends_pure.2 (.same hs rfl)
  · refine ends_bind.2 (ends_get.2 ?_)
    dsimp only
    split
    · exact ends_pure.2 (.same hs rfl)
    · refine steady_bind hs (.modify rfl) fun _ s hs => ?_
      split
      · exact steady_bind hs (write_steady ..) fun _ _ hs => ends_pure.2 (.same hs rfl)
      · exact ends_throw.2 (.error hs)
  · exact ends_pure.2 (.stop hs)
  · exact ends_throw.2 (.error hs)
  · exact ends_throw.2 (.error hs)
  · exact steady_bind hs (position_steady _ _) fun _ _ hs => ends_pure.2 (.same hs rfl)
  · refine Ends.bind (quality_spec s w _) (fun _ s' hq => ?_) fun error s' hq => ?_
    · obtain ⟨-, hq⟩ | ⟨⟨_, hr⟩, -⟩ := hq
      · exact ends_pure.2 (.chosen rfl rfl hq rfl)
      · cases hr
    · obtain ⟨hr, -⟩ | ⟨-, hrates⟩ := hq
      · cases hr
      · exact .refused rfl hrates
  · exact ends_throw.2 (.error hs)
  · exact ends_pure.2 (.same hs rfl)

/-- A report that is due reaches the target of the pipeline. -/
theorem packet_report {s : Runtime} {w : Wake} {session : Session} {p : Packet} {stats : Statistics}
    (htoken : p.session = session.token) (hguard : session.guard < p.sequence.toNat)
    (hmessage : p.message Statistics = .ok stats)
    (hvalid : stats.lossPpm ≤ 1000000 ∧ fpsInRange stats.fps)
    (hadaptive : s.config.video.adaptive = true) : Ends (packet w session p) s fun _ s' =>
      s'.pipeline.bitrate = (session.abr.update stats w.now).2.getD s.pipeline.bitrate := by
  have hkind : p.kind = Wire.KIND Statistics := (Packet.message_eq_ok.1 hmessage).1
  unfold packet
  refine ends_bind.2 (ends_demand.2 ⟨fun _ => ?_, absurd htoken⟩)
  refine ends_bind.2 (ends_demand.2 ⟨fun _ => ?_, absurd hguard⟩)
  dsimp only
  rw [if_neg (by rw [hkind]; decide), if_neg (by rw [hkind]; decide),
    if_neg (by rw [hkind]; decide), if_pos hkind, hmessage]
  refine ends_bind.2 (ends_pure.2 (ends_bind.2 (ends_demand.2 ⟨fun _ => ?_, absurd hvalid⟩)))
  refine ends_bind.2 (ends_get.2 (.ite (fun _ => ?_) (absurd hadaptive)))
  generalize session.abr.update stats w.now = out
  obtain ⟨a, _ | rate⟩ := out
  · exact ends_pure.2 rfl
  · exact ends_bind.2 (ends_modify.2 (ends_pure.2 rfl))

end Task

/-- What the estimate of a session and the configuration have in common. -/
structure AdaptiveBitrate.Fits (a : AdaptiveBitrate) (v : Video) : Prop where
  current : a.current ≤ 100000000
  min : a.min = v.minBitrate
  max : a.max = v.maxBitrate

namespace Runtime

variable {P : Command → Prop} {s s' s'' : Runtime} {w : Wake} {e : RuntimeEvent}

/-- No rate overflows when it is lowered. -/
structure Bounded (s : Runtime) : Prop where
  least : 500000 ≤ s.config.video.minBitrate
  order : s.config.video.minBitrate ≤ s.config.video.maxBitrate
  most : s.config.video.maxBitrate ≤ 100000000
  bitrate : s.config.video.bitrate ≤ 100000000
  session : ∀ session, s.run = .session session → session.abr.Fits s.config.video

theorem Bounded.moved (h : s.Bounded) (hs : Feeds P s s') (hconfig : s''.config = s'.config)
    (hsession : ∀ session, s''.run = .session session → session.abr.Fits s'.config.video) :
    s''.Bounded := by
  have hbounds := hs.bounds
  simp only [Prod.mk.injEq] at hbounds
  obtain ⟨hmin, hmax⟩ := hbounds
  refine ⟨?_, ?_, ?_, ?_, fun session hrun => ?_⟩
  · rw [hconfig, hmin]
    exact h.least
  · rw [hconfig, hmin, hmax]
    exact h.order
  · rw [hconfig, hmax]
    exact h.most
  · rw [hconfig]
    exact hs.bitrate h.bitrate
  · rw [hconfig]
    exact hsession session hrun

theorem Bounded.fed (h : s.Bounded) (hs : Feeds P s s') : s'.Bounded := by
  refine h.moved hs rfl fun session hrun => ?_
  have hfits := h.session session (hs.run.symm.trans hrun)
  have hbounds := hs.bounds
  simp only [Prod.mk.injEq] at hbounds
  exact ⟨hfits.current, hfits.min.trans hbounds.1.symm, hfits.max.trans hbounds.2.symm⟩

theorem resumed_ne_session (s : Runtime) (session : Session) : s.resumed ≠ .session session := by
  unfold resumed
  split <;> exact fun hrun => nomatch hrun

theorem incoming_bounded (h : s.Bounded) (i : Incoming) : (s.incoming w i).Bounded := by
  have hresumed : ({ s with run := s.resumed } : Runtime).Bounded := by
    exact h.moved (.refl (P := fun _ => True) s) rfl fun session hrun =>
      absurd hrun (resumed_ne_session s session)
  unfold incoming
  split
  · exact h.moved (.refl (P := fun _ => True) s) rfl nofun
  · exact hresumed
  · exact h.moved (.refl (P := fun _ => True) s) rfl nofun
  · exact hresumed
  · split
    · exact hresumed
    · exact h.moved (.refl (P := fun _ => True) s) rfl nofun

theorem wakeRun_bounded (h : s.Bounded) : (s.wakeRun w e).Bounded := by
  have hwakes := wakes s w e
  generalize s.wakeRun w e = s' at hwakes ⊢
  cases hwakes with
  | stays => exact h
  | incoming hphase => exact incoming_bounded h _
  | acted hphase hexec =>
    have hs := ((Task.act_feeds (E := fun _ => True) w _ (fun _ _ => trivial)
      fun _ _ => trivial).of_exec hexec).2
    refine h.moved hs rfl fun session hrun => ?_
    split at hrun
    · exact absurd hrun (resumed_ne_session _ _)
    · cases hrun
  | actFailed hphase hexec =>
    have hs := ((Task.act_feeds (E := fun _ => True) w _ (fun _ _ => trivial)
      fun _ _ => trivial).of_exec hexec).2
    exact h.moved hs rfl nofun
  | greeted hphase hexec =>
    have hs := ((Task.greet_feeds w _ _).of_exec hexec).2
    obtain ⟨hcurrent, hmin, hmax⟩ := (Task.greet_abr s w _ _).of_exec hexec _ rfl
    refine h.moved hs rfl ?_
    rintro _ ⟨⟩
    exact ⟨hcurrent ▸ hs.bitrate h.bitrate, hmin, hmax⟩
  | greetFailed hphase hexec =>
    exact h.moved ((Task.greet_feeds w _ _).of_exec hexec).2 rfl nofun
  | selected hphase hexec =>
    have hs := ((Task.select_feeds w _ e).of_exec hexec).2
    have habr := (Task.select_abr s w _ e).of_exec hexec
    have hfits := (h.fed hs).session _ (hs.run.trans hphase)
    refine h.moved hs rfl ?_
    rintro _ ⟨⟩
    cases habr with
    | kept _ habr => exact habr _ rfl ▸ hfits
    | refused hr => cases hr
    | chosen _ hr _ habr =>
      cases hr
      exact habr ▸ hfits
    | reported stats hr _ habr =>
      cases hr
      rw [habr]
      obtain ⟨hmin, hmax⟩ := AdaptiveBitrate.update_bounds _ stats w.now
      have hm := h.fed hs
      refine ⟨AdaptiveBitrate.update_current_le hfits.current ?_ ?_, hmin.trans hfits.min,
        hmax.trans hfits.max⟩
      · rw [hfits.min]
        exact UInt32.le_trans hm.order hm.most
      · rw [hfits.max]
        exact hm.most
  | stopped hphase hexec => exact h.moved ((Task.select_feeds w _ e).of_exec hexec).2 rfl nofun
  | failed hphase hexec => exact h.moved ((Task.select_feeds w _ e).of_exec hexec).2 rfl nofun
  | finished hphase hexec =>
    have hs := ((Task.finish_feeds w _ _).of_exec hexec).2
    exact h.moved hs rfl fun session hrun => absurd hrun (resumed_ne_session _ _)
  | finishFailed hphase hexec => exact h.moved ((Task.finish_feeds w _ _).of_exec hexec).2 rfl nofun

theorem wakeInput_bounded (h : s.Bounded) (i : ℕ) (p : Except Error Packet) :
    (s.wakeInput i p).Bounded := by
  have herased (m : Runtime) (inputs : List InputTask) (hm : m.Bounded) :
      Bounded { m with inputs := inputs } :=
    ⟨hm.least, hm.order, hm.most, hm.bitrate, hm.session⟩
  have hreads := reads s i p
  generalize s.wakeInput i p = s' at hreads ⊢
  cases hreads with
  | none => exact h
  | last _ _ hexec => exact herased _ _ (h.fed ((Task.read_feeds _ p).of_exec hexec).2)
  | read _ _ hexec => exact herased _ _ (h.fed ((Task.read_feeds _ p).of_exec hexec).2)
  | failed _ hexec =>
    rename_i _ _ m _
    have hm := herased m (m.inputs.eraseIdx i) (h.fed ((Task.read_feeds _ p).of_exec hexec).2)
    exact hm.fed (Task.command_feeds (P := fun _ => True) (E := fun _ => True) trivial
      fun _ => trivial).out.2

theorem step_bounded (h : s.Bounded) (i : Wake × RuntimeEvent) : (s.step i).Bounded := by
  obtain ⟨w, e⟩ := i
  unfold step
  split
  · exact ⟨h.least, h.order, h.most, h.bitrate, h.session⟩
  · exact wakeInput_bounded h _ _
  · split
    · exact ⟨h.least, h.order, h.most, h.bitrate, h.session⟩
    · exact h
  · exact ⟨h.least, h.order, h.most, h.bitrate, h.session⟩
  · split
    · split
      · exact ⟨h.least, h.order, h.most, h.bitrate, h.session⟩
      · exact h
    · exact h
  · exact wakeRun_bounded h

theorem initial_bounded (h : Initial s) : s.Bounded := by
  obtain ⟨config, changed, now, hvalid, rfl⟩ := h
  obtain ⟨-, -, -, hleast, hmin, hmax, hmost⟩ := Config.validate_eq_ok.1 hvalid
  exact ⟨hleast, UInt32.le_trans hmin hmax, hmost, UInt32.le_trans hmax hmost, nofun⟩

/-! ### What a report does to the target -/

/-- The session hands a report of congestion to its estimate, which is due. -/
structure Reports (s : Runtime) (w : Wake) (p : Packet) (session : Session) (stats : Statistics) :
    Prop where
  run : s.run = .session session
  token : p.session = session.token
  guard : session.guard < p.sequence.toNat
  message : p.message Statistics = .ok stats
  valid : stats.lossPpm ≤ 1000000 ∧ Task.fpsInRange stats.fps
  adaptive : s.config.video.adaptive = true
  due : session.abr.last + 1000000 ≤ w.now
  congested : Congested stats

/-- The target behind a report of congestion, `rate`, is three quarters of the target in
force, `target`, but not below `least`. -/
structure Lowers (least target rate : ℕ) : Prop where
  eq : rate = lowered least target
  le : rate ≤ target
  ne : least < target → rate ≠ target

/-- Two rates agree if both are the least one, or both lead to the same lower rate. -/
def Agrees (least target current : ℕ) : Prop :=
  if current = least then target = least else lowered least current = lowered least target

instance {least target current : ℕ} : Decidable (Agrees least target current) :=
  inferInstanceAs (Decidable (if current = least then target = least else
    lowered least current = lowered least target))

theorem agrees_self (least rate : ℕ) : Agrees least rate rate := by
  unfold Agrees
  split
  · assumption
  · rfl

theorem lowered_eq_self {least rate : ℕ} (hleast : 0 < least) :
    lowered least rate = rate ↔ rate = least := by
  unfold lowered
  omega

theorem lowers_iff {least target current : ℕ} (hleast : 0 < least) :
    Lowers least target (if current = least then target else lowered least current) ↔
      least ≤ target ∧ Agrees least target current := by
  unfold Agrees
  split
  · constructor
    · rintro ⟨heq, -, -⟩
      have htarget := (lowered_eq_self hleast).1 heq.symm
      exact ⟨htarget.ge, htarget⟩
    · rintro ⟨-, htarget⟩
      exact ⟨((lowered_eq_self hleast).2 htarget).symm, le_rfl, fun hlt => absurd htarget hlt.ne'⟩
  · constructor
    · rintro ⟨heq, hle, -⟩
      refine ⟨?_, heq⟩
      have hlower : least ≤ lowered least target := le_max_left ..
      omega
    · rintro ⟨hle, heq⟩
      refine ⟨heq, ?_, fun hlt hself => ?_⟩
      · rw [heq]
        unfold lowered
        omega
      · rw [heq] at hself
        have htarget := (lowered_eq_self hleast).1 hself
        omega

/-- The new target of a pipeline after a report. -/
theorem step_reports {p : Packet} {session : Session} {stats : Statistics}
    (h : Reports s w p session stats) :
    (s.step (w, .packet (some (.ok p)))).pipeline.bitrate =
      (session.abr.update stats w.now).2.getD s.pipeline.bitrate := by
  have hpacket := Task.packet_report (w := w) h.token h.guard h.message h.valid h.adaptive
  show (s.wakeRun w (.packet (some (.ok p)))).pipeline.bitrate = _
  unfold wakeRun
  rw [h.run]
  dsimp only [Task.select]
  unfold Ends at hpacket
  generalize exec (Task.packet w session p) s = out at hpacket ⊢
  obtain ⟨(error | session' | immediate), s'⟩ := out
  · exact hpacket
  · exact hpacket
  · exact hpacket

/-- In any run, a report of congestion lowers the target as it should exactly where the target is
not below the least bitrate and the estimate of the session agrees with it. -/
theorem report_lowers_iff {p : Packet} {session : Session} {stats : Statistics}
    (hbounded : s.Bounded) (h : Reports s w p session stats) :
    Lowers s.config.video.minBitrate.toNat s.pipeline.bitrate.toNat
        (s.step (w, .packet (some (.ok p)))).pipeline.bitrate.toNat ↔
      s.config.video.minBitrate.toNat ≤ s.pipeline.bitrate.toNat ∧
        Agrees s.config.video.minBitrate.toNat s.pipeline.bitrate.toNat
          session.abr.current.toNat := by
  have hfits := hbounded.session session h.run
  have hleast : 0 < s.config.video.minBitrate.toNat := by
    have hle : 500000 ≤ s.config.video.minBitrate.toNat := hbounded.least
    omega
  have hlowered : (Max.max (session.abr.current * 3 / 4) session.abr.min).toNat =
      lowered s.config.video.minBitrate.toNat session.abr.current.toNat := by
    rw [AdaptiveBitrate.toNat_lowered hfits.current, hfits.min]
  have hself := @lowered_eq_self _ session.abr.current.toNat hleast
  rw [← lowers_iff hleast, step_reports h,
    (AdaptiveBitrate.update_congested h.due h.congested).2]
  generalize Max.max (session.abr.current * 3 / 4) session.abr.min = rate at hlowered ⊢
  split
  · rename_i hne
    have hmin : session.abr.current.toNat ≠ s.config.video.minBitrate.toNat := by
      intro hmin
      exact hne (UInt32.toNat_inj.1 ((hself.2 hmin).symm.trans hlowered.symm))
    rw [if_neg hmin, ← hlowered]
    rfl
  · rename_i heq
    have hcurrent : session.abr.current = rate := not_not.1 heq
    have hmin : session.abr.current.toNat = s.config.video.minBitrate.toNat := by
      refine hself.1 ?_
      rw [← hlowered, hcurrent]
    rw [if_pos hmin]
    rfl

end Runtime

end Host
end SidecarDOS
