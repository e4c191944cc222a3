/-
# What the tray does to the configuration

A handler of a tray action changes the configuration in memory, then validates and
saves it, and returns the error if that fails.  A position is always valid.  But the
three rates of the quality menu are fixed, and the bounds of the bitrate are the
user's: a rate outside of them is rejected when it is already set, `run` returns the
error, and the host ends (`quality_rejected`).  As long as every rate that the tray
asks for lies within the bounds, the configuration stays valid and no handler fails,
and it is only then that a handler does not (`tray_actions`).
-/

import SidecarDOS.Host.Sessions

namespace SidecarDOS
namespace Host

open Library (Reaches Along Ends Within exec ends_pure ends_throw ends_bind ends_get ends_modify)

/-- If the tray asks for a rate, it lies within the bounds. -/
def Config.Suits (c : Config) (a : Action) : Prop :=
  ∀ q, a = .quality q → c.video.minBitrate ≤ Task.rateOf q ∧ Task.rateOf q ≤ c.video.maxBitrate

/-- The configuration with the position or the quality that the tray asks for. -/
def Config.after (c : Config) : Action → Config
  | .position p => { c with display.position := p }
  | .quality q => { c with video.adaptive := q = 0, video.bitrate := Task.rateOf q }
  | _ => c

/-- The bounds are all that a valid configuration can lose. -/
theorem Config.validate_after {c : Config} (h : c.validate = .ok ()) (a : Action) :
    (c.after a).validate = .ok () ↔ c.Suits a := by
  obtain ⟨hfps, hport, hgrace, hleast, hmin, hmax, hmost⟩ := Config.validate_eq_ok.1 h
  cases a with
  | disconnect => exact ⟨fun _ => nofun, fun _ => h⟩
  | exit => exact ⟨fun _ => nofun, fun _ => h⟩
  | position p =>
    exact ⟨fun _ => nofun, fun _ => Config.validate_eq_ok.2
      ⟨hfps, hport, hgrace, hleast, hmin, hmax, hmost⟩⟩
  | quality q =>
    constructor
    · rintro hvalid _ ⟨⟩
      obtain ⟨-, -, -, -, hmin, hmax, -⟩ := Config.validate_eq_ok.1 hvalid
      exact ⟨hmin, hmax⟩
    · intro hsuits
      obtain ⟨hmin, hmax⟩ := hsuits q rfl
      exact Config.validate_eq_ok.2 ⟨hfps, hport, hgrace, hleast, hmin, hmax, hmost⟩

theorem Config.save_written (c : Config) : c.save true = c.validate := by
  unfold Config.save
  split
  · rename_i h
    rw [h]
    rfl
  · rename_i h
    exact h.symm

namespace Task

variable {s : Runtime} {w : Wake}

/-! ### The tasks that leave the configuration alone -/

/-- The configuration is as it was. -/
def Spares (s s' : Runtime) : Prop := s'.config = s.config

instance : Std.Refl Spares := ⟨fun _ => rfl⟩

instance : IsTrans Runtime Spares := ⟨fun _ _ _ h h' => h'.trans h⟩

theorem lift_spares {α β : Type} {x : Except Error α} {k : α → Task β}
    (hk : ∀ a, Within Spares (fun _ => True) (k a) s) :
    Within Spares (fun _ => True) (lift x >>= k) s := by
  cases x with
  | ok a => exact hk a
  | error e => exact .throw trivial

theorem command_spares (c : Command) : Within Spares (fun _ => True) (command c) s := by
  unfold command
  exact .get_bind (.demand_bind trivial fun _ => .modify rfl)

theorem write_spares {T : Type} [Wire T] (v : T) (sequence : UInt64) (token : Id16) :
    Within Spares (fun _ => True) (write w v sequence token) s := by
  unfold write
  exact .demand_bind trivial fun _ => .modify rfl

theorem greet_spares (id : Id16) (modes : Except Error (List DisplayMode)) :
    Within Spares (fun _ => True) (greet w id modes) s := by
  unfold greet
  refine lift_spares fun modes => ?_
  dsimp only
  split
  · refine .demand_bind trivial fun _ => (command_spares _).bind fun _ _ _ => ?_
    refine (write_spares ..).bind fun _ _ _ => (write_spares ..).bind fun _ _ _ => ?_
    exact .get_bind (.pure _)
  · exact .throw trivial

theorem packet_spares (session : Session) (p : Packet) :
    Within Spares (fun _ => True) (packet w session p) s := by
  unfold packet
  refine .demand_bind trivial fun _ => .demand_bind trivial fun _ => ?_
  dsimp only
  refine .ite (fun _ => ?_) fun _ => .ite (fun _ => ?_) fun _ => .ite (fun _ => ?_) fun _ =>
    .ite (fun _ => ?_) fun _ => .ite (fun _ => ?_) fun _ => .throw trivial
  · exact lift_spares fun _ => .pure _
  · refine lift_spares fun _ => .ite (fun _ => ?_) fun _ => .pure _
    exact .modify_bind rfl (.pure _)
  · exact lift_spares fun _ => (command_spares _).bind fun _ _ _ => .pure _
  · refine lift_spares fun stats => .demand_bind trivial fun _ => .get_bind ?_
    refine .ite (fun _ => ?_) fun _ => .pure _
    split
    · exact .modify_bind rfl (.pure _)
    · exact .pure _
  · exact lift_spares fun _ => (write_spares ..).bind fun _ _ _ => .pure _

theorem finish_spares (id : Id16) (result : Except Error Bool) :
    Within Spares (fun _ => True) (finish w id result) s := by
  unfold finish
  exact .get_bind ((command_spares _).bind fun _ _ _ => .modify rfl)

/-- The arms of `session` other than tray actions. -/
theorem select_spares (session : Session) {e : RuntimeEvent}
    (he : ∀ a, e ≠ .action (some a)) : Within Spares (fun _ => True) (select w session e) s := by
  unfold select
  split
  · exact .throw trivial
  · exact .throw trivial
  · exact packet_spares ..
  · refine .ite (fun _ => .pure _) fun _ => .demand_bind trivial fun _ => ?_
    exact .modify_bind rfl (.pure _)
  · refine .get_bind ?_
    dsimp only
    split
    · exact .pure _
    · refine .ite (fun _ => .modify_bind rfl ?_) fun _ => ?_
      all_goals
        split
        · exact .throw trivial
        · exact .ite (fun _ => .modify_bind rfl (.pure _)) fun _ => .pure _
  · refine .get_bind ?_
    dsimp only
    split
    · exact .pure _
    · refine .modify_bind rfl ?_
      split
      · exact (write_spares ..).bind fun _ _ _ => .pure _
      · exact .throw trivial
  · exact absurd rfl (he _)
  · exact absurd rfl (he _)
  · exact .throw trivial
  · exact absurd rfl (he _)
  · exact absurd rfl (he _)
  · exact .throw trivial
  · exact .pure _

/-! ### Tray actions -/

/-- What a handler leaves: the configuration that the tray asks for, and no error where it
can be saved and enqueued. -/
def Obeys (w : Wake) (s : Runtime) (a : Action) {α : Type} (r : Except Error α) (s' : Runtime) :
    Prop :=
  s'.config = s.config.after a ∧ (w.written = true → s.Room →
    ((∃ v, r = .ok v) ↔ (s.config.after a).validate = .ok ()))

theorem ends_lift {α β : Type} {x : Except Error α} {k : α → Task β}
    {Q : Except Error β → Runtime → Prop} (hok : ∀ a, x = .ok a → Ends (k a) s Q)
    (herror : ∀ e, x = .error e → Q (.error e) s) : Ends (lift x >>= k) s Q := by
  cases x with
  | ok a => exact hok a rfl
  | error e => exact herror e rfl

/-- A configuration that is rejected is not valid, if it can be written. -/
theorem obeys_rejected {a : Action} {s' : Runtime} {α : Type} {e e' : Error}
    (hconfig : s'.config = s.config.after a) (h : (s.config.after a).save w.written = .error e) :
    Obeys w s a (.error e' : Except Error α) s' := by
  refine ⟨hconfig, fun hwritten _ => ⟨nofun, fun hvalid => ?_⟩⟩
  rw [hwritten, Config.save_written] at h
  exact nomatch h.symm.trans hvalid

theorem obeys_saved {a : Action} {s' : Runtime} {α : Type} {v : α}
    (hconfig : s'.config = s.config.after a) (h : (s.config.after a).save w.written = .ok ()) :
    Obeys w s a (.ok v) s' := by
  refine ⟨hconfig, fun hwritten _ => ⟨fun _ => ?_, fun _ => ⟨v, rfl⟩⟩⟩
  rwa [hwritten, Config.save_written] at h

theorem position_obeys (p : Position) : Ends (position w p) s (Obeys w s (.position p)) := by
  unfold position
  refine ends_bind.2 (ends_modify.2 (ends_bind.2 (ends_get.2 ?_)))
  refine ends_lift (fun _ hsave => ?_) fun e hsave => obeys_rejected rfl hsave
  refine (command_spec _ _).mono ?_
  rintro r s' (⟨-, rfl, rfl⟩ | ⟨hroom, rfl, rfl⟩)
  · exact obeys_saved rfl hsave
  · exact ⟨rfl, fun _ h => absurd h hroom⟩

theorem quality_obeys (q : UInt8) : Ends (quality w q) s (Obeys w s (.quality q)) := by
  unfold quality
  refine ends_bind.2 (ends_modify.2 (ends_bind.2 (ends_get.2 ?_)))
  refine ends_lift (fun _ hsave => ?_) fun e hsave => obeys_rejected rfl hsave
  exact obeys_saved rfl hsave

/-- What follows a preference in a handler does not fail. -/
theorem obeys_bind {α β : Type} {a : Action} {m : Task α} {k : α → Task β} {v : β}
    (h : Ends m s (Obeys w s a)) (hk : ∀ x s', exec (k x) s' = (.ok v, s')) :
    Ends (m >>= k) s (Obeys w s a) := by
  refine h.bind (fun x s' hx => ?_) fun e s' he => ?_
  · unfold Ends
    rw [hk x s']
    exact ⟨hx.1, fun hwritten hroom =>
      ⟨fun _ => (hx.2 hwritten hroom).1 ⟨x, rfl⟩, fun _ => ⟨v, rfl⟩⟩⟩
  · exact ⟨he.1, fun hwritten hroom => ⟨nofun, fun hvalid => nomatch (he.2 hwritten hroom).2 hvalid⟩⟩

/-- The handler of a tray action in `run`. -/
theorem act_obeys {a : Action} (h : s.config.validate = .ok ()) (ha : a ≠ .exit) :
    Ends (act w (some a)) s (Obeys w s a) := by
  cases a with
  | exit => exact absurd rfl ha
  | position p => exact obeys_bind (position_obeys p) fun _ _ => rfl
  | quality q => exact obeys_bind (quality_obeys q) fun _ _ => rfl
  | disconnect =>
    refine ends_bind.2 (ends_modify.2 (Ends.bind (command_spec _ _) ?_ ?_))
    · rintro _ s' (⟨-, -, rfl⟩ | ⟨-, hr, -⟩)
      · exact ⟨rfl, fun _ _ => ⟨fun _ => h, fun _ => ⟨true, rfl⟩⟩⟩
      · cases hr
    · rintro e s' (⟨-, hr, -⟩ | ⟨hroom, -, rfl⟩)
      · cases hr
      · exact ⟨rfl, fun _ hr => absurd hr hroom⟩

/-- The handler of a tray action in `session`. -/
theorem select_obeys {session : Session} {a : Action} (h : s.config.validate = .ok ())
    (ha : a ≠ .exit) : Ends (select w session (.action (some a))) s (Obeys w s a) := by
  cases a with
  | exit => exact absurd rfl ha
  | position p => exact obeys_bind (position_obeys p) fun _ _ => rfl
  | quality q => exact obeys_bind (quality_obeys q) fun _ _ => rfl
  | disconnect => exact ⟨rfl, fun _ _ => ⟨fun _ => h, fun _ => ⟨.inr true, rfl⟩⟩⟩

/-- The handler of a tray action, in the loop where `run` is. -/
def tray (w : Wake) (phase : Phase) (a : Action) : Task Unit :=
  match phase with
  | .session session => do let _ ← select w session (.action (some a))
  | _ => do let _ ← act w (some a)

theorem tray_obeys {phase : Phase} {a : Action} (h : s.config.validate = .ok ()) (ha : a ≠ .exit) :
    Ends (tray w phase a) s (Obeys w s a) := by
  unfold tray
  split
  · exact obeys_bind (select_obeys h ha) fun _ _ => rfl
  · exact obeys_bind (act_obeys h ha) fun _ _ => rfl

end Task

namespace Runtime

variable {s s' : Runtime} {w : Wake} {e : RuntimeEvent}

/-- `run` waits where it takes tray actions. -/
def Listens (s : Runtime) : Prop := s.run = .accepting ∨ ∃ session, s.run = .session session

/-- The handler of a tray action returns no error and leaves a valid configuration, or the
configuration as it was. -/
structure Handles (s : Runtime) (w : Wake) (a : Action) : Prop where
  ok : (exec (Task.tray w s.run a) s).1 = .ok ()
  valid : (exec (Task.tray w s.run a) s).2.config.validate = .ok ()
  rejected : ∀ e, (exec (Task.tray w s.run a) s).1 = .error e →
    (exec (Task.tray w s.run a) s).2.config = s.config

theorem handles_iff {a : Action} (h : s.config.validate = .ok ()) (ha : a ≠ .exit)
    (hwritten : w.written = true) (hroom : s.Room) : s.Handles w a ↔ s.config.Suits a := by
  have hobeys : Task.Obeys w s a (exec (Task.tray w s.run a) s).1 (exec (Task.tray w s.run a) s).2 :=
    Task.tray_obeys h ha
  obtain ⟨hconfig, hok⟩ := hobeys
  rw [← Config.validate_after h a, ← hok hwritten hroom]
  constructor
  · exact fun hhandles => ⟨(), hhandles.ok⟩
  · rintro ⟨⟨⟩, hv⟩
    refine ⟨hv, ?_, fun e he => nomatch hv.symm.trans he⟩
    rw [hconfig]
    exact (hok hwritten hroom).1 ⟨(), hv⟩

/-! ### Runs -/

/-- The quality that the tray asks for suits the bounds of the configuration. -/
def Suited (s : Runtime) (i : Wake × RuntimeEvent) : Prop :=
  s.Listens → ∀ a, i.2 = .action (some a) → s.config.Suits a

theorem incoming_config (s : Runtime) (w : Wake) (i : Incoming) :
    (s.incoming w i).config = s.config := by
  unfold incoming
  split
  · rfl
  · rfl
  · rfl
  · rfl
  · split
    · rfl
    · rfl

/-- What an arm of `session` does to the configuration. -/
theorem select_valid {session : Session} (h : s.config.validate = .ok ())
    (hs : ∀ a, e = .action (some a) → s.config.Suits a) :
    Within (fun _ s' => s'.config.validate = .ok ()) (fun _ => True) (Task.select w session e) s := by
  by_cases he : ∃ a, e = .action (some a) ∧ a ≠ .exit
  · obtain ⟨a, rfl, ha⟩ := he
    refine (Task.select_obeys h ha).mono fun r s' hr => ⟨fun _ _ => trivial, ?_⟩
    exact (congrArg Config.validate hr.1).trans ((Config.validate_after h a).2 (hs a rfl))
  · by_cases hexit : e = .action (some .exit)
    · subst hexit
      exact ends_throw.2 ⟨fun _ _ => trivial, h⟩
    · refine (Task.select_spares session fun a ha => ?_).weaken
        (fun s' hr => hr ▸ h) fun _ _ => trivial
      by_cases hne : a = .exit
      · exact hexit (hne ▸ ha)
      · exact he ⟨a, ha, hne⟩

theorem act_valid {a : Option Action} (h : s.config.validate = .ok ())
    (hs : ∀ b, a = some b → s.config.Suits b) :
    Within (fun _ s' => s'.config.validate = .ok ()) (fun _ => True) (Task.act w a) s := by
  by_cases ha : ∃ b, a = some b ∧ b ≠ .exit
  · obtain ⟨b, rfl, hb⟩ := ha
    refine (Task.act_obeys h hb).mono fun r s' hr => ⟨fun _ _ => trivial, ?_⟩
    exact (congrArg Config.validate hr.1).trans ((Config.validate_after h b).2 (hs b rfl))
  · unfold Task.act
    split
    · exact ends_pure.2 ⟨fun _ _ => trivial, h⟩
    · exact ends_pure.2 ⟨fun _ _ => trivial, h⟩
    · exact absurd ⟨_, rfl, nofun⟩ ha
    · exact absurd ⟨_, rfl, nofun⟩ ha
    · exact absurd ⟨_, rfl, nofun⟩ ha

theorem wakeRun_valid (h : s.config.validate = .ok ()) (hs : s.Suited (w, e)) :
    (s.wakeRun w e).config.validate = .ok () := by
  have hwakes := wakes s w e
  generalize s.wakeRun w e = s' at hwakes ⊢
  cases hwakes with
  | stays => exact h
  | incoming hphase =>
    rw [incoming_config]
    exact h
  | acted hphase hexec =>
    exact ((act_valid h fun b hb => hs (.inl hphase) b (congrArg _ hb)).of_exec hexec).2
  | actFailed hphase hexec =>
    exact ((act_valid h fun b hb => hs (.inl hphase) b (congrArg _ hb)).of_exec hexec).2
  | greeted hphase hexec =>
    have hspares : Task.Spares s _ := ((Task.greet_spares ..).of_exec hexec).2
    exact (congrArg Config.validate hspares).trans h
  | greetFailed hphase hexec =>
    have hspares : Task.Spares s _ := ((Task.greet_spares ..).of_exec hexec).2
    exact (congrArg Config.validate hspares).trans h
  | selected hphase hexec =>
    exact ((select_valid h fun b hb => hs (.inr ⟨_, hphase⟩) b hb).of_exec hexec).2
  | stopped hphase hexec =>
    exact ((select_valid h fun b hb => hs (.inr ⟨_, hphase⟩) b hb).of_exec hexec).2
  | failed hphase hexec =>
    exact ((select_valid h fun b hb => hs (.inr ⟨_, hphase⟩) b hb).of_exec hexec).2
  | finished hphase hexec =>
    have hspares : Task.Spares s _ := ((Task.finish_spares ..).of_exec hexec).2
    exact (congrArg Config.validate hspares).trans h
  | finishFailed hphase hexec =>
    have hspares : Task.Spares s _ := ((Task.finish_spares ..).of_exec hexec).2
    exact (congrArg Config.validate hspares).trans h

theorem wakeInput_config (s : Runtime) (i : ℕ) (p : Except Error Packet) :
    (s.wakeInput i p).config = s.config := by
  have hrounds := rounds s i p
  generalize s.wakeInput i p = s' at hrounds ⊢
  cases hrounds with
  | none => rfl
  | read => rfl
  | failed => rfl
  | full => rfl

theorem step_valid (h : s.config.validate = .ok ()) {i : Wake × RuntimeEvent} (hs : s.Suited i) :
    (s.step i).config.validate = .ok () := by
  obtain ⟨w, e⟩ := i
  unfold step
  split
  · exact h
  · rw [wakeInput_config]
    exact h
  · split
    · exact h
    · exact h
  · exact h
  · split
    · split
      · exact h
      · exact h
    · exact h
  · exact wakeRun_valid h hs

/-- **Tray actions keep the configuration valid** in every run in which the rates that the
tray asks for lie within the bounds.  In every state of such a run in which tray actions
are taken, with room in the queue, the handler of an action returns no error and leaves
a valid configuration exactly if the action suits the bounds. -/
theorem tray_actions (h : Reaches step Initial Suited s) : s.config.validate = .ok () ∧
    ∀ w a, s.Listens → a ≠ .exit → w.written = true → s.Room →
      (s.Handles w a ↔ s.config.Suits a) := by
  have hvalid : s.config.validate = .ok () := by
    refine h.invariant (I := fun s => s.config.validate = .ok ()) ?_ fun _ _ h hs => step_valid h hs
    rintro _ ⟨config, _, _, hvalid, rfl⟩
    exact hvalid
  exact ⟨hvalid, fun w a _ ha hwritten hroom => handles_iff hvalid ha hwritten hroom⟩

/-- The tray asks for another position and for the best quality. -/
def sampleActions : List (Wake × RuntimeEvent) :=
  [(sampleWake, .action (some (.position .left))), (sampleWake, .action (some (.quality 2)))]

theorem sampleActions_suited : Along step Suited sampleHost sampleActions := by
  refine ⟨fun _ a ha => ?_, fun _ a ha => ?_, trivial⟩
  · cases ha
    exact nofun
  · cases ha
    rintro _ ⟨⟩
    exact ⟨by decide, by decide⟩

/-- The hypotheses of `tray_actions` are satisfiable: with the default configuration, behind
two actions, the tray may ask for less again. -/
theorem tray_actions_sample : (sampleActions.foldl step sampleHost).Handles sampleWake (.quality 1) := by
  have hreaches := (Reaches.init sampleHost_initial).along sampleActions_suited
  refine ((tray_actions hreaches).2 sampleWake (.quality 1) (.inl rfl) nofun rfl
    ⟨by decide, rfl⟩).2 ?_
  rintro _ ⟨⟩
  exact ⟨by decide, by decide⟩

/-- A configuration for a slow network, which `validate` accepts. -/
def sampleSlow : Config :=
  { video := { bitrate := 1000000, minBitrate := 500000, maxBitrate := 2000000 } }

def sampleSlowHost : Runtime := { config := sampleSlow, pipeline := .spawn sampleSlow false 0 }

/-- The property fails when the tray asks for the automatic quality, which stands for
12 Mbit/s: the handler returns an error, the configuration has become invalid, and the host
ends. -/
theorem quality_rejected : (¬ ∀ s, Reaches step Initial (fun _ _ => True) s →
      s.config.validate = .ok () ∧ ∀ w a, s.Listens → a ≠ .exit → w.written = true → s.Room →
        s.Handles w a) ∧
    (sampleSlowHost.step (sampleWake, .action (some (.quality 0)))).run =
      .returned (.error (.ensure "invalid bitrate bounds")) ∧
    (sampleSlowHost.step (sampleWake, .action (some (.quality 0)))).config.validate =
      .error (.ensure "invalid bitrate bounds") := by
  refine ⟨fun h => ?_, rfl, rfl⟩
  have hinit : Initial sampleSlowHost := ⟨sampleSlow, false, 0, by decide, rfl⟩
  have hhandles := (h _ (.init hinit)).2 sampleWake (.quality 0) (.inl rfl) nofun rfl
    ⟨by decide, rfl⟩
  exact nomatch hhandles.ok

end Runtime
end Host
end SidecarDOS
