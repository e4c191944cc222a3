/-
# The end of a session

Behind every session `run` enqueues a `Disconnect` for the pipeline thread, with a
`?`: where the queue of 256 commands is full, `run` returns the error, and the host
ends with it.  An authenticated client fills the queue with input events while the
thread is slow (`teardown_lost`).  As long as the queue has room whenever `run`
enqueues a command, every session is torn down, and nothing but a configuration that
cannot be saved makes `run` return an error (`tears_down`).
-/

import SidecarDOS.Host.Reservation
import SidecarDOS.Host.Tasks
import SidecarDOS.Protocol.Codec

namespace SidecarDOS
namespace Host

open Library (Reaches Along Ends exec ends_pure)

/-! ### The thread stays in its loop -/

namespace Op

variable {s : Pipeline} {t : Turn} {cmd : Option Command}

/-- The result is not the one that leaves the loop. -/
abbrev Goes (m : Op Bool) (s : Pipeline) : Prop := Ends m s fun r _ => r ≠ .ok false

theorem goes_true : Goes (pure true) s := ends_pure.2 nofun

theorem goes_bind {α : Type} {m : Op α} {k : α → Op Bool} (h : ∀ a s', Goes (k a) s') :
    Goes (m >>= k) s :=
  .last h fun _ _ => nofun

theorem handle_goes (h : cmd ≠ some .shutdown) : Goes (handle t cmd) s := by
  unfold handle
  split
  · exact absurd rfl h
  · exact goes_bind fun _ _ => goes_true
  · exact goes_bind fun _ _ => goes_true
  · exact goes_bind fun _ _ => .ite (fun _ => goes_bind fun _ _ => goes_true) fun _ => goes_true
  · exact goes_bind fun _ _ => goes_true
  · exact goes_bind fun _ _ => goes_true
  · exact goes_true

theorem operation_goes (h : cmd ≠ some .shutdown) : Goes (operation t cmd) s := by
  unfold operation
  refine Ends.bind (handle_goes h) (fun go s' hgo => .ite (fun hn => ?_) fun _ => ?_)
    fun _ _ _ => nofun
  · rw [Bool.not_eq_true] at hn
    exact absurd (congrArg _ hn) hgo
  · refine goes_bind fun _ _ => goes_bind fun s _ => .ite (fun _ => ?_) fun _ => goes_true
    exact goes_bind fun _ _ => goes_bind fun _ _ => goes_true

end Op

/-- The loop is left for the sake of `Shutdown` alone. -/
theorem Pipeline.turn_stopped {s : Pipeline} {t : Turn} {cmd : Option Command}
    (h : cmd ≠ some .shutdown) : (s.turn t cmd).stopped = s.stopped := by
  by_cases href : ∃ device modes, cmd = some (.connect device modes) ∧ s.state.accepts device = false
  · obtain ⟨device, modes, rfl, href⟩ := href
    rw [turn_refused (refuses_iff.2 href)]
    rfl
  · have hminds := Op.operation_minds (s := s) t cmd fun device modes hcmd => by
      by_contra hn
      exact href ⟨device, modes, hcmd, by simpa using hn⟩
    have hs := hminds.out.2
    have hgoes : (exec (Op.operation t cmd) s).1 ≠ .ok false := Op.operation_goes h
    unfold turn
    generalize exec (Op.operation t cmd) s = out at hs hgoes ⊢
    obtain ⟨(e | _ | _), s'⟩ := out
    · exact hs.stopped
    · exact absurd rfl hgoes
    · exact hs.stopped

namespace Runtime

variable {P : Command → Prop} {s s' s'' : Runtime} {w : Wake} {e : RuntimeEvent}

/-- Nothing but a configuration that cannot be saved ends the host with an error. -/
def Alive (s : Runtime) : Prop := ∀ e, s.run = .returned (.error e) → SaveError e

/-- Behind a session, `run` enqueues the session's `Disconnect` and accepts the next one,
unless the host has been asked to exit. -/
def TearsDown (s : Runtime) : Prop := ∀ id result, s.run = .ended id result → ∀ w,
  (s.step (w, .finish)).run = s.resumed ∧ (s.step (w, .finish)).queue =
    s.queue ++ [.disconnect (decide (result = .ok true ∨ s.exit = true))]

/-- `run` is about to enqueue a command. -/
def Enqueues (s : Runtime) (e : RuntimeEvent) : Prop :=
  (e = .finish ∧ ∃ id result, s.run = .ended id result) ∨ (s.run = .accepting ∧
    (e = .action (some .disconnect) ∨ ∃ p, e = .action (some (.position p))))

/-- The queue has room whenever `run` enqueues a command. -/
def Roomy (s : Runtime) (e : Wake × RuntimeEvent) : Prop := s.Enqueues e.2 → s.queue.length < 256

/-- `run` has not returned. -/
def Running (s : Runtime) : Prop := ∀ r, s.run ≠ .returned r

/-- While `run` is there, the thread is in its loop and is not to be shut down. -/
structure Lives (s : Runtime) : Prop where
  alive : s.Alive
  running : s.Running → .shutdown ∉ s.queue ∧ s.pipeline.stopped = false

theorem resumed_ne (s : Runtime) (e : Error) : s.resumed ≠ .returned (.error e) := by
  unfold resumed
  split <;> nofun

/-- Who enqueues no `Shutdown` leaves none behind. -/
theorem Feeds.not_mem (hs : Feeds P s s') (hP : ¬ P .shutdown) (h : .shutdown ∉ s.queue) :
    .shutdown ∉ s'.queue := by
  obtain ⟨l, hl, hPl⟩ := hs.queue
  intro hmem
  rw [hl] at hmem
  rcases List.mem_append.1 hmem with hmem | hmem
  · exact h hmem
  · exact hP (hPl _ hmem)

theorem Feeds.lives (hs : Feeds P s s') (hP : ¬ P .shutdown) (h : s.Lives) : s'.Lives where
  alive := fun e he => h.alive e (hs.run.symm.trans he)
  running := fun hrun => by
    obtain ⟨hqueue, hstopped⟩ := h.running fun r hr => hrun r (hs.run.trans hr)
    exact ⟨hs.not_mem hP hqueue, hs.stopped.trans hstopped⟩

/-- `run` goes on to its next wait. -/
theorem Lives.moved (h : s.Lives) (hrun : s.Running) (hs : Feeds P s s') (hP : ¬ P .shutdown)
    (hs' : (s''.pipeline.stopped, s''.queue) = (s'.pipeline.stopped, s'.queue))
    (halive : s''.Alive) : s''.Lives := by
  obtain ⟨hqueue, hstopped⟩ := h.running hrun
  simp only [Prod.mk.injEq] at hs'
  refine ⟨halive, fun _ => ⟨?_, ?_⟩⟩
  · rw [hs'.2]
    exact hs.not_mem hP hqueue
  · rw [hs'.1, hs.stopped, hstopped]

theorem incoming_lives (h : s.Lives) (hrun : s.Running) (i : Incoming) :
    (s.incoming w i).Lives := by
  have hresumed : ({ s with run := s.resumed } : Runtime).Lives :=
    h.moved hrun (.refl (P := fun _ => False) s) id rfl fun e he => absurd he (resumed_ne s e)
  unfold incoming
  split
  · exact h.moved hrun (.refl (P := fun _ => False) s) id rfl nofun
  · exact hresumed
  · exact h.moved hrun (.refl (P := fun _ => False) s) id rfl nofun
  · exact hresumed
  · split
    · exact hresumed
    · exact h.moved hrun (.refl (P := fun _ => False) s) id rfl nofun

theorem accepting_lives (h : s.Lives) (hphase : s.run = .accepting) (hok : s.Roomy (w, e)) :
    (s.wakeRun w e).Lives := by
  have hrun : s.Running := fun r hr => nomatch hphase.symm.trans hr
  unfold wakeRun
  rw [hphase]
  dsimp only
  split
  · exact incoming_lives h hrun _
  · rename_i a
    have hroom : a = some .disconnect ∨ (∃ p, a = some (.position p)) → s.Room := by
      intro ha
      exact ⟨hok (.inr ⟨hphase, by simpa using ha⟩), (h.running hrun).2⟩
    obtain ⟨herror, hs⟩ := (Task.act_feeds (s := s) (E := SaveError) w a
      (fun ha hn => absurd (hroom ha) hn) fun _ => id).out
    generalize exec (Task.act w a) s = out at herror hs ⊢
    obtain ⟨(e | _ | _), s'⟩ := out
    · refine h.moved hrun hs (by simp) rfl ?_
      rintro _ ⟨⟩
      exact herror e rfl
    · exact h.moved hrun hs (by simp) rfl nofun
    · exact h.moved hrun hs (by simp) rfl fun e he => absurd he (resumed_ne s' e)
  · exact h

theorem greeting_lives (h : s.Lives) {id : Id16} (hphase : s.run = .greeting id) :
    (s.wakeRun w e).Lives := by
  have hrun : s.Running := fun r hr => nomatch hphase.symm.trans hr
  unfold wakeRun
  rw [hphase]
  dsimp only
  split
  · rename_i modes
    have hs := (Task.greet_feeds (s := s) w id modes).out.2
    generalize exec (Task.greet w id modes) s = out at hs ⊢
    obtain ⟨(e | session), s'⟩ := out
    · exact h.moved hrun hs (by simp) rfl nofun
    · exact h.moved hrun hs (by simp) rfl nofun
  · exact h

theorem session_lives (h : s.Lives) {session : Session} (hphase : s.run = .session session) :
    (s.wakeRun w e).Lives := by
  have hrun : s.Running := fun r hr => nomatch hphase.symm.trans hr
  have hs := (Task.select_feeds (s := s) w session e).out.2
  have hP : ¬ Task.Adjusts .shutdown := by simp [Task.Adjusts]
  unfold wakeRun
  rw [hphase]
  dsimp only
  generalize exec (Task.select w session e) s = out at hs ⊢
  obtain ⟨(e | session | immediate), s'⟩ := out
  · exact h.moved hrun hs hP rfl nofun
  · exact h.moved hrun hs hP rfl nofun
  · exact h.moved hrun hs hP rfl nofun

/-- Behind a session, `run` goes on or returns the error. -/
theorem wakeRun_finish {id : Id16} {result : Except Error Bool} (hphase : s.run = .ended id result)
    (w : Wake) :
    (s.Room ∧ (s.wakeRun w .finish).run = s.resumed ∧
      (s.wakeRun w .finish).pipeline = s.pipeline ∧ (s.wakeRun w .finish).queue =
        s.queue ++ [.disconnect (decide (result = .ok true ∨ s.exit = true))]) ∨
      (¬ s.Room ∧ s.wakeRun w .finish = { s with run := .returned (.error Task.full) }) := by
  have hfinish := Task.finish_spec s w id result
  unfold Ends at hfinish
  unfold wakeRun
  rw [hphase]
  dsimp only
  generalize exec (Task.finish w id result) s = out at hfinish ⊢
  obtain ⟨r, s'⟩ := out
  obtain ⟨hroom, rfl, hexit, hpipeline, hqueue⟩ | ⟨hn, rfl, rfl⟩ := hfinish
  · refine .inl ⟨hroom, ?_, hpipeline, hqueue⟩
    show s'.resumed = s.resumed
    rw [resumed, resumed, hexit]
  · exact .inr ⟨hn, rfl⟩

theorem ended_lives (h : s.Lives) {id : Id16} {result : Except Error Bool}
    (hphase : s.run = .ended id result) (hok : s.Roomy (w, e)) : (s.wakeRun w e).Lives := by
  have hrun : s.Running := fun r hr => nomatch hphase.symm.trans hr
  by_cases he : e = .finish
  · subst he
    have hroom : s.Room := ⟨hok (.inl ⟨rfl, id, result, hphase⟩), (h.running hrun).2⟩
    obtain ⟨-, hresumed, hpipeline, hqueue⟩ | ⟨hn, -⟩ := wakeRun_finish hphase w
    · have hs := Feeds.append (P := (· ≠ .shutdown)) (s := s)
        (c := .disconnect (decide (result = .ok true ∨ s.exit = true))) nofun
      refine h.moved hrun hs (fun hn => hn rfl)
        (Prod.ext (congrArg Pipeline.stopped hpipeline) hqueue) fun e he => ?_
      exact absurd (hresumed.symm.trans he) (resumed_ne s e)
    · exact absurd hroom hn
  · unfold wakeRun
    rw [hphase]
    dsimp only
    split
    · exact absurd rfl he
    · exact h

theorem wakeRun_lives (h : s.Lives) (hok : s.Roomy (w, e)) : (s.wakeRun w e).Lives := by
  cases hphase : s.run with
  | accepting => exact accepting_lives h hphase hok
  | greeting id => exact greeting_lives h hphase
  | session session => exact session_lives h hphase
  | ended id result => exact ended_lives h hphase hok
  | returned result =>
    unfold wakeRun
    rw [hphase]
    exact h

theorem wakeInput_lives (h : s.Lives) (i : ℕ) (p : Except Error Packet) :
    (s.wakeInput i p).Lives := by
  unfold wakeInput
  split
  · exact h
  · rename_i task _
    have hs := (Task.read_feeds (s := s) task p).out.2
    have hread : (exec (Task.read task p) s).2.Lives := hs.lives (by simp) h
    generalize exec (Task.read task p) s = out at hread ⊢
    obtain ⟨(e | guard), s'⟩ := out
    · have herased : Lives { s' with inputs := s'.inputs.eraseIdx i } := ⟨hread.alive, hread.running⟩
      have hsend := (Task.command_feeds (s := { s' with inputs := s'.inputs.eraseIdx i })
        (P := (· ≠ .shutdown)) (E := fun _ => True) (c := .disconnect false) nofun
        fun _ => trivial).out.2
      exact hsend.lives (fun hn => hn rfl) herased
    · dsimp only
      split
      · exact ⟨hread.alive, hread.running⟩
      · exact ⟨hread.alive, hread.running⟩

theorem turn_lives (t : Turn) (h : s.Lives) : (s.step (w, .turn t)).Lives := by
  refine ⟨h.alive, fun hrun => ?_⟩
  obtain ⟨hqueue, hstopped⟩ := h.running hrun
  refine ⟨fun hmem => hqueue (List.mem_of_mem_tail hmem), ?_⟩
  show (if s.pipeline.stopped then s.pipeline else s.pipeline.turn t s.queue.head?).stopped = false
  rw [if_neg (by rw [hstopped]; exact Bool.false_ne_true), Pipeline.turn_stopped, hstopped]
  exact fun hhead => hqueue (List.mem_of_head? hhead)

theorem step_lives (h : s.Lives) (i : Wake × RuntimeEvent) (hok : s.Roomy i) :
    (s.step i).Lives := by
  obtain ⟨w, e⟩ := i
  unfold step
  split
  · exact ⟨h.alive, h.running⟩
  · exact wakeInput_lives h _ _
  · split
    · exact ⟨h.alive, h.running⟩
    · exact h
  · exact turn_lives (w := w) _ h
  · split
    · rename_i hphase
      split
      · exact ⟨h.alive, fun hrun => absurd hphase (hrun _)⟩
      · exact h
    · exact h
  · exact wakeRun_lives h hok

theorem initial_lives (h : Initial s) : s.Lives := by
  obtain ⟨config, changed, now, -, rfl⟩ := h
  exact ⟨nofun, fun _ => ⟨List.not_mem_nil, rfl⟩⟩

theorem reaches_lives (h : Reaches step Initial Roomy s) : s.Lives :=
  h.invariant (fun _ => initial_lives) fun _ i h hok => step_lives h i hok

/-- While the thread is there, room is all that a `Disconnect` needs. -/
theorem tearsDown_iff (hstopped : s.pipeline.stopped = false) :
    s.TearsDown ↔ ((∃ id result, s.run = .ended id result) → s.queue.length < 256) := by
  constructor
  · rintro h ⟨id, result, hphase⟩
    obtain ⟨hroom, -⟩ | ⟨-, hs⟩ := wakeRun_finish hphase {}
    · exact hroom.1
    · have hqueue : s.queue = _ := (congrArg queue hs).symm.trans (h id result hphase {}).2
      simp at hqueue
  · intro h id result hphase w
    obtain ⟨-, hrun, -, hqueue⟩ | ⟨hn, -⟩ := wakeRun_finish hphase w
    · exact ⟨hrun, hqueue⟩
    · exact absurd ⟨h ⟨id, result, hphase⟩, hstopped⟩ hn

/-- **Every session is torn down as long as the queue has room**: in a run where it has
room whenever `run` enqueues a command, the host stays alive, and behind a session the
`Disconnect` is enqueued exactly where there is room for it. -/
theorem tears_down (h : Reaches step Initial Roomy s) : s.Alive ∧
    (s.TearsDown ↔ ((∃ id result, s.run = .ended id result) → s.queue.length < 256)) := by
  have hlives := reaches_lives h
  refine ⟨hlives.alive, ?_⟩
  by_cases hrun : s.Running
  · exact tearsDown_iff (hlives.running hrun).2
  · have hended : ∀ id result, s.run ≠ .ended id result := by
      intro id result hphase
      exact hrun fun r hr => nomatch hphase.symm.trans hr
    refine ⟨?_, ?_⟩
    · rintro - ⟨id, result, hphase⟩
      exact absurd hphase (hended id result)
    · intro _ id result hphase
      exact absurd hphase (hended id result)

/-! ### A client that closes its connection, and a flood of input -/

def sampleHost : Runtime := { config := {}, pipeline := .spawn {} false 0 }

theorem sampleHost_initial : Initial sampleHost := ⟨{}, false, 0, by decide, rfl⟩

/-- Every call succeeds. -/
def sampleWake : Wake := {}

/-- A client connects and opens its input stream. -/
def sampleOpen : List (Wake × RuntimeEvent) :=
  [({}, .incoming (.authenticated (Pipeline.sampleDevice 1))),
    ({}, .capabilities (.ok Pipeline.sampleModes)), ({}, .stream true)]

/-- The hypothesis of `tears_down` is satisfiable: the client closes its connection, and
the session is torn down. -/
theorem tears_down_sample :
    ∃ s : Runtime, (∃ id result, s.run = .ended id result) ∧ s.Alive ∧ s.TearsDown := by
  have hroomy : Along step Roomy sampleHost (sampleOpen ++ [(({} : Wake), .closed)]) :=
    ⟨fun _ => by decide, fun _ => by decide, fun _ => by decide, fun _ => by decide, trivial⟩
  have h := tears_down ((Reaches.init sampleHost_initial).along hroomy)
  exact ⟨_, ⟨_, _, rfl⟩, h.1, h.2.2 fun _ => by decide⟩

def sampleInput : InputEvent := ⟨1, 0, 0, ⟨0⟩, ⟨0⟩, ⟨0⟩, ⟨0⟩, 0, 0, 0, 0, 0⟩

/-- The thread has handled nothing yet, and `n` input events have been enqueued. -/
structure Flooded (s : Runtime) (n : ℕ) : Prop where
  run : ∃ session, s.run = .session session
  running : s.pipeline.stopped = false
  queue : s.queue.length = n + 1
  inputs : s.inputs = [⟨({} : Wake).token, n, false⟩]

theorem Flooded.step {n : ℕ} (h : s.Flooded n) (hn : n < 255) : Flooded (s.step ({}, .input 0
    (.ok (.new sampleInput (UInt64.ofNat (n + 1)) ({} : Wake).token)))) (n + 1) := by
  have hsequence : (UInt64.ofNat (n + 1)).toNat = n + 1 := by
    rw [UInt64.toNat_ofNat']
    omega
  have hvalid : (Schema.format InputEvent).Valid sampleInput :=
    ⟨trivial, trivial, trivial, rfl, rfl, rfl, rfl, trivial, trivial, trivial, trivial, trivial,
      trivial⟩
  have hguard : (Packet.new sampleInput (UInt64.ofNat (n + 1)) ({} : Wake).token).sequence.toNat >
      (⟨({} : Wake).token, n, false⟩ : InputTask).guard := by
    show n < (UInt64.ofNat (n + 1)).toNat
    omega
  have hread := Task.exec_read rfl hguard (host_message_new hvalid _ _)
    (⟨by rw [h.queue]; omega, h.running⟩ : s.Room)
  show Flooded (s.wakeInput 0 _) (n + 1)
  unfold wakeInput
  rw [h.inputs]
  dsimp only [List.getElem?_cons_zero]
  rw [hread]
  refine ⟨h.run, h.running, ?_, ?_⟩
  · show (s.queue ++ [Command.input sampleInput]).length = n + 1 + 1
    rw [List.length_append, h.queue, List.length_singleton]
  · show s.inputs.set 0 ⟨_, (UInt64.ofNat (n + 1)).toNat, false⟩ = _
    rw [h.inputs, hsequence]
    rfl

theorem sampleOpen_flooded : (sampleOpen.foldl step sampleHost).Flooded 0 :=
  ⟨⟨_, rfl⟩, rfl, rfl, rfl⟩

theorem reaches_flooded {n : ℕ} (hn : n ≤ 255) :
    ∃ s, Reaches step Initial (fun _ _ => True) s ∧ s.Flooded n := by
  induction n with
  | zero =>
    have hopen : Along step (fun _ _ => True) sampleHost sampleOpen :=
      ⟨trivial, trivial, trivial, trivial⟩
    exact ⟨_, (Reaches.init sampleHost_initial).along hopen, sampleOpen_flooded⟩
  | succ n ih =>
    obtain ⟨s, hs, hflooded⟩ := ih (by omega)
    exact ⟨_, hs.step trivial, hflooded.step (by omega)⟩

theorem not_saveError_full : ¬ SaveError Task.full := by
  rintro ⟨c, written, h⟩
  unfold Config.save at h
  split at h
  · split at h
    · cases h
    · cases h
  · rename_i e he
    cases h
    unfold Config.validate at he
    split_ifs at he
    all_goals exact absurd (Except.error.inj he) (by decide)

/-- The property fails when a client sends 255 input events while the thread is slow, and
closes the connection: no `Disconnect` is enqueued, and `run` returns the error. -/
theorem teardown_lost : (¬ ∀ s, Reaches step Initial (fun _ _ => True) s → s.TearsDown) ∧
    ¬ ∀ s, Reaches step Initial (fun _ _ => True) s → s.Alive := by
  obtain ⟨s, hs, ⟨session, hphase⟩, hrunning, hqueue, -⟩ := reaches_flooded (le_refl 255)
  have hended : s.step ({}, .closed) = s.ended session.id (.error .connection) := by
    show s.wakeRun {} .closed = _
    unfold wakeRun
    rw [hphase]
    rfl
  have hs := hs.step (i := ({}, .closed)) trivial
  rw [hended] at hs
  have hfull : ¬ (s.ended session.id (.error .connection)).Room := fun h => by
    have hlt : s.queue.length < 256 := h.1
    omega
  constructor
  · intro h
    have hiff := tearsDown_iff (s := s.ended session.id (.error .connection)) hrunning
    exact hfull ⟨hiff.1 (h _ hs) ⟨session.id, _, rfl⟩, hrunning⟩
  · intro h
    obtain ⟨hroom, -⟩ | ⟨-, hfinish⟩ := wakeRun_finish (s := s.ended session.id (.error .connection))
      rfl {}
    · exact hfull hroom
    · have halive := h _ (hs.step (i := ({}, .finish)) trivial)
      exact not_saveError_full (halive Task.full (congrArg Runtime.run hfinish))

end Runtime

end Host
end SidecarDOS
