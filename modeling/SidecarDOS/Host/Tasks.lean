/-
# What the host's tasks leave alone

A step of a task before it waits again is put together from a few statements.  None
of them moves `run` on or leaves the loop of the thread, and each enqueues commands
of one kind: that is `Feeds`.  For each task there is one lemma, by which the
invariants of the host's runs are proved.
-/

import SidecarDOS.Host.Runtime

namespace SidecarDOS
namespace Host

open Library (Ends Within exec ends_pure ends_bind ends_get ends_modify ends_demand)

/-- The queue takes a command. -/
def Runtime.Room (s : Runtime) : Prop := s.queue.length < 256 ∧ s.pipeline.stopped = false

/-- What a task does before it waits again: it moves neither `run` nor the thread, enqueues
commands of the kind `P`, may spawn an input task, and keeps the bitrate's bounds. -/
structure Runtime.Feeds (P : Command → Prop) (s s' : Runtime) : Prop where
  run : s'.run = s.run
  stopped : s'.pipeline.stopped = s.pipeline.stopped
  queue : ∃ l, s'.queue = s.queue ++ l ∧ ∀ c ∈ l, P c
  inputs : s.inputs <+: s'.inputs
  bounds : (s'.config.video.minBitrate, s'.config.video.maxBitrate) =
    (s.config.video.minBitrate, s.config.video.maxBitrate)
  bitrate : s.config.video.bitrate ≤ 100000000 → s'.config.video.bitrate ≤ 100000000

namespace Runtime

variable {P Q : Command → Prop} {s s' s'' : Runtime}

theorem Feeds.refl (s : Runtime) : Feeds P s s :=
  ⟨rfl, rfl, ⟨[], (List.append_nil _).symm, nofun⟩, List.prefix_rfl, rfl, id⟩

theorem Feeds.trans (h : Feeds P s s') (h' : Feeds P s' s'') : Feeds P s s'' := by
  obtain ⟨l, hl, hP⟩ := h.queue
  obtain ⟨l', hl', hP'⟩ := h'.queue
  refine ⟨h'.run.trans h.run, h'.stopped.trans h.stopped, ⟨l ++ l', ?_, fun c hc => ?_⟩,
    h.inputs.trans h'.inputs, h'.bounds.trans h.bounds, h'.bitrate ∘ h.bitrate⟩
  · rw [hl', hl, List.append_assoc]
  · rcases List.mem_append.1 hc with hc | hc
    · exact hP c hc
    · exact hP' c hc

instance : Std.Refl (Feeds P) := ⟨.refl⟩

instance : IsTrans Runtime (Feeds P) := ⟨fun _ _ _ => .trans⟩

theorem Feeds.mono (h : Feeds P s s') (hPQ : ∀ c, P c → Q c) : Feeds Q s s' := by
  obtain ⟨l, hl, hP⟩ := h.queue
  exact ⟨h.run, h.stopped, ⟨l, hl, fun c hc => hPQ c (hP c hc)⟩, h.inputs, h.bounds, h.bitrate⟩

theorem Feeds.same (h : (s'.run, s'.pipeline.stopped, s'.queue, s'.inputs, s'.config.video) =
    (s.run, s.pipeline.stopped, s.queue, s.inputs, s.config.video)) : Feeds P s s' := by
  simp only [Prod.mk.injEq] at h
  obtain ⟨hrun, hstopped, hqueue, hinputs, hvideo⟩ := h
  refine ⟨hrun, hstopped, ⟨[], ?_, nofun⟩, ?_, ?_, ?_⟩
  · rw [hqueue, List.append_nil]
  · exact hinputs ▸ List.prefix_rfl
  · rw [hvideo]
  · rw [hvideo]
    exact id

theorem Feeds.append {c : Command} (hc : P c) : Feeds P s { s with queue := s.queue ++ [c] } := by
  refine ⟨rfl, rfl, ⟨[c], rfl, fun c' hc' => ?_⟩, List.prefix_rfl, rfl, id⟩
  rw [List.mem_singleton.1 hc']
  exact hc

end Runtime

/-- A configuration cannot be saved. -/
def SaveError (e : Error) : Prop := ∃ (c : Config) (written : Bool), c.save written = .error e

namespace Task

open SidecarDOS.Host.Runtime (Feeds)

variable {s : Runtime} {P : Command → Prop} {E : Error → Prop}

/-- The error of a command that finds no room. -/
def full : Error := .ensure "pipeline input queue full or stopped"

theorem command_spec (s : Runtime) (c : Command) : Ends (command c) s fun r s' =>
    (s.Room ∧ r = .ok () ∧ s' = { s with queue := s.queue ++ [c] }) ∨
      (¬ s.Room ∧ r = .error full ∧ s' = s) := by
  unfold command
  refine ends_bind.2 (ends_get.2 (ends_bind.2 (ends_demand.2 ⟨fun h => ?_, fun h => ?_⟩)))
  · exact .inl ⟨h, rfl, rfl⟩
  · exact .inr ⟨h, rfl, rfl⟩

theorem command_feeds {c : Command} (hc : P c) (h : ¬ s.Room → E full) :
    Within (Feeds P) E (command c) s := by
  refine (command_spec s c).mono ?_
  rintro r s' (⟨-, rfl, rfl⟩ | ⟨hn, rfl, rfl⟩)
  · exact ⟨nofun, .append hc⟩
  · refine ⟨?_, Std.Refl.refl _⟩
    rintro _ ⟨⟩
    exact h hn

theorem lift_bind {α β : Type} {x : Except Error α} {k : α → Task β} (h : ∀ e, x = .error e → E e)
    (hk : ∀ a, x = .ok a → Within (Feeds P) E (k a) s) : Within (Feeds P) E (lift x >>= k) s := by
  cases x with
  | ok a => exact hk a rfl
  | error e => exact .throw (h e rfl)

theorem write_feeds {T : Type} [Wire T] (w : Wake) (v : T) (sequence : UInt64) (token : Id16) :
    Within (Feeds P) (fun _ => True) (write w v sequence token) s := by
  unfold write
  exact .demand_bind trivial fun _ => .modify (.same rfl)

theorem position_feeds (w : Wake) (p : Position) (hp : P (.placement p))
    (hsave : ∀ e, SaveError e → E e) (h : ¬ s.Room → E full) :
    Within (Feeds P) E (position w p) s := by
  unfold position
  refine .modify_bind (.same rfl) (.get_bind ?_)
  exact lift_bind (fun e he => hsave e ⟨_, _, he⟩) fun _ _ => command_feeds hp h

theorem quality_feeds (w : Wake) (q : UInt8) (hsave : ∀ e, SaveError e → E e) :
    Within (Feeds P) E (quality w q) s := by
  have hrate : rateOf q ≤ 100000000 := by
    unfold rateOf
    split_ifs <;> decide
  unfold quality
  refine .modify_bind ⟨rfl, rfl, ⟨[], (List.append_nil _).symm, nofun⟩, List.prefix_rfl, rfl,
    fun _ => hrate⟩ (.get_bind ?_)
  exact lift_bind (fun e he => hsave e ⟨_, _, he⟩) fun _ _ => .modify (.same rfl)

theorem greet_feeds (w : Wake) (id : Id16) (modes : Except Error (List DisplayMode)) :
    Within (Feeds fun c => ∃ modes, c = .connect id modes) (fun _ => True) (greet w id modes) s := by
  unfold greet
  refine lift_bind (fun _ _ => trivial) fun modes _ => ?_
  dsimp only
  split
  · refine .demand_bind trivial fun _ => ?_
    refine Within.bind (command_feeds ⟨_, rfl⟩ fun _ => trivial) fun _ _ _ => ?_
    refine (write_feeds ..).bind fun _ _ _ => (write_feeds ..).bind fun _ _ _ => ?_
    exact .get_bind (.pure _)
  · exact .throw trivial

/-- The commands that `session` enqueues while it loops. -/
def Adjusts (c : Command) : Prop := (∃ m, c = .mode m) ∨ ∃ p, c = .placement p

theorem packet_feeds (w : Wake) (session : Session) (p : Packet) :
    Within (Feeds Adjusts) (fun _ => True) (packet w session p) s := by
  unfold packet
  refine .demand_bind trivial fun _ => .demand_bind trivial fun _ => ?_
  dsimp only
  refine .ite (fun _ => ?_) fun _ => .ite (fun _ => ?_) fun _ => .ite (fun _ => ?_) fun _ =>
    .ite (fun _ => ?_) fun _ => .ite (fun _ => ?_) fun _ => .throw trivial
  · exact lift_bind (fun _ _ => trivial) fun _ _ => .pure _
  · refine lift_bind (fun _ _ => trivial) fun _ _ => .ite (fun _ => ?_) fun _ => .pure _
    exact .modify_bind (.same rfl) (.pure _)
  · refine lift_bind (fun _ _ => trivial) fun _ _ => ?_
    exact Within.bind (command_feeds (.inl ⟨_, rfl⟩) fun _ => trivial) fun _ _ _ => .pure _
  · refine lift_bind (fun _ _ => trivial) fun stats _ => ?_
    refine .demand_bind trivial fun _ => .get_bind (.ite (fun _ => ?_) fun _ => .pure _)
    split
    · exact .modify_bind (.same rfl) (.pure _)
    · exact .pure _
  · refine lift_bind (fun _ _ => trivial) fun _ _ => ?_
    exact (write_feeds ..).bind fun _ _ _ => .pure _

theorem select_feeds (w : Wake) (session : Session) (e : RuntimeEvent) :
    Within (Feeds Adjusts) (fun _ => True) (select w session e) s := by
  unfold select
  split
  · exact .throw trivial
  · exact .throw trivial
  · exact packet_feeds ..
  · refine .ite (fun _ => .pure _) fun _ => .demand_bind trivial fun _ => ?_
    exact .modify_bind ⟨rfl, rfl, ⟨[], (List.append_nil _).symm, nofun⟩, List.prefix_append .., rfl,
      id⟩ (.pure _)
  · refine .get_bind ?_
    dsimp only
    split
    · exact .pure _
    · refine .ite (fun _ => .modify_bind (.same rfl) ?_) fun _ => ?_
      all_goals
        split
        · exact .throw trivial
        · exact .ite (fun _ => .modify_bind (.same rfl) (.pure _)) fun _ => .pure _
  · refine .get_bind ?_
    dsimp only
    split
    · exact .pure _
    · refine .modify_bind (.same rfl) ?_
      split
      · exact (write_feeds ..).bind fun _ _ _ => .pure _
      · exact .throw trivial
  · exact .pure _
  · exact .throw trivial
  · exact .throw trivial
  · exact (position_feeds _ _ (.inr ⟨_, rfl⟩) (fun _ _ => trivial) fun _ => trivial).bind
      fun _ _ _ => .pure _
  · exact (quality_feeds _ _ fun _ _ => trivial).bind fun _ _ _ => .pure _
  · exact .throw trivial
  · exact .pure _

theorem read_feeds (task : InputTask) (p : Except Error Packet) :
    Within (Feeds fun c => ∃ event, c = .input event) (fun _ => True) (read task p) s := by
  unfold read
  refine lift_bind (fun _ _ => trivial) fun p _ => ?_
  refine .demand_bind trivial fun _ => .demand_bind trivial fun _ => ?_
  refine lift_bind (fun _ _ => trivial) fun event _ => ?_
  exact .get_bind (.demand_bind trivial fun _ => .modify_bind (.append ⟨event, rfl⟩) (.pure _))

/-- Where there is room, an input event in order is enqueued. -/
theorem exec_read {task : InputTask} {p : Packet} {event : InputEvent}
    (hsession : p.session = task.token) (hguard : p.sequence.toNat > task.guard)
    (hevent : p.message InputEvent = .ok event) (h : s.Room) : exec (read task (.ok p)) s =
      (.ok p.sequence.toNat, { s with queue := s.queue ++ [.input event] }) := by
  have hread : Ends (read task (.ok p)) s fun r s' =>
      r = .ok p.sequence.toNat ∧ s' = { s with queue := s.queue ++ [.input event] } := by
    unfold read
    refine ends_bind.2 (ends_pure.2 (ends_bind.2 (ends_demand.2 ⟨fun _ => ?_, absurd hsession⟩)))
    refine ends_bind.2 (ends_demand.2 ⟨fun _ => ?_, absurd hguard⟩)
    rw [hevent]
    refine ends_bind.2 (ends_pure.2 (ends_bind.2 (ends_get.2 ?_)))
    exact ends_bind.2 (ends_demand.2 ⟨fun _ => ⟨rfl, rfl⟩, absurd h⟩)
  exact Prod.ext hread.1 hread.2

theorem act_feeds (w : Wake) (a : Option Action)
    (h : a = some .disconnect ∨ (∃ p, a = some (.position p)) → ¬ s.Room → E full)
    (hsave : ∀ e, SaveError e → E e) :
    Within (Feeds fun c => c = .disconnect true ∨ ∃ p, c = .placement p) E (act w a) s := by
  unfold act
  split
  · exact .pure _
  · exact .pure _
  · exact (position_feeds _ _ (.inr ⟨_, rfl⟩) hsave (h (.inr ⟨_, rfl⟩))).bind fun _ _ _ => .pure _
  · exact (quality_feeds _ _ hsave).bind fun _ _ _ => .pure _
  · refine .modify_bind (.same rfl) ?_
    exact Within.bind (command_feeds (.inl rfl) (h (.inl rfl))) fun _ _ _ => .pure _

theorem finish_feeds (w : Wake) (id : Id16) (result : Except Error Bool) :
    Within (Feeds fun c => ∃ immediate, c = .disconnect immediate) (fun _ => True)
      (finish w id result) s := by
  unfold finish
  refine .get_bind (Within.bind (command_feeds ⟨_, rfl⟩ fun _ => trivial) fun _ _ _ => ?_)
  exact .modify (.same rfl)

/-- Where there is room, the `Disconnect` of the session is enqueued. -/
theorem finish_spec (s : Runtime) (w : Wake) (id : Id16) (result : Except Error Bool) :
    Ends (finish w id result) s fun r s' =>
      (s.Room ∧ r = .ok () ∧ s'.exit = s.exit ∧ s'.pipeline = s.pipeline ∧
        s'.queue = s.queue ++ [.disconnect (decide (result = .ok true ∨ s.exit = true))]) ∨
      (¬ s.Room ∧ r = .error full ∧ s' = s) := by
  unfold finish
  refine ends_bind.2 (ends_get.2 ?_)
  refine Ends.bind (command_spec s _) (fun _ s' hs => ?_) fun e s' hs => ?_
  · obtain ⟨hroom, -, rfl⟩ | ⟨-, herror, -⟩ := hs
    · exact ends_modify.2 (.inl ⟨hroom, rfl, rfl, rfl, rfl⟩)
    · cases herror
  · obtain ⟨-, hok, -⟩ | ⟨hn, herror, rfl⟩ := hs
    · cases hok
    · exact .inr ⟨hn, herror, rfl⟩

end Task

/-! ### The steps -/

namespace Runtime

/-- What a step of `run` does. -/
inductive Wakes (s : Runtime) (w : Wake) : RuntimeEvent → Runtime → Prop where
  | stays {e : RuntimeEvent} : Wakes s w e s
  | incoming {i : Incoming} (hphase : s.run = .accepting) : Wakes s w (.incoming i) (s.incoming w i)
  | acted {a : Option Action} {go : Bool} {m : Runtime} (hphase : s.run = .accepting)
      (hexec : exec (Task.act w a) s = (.ok go, m)) :
      Wakes s w (.action a) { m with run := if go then m.resumed else .returned (.ok ()) }
  | actFailed {a : Option Action} {error : Error} {m : Runtime} (hphase : s.run = .accepting)
      (hexec : exec (Task.act w a) s = (.error error, m)) :
      Wakes s w (.action a) { m with run := .returned (.error error) }
  | greeted {id : Id16} {modes : Except Error (List DisplayMode)} {session : Session} {m : Runtime}
      (hphase : s.run = .greeting id) (hexec : exec (Task.greet w id modes) s = (.ok session, m)) :
      Wakes s w (.capabilities modes) { m with run := .session session }
  | greetFailed {id : Id16} {modes : Except Error (List DisplayMode)} {error : Error} {m : Runtime}
      (hphase : s.run = .greeting id) (hexec : exec (Task.greet w id modes) s = (.error error, m)) :
      Wakes s w (.capabilities modes) (m.ended id (.error error))
  | selected {e : RuntimeEvent} {session session' : Session} {m : Runtime}
      (hphase : s.run = .session session)
      (hexec : exec (Task.select w session e) s = (.ok (.inl session'), m)) :
      Wakes s w e { m with run := .session session' }
  | stopped {e : RuntimeEvent} {session : Session} {immediate : Bool} {m : Runtime}
      (hphase : s.run = .session session)
      (hexec : exec (Task.select w session e) s = (.ok (.inr immediate), m)) :
      Wakes s w e (m.ended session.id (.ok immediate))
  | failed {e : RuntimeEvent} {session : Session} {error : Error} {m : Runtime}
      (hphase : s.run = .session session)
      (hexec : exec (Task.select w session e) s = (.error error, m)) :
      Wakes s w e (m.ended session.id (.error error))
  | finished {id : Id16} {result : Except Error Bool} {m : Runtime}
      (hphase : s.run = .ended id result) (hexec : exec (Task.finish w id result) s = (.ok (), m)) :
      Wakes s w .finish { m with run := m.resumed }
  | finishFailed {id : Id16} {result : Except Error Bool} {error : Error} {m : Runtime}
      (hphase : s.run = .ended id result)
      (hexec : exec (Task.finish w id result) s = (.error error, m)) :
      Wakes s w .finish { m with run := .returned (.error error) }

theorem wakes (s : Runtime) (w : Wake) (e : RuntimeEvent) : Wakes s w e (s.wakeRun w e) := by
  unfold wakeRun
  split
  · rename_i hphase
    split
    · exact .incoming hphase
    · rename_i a
      rcases hexec : exec (Task.act w a) s with ⟨error | _ | _, m⟩
      · exact .actFailed hphase hexec
      · exact .acted hphase hexec
      · exact .acted hphase hexec
    · exact .stays
  · rename_i id hphase
    split
    · rename_i modes
      rcases hexec : exec (Task.greet w id modes) s with ⟨error | session, m⟩
      · exact .greetFailed hphase hexec
      · exact .greeted hphase hexec
    · exact .stays
  · rename_i session hphase
    rcases hexec : exec (Task.select w session e) s with ⟨error | session' | immediate, m⟩
    · exact .failed hphase hexec
    · exact .selected hphase hexec
    · exact .stopped hphase hexec
  · rename_i id result hphase
    split
    · rcases hexec : exec (Task.finish w id result) s with ⟨error | _, m⟩
      · exact .finishFailed hphase hexec
      · exact .finished hphase hexec
    · exact .stays
  · exact .stays

/-- What a packet on an input stream does. -/
inductive Reads (s : Runtime) (i : ℕ) (p : Except Error Packet) : Runtime → Prop where
  | none (h : s.inputs[i]? = none) : Reads s i p s
  | last {task : InputTask} {guard : ℕ} {m : Runtime} (h : s.inputs[i]? = some task)
      (haborted : task.aborted = true) (hexec : exec (Task.read task p) s = (.ok guard, m)) :
      Reads s i p { m with inputs := m.inputs.eraseIdx i }
  | read {task : InputTask} {guard : ℕ} {m : Runtime} (h : s.inputs[i]? = some task)
      (haborted : task.aborted = false) (hexec : exec (Task.read task p) s = (.ok guard, m)) :
      Reads s i p { m with inputs := m.inputs.set i { task with guard := guard } }
  | failed {task : InputTask} {error : Error} {m : Runtime} (h : s.inputs[i]? = some task)
      (hexec : exec (Task.read task p) s = (.error error, m)) :
      Reads s i p ({ m with inputs := m.inputs.eraseIdx i }.trySend (.disconnect false))

theorem reads (s : Runtime) (i : ℕ) (p : Except Error Packet) : Reads s i p (s.wakeInput i p) := by
  unfold wakeInput
  cases h : s.inputs[i]? with
  | none => exact .none h
  | some task =>
    dsimp only
    rcases hexec : exec (Task.read task p) s with ⟨error | guard, m⟩
    · exact .failed h hexec
    · dsimp only
      split
      · rename_i haborted
        exact .last h haborted hexec
      · rename_i haborted
        exact .read h (Bool.eq_false_iff.2 haborted) hexec

end Runtime

end Host
end SidecarDOS
