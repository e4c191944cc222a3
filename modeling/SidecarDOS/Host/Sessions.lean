/-
# One session after another

A command does not say which session it is from.  The `Disconnect` that `run` enqueues
behind a session lies before the `Connect` of the next one, and the queue keeps the
order.  But an input task that was aborted still runs to its next wait on a thread of
its own, and the `Disconnect` that it then enqueues may lie behind the `Connect` of a
later session, which it stops (`session_stopped`).  `Sessions` is the host with what it
does not keep: on behalf of which session a command was enqueued.  As long as no
round of an input task of an earlier session fails behind a later `Connect`, no
`Disconnect` meets a session that is not its own (`stays_separate`).
-/

import SidecarDOS.Host.Teardown

namespace SidecarDOS
namespace Host

open Library (Reaches Along Ends ends_pure ends_bind ends_get ends_demand)

/-! ### A round of an input task -/

namespace Task

variable {s : Runtime} {task : InputTask} {p : Except Error Packet}

/-- A round fails for the sake of what it reads. -/
def Fails (task : InputTask) : Except Error Packet → Prop
  | .error _ => True
  | .ok p => p.session = task.token → p.sequence.toNat > task.guard →
      ∃ e, p.message InputEvent = .error e

theorem read_spec (s : Runtime) (task : InputTask) (p : Except Error Packet) :
    Ends (read task p) s fun r s' =>
      (¬ Fails task p ∧ s.Room ∧ (∃ guard, r = .ok guard) ∧
        ∃ event, s' = { s with queue := s.queue ++ [.input event] }) ∨
      ((Fails task p ∨ ¬ s.Room) ∧ (∃ e, r = .error e) ∧ s' = s) := by
  unfold read
  cases p with
  | error e => exact .inr ⟨.inl trivial, ⟨e, rfl⟩, rfl⟩
  | ok p =>
    refine ends_bind.2 (ends_pure.2 (ends_bind.2 (ends_demand.2 ⟨fun hsession => ?_, fun hn => ?_⟩)))
    · refine ends_bind.2 (ends_demand.2 ⟨fun hguard => ?_, fun hn => ?_⟩)
      · cases hevent : p.message InputEvent with
        | error e => exact .inr ⟨.inl fun _ _ => ⟨e, hevent⟩, ⟨e, rfl⟩, rfl⟩
        | ok event =>
          refine ends_bind.2 (ends_pure.2 (ends_bind.2 (ends_get.2 (ends_bind.2 ?_))))
          refine ends_demand.2 ⟨fun hroom => .inl ⟨fun hfails => ?_, hroom, ⟨_, rfl⟩, _, rfl⟩,
            fun hn => .inr ⟨.inr hn, ⟨_, rfl⟩, rfl⟩⟩
          obtain ⟨e, herror⟩ := hfails hsession hguard
          cases hevent.symm.trans herror
      · exact .inr ⟨.inl fun _ hguard => absurd hguard hn, ⟨_, rfl⟩, rfl⟩
    · exact .inr ⟨.inl fun hsession => absurd hsession hn, ⟨_, rfl⟩, rfl⟩

end Task

namespace Runtime

variable {s s' : Runtime} {w : Wake}

/-- What a round of the `i`-th input task comes to. -/
inductive Rounds (s : Runtime) (i : ℕ) (p : Except Error Packet) : Runtime → Prop where
  | none (h : s.inputs[i]? = none) : Rounds s i p s
  | read {task : InputTask} {event : InputEvent} {inputs : List InputTask}
      (h : s.inputs[i]? = some task) (hreads : ¬ Task.Fails task p)
      (hinputs : inputs.length = s.inputs.length ∨ inputs = s.inputs.eraseIdx i) :
      Rounds s i p { s with queue := s.queue ++ [.input event], inputs := inputs }
  | failed {task : InputTask} (h : s.inputs[i]? = some task) (hfails : Task.Fails task p)
      (hroom : s.Room) :
      Rounds s i p { s with
        queue := s.queue ++ [.disconnect false], inputs := s.inputs.eraseIdx i }
  | full {task : InputTask} (h : s.inputs[i]? = some task) (hroom : ¬ s.Room) :
      Rounds s i p { s with inputs := s.inputs.eraseIdx i }

theorem rounds (s : Runtime) (i : ℕ) (p : Except Error Packet) :
    Rounds s i p (s.wakeInput i p) := by
  have hreads := reads s i p
  generalize s.wakeInput i p = s' at hreads ⊢
  cases hreads with
  | none h => exact .none h
  | last h haborted hexec =>
    rcases (Task.read_spec s _ p).of_exec hexec with
      ⟨hreads, -, -, event, rfl⟩ | ⟨-, ⟨e, herror⟩, -⟩
    · exact .read h hreads (.inr rfl)
    · cases herror
  | read h haborted hexec =>
    rcases (Task.read_spec s _ p).of_exec hexec with
      ⟨hreads, -, -, event, rfl⟩ | ⟨-, ⟨e, herror⟩, -⟩
    · exact .read h hreads (.inl List.length_set)
    · cases herror
  | failed h hexec =>
    rcases (Task.read_spec s _ p).of_exec hexec with
      ⟨-, -, ⟨guard, hok⟩, -⟩ | ⟨hfails, -, hm⟩
    · cases hok
    · have hsend := Task.command_spec { s with inputs := s.inputs.eraseIdx i } (.disconnect false)
      have hroom : ({ s with inputs := s.inputs.eraseIdx i } : Runtime).Room ↔ s.Room := Iff.rfl
      rw [hm]
      unfold trySend
      rcases hsend with ⟨hr, -, hs'⟩ | ⟨hr, -, hs'⟩
      · rw [hs']
        exact .failed h (hfails.resolve_right (not_not.2 (hroom.1 hr))) (hroom.1 hr)
      · rw [hs']
        exact .full h (mt hroom.2 hr)

/-- A step of `run` takes nothing from the queue, and ends no input task. -/
def Adds (s s' : Runtime) : Prop :=
  (∃ l, s'.queue = s.queue ++ l) ∧ s.inputs.length ≤ s'.inputs.length

theorem Adds.refl (s : Runtime) : Adds s s := ⟨⟨[], (List.append_nil _).symm⟩, le_rfl⟩

theorem Feeds.adds {P : Command → Prop} {m : Runtime} (h : Feeds P s m)
    (hqueue : s'.queue = m.queue) (hinputs : s'.inputs.length = m.inputs.length) :
    Adds s s' := by
  obtain ⟨l, hl, -⟩ := h.queue
  constructor
  · exact ⟨l, hqueue.trans hl⟩
  · rw [hinputs]
    exact h.inputs.length_le

theorem length_ended (s : Runtime) (id : Id16) (result : Except Error Bool) :
    (s.ended id result).inputs.length = s.inputs.length := List.length_map _

theorem incoming_adds (s : Runtime) (w : Wake) (i : Incoming) : Adds s (s.incoming w i) := by
  unfold incoming
  split
  · exact .refl s
  · exact .refl s
  · exact .refl s
  · exact .refl s
  · split
    · exact .refl s
    · exact .refl s

theorem wakeRun_adds (s : Runtime) (w : Wake) (e : RuntimeEvent) : Adds s (s.wakeRun w e) := by
  have hwakes := wakes s w e
  generalize s.wakeRun w e = s' at hwakes ⊢
  cases hwakes with
  | stays => exact .refl s
  | incoming hphase => exact incoming_adds s w _
  | acted hphase hexec =>
    exact ((Task.act_feeds (E := fun _ => True) w _ (fun _ _ => trivial) fun _ _ => trivial).of_exec
      hexec).2.adds rfl rfl
  | actFailed hphase hexec =>
    exact ((Task.act_feeds (E := fun _ => True) w _ (fun _ _ => trivial) fun _ _ => trivial).of_exec
      hexec).2.adds rfl rfl
  | greeted hphase hexec => exact ((Task.greet_feeds w _ _).of_exec hexec).2.adds rfl rfl
  | greetFailed hphase hexec =>
    exact ((Task.greet_feeds w _ _).of_exec hexec).2.adds rfl (length_ended ..)
  | selected hphase hexec => exact ((Task.select_feeds w _ e).of_exec hexec).2.adds rfl rfl
  | stopped hphase hexec =>
    exact ((Task.select_feeds w _ e).of_exec hexec).2.adds rfl (length_ended ..)
  | failed hphase hexec =>
    exact ((Task.select_feeds w _ e).of_exec hexec).2.adds rfl (length_ended ..)
  | finished hphase hexec => exact ((Task.finish_feeds w _ _).of_exec hexec).2.adds rfl rfl
  | finishFailed hphase hexec => exact ((Task.finish_feeds w _ _).of_exec hexec).2.adds rfl rfl

end Runtime

/-! ### The sessions -/

def Command.connects : Command → Bool
  | .connect _ _ => true
  | _ => false

def Command.disconnects : Command → Bool
  | .disconnect _ => true
  | _ => false

/-- The host, and what it does not keep: the sessions that have begun, whose each input task
is, and on behalf of which session each command was enqueued that waits or was handled. -/
structure Sessions where
  host : Runtime
  begun : ℕ := 0
  owners : List ℕ := []
  pending : List (Command × ℕ) := []
  handled : List (Command × ℕ) := []

namespace Sessions

variable {s : Sessions} {host : Runtime} {w : Wake}

/-- What has come into the queue is on behalf of `session`. -/
def issued (s : Sessions) (host : Runtime) (session : ℕ) : List (Command × ℕ) :=
  (host.queue.drop s.host.queue.length).map (·, session)

/-- `run` has moved on: a session begins when `run` calls `session`, and an input task is that
of the session that spawns it. -/
def advance (s : Sessions) (host : Runtime) : Sessions := { s with
  host := host
  begun := match s.host.run, host.run with
    | .accepting, .greeting _ => s.begun + 1
    | _, _ => s.begun
  owners := s.owners ++ List.replicate (host.inputs.length - s.host.inputs.length) s.begun
  pending := s.pending ++ s.issued host s.begun }

/-- The owners when the `i`-th input task may have ended. -/
def left (s : Sessions) (host : Runtime) (i : ℕ) : List ℕ :=
  if host.inputs.length < s.host.inputs.length then s.owners.eraseIdx i else s.owners

def step (s : Sessions) (e : Wake × RuntimeEvent) : Sessions :=
  let host := s.host.step e
  match e.2 with
  | .turn _ => { s with
      host := host
      pending := s.pending.tail
      -- the thread has left its loop when it has handled `Shutdown`
      handled := if s.host.pipeline.stopped then s.handled
        else s.handled ++ s.pending.take 1 }
  | .input i _ => { s with
      host := host
      owners := s.left host i
      pending := s.pending ++ s.issued host (s.owners.getD i 0) }
  | .dropped i => { s with host := host, owners := s.left host i }
  | _ => s.advance host

def Initial (s : Sessions) : Prop := ∃ host, Runtime.Initial host ∧ s = { host := host }

/-- A `Disconnect` that comes behind a `Connect` is not that of an earlier session. -/
def Apart (a b : Command × ℕ) : Prop :=
  b.1.disconnects = true → a.1.connects = true → a.2 ≤ b.2

instance : DecidableRel Apart := fun a b =>
  inferInstanceAs (Decidable (b.1.disconnects = true → a.1.connects = true → a.2 ≤ b.2))

/-- Behind the `Connect` of a session, the thread has handled no `Disconnect` of an earlier
one. -/
def Separate (s : Sessions) : Prop := s.handled.Pairwise Apart

/-- Nor is one in the queue. -/
def Orderly (s : Sessions) : Prop := (s.handled ++ s.pending).Pairwise Apart

/-- No round of an input task fails behind the `Connect` of a later session; one that finds the
queue full fails in silence. -/
def Fresh (s : Sessions) (e : Wake × RuntimeEvent) : Prop :=
  ∀ i p task, e.2 = .input i p → s.host.inputs[i]? = some task → Task.Fails task p →
    s.host.Room → ∀ c ∈ s.handled ++ s.pending, c.1.connects = true → c.2 ≤ s.owners.getD i 0

/-- What is kept beside the host fits it. -/
structure Kept (s : Sessions) : Prop where
  queue : s.pending.map Prod.fst = s.host.queue
  inputs : s.owners.length = s.host.inputs.length
  owners : ∀ session ∈ s.owners, session ≤ s.begun
  log : ∀ c ∈ s.handled ++ s.pending, c.2 ≤ s.begun

theorem issued_append {l : List Command} (hl : host.queue = s.host.queue ++ l) (session : ℕ) :
    s.issued host session = l.map (·, session) := by
  unfold issued
  rw [hl, List.drop_left]

/-- What one session enqueues keeps the order if it is no `Disconnect` behind the `Connect` of a
later one. -/
theorem pairwise_issued {log : List (Command × ℕ)} {l : List Command} {session : ℕ} :
    (log ++ l.map (·, session)).Pairwise Apart ↔ log.Pairwise Apart ∧
      ∀ c ∈ l, c.disconnects = true → ∀ a ∈ log, a.1.connects = true → a.2 ≤ session := by
  rw [List.pairwise_append]
  constructor
  · rintro ⟨hlog, -, happart⟩
    exact ⟨hlog, fun c hc hdisconnects a ha hconnects =>
      happart a ha (c, session) (List.mem_map_of_mem hc) hdisconnects hconnects⟩
  · rintro ⟨hlog, hl⟩
    refine ⟨hlog, ?_, ?_⟩
    · rw [List.pairwise_map]
      exact List.pairwise_of_forall fun _ _ _ _ => le_rfl
    · intro a ha b hb hdisconnects hconnects
      obtain ⟨c, hc, rfl⟩ := List.mem_map.1 hb
      exact hl c hc hdisconnects a ha hconnects

/-- What is kept fits behind the commands of one session. -/
theorem Kept.issue (h : Kept s) {l : List Command} (hl : host.queue = s.host.queue ++ l)
    {session begun : ℕ} (hsession : session ≤ begun) (hbegun : s.begun ≤ begun) :
    (s.pending ++ s.issued host session).map Prod.fst = host.queue ∧
      ∀ c ∈ s.handled ++ (s.pending ++ s.issued host session), c.2 ≤ begun := by
  rw [issued_append hl]
  constructor
  · rw [List.map_append, h.queue, hl, List.map_map]
    exact congrArg (s.host.queue ++ ·) (List.map_id l)
  · intro c hc
    rw [← List.append_assoc] at hc
    rcases List.mem_append.1 hc with hc | hc
    · exact (h.log c hc).trans hbegun
    · obtain ⟨_, -, rfl⟩ := List.mem_map.1 hc
      exact hsession

theorem orderly_issued {l : List Command} (hl : host.queue = s.host.queue ++ l) (session : ℕ) :
    (s.handled ++ (s.pending ++ s.issued host session)).Pairwise Apart ↔ s.Orderly ∧
      ∀ c ∈ l, c.disconnects = true → ∀ a ∈ s.handled ++ s.pending, a.1.connects = true →
        a.2 ≤ session := by
  rw [issued_append hl, ← List.append_assoc]
  exact pairwise_issued

/-! ### `run` -/

theorem begun_le (s : Sessions) (host : Runtime) : s.begun ≤ (s.advance host).begun := by
  unfold advance
  dsimp only
  split
  · exact Nat.le_succ _
  · exact le_rfl

theorem Kept.advance (h : Kept s) (hadds : Runtime.Adds s.host host) : Kept (s.advance host) := by
  obtain ⟨⟨l, hl⟩, hlength⟩ := hadds
  have hbegun := begun_le s host
  obtain ⟨hqueue, hlog⟩ := h.issue hl hbegun hbegun
  refine ⟨hqueue, ?_, ?_, hlog⟩
  · show (s.owners ++ List.replicate (host.inputs.length - s.host.inputs.length) s.begun).length =
      host.inputs.length
    rw [List.length_append, List.length_replicate, h.inputs]
    omega
  · intro session hsession
    rcases List.mem_append.1 hsession with hsession | hsession
    · exact (h.owners session hsession).trans hbegun
    · rw [(List.mem_replicate.1 hsession).2]
      exact hbegun

/-- `run` acts for the last session that has begun. -/
theorem Kept.advance_orderly (h : Kept s) (hadds : Runtime.Adds s.host host) (ho : s.Orderly) :
    (s.advance host).Orderly := by
  obtain ⟨⟨l, hl⟩, -⟩ := hadds
  exact (orderly_issued hl s.begun).2 ⟨ho, fun _ _ _ a ha _ => h.log a ha⟩

/-! ### The thread -/

theorem turn_log (s : Sessions) (t : Turn) :
    ((s.step (w, .turn t)).handled ++ (s.step (w, .turn t)).pending).Sublist
      (s.handled ++ s.pending) := by
  show ((if s.host.pipeline.stopped then s.handled else s.handled ++ s.pending.take 1) ++
    s.pending.tail).Sublist _
  split
  · exact (List.tail_sublist _).append_left _
  · rw [List.append_assoc, ← List.drop_one, List.take_append_drop]

theorem Kept.turn (h : Kept s) (t : Turn) : Kept (s.step (w, .turn t)) := by
  refine ⟨?_, h.inputs, h.owners, fun c hc => h.log c ((turn_log s t).subset hc)⟩
  show s.pending.tail.map Prod.fst = s.host.queue.tail
  rw [← h.queue, List.map_tail]

/-! ### The input tasks -/

/-- The owners behind a round of the `i`-th input task. -/
theorem Kept.left (h : Kept s) {i : ℕ} (hi : i < s.host.inputs.length)
    (hinputs : host.inputs.length = s.host.inputs.length ∨
      host.inputs = s.host.inputs.eraseIdx i) :
    (s.left host i).length = host.inputs.length ∧ ∀ session ∈ s.left host i, session ≤ s.begun := by
  have herase := List.length_eraseIdx_of_lt hi
  unfold Sessions.left
  rcases hinputs with heq | heq
  · rw [if_neg (by omega), heq]
    exact ⟨h.inputs, h.owners⟩
  · rw [if_pos (by rw [heq]; omega), heq, List.length_eraseIdx_of_lt (h.inputs ▸ hi), herase,
      h.inputs]
    exact ⟨rfl, fun session hsession => h.owners session (List.mem_of_mem_eraseIdx hsession)⟩

theorem Kept.dropped (h : Kept s) (i : ℕ) : Kept (s.step (w, .dropped i)) := by
  have hlength := List.length_eraseIdx_of_lt (l := s.host.inputs) (i := i)
  have hhost : s.host.step (w, .dropped i) = s.host ∨ (i < s.host.inputs.length ∧
      s.host.step (w, .dropped i) = { s.host with inputs := s.host.inputs.eraseIdx i }) := by
    show (if _ then _ else _ : Runtime) = s.host ∨ (_ ∧ (if _ then _ else _ : Runtime) = _)
    split
    · rename_i hany
      obtain ⟨task, htask, -⟩ := (Option.any_eq_true ..).1 hany
      exact .inr ⟨(List.getElem?_eq_some_iff.1 htask).1, rfl⟩
    · exact .inl rfl
  show Kept { s with
    host := s.host.step (w, .dropped i)
    owners := s.left (s.host.step (w, .dropped i)) i }
  rcases hhost with heq | ⟨hi, heq⟩
  · rw [heq]
    have hleft : s.left s.host i = s.owners := if_neg (lt_irrefl _)
    rw [hleft]
    exact h
  · rw [heq]
    obtain ⟨hlength, howners⟩ := @Kept.left _ { s.host with inputs := s.host.inputs.eraseIdx i }
      h i hi (.inr rfl)
    exact ⟨h.queue, hlength, howners, h.log⟩

theorem getD_owners_le (h : Kept s) (i : ℕ) : s.owners.getD i 0 ≤ s.begun := by
  rw [List.getD_eq_getElem?_getD]
  cases howner : s.owners[i]? with
  | none => exact Nat.zero_le _
  | some session => exact h.owners session (List.mem_of_getElem? howner)

theorem Kept.input (h : Kept s) (i : ℕ) (p : Except Error Packet) :
    Kept (s.step (w, .input i p)) := by
  show Kept { s with
    host := s.host.wakeInput i p
    owners := s.left (s.host.wakeInput i p) i
    pending := s.pending ++ s.issued (s.host.wakeInput i p) (s.owners.getD i 0) }
  have hrounds := Runtime.rounds s.host i p
  have howner := getD_owners_le h i
  generalize s.host.wakeInput i p = host at hrounds ⊢
  obtain ⟨l, hl⟩ : ∃ l, host.queue = s.host.queue ++ l := by
    cases hrounds with
    | none => exact ⟨[], (List.append_nil _).symm⟩
    | read => exact ⟨_, rfl⟩
    | failed => exact ⟨_, rfl⟩
    | full => exact ⟨[], (List.append_nil _).symm⟩
  obtain ⟨hlength, howners⟩ : (s.left host i).length = host.inputs.length ∧
      ∀ session ∈ s.left host i, session ≤ s.begun := by
    cases hrounds with
    | none =>
      have hleft : s.left s.host i = s.owners := if_neg (lt_irrefl _)
      rw [hleft]
      exact ⟨h.inputs, h.owners⟩
    | read htask hreads hinputs => exact h.left (List.getElem?_eq_some_iff.1 htask).1 hinputs
    | failed htask => exact h.left (List.getElem?_eq_some_iff.1 htask).1 (.inr rfl)
    | full htask => exact h.left (List.getElem?_eq_some_iff.1 htask).1 (.inr rfl)
  obtain ⟨hqueue, hlog⟩ := h.issue hl howner le_rfl
  exact ⟨hqueue, hlength, howners, hlog⟩

/-- A round of an input task keeps the order exactly where it does not fail behind the `Connect`
of a later session. -/
theorem input_orderly (ho : s.Orderly) (i : ℕ) (p : Except Error Packet) :
    (s.step (w, .input i p)).Orderly ↔ s.Fresh (w, .input i p) := by
  show (s.handled ++ (s.pending ++
    s.issued (s.host.wakeInput i p) (s.owners.getD i 0))).Pairwise Apart ↔ _
  have hrounds := Runtime.rounds s.host i p
  have hvacuous (hno : ∀ task, s.host.inputs[i]? = some task → Task.Fails task p →
      ¬ s.host.Room) : s.Fresh (w, .input i p) := by
    rintro _ _ task ⟨⟩ htask hfails hroom
    exact absurd hroom (hno task htask hfails)
  generalize s.host.wakeInput i p = host at hrounds ⊢
  cases hrounds with
  | none hnone =>
    refine (orderly_issued (List.append_nil _).symm _).trans ?_
    refine ⟨fun _ => hvacuous fun task htask => ?_, fun _ => ⟨ho, nofun⟩⟩
    cases hnone.symm.trans htask
  | read htask hreads hinputs =>
    rw [orderly_issued rfl]
    refine ⟨fun _ => hvacuous fun task' htask' hfails => ?_, fun _ => ⟨ho, fun c hc => ?_⟩⟩
    · obtain rfl := Option.some.inj (htask.symm.trans htask')
      exact absurd hfails hreads
    · rw [List.mem_singleton.1 hc]
      exact nofun
  | failed htask hfails hroom =>
    rw [orderly_issued rfl]
    constructor
    · rintro ⟨-, hl⟩ _ _ _ ⟨⟩ - - -
      exact hl _ (List.mem_singleton_self _) rfl
    · intro hfresh
      refine ⟨ho, fun c hc _ => hfresh _ _ _ rfl htask hfails hroom⟩
  | full htask hroom =>
    refine (orderly_issued (List.append_nil _).symm _).trans ?_
    exact ⟨fun _ => hvacuous fun _ _ _ => hroom, fun _ => ⟨ho, nofun⟩⟩

/-! ### Runs -/

theorem advance_step (h : Kept s) (ho : s.Orderly) {e : RuntimeEvent}
    (hadds : Runtime.Adds s.host (s.host.step (w, e)))
    (hstep : s.step (w, e) = s.advance (s.host.step (w, e))) (hinput : ∀ i p, e ≠ .input i p) :
    Kept (s.step (w, e)) ∧ ((s.step (w, e)).Orderly ↔ s.Fresh (w, e)) := by
  rw [hstep]
  refine ⟨h.advance hadds, fun _ => ?_, fun _ => h.advance_orderly hadds ho⟩
  exact fun i p _ heq => absurd heq (hinput i p)

theorem shutdown_adds (s : Runtime) : Runtime.Adds s (s.step (w, .shutdown)) := by
  unfold Runtime.step
  dsimp only
  split
  · split
    · exact ⟨⟨_, rfl⟩, le_rfl⟩
    · exact .refl s
  · exact .refl s

/-- A step keeps the order of the commands exactly where it is fresh. -/
theorem step_keeps (h : Kept s) (ho : s.Orderly) (e : Wake × RuntimeEvent) :
    Kept (s.step e) ∧ ((s.step e).Orderly ↔ s.Fresh e) := by
  obtain ⟨w, e⟩ := e
  cases e with
  | input i p => exact ⟨h.input i p, input_orderly ho i p⟩
  | turn t => exact ⟨h.turn t, fun _ => nofun, fun _ => ho.sublist (turn_log s t)⟩
  | dropped i => exact ⟨h.dropped i, fun _ => nofun, fun _ => ho⟩
  | exit => exact advance_step h ho (.refl s.host) rfl nofun
  | shutdown => exact advance_step h ho (shutdown_adds s.host) rfl nofun
  | _ => exact advance_step h ho (Runtime.wakeRun_adds ..) rfl nofun

theorem initial_keeps (h : Initial s) : Kept s ∧ s.Orderly := by
  obtain ⟨_, ⟨config, changed, now, -, rfl⟩, rfl⟩ := h
  exact ⟨⟨rfl, rfl, nofun, nofun⟩, List.Pairwise.nil⟩

theorem reaches_keeps (h : Reaches step Initial Fresh s) : Kept s ∧ s.Orderly :=
  h.invariant (I := fun s => Kept s ∧ s.Orderly) (fun _ => initial_keeps)
    fun _ e ⟨hkept, ho⟩ hfresh =>
      ⟨(step_keeps hkept ho e).1, (step_keeps hkept ho e).2.2 hfresh⟩

/-- **No session is stopped by an earlier one** as long as no round of an input task of an
earlier session fails behind a later `Connect`; and a step keeps the order of the commands
exactly where that is so. -/
theorem stays_separate (h : Reaches step Initial Fresh s) :
    s.Separate ∧ ∀ e, (s.step e).Orderly ↔ s.Fresh e := by
  obtain ⟨hkept, ho⟩ := reaches_keeps h
  exact ⟨ho.sublist (List.sublist_append_left ..), fun e => (step_keeps hkept ho e).2⟩

/-! ### A task that fails late -/

open SidecarDOS.Host.Runtime (sampleWake sampleOpen sampleHost sampleHost_initial)

/-- A device connects and opens its input stream, its session ends, and the thread handles both
commands. -/
def sampleFirst : List (Wake × RuntimeEvent) :=
  sampleOpen ++ [(sampleWake, .closed), (sampleWake, .finish),
    (sampleWake, .turn (Pipeline.sampleTurn 0)), (sampleWake, .turn (Pipeline.sampleTurn 10000))]

/-- It connects again. -/
def sampleSecond : List (Wake × RuntimeEvent) :=
  sampleFirst ++ [(sampleWake, .incoming (.authenticated (Pipeline.sampleDevice 1))),
    (sampleWake, .capabilities (.ok Pipeline.sampleModes))]

def sampleSessions : Sessions := { host := sampleHost }

/-- The hypothesis of `stays_separate` is satisfiable: both sessions are handled in their
order. -/
theorem stays_separate_sample : ∃ s : Sessions, s.begun = 2 ∧
    s.handled.map Prod.snd = [1, 1, 2] ∧ s.Separate := by
  have hfresh : Along step Fresh sampleSessions
      (sampleSecond ++ [(sampleWake, .turn (Pipeline.sampleTurn 20000))]) := by
    have hne {s : Sessions} {w : Wake} {e : RuntimeEvent} (h : ∀ i p, e ≠ .input i p) :
        s.Fresh (w, e) := fun i p _ heq => absurd heq (h i p)
    exact ⟨hne nofun, hne nofun, hne nofun, hne nofun, hne nofun, hne nofun, hne nofun, hne nofun,
      hne nofun, hne nofun, trivial⟩
  have h := (stays_separate ((Reaches.init ⟨_, sampleHost_initial, rfl⟩).along hfresh)).1
  exact ⟨_, by decide +kernel, by decide +kernel, h⟩

/-- The input task of the first session runs to its end behind the second `Connect`, and the
thread handles what lies in the queue. -/
def sampleStale : List (Wake × RuntimeEvent) :=
  sampleSecond ++ [(sampleWake, .input 0 (.error .connection)),
    (sampleWake, .turn (Pipeline.sampleTurn 20000)),
    (sampleWake, .turn (Pipeline.sampleTurn 30000))]

/-- The property fails for an input task that was aborted too late: the second session still
runs, but the thread has handled the `Disconnect` of the first one. -/
theorem session_stopped : ¬ ∀ s, Reaches step Initial (fun _ _ => True) s → s.Separate := by
  intro h
  have hstale : Along step (fun _ _ => True) sampleSessions sampleStale :=
    ⟨trivial, trivial, trivial, trivial, trivial, trivial, trivial, trivial, trivial, trivial,
      trivial, trivial, trivial⟩
  have hseparate := h _ ((Reaches.init ⟨_, sampleHost_initial, rfl⟩).along hstale)
  have hcrossed : ¬ (sampleStale.foldl step sampleSessions).handled.Pairwise Apart := by
    decide +kernel
  exact hcrossed hseparate

end Sessions

end Host
end SidecarDOS
