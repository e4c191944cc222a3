/-
# A transform that keeps to its protocol

An asynchronous transform announces an output with an event, and puts out the samples that
it holds, each once and under its own time; a change of the stream is announced in the
same way.  `Coding` is the encoder with such a transform, whose calls all succeed.  As long
as no sample goes in with the time of one that is inside, `pending` tells what is inside:
there are at most three samples, no announced output gets lost at the bound of `outputs`, and
every output finds its frame (`outputs_found`).
-/

import SidecarDOS.Native.Accounts

namespace SidecarDOS
namespace Native

open Library (Reaches Along Ends exec ends_pure ends_throw ends_get ends_modify ends_bind
  ends_demand)
open Driver (Key)

structure Transform where
  /-- The events that have not been fetched. -/
  queue : List Fetched := []
  /-- The samples that are inside. -/
  held : List Time := []
  /-- What has been announced, in the order in which it is put out: a sample or a change. -/
  done : List (Option Time) := []

/-- What `ProcessOutput` answers. -/
def Transform.processed (m : Transform) (clean : UInt32) (data : Bytes) : Processed :=
  match m.done with
  | some t :: _ => .sample { time := some t, clean := clean, data := some data }
  | none :: _ => .streamChange true
  | [] => .failed

structure Coding where
  encoder : Encoder := {}
  transform : Transform := {}

namespace Coding

inductive Move where
  /-- The transform asks for a sample, or sends an event of another kind. -/
  | want
  | other
  /-- It announces the output of a sample, or a change of the stream. -/
  | finish (t : Time)
  | change
  | input (slot : ℕ) (frame capture : UInt64)
  /-- The bridge polls; the clean point and the bytes of the output. -/
  | poll (capacity : ℕ) (clean : UInt32) (data : Bytes)
  | mutex (slot : ℕ) (key : Option Key)

/-- The events in their order; every call succeeds. -/
def answers (queue : List Fetched) (processed : Processed) : Answers where
  events i := queue[i]?.getD .nothing
  processed := processed

variable (s : Coding)

/-- The events that a call of `input` leaves in the queue. -/
def fetched (slot : ℕ) : List Fetched :=
  if slot < 3 ∧ s.encoder.mutexes slot = some .one then s.transform.queue.drop 32
  else s.transform.queue

/-- `ProcessOutput` has been called. -/
def put (e' : Encoder) : Transform :=
  if e'.tally Step.processes = s.encoder.tally Step.processes then s.transform
  else { s.transform with
    held := match s.transform.done with
      | some t :: _ => s.transform.held.erase t
      | _ => s.transform.held
    done := s.transform.done.tail }

def step : Move → Coding
  | .want => { s with transform := { s.transform with queue := s.transform.queue ++ [.needInput] } }
  | .other => { s with transform := { s.transform with queue := s.transform.queue ++ [.other] } }
  | .finish t => { s with transform := { s.transform with
      queue := s.transform.queue ++ [.haveOutput], done := s.transform.done ++ [some t] } }
  | .change => { s with transform := { s.transform with
      queue := s.transform.queue ++ [.haveOutput], done := s.transform.done ++ [none] } }
  | .input slot frame capture =>
    let e' := s.encoder.step (.input (answers s.transform.queue .empty) slot frame capture)
    { encoder := e'
      transform := { s.transform with
        queue := s.fetched slot
        held := if e'.accepted = s.encoder.accepted then s.transform.held
          else time capture :: s.transform.held } }
  | .poll capacity clean data =>
    let e' := s.encoder.step (.poll (answers s.transform.queue
      (s.transform.processed clean data)) capacity)
    { encoder := e'
      transform := { s.put e' with queue := s.transform.queue.drop 32 } }
  | .mutex slot key => { s with encoder := s.encoder.step (.mutex slot key) }

/-- The transform announces what is inside, once, and one change at a time; no sample goes in with
the time of one that is inside; and the output fits. -/
def Regular (s : Coding) : Move → Prop
  | .finish t => t ∈ s.transform.held ∧ some t ∉ s.transform.done
  | .change => none ∉ s.transform.done
  | .input _ _ capture => time capture ∉ s.transform.held
  | .poll capacity _ data => data.length ≤ capacity
  | _ => True

instance (s : Coding) (m : Move) : Decidable (Regular s m) := by
  cases m <;> unfold Regular <;> infer_instance

def Initial (s : Coding) : Prop := s = {}

variable {s : Coding}

/-- `pending` tells what is inside, and no announced output has been lost. -/
structure Matched (s : Coding) : Prop where
  accounts : s.encoder.Accounts
  held : (s.encoder.pending.map Prod.fst).Perm s.transform.held
  unique : s.transform.done.Nodup
  done : ∀ t, some t ∈ s.transform.done → t ∈ s.transform.held
  queue : ∀ x ∈ s.transform.queue, x = .needInput ∨ x = .haveOutput ∨ x = .other
  outputs : s.encoder.outputs + s.transform.queue.count .haveOutput = s.transform.done.length

theorem Matched.length_held (h : s.Matched) : s.transform.held.length ≤ 3 := by
  rw [← h.held.length_eq, List.length_map]
  exact h.accounts.room

/-- Three samples and one change of the stream. -/
theorem Matched.length_done (h : s.Matched) : s.transform.done.length ≤ 4 := by
  have hsub : s.transform.done ⊆ none :: s.transform.held.map some := by
    intro o ho
    cases o with
    | none => exact List.mem_cons_self
    | some t => exact List.mem_cons_of_mem _ (List.mem_map_of_mem (h.done t ho))
  have hlength := (List.subperm_of_subset h.unique hsub).length_le
  have hheld := h.length_held
  rw [List.length_cons, List.length_map] at hlength
  omega

/-- `pump` fetches the announcements that are at the front of the queue. -/
theorem pump_fetches {queue : List Fetched} (processed : Processed)
    (hqueue : ∀ x ∈ queue, x = .needInput ∨ x = .haveOutput ∨ x = .other) (n i : ℕ) (e : Encoder)
    (hroom : e.outputs + ((queue.drop i).take n).count .haveOutput ≤ 4) :
    Ends (Encoder.pump (answers queue processed) n i) e fun r e' => r = .ok () ∧
      e'.outputs = e.outputs + ((queue.drop i).take n).count .haveOutput ∧
        e'.tally Step.processes = e.tally Step.processes := by
  induction n generalizing e i with
  | zero => exact ends_pure.2 ⟨rfl, by simp, rfl⟩
  | succ n ih =>
    unfold Encoder.pump
    cases hi : queue[i]? with
    | none =>
      have hdrop : queue.drop i = [] := List.drop_eq_nil_of_le (List.getElem?_eq_none_iff.1 hi)
      simp only [answers, hi, Option.getD_none]
      exact ends_pure.2 ⟨rfl, by simp [hdrop], rfl⟩
    | some x =>
      obtain ⟨hlt, hx⟩ := List.getElem?_eq_some_iff.1 hi
      have hdrop : queue.drop i = x :: queue.drop (i + 1) := by
        rw [List.drop_eq_getElem_cons hlt, hx]
      rw [hdrop, List.take_succ_cons] at hroom ⊢
      simp only [answers, hi, Option.getD_some]
      rcases hqueue x (List.mem_of_getElem? hi) with rfl | rfl | rfl
      · rw [List.count_cons_of_ne (by decide)] at hroom ⊢
        exact ends_bind.2 (ends_modify.2 (ih (i + 1) _ hroom))
      · rw [List.count_cons_self] at hroom ⊢
        have hmin : min (e.outputs + 1) 4 = e.outputs + 1 := by omega
        refine ends_bind.2 (ends_modify.2 ((ih (i + 1) _ ?_).mono fun r e' he' => ?_))
        · show min (e.outputs + 1) 4 + _ ≤ 4
          omega
        · refine ⟨he'.1, he'.2.1.trans ?_, he'.2.2⟩
          show min (e.outputs + 1) 4 + _ = _
          omega
      · rw [List.count_cons_of_ne (by decide)] at hroom ⊢
        exact ih (i + 1) _ hroom

/-- What a pass of `pump` has fetched. -/
theorem Matched.pump (h : s.Matched) (processed : Processed) {e : Encoder}
    (he : e.outputs = s.encoder.outputs) :
    Ends (Encoder.pump (answers s.transform.queue processed) 32 0) e fun r e' =>
      r = .ok () ∧ e'.outputs + (s.transform.queue.drop 32).count .haveOutput =
          s.transform.done.length ∧
        e'.tally Step.processes = e.tally Step.processes ∧ Encoder.Pumped e e' := by
  have hcount : (s.transform.queue.take 32).count .haveOutput +
      (s.transform.queue.drop 32).count .haveOutput = s.transform.queue.count .haveOutput := by
    rw [← List.count_append, List.take_append_drop]
  have houtputs := h.outputs
  have hlength := h.length_done
  obtain ⟨hok, hfetched, htally⟩ :=
    pump_fetches processed h.queue 32 0 e (by rw [List.drop_zero]; omega)
  refine ⟨hok, ?_, htally, (Encoder.pump_pumped 32 0).out.2⟩
  rw [hfetched, List.drop_zero]
  omega

/-- The transform has taken nothing, or the sample of this frame. -/
def Offers (frame capture : UInt64) (e e' : Encoder) : Prop :=
  e'.pending = e.pending ∧ e'.accepted = e.accepted ∨
    e'.pending = Encoder.emplace e.pending (time capture) frame capture ∧
      e'.accepted = (frame, capture) :: e.accepted

theorem submit_offers (a : Answers) (slot : ℕ) (frame capture : UInt64) (e : Encoder) :
    Ends (Encoder.submit a slot frame capture) e fun _ e' =>
      e'.outputs = e.outputs ∧ Offers frame capture e e' := by
  have hnone : Offers frame capture e e := .inl ⟨rfl, rfl⟩
  refine ends_bind.2 (ends_demand.2
    ⟨fun _ => ends_bind.2 (ends_modify.2 ?_), fun _ => ⟨rfl, hnone⟩⟩)
  refine ends_bind.2 (ends_demand.2
    ⟨fun _ => ends_bind.2 (ends_modify.2 ?_), fun _ => ⟨rfl, hnone⟩⟩)
  refine ends_bind.2 (ends_demand.2 ⟨fun _ => ?_, fun _ => ⟨rfl, hnone⟩⟩)
  refine ends_bind.2 (ends_demand.2 ⟨fun _ => ?_, fun _ => ⟨rfl, hnone⟩⟩)
  exact ends_modify.2 ⟨rfl, .inr ⟨rfl, rfl⟩⟩

/-- What a call of `input` has fetched and offered. -/
structure Fed (s : Coding) (slot : ℕ) (frame capture : UInt64) (e' : Encoder) : Prop where
  outputs : e'.outputs + (s.fetched slot).count .haveOutput = s.transform.done.length
  offers : Offers frame capture s.encoder e'

theorem Fed.drop {slot : ℕ} {frame capture : UInt64} {e' : Encoder} {a : Answers}
    (h : s.Fed slot frame capture e') : s.Fed slot frame capture (e'.drop a slot) := by
  unfold Encoder.drop
  split_ifs
  · exact ⟨h.outputs, h.offers⟩
  · exact ⟨h.outputs, h.offers⟩
  · exact h

theorem Matched.input (h : s.Matched) {slot : ℕ} {frame capture : UInt64} :
    Ends (Encoder.input (answers s.transform.queue .empty) slot frame capture) s.encoder
      fun _ e' => s.Fed slot frame capture e' := by
  have hnone (hn : ¬ (slot < 3 ∧ s.encoder.mutexes slot = some .one)) :
      s.Fed slot frame capture s.encoder :=
    ⟨by rw [fetched, if_neg hn]; exact h.outputs, .inl ⟨rfl, rfl⟩⟩
  unfold Encoder.input
  refine Ends.ite (fun hslot => ends_throw.2 (hnone fun hn => absurd hn.1 (Nat.not_lt.2 hslot)))
    fun hslot => ?_
  refine Encoder.ends_leased.2 (Ends.mono (Q := fun _ e' => s.Fed slot frame capture e') ?_
    fun _ _ hfed => Fed.drop hfed)
  refine ends_bind.2 (ends_bind.2 (ends_demand.2 ⟨fun _ => ?_,
    fun habandoned => absurd rfl habandoned⟩))
  refine ends_bind.2 (ends_get.2 (Ends.ite (fun hone => ?_) fun hkey => ?_))
  · have hfetched : s.fetched slot = s.transform.queue.drop 32 :=
      if_pos ⟨Nat.not_le.1 hslot, hone⟩
    refine ends_bind.2 (ends_modify.2 (ends_pure.2 ?_))
    refine Ends.bind (h.pump .empty ?_) (fun _ e₁ h₁ => ?_) fun _ _ h₁ => nomatch h₁.1
    · rfl
    obtain ⟨-, houtputs, -, hpumped⟩ := h₁
    rw [← hfetched] at houtputs
    have hpending : e₁.pending = s.encoder.pending := hpumped.pending
    have haccepted : e₁.accepted = s.encoder.accepted := hpumped.accepted
    refine ends_bind.2 (ends_get.2 (Ends.ite (fun _ => ?_) fun _ =>
      ends_pure.2 ⟨houtputs, .inl ⟨hpending, haccepted⟩⟩))
    have hsubmit := submit_offers (answers s.transform.queue .empty) slot frame capture e₁
    unfold Offers at hsubmit
    rw [hpending, haccepted] at hsubmit
    exact hsubmit.bind (fun _ e' he' => ends_pure.2 ⟨he'.1 ▸ houtputs, he'.2⟩)
      fun _ e' he' => ⟨he'.1 ▸ houtputs, he'.2⟩
  · exact ends_pure.2 (ends_pure.2 (hnone fun hn => hkey hn.2))

/-- A sample whose time is not inside goes in. -/
theorem Matched.fed (h : s.Matched) {slot : ℕ} {frame capture : UInt64} {e' : Encoder}
    (hfed : s.Fed slot frame capture e') (hnew : time capture ∉ s.transform.held)
    (haccounts : e'.Accounts) :
    Matched ⟨e', { s.transform with
      queue := s.fetched slot
      held := if e'.accepted = s.encoder.accepted then s.transform.held
        else time capture :: s.transform.held }⟩ := by
  have hqueue : ∀ x ∈ s.fetched slot, x = .needInput ∨ x = .haveOutput ∨ x = .other := by
    unfold fetched
    split
    · exact fun x hx => h.queue x (List.mem_of_mem_drop hx)
    · exact h.queue
  obtain ⟨houtputs, ⟨hpending, haccepted⟩ | ⟨hpending, haccepted⟩⟩ := hfed
  · rw [if_pos haccepted]
    exact ⟨haccounts, hpending ▸ h.held, h.unique, h.done, hqueue, houtputs⟩
  · rw [if_neg fun heq => absurd (haccepted.symm.trans heq) (List.cons_ne_self _ _)]
    rw [Encoder.emplace_of_new fun hmem => hnew (h.held.mem_iff.1 hmem)] at hpending
    refine ⟨haccounts, ?_, h.unique, fun t ht => List.mem_cons_of_mem _ (h.done t ht), hqueue,
      houtputs⟩
    rw [hpending]
    exact h.held.cons _

/-- What a poll returns, and what it leaves: nothing has been announced, the stream changes, or
the output of a sample has its frame. -/
inductive Polls (s : Coding) (clean : UInt32) (data : Bytes) :
    Except HResult (Option NativeOutput) → Encoder → Prop where
  | nothing {e' : Encoder} (hpending : e'.pending = s.encoder.pending)
    (htally : e'.tally Step.processes = s.encoder.tally Step.processes)
    (houtputs : e'.outputs = 0)
    (hcount : (s.transform.queue.drop 32).count .haveOutput = s.transform.done.length) :
    Polls s clean data (.ok none) e'
  | change {e' : Encoder} {rest : List (Option Time)} (hdone : s.transform.done = none :: rest)
    (hpending : e'.pending = s.encoder.pending)
    (htally : e'.tally Step.processes = s.encoder.tally Step.processes + 1)
    (hcount : e'.outputs + (s.transform.queue.drop 32).count .haveOutput = rest.length) :
    Polls s clean data (.ok none) e'
  | sample {e' : Encoder} {t : Time} {rest : List (Option Time)} {frame capture : UInt64}
    (hdone : s.transform.done = some t :: rest)
    (hlookup : s.encoder.pending.lookup t = some (frame, capture))
    (hpending : e'.pending = Encoder.erase s.encoder.pending t)
    (htally : e'.tally Step.processes = s.encoder.tally Step.processes + 1)
    (hcount : e'.outputs + (s.transform.queue.drop 32).count .haveOutput = rest.length) :
    Polls s clean data (.ok (some ⟨frame, capture, clean, data⟩)) e'

theorem Matched.polls (h : s.Matched) {capacity : ℕ} {clean : UInt32} {data : Bytes}
    (hfits : data.length ≤ capacity) :
    Ends (Encoder.poll (answers s.transform.queue (s.transform.processed clean data)) capacity)
      s.encoder fun r e' => Polls s clean data r e' := by
  refine Ends.bind (h.pump _ rfl) (fun _ e₁ h₁ => ?_) fun _ _ h₁ => nomatch h₁.1
  obtain ⟨-, houtputs, htally, hpumped⟩ := h₁
  refine ends_bind.2 (ends_get.2 (Ends.ite (fun hzero => ends_pure.2 ?_) fun hsome => ?_))
  · refine .nothing hpumped.pending htally hzero ?_
    rw [hzero] at houtputs
    omega
  refine ends_bind.2 (ends_demand.2 ⟨fun _ => ends_bind.2 (ends_modify.2 ?_),
    fun hn => absurd rfl hn⟩)
  have htally' : e₁.tally Step.processes + 1 = s.encoder.tally Step.processes + 1 :=
    congrArg (· + 1) htally
  cases hdone : s.transform.done with
  | nil =>
    rw [hdone, List.length_nil] at houtputs
    omega
  | cons o rest =>
    rw [hdone, List.length_cons] at houtputs
    have hcount : e₁.outputs - 1 + (s.transform.queue.drop 32).count .haveOutput = rest.length := by
      omega
    cases o with
    | none =>
      simp only [answers, Transform.processed, hdone]
      refine ends_bind.2 (ends_demand.2 ⟨fun _ => ends_pure.2 ?_, fun hn => absurd rfl hn⟩)
      exact .change hdone hpumped.pending htally' hcount
    | some t =>
      have ht : t ∈ s.encoder.pending.map Prod.fst :=
        h.held.mem_iff.2 (h.done t (hdone ▸ List.mem_cons_self))
      obtain ⟨⟨frame, capture⟩, hlookup⟩ : ∃ x, s.encoder.pending.lookup t = some x := by
        refine Option.ne_none_iff_exists'.1 fun hnone => ?_
        obtain ⟨p, hp, rfl⟩ := List.mem_map.1 ht
        exact absurd (List.lookup_eq_none_iff.1 hnone p hp) (by simp)
      have hfound : e₁.pending.lookup t = some (frame, capture) := hpumped.pending ▸ hlookup
      have htake : Ends
          (Encoder.take { time := some t, clean := clean, data := some data } capacity)
          { e₁ with outputs := e₁.outputs - 1, log := .processed :: e₁.log } fun r e' =>
            Polls s clean data (some <$> r) e' := by
        refine ends_bind.2 (ends_get.2 ?_)
        simp only [hfound]
        refine ends_bind.2 (ends_modify.2 (ends_bind.2 (ends_demand.2
          ⟨fun _ => ?_, fun hn => absurd hfits hn⟩)))
        refine ends_bind.2 (ends_demand.2 ⟨fun _ => ends_pure.2 ?_, fun hn => absurd rfl hn⟩)
        exact .sample hdone hlookup (congrArg (Encoder.erase · t) hpumped.pending) htally' hcount
      simp only [answers, Transform.processed, hdone]
      exact htake.bind (fun out e' he' => ends_pure.2 he') fun x e' he' => he'

/-- What has been announced stays so behind a poll. -/
theorem Matched.polled (h : s.Matched) {clean : UInt32} {data : Bytes} {e' : Encoder}
    {r : Except HResult (Option NativeOutput)} (hpolls : Polls s clean data r e')
    (haccounts : e'.Accounts) :
    Matched ⟨e', { s.put e' with queue := s.transform.queue.drop 32 }⟩ := by
  have hqueue : ∀ x ∈ s.transform.queue.drop 32, x = .needInput ∨ x = .haveOutput ∨ x = .other :=
    fun x hx => h.queue x (List.mem_of_mem_drop hx)
  cases hpolls with
  | nothing hpending htally houtputs hcount =>
    rw [put, if_pos htally]
    exact ⟨haccounts, hpending ▸ h.held, h.unique, h.done, hqueue, by
      show e'.outputs + _ = _
      rw [houtputs, Nat.zero_add]
      exact hcount⟩
  | change hdone hpending htally hcount =>
    rw [put, if_neg (by omega), hdone]
    exact ⟨haccounts, hpending ▸ h.held, (hdone ▸ h.unique).tail,
      fun t ht => h.done t (hdone ▸ List.mem_cons_of_mem _ ht), hqueue, hcount⟩
  | @sample _ t rest frame capture hdone hlookup hpending htally hcount =>
    have hunique : (some t :: rest).Nodup := hdone ▸ h.unique
    have hperm := (Encoder.erase_perm h.accounts.unique hlookup).map Prod.fst
    rw [put, if_neg (by omega), hdone]
    refine ⟨haccounts, ?_, hunique.tail, fun t' ht' => ?_, hqueue, hcount⟩
    · have hheld := (h.held.symm.trans hperm).erase t
      rw [List.map_cons, List.erase_cons_head] at hheld
      rw [hpending]
      exact hheld.symm
    · refine (List.mem_erase_of_ne ?_).2 (h.done t' (hdone ▸ List.mem_cons_of_mem _ ht'))
      rintro rfl
      exact (List.nodup_cons.1 hunique).1 ht'

theorem Matched.step (h : s.Matched) {m : Move} (hregular : Regular s m) : (s.step m).Matched := by
  have hwants {x : Fetched} (hx : x = .needInput ∨ x = .other) :
      Matched { s with transform := { s.transform with queue := s.transform.queue ++ [x] } } := by
    refine ⟨h.accounts, h.held, h.unique, h.done, fun y hy => ?_, ?_⟩
    · rcases List.mem_append.1 hy with hy | hy
      · exact h.queue y hy
      · obtain rfl := List.mem_singleton.1 hy
        rcases hx with rfl | rfl
        · exact .inl rfl
        · exact .inr (.inr rfl)
    · have hcount : [x].count .haveOutput = 0 := by
        rcases hx with rfl | rfl <;> rfl
      show _ + List.count _ (_ ++ [x]) = _
      rw [List.count_append, hcount]
      exact h.outputs
  have hannounces {o : Option Time} (hnew : o ∉ s.transform.done)
      (hheld : ∀ t, o = some t → t ∈ s.transform.held) :
      Matched { s with transform := { s.transform with
        queue := s.transform.queue ++ [.haveOutput], done := s.transform.done ++ [o] } } := by
    refine ⟨h.accounts, h.held, ?_, fun t ht => ?_, fun y hy => ?_, ?_⟩
    · exact List.nodup_append.2 ⟨h.unique, List.nodup_cons.2 ⟨List.not_mem_nil, List.nodup_nil⟩, by
        rintro x hx y hy rfl
        exact hnew (List.mem_singleton.1 hy ▸ hx)⟩
    · rcases List.mem_append.1 ht with ht | ht
      · exact h.done t ht
      · exact hheld t (List.mem_singleton.1 ht).symm
    · rcases List.mem_append.1 hy with hy | hy
      · exact h.queue y hy
      · exact .inr (.inl (List.mem_singleton.1 hy))
    · have houtputs := h.outputs
      show s.encoder.outputs + List.count _ (_ ++ [_]) = (s.transform.done ++ [o]).length
      rw [List.count_append, List.length_append, List.count_singleton_self, List.length_singleton]
      omega
  cases m with
  | want => exact hwants (.inl rfl)
  | other => exact hwants (.inr rfl)
  | finish t => exact hannounces hregular.2 fun t' ht' => Option.some.inj ht' ▸ hregular.1
  | change => exact hannounces hregular nofun
  | input slot frame capture =>
    exact h.fed (h.input.of_exec rfl) hregular (Encoder.input_balances.out.2 h.accounts)
  | poll capacity clean data =>
    exact h.polled ((h.polls hregular).of_exec rfl)
      ((Encoder.poll_balances capacity).out.2 h.accounts)
  | mutex slot key =>
    exact ⟨h.accounts.mutexes _ _, h.held, h.unique, h.done, h.queue, h.outputs⟩

theorem Matched.init (h : Initial s) : s.Matched := by
  obtain rfl := h
  exact ⟨.init rfl, .refl _, List.nodup_nil, nofun, nofun, rfl⟩

/-- A poll does not fail, and an output that has been fetched is found. -/
theorem Matched.found (h : s.Matched) {clean : UInt32} {data : Bytes} {e' : Encoder}
    {r : Except HResult (Option NativeOutput)} (hpolls : Polls s clean data r e') :
    ∃ r', r = .ok r' ∧
      ∀ t rest, s.transform.done = some t :: rest → s.transform.queue.length ≤ 32 →
        ∃ frame capture, r' = some ⟨frame, capture, clean, data⟩ ∧ time capture = t ∧
          (frame, capture) ∈ s.encoder.accepted := by
  cases hpolls with
  | nothing _ _ _ hcount =>
    refine ⟨none, rfl, fun t rest hdone hqueue => ?_⟩
    rw [List.drop_eq_nil_of_le hqueue, hdone] at hcount
    exact nomatch hcount
  | change hdone =>
    exact ⟨none, rfl, fun t rest hdone' _ => nomatch hdone.symm.trans hdone'⟩
  | @sample _ t rest frame capture hdone hlookup =>
    obtain ⟨hmem, htime⟩ := h.accounts.mem_accepted hlookup
    refine ⟨_, rfl, fun t' rest' hdone' _ => ⟨frame, capture, rfl, ?_, hmem⟩⟩
    obtain ⟨heq, -⟩ := List.cons.inj (hdone.symm.trans hdone')
    exact htime.symm.trans (Option.some.inj heq)

/-- **Every output finds its frame.**  With a transform that keeps to its protocol, as long as no
sample goes in with the time of one that is inside, `pending` has the times of what is inside:
at most three samples.  Every output that is announced is counted, a poll never fails, and an
output that has been announced and is fetched comes with the metadata of a frame that was accepted
for its time. -/
theorem outputs_found (h : Reaches step Initial Regular s) :
    s.transform.held.length ≤ 3 ∧ (s.encoder.pending.map Prod.fst).Perm s.transform.held ∧
    s.encoder.outputs + s.transform.queue.count .haveOutput = s.transform.done.length ∧
    ∀ capacity clean data, data.length ≤ capacity →
      ∃ r, (exec (Encoder.poll (answers s.transform.queue (s.transform.processed clean data))
          capacity) s.encoder).1 = .ok r ∧
        ∀ t rest, s.transform.done = some t :: rest → s.transform.queue.length ≤ 32 →
          ∃ frame capture, r = some ⟨frame, capture, clean, data⟩ ∧ time capture = t ∧
            (frame, capture) ∈ s.encoder.accepted := by
  have hmatched : s.Matched :=
    h.invariant (fun _ => Matched.init) fun _ _ hs hregular => hs.step hregular
  refine ⟨hmatched.length_held, hmatched.held, hmatched.outputs,
    fun capacity clean data hfits => ?_⟩
  have hpolls : Polls s clean data _ _ := (hmatched.polls hfits).of_exec rfl
  exact hmatched.found hpolls

/-- The frame of the first texture goes in, and its output is announced. -/
def sampleMoves : List Move :=
  [.want, .mutex 0 (some .one), .input 0 1 10, .finish (time 10)]

theorem outputs_found_sample : ∃ r : Option NativeOutput, ∃ frame capture : UInt64,
    r = some ⟨frame, capture, 1, [0, 0, 1, 0x65]⟩ ∧ time capture = time 10 := by
  have hinit : Reaches step Initial Regular ({} : Coding) := .init rfl
  have h := hinit.along (show Along step Regular {} sampleMoves by decide)
  obtain ⟨r, -, hr⟩ := (outputs_found h).2.2.2 64 1 [0, 0, 1, 0x65] (by decide)
  obtain ⟨frame, capture, hout, htime, -⟩ := hr (time 10) [] rfl (by decide)
  exact ⟨r, frame, capture, hout, htime⟩

end Coding

end Native
end SidecarDOS
