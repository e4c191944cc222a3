/-
# What goes in and what comes out

Whatever the transform does, the encoder keeps its accounts: it gives it a sample only
where it has been asked for one, calls `ProcessOutput` only where an output has been
announced, has at most three samples in flight, and returns the metadata of
samples that have been accepted, each of them at most once and under the time that it
went in with (`accounts_kept`).
-/

import Mathlib.Data.List.Perm.Subperm
import SidecarDOS.Native.Encoder

namespace SidecarDOS
namespace Native

open Library (Reaches Within Yields Ends exec)
open Driver (Key)

namespace Step

/-- The frame and the capture time of a sample that the transform has taken. -/
def accepts : Step → Option (UInt64 × UInt64)
  | accepted _ frame capture => some (frame, capture)
  | _ => none

def settles : Step → Option (UInt64 × UInt64)
  | settled _ frame capture => some (frame, capture)
  | _ => none

/-- The transform asks for a sample. -/
def asks : Step → Bool
  | needInput => true
  | _ => false

/-- The transform announces an output. -/
def announces : Step → Bool
  | haveOutput => true
  | _ => false

def processes : Step → Bool
  | processed => true
  | _ => false

/-- A sample has its frame, and goes by the time of its capture. -/
def Timed : Step → Prop
  | accepted t frame capture => frame ≠ 0 ∧ t = time capture
  | settled t _ capture => t = time capture
  | _ => True

end Step

namespace Encoder

variable {e e' : Encoder} {a : Answers}

/-- What the transform has taken, the latest first. -/
def accepted (e : Encoder) : List (UInt64 × UInt64) := e.log.filterMap Step.accepts

/-- What has been found for an output. -/
def settled (e : Encoder) : List (UInt64 × UInt64) := e.log.filterMap Step.settles

/-- How often something has been done. -/
def tally (e : Encoder) (p : Step → Bool) : ℕ := (e.log.filter p).length

/-- The accounts of the encoder. -/
structure Accounts (e : Encoder) : Prop where
  credits : e.credits ≤ 3
  outputs : e.outputs ≤ 4
  room : e.pending.length ≤ 3
  unique : (e.pending.map Prod.fst).Nodup
  times : ∀ p ∈ e.pending, p.1 = time p.2.2
  timed : ∀ x ∈ e.log, x.Timed
  asked : e.accepted.length + e.credits ≤ e.tally Step.asks
  announced : e.tally Step.processes + e.outputs ≤ e.tally Step.announces
  kept : (e.settled ++ e.pending.map Prod.snd).Subperm e.accepted

/-- The step keeps the accounts. -/
def Balanced (e e' : Encoder) : Prop := e.Accounts → e'.Accounts

instance : Std.Refl Balanced := ⟨fun _ h => h⟩

instance : IsTrans Encoder Balanced := ⟨fun _ _ _ h h' hs => h' (h hs)⟩

abbrev Balances {α : Type} (m : Call α) (e : Encoder) : Prop :=
  Within Balanced (fun _ => True) m e

/-- What is done with the mutexes is of no account. -/
theorem Accounts.mutexes (h : e.Accounts) (mutexes : ℕ → Option Key) (owned : Bool) :
    Accounts { e with mutexes := mutexes, owned := owned } :=
  ⟨h.credits, h.outputs, h.room, h.unique, h.times, h.timed, h.asked, h.announced, h.kept⟩

theorem Accounts.acquired (h : e.Accounts) (slot : ℕ) :
    Accounts { e with log := .acquired slot :: e.log } :=
  ⟨h.credits, h.outputs, h.room, h.unique, h.times, List.forall_mem_cons.2 ⟨trivial, h.timed⟩,
    h.asked, h.announced, h.kept⟩

theorem Accounts.converted (h : e.Accounts) (slot : ℕ) :
    Accounts { e with log := .converted slot :: e.log } :=
  ⟨h.credits, h.outputs, h.room, h.unique, h.times, List.forall_mem_cons.2 ⟨trivial, h.timed⟩,
    h.asked, h.announced, h.kept⟩

theorem Accounts.freed (h : e.Accounts) (slot : ℕ) : (e.freed slot).Accounts :=
  ⟨h.credits, h.outputs, h.room, h.unique, h.times, List.forall_mem_cons.2 ⟨trivial, h.timed⟩,
    h.asked, h.announced, h.kept⟩

theorem pump_balances (n i : ℕ) : Balances (pump a n i) e := by
  refine pump_within (fun e h => ?_) (fun e h => ?_) n i
  · refine ⟨Nat.min_le_right _ _, h.outputs, h.room, h.unique, h.times,
      List.forall_mem_cons.2 ⟨trivial, h.timed⟩, ?_, h.announced, h.kept⟩
    have hasked := h.asked
    have hmin := Nat.min_le_left (e.credits + 1) 3
    show e.accepted.length + min (e.credits + 1) 3 ≤ e.tally Step.asks + 1
    omega
  · refine ⟨h.credits, Nat.min_le_right _ _, h.room, h.unique, h.times,
      List.forall_mem_cons.2 ⟨trivial, h.timed⟩, h.asked, ?_, h.kept⟩
    have hannounced := h.announced
    have hmin := Nat.min_le_left (e.outputs + 1) 4
    show e.tally Step.processes + min (e.outputs + 1) 4 ≤ e.tally Step.announces + 1
    omega

theorem acquire_balances (slot : ℕ) : Balances (acquire a slot) e :=
  .demand_bind trivial fun _ => .get_bind (.ite
    (fun _ => .modify_bind (fun h => (h.acquired slot).mutexes _ _) (.pure _)) fun _ => .pure _)

theorem drop_balanced (slot : ℕ) : Balanced e (e.drop a slot) := by
  intro h
  unfold drop
  split_ifs
  · exact h.freed slot
  · exact h.mutexes _ _
  · exact h

/-- The end of a lease is the last thing that a call does. -/
theorem ends_leased {α : Type} {slot : ℕ} {m : Call α} {Q : Except HResult α → Encoder → Prop} :
    Ends (leased a slot m) e Q ↔ Ends m e fun r e' => Q r (e'.drop a slot) := Iff.rfl

theorem leased_balances {α : Type} {slot : ℕ} {m : Call α} (h : Balances m e) :
    Balances (leased a slot m) e :=
  ends_leased.2 (h.mono fun _ _ hr => ⟨hr.1, fun hs => drop_balanced slot (hr.2 hs)⟩)

/-! ### A sample that goes in -/

theorem emplace_of_new {pending : List (Time × UInt64 × UInt64)} {t : Time}
    (h : t ∉ pending.map Prod.fst) (frame capture : UInt64) :
    emplace pending t frame capture = (t, frame, capture) :: pending := by
  have hnone : pending.lookup t = none := List.lookup_eq_none_iff.2 fun p hp => by
    have hne : t ≠ p.1 := fun heq => h (heq ▸ List.mem_map_of_mem hp)
    simpa using hne
  rw [emplace, hnone]
  rfl

theorem emplace_cases (pending : List (Time × UInt64 × UInt64)) (t : Time)
    (frame capture : UInt64) : emplace pending t frame capture = pending ∨
      emplace pending t frame capture = (t, frame, capture) :: pending ∧
        t ∉ pending.map Prod.fst := by
  by_cases hmem : t ∈ pending.map Prod.fst
  · refine .inl (if_pos ?_)
    obtain ⟨p, hp, rfl⟩ := List.mem_map.1 hmem
    by_contra hnone
    have hlookup := List.lookup_eq_none_iff.1 (Option.not_isSome_iff_eq_none.1 hnone) p hp
    exact absurd hlookup (by simp)
  · exact .inr ⟨emplace_of_new hmem frame capture, hmem⟩

/-- The transform takes a sample. -/
theorem Accounts.emplaced (h : e.Accounts) {frame capture : UInt64} (hframe : frame ≠ 0)
    (hcredits : e.credits ≠ 0) (hroom : e.pending.length < 3) :
    Accounts { e with
      credits := e.credits - 1
      pending := emplace e.pending (time capture) frame capture
      log := .accepted (time capture) frame capture :: e.log } := by
  have hcases := emplace_cases e.pending (time capture) frame capture
  generalize emplace e.pending (time capture) frame capture = pending at hcases ⊢
  have hasked : e.accepted.length + 1 + (e.credits - 1) ≤ e.tally Step.asks := by
    have := h.asked
    omega
  have htimed : ∀ x ∈ Step.accepted (time capture) frame capture :: e.log, x.Timed :=
    List.forall_mem_cons.2 ⟨⟨hframe, rfl⟩, h.timed⟩
  rcases hcases with rfl | ⟨rfl, hnew⟩
  · refine ⟨(Nat.sub_le _ _).trans h.credits, h.outputs, h.room, h.unique, h.times, htimed, hasked,
      h.announced, ?_⟩
    exact h.kept.trans (List.sublist_cons_self _ _).subperm
  · refine ⟨(Nat.sub_le _ _).trans h.credits, h.outputs, hroom, List.nodup_cons.2 ⟨hnew, h.unique⟩,
      List.forall_mem_cons.2 ⟨rfl, h.times⟩, htimed, hasked, h.announced, ?_⟩
    exact List.perm_middle.subperm_right.2 ((List.subperm_cons _).2 h.kept)

/-- A sample that is submitted with a credit and with room. -/
theorem submit_balances {slot : ℕ} {frame capture : UInt64} (hframe : frame ≠ 0)
    (hcredits : e.credits ≠ 0) (hroom : e.pending.length < 3) :
    Balances (submit a slot frame capture) e := by
  refine .demand_bind trivial fun _ => .modify_bind (fun h => h.converted slot) ?_
  refine .demand_bind trivial fun _ => .modify_bind (fun h => h.freed slot) ?_
  refine .demand_bind trivial fun _ => .demand_bind trivial fun _ => .modify fun h => ?_
  exact h.emplaced hframe hcredits hroom

theorem input_balances {slot : ℕ} {frame capture : UInt64} :
    Balances (input a slot frame capture) e := by
  unfold input
  refine .ite (fun _ => .throw trivial) fun _ => ?_
  refine leased_balances ?_
  refine (acquire_balances slot).bind fun acquired e _ => .ite (fun _ => .pure _) fun _ => ?_
  refine (pump_balances 32 0).bind fun _ e _ => .get_bind (.ite (fun hroom => ?_) fun _ => .pure _)
  obtain ⟨hframe, hcredits, hlength⟩ : frame ≠ 0 ∧ e.credits ≠ 0 ∧ e.pending.length < 3 := by
    simpa [not_or] using hroom
  exact (submit_balances hframe hcredits hlength).bind fun _ _ _ => .pure _

/-! ### A sample that comes out -/

theorem erase_perm {pending : List (Time × UInt64 × UInt64)} {t : Time} {x : UInt64 × UInt64}
    (hunique : (pending.map Prod.fst).Nodup) (h : pending.lookup t = some x) :
    pending.Perm ((t, x) :: erase pending t) := by
  induction pending with
  | nil => exact nomatch h
  | cons p pending ih =>
    obtain ⟨hp, hunique⟩ := List.nodup_cons.1 hunique
    rw [List.lookup_cons] at h
    by_cases ht : t = p.1
    · subst ht
      rw [beq_self_eq_true] at h
      obtain rfl := Option.some.inj h
      have hrest : erase pending p.1 = pending :=
        List.filter_eq_self.2 fun q hq =>
          decide_eq_true fun heq => hp (heq ▸ List.mem_map_of_mem hq)
      rw [erase, List.filter_cons_of_neg (by simp), ← erase, hrest]
    · rw [beq_false_of_ne ht] at h
      rw [erase, List.filter_cons_of_pos (by simpa using Ne.symm ht), ← erase]
      exact ((ih hunique h).cons p).trans (.swap _ _ _)

/-- The entry of an output goes. -/
theorem Accounts.settled (h : e.Accounts) {t : Time} {frame capture : UInt64}
    (hlookup : e.pending.lookup t = some (frame, capture)) :
    Accounts { e with
      pending := erase e.pending t, log := .settled t frame capture :: e.log } := by
  have hperm := erase_perm h.unique hlookup
  have htime : t = time capture :=
    h.times _ (hperm.mem_iff.2 List.mem_cons_self)
  have hsub : (erase e.pending t).Sublist e.pending := List.filter_sublist
  refine ⟨h.credits, h.outputs, hsub.length_le.trans h.room, h.unique.sublist (hsub.map _),
    fun p hp => h.times p (hsub.subset hp), List.forall_mem_cons.2 ⟨htime, h.timed⟩, h.asked,
    h.announced, ?_⟩
  have hmiddle := ((hperm.map Prod.snd).append_left e.settled).trans List.perm_middle
  exact hmiddle.subperm_right.1 h.kept

theorem poll_balances (capacity : ℕ) : Balances (poll a capacity) e := by
  refine poll_within (fun _ => pump_balances 32 0) (fun e hsome h => ?_)
    (fun e t frame capture hlookup h => h.settled hlookup) capacity
  refine ⟨h.credits, (Nat.sub_le _ _).trans h.outputs, h.room, h.unique, h.times,
    List.forall_mem_cons.2 ⟨trivial, h.timed⟩, h.asked, ?_, h.kept⟩
  have hannounced := h.announced
  show e.tally Step.processes + 1 + (e.outputs - 1) ≤ e.tally Step.announces
  omega

theorem Accounts.step (h : e.Accounts) (event : Event) : (e.step event).Accounts := by
  cases event with
  | input a slot frame capture => exact input_balances.out.2 h
  | poll a capacity => exact (poll_balances capacity).out.2 h
  | mutex slot key => exact h.mutexes _ _

theorem Accounts.init (h : Initial e) : e.Accounts := by
  obtain rfl := h
  exact ⟨by decide, by decide, by decide, List.nodup_nil, nofun, nofun, by decide, by decide,
    List.Subperm.refl []⟩

/-- The encoders that any calls lead to, in any order, whatever is answered. -/
def Reachable (e : Encoder) : Prop := Reaches step Initial (fun _ _ => True) e

theorem Reachable.accounts (h : e.Reachable) : e.Accounts :=
  h.invariant (fun _ => Accounts.init) fun _ event hs _ => hs.step event

/-! ### What a poll returns -/

/-- `pump` changes nothing but the credits, the outputs and the log. -/
structure Pumped (e e' : Encoder) : Prop where
  pending : e'.pending = e.pending
  mutexes : e'.mutexes = e.mutexes
  owned : e'.owned = e.owned
  accepted : e'.accepted = e.accepted
  settled : e'.settled = e.settled

instance : Std.Refl Pumped := ⟨fun _ => ⟨rfl, rfl, rfl, rfl, rfl⟩⟩

instance : IsTrans Encoder Pumped := ⟨fun _ _ _ h h' =>
  ⟨h'.pending.trans h.pending, h'.mutexes.trans h.mutexes, h'.owned.trans h.owned,
    h'.accepted.trans h.accepted, h'.settled.trans h.settled⟩⟩

theorem pump_pumped (n i : ℕ) : Within Pumped (fun _ => True) (pump a n i) e :=
  pump_within (fun _ => ⟨rfl, rfl, rfl, rfl, rfl⟩) (fun _ => ⟨rfl, rfl, rfl, rfl, rfl⟩) n i

/-- What `poll` returns is the transform's sample with the metadata that are pending for its
time. -/
structure Returns (a : Answers) (capacity : ℕ) (out : NativeOutput) (e e' : Encoder) : Prop where
  sample : ∃ o t, a.processed = .sample o ∧ o.time = some t ∧ o.data = some out.data ∧
    out.keyframe = o.clean ∧ e.pending.lookup t = some (out.frame, out.captureUs)
  fits : out.data.length ≤ capacity
  settled : e'.settled = (out.frame, out.captureUs) :: e.settled

theorem take_returns (o : Output) (capacity : ℕ) (ha : a.processed = .sample o) :
    Yields (take o capacity) e fun out e' => Returns a capacity out e e' := by
  unfold take
  cases ht : o.time with
  | none => exact .throw
  | some t =>
    refine .get_bind ?_
    split
    · exact .throw
    · rename_i frame capture hlookup
      refine .modify_bind ?_
      cases hdata : o.data with
      | none => exact .throw
      | some data =>
        refine .demand_bind fun hfits => .demand_bind fun _ => .pure ?_
        exact ⟨⟨o, t, ha, ht, hdata, rfl, hlookup⟩, hfits, rfl⟩

theorem poll_returns (capacity : ℕ) : Yields (poll a capacity) e fun r e' =>
    ∀ out, r = some out → Returns a capacity out e e' := by
  refine (Yields.of_within (pump_pumped 32 0)).bind fun _ e₁ hpump => .get_bind (.ite
    (fun _ => .pure nofun) fun _ => .demand_bind fun _ => .modify_bind ?_)
  cases ha : a.processed with
  | streamChange typed => exact .demand_bind fun _ => .pure nofun
  | failed => exact .throw
  | empty => exact .throw
  | sample o =>
    refine (take_returns o capacity ha).bind fun out e' h => .pure ?_
    rintro _ ⟨⟩
    obtain ⟨⟨o', t, ho, ht, hdata, hclean, hlookup⟩, hfits, hsettled⟩ := h
    exact ⟨⟨o', t, ho, ht, hdata, hclean, hpump.pending ▸ hlookup⟩, hfits,
      hsettled.trans (congrArg _ hpump.settled)⟩

/-- Polling gives the transform nothing. -/
theorem poll_accepted (capacity : ℕ) :
    Within (fun e e' : Encoder => e'.accepted = e.accepted) (fun _ => True) (poll a capacity)
      e := by
  have : Std.Refl fun e e' : Encoder => e'.accepted = e.accepted := ⟨fun _ => rfl⟩
  have : IsTrans Encoder fun e e' => e'.accepted = e.accepted := ⟨fun _ _ _ h h' => h'.trans h⟩
  refine poll_within (R := fun e e' : Encoder => e'.accepted = e.accepted) (fun _ => ?_)
    (fun _ _ => rfl) (fun _ _ _ _ _ => rfl) capacity
  exact (pump_pumped 32 0).weaken (fun _ h => h.accepted) fun _ => id

/-- What is pending has been accepted. -/
theorem Accounts.mem_accepted (h : e.Accounts) {t : Time} {x : UInt64 × UInt64}
    (hlookup : e.pending.lookup t = some x) : x ∈ e.accepted ∧ t = time x.2 := by
  have hmem := (erase_perm h.unique hlookup).mem_iff.2 List.mem_cons_self
  exact ⟨h.kept.subset (List.mem_append_right _ (List.mem_map_of_mem hmem)), h.times _ hmem⟩

theorem Accounts.frame_ne_zero (h : e.Accounts) {x : UInt64 × UInt64} (hx : x ∈ e.accepted) :
    x.1 ≠ 0 := by
  obtain ⟨y, hy, hyx⟩ := List.mem_filterMap.1 hx
  have htimed := h.timed y hy
  cases y with
  | accepted t frame capture =>
    cases hyx
    exact htimed.1
  | _ => cases hyx

/-- **The accounts of the encoder.**  Whatever the transform does, at most three samples are in
flight; it is given no more samples than it has asked for, and is asked for no more outputs than
it has announced.  What a call of `sd_gpu_poll` returns is the output that it has got, with the
metadata of a sample that has been accepted under the time of that output; and the metadata of
every accepted sample are returned at most once. -/
theorem accounts_kept (h : e.Reachable) :
    (e.pending.length ≤ 3 ∧ e.accepted.length + e.credits ≤ e.tally Step.asks ∧
      e.tally Step.processes + e.outputs ≤ e.tally Step.announces) ∧
    (∀ x, e.settled.count x + (e.pending.map Prod.snd).count x ≤ e.accepted.count x) ∧
    ∀ a capacity out, (exec (poll a capacity) e).1 = .ok (some out) →
      (e.step (.poll a capacity)).settled = (out.frame, out.captureUs) :: e.settled ∧
      out.frame ≠ 0 ∧ out.data.length ≤ capacity ∧
      ∃ o, a.processed = .sample o ∧ o.time = some (time out.captureUs) ∧
        o.data = some out.data ∧ out.keyframe = o.clean := by
  have haccounts := h.accounts
  refine ⟨⟨haccounts.room, haccounts.asked, haccounts.announced⟩, fun x => ?_,
    fun a capacity out hout => ?_⟩
  · rw [← List.count_append]
    exact haccounts.kept.count_le x
  · obtain ⟨⟨o, t, ho, ht, hdata, hclean, hlookup⟩, hfits, hsettled⟩ :=
      (poll_returns capacity).of_exec (a := some out) (Prod.ext hout rfl) out rfl
    obtain ⟨hmem, htime⟩ := haccounts.mem_accepted hlookup
    exact ⟨hsettled, haccounts.frame_ne_zero hmem, hfits, o, ho, htime ▸ ht, hdata, hclean⟩

/-- The transform asks for a sample. -/
def sampleAsk : Answers := { events := fun i => if i = 0 then .needInput else .nothing }

/-- It puts out the sample of the time 10. -/
def sampleOutput : Output := { time := some (time 10), clean := 1, data := some [0, 0, 1, 0x65] }

def sampleAnnounce : Answers :=
  { events := fun i => if i = 0 then .haveOutput else .nothing, processed := .sample sampleOutput }

/-- The driver has filled the first texture, and its frame has been accepted. -/
def sampleEncoder : Encoder := [.mutex 0 (some .one), .input sampleAsk 0 1 10].foldl step {}

theorem sampleEncoder_reachable : sampleEncoder.Reachable := by
  have hinit : Reaches step Initial (fun _ _ => True) ({} : Encoder) := .init rfl
  exact hinit.along ⟨trivial, trivial, trivial⟩

theorem accounts_kept_sample : sampleEncoder.accepted = [(1, 10)] ∧ sampleEncoder.settled = [] ∧
    (sampleEncoder.step (.poll sampleAnnounce 64)).settled = [(1, 10)] := by
  refine ⟨rfl, rfl, ?_⟩
  exact ((accounts_kept sampleEncoder_reachable).2.2 sampleAnnounce 64
    ⟨1, 10, 1, [0, 0, 1, 0x65]⟩ rfl).1

end Encoder

end Native
end SidecarDOS
