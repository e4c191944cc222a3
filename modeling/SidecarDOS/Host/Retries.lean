/-
# The attempts of the reconciler

`Reconciler` counts the attempts that have failed since `changed` last took effect,
and gives up behind the third.  A notification within 750 ms of a failed attempt is
ignored, since the program has provoked it itself and the next attempt is pending
anyway.  That bounds what such notifications can cause (`attempts_bounded`).  But
behind the third attempt nothing is pending: a change that the user asks for in this
time is ignored too, and no attempt becomes due (`change_dropped`).  In every other
state a change makes an attempt due within 750 ms (`change_comes_due`).
-/

import SidecarDOS.Host.Pipeline
import SidecarDOS.Library.Runs

namespace SidecarDOS
namespace Host

open Library (Reaches Along)

namespace Reconciler

/-- What the pipeline thread calls, each at a time. -/
inductive Call where
  | changed (now : ℕ)
  | ready (now : ℕ)
  | result (now : ℕ) (matched : Bool)

def Call.now : Call → ℕ
  | .changed now => now
  | .ready now => now
  | .result now _ => now

/-- The reconciler, and the time of the last call. -/
structure Timed where
  reconciler : Reconciler
  clock : ℕ

namespace Timed

variable {s : Timed} {now : ℕ}

def step (s : Timed) : Call → Timed
  | .changed now => ⟨s.reconciler.changed now, now⟩
  | .ready now => { s with clock := now }
  | .result now matched => ⟨s.reconciler.result now matched, now⟩

/-- `Reconciler::default`. -/
def Initial (s : Timed) : Prop := ∃ now, s = ⟨⟨now, 0, true, none⟩, now⟩

/-- Time does not run backwards, and `result` is called only when `ready` holds. -/
def Admits (s : Timed) (c : Call) : Prop :=
  s.clock ≤ c.now ∧ ∀ now matched, c = .result now matched → s.reconciler.ready now = true

/-- At most three attempts have failed, and the next one is due 750 ms behind the last. -/
structure Counts (s : Timed) : Prop where
  retries : s.reconciler.retries ≤ 3
  clock : ∀ t, s.reconciler.lastApplied = some t → t ≤ s.clock
  pending : ∀ t, s.reconciler.lastApplied = some t → s.clock < t + 750000 →
    s.reconciler.dirty = true ∧ s.reconciler.due = t + 750000

theorem initial_counts (h : Initial s) : s.Counts := by
  obtain ⟨now, rfl⟩ := h
  exact ⟨Nat.zero_le 3, nofun, nofun⟩

end Timed

variable {r : Reconciler} {now : ℕ}

/-- The last attempt failed less than 750 ms ago. -/
def Recent (r : Reconciler) (now : ℕ) : Prop := ∃ t, r.lastApplied = some t ∧ now < t + 750000

/-- Three attempts have failed, the last of them less than 750 ms ago. -/
def Spent (r : Reconciler) (now : ℕ) : Prop := r.retries ≥ 3 ∧ r.Recent now

theorem changed_of_recent (h : r.Recent now) : r.changed now = r := by
  obtain ⟨t, ht, hnow⟩ := h
  have hlt : now - t < 750000 := by omega
  unfold changed
  rw [ht, if_pos (by simpa using hlt)]

theorem changed_of_not_recent (h : ¬ r.Recent now) :
    r.changed now = { r with due := now + 200000, retries := 0, dirty := true } := by
  unfold changed
  refine if_neg fun hany => ?_
  cases ht : r.lastApplied with
  | none =>
    rw [ht] at hany
    exact Bool.false_ne_true hany
  | some t =>
    rw [ht] at hany
    have hlt : now - t < 750000 := of_decide_eq_true hany
    exact h ⟨t, ht, by omega⟩

theorem ready_iff : r.ready now = true ↔ r.dirty = true ∧ r.retries < 3 ∧ r.due ≤ now := by
  simp [ready, and_assoc]

namespace Timed

variable {s : Timed}

theorem step_counts (h : s.Counts) {c : Call} (hc : s.Admits c) : (s.step c).Counts := by
  obtain ⟨hclock, hready⟩ := hc
  cases c with
  | changed now =>
    have hclock : s.clock ≤ now := hclock
    by_cases hrecent : s.reconciler.Recent now
    · rw [step, changed_of_recent hrecent]
      exact ⟨h.retries, fun t ht => (h.clock t ht).trans hclock,
        fun t ht hlt => h.pending t ht (lt_of_le_of_lt hclock hlt)⟩
    · rw [step, changed_of_not_recent hrecent]
      exact ⟨Nat.zero_le 3, fun t ht => (h.clock t ht).trans hclock,
        fun t ht hlt => absurd ⟨t, ht, hlt⟩ hrecent⟩
  | ready now =>
    exact ⟨h.retries, fun t ht => (h.clock t ht).trans hclock,
      fun t ht hlt => h.pending t ht (lt_of_le_of_lt hclock hlt)⟩
  | result now matched =>
    have hclock : s.clock ≤ now := hclock
    obtain ⟨-, hretries, hdue⟩ := ready_iff.1 (hready now matched rfl)
    cases matched with
    | true =>
      refine ⟨h.retries, fun t ht => (h.clock t ht).trans hclock, fun t ht hlt => ?_⟩
      -- an attempt is due only when the 750 ms are over
      have hlt : now < t + 750000 := hlt
      have hpending := (h.pending t ht (lt_of_le_of_lt hclock hlt)).2
      omega
    | false =>
      refine ⟨Nat.succ_le_of_lt hretries, ?_, ?_⟩
      · rintro _ ⟨⟩
        exact le_rfl
      · rintro _ ⟨⟩ -
        exact ⟨rfl, rfl⟩

theorem reaches_counts (h : Reaches step Initial Admits s) : s.Counts :=
  h.invariant (fun _ => initial_counts) fun _ _ h hc => step_counts h hc

/-- **A change makes an attempt due**, exactly where the attempts are not used up: 750 ms
later `ready` holds, and from then on, unless three attempts have failed, the last of
them less than 750 ms before the change. -/
theorem change_comes_due (h : Reaches step Initial Admits s) {now : ℕ} (hnow : s.clock ≤ now) :
    (∀ t, now + 750000 ≤ t → (s.reconciler.changed now).ready t = true) ↔
      ¬ s.reconciler.Spent now := by
  have hcounts := reaches_counts h
  by_cases hrecent : s.reconciler.Recent now
  · rw [changed_of_recent hrecent]
    constructor
    · rintro hready ⟨hretries, -⟩
      have hlt := (ready_iff.1 (hready _ le_rfl)).2.1
      omega
    · intro hspent t ht
      obtain ⟨t', ht', hlt⟩ := hrecent
      obtain ⟨hdirty, hdue⟩ := hcounts.pending t' ht' (lt_of_le_of_lt hnow hlt)
      have hretries : ¬ s.reconciler.retries ≥ 3 := fun hge => hspent ⟨hge, t', ht', hlt⟩
      have hclock := hcounts.clock t' ht'
      exact ready_iff.2 ⟨hdirty, by omega, by omega⟩
  · rw [changed_of_not_recent hrecent]
    constructor
    · exact fun _ hspent => hrecent hspent.2
    · intro _ t ht
      exact ready_iff.2 ⟨rfl, Nat.zero_lt_succ 2, by
        show now + 200000 ≤ t
        omega⟩

/-- The reconciler behind two attempts that fail as soon as each is due. -/
def sampleTwice : Timed := [Call.result 0 false, .result 750000 false].foldl step
  ⟨⟨0, 0, true, none⟩, 0⟩

theorem sampleTwice_reaches : Reaches step Initial Admits sampleTwice := by
  refine (Reaches.init ⟨0, rfl⟩).along ⟨⟨le_rfl, ?_⟩, ⟨by decide, ?_⟩, trivial⟩
  all_goals
    rintro _ _ ⟨⟩
    decide

/-- The third attempt fails too. -/
def sampleThrice : Timed := sampleTwice.step (.result 1500000 false)

theorem sampleThrice_reaches : Reaches step Initial Admits sampleThrice := by
  refine sampleTwice_reaches.step ⟨by decide, ?_⟩
  rintro _ _ ⟨⟩
  decide

/-- The hypotheses of `change_comes_due` are satisfiable: a change 100 ms behind the second failed
attempt is followed by the third one. -/
theorem change_comes_due_sample : sampleTwice.reconciler.retries = 2 ∧
    ∀ t, 1600000 ≤ t → (sampleTwice.reconciler.changed 850000).ready t = true := by
  have hspent : ¬ sampleTwice.reconciler.Spent 850000 := fun h => absurd h.1 (by decide)
  exact ⟨rfl, (change_comes_due sampleTwice_reaches (by decide)).2 hspent⟩

/-- The property fails: a change 100 ms behind the third attempt makes no attempt due. -/
theorem change_dropped : ¬ ∀ s, Reaches step Initial Admits s → ∀ now, s.clock ≤ now →
    ∀ t, now + 750000 ≤ t → (s.reconciler.changed now).ready t = true := by
  intro h
  have hready := h _ sampleThrice_reaches 1600000 (by decide) 2350000 le_rfl
  exact absurd hready (by decide)

/-! ### Notifications that the program provokes -/

/-- A change is notified less than 750 ms behind the last attempt that failed. -/
def Provoked (s : Timed) (c : Call) : Prop :=
  ∀ now, c = .changed now → s.reconciler.Recent now

/-- The attempts among some calls. -/
def attempts : List Call → ℕ
  | [] => 0
  | .result _ _ :: cs => attempts cs + 1
  | _ :: cs => attempts cs

/-- The attempts that are left, and none behind a match. -/
def left (s : Timed) : ℕ := if s.reconciler.dirty then 3 - s.reconciler.retries else 0

theorem step_left {c : Call} (hc : s.Admits c) (hprovoked : s.Provoked c) :
    (s.step c).left + attempts [c] ≤ s.left := by
  obtain ⟨-, hready⟩ := hc
  cases c with
  | changed now =>
    rw [step, changed_of_recent (hprovoked now rfl)]
    exact le_rfl
  | ready now => exact le_rfl
  | result now matched =>
    obtain ⟨hdirty, hretries, -⟩ := ready_iff.1 (hready now matched rfl)
    have hleft : s.left = 3 - s.reconciler.retries := if_pos hdirty
    rw [hleft]
    cases matched with
    | true =>
      show 0 + 1 ≤ 3 - s.reconciler.retries
      omega
    | false =>
      show 3 - (s.reconciler.retries + 1) + 1 ≤ 3 - s.reconciler.retries
      omega

theorem attempts_cons (c : Call) (cs : List Call) :
    attempts (c :: cs) = attempts [c] + attempts cs := by
  cases c with
  | changed now => exact (Nat.zero_add _).symm
  | ready now => exact (Nat.zero_add _).symm
  | result now matched => exact Nat.add_comm _ _

theorem attempts_le_left {cs : List Call} :
    ∀ {s : Timed}, Along step (fun s c => s.Admits c ∧ s.Provoked c) s cs →
      attempts cs ≤ s.left := by
  induction cs with
  | nil => exact fun _ => Nat.zero_le _
  | cons c cs ih =>
    intro s h
    obtain ⟨⟨hc, hprovoked⟩, hrest⟩ := h
    have hstep := step_left hc hprovoked
    have hle := ih hrest
    rw [attempts_cons]
    omega

/-- **Notifications that the program provokes do not make it loop.**  From any reachable
state on, while changes are notified only within 750 ms of the last attempt that failed,
there are at most three attempts, whether or not one of them matches, and the counter
stays below 2⁸. -/
theorem attempts_bounded (h : Reaches step Initial Admits s) {cs : List Call}
    (hcs : Along step (fun s c => s.Admits c ∧ s.Provoked c) s cs) :
    attempts cs ≤ 3 ∧ (cs.foldl step s).reconciler.retries < 2 ^ 8 := by
  have hadmits : Along step Admits s cs := hcs.mono fun _ _ => And.left
  have hretries := (reaches_counts (h.along hadmits)).retries
  have hle := attempts_le_left hcs
  refine ⟨hle.trans ?_, by omega⟩
  unfold left
  split
  · omega
  · omega

/-- The three attempts with a notification behind each. -/
def sampleProvoked : List Call :=
  [.result 0 false, .changed 1000, .result 750000 false, .changed 760000, .result 1500000 false,
    .changed 1600000]

/-- The hypotheses of `attempts_bounded` are satisfiable with three attempts. -/
theorem attempts_bounded_sample : attempts sampleProvoked = 3 ∧ attempts sampleProvoked ≤ 3 ∧
    (sampleProvoked.foldl step ⟨⟨0, 0, true, none⟩, 0⟩).reconciler.retries < 2 ^ 8 := by
  have hfirst : Recent ⟨750000, 1, true, some 0⟩ 1000 := ⟨0, rfl, by decide⟩
  have hsecond : Recent ⟨1500000, 2, true, some 750000⟩ 760000 := ⟨750000, rfl, by decide⟩
  have hthird : Recent ⟨2250000, 3, true, some 1500000⟩ 1600000 := ⟨1500000, rfl, by decide⟩
  refine ⟨rfl, attempts_bounded (.init ⟨0, rfl⟩) ⟨⟨⟨le_rfl, ?_⟩, nofun⟩, ⟨⟨by decide, nofun⟩, ?_⟩,
    ⟨⟨by decide, ?_⟩, nofun⟩, ⟨⟨by decide, nofun⟩, ?_⟩, ⟨⟨by decide, ?_⟩, nofun⟩,
    ⟨⟨by decide, nofun⟩, ?_⟩, trivial⟩⟩
  · rintro _ _ ⟨⟩
    decide
  · rintro _ ⟨⟩
    exact hfirst
  · rintro _ _ ⟨⟩
    decide
  · rintro _ ⟨⟩
    exact hsecond
  · rintro _ _ ⟨⟩
    decide
  · rintro _ ⟨⟩
    exact hthird

end Timed
end Reconciler
end Host
end SidecarDOS
