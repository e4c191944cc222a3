/-
# What the decoder does to VideoToolbox

`decode`, `reset` and `configure` of `H264Decoder` make calls that the decoder's state does not
show: a frame is handed to the session there is, and an epoch ends.  `calls` lists them, and
`delivered` is the call of `onFrame` in the output callback.  An `Observed` decoder is
watched from outside: the units it has looked at since the last reset, and every frame
in VideoToolbox with whether no epoch has ended behind it.

The decoder's count is that of the frames of its epoch (`inFlight_exact`).  Parameter sets that
come without an IDR are stored, but the session stays as it is, and the next IDR, which brings the
same sets, does not change it either; but for that, frames are decoded with
their own sets (`decoded_with_own_sets`).
-/

import Mathlib.Data.List.InsertIdx
import Mathlib.Data.List.Perm.Basic
import SidecarDOS.Host.ParameterSets
import SidecarDOS.Library.Runs

namespace SidecarDOS
namespace Ipad

open Host.H264 (has latest latest_cons latest_append mem_of_latest
  eq_some_of_getD)
open Library (Along Reaches)

namespace H264Decoder

/-- What `decode` does that is seen from outside, in its order.  A frame is handed over with the
parameter sets that the session was made from and those that are stored, and may be refused. -/
inductive Call where
  | reset
  | configure
  | decodeFrame (session stored : Bytes × Bytes) (ok : Bool)
  deriving DecidableEq

def submitCalls (d : H264Decoder) (vt : VideoToolbox) : List Call :=
  match d.session, d.format with
  | some session, some _ =>
    if ¬ (vt.createBlock ∧ vt.createSample) then []
    else [.decodeFrame session (d.sps, d.pps) vt.decodeFrame]
  | _, _ => []

def attemptCalls (d : H264Decoder) (vt : VideoToolbox) (received : ReceivedFrame) : List Call :=
  match nals received.video.data with
  | .error _ => []
  | .ok nals =>
    let (d, changed) := nals.foldl parameterSet (d, false)
    let idr := nals.any fun nal => nalType nal = 5
    if d.waitingForIDR ∧ ¬ idr then []
    else if changed ∨ d.session = none then
      if ¬ (d.sps ≠ [] ∧ d.pps ≠ [] ∧ idr) then []
      else match d.configure vt with
        | (_, .error _) => [.configure]
        | (d, .ok ()) => .configure :: d.submitCalls vt
    else d.submitCalls vt

/-- The calls of `decode`. -/
def calls (d : H264Decoder) (vt : VideoToolbox) (received : ReceivedFrame) : List Call :=
  if ¬ d.inFlight < 2 then []
  else match d.attempt vt received with
    | (_, .ok _) => d.attemptCalls vt received
    | (_, .error _) => d.attemptCalls vt received ++ [.reset]

/-- The units that `decode` looks at. -/
def looked (d : H264Decoder) (received : ReceivedFrame) : List Bytes :=
  if ¬ d.inFlight < 2 then [] else (nals received.video.data).toOption.getD []

/-- The frame that the output callback hands to `onFrame`. -/
def delivered (d : H264Decoder) (index : ℕ) (ok : Bool) : Option ReceivedFrame :=
  match d.jobs[index]? with
  | none => none
  | some job => if d.epoch ≠ job.epoch then none else if ok then some job.frame else none

/-! ### Frames in VideoToolbox -/

/-- What the decoder keeps of the frames in VideoToolbox. -/
structure Ledger where
  epoch : ℕ
  inFlight : ℕ
  jobs : List Job
  deriving DecidableEq

def ledger (d : H264Decoder) : Ledger := ⟨d.epoch, d.inFlight, d.jobs⟩

def Ledger.call (received : ReceivedFrame) (l : Ledger) : Call → Ledger
  | .reset | .configure => { l with epoch := l.epoch + 1, inFlight := 0 }
  | .decodeFrame _ _ ok =>
    if ok then { l with inFlight := l.inFlight + 1, jobs := l.jobs ++ [⟨received, l.epoch⟩] }
    else l

variable {d : H264Decoder} {vt : VideoToolbox} {received : ReceivedFrame}

theorem submit_ledger (d : H264Decoder) (vt : VideoToolbox) (received : ReceivedFrame) :
    (d.submit vt received).1.ledger =
      (d.submitCalls vt).foldl (Ledger.call received) d.ledger := by
  unfold submit submitCalls
  cases d.session with
  | none => rfl
  | some session =>
    cases d.format with
    | none => rfl
    | some format =>
      rw [if_neg (by simp)]
      dsimp only
      split
      · rfl
      · cases hok : vt.decodeFrame
        · rfl
        · rfl

theorem configure_ledger (d : H264Decoder) (vt : VideoToolbox) (received : ReceivedFrame) :
    (d.configure vt).1.ledger = d.ledger.call received .configure := by
  unfold configure
  dsimp only
  split
  · rfl
  · split
    · rfl
    · rfl

theorem parameterSet_fst (d : H264Decoder) (b : Bool) (nal : Bytes) :
    (parameterSet (d, b) nal).1 = { d with
      sps := if nalType nal = 7 then nal else d.sps
      pps := if nalType nal = 8 then nal else d.pps } := by
  unfold parameterSet
  by_cases hnil : nal = []
  · subst hnil
    rfl
  by_cases hsps : nalType nal = 7
  · by_cases hsame : nal = d.sps
    · subst hsame
      simp [hsps]
    · simp [hnil, hsps, hsame]
  by_cases hpps : nalType nal = 8
  · by_cases hsame : nal = d.pps
    · subst hsame
      simp [hpps]
    · simp [hnil, hpps, hsame]
  · simp [hnil, hsps, hpps]

/-- The decoder behind the loop over units: the last set of either type is stored. -/
def store (d : H264Decoder) (units : List Bytes) : H264Decoder :=
  { d with sps := (latest 7 units).getD d.sps, pps := (latest 8 units).getD d.pps }

theorem foldl_parameterSet_fst (units : List Bytes) (d : H264Decoder) (b : Bool) :
    (units.foldl parameterSet (d, b)).1 = d.store units := by
  induction units generalizing d b with
  | nil => rfl
  | cons nal units ih =>
    have hget (type : UInt8) (set : Bytes) : ((latest type units).or
        (if nalType nal = type then some nal else none)).getD set =
          (latest type units).getD (if nalType nal = type then nal else set) := by
      rw [Option.getD_or]
      split
      · rfl
      · rfl
    rw [List.foldl_cons, store, latest_cons, latest_cons]
    refine Eq.trans (ih (parameterSet (d, b) nal).1 (parameterSet (d, b) nal).2) ?_
    rw [parameterSet_fst, store]
    exact (congrArg₂ (fun sps pps => { d with sps := sps, pps := pps }) (hget 7 _) (hget 8 _)).symm

/-- A loop that has noticed no new set has changed none. -/
theorem foldl_parameterSet_same (units : List Bytes) (s : H264Decoder × Bool)
    (h : (units.foldl parameterSet s).2 = false) : units.foldl parameterSet s = s := by
  induction units generalizing s with
  | nil => rfl
  | cons nal units ih =>
    have hstep : parameterSet s nal = s ∨ (parameterSet s nal).2 = true := by
      unfold parameterSet
      split_ifs <;> simp
    rw [List.foldl_cons] at h ⊢
    have hrest := ih _ h
    rw [hrest] at h ⊢
    rcases hstep with hsame | hchanged
    · exact hsame
    · exact absurd (h.symm.trans hchanged) Bool.false_ne_true

/-- How the `do` block of `decode` ends, with its calls. -/
inductive Attempted (d : H264Decoder) (vt : VideoToolbox) (received : ReceivedFrame) :
    H264Decoder × Except DecodeError Bool → List Call → Prop where
  | unreadable (e : DecodeError) : Attempted d vt received (d, .error e) []
  | skipped {units : List Bytes} (hunits : nals received.video.data = .ok units) (reset : Bool)
      (hidr : has 5 units = true → (d.store units).sps = [] ∨ (d.store units).pps = []) :
      Attempted d vt received (d.store units, .ok reset) []
  | refused {units : List Bytes} {d' : H264Decoder} {e : DecodeError}
      (hconfigure : (d.store units).configure vt = (d', .error e)) :
      Attempted d vt received (d', .error e) [.configure]
  | configured {units : List Bytes} {d' : H264Decoder}
      (hunits : nals received.video.data = .ok units) (hsps : (d.store units).sps ≠ [])
      (hpps : (d.store units).pps ≠ []) (hconfigure : (d.store units).configure vt = (d', .ok ())) :
      Attempted d vt received (d'.submit vt received) (.configure :: d'.submitCalls vt)
  | kept {units : List Bytes} (hunits : nals received.video.data = .ok units)
      (hsame : d.store units = d) :
      Attempted d vt received (d.submit vt received) (d.submitCalls vt)

theorem attempted (d : H264Decoder) (vt : VideoToolbox) (received : ReceivedFrame) :
    Attempted d vt received (d.attempt vt received) (d.attemptCalls vt received) := by
  unfold attempt attemptCalls
  cases hunits : nals received.video.data with
  | error e => exact .unreadable e
  | ok units =>
    have hstore := foldl_parameterSet_fst units d false
    have hsame := foldl_parameterSet_same units (d, false)
    dsimp only
    generalize units.foldl parameterSet (d, false) = s at hstore hsame ⊢
    obtain ⟨d', changed⟩ := s
    obtain rfl : d' = d.store units := hstore
    dsimp only
    by_cases hwaiting : (d.store units).waitingForIDR ∧ ¬ units.any fun nal => nalType nal = 5
    · rw [if_pos hwaiting, if_pos hwaiting]
      exact .skipped hunits false fun hidr => absurd hidr hwaiting.2
    rw [if_neg hwaiting, if_neg hwaiting]
    by_cases hnew : changed ∨ (d.store units).session = none
    · rw [if_pos hnew, if_pos hnew]
      by_cases hsets : (d.store units).sps ≠ [] ∧ (d.store units).pps ≠ [] ∧
          units.any fun nal => nalType nal = 5
      · rw [if_neg (not_not.2 hsets), if_neg (not_not.2 hsets)]
        rcases hconfigure : (d.store units).configure vt with ⟨d', e | ⟨⟩⟩
        · exact .refused hconfigure
        · exact .configured hunits hsets.1 hsets.2.1 hconfigure
      · rw [if_pos hsets, if_pos hsets]
        refine .skipped hunits true fun hidr => ?_
        by_contra hne
        rw [not_or] at hne
        exact hsets ⟨hne.1, hne.2, hidr⟩
    · rw [if_neg hnew, if_neg hnew]
      rw [not_or, Bool.not_eq_true] at hnew
      have hd : d.store units = d := congrArg Prod.fst (hsame hnew.1)
      rw [hd]
      exact .kept hunits hd

theorem attempt_ledger (d : H264Decoder) (vt : VideoToolbox) (received : ReceivedFrame) :
    (d.attempt vt received).1.ledger =
      (d.attemptCalls vt received).foldl (Ledger.call received) d.ledger := by
  have hattempted := attempted d vt received
  generalize d.attempt vt received = r, d.attemptCalls vt received = cs at hattempted
  cases hattempted with
  | unreadable e => rfl
  | skipped hunits reset hidr => rfl
  | @refused units d' e hconfigure =>
    have hledger := configure_ledger (d.store units) vt received
    rw [hconfigure] at hledger
    exact hledger
  | @configured units d' hunits hsps hpps hconfigure =>
    have hledger := configure_ledger (d.store units) vt received
    rw [hconfigure] at hledger
    rw [submit_ledger, List.foldl_cons, hledger]
    rfl
  | kept hunits hsame => exact submit_ledger d vt received

/-- The calls say what becomes of the frames in VideoToolbox. -/
theorem decode_ledger (d : H264Decoder) (vt : VideoToolbox) (received : ReceivedFrame) :
    (d.decode vt received).1.ledger =
      (d.calls vt received).foldl (Ledger.call received) d.ledger := by
  have hattempt := attempt_ledger d vt received
  unfold decode calls
  split
  · rfl
  · generalize d.attempt vt received = r at hattempt
    obtain ⟨d', e | reset⟩ := r
    · rw [List.foldl_append, ← hattempt]
      rfl
    · exact hattempt

/-- What the calls do to the frames in VideoToolbox and whether an epoch has ended behind them. -/
def mark (received : ReceivedFrame) (outstanding : List (ReceivedFrame × Bool)) :
    Call → List (ReceivedFrame × Bool)
  | .reset | .configure => outstanding.map fun p => (p.1, false)
  | .decodeFrame _ _ ok => if ok then outstanding ++ [(received, true)] else outstanding

/-- The decoder knows the frames of its epoch, and counts them. -/
structure Ledger.Sound (l : Ledger) (outstanding : List (ReceivedFrame × Bool)) : Prop where
  frames : outstanding = l.jobs.map fun job => (job.frame, decide (l.epoch = job.epoch))
  past : ∀ job ∈ l.jobs, job.epoch ≤ l.epoch
  count : l.inFlight = outstanding.countP Prod.snd

variable {l : Ledger} {outstanding : List (ReceivedFrame × Bool)}

theorem Ledger.Sound.restart (h : l.Sound outstanding) :
    Ledger.Sound { l with epoch := l.epoch + 1, inFlight := 0 }
      (outstanding.map fun p => (p.1, false)) := by
  refine ⟨?_, fun job hjob => Nat.le_succ_of_le (h.past job hjob), ?_⟩
  · rw [h.frames, List.map_map]
    refine List.map_congr_left fun job hjob => ?_
    have hpast := h.past job hjob
    have hne : l.epoch + 1 ≠ job.epoch := by omega
    exact congrArg _ (decide_eq_false hne).symm
  · rw [List.countP_map]
    exact (List.countP_eq_zero.2 fun _ _ => Bool.false_ne_true).symm

theorem Ledger.Sound.call (h : l.Sound outstanding) (received : ReceivedFrame) (c : Call) :
    (l.call received c).Sound (mark received outstanding c) := by
  cases c with
  | reset => exact h.restart
  | configure => exact h.restart
  | decodeFrame session stored ok =>
    cases ok with
    | false => exact h
    | true =>
      refine ⟨?_, ?_, ?_⟩
      · change outstanding ++ [(received, true)] = List.map
          (fun job => (job.frame, decide (l.epoch = job.epoch))) (l.jobs ++ [⟨received, l.epoch⟩])
        rw [List.map_append, ← h.frames, List.map_singleton, decide_eq_true rfl]
      · change ∀ job ∈ l.jobs ++ [_], _
        rw [List.forall_mem_append]
        exact ⟨h.past, List.forall_mem_singleton.2 (Nat.le_refl _)⟩
      · change l.inFlight + 1 = List.countP _ (outstanding ++ _)
        rw [List.countP_append, h.count]
        rfl

theorem Ledger.Sound.calls (h : l.Sound outstanding) (received : ReceivedFrame) (cs : List Call) :
    (cs.foldl (Ledger.call received) l).Sound (cs.foldl (mark received) outstanding) := by
  induction cs generalizing l outstanding with
  | nil => exact h
  | cons c cs ih => exact ih (h.call received c)

theorem completed_ledger (d : H264Decoder) (index : ℕ) (ok : Bool) :
    (d.completed index ok).1.ledger = match d.jobs[index]? with
      | none => d.ledger
      | some job => ⟨d.epoch, if d.epoch = job.epoch then d.inFlight - 1 else d.inFlight,
          d.jobs.eraseIdx index⟩ := by
  unfold completed
  cases d.jobs[index]? with
  | none => rfl
  | some job =>
    dsimp only
    by_cases hepoch : d.epoch = job.epoch
    · rw [if_neg (not_not.2 hepoch), if_pos hepoch]
      cases ok with
      | false => rfl
      | true => rfl
    · rw [if_pos hepoch, if_neg hepoch]
      rfl

/-- The count without an element. -/
theorem countP_eraseIdx {index : ℕ} {p : ReceivedFrame × Bool} (h : outstanding[index]? = some p) :
    outstanding.countP Prod.snd =
      (outstanding.eraseIdx index).countP Prod.snd + if p.2 then 1 else 0 := by
  obtain ⟨hlt, rfl⟩ := List.getElem?_eq_some_iff.1 h
  rw [← (List.getElem_cons_eraseIdx_perm hlt).countP_eq, List.countP_cons]

theorem Ledger.Sound.get (h : l.Sound outstanding) {index : ℕ} {job : Job}
    (hjob : l.jobs[index]? = some job) :
    outstanding[index]? = some (job.frame, decide (l.epoch = job.epoch)) := by
  rw [h.frames, List.getElem?_map, hjob]
  rfl

theorem Ledger.Sound.current (h : l.Sound outstanding) {index : ℕ} {job : Job}
    (hjob : l.jobs[index]? = some job) (hepoch : l.epoch = job.epoch) :
    outstanding[index]? = some (job.frame, true) :=
  (h.get hjob).trans (by rw [decide_eq_true hepoch])

/-- A frame of the epoch is counted until its completion. -/
theorem Ledger.Sound.completed (h : d.ledger.Sound outstanding) (index : ℕ) (ok : Bool) :
    (d.completed index ok).1.ledger.Sound (outstanding.eraseIdx index) := by
  rw [completed_ledger]
  cases hjob : d.jobs[index]? with
  | none =>
    have hlength : outstanding.length ≤ index := by
      rw [h.frames, List.length_map]
      exact List.getElem?_eq_none_iff.1 hjob
    rw [List.eraseIdx_of_length_le hlength]
    exact h
  | some job =>
    have hcount : d.inFlight = (outstanding.eraseIdx index).countP Prod.snd +
        if d.epoch = job.epoch then 1 else 0 := by
      refine h.count.trans ((countP_eraseIdx (h.get hjob)).trans ?_)
      by_cases hepoch : d.epoch = job.epoch
      · simp [ledger, hepoch]
      · simp [ledger, hepoch]
    refine ⟨?_, fun job' hjob' => h.past job' (List.mem_of_mem_eraseIdx hjob'), ?_⟩
    · rw [h.frames, List.eraseIdx_map]
      rfl
    · dsimp only
      by_cases hepoch : d.epoch = job.epoch
      · rw [if_pos hepoch] at hcount ⊢
        omega
      · rw [if_neg hepoch] at hcount ⊢
        omega

theorem submit_inFlight_le (d : H264Decoder) (vt : VideoToolbox) (received : ReceivedFrame) :
    (d.submit vt received).1.inFlight ≤ d.inFlight + 1 := by
  unfold submit
  split
  · exact Nat.le_succ _
  split
  · exact Nat.le_succ _
  split
  · exact Nat.le_succ _
  · exact Nat.le_refl _

theorem attempt_inFlight_le (d : H264Decoder) (vt : VideoToolbox) (received : ReceivedFrame) :
    (d.attempt vt received).1.inFlight ≤ d.inFlight + 1 := by
  have hattempted := attempted d vt received
  generalize d.attempt vt received = r, d.attemptCalls vt received = cs at hattempted
  cases hattempted with
  | unreadable e => exact Nat.le_succ _
  | skipped hunits reset hidr => exact Nat.le_succ _
  | @refused units d' e hconfigure =>
    have hledger := configure_ledger (d.store units) vt received
    rw [hconfigure] at hledger
    exact (congrArg Ledger.inFlight hledger).le.trans (Nat.zero_le _)
  | @configured units d' hunits hsps hpps hconfigure =>
    have hledger := configure_ledger (d.store units) vt received
    rw [hconfigure] at hledger
    have hzero : d'.inFlight = 0 := congrArg Ledger.inFlight hledger
    have hsubmit := submit_inFlight_le d' vt received
    omega
  | kept hunits hsame => exact submit_inFlight_le d vt received

theorem decode_inFlight_le (h : d.inFlight ≤ 2) : (d.decode vt received).1.inFlight ≤ 2 := by
  unfold decode
  split
  · exact h
  · rename_i hroom
    have hattempt := attempt_inFlight_le d vt received
    generalize d.attempt vt received = r at hattempt
    obtain ⟨d', e | reset⟩ := r
    · exact Nat.zero_le _
    · change d'.inFlight ≤ d.inFlight + 1 at hattempt
      change d'.inFlight ≤ 2
      omega

/-! ### The sets of a session -/

/-- The session was made from the sets that are stored, and these are not empty. -/
def Own (d : H264Decoder) : Prop :=
  ∀ session, d.session = some session → session = (d.sps, d.pps) ∧ d.sps ≠ [] ∧ d.pps ≠ []

theorem getD_latest_ne {units : List Bytes} {type : UInt8} {set : Bytes} (htype : type ≠ 0)
    (h : set ≠ []) : (latest type units).getD set ≠ [] := by
  cases hlatest : latest type units with
  | none => exact h
  | some nal =>
    rintro hnil
    obtain rfl : nal = [] := hnil
    exact htype (mem_of_latest hlatest).2.symm

theorem submit_own (vt : VideoToolbox) (received : ReceivedFrame) (h : d.Own) :
    (d.submit vt received).1.Own ∧ (d.submit vt received).1.sps = d.sps ∧
      (d.submit vt received).1.pps = d.pps := by
  unfold submit
  split
  · exact ⟨h, rfl, rfl⟩
  split
  · exact ⟨h, rfl, rfl⟩
  split
  · exact ⟨h, rfl, rfl⟩
  · exact ⟨h, rfl, rfl⟩

theorem mem_submitCalls (h : d.Own) {session stored : Bytes × Bytes} {ok : Bool}
    (hmem : .decodeFrame session stored ok ∈ d.submitCalls vt) :
    session = stored ∧ stored.1 ≠ [] ∧ stored.2 ≠ [] ∧ stored = (d.sps, d.pps) := by
  unfold submitCalls at hmem
  split at hmem
  · rename_i session' _ hsession _
    split at hmem
    · cases hmem
    · obtain ⟨rfl, rfl, rfl⟩ := Call.decodeFrame.inj (List.mem_singleton.1 hmem)
      obtain ⟨rfl, hsps, hpps⟩ := h _ hsession
      exact ⟨rfl, hsps, hpps, rfl⟩
  · cases hmem

theorem configure_own (vt : VideoToolbox) (hsps : d.sps ≠ []) (hpps : d.pps ≠ []) :
    (d.configure vt).1.Own ∧ (d.configure vt).1.sps = d.sps ∧ (d.configure vt).1.pps = d.pps := by
  unfold configure
  dsimp only
  split
  · exact ⟨nofun, rfl, rfl⟩
  · split
    · exact ⟨nofun, rfl, rfl⟩
    · exact ⟨fun session hsession => ⟨(Option.some.inj hsession).symm, hsps, hpps⟩, rfl, rfl⟩

/-- The units leave the sets as they are, or bring an IDR, unless there is no session. -/
def SetsWithIDR (d : H264Decoder) (units : List Bytes) : Prop :=
  d.session ≠ none → has 5 units = false →
    (latest 7 units).getD d.sps = d.sps ∧ (latest 8 units).getD d.pps = d.pps

theorem store_own {units : List Bytes} (h : d.Own) (hunits : d.SetsWithIDR units)
    (hidr : has 5 units = true → (d.store units).sps = [] ∨ (d.store units).pps = []) :
    (d.store units).Own := by
  intro session hsession
  obtain ⟨rfl, hsps, hpps⟩ := h session hsession
  cases hhas : has 5 units with
  | true =>
    rcases hidr hhas with hnil | hnil
    · exact absurd hnil (getD_latest_ne (by decide) hsps)
    · exact absurd hnil (getD_latest_ne (by decide) hpps)
  | false =>
    have hsets := hunits (Option.ne_none_iff_exists'.2 ⟨_, hsession⟩) hhas
    rw [store, hsets.1, hsets.2]
    exact ⟨rfl, hsps, hpps⟩

/-- The `do` block keeps a session with its own sets, and hands no frame over to another. -/
theorem attempt_own (h : d.Own)
    (hcond : ∀ units, nals received.video.data = .ok units → d.SetsWithIDR units) :
    (∀ d' reset, d.attempt vt received = (d', .ok reset) → d'.Own ∧
      ∃ units, nals received.video.data = .ok units ∧
        d'.sps = (d.store units).sps ∧ d'.pps = (d.store units).pps) ∧
    ∀ session stored ok, .decodeFrame session stored ok ∈ d.attemptCalls vt received →
      session = stored ∧ stored.1 ≠ [] ∧ stored.2 ≠ [] ∧
        ∃ units, nals received.video.data = .ok units ∧
          stored = ((d.store units).sps, (d.store units).pps) := by
  have hattempted := attempted d vt received
  generalize d.attempt vt received = r, d.attemptCalls vt received = cs at hattempted ⊢
  cases hattempted with
  | unreadable e => exact ⟨nofun, nofun⟩
  | skipped hunits reset hidr =>
    refine ⟨fun d' reset' heq => ?_, nofun⟩
    obtain ⟨rfl, -⟩ := Prod.mk.inj heq
    exact ⟨store_own h (hcond _ hunits) hidr, _, hunits, rfl, rfl⟩
  | refused hconfigure => exact ⟨nofun, fun _ _ _ hmem => by cases List.mem_singleton.1 hmem⟩
  | @configured units d' hunits hsps hpps hconfigure =>
    obtain ⟨hown, hsps', hpps'⟩ := configure_own vt hsps hpps
    rw [hconfigure] at hown hsps' hpps'
    have hsubmit := submit_own vt received hown
    refine ⟨fun d'' reset heq => ?_, fun session stored ok hmem => ?_⟩
    · rw [heq] at hsubmit
      exact ⟨hsubmit.1, units, hunits, hsubmit.2.1.trans hsps', hsubmit.2.2.trans hpps'⟩
    · obtain ⟨hsession, hne, hne', rfl⟩ := mem_submitCalls hown
        ((List.mem_cons.1 hmem).resolve_left nofun)
      exact ⟨hsession, hne, hne', units, hunits, by rw [hsps', hpps']⟩
  | @kept units hunits hsame =>
    have hsubmit := submit_own vt received h
    refine ⟨fun d' reset heq => ?_, fun session stored ok hmem => ?_⟩
    · rw [heq] at hsubmit
      exact ⟨hsubmit.1, units, hunits, by rw [hsame]; exact hsubmit.2⟩
    · obtain ⟨hsession, hne, hne', rfl⟩ := mem_submitCalls h hmem
      exact ⟨hsession, hne, hne', units, hunits, by rw [hsame]⟩

theorem reset_notMem_attemptCalls (d : H264Decoder) (vt : VideoToolbox)
    (received : ReceivedFrame) : .reset ∉ d.attemptCalls vt received := by
  have hsubmit (d : H264Decoder) : .reset ∉ d.submitCalls vt := by
    unfold submitCalls
    split
    · split
      · exact List.not_mem_nil
      · simp
    · exact List.not_mem_nil
  have hattempted := attempted d vt received
  generalize d.attempt vt received = r, d.attemptCalls vt received = cs at hattempted ⊢
  cases hattempted with
  | unreadable e => exact List.not_mem_nil
  | skipped hunits reset hidr => exact List.not_mem_nil
  | refused hconfigure => simp
  | @configured units d' hunits hsps hpps hconfigure => simpa using hsubmit d'
  | kept hunits hsame => exact hsubmit d

/-- `decode` in one of its three ways: no room, the `do` block, or its `catch`. -/
theorem decode_cases (d : H264Decoder) (vt : VideoToolbox) (received : ReceivedFrame) :
    ¬ d.inFlight < 2 ∧ (d.decode vt received).1 = { d with waitingForIDR := true } ∧
        d.calls vt received = [] ∧ d.looked received = [] ∨
      d.inFlight < 2 ∧ (∃ d' reset, d.attempt vt received = (d', .ok reset) ∧
        (d.decode vt received).1 = d') ∧ d.calls vt received = d.attemptCalls vt received ∨
      d.inFlight < 2 ∧ (∃ d' e, d.attempt vt received = (d', .error e) ∧
        (d.decode vt received).1 = d'.reset) ∧
          d.calls vt received = d.attemptCalls vt received ++ [.reset] := by
  unfold decode calls looked
  by_cases hroom : d.inFlight < 2
  · rw [if_neg (not_not.2 hroom), if_neg (not_not.2 hroom)]
    rcases d.attempt vt received with ⟨d', e | reset⟩
    · exact .inr (.inr ⟨hroom, ⟨d', e, rfl, rfl⟩, rfl⟩)
    · exact .inr (.inl ⟨hroom, ⟨d', reset, rfl, rfl⟩, rfl⟩)
  · rw [if_pos hroom, if_pos hroom, if_pos hroom]
    exact .inl ⟨hroom, rfl, rfl, rfl⟩

theorem completed_sets (d : H264Decoder) (index : ℕ) (ok : Bool) :
    ((d.completed index ok).1.session, (d.completed index ok).1.sps,
      (d.completed index ok).1.pps) = (d.session, d.sps, d.pps) := by
  unfold completed
  cases d.jobs[index]? with
  | none => rfl
  | some job =>
    dsimp only
    split
    · rfl
    · split
      · rfl
      · rfl

end H264Decoder

/-! ### Runs -/

/-- The decoder and what has been seen of it: the units since the last reset, and the frames in
VideoToolbox, each with whether it was handed over behind the last reset or
reconfiguration. -/
structure Observed where
  decoder : H264Decoder := {}
  seen : List Bytes := []
  outstanding : List (ReceivedFrame × Bool) := []

namespace Observed

open H264Decoder (Call Ledger mark)

/-- A call of `decode` or `reset`, or a completion of one of the frames in VideoToolbox. -/
inductive Event where
  | decode (vt : VideoToolbox) (received : ReceivedFrame)
  | completed (index : ℕ) (ok : Bool)
  | reset

def step (o : Observed) : Event → Observed
  | .decode vt received =>
    { decoder := (o.decoder.decode vt received).1
      seen := if .reset ∈ o.decoder.calls vt received then []
        else o.seen ++ o.decoder.looked received
      outstanding := (o.decoder.calls vt received).foldl (mark received) o.outstanding }
  | .completed index ok =>
    { o with
      decoder := (o.decoder.completed index ok).1
      outstanding := o.outstanding.eraseIdx index }
  | .reset =>
    { decoder := o.decoder.reset
      seen := []
      outstanding := o.outstanding.map fun p => (p.1, false) }

/-- The states that any events lead to, in any order. -/
abbrev Reachable (o : Observed) : Prop := Reaches step (· = {}) (fun _ _ => True) o

theorem sound {o : Observed} (h : Reachable o) :
    o.decoder.ledger.Sound o.outstanding ∧ o.decoder.inFlight ≤ 2 := by
  refine h.invariant (I := fun o => o.decoder.ledger.Sound o.outstanding ∧ o.decoder.inFlight ≤ 2)
    ?_ fun o event ⟨hsound, hle⟩ _ => ?_
  · rintro _ rfl
    exact ⟨⟨rfl, nofun, rfl⟩, Nat.zero_le _⟩
  cases event with
  | decode vt received =>
    refine ⟨?_, H264Decoder.decode_inFlight_le hle⟩
    have hcalls := hsound.calls received (o.decoder.calls vt received)
    rwa [← H264Decoder.decode_ledger] at hcalls
  | completed index ok =>
    refine ⟨hsound.completed index ok, ?_⟩
    have hinFlight : (o.decoder.completed index ok).1.inFlight ≤ o.decoder.inFlight := by
      refine (congrArg Ledger.inFlight (H264Decoder.completed_ledger ..)).le.trans ?_
      cases o.decoder.jobs[index]? with
      | none => exact Nat.le_refl _
      | some job =>
        dsimp only
        split
        · exact Nat.sub_le _ _
        · exact Nat.le_refl _
    exact hinFlight.trans hle
  | reset => exact ⟨hsound.restart, Nat.zero_le _⟩

/-- An access unit of units. -/
def frame (units : List Bytes) : ReceivedFrame :=
  ⟨⟨1, 1, 0, 0, 0, 0, units.flatMap ([0, 0, 0, 1] ++ ·)⟩, 0⟩

/-- **The decoder counts its frames.**  After any calls of `decode` and `reset` and completions in
any order, `inFlight` is the number of frames in VideoToolbox that were handed over behind the last
reset or reconfiguration.  It is at most two, and not zero when one of these completes; and
only these are handed to `onFrame`. -/
theorem inFlight_exact {o : Observed} (h : Reachable o) :
    o.decoder.jobs.map Job.frame = o.outstanding.map Prod.fst ∧
      o.decoder.inFlight = o.outstanding.countP Prod.snd ∧ o.decoder.inFlight ≤ 2 ∧
        (∀ job ∈ o.decoder.jobs, job.epoch = o.decoder.epoch → 1 ≤ o.decoder.inFlight) ∧
          ∀ index ok frame, o.decoder.delivered index ok = some frame →
            o.outstanding[index]? = some (frame, true) := by
  obtain ⟨hsound, hle⟩ := sound h
  refine ⟨?_, hsound.count, hle, fun job hjob hepoch => ?_, fun index ok frame hframe => ?_⟩
  · rw [hsound.frames, List.map_map]
    rfl
  · obtain ⟨index, hindex⟩ := List.getElem?_of_mem hjob
    have hmem := List.mem_of_getElem? (hsound.current hindex hepoch.symm)
    exact (List.countP_pos_iff.2 ⟨_, hmem, rfl⟩).trans_eq hsound.count.symm
  · unfold H264Decoder.delivered at hframe
    cases hjob : o.decoder.jobs[index]? with
    | none =>
      rw [hjob] at hframe
      cases hframe
    | some job =>
      rw [hjob] at hframe
      dsimp only at hframe
      split at hframe
      · cases hframe
      · rename_i hepoch
        split at hframe
        · obtain rfl := Option.some.inj hframe
          exact hsound.current hjob (not_not.1 hepoch)
        · cases hframe

/-- A reset comes between two frames, none of which has completed. -/
def resetEvents : List Event :=
  [.decode {} (frame [[0x67, 1], [0x68, 1], [0x65, 1]]), .reset,
    .decode {} (frame [[0x67, 1], [0x68, 1], [0x65, 2]])]

/-- Only the second frame is counted. -/
theorem inFlight_exact_reset : (resetEvents.foldl step {}).outstanding.length = 2 ∧
    (resetEvents.foldl step {}).decoder.inFlight =
      (resetEvents.foldl step {}).outstanding.countP Prod.snd :=
  have hinit : Reachable {} := .init rfl
  ⟨by decide +kernel, (inFlight_exact (hinit.along (.of_forall (fun _ _ => trivial) _ _))).2.1⟩

/-- No access unit that is looked at brings other sets to a session without an IDR. -/
def SetsWithIDR (o : Observed) : Event → Prop
  | .decode _ received => o.decoder.inFlight < 2 →
      ∀ units, H264Decoder.nals received.video.data = .ok units → o.decoder.SetsWithIDR units
  | .completed _ _ | .reset => True

/-- The sets are the last ones seen, and a session is made from them. -/
structure Stored (o : Observed) : Prop where
  own : o.decoder.Own
  sps : o.decoder.sps = (latest 7 o.seen).getD []
  pps : o.decoder.pps = (latest 8 o.seen).getD []

theorem looked_eq {d : H264Decoder} {received : ReceivedFrame} {units : List Bytes}
    (hroom : d.inFlight < 2) (hunits : H264Decoder.nals received.video.data = .ok units) :
    d.looked received = units := by
  rw [H264Decoder.looked, if_neg (not_not.2 hroom), hunits]
  rfl

theorem Stored.store {o : Observed} (h : o.Stored) (units : List Bytes) :
    (o.decoder.store units).sps = (latest 7 (o.seen ++ units)).getD [] ∧
      (o.decoder.store units).pps = (latest 8 (o.seen ++ units)).getD [] := by
  rw [latest_append, latest_append, Option.getD_or, Option.getD_or, ← h.sps, ← h.pps]
  exact ⟨rfl, rfl⟩

theorem Stored.step {o : Observed} (h : o.Stored) {event : Event} (hok : SetsWithIDR o event) :
    (o.step event).Stored := by
  cases event with
  | decode vt received =>
    obtain ⟨hroom, hd, hcalls, hlooked⟩ | ⟨hroom, ⟨d', reset, hattempt, hd⟩, hcalls⟩ |
      ⟨hroom, ⟨d', e, hattempt, hd⟩, hcalls⟩ := H264Decoder.decode_cases o.decoder vt received
    · refine ⟨?_, ?_, ?_⟩ <;> simp only [Observed.step, hd, hcalls, hlooked, List.append_nil]
      · exact h.own
      · exact h.sps
      · exact h.pps
    · obtain ⟨hown, units, hunits, hsps, hpps⟩ :=
        (H264Decoder.attempt_own h.own (hok hroom)).1 d' reset hattempt
      have hreset := H264Decoder.reset_notMem_attemptCalls o.decoder vt received
      have hstore := h.store units
      refine ⟨?_, ?_, ?_⟩ <;>
        simp only [Observed.step, hd, hcalls, if_neg hreset, looked_eq hroom hunits]
      · exact hown
      · exact hsps.trans hstore.1
      · exact hpps.trans hstore.2
    · have hreset : .reset ∈ o.decoder.calls vt received := by
        rw [hcalls]
        exact List.mem_append_right _ (List.mem_singleton.2 rfl)
      refine ⟨?_, ?_, ?_⟩ <;> simp only [Observed.step, hd, if_pos hreset]
      · exact nofun
      · rfl
      · rfl
  | completed index ok =>
    have hsets := H264Decoder.completed_sets o.decoder index ok
    simp only [Prod.mk.injEq] at hsets
    refine ⟨?_, ?_, ?_⟩ <;> simp only [Observed.step, H264Decoder.Own, hsets]
    · exact h.own
    · exact h.sps
    · exact h.pps
  | reset => exact ⟨nofun, rfl, rfl⟩

/-- **Frames are decoded with their own sets**, in every run of which no access unit brings other
sets to a session without an IDR: the session that a frame is handed to was made from the
sets that are stored, and these are the last ones seen. -/
theorem decoded_with_own_sets {o : Observed} (h : Reaches step (· = {}) SetsWithIDR o)
    (vt : VideoToolbox) (received : ReceivedFrame) (hok : SetsWithIDR o (.decode vt received))
    (session stored : Bytes × Bytes) (ok : Bool)
    (hcall : .decodeFrame session stored ok ∈ o.decoder.calls vt received) :
    session = stored ∧ latest 7 (o.seen ++ o.decoder.looked received) = some stored.1 ∧
      latest 8 (o.seen ++ o.decoder.looked received) = some stored.2 := by
  have hstored : o.Stored := h.invariant
    (by rintro _ rfl; exact ⟨nofun, rfl, rfl⟩) fun _ _ hstored hok => hstored.step hok
  have hattempt (hroom : o.decoder.inFlight < 2)
      (hmem : .decodeFrame session stored ok ∈ o.decoder.attemptCalls vt received) :
      session = stored ∧ latest 7 (o.seen ++ o.decoder.looked received) = some stored.1 ∧
        latest 8 (o.seen ++ o.decoder.looked received) = some stored.2 := by
    obtain ⟨hsession, hsps, hpps, units, hunits, hsets⟩ :=
      (H264Decoder.attempt_own hstored.own (hok hroom)).2 session stored ok hmem
    have hseen := hstored.store units
    rw [hsets] at hsps hpps ⊢
    rw [looked_eq hroom hunits]
    exact ⟨hsession.trans hsets, eq_some_of_getD hseen.1.symm hsps,
      eq_some_of_getD hseen.2.symm hpps⟩
  obtain ⟨-, -, hcalls, -⟩ | ⟨hroom, -, hcalls⟩ | ⟨hroom, -, hcalls⟩ :=
    H264Decoder.decode_cases o.decoder vt received
  · rw [hcalls] at hcall
    cases hcall
  · rw [hcalls] at hcall
    exact hattempt hroom hcall
  · rw [hcalls] at hcall
    rcases List.mem_append.1 hcall with hcall | hcall
    · exact hattempt hroom hcall
    · cases List.mem_singleton.1 hcall

/-- A keyframe that comes with its sets. -/
theorem setsWithIDR_key (o : Observed) (vt : VideoToolbox) {units : List Bytes}
    (hnals : H264Decoder.nals (frame units).video.data = .ok units) (hidr : has 5 units = true) :
    SetsWithIDR o (.decode vt (frame units)) := by
  intro _ units' hunits' _ hnone
  obtain rfl := Except.ok.inj (hnals.symm.trans hunits')
  exact Bool.noConfusion (hidr.symm.trans hnone)

/-- Two keyframes with different sets. -/
def changedEvents : List Event :=
  [.decode {} (frame [[0x67, 1], [0x68, 1], [0x65, 1]]), .completed 0 true,
    .decode {} (frame [[0x67, 2], [0x68, 2], [0x65, 2]]), .completed 0 true]

/-- The hypotheses of `decoded_with_own_sets` are satisfiable: behind a keyframe with other sets, a
slice goes to a session made from those. -/
theorem decoded_with_changed_sets : latest 7 ((changedEvents.foldl step {}).seen ++
    (changedEvents.foldl step {}).decoder.looked (frame [[0x41, 3]])) = some [0x67, 2] := by
  have hinit : Reaches step (· = ({} : Observed)) SetsWithIDR {} := .init rfl
  have hrun : Along step SetsWithIDR {} changedEvents :=
    ⟨setsWithIDR_key _ _ (by decide +kernel) rfl, trivial,
      setsWithIDR_key _ _ (by decide +kernel) rfl, trivial, trivial⟩
  have hslice : SetsWithIDR (changedEvents.foldl step {}) (.decode {} (frame [[0x41, 3]])) := by
    intro _ units hunits _ _
    have hnals : H264Decoder.nals (frame [[0x41, 3]]).video.data = .ok [[0x41, 3]] := by
      decide +kernel
    obtain rfl := Except.ok.inj (hnals.symm.trans hunits)
    exact ⟨rfl, rfl⟩
  have hcall : .decodeFrame ([0x67, 2], [0x68, 2]) ([0x67, 2], [0x68, 2]) true ∈
      (changedEvents.foldl step {}).decoder.calls {} (frame [[0x41, 3]]) := by
    decide +kernel
  exact (decoded_with_own_sets (hinit.along hrun) {} _ hslice _ _ true hcall).2.1

/-- A keyframe fails; sets without an IDR are followed by an IDR with the same sets. -/
def skippedEvents : List Event :=
  [.decode {} (frame [[0x67, 1], [0x68, 1], [0x65, 1]]), .completed 0 false,
    .decode {} (frame [[0x67, 2], [0x41, 1]])]

/-- The property fails behind these events: the session is still that of the first sets. -/
theorem decoded_with_skipped_sets : ¬ ∀ (o : Observed) vt received session stored ok, o.Reachable →
    .decodeFrame session stored ok ∈ o.decoder.calls vt received → session = stored := by
  intro h
  have hinit : Reachable {} := .init rfl
  have hreach := hinit.along (@Along.of_forall _ _ step _ (fun _ _ => trivial) _ skippedEvents)
  have hcall : .decodeFrame ([0x67, 1], [0x68, 1]) ([0x67, 2], [0x68, 1]) true ∈
      (skippedEvents.foldl step {}).decoder.calls {}
        (frame [[0x67, 2], [0x68, 1], [0x65, 1]]) := by
    decide +kernel
  exact absurd (h _ {} _ _ _ true hreach hcall) (by decide)

end Observed
end Ipad
end SidecarDOS
