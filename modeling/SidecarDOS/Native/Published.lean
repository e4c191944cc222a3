/-
# What is published

The frames that the pipeline thread publishes are counted, and each is an access unit of the
transform as `ParameterSets::prepare` completes it.  So a step publishes nothing, what was
published before, or a prepared frame with a number behind all others (`Advances`), as
long as the transform puts out access units and the counter does not overflow (`Regular`).
-/

import SidecarDOS.Host.ParameterSets
import SidecarDOS.Native.Frames

namespace SidecarDOS
namespace Native

open Host.H264 (AccessUnit Prepared)
open SidecarDOS.Host (Op)
open Driver (Display)
open Library (exec)

namespace MfEncoder

variable {m : MfEncoder} {a : Answers}

/-- The parameter sets are those that some access units have left. -/
def Remembers (m : MfEncoder) : Prop :=
  ∃ history, m.parameters = Host.H264.ParameterSets.after history

/-- What the transform puts out. -/
def put : Processed → Option Bytes
  | .sample o => o.data
  | _ => none

/-- The transform puts out access units. -/
def Delivers (a : Answers) : Prop := ∀ data ∈ put a.processed, AccessUnit data

instance (a : Answers) : Decidable (Delivers a) :=
  inferInstanceAs (Decidable (∀ data ∈ put a.processed, AccessUnit data))

theorem Remembers.poll (h : m.Remembers) (ha : Delivers a) (now : UInt64) :
    (m.poll a now).1.Remembers ∧
      ∀ frame, (m.poll a now).2 = .ok (some frame) → Prepared frame := by
  obtain ⟨history, hparameters⟩ := h
  have hreturns := Encoder.poll_returns (a := a) (e := m.native) MAX_FRAME
  unfold MfEncoder.poll
  rcases hexec : exec (Encoder.poll a MAX_FRAME) m.native with ⟨e | _ | out, native⟩
  · exact ⟨⟨history, hparameters⟩, fun frame hframe => by cases hframe⟩
  · exact ⟨⟨history, hparameters⟩, fun frame hframe => by cases hframe⟩
  obtain ⟨⟨o, t, ho, -, hdata, -, -⟩, -, -⟩ := hreturns.of_exec hexec out rfl
  have haccess : AccessUnit out.data := by
    refine ha out.data ?_
    rw [ho]
    exact hdata
  have hafter : (m.parameters.prepare out.data).1 =
      Host.H264.ParameterSets.after (history ++ [out.data]) := by
    rw [Host.H264.ParameterSets.after, List.foldl_concat, hparameters]
    rfl
  dsimp only
  rcases hprepare : m.parameters.prepare out.data with ⟨parameters, e | ⟨data, keyframe⟩⟩
  all_goals
    rw [hprepare] at hafter
    dsimp only
  · exact ⟨⟨_, hafter⟩, fun frame hframe => by cases hframe⟩
  · refine ⟨⟨_, hafter⟩, fun frame hframe => ?_⟩
    obtain rfl := Option.some.inj (Except.ok.inj hframe)
    exact ⟨history, out.data, keyframe, haccess, hparameters ▸ congrArg Prod.snd hprepare, rfl⟩

/-- The polls of a turn return prepared frames. -/
theorem Remembers.drain (polls : Polls) (n i : ℕ) (h : m.Remembers)
    (hpolls : ∀ j < i + n, Delivers (polls j).1) : (m.drain polls n i).2.Remembers ∧
      ∀ frame, some (some frame) ∈ (m.drain polls n i).1 → Prepared frame := by
  induction n generalizing m i with
  | zero => exact ⟨h, nofun⟩
  | succ n ih =>
    obtain ⟨hone, hframe⟩ := h.poll (hpolls i (by omega)) (polls i).2
    unfold MfEncoder.drain
    rcases hpoll : m.poll (polls i).1 (polls i).2 with ⟨m', _ | _ | frame⟩
    all_goals
      rw [hpoll] at hone hframe
      dsimp only
    · exact ⟨hone, fun frame hmem => by simp at hmem⟩
    · exact ⟨hone, fun frame hmem => by simp at hmem⟩
    · obtain ⟨hrest, hframes⟩ := ih (i + 1) hone fun j hj => hpolls j (by omega)
      refine ⟨hrest, fun frame' hmem => ?_⟩
      rcases List.mem_cons.1 hmem with heq | hmem
      · cases heq
        exact hframe frame rfl
      · exact hframes frame' hmem

end MfEncoder

namespace Chain

variable {s : Chain} {d d' : Display}

/-- The frames are counted on, a frame that is new is a prepared one with a number behind all
before it, and no visit is lost. -/
structure Advances (d d' : Display) : Prop where
  serial : d.host.serial.toNat ≤ d'.host.serial.toNat
  frames : ∀ f, d'.host.frames = some f → d.host.frames = some f ∨ Prepared f ∧
    d.host.serial.toNat < f.frameId.toNat ∧ f.frameId.toNat ≤ d'.host.serial.toNat
  visits : d.visits ⊆ d'.visits

theorem Advances.of_cleared (h : Op.Cleared d.host d'.host) (hvisits : d.visits ⊆ d'.visits) :
    Advances d d' := by
  refine ⟨(congrArg UInt64.toNat h.1).ge, fun f hf => .inl ?_, hvisits⟩
  rcases h.2 with hnone | hsame
  · exact nomatch hnone.symm.trans hf
  · exact hsame.symm.trans hf

/-- What the transform puts out in the polls of a step are access units. -/
def Delivered : Move → Prop
  | .prepare _ _ polls => ∀ i < 4, MfEncoder.Delivers (polls i).1
  | _ => True

instance : ∀ m, Decidable (Delivered m)
  | .prepare _ _ polls => inferInstanceAs (Decidable (∀ i < 4, MfEncoder.Delivers (polls i).1))
  | .display _ => .isTrue trivial
  | .visit _ => .isTrue trivial

/-- A step in which nothing races, the transform puts out access units, and the frames that it
may publish can be counted. -/
def Regular (s : Chain) (m : Move) : Prop :=
  s.Orderly m ∧ Delivered m ∧ s.display.host.serial.toNat + 4 < 2 ^ 64

instance (s : Chain) (m : Move) : Decidable (s.Regular m) :=
  inferInstanceAs (Decidable (_ ∧ _ ∧ _))

theorem opened_remembers (h : s.mf.Remembers) (t : Host.Turn) (status : Driver.Status) :
    (s.opened t status).Remembers := by
  unfold opened
  split
  · exact ⟨[], rfl⟩
  · exact h

theorem prepare_advances (h : s.mf.Remembers) {t : Host.Turn} {key : Id16}
    {polls : MfEncoder.Polls} (hm : s.Regular (.prepare t key polls)) :
    (s.step (.prepare t key polls)).mf.Remembers ∧
      Advances s.display (s.step (.prepare t key polls)).display := by
  obtain ⟨-, hdelivered, hcounts⟩ := hm
  unfold step move after
  dsimp only
  split
  · rename_i status hphase
    have hopened := opened_remembers h t status
    obtain ⟨hdrained, hresults⟩ :=
      hopened.drain polls 4 0 fun i hi => hdelivered i (by omega)
    constructor
    · unfold polled
      split
      · exact h
      · split
        · exact hdrained
        · exact hopened
    · dsimp only [Display.step]
      rw [hphase]
      dsimp only
      obtain ⟨hvisits, hserial, hframes⟩ := prepare_still True s.display { t with
        polls := fun i => ((s.opened t status).drain polls 4 0).1[i]?.getD (some none) } key status
        fun _ => hcounts
      refine ⟨hserial trivial, fun f hf => ?_, hvisits.symm ▸ List.Subset.refl _⟩
      rcases hframes with hnone | hsame | ⟨i, frame, hi, hframe, hlt⟩
      · exact nomatch hnone.symm.trans hf
      · exact .inl (hsame.symm.trans hf)
      · obtain rfl := Option.some.inj (hframe.symm.trans hf)
        exact .inr ⟨hresults frame (mem_of_polled hi), hlt trivial, le_rfl⟩
  · rename_i hphase
    have hsame : s.display.step (.prepare t key) = s.display := by
      unfold Display.step
      dsimp only
      split
      · rename_i status hphase'
        exact absurd hphase' (hphase status)
      · rfl
    rw [hsame]
    exact ⟨h, .of_cleared ⟨rfl, .inr rfl⟩ (.refl _)⟩

/-- **One step** publishes nothing, what was published before, or a new frame. -/
theorem step_advances (h : s.mf.Remembers) {m : Move} (hm : s.Regular m) :
    (s.step m).mf.Remembers ∧ Advances s.display (s.step m).display := by
  cases m with
  | display m =>
    have hstill := step_still s.display hm.1.2
    exact ⟨h, .of_cleared hstill.host (hstill.visits ▸ .refl _)⟩
  | prepare t key polls => exact prepare_advances h hm
  | visit a =>
    rcases step_visit s a with ⟨phase, hstep⟩ | ⟨status, newest, i, rest, hstep⟩
    · rw [hstep]
      exact ⟨h, .of_cleared ⟨rfl, .inr rfl⟩ (.refl _)⟩
    · rw [hstep]
      split_ifs
      all_goals
        obtain ⟨hcleared, hvisits, -⟩ := visit_cases s.display _ status newest i rest
        exact ⟨h, .of_cleared hcleared hvisits⟩

theorem init_remembers (h : Init s) : s.mf.Remembers := ⟨[], by rw [h.2]; rfl⟩

end Chain

end Native
end SidecarDOS
