/-
# From the pixels to the frame

`MfEncoder` of `windows/host/src/encoder/mf.rs` over the bridge, and `Chain`: the pipeline
thread beside the driver, as in `Driver.Display`, with an encoder whose answers are those
of the bridge.  The thread's `poll` and `encode` are calls of `sd_gpu_poll` and
`sd_gpu_input`; a call of `input` meets the mutex of the texture that the driver fills.
What the thread publishes has the capture time of pixels that have been submitted with
it (`frames_pictured`).
-/

import SidecarDOS.Driver.Handoff
import SidecarDOS.Host.AccessUnits
import SidecarDOS.Native.Leases

namespace SidecarDOS
namespace Native

open Library (Reaches exec exec_get_bind)
open Driver (Display Texture Gpu)
open SidecarDOS.Host (Turn Op)

structure MfEncoder where
  native : Encoder := {}
  generation : UInt32 := 0
  parameters : Host.H264.ParameterSets := {}

namespace MfEncoder

/-- `poll` at the time `now`. -/
def poll (m : MfEncoder) (a : Answers) (now : UInt64) :
    MfEncoder × Except Host.Error (Option VideoFrame) :=
  match exec (Encoder.poll a MAX_FRAME) m.native with
  | (.error _, native) => ({ m with native := native }, .error .platform)
  | (.ok none, native) => ({ m with native := native }, .ok none)
  | (.ok (some out), native) =>
    match m.parameters.prepare out.data with
    | (parameters, .error e) => ({ m with native := native, parameters := parameters }, .error e)
    | (parameters, .ok (data, keyframe)) =>
      ({ m with native := native, parameters := parameters },
        .ok (some ⟨m.generation, out.frame, out.captureUs, now, 0, if keyframe then 1 else 0,
          data⟩))

/-- What the `i`-th `poll` of a turn meets: the answers of the bridge and the time. -/
abbrev Polls : Type := ℕ → Answers × UInt64

/-- The polls of a turn, from the `i`-th on: what they return, until one returns no frame. -/
def drain (polls : Polls) : ℕ → ℕ → MfEncoder → List (Option (Option VideoFrame)) × MfEncoder
  | 0, _, m => ([], m)
  | n + 1, i, m =>
    match m.poll (polls i).1 (polls i).2 with
    | (m, .error _) => ([none], m)
    | (m, .ok none) => ([some none], m)
    | (m, .ok (some frame)) =>
      let rest := drain polls n (i + 1) m
      (some (some frame) :: rest.1, rest.2)

variable {m : MfEncoder} {a : Answers} {now : UInt64}

theorem poll_native : (m.poll a now).1.native = m.native.step (.poll a MAX_FRAME) := by
  show _ = (exec (Encoder.poll a MAX_FRAME) m.native).2
  unfold poll
  rcases exec (Encoder.poll a MAX_FRAME) m.native with ⟨_ | _ | out, native⟩
  · rfl
  · rfl
  · dsimp only
    split <;> rfl

/-- A frame that `poll` returns has the capture time of a sample that was accepted. -/
theorem poll_frame (h : m.native.Accounts) {frame : VideoFrame}
    (hpoll : (m.poll a now).2 = .ok (some frame)) :
    (frame.frameId, frame.captureTimestamp) ∈ m.native.accepted := by
  have hreturns := Encoder.poll_returns (a := a) (e := m.native) MAX_FRAME
  unfold poll at hpoll
  rcases hexec : exec (Encoder.poll a MAX_FRAME) m.native with ⟨_ | _ | out, native⟩
  · rw [hexec] at hpoll
    exact nomatch hpoll
  · rw [hexec] at hpoll
    exact nomatch hpoll
  · rw [hexec] at hpoll
    dsimp only at hpoll
    obtain ⟨⟨o, t, -, -, -, -, hlookup⟩, -, -⟩ := hreturns.of_exec hexec out rfl
    split at hpoll
    · exact nomatch hpoll
    · obtain rfl := Option.some.inj (Except.ok.inj hpoll)
      exact (h.mem_accepted hlookup).1

/-- What holds of an encoder through the polls of a turn. -/
structure Sound (accepted : List (UInt64 × UInt64)) (m : MfEncoder) : Prop where
  accounts : m.native.Accounts
  idle : m.native.Idle
  accepted : m.native.accepted = accepted

theorem Sound.poll {accepted : List (UInt64 × UInt64)} (h : m.Sound accepted) (a : Answers)
    (now : UInt64) : (m.poll a now).1.Sound accepted := by
  refine ⟨?_, ?_, ?_⟩
  all_goals rw [poll_native]
  · exact h.accounts.step _
  · exact h.idle.step trivial
  · exact (Encoder.poll_accepted MAX_FRAME).out.2.trans h.accepted

/-- Every frame that the polls of a turn return was accepted under its capture time. -/
theorem Sound.drain {accepted : List (UInt64 × UInt64)} (polls : Polls) (n i : ℕ) {m : MfEncoder}
    (h : m.Sound accepted) : (m.drain polls n i).2.Sound accepted ∧
      ∀ frame, some (some frame) ∈ (m.drain polls n i).1 →
        (frame.frameId, frame.captureTimestamp) ∈ accepted := by
  induction n generalizing m i with
  | zero => exact ⟨h, nofun⟩
  | succ n ih =>
    have hsound := h.poll (polls i).1 (polls i).2
    unfold MfEncoder.drain
    rcases hpoll : m.poll (polls i).1 (polls i).2 with ⟨m', _ | _ | frame⟩
    all_goals
      rw [hpoll] at hsound
      dsimp only
    · exact ⟨hsound, fun frame hframe => by simp at hframe⟩
    · exact ⟨hsound, fun frame hframe => by simp at hframe⟩
    · obtain ⟨hrest, hframes⟩ := ih (i + 1) hsound
      refine ⟨hrest, fun frame' hframe' => ?_⟩
      rcases List.mem_cons.1 hframe' with heq | hframe'
      · cases heq
        exact h.accepted ▸ poll_frame h.accounts (congrArg Prod.snd hpoll)
      · exact hframes frame' hframe'

end MfEncoder

/-! ### The thread, the driver and the encoder -/

structure Chain where
  display : Display
  mf : MfEncoder := {}

namespace Chain

inductive Move where
  /-- Anything of `Driver.Display` but what asks the encoder. -/
  | display (m : Driver.Move)
  | prepare (t : Turn) (key : Id16) (polls : MfEncoder.Polls)
  | visit (a : Answers)

variable (s : Chain)

/-- The encoder that is polled: the one that is there, or one that is opened first. -/
def opened (t : Turn) (status : Driver.Status) : MfEncoder :=
  if s.display.registers t status.host then { generation := status.host.generation } else s.mf

/-- The answers of a turn with what `SURFACES` answers, which may have to wait. -/
def surfaced (t : Turn) (key : Id16) (status : Driver.Status) : Option Turn :=
  if s.display.registers t status.host then
    ((s.display.driver.create key status.width status.height).surfaces
      ⟨1, status.host.generation.toNat, .surface key⟩).map fun r =>
        { t with surfaces := t.surfaces && r.1 }
  else some t

/-- The encoder behind the part of a turn that polls, where that is reached. -/
def polled (t : Turn) (key : Id16) (polls : MfEncoder.Polls) (status : Driver.Status) :
    MfEncoder :=
  match s.surfaced t key status with
  | none => s.mf
  | some t' =>
    match (exec (Op.tune t' status.host) s.display.host).1 with
    | .ok true => ((s.opened t status).drain polls 4 0).2
    | _ => s.opened t status

/-- The encoder as a call of `input` for slot `i` meets it. -/
def meets (i : Fin 3) : Encoder :=
  { s.mf.native with
    mutexes := Function.update s.mf.native.mutexes i ((s.display.texture i).bind Texture.key) }

/-- The metadata for slot `i`: a stale one is encoded as frame 0. -/
def metadata (status : Driver.Status) (newest : Option (Fin 3)) (i : Fin 3) : Host.Slot :=
  if some i ≠ newest then { status.host.slots i with frame := 0 } else status.host.slots i

/-- `sd_gpu_input` for slot `i`. -/
def taken (a : Answers) (status : Driver.Status) (newest : Option (Fin 3)) (i : Fin 3) :
    Except HResult Bool × Encoder :=
  exec (Encoder.input a i (metadata status newest i).frame (metadata status newest i).captureUs)
    (s.meets i)

/-- What the thread and the driver do, with the encoder's answers. -/
def move : Move → Driver.Move
  | .display m => m
  | .prepare t key polls =>
    match s.display.phase with
    | .read status =>
      .prepare { t with
        polls := fun i => ((s.opened t status).drain polls 4 0).1[i]?.getD (some none) } key
    | _ => .prepare t key
  | .visit a =>
    match s.display.phase with
    | .slots status newest (i :: _) =>
      if (status.host.slots i).frame > s.display.host.seen i then
        .visit (Encoder.gpu i (s.meets i) (s.taken a status newest i).1
          (s.taken a status newest i).2)
      else .visit {}
    | _ => .visit {}

/-- What becomes of the encoder. -/
def after : Move → MfEncoder
  | .display _ => s.mf
  | .prepare t key polls =>
    match s.display.phase with
    | .read status => s.polled t key polls status
    | _ => s.mf
  | .visit a =>
    match s.display.phase with
    | .slots status newest (i :: _) =>
      if (status.host.slots i).frame > s.display.host.seen i then
        { s.mf with native := (s.taken a status newest i).2 }
      else s.mf
    | _ => s.mf

def step (m : Move) : Chain := ⟨s.display.step (s.move m), s.after m⟩

def Init (s : Chain) : Prop := Display.Init s.display ∧ s.mf = {}

/-- The encoder answers for itself, and a lease can end. -/
def plain : Move → Bool
  | .display (.prepare _ _) | .display (.visit _) => false
  | .visit a => a.drops
  | _ => true

/-- A run without races of the driver and the thread. -/
def Orderly (s : Chain) (m : Move) : Prop := Display.Orderly s.display (s.move m) ∧ plain m = true

instance (s : Chain) (m : Move) : Decidable (Orderly s m) := inferInstanceAs (Decidable (_ ∧ _))

variable {s}

/-- What the encoder has accepted are metadata of visits, and what is published has the capture
time of one. -/
structure Pictured (s : Chain) : Prop where
  kept : Display.Kept s.display
  mf : s.mf.Sound s.mf.native.accepted
  accepted : ∀ x ∈ s.mf.native.accepted,
    ∃ v ∈ s.display.visits, v.submitted = true ∧ v.metadata = ⟨x.1, x.2⟩
  frames : ∀ f, s.display.host.frames = some f →
    ∃ v ∈ s.display.visits, v.submitted = true ∧ v.metadata.captureUs = f.captureTimestamp

/-- The display keeps its visits, and publishes nothing new. -/
structure Still (d d' : Display) : Prop where
  visits : d'.visits = d.visits
  host : Op.Cleared d.host d'.host

theorem step_still (d : Display) {m : Driver.Move} (hplain : plain (.display m) = true) :
    Still d (d.step m) := by
  have hrefl : Still d d := ⟨rfl, rfl, .inr rfl⟩
  cases m with
  | prepare t key => exact nomatch hplain
  | visit g => exact nomatch hplain
  | driver e => exact ⟨rfl, rfl, .inr rfl⟩
  | keyframe => exact ⟨rfl, rfl, .inr rfl⟩
  | bitrate rate => exact ⟨rfl, rfl, .inr rfl⟩
  | displayChanged => exact ⟨rfl, rfl, .inr rfl⟩
  | event => exact ⟨rfl, rfl, .inr rfl⟩
  | turn t cmd =>
    unfold Display.step
    dsimp only
    split
    · split
      · exact hrefl
      · have hclears := (Op.approach_clears t cmd (s := d.host)).out.2
        unfold Display.approach
        rcases hexec : exec (Op.approach t cmd) d.host with ⟨e | _ | _ | _, host⟩
        all_goals
          rw [hexec] at hclears
          dsimp only
        · exact ⟨rfl, hclears.1, .inl rfl⟩
        · exact ⟨rfl, hclears⟩
        · exact ⟨rfl, hclears⟩
        · exact ⟨rfl, hclears⟩
    · exact hrefl
  | ask ok =>
    unfold Display.step
    dsimp only
    split
    · split
      · split
        · exact hrefl
        · exact ⟨rfl, rfl, .inr rfl⟩
      · exact ⟨rfl, rfl, .inl rfl⟩
    · exact hrefl

/-- A step that does not ask the encoder. -/
theorem Pictured.still (h : s.Pictured) {d : Display} (hkept : Display.Kept d)
    (hstill : Still s.display d) : Pictured ⟨d, s.mf⟩ := by
  refine ⟨hkept, h.mf, fun x hx => hstill.visits ▸ h.accepted x hx, fun f hf => ?_⟩
  rw [hstill.visits]
  rcases hstill.host.2 with hnone | hsame
  · exact nomatch hnone.symm.trans hf
  · exact h.frames f (hsame.symm.trans hf)

/-- From the answer to `STATUS` to the slots, the display keeps its visits, and only the polls
publish. -/
theorem prepare_still (counts : Prop) (d : Display) (t : Turn) (key : Id16)
    (status : Driver.Status) (h : counts → d.host.serial.toNat + 4 < 2 ^ 64) :
    (d.prepare t key status).visits = d.visits ∧
      Op.Publishes counts t d.host (d.prepare t key status).host := by
  have hprepared (d : Display) (t : Turn) (h : counts → d.host.serial.toNat + 4 < 2 ^ 64) :
      (d.prepared t status).visits = d.visits ∧
        Op.Publishes counts t d.host (d.prepared t status).host := by
    have hpolled := (Op.prepare_polled t status.host h).out.2
    unfold Display.prepared
    rcases hexec : exec (Op.prepare t status.host) d.host with ⟨e | _ | newest, host⟩
    all_goals
      rw [hexec] at hpolled
      dsimp only
    · exact ⟨rfl, hpolled.failed e⟩
    · exact ⟨rfl, hpolled.publishes⟩
    · exact ⟨rfl, hpolled.publishes⟩
  unfold Display.prepare
  split
  · split
    · exact ⟨rfl, Op.Cleared.publishes ⟨rfl, .inr rfl⟩⟩
    · exact hprepared _ _ h
  · exact hprepared _ _ h

theorem opened_sound (h : s.mf.Sound s.mf.native.accepted) (t : Turn) (status : Driver.Status) :
    (s.opened t status).Sound (s.opened t status).native.accepted ∧
      (s.opened t status).native.accepted ⊆ s.mf.native.accepted := by
  unfold opened
  split
  · exact ⟨⟨.init rfl, ⟨trivial, rfl, rfl⟩, rfl⟩, List.nil_subset _⟩
  · exact ⟨h, List.Subset.refl _⟩

/-- A frame of a turn is one of the results of its polls. -/
theorem mem_of_polled {results : List (Option (Option VideoFrame))} {i : ℕ} {frame : VideoFrame}
    (h : results[i]?.getD (some none) = some (some frame)) : some (some frame) ∈ results := by
  cases hget : results[i]? with
  | none =>
    rw [hget] at h
    exact nomatch h
  | some r =>
    rw [hget] at h
    exact List.mem_of_getElem? (hget.trans (congrArg some h))

/-- The polls of a turn. -/
theorem Pictured.prepare (h : s.Pictured) {t : Turn} {key : Id16} {polls : MfEncoder.Polls}
    (horderly : s.Orderly (.prepare t key polls)) : (s.step (.prepare t key polls)).Pictured := by
  have hkept := h.kept.step _ horderly.1
  unfold step move after at *
  dsimp only at *
  split
  · rename_i status hphase
    rw [hphase] at hkept
    obtain ⟨hopened, hsub⟩ := opened_sound h.mf t status
    obtain ⟨hdrained, hresults⟩ := hopened.drain polls 4 0
    have hmf : (s.polled t key polls status).Sound (s.polled t key polls status).native.accepted ∧
        (s.polled t key polls status).native.accepted ⊆ s.mf.native.accepted := by
      unfold polled
      split
      · exact ⟨h.mf, List.Subset.refl _⟩
      · split
        · exact ⟨⟨hdrained.accounts, hdrained.idle, rfl⟩, hdrained.accepted ▸ hsub⟩
        · exact ⟨hopened, hsub⟩
    dsimp only [Display.step] at hkept ⊢
    rw [hphase] at hkept ⊢
    dsimp only at hkept ⊢
    obtain ⟨hvisits, -, hframes⟩ := prepare_still False s.display { t with
      polls := fun i => ((s.opened t status).drain polls 4 0).1[i]?.getD (some none) } key status
      False.elim
    refine ⟨hkept, hmf.1, fun x hx => hvisits ▸ h.accepted x (hmf.2 hx), fun f hf => ?_⟩
    dsimp only at hf ⊢
    rw [hvisits]
    rcases hframes with hnone | hsame | ⟨i, frame, hi, hframe, -⟩
    · exact nomatch hnone.symm.trans hf
    · exact h.frames f (hsame.symm.trans hf)
    · obtain rfl := Option.some.inj (hframe.symm.trans hf)
      obtain ⟨v, hv, hsubmitted, hmetadata⟩ :=
        h.accepted _ (hsub (hresults frame (mem_of_polled hi)))
      exact ⟨v, hv, hsubmitted, congrArg Host.Slot.captureUs hmetadata⟩
  · rename_i hphase
    have hsame : s.display.step (.prepare t key) = s.display := by
      unfold Display.step
      dsimp only
      split
      · rename_i status hphase'
        exact absurd hphase' (hphase status)
      · rfl
    rw [hsame]
    exact h.still h.kept ⟨rfl, rfl, .inr rfl⟩

/-- What a visit of a slot leaves: the visits before it, and one with the metadata of a sample
that has been submitted. -/
theorem visit_cases (d : Display) (g : Gpu) (status : Driver.Status) (newest : Option (Fin 3))
    (i : Fin 3) (rest : List (Fin 3)) :
    Op.Cleared d.host (d.visit g status newest i rest).host ∧
    d.visits ⊆ (d.visit g status newest i rest).visits ∧
    ((status.host.slots i).frame > d.host.seen i →
      (g.input (d.texture i) (metadata status newest i)).1 = .submitted →
        ∃ v ∈ (d.visit g status newest i rest).visits, v.submitted = true ∧
          v.metadata = metadata status newest i) := by
  unfold Display.visit metadata
  dsimp only
  generalize hmetadata : (if some i ≠ newest then { status.host.slots i with frame := 0 }
    else status.host.slots i : Host.Slot) = metadata
  generalize ht : ({ encodes := fun _ metadata => (g.input (d.texture i) metadata).1.encoded } :
    Turn) = t
  have hencodes : t.encodes i metadata = (g.input (d.texture i) metadata).1.encoded := by
    rw [← ht]
  have hcounted := Op.submit_uncounted (t := t) (s := d.host) status.host.slots newest i
  rcases hexec : exec (Op.submit t status.host.slots newest i) d.host with ⟨e | ⟨⟩, host⟩
  · have hserial := (hcounted.of_exec hexec).2.1
    refine ⟨⟨hserial, .inl rfl⟩, List.Subset.refl _, fun hnew hsubmitted => ?_⟩
    have hthrows : t.encodes i metadata = none := by
      unfold Op.submit at hexec
      rw [exec_get_bind, if_pos hnew] at hexec
      dsimp only at hexec
      rw [hmetadata] at hexec
      split at hexec
      · assumption
      · exact nomatch hexec
      · exact nomatch hexec
    rw [hencodes, hsubmitted] at hthrows
    exact nomatch hthrows
  · have hcleared : Op.Cleared d.host host := (hcounted.of_exec hexec).2.imp id .inr
    dsimp only
    split_ifs with hnew htaken
    · refine ⟨hcleared, List.subset_append_left _ _, fun _ hsubmitted => ?_⟩
      exact ⟨_, List.mem_append_right _ (List.mem_singleton.2 rfl), decide_eq_true hsubmitted, rfl⟩
    · refine ⟨hcleared, List.Subset.refl _, fun _ hsubmitted => absurd ?_ htaken⟩
      rw [hsubmitted]
      rfl
    · exact ⟨hcleared, List.Subset.refl _, fun hnew' => absurd hnew' hnew⟩

/-- A visit publishes nothing, and what it adds to the encoder it adds to the visits. -/
theorem Pictured.visited (h : s.Pictured) {g : Gpu} {status : Driver.Status}
    {newest : Option (Fin 3)} {i : Fin 3} {rest : List (Fin 3)} {mf : MfEncoder}
    (hkept : Display.Kept (s.display.visit g status newest i rest))
    (hmf : mf.Sound mf.native.accepted)
    (haccepted : ∀ x ∈ mf.native.accepted, x ∈ s.mf.native.accepted ∨
      ∃ v ∈ (s.display.visit g status newest i rest).visits, v.submitted = true ∧
        v.metadata = ⟨x.1, x.2⟩) :
    Pictured ⟨s.display.visit g status newest i rest, mf⟩ := by
  obtain ⟨⟨-, hframes⟩, hvisits, -⟩ := visit_cases s.display g status newest i rest
  refine ⟨hkept, hmf, fun x hx => ?_, fun f hf => ?_⟩
  · rcases haccepted x hx with hx | hx
    · obtain ⟨v, hv, hsubmitted⟩ := h.accepted x hx
      exact ⟨v, hvisits hv, hsubmitted⟩
    · exact hx
  · rcases hframes with hnone | hsame
    · exact nomatch hnone.symm.trans hf
    · obtain ⟨v, hv, hsubmitted⟩ := h.frames f (hsame.symm.trans hf)
      exact ⟨v, hvisits hv, hsubmitted⟩

/-- The visit of a slot with something new. -/
theorem Pictured.asked (h : s.Pictured) {a : Answers} (hdrops : a.drops = true)
    {status : Driver.Status} {newest : Option (Fin 3)} {i : Fin 3} {rest : List (Fin 3)} {g : Gpu}
    (hg : g = Encoder.gpu i (s.meets i) (s.taken a status newest i).1 (s.taken a status newest i).2)
    (hkept : Display.Kept (s.display.visit g status newest i rest))
    (hnew : (status.host.slots i).frame > s.display.host.seen i) :
    Pictured ⟨s.display.visit g status newest i rest,
      { s.mf with native := (s.taken a status newest i).2 }⟩ := by
  have hdoes : Encoder.Does i (metadata status newest i).frame
      (metadata status newest i).captureUs (s.display.texture i) (s.meets i)
      (s.taken a status newest i).1 (s.taken a status newest i).2 := by
    refine (Encoder.input_does (e := s.meets i) _ _ ?_ hdrops ?_).of_exec rfl
    · exact ⟨h.mf.idle.disciplined, h.mf.idle.owner, h.mf.idle.owned⟩
    · unfold meets
      dsimp only
      rw [Function.update_self]
  refine h.visited hkept ⟨?_, hdoes.idle, rfl⟩ fun x hx => ?_
  · exact (h.mf.accounts.mutexes _ _).step (.input a i (metadata status newest i).frame
      (metadata status newest i).captureUs)
  · have haccepted : x ∈ (s.taken a status newest i).2.accepted := hx
    rw [hdoes.accepted] at haccepted
    split_ifs at haccepted with hsubmitted
    · rcases List.mem_cons.1 haccepted with rfl | hx
      · refine .inr ((visit_cases s.display g status newest i rest).2.2 hnew ?_)
        rw [hg]
        exact hdoes.told.trans hsubmitted
      · exact .inl hx
    · exact .inl haccepted

/-- Only the visit of a slot with something new asks the encoder. -/
theorem step_visit (s : Chain) (a : Answers) :
    (∃ phase, s.step (.visit a) = ⟨{ s.display with phase := phase }, s.mf⟩) ∨
    ∃ status newest i rest, s.step (.visit a) =
      if (status.host.slots i).frame > s.display.host.seen i then
        ⟨s.display.visit (Encoder.gpu i (s.meets i) (s.taken a status newest i).1
          (s.taken a status newest i).2) status newest i rest,
          { s.mf with native := (s.taken a status newest i).2 }⟩
      else ⟨s.display.visit {} status newest i rest, s.mf⟩ := by
  obtain ⟨⟨driver, host, phase, key, visits⟩, mf⟩ := s
  cases phase with
  | slots status newest rest =>
    cases rest with
    | nil => exact .inl ⟨.idle, rfl⟩
    | cons i rest =>
      refine .inr ⟨status, newest, i, rest, ?_⟩
      unfold step move after
      dsimp only
      split_ifs <;> rfl
  | idle => exact .inl ⟨.idle, rfl⟩
  | asks => exact .inl ⟨.asks, rfl⟩
  | read status => exact .inl ⟨.read status, rfl⟩

theorem Pictured.visit (h : s.Pictured) {a : Answers} (horderly : s.Orderly (.visit a)) :
    (s.step (.visit a)).Pictured := by
  have hkept : (s.step (.visit a)).display.Kept := h.kept.step _ horderly.1
  rcases step_visit s a with ⟨phase, hstep⟩ | ⟨status, newest, i, rest, hstep⟩
  · rw [hstep] at hkept ⊢
    exact h.still hkept ⟨rfl, rfl, .inr rfl⟩
  · rw [hstep] at hkept ⊢
    split_ifs at hkept ⊢ with hnew
    · exact h.asked horderly.2 rfl hkept hnew
    · exact h.visited hkept h.mf fun x hx => .inl hx

theorem Pictured.step (h : s.Pictured) (m : Move) (horderly : s.Orderly m) :
    (s.step m).Pictured := by
  cases m with
  | display m => exact h.still (h.kept.step m horderly.1) (step_still s.display horderly.2)
  | prepare t key polls => exact h.prepare horderly
  | visit a => exact h.visit horderly

theorem Pictured.init (h : Init s) : s.Pictured := by
  obtain ⟨hdisplay, hmf⟩ := h
  have hkept := Display.Kept.init hdisplay
  obtain ⟨display, mf⟩ := s
  obtain rfl := hmf
  obtain ⟨config, displayChanged, now, key, rfl⟩ := hdisplay
  exact ⟨hkept, ⟨.init rfl, ⟨trivial, rfl, rfl⟩, rfl⟩, nofun, nofun⟩

/-- **What is published has been seen.**  In every run of the thread, the driver and the encoder
in which no worker fills a slot while a turn waits for it, whatever the transform does, a frame
that is published has the capture time of pixels that went to the transform: a slot was taken
with just the capture that the driver had announced, and with its frame and its time. -/
theorem frames_pictured (h : Reaches step Init Orderly s) {f : VideoFrame}
    (hf : s.display.host.frames = some f) :
    ∃ v ∈ s.display.visits, ∃ c, v.submitted = true ∧ v.content = some c ∧
      v.announced = some c ∧ v.metadata = ⟨c.frame, c.captureUs⟩ ∧
      f.captureTimestamp = c.captureUs := by
  have hpictured := h.invariant (fun _ => Pictured.init) fun _ m hs horderly => hs.step m horderly
  obtain ⟨v, hv, hsubmitted, htime⟩ := hpictured.frames f hf
  obtain ⟨c, hcontent, hannounced, -, hmetadata⟩ := hpictured.kept.visits v hv
  have hmetadata := hmetadata hsubmitted
  exact ⟨v, hv, c, hsubmitted, hcontent, hannounced, hmetadata,
    htime.symm.trans (congrArg Host.Slot.captureUs hmetadata)⟩

/-- The thread opens an encoder, whose first texture the driver fills. -/
def sampleOpened : List Move :=
  (Display.sampleArrival.map (.display ∘ .driver)) ++ Display.sampleAsk.map .display ++
    [.prepare {} (Display.sampleKey 1) fun _ => ({}, 0)] ++ List.replicate 4 (.visit {}) ++
    [.display (.driver (.pass 0 { width := 1920, height := 1080, captureUs := 10 })),
      .display (.driver .publish)]

/-- The texture is taken, and the next turn polls its frame. -/
def sampleEncoded : List Move :=
  [.display (.turn {} none), .display (.ask true),
    .prepare {} (Display.sampleKey 2) fun _ => ({}, 0), .visit Encoder.sampleAsk, .visit {},
    .visit {}, .visit {}, .display (.turn {} none), .display (.ask true),
    .prepare {} (Display.sampleKey 2) fun i => (if i = 0 then { Encoder.sampleAnnounce with
      processed := .sample { Encoder.sampleOutput with data := some [0, 0, 0, 1, 0x41] } }
      else {}, 20)]

def sampleChain : Chain := (sampleOpened ++ sampleEncoded).foldl step ⟨Display.sampleHost, {}⟩

theorem frames_pictured_sample :
    (sampleChain.display.host.frames.map fun f => (f.frameId, f.captureTimestamp)) =
      some (1, 10) ∧ ∃ v ∈ sampleChain.display.visits, ∃ c, v.content = some c ∧
        10 = c.captureUs := by
  have hreaches : Reaches step Init Orderly sampleChain := by
    have hinit : Reaches step Init Orderly ⟨Display.sampleHost, {}⟩ :=
      .init ⟨⟨{}, false, 0, Id16.zero, rfl⟩, rfl⟩
    exact hinit.along (by decide)
  have hframe : sampleChain.display.host.frames =
      some ⟨3, 1, 10, 20, 0, 0, [0, 0, 0, 1, 0x41]⟩ := rfl
  obtain ⟨v, hv, c, -, hcontent, -, -, htime⟩ := frames_pictured hreaches hframe
  exact ⟨congrArg (Option.map _) hframe, v, hv, c, hcontent, htime⟩

end Chain

end Native
end SidecarDOS
