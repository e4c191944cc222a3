/-
# From the pixels to VideoToolbox

`VideoPath` joins the pipeline thread with its encoder and the driver (`Native.Chain`), the
`session` that takes every published frame once and sends it (`frames.changed()`), and the
iPad's session with its decoder (`Ipad.Watched`).  What VideoToolbox gets is a gapless chain of
references, and every frame of it shows pixels that the driver has captured
(`pictures_decoded`), whatever is lost on the way.
-/

import SidecarDOS.Client.References
import SidecarDOS.Native.Published

namespace SidecarDOS

open Library (Reaches Along)
open Host (Sending SendOutcome)
open Host.H264 (Prepared)
open Ipad (Watched Moment Increasing Carries Based)

structure VideoPath where
  chain : Native.Chain
  /-- A frame has been published that `session` has not seen. -/
  changed : Bool := false
  sendings : List Sending := []
  watched : Watched

namespace VideoPath

inductive Move where
  | chain (m : Native.Chain.Move)
  /-- `borrow_and_update()` before a session. -/
  | dismiss
  /-- A published frame is sent. -/
  | send (session : Id16) (maxDatagramSize : Option ℕ) (now : UInt64) (clock : ℕ → UInt64)
    (outcome : ℕ → SendOutcome)
  | client (e : Moment × Ipad.SessionModel.Event)

/-- A channel that is cleared while it is empty is not worth a mark: `None` is not sent. -/
def step (crypto : Crypto) (s : VideoPath) : Move → VideoPath
  | .chain m =>
    let chain := s.chain.step m
    { s with
      chain := chain
      changed := s.changed || chain.display.host.frames ≠ s.chain.display.host.frames }
  | .dismiss => { s with changed := false }
  | .send session maxDatagramSize now clock outcome =>
    if s.changed then
      { s with
        changed := false
        sendings := s.sendings ++ (s.chain.display.host.frames.map fun frame =>
          ⟨session, frame, maxDatagramSize, now, clock, outcome⟩).toList }
    else s
  | .client e => { s with watched := s.watched.step crypto e }

def Initial (s : VideoPath) : Prop :=
  s.chain.Init ∧ s.sendings = [] ∧ s.watched.Initial

/-- The chain is regular, and what arrives has been sent. -/
def Regular (crypto : Crypto) (s : VideoPath) : Move → Prop
  | .chain m => s.chain.Regular m
  | .client e => s.watched.Honest crypto s.sendings e
  | _ => True

instance (crypto : Crypto) (s : VideoPath) : ∀ m, Decidable (Regular crypto s m)
  | .chain m => inferInstanceAs (Decidable (s.chain.Regular m))
  | .client e => inferInstanceAs (Decidable (s.watched.Honest crypto s.sendings e))
  | .dismiss => .isTrue trivial
  | .send _ _ _ _ _ => .isTrue trivial

variable {crypto : Crypto} {s : VideoPath}

/-- The frame shows a capture of the driver whose pixels have gone to the transform. -/
def Shows (s : VideoPath) (frame : VideoFrame) : Prop :=
  ∃ v ∈ s.chain.display.visits, ∃ c, v.submitted = true ∧ v.content = some c ∧
    v.announced = some c ∧ frame.captureTimestamp = c.captureUs

structure Sound (crypto : Crypto) (s : VideoPath) : Prop where
  pictured : s.chain.Pictured
  remembers : s.chain.mf.Remembers
  /-- A frame that is published is behind all that have been sent before it. -/
  published : ∀ f, s.chain.display.host.frames = some f → Prepared f ∧
    f.frameId.toNat ≤ s.chain.display.host.serial.toNat ∧
      (s.changed = true → ∀ x ∈ s.sendings, x.frame.frameId < f.frameId)
  counted : ∀ x ∈ s.sendings, x.frame.frameId.toNat ≤ s.chain.display.host.serial.toNat
  increasing : s.sendings.Pairwise fun x x' => x.frame.frameId < x'.frame.frameId
  prepared : ∀ x ∈ s.sendings, Prepared x.frame
  shown : ∀ x ∈ s.sendings, s.Shows x.frame
  watched : ∀ sendings, s.sendings ⊆ sendings →
    Reaches (Watched.step crypto) Watched.Initial (Watched.Honest crypto sendings) s.watched

theorem Sound.init (h : s.Initial) : Sound crypto s := by
  obtain ⟨hchain, hsendings, hwatched⟩ := h
  have hnone : s.chain.display.host.frames = none := by
    obtain ⟨config, displayChanged, now, key, hdisplay⟩ := hchain.1
    rw [hdisplay]
    rfl
  refine ⟨.init hchain, Native.Chain.init_remembers hchain, fun f hf => ?_, ?_, ?_, ?_, ?_,
    fun _ _ => .init hwatched⟩
  · exact nomatch hnone.symm.trans hf
  all_goals rw [hsendings]
  · exact nofun
  · exact .nil
  · exact nofun
  · exact nofun

/-- A frame that is published shows a capture. -/
theorem Sound.shows (h : Sound crypto s) {f : VideoFrame}
    (hf : s.chain.display.host.frames = some f) : s.Shows f := by
  obtain ⟨v, hv, hsubmitted, htime⟩ := h.pictured.frames f hf
  obtain ⟨c, hcontent, hannounced, -, hmetadata⟩ := h.pictured.kept.visits v hv
  have hmetadata := hmetadata hsubmitted
  exact ⟨v, hv, c, hsubmitted, hcontent, hannounced,
    htime.symm.trans (congrArg Host.Slot.captureUs hmetadata)⟩

theorem Sound.chain (h : Sound crypto s) {m : Native.Chain.Move} (hm : s.chain.Regular m) :
    Sound crypto (s.step crypto (.chain m)) := by
  obtain ⟨hremembers, hadvances⟩ := Native.Chain.step_advances h.remembers hm
  refine ⟨h.pictured.step m hm.1, hremembers, fun f hf => ?_, fun x hx => ?_, h.increasing,
    h.prepared, fun x hx => ?_, h.watched⟩
  · rcases hadvances.frames f hf with hsame | ⟨hprepared, hlt, hle⟩
    · obtain ⟨hprepared, hle, hbehind⟩ := h.published f hsame
      refine ⟨hprepared, hle.trans hadvances.serial, fun hchanged => hbehind ?_⟩
      have hframes : (s.chain.step m).display.host.frames = s.chain.display.host.frames :=
        hf.trans hsame.symm
      simpa [step, hframes] using hchanged
    · exact ⟨hprepared, hle, fun _ x hx => UInt64.lt_iff_toNat_lt.2 ((h.counted x hx).trans_lt hlt)⟩
  · exact (h.counted x hx).trans hadvances.serial
  · obtain ⟨v, hv, hc⟩ := h.shown x hx
    exact ⟨v, hadvances.visits hv, hc⟩

theorem Sound.send (h : Sound crypto s) (session : Id16) (maxDatagramSize : Option ℕ)
    (now : UInt64) (clock : ℕ → UInt64) (outcome : ℕ → SendOutcome) :
    Sound crypto (s.step crypto (.send session maxDatagramSize now clock outcome)) := by
  unfold step
  dsimp only
  split
  · rename_i hchanged
    cases hframes : s.chain.display.host.frames with
    | none =>
      refine ⟨h.pictured, h.remembers, fun f hf => ?_, ?_, ?_, ?_, ?_, ?_⟩
      · exact nomatch hframes.symm.trans hf
      all_goals
        dsimp only [Option.map_none, Option.toList_none]
        rw [List.append_nil]
      · exact h.counted
      · exact h.increasing
      · exact h.prepared
      · exact h.shown
      · exact h.watched
    | some f =>
      obtain ⟨hprepared, hle, hbehind⟩ := h.published f hframes
      refine ⟨h.pictured, h.remembers, fun f' hf' => ?_, fun x hx => ?_, ?_, fun x hx => ?_,
        fun x hx => ?_, fun sendings hsub => h.watched sendings ?_⟩
      · obtain ⟨hprepared', hle', -⟩ := h.published f' hf'
        exact ⟨hprepared', hle', nofun⟩
      · rcases List.mem_append.1 hx with hx | hx
        · exact h.counted x hx
        · obtain rfl := List.mem_singleton.1 hx
          exact hle
      · refine List.pairwise_append.2 ⟨h.increasing, List.pairwise_singleton _ _, ?_⟩
        intro x hx x' hx'
        obtain rfl := List.mem_singleton.1 hx'
        exact hbehind hchanged x hx
      · rcases List.mem_append.1 hx with hx | hx
        · exact h.prepared x hx
        · obtain rfl := List.mem_singleton.1 hx
          exact hprepared
      · rcases List.mem_append.1 hx with hx | hx
        · exact h.shown x hx
        · obtain rfl := List.mem_singleton.1 hx
          exact h.shows hframes
      · exact List.Subset.trans (List.subset_append_left _ _) hsub
  · exact h

theorem Sound.step (h : Sound crypto s) {m : Move} (hm : Regular crypto s m) :
    Sound crypto (s.step crypto m) := by
  cases m with
  | chain m => exact h.chain hm
  | dismiss =>
    refine ⟨h.pictured, h.remembers, fun f hf => ?_, h.counted, h.increasing, h.prepared, h.shown,
      h.watched⟩
    obtain ⟨hprepared, hle, -⟩ := h.published f hf
    exact ⟨hprepared, hle, nofun⟩
  | send session maxDatagramSize now clock outcome => exact h.send _ _ _ _ _
  | client e =>
    refine ⟨h.pictured, h.remembers, h.published, h.counted, h.increasing, h.prepared, h.shown,
      fun sendings hsub => (h.watched sendings hsub).step ⟨hm.orderly, fun data hdata => ?_⟩⟩
    obtain ⟨x, hx, hmem⟩ := hm.sent data hdata
    exact ⟨x, hsub hx, hmem⟩

/-- **From the pixels to VideoToolbox.**  In every regular run of the driver, the pipeline thread
with its encoder, the session that sends, a network that loses, repeats and reorders, and the
iPad's session with its connections and failures: what VideoToolbox gets is a gapless chain of
references, and each frame of it is one that has been sent and shows pixels that the driver
had captured at the time the frame tells.  No worker fills a slot while a turn waits for it, the
transform puts out access units, and a session is announced before its video. -/
theorem pictures_decoded (h : Reaches (step crypto) Initial (Regular crypto) s) :
    Based s.watched.log ∧ ∀ job ∈ s.watched.log, ∃ x ∈ s.sendings,
      Carries x.frame job.frame ∧ s.Shows x.frame := by
  have hsound : Sound crypto s :=
    h.invariant (fun _ => Sound.init) fun _ _ h hm => h.step hm
  have hids : Increasing s.sendings := hsound.increasing.imp fun hlt _ _ => hlt
  have hreferenced := Watched.referenced hids hsound.prepared (hsound.watched _ (.refl _))
  refine ⟨hreferenced.based, fun job hjob => ?_⟩
  obtain ⟨x, hx, hcarries⟩ := hreferenced.sent job hjob
  exact ⟨x, hx, hcarries, hsound.shown x hx⟩

/-- The transform puts out a keyframe. -/
def sampleOutput : Native.Output :=
  { Native.Encoder.sampleOutput with data := some Watched.keyframeUnit }

def sampleKeyframe : Native.Answers :=
  { Native.Encoder.sampleAnnounce with processed := .sample sampleOutput }

/-- It does so for the pixels of `Chain.sampleOpened`. -/
def sampleChain : List Native.Chain.Move :=
  Native.Chain.sampleOpened ++ Native.Chain.sampleEncoded.dropLast ++
    [.prepare {} (Driver.Display.sampleKey 2) fun i => (if i = 0 then sampleKeyframe else {}, 20)]

/-- Its generation is configured in the session of `streamEvents`. -/
def samplePackets : List Ipad.Packet :=
  Ipad.SessionModel.streamPackets.dropLast ++
    [.new (⟨3, 1, 1280, 720, 60, 8, 1, []⟩ : VideoConfig) 5 (List.replicate 16 4)]

def sampleClient : List (Moment × Ipad.SessionModel.Event) :=
  Ipad.SessionModel.streamEvents.dropLast ++
    [({ now := 1000000 }, .received (.ok samplePackets))] ++
    (Watched.streamSending ⟨3, 1, 10, 20, 0, 1, Watched.keyframeUnit⟩).sendFrame.1.map fun data =>
      ({ now := 1010000 }, .datagram data)

def sampleMoves : List Move :=
  sampleChain.map .chain ++
    [.send Watched.streamToken (some 1200) 0 (fun _ => 0) fun _ => .sent] ++
      sampleClient.map .client

def sampleStart : VideoPath :=
  { chain := ⟨Driver.Display.sampleHost, {}⟩, watched := ⟨Ipad.SessionModel.streamSession, []⟩ }

/-- The frame goes all the way. -/
theorem pictures_decoded_sample :
    let s := sampleMoves.foldl (step .sample) sampleStart
    s.watched.log.length = 1 ∧ Based s.watched.log ∧
      ∀ job ∈ s.watched.log, ∃ x ∈ s.sendings, Carries x.frame job.frame ∧ s.Shows x.frame := by
  intro s
  have hinit : Initial sampleStart :=
    ⟨⟨⟨{}, false, 0, Id16.zero, rfl⟩, rfl⟩, rfl, Ipad.SessionModel.streamSession_initial, rfl⟩
  have hrun : Along (step .sample) (Regular .sample) sampleStart sampleMoves := by
    decide +kernel
  exact ⟨by decide +kernel, pictures_decoded ((Reaches.init hinit).along hrun)⟩

end VideoPath
end SidecarDOS
