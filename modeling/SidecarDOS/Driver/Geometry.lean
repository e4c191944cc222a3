/-
# A generation identifies the geometry

Every section of the driver that changes width, height or adapter begins a generation, and so
does a commit that changes the frame rate.  The frame rate of a `START` is set in a
section that does not, but the request holds `requests` since its `depart` began one, so no
answer has told of it (`Told.retimed`).  The host opens an encoder for every
generation it is told of, so `reconfigure` finds the geometry it was opened for.
-/

import SidecarDOS.Driver.Effects
import SidecarDOS.Driver.Display
import SidecarDOS.Library.Runs

namespace SidecarDOS
namespace Driver

open Library (Reaches exec)
open SidecarDOS.Host (Pipeline Turn Op)

/-- Two reports of the driver agree on the geometry. -/
structure Status.Agrees (a b : Status) : Prop where
  width : a.width = b.width
  height : a.height = b.height
  fps : a.fps = b.fps
  luid : a.luid = b.luid

theorem Status.Agrees.symm {a b : Status} (h : a.Agrees b) : b.Agrees a :=
  ⟨h.width.symm, h.height.symm, h.fps.symm, h.luid.symm⟩

theorem Status.Agrees.trans {a b c : Status} (h : a.Agrees b) (h' : b.Agrees c) : a.Agrees c :=
  ⟨h.width.trans h'.width, h.height.trans h'.height, h.fps.trans h'.fps, h.luid.trans h'.luid⟩

/-! ### The answers of the driver -/

/-- What the answers so far have told of the generations. -/
structure Told (s : State) : Prop where
  le : ∀ r ∈ s.replies, r.generation ≤ s.device.status.generation
  current : ∀ r ∈ s.replies, r.generation = s.device.status.generation → r.Agrees s.device.status
  retimed : ∀ fps, s.request = some (.retime fps) →
    ∀ r ∈ s.replies, r.generation < s.device.status.generation
  replies : ∀ r ∈ s.replies, ∀ r' ∈ s.replies, r.generation = r'.generation → r.Agrees r'

namespace Told

variable {s s' : State}

theorem init : Told {} := ⟨nofun, nofun, nofun, nofun⟩

/-- The generation and the geometry are the same, or the generation is another one. -/
theorem keep (h : Told s) (hreplies : s'.replies = s.replies)
    (hstatus : s.device.status.generation < s'.device.status.generation ∨
      s'.device.status.generation = s.device.status.generation ∧
        s.device.status.Agrees s'.device.status ∧
          ∀ fps, s'.request = some (.retime fps) → s.request = some (.retime fps)) :
    Told s' := by
  rcases hstatus with hlt | ⟨heq, hagrees, hrequest⟩
  · have hbefore : ∀ r ∈ s'.replies, r.generation < s'.device.status.generation := by
      intro r hr
      rw [hreplies] at hr
      have hle := h.le r hr
      omega
    refine ⟨fun r hr => (hbefore r hr).le, fun r hr hr' => ?_, fun _ _ => hbefore, ?_⟩
    · have hlt := hbefore r hr
      omega
    · rw [hreplies]
      exact h.replies
  · constructor
    · rw [hreplies, heq]
      exact h.le
    · intro r hr hgeneration
      rw [hreplies] at hr
      rw [heq] at hgeneration
      exact (h.current r hr hgeneration).trans hagrees
    · intro fps hfps r hr
      rw [hreplies] at hr
      rw [heq]
      exact h.retimed fps (hrequest fps hfps) r hr
    · rw [hreplies]
      exact h.replies

theorem effect {e : Event} (h : Told s) (heffect : Effect e s s') : Told s' := by
  have hsame (status : Status) : status.Agrees status := ⟨rfl, rfl, rfl, rfl⟩
  have hresize (luid : Luid) (width height : UInt32) :
      s.device.status.generation < (s.device.resize luid width height).status.generation ∨
        (s.device.resize luid width height).status.generation = s.device.status.generation ∧
          s.device.status.Agrees (s.device.resize luid width height).status ∧
            ∀ fps, s.request = some (.retime fps) → s.request = some (.retime fps) := by
    unfold Device.resize
    split
    · exact .inl (Nat.lt_succ_self _)
    · exact .inr ⟨rfl, hsame _, fun _ hfps => hfps⟩
  cases heffect with
  | quiet hquiet hrequest =>
    refine h.keep hquiet.replies (.inr ⟨?_, ?_, hrequest⟩)
    · rw [hquiet.status]
    · rw [hquiet.status]
      exact hsame _
  | bump hbump => exact h.keep hbump.replies (.inl hbump.generation)
  | retime fps hrequest _ heq =>
    -- No answer has told of this generation.
    subst heq
    have hbefore := h.retimed fps hrequest
    refine ⟨h.le, fun r hr hgeneration => ?_, nofun, h.replies⟩
    exact absurd hgeneration (hbefore r hr).ne
  | reply hrequest _ heq =>
    subst heq
    have hmem {r : Status} (hr : r ∈ s.replies ++ [s.device.status]) :
        r ∈ s.replies ∨ r = s.device.status := by
      rcases List.mem_append.1 hr with hr | hr
      · exact .inl hr
      · exact .inr (List.mem_singleton.1 hr)
    refine ⟨fun r hr => ?_, fun r hr hgeneration => ?_, fun fps hfps => ?_,
      fun r hr r' hr' heq => ?_⟩
    · rcases hmem hr with hr | rfl
      · exact h.le r hr
      · exact le_rfl
    · rcases hmem hr with hr | rfl
      · exact h.current r hr hgeneration
      · exact hsame _
    · exact nomatch hrequest.symm.trans hfps
    · rcases hmem hr with hr | rfl <;> rcases hmem hr' with hr' | rfl
      · exact h.replies r hr r' hr' heq
      · exact h.current r hr heq
      · exact (h.current r' hr' heq.symm).symm
      · exact hsame _
  | register r d _ _ _ hregister heq =>
    subst heq
    obtain ⟨-, rfl⟩ := Device.register_eq_some hregister
    exact h.keep rfl (.inr ⟨rfl, hsame _, fun _ hfps => hfps⟩)
  | look i w p _ _ heq =>
    subst heq
    exact h.keep rfl (hresize w.luid p.width p.height)
  | copy i w p j name c _ _ _ _ _ heq =>
    subst heq
    exact h.keep rfl (hresize w.luid p.width p.height)
  | publish i c _ heq =>
    subst heq
    exact h.keep rfl (.inr ⟨rfl, ⟨rfl, rfl, rfl, rfl⟩, fun _ hfps => hfps⟩)

theorem step (h : Told s) (e : Event) : Told (s.step e) := h.effect (s.step_effect e)

/-- The textures have nothing to do with it. -/
theorem textures (h : Told s) (textures : SurfaceName → Option Texture) :
    Told { s with textures := textures } :=
  h.keep rfl (.inr ⟨rfl, ⟨rfl, rfl, rfl, rfl⟩, fun _ hfps => hfps⟩)

end Told

/-- No answer is taken back. -/
theorem Effect.mem_replies {e : Event} {s s' : State} (h : Effect e s s') {r : Status}
    (hr : r ∈ s.replies) :
    r ∈ s'.replies := by
  cases h with
  | quiet hquiet _ => exact hquiet.replies ▸ hr
  | bump hbump => exact hbump.replies ▸ hr
  | retime fps _ _ heq => exact heq ▸ hr
  | reply _ _ heq => exact heq ▸ List.mem_append_left _ hr
  | register r d _ _ _ _ heq => exact heq ▸ hr
  | look i w p _ _ heq => exact heq ▸ hr
  | copy i w p j name c _ _ _ _ _ heq => exact heq ▸ hr
  | publish i c _ heq => exact heq ▸ hr

/-! ### The encoder of the host -/

namespace Display

/-- The thread starts beside a driver that starts. -/
def Init (s : Display) : Prop :=
  ∃ config displayChanged now key,
    s = { host := Pipeline.spawn config displayChanged now, key := key }

/-- The counter of 32 bits does not wrap. -/
def Unwrapped (s : Display) (m : Move) : Prop :=
  (s.step m).driver.device.status.generation < 2 ^ 32

instance (s : Display) (m : Move) : Decidable (Unwrapped s m) :=
  inferInstanceAs (Decidable (_ < _))

/-- The encoder was opened for the geometry of the generation that the host knows. -/
structure Fitting (s : Display) : Prop where
  told : Told s.driver
  encoder : ∀ e, s.host.encoder = some e →
    ∃ r ∈ s.driver.replies, s.host.generation = r.host.generation ∧ Op.Fits e r.host
  read : ∀ status, s.phase = .read status → status ∈ s.driver.replies
  unwrapped : s.driver.device.status.generation < 2 ^ 32

variable {s : Display}

theorem host_generation {r r' : Status} (hr : r.generation < 2 ^ 32) (hr' : r'.generation < 2 ^ 32)
    (h : r.host.generation = r'.host.generation) : r.generation = r'.generation := by
  have hnat := congrArg UInt32.toNat h
  unfold Status.host at hnat
  dsimp only at hnat
  rw [UInt32.toNat_ofNat_of_lt' hr, UInt32.toNat_ofNat_of_lt' hr'] at hnat
  exact hnat

/-- What the encoder was opened for is what the driver reports of its generation. -/
theorem Fitting.fits (h : Fitting s) {status : Status} (hstatus : status ∈ s.driver.replies)
    (e : Host.EncoderSettings) (he : s.host.encoder = some e)
    (hgeneration : s.host.generation = status.host.generation) : Op.Fits e status.host := by
  obtain ⟨r, hr, hr', hfits⟩ := h.encoder e he
  have heq := host_generation ((h.told.le r hr).trans_lt h.unwrapped)
    ((h.told.le status hstatus).trans_lt h.unwrapped) (hr'.symm.trans hgeneration)
  obtain ⟨hwidth, hheight, hfps, -⟩ := h.told.replies r hr status hstatus heq
  obtain ⟨hwidth', hheight', hfps'⟩ := hfits
  refine ⟨hwidth.symm.trans hwidth', hheight.symm.trans hheight', ?_⟩
  rw [← hfps']
  exact congrArg Op.clampFps hfps.symm

/-- A step that goes on with the encoder, or without one. -/
theorem Fitting.held (h : Fitting s) {s' : Display} (htold : Told s'.driver)
    (hreplies : ∀ r ∈ s.driver.replies, r ∈ s'.driver.replies)
    (hheld : s'.host.encoder = none ∨
      s'.host.encoder = s.host.encoder ∧ s'.host.generation = s.host.generation)
    (hread : ∀ status, s'.phase = .read status → status ∈ s'.driver.replies)
    (hunwrapped : s'.driver.device.status.generation < 2 ^ 32) : Fitting s' := by
  refine ⟨htold, fun e he => ?_, hread, hunwrapped⟩
  rcases hheld with hnone | ⟨hencoder, hgeneration⟩
  · exact nomatch hnone.symm.trans he
  · obtain ⟨r, hr, hr', hfits⟩ := h.encoder e (hencoder.symm.trans he)
    exact ⟨r, hreplies r hr, hgeneration.trans hr', hfits⟩

theorem Fitting.approach (h : Fitting s) (t : Turn) (cmd : Option Host.Command)
    (hphase : s.phase = .idle) : Fitting (s.approach t cmd) := by
  have hkeep {host : Pipeline} (phase : Phase) (hheld : Op.Retained s.host host)
      (hread : ∀ status, phase ≠ .read status) :
      Fitting { s with host := host, phase := phase } :=
    h.held h.told (fun _ hr => hr) (hheld.imp id fun hsame => ⟨hsame.1, hsame.2.1⟩)
      (fun status heq => absurd heq (hread status)) h.unwrapped
  have hidle (status : Status) : s.phase ≠ .read status := by
    rw [hphase]
    exact nofun
  have hretains := Op.approach_retains (s := s.host) t cmd
  unfold Display.approach
  rcases hexec : exec (Op.approach t cmd) s.host with ⟨e | _ | _ | _, host⟩
  · exact hkeep .idle (.inl rfl) nofun
  · exact hkeep .asks (hretains.of_exec hexec).2 nofun
  · exact hkeep s.phase (.inl rfl) hidle
  · exact hkeep s.phase (hretains.of_exec hexec).2 hidle

/-- Behind `prepare` the encoder fits the answer that it has been given. -/
theorem Fitting.prepared (h : Fitting s) (t : Turn) {status : Status}
    (hstatus : status ∈ s.driver.replies) : Fitting (s.prepared t status) := by
  have hyields := Op.prepare_yields t status.host s.host
  unfold Display.prepared
  rcases hexec : exec (Op.prepare t status.host) s.host with ⟨e | _ | best, host⟩
  · exact h.held h.told (fun _ hr => hr) (.inl rfl) nofun h.unwrapped
  · obtain ⟨-, rfl⟩ := hyields.of_exec hexec
    exact h.held h.told (fun _ hr => hr) (.inr ⟨rfl, rfl⟩) nofun h.unwrapped
  · have hprepared : Op.Prepared t status.host s.host host best := hyields.of_exec hexec
    refine ⟨h.told, fun e he => ⟨status, hstatus, hprepared.generation, ?_⟩, nofun, h.unwrapped⟩
    by_cases hopens : Op.Opens s.host status.host
    · obtain ⟨-, -, e', he', hfits⟩ := hprepared.opened hopens
      cases he'.symm.trans he
      exact hfits
    · obtain ⟨-, e₀, e', he₀, he', hfits⟩ := hprepared.kept hopens
      cases he'.symm.trans he
      exact hfits (h.fits hstatus e₀ he₀ (not_not.1 (not_or.1 hopens).2))

theorem Fitting.prepare (h : Fitting s) (t : Turn) (key : Id16) {status : Status}
    (hphase : s.phase = .read status) : Fitting (s.prepare t key status) := by
  have hstatus := h.read status hphase
  unfold Display.prepare
  split_ifs
  · rcases hsurfaces : (s.driver.create key status.width status.height).surfaces
        ⟨1, status.host.generation.toNat, .surface key⟩ with _ | ⟨ok, driver⟩
    · exact h
    · have heffect := State.surfaces_effect hsurfaces
      have hmem {r : Status} (hr : r ∈ s.driver.replies) : r ∈ driver.replies :=
        heffect.mem_replies hr
      have hdriver : Fitting { s with driver := driver, key := key } := by
        refine h.held ((h.told.textures _).effect heffect) (fun _ => hmem) (.inr ⟨rfl, rfl⟩)
          ?_ ?_
        · intro status' hstatus'
          cases hphase.symm.trans hstatus'
          exact hmem hstatus
        · show driver.device.status.generation < 2 ^ 32
          rw [State.surfaces_status hsurfaces]
          exact h.unwrapped
      exact hdriver.prepared _ (hmem hstatus)
  · exact h.prepared t hstatus

theorem Fitting.visit (h : Fitting s) (g : Gpu) (status : Status) (best : Option (Fin 3))
    (i : Fin 3) (rest : List (Fin 3)) : Fitting (s.visit g status best i rest) := by
  unfold Display.visit
  dsimp only
  generalize ht : ({ encodes := fun _ metadata => (g.input (s.texture i) metadata).1.encoded } :
    Turn) = t
  have hyields := Op.submit_yields (s := s.host) t status.host.slots best i
  rcases hexec : exec (Op.submit t status.host.slots best i) s.host with ⟨e | ⟨⟩, host⟩
  · exact h.held (h.told.textures _) (fun _ hr => hr) (.inl rfl) nofun h.unwrapped
  · have hhost := hyields.of_exec hexec
    have hencoder : host.encoder = s.host.encoder ∧ host.generation = s.host.generation := by
      rw [hhost]
      split_ifs <;> exact ⟨rfl, rfl⟩
    dsimp only
    split
    · exact h.held (h.told.textures _) (fun _ hr => hr) (.inr hencoder) nofun h.unwrapped
    · exact h.held h.told (fun _ hr => hr) (.inr hencoder) nofun h.unwrapped

/-- A step of the driver alone. -/
theorem Fitting.driver (h : Fitting s) (e : Event) {phase : Phase}
    (hphase : ∀ status, phase = .read status → status ∈ (s.driver.step e).replies)
    (hunwrapped : (s.driver.step e).device.status.generation < 2 ^ 32) :
    Fitting { s with driver := s.driver.step e, phase := phase } :=
  h.held (h.told.step e) (fun _ => (s.driver.step_effect e).mem_replies) (.inr ⟨rfl, rfl⟩) hphase
    hunwrapped

theorem Fitting.step (h : Fitting s) (m : Move) (hunwrapped : Unwrapped s m) :
    Fitting (s.step m) := by
  have hshared {host : Pipeline} (hencoder : host.encoder = s.host.encoder)
      (hgeneration : host.generation = s.host.generation) : Fitting { s with host := host } :=
    h.held h.told (fun _ hr => hr) (.inr ⟨hencoder, hgeneration⟩) h.read h.unwrapped
  cases m with
  | driver e =>
    exact h.driver e (fun status hphase => (s.driver.step_effect e).mem_replies (h.read status hphase))
      hunwrapped
  | keyframe => exact hshared rfl rfl
  | bitrate rate => exact hshared rfl rfl
  | displayChanged => exact hshared rfl rfl
  | event => exact hshared rfl rfl
  | turn t cmd =>
    unfold Display.step
    dsimp only
    split
    · rename_i hphase
      split
      · exact h
      · exact h.approach t cmd hphase
    · exact h
  | ask ok =>
    unfold Display.step
    dsimp only
    split
    · split
      · cases hstatus : s.driver.status with
        | none => exact h
        | some status =>
          have hstep : s.driver.step .status =
              { s.driver with replies := s.driver.replies ++ [status] } := by
            dsimp only [State.step]
            rw [hstatus]
          refine h.driver .status (fun status' hphase => ?_) ?_
          · cases hphase
            rw [hstep]
            exact List.mem_append_right _ List.mem_cons_self
          · rw [hstep]
            exact h.unwrapped
      · exact h.held h.told (fun _ hr => hr) (.inl rfl) nofun h.unwrapped
    · exact h
  | prepare t key =>
    unfold Display.step
    dsimp only
    split
    · rename_i status hphase
      exact h.prepare t key hphase
    · exact h
  | visit g =>
    unfold Display.step
    dsimp only
    split
    · exact h.visit g _ _ _ _
    · exact h.held h.told (fun _ hr => hr) (.inr ⟨rfl, rfl⟩) nofun h.unwrapped
    · exact h

theorem Fitting.init (h : Init s) : Fitting s := by
  obtain ⟨config, displayChanged, now, key, rfl⟩ := h
  refine ⟨.init, nofun, nofun, ?_⟩
  show 0 < 2 ^ 32
  decide

/-- **A generation identifies the geometry.**  In every run of requests, callbacks, workers and
the host in which the counter of generations does not wrap, any two answers to `STATUS` of one
generation agree on width, height, frame rate and adapter; and whichever of them a
turn of the host goes on with, `reconfigure` does not refuse it. -/
theorem generation_identifies (h : Reaches Display.step Init Unwrapped s) :
    (∀ r ∈ s.driver.replies, ∀ r' ∈ s.driver.replies, r.generation = r'.generation →
      r.width = r'.width ∧ r.height = r'.height ∧ r.fps = r'.fps ∧ r.luid = r'.luid) ∧
    ∀ status, s.phase = .read status → ∀ t : Turn,
      (exec (Op.prepare t status.host) s.host).1 ≠ .error Op.recreation := by
  have hfitting : Fitting s := h.invariant (fun _ => .init) fun _ m h => h.step m
  constructor
  · intro r hr r' hr' heq
    obtain ⟨hwidth, hheight, hfps, hluid⟩ := hfitting.told.replies r hr r' hr' heq
    exact ⟨hwidth, hheight, hfps, hluid⟩
  · intro status hphase t herror
    have hwithin := Op.prepare_reconfigures t status.host fun e he hgeneration =>
      hfitting.fits (hfitting.read status hphase) e he hgeneration
    exact hwithin.out.1 _ herror rfl

def sampleMode : DisplayMode := ⟨1920, 1080, 60, 100⟩

def sampleHost : Display := { host := Pipeline.spawn {} false 0 }

/-- A monitor arrives and gets a swap chain, and its worker captures a first frame. -/
def sampleArrival : List Event :=
  [.enterD0 true, .adapterReady true, .start 1 [sampleMode]] ++
    List.replicate 7 (.advance { monitor := some 7 }) ++ [.assign 7 {}] ++
    List.replicate 4 (.call 0 {}) ++ [.pass 0 { width := 1920, height := 1080, captureUs := 5 }]

/-- A turn connects and asks for the status. -/
def sampleAsk : List Move :=
  [.turn { reconciled := some (⟨0, 0, 1920, 1080⟩, true) }
    (some (.connect Id16.zero [sampleMode])), .ask true]

def sampleAsked : Display := (sampleArrival.map Move.driver ++ sampleAsk).foldl step sampleHost

theorem sampleAsked_reaches : Reaches step Init Unwrapped sampleAsked :=
  (Reaches.init ⟨{}, false, 0, Id16.zero, rfl⟩).along (by decide)

/-- The turn opens an encoder; a commit changes the frame rate, and the next turn opens another
one; the bitrate changes, and the turn behind that asks for the status. -/
def sampleCommit : List Move :=
  .prepare {} (.zero) :: List.replicate 4 (.visit {}) ++
    [.driver (.commit [⟨some 7, 30, 1⟩]), .turn {} none, .ask true, .prepare {} .zero] ++
      List.replicate 4 (.visit {}) ++ [.bitrate 6000000, .turn {} none, .ask true]

def sampleCommitted : Display := sampleCommit.foldl step sampleAsked

theorem sampleCommitted_reaches : Reaches step Init Unwrapped sampleCommitted :=
  sampleAsked_reaches.along (by decide +kernel)

/-- The generation changes between two answers, and the encoder of the second one is
reconfigured. -/
theorem generation_identifies_sample :
    sampleCommitted.driver.replies.map (fun r => (r.generation, r.fps)) =
      [(3, 60), (4, 30), (4, 30)] ∧
    (sampleCommitted.host.generation = 4 ∧
      sampleCommitted.host.encodeRate ≠ sampleCommitted.host.bitrate) ∧
    ∃ status, sampleCommitted.phase = .read status ∧ status.generation = 4 ∧ ∀ t : Turn,
      (exec (Op.prepare t status.host) sampleCommitted.host).1 ≠ .error Op.recreation :=
  ⟨by decide +kernel, by decide +kernel, _, rfl, by decide +kernel,
    (generation_identifies sampleCommitted_reaches).2 _ rfl⟩

end Display

end Driver
end SidecarDOS
