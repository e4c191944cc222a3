/-
# What a turn leaves alone

The body of the thread's loop handles one command and goes on to stream.  Everything
behind the command's own branch leaves the handle of the driver, the monitor, the
session and the advertised modes alone, but for the end of a grace period; and
each command that touches them does one thing, which is said once here
(`connect_yields`, `mode_yields`, `disconnect_yields`).  `turn_keeps` is the rule by
which invariants of the display are proved.
-/

import SidecarDOS.Host.Pipeline

namespace SidecarDOS
namespace Host

open Library (Ends Within Yields exec ends_bind ends_get ends_modify ends_demand)

/-- The error of a refused `Connect`. -/
def reserved : Error := .ensure "display reserved for another device"

/-- What belongs to the display has not changed, nor has the bitrate. -/
structure Pipeline.Same (s s' : Pipeline) : Prop where
  stopped : s'.stopped = s.stopped
  driver : s'.driver = s.driver
  monitor : s'.monitor = s.monitor
  state : s'.state = s.state
  previousModes : s'.previousModes = s.previousModes
  bitrate : s'.bitrate = s.bitrate

instance : Std.Refl Pipeline.Same := ⟨fun _ => ⟨rfl, rfl, rfl, rfl, rfl, rfl⟩⟩

instance : IsTrans Pipeline Pipeline.Same :=
  ⟨fun _ _ _ h h' => ⟨h'.stopped.trans h.stopped, h'.driver.trans h.driver,
    h'.monitor.trans h.monitor, h'.state.trans h.state, h'.previousModes.trans h.previousModes,
    h'.bitrate.trans h.bitrate⟩⟩

theorem Pipeline.Same.of {s s' : Pipeline}
    (h : (s'.stopped, s'.driver, s'.monitor, s'.state, s'.previousModes, s'.bitrate) =
      (s.stopped, s.driver, s.monitor, s.state, s.previousModes, s.bitrate)) : Same s s' := by
  simp only [Prod.mk.injEq] at h
  obtain ⟨hstopped, hdriver, hmonitor, hstate, hmodes, hbitrate⟩ := h
  exact ⟨hstopped, hdriver, hmonitor, hstate, hmodes, hbitrate⟩

/-- The modes as the driver gets them. -/
def timings (modes : List DisplayMode) : List (UInt32 × UInt32 × UInt32) :=
  modes.map fun m => (m.width, m.height, m.fps)

/-- The checks of `Driver::start` and of `Device::arrive`. -/
def Accepted (modes : List DisplayMode) : Prop :=
  (modes ≠ [] ∧ modes.length ≤ 4) ∧ modes.all fitsDevice = true

/-- The modes with another frame rate. -/
def retimed (modes : List DisplayMode) (fps : UInt32) : List DisplayMode :=
  modes.map fun mode => { mode with fps := fps }

namespace Op

open Pipeline (Same)

variable {α : Type} {s : Pipeline} {t : Turn}

/-! ### The rest of the body -/

/-- A part of the body that leaves the display alone and does not fail like the check of
`Connect`. -/
abbrev Stays (m : Op α) (s : Pipeline) : Prop := Within Same (· ≠ reserved) m s

theorem Stays.call (ok : Bool) : Stays (call ok) s := .demand nofun

theorem reconcile_stays (t : Turn) : Stays (reconcile t) s := by
  unfold reconcile
  refine (Within.modify (.of (by split <;> rfl))).bind fun _ _ _ => ?_
  refine (Within.modify (.of (by split_ifs <;> rfl))).bind fun _ _ _ => ?_
  refine .get_bind (.ite (fun _ => ?_) fun _ => .pure _)
  split
  · dsimp only
    refine .ite (fun _ => (Stays.call _).bind fun _ _ _ => ?_) fun _ => ?_
    · exact .modify (.of rfl)
    · exact .modify (.of rfl)
  · exact .modify (.of rfl)

theorem openEncoder_within {E : Error → Prop} (hplatform : E .platform)
    (hfull : E (.ensure "pipeline control queue full")) (t : Turn) (status : Status) :
    Within Same E (openEncoder t status) s := by
  unfold openEncoder
  refine (Within.modify (.of rfl)).bind fun _ _ _ => .get_bind ?_
  refine .demand_bind hplatform fun _ => .demand_bind hplatform fun _ => ?_
  refine (Within.modify (.of rfl)).bind fun _ _ _ => .demand_bind hfull fun _ => ?_
  exact .modify (.of rfl)

theorem openEncoder_stays (t : Turn) (status : Status) : Stays (openEncoder t status) s :=
  openEncoder_within nofun (by decide) t status

/-- The encoder was opened for what the driver reports. -/
def Fits (settings : EncoderSettings) (status : Status) : Prop :=
  status.width = settings.width ∧ status.height = settings.height ∧
    clampFps status.fps = settings.fps

/-- The error of `reconfigure` for another geometry. -/
def recreation : Error := .ensure "resolution/fps change requires encoder recreation"

theorem adjust_within {E : Error → Prop} (hplatform : E .platform) (t : Turn) (status : Status)
    (settings : EncoderSettings) (hfits : ¬ Fits settings status → E recreation) :
    Within Same E (adjust t status settings) s := by
  have hrate (rate rate' : UInt32) (s' : Pipeline) :
      Within Same E (if rate ≠ rate' then do
        check (status.width = settings.width ∧ status.height = settings.height ∧
          clampFps status.fps = settings.fps) "resolution/fps change requires encoder recreation"
        call t.bitrate
        modify fun s' => { s' with
          encoder := some { settings with bitrate := rate }, encodeRate := rate }
        else Pure.pure () : Op Unit) s' := by
    refine .ite (fun _ => ?_) fun _ => .pure _
    by_cases h : Fits settings status
    · refine ends_bind.2 (ends_demand.2 ⟨fun _ => ?_, absurd h⟩)
      exact (Within.demand hplatform).bind fun _ _ _ => .modify (.of rfl)
    · exact .demand_bind (hfits h) fun _ => (Within.demand hplatform).bind fun _ _ _ =>
        .modify (.of rfl)
  unfold adjust
  refine .get_bind (.ite (fun _ => ?_) fun _ => hrate _ _ _)
  refine (Within.modify (.of rfl)).bind fun _ _ _ => (Within.demand hplatform).bind fun _ s' _ => ?_
  exact hrate _ _ s'

theorem adjust_stays (t : Turn) (status : Status) (settings : EncoderSettings) :
    Stays (adjust t status settings) s :=
  adjust_within nofun t status settings fun _ => by decide

theorem poll_within {E : Error → Prop} (hplatform : E .platform) (t : Turn) (n i : ℕ) :
    Within Same E (poll t n i) s := by
  induction n generalizing i s with
  | zero => exact .pure _
  | succ n ih =>
    unfold poll
    split
    · exact .throw hplatform
    · exact .pure _
    · exact (Within.modify (.of rfl)).bind fun _ _ _ => ih (i + 1)

theorem poll_stays (t : Turn) (n i : ℕ) : Stays (poll t n i) s := poll_within nofun t n i

theorem submit_stays (t : Turn) (slots : Fin 3 → Slot) (newest : Option (Fin 3)) (i : Fin 3) :
    Stays (submit t slots newest i) s := by
  unfold submit
  refine .get_bind (.ite (fun _ => ?_) fun _ => .pure _)
  dsimp only
  split
  · exact .throw (by decide)
  · exact .modify (.of rfl)
  · exact .pure _

theorem stream_stays (t : Turn) : Stays (stream t) s := by
  unfold stream
  refine .get_bind (.demand_bind (by decide) fun _ => ?_)
  split
  · exact .throw (by decide)
  rename_i status _
  refine .ite (fun _ => .demand (by decide)) fun _ => ?_
  refine .ite (fun _ => (openEncoder_stays t status).bind fun _ s₁ _ => .get_bind ?_)
    fun _ => .get_bind ?_
  all_goals
    split
    · exact .throw (by decide)
    · refine (adjust_stays t status _).bind fun _ _ _ => (poll_stays t 4 0).bind fun _ _ _ => ?_
      exact .get_bind (.forM (fun _ _ => submit_stays t _ _ _) _)

/-! ### The commands -/

theorem start_yields (device : Id16) (modes : List DisplayMode) :
    Yields (start t device modes) s fun _ s' => (s.driver = true ∧ Accepted modes) ∧
      s' = { s with monitor := some ⟨device, timings modes⟩ } := by
  unfold start
  refine .get_bind (.demand_bind fun hdriver => .demand_bind fun hcount => .modify_bind ?_)
  refine .demand fun harrived => ?_
  unfold arrive at harrived ⊢
  split_ifs at harrived ⊢ with hn harrives
  exact ⟨⟨hdriver, hcount, hn.2⟩, rfl⟩

/-- With an open handle and an adapter that works, the modes decide. -/
theorem start_iff {device : Id16} {modes : List DisplayMode} (hdriver : s.driver = true)
    (hready : t.ready = true) (harrives : t.arrives = true) :
    (exec (start t device modes) s).1 = .ok () ↔ Accepted modes := by
  constructor
  · intro hok
    exact ((start_yields device modes).of_exec (Prod.ext hok rfl)).1.2
  · rintro ⟨hcount, hall⟩
    have hstart : Ends (start t device modes) s fun r _ => r = .ok () := by
      unfold start
      refine ends_bind.2 (ends_get.2 (ends_bind.2 (ends_demand.2 ⟨fun _ => ?_, absurd hdriver⟩)))
      refine ends_bind.2 (ends_demand.2 ⟨fun _ => ?_, absurd hcount⟩)
      have harrive : (arrive t s.monitor device modes).2 = true := by
        unfold arrive
        rw [if_neg (not_not.2 ⟨hready, hall⟩), if_pos harrives]
      exact ends_bind.2 (ends_modify.2 (ends_demand.2 ⟨fun _ => rfl, absurd harrive⟩))
    exact hstart

theorem stop_yields : Yields (stop t) s fun _ s' =>
    s'.stopped = s.stopped ∧ s'.state = s.state ∧ s'.previousModes = s.previousModes := by
  unfold stop
  refine .get_bind (.ite (fun _ => .demand_bind fun _ => ?_) fun _ => .pure ⟨rfl, rfl, rfl⟩)
  exact .modify ⟨rfl, rfl, rfl⟩

/-- What a `Connect` leaves behind: the driver has taken the modes, or had them already. -/
structure Connects (device : Id16) (modes : List DisplayMode) (s s' : Pipeline) : Prop where
  state : s'.state = .streaming device
  previousModes : s'.previousModes = modes
  monitor : (Accepted modes ∧ s'.monitor = some ⟨device, timings modes⟩) ∨
    ((∃ deadline, s.state = .grace device deadline) ∧ modes = s.previousModes ∧
      s'.monitor = s.monitor)

theorem connect_yields (device : Id16) (modes : List DisplayMode) :
    Yields (connect t device modes) s fun _ s' => Connects device modes s s' := by
  have hadopt (replaceMonitor : Bool) (s₁ : Pipeline) :
      Yields (adopt t device modes replaceMonitor) s₁ fun _ s' =>
        s'.state = .streaming device ∧ s'.previousModes = modes ∧ s'.monitor = s₁.monitor := by
    unfold adopt
    split
    · exact .throw
    · exact .modify ⟨rfl, rfl, rfl⟩
  have hopen : Yields (openDriver t) s fun _ s' => s'.monitor = s.monitor := by
    unfold openDriver
    refine .get_bind (.ite (fun _ => .demand_bind fun _ => .modify rfl) fun _ => .pure rfl)
  unfold connect
  refine .get_bind (.demand_bind fun haccepts => hopen.bind fun _ s₁ hs₁ => ?_)
  dsimp only
  refine .ite (fun _ => ?_) fun hreplace => ?_
  · refine (start_yields device modes).bind fun _ s₂ hs₂ => ?_
    obtain ⟨⟨-, haccepted⟩, rfl⟩ := hs₂
    refine (hadopt _ _).mono fun _ s' hs' => ?_
    obtain ⟨hstate, hmodes, hmonitor⟩ := hs'
    exact ⟨hstate, hmodes, .inl ⟨haccepted, hmonitor⟩⟩
  · refine (hadopt _ _).mono fun _ s' hs' => ?_
    obtain ⟨hstate, hmodes, hmonitor⟩ := hs'
    have hkept : s.state ≠ .idle ∧ modes = s.previousModes := by
      simpa using hreplace
    refine ⟨hstate, hmodes, .inr ⟨?_, hkept.2, hmonitor.trans hs₁⟩⟩
    cases hs : s.state with
    | idle => exact absurd hs hkept.1
    | streaming d =>
      rw [hs] at haccepts
      exact absurd haccepts Bool.false_ne_true
    | grace d deadline =>
      rw [hs] at haccepts
      have hd : d = device := by simpa [SessionState.accepts] using haccepts
      exact ⟨deadline, by rw [hd]⟩

/-- The checks of `Command::Mode`. -/
def Requests (s : Pipeline) (m : DisplayModeChange) : Prop :=
  (320 ≤ m.width ∧ m.width ≤ 4094 ∧ 320 ≤ m.height ∧ m.height ≤ 4094 ∧ m.width % 2 = 0 ∧
    m.height % 2 = 0 ∧ 30 ≤ m.fps ∧ m.fps ≤ 60) ∧
    (s.previousModes.any fun mode => mode.width = m.width ∧ mode.height = m.height) = true

/-- A mode change asks for another frame rate. -/
def Retimes (s : Pipeline) (m : DisplayModeChange) : Prop :=
  (s.previousModes.any fun mode => mode.fps ≠ m.fps) = true

instance (s : Pipeline) (m : DisplayModeChange) : Decidable (Retimes s m) :=
  inferInstanceAs (Decidable (_ = true))

/-- What a `Mode` leaves behind. -/
structure Modes (m : DisplayModeChange) (s s' : Pipeline) : Prop where
  requests : Requests s m
  state : s'.state = s.state
  kept : ¬ Retimes s m → s'.previousModes = s.previousModes ∧ s'.monitor = s.monitor
  retimed : Retimes s m → s'.previousModes = retimed s.previousModes m.fps
  streaming : Retimes s m → ∀ device, s.state = .streaming device →
    Accepted s'.previousModes ∧ s'.monitor = some ⟨device, timings s'.previousModes⟩
  grace : Retimes s m → (∀ device, s.state ≠ .streaming device) → s'.monitor = s.monitor

theorem mode_yields (m : DisplayModeChange) :
    Yields (mode t m) s fun _ s' => Modes m s s' := by
  unfold mode
  refine .demand_bind fun hrange => .get_bind (.demand_bind fun hadvertised => ?_)
  dsimp only
  refine .ite (fun hretimes => .modify_bind ?_) fun hkept => ?_
  · cases hs : s.state with
    | streaming device =>
      refine (start_yields device _).bind fun _ s₂ hs₂ => .modify_bind (.modify ?_)
      obtain ⟨⟨-, haccepted⟩, rfl⟩ := hs₂
      refine ⟨⟨hrange, hadvertised⟩, hs.symm, absurd hretimes, fun _ => rfl, ?_, ?_⟩
      · rintro - d hd
        cases hs.symm.trans hd
        exact ⟨haccepted, rfl⟩
      · exact fun _ hn => absurd hs (hn device)
    | idle =>
      refine .modify_bind (.modify ?_)
      refine ⟨⟨hrange, hadvertised⟩, hs.symm, absurd hretimes, fun _ => rfl, ?_, fun _ _ => rfl⟩
      exact fun _ d hd => nomatch hs.symm.trans hd
    | grace device deadline =>
      refine .modify_bind (.modify ?_)
      refine ⟨⟨hrange, hadvertised⟩, hs.symm, absurd hretimes, fun _ => rfl, ?_, fun _ _ => rfl⟩
      exact fun _ d hd => nomatch hs.symm.trans hd
  · exact .modify ⟨⟨hrange, hadvertised⟩, rfl, fun _ => ⟨rfl, rfl⟩, fun h => absurd h hkept,
      fun h => absurd h hkept, fun h => absurd h hkept⟩

theorem disconnect_yields (immediate : Bool) : Yields (disconnect t immediate) s fun _ s' =>
    s'.state = .idle ∨
      (s'.state = s.state.disconnect t.now (s.cfg.reconnectGraceMs * 1000) ∧
        s'.monitor = s.monitor ∧ s'.previousModes = s.previousModes) := by
  unfold disconnect
  refine .modify_bind (.ite (fun _ => ?_) fun _ => .modify (.inr ⟨rfl, rfl, rfl⟩))
  exact stop_yields.bind fun _ _ _ => .modify (.inl rfl)

theorem expire_yields : Yields (expire t) s fun _ s' =>
    s'.state = .idle ∨ (s' = s ∧ s.state.expired t.now = false) := by
  unfold expire
  refine .get_bind (.ite (fun _ => ?_) fun hn => .pure (.inr ⟨rfl, Bool.eq_false_iff.2 hn⟩))
  exact stop_yields.bind fun _ _ _ => .modify (.inl rfl)

/-- Behind the command, the display stays as it is or the session is over. -/
theorem operation_yields {I : Pipeline → Prop} {cmd : Option Command}
    (hidle : ∀ s, s.state = .idle → I s) (hsame : ∀ s s', Same s s' → I s → I s')
    (h : Yields (handle t cmd) s fun _ s' => s'.state.expired t.now = false → I s') :
    Yields (operation t cmd) s fun go s' => go = true → I s' := by
  unfold operation
  refine h.bind fun go s₁ hs₁ => .ite (fun _ => .pure nofun) fun _ => ?_
  refine expire_yields.bind fun _ s₂ hs₂ => .get_bind ?_
  have hs₂ : I s₂ := by
    rcases hs₂ with hs₂ | ⟨rfl, hexpired⟩
    · exact hidle _ hs₂
    · exact hs₁ hexpired
  refine .ite (fun _ => ?_) fun _ => .pure fun _ => hs₂
  refine (Yields.of_within (reconcile_stays t)).bind fun _ s₃ hs₃ => ?_
  refine (Yields.of_within (stream_stays t)).bind fun _ s₄ hs₄ => .pure fun _ => ?_
  exact hsame _ _ hs₄ (hsame _ _ hs₃ hs₂)

end Op

/-- An invariant of the display that an idle thread has, and that the command keeps unless
it leaves a grace period that is over, is kept by the whole turn. -/
theorem Pipeline.turn_keeps {I : Pipeline → Prop} {s : Pipeline} {t : Turn} {cmd : Option Command}
    (hidle : ∀ s, s.state = .idle → I s) (hsame : ∀ s s', Same s s' → I s → I s')
    (h : Yields (Op.handle t cmd) s fun _ s' => s'.state.expired t.now = false → I s')
    (hrunning : (s.turn t cmd).stopped = false) : I (s.turn t cmd) := by
  have hyields := Op.operation_yields hidle hsame h
  unfold turn at hrunning ⊢
  rcases hexec : exec (Op.operation t cmd) s with ⟨e | _ | _, s'⟩
  · exact hidle _ rfl
  · rw [hexec] at hrunning
    exact absurd hrunning Bool.noConfusion
  · exact hyields.of_exec hexec rfl

end Host
end SidecarDOS
