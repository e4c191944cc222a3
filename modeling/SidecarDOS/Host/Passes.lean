/-
# A turn in steps

Between `d.status()`, `d.surfaces(..)` and the calls of `encode` the driver goes on.  A turn
of the thread is `approach` up to `d.status()`, `prepare` from its answer to the loop over
the slots, and one `submit` for each slot (`operation_eq`).  What the first part leaves
of the encoder is said by `approach_retains`, what the second does by `prepare_yields`; and the
check of `reconfigure` holds where the encoder was opened for the geometry that the
driver reports (`prepare_reconfigures`).
-/

import SidecarDOS.Host.Turns

namespace SidecarDOS
namespace Host

open Library (Within Yields exec exec_bind_congr exec_get_bind exec_demand_bind)

namespace Op

open Pipeline (Same)

/-- The body up to `d.status()`; with a result, the turn ends before. -/
def approach (t : Turn) (cmd : Option Command) : Op (Option Bool) := do
  let go ← handle t cmd
  if ¬ go then pure (some false)
  else
    expire t
    let s ← get
    if s.state.isStreaming then
      reconcile t
      let s ← get
      check (s.driver = true) "driver missing"
      pure none
    else pure (some true)

/-- `d.status()`. -/
def ask (t : Turn) : Op Status :=
  match t.status with
  | none => throw .platform
  | some status => pure status

/-- The body from the answer to `STATUS` to the loop over the slots: the newest slot, unless the
turn ends before. -/
def prepare (t : Turn) (status : Status) : Op (Option (Option (Fin 3))) := do
  let s ← get
  if status.width = 0 ∨ s.input = none then
    check (¬ s.startup.any fun t₀ => t.now - t₀ > 8000000)
      "virtual display did not become active"
    pure none
  else
    if s.encoder.isNone ∨ s.generation ≠ status.generation then openEncoder t status
    let s ← get
    match s.encoder with
    | none => throw (.ensure "encoder missing")
    | some settings =>
      adjust t status settings
      poll t 4 0
      let s ← get
      pure (some (newest status.slots s.seen))

/-- What follows `prepare`. -/
def finish (t : Turn) (status : Status) : Option (Option (Fin 3)) → Op Bool
  | none => pure true
  | some newest => do
    (List.finRange 3).forM (submit t status.slots newest)
    pure true

/-- **A turn in steps.**  The body of the loop is `approach`, the answer to `STATUS`,
`prepare` and the loop over the slots. -/
theorem operation_eq (t : Turn) (cmd : Option Command) (s : Pipeline) :
    exec (operation t cmd) s = exec (do
      match ← approach t cmd with
      | some go => pure go
      | none =>
        let status ← ask t
        finish t status (← prepare t status)) s := by
  unfold operation approach stream ask prepare
  simp only [bind_assoc]
  refine exec_bind_congr fun go s => ?_
  cases go with
  | false => rfl
  | true =>
    simp only [not_true_eq_false, if_false, bind_assoc]
    refine exec_bind_congr fun _ s => ?_
    rw [exec_get_bind, exec_get_bind]
    split
    · simp only [bind_assoc, pure_bind]
      refine exec_bind_congr fun _ s => ?_
      rw [exec_get_bind, exec_get_bind]
      refine (exec_demand_bind).trans (Eq.trans ?_ exec_demand_bind.symm)
      refine ite_congr rfl (fun _ => ?_) fun _ => rfl
      cases t.status with
      | none => rfl
      | some status =>
        simp only [pure_bind]
        rw [exec_get_bind]
        split
        · simp only [bind_assoc, pure_bind]
          rfl
        · split
          · simp only [bind_assoc]
            refine exec_bind_congr fun _ s => ?_
            rw [exec_get_bind, exec_get_bind]
            cases s.encoder with
            | none => rfl
            | some settings =>
              simp only [bind_assoc, pure_bind]
              rfl
          · simp only [bind_assoc]
            rw [exec_get_bind, exec_get_bind]
            cases s.encoder with
            | none => rfl
            | some settings =>
              simp only [bind_assoc, pure_bind]
              rfl
    · rfl

variable {t : Turn} {status : Status} {s s' : Pipeline}

/-! ### Up to `d.status()` -/

/-- The encoder is gone, or it and what the thread knows of its slots are the same. -/
def Retained (s s' : Pipeline) : Prop :=
  s'.encoder = none ∨
    s'.encoder = s.encoder ∧ s'.generation = s.generation ∧ s'.seen = s.seen

instance : Std.Refl Retained := ⟨fun _ => .inr ⟨rfl, rfl, rfl⟩⟩

instance : IsTrans Pipeline Retained := ⟨fun _ _ _ h h' => by
  rcases h' with h' | ⟨hencoder, hgeneration, hseen⟩
  · exact .inl h'
  · rcases h with h | ⟨h₁, h₂, h₃⟩
    · exact .inl (hencoder.trans h)
    · exact .inr ⟨hencoder.trans h₁, hgeneration.trans h₂, hseen.trans h₃⟩⟩

abbrev Retains {α : Type} (m : Op α) (s : Pipeline) : Prop := Within Retained (fun _ => True) m s

theorem start_retains (device : Id16) (modes : List DisplayMode) :
    Retains (start t device modes) s := by
  unfold start
  refine .get_bind (.demand_bind trivial fun _ => .demand_bind trivial fun _ => ?_)
  exact .modify_bind (.inr ⟨rfl, rfl, rfl⟩) (.demand trivial)

theorem stop_retains : Retains (stop t) s := by
  unfold stop
  refine .get_bind (.ite (fun _ => .demand_bind trivial fun _ => ?_) fun _ => .pure _)
  exact .modify (.inr ⟨rfl, rfl, rfl⟩)

theorem connect_retains (device : Id16) (modes : List DisplayMode) :
    Retains (connect t device modes) s := by
  have hopen {s : Pipeline} : Retains (openDriver t) s := by
    unfold openDriver
    refine .get_bind (.ite (fun _ => .demand_bind trivial fun _ => ?_) fun _ => .pure _)
    exact .modify (.inr ⟨rfl, rfl, rfl⟩)
  have hadopt (replaceMonitor : Bool) {s : Pipeline} :
      Retains (adopt t device modes replaceMonitor) s := by
    unfold adopt
    split
    · exact .throw trivial
    · exact .modify (.inl rfl)
  unfold connect
  refine .get_bind (.demand_bind trivial fun _ => hopen.bind fun _ _ _ => ?_)
  dsimp only
  refine .ite (fun _ => ?_) fun _ => hadopt _
  exact (start_retains device modes).bind fun _ _ _ => hadopt _

theorem mode_retains (m : DisplayModeChange) : Retains (mode t m) s := by
  unfold mode
  refine .demand_bind trivial fun _ => .get_bind (.demand_bind trivial fun _ => ?_)
  dsimp only
  refine .ite (fun _ => .modify_bind (.inl rfl) ?_) fun _ => .modify (.inr ⟨rfl, rfl, rfl⟩)
  cases s.state with
  | streaming device =>
    refine (start_retains device _).bind fun _ _ _ => ?_
    exact .modify_bind (.inr ⟨rfl, rfl, rfl⟩) (.modify (.inr ⟨rfl, rfl, rfl⟩))
  | idle => exact .modify_bind (.inr ⟨rfl, rfl, rfl⟩) (.modify (.inr ⟨rfl, rfl, rfl⟩))
  | grace device deadline =>
    exact .modify_bind (.inr ⟨rfl, rfl, rfl⟩) (.modify (.inr ⟨rfl, rfl, rfl⟩))

theorem handle_retains (cmd : Option Command) : Retains (handle t cmd) s := by
  unfold handle
  split
  · exact .pure _
  · exact (connect_retains _ _).bind fun _ _ _ => .pure _
  · rename_i immediate
    refine Within.bind ?_ fun _ _ _ => .pure _
    unfold disconnect
    refine .modify_bind (.inl rfl) (.ite (fun _ => ?_) fun _ => .modify (.inr ⟨rfl, rfl, rfl⟩))
    exact stop_retains.bind fun _ _ _ => .modify (.inr ⟨rfl, rfl, rfl⟩)
  · refine .get_bind (.ite (fun _ => ?_) fun _ => .pure _)
    exact (Within.demand trivial).bind fun _ _ _ => .pure _
  · exact (mode_retains _).bind fun _ _ _ => .pure _
  · exact .modify_bind (.inr ⟨rfl, rfl, rfl⟩) (.pure _)
  · exact .pure _

theorem reconcile_retains (t : Turn) : Retains (reconcile t) s := by
  unfold reconcile
  refine .modify_bind ?_ (.modify_bind ?_ (.get_bind (.ite (fun _ => ?_) fun _ => .pure _)))
  · split <;> exact .inr ⟨rfl, rfl, rfl⟩
  · split_ifs <;> exact .inr ⟨rfl, rfl, rfl⟩
  · split
    · dsimp only
      refine .ite (fun _ => .demand_bind trivial fun _ => ?_) fun _ => ?_
      · exact .modify (.inr ⟨rfl, rfl, rfl⟩)
      · exact .modify (.inr ⟨rfl, rfl, rfl⟩)
    · exact .modify (.inr ⟨rfl, rfl, rfl⟩)

theorem approach_retains (t : Turn) (cmd : Option Command) : Retains (approach t cmd) s := by
  have hexpire {s : Pipeline} : Retains (expire t) s := by
    unfold expire
    refine .get_bind (.ite (fun _ => ?_) fun _ => .pure _)
    exact stop_retains.bind fun _ _ _ => .modify (.inr ⟨rfl, rfl, rfl⟩)
  unfold approach
  refine (handle_retains cmd).bind fun go _ _ => .ite (fun _ => .pure _) fun _ => ?_
  refine hexpire.bind fun _ _ _ => .get_bind (.ite (fun _ => ?_) fun _ => .pure _)
  refine (reconcile_retains t).bind fun _ _ _ => .get_bind (.demand_bind trivial fun _ => .pure _)

/-! ### From `d.status()` to the slots -/

/-- `prepare` opens an encoder. -/
def Opens (s : Pipeline) (status : Status) : Prop :=
  s.encoder.isNone = true ∨ s.generation ≠ status.generation

/-- What `prepare` leaves for the slots. -/
structure Prepared (t : Turn) (status : Status) (s s' : Pipeline) (best : Option (Fin 3)) :
    Prop where
  active : ¬ (status.width = 0 ∨ s.input = none)
  generation : s'.generation = status.generation
  newest : best = newest status.slots s'.seen
  opened : Opens s status → (t.encoder = true ∧ t.surfaces = true) ∧ s'.seen = (fun _ => 0) ∧
    ∃ e, s'.encoder = some e ∧ Fits e status
  kept : ¬ Opens s status → s'.seen = s.seen ∧ ∃ e e', s.encoder = some e ∧
    s'.encoder = some e' ∧ (Fits e status → Fits e' status)

theorem openEncoder_yields : Yields (openEncoder t status) s fun _ s' =>
    (t.encoder = true ∧ t.surfaces = true) ∧ s'.generation = status.generation ∧
      s'.seen = (fun _ => 0) ∧ ∃ e, s'.encoder = some e ∧ Fits e status := by
  unfold openEncoder
  refine .modify_bind (.get_bind (.demand_bind fun hencoder => .demand_bind fun hsurfaces => ?_))
  refine .modify_bind (.demand_bind fun _ => .modify ?_)
  exact ⟨⟨hencoder, hsurfaces⟩, rfl, rfl, _, rfl, rfl, rfl, rfl⟩

theorem adjust_yields {settings : EncoderSettings} (h : s.encoder = some settings) :
    Yields (adjust t status settings) s fun _ s' => s'.generation = s.generation ∧
      s'.seen = s.seen ∧ ∃ e, s'.encoder = some e ∧ (Fits settings status → Fits e status) := by
  have hsame {s' : Pipeline} (hs' : s'.generation = s.generation ∧ s'.seen = s.seen ∧
      s'.encoder = some settings) : s'.generation = s.generation ∧ s'.seen = s.seen ∧
        ∃ e, s'.encoder = some e ∧ (Fits settings status → Fits e status) :=
    ⟨hs'.1, hs'.2.1, settings, hs'.2.2, id⟩
  unfold adjust
  refine .get_bind (.ite (fun _ => .modify_bind (.demand_bind fun _ => ?_)) fun _ => ?_)
  all_goals
    refine .ite (fun _ => .demand_bind fun _ => .demand_bind fun _ => .modify ?_) fun _ => .pure ?_
    · exact ⟨rfl, rfl, _, rfl, id⟩
    · exact hsame ⟨rfl, rfl, h⟩

theorem poll_yields (n i : ℕ) : Yields (poll t n i) s fun _ s' =>
    s'.generation = s.generation ∧ s'.seen = s.seen ∧ s'.encoder = s.encoder := by
  induction n generalizing i s with
  | zero => exact .pure ⟨rfl, rfl, rfl⟩
  | succ n ih =>
    unfold poll
    split
    · exact .throw
    · exact .pure ⟨rfl, rfl, rfl⟩
    · exact .modify_bind (ih (i + 1))

theorem prepare_yields (t : Turn) (status : Status) (s : Pipeline) :
    Yields (prepare t status) s fun r s' => match r with
      | none => (status.width = 0 ∨ s.input = none) ∧ s' = s
      | some best => Prepared t status s s' best := by
  have htail {s₁ : Pipeline} {settings : EncoderSettings} (h : s₁.encoder = some settings) :
      Yields (do
        adjust t status settings
        poll t 4 0
        let s ← get
        pure (some (newest status.slots s.seen)) : Op (Option (Option (Fin 3)))) s₁ fun r s' =>
          s'.generation = s₁.generation ∧ s'.seen = s₁.seen ∧
            r = some (newest status.slots s'.seen) ∧
              ∃ e, s'.encoder = some e ∧ (Fits settings status → Fits e status) := by
    refine (adjust_yields h).bind fun _ s₂ h₂ => (poll_yields 4 0).bind fun _ s₃ h₃ => ?_
    obtain ⟨hgeneration, hseen, e, he, hfits⟩ := h₂
    refine .get_bind (.pure ⟨h₃.1.trans hgeneration, h₃.2.1.trans hseen, rfl, e, ?_, hfits⟩)
    exact h₃.2.2.trans he
  unfold prepare
  refine .get_bind (.ite (fun hends => .demand_bind fun _ => .pure ⟨hends, rfl⟩) fun hactive => ?_)
  refine .ite (fun hopens => ?_) fun hkept => ?_
  · refine openEncoder_yields.bind fun _ s₁ h₁ => .get_bind ?_
    obtain ⟨hanswers, hgeneration, hseen, e, he, hfits⟩ := h₁
    rw [he]
    refine (htail he).mono fun r s' hs' => ?_
    obtain ⟨hgeneration', hseen', rfl, e', he', hfits'⟩ := hs'
    exact ⟨hactive, hgeneration'.trans hgeneration, rfl,
      fun _ => ⟨hanswers, hseen'.trans hseen, e', he', hfits' hfits⟩, absurd hopens⟩
  · refine .get_bind ?_
    obtain ⟨hsome, hgeneration⟩ := not_or.1 hkept
    obtain ⟨e, he⟩ := Option.isSome_iff_exists.1 (Option.isSome_iff_ne_none.2 fun hnone =>
      hsome (Option.isNone_iff_eq_none.2 hnone))
    rw [he]
    refine (htail he).mono fun r s' hs' => ?_
    obtain ⟨hgeneration', hseen', rfl, e', he', hfits'⟩ := hs'
    exact ⟨hactive, hgeneration'.trans (not_not.1 hgeneration), rfl,
      fun hopens => absurd hopens hkept, fun _ => ⟨hseen', e, e', he, he', hfits'⟩⟩

/-- With an encoder that fits what the driver reports for its generation, `reconfigure` does not
refuse. -/
theorem prepare_reconfigures (t : Turn) (status : Status)
    (h : ∀ e, s.encoder = some e → s.generation = status.generation → Fits e status) :
    Within Same (· ≠ recreation) (prepare t status) s := by
  have htail {s₁ : Pipeline} {settings : EncoderSettings} (hfits : Fits settings status) :
      Within Same (· ≠ recreation) (do
        adjust t status settings
        poll t 4 0
        let s ← get
        pure (some (newest status.slots s.seen)) : Op (Option (Option (Fin 3)))) s₁ :=
    (adjust_within nofun t status settings (absurd hfits)).bind fun _ _ _ =>
      (poll_within nofun t 4 0).bind fun _ _ _ => .get_bind (.pure _)
  unfold prepare
  refine .get_bind (.ite (fun _ => .demand_bind (by decide) fun _ => .pure _) fun _ => ?_)
  refine .ite (fun _ => ?_) fun hkept => ?_
  · refine openEncoder_yields.bind_within (openEncoder_within nofun (by decide) t status) ?_
    rintro _ s₁ ⟨-, -, -, e, he, hfits⟩
    refine .get_bind ?_
    rw [he]
    exact htail hfits
  · refine .get_bind ?_
    obtain ⟨-, hgeneration⟩ := not_or.1 hkept
    cases he : s.encoder with
    | none => exact .throw (by decide)
    | some e => exact htail (h e he (not_not.1 hgeneration))

/-- The body from the answer to `STATUS` to the polls; `false` ends the turn. -/
def tune (t : Turn) (status : Status) : Op Bool := do
  let s ← get
  if status.width = 0 ∨ s.input = none then
    check (¬ s.startup.any fun t₀ => t.now - t₀ > 8000000)
      "virtual display did not become active"
    pure false
  else
    if s.encoder.isNone ∨ s.generation ≠ status.generation then openEncoder t status
    let s ← get
    match s.encoder with
    | none => throw (.ensure "encoder missing")
    | some settings =>
      adjust t status settings
      pure true

/-- `prepare` is what precedes the polls, and the polls. -/
theorem prepare_eq_tune (t : Turn) (status : Status) (s : Pipeline) :
    exec (prepare t status) s = exec (do
      let go ← tune t status
      if go then
        poll t 4 0
        let s ← get
        pure (some (newest status.slots s.seen))
      else pure none) s := by
  unfold prepare tune
  simp only [bind_assoc]
  rw [exec_get_bind, exec_get_bind]
  split
  · simp only [bind_assoc, pure_bind]
    rfl
  · split
    · simp only [bind_assoc]
      refine exec_bind_congr fun _ s => ?_
      rw [exec_get_bind, exec_get_bind]
      cases s.encoder with
      | none => rfl
      | some settings =>
        simp only [bind_assoc, pure_bind]
        rfl
    · simp only [bind_assoc]
      rw [exec_get_bind, exec_get_bind]
      cases s.encoder with
      | none => rfl
      | some settings =>
        simp only [bind_assoc, pure_bind]
        rfl

/-- One turn of the loop over the slots: a slot that `encode` takes is seen. -/
theorem submit_yields (t : Turn) (slots : Fin 3 → Slot) (best : Option (Fin 3)) (i : Fin 3) :
    Yields (submit t slots best i) s fun _ s' =>
      s' = if (slots i).frame > s.seen i ∧ t.encodes i
          (if some i ≠ best then { slots i with frame := 0 } else slots i) = some true then
        { s with seen := Function.update s.seen i (slots i).frame } else s := by
  unfold submit
  refine .get_bind (.ite (fun hnew => ?_) fun hseen => .pure (if_neg fun h => hseen h.1).symm)
  dsimp only
  split
  · exact .throw
  · rename_i hencodes
    exact .modify (if_pos ⟨hnew, hencodes⟩).symm
  · rename_i hencodes
    refine .pure (if_neg fun h => ?_).symm
    exact nomatch hencodes.symm.trans h.2

/-! ### What is published -/

/-- Nothing is published any more, or what was before, and the frames are counted on from there. -/
def Cleared (s s' : Pipeline) : Prop :=
  s'.serial = s.serial ∧ (s'.frames = none ∨ s'.frames = s.frames)

instance : Std.Refl Cleared := ⟨fun _ => ⟨rfl, .inr rfl⟩⟩

instance : IsTrans Pipeline Cleared := ⟨fun _ _ _ ⟨hserial, h⟩ ⟨hserial', h'⟩ => by
  refine ⟨hserial'.trans hserial, ?_⟩
  rcases h' with h' | h'
  · exact .inl h'
  · exact h.imp h'.trans h'.trans⟩

abbrev Clears {α : Type} (m : Op α) (s : Pipeline) : Prop := Within Cleared (fun _ => True) m s

theorem start_clears (device : Id16) (modes : List DisplayMode) :
    Clears (start t device modes) s :=
  .get_bind (.demand_bind trivial fun _ => .demand_bind trivial fun _ =>
    .modify_bind ⟨rfl, .inr rfl⟩ (.demand trivial))

theorem stop_clears : Clears (stop t) s :=
  .get_bind (.ite (fun _ => .demand_bind trivial fun _ => .modify ⟨rfl, .inr rfl⟩) fun _ => .pure _)

theorem connect_clears (device : Id16) (modes : List DisplayMode) :
    Clears (connect t device modes) s := by
  have hadopt (replaceMonitor : Bool) {s : Pipeline} :
      Clears (adopt t device modes replaceMonitor) s := by
    unfold adopt
    split
    · exact .throw trivial
    · exact .modify ⟨rfl, .inl rfl⟩
  have hopen {s : Pipeline} : Clears (openDriver t) s :=
    .get_bind (.ite (fun _ => .demand_bind trivial fun _ => .modify ⟨rfl, .inr rfl⟩)
      fun _ => .pure _)
  unfold connect
  refine .get_bind (.demand_bind trivial fun _ => hopen.bind fun _ _ _ => ?_)
  exact .ite (fun _ => (start_clears device modes).bind fun _ _ _ => hadopt _) fun _ => hadopt _

theorem mode_clears (m : DisplayModeChange) : Clears (mode t m) s := by
  unfold mode
  refine .demand_bind trivial fun _ => .get_bind (.demand_bind trivial fun _ => ?_)
  refine .ite (fun _ => .modify_bind ⟨rfl, .inl rfl⟩ ?_) fun _ => .modify ⟨rfl, .inr rfl⟩
  cases s.state with
  | streaming device =>
    exact (start_clears device _).bind fun _ _ _ =>
      .modify_bind ⟨rfl, .inr rfl⟩ (.modify ⟨rfl, .inr rfl⟩)
  | idle => exact .modify_bind ⟨rfl, .inr rfl⟩ (.modify ⟨rfl, .inr rfl⟩)
  | grace device deadline => exact .modify_bind ⟨rfl, .inr rfl⟩ (.modify ⟨rfl, .inr rfl⟩)

theorem handle_clears (cmd : Option Command) : Clears (handle t cmd) s := by
  unfold handle
  split
  · exact .pure _
  · exact (connect_clears _ _).bind fun _ _ _ => .pure _
  · refine Within.bind (.modify_bind ⟨rfl, .inl rfl⟩ (.ite (fun _ => ?_) fun _ =>
      .modify ⟨rfl, .inr rfl⟩)) fun _ _ _ => .pure _
    exact stop_clears.bind fun _ _ _ => .modify ⟨rfl, .inr rfl⟩
  · refine .get_bind (.ite (fun _ => ?_) fun _ => .pure _)
    exact (Within.demand trivial).bind fun _ _ _ => .pure _
  · exact (mode_clears _).bind fun _ _ _ => .pure _
  · exact .modify_bind ⟨rfl, .inr rfl⟩ (.pure _)
  · exact .pure _

theorem reconcile_clears (t : Turn) : Clears (reconcile t) s := by
  unfold reconcile
  refine .modify_bind ?_ (.modify_bind ?_ (.get_bind (.ite (fun _ => ?_) fun _ => .pure _)))
  · split <;> exact ⟨rfl, .inr rfl⟩
  · split_ifs <;> exact ⟨rfl, .inr rfl⟩
  · split
    · exact .ite (fun _ => .demand_bind trivial fun _ => .modify ⟨rfl, .inr rfl⟩) fun _ =>
        .modify ⟨rfl, .inr rfl⟩
    · exact .modify ⟨rfl, .inr rfl⟩

/-- Up to `d.status()` nothing new is published. -/
theorem approach_clears (t : Turn) (cmd : Option Command) : Clears (approach t cmd) s := by
  have hexpire {s : Pipeline} : Clears (expire t) s :=
    .get_bind (.ite (fun _ => stop_clears.bind fun _ _ _ => .modify ⟨rfl, .inr rfl⟩)
      fun _ => .pure _)
  unfold approach
  refine (handle_clears cmd).bind fun go _ _ => .ite (fun _ => .pure _) fun _ => ?_
  refine hexpire.bind fun _ _ _ => .get_bind (.ite (fun _ => ?_) fun _ => .pure _)
  exact (reconcile_clears t).bind fun _ _ _ => .get_bind (.demand_bind trivial fun _ => .pure _)

/-- What was published before, or a frame that a `poll` of the turn has returned, under the
number to which the frames are counted then: another one, where `counts` promises that it is
not reached twice. -/
def Polled (counts : Prop) (t : Turn) (s s' : Pipeline) : Prop :=
  s'.serial = s.serial ∧ s'.frames = s.frames ∨ ∃ i frame, t.polls i = some (some frame) ∧
    s'.frames = some { frame with frameId := s'.serial } ∧
      (counts → s.serial.toNat < s'.serial.toNat)

variable {counts : Prop}

instance : Std.Refl (Polled counts t) := ⟨fun _ => .inl ⟨rfl, rfl⟩⟩

instance : IsTrans Pipeline (Polled counts t) := ⟨fun s₀ s₁ s₂ h h' => by
  rcases h' with ⟨hserial', hframes'⟩ | ⟨i, frame, hi, hframes', hlt'⟩
  · unfold Polled
    rw [hserial', hframes']
    exact h
  · refine .inr ⟨i, frame, hi, hframes', fun hcounts => ?_⟩
    have hle : s₀.serial.toNat ≤ s₁.serial.toNat := by
      rcases h with ⟨hserial, -⟩ | ⟨-, -, -, -, hlt⟩
      · exact (congrArg UInt64.toNat hserial).ge
      · exact (hlt hcounts).le
    exact hle.trans_lt (hlt' hcounts)⟩

theorem toNat_succ_serial {n : ℕ} (h : s.serial.toNat + (n + 1) < 2 ^ 64) :
    (s.serial + 1).toNat = s.serial.toNat + 1 := by
  rw [UInt64.toNat_add, UInt64.toNat_one]
  omega

theorem poll_polled (n i : ℕ) (h : counts → s.serial.toNat + n < 2 ^ 64) :
    Within (Polled counts t) (fun _ => True) (poll t n i) s := by
  induction n generalizing i s with
  | zero => exact .pure _
  | succ n ih =>
    unfold poll
    split
    · exact .throw trivial
    · exact .pure _
    · rename_i frame hframe
      refine .modify_bind (.inr ⟨i, frame, hframe, rfl, fun hcounts => ?_⟩)
        (ih (i + 1) fun hcounts => ?_)
      · exact (toNat_succ_serial (h hcounts)).symm ▸ Nat.lt_succ_self _
      · have hserial := toNat_succ_serial (h hcounts)
        have := h hcounts
        dsimp only
        omega

/-- The frames are counted on from where they were, and the same one is published. -/
def Uncounted (s s' : Pipeline) : Prop := s'.serial = s.serial ∧ s'.frames = s.frames

instance : Std.Refl Uncounted := ⟨fun _ => ⟨rfl, rfl⟩⟩

instance : IsTrans Pipeline Uncounted :=
  ⟨fun _ _ _ h h' => ⟨h'.1.trans h.1, h'.2.trans h.2⟩⟩

theorem openEncoder_uncounted (status : Status) :
    Within Uncounted (fun _ => True) (openEncoder t status) s := by
  unfold openEncoder
  refine .modify_bind ⟨rfl, rfl⟩ (.get_bind (.demand_bind trivial fun _ => ?_))
  refine .demand_bind trivial fun _ => .modify_bind ⟨rfl, rfl⟩ ?_
  exact .demand_bind trivial fun _ => .modify ⟨rfl, rfl⟩

theorem adjust_uncounted (status : Status) (settings : EncoderSettings) :
    Within Uncounted (fun _ => True) (adjust t status settings) s := by
  unfold adjust
  refine .get_bind (.ite (fun _ => .modify_bind ⟨rfl, rfl⟩ (.demand_bind trivial fun _ => ?_))
    fun _ => ?_)
  all_goals
    exact .ite (fun _ => .demand_bind trivial fun _ => .demand_bind trivial fun _ =>
      .modify ⟨rfl, rfl⟩) fun _ => .pure _

theorem submit_uncounted (slots : Fin 3 → Slot) (newest : Option (Fin 3)) (i : Fin 3) :
    Within Uncounted (fun _ => True) (submit t slots newest i) s := by
  unfold submit
  refine .get_bind (.ite (fun _ => ?_) fun _ => .pure _)
  dsimp only
  split
  · exact Within.throw trivial
  · exact Within.modify ⟨rfl, rfl⟩
  · exact Within.pure _

/-- What follows a part that publishes nothing. -/
theorem Uncounted.bind {α β : Type} {m : Op α} {k : α → Op β}
    (h : Within Uncounted (fun _ => True) m s)
    (hk : ∀ a s', s'.serial = s.serial → Within (Polled counts t) (fun _ => True) (k a) s') :
    Within (Polled counts t) (fun _ => True) (m >>= k) s :=
  (Yields.of_within h).bind_within (h.weaken (fun _ => .inl) fun _ => id) fun a s' hs =>
    hk a s' hs.1

/-- From the answer to `STATUS` to the slots, only the polls publish. -/
theorem prepare_polled (t : Turn) (status : Status)
    (h : counts → s.serial.toNat + 4 < 2 ^ 64) :
    Within (Polled counts t) (fun _ => True) (prepare t status) s := by
  have htail {s : Pipeline} (h : counts → s.serial.toNat + 4 < 2 ^ 64)
      (settings : EncoderSettings) : Within (Polled counts t) (fun _ => True) (do
        adjust t status settings
        poll t 4 0
        let s ← get
        pure (some (newest status.slots s.seen)) : Op (Option (Option (Fin 3)))) s := by
    refine Uncounted.bind (adjust_uncounted status settings) fun _ s' hserial => ?_
    exact (poll_polled 4 0 (hserial ▸ h)).bind fun _ _ _ => .get_bind (.pure _)
  unfold prepare
  refine .get_bind (.ite (fun _ => .demand_bind trivial fun _ => .pure _) fun _ => ?_)
  refine .ite (fun _ => ?_) fun _ => .get_bind ?_
  · refine Uncounted.bind (openEncoder_uncounted status) fun _ s' hserial => .get_bind ?_
    cases s'.encoder with
    | none => exact .throw trivial
    | some settings => exact htail (hserial ▸ h) settings
  · cases s.encoder with
    | none => exact .throw trivial
    | some settings => exact htail h settings

/-- What a step leaves published: nothing, what was before, or a frame that was polled. -/
def Publishes (counts : Prop) (t : Turn) (s s' : Pipeline) : Prop :=
  (counts → s.serial.toNat ≤ s'.serial.toNat) ∧ (s'.frames = none ∨ s'.frames = s.frames ∨
    ∃ i frame, t.polls i = some (some frame) ∧
      s'.frames = some { frame with frameId := s'.serial } ∧
        (counts → s.serial.toNat < s'.serial.toNat))

theorem Cleared.publishes {s' : Pipeline} (h : Cleared s s') : Publishes counts t s s' :=
  ⟨fun _ => (congrArg UInt64.toNat h.1).ge, h.2.imp id .inl⟩

theorem Polled.publishes {s' : Pipeline} (h : Polled counts t s s') : Publishes counts t s s' := by
  rcases h with ⟨hserial, hframes⟩ | ⟨i, frame, hi, hframes, hlt⟩
  · exact ⟨fun _ => (congrArg UInt64.toNat hserial).ge, .inr (.inl hframes)⟩
  · exact ⟨fun hcounts => (hlt hcounts).le, .inr (.inr ⟨i, frame, hi, hframes, hlt⟩)⟩

/-- A turn that fails publishes nothing. -/
theorem Polled.failed {s' : Pipeline} (h : Polled counts t s s') (e : Error) :
    Publishes counts t s (s'.failed e) :=
  ⟨h.publishes.1, .inl rfl⟩

end Op

end Host
end SidecarDOS
