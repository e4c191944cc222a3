/-
# The mutexes of the textures

`input` takes the mutex of a slot's texture with the key 1 and gives it back with the key
0, before the sample goes to the transform or when the lease ends, whatever fails.  So the
pixels are read only while the mutex is held, and the host holds no mutex behind a call
(`mutexes_returned`).  What a call does to a texture, and what it tells the pipeline, is
what the hand-off of the surfaces takes it to do.
-/

import SidecarDOS.Driver.Display
import SidecarDOS.Native.Accounts

namespace SidecarDOS
namespace Native

open Library (Reaches Within Ends exec ends_pure ends_throw ends_get ends_modify ends_bind
  ends_demand)
open Driver (Gpu Outcome Texture)

/-- The slot whose mutex is held behind these steps. -/
def owner : List Step → Option ℕ
  | [] => none
  | .acquired slot :: _ => some slot
  | .released _ :: _ => none
  | _ :: log => owner log

/-- A mutex is acquired where none is held, pixels are read and a mutex is released where it is
held, and samples go to the transform where none is. -/
def Disciplined : List Step → Prop
  | [] => True
  | .acquired _ :: log => owner log = none ∧ Disciplined log
  | .converted slot :: log => owner log = some slot ∧ Disciplined log
  | .released slot :: log => owner log = some slot ∧ Disciplined log
  | .accepted _ _ _ :: log => owner log = none ∧ Disciplined log
  | _ :: log => Disciplined log

namespace Encoder

variable {e e₀ e' : Encoder} {a : Answers} {slot : ℕ} {frame capture : UInt64}

/-- Between two calls. -/
structure Idle (e : Encoder) : Prop where
  disciplined : Disciplined e.log
  owner : owner e.log = none
  owned : e.owned = false

/-- In a call that began in `e₀`, with the lease. -/
structure Leasing (slot : ℕ) (e₀ e : Encoder) : Prop where
  disciplined : Disciplined e.log
  owner : Native.owner e.log = some slot
  owned : e.owned = true
  mutexes : e.mutexes = Function.update e₀.mutexes slot none
  accepted : e.accepted = e₀.accepted

/-- In a call that began in `e₀`, without it. -/
structure Released (slot : ℕ) (e₀ e : Encoder) : Prop extends Idle e where
  mutexes : e.mutexes = Function.update e₀.mutexes slot (some .zero)

theorem Leasing.freed (h : Leasing slot e₀ e) : Released slot e₀ (e.freed slot) :=
  ⟨⟨⟨h.owner, h.disciplined⟩, rfl, rfl⟩, by
    show Function.update e.mutexes slot _ = _
    rw [h.mutexes, Function.update_idem]⟩

/-- The log grows by steps that have nothing to do with the mutexes. -/
structure Steady (e e' : Encoder) : Prop where
  owner : owner e'.log = owner e.log
  disciplined : Disciplined e.log → Disciplined e'.log
  owned : e'.owned = e.owned

instance : Std.Refl Steady := ⟨fun _ => ⟨rfl, id, rfl⟩⟩

instance : IsTrans Encoder Steady := ⟨fun _ _ _ h h' =>
  ⟨h'.owner.trans h.owner, h'.disciplined ∘ h.disciplined, h'.owned.trans h.owned⟩⟩

theorem Idle.of_steady (h : e.Idle) (hsteady : Steady e e') : e'.Idle :=
  ⟨hsteady.disciplined h.disciplined, hsteady.owner.trans h.owner, hsteady.owned.trans h.owned⟩

theorem pump_steady (n i : ℕ) : Within Steady (fun _ => True) (pump a n i) e :=
  pump_within (fun _ => ⟨rfl, id, rfl⟩) (fun _ => ⟨rfl, id, rfl⟩) n i

theorem poll_steady (capacity : ℕ) : Within Steady (fun _ => True) (poll a capacity) e :=
  poll_within (fun _ => pump_steady 32 0) (fun _ _ => ⟨rfl, id, rfl⟩)
    (fun _ _ _ _ _ => ⟨rfl, id, rfl⟩) capacity

theorem pump_leasing (n i : ℕ) (h : Leasing slot e₀ e) :
    Ends (pump a n i) e fun _ e' => Leasing slot e₀ e' := by
  obtain ⟨-, hsteady⟩ := (pump_steady (a := a) (e := e) n i).out
  obtain ⟨-, hpumped⟩ := (pump_pumped (a := a) (e := e) n i).out
  exact ⟨hsteady.disciplined h.disciplined, hsteady.owner.trans h.owner,
    hsteady.owned.trans h.owned, hpumped.mutexes.trans h.mutexes,
    hpumped.accepted.trans h.accepted⟩

/-- How `submit` ends: without a sample, with or without the lease, or with the sample. -/
theorem submit_ends (h : Leasing slot e₀ e) : Ends (submit a slot frame capture) e fun r e' =>
    (∃ x, r = .error x) ∧ e'.accepted = e₀.accepted ∧
        (Leasing slot e₀ e' ∨ Released slot e₀ e') ∨
      r = .ok () ∧ e'.accepted = (frame, capture) :: e₀.accepted ∧ Released slot e₀ e' := by
  have hconverted : Leasing slot e₀ { e with log := .converted slot :: e.log } :=
    ⟨⟨h.owner, h.disciplined⟩, h.owner, h.owned, h.mutexes, h.accepted⟩
  have hfreed := hconverted.freed
  refine ends_bind.2 (ends_demand.2 ⟨fun _ => ?_, fun _ =>
    .inl ⟨⟨_, rfl⟩, h.accepted, .inl h⟩⟩)
  refine ends_bind.2 (ends_modify.2 (ends_bind.2 (ends_demand.2 ⟨fun _ => ?_, fun _ =>
    .inl ⟨⟨_, rfl⟩, h.accepted, .inl hconverted⟩⟩)))
  refine ends_bind.2 (ends_modify.2 (ends_bind.2 (ends_demand.2 ⟨fun _ => ?_, fun _ =>
    .inl ⟨⟨_, rfl⟩, h.accepted, .inr hfreed⟩⟩)))
  refine ends_bind.2 (ends_demand.2 ⟨fun _ => ?_, fun _ =>
    .inl ⟨⟨_, rfl⟩, h.accepted, .inr hfreed⟩⟩)
  exact ends_modify.2 (.inr ⟨rfl, congrArg _ h.accepted,
    ⟨⟨⟨hfreed.owner, hfreed.disciplined⟩, hfreed.owner, hfreed.owned⟩, hfreed.mutexes⟩⟩)

/-- The end of a lease. -/
theorem drop_released (hdrops : a.drops = true) (h : Leasing slot e₀ e ∨ Released slot e₀ e) :
    Released slot e₀ (e.drop a slot) := by
  unfold drop
  rcases h with h | h
  · rw [if_pos h.owned, if_pos hdrops]
    exact h.freed
  · rw [if_neg (by rw [h.owned]; exact Bool.false_ne_true)]
    exact h

theorem drop_accepted : (e.drop a slot).accepted = e.accepted := by
  unfold drop
  split_ifs <;> rfl

theorem drop_idle (h : e.Idle) : e.drop a slot = e :=
  if_neg (by rw [h.owned]; exact Bool.false_ne_true)

/-- What the pipeline is told of a call, and what the transform has got. -/
def outcome (before : Encoder) (r : Except HResult Bool) (after : Encoder) : Outcome :=
  match r with
  | .error _ => .failed
  | .ok false => .later
  | .ok true => if after.accepted = before.accepted then .discarded else .submitted

/-- What the hand-off's model takes a call to have met. -/
def gpu (slot : ℕ) (before : Encoder) (r : Except HResult Bool) (after : Encoder) : Gpu :=
  match outcome before r after with
  | .failed => if after.mutexes slot = before.mutexes slot then { abandoned := true }
    else { pumps := false }
  | .discarded => { room := false }
  | _ => {}

/-- What a call of `input` does. -/
structure Does (slot : ℕ) (frame capture : UInt64) (texture : Option Texture) (e : Encoder)
    (r : Except HResult Bool) (e' : Encoder) : Prop where
  idle : e'.Idle
  others : ∀ i, i ≠ slot → e'.mutexes i = e.mutexes i
  accepted : e'.accepted = if outcome e r e' = .submitted then (frame, capture) :: e.accepted
    else e.accepted
  told : ((gpu slot e r e').input texture ⟨frame, capture⟩).1 = outcome e r e'
  key : ((gpu slot e r e').input texture ⟨frame, capture⟩).2.bind Texture.key = e'.mutexes slot

/-- A call that has got the lease. -/
theorem Does.of_released {texture : Option Texture} {r : Except HResult Bool} {o : Outcome}
    (h : Released slot e e') (hone : e.mutexes slot = some .one)
    (htexture : texture.bind Texture.key = e.mutexes slot) (ho : outcome e r e' = o)
    (haccepted : e'.accepted = if o = .submitted then (frame, capture) :: e.accepted
      else e.accepted)
    (hg : o = .failed ∨ o = .discarded ∨ o = .submitted ∧ frame ≠ 0) :
    Does slot frame capture texture e r e' := by
  obtain ⟨t, rfl, hkey⟩ : ∃ t, texture = some t ∧ t.key = some .one :=
    Option.bind_eq_some_iff.1 (htexture.trans hone)
  have hany : (some t).any fun t => t.key = some .one := decide_eq_true hkey
  have hchanged : e'.mutexes slot ≠ e.mutexes slot := by
    rw [h.mutexes, Function.update_self, hone]
    decide
  have hzero : e'.mutexes slot = some .zero := by
    rw [h.mutexes, Function.update_self]
  have hgpu (g : Gpu) (hg : gpu slot e r e' = g) (htold : (g.input (some t) ⟨frame, capture⟩).1 = o)
      (hkey : (g.input (some t) ⟨frame, capture⟩).2.bind Texture.key = some .zero) :
      Does slot frame capture (some t) e r e' :=
    ⟨h.toIdle, fun i hi => by rw [h.mutexes, Function.update_of_ne hi], ho.symm ▸ haccepted,
      hg ▸ htold.trans ho.symm, hg ▸ hkey.trans hzero.symm⟩
  rcases hg with rfl | rfl | ⟨rfl, hframe⟩
  · refine hgpu { pumps := false } ?_ ?_ ?_
    · rw [gpu, ho]
      exact if_neg hchanged
    all_goals
      rw [Gpu.input, if_neg (by decide), if_pos hany]
      rfl
  · refine hgpu { room := false } ?_ ?_ ?_
    · rw [gpu, ho]
    all_goals rw [Gpu.input, if_neg (by decide), if_pos hany]
    · simp
    · rfl
  · refine hgpu {} ?_ ?_ ?_
    · rw [gpu, ho]
    all_goals rw [Gpu.input, if_neg (by decide), if_pos hany]
    · simp [hframe]
    · rfl

/-- A call that has not got it. -/
theorem Does.of_same {texture : Option Texture} {r : Except HResult Bool} (hidle : e.Idle)
    (htexture : texture.bind Texture.key = e.mutexes slot)
    (h : (∃ x, r = .error x) ∨ r = .ok false ∧ e.mutexes slot ≠ some .one) :
    Does slot frame capture texture e r e := by
  rcases h with ⟨x, rfl⟩ | ⟨rfl, hkey⟩
  · have hgpu : gpu slot e (.error x) e = { abandoned := true } := if_pos rfl
    exact ⟨hidle, fun _ _ => rfl, rfl, by rw [hgpu]; rfl, by rw [hgpu]; exact htexture⟩
  · have hany : ¬ texture.any fun t => t.key = some .one := by
      intro hany
      obtain ⟨t, rfl, ht⟩ := (Option.any_eq_true _ _).1 hany
      exact hkey (htexture.symm.trans (of_decide_eq_true ht))
    have hinput : (gpu slot e (.ok false) e).input texture ⟨frame, capture⟩ =
        (.later, texture) := by
      show Gpu.input {} texture _ = _
      rw [Gpu.input, if_neg (by decide), if_neg hany]
    exact ⟨hidle, fun _ _ => rfl, rfl, by rw [hinput]; rfl, by rw [hinput]; exact htexture⟩

/-- What follows the acquisition. -/
theorem feed_does {texture : Option Texture} (h : Leasing slot e₀ e) (hdrops : a.drops = true)
    (hone : e₀.mutexes slot = some .one) (htexture : texture.bind Texture.key = e₀.mutexes slot) :
    Ends (do
      pump a 32 0
      let e ← get
      if ¬ (frame = 0 ∨ e.credits = 0 ∨ e.pending.length ≥ 3) then submit a slot frame capture
      pure true) e fun r e' => Does slot frame capture texture e₀ r (e'.drop a slot) := by
  have hfails {x : HResult} {e' : Encoder} (haccepted : e'.accepted = e₀.accepted)
      (h : Leasing slot e₀ e' ∨ Released slot e₀ e') :
      Does slot frame capture texture e₀ (.error x) (e'.drop a slot) :=
    .of_released (drop_released hdrops h) hone htexture rfl (drop_accepted.trans haccepted)
      (.inl rfl)
  refine (pump_leasing 32 0 h).bind (fun _ e₁ h₁ => ?_) fun x e₁ h₁ => hfails h₁.accepted (.inl h₁)
  refine ends_bind.2 (ends_get.2 (Ends.ite (fun hroom => ?_) fun _ => ?_))
  · refine (submit_ends h₁).bind (fun _ e₂ h₂ => ?_) fun x e₂ h₂ => ?_
    · rcases h₂ with ⟨⟨_, hx⟩, -⟩ | ⟨-, haccepted, h₂⟩
      · exact nomatch hx
      · refine ends_pure.2 ?_
        rw [drop_idle h₂.toIdle]
        have houtcome : outcome e₀ (.ok true) e₂ = .submitted := by
          refine if_neg fun heq => ?_
          exact absurd (haccepted.symm.trans heq) (List.cons_ne_self _ _)
        exact .of_released h₂ hone htexture houtcome haccepted
          (.inr (.inr ⟨rfl, fun hframe => hroom (.inl hframe)⟩))
    · rcases h₂ with ⟨-, haccepted, h₂⟩ | ⟨hx, -⟩
      · exact hfails haccepted h₂
      · exact nomatch hx
  · have haccepted : (e₁.drop a slot).accepted = e₀.accepted := drop_accepted.trans h₁.accepted
    exact ends_pure.2 (.of_released (drop_released hdrops (.inl h₁)) hone htexture
      (if_pos haccepted) haccepted (.inr (.inl rfl)))

/-- A call of `input` with a texture whose mutex is that of the slot. -/
theorem input_does (frame capture : UInt64) {texture : Option Texture} (hidle : e.Idle)
    (hdrops : a.drops = true) (htexture : texture.bind Texture.key = e.mutexes slot) :
    Ends (input a slot frame capture) e fun r e' => Does slot frame capture texture e r e' := by
  unfold input
  refine Ends.ite (fun _ => ends_throw.2 (.of_same hidle htexture (.inl ⟨_, rfl⟩))) fun hslot => ?_
  refine ends_leased.2 (ends_bind.2 (ends_bind.2 (ends_demand.2 ⟨fun _ => ?_, fun _ => ?_⟩)))
  · refine ends_bind.2 (ends_get.2 (Ends.ite (fun hone => ?_) fun hkey => ?_))
    · refine ends_bind.2 (ends_modify.2 (ends_pure.2 (feed_does ?_ hdrops hone htexture)))
      exact ⟨⟨hidle.owner, hidle.disciplined⟩, rfl, rfl, rfl, rfl⟩
    · refine ends_pure.2 (ends_pure.2 ?_)
      rw [drop_idle hidle]
      exact .of_same hidle htexture (.inr ⟨rfl, hkey⟩)
  · dsimp only
    rw [drop_idle hidle]
    exact .of_same hidle htexture (.inl ⟨_, rfl⟩)

/-! ### Runs -/

/-- `ReleaseSync` succeeds in the destructor of a lease. -/
def Drops : Event → Prop
  | .input a _ _ _ => a.drops = true
  | _ => True

theorem Idle.step (h : e.Idle) {event : Event} (hdrops : Drops event) : (e.step event).Idle := by
  cases event with
  | input a slot frame capture =>
    let texture : Option Texture := (e.mutexes slot).map fun key => ⟨0, 0, some key, none⟩
    have htexture : texture.bind Texture.key = e.mutexes slot := by
      unfold texture
      cases e.mutexes slot <;> rfl
    exact ((input_does frame capture h hdrops htexture).of_exec rfl).idle
  | poll a capacity => exact h.of_steady (poll_steady capacity).out.2
  | mutex slot key => exact ⟨h.disciplined, h.owner, h.owned⟩

theorem idle_of_reaches (h : Reaches step Initial (fun _ event => Drops event) e) : e.Idle := by
  refine h.invariant (I := Idle) ?_ fun e event he hdrops => he.step hdrops
  rintro _ rfl
  exact ⟨trivial, rfl, rfl⟩

/-- **The mutexes come back.**  In every run in which a lease can end, pixels are read only
under the mutex of their texture, a sample goes to the transform only when that has been
released, and no mutex is held behind a call.  A call of `input` is one of the hand-off's
model: it tells the pipeline the same, does the same to the texture, and the transform gets a
sample with these metadata when, and only when, that one submits it. -/
theorem mutexes_returned (h : Reaches step Initial (fun _ event => Drops event) e) :
    (Disciplined e.log ∧ owner e.log = none ∧ e.owned = false) ∧
    ∀ a slot frame capture texture, a.drops = true → texture.bind Texture.key = e.mutexes slot →
      ∃ g : Gpu, ∃ taken, g.input texture ⟨frame, capture⟩ = taken ∧
        outcome e (exec (input a slot frame capture) e).1
          (e.step (.input a slot frame capture)) = taken.1 ∧
        (e.step (.input a slot frame capture)).mutexes =
          Function.update e.mutexes slot (taken.2.bind Texture.key) ∧
        (e.step (.input a slot frame capture)).accepted =
          if taken.1 = .submitted then (frame, capture) :: e.accepted else e.accepted := by
  have hidle := idle_of_reaches h
  refine ⟨⟨hidle.disciplined, hidle.owner, hidle.owned⟩,
    fun a slot frame capture texture hdrops htexture => ?_⟩
  have hdoes : Does slot frame capture texture e (exec (input a slot frame capture) e).1
      (e.step (.input a slot frame capture)) :=
    (input_does frame capture hidle hdrops htexture).of_exec rfl
  refine ⟨_, _, rfl, hdoes.told.symm, funext fun i => ?_, hdoes.told ▸ hdoes.accepted⟩
  by_cases hi : i = slot
  · rw [hi, Function.update_self, hdoes.key]
  · rw [Function.update_of_ne hi]
    exact hdoes.others i hi

/-- A frame is accepted from the first texture: the encoder hands the texture back as the call of
the hand-off does. -/
theorem mutexes_returned_sample : Disciplined sampleEncoder.log ∧ owner sampleEncoder.log = none ∧
    ∃ g : Gpu, ∃ texture, g.input (some ⟨0, 0, some .one, none⟩) ⟨1, 10⟩ = (.submitted, texture) ∧
      sampleEncoder.mutexes 0 = texture.bind Texture.key ∧ sampleEncoder.accepted = [(1, 10)] := by
  have hinit : Reaches step Initial (fun _ event => Drops event) ({} : Encoder) := .init rfl
  have hfilled := hinit.step (show Drops (.mutex 0 (some .one)) from trivial)
  obtain ⟨⟨hdisciplined, howner, -⟩, -⟩ :=
    mutexes_returned (hfilled.step (show Drops (.input sampleAsk 0 1 10) from rfl))
  obtain ⟨g, ⟨told, texture⟩, hinput, houtcome, hmutexes, haccepted⟩ :=
    (mutexes_returned hfilled).2 sampleAsk 0 1 10 (some ⟨0, 0, some .one, none⟩) rfl rfl
  obtain rfl : told = .submitted := houtcome.symm
  exact ⟨hdisciplined, howner, g, texture, hinput, congrFun hmutexes 0, haccepted⟩

end Encoder

end Native
end SidecarDOS
