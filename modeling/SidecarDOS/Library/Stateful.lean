/-
# Programs that fail and keep their state

`ExceptT ε (StateM σ)`: a program that stops at an error leaves the state as it is
then.  `Ends m s Q` says that `m`, started in `s`, ends with a result and a state
that satisfy `Q`, whether it returns or fails.  Every statement of the `do`
notation has its rule; `Ends.bind` cuts a program after a statement whose effect
is known.  `Within R E m s` is the case where nothing but a relation of the two states
and the kind of the error matters: for a preorder `R` it is put together statement by
statement.  `Yields m s Q` says nothing about errors: if `m` returns, then `Q` holds.
-/

import Mathlib.Order.Defs.Unbundled
import Mathlib.Tactic.Basic

namespace SidecarDOS
namespace Library

variable {ε σ α β : Type}

/-- The result of a program and the state it leaves. -/
def exec (m : ExceptT ε (StateM σ) α) (s : σ) : Except ε α × σ := (m.run.run s).run

def Ends (m : ExceptT ε (StateM σ) α) (s : σ) (Q : Except ε α → σ → Prop) : Prop :=
  Q (exec m s).1 (exec m s).2

variable {m : ExceptT ε (StateM σ) α} {k : α → ExceptT ε (StateM σ) β} {s : σ}

theorem exec_bind : exec (m >>= k) s = match exec m s with
    | (.ok a, s') => exec (k a) s'
    | (.error e, s') => (.error e, s') := by
  simp only [exec, ExceptT.run_bind, StateT.run_bind, Id.run_bind]
  rcases (m.run.run s).run with ⟨a | e, s'⟩ <;> rfl

theorem exec_get_bind {k : σ → ExceptT ε (StateM σ) β} : exec (get >>= k) s = exec (k s) s := rfl

/-- The same statement, and what follows it does the same. -/
theorem exec_bind_congr {k' : α → ExceptT ε (StateM σ) β}
    (h : ∀ a s', exec (k a) s' = exec (k' a) s') : exec (m >>= k) s = exec (m >>= k') s := by
  rw [exec_bind, exec_bind]
  rcases exec m s with ⟨e | a, s'⟩
  · rfl
  · exact h a s'

theorem ends_pure {Q : Except ε α → σ → Prop} {a : α} :
    Ends (pure a : ExceptT ε (StateM σ) α) s Q ↔ Q (.ok a) s := Iff.rfl

theorem ends_throw {Q : Except ε α → σ → Prop} {e : ε} :
    Ends (throw e : ExceptT ε (StateM σ) α) s Q ↔ Q (.error e) s := Iff.rfl

theorem ends_get {Q : Except ε σ → σ → Prop} :
    Ends (get : ExceptT ε (StateM σ) σ) s Q ↔ Q (.ok s) s := Iff.rfl

theorem ends_modify {Q : Except ε PUnit → σ → Prop} {f : σ → σ} :
    Ends (modify f : ExceptT ε (StateM σ) PUnit) s Q ↔ Q (.ok ⟨⟩) (f s) := Iff.rfl

theorem ends_bind {Q : Except ε β → σ → Prop} : Ends (m >>= k) s Q ↔
    Ends m s fun r s' => match r with
      | .ok a => Ends (k a) s' Q
      | .error e => Q (.error e) s' := by
  simp only [Ends, exec_bind]
  rcases exec m s with ⟨a | e, s'⟩ <;> rfl

theorem Ends.mono {Q Q' : Except ε α → σ → Prop} (h : Ends m s Q) (hQ : ∀ r s', Q r s' → Q' r s') :
    Ends m s Q' := hQ _ _ h

theorem Ends.of_exec {Q : Except ε α → σ → Prop} {r : Except ε α} {s' : σ} (h : Ends m s Q)
    (hexec : exec m s = (r, s')) : Q r s' := by
  unfold Ends at h
  rwa [hexec] at h

/-- A statement whose effect is known, and what follows it. -/
theorem Ends.bind {P : Except ε α → σ → Prop} {Q : Except ε β → σ → Prop} (h : Ends m s P)
    (hok : ∀ a s', P (.ok a) s' → Ends (k a) s' Q)
    (herror : ∀ e s', P (.error e) s' → Q (.error e) s') : Ends (m >>= k) s Q := by
  refine ends_bind.2 (h.mono fun r s' hr => ?_)
  cases r with
  | ok a => exact hok a s' hr
  | error e => exact herror e s' hr

/-- A statement that returns, and what follows it. -/
theorem Ends.bind_ok {a : α} {P : σ → Prop} {Q : Except ε β → σ → Prop}
    (h : Ends m s fun r s' => r = .ok a ∧ P s') (hok : ∀ s', P s' → Ends (k a) s' Q) :
    Ends (m >>= k) s Q := by
  refine h.bind (fun a' s' ⟨ha, hs'⟩ => ?_) fun _ _ ⟨he, _⟩ => nomatch he
  obtain rfl := Except.ok.inj ha
  exact hok s' hs'

/-- What matters is the result of the last statement. -/
theorem Ends.last {Q : Except ε β → σ → Prop} (h : ∀ a s', Ends (k a) s' Q)
    (herror : ∀ e s', Q (.error e) s') : Ends (m >>= k) s Q :=
  Ends.bind (P := fun _ _ => True) trivial (fun a s' _ => h a s') fun e s' _ => herror e s'

theorem Ends.ite {c : Prop} [Decidable c] {m' : ExceptT ε (StateM σ) α}
    {Q : Except ε α → σ → Prop} (h : c → Ends m s Q) (h' : ¬ c → Ends m' s Q) :
    Ends (if c then m else m') s Q := by
  split
  · rename_i hc
    exact h hc
  · rename_i hc
    exact h' hc

/-- `cond`, or the program fails with `e`. -/
def demand (cond : Prop) [Decidable cond] (e : ε) : ExceptT ε (StateM σ) Unit :=
  if cond then pure () else throw e

theorem exec_demand_bind {cond : Prop} [Decidable cond] {e : ε}
    {k : Unit → ExceptT ε (StateM σ) β} :
    exec (demand cond e >>= k) s = if cond then exec (k ()) s else (.error e, s) := by
  unfold demand
  split <;> rfl

theorem ends_demand {cond : Prop} [Decidable cond] {e : ε} {Q : Except ε Unit → σ → Prop} :
    Ends (demand cond e) s Q ↔ (cond → Q (.ok ()) s) ∧ (¬ cond → Q (.error e) s) := by
  unfold demand
  split
  · rename_i h
    exact ⟨fun hq => ⟨fun _ => hq, fun hn => absurd h hn⟩, fun hq => hq.1 h⟩
  · rename_i h
    exact ⟨fun hq => ⟨fun hc => absurd hc h, fun _ => hq⟩, fun hq => hq.2 h⟩

/-- Whether it returns or fails, `m` relates the states by `R`, and its errors are in `E`. -/
def Within (R : σ → σ → Prop) (E : ε → Prop) (m : ExceptT ε (StateM σ) α) (s : σ) : Prop :=
  Ends m s fun r s' => (∀ e, r = .error e → E e) ∧ R s s'

namespace Within

variable {R : σ → σ → Prop} {E : ε → Prop}

theorem out (h : Within R E m s) : (∀ e, (exec m s).1 = .error e → E e) ∧ R s (exec m s).2 := h

theorem of_exec {r : Except ε α} {s' : σ} (h : Within R E m s) (hexec : exec m s = (r, s')) :
    (∀ e, r = .error e → E e) ∧ R s s' :=
  Ends.of_exec h hexec

theorem weaken {R' : σ → σ → Prop} {E' : ε → Prop} (h : Within R E m s)
    (hR : ∀ s', R s s' → R' s s') (hE : ∀ e, E e → E' e) : Within R' E' m s :=
  Ends.mono h fun _ _ ⟨he, hs⟩ => ⟨fun e heq => hE e (he e heq), hR _ hs⟩

theorem bind [IsTrans σ R] (h : Within R E m s) (hk : ∀ a s', R s s' → Within R E (k a) s') :
    Within R E (m >>= k) s :=
  Ends.bind h
    (fun a s' ⟨_, hs⟩ => (hk a s' hs).mono fun _ _ ⟨he, hs'⟩ => ⟨he, IsTrans.trans _ _ _ hs hs'⟩)
    fun e _ ⟨he, hs⟩ => ⟨fun _ heq => Except.error.inj heq ▸ he e rfl, hs⟩

theorem get_bind {k : σ → ExceptT ε (StateM σ) β} (h : Within R E (k s) s) :
    Within R E (get >>= k) s :=
  ends_bind.2 (ends_get.2 h)

theorem modify_bind [IsTrans σ R] {f : σ → σ} {k : PUnit → ExceptT ε (StateM σ) β}
    (h : R s (f s)) (hk : Within R E (k ⟨⟩) (f s)) : Within R E (modify f >>= k) s :=
  ends_bind.2 (ends_modify.2 (hk.mono fun _ _ ⟨he, hs⟩ => ⟨he, IsTrans.trans _ _ _ h hs⟩))

theorem modify {f : σ → σ} (h : R s (f s)) :
    Within R E (modify f : ExceptT ε (StateM σ) PUnit) s :=
  ends_modify.2 ⟨nofun, h⟩

theorem ite {c : Prop} [Decidable c] {m' : ExceptT ε (StateM σ) α} (h : c → Within R E m s)
    (h' : ¬ c → Within R E m' s) : Within R E (if c then m else m') s :=
  Ends.ite h h'

variable [Std.Refl R]

theorem pure (a : α) : Within R E (Pure.pure a : ExceptT ε (StateM σ) α) s :=
  ends_pure.2 ⟨nofun, Std.Refl.refl s⟩

theorem throw {e : ε} (h : E e) : Within R E (throwThe ε e : ExceptT ε (StateM σ) α) s :=
  ends_throw.2 ⟨fun _ he => Except.error.inj he ▸ h, Std.Refl.refl s⟩

theorem demand {cond : Prop} [Decidable cond] {e : ε} (h : E e) :
    Within R E (demand cond e) s :=
  ends_demand.2 ⟨fun _ => ⟨nofun, Std.Refl.refl s⟩,
    fun _ => ⟨fun _ he => Except.error.inj he ▸ h, Std.Refl.refl s⟩⟩

/-- Behind a demand its condition holds. -/
theorem demand_bind {cond : Prop} [Decidable cond] {e : ε} {k : Unit → ExceptT ε (StateM σ) β}
    (h : E e) (hk : cond → Within R E (k ()) s) : Within R E (Library.demand cond e >>= k) s :=
  ends_bind.2 (ends_demand.2 ⟨hk, fun _ =>
    ⟨fun _ he => Except.error.inj he ▸ h, Std.Refl.refl s⟩⟩)

theorem forM [IsTrans σ R] {ι : Type} {f : ι → ExceptT ε (StateM σ) PUnit}
    (h : ∀ i s', Within R E (f i) s') (is : List ι) : Within R E (is.forM f) s := by
  induction is generalizing s with
  | nil => exact ends_pure.2 ⟨nofun, Std.Refl.refl s⟩
  | cons i is ih => exact (h i s).bind fun _ _ _ => ih

end Within

/-- If `m` returns, then its result and the state it leaves satisfy `Q`. -/
def Yields (m : ExceptT ε (StateM σ) α) (s : σ) (Q : α → σ → Prop) : Prop :=
  Ends m s fun r s' => ∀ a, r = .ok a → Q a s'

namespace Yields

variable {P Q' : α → σ → Prop} {Q : β → σ → Prop}

theorem of_exec {a : α} {s' : σ} (h : Yields m s P) (hexec : exec m s = (.ok a, s')) : P a s' :=
  Ends.of_exec h hexec a rfl

theorem mono (h : Yields m s P) (hQ : ∀ a s', P a s' → Q' a s') : Yields m s Q' :=
  Ends.mono h fun _ _ hr a ha => hQ a _ (hr a ha)

theorem of_within {R : σ → σ → Prop} {E : ε → Prop} (h : Within R E m s) :
    Yields m s fun _ s' => R s s' :=
  Ends.mono h fun _ _ hr _ _ => hr.2

theorem pure {a : α} (h : P a s) : Yields (Pure.pure a : ExceptT ε (StateM σ) α) s P := by
  refine ends_pure.2 ?_
  rintro _ ⟨⟩
  exact h

theorem throw {e : ε} : Yields (throwThe ε e : ExceptT ε (StateM σ) α) s P :=
  ends_throw.2 nofun

theorem modify {f : σ → σ} {P : PUnit → σ → Prop} (h : P ⟨⟩ (f s)) :
    Yields (modify f : ExceptT ε (StateM σ) PUnit) s P :=
  ends_modify.2 fun _ _ => h

theorem bind (h : Yields m s P) (hk : ∀ a s', P a s' → Yields (k a) s' Q) :
    Yields (m >>= k) s Q :=
  Ends.bind h (fun a s' hr => hk a s' (hr a rfl)) fun _ _ _ => nofun

theorem get_bind {k : σ → ExceptT ε (StateM σ) β} (h : Yields (k s) s Q) :
    Yields (get >>= k) s Q :=
  ends_bind.2 (ends_get.2 h)

theorem modify_bind {f : σ → σ} {k : PUnit → ExceptT ε (StateM σ) β}
    (h : Yields (k ⟨⟩) (f s) Q) : Yields (modifyThe σ f >>= k) s Q :=
  ends_bind.2 (ends_modify.2 h)

/-- Behind a demand its condition holds. -/
theorem demand_bind {cond : Prop} [Decidable cond] {e : ε} {k : Unit → ExceptT ε (StateM σ) β}
    (h : cond → Yields (k ()) s Q) : Yields (demand cond e >>= k) s Q :=
  ends_bind.2 (ends_demand.2 ⟨h, fun _ => nofun⟩)

theorem demand {cond : Prop} [Decidable cond] {e : ε} {P : Unit → σ → Prop} (h : cond → P () s) :
    Yields (Library.demand cond e) s P :=
  ends_demand.2 ⟨fun hc _ _ => h hc, fun _ => nofun⟩

/-- What follows is within the relation and the errors where the statement has yielded `P`. -/
theorem bind_within {R : σ → σ → Prop} {E : ε → Prop} [IsTrans σ R] (h : Yields m s P)
    (hm : Within R E m s) (hk : ∀ a s', P a s' → Within R E (k a) s') : Within R E (m >>= k) s :=
  Ends.bind (P := fun r s' => (∀ a, r = .ok a → P a s') ∧ (∀ e, r = .error e → E e) ∧ R s s')
    ⟨h, hm⟩
    (fun a s' ⟨hP, _, hs⟩ => (hk a s' (hP a rfl)).mono fun _ _ ⟨he, hs'⟩ =>
      ⟨he, IsTrans.trans _ _ _ hs hs'⟩)
    fun e _ ⟨_, he, hs⟩ => ⟨fun _ heq => Except.error.inj heq ▸ he e rfl, hs⟩

theorem ite {c : Prop} [Decidable c] {m' : ExceptT ε (StateM σ) α} (h : c → Yields m s P)
    (h' : ¬ c → Yields m' s P) : Yields (if c then m else m') s P :=
  Ends.ite h h'

end Yields

end Library
end SidecarDOS
