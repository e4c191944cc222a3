/-
# States that runs reach

`Reaches step Init Ok s`: a run from an initial state, each of whose inputs is
admitted by `Ok` in the state where it is taken, leads to `s`.  The rule of
invariants is `Reaches.invariant`; what a run may still do later is a run again
(`Reaches.step`, `Reaches.along`), and admitting fewer inputs reaches fewer states
(`Reaches.mono`, `Along.mono`).
-/

import Mathlib.Tactic.Basic

namespace SidecarDOS
namespace Library

variable {σ ι : Type*}

/-- The states that runs of `step` from `Init` reach with inputs admitted by `Ok`. -/
inductive Reaches (step : σ → ι → σ) (Init : σ → Prop) (Ok : σ → ι → Prop) : σ → Prop where
  | init {s : σ} (h : Init s) : Reaches step Init Ok s
  | step {s : σ} {i : ι} (h : Reaches step Init Ok s) (hok : Ok s i) :
      Reaches step Init Ok (step s i)

variable {step : σ → ι → σ} {Init : σ → Prop} {Ok : σ → ι → Prop} {s : σ}

/-- What holds initially and is kept by every admitted input holds in every state reached. -/
theorem Reaches.invariant {I : σ → Prop} (hinit : ∀ s, Init s → I s)
    (hstep : ∀ s i, I s → Ok s i → I (step s i)) (h : Reaches step Init Ok s) : I s := by
  induction h with
  | init h => exact hinit _ h
  | step _ hok ih => exact hstep _ _ ih hok

theorem Reaches.mono {Ok' : σ → ι → Prop} (hok : ∀ s i, Ok s i → Ok' s i)
    (h : Reaches step Init Ok s) : Reaches step Init Ok' s := by
  induction h with
  | init h => exact .init h
  | step _ h ih => exact .step ih (hok _ _ h)

/-- Every input of a list is admitted in the state where it is taken. -/
def Along (step : σ → ι → σ) (Ok : σ → ι → Prop) : σ → List ι → Prop
  | _, [] => True
  | s, i :: is => Ok s i ∧ Along step Ok (step s i) is

instance Along.decidable [∀ s i, Decidable (Ok s i)] :
    ∀ (s : σ) (is : List ι), Decidable (Along step Ok s is)
  | _, [] => .isTrue trivial
  | s, i :: is => @instDecidableAnd _ _ _ (Along.decidable (step s i) is)

theorem Along.of_forall (h : ∀ s i, Ok s i) (s : σ) (is : List ι) : Along step Ok s is := by
  induction is generalizing s with
  | nil => trivial
  | cons i is ih => exact ⟨h s i, ih _⟩

theorem Along.mono {Ok' : σ → ι → Prop} (hok : ∀ s i, Ok s i → Ok' s i) {is : List ι}
    (h : Along step Ok s is) : Along step Ok' s is := by
  induction is generalizing s with
  | nil => trivial
  | cons i is ih => exact ⟨hok s i h.1, ih h.2⟩

theorem Along.and {Ok' : σ → ι → Prop} {is : List ι} (h : Along step Ok s is)
    (h' : Along step Ok' s is) : Along step (fun s i => Ok s i ∧ Ok' s i) s is := by
  induction is generalizing s with
  | nil => trivial
  | cons i is ih => exact ⟨⟨h.1, h'.1⟩, ih h.2 h'.2⟩

theorem Along.append {is is' : List ι} (h : Along step Ok s is)
    (h' : Along step Ok (is.foldl step s) is') : Along step Ok s (is ++ is') := by
  induction is generalizing s with
  | nil => exact h'
  | cons i is ih => exact ⟨h.1, ih h.2 h'⟩

theorem Reaches.along {is : List ι} (h : Reaches step Init Ok s) (hok : Along step Ok s is) :
    Reaches step Init Ok (is.foldl step s) := by
  induction is generalizing s with
  | nil => exact h
  | cons i is ih => exact ih (h.step hok.1) hok.2

end Library
end SidecarDOS
