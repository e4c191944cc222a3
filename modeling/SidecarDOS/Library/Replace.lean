/-
# Replacing a file

The new content is written to another file beside it and flushed, and then that file takes
the name.  What has not been flushed is anything after a loss of power.  Wherever a
replacement ends, the file has its old content or all of the new one, and the new one if
it succeeds, the old one if it fails (`Replace.replace_cases`); other files keep theirs
(`Replace.replace_other`).
-/

import Mathlib.Data.Nat.Notation
import Mathlib.Logic.Function.Basic

namespace SidecarDOS
namespace Library

/-- A file, and whether its content is on the disk. -/
structure File (β : Type*) where
  data : List β
  flushed : Bool
  deriving DecidableEq

abbrev Folder (ν β : Type*) : Type _ := ν → Option (File β)

namespace Replace

variable {ν β : Type*} [DecidableEq ν]

inductive Op (β : Type*) where
  | create
  | append (chunk : List β)
  | flush
  /-- The other file takes the name, which is on the disk then. -/
  | rename

/-- An operation on the file `tmp`, which is to become `path`. -/
def Op.apply (path tmp : ν) (folder : Folder ν β) : Op β → Folder ν β
  | .create => Function.update folder tmp (some ⟨[], false⟩)
  | .append chunk =>
    Function.update folder tmp ((folder tmp).map fun f => ⟨f.data ++ chunk, false⟩)
  | .flush => Function.update folder tmp ((folder tmp).map fun f => { f with flushed := true })
  | .rename => Function.update (Function.update folder path (folder tmp)) tmp none

/-- A loss of power; `junk` is what there is of a content that has not been flushed. -/
def lose (junk : ν → Option (List β)) (folder : Folder ν β) : Folder ν β := fun name =>
  (folder name).bind fun f => if f.flushed then f else (junk name).map fun data => ⟨data, true⟩

/-- How a replacement ends: behind its last operation, with the failure of one, which may leave
anything in the other file, or with a loss of power; the latter two behind `n` operations. -/
inductive Ending (ν β : Type*) where
  | returned
  | failed (n : ℕ) (left : Option (File β))
  | lost (n : ℕ) (junk : ν → Option (List β))

/-- Operations up to their end: whether they succeed, unless the power is lost before. -/
def run (path tmp : ν) : List (Op β) → Ending ν β → Folder ν β → Option Bool × Folder ν β
  | _, .lost 0 junk, folder => (none, lose junk folder)
  | [], _, folder => (some true, folder)
  | _ :: _, .failed 0 left, folder => (some false, Function.update folder tmp left)
  | op :: ops, .returned, folder => run path tmp ops .returned (op.apply path tmp folder)
  | op :: ops, .failed (n + 1) left, folder =>
    run path tmp ops (.failed n left) (op.apply path tmp folder)
  | op :: ops, .lost (n + 1) junk, folder =>
    run path tmp ops (.lost n junk) (op.apply path tmp folder)

/-- What precedes the renaming; the content is written in these chunks. -/
def writes (chunks : List (List β)) : List (Op β) :=
  .create :: (chunks.map .append ++ [.flush])

def replace (path tmp : ν) (chunks : List (List β)) (ending : Ending ν β) (folder : Folder ν β) :
    Option Bool × Folder ν β :=
  run path tmp (writes chunks ++ [.rename]) ending folder

variable {path tmp name : ν} {folder : Folder ν β} {ending : Ending ν β}

/-- What there is of a file is on the disk. -/
def Flushed (folder : Folder ν β) (name : ν) : Prop :=
  ∀ f, folder name = some f → f.flushed = true

omit [DecidableEq ν] in
theorem Flushed.lose (h : Flushed folder name) (junk : ν → Option (List β)) :
    lose junk folder name = folder name := by
  unfold Replace.lose
  cases hfile : folder name with
  | none => rfl
  | some f => exact if_pos (h f hfile)

/-- An operation that is not the last one writes only to the other file. -/
def Op.Writes : Op β → Prop
  | .rename => False
  | _ => True

theorem Op.apply_of_writes {op : Op β} (hop : op.Writes) (hname : name ≠ tmp) :
    op.apply path tmp folder name = folder name := by
  cases op with
  | rename => exact hop.elim
  | create => exact Function.update_of_ne hname ..
  | append chunk => exact Function.update_of_ne hname ..
  | flush => exact Function.update_of_ne hname ..

/-- The content that is there before the last operation. -/
theorem foldl_written (path tmp : ν) (chunks : List (List β)) (folder : Folder ν β) :
    (writes chunks).foldl (Op.apply path tmp) folder tmp = some ⟨chunks.flatten, true⟩ := by
  have happend (folder : Folder ν β) (data : List β) (flushed : Bool)
      (h : folder tmp = some ⟨data, flushed⟩) : ∃ flushed, (chunks.map Op.append).foldl
        (Op.apply path tmp) folder tmp = some ⟨data ++ chunks.flatten, flushed⟩ := by
    induction chunks generalizing folder data flushed with
    | nil => exact ⟨flushed, by simpa using h⟩
    | cons chunk chunks ih =>
      rw [List.flatten_cons, ← List.append_assoc]
      refine ih _ (data ++ chunk) false ?_
      show Function.update folder tmp _ tmp = _
      rw [Function.update_self, h]
      rfl
  obtain ⟨flushed, hwritten⟩ := happend (Function.update folder tmp (some ⟨[], false⟩)) [] false
    (Function.update_self ..)
  rw [writes, List.foldl_cons, List.foldl_append]
  show Function.update _ tmp _ tmp = _
  rw [Function.update_self]
  exact congrArg (Option.map _) hwritten

/-- The outcomes of a replacement of `old` by `new`. -/
inductive Outcome (path : ν) (old new : Option (File β)) : Option Bool × Folder ν β → Prop where
  | returned {folder : Folder ν β} (h : folder path = new) :
    Outcome path old new (some true, folder)
  | failed {folder : Folder ν β} (h : folder path = old) :
    Outcome path old new (some false, folder)
  | lost {folder : Folder ν β} (junk : ν → Option (List β))
      (h : folder path = old ∨ folder path = new) : Outcome path old new (none, lose junk folder)

/-- How a run of operations ends of which only the last one renames. -/
theorem run_outcome {ops : List (Op β)} (hops : ∀ op ∈ ops, op.Writes) (hne : path ≠ tmp)
    (folder : Folder ν β) (ending : Ending ν β) :
    Outcome path (folder path) (ops.foldl (Op.apply path tmp) folder tmp)
      (run path tmp (ops ++ [.rename]) ending folder) := by
  induction ops generalizing folder ending with
  | nil =>
    have hrename : Op.rename.apply path tmp folder path = folder tmp :=
      (Function.update_of_ne hne ..).trans (Function.update_self ..)
    cases ending with
    | returned => exact .returned hrename
    | failed n left =>
      cases n with
      | zero => exact .failed (Function.update_of_ne hne ..)
      | succ n => exact .returned hrename
    | lost n junk =>
      match n with
      | 0 => exact .lost junk (.inl rfl)
      | 1 => exact .lost junk (.inr hrename)
      | n + 2 => exact .returned hrename
  | cons op ops ih =>
    obtain ⟨hop, hops⟩ := List.forall_mem_cons.1 hops
    have hrest (ending : Ending ν β) := ih hops (op.apply path tmp folder) ending
    rw [op.apply_of_writes hop hne] at hrest
    cases ending with
    | returned => exact hrest .returned
    | failed n left =>
      cases n with
      | zero => exact .failed (Function.update_of_ne hne ..)
      | succ n => exact hrest (.failed n left)
    | lost n junk =>
      cases n with
      | zero => exact .lost junk (.inl rfl)
      | succ n => exact hrest (.lost n junk)

theorem run_other (hpath : name ≠ path) (htmp : name ≠ tmp) (hflushed : Flushed folder name)
    (ops : List (Op β)) (ending : Ending ν β) :
    (run path tmp ops ending folder).2 name = folder name := by
  induction ops generalizing folder ending with
  | nil =>
    cases ending with
    | returned => rfl
    | failed n left => rfl
    | lost n junk =>
      cases n with
      | zero => exact hflushed.lose junk
      | succ n => rfl
  | cons op ops ih =>
    have happly : op.apply path tmp folder name = folder name := by
      cases op with
      | rename => exact (Function.update_of_ne htmp ..).trans (Function.update_of_ne hpath ..)
      | create => exact Function.update_of_ne htmp ..
      | append chunk => exact Function.update_of_ne htmp ..
      | flush => exact Function.update_of_ne htmp ..
    have hrest (ending : Ending ν β) :
        (run path tmp ops ending (op.apply path tmp folder)).2 name = folder name :=
      (ih (fun f hf => hflushed f (happly ▸ hf)) ending).trans happly
    cases ending with
    | returned => exact hrest .returned
    | failed n left =>
      cases n with
      | zero => exact Function.update_of_ne htmp ..
      | succ n => exact hrest (.failed n left)
    | lost n junk =>
      cases n with
      | zero => exact hflushed.lose junk
      | succ n => exact hrest (.lost n junk)

theorem run_returned (ops : List (Op β)) : (run path tmp ops .returned folder).1 = some true := by
  induction ops generalizing folder with
  | nil => rfl
  | cons op ops ih => exact ih

/-- Other files keep their contents. -/
theorem replace_other (hpath : name ≠ path) (htmp : name ≠ tmp) (hflushed : Flushed folder name)
    (chunks : List (List β)) (ending : Ending ν β) :
    (replace path tmp chunks ending folder).2 name = folder name :=
  run_other hpath htmp hflushed _ ending

/-- What a replacement leaves of a file that is on the disk: the new content, which is flushed, if
it succeeds, the old one if it fails, and one of them after a loss of power. -/
structure Replaced (path : ν) (folder : Folder ν β) (data : List β)
    (r : Option Bool × Folder ν β) : Prop where
  flushed : Flushed r.2 path
  returned : r.1 = some true → r.2 path = some ⟨data, true⟩
  failed : r.1 = some false → r.2 path = folder path
  lost : r.1 = none → r.2 path = folder path ∨ r.2 path = some ⟨data, true⟩

omit [DecidableEq ν] in
theorem Outcome.replaced {data : List β} {r : Option Bool × Folder ν β}
    (h : Outcome path (folder path) (some ⟨data, true⟩) r) (hflushed : Flushed folder path) :
    Replaced path folder data r := by
  have hkept {folder' : Folder ν β}
      (h : folder' path = folder path ∨ folder' path = some ⟨data, true⟩) :
      Flushed folder' path := by
    rcases h with h | h
    · exact fun f hf => hflushed f (h.symm.trans hf)
    · intro f hf
      rw [h] at hf
      exact congrArg File.flushed (Option.some.inj hf).symm
  cases h with
  | returned h => exact ⟨hkept (.inr h), fun _ => h, nofun, nofun⟩
  | failed h => exact ⟨hkept (.inl h), nofun, fun _ => h, nofun⟩
  | lost junk h =>
    have hlose := (hkept h).lose junk
    rw [← hlose] at h
    exact ⟨hkept h, nofun, nofun, fun _ => h⟩

/-- **A file is replaced as a whole.** -/
theorem replace_cases (hne : path ≠ tmp) (hflushed : Flushed folder path)
    (chunks : List (List β)) (ending : Ending ν β) :
    Replaced path folder chunks.flatten (replace path tmp chunks ending folder) := by
  have hwrites : ∀ op ∈ writes chunks, op.Writes := by
    intro op hop
    rcases List.mem_cons.1 hop with rfl | hop
    · trivial
    rcases List.mem_append.1 hop with hop | hop
    · obtain ⟨chunk, -, rfl⟩ := List.mem_map.1 hop
      trivial
    · rw [List.mem_singleton.1 hop]
      trivial
  have houtcome := run_outcome hwrites hne folder ending
  rw [foldl_written] at houtcome
  exact houtcome.replaced hflushed

end Replace

end Library
end SidecarDOS
