/-
# What the files hold

At any moment both files hold a whole value that has been saved, whatever fails and
wherever the power is lost: `Intact` is kept by every save, and `Sets` is what a save does
to the value of its file.  `View` is the machine with the values in place of the files.
-/

import SidecarDOS.Host.Storage
import SidecarDOS.Library.Runs
import SidecarDOS.Pairing.Devices

namespace SidecarDOS
namespace Host

open Library (Ends exec ends_pure ends_throw ends_get ends_bind)
open Library.Replace (Flushed lose replace replace_cases replace_other)

namespace Formats

variable (f : Formats)

/-- What `Config::load` returns for the content of its file. -/
def valid (data : Bytes) : Option Config :=
  (f.config data).filter fun c => c.validate = .ok ()

/-- What `Identity::load` returns for the content of its file. -/
def known (data : Bytes) : Option Stored :=
  (f.identity data).filter fun s => s.hostId.length = 16

theorem valid_eq_some {data : Bytes} {c : Config} :
    f.valid data = some c ↔ f.config data = some c ∧ c.validate = .ok () := by
  rw [valid, Option.filter_eq_some_iff, decide_eq_true_iff]

theorem known_eq_some {data : Bytes} {s : Stored} :
    f.known data = some s ↔ f.identity data = some s ∧ s.hostId.length = 16 := by
  rw [known, Option.filter_eq_some_iff, decide_eq_true_iff]

end Formats

namespace Disk

variable {γ δ : Type} {read : Bytes → Option γ} {read' : Bytes → Option δ} {disk : Disk}
  {path other : Path} {v : γ}

/-- The value in a file. -/
def value (disk : Disk) (path : Path) (read : Bytes → Option γ) : Option γ :=
  (disk path).bind fun file => read file.data

/-- A file that is there is on the disk and can be read. -/
def Readable (disk : Disk) (path : Path) (read : Bytes → Option γ) : Prop :=
  ∀ file, disk path = some file → file.flushed = true ∧ (read file.data).isSome = true

/-- What a save of `v` that ends so does to the value in a file. -/
inductive Sets (old : Option γ) (v : γ) : Except (Option Error) Unit → Option γ → Prop where
  | saved {new : Option γ} (h : new = some v) : Sets old v (.ok ()) new
  | failed {new : Option γ} (e : Error) (h : new = old) : Sets old v (.error (some e)) new
  | lost {new : Option γ} (h : new = old ∨ new = some v) : Sets old v (.error none) new

theorem Readable.congr {disk' : Disk} (h : disk.Readable path read)
    (heq : disk' path = disk path) : disk'.Readable path read :=
  fun file hfile => h file (heq.symm.trans hfile)

theorem value_congr {disk' : Disk} (heq : disk' path = disk path) :
    disk'.value path read = disk.value path read := by
  rw [value, value, heq]

theorem Readable.lose (h : disk.Readable path read) (junk : Path → Option Bytes) :
    lose junk disk path = disk path :=
  Flushed.lose (fun file hfile => (h file hfile).1) junk

theorem Readable.of_some {data : Bytes} (h : disk path = some ⟨data, true⟩)
    (hv : read data = some v) : disk.Readable path read := by
  intro file hfile
  obtain rfl := Option.some.inj (h.symm.trans hfile)
  exact ⟨rfl, Option.isSome_iff_exists.2 ⟨v, hv⟩⟩

theorem value_of_some {data : Bytes} {flushed : Bool} (h : disk path = some ⟨data, flushed⟩) :
    disk.value path read = read data := by
  rw [value, h]
  rfl

theorem Readable.value_eq_none (h : disk.Readable path read) :
    disk.value path read = none ↔ disk path = none := by
  cases hfile : disk path with
  | none => simp [value, hfile]
  | some file =>
    have hread := (h file hfile).2
    rw [value, hfile]
    simpa [Option.isSome_iff_ne_none] using hread

/-- What a call of `atomic_write` leaves of its file. -/
theorem atomicWrite_sets (h : disk.Readable path read) (hpath : path.extension ≠ "new") {w : Write}
    (hw : read w.data = some v) : Ends (atomicWrite path w) disk fun r disk' =>
      disk'.Readable path read ∧ Sets (disk.value path read) v r (disk'.value path read) := by
  have htmp : path ≠ path.withExtension "new" := fun heq => hpath (congrArg Path.extension heq)
  have hreplaced := replace_cases htmp (fun file hfile => (h file hfile).1) w.chunks w.ending
  obtain ⟨-, hreturned, hfailed, hlost⟩ := hreplaced
  show Disk.Readable (replace path (path.withExtension "new") w.chunks w.ending disk).2 path read ∧
    Sets _ v (Store.result (replace path (path.withExtension "new") w.chunks w.ending disk).1)
      (Disk.value (replace path (path.withExtension "new") w.chunks w.ending disk).2 path read)
  generalize replace path (path.withExtension "new") w.chunks w.ending disk = out at *
  have hkept (heq : out.2 path = disk path) : Disk.Readable out.2 path read ∧
      Disk.value out.2 path read = disk.value path read := ⟨h.congr heq, value_congr heq⟩
  have hset (heq : out.2 path = some ⟨w.data, true⟩) : Disk.Readable out.2 path read ∧
      Disk.value out.2 path read = some v := ⟨.of_some heq hw, (value_of_some heq).trans hw⟩
  obtain ⟨_ | _ | _, disk'⟩ := out
  · rcases hlost rfl with heq | heq
    · exact ⟨(hkept heq).1, .lost (.inl (hkept heq).2)⟩
    · exact ⟨(hset heq).1, .lost (.inr (hset heq).2)⟩
  · exact ⟨(hkept (hfailed rfl)).1, .failed _ (hkept (hfailed rfl)).2⟩
  · exact ⟨(hset (hreturned rfl)).1, .saved (hset (hreturned rfl)).2⟩

/-- Other files keep their contents. -/
theorem atomicWrite_other (h : disk.Readable other read) (hother : other ≠ path)
    (hext : other.extension ≠ "new") (w : Write) :
    Ends (atomicWrite path w) disk fun _ disk' => disk' other = disk other :=
  replace_other hother (fun heq => hext (congrArg Path.extension heq))
    (fun file hfile => (h file hfile).1) w.chunks w.ending

end Disk

open Disk (Sets)

/-! ### The two files -/

/-- Both files hold what the host loads, if they are there. -/
structure Intact (f : Formats) (disk : Disk) : Prop where
  config : Disk.Readable disk configPath f.valid
  identity : Disk.Readable disk identityPath f.known

section Saves

variable {f : Formats} {hand : Hand} {disk : Disk}

def configOf (f : Formats) (disk : Disk) : Option Config := Disk.value disk configPath f.valid

def identityOf (f : Formats) (disk : Disk) : Option Stored := Disk.value disk identityPath f.known

/-- A save of the configuration. -/
structure SavesConfig (f : Formats) (c : Config) (disk : Disk) (r : Except (Option Error) Unit)
    (disk' : Disk) : Prop where
  intact : Intact f disk'
  identity : identityOf f disk' = identityOf f disk
  config : Sets (configOf f disk) c r (configOf f disk')

/-- A save of the identity. -/
structure SavesIdentity (f : Formats) (s : Stored) (disk : Disk) (r : Except (Option Error) Unit)
    (disk' : Disk) : Prop where
  intact : Intact f disk'
  config : configOf f disk' = configOf f disk
  identity : Sets (identityOf f disk) s r (identityOf f disk')

theorem saveConfig_saves (h : Intact f disk) (hhand : hand.Legible f) (c : Config) :
    Ends (Store.saveConfig hand c) disk (SavesConfig f c disk) := by
  have hfails (e : Error) : SavesConfig f c disk (.error (some e)) disk :=
    ⟨h, rfl, .failed e rfl⟩
  unfold Store.saveConfig
  refine ends_bind.2 ?_
  cases hvalid : c.validate with
  | error e => exact hfails e
  | ok _ =>
    show Ends (Store.write configPath (hand.config c)) disk _
    cases hw : hand.config c with
    | none => exact hfails _
    | some w =>
      have hdata : f.valid w.data = some c := f.valid_eq_some.2 ⟨hhand.config c w hw, hvalid⟩
      have hsets := Disk.atomicWrite_sets h.config (by decide) hdata
      have hother : (exec (atomicWrite configPath w) disk).2 identityPath = disk identityPath :=
        Disk.atomicWrite_other h.identity (by decide) (by decide) w
      exact ⟨⟨hsets.1, h.identity.congr hother⟩, Disk.value_congr hother, hsets.2⟩

theorem saveIdentity_saves (h : Intact f disk) (hhand : hand.Legible f) {s : Stored}
    (hlength : s.hostId.length = 16) :
    Ends (Store.saveIdentity hand s) disk (SavesIdentity f s disk) := by
  unfold Store.saveIdentity
  cases hw : hand.identity s with
  | none => exact ⟨h, rfl, .failed _ rfl⟩
  | some w =>
    have hdata : f.known w.data = some s := f.known_eq_some.2 ⟨hhand.identity s w hw, hlength⟩
    have hsets := Disk.atomicWrite_sets h.identity (by decide) hdata
    have hother : (exec (atomicWrite identityPath w) disk).2 configPath = disk configPath :=
      Disk.atomicWrite_other h.config (by decide) (by decide) w
    exact ⟨⟨h.config.congr hother, hsets.1⟩, Disk.value_congr hother, hsets.2⟩

/-- What `Config::load` returns. -/
def Loads {γ : Type} (old : Option γ) (generated v : γ) : Prop :=
  old = some v ∨ old = none ∧ v = generated

theorem loadConfig_loads (h : Intact f disk) (reads : Bool) :
    Ends (Store.loadConfig f reads) disk fun r disk' => disk' = disk ∧
      ∀ c, r = .ok c → Loads (configOf f disk) {} c := by
  unfold Store.loadConfig
  refine ends_bind.2 (ends_get.2 ?_)
  dsimp only
  cases hfile : disk configPath with
  | none =>
    refine ⟨rfl, fun c hc => .inr ⟨h.config.value_eq_none.2 hfile, ?_⟩⟩
    exact (Except.ok.inj hc).symm
  | some file =>
    refine Ends.ite (fun _ => ends_throw.2 ⟨rfl, nofun⟩) fun _ => ?_
    cases hc : f.config file.data with
    | none => exact ⟨rfl, nofun⟩
    | some c =>
      refine ends_bind.2 ?_
      cases hvalid : c.validate with
      | error e => exact ⟨rfl, nofun⟩
      | ok _ =>
        refine ⟨rfl, ?_⟩
        rintro _ ⟨⟩
        refine .inl ?_
        rw [configOf, Disk.value, hfile]
        exact f.valid_eq_some.2 ⟨hc, hvalid⟩

/-- What `Identity::load` does. -/
structure LoadsIdentity (f : Formats) (generated : Stored) (disk : Disk)
    (r : Except (Option Error) Stored) (disk' : Disk) : Prop where
  intact : Intact f disk'
  config : configOf f disk' = configOf f disk
  identity : identityOf f disk' = identityOf f disk ∨
    identityOf f disk = none ∧ identityOf f disk' = some generated
  loaded : ∀ s, r = .ok s → identityOf f disk' = some s

theorem loadIdentity_loads (h : Intact f disk) (hhand : hand.Legible f) (reads : Bool)
    {generated : Stored} (hlength : generated.hostId.length = 16) :
    Ends (Store.loadIdentity f hand reads generated) disk (LoadsIdentity f generated disk) := by
  have hfails (e : Option Error) : LoadsIdentity f generated disk (.error e) disk :=
    ⟨h, rfl, .inl rfl, nofun⟩
  unfold Store.loadIdentity
  refine ends_bind.2 (ends_get.2 ?_)
  dsimp only
  cases hfile : disk identityPath with
  | none =>
    have hnone : identityOf f disk = none := h.identity.value_eq_none.2 hfile
    refine (saveIdentity_saves h hhand hlength).bind (fun _ disk' hs => ?_) fun e disk' hs => ?_
    · obtain ⟨hintact, hconfig, ⟨hidentity⟩⟩ := hs
      refine ends_pure.2 ⟨hintact, hconfig, .inr ⟨hnone, hidentity⟩, ?_⟩
      rintro _ ⟨⟩
      exact hidentity
    · refine ⟨hs.intact, hs.config, ?_, nofun⟩
      rcases hs.identity with _ | ⟨e, h⟩ | ⟨h | h⟩
      · exact .inl h
      · exact .inl h
      · exact .inr ⟨hnone, h⟩
  | some file =>
    refine Ends.ite (fun _ => ends_throw.2 (hfails _)) fun _ => ?_
    cases hs : f.identity file.data with
    | none => exact hfails _
    | some s =>
      refine Ends.ite (fun hlength => ends_pure.2 ⟨h, rfl, .inl rfl, ?_⟩) fun _ =>
        ends_throw.2 (hfails _)
      rintro _ ⟨⟩
      rw [identityOf, Disk.value, hfile]
      exact f.known_eq_some.2 ⟨hs, hlength⟩

end Saves

end Host
end SidecarDOS
