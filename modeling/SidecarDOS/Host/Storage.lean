/-
# The files of the host

`atomic_write` of `windows/host/src/config/mod.rs`, the two files under `directory()` with
what loads and saves them (`Config` there, `Identity` of `windows/host/src/pairing/mod.rs`), and
what `run` of `windows/host/src/main.rs` does with them.  `Machine` is the disk with the
host's process; the process can end at any time, and so can the power.  The formats are TOML
and, for the identity, what `CryptProtectData` makes of it.
-/

import SidecarDOS.Host.Authenticate
import SidecarDOS.Host.Preferences
import SidecarDOS.Library.Replace

namespace SidecarDOS
namespace Host

open Library (Folder exec)
open Library.Replace (Ending lose replace)

/-- A file in `directory()`. -/
structure Path where
  stem : String
  extension : String
  deriving DecidableEq

def Path.withExtension (p : Path) (extension : String) : Path := { p with extension := extension }

def configPath : Path := ⟨"config", "toml"⟩

def identityPath : Path := ⟨"identity", "dpapi"⟩

abbrev Disk : Type := Folder Path UInt8

/-- A call of `atomic_write`: its data in the chunks that `write_all` writes, and its end. -/
structure Write where
  chunks : List Bytes
  ending : Ending Path UInt8 := .returned

def Write.data (w : Write) : Bytes := w.chunks.flatten

/-- What works on the files; the error `none` is a loss of power. -/
abbrev Store (α : Type) : Type := ExceptT (Option Error) (StateM Disk) α

/-- Whether the operations succeed, as a result. -/
def Store.result : Option Bool → Except (Option Error) Unit
  | some true => .ok ()
  | some false => .error (some .platform)
  | none => .error none

def atomicWrite (path : Path) (w : Write) : Store Unit := ExceptT.mk fun disk =>
  let out := replace path (path.withExtension "new") w.chunks w.ending disk
  (Store.result out.1, out.2)

/-- `Stored`, and `Identity` without its path. -/
structure Stored where
  hostId : Bytes
  cert : Bytes
  key : Bytes
  devices : AList (fun _ : Bytes => Bytes) := ∅

/-- What reads the files. -/
structure Formats where
  /-- `toml::from_str` for a `Config`. -/
  config : Bytes → Option Config
  /-- `unprotect`, `toml::from_str` for a `Stored` and `hex::decode` for what it holds. -/
  identity : Bytes → Option Stored

/-- What writes them: the call for a value, if that can be serialized and protected. -/
structure Hand where
  config : Config → Option Write
  identity : Stored → Option Write

/-- What is written can be read. -/
structure Hand.Legible (h : Hand) (f : Formats) : Prop where
  config : ∀ c w, h.config c = some w → f.config w.data = some c
  identity : ∀ s w, h.identity s = some w → f.identity w.data = some s

namespace Store

def fails {α : Type} : Store α := throw (some .platform)

def lift {α : Type} : Except Error α → Store α
  | .ok a => pure a
  | .error e => throw (some e)

/-- What is behind a serialization. -/
def write (path : Path) : Option Write → Store Unit
  | none => fails
  | some w => atomicWrite path w

/-- `Config::load`; `reads` tells whether the file can be read. -/
def loadConfig (f : Formats) (reads : Bool) : Store Config := do
  let disk ← get
  match disk configPath with
  | none => do
    lift (Config.validate {})
    pure {}
  | some file =>
    if ¬ reads then fails
    else
      match f.config file.data with
      | none => fails
      | some c => do
        lift c.validate
        pure c

/-- `Config::save`. -/
def saveConfig (h : Hand) (c : Config) : Store Unit := do
  lift c.validate
  write configPath (h.config c)

/-- `Identity::save`. -/
def saveIdentity (h : Hand) (s : Stored) : Store Unit := write identityPath (h.identity s)

/-- `Identity::load`; `generated` is the identity that it makes where there is none. -/
def loadIdentity (f : Formats) (h : Hand) (reads : Bool) (generated : Stored) : Store Stored := do
  let disk ← get
  match disk identityPath with
  | none => do
    saveIdentity h generated
    pure generated
  | some file =>
    if ¬ reads then fails
    else
      match f.identity file.data with
      | none => fails
      | some s =>
        if s.hostId.length = 16 then pure s else throw (some (.ensure "invalid host identity"))

/-- `forget_all`, behind which the identity is not used any more. -/
def forgetAll (h : Hand) (s : Stored) : Store Unit := saveIdentity h { s with devices := ∅ }

end Store

def Stored.insert (s : Stored) (id key : Bytes) : Stored :=
  { s with devices := s.devices.insert id key }

/-- `trust`: the identity is changed in memory first. -/
def Stored.trust (s : Stored) (h : Hand) (id key : Bytes) (disk : Disk) :
    Except (Option Error) Unit × Stored × Disk :=
  if ¬ s.devices.keys.length < 64 then
    (.error (some (.ensure "trusted device limit reached")), s, disk)
  else
    let out := exec (Store.saveIdentity h (s.insert id key)) disk
    (out.1, s.insert id key, out.2)

/-! ### The process -/

structure Process where
  config : Config
  identity : Stored

/-- A start of the host, with the random bytes and the certificate for a new identity. -/
structure Start where
  hostId : Id16
  cert : Bytes
  key : Bytes
  reads : Bool := true
  /-- `--forget-devices`. -/
  forgets : Bool := false

/-- What `Identity::load` makes where there is no file. -/
def Start.generated (start : Start) : Stored := ⟨start.hostId.bytes, start.cert, start.key, ∅⟩

/-- `run` of `main.rs` up to its threads; none begins for `--forget-devices`. -/
def Store.main (f : Formats) (h : Hand) (start : Start) : Store (Option Process) := do
  let config ← loadConfig f start.reads
  let disk ← get
  if (disk configPath).isNone then saveConfig h config
  let identity ← loadIdentity f h start.reads start.generated
  if start.forgets then
    forgetAll h identity
    pure none
  else pure (some ⟨config, identity⟩)

structure Machine where
  disk : Disk := fun _ => none
  process : Option Process := none

inductive Machine.Event where
  | start (h : Hand) (start : Start)
  /-- The call in `authenticate`. -/
  | trust (h : Hand) (id key : Bytes)
  /-- A handler of the tray's action in `run` or in a session, which goes on with the new
  configuration; where the call fails, `run` returns the error, and a session ends. -/
  | prefer (h : Hand) (session : Bool) (a : Action)
  /-- The user writes the configuration. -/
  | edit (text : Bytes)
  | stop
  /-- A loss of power between two calls. -/
  | cut (junk : Path → Option Bytes)

/-- The machine behind a call that ends so. -/
def Machine.behind (disk : Disk) (p : Option Process) : Except (Option Error) Unit → Machine
  | .error none => ⟨disk, none⟩
  | _ => ⟨disk, p⟩

def Machine.step (f : Formats) (s : Machine) : Event → Machine
  | .start h start =>
    match s.process with
    -- "SidecarDOS is already running"
    | some _ => s
    | none =>
      match exec (Store.main f h start) s.disk with
      | (.ok p, disk) => ⟨disk, p⟩
      | (.error _, disk) => ⟨disk, none⟩
  | .trust h id key =>
    match s.process with
    | none => s
    | some p =>
      let out := p.identity.trust h id key s.disk
      .behind out.2.2 (some { p with identity := out.2.1 }) out.1
  | .prefer h session a =>
    match s.process, a with
    | none, _ => s
    | _, .disconnect | _, .exit => s
    | some p, a =>
      let config := p.config.after a
      let out := exec (Store.saveConfig h config) s.disk
      .behind out.2 (if session ∨ out.1.isOk then some { p with config := config } else none) out.1
  | .edit text => { s with disk := Function.update s.disk configPath (some ⟨text, true⟩) }
  | .stop => { s with process := none }
  | .cut junk => ⟨lose junk s.disk, none⟩

end Host
end SidecarDOS
