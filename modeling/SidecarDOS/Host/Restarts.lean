/-
# From one start to the next

`View` is `Machine` with the values of the files in place of their bytes, and `Next` is what an
event can do to it; every step of the machine is one (`step_next`).  What such steps keep is
said by `Hosts`, `Named`, `Trusts` and `Settled`.
-/

import SidecarDOS.Host.Durability

namespace SidecarDOS
namespace Host

open Library (Ends exec ends_pure ends_get ends_bind)

variable {f : Formats} {hand : Hand} {disk : Disk} {start : Start}

theorem Start.length_generated : start.generated.hostId.length = 16 := start.hostId.length_eq

/-- What `run` of `main.rs` does to the files, and what it begins with. -/
structure Starts (f : Formats) (start : Start) (disk : Disk)
    (r : Except (Option Error) (Option Process)) (disk' : Disk) : Prop where
  intact : Intact f disk'
  config : configOf f disk' = configOf f disk ∨
    configOf f disk = none ∧ configOf f disk' = some {}
  identity : identityOf f disk' = identityOf f disk ∨
    ∃ s, Loads (identityOf f disk) start.generated s ∧ (identityOf f disk' = some s ∨
      start.forgets = true ∧ identityOf f disk' = some { s with devices := ∅ })
  begun : ∀ p, r = .ok (some p) → start.forgets = false ∧ configOf f disk' = some p.config ∧
    identityOf f disk' = some p.identity
  forgotten : r = .ok none → ∃ s, identityOf f disk' = some s ∧ s.devices = ∅

theorem identityOf_length {s : Stored} (h : identityOf f disk = some s) :
    s.hostId.length = 16 := by
  obtain ⟨file, -, hfile⟩ := Option.bind_eq_some_iff.1 h
  exact (f.known_eq_some.1 hfile).2

/-- What follows the configuration in `run`. -/
theorem main_tail (h : Intact f disk) (hhand : hand.Legible f) (start : Start) {config : Config}
    (hconfig : configOf f disk = some config) :
    Ends (do
      let identity ← Store.loadIdentity f hand start.reads start.generated
      if start.forgets then
        Store.forgetAll hand identity
        pure none
      else pure (some ⟨config, identity⟩)) disk (Starts f start disk) := by
  refine (loadIdentity_loads h hhand start.reads start.length_generated).bind
    (fun s disk₁ h₁ => ?_) fun e disk₁ h₁ => ?_
  · have hs := h₁.loaded s rfl
    have hloads : Loads (identityOf f disk) start.generated s := by
      rcases h₁.identity with hsame | ⟨hnone, hnew⟩
      · exact .inl (hsame.symm.trans hs)
      · exact .inr ⟨hnone, Option.some.inj (hs.symm.trans hnew)⟩
    refine Ends.ite (fun hforgets => ?_) fun hforgets => ends_pure.2 ?_
    · have hlength : s.hostId.length = 16 := identityOf_length hs
      refine (saveIdentity_saves (s := { s with devices := ∅ }) h₁.intact hhand hlength).bind
        (fun _ disk₂ h₂ => ends_pure.2 ?_) fun e disk₂ h₂ => ?_
      · obtain ⟨hintact, hconfig, ⟨hidentity⟩⟩ := h₂
        exact ⟨hintact, .inl (hconfig.trans h₁.config),
          .inr ⟨s, hloads, .inr ⟨hforgets, hidentity⟩⟩, nofun, fun _ => ⟨_, hidentity, rfl⟩⟩
      · refine ⟨h₂.intact, .inl (h₂.config.trans h₁.config), .inr ⟨s, hloads, ?_⟩, nofun, nofun⟩
        rcases h₂.identity with _ | ⟨e, h⟩ | ⟨h | h⟩
        · exact .inl (h.trans hs)
        · exact .inl (h.trans hs)
        · exact .inr ⟨hforgets, h⟩
    · refine ⟨h₁.intact, .inl h₁.config, .inr ⟨s, hloads, .inl hs⟩, ?_, nofun⟩
      rintro _ ⟨⟩
      exact ⟨by simpa using hforgets, h₁.config.trans hconfig, hs⟩
  · refine ⟨h₁.intact, .inl h₁.config, ?_, nofun, nofun⟩
    rcases h₁.identity with hsame | ⟨hnone, hnew⟩
    · exact .inl hsame
    · exact .inr ⟨_, .inr ⟨hnone, rfl⟩, .inl hnew⟩

theorem main_starts (h : Intact f disk) (hhand : hand.Legible f) (start : Start) :
    Ends (Store.main f hand start) disk (Starts f start disk) := by
  unfold Store.main
  refine (loadConfig_loads h start.reads).bind (fun config disk₁ h₁ => ?_) fun e disk₁ h₁ => ?_
  · obtain ⟨rfl, hloads⟩ := h₁
    refine ends_bind.2 (ends_get.2 ?_)
    dsimp only
    refine Ends.ite (fun hmissing => ?_) fun hthere => ?_
    · have hnone : configOf f disk₁ = none :=
        h.config.value_eq_none.2 (Option.isNone_iff_eq_none.1 hmissing)
      obtain rfl : config = {} := by
        rcases hloads config rfl with hsome | ⟨-, hdefault⟩
        · exact nomatch hsome.symm.trans hnone
        · exact hdefault
      refine (saveConfig_saves h hhand {}).bind (fun _ disk₂ h₂ => ?_) fun e disk₂ h₂ => ?_
      · obtain ⟨hintact, hidentity, ⟨hconfig⟩⟩ := h₂
        refine (main_tail hintact hhand start hconfig).mono fun r disk₃ h₃ => ?_
        refine ⟨h₃.intact, ?_, hidentity ▸ h₃.identity, h₃.begun, h₃.forgotten⟩
        rcases h₃.config with hsame | ⟨-, hnew⟩
        · exact .inr ⟨hnone, hsame.trans hconfig⟩
        · exact .inr ⟨hnone, hnew⟩
      · refine ⟨h₂.intact, ?_, .inl h₂.identity, nofun, nofun⟩
        rcases h₂.config with _ | ⟨e, h⟩ | ⟨h | h⟩
        · exact .inl h
        · exact .inl h
        · exact .inr ⟨hnone, h⟩
    · refine main_tail h hhand start ?_
      rcases hloads config rfl with hsome | ⟨hnone, -⟩
      · exact hsome
      · exact absurd (Option.isNone_iff_eq_none.2 (h.config.value_eq_none.1 hnone)) hthere
  · obtain ⟨rfl, -⟩ := h₁
    exact ⟨h, .inl rfl, .inl rfl, nofun, nofun⟩

/-! ### The values in the files -/

structure View where
  config : Option Config
  identity : Option Stored
  process : Option Process

def Machine.view (f : Formats) (s : Machine) : View :=
  ⟨configOf f s.disk, identityOf f s.disk, s.process⟩

/-- The identity as a client knows it. -/
def Stored.host (s : Stored) : Bytes × Bytes × Bytes := (s.hostId, s.cert, s.key)

namespace View

/-- What an event can do.  A file has its old value or the new one. -/
inductive Next (v : View) : Machine.Event → View → Prop where
  | same (e : Machine.Event) : Next v e v
  | ended (e : Machine.Event) : Next v e { v with process := none }
  | started {hand : Hand} {start : Start} {c : Option Config} {i : Option Stored}
      {p : Option Process} (hconfig : c = v.config ∨ v.config = none ∧ c = some {})
      (hidentity : i = v.identity ∨ ∃ s, Loads v.identity start.generated s ∧
        (i = some s ∨ start.forgets = true ∧ i = some { s with devices := ∅ }))
      (hprocess : ∀ q, p = some q → start.forgets = false ∧ c = some q.config ∧
        i = some q.identity) : Next v (.start hand start) ⟨c, i, p⟩
  | trusted {hand : Hand} {id key : Bytes} {p : Process} {i : Option Stored} {q : Option Process}
      (h : v.process = some p) (hroom : p.identity.devices.keys.length < 64) {s : Stored}
      (hs : s = p.identity.insert id key)
      (hidentity : i = v.identity ∨ i = some s)
      (hprocess : q = none ∨ q = some { p with identity := s }) :
      Next v (.trust hand id key) ⟨v.config, i, q⟩
  | preferred {hand : Hand} {session : Bool} {a : Action} {p : Process} {c : Option Config}
      {q : Option Process} (h : v.process = some p)
      (hconfig : c = v.config ∨ c = some (p.config.after a))
      (hprocess : q = none ∨ q = some { p with config := p.config.after a }) :
      Next v (.prefer hand session a) ⟨c, v.identity, q⟩
  | edited (text : Bytes) (c : Config) : Next v (.edit text) { v with config := some c }

end View

namespace Machine

variable {s s' : Machine} {e : Event}

/-- What the formats write they read, and the user leaves a configuration that is valid. -/
def Admits (f : Formats) (_ : Machine) : Event → Prop
  | .start hand _ | .trust hand _ _ | .prefer hand _ _ => hand.Legible f
  | .edit text => (f.valid text).isSome = true
  | _ => True

/-- The files are whole, and the process has the identity in the file. -/
structure Sound (f : Formats) (s : Machine) : Prop where
  intact : Intact f s.disk
  host : ∀ p, s.process = some p → ∃ i, identityOf f s.disk = some i ∧ i.host = p.identity.host

theorem Sound.length (h : s.Sound f) {p : Process} (hp : s.process = some p) :
    p.identity.hostId.length = 16 := by
  obtain ⟨i, hi, hhost⟩ := h.host p hp
  have hid : i.hostId = p.identity.hostId := congrArg Prod.fst hhost
  exact hid ▸ identityOf_length hi

/-- A process that saves goes on behind it, unless the power is lost. -/
theorem behind_cases (disk : Disk) (p : Option Process) (r : Except (Option Error) Unit) :
    behind disk p r = ⟨disk, p⟩ ∨ behind disk p r = ⟨disk, none⟩ := by
  rcases r with (_ | e) | ⟨⟩
  · exact .inr rfl
  · exact .inl rfl
  · exact .inl rfl

theorem sets_cases {γ : Type} {old new : Option γ} {v : γ} {r : Except (Option Error) Unit}
    (h : Disk.Sets old v r new) : new = old ∨ new = some v := by
  cases h with
  | saved h => exact .inr h
  | failed e h => exact .inl h
  | lost h => exact h

/-- What a step does to the values, and that it leaves the files whole. -/
def Nexts (f : Formats) (s : Machine) (e : Event) (s' : Machine) : Prop :=
  View.Next (s.view f) e (s'.view f) ∧ Intact f s'.disk

theorem trust_next (h : s.Sound f) (hhand : hand.Legible f) (id key : Bytes) :
    Nexts f s (.trust hand id key) (s.step f (.trust hand id key)) := by
  unfold step
  dsimp only
  split
  · exact ⟨.same _, h.intact⟩
  · rename_i p hp
    unfold Stored.trust
    by_cases hroom : p.identity.devices.keys.length < 64
    · rw [if_neg (not_not.2 hroom)]
      rcases hexec : exec (Store.saveIdentity hand (p.identity.insert id key)) s.disk with ⟨r, disk⟩
      have hsaves := (saveIdentity_saves (s := p.identity.insert id key) h.intact hhand
        (h.length hp)).of_exec hexec
      dsimp only
      rcases behind_cases disk (some { p with identity := p.identity.insert id key }) r with
        heq | heq
      all_goals
        rw [heq]
        refine ⟨?_, hsaves.intact⟩
        show View.Next _ _ ⟨configOf f disk, identityOf f disk, _⟩
        rw [hsaves.config]
      · exact .trusted hp hroom rfl (sets_cases hsaves.identity) (.inr rfl)
      · exact .trusted hp hroom rfl (sets_cases hsaves.identity) (.inl rfl)
    · rw [if_pos hroom]
      have hsame : behind s.disk (some p) (.error (some (.ensure "trusted device limit reached"))) =
          s := by
        rw [← hp]
        rfl
      exact ⟨hsame.symm ▸ .same _, h.intact⟩

theorem prefer_next (h : s.Sound f) (hhand : hand.Legible f) (session : Bool) (a : Action) :
    Nexts f s (.prefer hand session a) (s.step f (.prefer hand session a)) := by
  unfold step
  dsimp only
  split
  · exact ⟨.same _, h.intact⟩
  · exact ⟨.same _, h.intact⟩
  · exact ⟨.same _, h.intact⟩
  · rename_i a _ _ p hp _ _
    rcases hexec : exec (Store.saveConfig hand (p.config.after a)) s.disk with ⟨r, disk⟩
    have hsaves := (saveConfig_saves h.intact hhand (p.config.after a)).of_exec hexec
    dsimp only
    have hnext {q : Option Process}
        (hq : q = none ∨ q = some { p with config := p.config.after a }) :
        Nexts f s (.prefer hand session a) ⟨disk, q⟩ := by
      refine ⟨?_, hsaves.intact⟩
      show View.Next _ _ ⟨configOf f disk, identityOf f disk, q⟩
      rw [hsaves.identity]
      exact .preferred hp (sets_cases hsaves.config) hq
    rcases behind_cases disk (if session = true ∨ r.isOk = true then
      some { p with config := p.config.after a } else none) r with heq | heq
    all_goals rw [heq]
    · refine hnext ?_
      split_ifs
      · exact .inr rfl
      · exact .inl rfl
    · exact hnext (.inl rfl)

theorem start_next (h : s.Sound f) (hhand : hand.Legible f) (start : Start) :
    Nexts f s (.start hand start) (s.step f (.start hand start)) := by
  unfold step
  dsimp only
  split
  · exact ⟨.same _, h.intact⟩
  · have hstarts := main_starts h.intact hhand start
    rcases hexec : exec (Store.main f hand start) s.disk with ⟨e | p, disk⟩
    all_goals
      obtain ⟨hintact, hconfig, hidentity, hbegun, -⟩ := hstarts.of_exec hexec
      refine ⟨.started hconfig hidentity ?_, hintact⟩
    · exact nofun
    · rintro q rfl
      exact hbegun q rfl

theorem edit_next (h : s.Sound f) {text : Bytes} (htext : (f.valid text).isSome = true) :
    Nexts f s (.edit text) (s.step f (.edit text)) := by
  obtain ⟨c, hc⟩ := Option.isSome_iff_exists.1 htext
  have hdisk : (s.step f (.edit text)).disk =
      Function.update s.disk configPath (some ⟨text, true⟩) := rfl
  have hwritten : (s.step f (.edit text)).disk configPath = some ⟨text, true⟩ := by
    rw [hdisk, Function.update_self]
  have hother : (s.step f (.edit text)).disk identityPath = s.disk identityPath := by
    rw [hdisk, Function.update_of_ne (by decide)]
  refine ⟨?_, .of_some hwritten hc, h.intact.identity.congr hother⟩
  show View.Next _ _ ⟨Disk.value _ configPath f.valid, Disk.value _ identityPath f.known, _⟩
  rw [(Disk.value_of_some hwritten).trans hc, Disk.value_congr hother]
  exact .edited text c

theorem cut_next (h : s.Sound f) (junk : Path → Option Bytes) :
    Nexts f s (.cut junk) (s.step f (.cut junk)) := by
  have hconfig : (s.step f (.cut junk)).disk configPath = s.disk configPath :=
    h.intact.config.lose junk
  have hidentity : (s.step f (.cut junk)).disk identityPath = s.disk identityPath :=
    h.intact.identity.lose junk
  refine ⟨?_, h.intact.config.congr hconfig, h.intact.identity.congr hidentity⟩
  show View.Next _ _ ⟨Disk.value _ configPath f.valid, Disk.value _ identityPath f.known, _⟩
  rw [Disk.value_congr hconfig, Disk.value_congr hidentity]
  exact .ended _

theorem step_next (h : s.Sound f) (hadmits : Admits f s e) : Nexts f s e (s.step f e) := by
  cases e with
  | start hand start => exact start_next h hadmits start
  | trust hand id key => exact trust_next h hadmits id key
  | prefer hand session a => exact prefer_next h hadmits session a
  | edit text => exact edit_next h hadmits
  | stop => exact ⟨.ended _, h.intact⟩
  | cut junk => exact cut_next h junk

end Machine

/-! ### What every step keeps -/

namespace View

variable {v v' : View} {e : Machine.Event} {x : Bytes × Bytes × Bytes} {id : Bytes}
  {known : Option Bytes} {c : Config}

/-- The process has the identity that is in the file. -/
def Hosts (v : View) : Prop :=
  ∀ p, v.process = some p → ∃ i, v.identity = some i ∧ i.host = p.identity.host

/-- There is an identity, and it is this one. -/
def Named (x : Bytes × Bytes × Bytes) (v : View) : Prop :=
  ∃ i, v.identity = some i ∧ i.host = x

/-- Of this device the file knows just what the process knows. -/
structure Trusts (id : Bytes) (known : Option Bytes) (v : View) : Prop where
  file : ∃ i, v.identity = some i ∧ i.devices.lookup id = known
  process : ∀ p, v.process = some p → p.identity.devices.lookup id = known

/-- The configuration in the file is the one of the process. -/
structure Settled (c : Config) (v : View) : Prop where
  file : v.config = some c
  process : ∀ p, v.process = some p → p.config = c

theorem Next.hosts (h : v.Next e v') (hv : v.Hosts) : v'.Hosts := by
  cases h with
  | same => exact hv
  | ended => exact nofun
  | started hconfig hidentity hprocess =>
    intro q hq
    exact ⟨_, (hprocess q hq).2.2, rfl⟩
  | @trusted _ _ _ p _ _ hp hroom i hs hidentity hprocess =>
    intro q hq
    rcases hprocess with rfl | rfl
    · exact nomatch hq
    obtain rfl := Option.some.inj hq
    rcases hidentity with rfl | rfl
    · obtain ⟨i, hi, hhost⟩ := hv p hp
      exact ⟨i, hi, hs ▸ hhost⟩
    · exact ⟨_, rfl, rfl⟩
  | preferred hp hconfig hprocess =>
    intro q hq
    rcases hprocess with rfl | rfl
    · exact nomatch hq
    obtain rfl := Option.some.inj hq
    obtain ⟨i, hi, hhost⟩ := hv _ hp
    exact ⟨i, hi, hhost⟩
  | edited => exact hv

theorem Next.named (h : v.Next e v') (hv : v.Hosts) (hx : v.Named x) : v'.Named x := by
  obtain ⟨i, hi, hhost⟩ := hx
  cases h with
  | same => exact ⟨i, hi, hhost⟩
  | ended => exact ⟨i, hi, hhost⟩
  | started hconfig hidentity hprocess =>
    rcases hidentity with rfl | ⟨s, hloads, hs⟩
    · exact ⟨i, hi, hhost⟩
    obtain rfl : i = s := by
      rcases hloads with h | ⟨h, -⟩
      · exact Option.some.inj (hi.symm.trans h)
      · exact nomatch hi.symm.trans h
    rcases hs with rfl | ⟨-, rfl⟩
    · exact ⟨_, rfl, hhost⟩
    · exact ⟨_, rfl, hhost⟩
  | trusted hp hroom hs hidentity hprocess =>
    rcases hidentity with rfl | rfl
    · exact ⟨i, hi, hhost⟩
    · obtain ⟨i', hi', hhost'⟩ := hv _ hp
      obtain rfl := Option.some.inj (hi.symm.trans hi')
      exact ⟨_, rfl, hs ▸ hhost'.symm.trans hhost⟩
  | preferred => exact ⟨i, hi, hhost⟩
  | edited => exact ⟨i, hi, hhost⟩

/-- The device is paired. -/
def Pairs (id : Bytes) : Machine.Event → Prop
  | .trust _ id' _ => id' = id
  | _ => False

/-- All devices are forgotten. -/
def Forgets : Machine.Event → Prop
  | .start _ start => start.forgets = true
  | _ => False

theorem Next.trusts (h : v.Next e v') (hpairs : ¬ Pairs id e) (hforgets : Forgets e → known = none)
    (hv : v.Trusts id known) : v'.Trusts id known := by
  obtain ⟨⟨i, hi, hlookup⟩, hknown⟩ := hv
  cases h with
  | same => exact ⟨⟨i, hi, hlookup⟩, hknown⟩
  | ended => exact ⟨⟨i, hi, hlookup⟩, nofun⟩
  | @started _ _ _ i₁ _ hconfig hidentity hprocess =>
    have hfile : ∃ i' : Stored, i₁ = some i' ∧ i'.devices.lookup id = known := by
      rcases hidentity with hsame | ⟨s, hloads, hs | ⟨hstart, hs⟩⟩
      · exact ⟨i, hsame.trans hi, hlookup⟩
      · rcases hloads with h | ⟨h, -⟩
        · exact ⟨i, hs.trans (h.symm.trans hi), hlookup⟩
        · exact nomatch hi.symm.trans h
      · obtain rfl := hforgets hstart
        exact ⟨_, hs, AList.lookup_empty id⟩
    refine ⟨hfile, fun q hq => ?_⟩
    obtain ⟨i', hi', hlookup'⟩ := hfile
    obtain rfl := Option.some.inj (hi'.symm.trans (hprocess q hq).2.2)
    exact hlookup'
  | @trusted _ id' key p _ _ hp hroom s hs hidentity hprocess =>
    have hinsert : s.devices.lookup id = known := by
      rw [hs]
      exact (AList.lookup_insert_ne fun heq => hpairs heq.symm).trans (hknown p hp)
    constructor
    · rcases hidentity with rfl | rfl
      · exact ⟨i, hi, hlookup⟩
      · exact ⟨s, rfl, hinsert⟩
    · intro q hq
      rcases hprocess with rfl | rfl
      · exact nomatch hq
      · obtain rfl := Option.some.inj hq
        exact hinsert
  | preferred hp hconfig hprocess =>
    refine ⟨⟨i, hi, hlookup⟩, fun q hq => ?_⟩
    rcases hprocess with rfl | rfl
    · exact nomatch hq
    · obtain rfl := Option.some.inj hq
      have hlookup' := hknown _ hp
      exact hlookup'
  | edited => exact ⟨⟨i, hi, hlookup⟩, hknown⟩

/-- Another configuration is asked for. -/
def Changes : Machine.Event → Prop
  | .prefer _ _ _ | .edit _ => True
  | _ => False

theorem Next.settled (h : v.Next e v') (he : ¬ Changes e) (hv : v.Settled c) : v'.Settled c := by
  obtain ⟨hc, hprocess⟩ := hv
  cases h with
  | same => exact ⟨hc, hprocess⟩
  | ended => exact ⟨hc, nofun⟩
  | @started _ _ c₁ _ _ hconfig hidentity hbegun =>
    have hfile : c₁ = some c := by
      rcases hconfig with hsame | ⟨hnone, -⟩
      · exact hsame.trans hc
      · exact nomatch hc.symm.trans hnone
    exact ⟨hfile, fun q hq => Option.some.inj ((hbegun q hq).2.1.symm.trans hfile)⟩
  | trusted hp hroom hs hidentity hq =>
    refine ⟨hc, fun q hsome => ?_⟩
    rcases hq with rfl | rfl
    · exact nomatch hsome
    · obtain rfl := Option.some.inj hsome
      have hconfig := hprocess _ hp
      exact hconfig
  | preferred => exact absurd trivial he
  | edited => exact absurd trivial he

/-- The identity `a` has the devices of the process in memory, and those of the file in its
file. -/
structure Represents (a : Identity) (i : Stored) (p : Option Process) : Prop where
  reachable : a.Reachable
  hostId : a.hostId = i.hostId
  cert : a.cert = i.cert
  file : a.file = i.devices
  devices : ∀ q, p = some q → a.devices = q.identity.devices

/-- The identity in the file is one of a run of `Identity`. -/
def Refines (v : View) : Prop := ∀ i, v.identity = some i → ∃ a, Represents a i v.process

theorem Represents.load {a : Identity} {i : Stored} {p : Option Process} (h : Represents a i p) :
    Represents (a.step .load) i none :=
  ⟨h.reachable.step trivial, h.hostId, h.cert, h.file, nofun⟩

theorem represents_generated (start : Start) (p : Option Process)
    (hp : ∀ q, p = some q → start.generated.devices = q.identity.devices) :
    ∃ a, Represents a start.generated p :=
  ⟨⟨start.hostId.bytes, start.cert, ∅, ∅⟩, .init ⟨rfl, rfl⟩, rfl, rfl, rfl, hp⟩

theorem Next.refines (h : v.Next e v') (hv : v.Hosts) (hr : v.Refines) : v'.Refines := by
  cases h with
  | same => exact hr
  | ended =>
    intro i hi
    obtain ⟨a, ha⟩ := hr i hi
    exact ⟨a, ha.reachable, ha.hostId, ha.cert, ha.file, nofun⟩
  | @started _ start _ i₁ p hconfig hidentity hprocess =>
    intro i hi
    obtain rfl : i₁ = some i := hi
    have hdevices : ∀ q, p = some q → i.devices = q.identity.devices := fun q hq =>
      congrArg Stored.devices (Option.some.inj (hprocess q hq).2.2)
    -- The process has what it has loaded from the file.
    have hloaded {i' : Stored} (hi' : v.identity = some i') :
        ∃ a, Represents a i' none ∧ a.devices = i'.devices := by
      obtain ⟨a, ha⟩ := hr i' hi'
      exact ⟨_, ha.load, ha.file⟩
    have hkept (hi : v.identity = some i) : ∃ a, Represents a i p := by
      obtain ⟨a, ha, hsame⟩ := hloaded hi
      exact ⟨a, ha.reachable, ha.hostId, ha.cert, ha.file, fun q hq => hsame.trans (hdevices q hq)⟩
    rcases hidentity with hsame | ⟨s, hloads | ⟨-, rfl⟩, hs | ⟨hforgets, hs⟩⟩
    · exact hkept hsame.symm
    · exact hkept (hloads.trans hs.symm)
    · obtain ⟨a, ha, -⟩ := hloaded hloads
      obtain rfl := Option.some.inj hs
      refine ⟨a.step (.forgetAll true), ha.reachable.step trivial, ha.hostId, ha.cert, rfl,
        fun q hq => ?_⟩
      exact nomatch hforgets.symm.trans (hprocess q hq).1
    · obtain rfl := Option.some.inj hs
      exact represents_generated start p hdevices
    · obtain rfl := Option.some.inj hs
      exact represents_generated start p hdevices
  | @trusted _ id key p i₁ q hp hroom s hs hidentity hprocess =>
    intro i hi
    obtain rfl : i₁ = some i := hi
    obtain ⟨i₀, hi₀, hhost⟩ := hv p hp
    obtain ⟨a, ha⟩ := hr i₀ hi₀
    have hdevices := ha.devices p hp
    have hafter (written : Bool) : ∃ a' : Identity, a'.Reachable ∧ a'.hostId = i₀.hostId ∧
        a'.cert = i₀.cert ∧ a'.devices = s.devices ∧
          a'.file = if written then s.devices else i₀.devices := by
      refine ⟨a.step (.trust id key written), ha.reachable.step trivial, ?_⟩
      rw [Identity.step, ← ha.hostId, ← ha.cert, ← ha.file, hs, Stored.insert, ← hdevices]
      rw [← hdevices] at hroom
      obtain ⟨hfull, -⟩ | ⟨-, rfl, htrust⟩ | ⟨-, rfl, htrust⟩ :=
        Identity.trust_cases a id key written
      · exact absurd hroom (Nat.not_lt.2 hfull)
      · rw [htrust]
        exact ⟨rfl, rfl, rfl, rfl⟩
      · rw [htrust]
        exact ⟨rfl, rfl, rfl, rfl⟩
    have hmemory (q' : Process) (hq' : q = some q') : s.devices = q'.identity.devices := by
      rcases hprocess with rfl | rfl
      · exact nomatch hq'
      · obtain rfl := Option.some.inj hq'
        rfl
    rcases hidentity with hsame | hnew
    · obtain rfl := Option.some.inj (hi₀.symm.trans hsame.symm)
      obtain ⟨a', hreachable, hhostId, hcert, hmem, hfile⟩ := hafter false
      exact ⟨a', hreachable, hhostId, hcert, hfile, fun q' hq' => hmem.trans (hmemory q' hq')⟩
    · obtain rfl := Option.some.inj hnew
      obtain ⟨a', hreachable, hhostId, hcert, hmem, hfile⟩ := hafter true
      have hidentity : i₀.hostId = i.hostId ∧ i₀.cert = i.cert := by
        rw [hs]
        exact ⟨congrArg Prod.fst hhost, congrArg (fun x => x.2.1) hhost⟩
      exact ⟨a', hreachable, hhostId.trans hidentity.1, hcert.trans hidentity.2, hfile,
        fun q' hq' => hmem.trans (hmemory q' hq')⟩
  | preferred hp hconfig hprocess =>
    intro i hi
    obtain ⟨a, ha⟩ := hr i hi
    refine ⟨a, ha.reachable, ha.hostId, ha.cert, ha.file, fun q hq => ?_⟩
    rcases hprocess with rfl | rfl
    · exact nomatch hq
    · obtain rfl := Option.some.inj hq
      have hdevices := ha.devices _ hp
      exact hdevices
  | edited => exact hr

end View

end Host
end SidecarDOS
