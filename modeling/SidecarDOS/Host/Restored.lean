/-
# What lasts

Runs of `Machine` from a directory without the two files: starts, calls and ends of the
process, failures, losses of power.  A host starts whenever nothing fails, from whatever
a run has left (`starts`), and it is the same host as ever (`host_kept`).  A device that has
been trusted is trusted in all later processes until it is paired again or all devices are
forgotten, and one that has been forgotten is not (`devices_kept`); a preference that has
been saved lasts (`config_kept`).  The devices in memory and in the file are those of a run of
`Identity`, whose file is always written as a whole (`abstractly_kept`).
-/

import SidecarDOS.Host.Restarts

namespace SidecarDOS
namespace Host

open Library (Reaches Along Ends exec ends_pure ends_get ends_bind)
open Library.Replace (replace run_returned)

namespace Machine

variable {f : Formats} {s : Machine} {es : List Event}

/-- The host has never been started. -/
def Init (s : Machine) : Prop :=
  s.process = none ∧ s.disk configPath = none ∧ s.disk identityPath = none

abbrev Reachable (f : Formats) (s : Machine) : Prop := Reaches (step f) Init (Admits f) s

theorem Sound.init (h : Init s) : s.Sound f := by
  obtain ⟨hprocess, hconfig, hidentity⟩ := h
  refine ⟨⟨fun file hfile => ?_, fun file hfile => ?_⟩, fun p hp => ?_⟩
  · exact nomatch hconfig.symm.trans hfile
  · exact nomatch hidentity.symm.trans hfile
  · exact nomatch hprocess.symm.trans hp

theorem Sound.step (h : s.Sound f) {e : Event} (hadmits : Admits f s e) : (s.step f e).Sound f := by
  obtain ⟨hnext, hintact⟩ := step_next h hadmits
  exact ⟨hintact, hnext.hosts h.host⟩

theorem Sound.of_reachable (h : Reachable f s) : s.Sound f :=
  h.invariant (fun _ => .init) fun _ _ hs hadmits => hs.step hadmits

/-- What every step keeps of a view is kept along a run. -/
theorem keeps {I : View → Prop} {P : Event → Prop}
    (hkeep : ∀ v e v', View.Next v e v' → v.Hosts → P e → I v → I v')
    (h : s.Sound f) (hes : Along (step f) (Admits f) s es) (hok : ∀ e ∈ es, P e)
    (hI : I (s.view f)) : I ((es.foldl (step f) s).view f) := by
  induction es generalizing s with
  | nil => exact hI
  | cons e es ih =>
    obtain ⟨he, hok⟩ := List.forall_mem_cons.1 hok
    exact ih (h.step hes.1) hes.2 hok (hkeep _ _ _ (step_next h hes.1).1 h.host he hI)

/-- **The host stays the same.**  Once a process of the host has started, all later ones have its
identifier, its certificate and its key, which the clients know it by. -/
theorem host_kept (h : Reachable f s) {p : Process} (hp : s.process = some p)
    (hes : Along (step f) (Admits f) s es) {p' : Process}
    (hp' : (es.foldl (step f) s).process = some p') : p'.identity.host = p.identity.host := by
  have hsound := Sound.of_reachable h
  have hnamed : ((es.foldl (step f) s).view f).Named p.identity.host :=
    keeps (P := fun _ => True) (fun _ _ _ hnext hhosts _ => hnext.named hhosts) hsound hes
      (fun _ _ => trivial) (hsound.host p hp)
  obtain ⟨i, hi, hhost⟩ := hnamed
  obtain ⟨i', hi', hhost'⟩ := (Sound.of_reachable (h.along hes)).host p' hp'
  obtain rfl := Option.some.inj (hi.symm.trans hi')
  exact hhost'.symm.trans hhost

/-- What a call of `trust` leaves that returns. -/
theorem trust_trusts (h : s.Sound f) {p : Process} (hp : s.process = some p) {hand : Hand}
    (hhand : hand.Legible f) {id key : Bytes}
    (hok : (p.identity.trust hand id key s.disk).1 = .ok ()) :
    ((s.step f (.trust hand id key)).view f).Trusts id (some key) := by
  rcases hexec : exec (Store.saveIdentity hand (p.identity.insert id key)) s.disk with ⟨r, disk⟩
  have hsaves := (saveIdentity_saves (s := p.identity.insert id key) h.intact hhand
    (h.length hp)).of_exec hexec
  have htrust : p.identity.trust hand id key s.disk = (.ok (), p.identity.insert id key, disk) ∧
      r = .ok () := by
    unfold Stored.trust at hok ⊢
    split_ifs at hok ⊢
    rw [hexec] at hok ⊢
    obtain rfl : r = .ok () := hok
    exact ⟨rfl, rfl⟩
  obtain ⟨htrust, rfl⟩ := htrust
  obtain ⟨-, -, ⟨hidentity⟩⟩ := hsaves
  have hstep : s.step f (.trust hand id key) =
      ⟨disk, some { p with identity := p.identity.insert id key }⟩ := by
    unfold step
    dsimp only
    rw [hp]
    dsimp only
    rw [htrust]
    rfl
  rw [hstep]
  refine ⟨⟨_, hidentity, AList.lookup_insert _⟩, fun q hq => ?_⟩
  obtain rfl := Option.some.inj hq
  exact AList.lookup_insert _

/-- A start that returns. -/
theorem step_start (hp : s.process = none) {hand : Hand} {start : Start} {p : Option Process}
    {disk : Disk} (hexec : exec (Store.main f hand start) s.disk = (.ok p, disk)) :
    s.step f (.start hand start) = ⟨disk, p⟩ := by
  unfold step
  dsimp only
  rw [hp]
  dsimp only
  rw [hexec]

/-- What a start leaves that forgets all devices and succeeds. -/
theorem forgets_trusts (h : s.Sound f) (hp : s.process = none) {hand : Hand}
    (hhand : hand.Legible f) {start : Start}
    (hok : (exec (Store.main f hand start) s.disk).1 = .ok none) (id : Bytes) :
    ((s.step f (.start hand start)).view f).Trusts id none := by
  have hstarts := (main_starts h.intact hhand start).of_exec (Prod.ext hok rfl)
  obtain ⟨i, hi, hdevices⟩ := hstarts.forgotten rfl
  rcases hexec : exec (Store.main f hand start) s.disk with ⟨r, disk⟩
  rw [hexec] at hok hi
  obtain rfl : r = .ok none := hok
  rw [step_start hp hexec]
  exact ⟨⟨i, hi, hdevices ▸ AList.lookup_empty id⟩, nofun⟩

/-- **Devices are kept, and forgotten ones stay forgotten.**  A device whose pairing has returned
is trusted under its key in all later processes, as long as it is not paired again and the devices
are not forgotten; and after a start that has forgotten them none is trusted that is not paired
again, whether or not they are forgotten once more. -/
theorem devices_kept (h : Reachable f s) {hand : Hand} (hhand : hand.Legible f) {id : Bytes} :
    (∀ p key, s.process = some p → (p.identity.trust hand id key s.disk).1 = .ok () →
      ∀ es, Along (step f) (Admits f) (s.step f (.trust hand id key)) es →
        (∀ e ∈ es, ¬ View.Pairs id e ∧ ¬ View.Forgets e) → ∀ p', (es.foldl (step f)
          (s.step f (.trust hand id key))).process = some p' →
            p'.identity.devices.lookup id = some key) ∧
    ∀ start, s.process = none → (exec (Store.main f hand start) s.disk).1 = .ok none →
      ∀ es, Along (step f) (Admits f) (s.step f (.start hand start)) es →
        (∀ e ∈ es, ¬ View.Pairs id e) → ∀ p', (es.foldl (step f)
          (s.step f (.start hand start))).process = some p' →
            p'.identity.devices.lookup id = none := by
  have hsound := Sound.of_reachable h
  have hkept {s' : Machine} (hs' : s'.Sound f) {known : Option Bytes} {es : List Event}
      (hes : Along (step f) (Admits f) s' es)
      (hspares : ∀ e ∈ es, ¬ View.Pairs id e ∧ (View.Forgets e → known = none))
      (htrusts : (s'.view f).Trusts id known) : ((es.foldl (step f) s').view f).Trusts id known :=
    keeps (fun _ _ _ hnext _ he hv => hnext.trusts he.1 he.2 hv) hs' hes hspares htrusts
  refine ⟨fun p key hp hok es hes hspares p' hp' => ?_,
    fun start hp hok es hes hspares p' hp' => ?_⟩
  · exact (hkept (hsound.step (e := .trust hand id key) hhand) hes
      (fun e he => ⟨(hspares e he).1, fun hforgets => absurd hforgets (hspares e he).2⟩)
      (trust_trusts hsound hp hhand hok)).process p' hp'
  · exact (hkept (hsound.step (e := .start hand start) hhand) hes
      (fun e he => ⟨hspares e he, fun _ => rfl⟩)
      (forgets_trusts hsound hp hhand hok id)).process p' hp'

/-- **A preference that has been saved lasts.**  When the handler of a tray action has saved the
configuration, all later processes have it, until another one is asked for. -/
theorem config_kept (h : Reachable f s) {p : Process} (hp : s.process = some p) {hand : Hand}
    (hhand : hand.Legible f) {session : Bool} {a : Action} (ha : a ≠ .disconnect ∧ a ≠ .exit)
    (hok : (exec (Store.saveConfig hand (p.config.after a)) s.disk).1 = .ok ())
    (hes : Along (step f) (Admits f) (s.step f (.prefer hand session a)) es)
    (hchanges : ∀ e ∈ es, ¬ View.Changes e) {p' : Process}
    (hp' : (es.foldl (step f) (s.step f (.prefer hand session a))).process = some p') :
    p'.config = p.config.after a := by
  have hsound := Sound.of_reachable h
  have hsettled : ((s.step f (.prefer hand session a)).view f).Settled (p.config.after a) := by
    rcases hexec : exec (Store.saveConfig hand (p.config.after a)) s.disk with ⟨r, disk⟩
    have hsaves := (saveConfig_saves hsound.intact hhand (p.config.after a)).of_exec hexec
    rw [hexec] at hok
    obtain rfl : r = .ok () := hok
    obtain ⟨-, -, ⟨hconfig⟩⟩ := hsaves
    have hstep : s.step f (.prefer hand session a) =
        ⟨disk, some { p with config := p.config.after a }⟩ := by
      unfold step
      dsimp only
      rw [hp]
      cases a with
      | disconnect => exact absurd rfl ha.1
      | exit => exact absurd rfl ha.2
      | position _ | quality _ =>
        dsimp only
        rw [hexec, if_pos (.inr rfl)]
        rfl
    rw [hstep]
    refine ⟨hconfig, fun q hq => ?_⟩
    obtain rfl := Option.some.inj hq
    rfl
  exact (keeps (fun _ _ _ hnext _ he hv => hnext.settled he hv)
    (hsound.step (e := .prefer hand session a) hhand) hes hchanges hsettled).process p' hp'

/-! ### Starts -/

theorem loadConfig_returns {disk : Disk} (h : Intact f disk) :
    Ends (Store.loadConfig f true) disk fun r disk' => disk' = disk ∧
      ∃ c, r = .ok c ∧ (disk configPath = none → c = {}) := by
  unfold Store.loadConfig
  refine ends_bind.2 (ends_get.2 ?_)
  dsimp only
  cases hfile : disk configPath with
  | none =>
    rw [Config.validate_default]
    exact ⟨rfl, {}, rfl, fun _ => rfl⟩
  | some file =>
    obtain ⟨c, hc⟩ := Option.isSome_iff_exists.1 (h.config file hfile).2
    obtain ⟨hc, hvalid⟩ := f.valid_eq_some.1 hc
    dsimp only
    rw [hc, if_neg (by decide)]
    dsimp only
    rw [hvalid]
    exact ⟨rfl, c, rfl, nofun⟩

theorem atomicWrite_returns (path : Path) {w : Write} (hw : w.ending = .returned) (disk : Disk) :
    Ends (atomicWrite path w) disk fun r _ => r = .ok () := by
  show Store.result (replace path (path.withExtension "new") w.chunks w.ending disk).1 = .ok ()
  rw [hw, replace, run_returned]
  rfl

theorem loadIdentity_returns {disk : Disk} (h : Intact f disk) {hand : Hand} {generated : Stored}
    (hidentity : disk identityPath = none →
      ∃ w, hand.identity generated = some w ∧ w.ending = .returned) :
    Ends (Store.loadIdentity f hand true generated) disk fun r _ => ∃ i, r = .ok i := by
  unfold Store.loadIdentity
  refine ends_bind.2 (ends_get.2 ?_)
  dsimp only
  cases hfile : disk identityPath with
  | none =>
    obtain ⟨w, hw, hending⟩ := hidentity hfile
    have hsave : Ends (Store.saveIdentity hand generated) disk fun r _ => r = .ok () := by
      rw [Store.saveIdentity, hw]
      exact atomicWrite_returns identityPath hending disk
    exact hsave.bind (fun _ _ _ => ends_pure.2 ⟨_, rfl⟩) fun _ _ => nofun
  | some file =>
    obtain ⟨i, hi⟩ := Option.isSome_iff_exists.1 (h.identity file hfile).2
    obtain ⟨hi, hlength⟩ := f.known_eq_some.1 hi
    dsimp only
    rw [hi, if_neg (by decide)]
    dsimp only
    rw [if_pos hlength]
    exact ⟨i, rfl⟩

/-- A start of which nothing fails. -/
theorem main_returns {disk : Disk} (h : Intact f disk) {hand : Hand} (hhand : hand.Legible f)
    {start : Start} (hstart : start.reads = true ∧ start.forgets = false)
    (hconfig : disk configPath = none → ∃ w, hand.config {} = some w ∧ w.ending = .returned)
    (hidentity : disk identityPath = none →
      ∃ w, hand.identity start.generated = some w ∧ w.ending = .returned) :
    Ends (Store.main f hand start) disk fun r _ => ∃ p, r = .ok (some p) := by
  unfold Store.main
  rw [hstart.1, hstart.2]
  have htail {disk : Disk} (h : Intact f disk) (hidentity : disk identityPath = none →
      ∃ w, hand.identity start.generated = some w ∧ w.ending = .returned) (config : Config) :
      Ends (do
        let identity ← Store.loadIdentity f hand true start.generated
        if false = true then
          Store.forgetAll hand identity
          pure none
        else pure (some (Process.mk config identity))) disk fun r _ => ∃ p, r = .ok (some p) := by
    refine (loadIdentity_returns h hidentity).bind (fun i _ _ => ?_) fun _ _ => nofun
    rw [if_neg Bool.false_ne_true]
    exact ⟨_, rfl⟩
  refine (loadConfig_returns h).bind (fun c disk₁ h₁ => ?_) fun _ _ h₁ => ?_
  · obtain ⟨rfl, _, ⟨⟩, hdefault⟩ := h₁
    refine ends_bind.2 (ends_get.2 ?_)
    refine Ends.ite (fun hmissing => ?_) fun _ => htail h hidentity c
    obtain rfl := hdefault (Option.isNone_iff_eq_none.1 hmissing)
    obtain ⟨w, hw, hending⟩ := hconfig (Option.isNone_iff_eq_none.1 hmissing)
    have hreturns : Ends (Store.saveConfig hand {}) disk₁ fun r _ => r = .ok () := by
      rw [Store.saveConfig, Config.validate_default, hw]
      exact atomicWrite_returns configPath hending disk₁
    have hsaves : Ends (Store.saveConfig hand {}) disk₁ fun r disk₂ =>
        SavesConfig f {} disk₁ r disk₂ ∧ r = .ok () := ⟨saveConfig_saves h hhand {}, hreturns⟩
    refine hsaves.bind (fun _ disk₂ h₂ => ?_) fun _ _ h₂ => nomatch h₂.2
    refine htail h₂.1.intact (fun hmissing => hidentity ?_) {}
    have hnone : identityOf f disk₂ = none := h₂.1.intact.identity.value_eq_none.2 hmissing
    exact h.identity.value_eq_none.1 (h₂.1.identity.symm.trans hnone)
  · obtain ⟨-, _, hc, -⟩ := h₁
    exact nomatch hc

/-- **A host starts.**  Whatever has failed before and wherever the power has been lost, a start
begins the process if the files can be read and those that are missing can be written.  Both files
then hold what the process has: what has been in them before, and where one has been
missing the defaults or the identity that has been made. -/
theorem starts (h : Reachable f s) (hp : s.process = none) {hand : Hand} (hhand : hand.Legible f)
    {start : Start} (hstart : start.reads = true ∧ start.forgets = false)
    (hconfig : s.disk configPath = none → ∃ w, hand.config {} = some w ∧ w.ending = .returned)
    (hidentity : s.disk identityPath = none →
      ∃ w, hand.identity start.generated = some w ∧ w.ending = .returned) :
    ∃ p, (s.step f (.start hand start)).process = some p ∧
      configOf f (s.step f (.start hand start)).disk = some p.config ∧
      identityOf f (s.step f (.start hand start)).disk = some p.identity ∧
      p.config = (configOf f s.disk).getD {} ∧
      p.identity = (identityOf f s.disk).getD start.generated := by
  have hintact := (Sound.of_reachable h).intact
  obtain ⟨p, hreturned⟩ := main_returns hintact hhand hstart hconfig hidentity
  rcases hexec : exec (Store.main f hand start) s.disk with ⟨r, disk⟩
  rw [hexec] at hreturned
  obtain rfl : r = .ok (some p) := hreturned
  have hstarts := (main_starts hintact hhand start).of_exec hexec
  obtain ⟨-, hc, hi⟩ := hstarts.begun p rfl
  rw [step_start hp hexec]
  refine ⟨p, rfl, hc, hi, ?_, ?_⟩
  · rcases hstarts.config with hsame | ⟨hnone, hnew⟩
    · rw [← hsame, hc]
      rfl
    · rw [hnone]
      exact Option.some.inj (hc.symm.trans hnew)
  · rcases hstarts.identity with hsame | ⟨i, hloads, hnew | ⟨hforgets, -⟩⟩
    · rw [← hsame, hi]
      rfl
    · obtain rfl := Option.some.inj (hi.symm.trans hnew)
      rcases hloads with hloads | ⟨hnone, hmade⟩
      · rw [hloads]
        rfl
      · rw [hnone]
        exact hmade
    · exact nomatch hstart.2.symm.trans hforgets

theorem Refines.of_reachable (h : Reachable f s) : (s.view f).Refines := by
  have hboth := h.invariant (I := fun s => s.Sound f ∧ (s.view f).Refines) (fun s hinit => ?_)
    fun s e ⟨hsound, hrefines⟩ hadmits =>
      ⟨hsound.step hadmits, (step_next hsound hadmits).1.refines hsound.host hrefines⟩
  · exact hboth.2
  · refine ⟨.init hinit, fun i hi => ?_⟩
    have hnone : identityOf f s.disk = none :=
      (Sound.init hinit).intact.identity.value_eq_none.2 hinit.2.2
    exact nomatch hnone.symm.trans hi

def sampleHead : Bytes := utf8 "port = 47736\n\n[display]\nposition = \""

def sampleTail : Bytes :=
  utf8 ("\"\nprimary = false\nreconnect_grace_ms = 4000\n\n[video]\nfps = 60\n" ++
    "bitrate = 12000000\nmin_bitrate = 2000000\nmax_bitrate = 30000000\nadaptive = true\n")

def sampleText (position : Bytes) : Bytes := sampleHead ++ position ++ sampleTail

def sampleStart : Start := { hostId := Id16.zero, cert := [0x30], key := [0x31] }

/-- The beginning of what `CryptProtectData` makes, and a byte that tells one from the other. -/
def sampleBlob (n : UInt8) : Bytes := [1, 0, 0, 0, 0xd0, 0x8c, 0x9d, 0xdf, n]

def sampleFormats : Formats where
  config data :=
    if data = sampleText (utf8 "right") then some {}
    else if data = sampleText (utf8 "left") then some (Config.after {} (.position .left))
    else none
  identity data :=
    if data = sampleBlob 0 then some sampleStart.generated
    else if data = sampleBlob 1 then some (sampleStart.generated.insert [7] [8])
    else if data = sampleBlob 2 then some (sampleStart.generated.insert [7] [9])
    else none

/-- Whether two identities are the same. -/
def same (s t : Stored) : Bool :=
  s.hostId = t.hostId ∧ s.cert = t.cert ∧ s.key = t.key ∧ s.devices.entries = t.devices.entries

theorem eq_of_same {s t : Stored} (h : same s t = true) : s = t := by
  obtain ⟨hhostId, hcert, hkey, hdevices⟩ := of_decide_eq_true h
  obtain ⟨_, _, _, _⟩ := s
  obtain ⟨_, _, _, _⟩ := t
  obtain rfl := hhostId
  obtain rfl := hcert
  obtain rfl := hkey
  obtain rfl := AList.ext hdevices
  rfl

def sampleHand : Hand where
  config c :=
    if c = {} then some { chunks := [sampleText (utf8 "right")] }
    else if c = Config.after {} (.position .left) then some { chunks := [sampleText (utf8 "left")] }
    else none
  identity s :=
    if same s sampleStart.generated then some { chunks := [sampleBlob 0] }
    else if same s (sampleStart.generated.insert [7] [8]) then some { chunks := [sampleBlob 1] }
    else if same s (sampleStart.generated.insert [7] [9]) then some { chunks := [sampleBlob 2] }
    else none

theorem data_single (data : Bytes) : ({ chunks := [data] } : Write).data = data :=
  List.append_nil data

theorem sampleText_ne : sampleText (utf8 "left") ≠ sampleText (utf8 "right") := by
  intro h
  have heq := List.append_cancel_left (List.append_cancel_right h)
  exact absurd heq (by decide)

theorem sampleHand_legible : sampleHand.Legible sampleFormats := by
  constructor
  · intro c w hw
    unfold sampleHand at hw
    unfold sampleFormats
    dsimp only at hw ⊢
    split_ifs at hw with h h'
    · obtain rfl := Option.some.inj hw
      rw [h, data_single, if_pos rfl]
    · obtain rfl := Option.some.inj hw
      rw [h', data_single, if_neg sampleText_ne, if_pos rfl]
  · intro s w hw
    unfold sampleHand at hw
    unfold sampleFormats
    dsimp only at hw ⊢
    split_ifs at hw with h h' h''
    · obtain rfl := Option.some.inj hw
      rw [eq_of_same h, data_single, if_pos rfl]
    · obtain rfl := Option.some.inj hw
      rw [eq_of_same h', data_single, if_neg (by decide), if_pos rfl]
    · obtain rfl := Option.some.inj hw
      rw [eq_of_same h'', data_single, if_neg (by decide), if_neg (by decide), if_pos rfl]

/-- The power is lost while an identity is written. -/
def lostHand : Hand where
  config := sampleHand.config
  identity s := (sampleHand.identity s).map fun w => { w with ending := .lost 2 fun _ => none }

theorem lostHand_legible : lostHand.Legible sampleFormats := by
  refine ⟨sampleHand_legible.config, fun s w hw => ?_⟩
  obtain ⟨w, hw', rfl⟩ := Option.map_eq_some_iff.1 hw
  exact sampleHand_legible.identity s w hw'

theorem sample_init : Reachable sampleFormats {} := .init ⟨rfl, rfl, rfl⟩

/-- The first start. -/
def sampleStarted : Machine := step sampleFormats {} (.start sampleHand sampleStart)

theorem sampleStarted_reachable : Reachable sampleFormats sampleStarted :=
  sample_init.step (i := Event.start sampleHand sampleStart) sampleHand_legible

theorem sampleStarted_process : sampleStarted.process = some ⟨{}, sampleStart.generated⟩ := rfl

set_option maxRecDepth 4000 in
/-- Behind a first start that has lost its identity. -/
theorem starts_sample : ∃ p, ([.start lostHand sampleStart, .start sampleHand sampleStart].foldl
    (step sampleFormats) {}).process = some p ∧ p.config = {} ∧
      p.identity = sampleStart.generated := by
  have hidentity : sampleHand.identity sampleStart.generated =
      some { chunks := [sampleBlob 0] } := rfl
  have hlost : Reachable sampleFormats (step sampleFormats {} (.start lostHand sampleStart)) :=
    sample_init.step (i := Event.start lostHand sampleStart) lostHand_legible
  have hthere : ∃ file, (step sampleFormats {} (.start lostHand sampleStart)).disk configPath =
      some file := ⟨_, rfl⟩
  obtain ⟨file, hfile⟩ := hthere
  have hstart : sampleStart.reads = true ∧ sampleStart.forgets = false := ⟨rfl, rfl⟩
  obtain ⟨p, hp, -, -, hconfig, hmade⟩ := starts hlost rfl sampleHand_legible hstart
    (fun hmissing => nomatch hfile.symm.trans hmissing) fun _ => ⟨_, hidentity, rfl⟩
  exact ⟨p, hp, hconfig, hmade⟩

/-- The power is lost in a save, and the host starts again. -/
def sampleAgain : List Event :=
  [.trust lostHand [7] [8], .start sampleHand { sampleStart with cert := [0x32] }]

theorem sampleAgain_along : Along (step sampleFormats) (Admits sampleFormats) sampleStarted
    sampleAgain :=
  ⟨lostHand_legible, sampleHand_legible, trivial⟩

set_option maxRecDepth 4000 in
theorem host_kept_sample : ∃ p, (sampleAgain.foldl (step sampleFormats) sampleStarted).process =
    some p ∧ p.identity.host = sampleStart.generated.host :=
  ⟨⟨{}, sampleStart.generated⟩, rfl, host_kept sampleStarted_reachable sampleStarted_process
    sampleAgain_along rfl⟩

/-- The first start, and a pairing. -/
def samplePaired : Machine := sampleStarted.step sampleFormats (.trust sampleHand [7] [8])

theorem samplePaired_reachable : Reachable sampleFormats samplePaired :=
  sampleStarted_reachable.step (i := Event.trust sampleHand [7] [8]) sampleHand_legible

theorem restarts_along (s : Machine) : Along (step sampleFormats) (Admits sampleFormats) s
    [.stop, .start sampleHand sampleStart] :=
  ⟨trivial, sampleHand_legible, trivial⟩

theorem restarts_spare {p : Event → Prop} (hstop : p .stop)
    (hstart : p (.start sampleHand sampleStart)) :
    ∀ e ∈ [Event.stop, .start sampleHand sampleStart], p e :=
  List.forall_mem_cons.2 ⟨hstop, List.forall_mem_singleton.2 hstart⟩

def sampleForgets : Start := { sampleStart with forgets := true }

/-- A device is paired, and then forgotten twice. -/
def sampleForgotten : List Event :=
  [.start sampleHand sampleForgets, .start sampleHand sampleStart]

set_option maxRecDepth 4000 in
theorem devices_kept_sample :
    (∃ p, ([.stop, .start sampleHand sampleStart].foldl (step sampleFormats)
      samplePaired).process = some p ∧ p.identity.devices.lookup [7] = some [8]) ∧
    ∃ p, (sampleForgotten.foldl (step sampleFormats) ((samplePaired.step sampleFormats .stop).step
      sampleFormats (.start sampleHand sampleForgets))).process = some p ∧
        p.identity.devices.lookup [7] = none := by
  constructor
  · refine ⟨⟨{}, sampleStart.generated.insert [7] [8]⟩, rfl, ?_⟩
    exact (devices_kept sampleStarted_reachable sampleHand_legible).1 _ [8] sampleStarted_process
      rfl _ (restarts_along _) (restarts_spare ⟨nofun, nofun⟩ ⟨nofun, nofun⟩) _ rfl
  · have hstopped : Reachable sampleFormats (samplePaired.step sampleFormats .stop) :=
      samplePaired_reachable.step (i := Event.stop) trivial
    refine ⟨⟨{}, sampleStart.generated⟩, rfl, ?_⟩
    exact (devices_kept hstopped sampleHand_legible).2 sampleForgets rfl rfl sampleForgotten
      ⟨sampleHand_legible, sampleHand_legible, trivial⟩
      (List.forall_mem_cons.2 ⟨nofun, List.forall_mem_singleton.2 nofun⟩) _ rfl

set_option maxRecDepth 4000 in
theorem config_kept_sample : ∃ p, ([.stop, .start sampleHand sampleStart].foldl
    (step sampleFormats) (sampleStarted.step sampleFormats
      (.prefer sampleHand true (.position .left)))).process = some p ∧
        p.config = Config.after {} (.position .left) := by
  have hprocess : ([.stop, .start sampleHand sampleStart].foldl (step sampleFormats)
      (sampleStarted.step sampleFormats (.prefer sampleHand true (.position .left)))).process =
        some ⟨Config.after {} (.position .left), sampleStart.generated⟩ := rfl
  refine ⟨_, hprocess, ?_⟩
  exact config_kept (a := .position .left) sampleStarted_reachable sampleStarted_process
    sampleHand_legible ⟨nofun, nofun⟩ rfl (restarts_along _) (restarts_spare nofun nofun) hprocess

end Machine

end Host
end SidecarDOS
