/-
# The hand-off of the surfaces

A worker copies to a texture that has been released with key 0, releases it with key 1 and
publishes its capture in the status; the host reads the status, takes the textures whose
captures are new to it and releases them with key 0.  `SURFACES` leaves the slots of the status
as they are, so they tell of textures that the host has dropped until a worker fills the
new ones.  A worker that does so while the host goes through the slots of an earlier
answer hands over a frame under the metadata of another one (`handoff_mismatched`).
In every run without such a race the metadata are those of the pixels (`hands_over`).
-/

import SidecarDOS.Driver.Geometry

namespace SidecarDOS
namespace Driver

open Library (Reaches exec)
open SidecarDOS.Host (Pipeline Turn Op)

/-! ### What the driver holds for the host -/

/-- The slots as they are when the worker that holds `mutex` has published. -/
def State.shown (s : State) (i : Fin 3) : Option Capture :=
  match s.publishing with
  | some (j, c) => if i = j then some c else s.device.status.slots i
  | none => s.device.status.slots i

/-- The worker has opened the textures of the last registration, or those of earlier ones. -/
def Worker.Serves (key : Id16) (revision : ℕ) (w : Worker) : Prop :=
  (w.localRevision = revision ∧ ∀ i name, w.shared i = some name → name = .surface key i) ∨
    w.localRevision < revision ∧ ∀ i j, w.shared i ≠ some (.surface key j)

/-- The textures `key` were registered for the generation `G`, and by the last `SURFACES`. -/
structure Handed (key : Id16) (G : ℕ) (s : State) : Prop where
  le : G ≤ s.device.status.generation
  old : G < s.device.status.generation →
    s.device.surfaces.generation ≠ s.device.status.generation
  current : s.device.status.generation = G →
    s.device.surfaces.generation = G ∧ s.device.surfaces.names = .surface key
  workers : ∀ w ∈ s.workers, w.Serves key s.device.surfaceRevision
  size : s.device.status.generation = G → ∀ i t, s.textures (.surface key i) = some t →
    t.width = s.device.status.width ∧ t.height = s.device.status.height
  content : s.device.status.generation = G → ∀ i t, s.textures (.surface key i) = some t →
    t.key = some .one → s.shown i = t.content

/-- The workers have opened textures that exist, of registrations that have been made. -/
def Opened (s : State) : Prop :=
  ∀ w ∈ s.workers, w.localRevision ≤ s.device.surfaceRevision ∧
    ∀ i name, w.shared i = some name → (s.textures name).isSome = true

namespace Device

variable {d : Device} {luid : Luid} {width height : UInt32}

/-- A worker finds the size and the adapter that it expects, or begins a generation. -/
theorem resize_cases (d : Device) (luid : Luid) (width height : UInt32) :
    (d.resize luid width height = d ∧ d.status.width = width ∧ d.status.height = height) ∨
      (d.resize luid width height).status.generation = d.status.generation + 1 ∧
        (d.resize luid width height).surfaces = {} ∧
          (d.resize luid width height).surfaceRevision = d.surfaceRevision := by
  unfold resize
  split
  · exact .inr ⟨rfl, rfl, rfl⟩
  · rename_i h
    obtain ⟨hwidth, hrest⟩ := not_or.1 h
    exact .inl ⟨rfl, not_not.1 hwidth, not_not.1 (not_or.1 hrest).1⟩

theorem resize_surfaceRevision : (d.resize luid width height).surfaceRevision = d.surfaceRevision := by
  rcases d.resize_cases luid width height with ⟨heq, -⟩ | ⟨-, -, heq⟩
  · rw [heq]
  · exact heq

end Device

namespace Worker

variable {w : Worker} {d : Device} {textures : SurfaceName → Option Texture} {p : Pass}

/-- A worker looks for surfaces in vain, or opens what is registered for the generation. -/
theorem look_cases (w : Worker) (d : Device) (textures : SurfaceName → Option Texture)
    (p : Pass) :
    ((w.look d textures p).shared = w.shared ∧
      (w.look d textures p).localRevision = w.localRevision ∧
        (w.localRevision = d.surfaceRevision ∨
          d.surfaces.generation ≠ d.status.generation)) ∨
      d.surfaces.generation = d.status.generation ∧
        (w.look d textures p).localRevision = d.surfaceRevision ∧
          ∀ i name, (w.look d textures p).shared i = some name →
            name = d.surfaces.names i ∧ (textures name).isSome = true := by
  unfold look reopen
  split
  · rename_i h
    refine .inr ⟨h.2, rfl, fun i name hname => ?_⟩
    dsimp only at hname
    split at hname
    · rename_i t ht
      split at hname
      · cases hname
        exact ⟨rfl, by rw [ht]; rfl⟩
      · exact nomatch hname
    · exact nomatch hname
  · rename_i h
    refine .inl ⟨rfl, rfl, ?_⟩
    by_cases hrevision : w.localRevision = d.surfaceRevision
    · exact .inl hrevision
    · exact .inr fun heq => h ⟨hrevision, heq⟩

/-- The copy goes to a free texture, which the worker has opened for that slot. -/
theorem target_eq_some {i : Fin 3} {name : SurfaceName}
    (h : w.target textures p = some (i, name)) :
    w.acquires textures p i = true ∧ w.shared i = some name := by
  unfold target at h
  obtain ⟨j, hfind, hshared⟩ := Option.bind_eq_some_iff.1 h
  obtain ⟨name', hname, heq⟩ := Option.bind_eq_some_iff.1 hshared
  cases heq
  exact ⟨List.find?_some hfind, hname⟩

/-- A worker that is as before, or fresh, serves as before. -/
theorem Known.serves {workers : List Worker} {key : Id16} {revision : ℕ} (hw : w.Known workers)
    (h : ∀ w ∈ workers, w.Serves key revision) : w.Serves key revision := by
  rcases hw with ⟨w', hw', hshared, hrevision⟩ | ⟨hshared, hrevision⟩
  · unfold Serves
    rw [hshared, hrevision]
    exact h w' hw'
  · rcases Nat.eq_zero_or_pos revision with hzero | hpos
    · refine .inl ⟨hrevision.trans hzero.symm, fun i name hname => ?_⟩
      rw [hshared] at hname
      exact nomatch hname
    · refine .inr ⟨hrevision ▸ hpos, fun i j hname => ?_⟩
      rw [hshared] at hname
      exact nomatch hname

end Worker

namespace Handed

variable {key : Id16} {G : ℕ} {s s' : State}

/-- Another generation has begun. -/
theorem bump (h : Handed key G s)
    (hgeneration : s.device.status.generation < s'.device.status.generation)
    (hsurfaces : s'.device.surfaces = {})
    (hworkers : ∀ w ∈ s'.workers, w.Serves key s'.device.surfaceRevision) : Handed key G s' := by
  have hlt : G < s'.device.status.generation := h.le.trans_lt hgeneration
  refine ⟨hlt.le, fun _ => ?_, fun heq => ?_, hworkers, fun heq => ?_, fun heq => ?_⟩
  · rw [hsurfaces]
    show 0 ≠ _
    omega
  · exact absurd heq hlt.ne'
  · exact absurd heq hlt.ne'
  · exact absurd heq hlt.ne'

/-- The generation, the surfaces and the textures are the same, and the slots show the same. -/
theorem keep (h : Handed key G s)
    (hstatus : s'.device.status.generation = s.device.status.generation ∧
      s'.device.status.width = s.device.status.width ∧
        s'.device.status.height = s.device.status.height)
    (hsurfaces : s'.device.surfaces = s.device.surfaces) (htextures : s'.textures = s.textures)
    (hshown : s'.shown = s.shown)
    (hworkers : ∀ w ∈ s'.workers, w.Serves key s'.device.surfaceRevision) : Handed key G s' := by
  obtain ⟨hgeneration, hwidth, hheight⟩ := hstatus
  constructor
  · rw [hgeneration]
    exact h.le
  · rw [hgeneration, hsurfaces]
    exact h.old
  · rw [hgeneration, hsurfaces]
    exact h.current
  · exact hworkers
  · rw [hgeneration, hwidth, hheight, htextures]
    exact h.size
  · rw [hgeneration, htextures, hshown]
    exact h.content

section Pass

variable {i : ℕ} {w : Worker} {p : Pass}

/-- A worker that opens surfaces opens the textures of the last registration. -/
theorem serves (h : Handed key G s) (hw : s.workers[i]? = some w) :
    (w.look (s.device.resize w.luid p.width p.height) s.textures p).Serves key
      s.device.surfaceRevision := by
  have hserves := h.workers w (List.mem_of_getElem? hw)
  rcases w.look_cases (s.device.resize w.luid p.width p.height) s.textures p with
    ⟨hshared, hrevision, -⟩ | ⟨hgeneration, hrevision, hnames⟩
  · unfold Worker.Serves
    rw [hshared, hrevision]
    exact hserves
  · refine .inl ⟨hrevision.trans Device.resize_surfaceRevision, fun i name hname => ?_⟩
    have hname' := (hnames i name hname).1
    rcases s.device.resize_cases w.luid p.width p.height with ⟨heq, -⟩ | ⟨hbump, hsurfaces, -⟩
    · rw [heq] at hgeneration hname'
      have hcurrent : s.device.status.generation = G := by
        by_contra hne
        have hle := h.le
        exact h.old (by omega) hgeneration
      rw [hname', (h.current hcurrent).2]
    · rw [hsurfaces, hbump] at hgeneration
      exact absurd hgeneration (Nat.succ_ne_zero _).symm

theorem look (h : Handed key G s) (hw : s.workers[i]? = some w) : Handed key G (s.look i w p) := by
  have hworkers : ∀ w' ∈ (s.look i w p).workers,
      w'.Serves key (s.device.resize w.luid p.width p.height).surfaceRevision := by
    intro w' hw'
    rw [Device.resize_surfaceRevision]
    rcases List.mem_or_eq_of_mem_set hw' with hw' | rfl
    · exact h.workers w' hw'
    · exact h.serves hw
  rcases s.device.resize_cases w.luid p.width p.height with ⟨heq, -⟩ | ⟨hbump, hsurfaces, -⟩
  · have hdevice : (s.look i w p).device = s.device := heq
    refine h.keep ?_ ?_ rfl ?_ hworkers
    · rw [hdevice]
      exact ⟨rfl, rfl, rfl⟩
    · rw [hdevice]
    · funext j
      unfold State.shown
      rw [hdevice]
      rfl
  · exact h.bump (hbump ▸ Nat.lt_succ_self _) hsurfaces hworkers

/-- As long as the generation lasts, a worker copies to the textures of the host. -/
theorem target (h : Handed key G s) (hw : s.workers[i]? = some w) {j : Fin 3} {name : SurfaceName}
    (htarget : (w.look (s.device.resize w.luid p.width p.height) s.textures p).target
      s.textures p = some (j, name))
    (hgeneration : (s.device.resize w.luid p.width p.height).status.generation = G) :
    name = .surface key j ∧ s.device.status.width = p.width ∧
      s.device.status.height = p.height := by
  have hname := (Worker.target_eq_some htarget).2
  have hle := h.le
  rcases s.device.resize_cases w.luid p.width p.height with ⟨heq, hsize⟩ | ⟨hbump, -, -⟩
  · rw [heq] at hgeneration
    refine ⟨?_, hsize⟩
    rcases h.serves hw with ⟨-, hnames⟩ | ⟨hlt, -⟩
    · exact hnames j name hname
    · exfalso
      rcases w.look_cases (s.device.resize w.luid p.width p.height) s.textures p with
        ⟨-, hrevision, hrevision' | hne⟩ | ⟨-, hrevision, -⟩
      · rw [hrevision, hrevision', Device.resize_surfaceRevision] at hlt
        exact absurd hlt (lt_irrefl _)
      · rw [heq] at hne
        exact hne ((h.current hgeneration).1.trans hgeneration.symm)
      · rw [hrevision, Device.resize_surfaceRevision] at hlt
        exact absurd hlt (lt_irrefl _)
  · rw [hbump] at hgeneration
    omega

theorem copy (h : Handed key G s) (hw : s.workers[i]? = some w) (hunlocked : s.publishing = none)
    {j : Fin 3} {name : SurfaceName} (c : Capture)
    (htarget : (w.look (s.device.resize w.luid p.width p.height) s.textures p).target
      s.textures p = some (j, name)) : Handed key G ((s.look i w p).copy j name p c) := by
  have hlook := h.look (p := p) hw
  have htexture {k : Fin 3} {t : Texture}
      (ht : ((s.look i w p).copy j name p c).textures (.surface key k) = some t) :
      (name = .surface key k ∧ ∃ t₀, s.textures name = some t₀ ∧ t = t₀.copy p c) ∨
        name ≠ .surface key k ∧ s.textures (.surface key k) = some t := by
    have hupdate : Function.update s.textures name ((s.textures name).map (·.copy p c))
        (.surface key k) = some t := ht
    by_cases hname : name = .surface key k
    · subst hname
      rw [Function.update_self] at hupdate
      obtain ⟨t₀, ht₀, rfl⟩ := Option.map_eq_some_iff.1 hupdate
      exact .inl ⟨rfl, t₀, ht₀, rfl⟩
    · rw [Function.update_of_ne (Ne.symm hname)] at hupdate
      exact .inr ⟨hname, hupdate⟩
  refine ⟨hlook.le, hlook.old, hlook.current, hlook.workers, fun hgeneration k t ht => ?_,
    fun hgeneration k t ht hkey => ?_⟩
  · rcases htexture ht with ⟨rfl, t₀, ht₀, rfl⟩ | ⟨-, ht⟩
    · exact hlook.size hgeneration k t₀ ht₀
    · exact hlook.size hgeneration k t ht
  · obtain ⟨hname, hwidth, hheight⟩ := h.target hw htarget hgeneration
    have hdevice : (s.look i w p).device = s.device := by
      rcases s.device.resize_cases w.luid p.width p.height with ⟨heq, -⟩ | ⟨hbump, -, -⟩
      · exact heq
      · have hle := h.le
        have hgeneration' : (s.device.resize w.luid p.width p.height).status.generation = G :=
          hgeneration
        rw [hbump] at hgeneration'
        omega
    rcases htexture ht with ⟨hname', t₀, ht₀, rfl⟩ | ⟨hne, ht⟩
    · -- The texture of the copy: its sizes are those of the status.
      obtain rfl : j = k := (SurfaceName.surface.inj (hname.symm.trans hname')).2
      have hreleases : p.releases = true := by
        by_contra hn
        have hkey' : (if p.releases = true then some Key.one else none) = some .one := hkey
        rw [if_neg hn] at hkey'
        exact nomatch hkey'
      obtain ⟨hwidth', hheight'⟩ := hlook.size hgeneration j t₀ (hname' ▸ ht₀)
      rw [hdevice] at hwidth' hheight'
      have hcontent : (t₀.copy p c).content = some c :=
        if_pos ⟨hwidth'.trans hwidth, hheight'.trans hheight⟩
      rw [hcontent]
      unfold State.shown State.copy
      dsimp only
      rw [if_pos hreleases]
      exact if_pos rfl
    · have hkj : k ≠ j := by
        rintro rfl
        exact hne hname
      have hshown := hlook.content hgeneration k t ht hkey
      rw [← hshown]
      unfold State.shown State.copy
      dsimp only
      have hnone : (s.look i w p).publishing = none := hunlocked
      rw [hnone]
      split_ifs
      · exact if_neg hkj
      · rfl

end Pass

/-- Only another registration takes the surfaces out of the driver's hands. -/
theorem effect {e : Event} (h : Handed key G s) (heffect : Effect e s s')
    (he : ∀ r, e ≠ .surfaces r) : Handed key G s' := by
  have hshown {s' : State} (hstatus : s'.device.status.slots = s.device.status.slots)
      (hpublishing : s'.publishing = s.publishing) : s'.shown = s.shown := by
    unfold State.shown
    rw [hstatus, hpublishing]
  cases heffect with
  | quiet hquiet _ =>
    refine h.keep ?_ hquiet.surfaces hquiet.textures (hshown ?_ hquiet.publishing) fun w hw => ?_
    · rw [hquiet.status]
      exact ⟨rfl, rfl, rfl⟩
    · rw [hquiet.status]
    · rw [hquiet.surfaceRevision]
      exact (hquiet.workers w hw).serves h.workers
  | bump hbump =>
    refine h.bump hbump.generation hbump.surfaces ?_
    rw [hbump.workers, hbump.surfaceRevision]
    exact h.workers
  | retime fps _ _ heq =>
    subst heq
    exact h.keep ⟨rfl, rfl, rfl⟩ rfl rfl (hshown rfl rfl) h.workers
  | reply _ _ heq =>
    subst heq
    exact h.keep ⟨rfl, rfl, rfl⟩ rfl rfl (hshown rfl rfl) h.workers
  | register r _ hregister => exact absurd hregister (he r)
  | look i w p hw _ heq =>
    subst heq
    exact h.look hw
  | copy i w p j name c _ _ hw hunlocked htarget heq =>
    subst heq
    exact h.copy hw hunlocked c htarget
  | publish i c hpublishing heq =>
    subst heq
    refine h.keep ⟨rfl, rfl, rfl⟩ rfl rfl ?_ h.workers
    funext k
    unfold State.shown
    rw [hpublishing]
    exact Function.update_apply ..

/-- The host releases a texture with key 0, or leaves it alone. -/
theorem released (h : Handed key G s) (i : Fin 3) {texture : Option Texture}
    (ht : texture = s.textures (.surface key i) ∨
      texture = (s.textures (.surface key i)).map fun t => { t with key := some .zero }) :
    Handed key G { s with textures := Function.update s.textures (.surface key i) texture } := by
  have htexture {k : Fin 3} {t : Texture}
      (hk : Function.update s.textures (.surface key i) texture (.surface key k) = some t) :
      s.textures (.surface key k) = some t ∨
        t.key = some .zero ∧ ∃ t₀, s.textures (.surface key k) = some t₀ ∧
          t.width = t₀.width ∧ t.height = t₀.height := by
    by_cases hki : k = i
    · subst hki
      rw [Function.update_self] at hk
      rcases ht with rfl | rfl
      · exact .inl hk
      · obtain ⟨t₀, ht₀, rfl⟩ := Option.map_eq_some_iff.1 hk
        exact .inr ⟨rfl, t₀, ht₀, rfl, rfl⟩
    · rw [Function.update_of_ne fun heq => hki (SurfaceName.surface.inj heq).2] at hk
      exact .inl hk
  refine ⟨h.le, h.old, h.current, h.workers, fun hgeneration k t hk => ?_,
    fun hgeneration k t hk hkey => ?_⟩
  · rcases htexture hk with hk | ⟨-, t₀, ht₀, hwidth, hheight⟩
    · exact h.size hgeneration k t hk
    · rw [hwidth, hheight]
      exact h.size hgeneration k t₀ ht₀
  · rcases htexture hk with hk | ⟨hzero, -⟩
    · exact h.content hgeneration k t hk hkey
    · exact nomatch hzero.symm.trans hkey

end Handed

namespace Opened

variable {s s' : State}

theorem keep (h : Opened s) (hrevision : s.device.surfaceRevision ≤ s'.device.surfaceRevision)
    (htextures : ∀ name, (s.textures name).isSome = true → (s'.textures name).isSome = true)
    (hworkers : ∀ w ∈ s'.workers, w.Known s.workers) : Opened s' := by
  intro w hw
  rcases hworkers w hw with ⟨w', hw', hshared, hlocal⟩ | ⟨hshared, hlocal⟩
  · obtain ⟨hle, hexists⟩ := h w' hw'
    rw [hlocal, hshared]
    exact ⟨hle.trans hrevision, fun i name hname => htextures name (hexists i name hname)⟩
  · rw [hlocal, hshared]
    exact ⟨Nat.zero_le _, fun i name hname => nomatch hname⟩

theorem look (h : Opened s) {i : ℕ} {w : Worker} (p : Pass) (hw : s.workers[i]? = some w) :
    Opened (s.look i w p) := by
  intro w' hw'
  show w'.localRevision ≤ (s.device.resize w.luid p.width p.height).surfaceRevision ∧ _
  rw [Device.resize_surfaceRevision]
  rcases List.mem_or_eq_of_mem_set hw' with hw' | rfl
  · exact h w' hw'
  · rcases w.look_cases (s.device.resize w.luid p.width p.height) s.textures p with
      ⟨hshared, hrevision, -⟩ | ⟨-, hrevision, hnames⟩
    · rw [hshared, hrevision]
      exact h w (List.mem_of_getElem? hw)
    · rw [hrevision, Device.resize_surfaceRevision]
      exact ⟨le_rfl, fun i name hname => (hnames i name hname).2⟩

theorem effect {e : Event} (h : Opened s) (heffect : Effect e s s') : Opened s' := by
  have hknown {s' : State} (hworkers : s'.workers = s.workers) : ∀ w ∈ s'.workers,
      w.Known s.workers := by
    rw [hworkers]
    exact fun w hw => Worker.known hw
  cases heffect with
  | quiet hquiet _ =>
    refine h.keep hquiet.surfaceRevision.ge ?_ hquiet.workers
    rw [hquiet.textures]
    exact fun _ hname => hname
  | bump hbump =>
    refine h.keep hbump.surfaceRevision.ge ?_ (hknown hbump.workers)
    rw [hbump.textures]
    exact fun _ hname => hname
  | retime fps _ _ heq => exact heq ▸ h.keep le_rfl (fun _ hname => hname) (hknown rfl)
  | reply _ _ heq => exact heq ▸ h.keep le_rfl (fun _ hname => hname) (hknown rfl)
  | register r d _ _ _ hregister heq =>
    obtain ⟨-, rfl⟩ := Device.register_eq_some hregister
    exact heq ▸ h.keep (Nat.le_succ _) (fun _ hname => hname) (hknown rfl)
  | look i w p hw _ heq => exact heq ▸ h.look p hw
  | copy i w p j name c _ _ hw _ _ heq =>
    subst heq
    refine (h.look p hw).keep le_rfl (fun name' hname' => ?_) fun w hw => Worker.known hw
    show (Function.update s.textures name _ name').isSome = true
    by_cases heq : name' = name
    · subst heq
      rw [Function.update_self, Option.isSome_map]
      exact hname'
    · rw [Function.update_of_ne heq]
      exact hname'
  | publish i c _ heq => exact heq ▸ h.keep le_rfl (fun _ hname => hname) (hknown rfl)

end Opened

/-- New textures are registered for the generation of the status. -/
theorem Handed.registered {key : Id16} {G : ℕ} {s s' : State} {width height : UInt32}
    (hopened : Opened s) (hfresh : ∀ i, s.textures (.surface key i) = none)
    (hsize : s.device.status.generation = G →
      width = s.device.status.width ∧ height = s.device.status.height)
    (h : (s.create key width height).surfaces ⟨1, G, .surface key⟩ = some (true, s')) :
    Handed key G s' ∧ ∀ i t, s'.textures (.surface key i) = some t → t.key ≠ some .one := by
  obtain ⟨-, -, ⟨d, -, hregister, rfl⟩ | ⟨hrefused, -⟩⟩ := State.surfaces_eq_some h
  · obtain ⟨hgeneration, rfl⟩ := Device.register_eq_some hregister
    have hgeneration : G = s.device.status.generation := hgeneration
    have hnew {i : Fin 3} {t : Texture}
        (ht : (s.create key width height).textures (.surface key i) = some t) :
        t = { width := width, height := height } := by
      have hcreate : (if key = key then some { width := width, height := height }
        else s.textures (.surface key i) : Option Texture) = some t := ht
      rw [if_pos rfl] at hcreate
      exact (Option.some.inj hcreate).symm
    have hkey (i : Fin 3) (t : Texture)
        (ht : (s.create key width height).textures (.surface key i) = some t) :
        t.key ≠ some .one := by
      rw [hnew ht]
      exact nofun
    refine ⟨⟨hgeneration.le, fun hlt => absurd hgeneration hlt.ne, fun _ => ⟨rfl, rfl⟩,
      fun w hw => .inr ⟨?_, fun i j hname => ?_⟩, fun hG i t ht => ?_,
      fun _ i t ht hone => absurd hone (hkey i t ht)⟩, hkey⟩
    · exact Nat.lt_succ_of_le (hopened w hw).1
    · have hexists := (hopened w hw).2 i _ hname
      rw [hfresh j] at hexists
      exact absurd hexists Bool.false_ne_true
    · rw [hnew ht]
      exact hsize hG
  · exact absurd hrefused Bool.noConfusion

namespace Gpu

variable {g : Gpu} {texture : Option Texture} {metadata : Host.Slot}

/-- The texture stays as it is, or is released with key 0. -/
theorem input_texture : (g.input texture metadata).2 = texture ∨
    (g.input texture metadata).2 = texture.map fun t => { t with key := some .zero } := by
  unfold input
  split_ifs
  all_goals first | exact .inl rfl | exact .inr rfl

/-- A slot is taken when its texture has been released with key 1, and frame 0 is discarded. -/
theorem input_taken (h : (g.input texture metadata).1.encoded = some true) :
    (∃ t, texture = some t ∧ t.key = some .one) ∧
      ((g.input texture metadata).1 = .submitted → metadata.frame ≠ 0) := by
  unfold input at h ⊢
  split at h
  · exact nomatch h
  rename_i hpresent
  rw [if_neg hpresent]
  split at h
  · rename_i hkey
    rw [if_pos hkey]
    obtain ⟨t, ht, hone⟩ := (Option.any_eq_true _ _).1 hkey
    refine ⟨⟨t, ht, of_decide_eq_true hone⟩, fun hsubmitted hframe => ?_⟩
    dsimp only at hsubmitted
    split_ifs at hsubmitted with _ hdiscards
    exact hdiscards (.inl hframe)
  · exact nomatch h

end Gpu

/-! ### Runs of the host and the driver -/

/-- The pixels that were taken are those that the status told of, and the slot is seen with
their frame; with the pixels their metadata go to the transform. -/
def Visit.Matches (v : Visit) : Prop :=
  ∃ c, v.content = some c ∧ v.announced = some c ∧ v.seen = c.frame ∧
    (v.submitted = true → v.metadata = ⟨c.frame, c.captureUs⟩)

namespace Display

/-- The driver's handle is exclusive, and the names of a new encoder's textures are new. -/
def allows (s : Display) : Move → Bool
  | .driver (.surfaces _) => false
  | .prepare _ key => (List.finRange 3).all fun i => (s.driver.textures (.surface key i)).isNone
  | _ => true

/-- What a run may do in which the counter of generations does not wrap. -/
def Possible (s : Display) (m : Move) : Prop := Unwrapped s m ∧ s.allows m = true

instance (s : Display) (m : Move) : Decidable (Possible s m) :=
  inferInstanceAs (Decidable (_ ∧ _))

/-- What the turn has been told of a slot. -/
def announced (s : Display) (i : Fin 3) : Option Capture :=
  match s.phase with
  | .read status | .slots status _ _ => status.slots i
  | _ => none

/-- The turn will ask the encoder that it has to take slot `i`. -/
def waits (s : Display) (i : Fin 3) : Bool :=
  match s.phase with
  | .read status => s.host.encoder.isSome && s.host.generation = status.host.generation &&
    (status.host.slots i).frame > s.host.seen i
  | .slots status _ rest => rest.contains i && (status.host.slots i).frame > s.host.seen i
  | _ => false

/-- A worker copies to a texture of the encoder, and releases it, while the turn waits for it
with what it has been told before. -/
def races (s : Display) : Move → Bool
  | .driver (.pass k p) => p.releases && (List.finRange 3).any fun i =>
    s.driver.copies k p = some (.surface s.key i) && s.waits i
  | _ => false

/-- What a run without races may do. -/
def Orderly (s : Display) (m : Move) : Prop := Possible s m ∧ s.races m = false

instance (s : Display) (m : Move) : Decidable (Orderly s m) :=
  inferInstanceAs (Decidable (_ ∧ _))

theorem waits_read {s : Display} {status : Status} {i : Fin 3} (hphase : s.phase = .read status) :
    s.waits i = true ↔
      ¬ Op.Opens s.host status.host ∧ (status.host.slots i).frame > s.host.seen i := by
  unfold waits Op.Opens
  rw [hphase]
  simp [Option.isSome_iff_ne_none, not_or, and_assoc]

theorem waits_slots {s : Display} {status : Status} {best : Option (Fin 3)} {rest : List (Fin 3)}
    {i : Fin 3} (hphase : s.phase = .slots status best rest) :
    s.waits i = true ↔ i ∈ rest ∧ (status.host.slots i).frame > s.host.seen i := by
  unfold waits
  rw [hphase]
  simp

/-- What holds of the textures of the encoder while a turn goes through the slots. -/
structure Kept (s : Display) : Prop where
  fitting : Fitting s
  opened : Opened s.driver
  handed : ∀ e, s.host.encoder = some e → Handed s.key s.host.generation.toNat s.driver
  waits : ∀ i, s.waits i = true → ∀ t, s.texture i = some t → t.key = some .one → s.announced i = t.content
  visits : ∀ v ∈ s.visits, v.Matches

variable {s : Display}

/-- A turn that fails or ends, and one that goes on without an encoder. -/
theorem Kept.of (h : Kept s) {s' : Display} (hfitting : Fitting s') (hopened : Opened s'.driver)
    (hhanded : ∀ e, s'.host.encoder = some e → Handed s'.key s'.host.generation.toNat s'.driver)
    (hwaits : ∀ i, s'.waits i = false) (hvisits : s'.visits = s.visits) : Kept s' :=
  ⟨hfitting, hopened, hhanded, fun i hi => absurd ((hwaits i).symm.trans hi) Bool.false_ne_true,
    hvisits ▸ h.visits⟩

/-- Only a race changes a texture that the turn waits for. -/
theorem texture_step {e : Event} {i : Fin 3} (hraces : s.races (.driver e) = false)
    (hi : s.waits i = true)
    {t : Texture} (ht : (s.driver.step e).textures (.surface s.key i) = some t)
    (hkey : t.key = some .one) : s.texture i = some t := by
  have hsame (htextures : (s.driver.step e).textures = s.driver.textures) :
      s.texture i = some t := (congrFun htextures _).symm.trans ht
  cases s.driver.step_effect e with
  | quiet hquiet _ => exact hsame hquiet.textures
  | bump hbump => exact hsame hbump.textures
  | retime fps _ _ heq => exact hsame ((congrArg State.textures heq).trans rfl)
  | reply _ _ heq => exact hsame ((congrArg State.textures heq).trans rfl)
  | register r d _ _ _ _ heq => exact hsame ((congrArg State.textures heq).trans rfl)
  | look k w p _ _ heq => exact hsame ((congrArg State.textures heq).trans rfl)
  | copy k w p j name c he hcopies _ _ _ heq =>
    subst he
    rw [heq] at ht
    have hupdate : Function.update s.driver.textures name
        ((s.driver.textures name).map (·.copy p c)) (.surface s.key i) = some t := ht
    by_cases hname : .surface s.key i = name
    · subst hname
      rw [Function.update_self] at hupdate
      obtain ⟨t₀, -, rfl⟩ := Option.map_eq_some_iff.1 hupdate
      have hreleases : p.releases = true := by
        by_contra hn
        have hkey' : (if p.releases = true then some Key.one else none) = some .one := hkey
        rw [if_neg hn] at hkey'
        exact nomatch hkey'
      have hrace : s.races (.driver (.pass k p)) = true := by
        refine Bool.and_eq_true_iff.2 ⟨hreleases, List.any_eq_true.2 ⟨i, List.mem_finRange i, ?_⟩⟩
        exact Bool.and_eq_true_iff.2 ⟨decide_eq_true hcopies, hi⟩
      exact absurd (hraces.symm.trans hrace) Bool.false_ne_true
    · rw [Function.update_of_ne hname] at hupdate
      exact hupdate
  | publish k c _ heq => exact hsame ((congrArg State.textures heq).trans rfl)

theorem Kept.driver (h : Kept s) {e : Event} (horderly : Orderly s (.driver e)) :
    Kept (s.step (.driver e)) := by
  obtain ⟨⟨hunwrapped, hexclusive⟩, hraces⟩ := horderly
  refine ⟨h.fitting.step _ hunwrapped, h.opened.effect (s.driver.step_effect e), ?_, ?_, h.visits⟩
  · intro settings hencoder
    refine (h.handed settings hencoder).effect (s.driver.step_effect e) fun r heq => ?_
    subst heq
    exact Bool.false_ne_true hexclusive
  · intro i hi t ht hkey
    exact h.waits i hi t (texture_step hraces hi ht hkey) hkey

theorem Kept.approach (h : Kept s) (t : Turn) (cmd : Option Host.Command)
    (hphase : s.phase = .idle) : Kept (s.approach t cmd) := by
  have hfitting := h.fitting.approach t cmd hphase
  have hretains := Op.approach_retains (s := s.host) t cmd
  have hheld {host : Pipeline} (hheld : Op.Retained s.host host) :
      ∀ e, host.encoder = some e → Handed s.key host.generation.toNat s.driver := by
    intro e he
    rcases hheld with hnone | ⟨hencoder, hgeneration, -⟩
    · exact nomatch hnone.symm.trans he
    · rw [hgeneration]
      exact h.handed e (hencoder.symm.trans he)
  have hwaits {host : Pipeline} (i : Fin 3) :
      ({ s with host := host } : Display).waits i = false := by
    unfold Display.waits
    dsimp only
    rw [hphase]
  unfold Display.approach at hfitting ⊢
  rcases hexec : exec (Op.approach t cmd) s.host with ⟨e | _ | _ | _, host⟩
  · rw [hexec] at hfitting
    exact h.of hfitting h.opened nofun (fun _ => rfl) rfl
  · rw [hexec] at hfitting
    exact h.of hfitting h.opened (hheld (hretains.of_exec hexec).2) (fun _ => rfl) rfl
  · rw [hexec] at hfitting
    exact h.of hfitting h.opened nofun hwaits rfl
  · rw [hexec] at hfitting
    exact h.of hfitting h.opened (hheld (hretains.of_exec hexec).2) hwaits rfl

/-- The answer to `STATUS` tells of the textures of the encoder, or belongs to a generation
for which another one will be opened. -/
theorem Kept.ask (h : Kept s) (ok : Bool) (hphase : s.phase = .asks) : Kept (s.step (.ask ok)) := by
  have hfitting (hunwrapped : Unwrapped s (.ask ok)) := h.fitting.step _ hunwrapped
  unfold Unwrapped at hfitting
  unfold Display.step at hfitting ⊢
  dsimp only at hfitting ⊢
  rw [hphase] at hfitting ⊢
  dsimp only at hfitting ⊢
  cases ok with
  | false =>
    rw [if_neg Bool.false_ne_true] at hfitting ⊢
    exact h.of (hfitting h.fitting.unwrapped) h.opened nofun (fun _ => rfl) rfl
  | true =>
    rw [if_pos rfl] at hfitting ⊢
    cases hstatus : s.driver.status with
    | none =>
      rw [hstatus] at hfitting
      exact h
    | some status =>
      have hstep : s.driver.step .status =
          { s.driver with replies := s.driver.replies ++ [status] } := by
        dsimp only [State.step]
        rw [hstatus]
      obtain ⟨hunlocked, rfl⟩ : s.driver.publishing = none ∧ status = s.driver.device.status := by
        unfold State.status at hstatus
        split_ifs at hstatus with hlocks
        exact ⟨by simpa using (not_or.1 hlocks).2, (Option.some.inj hstatus).symm⟩
      rw [hstatus, hstep] at hfitting
      rw [hstep]
      refine ⟨hfitting h.fitting.unwrapped, h.opened, fun e he => ?_, fun i hi t ht hkey => ?_,
        h.visits⟩
      · have hhanded := h.handed e he
        exact hhanded.keep ⟨rfl, rfl, rfl⟩ rfl rfl rfl hhanded.workers
      obtain ⟨hopens, -⟩ := (waits_read rfl).1 hi
      obtain ⟨hsome, hgeneration⟩ := not_or.1 hopens
      obtain ⟨e, he⟩ := Option.isSome_iff_exists.1 (Option.isSome_iff_ne_none.2 fun hnone =>
        hsome (Option.isNone_iff_eq_none.2 hnone))
      have hG : s.driver.device.status.generation = s.host.generation.toNat := by
        rw [not_not.1 hgeneration]
        exact (UInt32.toNat_ofNat_of_lt' h.fitting.unwrapped).symm
      have hcontent := (h.handed e he).content hG i t ht hkey
      unfold State.shown at hcontent
      rw [hunlocked] at hcontent
      exact hcontent

theorem registers_iff {t : Turn} {status : Host.Status} : s.registers t status = true ↔
    ¬ (status.width = 0 ∨ s.host.input = none) ∧ Op.Opens s.host status ∧ t.encoder = true := by
  simp only [registers, Op.Opens, Option.isSome_iff_ne_none, Option.isNone_iff_eq_none, ne_eq,
    Bool.and_eq_true, Bool.or_eq_true, decide_eq_true_eq, not_or, and_assoc]

/-- New textures are open as those before. -/
theorem opened_create {d : State} (h : Opened d) (key : Id16) (width height : UInt32) :
    Opened (d.create key width height) := by
  refine h.keep le_rfl (fun name hname => ?_) fun w hw => Worker.known hw
  cases name with
  | other n named => exact hname
  | surface key' i =>
    show (ite _ _ _ : Option Texture).isSome = true
    split
    · rfl
    · exact hname

/-- A turn that goes on with its encoder has what the status told of its textures; one that
opens an encoder has textures that nobody has filled. -/
theorem Kept.prepare (h : Kept s) (t : Turn) {key : Id16} {status : Status}
    (hfresh : ∀ i, s.driver.textures (.surface key i) = none) (hphase : s.phase = .read status) :
    Kept (s.prepare t key status) := by
  have hfitting := h.fitting.prepare t key hphase
  have hyields (t : Turn) := Op.prepare_yields t status.host s.host
  have hstatus := h.fitting.read status hphase
  unfold Display.prepare at hfitting ⊢
  split_ifs at hfitting ⊢ with hregisters
  · rcases hsurfaces : (s.driver.create key status.width status.height).surfaces
        ⟨1, status.host.generation.toNat, .surface key⟩ with _ | ⟨ok, driver⟩
    · exact h
    · rw [hsurfaces] at hfitting
      have hopened : Opened driver :=
        (opened_create h.opened key status.width status.height).effect
          (State.surfaces_effect hsurfaces)
      obtain ⟨hactive, hopens, -⟩ := registers_iff.1 hregisters
      unfold Display.prepared at hfitting ⊢
      dsimp only at hfitting ⊢
      generalize ht : ({ t with surfaces := t.surfaces && ok } : Turn) = t' at hfitting ⊢
      rcases hexec : exec (Op.prepare t' status.host) s.host with ⟨e | _ | best, host⟩
      · rw [hexec] at hfitting
        exact h.of hfitting hopened nofun (fun _ => rfl) rfl
      · exact absurd ((hyields t').of_exec hexec).1 hactive
      · rw [hexec] at hfitting
        have hprepared : Op.Prepared t' status.host s.host host best := (hyields t').of_exec hexec
        obtain ⟨⟨-, haccepted⟩, hseen, -⟩ := hprepared.opened hopens
        have hok : ok = true := by
          rw [← ht] at haccepted
          exact (Bool.and_eq_true_iff.1 haccepted).2
        subst hok
        have hgeneration : status.host.generation.toNat = status.generation :=
          UInt32.toNat_ofNat_of_lt' ((h.fitting.told.le status hstatus).trans_lt
            h.fitting.unwrapped)
        obtain ⟨hhanded, hkeys⟩ := Handed.registered h.opened hfresh (fun hG => by
          have hagrees := h.fitting.told.current status hstatus (hgeneration.symm.trans hG.symm)
          exact ⟨hagrees.width, hagrees.height⟩) hsurfaces
        refine ⟨hfitting, hopened, fun _ _ => ?_, fun i _ t ht hkey => ?_, h.visits⟩
        · show Handed key host.generation.toNat driver
          rw [hprepared.generation]
          exact hhanded
        · exact absurd hkey (hkeys i t ht)
  · unfold Display.prepared at hfitting ⊢
    rcases hexec : exec (Op.prepare t status.host) s.host with ⟨e | _ | best, host⟩
    · rw [hexec] at hfitting
      exact h.of hfitting h.opened nofun (fun _ => rfl) rfl
    · rw [hexec] at hfitting
      obtain ⟨-, rfl⟩ := (hyields t).of_exec hexec
      exact h.of hfitting h.opened h.handed (fun _ => rfl) rfl
    · rw [hexec] at hfitting
      have hprepared : Op.Prepared t status.host s.host host best := (hyields t).of_exec hexec
      have hopens : ¬ Op.Opens s.host status.host := by
        intro hopens
        obtain ⟨⟨hencoder, -⟩, -⟩ := hprepared.opened hopens
        exact hregisters (registers_iff.2 ⟨hprepared.active, hopens, hencoder⟩)
      obtain ⟨hseen, e, e', he, -⟩ := hprepared.kept hopens
      have hgeneration : host.generation = s.host.generation :=
        hprepared.generation.trans (not_not.1 (not_or.1 hopens).2).symm
      refine ⟨hfitting, h.opened, fun _ _ => ?_, fun i hi t ht hkey => ?_, h.visits⟩
      · show Handed s.key host.generation.toNat s.driver
        rw [hgeneration]
        exact h.handed e he
      · obtain ⟨-, hnew⟩ := (waits_slots rfl).1 hi
        have hannounced : s.announced i = status.slots i := by
          unfold announced
          rw [hphase]
        have hwaits : s.waits i = true := (waits_read hphase).2 ⟨hopens, hseen ▸ hnew⟩
        exact hannounced.symm.trans (h.waits i hwaits t ht hkey)

/-- The host's locks leave the textures open. -/
theorem opened_input {d : State} (h : Opened d) (g : Gpu) (name : SurfaceName)
    (metadata : Host.Slot) : Opened { d with
      textures := Function.update d.textures name (g.input (d.textures name) metadata).2 } := by
  refine h.keep le_rfl (fun name' hname => ?_) fun w hw => Worker.known hw
  show (Function.update d.textures _ _ name').isSome = true
  by_cases heq : name' = name
  · subst heq
    rw [Function.update_self]
    rcases @Gpu.input_texture g (d.textures name') metadata with heq | heq
    · rw [heq]
      exact hname
    · rw [heq, Option.isSome_map]
      exact hname
  · rw [Function.update_of_ne heq]
    exact hname

theorem announced_slots {status : Status} {best : Option (Fin 3)} {rest : List (Fin 3)}
    (hphase : s.phase = .slots status best rest) (i : Fin 3) :
    s.announced i = status.slots i := by
  unfold announced
  rw [hphase]

/-- A slot that is taken has the pixels that the status told of, and goes with its metadata. -/
theorem Kept.taken (h : Kept s) {g : Gpu} {status : Status} {best : Option (Fin 3)} {i : Fin 3}
    {rest : List (Fin 3)} (hphase : s.phase = .slots status best (i :: rest))
    (hnew : (status.host.slots i).frame > s.host.seen i) {metadata : Host.Slot}
    (hmetadata : (if some i ≠ best then { status.host.slots i with frame := 0 }
      else status.host.slots i) = metadata)
    (htaken : (g.input (s.texture i) metadata).1.encoded = some true) {seen : UInt64}
    (hseen : seen = (status.host.slots i).frame) :
    Visit.Matches ⟨status.slots i, metadata, (g.input (s.texture i) metadata).1 = .submitted, seen,
      (s.texture i).bind Texture.content⟩ := by
  obtain ⟨⟨texture, htexture, hkey⟩, hframe⟩ := Gpu.input_taken htaken
  have hcontent :=
    h.waits i ((waits_slots hphase).2 ⟨List.mem_cons_self, hnew⟩) texture htexture hkey
  rw [announced_slots hphase] at hcontent
  -- A frame that is new is one that a worker has captured.
  obtain ⟨c, hc⟩ : ∃ c, status.slots i = some c := by
    cases hslot : status.slots i with
    | some c => exact ⟨c, rfl⟩
    | none =>
      have hnew' : (slotOf (status.slots i)).frame > s.host.seen i := hnew
      rw [hslot] at hnew'
      exact absurd hnew' UInt64.not_lt_zero
  have hslot : status.host.slots i = ⟨c.frame, c.captureUs⟩ := by
    show slotOf (status.slots i) = _
    rw [hc]
    rfl
  refine ⟨c, ?_, hc, hseen.trans (congrArg Host.Slot.frame hslot), fun hsubmitted => ?_⟩
  · show (s.texture i).bind Texture.content = some c
    rw [htexture]
    exact hcontent.symm.trans hc
  · have hframe := hframe (of_decide_eq_true hsubmitted)
    show metadata = _
    by_cases hbest : some i ≠ best
    · rw [if_pos hbest] at hmetadata
      rw [← hmetadata] at hframe
      exact absurd rfl hframe
    · rw [if_neg hbest] at hmetadata
      rw [← hmetadata, hslot]

/-- A slot is taken with what the status told of it. -/
theorem Kept.visit (h : Kept s) (g : Gpu) {status : Status} {best : Option (Fin 3)} {i : Fin 3}
    {rest : List (Fin 3)} (hphase : s.phase = .slots status best (i :: rest)) :
    Kept (s.visit g status best i rest) := by
  have hfitting := h.fitting.visit g status best i rest
  have hannounced := announced_slots hphase
  have hwaits (j : Fin 3) := waits_slots (i := j) hphase
  unfold Display.visit at hfitting ⊢
  dsimp only at hfitting ⊢
  generalize ht : ({ encodes := fun _ metadata => (g.input (s.texture i) metadata).1.encoded } :
    Turn) = t at hfitting ⊢
  generalize hmetadata : (if some i ≠ best then
    { status.host.slots i with frame := 0 } else status.host.slots i : Host.Slot) = metadata
    at hfitting ⊢
  have hyields := Op.submit_yields (s := s.host) t status.host.slots best i
  have hopened := opened_input h.opened g (.surface s.key i) metadata
  rcases hexec : exec (Op.submit t status.host.slots best i) s.host with ⟨e | ⟨⟩, host⟩
  · rw [hexec] at hfitting
    exact h.of hfitting hopened nofun (fun _ => rfl) rfl
  · rw [hexec] at hfitting
    have hhost := hyields.of_exec hexec
    dsimp only at hfitting ⊢
    by_cases hnew : (status.host.slots i).frame > s.host.seen i
    · rw [if_pos hnew] at hfitting ⊢
      have hi := (hwaits i).2 ⟨List.mem_cons_self, hnew⟩
      have hencoder : host.encoder = s.host.encoder ∧ host.generation = s.host.generation := by
        rw [hhost]
        split_ifs <;> exact ⟨rfl, rfl⟩
      refine ⟨hfitting, hopened, fun e he => ?_, fun j hj texture htexture' hkey => ?_, ?_⟩
      · show Handed s.key host.generation.toNat _
        rw [hencoder.2]
        exact (h.handed e (hencoder.1.symm.trans he)).released i (@Gpu.input_texture g _ metadata)
      · have hj := (waits_slots rfl).1 hj
        have hupdate : Function.update s.driver.textures (.surface s.key i)
            (g.input (s.texture i) metadata).2 (.surface s.key j) = some texture := htexture'
        refine (hannounced j).symm.trans ?_
        by_cases hji : j = i
        · subst hji
          rw [Function.update_self] at hupdate
          rcases @Gpu.input_texture g (s.texture j) metadata with heq | heq
          · exact h.waits j hi texture (heq.symm.trans hupdate) hkey
          · rw [heq] at hupdate
            obtain ⟨t₀, -, rfl⟩ := Option.map_eq_some_iff.1 hupdate
            exact nomatch hkey
        · rw [Function.update_of_ne fun heq => hji (SurfaceName.surface.inj heq).2] at hupdate
          have hseen : host.seen j = s.host.seen j := by
            rw [hhost]
            split_ifs
            all_goals first | exact Function.update_of_ne hji .. | rfl
          exact h.waits j ((hwaits j).2 ⟨List.mem_cons_of_mem _ hj.1, hseen ▸ hj.2⟩) texture hupdate
            hkey
      · intro v hv
        dsimp only at hv
        split at hv
        · rename_i htaken
          rcases List.mem_append.1 hv with hv | hv
          · exact h.visits v hv
          rw [List.mem_singleton.1 hv]
          refine h.taken hphase hnew hmetadata htaken ?_
          rw [hhost, if_pos]
          · exact Function.update_self ..
          · refine ⟨hnew, ?_⟩
            rw [← ht, hmetadata]
            exact htaken
        · exact h.visits v hv
    · rw [if_neg hnew] at hfitting ⊢
      have hsame : host = s.host := hhost.trans (if_neg fun hencodes => hnew hencodes.1)
      subst hsame
      refine ⟨hfitting, h.opened, h.handed, fun j hj texture htexture hkey => ?_, h.visits⟩
      have hj := (waits_slots rfl).1 hj
      exact (hannounced j).symm.trans
        (h.waits j ((hwaits j).2 ⟨List.mem_cons_of_mem _ hj.1, hj.2⟩) texture htexture hkey)

theorem Kept.init (h : Init s) : Kept s := by
  have hfitting := Fitting.init h
  obtain ⟨config, displayChanged, now, key, rfl⟩ := h
  exact ⟨hfitting, nofun, nofun, fun _ => nofun, nofun⟩

theorem Kept.step (h : Kept s) (m : Move) (horderly : Orderly s m) : Kept (s.step m) := by
  have hfitting := h.fitting.step m horderly.1.1
  have hshared {host : Pipeline} (hfitting : Fitting { s with host := host })
      (hheld : (host.encoder, host.generation, host.seen) =
        (s.host.encoder, s.host.generation, s.host.seen)) : Kept { s with host := host } := by
    simp only [Prod.mk.injEq] at hheld
    obtain ⟨hencoder, hgeneration, hseen⟩ := hheld
    refine ⟨hfitting, h.opened, fun e he => ?_, fun i hi => h.waits i ?_, h.visits⟩
    · show Handed s.key host.generation.toNat s.driver
      rw [hgeneration]
      exact h.handed e (hencoder.symm.trans he)
    · unfold Display.waits at hi ⊢
      dsimp only at hi
      rw [hencoder, hgeneration, hseen] at hi
      exact hi
  cases m with
  | driver e => exact h.driver horderly
  | keyframe => exact hshared hfitting rfl
  | bitrate rate => exact hshared hfitting rfl
  | displayChanged => exact hshared hfitting rfl
  | event => exact hshared hfitting rfl
  | turn t cmd =>
    unfold Display.step
    dsimp only
    split
    · rename_i hphase
      split
      · exact h
      · exact h.approach t cmd hphase
    · exact h
  | ask ok =>
    cases hphase : s.phase with
    | asks => exact h.ask ok hphase
    | _ =>
      unfold Display.step
      dsimp only
      rw [hphase]
      exact h
  | prepare t key =>
    unfold Display.step
    dsimp only
    split
    · rename_i status hphase
      refine h.prepare t (fun i => ?_) hphase
      exact Option.isNone_iff_eq_none.1 (List.all_eq_true.1 horderly.1.2 i (List.mem_finRange i))
    · exact h
  | visit g =>
    unfold Display.step at hfitting ⊢
    dsimp only at hfitting ⊢
    split
    · rename_i hphase
      exact h.visit g hphase
    · rename_i hphase
      rw [hphase] at hfitting
      exact h.of hfitting h.opened h.handed (fun _ => rfl) rfl
    · exact h

/-- **Metadata and pixels stay together.**  In every run of the host and the driver in which no
worker fills a slot of the encoder while a turn waits for that slot with what an earlier status
told of it, every slot that is taken has the pixels of the capture that the status told of: with
them its frame and its time go to the encoder, and its frame is the one that is seen. -/
theorem hands_over (h : Reaches step Init Orderly s) : ∀ v ∈ s.visits, v.Matches :=
  (h.invariant (fun _ => Kept.init) fun _ m hkept horderly => hkept.step m horderly).visits

def sampleKey (n : ℕ) : Id16 := ⟨List.replicate 16 (.ofNat n), List.length_replicate ..⟩

/-- The first turn opens an encoder and finds no frame; then the worker fills the first slot. -/
def sampleFilled : List Move :=
  [.prepare {} (sampleKey 1), .visit {}, .visit {}, .visit {}, .visit {},
    .driver (.pass 0 { width := 1920, height := 1080, captureUs := 10 }), .driver .publish]

/-- The next turn is told of the frame, and takes it. -/
def sampleTaken : List Move :=
  [.turn {} none, .ask true, .prepare {} (sampleKey 2), .visit {}]

/-- The client comes back within the grace period and the next turn opens another encoder; the
worker fills its first slot before the turn gets there. -/
def sampleReconnect : List Move :=
  [.turn {} (some (.disconnect false))] ++ sampleAsk ++ [.prepare {} (sampleKey 2),
    .driver (.pass 0 { width := 1920, height := 1080, captureUs := 20 }), .visit {}]

def sampleLoop : Display := (sampleFilled ++ sampleTaken).foldl step sampleAsked

theorem hands_over_sample : sampleLoop.visits = [⟨some ⟨0, 2, 10⟩, ⟨2, 10⟩, true, 2,
    some ⟨0, 2, 10⟩⟩] ∧ ∀ v ∈ sampleLoop.visits, v.Matches := by
  have hasked : Reaches step Init Orderly sampleAsked :=
    (Reaches.init ⟨{}, false, 0, Id16.zero, rfl⟩).along (by decide)
  exact ⟨rfl, hands_over (hasked.along (by decide))⟩

def sampleRace : Display := (sampleFilled ++ sampleReconnect).foldl step sampleAsked

/-- **The race.**  The property fails: with what the status told of the first slot of the old
textures, the first slot of the new ones is taken, and their frame is another one. -/
theorem handoff_mismatched :
    ¬ ∀ s, Reaches step Init Possible s → ∀ v ∈ s.visits, v.Matches := by
  intro h
  have hasked : Reaches step Init Possible sampleAsked :=
    (Reaches.init ⟨{}, false, 0, Id16.zero, rfl⟩).along (by decide)
  have hvisits : sampleRace.visits = [⟨some ⟨0, 2, 10⟩, ⟨2, 10⟩, true, 2, some ⟨0, 3, 20⟩⟩] := rfl
  obtain ⟨c, hcontent, hannounced, -⟩ := h sampleRace (hasked.along (by decide)) _
    (hvisits ▸ List.mem_cons_self)
  have heq : (⟨0, 2, 10⟩ : Capture) = ⟨0, 3, 20⟩ :=
    Option.some.inj (hannounced.trans hcontent.symm)
  exact absurd heq (by decide)

end Display

end Driver
end SidecarDOS
