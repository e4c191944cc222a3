/-
# Which assembly makes room

The assembler holds two frames.  A fragment of a third one that is newer than the last
frame delivered evicts the older of the two, whether or not the third frame is newer
than it.  So a late fragment of an old frame takes the place of a newer frame, which may
be complete already (`newer_evicted`).  The two newest frames are held exactly if the
third frame is newer than the one that it evicts (`newest_held`).
-/

import SidecarDOS.Library.Runs
import SidecarDOS.Video.FrameAssembler

namespace SidecarDOS
namespace Ipad

open Library (Reaches Along)

namespace FrameAssembler

variable {a : FrameAssembler} {f : VideoFragment} {now : ℕ}

/-- A call of the assembler. -/
inductive Call where
  | ingest (f : VideoFragment) (now : ℕ)
  | expire (now : ℕ)
  | next (now : ℕ)

def call (a : FrameAssembler) : Call → FrameAssembler
  | .ingest f now => (a.ingest f now).1
  | .expire now => a.expire now
  | .next now => (a.next now).1

theorem mem_keys_iff {a : FrameAssembler} {id : ℕ} :
    id ∈ a.frames.keys ↔ ∃ p, a.frames.lookup id = some p := by
  rw [← AList.mem_keys, ← AList.lookup_isSome, Option.isSome_iff_exists]

/-- The frame of the fragment has an assembly behind `track`. -/
theorem track_lookup (a : FrameAssembler) (f : VideoFragment) (now : ℕ) :
    ∃ p, (a.track f now).frames.lookup f.frameId.toNat = some p := by
  obtain ⟨heq, p, hp⟩ | ⟨b, -, -, heq⟩ := a.track_cases f now
  · rw [heq]
    exact ⟨p, hp⟩
  · rw [heq]
    exact ⟨_, AList.lookup_insert _⟩

/-- What `ingest` does with a fragment of a newer frame that it accepts. -/
theorem ingest_ok (hlast : a.last < f.frameId.toNat) (hok : (a.ingest f now).2 = .ok ()) :
    InBounds f ∧ ∃ b p p', b =
        ({ a with receivedFragments := a.receivedFragments + 1 }.expire now).track f now ∧
      b.frames.lookup f.frameId.toNat = some p ∧ p.add f = .ok p' ∧
        (a.ingest f now).1 = { b with frames := b.frames.insert f.frameId.toNat p' } := by
  unfold ingest at hok ⊢
  split at hok
  · exact nomatch hok
  rename_i hbounds
  rw [not_not] at hbounds
  rw [if_neg (not_not.2 hbounds), if_neg (by omega)]
  rw [if_neg (by omega)] at hok
  refine ⟨hbounds, ?_⟩
  obtain ⟨p, hp⟩ := track_lookup
    ({ a with receivedFragments := a.receivedFragments + 1 }.expire now) f now
  simp only [hp] at hok ⊢
  cases hadd : p.add f with
  | error e =>
    rw [hadd] at hok
    exact nomatch hok
  | ok p' => exact ⟨_, p, p', rfl, hp, hadd, rfl⟩

/-- No assembly is older than 40 ms. -/
def Unexpired (a : FrameAssembler) (now : ℕ) : Prop :=
  ∀ id p, a.frames.lookup id = some p → now - p.arrival ≤ 40000

/-- Of some frames, all but the oldest one. -/
def Newer (ids : List ℕ) (id : ℕ) : Prop := id ∈ ids ∧ ∃ old ∈ ids, old < id

/-- The oldest assembly makes room for a third frame. -/
theorem keys_track (now : ℕ) (htwo : a.frames.keys.length = 2) (hnew : f.frameId.toNat ∉ a.frames.keys) :
    ∃ old ∈ a.frames.keys, (∀ id ∈ a.frames.keys, old ≤ id) ∧
      ∀ id, id ∈ (a.track f now).frames.keys ↔
        id = f.frameId.toNat ∨ id ≠ old ∧ id ∈ a.frames.keys := by
  have hnone : a.frames.lookup f.frameId.toNat = none := by
    cases h : a.frames.lookup f.frameId.toNat with
    | none => rfl
    | some p => exact absurd (mem_keys_iff.2 ⟨p, h⟩) hnew
  cases hmin : a.frames.keys.min? with
  | none =>
    rw [List.min?_eq_none_iff.1 hmin] at htwo
    exact nomatch htwo
  | some old =>
    obtain ⟨hold, hleast⟩ := List.min?_eq_some_iff.1 hmin
    refine ⟨old, hold, hleast, fun id => ?_⟩
    obtain ⟨p, hp⟩ := mem_keys_iff.1 hold
    unfold track discard
    simp only [hnone, hmin, hp, htwo, ge_iff_le, le_refl, ↓reduceIte]
    rw [← AList.mem_keys, AList.mem_insert, AList.mem_erase, AList.mem_keys]

/-- **The two newest of three frames are held** exactly if the frame that arrives is newer
than the older one of the two that were held. -/
theorem newest_held (htwo : a.frames.keys.length = 2) (hfresh : a.Unexpired now)
    (hnew : f.frameId.toNat ∉ a.frames.keys) (hlast : a.last < f.frameId.toNat)
    (hok : (a.ingest f now).2 = .ok ()) :
    (∀ id, id ∈ (a.ingest f now).1.frames.keys ↔ Newer (f.frameId.toNat :: a.frames.keys) id) ↔
      ∃ old ∈ a.frames.keys, old < f.frameId.toNat := by
  obtain ⟨-, b, p, p', hb, hp, -, heq⟩ := ingest_ok hlast hok
  have hexpire : ({ a with receivedFragments := a.receivedFragments + 1 }).expire now =
      { a with receivedFragments := a.receivedFragments + 1 } := expire_eq_self fun h => hfresh _ _ h
  rw [hexpire] at hb
  obtain ⟨old, hold, hleast, hkeys⟩ := keys_track now
    (a := { a with receivedFragments := a.receivedFragments + 1 }) htwo hnew
  have hheld : ∀ id, id ∈ (a.ingest f now).1.frames.keys ↔
      id = f.frameId.toNat ∨ id ≠ old ∧ id ∈ a.frames.keys := by
    intro id
    rw [← hkeys id, ← hb, heq, ← AList.mem_keys, AList.mem_insert, AList.mem_keys]
    refine or_iff_right_of_imp ?_
    rintro rfl
    exact mem_keys_iff.2 ⟨p, hp⟩
  simp only [hheld]
  constructor
  · intro h
    obtain ⟨-, id, hid, hlt⟩ := (h f.frameId.toNat).1 (.inl rfl)
    rcases List.mem_cons.1 hid with rfl | hid
    · exact absurd hlt (lt_irrefl _)
    · exact ⟨id, hid, hlt⟩
  · rintro ⟨older, holder, hlt⟩ id
    have hle := hleast older holder
    constructor
    · rintro (rfl | ⟨hne, hid⟩)
      · exact ⟨List.mem_cons_self .., older, List.mem_cons_of_mem _ holder, hlt⟩
      · exact ⟨List.mem_cons_of_mem _ hid, old, List.mem_cons_of_mem _ hold,
          lt_of_le_of_ne (hleast id hid) (Ne.symm hne)⟩
    · rintro ⟨hid, first, hfirst, hlt'⟩
      rcases List.mem_cons.1 hid with hid | hid
      · exact .inl hid
      · refine .inr ⟨?_, hid⟩
        rcases List.mem_cons.1 hfirst with rfl | hfirst
        · omega
        · have hle' := hleast first hfirst
          omega

/-- A fragment of a frame that is complete with it. -/
def sampleFragment (id : UInt64) : VideoFragment := ⟨1, id, 0, 0, 0, 1, 0, 1, 1, [7]⟩

/-- The frames 5 and 6 have arrived. -/
def sampleCalls : List Call := [.ingest (sampleFragment 5) 0, .ingest (sampleFragment 6) 0]

def sampleHeld : FrameAssembler := sampleCalls.foldl call {}

theorem sampleHeld_unexpired : sampleHeld.Unexpired 0 := by
  intro id p _
  rw [Nat.zero_sub]
  exact Nat.zero_le _

/-- The hypotheses of `newest_held` are satisfiable: frame 7 takes the place of frame 5. -/
theorem newest_held_sample : 5 ∈ sampleHeld.frames.keys ∧
    ∀ id, id ∈ (sampleHeld.ingest (sampleFragment 7) 0).1.frames.keys ↔
      Newer (7 :: sampleHeld.frames.keys) id :=
  ⟨by decide, (newest_held (by decide) sampleHeld_unexpired (by decide) (by decide)
    (by decide)).2 ⟨5, by decide, by decide⟩⟩

/-- The property fails: a late fragment of frame 4 evicts frame 5, which is complete. -/
theorem newer_evicted : (sampleHeld.frames.lookup 5).any Partial.complete = true ∧
    ¬ ∀ (a : FrameAssembler) f now, Reaches call (· = {}) (fun _ _ => True) a →
      a.frames.keys.length = 2 → a.Unexpired now → f.frameId.toNat ∉ a.frames.keys →
        a.last < f.frameId.toNat → (a.ingest f now).2 = .ok () →
          ∀ id, id ∈ (a.ingest f now).1.frames.keys ↔ Newer (f.frameId.toNat :: a.frames.keys) id := by
  refine ⟨by decide, fun h => ?_⟩
  have hcalls : Along call (fun _ _ => True) {} sampleCalls := ⟨trivial, trivial, trivial⟩
  have hinit : Reaches call (· = {}) (fun _ _ => True) ({} : FrameAssembler) := .init rfl
  have hreaches : Reaches call (· = {}) (fun _ _ => True) sampleHeld := hinit.along hcalls
  have hheld := h _ (sampleFragment 4) 0 hreaches (by decide) sampleHeld_unexpired (by decide)
    (by decide) (by decide) 5
  exact absurd (hheld.2 ⟨by decide, 4, by decide, by decide⟩) (by decide)

end FrameAssembler
end Ipad
end SidecarDOS
