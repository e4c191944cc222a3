/-
# Keyframes with their parameter sets

`ParameterSets` keeps the sets that the encoder has sent last, and `prepare` repeats them in front
of a keyframe that has none of its own.  A set is kept as the scanner has cut it out, so it may
end in zeros; the start code behind it takes one of them when the keyframe is scanned again.
But for that a keyframe is, to host and client, what was missing and what the encoder
made (`keyframes_self_contained`).
-/

import Mathlib.Data.List.DropRight
import SidecarDOS.Host.AccessUnits

namespace SidecarDOS
namespace Host
namespace H264

open Library.AnnexB (Code split settle settle_cases plain_split split_insert)
open Ipad (H264Decoder)

/-- The last unit of a type. -/
def latest (type : UInt8) (nals : List Bytes) : Option Bytes :=
  (nals.filter (nalType · = type)).getLast?

/-- There is a unit of the type. -/
def has (type : UInt8) (nals : List Bytes) : Bool := nals.any (nalType · = type)

variable {type : UInt8} {nals nals' : List Bytes} {data : Bytes}

theorem latest_append (nals nals' : List Bytes) :
    latest type (nals ++ nals') = (latest type nals').or (latest type nals) := by
  rw [latest, List.filter_append, List.getLast?_append]
  rfl

theorem latest_cons (nal : Bytes) (nals : List Bytes) : latest type (nal :: nals) =
    (latest type nals).or (if nalType nal = type then some nal else none) := by
  rw [← List.singleton_append, latest_append]
  by_cases h : nalType nal = type
  · simp [latest, h]
  · simp [latest, h]

theorem mem_of_latest {nal : Bytes} (h : latest type nals = some nal) :
    nal ∈ nals ∧ nalType nal = type := by
  have hmem := List.mem_filter.1 (List.mem_of_getLast? h)
  exact ⟨hmem.1, of_decide_eq_true hmem.2⟩

namespace ParameterSets

/-- The loop of `prepare`. -/
theorem foldl_note (p : ParameterSets) (sps pps idr : Bool) (nals : List Bytes) :
    nals.foldl note (p, sps, pps, idr) =
      (⟨(latest 7 nals).getD p.sps, (latest 8 nals).getD p.pps⟩,
        sps || has 7 nals, pps || has 8 nals, idr || has 5 nals) := by
  induction nals generalizing p sps pps idr with
  | nil => simp [latest, has]
  | cons nal nals ih =>
    have hhas (type : UInt8) :
        has type (nal :: nals) = (decide (nalType nal = type) || has type nals) := rfl
    rw [List.foldl_cons, latest_cons, latest_cons, hhas, hhas, hhas]
    by_cases hsps : nalType nal = 7
    · rw [show note (p, sps, pps, idr) nal = ({ p with sps := nal }, true, pps, idr) from
        if_pos hsps, ih]
      simp [hsps]
    by_cases hpps : nalType nal = 8
    · rw [show note (p, sps, pps, idr) nal = ({ p with pps := nal }, sps, true, idr) from
        (if_neg hsps).trans (if_pos hpps), ih]
      simp [hpps]
    by_cases hidr : nalType nal = 5
    · rw [show note (p, sps, pps, idr) nal = (p, sps, pps, true) from
        (if_neg hsps).trans ((if_neg hpps).trans (if_pos hidr)), ih]
      simp [hidr]
    · rw [show note (p, sps, pps, idr) nal = (p, sps, pps, idr) from
        (if_neg hsps).trans ((if_neg hpps).trans (if_neg hidr)), ih]
      simp [hsps, hpps, hidr]

/-- What is kept behind access units. -/
def after (history : List Bytes) : ParameterSets :=
  history.foldl (fun p data => (p.prepare data).1) {}

/-- The sets are kept even if the access unit is rejected for the want of them, or its size. -/
theorem prepare_sets (p : ParameterSets) (h : units data = .ok nals) :
    (p.prepare data).1 = ⟨(latest 7 nals).getD p.sps, (latest 8 nals).getD p.pps⟩ := by
  unfold prepare
  rw [h]
  simp only [foldl_note, apply_ite Prod.fst, ite_self]

/-- What `prepare` puts in front of a keyframe that has no unit of the type. -/
def front (type : UInt8) (nals : List Bytes) (set : Bytes) : Bytes :=
  if has type nals then [] else [0, 0, 0, 1] ++ set

theorem limited {p : ParameterSets} {out out' : Bytes} {idr idr' : Bool} {e : Error}
    (h : (if ¬ out.length ≤ MAX_FRAME then (p, Except.error e) else (p, .ok (out, idr))).2 =
      .ok (out', idr')) : out = out' ∧ idr = idr' ∧ out.length ≤ MAX_FRAME := by
  split at h
  · cases h
  · rename_i hle
    obtain ⟨rfl, rfl⟩ := Prod.mk.inj (Except.ok.inj h)
    exact ⟨rfl, rfl, not_not.1 hle⟩

theorem prepare_ok {p p' : ParameterSets} {out : Bytes} {idr : Bool} (hnals : units data = .ok nals)
    (hp' : p' = ⟨(latest 7 nals).getD p.sps, (latest 8 nals).getD p.pps⟩)
    (h : (p.prepare data).2 = .ok (out, idr)) : idr = has 5 nals ∧ out.length ≤ MAX_FRAME ∧
      (idr = false → out = data) ∧ (idr = true → p'.sps ≠ [] ∧ p'.pps ≠ [] ∧
        out = front 7 nals p'.sps ++ (front 8 nals p'.pps ++ data)) := by
  unfold prepare at h
  rw [hnals] at h
  simp only [foldl_note, Bool.false_or, ← hp'] at h
  split at h
  · cases h
  rename_i hsets
  obtain ⟨rfl, rfl, hle⟩ := limited h
  refine ⟨rfl, hle, fun hidr => ?_, fun hidr => ?_⟩
  · simp [hidr]
  · have hboth := not_not.1 (mt (And.intro hidr) hsets)
    refine ⟨hboth.1, hboth.2, ?_⟩
    cases hsps : has 7 nals <;> cases hpps : has 8 nals <;> simp [front, hidr, hsps, hpps]

end ParameterSets

/-- The units of access units, but of those that cannot be split. -/
def seen (history : List Bytes) : List Bytes :=
  history.flatMap fun data => (units data).toOption.getD []

theorem seen_concat (history : List Bytes) (h : units data = .ok nals) :
    seen (history ++ [data]) = seen history ++ nals := by
  rw [seen, List.flatMap_append, List.flatMap_singleton, h]
  rfl

/-- The latest sets are kept. -/
theorem after_eq (history : List Bytes) : ParameterSets.after history =
    ⟨(latest 7 (seen history)).getD [], (latest 8 (seen history)).getD []⟩ := by
  induction history using List.reverseRecOn with
  | nil => rfl
  | append_singleton history data ih =>
    rw [ParameterSets.after, List.foldl_concat]
    change (ParameterSets.prepare (ParameterSets.after history) data).1 = _
    cases h : units data with
    | ok nals =>
      rw [ParameterSets.prepare_sets _ h, ih, seen_concat history h, latest_append, latest_append,
        Option.getD_or, Option.getD_or]
    | error e =>
      have hseen : seen (history ++ [data]) = seen history := by
        rw [seen, List.flatMap_append, List.flatMap_singleton, h]
        exact List.append_nil _
      rw [ParameterSets.prepare, h, hseen]
      exact ih

/-- A unit that has been cut out contains no start code, and is not empty. -/
theorem seen_plain {history : List Bytes} {nal : Bytes} (h : nal ∈ seen history) :
    Library.AnnexB.Plain nal ∧ nal ≠ [] := by
  obtain ⟨data, -, hnal⟩ := List.mem_flatMap.1 h
  cases hunits : units data with
  | error e =>
    rw [hunits] at hnal
    exact absurd hnal List.not_mem_nil
  | ok nals =>
    rw [hunits] at hnal
    have hdelimited := units_iff.1 hunits
    obtain ⟨u, hu, rfl⟩ := List.mem_map.1 (hdelimited.nals ▸ hnal)
    exact ⟨(plain_split data).2 u hu, hdelimited.nonempty u hu⟩

/-! ### Units in front of a keyframe -/

/-- A unit without the zeros that it ends in. -/
def trim (nal : Bytes) : Bytes := nal.rdropWhile fun b => b = 0

theorem trim_settle (nal : Bytes) (c : Code) : trim (settle nal c).1 = trim nal := by
  rcases settle_cases nal c with heq | ⟨v, rfl, heq⟩
  · rw [heq]
  · rw [heq]
    exact (List.rdropWhile_concat_pos _ v 0 rfl).symm

/-- A unit of a type other than 0 keeps its first byte. -/
theorem headD_settle {nal : Bytes} (htype : nalType nal ≠ 0) (c : Code) :
    (settle nal c).1 ≠ [] ∧ nalType (settle nal c).1 = nalType nal := by
  rcases settle_cases nal c with heq | ⟨v, rfl, heq⟩
  · rw [heq]
    refine ⟨?_, rfl⟩
    rintro rfl
    exact htype rfl
  · rw [heq]
    cases v with
    | nil => exact absurd rfl htype
    | cons b v => exact ⟨nofun, rfl⟩

/-- `data` begins with a start code, and these are its units. -/
structure Framed (data : Bytes) (nals : List Bytes) : Prop where
  code : ∃ c : Code, c.bytes <+: data
  nals : (split data).2.map Prod.snd = nals

/-- A parameter set in front of units. -/
theorem Framed.insert (h : Framed data nals) {nal : Bytes} (hplain : Library.AnnexB.Plain nal)
    (htype : nalType nal ≠ 0) : ∃ nal', (nal' ≠ [] ∧ nalType nal' = nalType nal) ∧
      trim nal' = trim nal ∧ Framed ([0, 0, 0, 1] ++ nal ++ data) (nal' :: nals) := by
  obtain ⟨c, hcode⟩ := h.code
  refine ⟨(settle nal c).1, headD_settle htype c, trim_settle nal c, ⟨.four, ?_⟩, ?_⟩
  · rw [List.append_assoc]
    exact List.prefix_append ..
  · rw [split_insert hplain hcode, h.nals]

/-- Units that differ in the zeros at their ends only. -/
def Same (nal' nal : Bytes) : Prop :=
  nal' ≠ [] ∧ nalType nal' = nalType nal ∧ trim nal' = trim nal

theorem Same.refl_of_ne {nal : Bytes} (h : nal ≠ []) : Same nal nal := ⟨h, rfl, rfl⟩

theorem has_of_same (h : List.Forall₂ Same nals' nals) : has type nals' = has type nals := by
  induction h with
  | nil => rfl
  | cons hnal _ ih =>
    rw [has, List.any_cons, hnal.2.1]
    exact congrArg _ ih

theorem trim_of_same (h : List.Forall₂ Same nals' nals) : nals'.map trim = nals.map trim := by
  induction h with
  | nil => rfl
  | cons hnal _ ih => rw [List.map_cons, List.map_cons, hnal.2.2, ih]

theorem ne_nil_of_same (h : List.Forall₂ Same nals' nals) : ∀ nal ∈ nals', nal ≠ [] := by
  induction h with
  | nil => exact nofun
  | cons hnal _ ih => exact List.forall_mem_cons.2 ⟨hnal.1, ih⟩

/-- The latest set of the type, if there is none in the keyframe. -/
def missing (type : UInt8) (nals : List Bytes) (set : Bytes) : List Bytes :=
  if has type nals then [] else [set]

/-- What is put in front of a keyframe is a unit of it. -/
theorem Framed.front {set : Bytes} {expected : List Bytes} (present : List Bytes)
    (h : Framed data nals') (hsame : List.Forall₂ Same nals' expected)
    (hplain : Library.AnnexB.Plain set) (hset : nalType set = type) (htype : type ≠ 0) :
    ∃ nals'', Framed (ParameterSets.front type present set ++ data) nals'' ∧
      List.Forall₂ Same nals'' (missing type present set ++ expected) := by
  unfold ParameterSets.front missing
  split
  · exact ⟨nals', h, hsame⟩
  · obtain ⟨nal', hnal', htrim, hframed⟩ := h.insert hplain (hset ▸ htype)
    exact ⟨nal' :: nals', hframed, .cons ⟨hnal'.1, hnal'.2, htrim⟩ hsame⟩

theorem Framed.delimited (h : Framed data nals) (hne : nals ≠ []) (hle : nals.length ≤ 4096)
    (hnals : ∀ nal ∈ nals, nal ≠ []) : Delimited data nals := by
  rw [← h.nals] at hne hle hnals
  exact ⟨fun hnil => hne (by rw [hnil]; rfl), by rwa [List.length_map] at hle,
    fun u hu => hnals _ (List.mem_map_of_mem hu), h.nals.symm⟩

theorem framed_of_units (hcode : ∃ c : Code, c.bytes <+: data) (h : units data = .ok nals) :
    Framed data nals ∧ List.Forall₂ Same nals nals := by
  have hdelimited := units_iff.1 h
  refine ⟨⟨hcode, hdelimited.nals.symm⟩, List.forall₂_same.2 fun nal hnal => .refl_of_ne ?_⟩
  obtain ⟨u, hu, rfl⟩ := List.mem_map.1 (hdelimited.nals ▸ hnal)
  exact hdelimited.nonempty u hu

theorem eq_some_of_getD {kept : Option Bytes} {set : Bytes} (h : kept.getD [] = set)
    (hne : set ≠ []) : kept = some set := by
  cases kept with
  | none => exact absurd h.symm hne
  | some nal => exact congrArg some h

/-- A kept set is one that the encoder has sent, unless none is kept. -/
theorem kept {history : List Bytes} {set : Bytes}
    (h : (latest type (seen history)).getD [] = set) (hne : set ≠ []) :
    latest type (seen history) = some set ∧ Library.AnnexB.Plain set ∧ nalType set = type := by
  have hlatest := eq_some_of_getD h hne
  obtain ⟨hmem, htype⟩ := mem_of_latest hlatest
  exact ⟨hlatest, (seen_plain hmem).1, htype⟩

theorem length_missing (type : UInt8) (nals : List Bytes) (set : Bytes) :
    (missing type nals set).length ≤ 1 := by
  unfold missing
  split
  · exact Nat.zero_le 1
  · exact Nat.le_refl 1

theorem ne_nil_of_has (h : has type nals = true) : nals ≠ [] := by
  rintro rfl
  cases h

theorem has_append_right (nals : List Bytes) :
    has type nals' = true → has type (nals ++ nals') = true := by
  intro h
  rw [has, List.any_append, Bool.or_eq_true]
  exact .inr h

/-- Both sets are in a keyframe that is sent. -/
theorem has_missing {set : Bytes} (hset : nalType set = type)
    (h : has type nals = true → has type nals' = true) :
    has type (missing type nals set ++ nals') = true := by
  unfold missing
  split
  · rename_i hnals
    exact h hnals
  · rw [List.singleton_append, has, List.any_cons, decide_eq_true hset, Bool.true_or]

/-- A keyframe with both sets put in front, first the picture set and then the sequence set. -/
theorem Framed.keyframe {sps pps : Bytes} (h : Framed data nals)
    (hsame : List.Forall₂ Same nals nals) (hle : nals.length ≤ 4094)
    (hsps : Library.AnnexB.Plain sps ∧ nalType sps = 7)
    (hpps : Library.AnnexB.Plain pps ∧ nalType pps = 8) :
    ∃ nals', Delimited (ParameterSets.front 7 nals sps ++ (ParameterSets.front 8 nals pps ++ data))
        nals' ∧
      nals'.map trim = (missing 7 nals sps ++ missing 8 nals pps ++ nals).map trim ∧
        has 7 nals' = true ∧ has 8 nals' = true := by
  obtain ⟨nals8, hframed8, hsame8⟩ := h.front nals hsame hpps.1 hpps.2 (by decide)
  obtain ⟨nals', hframed', hsame'⟩ := hframed8.front nals hsame8 hsps.1 hsps.2 (by decide)
  have hhas7 := (has_of_same hsame').trans (has_missing hsps.2 (has_append_right _))
  have hhas8 := (has_of_same hsame').trans (has_append_right _ (has_missing hpps.2 id))
  have hlength : nals'.length ≤ 4096 := by
    have hnals' := hsame'.length_eq
    have h7 := length_missing 7 nals sps
    have h8 := length_missing 8 nals pps
    rw [List.length_append, List.length_append] at hnals'
    omega
  refine ⟨nals', hframed'.delimited (ne_nil_of_has hhas7) hlength (ne_nil_of_same hsame'), ?_,
    hhas7, hhas8⟩
  rw [trim_of_same hsame', List.append_assoc]

/-- **Keyframes bring their parameter sets.**  Behind any access units, what is sent ends with
what the encoder made and is no more than that unless it is a keyframe.  For a keyframe, host and
client find the latest sets that the encoder sent, as far as they are missing, and then the
units of the encoder, all but for the zeros at their ends. -/
theorem keyframes_self_contained (history : List Bytes) (data out : Bytes) (idr : Bool)
    (hcode : [0, 0, 1] <+: data ∨ [0, 0, 0, 1] <+: data)
    (hle : ∀ nals, units data = .ok nals → nals.length ≤ 4094)
    (h : ((ParameterSets.after history).prepare data).2 = .ok (out, idr)) :
    ∃ nals nals', units data = .ok nals ∧ units out = .ok nals' ∧
      H264Decoder.nals out = .ok nals' ∧ (idr = true ↔ ∃ nal ∈ nals, nalType nal = 5) ∧
        data <:+ out ∧ (idr = false → out = data) ∧
          (idr = true → ∃ sps pps, latest 7 (seen (history ++ [data])) = some sps ∧
            latest 8 (seen (history ++ [data])) = some pps ∧
              nals'.map trim = (missing 7 nals sps ++ missing 8 nals pps ++ nals).map trim ∧
                has 7 nals' = true ∧ has 8 nals' = true) := by
  cases hnals : units data with
  | error e =>
    rw [ParameterSets.prepare, hnals] at h
    cases h
  | ok nals =>
    have hseen := seen_concat history hnals
    have hsets : ParameterSets.after (history ++ [data]) =
        ⟨(latest 7 nals).getD (ParameterSets.after history).sps,
          (latest 8 nals).getD (ParameterSets.after history).pps⟩ := by
      rw [ParameterSets.after, List.foldl_concat]
      exact ParameterSets.prepare_sets _ hnals
    obtain ⟨hidr, hmax, hrest, hkey⟩ := ParameterSets.prepare_ok hnals hsets h
    have htype : idr = true ↔ ∃ nal ∈ nals, nalType nal = 5 := by
      rw [hidr, has, List.any_eq_true]
      exact exists_congr fun nal => and_congr_right fun _ => decide_eq_true_iff
    obtain ⟨hframed, hsame⟩ := framed_of_units (by
      rcases hcode with hcode | hcode
      · exact ⟨.three, hcode⟩
      · exact ⟨.four, hcode⟩) hnals
    cases idr with
    | false =>
      obtain rfl := hrest rfl
      exact ⟨nals, nals, rfl, hnals, nals_iff.2 ⟨hmax, units_iff.1 hnals⟩, htype, List.suffix_rfl,
        fun _ => rfl, nofun⟩
    | true =>
      obtain ⟨hsps, hpps, hout⟩ := hkey rfl
      rw [after_eq] at hsps hpps hout
      obtain ⟨hlatest7, hplain7, htype7⟩ := kept rfl hsps
      obtain ⟨hlatest8, hplain8, htype8⟩ := kept rfl hpps
      obtain ⟨nals', hdelimited, htrim, hhas7, hhas8⟩ :=
        hframed.keyframe hsame (hle nals hnals) ⟨hplain7, htype7⟩ ⟨hplain8, htype8⟩
      rw [← hout] at hdelimited
      refine ⟨nals, nals', rfl, units_iff.2 hdelimited, nals_iff.2 ⟨hmax, hdelimited⟩, htype, ?_,
        nofun, fun _ => ⟨_, _, hlatest7, hlatest8, htrim, hhas7, hhas8⟩⟩
      rw [hout, ← List.append_assoc]
      exact List.suffix_append ..

/-- A keyframe behind both sets, the first of which ends in a zero. -/
theorem keyframes_self_contained_sample :
    ∃ nals', H264Decoder.nals [0, 0, 0, 1, 0x67, 0xaa, 0, 0, 0, 0, 1, 0x68, 0xbb, 0, 0, 1, 0x65] =
      .ok nals' ∧ has 7 nals' = true ∧ has 8 nals' = true :=
  have hunits : units [0, 0, 1, 0x65] = .ok [[0x65]] := by decide
  have hle : ∀ nals, units [0, 0, 1, 0x65] = .ok nals → nals.length ≤ 4094 :=
    fun nals h => Except.ok.inj (hunits.symm.trans h) ▸ by decide
  have ⟨_, nals', _, _, hnals, _, _, _, hkey⟩ := keyframes_self_contained
    [[0, 0, 0, 1, 0x67, 0xaa, 0, 0, 0, 0, 1, 0x68, 0xbb]] [0, 0, 1, 0x65] _ true (by decide) hle rfl
  have ⟨_, _, _, _, _, hsps, hpps⟩ := hkey rfl
  ⟨nals', hnals, hsps, hpps⟩

/-! ### What is sent -/

/-- What the encoder makes: a stream of units behind a start code, of which parameter sets come
with an IDR. -/
structure AccessUnit (data : Bytes) : Prop where
  code : [0, 0, 1] <+: data ∨ [0, 0, 0, 1] <+: data
  length : ∀ nals, units data = .ok nals → nals.length ≤ 4094
  sets : ∀ nals, units data = .ok nals → has 7 nals = true ∨ has 8 nals = true → has 5 nals = true

instance (data : Bytes) : Decidable (AccessUnit data) :=
  match h : units data with
  | .error _ =>
    decidable_of_iff ([0, 0, 1] <+: data ∨ [0, 0, 0, 1] <+: data)
      ⟨fun hcode => ⟨hcode, fun _ hn => (nomatch h.symm.trans hn),
        fun _ hn => (nomatch h.symm.trans hn)⟩, AccessUnit.code⟩
  | .ok nals =>
    decidable_of_iff (([0, 0, 1] <+: data ∨ [0, 0, 0, 1] <+: data) ∧ nals.length ≤ 4094 ∧
      (has 7 nals = true ∨ has 8 nals = true → has 5 nals = true))
      ⟨fun ⟨hcode, hlength, hsets⟩ => ⟨hcode,
        fun _ hn => Except.ok.inj (h.symm.trans hn) ▸ hlength,
        fun _ hn => Except.ok.inj (h.symm.trans hn) ▸ hsets⟩,
        fun haccess => ⟨haccess.code, haccess.length nals h, haccess.sets nals h⟩⟩

/-- The frame is what `poll` makes of an access unit, behind others. -/
def Prepared (frame : VideoFrame) : Prop :=
  ∃ history data idr, AccessUnit data ∧
    ((ParameterSets.after history).prepare data).2 = .ok (frame.data, idr) ∧
      frame.keyframe = if idr then 1 else 0

theorem headD_trim (nal : Bytes) : (trim nal).headD 0 = nal.headD 0 := by
  have hprefix : trim nal <+: nal := List.rdropWhile_prefix _ _
  cases htrim : trim nal with
  | nil =>
    cases nal with
    | nil => rfl
    | cons b nal =>
      have hall := (List.rdropWhile_eq_nil_iff.1 htrim) b List.mem_cons_self
      exact (of_decide_eq_true hall).symm
  | cons b rest =>
    rw [htrim] at hprefix
    obtain ⟨rest', rfl⟩ := hprefix
    rfl

theorem has_of_trim {type : UInt8} {nals nals' : List Bytes} (h : nals'.map trim = nals.map trim) :
    has type nals' = has type nals := by
  have hmap (nals : List Bytes) : has type nals = (nals.map trim).any (nalType · = type) := by
    rw [has, List.any_map]
    refine congrArg (List.any nals) (funext fun nal => ?_)
    rw [Function.comp_apply, nalType, nalType, headD_trim]
  rw [hmap, hmap, h]

/-- A keyframe has an IDR, and parameter sets come with one. -/
theorem Prepared.idr {frame : VideoFrame} (h : Prepared frame) {nals : List Bytes}
    (hnals : H264Decoder.nals frame.data = .ok nals) :
    (frame.keyframe ≠ 0 → has 5 nals = true) ∧
      (has 7 nals = true ∨ has 8 nals = true → has 5 nals = true) := by
  obtain ⟨history, data, idr, haccess, hprepare, hkeyframe⟩ := h
  cases hunits : units data with
  | error e =>
    rw [ParameterSets.prepare, hunits] at hprepare
    cases hprepare
  | ok made =>
    have hsets : ParameterSets.after (history ++ [data]) =
        ⟨(latest 7 made).getD (ParameterSets.after history).sps,
          (latest 8 made).getD (ParameterSets.after history).pps⟩ := by
      rw [ParameterSets.after, List.foldl_concat]
      exact ParameterSets.prepare_sets _ hunits
    obtain ⟨hidr, -, hrest, hkey⟩ := ParameterSets.prepare_ok hunits hsets hprepare
    have hdelimited := (nals_iff.1 hnals).2
    cases idr with
    | false =>
      rw [hrest rfl] at hdelimited
      obtain rfl := Except.ok.inj (hunits.symm.trans (units_iff.2 hdelimited))
      exact ⟨fun hne => absurd hkeyframe hne, haccess.sets _ hunits⟩
    | true =>
      obtain ⟨hsps, hpps, hout⟩ := hkey rfl
      rw [after_eq] at hsps hpps hout
      obtain ⟨-, hplain7, htype7⟩ := kept rfl hsps
      obtain ⟨-, hplain8, htype8⟩ := kept rfl hpps
      have hcode : ∃ c : Library.AnnexB.Code, c.bytes <+: data := by
        rcases haccess.code with hcode | hcode
        · exact ⟨.three, hcode⟩
        · exact ⟨.four, hcode⟩
      obtain ⟨hframed, hsame⟩ := framed_of_units hcode hunits
      obtain ⟨nals', hdelimited', htrim, -, -⟩ := hframed.keyframe hsame
        (haccess.length _ hunits) ⟨hplain7, htype7⟩ ⟨hplain8, htype8⟩
      rw [← hout] at hdelimited'
      obtain rfl : nals = nals' := hdelimited.nals.trans hdelimited'.nals.symm
      have hfive : has 5 nals = true := by
        rw [has_of_trim htrim]
        exact has_append_right _ hidr.symm
      exact ⟨fun _ => hfive, fun _ => hfive⟩

end H264
end Host
end SidecarDOS
