/-
# Access units of H.264

`encoder/h264.rs` of the host.  The encoder hands over access units in the byte stream format, and
`prepare` puts the parameter sets in front of those keyframes that lack them.  The client
splits an access unit again, with a scanner of its own: `H264Decoder.nals`.

Both scanners find the units of `Library.AnnexB.split` (`units_iff`, `nals_iff`), so what
they accept and return is the same, and it is exact (`annexB_exact`).
-/

import SidecarDOS.Client.H264Decoder
import SidecarDOS.Library.AnnexB

namespace SidecarDOS
namespace Host
namespace H264

open Library.AnnexB (Code Cuts split join limit positions length_positions map_positions
  flatten_zipWith split_join plain_split join_split)
open Ipad (H264Decoder)

/-- The start codes that the loop of `units` pushes, of the bytes from `i` on. -/
def starts (i : ℕ) : Bytes → List (ℕ × ℕ)
  | 0 :: 0 :: 1 :: rest => (i, i + 3) :: starts (i + 3) rest
  | 0 :: 0 :: 0 :: 1 :: rest => (i, i + 4) :: starts (i + 4) rest
  | _ :: rest => starts (i + 1) rest
  | [] => []

/-- The slices from every start code to the next one or to the end. -/
def slices (data : Bytes) : List (ℕ × ℕ) → Except Error (List Bytes)
  | [] => .ok []
  | (_, start) :: starts =>
    let limit := (starts.head?.map Prod.fst).getD data.length
    if limit > start then ((data.take limit).drop start :: ·) <$> slices data starts
    else .error (.ensure "empty H.264 NAL")

def units (data : Bytes) : Except Error (List Bytes) :=
  let starts := starts 0 data
  if ¬ (starts ≠ [] ∧ starts.length ≤ 4096) then
    .error (.ensure "invalid H.264 Annex B access unit")
  else slices data starts

/-- `n[0] & 31`. -/
def nalType (nal : Bytes) : UInt8 := nal.headD 0 &&& 31

structure ParameterSets where
  sps : Bytes := []
  pps : Bytes := []
  deriving DecidableEq

namespace ParameterSets

/-- One turn of the loop of `prepare`, with its flags `sps`, `pps` and `idr`. -/
def note (s : ParameterSets × Bool × Bool × Bool) (nal : Bytes) :
    ParameterSets × Bool × Bool × Bool :=
  let (p, sps, pps, idr) := s
  if nalType nal = 7 then ({ p with sps := nal }, true, pps, idr)
  else if nalType nal = 8 then ({ p with pps := nal }, sps, true, idr)
  else if nalType nal = 5 then (p, sps, pps, true)
  else s

/-- `prepare`: the access unit to send, and whether it is a keyframe. -/
def prepare (p : ParameterSets) (data : Bytes) : ParameterSets × Except Error (Bytes × Bool) :=
  match units data with
  | .error e => (p, .error e)
  | .ok nals =>
    let (p, sps, pps, idr) := nals.foldl note (p, false, false, false)
    if idr ∧ ¬ (p.sps ≠ [] ∧ p.pps ≠ []) then
      (p, .error (.ensure "H.264 keyframe lacks parameter sets"))
    else
      let out := (if idr ∧ ¬ sps then [0, 0, 0, 1] ++ p.sps else []) ++
        (if idr ∧ ¬ pps then [0, 0, 0, 1] ++ p.pps else []) ++ data
      if ¬ out.length ≤ MAX_FRAME then (p, .error (.ensure "H.264 access unit exceeds maximum"))
      else (p, .ok (out, idr))

end ParameterSets

example : (ParameterSets.prepare ⟨[0x67, 0xaa], [0x68, 0xbb]⟩ [0, 0, 0, 1, 0x65, 0xdd]).2 =
    .ok ([0, 0, 0, 1, 0x67, 0xaa, 0, 0, 0, 1, 0x68, 0xbb, 0, 0, 0, 1, 0x65, 0xdd], true) := by
  decide

/-! ### Both scanners -/

theorem starts_eq (i : ℕ) (data : Bytes) :
    starts i data = positions (i + (split data).1.length) (split data).2 := by
  fun_induction split data generalizing i with
  | case1 rest ih => rw [starts, ih]; rfl
  | case2 rest ih => rw [starts, ih]; rfl
  | case3 b rest hthree hfour ih =>
    rw [starts, ih, List.length_cons, Nat.add_right_comm, Nat.add_assoc]
    · exact hthree
    · exact hfour
  | case4 => rfl

theorem decoder_starts_eq (i : ℕ) (data : Bytes) :
    H264Decoder.starts i data = positions (i + (split data).1.length) (split data).2 := by
  fun_induction split data generalizing i with
  | case1 rest ih => rw [H264Decoder.starts, ih]; rfl
  | case2 rest ih => rw [H264Decoder.starts, ih]; rfl
  | case3 b rest hthree hfour ih =>
    rw [H264Decoder.starts, ih, List.length_cons, Nat.add_right_comm, Nat.add_assoc]
    · exact hthree
    · exact hfour
  | case4 => rfl

variable {data : Bytes} {nals : List Bytes}

theorem slices_cuts (data : Bytes) : Cuts data (.ensure "empty H.264 NAL") (slices data) :=
  ⟨rfl, fun _ _ _ => rfl⟩

theorem decoder_units_cuts (data : Bytes) :
    Cuts data (.wire .malformed) (H264Decoder.units data) := by
  refine ⟨rfl, fun i start codes => ?_⟩
  cases codes with
  | cons code codes => rfl
  | nil =>
    simp only [limit, List.head?_nil, Option.map_none, Option.getD_none, List.take_length]
    rfl

/-- What both scanners accept, and the units that they return. -/
structure Delimited (data : Bytes) (nals : List Bytes) : Prop where
  found : (split data).2 ≠ []
  bound : (split data).2.length ≤ 4096
  nonempty : ∀ u ∈ (split data).2, u.2 ≠ []
  nals : nals = (split data).2.map Prod.snd

theorem delimited_iff {ε : Type} {e e' : ε} {f : List (ℕ × ℕ) → Except ε (List Bytes)}
    {codes : List (ℕ × ℕ)} (hf : Cuts data e f)
    (hcodes : codes = positions (split data).1.length (split data).2) :
    (if ¬ (codes ≠ [] ∧ codes.length ≤ 4096) then .error e' else f codes) = .ok nals ↔
      Delimited data nals := by
  have hfound : codes ≠ [] ∧ codes.length ≤ 4096 ↔
      (split data).2 ≠ [] ∧ (split data).2.length ≤ 4096 := by
    rw [hcodes, Ne, Ne, ← List.length_eq_zero_iff, length_positions, List.length_eq_zero_iff]
  by_cases hn : codes ≠ [] ∧ codes.length ≤ 4096
  swap
  · rw [if_pos hn]
    exact ⟨nofun, fun h => absurd (hfound.2 ⟨h.found, h.bound⟩) hn⟩
  · rw [if_neg (not_not.2 hn), hcodes, hf.eq_ok (join_split data).symm]
    obtain ⟨hfound, hbound⟩ := hfound.1 hn
    exact ⟨fun h => ⟨hfound, hbound, h.1, h.2⟩, fun h => ⟨h.nonempty, h.nals⟩⟩

theorem units_iff : units data = .ok nals ↔ Delimited data nals :=
  delimited_iff (slices_cuts data) ((starts_eq 0 data).trans (by rw [Nat.zero_add]))

theorem nals_iff :
    H264Decoder.nals data = .ok nals ↔ data.length ≤ MAX_FRAME ∧ Delimited data nals := by
  unfold H264Decoder.nals
  split
  · rename_i hn
    exact ⟨nofun, fun h => absurd h.1 hn⟩
  · rename_i hn
    rw [and_iff_right (not_not.1 hn)]
    exact delimited_iff (decoder_units_cuts data)
      ((decoder_starts_eq 0 data).trans (by rw [Nat.zero_add]))

/-- The start codes that `units` finds. -/
def codes (data : Bytes) : List Bytes := (starts 0 data).map fun p => (data.take p.2).drop p.1

theorem codes_eq (data : Bytes) : codes data = (split data).2.map fun u => u.1.bytes := by
  rw [codes, starts_eq, Nat.zero_add]
  exact map_positions (join_split data).symm

/-- What is cut out is the data from the first start code on. -/
theorem Delimited.reproduces (h : Delimited data nals) : ∃ first,
    (starts 0 data).head?.map Prod.fst = some first ∧ ¬ [0, 0, 1] <:+: data.take first ∧
      data.drop first = (List.zipWith (· ++ ·) (codes data) nals).flatten := by
  have hdata := join_split data
  refine ⟨(split data).1.length, ?_, ?_, ?_⟩
  · obtain ⟨⟨c, u⟩, us, hus⟩ := List.exists_cons_of_ne_nil h.found
    rw [starts_eq, Nat.zero_add, hus]
    rfl
  · have htake : data.take (split data).1.length = (split data).1 := by
      conv => lhs; rw [← hdata, List.take_left' (by rw [hdata])]
    rw [htake]
    exact (plain_split data).1
  · have hdrop : data.drop (split data).1.length = join (split data).2 := by
      conv => lhs; rw [← hdata, List.drop_left' (by rw [hdata])]
    rw [hdrop, codes_eq, h.nals, flatten_zipWith]

/-- **Splitting access units is exact.**  Units that neither contain a start code nor end in
zero are returned as they were put together; whatever is accepted is reproduced from the first
start code on by the units and the start codes; and the client returns the same units of the
same data of up to 2 MiB. -/
theorem annexB_exact :
    (∀ us : List (Code × Bytes), us ≠ [] → us.length ≤ 4096 →
      (∀ u ∈ us, u.2 ≠ [] ∧ ¬ [0, 0, 1] <:+: u.2 ∧ u.2.getLast? ≠ some 0) →
        units (us.flatMap fun u => u.1.bytes ++ u.2) = .ok (us.map Prod.snd)) ∧
    (∀ data nals, units data = .ok nals → (∀ u ∈ nals, u ≠ []) ∧
      (codes data).length = nals.length ∧ (∀ c ∈ codes data, c = [0, 0, 1] ∨ c = [0, 0, 0, 1]) ∧
        ∃ first, (starts 0 data).head?.map Prod.fst = some first ∧
          ¬ [0, 0, 1] <:+: data.take first ∧
            data.drop first = (List.zipWith (· ++ ·) (codes data) nals).flatten) ∧
    ∀ data nals, H264Decoder.nals data = .ok nals ↔
      data.length ≤ MAX_FRAME ∧ units data = .ok nals := by
  refine ⟨fun us hne hle hus => ?_, fun data nals h => ?_, fun data nals => ?_⟩
  · have hsplit : split (join us) = ([], us) := split_join fun u hu => (hus u hu).2
    refine units_iff.2 (show Delimited (join us) _ from ⟨?_, ?_, ?_, ?_⟩) <;> rw [hsplit]
    · exact hne
    · exact hle
    · exact fun u hu => (hus u hu).1
  · have hdelimited := units_iff.1 h
    refine ⟨?_, ?_, ?_, hdelimited.reproduces⟩
    · rw [hdelimited.nals]
      exact List.forall_mem_map.2 hdelimited.nonempty
    · rw [codes_eq, hdelimited.nals, List.length_map, List.length_map]
    · rw [codes_eq]
      refine List.forall_mem_map.2 fun u _ => ?_
      cases u.1 with
      | three => exact .inl rfl
      | four => exact .inr rfl
  · rw [nals_iff, units_iff]

/-- Two units, the second behind a start code of three bytes. -/
theorem annexB_exact_sample :
    units [0, 0, 0, 1, 0x67, 0xaa, 0, 0, 1, 0x65] = .ok [[0x67, 0xaa], [0x65]] ∧
      (codes [0, 0, 0, 1, 0x67, 0xaa, 0, 0, 1, 0x65]).length = 2 ∧
        H264Decoder.nals [0, 0, 0, 1, 0x67, 0xaa, 0, 0, 1, 0x65] = .ok [[0x67, 0xaa], [0x65]] :=
  have h : units [0, 0, 0, 1, 0x67, 0xaa, 0, 0, 1, 0x65] = .ok [[0x67, 0xaa], [0x65]] :=
    annexB_exact.1 [(.four, [0x67, 0xaa]), (.three, [0x65])] (by decide) (by decide) (by decide)
  ⟨h, (annexB_exact.2.1 _ _ h).2.1, (annexB_exact.2.2 _ _).2 ⟨by decide, h⟩⟩

end H264
end Host
end SidecarDOS
