/-
# The monitor's description

`makeEdid` and `Parse` of `windows/driver/Driver.cpp`.  The description is a block of 128
bytes with a descriptor of 18 bytes for each mode.  A descriptor has the pixel clock in units of
10 kHz, so the frame rate is read back by a division that has to make up for what the clock
has been rounded down by; width and height have twelve bits each, the upper four of them in a
byte of their own.
-/

import SidecarDOS.Driver.Device
import SidecarDOS.Host.Modes
import SidecarDOS.Library.Overwrite

namespace SidecarDOS
namespace Driver

open Library (overwrite)
open SidecarDOS.Host (fitsDevice fitsDevice_iff)

/-- `SdMode`. -/
structure SdMode where
  (width height fps : UInt32)
  deriving DecidableEq

def SdMode.of (m : DisplayMode) : SdMode := ⟨m.width, m.height, m.fps⟩

namespace Edid

/-- The pixel clock in units of 10 kHz. -/
def clock (m : SdMode) : UInt32 := (m.width + 160) * (m.height + 30) * m.fps / 10000

/-- The first bytes of a descriptor; behind them it is zero up to its last byte. -/
def descriptor (m : SdMode) : Bytes :=
  [(clock m).toUInt8, (clock m >>> 8).toUInt8, m.width.toUInt8, 160,
    ((m.width >>> 8) <<< 4).toUInt8, m.height.toUInt8, 30, ((m.height >>> 8) <<< 4).toUInt8, 48,
    32, 0x35]

/-- Where the descriptor of mode `i` begins. -/
def offset (i : ℕ) : ℕ := 54 + i * 18

def describe (edid : Bytes) (m : SdMode) (i : ℕ) : Bytes :=
  overwrite (overwrite edid (offset i) (descriptor m)) (offset i + 17) [0x1e]

/-- What is in front of the descriptors. -/
def header (identity : Id16) : Bytes :=
  let edid := [0x00, 0xff, 0xff, 0xff, 0xff, 0xff, 0xff, 0x00, 0x4c, 0x83, 0x01, 0x00] ++
    List.replicate 116 0
  let edid := overwrite edid 12 (identity.bytes.take 4)
  let edid := overwrite edid 16 [1, 36, 1, 4, 0x80, 28, 21, 120, 0x06]
  overwrite edid 38 (List.replicate 16 1)

/-- The last byte makes the sum zero. -/
def checksum (edid : Bytes) : Bytes := edid.set 127 (0 - (edid.take 127).foldl (· + ·) 0)

end Edid

open Edid

def makeEdid (identity : Id16) (modes : List SdMode) : Bytes :=
  checksum (modes.zipIdx.foldl (fun edid (m, i) => describe edid m i) (header identity))

/-! ### `Parse` -/

namespace Edid

/-- The frame rate of a clock. -/
def rate (clock w h hb vb : UInt32) : UInt32 :=
  .ofNat ⌊(clock.toNat * 10000 : ℚ) / ((w + hb) * (h + vb)).toNat + 1 / 2⌋₊

/-- The mode of a descriptor with the bytes `d`, if there is one; nothing where `Parse` fails. -/
def timing (d : ℕ → UInt32) : Option (Option SdMode) :=
  let clock := d 0 ||| d 1 <<< 8
  if clock = 0 then some none
  else
    let w := d 2 ||| (d 4 >>> 4) <<< 8
    let h := d 5 ||| (d 7 >>> 4) <<< 8
    let hb := d 3 ||| (d 4 &&& 15) <<< 8
    let vb := d 6 ||| (d 7 &&& 15) <<< 8
    if w = 0 ∨ h = 0 ∨ hb = 0 ∨ vb = 0 then none
    else some (some ⟨w, h, rate clock w h hb vb⟩)

def decode (edid : Bytes) (i : ℕ) : Option (Option SdMode) :=
  timing fun k => (edid.getD (offset i + k) 0).toUInt32

def modes (edid : Bytes) : Option (List SdMode) :=
  (List.range 4).foldlM (fun modes i => (decode edid i).map fun m => modes ++ m.toList) []

end Edid

/-- `DISPLAYCONFIG_VIDEO_SIGNAL_INFO` as `signal` makes it: sizes and rationals are pairs. -/
structure Signal where
  (activeSize totalSize : UInt32 × UInt32)
  pixelRate : UInt64
  (hSyncFreq vSyncFreq : UInt32 × UInt32)
  deriving DecidableEq

def signal (m : SdMode) : Signal :=
  let totalSize := (m.width + 160, m.height + 30)
  let pixelRate := totalSize.1.toUInt64 * totalSize.2.toUInt64 * m.fps.toUInt64
  { activeSize := (m.width, m.height)
    totalSize := totalSize
    pixelRate := pixelRate
    hSyncFreq := (pixelRate.toUInt32, totalSize.1)
    vSyncFreq := (m.fps, 1) }

/-- What `Parse` answers; `modes` are those that it puts in the buffer. -/
inductive Parsed where
  | invalid
  | bufferTooSmall (count : ℕ)
  | success (count : ℕ) (modes : List Signal)
  deriving DecidableEq

/-- `Parse` for a description and a buffer for `room` modes. -/
def parse (edid : Bytes) (room : ℕ) : Parsed :=
  if edid.length ≠ 128 then .invalid
  else
    match Edid.modes edid with
    | none => .invalid
    | some [] => .invalid
    | some modes =>
      if room = 0 then .success modes.length []
      else if room < modes.length then .bufferTooSmall modes.length
      else .success modes.length (modes.map signal)

/-! ### The layout of the block -/

namespace Edid

theorem length_header (identity : Id16) : (header identity).length = 128 := by
  have htake : (identity.bytes.take 4).length = 4 := by
    rw [List.length_take, identity.length_eq]
    rfl
  simp only [header, overwrite, List.length_append, List.length_take, List.length_drop,
    List.length_replicate, htake, List.length_cons, List.length_nil]
  rfl

variable {edid : Bytes} {m : SdMode} {i k : ℕ}

theorem length_descriptor (m : SdMode) : (descriptor m).length = 11 := rfl

/-- The descriptors lie between the header and the last byte. -/
theorem descriptor_fits (hlen : edid.length = 128) (hi : i < 4) :
    offset i + (descriptor m).length ≤ edid.length := by
  rw [hlen, length_descriptor, offset]
  omega

theorem tail_fits (hlen : edid.length = 128) (hi : i < 4) :
    offset i + 17 + [(0x1e : UInt8)].length ≤ edid.length := by
  rw [hlen, List.length_singleton, offset]
  omega

theorem length_describe (hlen : edid.length = 128) (hi : i < 4) :
    (describe edid m i).length = 128 := by
  have hfirst := Library.length_overwrite (descriptor_fits (m := m) hlen hi)
  rw [describe, Library.length_overwrite (tail_fits (hfirst.trans hlen) hi), hfirst, hlen]

theorem describe_own (hlen : edid.length = 128) (hi : i < 4) (hk : k < 11) :
    (describe edid m i)[offset i + k]? = (descriptor m)[k]? := by
  have hfirst := Library.length_overwrite (descriptor_fits (m := m) hlen hi)
  rw [describe, Library.overwrite_outside (tail_fits (hfirst.trans hlen) hi) (.inl (by omega)),
    Library.overwrite_within (descriptor_fits hlen hi) hk]

theorem describe_other (hlen : edid.length = 128) (hi : i < 4)
    (hk : k < offset i ∨ offset (i + 1) ≤ k) : (describe edid m i)[k]? = edid[k]? := by
  have hfirst := Library.length_overwrite (descriptor_fits (m := m) hlen hi)
  have hnext : offset (i + 1) = offset i + 18 := by
    unfold offset
    omega
  rw [describe, Library.overwrite_outside (tail_fits (hfirst.trans hlen) hi),
    Library.overwrite_outside (descriptor_fits hlen hi)]
  · rw [length_descriptor]
    omega
  · rw [List.length_singleton]
    omega

/-- The loop of `makeEdid` from mode `i` on. -/
def loop (edid : Bytes) (modes : List SdMode) (i : ℕ) : Bytes :=
  (modes.zipIdx i).foldl (fun edid (m, i) => describe edid m i) edid

theorem loop_spec (hlen : edid.length = 128) {modes : List SdMode} (hi : i + modes.length ≤ 4) :
    (loop edid modes i).length = 128 ∧
      (∀ k, k < offset i ∨ offset (i + modes.length) ≤ k →
        (loop edid modes i)[k]? = edid[k]?) ∧
      ∀ j m, modes[j]? = some m → ∀ k < 11,
        (loop edid modes i)[offset (i + j) + k]? = (descriptor m)[k]? := by
  induction modes generalizing edid i with
  | nil => exact ⟨hlen, fun _ _ => rfl, fun j m hj => nomatch hj⟩
  | cons m ms ih =>
    rw [List.length_cons] at hi ⊢
    have hrun : loop edid (m :: ms) i = loop (describe edid m i) ms (i + 1) := rfl
    have hfirst : (describe edid m i).length = 128 := length_describe hlen (by omega)
    obtain ⟨hlen', hother, hown⟩ := ih (i := i + 1) hfirst (by omega)
    rw [hrun]
    refine ⟨hlen', fun k hk => ?_, fun j m' hj k hk => ?_⟩
    · unfold offset at hk
      rw [hother k (by unfold offset; omega),
        describe_other hlen (by omega) (by unfold offset; omega)]
    · cases j with
      | zero =>
        cases hj
        have hrest := hother (offset i + k) (by unfold offset; omega)
        exact hrest.trans (describe_own hlen (by omega) hk)
      | succ j =>
        have hown := hown j m' hj k hk
        rwa [show i + 1 + j = i + (j + 1) by omega] at hown

/-- The last byte is behind the descriptors. -/
theorem checksum_other (hk : k < 127) : (checksum edid)[k]? = edid[k]? :=
  List.getElem?_set_ne (by omega)

theorem toNat_sum (xs : Bytes) (sum : UInt8) :
    (xs.foldl (· + ·) sum).toNat = (sum.toNat + (xs.map UInt8.toNat).sum) % 256 := by
  induction xs generalizing sum with
  | nil => exact (Nat.mod_eq_of_lt sum.toNat_lt).symm
  | cons x xs ih =>
    rw [List.foldl_cons, ih, UInt8.toNat_add, List.map_cons, List.sum_cons]
    omega

/-- The bytes sum to zero. -/
theorem checksum_sum (hlen : edid.length = 128) :
    ((checksum edid).map UInt8.toNat).sum % 256 = 0 := by
  have hset (last : UInt8) : edid.set 127 last = edid.take 127 ++ [last] := by
    rw [List.set_eq_take_append_cons_drop, if_pos (by omega), List.drop_of_length_le (by omega)]
  rw [checksum, hset, List.map_append, List.sum_append, List.map_singleton, List.sum_singleton,
    UInt8.toNat_sub, toNat_sum]
  have hzero : (0 : UInt8).toNat = 0 := rfl
  omega

/-! ### What is read back -/

/-- What `arrive` checks of a mode. -/
structure Fits (m : SdMode) : Prop where
  width : 320 ≤ m.width.toNat ∧ m.width.toNat ≤ 4094
  height : 320 ≤ m.height.toNat ∧ m.height.toNat ≤ 4094
  fps : 30 ≤ m.fps.toNat ∧ m.fps.toNat ≤ 60
  clocked : (m.width.toNat + 160) * (m.height.toNat + 30) * m.fps.toNat ≤ 655350000

/-- The numbers that are computed for a mode are not reduced: the totals, their product and the
pixel rate in 32 bits, also where `signal` cuts it to them, the clock in 16 and the sizes in
12. -/
structure Unreduced (m : SdMode) : Prop where
  totalWidth : (m.width + 160).toNat = m.width.toNat + 160
  totalHeight : (m.height + 30).toNat = m.height.toNat + 30
  total : ((m.width + 160) * (m.height + 30)).toNat = (m.width.toNat + 160) * (m.height.toNat + 30)
  pixelRate : ((m.width + 160) * (m.height + 30) * m.fps).toNat =
    (m.width.toNat + 160) * (m.height.toNat + 30) * m.fps.toNat
  hSyncFreq : (signal m).hSyncFreq.1.toNat =
    (m.width.toNat + 160) * (m.height.toNat + 30) * m.fps.toNat
  clock : (clock m).toNat < 2 ^ 16
  width : m.width.toNat < 2 ^ 12
  height : m.height.toNat < 2 ^ 12

namespace Fits

theorem unreduced (h : Fits m) : Unreduced m := by
  obtain ⟨hwidth, hheight, hfps, hclocked⟩ := h
  have htotalWidth : (m.width + 160).toNat = m.width.toNat + 160 := by
    rw [UInt32.toNat_add]
    exact Nat.mod_eq_of_lt (show m.width.toNat + 160 < 2 ^ 32 by omega)
  have htotalHeight : (m.height + 30).toNat = m.height.toNat + 30 := by
    rw [UInt32.toNat_add]
    exact Nat.mod_eq_of_lt (show m.height.toNat + 30 < 2 ^ 32 by omega)
  have hproduct : (m.width.toNat + 160) * (m.height.toNat + 30) ≤ 4254 * 4124 :=
    Nat.mul_le_mul (by omega) (by omega)
  have htotal : ((m.width + 160) * (m.height + 30)).toNat =
      (m.width.toNat + 160) * (m.height.toNat + 30) := by
    rw [UInt32.toNat_mul, htotalWidth, htotalHeight]
    exact Nat.mod_eq_of_lt (by omega)
  have hpixelRate : ((m.width + 160) * (m.height + 30) * m.fps).toNat =
      (m.width.toNat + 160) * (m.height.toNat + 30) * m.fps.toNat := by
    rw [UInt32.toNat_mul, htotal]
    exact Nat.mod_eq_of_lt (by omega)
  have hwide : ((m.width + 160).toUInt64 * (m.height + 30).toUInt64).toNat =
      (m.width.toNat + 160) * (m.height.toNat + 30) := by
    rw [UInt64.toNat_mul, UInt32.toNat_toUInt64, UInt32.toNat_toUInt64, htotalWidth, htotalHeight]
    exact Nat.mod_eq_of_lt (by omega)
  refine ⟨htotalWidth, htotalHeight, htotal, hpixelRate, ?_, ?_, by omega, by omega⟩
  · rw [signal, UInt64.toNat_toUInt32, UInt64.toNat_mul, hwide, UInt32.toNat_toUInt64]
    omega
  · rw [Edid.clock, UInt32.toNat_div, hpixelRate]
    show _ / 10000 < _
    omega

end Fits

theorem toNat_high (v : UInt32) : (v >>> 8).toNat = v.toNat / 256 := by
  rw [UInt32.toNat_shiftRight]
  exact Nat.shiftRight_eq_div_pow v.toNat 8

/-- The upper bits of a size in the upper half of a byte. -/
theorem toNat_nibble (v : UInt32) :
    ((v >>> 8) <<< 4).toUInt8.toUInt32.toNat = v.toNat / 256 * 16 % 256 := by
  have hshift : ((v >>> 8) <<< 4).toNat = v.toNat / 256 * 16 % 2 ^ 32 := by
    rw [UInt32.toNat_shiftLeft, toNat_high, Nat.shiftLeft_eq]
    rfl
  rw [UInt8.toNat_toUInt32, UInt32.toNat_toUInt8, hshift]
  omega

/-- A size is read back from its two bytes. -/
theorem size_eq {v : UInt32} (hv : v.toNat < 2 ^ 12) :
    v.toUInt8.toUInt32 ||| (((v >>> 8) <<< 4).toUInt8.toUInt32 >>> 4) <<< 8 = v := by
  have hlow : v.toUInt8.toUInt32.toNat = v.toNat % 256 := rfl
  have hhigh : (((v >>> 8) <<< 4).toUInt8.toUInt32 >>> 4).toNat = v.toNat / 256 := by
    rw [UInt32.toNat_shiftRight, toNat_nibble]
    show (v.toNat / 256 * 16 % 256) >>> 4 = _
    rw [Nat.shiftRight_eq_div_pow]
    omega
  apply UInt32.toNat_inj.1
  rw [Library.toNat_join (by omega) (by omega), hlow, hhigh]
  omega

/-- The lower half of a byte whose upper half has been set is empty. -/
theorem blank_eq (v low : UInt32) :
    low ||| (((v >>> 8) <<< 4).toUInt8.toUInt32 &&& 15) <<< 8 = low := by
  have hzero : ((v >>> 8) <<< 4).toUInt8.toUInt32 &&& 15 = 0 := by
    apply UInt32.toNat_inj.1
    rw [UInt32.toNat_and, toNat_nibble]
    show v.toNat / 256 * 16 % 256 &&& 2 ^ 4 - 1 = 0
    rw [Nat.and_two_pow_sub_one_eq_mod]
    omega
  rw [hzero]
  exact UInt32.or_zero

/-- A clock is read back from its two bytes. -/
theorem clock_eq {v : UInt32} (hv : v.toNat < 2 ^ 16) :
    v.toUInt8.toUInt32 ||| (v >>> 8).toUInt8.toUInt32 <<< 8 = v := by
  have hlow : v.toUInt8.toUInt32.toNat = v.toNat % 256 := rfl
  have hhigh : (v >>> 8).toUInt8.toUInt32.toNat = v.toNat / 256 := by
    rw [UInt8.toNat_toUInt32, UInt32.toNat_toUInt8, toNat_high]
    omega
  apply UInt32.toNat_inj.1
  rw [Library.toNat_join (by omega) (by omega), hlow, hhigh]
  omega

/-- The clock is rounded down by less than 10 kHz, which is less than half a frame. -/
theorem floor_rate {total fps : ℕ} (h : 20000 < total) :
    ⌊((total * fps / 10000 : ℕ) * 10000 : ℚ) / total + 1 / 2⌋₊ = fps := by
  have hle : total * fps / 10000 * 10000 ≤ total * fps := Nat.div_mul_le_self _ _
  have hlt : total * fps < total * fps / 10000 * 10000 + 10000 := by omega
  generalize total * fps / 10000 = clock at hle hlt ⊢
  have hle : (clock * 10000 : ℚ) ≤ total * fps := by exact_mod_cast hle
  have hlt : (total * fps : ℚ) < clock * 10000 + 10000 := by exact_mod_cast hlt
  have htotal : (20000 : ℚ) < total := by exact_mod_cast h
  have hpos : (0 : ℚ) < total := by linarith
  rw [Nat.floor_eq_iff (by positivity)]
  constructor
  · have hlow : (fps : ℚ) - 1 / 2 ≤ clock * 10000 / total := by
      rw [le_div_iff₀ hpos]
      linarith
    linarith
  · have hhigh : (clock * 10000 : ℚ) / total ≤ fps := by
      rw [div_le_iff₀ hpos]
      linarith
    linarith

theorem toNat_clock (h : Fits m) : (clock m).toNat =
    (m.width.toNat + 160) * (m.height.toNat + 30) * m.fps.toNat / 10000 := by
  rw [clock, UInt32.toNat_div, h.unreduced.pixelRate]
  rfl

theorem rate_eq (h : Fits m) : rate (clock m) m.width m.height 160 30 = m.fps := by
  have htotal : 20000 < (m.width.toNat + 160) * (m.height.toNat + 30) :=
    lt_of_lt_of_le (by decide) (Nat.mul_le_mul (Nat.add_le_add_right h.width.1 160)
      (Nat.add_le_add_right h.height.1 30))
  have hfloor := @floor_rate _ m.fps.toNat htotal
  rw [← toNat_clock h, ← h.unreduced.total] at hfloor
  rw [rate, hfloor]
  exact UInt32.ofNat_toNat

theorem clock_ne (h : Fits m) : clock m ≠ 0 := by
  intro hzero
  have htotal : 480 * 350 * 30 ≤ (m.width.toNat + 160) * (m.height.toNat + 30) * m.fps.toNat :=
    Nat.mul_le_mul (Nat.mul_le_mul (Nat.add_le_add_right h.width.1 160)
      (Nat.add_le_add_right h.height.1 30)) h.fps.1
  have hpos : 0 < (clock m).toNat := by
    rw [toNat_clock h]
    exact Nat.div_pos (le_trans (by decide) htotal) (by decide)
  rw [hzero] at hpos
  exact absurd hpos (lt_irrefl 0)

theorem timing_own (h : Fits m) {d : ℕ → UInt32}
    (hd : ∀ k < 11, d k = ((descriptor m).getD k 0).toUInt32) : timing d = some (some m) := by
  have hclock : d 0 ||| d 1 <<< 8 = clock m := by
    rw [hd 0 (by decide), hd 1 (by decide)]
    exact clock_eq h.unreduced.clock
  have hwidth : d 2 ||| (d 4 >>> 4) <<< 8 = m.width := by
    rw [hd 2 (by decide), hd 4 (by decide)]
    exact size_eq h.unreduced.width
  have hheight : d 5 ||| (d 7 >>> 4) <<< 8 = m.height := by
    rw [hd 5 (by decide), hd 7 (by decide)]
    exact size_eq h.unreduced.height
  have hhb : d 3 ||| (d 4 &&& 15) <<< 8 = 160 := by
    rw [hd 3 (by decide), hd 4 (by decide)]
    exact blank_eq m.width 160
  have hvb : d 6 ||| (d 7 &&& 15) <<< 8 = 30 := by
    rw [hd 6 (by decide), hd 7 (by decide)]
    exact blank_eq m.height 30
  have hne (v : UInt32) (hv : 320 ≤ v.toNat) : v ≠ 0 := by
    rintro rfl
    exact absurd hv (by decide)
  have hsizes : ¬ (m.width = 0 ∨ m.height = 0 ∨ (160 : UInt32) = 0 ∨ (30 : UInt32) = 0) := by
    simp only [not_or]
    exact ⟨hne _ h.width.1, hne _ h.height.1, by decide, by decide⟩
  simp only [timing, hclock, hwidth, hheight, hhb, hvb, clock_ne h, hsizes, rate_eq h,
    ↓reduceIte]

/-- A descriptor is read back. -/
theorem decode_own (h : Fits m)
    (hbytes : ∀ k < 11, edid[offset i + k]? = (descriptor m)[k]?) :
    decode edid i = some (some m) :=
  timing_own h fun k hk => by
    rw [List.getD_eq_getElem?_getD, hbytes k hk, List.getD_eq_getElem?_getD]

/-- A descriptor that has not been written is skipped. -/
theorem decode_unused (h : ∀ k < 2, edid[offset i + k]? = some 0) : decode edid i = some none := by
  have hd (k : ℕ) (hk : k < 2) : (edid.getD (offset i + k) 0).toUInt32 = 0 := by
    rw [List.getD_eq_getElem?_getD, h k hk]
    rfl
  have hclock : (edid.getD (offset i + 0) 0).toUInt32 |||
      (edid.getD (offset i + 1) 0).toUInt32 <<< 8 = 0 := by
    rw [hd 0 (by decide), hd 1 (by decide)]
    rfl
  simp only [decode, timing, hclock, ↓reduceIte]

theorem fits_of {m : DisplayMode} (h : fitsDevice m = true) : Fits (.of m) := by
  obtain ⟨⟨hwidth, hheight⟩, hfps, hclocked⟩ := (fitsDevice_iff m).1 h
  exact ⟨⟨hwidth.1, hwidth.2.1⟩, ⟨hheight.1, hheight.2.1⟩, hfps, hclocked⟩

/-- The descriptors have not been written yet. -/
theorem header_empty (identity : Id16) (hk : 54 ≤ k) (hk' : k < 128) :
    (header identity)[k]? = some 0 := by
  have htake : (identity.bytes.take 4).length = 4 := by
    rw [List.length_take, identity.length_eq]
    rfl
  have hlength {xs : Bytes} (ys : Bytes) {o : ℕ} (hxs : xs.length = 128)
      (ho : o + ys.length ≤ 128) : (overwrite xs o ys).length = 128 := by
    rw [Library.length_overwrite (by omega), hxs]
  have hother {xs ys : Bytes} {o : ℕ} (hxs : xs.length = 128) (ho : o + ys.length ≤ 54) :
      (overwrite xs o ys)[k]? = xs[k]? :=
    Library.overwrite_outside (by omega) (.inr (by omega))
  have hfirst : ([0x00, 0xff, 0xff, 0xff, 0xff, 0xff, 0xff, 0x00, 0x4c, 0x83, 0x01, 0x00] ++
      List.replicate 116 0 : Bytes).length = 128 := rfl
  have hsecond := hlength (identity.bytes.take 4) hfirst (show 12 + _ ≤ 128 by omega)
  rw [header, hother (hlength _ hsecond (by decide)) (by decide), hother hsecond (by decide),
    hother hfirst (by omega), List.getElem?_append_right (by exact (by decide : 12 ≤ 54).trans hk),
    List.getElem?_replicate]
  exact if_pos (show k - 12 < 116 by omega)

/-- Every descriptor is read back as its mode, and the others as none. -/
theorem decode_makeEdid (identity : Id16) {modes : List SdMode} (hlen : modes.length ≤ 4)
    (hfits : ∀ m ∈ modes, Fits m) (hi : i < 4) :
    decode (makeEdid identity modes) i = some modes[i]? := by
  obtain ⟨-, hother, hown⟩ := @loop_spec _ 0 (length_header identity) modes (by omega)
  have hedid : makeEdid identity modes = checksum (loop (header identity) modes 0) := rfl
  cases hm : modes[i]? with
  | some m =>
    refine decode_own (hfits m (List.mem_of_getElem? hm)) fun k hk => ?_
    rw [hedid, checksum_other (by unfold offset; omega)]
    have hbytes := hown i m hm k hk
    rwa [Nat.zero_add] at hbytes
  | none =>
    have hle := List.getElem?_eq_none_iff.1 hm
    refine decode_unused fun k hk => ?_
    rw [hedid, checksum_other (by unfold offset; omega), hother _ (by unfold offset; omega)]
    exact header_empty identity (by unfold offset; omega) (by unfold offset; omega)

/-- The loop of `Parse` collects the modes. -/
theorem modes_eq {edid : Bytes} {modes : List SdMode} (hlen : modes.length ≤ 4)
    (h : ∀ i < 4, decode edid i = some modes[i]?) : Edid.modes edid = some modes := by
  have hloop (n : ℕ) (hn : n ≤ 4) : (List.range n).foldlM
      (fun modes i => (decode edid i).map fun m => modes ++ m.toList) [] =
        some (modes.take n) := by
    induction n with
    | zero => rfl
    | succ n ih =>
      rw [List.range_succ, List.foldlM_append, ih (by omega), Option.bind_eq_bind,
        Option.bind_some, List.foldlM_cons, h n (by omega), List.take_add_one]
      rfl
  rw [Edid.modes, hloop 4 le_rfl, List.take_of_length_le hlen]

/-- The modes go to a buffer that has room for them. -/
theorem parse_eq {edid : Bytes} {modes : List SdMode} {room : ℕ} (hlen : edid.length = 128)
    (hmodes : Edid.modes edid = some modes) (hne : modes ≠ []) (hroom : modes.length ≤ room) :
    parse edid room = .success modes.length (modes.map signal) := by
  have hpos := List.length_pos_iff.2 hne
  unfold parse
  rw [if_neg (not_not.2 hlen), hmodes]
  cases modes with
  | nil => exact absurd rfl hne
  | cons m ms =>
    dsimp only
    rw [if_neg (by omega), if_neg (by omega)]

end Edid

/-- **The description is read back.**  `Parse` finds exactly the modes that `arrive` has taken
in the block that `makeEdid` has made of them, in their order, and no mode in the unused
descriptors; no number on the way is reduced, and the bytes sum to zero. -/
theorem edid_round_trip {s : State} {abi : UInt32} {modes : List DisplayMode}
    (h : s.arrives abi modes = true) (identity : Id16) :
    Edid.modes (makeEdid identity (modes.map .of)) = some (modes.map .of) ∧
      (∀ i < 4, modes.length ≤ i →
        Edid.decode (makeEdid identity (modes.map .of)) i = some none) ∧
      (∀ m ∈ modes, Unreduced (.of m)) ∧
      (makeEdid identity (modes.map .of)).length = 128 ∧
      ((makeEdid identity (modes.map .of)).map UInt8.toNat).sum % 256 = 0 ∧
      ∀ room, modes.length ≤ room → parse (makeEdid identity (modes.map .of)) room =
        .success modes.length (modes.map fun m => signal (.of m)) := by
  simp only [State.arrives, Bool.and_eq_true, decide_eq_true_eq, List.all_eq_true] at h
  obtain ⟨⟨⟨-, hpos⟩, hle⟩, hall⟩ := h
  have hlen : (modes.map SdMode.of).length ≤ 4 := by rwa [List.length_map]
  have hfits : ∀ m ∈ modes.map SdMode.of, Fits m := by
    intro _ hmap
    obtain ⟨m, hm, rfl⟩ := List.mem_map.1 hmap
    exact fits_of (hall m hm)
  have hdecode (i : ℕ) (hi : i < 4) := decode_makeEdid identity hlen hfits hi
  have hmodes := modes_eq hlen hdecode
  have hloop := (@loop_spec _ 0 (length_header identity) (modes.map SdMode.of) (by omega)).1
  have hlength : (makeEdid identity (modes.map .of)).length = 128 :=
    List.length_set.trans hloop
  refine ⟨hmodes, fun i hi hunused => ?_, fun m hm => (fits_of (hall m hm)).unreduced, hlength,
    checksum_sum hloop, fun room hroom => ?_⟩
  · rw [hdecode i hi, List.getElem?_eq_none (by rwa [List.length_map])]
  · have hne : modes.map SdMode.of ≠ [] := List.length_pos_iff.1 (by rwa [List.length_map])
    rw [parse_eq hlength hmodes hne (by rwa [List.length_map]), List.length_map, List.map_map]
    rfl

/-- Two modes, the second of them the smallest and slowest that is taken. -/
def sampleModes : List DisplayMode := [⟨2732, 2048, 60, 200⟩, ⟨320, 320, 30, 100⟩]

/-- The hypothesis of `edid_round_trip` is satisfiable: two modes are read back. -/
theorem edid_round_trip_sample :
    Edid.modes (makeEdid Id16.zero (sampleModes.map .of)) =
        some [⟨2732, 2048, 60⟩, ⟨320, 320, 30⟩] ∧
      Edid.decode (makeEdid Id16.zero (sampleModes.map .of)) 2 = some none := by
  have harrives : ({ device := { adapter := true, ready := true } } : State).arrives 1
    sampleModes = true := by decide
  obtain ⟨hmodes, hunused, -⟩ := edid_round_trip harrives Id16.zero
  exact ⟨hmodes, hunused 2 (by decide) (by decide)⟩

end Driver
end SidecarDOS
