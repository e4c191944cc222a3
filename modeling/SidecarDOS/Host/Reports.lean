/-
# What the reports do to the bitrate

`AdaptiveBitrate` knows the time of the last report that it has taken, and a count.  `Reported`
keeps all of them: `log` lists the reports that were taken, the latest first, with the bitrate
before and behind each.  The count is that of the healthy reports at its head that have raised
nothing yet (`Streak`), so the bitrate rises with five of them at the earliest, and none
is counted twice (`bitrate_disciplined`).
-/

import SidecarDOS.Host.Bitrate

namespace SidecarDOS
namespace Host

open Library (Reaches)

/-- A report of neither congestion nor anything that comes close to it. -/
def Healthy (s : Statistics) : Prop :=
  ¬ Congested s ∧ s.lossPpm < 2000 ∧ s.rttUs < 30000 ∧ s.decodeQueue = 0

/-- The rate behind the fifth healthy report. -/
def raised (most rate : ℕ) : ℕ := min most (rate + rate / 20)

namespace AdaptiveBitrate

variable {a : AdaptiveBitrate} {s : Statistics} {now : ℕ}

theorem update_early (h : now - a.last < 1000000) : a.update s now = (a, none) := if_pos h

/-- A report that is taken is one of congestion, one of health or neither. -/
theorem update_cases (a : AdaptiveBitrate) (s : Statistics) (now : ℕ)
    (h : ¬ now - a.last < 1000000) :
    Congested s ∧ (a.update s now).1 = { a with
        current := Max.max (a.current * 3 / 4) a.min, healthy := 0, last := now } ∨
      (Healthy s ∧ a.healthy + 1 ≥ 5) ∧ (a.update s now).1 = { a with
        current := Min.min (a.current + a.current / 20) a.max, healthy := 0, last := now } ∨
      (Healthy s ∧ ¬ a.healthy + 1 ≥ 5) ∧
        (a.update s now).1 = { a with healthy := a.healthy + 1, last := now } ∨
      (¬ Congested s ∧ ¬ Healthy s) ∧
        (a.update s now).1 = { a with healthy := 0, last := now } := by
  unfold update
  rw [if_neg h]
  dsimp only
  by_cases hcongested : Congested s
  · exact .inl ⟨hcongested, if_pos hcongested⟩
  · have hn := hcongested
    unfold Congested at hn
    rw [if_neg hn]
    by_cases hcalm : s.lossPpm < 2000 ∧ s.rttUs < 30000 ∧ s.decodeQueue = 0
    · have hhealthy : Healthy s := ⟨hcongested, hcalm⟩
      rw [if_pos hcalm]
      by_cases hfive : a.healthy + 1 ≥ 5
      · exact .inr (.inl ⟨⟨hhealthy, hfive⟩, by rw [if_pos hfive]⟩)
      · exact .inr (.inr (.inl ⟨⟨hhealthy, hfive⟩, by rw [if_neg hfive]⟩))
    · rw [if_neg hcalm]
      exact .inr (.inr (.inr ⟨⟨hcongested, fun h => hcalm h.2⟩, rfl⟩))

/-- The bitrate is within its bounds. -/
structure Bounded (a : AdaptiveBitrate) : Prop where
  least : a.min.toNat ≤ a.current.toNat
  most : a.current.toNat ≤ a.max.toNat
  max : a.max.toNat ≤ 100000000

/-- No operation of `update` overflows. -/
structure NoOverflow (a : AdaptiveBitrate) : Prop where
  lowered : a.current.toNat * 3 < 2 ^ 32
  raised : a.current.toNat + a.current.toNat / 20 < 2 ^ 32
  healthy : a.healthy.toNat + 1 < 2 ^ 8

theorem Bounded.toNat_raised (h : a.Bounded) :
    (Min.min (a.current + a.current / 20) a.max).toNat =
      raised a.max.toNat a.current.toNat := by
  have hmost := h.most
  have hmax := h.max
  have hsum : (a.current + a.current / 20).toNat = a.current.toNat + a.current.toNat / 20 := by
    rw [UInt32.toNat_add, UInt32.toNat_div]
    show (a.current.toNat + a.current.toNat / 20) % 4294967296 = _
    omega
  show (if a.current + a.current / 20 ≤ a.max then a.current + a.current / 20 else a.max).toNat = _
  rw [raised, ← hsum]
  split
  · rename_i h
    have hle : (a.current + a.current / 20).toNat ≤ a.max.toNat := h
    omega
  · rename_i h
    have hle : ¬ (a.current + a.current / 20).toNat ≤ a.max.toNat := h
    omega

theorem Bounded.toNat_lowered (h : a.Bounded) :
    (Max.max (a.current * 3 / 4) a.min).toNat = lowered a.min.toNat a.current.toNat :=
  AdaptiveBitrate.toNat_lowered (h.most.trans h.max : a.current.toNat ≤ 100000000)

theorem Bounded.update (h : a.Bounded) (s : Statistics) (now : ℕ) : (a.update s now).1.Bounded := by
  have hleast := h.least
  have hmost := h.most
  by_cases hearly : now - a.last < 1000000
  · rw [update_early hearly]
    exact h
  obtain ⟨-, hs⟩ | ⟨-, hs⟩ | ⟨-, hs⟩ | ⟨-, hs⟩ := update_cases a s now hearly
  · rw [hs]
    refine ⟨?_, ?_, h.max⟩
    · change a.min.toNat ≤ (Max.max (a.current * 3 / 4) a.min).toNat
      rw [h.toNat_lowered, lowered]
      omega
    · change (Max.max (a.current * 3 / 4) a.min).toNat ≤ a.max.toNat
      rw [h.toNat_lowered, lowered]
      omega
  · rw [hs]
    refine ⟨?_, ?_, h.max⟩
    · change a.min.toNat ≤ (Min.min (a.current + a.current / 20) a.max).toNat
      rw [h.toNat_raised, raised]
      omega
    · change (Min.min (a.current + a.current / 20) a.max).toNat ≤ a.max.toNat
      rw [h.toNat_raised, raised]
      omega
  · rw [hs]
    exact ⟨hleast, hmost, h.max⟩
  · rw [hs]
    exact ⟨hleast, hmost, h.max⟩

end AdaptiveBitrate

/-! ### Runs -/

/-- A report that has been taken, with the bitrate before and behind it. -/
structure Processed where
  report : Statistics
  time : ℕ
  (before after : ℕ)

/-- An estimate with the reports that it has taken, the latest first. -/
structure Reported where
  abr : AdaptiveBitrate
  log : List Processed := []

namespace Reported

variable {r : Reported}

def step (r : Reported) (i : Statistics × ℕ) : Reported :=
  if i.2 - r.abr.last < 1000000 then { r with abr := (r.abr.update i.1 i.2).1 }
  else
    { abr := (r.abr.update i.1 i.2).1
      log := ⟨i.1, i.2, r.abr.current.toNat, (r.abr.update i.1 i.2).1.current.toNat⟩ :: r.log }

/-- An estimate as `new` makes it. -/
def Initial (r : Reported) : Prop := ∃ current min max last,
  (500000 ≤ min.toNat ∧ min.toNat ≤ current.toNat ∧ current.toNat ≤ max.toNat ∧
    max.toNat ≤ 100000000) ∧
      r = { abr := { current := current, min := min, max := max, last := last } }

abbrev Reachable (r : Reported) : Prop := Reaches step Initial (fun _ _ => True) r

/-- What a report may do to the bitrate, behind older ones. -/
structure Disciplined (least most : ℕ) (p : Processed) (older : List Processed) : Prop where
  congested : Congested p.report → p.after = lowered least p.before
  raises : p.before < p.after → Healthy p.report ∧ p.after = raised most p.before
  streak : p.before < p.after → 4 ≤ older.length ∧
    ∀ q ∈ older.take 4, Healthy q.report ∧ q.after = q.before
  due : ∀ q ∈ older, q.time + 1000000 ≤ p.time

/-- The count of healthy reports is that of the latest ones, which have changed nothing. -/
def Streak (healthy : ℕ) (log : List Processed) : Prop := ∃ streak older,
  log = streak ++ older ∧ streak.length = healthy ∧
    ∀ q ∈ streak, Healthy q.report ∧ q.after = q.before

/-- Every report in the log is disciplined. -/
def Log (least most : ℕ) : List Processed → Prop
  | [] => True
  | p :: older => Disciplined least most p older ∧ Log least most older

structure Sound (r : Reported) : Prop where
  bounded : r.abr.Bounded
  few : r.abr.healthy.toNat ≤ 4
  streak : Streak r.abr.healthy.toNat r.log
  last : ∀ p ∈ r.log, p.time ≤ r.abr.last
  log : Log r.abr.min.toNat r.abr.max.toNat r.log

/-- A report is taken: what is left to show of it is what it does to the bitrate and the count. -/
theorem Sound.taken (h : r.Sound) {s : Statistics} {now : ℕ} {a : AdaptiveBitrate}
    (hnow : ¬ now - r.abr.last < 1000000) (ha : (r.abr.update s now).1 = a)
    (hrest : a.min = r.abr.min ∧ a.max = r.abr.max ∧ a.last = now)
    (hfew : a.healthy.toNat ≤ 4)
    (hstreak : Streak a.healthy.toNat (⟨s, now, r.abr.current.toNat, a.current.toNat⟩ :: r.log))
    (hcongested : Congested s → a.current.toNat = lowered r.abr.min.toNat r.abr.current.toNat)
    (hraises : r.abr.current.toNat < a.current.toNat →
      (Healthy s ∧ a.current.toNat = raised r.abr.max.toNat r.abr.current.toNat) ∧
        4 ≤ r.log.length ∧ ∀ q ∈ r.log.take 4, Healthy q.report ∧ q.after = q.before) :
    (r.step (s, now)).Sound := by
  obtain ⟨hmin, hmax, hlast⟩ := hrest
  have hdue : ∀ q ∈ r.log, q.time + 1000000 ≤ now := by
    intro q hq
    have hlast := h.last q hq
    omega
  have hbounded := h.bounded.update s now
  rw [ha] at hbounded
  rw [Reported.step, if_neg hnow, ha]
  refine ⟨hbounded, hfew, hstreak, ?_, ?_, ?_⟩
  · refine List.forall_mem_cons.2 ⟨hlast.ge, fun q hq => ?_⟩
    have hdue := hdue q hq
    dsimp only
    omega
  · dsimp only
    rw [hmin, hmax]
    exact ⟨hcongested, fun hrise => (hraises hrise).1, fun hrise => (hraises hrise).2, hdue⟩
  · dsimp only
    rw [hmin, hmax]
    exact h.log

theorem Streak.nil (log : List Processed) : Streak 0 log := ⟨[], log, rfl, rfl, nofun⟩

theorem Streak.cons {healthy : ℕ} {log : List Processed} (h : Streak healthy log)
    {p : Processed} (hhealthy : Healthy p.report) (hsame : p.after = p.before) :
    Streak (healthy + 1) (p :: log) := by
  obtain ⟨streak, older, hlog, hlength, hstreak⟩ := h
  refine ⟨p :: streak, older, congrArg _ hlog, ?_, ?_⟩
  · rw [List.length_cons, hlength]
  · exact List.forall_mem_cons.2 ⟨⟨hhealthy, hsame⟩, hstreak⟩

theorem Streak.take {healthy : ℕ} {log : List Processed} (h : Streak healthy log) :
    healthy ≤ log.length ∧ ∀ q ∈ log.take healthy, Healthy q.report ∧ q.after = q.before := by
  obtain ⟨streak, older, rfl, rfl, hstreak⟩ := h
  rw [List.length_append, List.take_left]
  exact ⟨Nat.le_add_right .., hstreak⟩

theorem Sound.step (h : r.Sound) (i : Statistics × ℕ) : (r.step i).Sound := by
  obtain ⟨s, now⟩ := i
  by_cases hearly : now - r.abr.last < 1000000
  · have hstep : r.step (s, now) = r := by
      rw [Reported.step, if_pos hearly, AdaptiveBitrate.update_early hearly]
    rw [hstep]
    exact h
  have hcount : (r.abr.healthy + 1).toNat = r.abr.healthy.toNat + 1 := by
    have hfew := h.few
    rw [UInt8.toNat_add]
    change (r.abr.healthy.toNat + 1) % 256 = _
    omega
  obtain ⟨hcongested, hs⟩ | ⟨⟨hhealthy, hfive⟩, hs⟩ | ⟨⟨hhealthy, hfive⟩, hs⟩ | ⟨⟨hn, -⟩, hs⟩ :=
    AdaptiveBitrate.update_cases r.abr s now hearly
  · have hafter := h.bounded.toNat_lowered
    refine h.taken hearly hs ⟨rfl, rfl, rfl⟩ (Nat.zero_le _) (.nil _) (fun _ => hafter)
      fun hrise => ?_
    have hleast := h.bounded.least
    dsimp only at hrise
    rw [hafter, lowered] at hrise
    omega
  · have hfour : r.abr.healthy.toNat = 4 := by
      have hge := UInt8.le_iff_toNat_le.1 hfive
      rw [hcount] at hge
      change 5 ≤ _ at hge
      have hfew := h.few
      omega
    exact h.taken hearly hs ⟨rfl, rfl, rfl⟩ (Nat.zero_le _) (.nil _)
      (fun hcongested => absurd hcongested hhealthy.1)
      fun _ => ⟨⟨hhealthy, h.bounded.toNat_raised⟩, hfour ▸ h.streak.take⟩
  · have hless : r.abr.healthy.toNat + 1 ≤ 4 := by
      have hlt := UInt8.lt_iff_toNat_lt.1 (UInt8.not_le.1 hfive)
      rw [hcount] at hlt
      change _ < 5 at hlt
      omega
    refine h.taken hearly hs ⟨rfl, rfl, rfl⟩ (hcount.trans_le hless) ?_
      (fun hcongested => absurd hcongested hhealthy.1) fun hrise => absurd hrise (Nat.lt_irrefl _)
    dsimp only
    rw [hcount]
    exact h.streak.cons hhealthy rfl
  · exact h.taken hearly hs ⟨rfl, rfl, rfl⟩ (Nat.zero_le _) (.nil _)
      (fun hcongested => absurd hcongested hn) fun hrise => absurd hrise (Nat.lt_irrefl _)

theorem Log.disciplined {least most : ℕ} {p : Processed} {newer older : List Processed}
    (h : Log least most (newer ++ p :: older)) : Disciplined least most p older := by
  induction newer with
  | nil => exact h.1
  | cons q newer ih => exact ih h.2

theorem Reachable.sound (h : r.Reachable) : r.Sound := by
  refine h.invariant ?_ fun r i hsound _ => hsound.step i
  rintro _ ⟨current, min, max, last, ⟨-, hleast, hmost, hmax⟩, rfl⟩
  exact ⟨⟨hleast, hmost, hmax⟩, Nat.zero_le _, ⟨[], [], rfl, rfl, nofun⟩, nofun, trivial⟩

/-- **The bitrate is disciplined.**  Behind any reports at any times it is within its bounds, and
the next report overflows nothing.  The reports that have been taken are a second apart, and only
they change the bitrate: one of congestion lowers it as it should, and one that raises it, by a
twentieth at most, is healthy and has four others before it that are, and have changed nothing. -/
theorem bitrate_disciplined (h : r.Reachable) :
    (r.abr.min.toNat ≤ r.abr.current.toNat ∧ r.abr.current.toNat ≤ r.abr.max.toNat) ∧
    r.abr.NoOverflow ∧
    (∀ newer p older, r.log = newer ++ p :: older →
      Disciplined r.abr.min.toNat r.abr.max.toNat p older) ∧
    ∀ s now, (r.step (s, now)).abr.current ≠ r.abr.current →
      ∃ p, (r.step (s, now)).log = p :: r.log ∧ p.report = s ∧ p.time = now ∧
        p.before = r.abr.current.toNat ∧ p.after = (r.step (s, now)).abr.current.toNat := by
  have hsound := h.sound
  have hleast := hsound.bounded.least
  have hmost := hsound.bounded.most
  have hmax := hsound.bounded.max
  have hfew := hsound.few
  refine ⟨⟨hleast, hmost⟩, ⟨by omega, by omega, by omega⟩, fun newer p older hlog => ?_,
    fun s now hchange => ?_⟩
  · exact (hlog ▸ hsound.log).disciplined
  · unfold step at hchange ⊢
    split
    · rename_i hearly
      rw [if_pos hearly, AdaptiveBitrate.update_early hearly] at hchange
      exact absurd rfl hchange
    · exact ⟨_, rfl, rfl, rfl, rfl, rfl⟩

/-- Five reports of health, a second apart. -/
def sampleHealth : List (Statistics × ℕ) :=
  [1, 2, 3, 4, 5].map fun second => (⟨⟨0⟩, 0, 0, 0, 0, 0, 0, 0, 0, 0⟩, second * 1000000)

/-- An estimate of 10 Mbit/s. -/
def sampleEstimate : Reported := { abr := ⟨10000000, 2000000, 30000000, 0, 0⟩ }

/-- The fifth report raises the bitrate. -/
theorem bitrate_disciplined_sample :
    (sampleHealth.foldl step sampleEstimate).abr.current = 10500000 ∧
      (sampleHealth.foldl step sampleEstimate).abr.NoOverflow :=
  have hinit : Reachable sampleEstimate := .init ⟨10000000, 2000000, 30000000, 0, by decide, rfl⟩
  have hrun := hinit.along (.of_forall (fun _ _ => trivial) _ sampleHealth)
  ⟨by decide, (bitrate_disciplined hrun).2.1⟩

end Reported

end Host
end SidecarDOS
