/-
# The host's configuration

`Config` of `windows/host/src/config/mod.rs` with its check and its defaults.
-/

import SidecarDOS.Protocol.Wire

namespace SidecarDOS
namespace Host

inductive Position where
  | left | right | above | below
  deriving DecidableEq

/-- The `[display]` table. -/
structure Display where
  position : Position := .right
  primary : Bool := false
  reconnectGraceMs : ℕ := 4000
  deriving DecidableEq

/-- The `[video]` table. -/
structure Video where
  fps : UInt32 := 60
  bitrate : UInt32 := 12000000
  minBitrate : UInt32 := 2000000
  maxBitrate : UInt32 := 30000000
  adaptive : Bool := true
  deriving DecidableEq

structure Config where
  display : Display := {}
  video : Video := {}
  port : UInt16 := 47736
  deriving DecidableEq

def Config.validate (c : Config) : Except Error Unit :=
  if ¬ (30 ≤ c.video.fps ∧ c.video.fps ≤ 60) then .error (.ensure "MVP fps must be 30..60")
  else if ¬ c.port > 1024 then .error (.ensure "port must be above 1024")
  else if ¬ (1000 ≤ c.display.reconnectGraceMs ∧ c.display.reconnectGraceMs ≤ 10000) then
    .error (.ensure "grace period must be 1..10 seconds")
  else if ¬ (c.video.minBitrate ≥ 500000 ∧ c.video.minBitrate ≤ c.video.bitrate ∧
      c.video.bitrate ≤ c.video.maxBitrate ∧ c.video.maxBitrate ≤ 100000000) then
    .error (.ensure "invalid bitrate bounds")
  else .ok ()

/-- `save`; `written` tells whether the file can be written. -/
def Config.save (c : Config) (written : Bool) : Except Error Unit :=
  match c.validate with
  | .ok () => if written then .ok () else .error .platform
  | .error e => .error e

theorem Config.validate_eq_ok {c : Config} : c.validate = .ok () ↔
    (30 ≤ c.video.fps ∧ c.video.fps ≤ 60) ∧ c.port > 1024 ∧
      (1000 ≤ c.display.reconnectGraceMs ∧ c.display.reconnectGraceMs ≤ 10000) ∧
        c.video.minBitrate ≥ 500000 ∧ c.video.minBitrate ≤ c.video.bitrate ∧
          c.video.bitrate ≤ c.video.maxBitrate ∧ c.video.maxBitrate ≤ 100000000 := by
  unfold Config.validate
  constructor
  · intro h
    split_ifs at h with hfps hport hgrace hbounds
    exact ⟨hfps, hport, hgrace, hbounds⟩
  · rintro ⟨hfps, hport, hgrace, hbounds⟩
    rw [if_neg (not_not.2 hfps), if_neg (not_not.2 hport), if_neg (not_not.2 hgrace),
      if_neg (not_not.2 hbounds)]

/-- The defaults pass their own check. -/
theorem Config.validate_default : ({} : Config).validate = .ok () := by
  decide

end Host
end SidecarDOS
