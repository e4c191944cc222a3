/-
# The H.264 decoder

`H264Decoder` of `ipad/SidecarDOS/Decoder/H264Decoder.swift`.  What VideoToolbox
and CoreMedia answer during one `decode` is a `VideoToolbox`, and the frames
they still work on are `jobs`.  A session and a format are the parameter sets
they were made from.  Both methods that may call `onResetNeeded` do so last;
they return whether they do.
-/

import SidecarDOS.Video.FrameAssembler

namespace SidecarDOS
namespace Ipad

/-- A frame in VideoToolbox, with the epoch it was submitted in. -/
structure Job where
  frame : ReceivedFrame
  epoch : ℕ
  deriving DecidableEq

/-- Which of the calls of one `decode` succeed. -/
structure VideoToolbox where
  createFormat : Bool := true
  createSession : Bool := true
  setRealTime : Bool := true
  createBlock : Bool := true
  createSample : Bool := true
  decodeFrame : Bool := true

/-- What `decode` catches: an error of its own, or a status other than `noErr`. -/
inductive DecodeError where
  | wire (e : WireError)
  | status
  deriving DecidableEq

structure H264Decoder where
  session : Option (Bytes × Bytes) := none
  format : Option (Bytes × Bytes) := none
  sps : Bytes := []
  pps : Bytes := []
  epoch : ℕ := 0
  inFlight : ℕ := 0
  waitingForIDR : Bool := true
  jobs : List Job := []

namespace H264Decoder

/-- The start codes of `bytes`, which begin at `i`: where each starts and ends. -/
def starts (i : ℕ) : Bytes → List (ℕ × ℕ)
  | 0 :: 0 :: 1 :: rest => (i, i + 3) :: starts (i + 3) rest
  | 0 :: 0 :: 0 :: 1 :: rest => (i, i + 4) :: starts (i + 4) rest
  | _ :: rest => starts (i + 1) rest
  | [] => []

/-- The units between the start codes of `bytes`. -/
def units (bytes : Bytes) : List (ℕ × ℕ) → Except DecodeError (List Bytes)
  | (_, start) :: (limit, start') :: codes =>
    if limit > start then
      ((bytes.take limit).drop start :: ·) <$> units bytes ((limit, start') :: codes)
    else .error (.wire .malformed)
  | [(_, start)] =>
    if bytes.length > start then .ok [bytes.drop start] else .error (.wire .malformed)
  | [] => .ok []

def nals (data : Bytes) : Except DecodeError (List Bytes) :=
  if ¬ data.length ≤ MAX_FRAME then .error (.wire .oversized)
  else
    let starts := starts 0 data
    if ¬ (starts ≠ [] ∧ starts.length ≤ 4096) then .error (.wire .malformed)
    else units data starts

/-- The type of a unit: `first & 0x1f`. -/
def nalType (nal : Bytes) : UInt8 := nal.headD 0 &&& 0x1f

def reset (d : H264Decoder) : H264Decoder :=
  { d with
    epoch := d.epoch + 1
    session := none
    format := none
    sps := []
    pps := []
    inFlight := 0
    waitingForIDR := true }

/-- One turn of the loop that looks for new parameter sets. -/
def parameterSet (s : H264Decoder × Bool) (nal : Bytes) : H264Decoder × Bool :=
  if nal = [] then s
  else if nalType nal = 7 ∧ nal ≠ s.1.sps then ({ s.1 with sps := nal }, true)
  else if nalType nal = 8 ∧ nal ≠ s.1.pps then ({ s.1 with pps := nal }, true)
  else s

def configure (d : H264Decoder) (vt : VideoToolbox) : H264Decoder × Except DecodeError Unit :=
  let d := { d with epoch := d.epoch + 1, inFlight := 0, session := none }
  if ¬ vt.createFormat then (d, .error .status)
  else
    let d := { d with format := some (d.sps, d.pps) }
    if ¬ (vt.createSession ∧ vt.setRealTime) then (d, .error .status)
    else ({ d with session := d.format }, .ok ())

/-- The part of `decode` that hands the frame to VideoToolbox. -/
def submit (d : H264Decoder) (vt : VideoToolbox) (received : ReceivedFrame) :
    H264Decoder × Except DecodeError Bool :=
  if d.session = none ∨ d.format = none then (d, .error (.wire .unexpected))
  else if ¬ (vt.createBlock ∧ vt.createSample) then (d, .error .status)
  else if ¬ vt.decodeFrame then (d, .error .status)
  else
    ({ d with
      inFlight := d.inFlight + 1
      jobs := d.jobs ++ [⟨received, d.epoch⟩]
      waitingForIDR := false }, .ok false)

/-- The `do` block of `decode`. -/
def attempt (d : H264Decoder) (vt : VideoToolbox) (received : ReceivedFrame) :
    H264Decoder × Except DecodeError Bool :=
  match nals received.video.data with
  | .error e => (d, .error e)
  | .ok nals =>
    let (d, changed) := nals.foldl parameterSet (d, false)
    let idr := nals.any fun nal => nalType nal = 5
    if d.waitingForIDR ∧ ¬ idr then (d, .ok false)
    else if changed ∨ d.session = none then
      if ¬ (d.sps ≠ [] ∧ d.pps ≠ [] ∧ idr) then (d, .ok true)
      else match d.configure vt with
        | (d, .error e) => (d, .error e)
        | (d, .ok ()) => d.submit vt received
    else d.submit vt received

/-- `decode`: the decoder and whether it calls `onResetNeeded`. -/
def decode (d : H264Decoder) (vt : VideoToolbox) (received : ReceivedFrame) : H264Decoder × Bool :=
  if ¬ d.inFlight < 2 then ({ d with waitingForIDR := true }, true)
  else match d.attempt vt received with
    | (d, .ok reset) => (d, reset)
    | (d, .error _) => (d.reset, true)

/-- The output callback for the job with an index, as it runs on the main actor. -/
def completed (d : H264Decoder) (index : ℕ) (ok : Bool) : H264Decoder × Bool :=
  match d.jobs[index]? with
  | none => (d, false)
  | some job =>
    let d := { d with jobs := d.jobs.eraseIdx index }
    if d.epoch ≠ job.epoch then (d, false)
    else
      let d := { d with inFlight := d.inFlight - 1 }
      if ok then (d, false) else ({ d with waitingForIDR := true }, true)

end H264Decoder
end Ipad
end SidecarDOS
