import Dyx3.GnssRtk.RtcmTransport
import Dyx3.Lib.Scalar

/-!
`UsbSerialSink` and `DdsSink` (dyx3_gnss_rtk, transport_sink): how a frame goes to the receiver. What the device, the clock and the
callbacks answer is given with each call; what comes out is the traffic on the serial line and the chunks published.
-/

namespace Dyx3.GnssRtk

open Lib

structure SinkCounters (R : Type) where
  framesDelivered : ℕ := 0
  bytesDelivered : ℕ := 0
  failures : ℕ := 0
  opens : ℕ := 0
  reopens : ℕ := 0
  lastDeliveryS : R

/-! ### The serial sink -/

structure UsbConfig (R : Type) where
  receiverDevice : String
  writeTimeoutS : R
  reopenDelayS : R

structure UsbSerialSink (R : Type) where
  config : UsbConfig R
  /-- `fd_ >= 0` -/
  isOpen : Bool := false
  everOpened : Bool := false
  nextOpenS : R
  counters : SinkCounters R

/-- What happens on the serial line. -/
inductive Traffic where
  | opened
  | wrote (piece : Bytes)
  | closed
deriving DecidableEq, Repr

def Traffic.bytes : Traffic → Bytes
  | .wrote piece => piece
  | _ => []

inductive Poll where
  | ready (output : Bool)
  | timeout
  | interrupted
  | failed
deriving DecidableEq, Repr

/-- How a `write` ends; `wouldBlock` with the time after it and the `poll` that follows. -/
inductive WriteReply (R : Type) where
  | wrote (n : ℕ)
  | interrupted
  | wouldBlock (now : R) (poll : Poll)
  | failed

namespace UsbSerialSink

variable {R : Type} [Scalar R]

def initial (config : UsbConfig R) : UsbSerialSink R :=
  { config, nextOpenS := Scalar.lit 0, counters := { lastDeliveryS := Scalar.lit (-1) } }

/-- `granted` is whether the device can be opened. -/
def opening (s : UsbSerialSink R) (now : R) (granted : Bool) : UsbSerialSink R × List Traffic × Bool :=
  if s.isOpen then (s, [], true)
  else if s.config.receiverDevice = "" then (s, [], false)
  else if now < s.nextOpenS then (s, [], false)
  else if granted then
    let counters := { s.counters with opens := s.counters.opens + 1, reopens := s.counters.reopens + s.everOpened.toNat }
    ({ s with isOpen := true, everOpened := true, counters }, [.opened], true)
  else
    let counters := { s.counters with failures := s.counters.failures + 1 }
    ({ s with counters, nextOpenS := now + s.config.reopenDelayS }, [], false)

def closing (s : UsbSerialSink R) : UsbSerialSink R × List Traffic :=
  if s.isOpen then ({ s with isOpen := false }, [.closed]) else (s, [])

/-- The end of a call that fails with the device open. -/
def fail (s : UsbSerialSink R) (now : R) : UsbSerialSink R × List Traffic :=
  let counters := { s.counters with failures := s.counters.failures + 1 }
  ({ s.closing.1 with counters, nextOpenS := now + s.config.reopenDelayS }, s.closing.2)

/-- The loop of `deliver` over the replies of `write`: the pieces written and whether nothing is left. A `write` without a reply fails. -/
def writeLoop (deadline : R) : List (WriteReply R) → Bytes → List Bytes × Bool
  | _, [] => ([], true)
  | .wrote n :: replies, b :: left =>
    if n > 0 then
      let rest := writeLoop deadline replies ((b :: left).drop n)
      ((b :: left).take n :: rest.1, rest.2)
    else ([], false)
  | .interrupted :: replies, b :: left => writeLoop deadline replies (b :: left)
  | .wouldBlock now poll :: replies, b :: left =>
    if deadline - now > Scalar.lit 0 ∧ (poll = .ready true ∨ poll = .interrupted) then writeLoop deadline replies (b :: left)
    else ([], false)
  | .failed :: _, _ :: _ => ([], false)
  | [], _ :: _ => ([], false)

/-- What the device and the clock answer in one `deliver`. -/
structure Replies (R : Type) where
  granted : Bool
  /-- `read_available` of the status timer finds the device gone before the lock is taken again. -/
  hangup : Bool
  clock : R
  writes : List (WriteReply R)

def deliver (s : UsbSerialSink R) (frame : ValidatedFrame) (now : R) (replies : Replies R) : UsbSerialSink R × List Traffic × Bool :=
  match s.opening now replies.granted with
  | (s, traffic, false) => (s, traffic, false)
  | (s, traffic, true) =>
    let (s, lost) := if replies.hangup then s.fail now else (s, [])
    -- a write to no descriptor fails
    let writes := if s.isOpen then replies.writes else []
    match writeLoop (replies.clock + s.config.writeTimeoutS) writes frame.bytes with
    | (pieces, true) =>
      let counters := { s.counters with
        framesDelivered := s.counters.framesDelivered + 1
        bytesDelivered := s.counters.bytesDelivered + frame.bytes.length
        lastDeliveryS := now }
      ({ s with counters }, traffic ++ lost ++ pieces.map .wrote, true)
    | (pieces, false) =>
      let (s, ended) := s.fail now
      (s, traffic ++ lost ++ pieces.map .wrote ++ ended, false)

/-- `read_available` as far as the device is concerned: `hangup` is that the descriptor is found dead. -/
def readAvailable (s : UsbSerialSink R) (now : R) (hangup : Bool) : UsbSerialSink R × List Traffic :=
  if s.isOpen && hangup then s.fail now else (s, [])

end UsbSerialSink

/-! ### The DDS sink -/

structure DdsSink (R : Type) where
  chunker : Chunker := {}
  active : Bool := false
  counters : SinkCounters R

/-- What `ready_` does. -/
inductive Ready where
  | yes
  | no
  | throws
deriving DecidableEq, Repr

namespace DdsSink

variable {R : Type} [Scalar R]

def initial : DdsSink R := { counters := { lastDeliveryS := Scalar.lit (-1) } }

def opening (s : DdsSink R) (ready : Ready) : DdsSink R × Bool :=
  if s.active then (s, true)
  else
    match ready with
    | .throws => ({ s with counters := { s.counters with failures := s.counters.failures + 1 } }, false)
    | .no => (s, false)
    | .yes => ({ s with active := true, counters := { s.counters with opens := s.counters.opens + 1 } }, true)

/-- The chunks that `publish_` takes before the first that it does not; a missing answer is that it throws. -/
def publishLoop : List Chunk → List Bool → List Chunk
  | chunk :: chunks, true :: answers => chunk :: publishLoop chunks answers
  | _, _ => []

/-- What the callbacks answer in one `deliver`. -/
structure Replies where
  openReady : Ready
  ready : Ready
  published : List Bool

def fail (s : DdsSink R) : DdsSink R := { s with counters := { s.counters with failures := s.counters.failures + 1 } }

def deliver (s : DdsSink R) (frame : ValidatedFrame) (now : R) (replies : Replies) : DdsSink R × List Chunk × Bool :=
  let opened := s.opening replies.openReady
  if !(opened.2 && replies.ready = .yes) then ({ opened.1 with active := false }.fail, [], false)
  else
    let s := opened.1
    let (chunker, chunks) := s.chunker.split frame.bytes
    let s := { s with chunker }
    if chunks = [] then (s.fail, [], false)
    else
      let published := publishLoop chunks replies.published
      if published.length < chunks.length then (s.fail, published, false)
      else
        let counters := { s.counters with
          framesDelivered := s.counters.framesDelivered + 1
          bytesDelivered := s.counters.bytesDelivered + frame.bytes.length
          lastDeliveryS := now }
        ({ s with counters }, published, true)

def closing (s : DdsSink R) : DdsSink R := { s with active := false }

end DdsSink

end Dyx3.GnssRtk
