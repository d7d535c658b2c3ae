import Dyx3.GnssRtk.TransportSink
import Dyx3.Lib.Run

/-!
`InjectionAuthority` (dyx3_gnss_rtk, injection_authority): one sink at a time, and frames only from the source that was started last.
-/

namespace Dyx3.GnssRtk

open Lib

inductive CorrectionSource where
  | ntrip
  | lora
deriving DecidableEq, Repr

inductive CorrectionTransport where
  | usbDirect
  | px4Dds
deriving DecidableEq, Repr

structure InjectionAuthority (R : Type) where
  usb : UsbSerialSink R
  dds : DdsSink R
  /-- `selected_`, by the transport of the sink it points to. -/
  selected : Option CorrectionTransport := none
  source : CorrectionSource := .ntrip
  transport : CorrectionTransport := .px4Dds
  generation : ℕ := 0

namespace InjectionAuthority

variable {R : Type} [Scalar R]

/-- A call under the mutex with the answers it meets; the status timer reads the serial line in between. -/
inductive Call (R : Type) where
  | switchTo (source : CorrectionSource) (transport : CorrectionTransport) (now : R) (granted : Bool) (ready : Ready)
  | stop
  | deliver (generation : ℕ) (frame : ValidatedFrame) (now : R) (usb : UsbSerialSink.Replies R) (dds : DdsSink.Replies)
  | readAvailable (now : R) (hangup : Bool)

/-- What a call returns and what it lets out. -/
structure Outcome where
  generation : Option ℕ := none
  delivered : Bool := false
  serial : List Traffic := []
  published : List Chunk := []

def closeSelected (a : InjectionAuthority R) : InjectionAuthority R × List Traffic :=
  match a.selected with
  | none => (a, [])
  | some .usbDirect => ({ a with usb := a.usb.closing.1, selected := none }, a.usb.closing.2)
  | some .px4Dds => ({ a with dds := a.dds.closing, selected := none }, [])

def switchTo (a : InjectionAuthority R) (source : CorrectionSource) (transport : CorrectionTransport) (now : R) (granted : Bool)
    (ready : Ready) : InjectionAuthority R × Outcome :=
  let (a, ended) := { a with generation := a.generation + 1 }.closeSelected
  match transport with
  | .usbDirect =>
    let (usb, traffic, _) := a.usb.opening now granted
    ({ a with usb, source, transport, selected := some .usbDirect }, { generation := some a.generation, serial := ended ++ traffic })
  | .px4Dds =>
    let (dds, _) := a.dds.opening ready
    ({ a with dds, source, transport, selected := some .px4Dds }, { generation := some a.generation, serial := ended })

def stop (a : InjectionAuthority R) : InjectionAuthority R × Outcome :=
  let (a, ended) := { a with generation := a.generation + 1 }.closeSelected
  (a, { serial := ended })

def deliver (a : InjectionAuthority R) (generation : ℕ) (frame : ValidatedFrame) (now : R) (usb : UsbSerialSink.Replies R)
    (dds : DdsSink.Replies) : InjectionAuthority R × Outcome :=
  if generation ≠ a.generation then (a, {})
  else
    match a.selected with
    | none => (a, {})
    | some .usbDirect =>
      let (usb, serial, delivered) := a.usb.deliver frame now usb
      ({ a with usb }, { delivered, serial })
    | some .px4Dds =>
      let (dds, published, delivered) := a.dds.deliver frame now dds
      ({ a with dds }, { delivered, published })

def step (a : InjectionAuthority R) : Call R → InjectionAuthority R × Outcome
  | .switchTo source transport now granted ready => a.switchTo source transport now granted ready
  | .stop => a.stop
  | .deliver generation frame now usb dds => a.deliver generation frame now usb dds
  | .readAvailable now hangup =>
    let (usb, serial) := a.usb.readAvailable now hangup
    ({ a with usb }, { serial })

def initial (config : UsbConfig R) : InjectionAuthority R := { usb := .initial config, dds := .initial }

/-! ### What a history let out -/

abbrev History (R : Type) := List (Entry (Call R) Outcome)

/-- The frames given to `deliver`, the oldest first. -/
def frames : History R → List ValidatedFrame
  | [] => []
  | ⟨.deliver _ frame _ _ _, _⟩ :: h => frames h ++ [frame]
  | _ :: h => frames h

def serialLog : History R → List Traffic
  | [] => []
  | e :: h => serialLog h ++ e.out.serial

/-- How often the source was changed. -/
def changes : History R → ℕ
  | [] => 0
  | ⟨.switchTo .., _⟩ :: h | ⟨.stop, _⟩ :: h => changes h + 1
  | _ :: h => changes h

def Outcome.serialBytes (o : Outcome) : Bytes := o.serial.flatMap Traffic.bytes

def Outcome.publishedBytes (o : Outcome) : Bytes := o.published.flatMap Chunk.data

/-- The frames of which the call let out every byte, as `bytes` finds them in the outcome. -/
def whole (bytes : Outcome → Bytes) : History R → List ValidatedFrame
  | [] => []
  | ⟨.deliver _ frame _ _ _, out⟩ :: h => if bytes out = frame.bytes then whole bytes h ++ [frame] else whole bytes h
  | _ :: h => whole bytes h

/-- Serial traffic with the frames that went onto the line, and whether the device is open at its end: the device is opened, whole
frames follow, then it is closed, at once if a frame was cut off. -/
inductive Line : List ValidatedFrame → Bool → List Traffic → Prop where
  | start : Line [] false []
  | opened {sent log} : Line sent false log → Line sent true (log ++ [.opened])
  | frame {sent log} (frame : ValidatedFrame) (pieces : List Bytes) :
      Line sent true log → pieces.flatten = frame.bytes → Line (sent ++ [frame]) true (log ++ pieces.map .wrote)
  | cut {sent log} (frame : ValidatedFrame) (pieces : List Bytes) :
      Line sent true log → pieces.flatten <+: frame.bytes → pieces.flatten ≠ frame.bytes →
      Line (sent ++ [frame]) false (log ++ pieces.map .wrote ++ [.closed])
  | closed {sent log} : Line sent true log → Line sent false (log ++ [.closed])

/-- What holds of a call after the history before it: the generation counts the changes of source, a frame of another generation stays
inside, and a frame is published in its own chunks, the first of them first. -/
def Sound : Entry (Call R) Outcome → History R → Prop
  | ⟨.switchTo .., out⟩, earlier => out.generation = some (changes earlier + 1) ∧ out.serialBytes = [] ∧ out.published = []
  | ⟨.deliver generation frame _ _ _, out⟩, earlier =>
    (generation ≠ changes earlier → out.serial = [] ∧ out.published = []) ∧
      ∃ sequence < 32, ∃ chunks, Fragments frame.bytes sequence chunks ∧ out.published <+: chunks
  | ⟨_, out⟩, _ => out.serialBytes = [] ∧ out.published = []

end InjectionAuthority
end Dyx3.GnssRtk
