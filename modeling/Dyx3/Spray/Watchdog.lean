import Dyx3.Lib.Flt

/-!
`LeaseMonitor` and `WatchdogCore` (dyx3_spray/safety_lease, watchdog_core): the independent watchdog of the spray
valve. It only ever asks for OFF; its proof of authority is an acknowledged OFF for the current mapping.
Times are the finite seconds of the caller's clock.
-/

namespace Dyx3.Spray

open Lib

structure Lease where
  allowOn : Bool := false
  commandSeq : Int := 0
  backend : Int := 0
  actuatorSetIndex : Int := 1
  offValue : Flt := .fin (-1)
  servoInstance : Int := 1
  offPwmUs : Int := 0
  deriving DecidableEq

/-- The fields of a lease that determine the destination and the value of an OFF. -/
structure ActuatorMapping where
  backend : Int
  actuatorSetIndex : Int
  offValue : Flt
  servoInstance : Int
  offPwmUs : Int
  deriving DecidableEq

def actuatorMapping (l : Lease) : ActuatorMapping :=
  ⟨l.backend, l.actuatorSetIndex, l.offValue, l.servoInstance, l.offPwmUs⟩

def sameActuatorMapping (a b : ActuatorMapping) : Bool :=
  a.backend = b.backend && a.actuatorSetIndex = b.actuatorSetIndex && a.offValue.same b.offValue &&
    a.servoInstance = b.servoInstance && a.offPwmUs = b.offPwmUs

/-- Why a lease cannot describe the physical OFF command; none when it can. -/
def validateLease (l : Lease) : Option String :=
  if l.commandSeq < 0 then some "command_seq must be non-negative"
  else if l.backend ≠ 0 ∧ l.backend ≠ 1 then some ("unsupported backend " ++ toString l.backend)
  else if ¬ (1 ≤ l.actuatorSetIndex ∧ l.actuatorSetIndex ≤ 6) then some "actuator_set_index must be in 1..6"
  else if !l.offValue.isFinite ∨ l.offValue < .fin (-1) ∨ .fin 1 < l.offValue then
    some "off_value must be finite and in [-1, 1]"
  else if ¬ (1 ≤ l.servoInstance ∧ l.servoInstance ≤ 16) then some "servo_instance must be in 1..16"
  else if ¬ (0 ≤ l.offPwmUs ∧ l.offPwmUs ≤ 2200) then some "off_pwm_us must be in 0..2200"
  else none

inductive OffCause where
  | none | noLease | invalidated | stale | denied | shutdown
  deriving DecidableEq, Repr

structure OffReason where
  cause : OffCause := .noLease
  text : String
  deriving DecidableEq

def OffReason.required (r : OffReason) : Bool := r.cause ≠ .none

structure LeaseMonitor where
  haveLease : Bool := false
  lastLease : Lease := {}
  lastReceive : ℚ := 0
  invalid : Bool := false
  shutdown : Bool := false
  invalidReason : String := ""
  deriving DecidableEq

namespace LeaseMonitor

def invalidate (m : LeaseMonitor) (reason : String) (shutdown : Bool) : LeaseMonitor :=
  { m with
    invalid := true
    shutdown := m.shutdown || shutdown
    invalidReason := if reason = "" then "invalid controller lease" else reason }

/-- An invalid lease is not stored: ON is revoked and the last mapping is kept. -/
def observe (m : LeaseMonitor) (l : Lease) (now : ℚ) : LeaseMonitor × Option String :=
  match validateLease l with
  | some why => (m.invalidate ("invalid controller lease: " ++ why) false, some why)
  | none =>
    ({ m with lastLease := l, lastReceive := now, haveLease := true, invalid := false, invalidReason := "" }, none)

def offReason (m : LeaseMonitor) (timeout now : ℚ) : OffReason :=
  let age := max 0 (now - m.lastReceive)
  if m.invalid then ⟨if m.shutdown then .shutdown else .invalidated, m.invalidReason⟩
  else if !m.haveLease then ⟨.noLease, "no controller lease"⟩
  else if timeout < age then
    ⟨.stale, "controller lease stale (" ++ fixed 3 age ++ "s > " ++ fixed 3 timeout ++ "s)"⟩
  else if !m.lastLease.allowOn then ⟨.denied, "controller lease denies ON"⟩
  else ⟨.none, ""⟩

end LeaseMonitor

/-- The constructor of the core refuses a fallback mapping that does not validate. -/
structure WatchdogParams where
  leaseTimeout : ℚ := 7 / 20
  offRetryHz : ℚ := 2
  offBurstHz : ℚ := 20
  offBurstDuration : ℚ := 3 / 2
  commandAckTimeout : ℚ := 1
  fallback : Lease := {}
  fallbackValid : validateLease fallback = none := by decide

structure OffCommand where
  seq : Nat
  mapping : Lease
  deriving DecidableEq

structure WatchdogStatus where
  allowOn : Bool
  alive : Bool := true
  offAuthorityReady : Bool
  offInflight : Bool
  offReason : String
  leaseAge : ℚ
  backend : Int
  deriving DecidableEq

structure Watchdog where
  mon : LeaseMonitor := {}
  inflight : Bool := false
  seq : Nat := 0
  offEpochActive : Bool := false
  inflightSeq : Nat := 0
  inflightSince : ℚ := 0
  inflightMapping : Option ActuatorMapping := none
  offConfirmedMapping : Option ActuatorMapping := none
  mappingOffRequired : Bool := false
  nextOff : ℚ := 0
  burstUntil : ℚ := 0
  haveLastCause : Bool := false
  lastCause : OffCause := .none
  deriving DecidableEq

namespace Watchdog

def mapping (p : WatchdogParams) (w : Watchdog) : Lease := if w.mon.haveLease then w.mon.lastLease else p.fallback

def offRequired (p : WatchdogParams) (w : Watchdog) (now : ℚ) : Bool := (w.mon.offReason p.leaseTimeout now).required

def onLease (p : WatchdogParams) (w : Watchdog) (l : Lease) (now : ℚ) : Watchdog :=
  match w.mon.observe l now with
  | (mon, some _) => { w with mon, nextOff := 0 }  -- malformed: revoke ON and retry OFF at once
  | (mon, none) =>
    let previous := actuatorMapping (w.mapping p)
    let w := { w with mon }
    -- Proof and any OFF on its way belong to the previous mapping.
    let w :=
      if !sameActuatorMapping previous (actuatorMapping (w.mapping p)) then
        { w with
          offConfirmedMapping := none, inflight := false, offEpochActive := false, inflightMapping := none
          mappingOffRequired := true, nextOff := 0, burstUntil := now + max 0 p.offBurstDuration }
      else w
    if !w.offRequired p now && !w.mappingOffRequired then { w with offEpochActive := false } else w

def onAck (p : WatchdogParams) (w : Watchdog) (seq : Nat) (success : Bool) : Watchdog :=
  if !w.inflight || seq ≠ w.inflightSeq then w
  else
    let current := actuatorMapping (w.mapping p)
    let proves := w.inflightMapping.any (sameActuatorMapping · current)
    let w := { w with inflight := false, inflightMapping := none }
    if success && proves then { w with offConfirmedMapping := some current, mappingOffRequired := false }
    else { w with offConfirmedMapping := none, nextOff := 0 }

def beginShutdown (w : Watchdog) : Watchdog :=
  { w with mon := w.mon.invalidate "service shutdown" true, nextOff := 0 }

/-- A missing proof fails closed. -/
def expire (p : WatchdogParams) (w : Watchdog) (now : ℚ) : Watchdog :=
  if w.inflight && max (1 / 10) p.commandAckTimeout < now - w.inflightSince then
    { w with inflight := false, inflightMapping := none, offConfirmedMapping := none }
  else w

/-- A new cause for OFF starts a burst. -/
def noteCause (p : WatchdogParams) (w : Watchdog) (r : OffReason) (now : ℚ) : Watchdog :=
  if !w.haveLastCause || r.cause ≠ w.lastCause then
    if r.required then
      { w with
        nextOff := 0, burstUntil := now + max 0 p.offBurstDuration, lastCause := r.cause, haveLastCause := true }
    else { w with lastCause := r.cause, haveLastCause := true }
  else w

def emit (p : WatchdogParams) (w : Watchdog) (now : ℚ) : Watchdog × Option OffCommand :=
  let w :=
    if !w.offEpochActive then
      { w with offConfirmedMapping := none, inflightSeq := w.seq + 1, seq := w.seq + 1, offEpochActive := true }
    else w
  let hz := max (1 / 5) (if now < w.burstUntil then p.offBurstHz else p.offRetryHz)
  let current := actuatorMapping (w.mapping p)
  ({ w with
      nextOff := now + 1 / hz
      inflightSince := if w.inflight then w.inflightSince else now
      inflight := true
      inflightMapping := some current },
    some ⟨w.inflightSeq, w.mapping p⟩)

def tick (p : WatchdogParams) (w : Watchdog) (now : ℚ) : Watchdog × Option OffCommand :=
  let w := w.expire p now
  let r := w.mon.offReason p.leaseTimeout now
  let w := w.noteCause p r now
  let required := r.required || w.mappingOffRequired
  let w := if !required then { w with offEpochActive := false } else w
  if required && w.nextOff ≤ now then w.emit p now else (w, none)

def status (p : WatchdogParams) (w : Watchdog) (now : ℚ) : WatchdogStatus where
  allowOn := !w.offRequired p now && !w.mappingOffRequired
  offAuthorityReady := w.offConfirmedMapping.any (sameActuatorMapping · (actuatorMapping (w.mapping p)))
  offInflight := w.inflight
  offReason := (w.mon.offReason p.leaseTimeout now).text
  leaseAge := if w.mon.haveLease then max 0 (now - w.mon.lastReceive) else 10 ^ 9
  backend := (w.mapping p).backend

end Watchdog

end Dyx3.Spray
