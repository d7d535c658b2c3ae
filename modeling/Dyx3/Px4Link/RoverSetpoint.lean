import Dyx3.Lib.Flt

/-!
`validate` and `to_setpoint` (dyx3_px4_link/rover_setpoint_writer): the per-mode field contract of a guard command and
the explicit control set that is written to PX4. NaN is a value that is always sent.
-/

namespace Dyx3.Px4Link.RoverSetpoint

open Lib

inductive Mode where
  | stop | trackHeading | trackRate | pivot | creep
  deriving DecidableEq, Repr

/-- The mode a wire value names, none above `Creep`. -/
def Mode.ofWire : Nat → Option Mode
  | 0 => some .stop
  | 1 => some .trackHeading
  | 2 => some .trackRate
  | 3 => some .pivot
  | 4 => some .creep
  | _ => none

def Mode.wire : Mode → Nat
  | .stop => 0
  | .trackHeading => 1
  | .trackRate => 2
  | .pivot => 3
  | .creep => 4

structure Command where
  seq : Nat := 0
  mode : Nat := 0
  speedBodyX : Flt := .fin 0
  yawSetpoint : Flt := .fin 0
  yawRateSetpoint : Flt := .fin 0
  valid : Bool := false
  sourcePoseSampleUs : Nat := 0
  deriving DecidableEq

structure Setpoint where
  mode : Mode := .stop
  speedBodyX : Flt := .fin 0
  yawSetpoint : Flt := .nan
  yawRateSetpoint : Flt := .fin 0
  deriving DecidableEq

def stopSetpoint : Setpoint := {}

inductive Verdict where
  | ok | notValid | badMode | nonFinite | contractViolation
  deriving DecidableEq, Repr

def validate (c : Command) : Verdict :=
  let speedF := c.speedBodyX.isFinite
  let yawF := c.yawSetpoint.isFinite
  let rateF := c.yawRateSetpoint.isFinite
  let yawNan := c.yawSetpoint.isNan
  let rateNan := c.yawRateSetpoint.isNan
  if !c.valid then .notValid
  else match Mode.ofWire c.mode with
    | none => .badMode
    | some .stop => .ok
    | some .trackHeading =>
      if !speedF || !yawF then .nonFinite
      else if rateNan then .ok else .contractViolation
    | some .trackRate | some .creep =>
      if !speedF || !rateF then .nonFinite
      else if yawNan then .ok else .contractViolation
    | some .pivot =>
      if !speedF || !rateF then .nonFinite
      else if !c.speedBodyX.same (.fin 0) then .contractViolation
      else if yawNan then .ok else .contractViolation

def toSetpoint (c : Command) : Setpoint :=
  if validate c ≠ .ok then stopSetpoint
  else match Mode.ofWire c.mode with
    | none => stopSetpoint  -- refused by `validate`
    | some .stop => stopSetpoint
    | some .trackHeading =>
      { mode := .trackHeading, speedBodyX := c.speedBodyX, yawSetpoint := c.yawSetpoint, yawRateSetpoint := .nan }
    | some .trackRate =>
      { mode := .trackRate, speedBodyX := c.speedBodyX, yawSetpoint := .nan, yawRateSetpoint := c.yawRateSetpoint }
    | some .creep =>
      { mode := .creep, speedBodyX := c.speedBodyX, yawSetpoint := .nan, yawRateSetpoint := c.yawRateSetpoint }
    | some .pivot =>
      { mode := .pivot, speedBodyX := .fin 0, yawSetpoint := .nan, yawRateSetpoint := c.yawRateSetpoint }

end Dyx3.Px4Link.RoverSetpoint
