import Mathlib.Data.Nat.Basic

/-!
The command ids, result codes and acknowledgements that px4_link exchanges with PX4.
-/

namespace Dyx3.Px4Link

def cmdDoSetMode : Nat := 176
def cmdDoSetServo : Nat := 183
def cmdDoSetActuator : Nat := 187
def cmdArmDisarm : Nat := 400
def cmdLoggingStart : Nat := 2510

def resultAccepted : Nat := 0
def resultInProgress : Nat := 5

structure VehicleCommandAck where
  command : Nat
  result : Nat
  targetSystem : Nat
  targetComponent : Nat
  deriving DecidableEq

end Dyx3.Px4Link
