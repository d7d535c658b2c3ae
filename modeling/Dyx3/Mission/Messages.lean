import Dyx3.Mission.Fsm
import Dyx3.Mission.PointJournal

/-!
The messages, records and parameters of the mission node, with the fields it reads.
-/

namespace Dyx3.Mission

open Lib

/-! ### Messages -/

/-- `MotionSetpointStatus.REASON_*`, as far as the mission looks at it. -/
def gateOkReason : UInt8 := 0
def gateStale : UInt8 := 2
def gateEstop : UInt8 := 5
def gateArming : UInt8 := 11

structure SafetyGateStatus where
  ok : Bool
  reasonCode : UInt8 := 0
  preArmOk : Bool
  preArmReasonCode : UInt8 := 0
  deriving DecidableEq

def rppIdle : UInt8 := 0
def rppTracking : UInt8 := 1
def rppStopping : UInt8 := 2
def rppPivoting : UInt8 := 3
def rppCreeping : UInt8 := 4
def rppCompleteState : UInt8 := 5
def rppErrorState : UInt8 := 6
def rppLoaded : UInt8 := 7

structure RppStatus where
  missionId : ℕ
  state : UInt8
  runIndex : ℕ := 0
  pivotTimedOut : Bool := false
  deriving DecidableEq

/-- The states that show that RPP holds the mission's path. -/
def RppStatus.holdsPath (m : RppStatus) : Bool :=
  m.state = rppLoaded || m.state = rppTracking || m.state = rppStopping || m.state = rppPivoting ||
    m.state = rppCreeping

structure VehicleState where
  positionValid : Bool := false
  north : Flt := .fin 0
  east : Flt := .fin 0
  xyResetCounter : UInt8 := 0
  globalReferenceValid : Bool := false
  referenceLatitude : Flt := .fin 0
  referenceLongitude : Flt := .fin 0
  deriving DecidableEq

/-- `MissionState`; `waiting_on` is one of `WAIT_*`. -/
structure MissionStateMsg where
  state : State
  missionId : ℕ
  runIndex : ℕ
  pointIndex : ℕ
  reasonCode : UInt8
  pathArtifactSha256 : String
  sourceArtifactSha256 : String
  requestId : String
  reasonDetail : String
  gateReasonCode : UInt8
  waitingOn : UInt8
  startRunIndex : ℕ
  deriving DecidableEq

structure PointResult where
  missionId : ℕ
  event : PointEvent
  deriving DecidableEq

structure PathArtifact where
  sha256 : String
  version : ℤ := 0
  engineId : String := ""
  metaJson : String := ""
  points : List ArtifactPoint := []
  deriving DecidableEq

structure ArtifactResult where
  ok : Bool
  error : String := ""
  artifact : PathArtifact := ⟨"", 0, "", "", []⟩
  deriving DecidableEq

structure EkfReference where
  globalReferenceValid : Bool
  lat : Flt
  lon : Flt
  deriving DecidableEq

inductive PlacementError where
  | none | noPlacementFrame | referenceInvalid | outOfBounds | notSerializable
  deriving DecidableEq

def placementReason : PlacementError → UInt8
  | .noPlacementFrame => reasonNoPlacementFrame
  | .referenceInvalid => reasonEkfReferenceInvalid
  | .outOfBounds => reasonPlacementOutOfBounds
  | _ => reasonInternalError

structure Placement where
  ok : Bool
  error : PlacementError := .none
  detail : String := ""
  transformed : Bool := false
  execution : PathArtifact := ⟨"", 0, "", "", []⟩
  deriving DecidableEq

structure PlaceResult where
  placement : Placement
  stored : Bool
  storeError : String := ""
  deriving DecidableEq

/-- The EKF placement this execution's path was placed with. -/
structure PlacementRecord where
  anchored : Bool := false
  refLat : Flt
  refLon : Flt
  xyResetCounter : UInt8
  deriving DecidableEq

structure MissionProgress where
  pathArtifactSha256 : String
  missionId : ℕ
  runIndex : ℕ
  pointIndex : ℕ
  completedPoints : List ℕ
  state : String
  updatedUtc : String
  deriving DecidableEq

def MissionProgress.complete (p : MissionProgress) : Bool := p.state = "COMPLETED"

structure RunState where
  missionId : ℕ := 0
  runIndex : ℕ := 0
  pointIndex : ℕ := 0
  startRunIndex : ℕ := 0
  pathArtifactSha256 : String := ""
  sourceArtifactSha256 : String := ""
  requestId : String := ""
  deriving DecidableEq

/-- A `std::future`: not valid, not ready yet, ready. -/
inductive Job (α β : Type) where
  | none
  | running (work : α)
  | ready (result : β)

def Job.valid {α β : Type} : Job α β → Bool
  | .none => false
  | _ => true

def Job.finish {α β : Type} (result : β) : Job α β → Job α β
  | .running _ => .ready result
  | job => job

/-- `map[key] = value`. -/
def putKey {α : Type} (key : String) (value : α) : List (String × α) → List (String × α)
  | [] => [(key, value)]
  | (k, v) :: rest =>
    if key = k then (key, value) :: rest
    else if key < k then (key, value) :: (k, v) :: rest
    else (k, v) :: putKey key value rest

/-! ### Parameters -/

inductive IdleParam where
  | statePublishHz | gateStatusMaxAge | pointCaptureRadius | rppAckTimeout | rppStatusMaxAge | armTimeout
  | offboardTimeout | placementMaxDistance | vehicleStateMaxAge
  deriving DecidableEq

def IdleParam.text : IdleParam → String
  | .statePublishHz => "state_publish_hz"
  | .gateStatusMaxAge => "gate_status_max_age_s"
  | .pointCaptureRadius => "point_capture_radius_m"
  | .rppAckTimeout => "rpp_ack_timeout_s"
  | .rppStatusMaxAge => "rpp_status_max_age_s"
  | .armTimeout => "arm_timeout_s"
  | .offboardTimeout => "offboard_timeout_s"
  | .placementMaxDistance => "placement_max_distance_m"
  | .vehicleStateMaxAge => "vehicle_state_max_age_s"

def idleOnlyParams : List IdleParam :=
  [.statePublishHz, .gateStatusMaxAge, .pointCaptureRadius, .rppAckTimeout, .rppStatusMaxAge, .armTimeout,
    .offboardTimeout, .placementMaxDistance, .vehicleStateMaxAge]

/-- px4_link's own confirmation windows: the mission's timeouts must be longer. -/
def px4LinkArmConfirm : ℚ := 2
def px4LinkOffboardAnswer : ℚ := 7 / 2

def validValue (p : IdleParam) (v : Flt) : Bool :=
  v.isFinite && decide (.fin 0 < v) &&
    match p with
    | .statePublishHz => decide (v ≤ .fin 100)
    | .armTimeout => decide (.fin px4LinkArmConfirm < v) && decide (v ≤ .fin 60)
    | .offboardTimeout => decide (.fin px4LinkOffboardAnswer < v) && decide (v ≤ .fin 60)
    | .placementMaxDistance => decide (v ≤ .fin 1000)
    | _ => true

/-- The constructor throws on an invalid value and a callback refuses one. -/
structure Params where
  value : IdleParam → ℚ
  valid : ∀ p, validValue p (.fin (value p)) = true

def Params.defaults : Params where
  value
    | .statePublishHz => 10
    | .gateStatusMaxAge => 1 / 2
    | .pointCaptureRadius => 1 / 10
    | .rppAckTimeout => 30
    | .rppStatusMaxAge => 1 / 2
    | .armTimeout => 4
    | .offboardTimeout => 5
    | .placementMaxDistance => 1000
    | .vehicleStateMaxAge => 1 / 2
  valid p := by cases p <;> decide +kernel

theorem validValue_toRat {p : IdleParam} {v : Flt} (valid : validValue p v = true) :
    validValue p (.fin v.toRat) = true := by
  have finite : v.isFinite = true := by
    simp only [validValue, Bool.and_eq_true] at valid
    exact valid.1.1
  obtain ⟨x, rfl⟩ := Flt.isFinite_iff.mp finite
  exact valid

def Params.set (ps : Params) (p : IdleParam) (v : Flt) (valid : validValue p v = true) : Params where
  value q := if q = p then v.toRat else ps.value q
  valid q := by
    split
    case isTrue same => exact same ▸ validValue_toRat valid
    case isFalse => exact ps.valid q

inductive ParamValue where
  | double (v : Flt)
  | other
  deriving DecidableEq

end Dyx3.Mission
