import Dyx3.Rpp.Core

/-!
`ParamSet`: the 117 parameters of RPP with their class, validation and change rules. The store is generic in
its descriptor table; `kTable` is the generated one. The journal of changes is left out: nothing reads it.
-/

namespace Dyx3.RppCore

open Lib Scalar

inductive Kind where
  | bool | int | float | string
  deriving DecidableEq

inductive ParamClass where
  | live | idleOnly | restart
  deriving DecidableEq

inductive P where
  | maxLinearVel | minLinearVel | minLookaheadDist | maxLookaheadDist | lookaheadTime | aLatMax
  | regulatedLinearScalingMinSpeed | xyGoalTolerance | minGoalTravelM | closeLoopThresholdM | closeLoopMinLenM
  | closedLoopMinTravelFrac | approachVelocityScalingDist | minApproachLinearVelocity | endpointApproachRunRemaining
  | transitMergeMaxLenM | transitRunoutGoalToleranceM | transitRunoutMinSpeedMS | endpointCaptureRecoverEnabled
  | endpointCapturePastM | endpointCaptureMaxMissM | segmentPreciseEndpointStopEnabled
  | segmentEndpointArrivalToleranceM | segmentEndpointCrossToleranceM | segmentEndpointMaxCorrectionM
  | segmentEndpointPreciseDecelMS2 | segmentEndpointTriggerMarginM | segmentEndpointCreepSpeed
  | segmentEndpointPreciseMaxS | p4ZeroVelThreshold | poseMaxAgeS | pathFrameId | ekfJumpThresholdM
  | ekfResetCompensation | ekfResetMaxAbsorbM | requireRtkFix | rtkFixTimeoutS | rtkRequireAccuracy | rtkMaxHrmsM
  | rtkRecoverHoldS | previewCurvatureN | xtrackLookaheadGain | smoothLateralGain | smoothLateralMaxDeg
  | smoothCurvatureLdCoeff | smoothMaxArcCutM | smoothMinArcLdM | curvatureBaselineM | pathResampleSpacingM
  | cornerSmoothRadiusM | cornerSmoothArcPts | trackingProfile | segmentCornerThresholdDeg
  | segmentLookaheadCrossCollinearDeg | segmentEndpointLookaheadExtend | segmentCornerLookaheadExtend
  | segmentSimplifyMaxOffsetM | entryPrealignEnabled | segmentSlowdownDist | segmentMinCornerSpeed
  | segmentEndpointApproachSpeed | stopLatchEnabled | stopLatchMinActuatableMS | stopLatchCaptureDistM
  | stopLatchReleaseDistM | segmentCornerAcceptanceRadius | segmentHeadingToleranceDeg | segmentYawRateGain
  | segmentStopSpeedThreshold | segmentStopYawRateThreshold | segmentStopDwellS | pointHoldEnabled | pointHoldS
  | pointHoldAcceptanceM | progressPublishEnabled | progressApproachDistM | pointPreciseStopEnabled
  | pointArrivalToleranceM | preciseStopMode | preciseStopDecelMS2 | preciseStopCreepSpeed | preciseStopMaxS
  | pointHandshakeEnabled | pointExecutionMode | manualWaitTimeoutS | pointHoldMaxS | segmentBrakeVelocityCapMS
  | segmentAlignSettleS | segmentAlignSpeedThreshold | segmentTurnTimeoutS | segmentTimeoutHeadingToleranceDeg
  | segmentPivotSpinupMarginS | segmentNominalPivotRateRadS | segmentPivotTimeoutMaxS | segmentPivotReleaseMaxDeg
  | pivotToInterceptEnabled | pivotInterceptDistM | connectorAbsorbM | connectorMinCornerDeg | useImuExtrapolation
  | imuMaxExtrapAgeS | poseLatencyBiasS | useFeedforwardYawRate | yawRateFeedbackGain | maxYawRateBody
  | maxLinearAccel | missionSpeed | maxLinearDecel | accelGateHeadingFullDeg | accelGateHeadingNoneDeg
  | accelGateCurvFull | accelGateCurvNone | speedCmdDecelMS2 | kappaHardEnter | kappaHardExit
  | previewCurvatureDistanceM | segmentCommandMode
  deriving DecidableEq

variable {R : Type} [Scalar R]

structure Descriptor (R : Type) [Scalar R] where
  name : String
  kind : Kind
  cls : ParamClass
  dflt : R := lit 0
  sdflt : String := ""
  lo : R := -infinity
  hi : R := infinity
  positive : Bool := false
  nonempty : Bool := false
  allowed : List String := []

namespace Descriptor

def float (name : String) (cls : ParamClass) (dflt : ℚ) : Descriptor R :=
  { name, kind := .float, cls, dflt := lit dflt, lo := lit 0 }

def int (name : String) (cls : ParamClass) (dflt : ℚ) : Descriptor R :=
  { name, kind := .int, cls, dflt := lit dflt, lo := lit 0 }

def bool (name : String) (cls : ParamClass) (dflt : Bool) : Descriptor R :=
  { name, kind := .bool, cls, dflt := lit (if dflt then 1 else 0) }

def string (name : String) (cls : ParamClass) (sdflt : String) (allowed : List String) : Descriptor R :=
  { name, kind := .string, cls, sdflt, nonempty := true, allowed }

end Descriptor

open Descriptor in
/-- `rpp_param_table.inc`. -/
def kTable : List (Descriptor R) :=
  [
    { float "max_linear_vel" .live 0.85 with positive := true },
    .float "min_linear_vel" .live 0.15,
    { float "min_lookahead_dist" .live 0.52 with positive := true },
    { float "max_lookahead_dist" .live 1 with positive := true },
    { float "lookahead_time" .live 1.6 with positive := true },
    { float "a_lat_max" .live 0.04 with positive := true },
    .float "regulated_linear_scaling_min_speed" .live 0.3,
    .float "xy_goal_tolerance" .live 0.02,
    .float "min_goal_travel_m" .idleOnly 0.5,
    .float "close_loop_threshold_m" .idleOnly 0.15,
    .float "close_loop_min_len_m" .idleOnly 1,
    { float "closed_loop_min_travel_frac" .live 0.9 with hi := lit 1 },
    .float "approach_velocity_scaling_dist" .live 0.6,
    .float "min_approach_linear_velocity" .live 0.1,
    .bool "endpoint_approach_run_remaining" .idleOnly false,
    .float "transit_merge_max_len_m" .idleOnly 2,
    .float "transit_runout_goal_tolerance_m" .live 0.1,
    .float "transit_runout_min_speed_m_s" .live 0.1,
    .bool "endpoint_capture_recover_enabled" .idleOnly true,
    .float "endpoint_capture_past_m" .live 0.02,
    .float "endpoint_capture_max_miss_m" .live 0.1,
    .bool "segment_precise_endpoint_stop_enabled" .idleOnly true,
    .float "segment_endpoint_arrival_tolerance_m" .live 0.02,
    .float "segment_endpoint_cross_tolerance_m" .live 0.02,
    .float "segment_endpoint_max_correction_m" .live 0.15,
    { float "segment_endpoint_precise_decel_m_s2" .live 0.35 with positive := true },
    .float "segment_endpoint_trigger_margin_m" .live 0.1,
    .float "segment_endpoint_creep_speed" .live 0.1,
    .float "segment_endpoint_precise_max_s" .live 8,
    .float "p4_zero_vel_threshold" .live 0.02,
    { float "pose_max_age_s" .idleOnly 0.5 with positive := true, hi := lit 2 },
    .string "path_frame_id" .restart "local_ned" [],
    .float "ekf_jump_threshold_m" .idleOnly 0.05,
    .bool "ekf_reset_compensation" .idleOnly false,
    .float "ekf_reset_max_absorb_m" .idleOnly 0.3,
    .bool "require_rtk_fix" .idleOnly true,
    { float "rtk_fix_timeout_s" .idleOnly 0.5 with positive := true, hi := lit 2 },
    .bool "rtk_require_accuracy" .idleOnly true,
    .float "rtk_max_hrms_m" .idleOnly 0.1,
    .float "rtk_recover_hold_s" .idleOnly 1,
    { int "preview_curvature_n" .live 4 with lo := lit 1, hi := lit 64 },
    .float "xtrack_lookahead_gain" .live 0.05,
    .float "smooth_lateral_gain" .live 1.5,
    .float "smooth_lateral_max_deg" .live 8,
    .float "smooth_curvature_ld_coeff" .live 0.2,
    .float "smooth_max_arc_cut_m" .live 0.005,
    .float "smooth_min_arc_ld_m" .live 0.4,
    { float "curvature_baseline_m" .live 0.15 with positive := true, hi := lit 2 },
    { float "path_resample_spacing_m" .idleOnly 0.08 with positive := true },
    .float "corner_smooth_radius_m" .idleOnly 0.5,
    { int "corner_smooth_arc_pts" .idleOnly 6 with lo := lit 1, hi := lit 64 },
    .string "tracking_profile" .idleOnly "auto" ["auto", "segment", "smooth"],
    .float "segment_corner_threshold_deg" .idleOnly 45,
    .float "segment_lookahead_cross_collinear_deg" .live 5,
    .bool "segment_endpoint_lookahead_extend" .idleOnly true,
    .bool "segment_corner_lookahead_extend" .idleOnly false,
    .float "segment_simplify_max_offset_m" .idleOnly 0.01,
    .bool "entry_prealign_enabled" .idleOnly true,
    .float "segment_slowdown_dist" .live 0.5,
    .float "segment_min_corner_speed" .live 0.12,
    .float "segment_endpoint_approach_speed" .live 0.03,
    .bool "stop_latch_enabled" .idleOnly false,
    .float "stop_latch_min_actuatable_m_s" .live 0.1,
    .float "stop_latch_capture_dist_m" .live 0.02,
    .float "stop_latch_release_dist_m" .live 0.2,
    .float "segment_corner_acceptance_radius" .live 0.05,
    .float "segment_heading_tolerance_deg" .live 2,
    .float "segment_yaw_rate_gain" .live 1.5,
    .float "segment_stop_speed_threshold" .live 0.02,
    .float "segment_stop_yaw_rate_threshold" .live 0.05,
    .float "segment_stop_dwell_s" .live 0.3,
    .bool "point_hold_enabled" .idleOnly false,
    .float "point_hold_s" .live 2,
    .float "point_hold_acceptance_m" .live 0.1,
    .bool "progress_publish_enabled" .live false,
    .float "progress_approach_dist_m" .live 0.3,
    .bool "point_precise_stop_enabled" .idleOnly false,
    .float "point_arrival_tolerance_m" .live 0.02,
    .string "precise_stop_mode" .idleOnly "feedforward" ["feedforward", "servo"],
    { float "precise_stop_decel_m_s2" .live 0.3 with positive := true },
    .float "precise_stop_creep_speed" .live 0.05,
    .float "precise_stop_max_s" .live 8,
    .bool "point_handshake_enabled" .idleOnly false,
    .string "point_execution_mode" .idleOnly "auto" ["auto", "manual"],
    .float "manual_wait_timeout_s" .live 0,
    .float "point_hold_max_s" .live 10,
    .float "segment_brake_velocity_cap_m_s" .live 0.08,
    .float "segment_align_settle_s" .live 0.2,
    .float "segment_align_speed_threshold" .live 0.02,
    .float "segment_turn_timeout_s" .live 5,
    .float "segment_timeout_heading_tolerance_deg" .live 3,
    .float "segment_pivot_spinup_margin_s" .live 1,
    .float "segment_nominal_pivot_rate_rad_s" .live 0.4,
    .float "segment_pivot_timeout_max_s" .live 9,
    .float "segment_pivot_release_max_deg" .live 3,
    .bool "pivot_to_intercept_enabled" .idleOnly true,
    .float "pivot_intercept_dist_m" .live 0.35,
    .float "connector_absorb_m" .idleOnly 0.2,
    .float "connector_min_corner_deg" .idleOnly 20,
    .bool "use_imu_extrapolation" .idleOnly false,
    .float "imu_max_extrap_age_s" .idleOnly 0.1,
    { float "pose_latency_bias_s" .idleOnly 0 with lo := -infinity },
    .bool "use_feedforward_yaw_rate" .idleOnly true,
    .float "yaw_rate_feedback_gain" .live 0,
    { float "max_yaw_rate_body" .live 0.45 with positive := true },
    { float "max_linear_accel" .live 0.2 with positive := true },
    { float "mission_speed" .live 0.6 with positive := true },
    { float "max_linear_decel" .live 0.5 with positive := true },
    .float "accel_gate_heading_full_deg" .live 2,
    .float "accel_gate_heading_none_deg" .live 5,
    .float "accel_gate_curv_full" .live 0.05,
    .float "accel_gate_curv_none" .live 0.15,
    { float "speed_cmd_decel_m_s2" .live 0.3 with positive := true },
    .float "kappa_hard_enter" .live 0.25,
    .float "kappa_hard_exit" .live 0.15,
    .float "preview_curvature_distance_m" .live 0,
    .string "segment_command_mode" .idleOnly "heading" ["heading", "rate"]
  ]

structure Item (R : Type) where
  name : String
  num : R
  str : String := ""

structure ParamSet (R : Type) where
  nums : ℕ → R
  strs : ℕ → String

namespace ParamSet

/-- The defaults of the table. -/
def defaults (table : List (Descriptor R)) : ParamSet R :=
  { nums := fun i => (table[i]?.map Descriptor.dflt).getD (lit 0)
    strs := fun i => (table[i]?.map Descriptor.sdflt).getD "" }

def num (ps : ParamSet R) (p : P) : R := ps.nums p.ctorIdx

/-- `!= 0.0`. -/
def flag (ps : ParamSet R) (p : P) : Bool := !(decide (ps.num p ≤ lit 0) && decide (lit 0 ≤ ps.num p))

/-- `integer`: saturated, then `lround`. -/
def integer (ps : ParamSet R) (p : P) : ℤ :=
  let v := ps.num p
  if ¬ ofInt (-2147483648) < v then -2147483648
  else if ¬ v < ofInt 2147483647 then 2147483647
  else toInt (if lit 0 ≤ v then v + lit 0.5 else v - lit 0.5)

def str (ps : ParamSet R) (p : P) : String := ps.strs p.ctorIdx

/-- `x == floor(x)`. -/
def integral (x : R) : Bool := decide (x ≤ -ceil (-x)) && decide (-ceil (-x) ≤ x)

/-- `validate`; the reason of the refusal, or `none`. -/
def validate (d : Descriptor R) (num : R) (str : String) : Option String :=
  match d.kind with
  | .string =>
    if d.nonempty && str = "" then some (d.name ++ " must not be empty")
    else if d.allowed ≠ [] ∧ str ∉ d.allowed then some (d.name ++ ": '" ++ str ++ "' is not an allowed value")
    else none
  | kind =>
    let equal (a b : R) : Bool := decide (a ≤ b) && decide (b ≤ a)
    if !isfinite num then some (d.name ++ " must be finite")
    else if kind = .bool ∧ !equal num (lit 0) ∧ !equal num (lit 1) then some (d.name ++ " must be a boolean")
    else if kind = .int ∧ !integral num then some (d.name ++ " must be an integer")
    else if kind = .int ∧ (num < ofInt (-2147483648) ∨ ofInt 2147483647 < num) then some (d.name ++ " out of range")
    else if kind ≠ .bool ∧ (num < d.lo ∨ d.hi < num) then some (d.name ++ " out of range")
    else if kind ≠ .bool ∧ d.positive ∧ ¬ lit 0 < num then some (d.name ++ " must be > 0")
    else none

/-- `kRelations`. -/
def relations : List (P × P × String) :=
  [(.minLinearVel, .maxLinearVel, "min_linear_vel must not exceed max_linear_vel"),
    (.minLookaheadDist, .maxLookaheadDist, "min_lookahead_dist must not exceed max_lookahead_dist"),
    (.accelGateHeadingFullDeg, .accelGateHeadingNoneDeg,
      "accel_gate_heading_full_deg must not exceed accel_gate_heading_none_deg"),
    (.accelGateCurvFull, .accelGateCurvNone, "accel_gate_curv_full must not exceed accel_gate_curv_none"),
    (.kappaHardExit, .kappaHardEnter, "kappa_hard_exit must not exceed kappa_hard_enter")]

/-- `relations_of`; the first broken relation, or `none`. -/
def relationsOf (ps : ParamSet R) : Option String :=
  (relations.find? fun r => decide (ps.num r.2.1 < ps.num r.1)).map fun r => r.2.2

def findIndex (table : List (Descriptor R)) (name : String) : Option ℕ := table.findIdx? fun d => d.name = name

/-- One item of a batch on the tentative values. -/
def setOne (table : List (Descriptor R)) (missionRunning : Bool) (ps : ParamSet R) (item : Item R) :
    Except String (ParamSet R) :=
  match findIndex table item.name with
  | none => .error ("unknown parameter " ++ item.name)
  | some i =>
    match table[i]? with
    | none => .error ("unknown parameter " ++ item.name)
    | some d =>
      if d.cls = .restart then .error (item.name ++ " is RESTART: it cannot change at runtime")
      else if d.cls = .idleOnly ∧ missionRunning then
        .error (item.name ++ " is IDLE_ONLY: refused while a mission is loaded or running")
      else match validate d item.num item.str with
        | some reason => .error reason
        | none =>
          .ok { nums := Function.update ps.nums i item.num, strs := Function.update ps.strs i item.str }

/-- `set_many`: all items or none. -/
def setMany (table : List (Descriptor R)) (missionRunning : Bool) (ps : ParamSet R) (items : List (Item R)) :
    Except String (ParamSet R) := do
  let tentative ← items.foldlM (setOne table missionRunning) ps
  match tentative.relationsOf with
  | some reason => .error reason
  | none => .ok tentative

/-- The parameters the core reads. -/
def core (ps : ParamSet R) : Params R :=
  {
    maxLinearVel := ps.num .maxLinearVel, minLinearVel := ps.num .minLinearVel,
    minLookaheadDist := ps.num .minLookaheadDist, maxLookaheadDist := ps.num .maxLookaheadDist,
    lookaheadTime := ps.num .lookaheadTime, aLatMax := ps.num .aLatMax,
    regulatedLinearScalingMinSpeed := ps.num .regulatedLinearScalingMinSpeed,
    xyGoalTolerance := ps.num .xyGoalTolerance, minGoalTravel := ps.num .minGoalTravelM,
    closedLoopMinTravelFrac := ps.num .closedLoopMinTravelFrac,
    approachVelocityScalingDist := ps.num .approachVelocityScalingDist,
    minApproachLinearVelocity := ps.num .minApproachLinearVelocity,
    endpointApproachRunRemaining := ps.flag .endpointApproachRunRemaining,
    transitRunoutGoalTolerance := ps.num .transitRunoutGoalToleranceM,
    transitRunoutMinSpeed := ps.num .transitRunoutMinSpeedMS,
    endpointCaptureRecoverEnabled := ps.flag .endpointCaptureRecoverEnabled,
    endpointCapturePast := ps.num .endpointCapturePastM, endpointCaptureMaxMiss := ps.num .endpointCaptureMaxMissM,
    segmentPreciseEndpointStopEnabled := ps.flag .segmentPreciseEndpointStopEnabled,
    segmentEndpointArrivalTolerance := ps.num .segmentEndpointArrivalToleranceM,
    segmentEndpointCrossTolerance := ps.num .segmentEndpointCrossToleranceM,
    segmentEndpointMaxCorrection := ps.num .segmentEndpointMaxCorrectionM,
    segmentEndpointPreciseDecel := ps.num .segmentEndpointPreciseDecelMS2,
    segmentEndpointTriggerMargin := ps.num .segmentEndpointTriggerMarginM,
    segmentEndpointCreepSpeed := ps.num .segmentEndpointCreepSpeed,
    segmentEndpointPreciseMax := ps.num .segmentEndpointPreciseMaxS,
    p4ZeroVelThreshold := ps.num .p4ZeroVelThreshold, poseMaxAge := ps.num .poseMaxAgeS,
    ekfJumpThreshold := ps.num .ekfJumpThresholdM, ekfResetCompensation := ps.flag .ekfResetCompensation,
    ekfResetMaxAbsorb := ps.num .ekfResetMaxAbsorbM, requireRtkFix := ps.flag .requireRtkFix,
    rtkFixTimeout := ps.num .rtkFixTimeoutS, rtkRequireAccuracy := ps.flag .rtkRequireAccuracy,
    rtkMaxHrms := ps.num .rtkMaxHrmsM, rtkRecoverHold := ps.num .rtkRecoverHoldS,
    previewCurvatureN := (ps.integer .previewCurvatureN).toNat, xtrackLookaheadGain := ps.num .xtrackLookaheadGain,
    smoothLateralGain := ps.num .smoothLateralGain, smoothLateralMaxDeg := ps.num .smoothLateralMaxDeg,
    smoothCurvatureLdCoeff := ps.num .smoothCurvatureLdCoeff, smoothMaxArcCut := ps.num .smoothMaxArcCutM,
    smoothMinArcLd := ps.num .smoothMinArcLdM, curvatureBaseline := ps.num .curvatureBaselineM,
    segmentCornerThresholdDeg := ps.num .segmentCornerThresholdDeg,
    segmentLookaheadCrossCollinearDeg := ps.num .segmentLookaheadCrossCollinearDeg,
    segmentEndpointLookaheadExtend := ps.flag .segmentEndpointLookaheadExtend,
    segmentCornerLookaheadExtend := ps.flag .segmentCornerLookaheadExtend,
    entryPrealignEnabled := ps.flag .entryPrealignEnabled, segmentSlowdownDist := ps.num .segmentSlowdownDist,
    segmentMinCornerSpeed := ps.num .segmentMinCornerSpeed,
    segmentEndpointApproachSpeed := ps.num .segmentEndpointApproachSpeed,
    stopLatchEnabled := ps.flag .stopLatchEnabled, stopLatchMinActuatable := ps.num .stopLatchMinActuatableMS,
    stopLatchCaptureDist := ps.num .stopLatchCaptureDistM, stopLatchReleaseDist := ps.num .stopLatchReleaseDistM,
    segmentCornerAcceptanceRadius := ps.num .segmentCornerAcceptanceRadius,
    segmentHeadingToleranceDeg := ps.num .segmentHeadingToleranceDeg,
    segmentYawRateGain := ps.num .segmentYawRateGain, segmentStopSpeedThreshold := ps.num .segmentStopSpeedThreshold,
    segmentStopYawRateThreshold := ps.num .segmentStopYawRateThreshold,
    segmentStopDwell := ps.num .segmentStopDwellS, pointHoldEnabled := ps.flag .pointHoldEnabled,
    segmentBrakeVelocityCap := ps.num .segmentBrakeVelocityCapMS, segmentAlignSettle := ps.num .segmentAlignSettleS,
    segmentAlignSpeedThreshold := ps.num .segmentAlignSpeedThreshold,
    segmentTurnTimeout := ps.num .segmentTurnTimeoutS,
    segmentTimeoutHeadingToleranceDeg := ps.num .segmentTimeoutHeadingToleranceDeg,
    segmentPivotSpinupMargin := ps.num .segmentPivotSpinupMarginS,
    segmentNominalPivotRate := ps.num .segmentNominalPivotRateRadS,
    segmentPivotTimeoutMax := ps.num .segmentPivotTimeoutMaxS,
    segmentPivotReleaseMaxDeg := ps.num .segmentPivotReleaseMaxDeg,
    pivotToInterceptEnabled := ps.flag .pivotToInterceptEnabled, pivotInterceptDist := ps.num .pivotInterceptDistM,
    useImuExtrapolation := ps.flag .useImuExtrapolation, imuMaxExtrapAge := ps.num .imuMaxExtrapAgeS,
    poseLatencyBias := ps.num .poseLatencyBiasS, useFeedforwardYawRate := ps.flag .useFeedforwardYawRate,
    yawRateFeedbackGain := ps.num .yawRateFeedbackGain, maxYawRateBody := ps.num .maxYawRateBody,
    maxLinearAccel := ps.num .maxLinearAccel, missionSpeed := ps.num .missionSpeed,
    maxLinearDecel := ps.num .maxLinearDecel, accelGateHeadingFullDeg := ps.num .accelGateHeadingFullDeg,
    accelGateHeadingNoneDeg := ps.num .accelGateHeadingNoneDeg, accelGateCurvFull := ps.num .accelGateCurvFull,
    accelGateCurvNone := ps.num .accelGateCurvNone, speedCmdDecel := ps.num .speedCmdDecelMS2,
    kappaHardEnter := ps.num .kappaHardEnter, kappaHardExit := ps.num .kappaHardExit,
    previewCurvatureDistance := ps.num .previewCurvatureDistanceM,
    segmentCommandMode := if ps.str .segmentCommandMode = "rate" then .rate else .heading }

variable {table : List (Descriptor R)} {ps ps' : ParamSet R} {i : ℕ} {d : Descriptor R}

theorem setOne_idle {item : Item R} (at' : table[i]? = some d) (idle : d.cls = .idleOnly)
    (set : setOne table true ps item = .ok ps') : ps'.nums i = ps.nums i := by
  simp only [setOne] at set
  split at set
  · cases set
  · rename_i j found
    split at set
    · cases set
    · rename_i d' here
      split at set
      · cases set
      split at set
      · cases set
      · rename_i other
        split at set
        · cases set
        · injection set with set
          rw [← set]
          refine Function.update_of_ne ?_ _ _
          rintro rfl
          rw [here] at at'
          injection at' with same
          exact other ⟨same ▸ idle, trivial⟩

/-- While a mission runs no batch touches an `IDLE_ONLY` parameter. -/
theorem setMany_idle {items : List (Item R)} (at' : table[i]? = some d) (idle : d.cls = .idleOnly)
    (set : setMany table true ps items = .ok ps') : ps'.nums i = ps.nums i := by
  have folded : ∀ (items : List (Item R)) (ps : ParamSet R) {ps' : ParamSet R},
      items.foldlM (setOne table true) ps = .ok ps' → ps'.nums i = ps.nums i := by
    intro items
    induction items with
    | nil =>
      intro ps ps' all
      injection all with same
      rw [same]
    | cons item items ih =>
      intro ps ps' all
      rw [List.foldlM_cons] at all
      cases first : setOne table true ps item with
      | error reason =>
        rw [first] at all
        cases all
      | ok mid =>
        rw [first] at all
        exact (ih mid all).trans (setOne_idle at' idle first)
  simp only [setMany] at set
  cases all : items.foldlM (setOne table true) ps with
  | error reason =>
    rw [all] at set
    cases set
  | ok tentative =>
    rw [all] at set
    have same : tentative = ps' := by
      simp only [bind, Except.bind] at set
      split at set
      · cases set
      · injection set
    exact same ▸ folded items ps all

end ParamSet

end Dyx3.RppCore
