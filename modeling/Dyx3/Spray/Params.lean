import Mathlib.Algebra.Order.Floor.Ring
import Mathlib.Data.Rat.Floor
import Dyx3.Lib.Flt

/-!
`ParamSet` (dyx3_spray/spray_params): the parameters of the spray node with their class and bounds. A batch is
applied as a whole or not at all; the journal of changes is left out, nothing reads it.
-/

namespace Dyx3.Spray

open Lib

inductive Kind where
  | bool | int | float | string
  deriving DecidableEq, Repr

inductive ParamClass where
  | live | idleOnly | restart
  deriving DecidableEq, Repr

inductive P where
  | sprayEntryMaxHeadingDeg | sprayEntryReleaseTravelM | sprayHeadingCutDeg | actuatorSetIndex | onValue
  | offValue | flowModulationEnabled | minFlowValue | ratedMarkingSpeedMps | maxFlowSlewPerS | debounceSamples
  | reassertHz | requireOffboard | manualOverrideTimeoutS | sprayWatchdogRequired | sprayWatchdogTimeoutS
  | nozzleForwardOffsetM | nozzleLateralOffsetM | solenoidOpenDelayS | solenoidCloseDelayS
  | anticipatoryMarginM | onOversprayMarginM | offOversprayMarginM | terminalOffEpsilonM | terminalOffSpeedMps
  | minSpraySpeedMps | sprayOffDuringPivot | segmentStateTimeoutS | maxXtrackErrorM | xtrackTripErrorM
  | xtrackGateMinOffS | projectionWindowBackM | projectionWindowFwdM | projectionReacquireDistM
  | projectionDirectionGateDeg | poseTimeoutS | velocityTimeoutS | sprayRequireRtkFix | sprayMinFixType
  | gpsFixTimeoutS | gpsRecoverHoldS | sprayRequireAccuracy | sprayMaxHrmsM | actuatorBackend | servoInstance
  | offPwmUs | onPwmUs | sprayEnabled | rppTimeoutS
  deriving DecidableEq, Repr

/-- An absent bound is an infinity, as in the table of the source. -/
structure Descriptor where
  name : String
  kind : Kind
  cls : ParamClass
  dflt : Flt := .fin 0
  sdflt : String := ""
  lo : Flt := .inf true
  hi : Flt := .inf false
  positive : Bool := false
  nonempty : Bool := false
  allowed : List String := []

def descriptor : P → Descriptor
  | .sprayEntryMaxHeadingDeg =>
    { name := "spray_entry_max_heading_deg", kind := .float, cls := .idleOnly, dflt := .fin 5, lo := .fin 0 }
  | .sprayEntryReleaseTravelM =>
    { name := "spray_entry_release_travel_m", kind := .float, cls := .idleOnly, dflt := .fin (3 / 5), lo := .fin 0 }
  | .sprayHeadingCutDeg =>
    { name := "spray_heading_cut_deg", kind := .float, cls := .idleOnly, dflt := .fin 30, lo := .fin 0 }
  | .actuatorSetIndex =>
    { name := "actuator_set_index", kind := .int, cls := .idleOnly, dflt := .fin 1, lo := .fin 1, hi := .fin 6 }
  | .onValue =>
    { name := "on_value", kind := .float, cls := .idleOnly, dflt := .fin 1, lo := .fin (-1), hi := .fin 1 }
  | .offValue =>
    { name := "off_value", kind := .float, cls := .idleOnly, dflt := .fin (-1), lo := .fin (-1), hi := .fin 1 }
  | .flowModulationEnabled => { name := "flow_modulation_enabled", kind := .bool, cls := .idleOnly, dflt := .fin 0 }
  | .minFlowValue =>
    { name := "min_flow_value", kind := .float, cls := .idleOnly, dflt := .fin (1 / 5), lo := .fin (-1), hi := .fin 1 }
  | .ratedMarkingSpeedMps =>
    { name := "rated_marking_speed_mps", kind := .float, cls := .idleOnly, dflt := .fin (7 / 20), lo := .fin 0, positive := true }
  | .maxFlowSlewPerS =>
    { name := "max_flow_slew_per_s", kind := .float, cls := .idleOnly, dflt := .fin 2, lo := .fin 0 }
  | .debounceSamples =>
    { name := "debounce_samples", kind := .int, cls := .idleOnly, dflt := .fin 3, lo := .fin 0, hi := .fin 100 }
  | .reassertHz =>
    { name := "reassert_hz", kind := .float, cls := .idleOnly, dflt := .fin 2, lo := .fin 0, positive := true }
  | .requireOffboard => { name := "require_offboard", kind := .bool, cls := .idleOnly, dflt := .fin 1 }
  | .manualOverrideTimeoutS =>
    { name := "manual_override_timeout_s", kind := .float, cls := .idleOnly, dflt := .fin 10, lo := .fin 0, positive := true }
  | .sprayWatchdogRequired => { name := "spray_watchdog_required", kind := .bool, cls := .restart, dflt := .fin 1 }
  | .sprayWatchdogTimeoutS =>
    { name := "spray_watchdog_timeout_s", kind := .float, cls := .restart, dflt := .fin 1, lo := .fin 0, positive := true }
  | .nozzleForwardOffsetM =>
    { name := "nozzle_forward_offset_m", kind := .float, cls := .idleOnly, dflt := .fin 0, lo := .fin 0 }
  | .nozzleLateralOffsetM =>
    { name := "nozzle_lateral_offset_m", kind := .float, cls := .idleOnly, dflt := .fin 0, lo := .fin 0 }
  | .solenoidOpenDelayS =>
    { name := "solenoid_open_delay_s", kind := .float, cls := .idleOnly, dflt := .fin (9 / 50), lo := .fin 0 }
  | .solenoidCloseDelayS =>
    { name := "solenoid_close_delay_s", kind := .float, cls := .idleOnly, dflt := .fin (1 / 20), lo := .fin 0 }
  | .anticipatoryMarginM =>
    { name := "anticipatory_margin_m", kind := .float, cls := .idleOnly, dflt := .fin (1 / 50), lo := .fin 0 }
  | .onOversprayMarginM =>
    { name := "on_overspray_margin_m", kind := .float, cls := .idleOnly, dflt := .fin (1 / 50), lo := .fin 0 }
  | .offOversprayMarginM =>
    { name := "off_overspray_margin_m", kind := .float, cls := .idleOnly, dflt := .fin 0, lo := .fin 0 }
  | .terminalOffEpsilonM =>
    { name := "terminal_off_epsilon_m", kind := .float, cls := .idleOnly, dflt := .fin (1 / 20), lo := .fin 0 }
  | .terminalOffSpeedMps =>
    { name := "terminal_off_speed_mps", kind := .float, cls := .idleOnly, dflt := .fin (1 / 20), lo := .fin 0 }
  | .minSpraySpeedMps =>
    { name := "min_spray_speed_mps", kind := .float, cls := .idleOnly, dflt := .fin (1 / 20), lo := .fin 0 }
  | .sprayOffDuringPivot => { name := "spray_off_during_pivot", kind := .bool, cls := .idleOnly, dflt := .fin 1 }
  | .segmentStateTimeoutS =>
    { name := "segment_state_timeout_s", kind := .float, cls := .idleOnly, dflt := .fin 1, lo := .fin 0 }
  | .maxXtrackErrorM =>
    { name := "max_xtrack_error_m", kind := .float, cls := .idleOnly, dflt := .fin (1 / 20), lo := .fin 0 }
  | .xtrackTripErrorM =>
    { name := "xtrack_trip_error_m", kind := .float, cls := .idleOnly, dflt := .fin (2 / 25), lo := .fin 0 }
  | .xtrackGateMinOffS =>
    { name := "xtrack_gate_min_off_s", kind := .float, cls := .idleOnly, dflt := .fin (1 / 5), lo := .fin 0 }
  | .projectionWindowBackM =>
    { name := "projection_window_back_m", kind := .float, cls := .idleOnly, dflt := .fin (1 / 2), lo := .fin 0 }
  | .projectionWindowFwdM =>
    { name := "projection_window_fwd_m", kind := .float, cls := .idleOnly, dflt := .fin 2, lo := .fin 0 }
  | .projectionReacquireDistM =>
    { name := "projection_reacquire_dist_m", kind := .float, cls := .idleOnly, dflt := .fin 1, lo := .fin 0 }
  | .projectionDirectionGateDeg =>
    { name := "projection_direction_gate_deg", kind := .float, cls := .idleOnly, dflt := .fin 0, lo := .fin 0 }
  | .poseTimeoutS =>
    { name := "pose_timeout_s", kind := .float, cls := .idleOnly, dflt := .fin (1 / 2), lo := .fin 0, positive := true }
  | .velocityTimeoutS =>
    { name := "velocity_timeout_s", kind := .float, cls := .idleOnly, dflt := .fin (1 / 2), lo := .fin 0, positive := true }
  | .sprayRequireRtkFix => { name := "spray_require_rtk_fix", kind := .bool, cls := .idleOnly, dflt := .fin 1 }
  | .sprayMinFixType =>
    { name := "spray_min_fix_type", kind := .int, cls := .idleOnly, dflt := .fin 6, lo := .fin 5, hi := .fin 6 }
  | .gpsFixTimeoutS =>
    { name := "gps_fix_timeout_s", kind := .float, cls := .idleOnly, dflt := .fin (1 / 2), lo := .fin 0, positive := true }
  | .gpsRecoverHoldS =>
    { name := "gps_recover_hold_s", kind := .float, cls := .idleOnly, dflt := .fin 1, lo := .fin 0 }
  | .sprayRequireAccuracy => { name := "spray_require_accuracy", kind := .bool, cls := .idleOnly, dflt := .fin 1 }
  | .sprayMaxHrmsM =>
    { name := "spray_max_hrms_m", kind := .float, cls := .idleOnly, dflt := .fin (1 / 10), lo := .fin 0 }
  | .actuatorBackend =>
    { name := "actuator_backend", kind := .string, cls := .restart, dflt := .fin 0, nonempty := true, sdflt := "mavlink_actuator", allowed := ["mavlink_actuator", "mavlink_servo_pwm"] }
  | .servoInstance =>
    { name := "servo_instance", kind := .int, cls := .restart, dflt := .fin 1, lo := .fin 1, hi := .fin 16 }
  | .offPwmUs =>
    { name := "off_pwm_us", kind := .int, cls := .idleOnly, dflt := .fin 0, lo := .fin 0, hi := .fin 2200 }
  | .onPwmUs =>
    { name := "on_pwm_us", kind := .int, cls := .idleOnly, dflt := .fin 1800, lo := .fin 0, hi := .fin 2200 }
  | .sprayEnabled => { name := "spray_enabled", kind := .bool, cls := .idleOnly, dflt := .fin 1 }
  | .rppTimeoutS =>
    { name := "rpp_timeout_s", kind := .float, cls := .idleOnly, dflt := .fin (1 / 2), lo := .fin 0, positive := true }

def P.all : List P := [
  .sprayEntryMaxHeadingDeg, .sprayEntryReleaseTravelM, .sprayHeadingCutDeg, .actuatorSetIndex, .onValue,
  .offValue, .flowModulationEnabled, .minFlowValue, .ratedMarkingSpeedMps, .maxFlowSlewPerS, .debounceSamples,
  .reassertHz, .requireOffboard, .manualOverrideTimeoutS, .sprayWatchdogRequired, .sprayWatchdogTimeoutS,
  .nozzleForwardOffsetM, .nozzleLateralOffsetM, .solenoidOpenDelayS, .solenoidCloseDelayS,
  .anticipatoryMarginM, .onOversprayMarginM, .offOversprayMarginM, .terminalOffEpsilonM, .terminalOffSpeedMps,
  .minSpraySpeedMps, .sprayOffDuringPivot, .segmentStateTimeoutS, .maxXtrackErrorM, .xtrackTripErrorM,
  .xtrackGateMinOffS, .projectionWindowBackM, .projectionWindowFwdM, .projectionReacquireDistM,
  .projectionDirectionGateDeg, .poseTimeoutS, .velocityTimeoutS, .sprayRequireRtkFix, .sprayMinFixType,
  .gpsFixTimeoutS, .gpsRecoverHoldS, .sprayRequireAccuracy, .sprayMaxHrmsM, .actuatorBackend, .servoInstance,
  .offPwmUs, .onPwmUs, .sprayEnabled, .rppTimeoutS]

def findIndex (name : String) : Option P := P.all.find? fun i => (descriptor i).name = name

structure Item where
  name : String
  num : Flt := .fin 0
  str : String := ""
  deriving DecidableEq

structure ParamSet where
  num : P → Flt := fun i => (descriptor i).dflt
  str : P → String := fun i => (descriptor i).sdflt

/-- Why a value does not fit its descriptor; none when it does. -/
def validate (d : Descriptor) (num : Flt) (str : String) : Option String :=
  if d.kind = .string then
    if d.nonempty && str.isEmpty then some (d.name ++ " must not be empty")
    else if !d.allowed.isEmpty && !d.allowed.contains str then
      some (d.name ++ ": '" ++ str ++ "' is not an allowed value")
    else none
  else match num with
    | .fin x =>
      if d.kind = .bool ∧ x ≠ 0 ∧ x ≠ 1 then some (d.name ++ " must be a boolean")
      else if d.kind = .int ∧ x ≠ ⌊x⌋ then some (d.name ++ " must be an integer")
      else if d.kind ≠ .bool ∧ (.fin x < d.lo ∨ d.hi < .fin x) then some (d.name ++ " out of range")
      else if d.kind ≠ .bool ∧ d.positive = true ∧ ¬ 0 < x then some (d.name ++ " must be > 0")
      else none
    | _ => some (d.name ++ " must be finite")

namespace ParamSet

def flag (p : ParamSet) (i : P) : Bool := !(p.num i).same (.fin 0)

/-- `llround`: half away from zero. The values are finite, see `validate`. -/
def integer (p : ParamSet) (i : P) : Int :=
  match p.num i with
  | .fin x => if 0 ≤ x then ⌊x + 1 / 2⌋ else ⌈x - 1 / 2⌉
  | _ => 0

def put (p : ParamSet) (i : P) (it : Item) : ParamSet where
  num j := if j = i then it.num else p.num j
  str j := if j = i then it.str else p.str j

/-- The items one after the other; `refuse` is the class rule. -/
def apply (refuse : P → Item → Option String) (p : ParamSet) : List Item → Except String ParamSet
  | [] => .ok p
  | it :: rest =>
    match findIndex it.name with
    | none => .error ("unknown parameter " ++ it.name)
    | some i =>
      match refuse i it with
      | some why => .error why
      | none =>
        match validate (descriptor i) it.num it.str with
        | some why => .error why
        | none => apply refuse (p.put i it) rest

/-- The startup load: no class rule. -/
def initMany (p : ParamSet) (items : List Item) : Except String ParamSet := p.apply (fun _ _ => none) items

def classRule (missionRunning : Bool) (i : P) (it : Item) : Option String :=
  if (descriptor i).cls = .restart then some (it.name ++ " is RESTART: it cannot change at runtime")
  else if (descriptor i).cls = .idleOnly ∧ missionRunning = true then
    some (it.name ++ " is IDLE_ONLY: refused while a mission is running")
  else none

def setMany (p : ParamSet) (items : List Item) (missionRunning : Bool) : Except String ParamSet :=
  p.apply (classRule missionRunning) items

/-- Every default passes its own check. -/
theorem defaults_valid (i : P) : validate (descriptor i) (({} : ParamSet).num i) (({} : ParamSet).str i) = none := by
  cases i
  all_goals decide +kernel

theorem findIndex_name {name : String} {i : P} (found : findIndex name = some i) : (descriptor i).name = name := by
  simpa using List.find?_some found

variable {refuse : P → Item → Option String} {p q : ParamSet} {items : List Item}

/-- An accepted batch changes a parameter only by one of its items, which the class rule and the check let through. -/
theorem apply_origin (accepted : p.apply refuse items = .ok q) (i : P) :
    (q.num i = p.num i ∧ q.str i = p.str i) ∨
    ∃ it ∈ items, it.name = (descriptor i).name ∧ refuse i it = none ∧ q.num i = it.num ∧ q.str i = it.str ∧
      validate (descriptor i) it.num it.str = none := by
  induction items generalizing p with
  | nil =>
    obtain rfl := Except.ok.inj accepted
    exact .inl ⟨rfl, rfl⟩
  | cons it rest ih =>
    unfold apply at accepted
    split at accepted
    · cases accepted
    rename_i j found
    split at accepted
    · cases accepted
    rename_i allowed
    split at accepted
    · cases accepted
    rename_i valid
    rcases ih accepted with ⟨num, str⟩ | ⟨other, member, facts⟩
    · by_cases same : i = j
      · subst same
        refine .inr ⟨it, List.mem_cons_self, (findIndex_name found).symm, allowed, ?_, ?_, valid⟩
        · simpa [put] using num
        · simpa [put] using str
      · refine .inl ⟨?_, ?_⟩
        · simpa [put, same] using num
        · simpa [put, same] using str
    · exact .inr ⟨other, List.mem_cons_of_mem it member, facts⟩

theorem setMany_restart {running : Bool} (accepted : p.setMany items running = .ok q) {i : P}
    (restart : (descriptor i).cls = .restart) : q.num i = p.num i ∧ q.str i = p.str i := by
  rcases apply_origin accepted i with same | ⟨it, _, _, allowed, _⟩
  · exact same
  · simp [classRule, restart] at allowed

theorem setMany_running (accepted : p.setMany items true = .ok q) {i : P} (idleOnly : (descriptor i).cls = .idleOnly) :
    q.num i = p.num i ∧ q.str i = p.str i := by
  rcases apply_origin accepted i with same | ⟨it, _, _, allowed, _⟩
  · exact same
  · simp [classRule, idleOnly] at allowed

end ParamSet

end Dyx3.Spray
