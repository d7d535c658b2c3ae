import Dyx3.MotionGuard.FailToZero
import Dyx3.Px4Link.RoverSetpoint

/-!
From the motion guard to px4_link: both sides check the contract of `MotionSetpoint` on their own, and what the guard
sends passes the check of the link unchanged.
-/

namespace Dyx3.System

open Lib MotionGuard Px4Link
open RoverSetpoint hiding Mode Command

/-- The wire value of a guard mode. -/
def wire : Mode → Nat
  | .stop => 0
  | .trackHeading => 1
  | .trackRate => 2
  | .pivot => 3
  | .creep => 4

/-- The command the link reads from the message the guard publishes for a decision. -/
def sent (m : Motion) (seq sampleUs : Nat) : RoverSetpoint.Command :=
  { seq, mode := wire m.mode, speedBodyX := m.speedBodyX, yawSetpoint := m.yawSetpoint
    yawRateSetpoint := m.yawRateSetpoint, valid := true, sourcePoseSampleUs := sampleUs }

/-- A command of the guard's own input, as the link would read it. -/
def relayed (c : Command) (sampleUs : Nat) : RoverSetpoint.Command :=
  { seq := c.seq, mode := c.mode, speedBodyX := c.speedBodyX, yawSetpoint := c.yawSetpoint
    yawRateSetpoint := c.yawRateSetpoint, valid := c.valid, sourcePoseSampleUs := sampleUs }

/-- The setpoint says what the motion says. -/
structure Carries (m : Motion) (s : Setpoint) : Prop where
  mode : s.mode.wire = wire m.mode
  speed : s.speedBodyX = m.speedBodyX
  yaw : s.yawSetpoint = m.yawSetpoint
  yawRate : s.yawRateSetpoint = m.yawRateSetpoint

/-- The two checks accept the same commands. -/
theorem commandIsValid_iff_validate (c : Command) (sampleUs : Nat) :
    commandIsValid c = true ↔ validate (relayed c sampleUs) = .ok := by
  obtain ⟨seq, mode, speed, yaw, rate, valid, sample⟩ := c
  simp only [commandIsValid, validate, relayed]
  cases valid with
  | false => simp
  | true =>
    rcases mode with _ | _ | _ | _ | _ | mode
    case succ.succ.succ.succ.succ => simp [MotionGuard.Mode.ofWire, RoverSetpoint.Mode.ofWire]
    all_goals
      simp only [MotionGuard.Mode.ofWire, RoverSetpoint.Mode.ofWire]
      grind

/-- What the contract asks of a motion, mode by mode. -/
def Conforms (m : Motion) : Prop :=
  match m.mode with
  | .stop => m = canonicalStop
  | .trackHeading => m.speedBodyX.isFinite = true ∧ m.yawSetpoint.isFinite = true ∧ m.yawRateSetpoint = .nan
  | .trackRate | .creep => m.speedBodyX.isFinite = true ∧ m.yawSetpoint = .nan ∧ m.yawRateSetpoint.isFinite = true
  | .pivot => m.speedBodyX = .fin 0 ∧ m.yawSetpoint = .nan ∧ m.yawRateSetpoint.isFinite = true

theorem conforms_accepted {m : Motion} (conforms : Conforms m) (seq sampleUs : Nat) :
    validate (sent m seq sampleUs) = .ok ∧ Carries m (toSetpoint (sent m seq sampleUs)) := by
  have accepted : validate (sent m seq sampleUs) = .ok := by
    obtain ⟨mode, speed, yaw, rate⟩ := m
    cases mode with
    | stop => rfl
    | trackHeading =>
      obtain ⟨speedFinite, yawFinite, rfl⟩ := conforms
      simp [validate, sent, wire, RoverSetpoint.Mode.ofWire, speedFinite, yawFinite, Flt.isNan]
    | trackRate | creep =>
      obtain ⟨speedFinite, rfl, rateFinite⟩ := conforms
      simp [validate, sent, wire, RoverSetpoint.Mode.ofWire, speedFinite, rateFinite, Flt.isNan]
    | pivot =>
      obtain ⟨rfl, rfl, rateFinite⟩ := conforms
      have still : (Flt.fin 0).isFinite = true := rfl
      simp [validate, sent, wire, RoverSetpoint.Mode.ofWire, rateFinite, still, Flt.isNan, Flt.same]
  refine ⟨accepted, ?_⟩
  rw [toSetpoint, if_neg (not_not.mpr accepted)]
  obtain ⟨mode, speed, yaw, rate⟩ := m
  cases mode with
  | stop =>
    cases conforms
    exact ⟨rfl, rfl, rfl, rfl⟩
  | trackHeading =>
    obtain ⟨_, _, rfl⟩ := conforms
    exact ⟨rfl, rfl, rfl, rfl⟩
  | trackRate | creep =>
    obtain ⟨_, rfl, _⟩ := conforms
    exact ⟨rfl, rfl, rfl, rfl⟩
  | pivot =>
    obtain ⟨rfl, rfl, _⟩ := conforms
    exact ⟨rfl, rfl, rfl, rfl⟩

/-! ### The limits keep a motion inside the contract -/

section Limits

variable {lim : Limits} {st : LimitState} {dt : Flt} {m : Motion}

/-- The state of the shaper holds numbers. -/
structure Numbers (st : LimitState) : Prop where
  speed : st.lastSpeed.isFinite = true
  accel : st.lastAccel.isFinite = true
  rate : st.lastRate.isFinite = true

theorem envelope_finite {v lo hi : Flt} (value : v.isFinite = true) (low : lo.isFinite = true) (high : hi.isFinite = true) :
    (envelope v lo hi).1.isFinite = true := by
  obtain ⟨x, rfl⟩ := Flt.isFinite_iff.mp value
  obtain ⟨y, rfl⟩ := Flt.isFinite_iff.mp low
  obtain ⟨z, rfl⟩ := Flt.isFinite_iff.mp high
  rw [Guard.envelope_fin]
  rfl

theorem stepFrom_finite {v target accel decel : Flt} (speed : v.isFinite = true) (goal : target.isFinite = true)
    (time : dt.isFinite = true) (up : accel.isFinite = true) (down : decel.isFinite = true) (positive : .fin 0 < decel) :
    (stepFrom v target dt accel decel).isFinite = true := by
  have rise := Flt.finite_mul up time
  have fall := Flt.finite_mul down time
  have crossing := Flt.finite_div speed down positive
  refine Flt.finite_ite (Flt.finite_ite (Flt.finite_min goal rise) (Flt.finite_ite (Flt.finite_max goal ?_) rfl)) ?_
  · exact Flt.finite_mul (Flt.finite_neg up) time
  refine Flt.finite_ite (Flt.finite_min goal (Flt.finite_add speed rise)) ?_
  refine Flt.finite_ite (Flt.finite_max goal (Flt.finite_sub speed fall)) ?_
  refine Flt.finite_ite (Flt.finite_sub speed fall) (Flt.finite_max goal ?_)
  exact Flt.finite_mul (Flt.finite_neg up) (Flt.finite_sub time crossing)

theorem stepToward_finite {v target accel decel : Flt} (speed : v.isFinite = true) (goal : target.isFinite = true)
    (time : dt.isFinite = true) (up : accel.isFinite = true) (down : decel.isFinite = true) (positive : .fin 0 < decel) :
    (stepToward v target dt accel decel).isFinite = true := by
  refine Flt.finite_ite (Flt.finite_neg ?_) (stepFrom_finite speed goal time up down positive)
  exact stepFrom_finite (Flt.finite_neg speed) (Flt.finite_neg goal) time up down positive

/-- What a valid configuration says of every limit. -/
structure Sound (lim : Limits) : Prop where
  forward : lim.maxForwardSpeed.isFinite = true ∧ .fin 0 < lim.maxForwardSpeed
  reverse : lim.maxReverseSpeed.isFinite = true ∧ .fin 0 ≤ lim.maxReverseSpeed
  yaw : lim.maxYawRate.isFinite = true
  accel : lim.maxAccel.isFinite = true
  decel : lim.maxDecel.isFinite = true ∧ .fin 0 < lim.maxDecel
  yawAccel : lim.maxYawAccel.isNan = false → lim.maxYawAccel.isFinite = true
  jerk : lim.maxJerk.isNan = false → lim.maxJerk.isFinite = true

theorem limitsValid_sound (valid : limitsValid lim = true) : Sound lim := by
  simp only [limitsValid, Bool.and_eq_true, Bool.or_eq_true, decide_eq_true_eq] at valid
  obtain ⟨⟨⟨⟨⟨⟨⟨forward, reverse⟩, still⟩, yaw⟩, accel⟩, decel⟩, yawAccel⟩, jerk⟩ := valid
  refine ⟨forward, ⟨reverse, still⟩, yaw.1, accel.1, decel, fun number => ?_, fun number => ?_⟩
  · exact (yawAccel.resolve_left (by rw [number]; exact Bool.false_ne_true)).1
  · exact (jerk.resolve_left (by rw [number]; exact Bool.false_ne_true)).1

theorem shapeSpeed_finite (mode : Mode) {v : Flt} (sound : Sound lim) (numbers : Numbers st) (speed : v.isFinite = true)
    (time : dt.isFinite = true) :
    (shapeSpeed mode v dt lim st).1.isFinite = true ∧ (mode = .pivot → (shapeSpeed mode v dt lim st).1 = .fin 0) ∧
      Numbers (shapeSpeed mode v dt lim st).2.2 := by
  unfold shapeSpeed
  by_cases pivot : mode = .pivot
  · rw [if_pos pivot]
    exact ⟨rfl, fun _ => rfl, rfl, rfl, numbers.rate⟩
  rw [if_neg pivot]
  have ramped := stepToward_finite numbers.speed speed time sound.accel sound.decel.1 sound.decel.2
  generalize stepToward st.lastSpeed v dt lim.maxAccel lim.maxDecel = nv at ramped
  have jerked : (if (!lim.maxJerk.isNan && decide (.fin 0 < dt)) = true then
      st.lastSpeed + Flt.clamp ((nv - st.lastSpeed) / dt) (st.lastAccel - lim.maxJerk * dt) (st.lastAccel + lim.maxJerk * dt) * dt
      else nv).isFinite = true := by
    split
    · rename_i limited
      simp only [Bool.and_eq_true, Bool.not_eq_true', decide_eq_true_eq] at limited
      have change := Flt.finite_mul (sound.jerk limited.1) time
      have wanted := Flt.finite_div (Flt.finite_sub ramped numbers.speed) time limited.2
      refine Flt.finite_add numbers.speed (Flt.finite_mul (Flt.finite_clamp wanted ?_ ?_) time)
      · exact Flt.finite_sub numbers.accel change
      · exact Flt.finite_add numbers.accel change
    · exact ramped
  dsimp only
  generalize (if (!lim.maxJerk.isNan && decide (.fin 0 < dt)) = true then
      st.lastSpeed + Flt.clamp ((nv - st.lastSpeed) / dt) (st.lastAccel - lim.maxJerk * dt) (st.lastAccel + lim.maxJerk * dt) * dt
      else nv) = final at jerked ⊢
  refine ⟨jerked, fun same => absurd same pivot, jerked, ?_, numbers.rate⟩
  dsimp only
  split
  · exact Flt.finite_div (Flt.finite_sub jerked numbers.speed) time ‹_›
  · rfl

theorem shapeRate_finite {mode : Mode} {r : Flt} (sound : Sound lim) (numbers : Numbers st)
    (rate : usesRate mode = true → r.isFinite = true) (time : dt.isFinite = true) :
    (usesRate mode = true → (shapeRate mode r dt lim st).1.isFinite = true) ∧ Numbers (shapeRate mode r dt lim st).2.2 := by
  unfold shapeRate
  cases uses : usesRate mode with
  | false => exact ⟨fun no => (by cases no), numbers.speed, numbers.accel, rfl⟩
  | true =>
    have rate := rate uses
    simp only [if_true]
    cases free : lim.maxYawAccel.isNan with
    | true => exact ⟨fun _ => rate, numbers.speed, numbers.accel, rate⟩
    | false =>
      have step := Flt.finite_mul (sound.yawAccel free) time
      have bent := Flt.finite_clamp rate (Flt.finite_sub numbers.rate step) (Flt.finite_add numbers.rate step)
      exact ⟨fun _ => bent, numbers.speed, numbers.accel, bent⟩

/-- A motion that keeps its heading, with a finite speed (none in a pivot) and a rate the mode asks for. -/
theorem Conforms.moved (conforms : Conforms m) (moving : m.mode ≠ .stop) {v r : Flt} (speed : v.isFinite = true)
    (still : m.mode = .pivot → v = .fin 0) (rate : usesRate m.mode = true → r.isFinite = true) :
    Conforms { m with speedBodyX := v, yawRateSetpoint := if usesRate m.mode then r else m.yawRateSetpoint } := by
  obtain ⟨mode, speed', yaw, rate'⟩ := m
  cases mode with
  | stop => exact absurd rfl moving
  | trackHeading => exact ⟨speed, conforms.2.1, conforms.2.2⟩
  | trackRate | creep => exact ⟨speed, conforms.2.1, rate rfl⟩
  | pivot => exact ⟨still rfl, conforms.2.1, rate rfl⟩

theorem Conforms.speed (conforms : Conforms m) (moving : m.mode ≠ .stop) :
    m.speedBodyX.isFinite = true ∧ (m.mode = .pivot → m.speedBodyX = .fin 0) ∧
      (usesRate m.mode = true → m.yawRateSetpoint.isFinite = true) := by
  obtain ⟨mode, speed, yaw, rate⟩ := m
  cases mode with
  | stop => exact absurd rfl moving
  | trackHeading => exact ⟨conforms.1, fun no => (by cases no), fun no => (by cases no)⟩
  | trackRate | creep => exact ⟨conforms.1, fun no => (by cases no), fun _ => conforms.2.2⟩
  | pivot =>
    obtain ⟨rfl, _, finite⟩ := conforms
    exact ⟨rfl, fun _ => rfl, fun _ => finite⟩

theorem applyLimits_conforms (sound : Sound lim) (numbers : Numbers st) (time : dt.isFinite = true) (conforms : Conforms m) :
    Conforms (applyLimits m dt lim st).1.motion ∧ Numbers (applyLimits m dt lim st).2 := by
  unfold applyLimits
  by_cases stopped : m.mode = .stop
  · rw [if_pos stopped]
    exact ⟨rfl, rfl, rfl, rfl⟩
  rw [if_neg stopped]
  obtain ⟨speed, still, rate⟩ := conforms.speed stopped
  have fast := envelope_finite speed (Flt.finite_neg sound.reverse.1) sound.forward.1
  have held : m.mode = .pivot → (envelope m.speedBodyX (-lim.maxReverseSpeed) lim.maxForwardSpeed).1 = .fin 0 := by
    intro pivot
    obtain ⟨forward, isForward⟩ := Flt.isFinite_iff.mp sound.forward.1
    obtain ⟨reverse, isReverse⟩ := Flt.isFinite_iff.mp sound.reverse.1
    have ahead := sound.forward.2
    have behind := sound.reverse.2
    rw [isForward, Flt.fin_lt] at ahead
    rw [isReverse, Flt.fin_le] at behind
    rw [still pivot, isForward, isReverse, Flt.neg_fin, Guard.envelope_fin, min_eq_right ahead.le,
      max_eq_right (neg_nonpos.mpr behind)]
  generalize envelope m.speedBodyX (-lim.maxReverseSpeed) lim.maxForwardSpeed = limited at fast held
  obtain ⟨v, fastest⟩ := limited
  have turned : usesRate m.mode = true → (if usesRate m.mode = true then
      envelope m.yawRateSetpoint (-lim.maxYawRate) lim.maxYawRate else (m.yawRateSetpoint, false)).1.isFinite = true := by
    intro uses
    rw [if_pos uses]
    exact envelope_finite (rate uses) (Flt.finite_neg sound.yaw) sound.yaw
  generalize (if usesRate m.mode = true then
      envelope m.yawRateSetpoint (-lim.maxYawRate) lim.maxYawRate else (m.yawRateSetpoint, false)) = turn at turned
  obtain ⟨r, quickest⟩ := turn
  dsimp only at fast held turned ⊢
  cases lim.profileShapingTestMode with
  | false => exact ⟨conforms.moved stopped fast held turned, rfl, rfl, rfl⟩
  | true =>
    obtain ⟨shaped, still, numbers⟩ := shapeSpeed_finite m.mode sound numbers fast time
    generalize shapeSpeed m.mode v dt lim st = ramp at shaped still numbers
    obtain ⟨w, ramped, st'⟩ := ramp
    obtain ⟨bent, numbers⟩ := shapeRate_finite sound numbers turned time
    generalize shapeRate m.mode r dt lim st' = bend at bent numbers
    obtain ⟨q, bends, st''⟩ := bend
    exact ⟨conforms.moved stopped shaped still bent, numbers⟩

end Limits

/-- A command the guard's check admits is a motion inside the contract. -/
theorem commandIsValid_conforms {g : Guard} {mode : Mode} (valid : commandIsValid g.cmd = true)
    (named : MotionGuard.Mode.ofWire g.cmd.mode = some mode) (moving : mode ≠ .stop) : Conforms (g.motion mode) := by
  simp only [commandIsValid, named, Bool.and_eq_true] at valid
  cases mode with
  | stop => exact absurd rfl moving
  | trackHeading =>
    simp only [Bool.and_eq_true, Flt.isNan, decide_eq_true_eq] at valid
    exact ⟨valid.2.1.1, valid.2.1.2, valid.2.2⟩
  | trackRate | creep =>
    simp only [Bool.and_eq_true, Flt.isNan, decide_eq_true_eq] at valid
    exact ⟨valid.2.1.1, valid.2.2, valid.2.1.2⟩
  | pivot =>
    simp only [Bool.and_eq_true, Flt.isNan, decide_eq_true_eq] at valid
    obtain ⟨_, ⟨⟨finite, zero⟩, rate⟩, yaw⟩ := valid
    obtain ⟨x, speed⟩ := Flt.isFinite_iff.mp finite
    rw [speed] at zero
    have zero : x = 0 := of_decide_eq_true zero
    exact ⟨by rw [← zero]; exact speed, yaw, rate⟩

theorem decide_conforms {cfg : DecisionConfig} {g : Guard} (sound : Sound cfg.limits) (numbers : Numbers g.lim) (now dt : ℚ)
    (gates : MotionGuard.GateInputs) :
    Conforms (g.decide cfg now dt gates).2.out ∧ Numbers (g.decide cfg now dt gates).1.lim := by
  have refused : ∀ r, Conforms (g.fail now r).2.out ∧ Numbers (g.fail now r).1.lim := fun r => ⟨rfl, rfl, rfl, rfl⟩
  unfold Guard.decide
  split
  · exact refused _
  split
  · exact refused _
  split
  · exact refused _
  split
  · exact refused _
  split
  · exact refused _
  · exact ⟨rfl, rfl, rfl, rfl⟩
  rename_i valid _ _ _ mode moving named
  have conforms : Conforms (g.motion mode) :=
    commandIsValid_conforms (by simpa using valid) named moving
  split
  swap
  · exact refused _
  split
  · exact refused _
  unfold Guard.forward
  dsimp only
  split
  · exact ⟨rfl, rfl, rfl, rfl⟩
  · exact applyLimits_conforms sound numbers rfl conforms

theorem run_numbers {accept : Nat} {cfg : DecisionConfig} (sound : Sound cfg.limits) {h : List Guard.Record} {g : Guard}
    (run : Run (Guard.step cfg) (Guard.start accept) h g) : Numbers g.lim := by
  refine run.invariant (fun _ g => Numbers g.lim) ⟨rfl, rfl, rfl⟩ fun h g e numbers _ => ?_
  cases e with
  | command c now =>
    have kept : (g.onCommand c now).lim = g.lim := by
      unfold Guard.onCommand
      split <;> rfl
    simp only [Guard.step, kept]
    exact numbers
  | decide now dt gates => exact (decide_conforms sound numbers now dt gates).2

/-- Over every history of commands and decisions of a guard with valid limits: the decision's motion passes the check of
the link and is carried out as it is; and the two checks accept the same commands. -/
theorem guard_commands_accepted (accept : Nat) (cfg : DecisionConfig) (limits : limitsValid cfg.limits = true)
    {h : List Guard.Record} {g : Guard} (run : Run (Guard.step cfg) (Guard.start accept) h g) :
    (∀ now dt gates seq sampleUs,
      validate (sent (g.decide cfg now dt gates).2.out seq sampleUs) = .ok ∧
        Carries (g.decide cfg now dt gates).2.out (toSetpoint (sent (g.decide cfg now dt gates).2.out seq sampleUs))) ∧
      ∀ c sampleUs, commandIsValid c = true ↔ validate (relayed c sampleUs) = .ok := by
  have sound := limitsValid_sound limits
  refine ⟨fun now dt gates seq sampleUs => ?_, commandIsValid_iff_validate⟩
  exact conforms_accepted (decide_conforms sound (run_numbers sound run) now dt gates).1 seq sampleUs

/-- A decision that clamps a speed, as the link reads it. -/
theorem clamped_command_accepted : ∃ h g, Run (Guard.step {}) (Guard.start 3) h g ∧
    (g.decide {} (2 / 5) (1 / 50) Guard.healthy).2.out = ⟨.trackRate, .fin 1, .nan, .fin (1 / 10)⟩ ∧
    validate (sent (g.decide {} (2 / 5) (1 / 50) Guard.healthy).2.out 0 0) = .ok := by
  have run : Run (Guard.step {}) (Guard.start 3) _ _ := exec_run Guard.drive .start
  have accepted := guard_commands_accepted 3 {} (by decide +kernel) run
  exact ⟨_, _, run, by decide +kernel, (accepted.1 (2 / 5) (1 / 50) Guard.healthy 0 0).1⟩

end Dyx3.System
