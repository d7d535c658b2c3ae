import Dyx3.MotionGuard.Core

/-!
The stall latch of the guard over any sequence of commands and decision ticks: when it sets, and what releases it.
-/

namespace Dyx3.MotionGuard

open Lib

/-- Structural validity: positive, and "still" strictly below the matching demand. -/
def plausibilityConfigValid (c : PlausibilityConfig) : Bool :=
  let pos (v : Flt) : Bool := v.isFinite && .fin 0 < v
  pos c.demandYawRate && pos c.demandSpeed && pos c.stillYawRate && pos c.stillSpeed && 0 < c.stallTime &&
    c.stillYawRate < c.demandYawRate && c.stillSpeed < c.demandSpeed

namespace Guard

/-- The mode of a command that passes every check of `decide` before the stall detector. -/
def admitted (cfg : DecisionConfig) (g : Guard) (now : ℚ) (gates : GateInputs) : Option Mode :=
  if !g.haveCmd || !commandIsValid g.cmd || cfg.commandMaxAge < g.inputAge now || !g.seq.accepting then none
  else match Mode.ofWire g.cmd.mode with
    | none => none
    | some .stop => some .stop
    | some mode =>
      if firstFailingSafetyGate gates cfg.gates = .ok && missionRunning gates.mission then some mode else none

theorem firstFailing_ne_stall (gates : GateInputs) (cfg : GateConfig) : firstFailingSafetyGate gates cfg ≠ .actuatorStall := by
  unfold firstFailingSafetyGate firstFailing
  repeat' split
  all_goals decide

theorem decide_admitted (cfg : DecisionConfig) (g : Guard) (now dt : ℚ) (gates : GateInputs) :
    (admitted cfg g now gates = none ∧ ∃ r, r ≠ .actuatorStall ∧ g.decide cfg now dt gates = g.fail now r) ∨
    (admitted cfg g now gates = some .stop ∧ g.decide cfg now dt gates = g.forwardStop now) ∨
    ∃ mode, mode ≠ .stop ∧ admitted cfg g now gates = some mode ∧ g.decide cfg now dt gates = g.forward cfg now dt gates mode := by
  unfold decide admitted
  cases g.haveCmd with
  | false => exact .inl ⟨rfl, .stale, by decide, rfl⟩
  | true =>
  cases commandIsValid g.cmd with
  | false => exact .inl ⟨rfl, .invalidMessage, by decide, rfl⟩
  | true =>
  by_cases stale : cfg.commandMaxAge < g.inputAge now
  · exact .inl ⟨by simp [stale], .stale, by decide, by simp [stale]⟩
  cases g.seq.accepting with
  | false => exact .inl ⟨by simp, .sequence, by decide, by simp [stale]⟩
  | true =>
  simp only [stale, Bool.not_true, Bool.false_eq_true, decide_false, Bool.or_false, if_false]
  cases wire : Mode.ofWire g.cmd.mode with
  | none => exact .inl ⟨rfl, .invalidMessage, by decide, rfl⟩
  | some mode =>
    by_cases stop : mode = .stop
    · subst stop
      exact .inr (.inl ⟨rfl, rfl⟩)
    · by_cases passing : firstFailingSafetyGate gates cfg.gates = .ok
      · cases running : missionRunning gates.mission with
        | false => exact .inl ⟨by cases mode <;> simp_all, .missionGate, by decide, by cases mode <;> simp_all⟩
        | true => exact .inr (.inr ⟨mode, stop, by cases mode <;> simp_all, by cases mode <;> simp_all⟩)
      · refine .inl ⟨by cases mode <;> simp_all, _, firstFailing_ne_stall gates cfg.gates, ?_⟩
        cases mode with
        | stop => exact absurd rfl stop
        | _ => simp only

/-- A call, answered with the guard that took it. -/
def watched (cfg : DecisionConfig) (g : Guard) (e : Event) : Guard × (Option Answer × Guard) :=
  ((step cfg g e).1, (step cfg g e).2, g)

abbrev Watched := Entry Event (Option Answer × Guard)

def Stalls (x : Watched) : Prop := ∃ answer, x.out.1 = some answer ∧ answer.decision.reason = .actuatorStall

/-- A decision whose command passed every gate and demands motion. -/
def Demands (cfg : DecisionConfig) (x : Watched) : Prop :=
  ∃ now dt gates mode, x.event = .decide now dt gates ∧ admitted cfg x.out.2 now gates = some mode ∧
    demandsMotion (x.out.2.motion mode) cfg.plausibility = true

/-- A decision that forwarded a clean STOP, or whose command passed every gate below both demand thresholds. -/
def Drops (cfg : DecisionConfig) (x : Watched) : Prop :=
  ∃ now dt gates mode, x.event = .decide now dt gates ∧ admitted cfg x.out.2 now gates = some mode ∧
    demandsMotion (x.out.2.motion mode) cfg.plausibility = false

/-- A decision at `now` on a demanding command that the vehicle is measured not to follow. -/
def StuckAt (cfg : DecisionConfig) (now : ℚ) (x : Watched) : Prop :=
  Demands cfg x ∧ ∃ dt gates, x.event = .decide now dt gates ∧ measurementUsable gates.vehicle = true ∧
    measuredStill gates.vehicle cfg.plausibility = true

/-- Since the decision at `since` every decision of `h` was on a command that the vehicle did not follow. -/
def StuckSince (cfg : DecisionConfig) (h : List Watched) (since : ℚ) : Prop :=
  ∃ mid y old, h = mid ++ y :: old ∧ StuckAt cfg since y ∧
    ∀ z ∈ mid, ∀ now dt gates, z.event = .decide now dt gates → StuckAt cfg now z

/-- A stall that no decision has released since. -/
def Held (cfg : DecisionConfig) (h : List Watched) : Prop :=
  ∃ mid y old, h = mid ++ y :: old ∧ Stalls y ∧ ∀ z ∈ mid, ¬ Drops cfg z

theorem held_cons {cfg : DecisionConfig} {h : List Watched} {x : Watched} :
    Held cfg (x :: h) ↔ Stalls x ∨ (¬ Drops cfg x ∧ Held cfg h) := by
  constructor
  · rintro ⟨mid, y, old, split, stalls, kept⟩
    rcases cons_split split with ⟨rfl, rfl, rfl⟩ | ⟨mid, rfl, rfl⟩
    · exact .inl stalls
    · refine .inr ⟨kept x List.mem_cons_self, mid, y, old, rfl, stalls, fun z member => ?_⟩
      exact kept z (List.mem_cons_of_mem x member)
  · rintro (stalls | ⟨kept, mid, y, old, rfl, stalls, others⟩)
    · exact ⟨[], x, h, rfl, stalls, by simp⟩
    · exact ⟨x :: mid, y, old, rfl, stalls, List.forall_mem_cons.mpr ⟨kept, others⟩⟩

theorem StuckSince.cons {cfg : DecisionConfig} {h : List Watched} {since : ℚ} (stuck : StuckSince cfg h since) {x : Watched}
    (also : ∀ now dt gates, x.event = .decide now dt gates → StuckAt cfg now x) : StuckSince cfg (x :: h) since := by
  obtain ⟨mid, y, old, rfl, first, others⟩ := stuck
  exact ⟨x :: mid, y, old, rfl, first, List.forall_mem_cons.mpr ⟨also, others⟩⟩

/-! ### The detector -/

theorem update_drops {s : StallDetector} {demand : Motion} {v : VehicleIn} {now : ℚ} {c : PlausibilityConfig}
    (drops : demandsMotion demand c = false) : s.update demand v now c = (s.clear, false) := by
  simp [StallDetector.update, drops]

theorem update_held {s : StallDetector} {demand : Motion} {v : VehicleIn} {now : ℚ} {c : PlausibilityConfig}
    (enabled : c.enabled = true) (demands : demandsMotion demand c = true) (latched : s.latched = true) :
    s.update demand v now c = (s, true) := by
  simp [StallDetector.update, enabled, demands, latched]

theorem update_moving {s : StallDetector} {demand : Motion} {v : VehicleIn} {now : ℚ} {c : PlausibilityConfig}
    (enabled : c.enabled = true) (demands : demandsMotion demand c = true) (free : s.latched = false)
    (moving : ¬ (measurementUsable v = true ∧ measuredStill v c = true)) :
    s.update demand v now c = ({ s with timing := false }, false) := by
  have reset : (!measurementUsable v || !measuredStill v c) = true := by
    simpa [Bool.or_eq_true, imp_iff_not_or] using moving
  simp [StallDetector.update, enabled, demands, free, reset]

/-- A still vehicle: the timer runs from the first such tick, and latches after the stall time. -/
theorem update_still {s : StallDetector} {demand : Motion} {v : VehicleIn} {now : ℚ} {c : PlausibilityConfig}
    (enabled : c.enabled = true) (demands : demandsMotion demand c = true) (free : s.latched = false)
    (usable : measurementUsable v = true) (still : measuredStill v c = true) :
    let since := if s.timing then s.since else now
    s.update demand v now c =
      if c.stallTime < now - since then ({ timing := false, since, latched := true }, true)
      else ({ timing := true, since, latched := false }, false) := by
  obtain ⟨timing, start, latched⟩ := s
  obtain rfl : latched = false := free
  simp only
  by_cases late : c.stallTime < now - (if timing then start else now)
  · rw [if_pos late]
    cases timing <;> simp_all [StallDetector.update]
  · rw [if_neg late]
    cases timing <;> simp_all [StallDetector.update, not_lt.mpr]

/-! ### Whole runs -/

/-- What the history says about the detector. -/
structure Explained (cfg : DecisionConfig) (h : List Watched) (s : StallDetector) : Prop where
  latched : s.latched = true ↔ Held cfg h
  quiet : s.latched = true → s.timing = false
  timing : s.timing = true → StuckSince cfg h s.since

theorem explained_start (cfg : DecisionConfig) : Explained cfg [] {} := by
  refine ⟨⟨fun latched => (by cases latched), ?_⟩, fun _ => rfl, fun timing => by cases timing⟩
  rintro ⟨mid, y, old, split, -⟩
  simp at split

/-- An entry that neither stalls nor drops the demand, on which the latch stays as it was. -/
theorem Explained.interrupted {cfg : DecisionConfig} {h : List Watched} {s t : StallDetector} {x : Watched}
    (explained : Explained cfg h s) (runs : ¬ Stalls x) (holds : ¬ Drops cfg x) (latched : t.latched = s.latched)
    (stopped : t.timing = false) : Explained cfg (x :: h) t := by
  refine ⟨?_, fun _ => stopped, fun timing => ?_⟩
  · rw [latched, explained.latched, held_cons]
    tauto
  · rw [stopped] at timing
    cases timing

theorem Explained.cleared {cfg : DecisionConfig} {h : List Watched} {x : Watched} (s : StallDetector) (runs : ¬ Stalls x)
    (drops : Drops cfg x) : Explained cfg (x :: h) s.clear := by
  refine ⟨?_, fun _ => rfl, fun timing => by cases timing⟩
  rw [held_cons]
  constructor
  · intro latched
    cases latched
  · tauto

/-- What a decision has to do with the detector, when the detector explains the history before it. -/
structure Judged (cfg : DecisionConfig) (h : List Watched) (x : Watched) (t : StallDetector) : Prop where
  explained : Explained cfg (x :: h) t
  free : ∀ answer, x.out.1 = some answer → answer.decision.out.mode ≠ .stop → Demands cfg x → ¬ Held cfg h
  stall : Stalls x → ¬ Held cfg h → ∃ now dt gates since, x.event = .decide now dt gates ∧ cfg.plausibility.stallTime < now - since ∧
    StuckAt cfg now x ∧ StuckSince cfg h since

theorem judged_quiet {cfg : DecisionConfig} {h : List Watched} {x : Watched} {t : StallDetector} (explained : Explained cfg (x :: h) t)
    (runs : ¬ Stalls x) (free : Demands cfg x → ¬ Held cfg h) : Judged cfg h x t :=
  ⟨explained, fun _ _ _ demands => free demands, fun stalls => absurd stalls runs⟩

theorem stalls_iff {cfg : DecisionConfig} {g : Guard} {now dt : ℚ} {gates : GateInputs} :
    Stalls ⟨.decide now dt gates, (watched cfg g (.decide now dt gates)).2⟩ ↔
      (g.decide cfg now dt gates).2.reason = .actuatorStall := by
  simp [Stalls, watched, step]

section Admitted

variable {cfg : DecisionConfig} {g : Guard} {now dt : ℚ} {gates : GateInputs} {out : Option Answer} {mode : Mode}

theorem drops_iff (reaches : admitted cfg g now gates = some mode) :
    Drops cfg ⟨.decide now dt gates, (out, g)⟩ ↔ demandsMotion (g.motion mode) cfg.plausibility = false := by
  constructor
  · rintro ⟨_, _, _, _, event, other, drops⟩
    cases event
    cases reaches.symm.trans other
    exact drops
  · exact fun drops => ⟨now, dt, gates, mode, rfl, reaches, drops⟩

theorem demands_iff (reaches : admitted cfg g now gates = some mode) :
    Demands cfg ⟨.decide now dt gates, (out, g)⟩ ↔ demandsMotion (g.motion mode) cfg.plausibility = true := by
  constructor
  · rintro ⟨_, _, _, _, event, other, demands⟩
    cases event
    cases reaches.symm.trans other
    exact demands
  · exact fun demands => ⟨now, dt, gates, mode, rfl, reaches, demands⟩

theorem not_admitted (refused : admitted cfg g now gates = none) :
    ¬ Drops cfg ⟨.decide now dt gates, (out, g)⟩ ∧ ¬ Demands cfg ⟨.decide now dt gates, (out, g)⟩ := by
  constructor
  all_goals
    rintro ⟨_, _, _, _, event, other, -⟩
    cases event
    cases refused.symm.trans other

end Admitted

theorem forward_free {cfg : DecisionConfig} {g : Guard} {now dt : ℚ} {gates : GateInputs} {mode : Mode} {s : StallDetector}
    (free : g.stall.update (g.motion mode) gates.vehicle now cfg.plausibility = (s, false)) :
    (g.forward cfg now dt gates mode).1.stall = s ∧ (g.forward cfg now dt gates mode).2.reason ≠ .actuatorStall := by
  simp only [forward, free]
  refine ⟨rfl, ?_⟩
  simp only [Bool.false_eq_true, if_false]
  split <;> decide

theorem forward_stalled {cfg : DecisionConfig} {g : Guard} {now dt : ℚ} {gates : GateInputs} {mode : Mode} {s : StallDetector}
    (stalled : g.stall.update (g.motion mode) gates.vehicle now cfg.plausibility = (s, true)) :
    (g.forward cfg now dt gates mode).1.stall = s ∧ (g.forward cfg now dt gates mode).2.reason = .actuatorStall ∧
      (g.forward cfg now dt gates mode).2.out = canonicalStop := by
  simp only [forward, stalled]
  exact ⟨rfl, rfl, rfl⟩

theorem judged_forward {cfg : DecisionConfig} (enabled : cfg.plausibility.enabled = true) (positive : 0 < cfg.plausibility.stallTime)
    {h : List Watched} {g : Guard} (explained : Explained cfg h g.stall) {now dt : ℚ} {gates : GateInputs} {mode : Mode}
    (reaches : admitted cfg g now gates = some mode) (same : g.decide cfg now dt gates = g.forward cfg now dt gates mode) :
    Judged cfg h ⟨.decide now dt gates, (watched cfg g (.decide now dt gates)).2⟩ (g.decide cfg now dt gates).1.stall := by
  generalize entry : (⟨.decide now dt gates, (watched cfg g (.decide now dt gates)).2⟩ : Watched) = x
  have stalls : Stalls x ↔ (g.forward cfg now dt gates mode).2.reason = .actuatorStall := by
    rw [← entry, stalls_iff, same]
  have drops : Drops cfg x ↔ demandsMotion (g.motion mode) cfg.plausibility = false := by
    rw [← entry]
    exact drops_iff reaches
  have demands : Demands cfg x ↔ demandsMotion (g.motion mode) cfg.plausibility = true := by
    rw [← entry]
    exact demands_iff reaches
  rw [same]
  cases wants : demandsMotion (g.motion mode) cfg.plausibility with
  | false =>
    have update : g.stall.update (g.motion mode) gates.vehicle now cfg.plausibility = (g.stall.clear, false) := update_drops wants
    obtain ⟨stall, reason⟩ := @forward_free cfg g now dt gates mode _ update
    have runs : ¬ Stalls x := mt stalls.mp reason
    rw [stall]
    refine judged_quiet (.cleared _ runs (drops.mpr wants)) runs fun asks => ?_
    rw [demands, wants] at asks
    cases asks
  | true =>
    have holds : ¬ Drops cfg x := by rw [drops, wants]; decide
    have asks := demands.mpr wants
    have event : x.event = .decide now dt gates := by rw [← entry]
    cases latched : g.stall.latched with
    | true =>
      obtain ⟨stall, reason, out⟩ := @forward_stalled cfg g now dt gates mode _ (update_held enabled wants latched)
      have held := explained.latched.mp latched
      have quiet := explained.quiet latched
      rw [stall]
      refine ⟨⟨?_, fun _ => quiet, fun timing => ?_⟩, fun answer given moves _ => ?_, fun _ free => absurd held free⟩
      · rw [held_cons]
        exact iff_of_true latched (.inl (stalls.mpr reason))
      · rw [quiet] at timing
        cases timing
      · rw [← entry] at given
        cases given
        rw [same, out] at moves
        exact absurd rfl moves
    | false =>
      have free : ¬ Held cfg h := fun held => by
        rw [explained.latched.mpr held] at latched
        cases latched
      by_cases stuck : measurementUsable gates.vehicle = true ∧ measuredStill gates.vehicle cfg.plausibility = true
      · have stuckAt : StuckAt cfg now x := ⟨asks, dt, gates, event, stuck⟩
        generalize start : (if g.stall.timing then g.stall.since else now) = since
        have update : g.stall.update (g.motion mode) gates.vehicle now cfg.plausibility =
            if cfg.plausibility.stallTime < now - since then ({ timing := false, since, latched := true }, true)
            else ({ timing := true, since, latched := false }, false) := by
          rw [← start]
          exact update_still enabled wants latched stuck.1 stuck.2
        by_cases late : cfg.plausibility.stallTime < now - since
        · rw [if_pos late] at update
          obtain ⟨stall, reason, out⟩ := @forward_stalled cfg g now dt gates mode _ update
          have timed : g.stall.timing = true := by
            by_contra fresh
            rw [if_neg fresh] at start
            rw [← start, sub_self] at late
            exact absurd late positive.not_gt
          rw [if_pos timed] at start
          rw [stall]
          refine ⟨⟨?_, fun _ => rfl, fun timing => by cases timing⟩, fun answer given moves _ => ?_, fun _ _ => ?_⟩
          · rw [held_cons]
            exact iff_of_true rfl (.inl (stalls.mpr reason))
          · rw [← entry] at given
            cases given
            rw [same, out] at moves
            exact absurd rfl moves
          · exact ⟨now, dt, gates, since, event, late, stuckAt, start ▸ explained.timing timed⟩
        · rw [if_neg late] at update
          obtain ⟨stall, reason⟩ := @forward_free cfg g now dt gates mode _ update
          have runs : ¬ Stalls x := mt stalls.mp reason
          rw [stall]
          refine judged_quiet ⟨?_, fun latch => (by cases latch), fun _ => ?_⟩ runs fun _ => free
          · rw [held_cons]
            exact iff_of_false Bool.false_ne_true (by tauto)
          · cases timed : g.stall.timing with
            | true =>
              rw [if_pos timed] at start
              refine (start ▸ explained.timing timed).cons fun time dt' gates' at_ => ?_
              cases event.symm.trans at_
              exact stuckAt
            | false =>
              rw [if_neg (by simp [timed])] at start
              exact ⟨[], x, h, rfl, start ▸ stuckAt, by simp⟩
      · obtain ⟨stall, reason⟩ := @forward_free cfg g now dt gates mode _ (update_moving enabled wants latched stuck)
        have runs : ¬ Stalls x := mt stalls.mp reason
        rw [stall]
        exact judged_quiet (explained.interrupted runs holds rfl rfl) runs fun _ => free

theorem judged_decide {cfg : DecisionConfig} (enabled : cfg.plausibility.enabled = true) (positive : 0 < cfg.plausibility.stallTime)
    {h : List Watched} {g : Guard} (explained : Explained cfg h g.stall) (now dt : ℚ) (gates : GateInputs) :
    Judged cfg h ⟨.decide now dt gates, (watched cfg g (.decide now dt gates)).2⟩ (g.decide cfg now dt gates).1.stall := by
  rcases decide_admitted cfg g now dt gates with ⟨refused, r, other, same⟩ | ⟨stop, same⟩ | ⟨mode, -, reaches, same⟩
  · have runs : ¬ Stalls ⟨.decide now dt gates, (watched cfg g (.decide now dt gates)).2⟩ := by
      rw [stalls_iff, same]
      exact other
    obtain ⟨holds, idle⟩ := @not_admitted cfg g now dt gates (watched cfg g (.decide now dt gates)).2.1 refused
    have stall : (g.decide cfg now dt gates).1.stall = g.stall.interrupt := by
      rw [same, fail, if_neg other]
    rw [stall]
    exact judged_quiet (explained.interrupted runs holds rfl rfl) runs fun asks => absurd asks idle
  · have runs : ¬ Stalls ⟨.decide now dt gates, (watched cfg g (.decide now dt gates)).2⟩ := by
      rw [stalls_iff, same]
      exact fun reason => by cases reason
    rw [same]
    refine judged_quiet (.cleared g.stall runs ((drops_iff stop).mpr rfl)) runs fun asks => ?_
    cases (demands_iff stop).mp asks
  · exact judged_forward enabled positive explained reaches same

/-- One entry of a run: motion that is demanded is forwarded only after the latch was released, and a first stall comes
after more than the stall time of commands that the vehicle did not follow. -/
def StallRule (cfg : DecisionConfig) (x : Watched) (earlier : List Watched) : Prop :=
  (∀ answer, x.out.1 = some answer → answer.decision.out.mode ≠ .stop → Demands cfg x →
    ∀ mid y old, earlier = mid ++ y :: old → Stalls y → ∃ z ∈ mid, Drops cfg z) ∧
  (Stalls x → (∀ mid y old, earlier = mid ++ y :: old → Stalls y → ∃ z ∈ mid, Drops cfg z) →
    ∃ now dt gates since, x.event = .decide now dt gates ∧ cfg.plausibility.stallTime < now - since ∧ StuckAt cfg now x ∧
      StuckSince cfg earlier since)

theorem released_iff {cfg : DecisionConfig} {h : List Watched} :
    (∀ mid y old, h = mid ++ y :: old → Stalls y → ∃ z ∈ mid, Drops cfg z) ↔ ¬ Held cfg h := by
  simp only [Held]
  push Not
  rfl

theorem Judged.rule {cfg : DecisionConfig} {h : List Watched} {x : Watched} {t : StallDetector} (judged : Judged cfg h x t) :
    StallRule cfg x h := by
  simp only [StallRule, released_iff]
  exact ⟨judged.free, judged.stall⟩

/-- Over every run of a guard with a valid, enabled detector. -/
theorem run_stallRule (accept : Nat) (cfg : DecisionConfig) (enabled : cfg.plausibility.enabled = true)
    (valid : plausibilityConfigValid cfg.plausibility = true) {h : List Watched} {g : Guard}
    (run : Run (watched cfg) (start accept) h g) : Everywhere (StallRule cfg) h := by
  have positive : 0 < cfg.plausibility.stallTime := by
    simp only [plausibilityConfigValid, Bool.and_eq_true, decide_eq_true_eq] at valid
    exact valid.1.1.2
  refine (run.invariant (fun h g => Explained cfg h g.stall ∧ Everywhere (StallRule cfg) h) ⟨explained_start cfg, trivial⟩ ?_).2
  rintro h g e ⟨explained, all⟩ -
  cases e with
  | command c now =>
    have stall : (watched cfg g (.command c now)).1.stall = g.stall := by
      show (g.onCommand c now).stall = g.stall
      unfold onCommand
      split <;> rfl
    have runs : ¬ Stalls ⟨.command c now, (watched cfg g (.command c now)).2⟩ := by
      rintro ⟨answer, given, -⟩
      cases given
    have holds : ¬ Drops cfg ⟨.command c now, (watched cfg g (.command c now)).2⟩ := by
      rintro ⟨_, _, _, _, event, -⟩
      cases event
    rw [stall]
    refine ⟨⟨?_, explained.quiet, fun timing => ?_⟩, ⟨fun answer given => (by cases given), fun stalls => absurd stalls runs⟩, all⟩
    · rw [explained.latched, held_cons]
      tauto
    · refine (explained.timing timing).cons fun _ _ _ event => ?_
      cases event
  | decide now dt gates =>
    have judged := judged_decide enabled positive explained now dt gates
    exact ⟨judged.explained, judged.rule, all⟩

/-- A pivot that the drivetrain does not execute, decided on at 0 s and at 3/2 s. -/
def stuckPivot : List Event :=
  let gates : GateInputs :=
    { link := ⟨true, true, true, 0⟩
      vehicle := {
        fresh := true, armingState := armed, navState := offboard, positionValid := true, velocityValid := true
        attitudeValid := true }
      rtk := ⟨true, 6, true, .fin (1 / 50)⟩
      est := ⟨true, true, true, false, false, false, false, false⟩
      mission := ⟨true, missionStateRunning⟩ }
  let pivot (seq : Nat) : Command :=
    { seq, mode := 3, yawSetpoint := .nan, yawRateSetpoint := .fin (9 / 20), valid := true }
  [.command (pivot 1) 0, .decide 0 (1 / 50) gates, .command (pivot 2) (3 / 2), .decide (3 / 2) (1 / 50) gates]

theorem run_stallRule_pivot :
    ((exec (watched {}) [] (start 1) stuckPivot).1.head?.bind (·.out.1)).map (·.decision.reason) = some .actuatorStall ∧
    Everywhere (StallRule {}) (exec (watched {}) [] (start 1) stuckPivot).1 :=
  ⟨by decide +kernel, run_stallRule 1 {} rfl (by decide +kernel) (exec_run _ .start)⟩

end Guard

end Dyx3.MotionGuard
