import Dyx3.MotionGuard.Core

/-!
Over any sequence of commands and decision ticks the guard answers with the canonical STOP, or it forwards the
newest command: valid, fresh, in an established publisher session, with every gate passing and no stall latched.
-/

namespace Dyx3.MotionGuard.Guard

open Lib

/-- The commands the guard took as new ones, newest first, with their arrival: a command whose seq
repeats the newest one's is a duplicate. -/
def accepted : List Record → List (Command × ℚ)
  | [] => []
  | x :: h => match x.event with
    | .command c now => if (accepted h).head?.map (·.1.seq) = some c.seq then accepted h else (c, now) :: accepted h
    | .decide .. => accepted h

/-- Newest first, so the seqs of a session decrease along the list. -/
def Session (commands : List (Command × ℚ)) : Prop := commands.Pairwise fun newer older => older.1.seq < newer.1.seq

/-- A finite value moved into `[lo, hi]`. -/
def clampInto (lo hi : ℚ) : Flt → Flt
  | .fin v => .fin (max lo (min hi v))
  | v => v

/-- The answer forwards the command `c`, and what must have held for it. -/
structure Forwarded (accept : Nat) (cfg : DecisionConfig) (earlier : List Record) (now : ℚ) (gates : GateInputs)
    (answer : Answer) (c : Command) : Prop where
  fresh : ∃ arrival rest, accepted earlier = (c, arrival) :: rest ∧ now - arrival ≤ cfg.commandMaxAge
  valid : commandIsValid c = true
  session : accept ≤ (accepted earlier).length ∧ Session ((accepted earlier).take accept)
  passing : gates.estop = false ∧ linkHealthy gates.link = true ∧ vehicleRefused gates.vehicle cfg.gates false = false ∧
    rtkOk gates.rtk cfg.gates.rtk = true ∧ headingHealthy gates.est gates.vehicle cfg.gates = true ∧
    estimatorHealthy gates.est gates.vehicle = true
  mission : gates.mission.fresh = true ∧ gates.mission.state = missionStateRunning
  unlatched : answer.actuatorStalled = false
  motion : ∃ mode forward reverse rate, Mode.ofWire c.mode = some mode ∧ cfg.limits.maxForwardSpeed = .fin forward ∧
    cfg.limits.maxReverseSpeed = .fin reverse ∧ cfg.limits.maxYawRate = .fin rate ∧
    answer.decision.out =
      { mode, yawSetpoint := c.yawSetpoint, speedBodyX := clampInto (-reverse) forward c.speedBodyX
        yawRateSetpoint := if usesRate mode then clampInto (-rate) rate c.yawRateSetpoint else c.yawRateSetpoint }

/-! ### The commands -/

/-- What the history says about the stored command and the session count. -/
structure Tracks (accept : Nat) (h : List Record) (g : Guard) : Prop where
  accept : g.seq.accept = accept
  none : accepted h = [] → g.haveCmd = false ∧ g.seq.have_ = false
  newest : ∀ c arrival rest, accepted h = (c, arrival) :: rest →
    g.haveCmd = true ∧ g.seq.have_ = true ∧ g.cmd = c ∧ g.seq.last = c.seq ∧ g.seq.lastNew = arrival
  count : accepted h ≠ [] → g.seq.count ≤ (accepted h).length ∧ Session ((accepted h).take g.seq.count)

theorem tracks_start (accept : Nat) : Tracks accept [] (start accept) :=
  ⟨rfl, fun _ => ⟨rfl, rfl⟩, by simp [accepted], by simp [accepted]⟩

theorem Session.cons {commands : List (Command × ℚ)} {c : Command} {now : ℚ} {n : Nat}
    (session : Session (commands.take n))
    (above : ∀ d arrival rest, commands = (d, arrival) :: rest → d.seq < c.seq) :
    Session (((c, now) :: commands).take (n + 1)) := by
  refine List.pairwise_cons.mpr ⟨?_, session⟩
  intro older member
  cases commands with
  | nil => simp at member
  | cons d rest =>
    have newest := above d.1 d.2 rest rfl
    cases n with
    | zero => simp at member
    | succ n =>
      rw [List.take_succ_cons] at member session
      rcases List.mem_cons.mp member with rfl | member
      · exact newest
      · exact ((List.pairwise_cons.mp session).1 older member).trans newest

theorem Session.shorten {commands : List (Command × ℚ)} {m n : Nat} (session : Session (commands.take n))
    (fewer : m ≤ n) : Session (commands.take m) :=
  session.sublist (List.take_sublist_take_left fewer)

/-- A command that is taken as new. -/
theorem tracks_new {accept : Nat} {h : List Record} {g t : Guard} {c : Command} {now : ℚ} {n : Nat}
    {out : Option Answer} (known : Tracks accept h g)
    (new : (accepted h).head?.map (·.1.seq) ≠ some c.seq)
    (stored : t.haveCmd = true ∧ t.cmd = c ∧ t.seq = ⟨g.seq.accept, true, c.seq, n, now⟩)
    (count : n ≤ (accepted h).length + 1 ∧ Session (((c, now) :: accepted h).take n)) :
    Tracks accept (⟨.command c now, out⟩ :: h) t := by
  have grown : accepted (⟨.command c now, out⟩ :: h) = (c, now) :: accepted h := by simp [accepted, new]
  obtain ⟨haveCmd, cmd, seq⟩ := stored
  refine ⟨by rw [seq]; exact known.accept, by simp [grown], ?_, ?_⟩
  · intro d arrival rest same
    rw [grown] at same
    obtain ⟨rfl, rfl⟩ : c = d ∧ now = arrival := by simpa using (List.cons.inj same).1
    exact ⟨haveCmd, by rw [seq], cmd, by rw [seq], by rw [seq]⟩
  · rw [grown, seq]
    exact fun _ => count

theorem tracks_command {accept : Nat} {h : List Record} {g : Guard} (known : Tracks accept h g) (c : Command)
    (now : ℚ) : Tracks accept (⟨.command c now, none⟩ :: h) (g.onCommand c now) := by
  unfold onCommand SequenceTracker.onCommand
  cases before : accepted h with
  | nil =>
    simp only [(known.none before).2]
    exact tracks_new known (by simp [before]) ⟨rfl, rfl, rfl⟩ ⟨by simp, by simp [Session, List.take]⟩
  | cons newest rest =>
    obtain ⟨haveCmd, have_, cmd, last, lastNew⟩ := known.newest newest.1 newest.2 rest before
    obtain ⟨length, session⟩ := known.count (by simp [before])
    simp only [have_, last]
    by_cases restarted : c.seq < newest.1.seq
    · simp only [restarted]
      refine tracks_new known ?_ ⟨rfl, rfl, rfl⟩ ⟨by simp, by simp [Session, List.take]⟩
      simp [before, restarted.ne']
    by_cases duplicate : c.seq = newest.1.seq
    · have same : accepted (⟨.command c now, Option.none⟩ :: h) = accepted h := by simp [accepted, before, duplicate]
      simp only [duplicate, lt_irrefl]
      exact ⟨known.accept, by rw [same]; exact known.none, by rw [same]; exact known.newest,
        by rw [same]; exact known.count⟩
    · simp only [restarted, duplicate]
      have above : ∀ d arrival rest, accepted h = (d, arrival) :: rest → d.seq < c.seq := by
        intro d arrival rest' same
        obtain ⟨rfl, _⟩ := List.cons.inj (before.symm.trans same)
        exact lt_of_le_of_ne (not_lt.mp restarted) (Ne.symm duplicate)
      have extended : Session (((c, now) :: accepted h).take (g.seq.count + 1)) := session.cons above
      refine tracks_new known ?_ ⟨rfl, rfl, rfl⟩ ?_
      · simp [before, Ne.symm duplicate]
      · split
        · exact ⟨by omega, extended⟩
        · exact ⟨by omega, extended.shorten (by omega)⟩

/-! ### The decisions -/

theorem firstFailing_ok {gates : GateInputs} {cfg : GateConfig} (ok : firstFailingSafetyGate gates cfg = .ok) :
    gates.estop = false ∧ linkHealthy gates.link = true ∧ vehicleRefused gates.vehicle cfg false = false ∧
      rtkOk gates.rtk cfg.rtk = true ∧ headingHealthy gates.est gates.vehicle cfg = true ∧
      estimatorHealthy gates.est gates.vehicle = true := by
  unfold firstFailingSafetyGate firstFailing at ok
  iterate 6
    split at ok
    · cases ok
  simp_all

theorem envelope_fin {v lo hi : ℚ} : (envelope (.fin v) (.fin lo) (.fin hi)).1 = .fin (max lo (min hi v)) := by
  simp only [envelope, Flt.fin_lt]
  by_cases high : hi < v
  · simp only [high, if_true, Flt.fin_lt, min_eq_left high.le]
    split
    · rw [max_eq_left (le_of_lt ‹_›)]
    · rw [max_eq_right (not_lt.mp ‹_›)]
  · simp only [high, if_false, Flt.fin_lt, min_eq_right (not_lt.mp high)]
    split
    · rw [max_eq_left (le_of_lt ‹_›)]
    · rw [max_eq_right (not_lt.mp ‹_›)]

/-- The hard envelopes of a valid configuration are finite. -/
theorem limitsValid_finite {l : Limits} (valid : limitsValid l = true) :
    ∃ forward reverse rate, l.maxForwardSpeed = .fin forward ∧ l.maxReverseSpeed = .fin reverse ∧
      l.maxYawRate = .fin rate := by
  simp only [limitsValid, Bool.and_eq_true] at valid
  obtain ⟨⟨⟨⟨⟨⟨⟨forward, reverse⟩, _⟩, rate⟩, _⟩, _⟩, _⟩, _⟩ := valid
  obtain ⟨f, forward⟩ := Flt.isFinite_iff.mp forward.1
  obtain ⟨v, reverse⟩ := Flt.isFinite_iff.mp reverse
  obtain ⟨r, rate⟩ := Flt.isFinite_iff.mp rate.1
  exact ⟨f, v, r, forward, reverse, rate⟩

/-- The speed of a valid moving command is finite, and so is its yaw rate where the mode uses it. -/
theorem commandIsValid_finite {c : Command} {mode : Mode} (valid : commandIsValid c = true)
    (wire : Mode.ofWire c.mode = some mode) (moving : mode ≠ .stop) :
    (∃ v, c.speedBodyX = .fin v) ∧ (usesRate mode = true → ∃ r, c.yawRateSetpoint = .fin r) := by
  simp only [commandIsValid, wire, Bool.and_eq_true] at valid
  cases mode with
  | stop => exact absurd rfl moving
  | trackHeading =>
    simp only [Bool.and_eq_true] at valid
    exact ⟨Flt.isFinite_iff.mp valid.2.1.1, by simp [usesRate]⟩
  | trackRate | creep =>
    simp only [Bool.and_eq_true] at valid
    exact ⟨Flt.isFinite_iff.mp valid.2.1.1, fun _ => Flt.isFinite_iff.mp valid.2.1.2⟩
  | pivot =>
    simp only [Bool.and_eq_true] at valid
    exact ⟨Flt.isFinite_iff.mp valid.2.1.1.1, fun _ => Flt.isFinite_iff.mp valid.2.1.2⟩

theorem applyLimits_production {m : Motion} {dt : Flt} {lim : Limits} {st : LimitState} {v forward reverse rate : ℚ}
    (production : lim.profileShapingTestMode = false) (moving : m.mode ≠ .stop) (speed : m.speedBodyX = .fin v)
    (turning : usesRate m.mode = true → ∃ r, m.yawRateSetpoint = .fin r)
    (limits : lim.maxForwardSpeed = .fin forward ∧ lim.maxReverseSpeed = .fin reverse ∧ lim.maxYawRate = .fin rate) :
    (applyLimits m dt lim st).1.motion =
      { m with
        speedBodyX := clampInto (-reverse) forward m.speedBodyX
        yawRateSetpoint :=
          if usesRate m.mode then clampInto (-rate) rate m.yawRateSetpoint else m.yawRateSetpoint } := by
  obtain ⟨fwd, rev, yaw⟩ := limits
  unfold applyLimits
  simp only [moving, if_false, production, Bool.not_false, if_true, speed, fwd, rev, yaw, Flt.neg_fin, envelope_fin,
    clampInto]
  cases uses : usesRate m.mode with
  | false => simp
  | true =>
    obtain ⟨r, finite⟩ := turning uses
    simp only [finite, if_true, envelope_fin]

theorem update_unlatched {s : StallDetector} {demand : Motion} {v : VehicleIn} {now : ℚ} {c : PlausibilityConfig}
    (free : (s.update demand v now c).2 = false) : (s.update demand v now c).1.latched = false := by
  unfold StallDetector.update at free ⊢
  split at free
  · simp [*, StallDetector.clear]
  split at free
  · cases free
  split at free
  · simp_all
  · simp_all

/-- A decision that is not the canonical STOP forwards the stored command. -/
theorem decide_cases (cfg : DecisionConfig) (g : Guard) (now dt : ℚ) (gates : GateInputs) :
    (g.decide cfg now dt gates).2.out = canonicalStop ∨
    (g.haveCmd = true ∧ commandIsValid g.cmd = true ∧ g.inputAge now ≤ cfg.commandMaxAge ∧ g.seq.accepting = true ∧
      firstFailingSafetyGate gates cfg.gates = .ok ∧ missionRunning gates.mission = true ∧
      (g.decide cfg now dt gates).1.stall.latched = false ∧
      ∃ mode, Mode.ofWire g.cmd.mode = some mode ∧ mode ≠ .stop ∧
        (g.decide cfg now dt gates).2.out = (applyLimits (g.motion mode) (.fin dt) cfg.limits g.lim).1.motion) := by
  unfold decide
  split
  · exact .inl rfl
  split
  · exact .inl rfl
  split
  · exact .inl rfl
  split
  · exact .inl rfl
  split
  · exact .inl rfl
  · exact .inl rfl
  rename_i present valid fresh session _ mode moving wire
  split
  swap
  · exact .inl rfl
  rename_i passing
  split
  · exact .inl rfl
  rename_i running
  unfold forward
  simp only
  split
  · exact .inl rfl
  rename_i free
  refine .inr ⟨by simpa using present, by simpa using valid, not_lt.mp fresh, by simpa using session, passing,
    by simpa using running, update_unlatched (by simpa using free), mode, wire, ?_, rfl⟩
  rintro rfl
  exact moving rfl

theorem forwarded_of_decide {accept : Nat} {cfg : DecisionConfig} {h : List Record} {g : Guard} {now dt : ℚ}
    {gates : GateInputs} (limits : limitsValid cfg.limits = true)
    (production : cfg.limits.profileShapingTestMode = false) (known : Tracks accept h g)
    (moving : (g.decide cfg now dt gates).2.out ≠ canonicalStop) :
    Forwarded accept cfg h now gates
      ⟨(g.decide cfg now dt gates).2, (g.decide cfg now dt gates).1.stall.latched⟩ g.cmd := by
  rcases decide_cases cfg g now dt gates with stopped |
    ⟨present, valid, fresh, session, passing, running, unlatched, mode, wire, notStop, out⟩
  · exact absurd stopped moving
  cases commands : accepted h with
  | nil =>
    rw [(known.none commands).1] at present
    cases present
  | cons newest rest =>
    obtain ⟨_, have_, cmd, _, lastNew⟩ := known.newest newest.1 newest.2 rest commands
    obtain ⟨length, inSession⟩ := known.count (by simp [commands])
    simp only [SequenceTracker.accepting, Bool.and_eq_true, decide_eq_true_eq, known.accept] at session
    simp only [missionRunning, Bool.and_eq_true, decide_eq_true_eq] at running
    refine ⟨⟨newest.2, rest, ?_, ?_⟩, valid, ⟨session.2.trans length, inSession.shorten session.2⟩,
      firstFailing_ok passing, running, unlatched, ?_⟩
    · rw [commands, cmd]
    · rw [← lastNew]
      simpa [inputAge, present, have_] using fresh
    · obtain ⟨forward, reverse, rate, finite⟩ := limitsValid_finite limits
      obtain ⟨⟨v, speed⟩, turning⟩ := commandIsValid_finite valid wire notStop
      refine ⟨mode, forward, reverse, rate, wire, finite.1, finite.2.1, finite.2.2, ?_⟩
      exact out.trans (applyLimits_production production notStop speed turning finite)

theorem tracks_decide {accept : Nat} {cfg : DecisionConfig} {h : List Record} {g : Guard} {now dt : ℚ}
    {gates : GateInputs} {out : Option Answer} (known : Tracks accept h g) :
    Tracks accept (⟨.decide now dt gates, out⟩ :: h) (g.decide cfg now dt gates).1 := by
  have kept : (g.decide cfg now dt gates).1.seq = g.seq ∧ (g.decide cfg now dt gates).1.cmd = g.cmd ∧
      (g.decide cfg now dt gates).1.haveCmd = g.haveCmd := by
    unfold decide forward
    repeat' split
    all_goals exact ⟨rfl, rfl, rfl⟩
  obtain ⟨seq, cmd, haveCmd⟩ := kept
  have same : accepted (⟨.decide now dt gates, out⟩ :: h) = accepted h := rfl
  refine ⟨by rw [seq]; exact known.accept, ?_, ?_, ?_⟩
  · rw [same, seq, haveCmd]
    exact known.none
  · rw [same, seq, haveCmd, cmd]
    exact known.newest
  · rw [same, seq]
    exact known.count

/-- One entry of a run: a decision tick is answered with the canonical STOP, or it forwards the
newest accepted command. -/
def FailsToZero (accept : Nat) (cfg : DecisionConfig) (x : Record) (earlier : List Record) : Prop :=
  ∀ now dt gates answer, x.event = .decide now dt gates → x.out = some answer →
    (answer.decision.out.mode ≠ .stop → ∃ c, Forwarded accept cfg earlier now gates answer c) ∧
    (answer.decision.out.mode = .stop → answer.decision.out = canonicalStop)

theorem failsToZero_step {accept : Nat} {cfg : DecisionConfig} {h : List Record} {g : Guard}
    (limits : limitsValid cfg.limits = true) (production : cfg.limits.profileShapingTestMode = false)
    (known : Tracks accept h g) (e : Event) : FailsToZero accept cfg ⟨e, (step cfg g e).2⟩ h := by
  rintro now dt gates answer rfl out
  obtain rfl := Option.some.inj out
  refine ⟨fun moving => ⟨g.cmd, forwarded_of_decide limits production known ?_⟩, fun stopped => ?_⟩
  · intro same
    exact moving (by rw [same]; rfl)
  · by_contra moving
    obtain ⟨mode, _, _, _, wire, _, _, _, shape⟩ := (forwarded_of_decide limits production known moving).motion
    rcases decide_cases cfg g now dt gates with zero | ⟨_, _, _, _, _, _, _, mode', wire', notStop, _⟩
    · exact moving zero
    · obtain rfl := Option.some.inj (wire.symm.trans wire')
      exact notStop ((congrArg Motion.mode shape).symm.trans stopped)

/-- Over every run of a guard with a valid production configuration. -/
theorem run_failsToZero (accept : Nat) (cfg : DecisionConfig) (limits : limitsValid cfg.limits = true)
    (production : cfg.limits.profileShapingTestMode = false) {h : List Record} {g : Guard}
    (run : Run (step cfg) (start accept) h g) : Everywhere (FailsToZero accept cfg) h := by
  refine (run.invariant (fun h g => Tracks accept h g ∧ Everywhere (FailsToZero accept cfg) h)
    ⟨tracks_start accept, trivial⟩ ?_).2
  rintro h g e ⟨known, all⟩ _
  refine ⟨?_, failsToZero_step limits production known e, all⟩
  cases e with
  | command c now => exact tracks_command known c now
  | decide now dt gates => exact tracks_decide known

/-- Everything healthy, the vehicle armed in OFFBOARD and the mission running. -/
def healthy : GateInputs where
  link := ⟨true, true, true, 0⟩
  vehicle := {
    fresh := true, armingState := armed, navState := offboard, positionValid := true, velocityValid := true
    attitudeValid := true, measuredSpeed := .fin (1 / 2) }
  rtk := ⟨true, 6, true, .fin (1 / 50)⟩
  est := ⟨true, true, true, false, false, false, false, false⟩
  mission := ⟨true, missionStateRunning⟩

/-- Three commands of a new session, the last one twice, and a decision that clamps its speed. -/
def drive : List Event :=
  let track (seq : Nat) : Command :=
    { seq, mode := 2, speedBodyX := .fin 2, yawSetpoint := .nan, yawRateSetpoint := .fin (1 / 10), valid := true }
  [.command (track 1) 0, .command (track 2) (1 / 10), .command (track 3) (1 / 5), .command (track 3) (3 / 10),
    .decide (2 / 5) (1 / 50) healthy]

theorem run_failsToZero_drive :
    ((exec (step {}) [] (start 3) drive).1.head?.bind (·.out)).map (·.decision.out) =
      some ⟨.trackRate, .fin 1, .nan, .fin (1 / 10)⟩ ∧
    Everywhere (FailsToZero 3 {}) (exec (step {}) [] (start 3) drive).1 :=
  ⟨by decide +kernel, run_failsToZero 3 {} (by decide +kernel) rfl (exec_run drive .start)⟩

end Dyx3.MotionGuard.Guard
