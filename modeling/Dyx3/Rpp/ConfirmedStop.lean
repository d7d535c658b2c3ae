import Dyx3.Lib.Run
import Dyx3.Rpp.StopPivot

/-!
The stop confirmation and the corner machine over any sequence of calls: what a confirmed stop, a pivot and a release
say about the calls since the last reset.
-/

namespace Dyx3.RppCore

open Lib Scalar

variable {R : Type} [Scalar R]

inductive Corner.Call (R : Type) where
  | satisfied (now : ℤ) (tel : StopTelemetry R)
  | step (i : CornerInput R)
  | carry
  | reset

inductive Corner.Answer (R : Type) where
  | stopped (b : Bool)
  | corner (o : CornerOutput R)
  | done

/-- The corner machine with the stop confirmation that it shares. -/
structure Corner (R : Type) where
  fsm : CornerFsm R
  stop : StopConfirm

namespace Corner

def start : Corner R := ⟨{ pivot := { angle := lit 0 } }, {}⟩

def call (p : StopPivotParams R) (s : Corner R) : Call R → Corner R × Answer R
  | .satisfied now tel => (⟨s.fsm, (s.stop.satisfied now tel p).2⟩, .stopped (s.stop.satisfied now tel p).1)
  | .step i => (⟨(s.fsm.step s.stop p i).2.1, (s.fsm.step s.stop p i).2.2⟩, .corner (s.fsm.step s.stop p i).1)
  | .carry => (⟨s.fsm.carryStopComplete, s.stop⟩, .done)
  | .reset => (⟨s.fsm.reset, s.stop.reset⟩, .done)

abbrev Record (R : Type) := Entry (Call R) (Answer R)

/-- The call ends with a reset: an advance does. -/
def clears (x : Record R) : Bool :=
  match x.event, x.out with
  | .reset, _ => true
  | .step _, .corner o => o.action = .advance
  | _, _ => false

/-- What the call asked of the stop confirmation, and its answer. -/
def asks (x : Record R) : Option (ℤ × StopTelemetry R × Bool) :=
  match x.event, x.out with
  | .satisfied now tel, .stopped b => some (now, tel, b)
  | .step i, .corner o => o.confirmed.map fun b => (i.now, i.tel, b)
  | _, _ => none

/-- The calls of `StopConfirm::satisfied` since the last reset, newest first. -/
def asked : List (Record R) → List (ℤ × StopTelemetry R)
  | [] => []
  | x :: h =>
    if clears x then []
    else match asks x with
      | some (now, tel, _) => (now, tel) :: asked h
      | none => asked h

/-- The steps since the last reset, newest first. -/
def steps : List (Record R) → List (CornerInput R)
  | [] => []
  | x :: h =>
    if clears x then []
    else match x.event with
      | .step i => i :: steps h
      | _ => steps h

/-- Since the last reset the stop was confirmed in a step, or carried over. -/
def Stopped : List (Record R) → Prop
  | [] => False
  | x :: h => clears x = false ∧ (x.event = .carry ∨ (∃ i o, x.event = .step i ∧ x.out = .corner o ∧ o.confirmed = some true) ∨ Stopped h)

/-! ### The stop confirmation -/

/-- Measured, and below both thresholds. -/
def Still (p : StopPivotParams R) (tel : StopTelemetry R) : Prop :=
  tel.velFresh = true ∧ tel.speed < p.stopSpeedThreshold ∧ fabs tel.yawRate < p.stopYawRateThreshold

/-- From a call at least `stop_dwell_s` ago on the vehicle stood still, or from one at least `stale_vel_hold_s` ago on its
velocity was stale. -/
def Confirmed (p : StopPivotParams R) (now : ℤ) (calls : List (ℤ × StopTelemetry R)) : Prop :=
  (∃ y, Unbroken (fun z => Still p z.2) calls y ∧ p.stopDwell ≤ nsToS (now - y.1)) ∨
  (∃ y, Unbroken (fun z => z.2.velFresh = false) calls y ∧ p.staleVelHold ≤ nsToS (now - y.1))

/-- What the calls say about the two timers. -/
structure Timed (p : StopPivotParams R) (calls : List (ℤ × StopTelemetry R)) (s : StopConfirm) : Prop where
  settle : s.settle = true → ∃ y, Unbroken (fun z => Still p z.2) calls y ∧ y.1 = s.settleNs
  stale : s.stale = true → ∃ y, Unbroken (fun z => z.2.velFresh = false) calls y ∧ y.1 = s.staleNs

theorem timed_reset (p : StopPivotParams R) (s : StopConfirm) : Timed p [] s.reset :=
  ⟨fun h => (by cases h), fun h => (by cases h)⟩

theorem satisfied_timed {p : StopPivotParams R} (positive : ¬ p.stopDwell ≤ lit 0) {calls : List (ℤ × StopTelemetry R)}
    {s : StopConfirm} (timed : Timed p calls s) (now : ℤ) (tel : StopTelemetry R) :
    Timed p ((now, tel) :: calls) (s.satisfied now tel p).2 ∧
      ((s.satisfied now tel p).1 = true → Confirmed p now ((now, tel) :: calls)) := by
  have entered : Timed p calls (s.enter now) := by
    unfold StopConfirm.enter
    split
    · exact timed
    · exact ⟨timed.settle, timed.stale⟩
  unfold StopConfirm.satisfied
  generalize s.enter now = t at entered
  simp only
  cases fresh : tel.velFresh with
  | false =>
    have first : Unbroken (fun z : ℤ × StopTelemetry R => z.2.velFresh = false) ((now, tel) :: calls) (now, tel) :=
      ⟨[], calls, rfl, fresh, by simp⟩
    cases stale : t.stale with
    | true =>
      obtain ⟨y, unbroken, at_⟩ := entered.stale stale
      have longer := unbroken.cons (x := (now, tel)) fresh
      simp only [Bool.not_false, if_true]
      refine ⟨⟨fun h => (by cases h), fun _ => ⟨y, longer, at_⟩⟩, fun held => .inr ⟨y, longer, ?_⟩⟩
      rw [at_]
      exact of_decide_eq_true held
    | false =>
      simp only [Bool.not_false, if_true, Bool.false_eq_true, if_false]
      exact ⟨⟨fun h => (by cases h), fun _ => ⟨_, first, rfl⟩⟩, fun held => .inr ⟨_, first, of_decide_eq_true held⟩⟩
  | true =>
    simp only [Bool.not_true, Bool.false_eq_true, if_false]
    by_cases below : tel.speed < p.stopSpeedThreshold ∧ fabs tel.yawRate < p.stopYawRateThreshold
    · have still : Still p tel := ⟨fresh, below⟩
      rw [if_pos below, if_neg positive]
      cases settle : t.settle with
      | false =>
        have first : Unbroken (fun z : ℤ × StopTelemetry R => Still p z.2) ((now, tel) :: calls) (now, tel) :=
          ⟨[], calls, rfl, still, by simp⟩
        exact ⟨⟨fun _ => ⟨_, first, rfl⟩, fun h => by cases h⟩, fun h => by cases h⟩
      | true =>
        obtain ⟨y, unbroken, at_⟩ := entered.settle settle
        have longer := unbroken.cons (x := (now, tel)) still
        simp only [Bool.not_true, Bool.false_eq_true, if_false]
        refine ⟨⟨fun _ => ⟨y, longer, at_⟩, fun h => by cases h⟩, fun held => .inl ⟨y, longer, ?_⟩⟩
        rw [at_]
        exact of_decide_eq_true held
    · rw [if_neg below]
      exact ⟨⟨fun h => (by cases h), fun h => by cases h⟩, fun h => by cases h⟩

/-! ### One step -/

/-- The heading error is inside the widest release band. -/
def Within (p : StopPivotParams R) (headingErr : R) : Prop :=
  fabs headingErr ≤ stdMin (stdMax p.headingTolerance p.timeoutHeadingTol) p.releaseMax

theorem headingOk_within {p : StopPivotParams R} (widen : ∀ a b c d : R, a ≤ stdMin b c → a ≤ stdMin (stdMax b d) c)
    {i : CornerInput R} {timedOut : Bool} (ok : CornerFsm.headingOk p i timedOut = true) : Within p i.headingErr := by
  have inside := of_decide_eq_true ok
  cases timedOut with
  | true => exact inside
  | false => exact widen _ _ _ _ inside

theorem watch_kept (c : CornerFsm R) (p : StopPivotParams R) (i : CornerInput R) :
    (c.watch p i).2.stopComplete = c.stopComplete ∧ (c.watch p i).2.settleActive = c.settleActive ∧
      (c.watch p i).2.settleSince = c.settleSince := by
  simp only [CornerFsm.watch]
  split <;> exact ⟨rfl, rfl, rfl⟩

/-- Since when the release gates have held, when they hold in this step. -/
def since (c : CornerFsm R) (i : CornerInput R) : ℤ := if c.settleActive then c.settleSince else i.now

theorem settle_cases (c : CornerFsm R) (p : StopPivotParams R) (i : CornerInput R) (timedOut : Bool) :
    ((c.settle p i timedOut).1 = false ∧ (c.settle p i timedOut).2.settleActive = false) ∨
    (c.stopComplete = true ∧ CornerFsm.headingOk p i timedOut = true ∧ (c.settle p i timedOut).2.settleSince = since c i ∧
      ((c.settle p i timedOut).1 = true → p.alignSettle ≤ nsToS (i.now - since c i))) := by
  simp only [CornerFsm.settle, since]
  split
  · rename_i gates
    simp only [Bool.and_eq_true] at gates
    right
    cases active : c.settleActive with
    | false => exact ⟨gates.1.1.1, gates.1.1.2, rfl, of_decide_eq_true⟩
    | true => exact ⟨gates.1.1.1, gates.1.1.2, rfl, of_decide_eq_true⟩
  · exact .inl ⟨rfl, rfl⟩

/-- How a step ends. -/
inductive Outcome (p : StopPivotParams R) (c : CornerFsm R) (stop : StopConfirm) (i : CornerInput R) :
    CornerOutput R × CornerFsm R × StopConfirm → Prop where
  | passed (o : CornerOutput R) (action : o.action = .advance) (silent : o.confirmed = none)
      (hard : ¬ i.cornerDeg < p.cornerThresholdDeg → c.stopComplete = true ∧ (∃ t, CornerFsm.headingOk p i t = true) ∧
        p.alignSettle ≤ nsToS (i.now - since c i))
      (d : CornerFsm R) (cleared : d.stopComplete = false ∧ d.settleActive = false) : Outcome p c stop i (o, d, stop.reset)
  | turning (o : CornerOutput R) (action : o.action = .settleBrake ∨ o.action = .pivot) (silent : o.confirmed = none)
      (stopped : c.stopComplete = true) (d : CornerFsm R) (kept : d.stopComplete = true)
      (active : d.settleActive = true → (∃ t, CornerFsm.headingOk p i t = true) ∧ d.settleSince = since c i) :
      Outcome p c stop i (o, d, stop)
  | asked (o : CornerOutput R) (action : o.action = .brake ∨ o.action = .pivot) (moving : c.stopComplete = false) (d : CornerFsm R)
      (answer : o.confirmed = some (stop.satisfied i.now i.tel p).1) (pivots : o.action = .pivot → (stop.satisfied i.now i.tel p).1 = true)
      (after : d.stopComplete = (stop.satisfied i.now i.tel p).1 ∧ d.settleActive = false) :
      Outcome p c stop i (o, d, (stop.satisfied i.now i.tel p).2)

theorem step_outcome (p : StopPivotParams R) (c : CornerFsm R) (stop : StopConfirm) (i : CornerInput R) :
    Outcome p c stop i (c.step stop p i) := by
  unfold CornerFsm.step
  obtain ⟨complete, active, started⟩ := watch_kept c p i
  simp only
  split
  · rename_i collinear
    exact .passed _ rfl rfl (fun hard => absurd collinear hard) _ ⟨rfl, rfl⟩
  rename_i hard
  generalize (c.watch p i).1 = timedOut
  generalize (c.watch p i).2 = w at complete active started ⊢
  have same : since w i = since c i := by rw [since, since, active, started]
  have settled := settle_cases w p i timedOut
  have kept := CornerFsm.settle_stopComplete w p i timedOut
  generalize w.settle p i timedOut = r at settled kept ⊢
  obtain ⟨done, d⟩ := r
  rw [complete, same] at settled
  rw [complete] at kept
  simp only at settled kept ⊢
  cases done with
  | true =>
    rcases settled with ⟨no, -⟩ | ⟨stopped, heading, -, late⟩
    · cases no
    · exact .passed _ rfl rfl (fun _ => ⟨stopped, ⟨_, heading⟩, late rfl⟩) _ ⟨rfl, rfl⟩
  | false =>
    have running : d.settleActive = true → (∃ t, CornerFsm.headingOk p i t = true) ∧ d.settleSince = since c i := by
      intro active
      rcases settled with ⟨-, idle⟩ | ⟨-, heading, start, -⟩
      · rw [idle] at active
        cases active
      · exact ⟨⟨_, heading⟩, start⟩
    simp only [Bool.false_eq_true, if_false]
    cases stopped : c.stopComplete with
    | true =>
      rw [stopped] at kept
      rw [kept]
      split
      · exact .turning _ (.inl rfl) rfl stopped _ rfl running
      · exact .turning _ (.inr rfl) rfl stopped _ rfl running
    | false =>
      rw [stopped] at kept settled
      have idle : d.settleActive = false := by
        rcases settled with ⟨-, idle⟩ | ⟨no, -⟩
        · exact idle
        · cases no
      rw [kept]
      simp only [Bool.false_and, Bool.false_eq_true, if_false]
      cases answer : stop.satisfied i.now i.tel p with
      | mk b s =>
        have after : s = (stop.satisfied i.now i.tel p).2 := by rw [answer]
        cases b with
        | false =>
          simp only
          rw [after]
          refine .asked _ (.inl rfl) stopped _ (by rw [answer]) (fun pivots => by cases pivots) ⟨by rw [answer], idle⟩
        | true =>
          simp only
          rw [after]
          exact .asked _ (.inr rfl) stopped _ (by rw [answer]) (fun _ => by rw [answer]) ⟨by rw [answer], idle⟩

/-! ### Every run -/

/-- What the history says about the machine. -/
structure Follows (p : StopPivotParams R) (h : List (Record R)) (s : Corner R) : Prop where
  timed : Timed p (asked h) s.stop
  complete : s.fsm.stopComplete = true → Stopped h
  active : s.fsm.settleActive = true →
    ∃ y, Unbroken (fun i => Within p i.headingErr) (steps h) y ∧ y.now = s.fsm.settleSince

/-- What an answer says about the calls before it. -/
structure Justified (p : StopPivotParams R) (x : Record R) (earlier : List (Record R)) : Prop where
  confirmed : ∀ now tel, asks x = some (now, tel, true) → Confirmed p now ((now, tel) :: asked earlier)
  turned : ∀ i o, x.event = .step i → x.out = .corner o → o.action = .pivot ∨ o.action = .settleBrake → Stopped (x :: earlier)
  released : ∀ i o, x.event = .step i → x.out = .corner o → ¬ i.cornerDeg < p.cornerThresholdDeg → o.action = .advance →
    Stopped earlier ∧
      ∃ y, Unbroken (fun j => Within p j.headingErr) (i :: steps earlier) y ∧ p.alignSettle ≤ nsToS (i.now - y.now)

theorem follows_cleared {p : StopPivotParams R} {h : List (Record R)} {x : Record R} {s : Corner R} (clear : clears x = true)
    (stop : StopConfirm) (same : s.stop = stop.reset) (fsm : s.fsm.stopComplete = false ∧ s.fsm.settleActive = false) :
    Follows p (x :: h) s := by
  refine ⟨?_, fun complete => ?_, fun active => ?_⟩
  · rw [same, asked, if_pos clear]
    exact timed_reset p stop
  · rw [fsm.1] at complete
    cases complete
  · rw [fsm.2] at active
    cases active

/-- A step inside the band carries the settle time on, or starts it. -/
theorem settled_since {p : StopPivotParams R} {h : List (Record R)} {s : Corner R} (follows : Follows p h s) (i : CornerInput R)
    (inside : Within p i.headingErr) :
    ∃ y, Unbroken (fun j => Within p j.headingErr) (i :: steps h) y ∧ y.now = since s.fsm i := by
  unfold since
  cases active : s.fsm.settleActive with
  | true =>
    obtain ⟨y, unbroken, start⟩ := follows.active active
    exact ⟨y, unbroken.cons inside, start⟩
  | false => exact ⟨i, ⟨[], steps h, rfl, inside, by simp⟩, rfl⟩

theorem follows_step {p : StopPivotParams R} (positive : ¬ p.stopDwell ≤ lit 0)
    (widen : ∀ a b c d : R, a ≤ stdMin b c → a ≤ stdMin (stdMax b d) c) {h : List (Record R)} {s : Corner R}
    (follows : Follows p h s) (i : CornerInput R) :
    Follows p (⟨.step i, (s.call p (.step i)).2⟩ :: h) (s.call p (.step i)).1 ∧
      Justified p ⟨.step i, (s.call p (.step i)).2⟩ h := by
  have outcome := step_outcome p s.fsm s.stop i
  simp only [call]
  generalize s.fsm.step s.stop p i = r at outcome ⊢
  cases outcome with
  | passed o action silent hard d cleared =>
    have clear : clears (⟨.step i, .corner o⟩ : Record R) = true := by simp [clears, action]
    refine ⟨follows_cleared clear s.stop rfl cleared, ⟨?_, ?_, ?_⟩⟩
    · intro now tel asked
      simp [asks, silent] at asked
    · rintro _ _ ⟨⟩ ⟨⟩ turned
      simp [action] at turned
    · rintro _ _ ⟨⟩ ⟨⟩ corner -
      obtain ⟨stopped, ⟨_, heading⟩, late⟩ := hard corner
      have inside := headingOk_within widen heading
      refine ⟨follows.complete stopped, ?_⟩
      obtain ⟨y, unbroken, start⟩ := settled_since follows i inside
      exact ⟨y, unbroken, start ▸ late⟩
  | turning o action silent stopped d kept active =>
    have goes : clears (⟨.step i, .corner o⟩ : Record R) = false := by rcases action with a | a <;> simp [clears, a]
    have none : asks (⟨.step i, .corner o⟩ : Record R) = .none := by simp [asks, silent]
    have still : Stopped (⟨.step i, .corner o⟩ :: h) := ⟨goes, .inr (.inr (follows.complete stopped))⟩
    refine ⟨⟨?_, fun _ => still, fun settling => ?_⟩, ⟨?_, ?_, ?_⟩⟩
    · rw [asked, goes, none]
      exact follows.timed
    · obtain ⟨⟨_, heading⟩, start⟩ := active settling
      rw [steps, goes]
      exact start ▸ settled_since follows i (headingOk_within widen heading)
    · intro now tel asked
      rw [none] at asked
      cases asked
    · rintro _ _ ⟨⟩ ⟨⟩ -
      exact still
    · rintro _ _ ⟨⟩ ⟨⟩ - released
      rcases action with a | a <;> rw [a] at released <;> cases released
  | asked o action moving d answer pivots after =>
    have goes : clears (⟨.step i, .corner o⟩ : Record R) = false := by rcases action with a | a <;> simp [clears, a]
    have asked' : asks (⟨.step i, .corner o⟩ : Record R) = some (i.now, i.tel, (s.stop.satisfied i.now i.tel p).1) := by
      simp [asks, answer]
    obtain ⟨timed, confirmed⟩ := satisfied_timed positive follows.timed i.now i.tel
    have stopped : (s.stop.satisfied i.now i.tel p).1 = true → Stopped (⟨.step i, .corner o⟩ :: h) := fun yes =>
      ⟨goes, .inr (.inl ⟨i, o, rfl, rfl, by rw [answer, yes]⟩)⟩
    refine ⟨⟨?_, fun complete => ?_, fun settling => ?_⟩, ⟨?_, ?_, ?_⟩⟩
    · rw [asked, goes, asked']
      exact timed
    · exact stopped (after.1.symm.trans complete)
    · rw [after.2] at settling
      cases settling
    · intro now tel yes
      obtain ⟨rfl, rfl, stops⟩ : i.now = now ∧ i.tel = tel ∧ (s.stop.satisfied i.now i.tel p).1 = true := by
        simpa [asked'] using yes
      exact confirmed stops
    · rintro _ _ ⟨⟩ ⟨⟩ turned
      rcases turned with pivot | settle
      · exact stopped (pivots pivot)
      · rcases action with a | a <;> rw [a] at settle <;> cases settle
    · rintro _ _ ⟨⟩ ⟨⟩ - released
      rcases action with a | a <;> rw [a] at released <;> cases released

theorem follows_call {p : StopPivotParams R} (positive : ¬ p.stopDwell ≤ lit 0)
    (widen : ∀ a b c d : R, a ≤ stdMin b c → a ≤ stdMin (stdMax b d) c) {h : List (Record R)} {s : Corner R}
    (follows : Follows p h s) (e : Call R) :
    Follows p (⟨e, (s.call p e).2⟩ :: h) (s.call p e).1 ∧ Justified p ⟨e, (s.call p e).2⟩ h := by
  cases e with
  | step i => exact follows_step positive widen follows i
  | satisfied now tel =>
    obtain ⟨timed, confirmed⟩ := satisfied_timed positive follows.timed now tel
    refine ⟨⟨timed, fun complete => ⟨rfl, .inr (.inr (follows.complete complete))⟩, follows.active⟩, ⟨?_, ?_, ?_⟩⟩
    · intro now' tel' yes
      obtain ⟨rfl, rfl, stops⟩ : now = now' ∧ tel = tel' ∧ (s.stop.satisfied now tel p).1 = true := by
        simpa [asks, call] using yes
      exact confirmed stops
    · rintro _ _ ⟨⟩
    · rintro _ _ ⟨⟩
  | carry =>
    refine ⟨⟨follows.timed, fun _ => ⟨rfl, .inl rfl⟩, follows.active⟩, ⟨?_, ?_, ?_⟩⟩
    · rintro _ _ ⟨⟩
    · rintro _ _ ⟨⟩
    · rintro _ _ ⟨⟩
  | reset =>
    refine ⟨follows_cleared rfl s.stop rfl ⟨rfl, rfl⟩, ⟨?_, ?_, ?_⟩⟩
    · rintro _ _ ⟨⟩
    · rintro _ _ ⟨⟩
    · rintro _ _ ⟨⟩

/-- A measured motion of a vehicle whose stop was not confirmed before brakes at a corner, whatever the timers say. -/
def Brakes (p : StopPivotParams R) (x : Record R) (earlier : List (Record R)) : Prop :=
  ∀ i o, x.event = .step i → x.out = .corner o → ¬ i.cornerDeg < p.cornerThresholdDeg → i.tel.velFresh = true →
    ¬ Still p i.tel → ¬ Stopped earlier → o.action = .brake

theorem Confirmed.last {p : StopPivotParams R} {now : ℤ} {tel : StopTelemetry R} {calls : List (ℤ × StopTelemetry R)}
    (confirmed : Confirmed p now ((now, tel) :: calls)) : Still p tel ∨ tel.velFresh = false := by
  rcases confirmed with ⟨_, unbroken, -⟩ | ⟨_, unbroken, -⟩
  · exact .inl unbroken.head
  · exact .inr unbroken.head

theorem Justified.brakes {p : StopPivotParams R} {x : Record R} {earlier : List (Record R)} (justified : Justified p x earlier) :
    Brakes p x earlier := by
  intro i o event out hard fresh moving unstopped
  have turned : ¬ (o.action = .pivot ∨ o.action = .settleBrake) := by
    intro action
    obtain ⟨-, carried | ⟨j, o', event', out', asked⟩ | before⟩ := justified.turned i o event out action
    · rw [event] at carried
      cases carried
    · obtain ⟨rfl⟩ := Call.step.inj (event.symm.trans event')
      obtain ⟨rfl⟩ := Answer.corner.inj (out.symm.trans out')
      rcases (justified.confirmed i.now i.tel (by simp [asks, event, out, asked])).last with still | stale
      · exact moving still
      · rw [fresh] at stale
        cases stale
    · exact unstopped before
  cases action : o.action with
  | brake => rfl
  | pivot => exact absurd (.inl action) turned
  | settleBrake => exact absurd (.inr action) turned
  | advance => exact absurd (justified.released i o event out hard action).1 unstopped

/-- Over every run: a confirmation has its reason, a pivot has a confirmed stop, a release has both and its settle time, and
a motion brakes. -/
theorem run_justified {p : StopPivotParams R} (positive : ¬ p.stopDwell ≤ lit 0)
    (widen : ∀ a b c d : R, a ≤ stdMin b c → a ≤ stdMin (stdMax b d) c) {h : List (Record R)} {s : Corner R}
    (run : Run (call p) start h s) : Everywhere (fun x earlier => Justified p x earlier ∧ Brakes p x earlier) h := by
  refine (run.invariant (fun h s => Follows p h s ∧ Everywhere (fun x earlier => Justified p x earlier ∧ Brakes p x earlier) h)
    ⟨⟨?_, ?_, ?_⟩, trivial⟩ ?_).2
  · exact ⟨fun h => (by cases h), fun h => by cases h⟩
  · exact fun h => by cases h
  · exact fun h => by cases h
  · rintro h s e ⟨follows, all⟩ -
    obtain ⟨next, justified⟩ := follows_call positive widen follows e
    exact ⟨next, ⟨justified, justified.brakes⟩, all⟩

/-- A right angle: the vehicle brakes, turns and is released. -/
def rightAngle : List (Call Flt) :=
  let tel (speed yawRate : ℚ) : StopTelemetry Flt :=
    { velFresh := true, speed := .fin speed, vForward := .fin speed, yawRate := .fin yawRate }
  let corner (now : ℤ) (headingErr speed yawRate : ℚ) : Call Flt :=
    .step { now, headingErr := .fin headingErr, cornerDeg := .fin 90, tel := tel speed yawRate, turnAngle := .nan }
  [corner 0 (3 / 2) (1 / 4) 0, corner 200000000 (3 / 2) 0 0, corner 600000000 (3 / 2) 0 0, corner 900000000 1 0 (1 / 2),
    corner 2000000000 (1 / 50) 0 0, corner 2400000000 (1 / 50) 0 0]

def stopParams : StopPivotParams Flt :=
  { stopSpeedThreshold := .fin (3 / 100), stopYawRateThreshold := .fin (5 / 100), stopDwell := .fin (3 / 10)
    brakeVelocityCap := .fin (3 / 10), alignSpeedThreshold := .fin (5 / 100), alignSettle := .fin (3 / 10)
    headingTolerance := .fin (3 / 100), timeoutHeadingTol := .fin (1 / 10), releaseMax := .fin (15 / 100)
    spinupMargin := .fin 2, nominalPivotRate := .fin (45 / 100), turnTimeout := .fin 4, pivotTimeoutMax := .fin 12
    cornerThresholdDeg := .fin 25, cornerSpeed := .fin (1 / 10), staleVelHold := .fin 2 }

theorem run_justified_rightAngle :
    (exec (call stopParams) [] start rightAngle).1.reverse.filterMap
        (fun x => match x.out with
          | .corner o => some o.action
          | _ => none) = [.brake, .brake, .pivot, .pivot, .settleBrake, .advance] ∧
      Everywhere (fun x earlier => Justified stopParams x earlier ∧ Brakes stopParams x earlier)
        (exec (call stopParams) [] start rightAngle).1 :=
  ⟨by decide +kernel, run_justified (by decide +kernel) Flt.le_widened (exec_run _ .start)⟩

end Corner

end Dyx3.RppCore
