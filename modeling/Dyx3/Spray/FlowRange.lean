import Dyx3.Lib.Run
import Dyx3.Spray.Params

/-!
The flow modulator (`flow_model`) and the order of the actuator values that it interpolates between.

`off_value`, `min_flow_value` and `on_value` are checked one by one, so that a batch can put them out of order; and a
modulator keeps the values it was built with.
-/

namespace Dyx3.Spray

open Lib

structure FlowModulator where
  minFlowValue : Flt
  onValue : Flt
  rated : Flt
  maxSlew : Flt
  lo : Flt
  hi : Flt
  last : Flt
  deriving DecidableEq

namespace FlowModulator

def make (minFlowValue onValue ratedMarkingSpeed maxSlewPerS : Flt) : FlowModulator where
  minFlowValue
  onValue
  rated := Flt.max (.fin (1 / 1000000)) ratedMarkingSpeed
  maxSlew := Flt.max (.fin 0) maxSlewPerS
  lo := Flt.min minFlowValue onValue
  hi := Flt.max minFlowValue onValue
  last := minFlowValue

def reset (m : FlowModulator) : FlowModulator := { m with last := m.minFlowValue }

def target (m : FlowModulator) (speed : Flt) : Flt :=
  let frac := Flt.min (.fin 1) (Flt.max (.fin 0) speed / m.rated)
  let t := m.minFlowValue + (m.onValue - m.minFlowValue) * frac
  Flt.max m.lo (Flt.min m.hi t)

def update (m : FlowModulator) (speed dt : Flt) : FlowModulator :=
  let target := m.target speed
  let dt := Flt.max (.fin 0) dt
  if .fin 0 < m.maxSlew ∧ .fin 0 < dt then
    let maxStep := m.maxSlew * dt
    let delta := target - m.last
    { m with last := m.last + (if maxStep < delta then maxStep else if delta < -maxStep then -maxStep else delta) }
  else { m with last := target }

end FlowModulator

/-- The parameters with the part of the controller that modulates the flow. -/
structure FlowState where
  params : ParamSet := {}
  flow : Option FlowModulator := none
  commandedFlow : Option Flt := none
  prevCommanded : Bool := false

namespace FlowState

/-- `commanded` is the FSM's, `manualActive` the controller's. -/
def updateFlow (s : FlowState) (speed dt : Flt) (commanded manualActive : Bool) : FlowState :=
  let rising := commanded && !s.prevCommanded
  let s := { s with prevCommanded := commanded }
  let enabled := s.params.flag .flowModulationEnabled && s.params.str .actuatorBackend = "mavlink_actuator" && !manualActive
  if !enabled then { s with flow := none, commandedFlow := none }
  else
    let built := FlowModulator.make (s.params.num .minFlowValue) (s.params.num .onValue)
      (s.params.num .ratedMarkingSpeedMps) (s.params.num .maxFlowSlewPerS)
    -- a modulator that is just built is at the floor already
    let m := s.flow.getD built
    let m := if rising ∨ s.flow = none then m.reset else m
    if !commanded then { s with flow := some m, commandedFlow := none }
    else
      let m := m.update speed dt
      { s with flow := some m, commandedFlow := some m.last }

inductive Event where
  | initMany (items : List Item)
  | setMany (items : List Item) (missionRunning : Bool)
  | updateFlow (speed dt : Flt) (commanded manualActive : Bool)

/-- The value that is commanded after the event. A refused batch changes nothing. -/
def step (s : FlowState) : Event → FlowState × Option Flt
  | .initMany items => ((s.params.initMany items).toOption.elim s fun params => { s with params }, none)
  | .setMany items running => ((s.params.setMany items running).toOption.elim s fun params => { s with params }, none)
  | .updateFlow speed dt commanded manualActive =>
    let s := s.updateFlow speed dt commanded manualActive
    (s, s.commandedFlow)

end FlowState

namespace ParamSet

def InOrder (p : ParamSet) : Prop := p.num .offValue ≤ p.num .minFlowValue ∧ p.num .minFlowValue ≤ p.num .onValue

/-- What a batch proposes for a parameter: its last item for it, else the value there is. -/
def proposed (p : ParamSet) (items : List Item) (i : P) : Flt :=
  ((lastWhere (fun it => it.name = (descriptor i).name) items).map Item.num).getD (p.num i)

/-- Each item has a name, is let through by the class rule and fits its descriptor. -/
def Admitted (refuse : P → Item → Option String) (items : List Item) : Prop :=
  ∀ it ∈ items, ∃ i, findIndex it.name = some i ∧ refuse i it = none ∧ validate (descriptor i) it.num it.str = none

theorem findIndex_descriptor (i : P) : findIndex (descriptor i).name = some i := by
  cases i
  all_goals decide +kernel

variable {refuse : P → Item → Option String} {p q : ParamSet} {items : List Item}

theorem apply_admitted (accepted : p.apply refuse items = .ok q) : Admitted refuse items := by
  induction items generalizing p with
  | nil => exact fun it member => absurd member List.not_mem_nil
  | cons it rest ih =>
    unfold apply at accepted
    split at accepted
    · cases accepted
    rename_i i found
    split at accepted
    · cases accepted
    rename_i allowed
    split at accepted
    · cases accepted
    rename_i valid
    exact List.forall_mem_cons.mpr ⟨⟨i, found, allowed, valid⟩, ih accepted⟩

/-- An accepted batch sets what it proposes. -/
theorem apply_proposed (accepted : p.apply refuse items = .ok q) (i : P) : q.num i = p.proposed items i := by
  induction items generalizing p with
  | nil =>
    obtain rfl := Except.ok.inj accepted
    rfl
  | cons it rest ih =>
    unfold apply at accepted
    split at accepted
    · cases accepted
    rename_i j found
    split at accepted
    · cases accepted
    split at accepted
    · cases accepted
    have name := findIndex_name found
    rw [ih accepted, proposed, proposed, ← List.singleton_append, lastWhere_append, lastWhere_singleton]
    cases lastWhere (fun it => it.name = (descriptor i).name) rest with
    | some later => rfl
    | none =>
      by_cases same : i = j
      · subst same
        simp [put, name]
      · have other : it.name ≠ (descriptor i).name := by
          intro equal
          have again := findIndex_descriptor i
          rw [← equal, found] at again
          exact same (Option.some.inj again).symm
        simp [put, same, other]

/-- The batch does not put the three values out of order. -/
def KeepsOrder (p : ParamSet) (refuse : P → Item → Option String) (items : List Item) : Prop :=
  Admitted refuse items → p.proposed items .offValue ≤ p.proposed items .minFlowValue ∧
    p.proposed items .minFlowValue ≤ p.proposed items .onValue

theorem apply_inOrder (keeps : p.KeepsOrder refuse items) (accepted : p.apply refuse items = .ok q) : q.InOrder := by
  have order := keeps (apply_admitted accepted)
  rwa [InOrder, apply_proposed accepted, apply_proposed accepted, apply_proposed accepted]

end ParamSet

/-! ### What a modulator commands -/

namespace FlowModulator

/-- Built from values in order, and between them. -/
structure Sound (m : FlowModulator) (floor ceiling : ℚ) : Prop where
  minFlowValue : m.minFlowValue = .fin floor
  onValue : m.onValue = .fin ceiling
  order : floor ≤ ceiling
  lo : m.lo = .fin floor
  hi : m.hi = .fin ceiling
  rated : ∃ r, 0 < r ∧ m.rated = .fin r
  maxSlew : ∃ s, m.maxSlew = .fin s
  last : ∃ x, m.last = .fin x ∧ floor ≤ x ∧ x ≤ ceiling

variable {m : FlowModulator} {floor ceiling : ℚ}

theorem max_fin (x y : ℚ) : Flt.max (.fin x) (.fin y) = .fin (max x y) := by
  rw [Flt.max]
  split
  · rename_i below
    rw [max_eq_right (Flt.fin_lt.mp below).le]
  · rename_i above
    rw [max_eq_left (not_lt.mp (mt Flt.fin_lt.mpr above))]

theorem min_fin (x y : ℚ) : Flt.min (.fin x) (.fin y) = .fin (min x y) := by
  rw [Flt.min]
  split
  · rename_i below
    rw [min_eq_right (Flt.fin_lt.mp below).le]
  · rename_i above
    rw [min_eq_left (not_lt.mp (mt Flt.fin_lt.mpr above))]

theorem make_sound (order : floor ≤ ceiling) (rated slew : ℚ) :
    (make (.fin floor) (.fin ceiling) (.fin rated) (.fin slew)).Sound floor ceiling where
  minFlowValue := rfl
  onValue := rfl
  order := order
  lo := (min_fin floor ceiling).trans (by rw [min_eq_left order])
  hi := (max_fin floor ceiling).trans (by rw [max_eq_right order])
  rated := ⟨_, lt_max_of_lt_left (by norm_num), max_fin _ _⟩
  maxSlew := ⟨_, max_fin _ _⟩
  last := ⟨floor, rfl, le_rfl, order⟩

theorem Sound.reset (sound : m.Sound floor ceiling) : m.reset.Sound floor ceiling :=
  { sound with last := ⟨floor, sound.minFlowValue, le_rfl, sound.order⟩ }

/-- At or above zero; NaN is taken for zero. -/
theorem max_zero (a : Flt) : (∃ x, 0 ≤ x ∧ Flt.max (.fin 0) a = .fin x) ∨ Flt.max (.fin 0) a = .inf false := by
  rcases a with _ | (_ | _) | x
  · exact .inl ⟨0, le_rfl, rfl⟩
  · exact .inr rfl
  · exact .inl ⟨0, le_rfl, rfl⟩
  · exact .inl ⟨max 0 x, le_max_left 0 x, max_fin 0 x⟩

/-- The share of the rated speed is a number. -/
theorem Sound.frac (sound : m.Sound floor ceiling) (speed : Flt) :
    ∃ f, Flt.min (.fin 1) (Flt.max (.fin 0) speed / m.rated) = .fin f := by
  obtain ⟨r, positive, rated⟩ := sound.rated
  rw [rated]
  rcases max_zero speed with ⟨x, -, finite⟩ | infinite
  · have ratio : Flt.fin x / Flt.fin r = .fin (x / r) := if_neg positive.ne'
    rw [finite, ratio]
    exact ⟨_, min_fin _ _⟩
  · rw [infinite]
    have ratio : Flt.inf false / Flt.fin r = .inf false := by
      show Flt.inf (false != decide (r < 0)) = .inf false
      rw [decide_eq_false (not_lt.mpr positive.le)]
      rfl
    rw [ratio]
    exact ⟨1, rfl⟩

theorem Sound.target (sound : m.Sound floor ceiling) (speed : Flt) :
    ∃ t, m.target speed = .fin t ∧ floor ≤ t ∧ t ≤ ceiling := by
  obtain ⟨f, frac⟩ := sound.frac speed
  refine ⟨max floor (min ceiling (floor + (ceiling - floor) * f)), ?_, le_max_left _ _, ?_⟩
  · unfold FlowModulator.target
    simp only [frac, sound.lo, sound.hi, sound.minFlowValue, sound.onValue]
    show Flt.max (.fin floor) (Flt.min (.fin ceiling) (.fin (floor + (ceiling + -floor) * f))) = _
    rw [min_fin, max_fin, sub_eq_add_neg]
  · exact max_le sound.order (min_le_left _ _)

theorem Sound.update (sound : m.Sound floor ceiling) (speed dt : Flt) : (m.update speed dt).Sound floor ceiling := by
  obtain ⟨t, target, low, high⟩ := sound.target speed
  obtain ⟨x, last, above, below⟩ := sound.last
  obtain ⟨s, slew⟩ := sound.maxSlew
  unfold FlowModulator.update
  extract_lets target' dt' maxStep delta
  have delta_fin : delta = .fin (t - x) := by
    show m.target speed - m.last = _
    rw [target, last, sub_eq_add_neg]
    rfl
  split
  · rename_i limited
    refine { sound with last := ?_ }
    show ∃ y, m.last + (if maxStep < delta then maxStep else if delta < -maxStep then -maxStep else delta) = .fin y ∧ _
    rw [delta_fin, last]
    rcases max_zero dt with ⟨d, nonneg, finite⟩ | infinite
    · have step : maxStep = .fin (s * d) := by
        show m.maxSlew * Flt.max (.fin 0) dt = _
        rw [slew, finite]
        rfl
      have forward : 0 < s * d := by
        obtain ⟨first, second⟩ := limited
        rw [slew, Flt.fin_lt] at first
        rw [show dt' = .fin d from finite, Flt.fin_lt] at second
        exact mul_pos first second
      rw [step, Flt.neg_fin]
      split
      · rename_i rises
        rw [Flt.fin_lt] at rises
        exact ⟨x + s * d, rfl, by linarith, by linarith⟩
      · split
        · rename_i falls
          rw [Flt.fin_lt] at falls
          exact ⟨x + -(s * d), rfl, by linarith, by linarith⟩
        · exact ⟨x + (t - x), rfl, by linarith, by linarith⟩
    · have step : maxStep = .inf false := by
        obtain ⟨first, -⟩ := limited
        show m.maxSlew * Flt.max (.fin 0) dt = _
        rw [slew, Flt.fin_lt] at first
        rw [slew, infinite]
        show Flt.infTimes false s = _
        rw [Flt.infTimes, if_neg first.ne', decide_eq_false (not_lt.mpr first.le)]
        rfl
      rw [step]
      exact ⟨x + (t - x), rfl, by linarith, by linarith⟩
  · exact { sound with last := ⟨t, target, low, high⟩ }

end FlowModulator

/-! ### Over a run -/

theorem validate_finite {d : Descriptor} (number : d.kind ≠ .string) {num : Flt} {str : String} (valid : validate d num str = none) :
    ∃ x, num = .fin x := by
  unfold validate at valid
  rw [if_neg number] at valid
  split at valid
  · exact ⟨_, rfl⟩
  · cases valid

namespace FlowState

/-- The values that are numbers are finite. -/
def Finite (p : ParamSet) : Prop := ∀ i, (descriptor i).kind ≠ .string → ∃ x, p.num i = .fin x

theorem finite_default : Finite {} := fun i number => validate_finite number (ParamSet.defaults_valid i)

theorem finite_apply {refuse : P → Item → Option String} {p q : ParamSet} {items : List Item} (finite : Finite p)
    (accepted : p.apply refuse items = .ok q) : Finite q := by
  intro i number
  rcases ParamSet.apply_origin accepted i with ⟨same, -⟩ | ⟨it, -, -, -, num, -, valid⟩
  · rw [same]
    exact finite i number
  · rw [num]
    exact validate_finite number valid

/-- A batch keeps the order, and a modulator that is in use was built from the values there are. -/
def Meets (_ : List (Entry Event (Option Flt))) (s : FlowState) : Event → Prop
  | .initMany items => s.params.KeepsOrder (fun _ _ => none) items
  | .setMany items running => s.params.KeepsOrder (ParamSet.classRule running) items
  | .updateFlow .. => ∀ m ∈ s.flow, m.minFlowValue = s.params.num .minFlowValue ∧ m.onValue = s.params.num .onValue

/-- What the modulator commands now is between the actuator values. -/
def InRange (h : List (Entry Event (Option Flt))) (s : FlowState) : Prop :=
  ∀ e ∈ h.head?, ∀ v ∈ e.out, s.params.num .offValue ≤ v ∧ v ≤ s.params.num .onValue

structure Inv (s : FlowState) : Prop where
  order : s.params.InOrder
  finite : Finite s.params
  flow : ∀ m ∈ s.flow, ∃ floor ceiling, m.Sound floor ceiling

theorem Inv.apply {s : FlowState} (inv : s.Inv) {refuse : P → Item → Option String} {items : List Item}
    (keeps : s.params.KeepsOrder refuse items) :
    ((s.params.apply refuse items).toOption.elim s fun params => { s with params }).Inv := by
  cases outcome : s.params.apply refuse items with
  | error reason => exact inv
  | ok q => exact ⟨ParamSet.apply_inOrder keeps outcome, finite_apply inv.finite outcome, inv.flow⟩

theorem Inv.updateFlow {s : FlowState} (inv : s.Inv)
    (fresh : ∀ m ∈ s.flow, m.minFlowValue = s.params.num .minFlowValue ∧ m.onValue = s.params.num .onValue)
    (speed dt : Flt) (commanded manualActive : Bool) :
    (s.updateFlow speed dt commanded manualActive).Inv ∧
      ∀ v ∈ (s.updateFlow speed dt commanded manualActive).commandedFlow,
        (s.updateFlow speed dt commanded manualActive).params.num .offValue ≤ v ∧
          v ≤ (s.updateFlow speed dt commanded manualActive).params.num .onValue := by
  obtain ⟨order, finite, flow⟩ := inv
  obtain ⟨off, offValue⟩ := finite .offValue (by decide)
  obtain ⟨floor, minFlowValue⟩ := finite .minFlowValue (by decide)
  obtain ⟨ceiling, onValue⟩ := finite .onValue (by decide)
  obtain ⟨rated, ratedSpeed⟩ := finite .ratedMarkingSpeedMps (by decide)
  obtain ⟨slew, maxSlew⟩ := finite .maxFlowSlewPerS (by decide)
  obtain ⟨low, high⟩ := order
  have ordered : off ≤ floor ∧ floor ≤ ceiling := by
    rw [offValue, minFlowValue, Flt.fin_le] at low
    rw [minFlowValue, onValue, Flt.fin_le] at high
    exact ⟨low, high⟩
  have modulator : (s.flow.getD (.make (.fin floor) (.fin ceiling) (.fin rated) (.fin slew))).Sound floor ceiling := by
    cases there : s.flow with
    | none => exact FlowModulator.make_sound ordered.2 rated slew
    | some m =>
      obtain ⟨a, b, sound⟩ := flow m there
      obtain ⟨first, second⟩ := fresh m there
      rw [sound.minFlowValue, minFlowValue] at first
      rw [sound.onValue, onValue] at second
      obtain rfl : a = floor := Flt.fin.inj first
      obtain rfl : b = ceiling := Flt.fin.inj second
      exact sound
  unfold FlowState.updateFlow
  extract_lets rising s' enabled built m m' m''
  have started : m'.Sound floor ceiling := by
    have here : m.Sound floor ceiling := by
      show (s.flow.getD (.make (s.params.num .minFlowValue) (s.params.num .onValue) (s.params.num .ratedMarkingSpeedMps)
        (s.params.num .maxFlowSlewPerS))).Sound floor ceiling
      rwa [minFlowValue, onValue, ratedSpeed, maxSlew]
    unfold m'
    split
    · exact here.reset
    · exact here
  split
  · exact ⟨⟨⟨low, high⟩, finite, by simp⟩, by simp⟩
  · split
    · refine ⟨⟨⟨low, high⟩, finite, ?_⟩, by simp⟩
      rintro m ⟨⟩
      exact ⟨floor, ceiling, started⟩
    · have moved : m''.Sound floor ceiling := started.update speed dt
      refine ⟨⟨⟨low, high⟩, finite, ?_⟩, ?_⟩
      · rintro m ⟨⟩
        exact ⟨floor, ceiling, moved⟩
      · rintro v ⟨⟩
        obtain ⟨x, last, above, below⟩ := moved.last
        show s.params.num .offValue ≤ m''.last ∧ m''.last ≤ s.params.num .onValue
        rw [last, offValue, onValue, Flt.fin_le, Flt.fin_le]
        exact ⟨ordered.1.trans above, below⟩

/-- In a run whose batches keep the order and whose modulator is never out of date, the actuator values stay in order and
every commanded value is between them. -/
theorem flow_inRange {h : List (Entry Event (Option Flt))} {s : FlowState} (run : RunIf step Meets {} h s) :
    s.params.InOrder ∧ InRange h s := by
  have kept : s.Inv ∧ InRange h s := by
    apply run.invariant fun h s => s.Inv ∧ InRange h s
    · refine ⟨⟨⟨?_, ?_⟩, finite_default, by simp⟩, by simp [InRange]⟩
      · decide +kernel
      · decide +kernel
    · rintro h s e ⟨inv, -⟩ meets
      cases e with
      | initMany items => exact ⟨inv.apply meets, by simp [InRange, step]⟩
      | setMany items running => exact ⟨inv.apply meets, by simp [InRange, step]⟩
      | updateFlow speed dt commanded manualActive =>
        obtain ⟨after, bounds⟩ := inv.updateFlow meets speed dt commanded manualActive
        refine ⟨after, ?_⟩
        rintro e ⟨⟩ v out
        exact bounds v out
  exact ⟨kept.1.order, kept.2⟩

/-- The modulator is switched on and built from half the flow that was the default, then it runs for a second. -/
def halfFlow : List Event :=
  [.setMany [⟨"flow_modulation_enabled", .fin 1, ""⟩, ⟨"on_value", .fin (1 / 2), ""⟩] false, .updateFlow (.fin 1) (.fin 1) true false]

theorem halfFlow_meets : Guarded step Meets [] {} halfFlow := by
  refine ⟨fun _ => ?_, ?_, trivial⟩
  · decide +kernel
  · have unbuilt : (step {} (.setMany [⟨"flow_modulation_enabled", .fin 1, ""⟩, ⟨"on_value", .fin (1 / 2), ""⟩] false)).1.flow = none := by
      decide +kernel
    intro m used
    rw [unbuilt] at used
    cases used

theorem flow_inRange_half : (exec step [] {} halfFlow).2.params.InOrder ∧
    InRange (exec step [] {} halfFlow).1 (exec step [] {} halfFlow).2 :=
  flow_inRange (exec_runIf halfFlow halfFlow_meets .start)

/-- An `on_value` below the floor is accepted. -/
theorem flow_outOfOrder :
    ¬∀ (h : List (Entry Event (Option Flt))) (s : FlowState), Run step {} h s → s.params.InOrder ∧ InRange h s := by
  intro claim
  have order := (claim _ _ (exec_run [.setMany [⟨"on_value", .fin (-1), ""⟩] false] .start)).1.2
  revert order
  decide +kernel

/-- Every batch keeps the order, but the modulator still has the `on_value` it was built with. -/
theorem flow_stale : ∃ (h : List (Entry Event (Option Flt))) (s : FlowState), Run step {} h s ∧ s.params.InOrder ∧ ¬InRange h s := by
  refine ⟨_, _, exec_run [.setMany [⟨"flow_modulation_enabled", .fin 1, ""⟩] false, .updateFlow (.fin 0) (.fin 0) false false,
    .setMany [⟨"on_value", .fin (1 / 2), ""⟩] false, .updateFlow (.fin 1) (.fin 1) true false] .start, ⟨?_, ?_⟩, ?_⟩
  · decide +kernel
  · decide +kernel
  · intro range
    have bound := (range _ rfl (.fin 1) (by decide +kernel)).2
    revert bound
    decide +kernel

end FlowState

end Dyx3.Spray
