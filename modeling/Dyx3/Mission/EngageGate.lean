import Dyx3.Mission.Running

/-!
When the mission node asks PX4 to arm or to go OFFBOARD: in the callback that enters ARMING or ENGAGING, with the
pre-arm gate ok, and never while such a request is still waiting from an earlier state.
-/

namespace Dyx3.Mission

open Lib Px4Sequencer

namespace Node

def request? : Output → Option Px4Request
  | .request r => some r
  | _ => none

/-- The PX4 requests among the outputs, oldest first. -/
def requests (out : List Output) : List Px4Request := out.filterMap request?

/-- The state an engage request belongs to; a release has none. -/
def engageState : Px4Op → Option State
  | .arm => some .arming
  | .offboardOn => some .engaging
  | .offboardOff | .disarm => none

/-- The engage step that may be queued or in flight: the one of the state whose entry action was done. -/
def allowed (n : Node) : List Px4Op :=
  if n.enteredChanges ≠ n.fsm.changes then []
  else match n.fsm.state with
    | .arming => [.arm]
    | .engaging => [.offboardOn]
    | _ => []

def px4Idle (n : Node) : Prop := n.px4.queue = [] ∧ n.px4.flights = []

/-- A node inside a callback, before its requests go out. -/
structure Clean (t : Clock) (n : Node) : Prop where
  shaped : Shaped n.px4
  released : n.fsm.terminal = true → n.px4.releasing = true
  live : n.fsm.terminal = false → n.px4.releasing = false
  queued : n.fsm.terminal = false → ∀ op ∈ n.px4.queue, op ∈ n.allowed
  flying : n.fsm.terminal = false → ∀ f ∈ n.px4.flights, f.req.op ∈ n.allowed
  one : n.fsm.terminal = false → n.px4.queue.length + n.px4.flights.length ≤ 1
  confirmed : n.fsm.reengageConfirmed = true → n.fsm.state = .engaging ∧ n.enteredChanges = n.fsm.changes ∧ n.px4Idle
  gated : n.fsm.terminal = false → n.px4.queue ≠ [] → (n.preArmOk t).1 = true ∧ logs n.out ≠ []
  behind : n.enteredChanges ≤ n.fsm.changes
  silent : requests n.out = []
  first : logs n.out = [] → n.enteredChanges = n.fsm.changes
  latest : ∀ m tr, (logs n.out).getLast? = some (m, tr) → m = n.fsm.missionId ∧ tr.dst = n.fsm.state

/-- Everything the requests depend on is as it was. -/
structure Still (n n' : Node) : Prop where
  fsm : n'.fsm = n.fsm
  px4 : n'.px4 = n.px4
  entered : n'.enteredChanges = n.enteredChanges
  gate : n'.gate = n.gate
  params : n'.params = n.params
  logs : logs n'.out = logs n.out
  requests : requests n'.out = requests n.out

variable {t : Clock} {n n' : Node}

theorem Still.rfl' : Still n n := ⟨rfl, rfl, rfl, rfl, rfl, rfl, rfl⟩

theorem Still.trans {a b c : Node} (first : Still a b) (second : Still b c) : Still a c :=
  ⟨second.fsm.trans first.fsm, second.px4.trans first.px4, second.entered.trans first.entered,
    second.gate.trans first.gate, second.params.trans first.params, second.logs.trans first.logs,
    second.requests.trans first.requests⟩

/-- A change of other fields first. -/
theorem Still.after {a b c : Node} (second : Still b c) (first : Still a b) : Still a c := first.trans second

theorem preArmOk_congr (gate : n'.gate = n.gate) (params : n'.params = n.params) (t : Clock) :
    n'.preArmOk t = n.preArmOk t := by
  simp only [preArmOk, verdict, gate, params]

theorem allowed_congr (fsm : n'.fsm = n.fsm) (entered : n'.enteredChanges = n.enteredChanges) : n'.allowed = n.allowed := by
  simp only [allowed, fsm, entered]

theorem Clean.still (clean : Clean t n) (still : Still n n') : Clean t n' := by
  obtain ⟨fsm, px4, entered, gate, params, logs, requests⟩ := still
  have allowed := allowed_congr fsm entered
  have preArm := preArmOk_congr gate params t
  constructor
  · rw [px4]; exact clean.shaped
  · rw [fsm, px4]; exact clean.released
  · rw [fsm, px4]; exact clean.live
  · rw [fsm, px4, allowed]; exact clean.queued
  · rw [fsm, px4, allowed]; exact clean.flying
  · rw [fsm, px4]; exact clean.one
  · rw [fsm, entered, px4Idle, px4]; exact clean.confirmed
  · rw [fsm, px4, preArm, logs]; exact clean.gated
  · rw [fsm, entered]; exact clean.behind
  · rw [requests]; exact clean.silent
  · rw [fsm, entered, logs]; exact clean.first
  · rw [fsm, logs]; exact clean.latest

/-! ### Silent changes -/

theorem still_emit (n : Node) {o : Output} (log : logged? o = none) (req : request? o = none) : Still n (n.emit o) :=
  ⟨rfl, rfl, rfl, rfl, rfl, by simp [emit, Node.logs, log], by simp [emit, Node.requests, req]⟩

theorem still_publishState (n : Node) : Still n n.publishState :=
  .trans (b := { n with dirty := false }) ⟨rfl, rfl, rfl, rfl, rfl, rfl, rfl⟩ (still_emit _ rfl rfl)

theorem still_publishPoints (n : Node) (evs : List PointEvent) : Still n (n.publishPoints evs) := by
  induction evs generalizing n with
  | nil => exact .rfl'
  | cons ev evs ih => exact .trans (still_emit n rfl rfl) (ih (n.publishPoint ev))

theorem still_launchProgressJob (n : Node) : Still n n.launchProgressJob := by
  unfold launchProgressJob
  split
  · exact .rfl'
  · exact ⟨rfl, rfl, rfl, rfl, rfl, rfl, rfl⟩

theorem still_noteProgress (n : Node) (t : Clock) : Still n (n.noteProgress t) := by
  unfold noteProgress
  split
  · exact .rfl'
  · exact (still_launchProgressJob _).after ⟨rfl, rfl, rfl, rfl, rfl, rfl, rfl⟩

theorem still_recordResolved (n : Node) (t : Clock) (evs : List PointEvent) : Still n (n.recordResolved t evs) := by
  unfold recordResolved
  split
  · exact .rfl'
  · exact (still_noteProgress _ t).after ⟨rfl, rfl, rfl, rfl, rfl, rfl, rfl⟩

theorem still_pollProgress (n : Node) : Still n n.pollProgress := by
  unfold pollProgress
  split
  · exact (still_launchProgressJob _).after ⟨rfl, rfl, rfl, rfl, rfl, rfl, rfl⟩
  · exact .rfl'

theorem still_finishJournal (n : Node) : Still n n.finishJournal := by
  unfold finishJournal
  split
  · exact (still_publishPoints _ _).after ⟨rfl, rfl, rfl, rfl, rfl, rfl, rfl⟩
  · exact .rfl'

theorem still_unloadOnError (n : Node) : Still n n.unloadOnError := by
  unfold unloadOnError
  split
  · exact ⟨rfl, rfl, rfl, rfl, rfl, rfl, rfl⟩
  · exact .rfl'

/-- A terminal state is entered with a release. -/
theorem onTerminalEntry_still (n : Node) :
    ∃ force, Still { n with px4 := n.px4.release force } n.onTerminalEntry := by
  refine ⟨n.onTerminalEntry.fsm.reason = reasonEstop, ?_⟩
  have finished := still_finishJournal { n with dirty := true }
  have unloaded := still_unloadOnError { { n with dirty := true }.finishJournal with readySince := none }
  have all : Still n { { { n with dirty := true }.finishJournal with readySince := none }.unloadOnError with px4 := n.px4 } := by
    obtain ⟨fsm, px4, entered, gate, params, logs, requests⟩ := finished
    obtain ⟨fsm', px4', entered', gate', params', logs', requests'⟩ := unloaded
    exact ⟨fsm'.trans fsm, rfl, entered'.trans entered, gate'.trans gate, params'.trans params, logs'.trans logs,
      requests'.trans requests⟩
  have px4 := unloaded.px4.trans finished.px4
  unfold onTerminalEntry
  dsimp only
  exact ⟨all.fsm, by rw [px4], all.entered, all.gate, all.params, all.logs, all.requests⟩

/-- What an event does besides the state machine: it is logged, and a terminal state that is entered releases. -/
structure Fired (n n' : Node) (s : MissionFsm.Step) : Prop where
  fsm : n'.fsm = s.fsm
  entered : n'.enteredChanges = n.enteredChanges
  gate : n'.gate = n.gate
  params : n'.params = n.params
  logs : logs n'.out = Node.logs n.out ++ [(s.fsm.missionId, s.logged)]
  requests : requests n'.out = Node.requests n.out
  px4 : (n'.px4 = n.px4 ∧ (s.fsm.terminal = true → s.logged.refused = true ∨ s.logged.src = s.logged.dst)) ∨
    (s.fsm.terminal = true ∧ ∃ force, n'.px4 = n.px4.release force)

theorem fire_fired (n : Node) (t : Clock) (c : MissionFsm.Call) : Fired n (n.fire t c) (n.fsm.call t.steady c) := by
  obtain ⟨m, made⟩ : ∃ m : Node, m = { n with fsm := (n.fsm.call t.steady c).fsm }.emit
      (.logged (n.fsm.call t.steady c).fsm.missionId (n.fsm.call t.steady c).logged) := ⟨_, rfl⟩
  have fsm : m.fsm = (n.fsm.call t.steady c).fsm := by rw [made]; rfl
  have logs : logs m.out = Node.logs n.out ++ [((n.fsm.call t.steady c).fsm.missionId, (n.fsm.call t.steady c).logged)] := by
    rw [made]
    simp [emit, Node.logs, logged?]
  have requests : requests m.out = Node.requests n.out := by
    rw [made]
    simp [emit, Node.requests, request?]
  have same : m.px4 = n.px4 ∧ m.enteredChanges = n.enteredChanges ∧ m.gate = n.gate ∧ m.params = n.params := by
    rw [made]
    exact ⟨rfl, rfl, rfl, rfl⟩
  obtain ⟨px4, entered, gate, params⟩ := same
  unfold fire
  dsimp only
  rw [← made]
  split
  · rename_i quiet
    simp only [Bool.or_eq_true, Bool.and_eq_true, decide_eq_true_eq] at quiet
    exact ⟨fsm, entered, gate, params, logs, requests, .inl ⟨px4, fun _ => quiet.imp_right And.left⟩⟩
  · cases ended : m.fsm.terminal with
    | false =>
      simp only [Bool.false_eq_true, if_false]
      refine ⟨fsm, entered, gate, params, (still_publishState m).logs.trans logs,
        (still_publishState m).requests.trans requests, .inl ⟨px4, fun yes => ?_⟩⟩
      rw [← fsm, ended] at yes
      cases yes
    | true =>
      obtain ⟨force, entry⟩ := onTerminalEntry_still m
      have shown := entry.trans (still_publishState _)
      simp only [if_true]
      exact ⟨shown.fsm.trans fsm, shown.entered.trans entered, shown.gate.trans gate, shown.params.trans params,
        shown.logs.trans logs, shown.requests.trans requests, .inr ⟨fsm ▸ ended, force, by rw [shown.px4, px4]⟩⟩

theorem Fired.shaped {s : MissionFsm.Step} (fired : Fired n n' s) (shaped : Shaped n.px4) : Shaped n'.px4 := by
  rcases fired.px4 with ⟨same, _⟩ | ⟨_, force, released⟩
  · rw [same]; exact shaped
  · rw [released]; exact shaped.release force

theorem Fired.latest {s : MissionFsm.Step} (fired : Fired n n' s) (dst : s.logged.dst = s.fsm.state) {m : ℕ} {tr : Transition}
    (last : (Node.logs n'.out).getLast? = some (m, tr)) : m = n'.fsm.missionId ∧ tr.dst = n'.fsm.state := by
  rw [fired.logs, List.getLast?_concat] at last
  cases last
  rw [fired.fsm]
  exact ⟨rfl, dst⟩

/-- An event that leaves the state. -/
theorem Clean.fire_stays {c : MissionFsm.Call} (clean : Clean t n) (stays : MissionFsm.Stays n.fsm (n.fsm.call t.steady c))
    (confirms : (n.fsm.call t.steady c).fsm.reengageConfirmed = true →
      n.fsm.state = .engaging ∧ n.enteredChanges = n.fsm.changes ∧ n.px4Idle) :
    Clean t (n.fire t c) := by
  have fired := fire_fired n t c
  have terminal : (n.fire t c).fsm.terminal = n.fsm.terminal := by
    rw [fired.fsm]
    simp only [MissionFsm.terminal, stays.state]
  have allowed : (n.fire t c).allowed = n.allowed := by
    simp only [Node.allowed, fired.fsm, fired.entered, stays.state, stays.changes]
  have same : n.fsm.terminal = false → (n.fire t c).px4 = n.px4 := by
    intro live
    rcases fired.px4 with ⟨same, _⟩ | ⟨ended, _⟩
    · exact same
    · rw [← fired.fsm, terminal, live] at ended
      cases ended
  constructor
  · exact fired.shaped clean.shaped
  · intro ended
    rcases fired.px4 with ⟨same, _⟩ | ⟨_, force, released⟩
    · rw [same]
      exact clean.released (terminal ▸ ended)
    · rw [released]
      exact release_releasing n.px4 force
  · intro live
    rw [terminal] at live
    rw [same live]
    exact clean.live live
  · intro live
    rw [terminal] at live
    rw [same live, allowed]
    exact clean.queued live
  · intro live
    rw [terminal] at live
    rw [same live, allowed]
    exact clean.flying live
  · intro live
    rw [terminal] at live
    rw [same live]
    exact clean.one live
  · intro confirmed
    rw [fired.fsm] at confirmed
    obtain ⟨engaging, entered, idle⟩ := confirms confirmed
    have live : n.fsm.terminal = false := by simp [MissionFsm.terminal, engaging]
    rw [fired.fsm, stays.state, fired.entered, stays.changes, px4Idle, same live]
    exact ⟨engaging, entered, idle⟩
  · intro live waiting
    rw [terminal] at live
    rw [same live] at waiting
    rw [preArmOk_congr fired.gate fired.params, fired.logs]
    exact ⟨(clean.gated live waiting).1, by simp⟩
  · rw [fired.entered, fired.fsm, stays.changes]
    exact clean.behind
  · rw [fired.requests]
    exact clean.silent
  · rw [fired.logs]
    intro no
    simp at no
  · intro m tr last
    exact fired.latest (stays.dst.trans stays.state.symm) last

/-- Only a start leaves a terminal state. -/
theorem moves_terminal {f : MissionFsm} {c : MissionFsm.Call} {dst : State} (moves : MissionFsm.Moves f c dst)
    (other : c ≠ .start true) (ended : f.terminal = true) : dst = .error := by
  have states : f.state = .completed ∨ f.state = .aborted ∨ f.state = .error := by
    simpa [MissionFsm.terminal, or_assoc] using ended
  have inactive : f.active = false := by simp [MissionFsm.active, ended]
  cases moves with
  | start => exact absurd rfl other
  | rppError => rfl
  | abort active | estop active =>
    rw [inactive] at active
    cases active
  | gateLost before => rcases states with at_ | at_ | at_ <;> simp [MissionFsm.beforeRunning, at_] at before
  | notLoaded | notPlaced | notArmed | notEngaged | reengageTimeout | ekfReset | rppAckTimeout => rfl
  | ekfPause at_ | loaded at_ | placed at_ | armed at_ | engaged at_ | rppAck at_ | pause at_ | resume at_ | reengage at_
  | reengaged at_ | rppComplete at_ | safetyPause at_ | rppStale at_ | rppPivotTimeout at_ =>
    rcases states with here | here | here <;> simp [here] at at_

/-- A confirmation is new only in ENGAGING, and outlives only a change between ARMING and ENGAGING. -/
def Confirms (f : MissionFsm) (c : MissionFsm.Call) (s : MissionFsm.Step) : Prop :=
  s.fsm.reengageConfirmed = true →
    (f.reengageConfirmed = true ∨ ((∃ ok reason detail, c = .engaged ok reason detail) ∧ f.state = .engaging)) ∧
      (s.fsm.state = f.state ∨ s.fsm.state = .arming ∨ s.fsm.state = .engaging)

theorem call_confirms (f : MissionFsm) (now : ℤ) (c : MissionFsm.Call) : Confirms f c (f.call now c) := by
  have refused : ∀ event why detail, Confirms f c (f.refuse event why detail now) :=
    fun _ _ _ confirmed => ⟨.inl confirmed, .inl rfl⟩
  have unchanged : ∀ event detail, Confirms f c (f.okNoChange event detail now) :=
    fun _ _ confirmed => ⟨.inl confirmed, .inl rfl⟩
  have goes : ∀ (g : MissionFsm) dst event reason detail gateReason,
      (g.reengageConfirmed = true → f.reengageConfirmed = true) →
        Confirms f c (g.go dst event reason detail now gateReason) := by
    intro g dst event reason detail gateReason old confirmed
    simp only [MissionFsm.go, MissionFsm.record] at confirmed ⊢
    split at confirmed
    · exact ⟨.inl (old confirmed), .inr ‹_›⟩
    · cases confirmed
  cases c with
  | engaged ok reason detail =>
    simp only [MissionFsm.call, MissionFsm.engaged, MissionFsm.step]
    by_cases again : f.state = .engaging ∧ f.reengaging ∧ ok
    · rw [if_pos again]
      split
      · exact unchanged _ _
      · exact fun _ => ⟨.inr ⟨⟨_, _, _, rfl⟩, again.1⟩, .inl rfl⟩
    · rw [if_neg again]
      repeat' split
      · exact refused _ _ _
      · exact goes f _ _ _ _ _ id
      · exact goes f _ _ _ _ _ id
  | reengage =>
    simp only [MissionFsm.call, MissionFsm.reengage]
    repeat' split
    · exact unchanged _ _
    · exact refused _ _ _
    · exact goes _ _ _ _ _ _ fun no => absurd no Bool.false_ne_true
  | start preArmOk =>
    simp only [MissionFsm.call, MissionFsm.start]
    repeat' split
    · exact refused _ _ _
    · exact refused _ _ _
    · exact goes { f with missionId := f.missionId + 1 } _ _ _ _ _ id
  | _ =>
    simp only [MissionFsm.call, MissionFsm.artifactLoaded, MissionFsm.placed, MissionFsm.armed,
      MissionFsm.rppAck, MissionFsm.pause, MissionFsm.resume, MissionFsm.reengageGate, MissionFsm.reengageTimeout,
      MissionFsm.abort, MissionFsm.rppComplete, MissionFsm.rppError, MissionFsm.gateLost, MissionFsm.estop,
      MissionFsm.ekfReset, MissionFsm.rppStale, MissionFsm.rppPivotTimeout, MissionFsm.rppAckTimeout, MissionFsm.skipPoint,
      MissionFsm.step]
    repeat' split
    all_goals
      first
        | with_reducible exact refused _ _ _
        | with_reducible exact unchanged _ _
        | with_reducible exact goes f _ _ _ _ _ id

/-- An event that changes the state, when nothing is queued or in flight unless it ends the mission. -/
theorem Clean.fire_goes {c : MissionFsm.Call} (clean : Clean t n) (goes : MissionFsm.Goes n.fsm c (n.fsm.call t.steady c))
    (other : c ≠ .start true) (idle : (n.fsm.call t.steady c).fsm.terminal = false → n.px4Idle) : Clean t (n.fire t c) := by
  have unconfirmed : (n.fsm.call t.steady c).fsm.reengageConfirmed ≠ true := by
    intro confirmed
    obtain ⟨before, stands⟩ := call_confirms n.fsm t.steady c confirmed
    have engaging : n.fsm.state = .engaging := before.elim (fun old => (clean.confirmed old).1) And.right
    have moves := goes.moves
    rw [engaging] at stands
    rcases stands with here | here | here <;> rw [here] at moves <;> cases moves <;> simp_all
  have fired := fire_fired n t c
  have terminal : (n.fire t c).fsm.terminal = (n.fsm.call t.steady c).fsm.terminal := by rw [fired.fsm]
  have lives : (n.fsm.call t.steady c).fsm.terminal = false → n.fsm.terminal = false := by
    intro live
    by_contra ended
    have error := moves_terminal goes.moves other (Bool.eq_true_of_not_eq_false ended)
    simp [MissionFsm.terminal, error] at live
  have same : (n.fire t c).fsm.terminal = false → (n.fire t c).px4 = n.px4 := by
    intro live
    rcases fired.px4 with ⟨same, _⟩ | ⟨ended, _⟩
    · exact same
    · rw [← terminal, live] at ended
      cases ended
  have empty : (n.fire t c).fsm.terminal = false → (n.fire t c).px4.queue = [] ∧ (n.fire t c).px4.flights = [] := by
    intro live
    rw [same live]
    exact idle (terminal ▸ live)
  constructor
  · exact fired.shaped clean.shaped
  · intro ended
    rcases fired.px4 with ⟨same, quiet⟩ | ⟨_, force, released⟩
    · rw [same]
      refine clean.released ?_
      rcases quiet (terminal ▸ ended) with refused | here
      · rw [goes.accepted] at refused
        cases refused
      · rw [terminal] at ended
        simp only [MissionFsm.terminal] at ended ⊢
        rwa [← goes.src, here, goes.dst]
    · rw [released]
      exact release_releasing n.px4 force
  · intro live
    rw [same live]
    exact clean.live (lives (terminal ▸ live))
  · intro live
    rw [(empty live).1]
    simp
  · intro live
    rw [(empty live).2]
    simp
  · intro live
    rw [(empty live).1, (empty live).2]
    exact Nat.zero_le _
  · rw [fired.fsm]
    exact fun confirmed => absurd confirmed unconfirmed
  · intro live waiting
    exact absurd (empty live).1 waiting
  · rw [fired.entered, fired.fsm, goes.changes]
    exact clean.behind.trans (Nat.le_succ _)
  · rw [fired.requests]
    exact clean.silent
  · rw [fired.logs]
    intro no
    simp at no
  · intro m tr last
    exact fired.latest goes.dst last

/-- The events that no PX4 answer stands behind. -/
def Ordinary : MissionFsm.Call → Prop
  | .start true | .armed .. | .engaged .. => False
  | _ => True

/-- Before an ordinary event changes the state of a mission that goes on, nothing is queued or in flight. -/
theorem Clean.idle {c : MissionFsm.Call} (clean : Clean t n) (goes : MissionFsm.Goes n.fsm c (n.fsm.call t.steady c))
    (ordinary : Ordinary c) (live : (n.fsm.call t.steady c).fsm.terminal = false) : n.px4Idle := by
  have other : c ≠ .start true := by
    rintro rfl
    exact ordinary
  have before : n.fsm.terminal = false := by
    by_contra ended
    have error := moves_terminal goes.moves other (Bool.eq_true_of_not_eq_false ended)
    simp [MissionFsm.terminal, error] at live
  have elsewhere : n.fsm.state ≠ .arming → n.fsm.state ≠ .engaging → n.px4Idle := by
    intro notArming notEngaging
    have none : n.allowed = [] := by
      unfold allowed
      split
      · rfl
      · split
        · exact absurd ‹_› notArming
        · exact absurd ‹_› notEngaging
        · rfl
    have queued := clean.queued before
    have flying := clean.flying before
    rw [none] at queued flying
    exact ⟨List.eq_nil_iff_forall_not_mem.mpr fun op member => List.not_mem_nil (queued op member),
      List.eq_nil_iff_forall_not_mem.mpr fun f member => List.not_mem_nil (flying f member)⟩
  have moves := goes.moves
  generalize (n.fsm.call t.steady c).fsm = next at moves live
  obtain ⟨dst, at_⟩ : ∃ dst, next.state = dst := ⟨_, rfl⟩
  rw [at_] at moves
  cases moves with
  | start => exact absurd rfl other
  | armed | engaged => exact ordinary.elim
  | reengaged _ _ confirmed => exact (clean.confirmed confirmed).2.2
  | notLoaded | notPlaced | notArmed | notEngaged | reengageTimeout | abort | rppComplete | rppError | gateLost | estop
  | ekfReset | rppAckTimeout => simp [MissionFsm.terminal, at_] at live
  | ekfPause here => rcases here with here | here | here <;> exact elsewhere (by simp [here]) (by simp [here])
  | loaded here | placed here | rppAck here | pause here | resume here | reengage here | safetyPause here | rppStale here
  | rppPivotTimeout here => exact elsewhere (by simp [here]) (by simp [here])

theorem Clean.fire {c : MissionFsm.Call} (clean : Clean t n) (ordinary : Ordinary c) : Clean t (n.fire t c) := by
  rcases MissionFsm.call_cases n.fsm t.steady c with stays | goes
  · refine clean.fire_stays stays fun confirmed => ?_
    rcases (call_confirms n.fsm t.steady c confirmed).1 with old | ⟨⟨ok, reason, detail, rfl⟩, _⟩
    · exact clean.confirmed old
    · exact ordinary.elim
  · refine clean.fire_goes goes ?_ (clean.idle goes ordinary)
    rintro rfl
    exact ordinary

/-- The waiting requests are none or belong to a release. -/
def Settled (n : Node) : Prop := n.fsm.terminal = true ∨ n.px4Idle

/-- An event of a PX4 answer, when that answer was the only one waited for. -/
theorem Clean.fire_idle {c : MissionFsm.Call} (clean : Clean t n) (other : c ≠ .start true)
    (entered : n.enteredChanges = n.fsm.changes) (idle : n.px4Idle) : Clean t (n.fire t c) ∧ Settled (n.fire t c) := by
  have fired := fire_fired n t c
  refine ⟨?_, ?_⟩
  · rcases MissionFsm.call_cases n.fsm t.steady c with stays | goes
    · refine clean.fire_stays stays fun confirmed => ?_
      rcases (call_confirms n.fsm t.steady c confirmed).1 with old | ⟨_, engaging⟩
      · exact clean.confirmed old
      · exact ⟨engaging, entered, idle⟩
    · exact clean.fire_goes goes other fun _ => idle
  · rcases fired.px4 with ⟨same, _⟩ | ⟨ended, _⟩
    · exact .inr (by rw [px4Idle, same]; exact idle)
    · exact .inl (by rw [fired.fsm]; exact ended)

/-! ### The parts of a callback -/

theorem Clean.pollLoad (clean : Clean t n) : Clean t (n.pollLoad t) := by
  unfold Node.pollLoad
  split
  · dsimp only
    have taken : Clean t { n with loadJob := .none } := clean.still ⟨rfl, rfl, rfl, rfl, rfl, rfl, rfl⟩
    split
    · split
      · exact taken.fire trivial
      · exact Clean.fire (taken.still ⟨rfl, rfl, rfl, rfl, rfl, rfl, rfl⟩) trivial
    · exact taken
  · exact clean

theorem Clean.pollPlace (clean : Clean t n) : Clean t (n.pollPlace t) := by
  unfold Node.pollPlace
  split
  · dsimp only
    have taken : Clean t { n with placeJob := .none } := clean.still ⟨rfl, rfl, rfl, rfl, rfl, rfl, rfl⟩
    split
    · exact taken
    split
    · exact taken.fire trivial
    split
    · exact taken.fire trivial
    split
    · exact taken.fire trivial
    split
    · exact Clean.fire (taken.still ⟨rfl, rfl, rfl, rfl, rfl, rfl, rfl⟩) trivial
    · exact Clean.fire (taken.still ⟨rfl, rfl, rfl, rfl, rfl, rfl, rfl⟩) trivial
  · exact clean

theorem Clean.confirmReengage (clean : Clean t n) : Clean t (n.confirmReengage t) := by
  unfold Node.confirmReengage
  split
  · dsimp only
    have noted : Clean t { n with reengageConfirmedAt := some t.steady } := clean.still ⟨rfl, rfl, rfl, rfl, rfl, rfl, rfl⟩
    split
    · exact noted.fire trivial
    · exact noted
  · exact clean

/-- An answer to the step the state waits for. -/
theorem Clean.handlePx4 (clean : Clean t n) (entered : n.enteredChanges = n.fsm.changes) (idle : n.px4Idle) (o : Px4Outcome) :
    Clean t (n.handlePx4 t o) := by
  unfold Node.handlePx4
  dsimp only
  have noted : Clean t { n with dirty := true } := clean.still ⟨rfl, rfl, rfl, rfl, rfl, rfl, rfl⟩
  split
  · exact noted
  split
  · split
    · exact (noted.fire_idle (by simp) entered idle).1
    · exact noted
  · split
    · have fired := fun ok reason detail => noted.fire_idle (c := .engaged ok reason detail) (by simp) entered idle
      exact (fired _ _ _).1.confirmReengage
    · exact noted
  all_goals
    split
    · exact noted
    · exact noted.still ⟨rfl, rfl, rfl, rfl, rfl, rfl, rfl⟩

/-- After the end of a mission an answer changes nothing but the note of the release. -/
theorem handlePx4_terminal (n : Node) (t : Clock) (o : Px4Outcome) (ended : n.fsm.terminal = true) :
    Still n (n.handlePx4 t o) := by
  have elsewhere : n.fsm.state ≠ .arming ∧ n.fsm.state ≠ .engaging := by
    constructor <;> intro here <;> simp [MissionFsm.terminal, here] at ended
  unfold Node.handlePx4
  dsimp only
  split
  · exact ⟨rfl, rfl, rfl, rfl, rfl, rfl, rfl⟩
  split
  · rw [if_neg elsewhere.1]
    exact ⟨rfl, rfl, rfl, rfl, rfl, rfl, rfl⟩
  · rw [if_neg elsewhere.2]
    exact ⟨rfl, rfl, rfl, rfl, rfl, rfl, rfl⟩
  all_goals
    split
    · exact ⟨rfl, rfl, rfl, rfl, rfl, rfl, rfl⟩
    · exact ⟨rfl, rfl, rfl, rfl, rfl, rfl, rfl⟩

/-- Answers are taken in: in a mission that goes on at most one, to the step its state waits for. -/
theorem Clean.answered {px4 : Px4Sequencer} {out : List Px4Outcome} (clean : Clean t n) (settles : Settles n.px4 px4 out) :
    Clean t (out.foldl (fun n o => n.handlePx4 t o) { n with px4 }) := by
  have short : px4.flights.length ≤ n.px4.flights.length := settles.left.length_le
  have taken : Clean t { n with px4 } := by
    refine ⟨clean.shaped.settles settles, fun ended => settles.releasing.trans (clean.released ended),
      fun live => settles.releasing.trans (clean.live live), fun live => ?_, fun live f member => ?_, fun live => ?_,
      fun confirmed => ?_, fun live waiting => ?_, clean.behind, clean.silent, clean.first, clean.latest⟩
    · exact settles.queue ▸ clean.queued live
    · exact clean.flying live f (settles.left.subset member)
    · have one := clean.one live
      rw [← settles.queue] at one
      exact le_trans (Nat.add_le_add_left short _) one
    · obtain ⟨engaging, entered, queue, flights⟩ := clean.confirmed confirmed
      have left := settles.left
      rw [flights] at left
      exact ⟨engaging, entered, settles.queue.trans queue, List.sublist_nil.mp left⟩
    · exact clean.gated live (settles.queue ▸ waiting)
  cases ended : n.fsm.terminal with
  | true =>
    have kept : ∀ (out : List Px4Outcome) (k : Node), k.fsm.terminal = true → Clean t k →
        Clean t (out.foldl (fun n o => n.handlePx4 t o) k) := by
      intro out
      induction out with
      | nil => exact fun k _ clean => clean
      | cons o out ih =>
        intro k ended clean
        have still := handlePx4_terminal k t o ended
        exact ih _ (still.fsm ▸ ended) (clean.still still)
    exact kept out _ ended taken
  | false =>
    have one := clean.one ended
    have count := settles.ids.length_eq
    simp only [List.length_append, List.length_map] at count
    match out, settles, count with
    | [], _, _ => exact taken
    | [o], settles, count =>
      rw [List.length_singleton] at count
      have idle : ({ n with px4 } : Node).px4Idle := by
        refine ⟨settles.queue.trans (List.length_eq_zero_iff.mp (by omega)), List.length_eq_zero_iff.mp ?_⟩
        show px4.flights.length = 0
        omega
      obtain ⟨f, member, _⟩ := settles.origin o List.mem_cons_self
      have entered : n.enteredChanges = n.fsm.changes := by
        by_contra open_
        have step := clean.flying ended f member
        rw [allowed, if_pos open_] at step
        cases step
      exact taken.handlePx4 entered idle o
    | _ :: _ :: _, _, count => simp only [List.length_cons] at count; omega

theorem Clean.tickPx4 (clean : Clean t n) : Clean t (n.tickPx4 t) := clean.answered (onTick_settles n.px4 t.steady)

/-- A state was entered whose entry action is still owed. -/
theorem Clean.entered (clean : Clean t n) (open_ : n.enteredChanges ≠ n.fsm.changes) :
    Clean t { n with enteredChanges := n.fsm.changes } ∧ (n.fsm.terminal = false → n.px4Idle) ∧ logs n.out ≠ [] ∧
      n.fsm.reengageConfirmed ≠ true := by
  have none : n.allowed = [] := by
    unfold allowed
    rw [if_pos open_]
  have idle : n.fsm.terminal = false → n.px4Idle := by
    intro live
    have queued := clean.queued live
    have flying := clean.flying live
    rw [none] at queued flying
    exact ⟨List.eq_nil_iff_forall_not_mem.mpr fun op member => List.not_mem_nil (queued op member),
      List.eq_nil_iff_forall_not_mem.mpr fun f member => List.not_mem_nil (flying f member)⟩
  have unconfirmed : n.fsm.reengageConfirmed ≠ true := fun confirmed => open_ (clean.confirmed confirmed).2.1
  refine ⟨⟨clean.shaped, clean.released, clean.live, fun live op member => ?_, fun live f member => ?_, clean.one,
    fun confirmed => absurd confirmed unconfirmed, clean.gated, Nat.le_refl _, clean.silent, fun _ => rfl, clean.latest⟩,
    idle, fun silent => open_ (clean.first silent), unconfirmed⟩
  · rw [show ({ n with enteredChanges := n.fsm.changes } : Node).px4.queue = [] from (idle live).1] at member
    exact absurd member List.not_mem_nil
  · rw [show ({ n with enteredChanges := n.fsm.changes } : Node).px4.flights = [] from (idle live).2] at member
    exact absurd member List.not_mem_nil

/-- The engage step of the state just entered, with the pre-arm gate ok. -/
theorem Clean.engage {op : Px4Op} (clean : Clean t n) (idle : n.fsm.terminal = false → n.px4Idle) (logged : logs n.out ≠ [])
    (unconfirmed : n.fsm.reengageConfirmed ≠ true) (entered : n.enteredChanges = n.fsm.changes)
    (belongs : engageState op = some n.fsm.state) (passed : (n.preArmOk t).1 = true) :
    Clean t { n with px4 := n.px4.engage op } := by
  have live : n.fsm.terminal = false := by
    cases op <;> simp only [engageState, Option.some.injEq, reduceCtorEq] at belongs <;>
      simp [MissionFsm.terminal, ← belongs]
  obtain ⟨queue, flights⟩ := idle live
  have open_ : n.px4.releasing = false := clean.live live
  have step : op.isRelease = false := by cases op <;> first | rfl | cases belongs
  have engaged : n.px4.engage op = { n.px4 with queue := [op] } := by
    rw [Px4Sequencer.engage, if_neg (by simp [open_, step]), queue]
    rfl
  have mine : op ∈ n.allowed := by
    unfold allowed
    rw [if_neg (by simp [entered])]
    cases op <;> simp only [engageState, Option.some.injEq, reduceCtorEq] at belongs <;> simp [← belongs]
  have shaped : Shaped (n.px4.engage op) := clean.shaped.call (.engage op)
  rw [engaged] at shaped ⊢
  refine ⟨shaped, fun ended => absurd (live.symm.trans ended) Bool.false_ne_true, fun _ => open_, fun _ o queued => ?_,
    fun _ f member => ?_, fun _ => ?_, fun confirmed => absurd confirmed unconfirmed, fun _ _ => ⟨passed, logged⟩, clean.behind,
    clean.silent, clean.first, clean.latest⟩
  · rw [List.mem_singleton.mp queued]
    exact mine
  · rw [show ({ n with px4 := { n.px4 with queue := [op] } } : Node).px4.flights = [] from flights] at member
    exact absurd member List.not_mem_nil
  · show [op].length + n.px4.flights.length ≤ 1
    rw [flights]
    exact Nat.le_refl _

/-- The entry action of the state that was entered. -/
theorem Clean.enter (clean : Clean t n) (idle : n.fsm.terminal = false → n.px4Idle) (logged : logs n.out ≠ [])
    (unconfirmed : n.fsm.reengageConfirmed ≠ true) (entered : n.enteredChanges = n.fsm.changes) :
    Clean t (n.enter t n.fsm.state) := by
  have noted : Clean t { n with dirty := true } := clean.still ⟨rfl, rfl, rfl, rfl, rfl, rfl, rfl⟩
  have engages : ∀ op, engageState op = some n.fsm.state → (({ n with dirty := true } : Node).preArmOk t).1 = true →
      Clean t { n with dirty := true, px4 := n.px4.engage op } :=
    fun op belongs passed => noted.engage idle logged unconfirmed entered belongs passed
  unfold Node.enter
  dsimp only
  split
  · exact noted.still ⟨rfl, rfl, rfl, rfl, rfl, rfl, rfl⟩
  · split
    · exact noted.fire trivial
    · split
      · exact noted.fire trivial
      · exact noted.still ⟨rfl, rfl, rfl, rfl, rfl, rfl, rfl⟩
    · exact noted.fire trivial
  · rename_i here
    split
    · split
      · exact noted.fire trivial
      · exact noted.fire trivial
    · rename_i passed
      exact engages .arm (by rw [here]; rfl) (by simpa using passed)
  · rename_i here
    split
    · split
      · exact noted.fire trivial
      · exact noted.fire trivial
    · rename_i passed
      rw [if_neg (by simp [here])]
      exact engages .offboardOn (by rw [here]; rfl) (by simpa using passed)
  · exact noted.still ⟨rfl, rfl, rfl, rfl, rfl, rfl, rfl⟩
  · exact noted

theorem Clean.enterAll (fuel : ℕ) (clean : Clean t n) : Clean t (Node.enterAll t fuel n).1 := by
  induction fuel generalizing n with
  | zero => exact clean
  | succ fuel ih =>
    unfold Node.enterAll
    split
    · exact clean
    · rename_i open_
      obtain ⟨begun, idle, logged, unconfirmed⟩ := clean.entered open_
      exact ih (begun.enter idle logged unconfirmed rfl)

/-- A node between two callbacks: every entered state had its entry action, and no engage step is queued. -/
structure Rest (n : Node) : Prop where
  shaped : Shaped n.px4
  released : n.fsm.terminal = true → n.px4.releasing = true
  live : n.fsm.terminal = false → n.px4.releasing = false
  queue : n.fsm.terminal = false → n.px4.queue = []
  flying : n.fsm.terminal = false → ∀ f ∈ n.px4.flights, f.req.op ∈ n.allowed
  one : n.fsm.terminal = false → n.px4.flights.length ≤ 1
  confirmed : n.fsm.reengageConfirmed = true → n.fsm.state = .engaging ∧ n.px4Idle
  entered : n.enteredChanges = n.fsm.changes

/-- How an engage request goes out: the state it belongs to was entered in this callback, which ends in it, with the
pre-arm gate ok. -/
structure Gated (t : Clock) (n : Node) (before after : List Output) (s : State) : Prop where
  state : n.fsm.state = s
  preArm : (n.preArmOk t).1 = true
  entered : ∃ tr, (logs before).getLast? = some (n.fsm.missionId, tr) ∧ tr.dst = s
  settled : logs after = []

/-- The end of a callback. -/
structure Done (t : Clock) (n : Node) : Prop extends Rest n where
  gated : ∀ before r after s, n.out = before ++ .request r :: after → engageState r.op = some s →
    Gated t n before after s

theorem Rest.clean (rest : Rest n) (t : Clock) {gate : Gate} (out : n.out = []) : Clean t { n with gate } := by
  refine ⟨rest.shaped, rest.released, rest.live, fun live op member => ?_, rest.flying, fun live => ?_, fun confirmed => ?_,
    fun live waiting => absurd (rest.queue live) waiting, rest.entered.le, ?_, fun _ => rest.entered, fun m tr last => ?_⟩
  · rw [rest.queue live] at member
    exact absurd member List.not_mem_nil
  · show n.px4.queue.length + n.px4.flights.length ≤ 1
    rw [rest.queue live, List.length_nil, Nat.zero_add]
    exact rest.one live
  · obtain ⟨engaging, idle⟩ := rest.confirmed confirmed
    exact ⟨engaging, rest.entered, idle⟩
  · show requests n.out = []
    rw [out]
    rfl
  · rw [show ({ n with gate } : Node).out = [] from out] at last
    cases last

/-! ### What goes out -/

theorem split_silent {sent rest before after : List Output} {r : Px4Request} (silent : requests sent = [])
    (split : sent ++ rest = before ++ .request r :: after) : ∃ between, before = sent ++ between ∧
      rest = between ++ .request r :: after := by
  rcases List.append_eq_append_iff.mp split with ⟨between, longer, tail⟩ | ⟨between, longer, tail⟩
  · exact ⟨between, longer, tail⟩
  · cases between with
    | nil =>
      rw [List.append_nil] at longer
      exact ⟨[], by rw [longer, List.append_nil], tail.symm⟩
    | cons o between =>
      obtain rfl := (List.cons.inj tail).1
      rw [longer] at silent
      simp [requests, request?] at silent

/-- What sending adds: requests from the queue, and nothing else changes but the sequencer. -/
structure Sends (n n' : Node) (added : List Output) : Prop where
  out : n'.out = n.out ++ added
  logs : logs added = []
  origin : ∀ r, .request r ∈ added → r.op ∈ n.px4.queue
  fsm : n'.fsm = n.fsm
  entered : n'.enteredChanges = n.enteredChanges
  gate : n'.gate = n.gate
  params : n'.params = n.params

theorem sendAll_sends (t : Clock) (fuel : ℕ) (n : Node) :
    ∃ added, Sends n (sendAll t fuel n) added ∧ (Shaped n.px4 → Shaped (sendAll t fuel n).px4) ∧
      (sendAll t fuel n).px4.releasing = n.px4.releasing := by
  induction fuel generalizing n with
  | zero => exact ⟨[], ⟨by simp [sendAll], rfl, by simp, rfl, rfl, rfl, rfl⟩, id, rfl⟩
  | succ fuel ih =>
    unfold sendAll
    rcases next_cases n.px4 t.steady with none | ⟨op, rest, queue, _, some⟩
    · rw [none]
      exact ⟨[], ⟨by simp, rfl, by simp, rfl, rfl, rfl, rfl⟩, id, rfl⟩
    · have shaped := fun shaped : Shaped n.px4 => shaped.next t.steady
      rw [some] at shaped ⊢
      dsimp only at shaped ⊢
      obtain ⟨added, sends, keeps, releasing⟩ := ih _
      refine ⟨.request ⟨op, n.px4.nextId⟩ :: added, ⟨?_, sends.logs, fun r member => ?_, sends.fsm, sends.entered, sends.gate,
        sends.params⟩, fun before => keeps (shaped before), releasing⟩
      · rw [sends.out]
        simp [emit]
      · rcases List.mem_cons.mp member with first | later
        · cases first
          simp [queue]
        · have left : r.op ∈ rest := sends.origin r later
          simp [queue, left]

/-- In a mission that goes on the one step that may be queued goes out. -/
theorem Clean.sendAll_live (clean : Clean t n) (live : n.fsm.terminal = false) :
    (sendAll t n.px4.queue.length n).px4.queue = [] ∧
      (∀ f ∈ (sendAll t n.px4.queue.length n).px4.flights, f.req.op ∈ n.allowed) ∧
      (sendAll t n.px4.queue.length n).px4.flights.length ≤ 1 := by
  have one := clean.one live
  cases queue : n.px4.queue with
  | nil =>
    rw [queue, List.length_nil, Nat.zero_add] at one
    exact ⟨queue, clean.flying live, one⟩
  | cons op rest =>
    rw [queue, List.length_cons] at one
    obtain rfl : rest = [] := List.length_eq_zero_iff.mp (by omega)
    have flights : n.px4.flights = [] := List.length_eq_zero_iff.mp (by omega)
    have mine : op ∈ n.allowed := clean.queued live op (by simp [queue])
    have goes : n.px4.next t.steady = ({ n.px4 with
        queue := []
        flights := [⟨⟨op, n.px4.nextId⟩, n.px4.deadlineOf op t.steady, false⟩]
        arm := if op = .arm then .inFlight else n.px4.arm
        offboardRequested := n.px4.offboardRequested || op = .offboardOn
        nextId := n.px4.nextId + 1 }, some ⟨op, n.px4.nextId⟩) := by
      simp [Px4Sequencer.next, queue, flights]
    have sent : (sendAll t [op].length n).px4.queue = [] ∧
        (sendAll t [op].length n).px4.flights = [⟨⟨op, n.px4.nextId⟩, n.px4.deadlineOf op t.steady, false⟩] := by
      rw [List.length_singleton, sendAll, goes]
      exact ⟨rfl, rfl⟩
    rw [sent.1, sent.2]
    refine ⟨rfl, fun f member => ?_, Nat.le_refl 1⟩
    rw [List.mem_singleton.mp member]
    exact mine

theorem Clean.sent (clean : Clean t n) (entered : n.enteredChanges = n.fsm.changes) :
    Done t (sendAll t n.px4.queue.length n) := by
  obtain ⟨added, sends, shaped, releasing⟩ := sendAll_sends t n.px4.queue.length n
  have allowed := allowed_congr sends.fsm sends.entered
  refine ⟨⟨shaped clean.shaped, ?_, ?_, ?_, ?_, ?_, ?_, ?_⟩, ?_⟩
  · rw [sends.fsm, releasing]
    exact clean.released
  · rw [sends.fsm, releasing]
    exact clean.live
  · rw [sends.fsm]
    exact fun live => (clean.sendAll_live live).1
  · rw [sends.fsm, allowed]
    exact fun live => (clean.sendAll_live live).2.1
  · rw [sends.fsm]
    exact fun live => (clean.sendAll_live live).2.2
  · rw [sends.fsm]
    intro confirmed
    obtain ⟨engaging, _, idle⟩ := clean.confirmed confirmed
    rw [idle.1, List.length_nil]
    exact ⟨engaging, idle⟩
  · rw [sends.fsm, sends.entered]
    exact entered
  · intro before r after s split engages
    rw [sends.out] at split
    obtain ⟨between, rfl, tail⟩ := split_silent clean.silent split
    have queued : r.op ∈ n.px4.queue := sends.origin r (by simp [tail])
    have live : n.fsm.terminal = false := by
      by_contra ended
      have released := clean.released (Bool.eq_true_of_not_eq_false ended)
      have release := (clean.shaped.order released).subset queued
      simp only [List.mem_cons, List.not_mem_nil, or_false] at release
      rcases release with op | op <;> rw [op] at engages <;> cases engages
    have waiting : n.px4.queue ≠ [] := List.ne_nil_of_mem queued
    obtain ⟨passed, logged⟩ := clean.gated live waiting
    have mine := clean.queued live r.op queued
    have here : n.fsm.state = s := by
      unfold Node.allowed at mine
      rw [if_neg (by simp [entered])] at mine
      split at mine
      · rw [List.mem_singleton.mp mine] at engages
        cases engages
        assumption
      · rw [List.mem_singleton.mp mine] at engages
        cases engages
        assumption
      · cases mine
    have silent : logs between = [] ∧ logs after = [] := by
      have quiet := sends.logs
      rw [tail] at quiet
      simpa [Node.logs, logged?] using quiet
    obtain ⟨⟨m, tr⟩, last⟩ := Option.ne_none_iff_exists'.mp (mt List.getLast?_eq_none_iff.mp logged)
    obtain ⟨number, dst⟩ := clean.latest m tr last
    refine ⟨?_, ?_, ⟨tr, ?_, dst.trans here⟩, silent.2⟩
    · rw [sends.fsm]
      exact here
    · rw [preArmOk_congr sends.gate sends.params]
      exact passed
    · rw [logs_append, silent.1, List.append_nil, last, sends.fsm, number]

theorem Done.publishState (done : Done t n) : Done t n.publishState := by
  refine ⟨⟨done.shaped, done.released, done.live, done.queue, done.flying, done.one, done.confirmed, done.entered⟩, ?_⟩
  intro before r after s split engages
  obtain ⟨o, out, other, unlogged⟩ : ∃ o, n.publishState.out = n.out ++ [o] ∧ request? o = none ∧ logged? o = none :=
    ⟨_, rfl, rfl, rfl⟩
  rw [out] at split
  -- the message is not the request, so it is the last of what follows it
  rcases List.eq_nil_or_concat after with rfl | ⟨between, last, rfl⟩
  · obtain ⟨_, same⟩ := List.append_inj' split rfl
    cases same
    cases other
  · rw [List.concat_eq_append, ← List.cons_append, ← List.append_assoc] at split
    obtain ⟨earlier, same⟩ := List.append_inj' split rfl
    obtain rfl := List.singleton_inj.mp same
    obtain ⟨state, preArm, entered, settled⟩ := done.gated before r between s earlier engages
    refine ⟨state, preArm, entered, ?_⟩
    rw [List.concat_eq_append, logs_append, settled]
    simp [Node.logs, unlogged]

theorem Clean.flush (clean : Clean t n) (entered : n.enteredChanges = n.fsm.changes) : Done t (n.flush t) := by
  unfold Node.flush
  dsimp only
  split
  · exact (clean.sent entered).publishState
  · exact clean.sent entered

theorem Clean.advance (clean : Clean t n) : Done t (n.advance t) := by
  have polled : Clean t ((((n.pollProgress).pollLoad t).pollPlace t).tickPx4 t) :=
    (clean.still (still_pollProgress n)).pollLoad.pollPlace.tickPx4
  unfold Node.advance
  dsimp only
  generalize (((n.pollProgress).pollLoad t).pollPlace t).tickPx4 t = m at polled
  have entered := enterAll_settled t m
  have all := polled.enterAll 2
  unfold Node.enterStates
  dsimp only
  split
  · have noted := still_noteProgress (Node.enterAll t 2 m).1 t
    exact Clean.flush (all.still noted) (by rw [noted.entered, noted.fsm, entered])
  · exact all.flush entered

/-! ### The callbacks -/

theorem Clean.evaluateGate (clean : Clean t n) : Clean t (n.evaluateGate t) := by
  unfold Node.evaluateGate
  dsimp only
  split
  · exact clean
  split
  · exact clean.fire trivial
  split
  · split
    · exact clean.fire trivial
    split
    · exact clean.fire trivial
    · exact clean
  split
  · split
    · exact clean.fire trivial
    · exact clean
  · exact clean

theorem still_noteRun (n : Node) (t : Clock) (m : RppStatus) : Still n (n.noteRun t m) := by
  unfold noteRun
  dsimp only
  split
  · exact (still_noteProgress _ t).after ⟨rfl, rfl, rfl, rfl, rfl, rfl, rfl⟩
  · exact .rfl'

theorem Clean.rppEvent (clean : Clean t n) (m : RppStatus) : Clean t (n.rppEvent t m) := by
  unfold Node.rppEvent
  split
  · exact clean.fire trivial
  split
  · exact clean.fire trivial
  split
  · exact Clean.fire (clean.still ⟨rfl, rfl, rfl, rfl, rfl, rfl, rfl⟩) trivial
  split
  · exact clean.fire trivial
  · exact clean

theorem still_unlatchPivot (n : Node) (m : RppStatus) : Still n (n.unlatchPivot m) := by
  unfold unlatchPivot
  split
  · exact ⟨rfl, rfl, rfl, rfl, rfl, rfl, rfl⟩
  · exact .rfl'

theorem Clean.checkEkfReset (clean : Clean t n) : Clean t (n.checkEkfReset t) := by
  unfold Node.checkEkfReset
  dsimp only
  split
  · split
    · exact clean
    split
    · exact clean
    · exact Clean.fire (clean.still ⟨rfl, rfl, rfl, rfl, rfl, rfl, rfl⟩) trivial
  · exact clean

theorem still_trackPoints (hypot : Flt → Flt → Flt) (n : Node) (t : Clock) (m : VehicleState) :
    Still n (trackPoints hypot n t m) := by
  unfold trackPoints
  split
  · rename_i j _
    split
    · have published := still_publishPoints { n with journal := some (j.update hypot m.north m.east).1 }
        (j.update hypot m.north m.east).2
      exact (still_recordResolved _ t _).after ⟨published.fsm, published.px4, published.entered, published.gate,
        published.params, published.logs, published.requests⟩
    · exact .rfl'
  · exact .rfl'

theorem Clean.checkRppStale (clean : Clean t n) : Clean t (n.checkRppStale t) := by
  unfold Node.checkRppStale
  split
  · exact clean.fire trivial
  · exact clean

theorem Clean.checkRppAck (clean : Clean t n) : Clean t (n.checkRppAck t) := by
  unfold Node.checkRppAck
  split
  · exact clean.fire trivial
  · exact clean

theorem Clean.checkReengage (clean : Clean t n) : Clean t (n.checkReengage t) := by
  unfold Node.checkReengage
  split
  · exact clean.fire trivial
  · exact clean

theorem resumeCall_ordinary (n : Node) (t : Clock) : Ordinary (n.resumeCall t) := by
  unfold resumeCall
  dsimp only
  split
  · trivial
  · trivial

theorem still_rebaseline (n : Node) (r : Result) : Still n (n.rebaseline r) := by
  unfold rebaseline
  split
  · exact ⟨rfl, rfl, rfl, rfl, rfl, rfl, rfl⟩
  · exact .rfl'

theorem Clean.onPx4Reply (clean : Clean t n) (id : ℕ) (accepted : Bool) (reason : UInt8) :
    Done t (n.onPx4Reply t id accepted reason) := by
  have settles := onResponse_settles n.px4 id accepted reason
  have answered := clean.answered settles
  unfold Node.onPx4Reply
  generalize n.px4.onResponse id accepted reason = reply at settles answered
  obtain ⟨px4, outcome⟩ := reply
  cases outcome with
  | none => exact answered.advance
  | some o => exact answered.advance

/-- Nothing is owed that only the end of a callback would do. -/
def Owes (n : Node) : Prop := n.enteredChanges = n.fsm.changes ∧ (n.fsm.terminal = false → n.px4.queue = [])

theorem Rest.owes (rest : Rest n) : Owes n := ⟨rest.entered, rest.queue⟩

theorem Owes.still (owes : Owes n) (still : Still n n') : Owes n' := by
  unfold Owes
  rw [still.fsm, still.px4, still.entered]
  exact owes

theorem Owes.fire {c : MissionFsm.Call} (owes : Owes n) (stays : MissionFsm.Stays n.fsm (n.fsm.call t.steady c)) :
    Owes (n.fire t c) := by
  have fired := fire_fired n t c
  refine ⟨by rw [fired.entered, fired.fsm, stays.changes, owes.1], fun live => ?_⟩
  rcases fired.px4 with ⟨same, _⟩ | ⟨ended, _⟩
  · rw [fired.fsm, MissionFsm.terminal, stays.state] at live
    rw [same]
    exact owes.2 live
  · rw [← fired.fsm, live] at ended
    cases ended

/-- A callback that sends nothing and leaves no step queued. -/
theorem Clean.quiet (clean : Clean t n) (owes : Owes n) : Done t n := by
  obtain ⟨entered, queue⟩ := owes
  refine ⟨⟨clean.shaped, clean.released, clean.live, queue, clean.flying, fun live => ?_, fun confirmed => ?_, entered⟩, ?_⟩
  · have one := clean.one live
    omega
  · exact ⟨(clean.confirmed confirmed).1, (clean.confirmed confirmed).2.2⟩
  · intro before r after s split
    have silent := clean.silent
    rw [split] at silent
    simp [requests, request?] at silent

theorem still_skipPoint (n : Node) (t : Clock) : Still n (n.skipPoint t).1 := by
  unfold skipPoint
  split
  · exact .rfl'
  · split
    · exact ⟨rfl, rfl, rfl, rfl, rfl, rfl, rfl⟩
    · dsimp only
      refine (still_recordResolved _ t _).after ⟨rfl, rfl, rfl, rfl, rfl, ?_, ?_⟩
      · simp [publishPoint, emit, Node.logs, logged?]
      · simp [publishPoint, emit, Node.requests, request?]

theorem Clean.onSkip (clean : Clean t n) (owes : Owes n) : Done t (n.onSkip t).1 := by
  have stays : ∀ active, MissionFsm.Stays n.fsm (n.fsm.call t.steady (.skipPoint active)) := by
    intro active
    rcases MissionFsm.call_cases n.fsm t.steady (.skipPoint active) with stays | goes
    · exact stays
    · cases goes.moves
  unfold Node.onSkip
  dsimp only
  generalize (n.journal.bind (·.activePoint)).isSome = active
  have fired : Clean t (n.fire t (.skipPoint active)) := clean.fire trivial
  have owed : Owes (n.fire t (.skipPoint active)) := owes.fire (stays active)
  split
  · have skipped := still_skipPoint (n.fire t (.skipPoint active)) t
    exact ((fired.still skipped).quiet (owed.still skipped)).publishState
  · exact (fired.quiet owed).publishState

/-- A mission begins with no step of the one before. -/
theorem Clean.begin (clean : Clean t n) (goes : MissionFsm.Goes n.fsm (.start true) (n.fsm.call t.steady (.start true)))
    (startRun : ℕ) (points : List ℕ) : Clean t ((n.fire t (.start true)).resetExecution startRun points) := by
  have fired := fire_fired n t (.start true)
  have loading := goes.moves.of_start
  have idle := goes.moves.start_idle
  have live : (n.fire t (.start true)).fsm.terminal = false := by
    rw [fired.fsm, MissionFsm.terminal, loading]
    rfl
  refine ⟨(fired.shaped clean.shaped).call .beginExecution, fun ended => ?_, fun _ => rfl, fun _ op member => ?_,
    fun _ f member => ?_, fun _ => Nat.zero_le _, fun confirmed => ?_, fun _ waiting => absurd rfl waiting, ?_, ?_, ?_, ?_⟩
  · rw [show ((n.fire t (.start true)).resetExecution startRun points).fsm.terminal = false from live] at ended
    cases ended
  · cases member
  · cases member
  · have stands := (call_confirms n.fsm t.steady (.start true) (fired.fsm ▸ confirmed)).2
    rw [loading] at stands
    rcases stands with here | here | here
    · simp [MissionFsm.active, MissionFsm.terminal, ← here] at idle
    · cases here
    · cases here
  · show (n.fire t (.start true)).enteredChanges ≤ (n.fire t (.start true)).fsm.changes
    rw [fired.entered, fired.fsm, goes.changes]
    exact clean.behind.trans (Nat.le_succ _)
  · exact fired.requests.trans clean.silent
  · intro none
    have logged : Node.logs (n.fire t (.start true)).out = [] := none
    rw [fired.logs] at logged
    simp at logged
  · intro m tr last
    exact fired.latest goes.dst last

theorem start_moves (f : MissionFsm) (now : ℤ) (pre : Bool) (accepted : (f.call now (.start pre)).result.accepted = true) :
    (f.call now (.start pre)).result.transitioned = true := by
  simp only [MissionFsm.call, MissionFsm.start] at accepted ⊢
  split at accepted
  · cases accepted
  split at accepted
  · cases accepted
  · rw [if_neg ‹_›, if_neg ‹_›]
    rfl

theorem Clean.beginMission (clean : Clean t n) (owes : Owes n) (sha requestId : String) (resume : Bool) :
    Done t (n.beginMission t sha requestId resume).1 := by
  have named : ∀ (k : Node) (run : RunState), Still k (k.withRun run) := fun _ _ => ⟨rfl, rfl, rfl, rfl, rfl, rfl, rfl⟩
  unfold Node.beginMission
  dsimp only
  split
  · exact clean.quiet owes
  split
  · exact clean.quiet owes
  split
  · exact clean.quiet owes
  split
  · exact clean.quiet owes
  generalize (n.restored sha resume).1 = startRun
  generalize (n.restored sha resume).2 = points
  generalize made : ({
      missionId := n.fsm.missionId + 1
      sourceArtifactSha256 := sha
      requestId
      startRunIndex := startRun
      runIndex := startRun
      pointIndex := points.length } : RunState) = run
  have renamed := clean.still (named n run)
  generalize (n.preArmOk t).1 = pre
  split
  · rename_i refused
    have stays : MissionFsm.Stays n.fsm (n.fsm.call t.steady (.start pre)) := by
      rcases MissionFsm.call_cases n.fsm t.steady (.start pre) with stays | goes
      · exact stays
      · rw [goes.result] at refused
        cases refused
    have fired : Clean t ((n.withRun run).fire t (.start pre)) := by
      refine renamed.fire_stays stays fun confirmed => ?_
      rcases (call_confirms n.fsm t.steady (.start pre) confirmed).1 with old | ⟨⟨_, _, _, other⟩, _⟩
      · exact clean.confirmed old
      · cases other
    exact Clean.quiet (fired.still (named _ _)) (((owes.still (named n run)).fire stays).still (named _ _))
  · rename_i accepted
    rcases MissionFsm.call_cases n.fsm t.steady (.start pre) with stays | goes
    · have moved := start_moves n.fsm t.steady pre (by simpa [withRun] using accepted)
      rw [stays.quiet] at moved
      cases moved
    · cases pre with
      | false => cases goes.moves
      | true => exact (renamed.begin goes startRun points).advance

theorem Clean.onParameters (clean : Clean t n) (owes : Owes n) (ps : List (String × ParamValue)) :
    Done t (n.onParameters ps).1 := by
  unfold Node.onParameters
  split
  · exact clean.quiet owes
  · rename_i params _
    have timed : Clean t { n with params, px4 := { n.px4 with timeouts := timeouts params } } :=
      ⟨clean.shaped.call (.setTimeouts (timeouts params)), clean.released, clean.live, clean.queued, clean.flying, clean.one,
        clean.confirmed, fun live waiting => absurd (owes.2 live) waiting, clean.behind, clean.silent, clean.first,
        clean.latest⟩
    exact timed.quiet owes

theorem Clean.onRpp (clean : Clean t n) (owes : Owes n) (m : RppStatus) : Done t (n.onRpp t m) := by
  unfold Node.onRpp
  split
  · exact clean.quiet owes
  · have received : Clean t { n with rppStamp := some t.steady, run := { n.run with runIndex := m.runIndex } } :=
      clean.still ⟨rfl, rfl, rfl, rfl, rfl, rfl, rfl⟩
    exact (((received.still (still_noteRun _ t m)).rppEvent m).still (still_unlatchPivot _ m)).advance

theorem Clean.onVehicle (hypot : Flt → Flt → Flt) (clean : Clean t n) (m : VehicleState) :
    Done t (Node.onVehicle hypot n t m) := by
  have received : Clean t { n with vehicle := some m, vehicleStamp := t.steady } :=
    clean.still ⟨rfl, rfl, rfl, rfl, rfl, rfl, rfl⟩
  unfold Node.onVehicle
  exact (received.checkEkfReset.still (still_trackPoints hypot _ t m)).advance

theorem Clean.onResume (clean : Clean t n) : Done t (n.onResume t).1 := by
  have fired := clean.fire (resumeCall_ordinary n t)
  unfold Node.onResume
  exact (fired.still (still_rebaseline _ _)).advance

theorem Clean.onPause (clean : Clean t n) : Done t (n.onPause t).1 := by
  have fired : Clean t (n.fire t .pause) := clean.fire trivial
  unfold Node.onPause
  exact fired.advance

theorem Clean.onAbort (clean : Clean t n) (reason : UInt8) : Done t (n.onAbort t reason).1 := by
  have fired : Clean t (n.fire t (.abort reason)) := clean.fire trivial
  unfold Node.onAbort
  exact fired.advance

theorem Clean.onCancel (clean : Clean t n) : Done t (n.onCancel t) := by
  have fired : Clean t (n.fire t (.abort reasonOperator)) := clean.fire trivial
  unfold Node.onCancel
  exact fired.advance

theorem Clean.onTimer (clean : Clean t n) : Done t (n.onTimer t) := by
  unfold Node.onTimer
  exact clean.evaluateGate.checkRppStale.checkRppAck.checkReengage.advance.publishState

theorem Rest.onGate (rest : Rest n) (out : n.out = []) (t : Clock) (m : SafetyGateStatus) : Done t (n.onGate t m) := by
  have received : Clean t { n with gate := ⟨some t.steady, m.ok, m.reasonCode, m.preArmOk, m.preArmReasonCode⟩ } :=
    rest.clean t out
  unfold Node.onGate
  exact received.evaluateGate.advance

theorem Rest.handle (hypot : Flt → Flt → Flt) (rest : Rest n) (out : n.out = []) (t : Clock) (e : Event) :
    Done t (handle hypot n t e).1 := by
  have clean : Clean t n := rest.clean t out
  have changed : ∀ {n' : Node}, Still n n' → Done t n' :=
    fun still => (clean.still still).quiet (rest.owes.still still)
  cases e with
  | start sha requestId resume => exact clean.beginMission rest.owes sha requestId resume
  | pause => exact clean.onPause
  | resume => exact clean.onResume
  | abort reason => exact clean.onAbort reason
  | skip => exact clean.onSkip rest.owes
  | cancelGoal => exact clean.onCancel
  | gate m => exact rest.onGate out t m
  | rpp m => exact clean.onRpp rest.owes m
  | vehicle m => exact clean.onVehicle hypot m
  | px4Reply id accepted reason => exact clean.onPx4Reply id accepted reason
  | loadDone r | placeDone r | progressDone errors => exact changed ⟨rfl, rfl, rfl, rfl, rfl, rfl, rfl⟩
  | timer => exact clean.onTimer
  | workTimer => exact clean.advance
  | parameters ps => exact clean.onParameters rest.owes ps

/-- One callback, from a node between two callbacks. -/
theorem Rest.step (hypot : Flt → Flt → Flt) (rest : Rest n) (i : Input) : Done i.clock (step hypot n i).1 :=
  Rest.handle hypot (n := { n with out := [] }) ⟨rest.shaped, rest.released, rest.live, rest.queue, rest.flying, rest.one,
    rest.confirmed, rest.entered⟩ rfl i.clock i.event

theorem rest_start (ps : Params) (progress : List (String × MissionProgress)) : Rest (start ps progress) := by
  refine ⟨⟨?_, ?_, ?_, ?_, .nil⟩, ?_, ?_, ?_, ?_, ?_, ?_, rfl⟩ <;> simp [start, MissionFsm.terminal]

variable {hypot : Flt → Flt → Flt} {ps : Params} {progress : List (String × MissionProgress)} {h : List Record}

theorem rest_run (run : Run (step hypot) (start ps progress) h n) : Rest n :=
  run.invariant (fun _ n => Rest n) (rest_start ps progress) fun _ _ i rest _ => (rest.step hypot i).toRest

/-- No request that arms or engages is queued, and none that is in flight counts. -/
def NoEngage (n : Node) : Prop :=
  (∀ op ∈ n.px4.queue, engageState op = none) ∧ ∀ f ∈ n.px4.flights, engageState f.req.op ≠ none → f.abandoned = true

/-- An arm request goes out only in ARMING and a request for OFFBOARD only in ENGAGING, in the callback that entered that
state of this execution, with the pre-arm gate ok; in READY, RUNNING and PAUSED none waits. -/
theorem engages_gated (run : Run (step hypot) (start ps progress) h n) :
    (∀ i before r after s, (step hypot n i).2.outputs = before ++ .request r :: after → engageState r.op = some s →
        Gated i.clock (step hypot n i).1 before after s) ∧
      (n.fsm.state = .ready ∨ n.fsm.state = .running ∨ n.fsm.state = .paused → NoEngage n) := by
  have rest := rest_run run
  refine ⟨fun i before r after s => (rest.step hypot i).gated before r after s, fun driven => ?_⟩
  have live : n.fsm.terminal = false := by rcases driven with here | here | here <;> simp [MissionFsm.terminal, here]
  have none : n.allowed = [] := by rcases driven with here | here | here <;> simp [allowed, here]
  refine ⟨fun op queued => ?_, fun f flying => ?_⟩
  · rw [rest.queue live] at queued
    cases queued
  · have mine := rest.flying live f flying
    rw [none] at mine
    cases mine

/-- The place of a placed mission's arm request, and a run in which the mission is READY. -/
theorem engages_arms : ∃ before after,
    (step (fun north _ => north) (defaultRun (engages.take 6)).2 (atMs 10 .workTimer)).2.outputs =
        before ++ .request ⟨.arm, 1⟩ :: after ∧
      Gated (atMs 10 .workTimer).clock (step (fun north _ => north) (defaultRun (engages.take 6)).2 (atMs 10 .workTimer)).1
        before after .arming ∧
      (defaultRun engages).2.fsm.state = .ready ∧ NoEngage (defaultRun engages).2 := by
  let out := (step (fun north _ => north) (defaultRun (engages.take 6)).2 (atMs 10 .workTimer)).2.outputs
  have split : out = out.take 2 ++ .request ⟨.arm, 1⟩ :: out.drop 3 := by decide +kernel
  have ready : (defaultRun engages).2.fsm.state = .ready := by decide +kernel
  exact ⟨out.take 2, out.drop 3, split,
    (engages_gated (exec_run (engages.take 6) .start)).1 (atMs 10 .workTimer) _ _ _ _ split rfl, ready,
    (engages_gated (exec_run engages .start)).2 (.inl ready)⟩

end Node

end Dyx3.Mission
