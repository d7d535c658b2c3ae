import Dyx3.Lib.Run
import Dyx3.Px4Link.RoverSetpoint

/-!
`CommandGate` (dyx3_px4_link/rover_setpoint_writer): which guard command is written to PX4, over any arrivals of commands
between the control cycles.
-/

namespace Dyx3.Px4Link.RoverSetpoint

open Lib

inductive Reason where
  | none | noCommand | commandStale | commandInvalid | handshakeNotOk | noSession | topicStale | sequenceReset | guardStop
  deriving DecidableEq

structure GateInputs where
  now : ℚ
  handshakeOk : Bool
  sessionAlive : Bool
  staleTopicsMask : Nat

structure GateOutput where
  sp : Setpoint := stopSetpoint
  reason : Reason := .noCommand
  failingToZero : Bool := true
  commandAge : ℚ := 10 ^ 9
  forwarded : Bool := false
  seq : Nat := 0
  sourcePoseSampleUs : Nat := 0

structure CommandGate where
  maxAge : ℚ
  haveCmd : Bool := false
  haveSeq : Bool := false
  lastSeq : Nat := 0
  cmd : Command := {}
  received : ℚ := 0
  gapCounted : Bool := false
  resetPending : Bool := false
  gapEvents : Nat := 0

namespace CommandGate

/-- True for a new command or a sequence reset, false for an ignored duplicate. -/
def onCommand (g : CommandGate) (c : Command) (now : ℚ) : CommandGate × Bool :=
  if g.haveSeq && c.seq < g.lastSeq then
    -- the publisher restarted: its first command is discarded too
    ({ g with lastSeq := c.seq, haveCmd := false, resetPending := true }, true)
  else if g.haveSeq && c.seq = g.lastSeq then (g, false)
  else ({ g with haveSeq := true, lastSeq := c.seq, cmd := c, received := now, haveCmd := true, gapCounted := false }, true)

def commandAge (g : CommandGate) (now : ℚ) : ℚ := if g.haveCmd then now - g.received else 10 ^ 9

def fail (g : CommandGate) (now : ℚ) (reason : Reason) : GateOutput := { reason, commandAge := g.commandAge now }

def step (g : CommandGate) (i : GateInputs) : CommandGate × GateOutput :=
  if !i.handshakeOk then (g, g.fail i.now .handshakeNotOk)
  else if !i.sessionAlive then (g, g.fail i.now .noSession)
  else if i.staleTopicsMask ≠ 0 then (g, g.fail i.now .topicStale)
  else if g.resetPending then ({ g with resetPending := false }, g.fail i.now .sequenceReset)
  else if !g.haveCmd then (g, g.fail i.now .noCommand)
  else if g.maxAge < g.commandAge i.now then
    -- one event per expired command, however many ticks it stays stale
    (if g.gapCounted then g else { g with gapEvents := g.gapEvents + 1, gapCounted := true }, g.fail i.now .commandStale)
  else if validate g.cmd ≠ .ok then (g, g.fail i.now .commandInvalid)
  else
    (g,
      { sp := toSetpoint g.cmd
        reason := if (toSetpoint g.cmd).mode = .stop then .guardStop else .none
        failingToZero := false
        commandAge := g.commandAge i.now
        forwarded := true
        seq := g.cmd.seq
        sourcePoseSampleUs := g.cmd.sourcePoseSampleUs })

inductive Event where
  | command (c : Command) (now : ℚ)
  | step (i : GateInputs)

inductive Answer where
  | changed (b : Bool)
  | output (o : GateOutput)

def call (g : CommandGate) : Event → CommandGate × Answer
  | .command c now => ((g.onCommand c now).1, .changed (g.onCommand c now).2)
  | .step i => ((g.step i).1, .output (g.step i).2)

abbrev Record := Entry Event Answer

/-! ### The commands of a history -/

/-- An accepted command with the calls after it, up to the next one. -/
structure Life where
  command : Command
  arrived : ℚ
  calls : List Record

/-- Newest first. -/
def lives : List Record → List Life
  | [] => []
  | x :: h => match x.event, x.out with
    | .command c now, .changed true => ⟨c, now, []⟩ :: lives h
    | _, _ => match lives h with
      | [] => []
      | l :: rest => { l with calls := x :: l.calls } :: rest

/-- The call is a step that reports `reason`. -/
def Reports (reason : Reason) (x : Record) : Prop := ∃ o, x.out = .output o ∧ o.reason = reason

instance (reason : Reason) (x : Record) : Decidable (Reports reason x) :=
  match out : x.out with
  | .output o => decidable_of_iff (o.reason = reason) (by simp [Reports, out])
  | .changed _ => isFalse (by simp [Reports, out])

/-- The mandatory STOP after a restart. -/
def Resets (x : Record) : Prop := ∃ o, x.out = .output o ∧ o.reason = .sequenceReset ∧ o.sp = stopSetpoint ∧ o.forwarded = false

/-- Some step found the command too old. -/
def Expired (l : Life) : Prop := ∃ x ∈ l.calls, Reports .commandStale x

instance (l : Life) : Decidable (Expired l) := inferInstanceAs (Decidable (∃ x ∈ l.calls, Reports .commandStale x))

/-- A life that starts with a decrease: the command before it had a greater sequence number. -/
def Restarts (l : Life) (earlier : List Life) : Prop := ∃ d ∈ earlier.head?, l.command.seq < d.command.seq

/-- What the history says about the gate. -/
structure Knows (h : List Record) (g : CommandGate) : Prop where
  none : lives h = [] → g.haveSeq = false ∧ g.haveCmd = false ∧ g.resetPending = false
  last : ∀ l rest, lives h = l :: rest → g.haveSeq = true ∧ g.lastSeq = l.command.seq
  newest : g.haveCmd = true → ∃ l rest, lives h = l :: rest ∧ g.cmd = l.command ∧ g.received = l.arrived ∧ ¬ Restarts l rest ∧
    (g.gapCounted = true ↔ Expired l)
  reset : g.resetPending = false → ∀ later l rest, lives h = later ++ l :: rest → Restarts l rest →
    ∃ k ∈ later ++ [l], ∃ x ∈ k.calls, Resets x
  gaps : g.gapEvents = (lives h).countP fun l => Expired l

theorem knows_start (maxAge : ℚ) : Knows [] { maxAge } :=
  ⟨fun _ => ⟨rfl, rfl, rfl⟩, by simp [lives], by simp, by simp [lives], rfl⟩

/-- The call falls into the life of the newest command. -/
def addCall (x : Record) : List Life → List Life
  | [] => []
  | l :: rest => { l with calls := x :: l.calls } :: rest

theorem lives_step (h : List Record) (i : GateInputs) (a : Answer) : lives (⟨.step i, a⟩ :: h) = addCall ⟨.step i, a⟩ (lives h) := by
  rw [lives]
  cases lives h <;> rfl

theorem lives_duplicate (h : List Record) (c : Command) (now : ℚ) :
    lives (⟨.command c now, .changed false⟩ :: h) = addCall ⟨.command c now, .changed false⟩ (lives h) := by
  rw [lives]
  cases lives h <;> rfl

theorem lives_accepted (h : List Record) (c : Command) (now : ℚ) :
    lives (⟨.command c now, .changed true⟩ :: h) = ⟨c, now, []⟩ :: lives h := by
  rw [lives]

theorem expired_call (x : Record) (l : Life) : Expired { l with calls := x :: l.calls } ↔ Reports .commandStale x ∨ Expired l := by
  simp [Expired]

theorem not_expired_new (c : Command) (now : ℚ) : ¬ Expired ⟨c, now, []⟩ := by
  rintro ⟨x, member, -⟩
  cases member

/-- An accepted command starts a life. -/
theorem Knows.accepted {h : List Record} {g g' : CommandGate} {c : Command} {now : ℚ} (knows : Knows h g)
    (seq : g'.haveSeq = true ∧ g'.lastSeq = c.seq) (gaps : g'.gapEvents = g.gapEvents)
    (newest : g'.haveCmd = true → g'.cmd = c ∧ g'.received = now ∧ ¬ Restarts ⟨c, now, []⟩ (lives h) ∧ g'.gapCounted = false)
    (reset : g'.resetPending = false → g.resetPending = false ∧ ¬ Restarts ⟨c, now, []⟩ (lives h)) :
    Knows (⟨.command c now, .changed true⟩ :: h) g' := by
  refine ⟨?_, ?_, fun stored => ?_, fun settled => ?_, ?_⟩
  · rw [lives_accepted]
    exact fun empty => by cases empty
  · rw [lives_accepted]
    rintro l rest same
    cases same
    exact seq
  · obtain ⟨cmd, received, goesOn, fresh⟩ := newest stored
    refine ⟨_, _, lives_accepted h c now, cmd, received, goesOn, ?_⟩
    simp [fresh, not_expired_new]
  · obtain ⟨settled, goesOn⟩ := reset settled
    rw [lives_accepted]
    intro later l rest whole restarts
    rcases cons_split whole with ⟨rfl, rfl, rfl⟩ | ⟨after, rfl, old⟩
    · exact absurd restarts goesOn
    · obtain ⟨k, member, found⟩ := knows.reset settled after l rest old restarts
      exact ⟨k, List.mem_cons_of_mem _ member, found⟩
  · rw [gaps, knows.gaps, lives_accepted, List.countP_cons_of_neg]
    simpa using not_expired_new c now

/-- A call in the life of the newest command: a duplicate or a step. -/
theorem Knows.called {h : List Record} {g g' : CommandGate} {x : Record} (knows : Knows h g)
    (call : lives (x :: h) = addCall x (lives h))
    (same : g'.haveSeq = g.haveSeq ∧ g'.lastSeq = g.lastSeq ∧ g'.haveCmd = g.haveCmd ∧ g'.cmd = g.cmd ∧ g'.received = g.received)
    (reset : g'.resetPending = false → g.resetPending = false ∨ Resets x)
    (start : g.resetPending = false → g'.resetPending = false)
    (stale : (Reports .commandStale x ∧ g.haveCmd = true ∧ g'.gapCounted = true ∧
        g'.gapEvents = if g.gapCounted then g.gapEvents else g.gapEvents + 1) ∨
      (¬ Reports .commandStale x ∧ g'.gapCounted = g.gapCounted ∧ g'.gapEvents = g.gapEvents)) :
    Knows (x :: h) g' := by
  obtain ⟨haveSeq, lastSeq, haveCmd, cmd, received⟩ := same
  cases commands : lives h with
  | nil =>
    obtain ⟨noSeq, noCmd, noReset⟩ := knows.none commands
    have empty : lives (x :: h) = [] := by rw [call, commands, addCall]
    refine ⟨fun _ => ⟨haveSeq.trans noSeq, haveCmd.trans noCmd, start noReset⟩, ?_, ?_, ?_, ?_⟩
    · simp [empty]
    · simp [haveCmd, noCmd]
    · simp [empty]
    · rcases stale with ⟨-, stored, -⟩ | ⟨-, -, events⟩
      · rw [noCmd] at stored
        cases stored
      · rw [events, knows.gaps, empty, commands]
  | cons l rest =>
    have grown : lives (x :: h) = { l with calls := x :: l.calls } :: rest := by rw [call, commands, addCall]
    refine ⟨?_, ?_, fun stored => ?_, fun settled => ?_, ?_⟩
    · rw [grown]
      exact fun empty => by cases empty
    · rw [grown, haveSeq, lastSeq]
      rintro _ _ ⟨⟩
      exact knows.last l rest commands
    · obtain ⟨l', rest', same, cmd', received', goesOn, counted⟩ := knows.newest (haveCmd.symm.trans stored)
      cases commands.symm.trans same
      refine ⟨_, _, grown, cmd.trans cmd', received.trans received', goesOn, ?_⟩
      rw [expired_call]
      rcases stale with ⟨reports, -, now, -⟩ | ⟨silent, now, -⟩
      · exact iff_of_true now (.inl reports)
      · rw [now, counted]
        exact (or_iff_right silent).symm
    · rw [grown]
      intro later k earlier whole restarts
      rcases reset settled with settled | reports
      · rcases cons_split whole with ⟨rfl, rfl, rfl⟩ | ⟨after, rfl, old⟩
        · obtain ⟨k, member, z, called, reports⟩ := knows.reset settled [] l rest commands restarts
          obtain rfl : k = l := by simpa using member
          exact ⟨_, List.mem_singleton_self _, z, List.mem_cons_of_mem x called, reports⟩
        · obtain ⟨k', member, z, called, reports⟩ := knows.reset settled (l :: after) k earlier (by rw [commands, old]; rfl) restarts
          rcases List.mem_cons.mp member with rfl | member
          · exact ⟨_, List.mem_cons_self, z, List.mem_cons_of_mem x called, reports⟩
          · exact ⟨k', List.mem_cons_of_mem _ member, z, called, reports⟩
      · refine ⟨{ l with calls := x :: l.calls }, ?_, x, List.mem_cons_self, reports⟩
        rcases cons_split whole with ⟨rfl, rfl, -⟩ | ⟨after, rfl, -⟩
        · exact List.mem_singleton_self _
        · exact List.mem_cons_self
    · have before := knows.gaps
      rw [commands, List.countP_cons] at before
      rw [grown, List.countP_cons]
      rcases stale with ⟨reports, stored, -, events⟩ | ⟨silent, -, events⟩
      · obtain ⟨l', rest', same, -, -, -, counted⟩ := knows.newest stored
        cases commands.symm.trans same
        have expired := (expired_call x l).mpr (.inl reports)
        rw [events, before]
        by_cases already : Expired l
        · simp [counted.mpr already, expired, already]
        · simp [mt counted.mp already, expired, already]
      · have expired : Expired { l with calls := x :: l.calls } ↔ Expired l := by
          rw [expired_call]
          exact or_iff_right silent
        rw [events, before]
        simp only [expired]

theorem knows_command {h : List Record} {g : CommandGate} (knows : Knows h g) (c : Command) (now : ℚ) :
    Knows (⟨.command c now, .changed (g.onCommand c now).2⟩ :: h) (g.onCommand c now).1 := by
  unfold onCommand
  split
  · exact knows.accepted ⟨by simp_all, rfl⟩ rfl (fun stored => by cases stored) fun settled => by cases settled
  rename_i increasing
  split
  · refine knows.called (lives_duplicate h c now) ⟨rfl, rfl, rfl, rfl, rfl⟩ .inl id (.inr ⟨?_, rfl, rfl⟩)
    rintro ⟨o, out, -⟩
    cases out
  · rename_i other
    have goesOn : ¬ Restarts ⟨c, now, []⟩ (lives h) := by
      rintro ⟨d, newest, less⟩
      cases commands : lives h with
      | nil =>
        rw [commands] at newest
        cases newest
      | cons e rest =>
        rw [commands] at newest
        cases newest
        obtain ⟨have_, last⟩ := knows.last _ rest commands
        simp [have_, last] at increasing
        exact absurd less increasing.not_gt
    exact knows.accepted ⟨rfl, rfl⟩ rfl (fun _ => ⟨rfl, rfl, goesOn, rfl⟩) fun settled => ⟨settled, goesOn⟩

/-- The step forwards the stored command. -/
structure Forwards (g : CommandGate) (i : GateInputs) (o : GateOutput) : Prop where
  link : i.handshakeOk = true ∧ i.sessionAlive = true ∧ i.staleTopicsMask = 0
  settled : g.resetPending = false
  stored : g.haveCmd = true
  fresh : i.now - g.received ≤ g.maxAge
  valid : validate g.cmd = .ok
  output : o.sp = toSetpoint g.cmd ∧ o.seq = g.cmd.seq ∧ o.sourcePoseSampleUs = g.cmd.sourcePoseSampleUs
  reason : o.reason = .none ∨ o.reason = .guardStop

theorem step_cases (g : CommandGate) (i : GateInputs) :
    ((g.step i).1 = g ∧ ∃ reason, reason ≠ .commandStale ∧ (g.step i).2 = g.fail i.now reason) ∨
    (g.resetPending = true ∧ g.step i = ({ g with resetPending := false }, g.fail i.now .sequenceReset)) ∨
    (g.haveCmd = true ∧
      g.step i =
        (if g.gapCounted then g else { g with gapEvents := g.gapEvents + 1, gapCounted := true }, g.fail i.now .commandStale)) ∨
    ((g.step i).1 = g ∧ Forwards g i (g.step i).2) := by
  unfold step
  split
  · exact .inl ⟨rfl, _, by decide, rfl⟩
  split
  · exact .inl ⟨rfl, _, by decide, rfl⟩
  split
  · exact .inl ⟨rfl, _, by decide, rfl⟩
  split
  · rename_i pending
    exact .inr (.inl ⟨pending, rfl⟩)
  split
  · exact .inl ⟨rfl, _, by decide, rfl⟩
  rename_i handshake session topics settled present
  have stored : g.haveCmd = true := by simpa using present
  split
  · exact .inr (.inr (.inl ⟨stored, rfl⟩))
  split
  · exact .inl ⟨rfl, _, by decide, rfl⟩
  rename_i fresh valid
  refine .inr (.inr (.inr ⟨rfl, ⟨by simpa using handshake, by simpa using session, by simpa using topics⟩, by simpa using settled,
    stored, ?_, by simpa using valid, ⟨rfl, rfl, rfl⟩, ?_⟩))
  · rw [commandAge, if_pos stored] at fresh
    exact not_lt.mp fresh
  · simp only
    split
    · exact .inr rfl
    · exact .inl rfl

theorem knows_step {h : List Record} {g : CommandGate} (knows : Knows h g) (i : GateInputs) :
    Knows (⟨.step i, .output (g.step i).2⟩ :: h) (g.step i).1 := by
  have reports : ∀ reason, Reports reason ⟨.step i, .output (g.step i).2⟩ ↔ (g.step i).2.reason = reason := by
    simp [Reports]
  have resets : g.step i = ({ g with resetPending := false }, g.fail i.now .sequenceReset) →
      Resets ⟨.step i, .output (g.step i).2⟩ := by
    intro stepped
    rw [stepped]
    exact ⟨_, rfl, rfl, rfl, rfl⟩
  have call := lives_step h i (.output (g.step i).2)
  generalize (⟨.step i, .output (g.step i).2⟩ : Record) = x at reports call resets ⊢
  rcases step_cases g i with ⟨same, reason, other, out⟩ | ⟨-, stepped⟩ | ⟨stored, stepped⟩ | ⟨same, forwards⟩
  · have silent : ¬ Reports .commandStale x := by
      rw [reports, out]
      exact other
    rw [same]
    exact knows.called call ⟨rfl, rfl, rfl, rfl, rfl⟩ .inl id (.inr ⟨silent, rfl, rfl⟩)
  · rw [stepped] at reports ⊢
    have silent : ¬ Reports .commandStale x := by
      rw [reports]
      exact fun reason => by cases reason
    exact knows.called call ⟨rfl, rfl, rfl, rfl, rfl⟩ (fun _ => .inr (resets stepped)) (fun _ => rfl) (.inr ⟨silent, rfl, rfl⟩)
  · rw [stepped] at reports ⊢
    have stale := (reports .commandStale).mpr rfl
    cases counted : g.gapCounted with
    | true =>
      rw [if_pos rfl]
      exact knows.called call ⟨rfl, rfl, rfl, rfl, rfl⟩ .inl id (.inl ⟨stale, stored, counted, by rw [if_pos counted]⟩)
    | false =>
      rw [if_neg Bool.false_ne_true]
      exact knows.called call ⟨rfl, rfl, rfl, rfl, rfl⟩ .inl id (.inl ⟨stale, stored, rfl, by rw [counted, if_neg Bool.false_ne_true]⟩)
  · have silent : ¬ Reports .commandStale x := by
      rw [reports]
      intro reason
      rcases forwards.reason with none | stop
      · rw [none] at reason
        cases reason
      · rw [stop] at reason
        cases reason
    rw [same]
    exact knows.called call ⟨rfl, rfl, rfl, rfl, rfl⟩ .inl id (.inr ⟨silent, rfl, rfl⟩)

/-! ### Every run -/

/-- A step that forwards: it forwards the newest command, which did not restart the numbers, and a restart before it was
answered with a STOP. -/
structure Forwarded (maxAge : ℚ) (earlier : List Record) (i : GateInputs) (o : GateOutput) : Prop where
  link : i.handshakeOk = true ∧ i.sessionAlive = true ∧ i.staleTopicsMask = 0
  newest : ∃ l rest, lives earlier = l :: rest ∧ validate l.command = .ok ∧ i.now - l.arrived ≤ maxAge ∧ ¬ Restarts l rest ∧
    o.sp = toSetpoint l.command ∧ o.seq = l.command.seq ∧ o.sourcePoseSampleUs = l.command.sourcePoseSampleUs
  reset : ∀ later l rest, lives earlier = later ++ l :: rest → Restarts l rest →
    ∃ k ∈ later ++ [l], ∃ x ∈ k.calls, Resets x

/-- What every answer tells. -/
def Lawful (maxAge : ℚ) (x : Record) (earlier : List Record) : Prop :=
  (∀ i o, x.event = .step i → x.out = .output o → o.forwarded = true → Forwarded maxAge earlier i o) ∧
  ∀ c now, x.event = .command c now → (∃ l rest, lives earlier = l :: rest ∧ c.seq = l.command.seq) → x.out = .changed false

theorem lawful_call {h : List Record} {g : CommandGate} (knows : Knows h g) (e : Event) :
    Lawful g.maxAge ⟨e, (call g e).2⟩ h := by
  cases e with
  | step i =>
    refine ⟨?_, fun c now event => by cases event⟩
    rintro _ _ ⟨⟩ ⟨⟩ forwarded
    rcases step_cases g i with ⟨-, reason, -, out⟩ | ⟨-, stepped⟩ | ⟨-, stepped⟩ | ⟨-, forwards⟩
    · rw [out] at forwarded
      cases forwarded
    · rw [stepped] at forwarded
      cases forwarded
    · rw [stepped] at forwarded
      cases forwarded
    · obtain ⟨l, rest, commands, cmd, received, goesOn, -⟩ := knows.newest forwards.stored
      refine ⟨forwards.link, ⟨l, rest, commands, ?_, ?_, goesOn, ?_⟩, knows.reset forwards.settled⟩
      · exact cmd ▸ forwards.valid
      · exact received ▸ forwards.fresh
      · exact cmd ▸ forwards.output
  | command c now =>
    refine ⟨fun i o event => (by cases event), ?_⟩
    rintro _ _ ⟨⟩ ⟨l, rest, commands, same⟩
    obtain ⟨have_, last⟩ := knows.last l rest commands
    have duplicate : (g.onCommand c now).2 = false := by
      simp [onCommand, have_, last, same]
    rw [call, duplicate]

theorem call_maxAge (g : CommandGate) (e : Event) : (call g e).1.maxAge = g.maxAge := by
  cases e with
  | step i =>
    rcases step_cases g i with ⟨same, -⟩ | ⟨-, stepped⟩ | ⟨-, stepped⟩ | ⟨same, -⟩
    · rw [call, same]
    · rw [call, stepped]
    · rw [call, stepped]
      cases g.gapCounted <;> rfl
    · rw [call, same]
  | command c now =>
    rw [call, onCommand]
    split
    · rfl
    · split <;> rfl

/-- The law of the gate over every run, and its count of the commands that expired. -/
theorem run_lawful (maxAge : ℚ) {h : List Record} {g : CommandGate} (run : Run call { maxAge } h g) :
    Everywhere (Lawful maxAge) h ∧ g.gapEvents = (lives h).countP fun l => Expired l := by
  have all := run.invariant (fun h g => Knows h g ∧ g.maxAge = maxAge ∧ Everywhere (Lawful maxAge) h)
    ⟨knows_start maxAge, rfl, trivial⟩ ?_
  · exact ⟨all.2.2, all.1.gaps⟩
  · rintro h g e ⟨knows, age, lawful⟩ -
    refine ⟨?_, (call_maxAge g e).trans age, ?_, lawful⟩
    · cases e with
      | command c now => exact knows_command knows c now
      | step i => exact knows_step knows i
    · have law := lawful_call knows e
      rwa [age] at law

/-- A publisher restarts: its first command is discarded and its second one forwarded after the STOP. -/
def restart : List Event :=
  let stop (seq : Nat) : Command := { seq, valid := true }
  let cycle (now : ℚ) : GateInputs := ⟨now, true, true, 0⟩
  [.command (stop 7) 0, .step (cycle 0), .command (stop 1) 1, .command (stop 2) 1, .step (cycle 1), .step (cycle 1)]

theorem run_lawful_restart :
    Everywhere (Lawful 1) (exec call [] { maxAge := 1 } restart).1 ∧
      (exec call [] { maxAge := 1 } restart).2.gapEvents = (lives (exec call [] { maxAge := 1 } restart).1).countP fun l => Expired l :=
  run_lawful 1 (exec_run _ .start)

end CommandGate

end Dyx3.Px4Link.RoverSetpoint
