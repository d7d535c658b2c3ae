import Dyx3.Lib.Flt
import Dyx3.Lib.Run

/-!
`Px4Sequencer` (dyx3_mission/px4_sequencer): the PX4 service calls of one mission execution. Engage steps go
out one at a time; a release overtakes the one in flight and undoes what this execution engaged.

Times are nanoseconds of the steady clock. The 64-bit counter of request ids is a natural number.
-/

namespace Dyx3.Mission

open Lib

inductive Px4Op where
  | arm | offboardOn | offboardOff | disarm
  deriving DecidableEq, Repr

inductive Px4Result where
  | ok | refused | timeout
  deriving DecidableEq, Repr

def Px4Op.text : Px4Op → String
  | .arm => "arm"
  | .offboardOn => "set_offboard(true)"
  | .offboardOff => "set_offboard(false)"
  | .disarm => "disarm"

def Px4Result.text : Px4Result → String
  | .ok => "ok"
  | .refused => "refused"
  | .timeout => "timeout"

def Px4Op.isRelease (op : Px4Op) : Bool := op = .offboardOff || op = .disarm

/-- px4_link sent the command but PX4 did not confirm in time: the arm may still have happened. -/
def armReasonTimeout : UInt8 := 3

structure Px4Request where
  op : Px4Op
  id : ℕ
  deriving DecidableEq, Repr

structure Px4Outcome where
  op : Px4Op
  result : Px4Result
  reasonCode : UInt8 := 0
  id : ℕ
  abandoned : Bool
  deriving DecidableEq

structure Flight where
  req : Px4Request
  deadline : ℤ
  abandoned : Bool := false
  deriving DecidableEq

inductive Arm where
  | none | inFlight | confirmed | refused | doubt
  deriving DecidableEq

structure Timeouts where
  arm : ℚ := 4
  offboard : ℚ := 5
  deriving DecidableEq

structure Px4Sequencer where
  timeouts : Timeouts := {}
  queue : List Px4Op := []
  flights : List Flight := []
  arm : Arm := .none
  armedEarlier : Bool := false
  offboardRequested : Bool := false
  releasing : Bool := false
  nextId : ℕ := 1
  deriving DecidableEq

namespace Px4Sequencer

def beginExecution (s : Px4Sequencer) : Px4Sequencer :=
  { s with
    queue := []
    flights := []
    arm := .none
    armedEarlier := false
    offboardRequested := false
    releasing := false }

def engage (s : Px4Sequencer) (op : Px4Op) : Px4Sequencer :=
  if s.releasing || op.isRelease then s else { s with queue := s.queue ++ [op] }

def busy (s : Px4Sequencer) : Bool := !s.flights.isEmpty || !s.queue.isEmpty

/-- This execution armed the vehicle or may have. -/
def armOwned (s : Px4Sequencer) : Bool :=
  s.armedEarlier || s.arm = .inFlight || s.arm = .confirmed || s.arm = .doubt

def release (s : Px4Sequencer) (force : Bool) : Px4Sequencer :=
  if s.releasing then
    -- an E-stop during the release still forces the disarm
    if force && !s.queue.contains .disarm && !s.flights.any (·.req.op = .disarm) then
      { s with queue := s.queue ++ [.disarm] }
    else s
  else
    { s with
      releasing := true
      queue := (if s.offboardRequested then [.offboardOff] else []) ++ if force || s.armOwned then [.disarm] else []
      flights := s.flights.map fun f => { f with abandoned := true } }

def releasePending (s : Px4Sequencer) : Option Px4Op :=
  match s.flights.find? (·.req.op.isRelease) with
  | some f => some f.req.op
  | none => if s.releasing then s.queue.head? else none

def timeoutOf (s : Px4Sequencer) (op : Px4Op) : ℚ :=
  if op = .arm ∨ op = .disarm then s.timeouts.arm else s.timeouts.offboard

def deadlineOf (s : Px4Sequencer) (op : Px4Op) (now : ℤ) : ℤ := now + llround (s.timeoutOf op * 10 ^ 9)

/-- The request that goes out now. An abandoned flight does not hold the release back. -/
def next (s : Px4Sequencer) (now : ℤ) : Px4Sequencer × Option Px4Request :=
  match s.queue with
  | [] => (s, none)
  | op :: rest =>
    if s.flights.any (!·.abandoned) then (s, none)
    else
      ({ s with
          queue := rest
          flights := s.flights ++ [⟨⟨op, s.nextId⟩, s.deadlineOf op now, false⟩]
          arm := if op = .arm then .inFlight else s.arm
          offboardRequested := s.offboardRequested || op = .offboardOn
          nextId := s.nextId + 1 }, some ⟨op, s.nextId⟩)

def noteArmResult (s : Px4Sequencer) (r : Px4Result) (reason : UInt8) : Px4Sequencer :=
  let arm : Arm :=
    if r = .ok then .confirmed
    else if r = .timeout || reason = armReasonTimeout then .doubt
    else .refused
  { s with arm, armedEarlier := s.armedEarlier || arm = .confirmed || arm = .doubt }

def noteOutcome (s : Px4Sequencer) (o : Px4Outcome) : Px4Sequencer :=
  if o.op = .arm then s.noteArmResult o.result o.reasonCode else s

def onResponse (s : Px4Sequencer) (id : ℕ) (accepted : Bool) (reason : UInt8) : Px4Sequencer × Option Px4Outcome :=
  match s.flights.find? (·.req.id = id) with
  | none => (s, none)
  | some f =>
    let o : Px4Outcome := ⟨f.req.op, if accepted then .ok else .refused, reason, id, f.abandoned⟩
    (({ s with flights := s.flights.eraseP (·.req.id = id) } : Px4Sequencer).noteOutcome o, some o)

def timedOut (f : Flight) : Px4Outcome := ⟨f.req.op, .timeout, 0, f.req.id, f.abandoned⟩

/-- The flights past their deadline, in order. -/
def onTick (s : Px4Sequencer) (now : ℤ) : Px4Sequencer × List Px4Outcome :=
  let out := (s.flights.filter fun f => f.deadline ≤ now).map timedOut
  (out.foldl noteOutcome { s with flights := s.flights.filter fun f => !decide (f.deadline ≤ now) }, out)

inductive Call where
  | setTimeouts (t : Timeouts)
  | beginExecution
  | engage (op : Px4Op)
  | release (force : Bool)
  | next (now : ℤ)
  | onResponse (id : ℕ) (accepted : Bool) (reason : UInt8)
  | onTick (now : ℤ)
  deriving DecidableEq

structure Reply where
  request : Option Px4Request := none
  outcomes : List Px4Outcome := []
  deriving DecidableEq

def call (s : Px4Sequencer) : Call → Px4Sequencer × Reply
  | .setTimeouts t => ({ s with timeouts := t }, {})
  | .beginExecution => (s.beginExecution, {})
  | .engage op => (s.engage op, {})
  | .release force => (s.release force, {})
  | .next now => ((s.next now).1, { request := (s.next now).2 })
  | .onResponse id accepted reason =>
    ((s.onResponse id accepted reason).1, { outcomes := (s.onResponse id accepted reason).2.toList })
  | .onTick now => ((s.onTick now).1, { outcomes := (s.onTick now).2 })

abbrev Record := Entry Call Reply

/-- The requests of a history, newest first. -/
def sent (h : List Record) : List Px4Request := h.filterMap (·.out.request)

def outcomes (h : List Record) : List Px4Outcome := h.flatMap (·.out.outcomes)

/-! ### What a call can do -/

/-- The flights that got their outcome are gone; nothing else moved but what is known of the arm. -/
structure Settles (s s' : Px4Sequencer) (out : List Px4Outcome) : Prop where
  left : s'.flights.Sublist s.flights
  ids : (out.map Px4Outcome.id ++ s'.flights.map (·.req.id)).Perm (s.flights.map (·.req.id))
  origin : ∀ o ∈ out, ∃ f ∈ s.flights, f.req = ⟨o.op, o.id⟩ ∧ f.abandoned = o.abandoned
  kept : ∀ f ∈ s.flights, f ∈ s'.flights ∨ ∃ o ∈ out, o.id = f.req.id
  queue : s'.queue = s.queue
  offboard : s'.offboardRequested = s.offboardRequested
  releasing : s'.releasing = s.releasing
  nextId : s'.nextId = s.nextId

theorem noteOutcome_same (s : Px4Sequencer) (o : Px4Outcome) :
    (s.noteOutcome o).flights = s.flights ∧ (s.noteOutcome o).queue = s.queue ∧
      (s.noteOutcome o).offboardRequested = s.offboardRequested ∧ (s.noteOutcome o).releasing = s.releasing ∧
      (s.noteOutcome o).nextId = s.nextId := by
  unfold noteOutcome noteArmResult
  split <;> exact ⟨rfl, rfl, rfl, rfl, rfl⟩

theorem noteOutcomes_same (s : Px4Sequencer) (out : List Px4Outcome) :
    (out.foldl noteOutcome s).flights = s.flights ∧ (out.foldl noteOutcome s).queue = s.queue ∧
      (out.foldl noteOutcome s).offboardRequested = s.offboardRequested ∧
      (out.foldl noteOutcome s).releasing = s.releasing ∧ (out.foldl noteOutcome s).nextId = s.nextId := by
  induction out generalizing s with
  | nil => exact ⟨rfl, rfl, rfl, rfl, rfl⟩
  | cons o out ih =>
    obtain ⟨flights, queue, offboard, releasing, nextId⟩ := noteOutcome_same s o
    obtain ⟨flights', queue', offboard', releasing', nextId'⟩ := ih (s.noteOutcome o)
    exact ⟨flights'.trans flights, queue'.trans queue, offboard'.trans offboard, releasing'.trans releasing,
      nextId'.trans nextId⟩

theorem onResponse_cases (s : Px4Sequencer) (id : ℕ) (accepted : Bool) (reason : UInt8) :
    s.onResponse id accepted reason = (s, none) ∨
      ∃ f before after o, s.flights = before ++ f :: after ∧
        o = ⟨f.req.op, if accepted then .ok else .refused, reason, f.req.id, f.abandoned⟩ ∧
        s.onResponse id accepted reason =
          (({ s with flights := before ++ after } : Px4Sequencer).noteOutcome o, some o) := by
  unfold onResponse
  cases found : s.flights.find? (·.req.id = id) with
  | none => exact .inl rfl
  | some f =>
    right
    have same : f.req.id = id := by simpa using List.find?_some found
    obtain ⟨first, before, after, split, none⟩ := List.find?_eq_some_iff_append.mp found
    refine ⟨f, before, after, _, split, rfl, ?_⟩
    have erased : s.flights.eraseP (·.req.id = id) = before ++ after := by
      rw [split, List.eraseP_append_right _ (fun b mem => by simpa using none b mem), List.eraseP_cons, first, cond_true]
    simp only [erased, same]

theorem onResponse_settles (s : Px4Sequencer) (id : ℕ) (accepted : Bool) (reason : UInt8) :
    Settles s (s.onResponse id accepted reason).1 (s.onResponse id accepted reason).2.toList := by
  rcases onResponse_cases s id accepted reason with unknown | ⟨f, before, after, o, split, rfl, known⟩
  · rw [unknown]
    exact ⟨.refl _, .refl _, by simp, fun _ mem => .inl mem, rfl, rfl, rfl, rfl⟩
  · rw [known]
    obtain ⟨flights, queue, offboard, releasing, nextId⟩ := noteOutcome_same { s with flights := before ++ after }
      ⟨f.req.op, if accepted then .ok else .refused, reason, f.req.id, f.abandoned⟩
    refine ⟨?_, ?_, ?_, ?_, queue, offboard, releasing, nextId⟩
    · rw [flights, split]
      exact (List.sublist_cons_self f after).append_left before
    · rw [flights, split]
      simp only [Option.toList_some, List.map_cons, List.map_nil, List.map_append, List.cons_append, List.nil_append]
      exact List.perm_middle.symm
    · intro o mem
      obtain rfl := Option.some_inj.mp (Option.mem_toList.mp mem)
      exact ⟨f, by simp [split], rfl, rfl⟩
    · intro g mem
      rw [split, List.mem_append, List.mem_cons] at mem
      rw [flights, List.mem_append]
      rcases mem with before | rfl | after
      · exact .inl (.inl before)
      · exact .inr ⟨_, Option.mem_toList.mpr rfl, rfl⟩
      · exact .inl (.inr after)

theorem onTick_settles (s : Px4Sequencer) (now : ℤ) : Settles s (s.onTick now).1 (s.onTick now).2 := by
  obtain ⟨flights, queue, offboard, releasing, nextId⟩ := noteOutcomes_same
    { s with flights := s.flights.filter fun f => !decide (f.deadline ≤ now) }
    ((s.flights.filter fun f => f.deadline ≤ now).map timedOut)
  refine ⟨?_, ?_, ?_, ?_, queue, offboard, releasing, nextId⟩
  · rw [onTick, flights]
    exact List.filter_sublist
  · have perm := (List.filter_append_perm (fun f : Flight => decide (f.deadline ≤ now)) s.flights).map (·.req.id)
    rw [List.map_append] at perm
    rw [onTick, flights, List.map_map]
    exact perm
  · intro o mem
    obtain ⟨f, inside, rfl⟩ := List.mem_map.mp mem
    exact ⟨f, List.mem_of_mem_filter inside, rfl, rfl⟩
  · intro f mem
    rw [onTick, flights]
    by_cases due : f.deadline ≤ now
    · exact .inr ⟨timedOut f, List.mem_map_of_mem (List.mem_filter.mpr ⟨mem, by simpa using due⟩), rfl⟩
    · exact .inl (List.mem_filter.mpr ⟨mem, by simpa using due⟩)

theorem next_cases (s : Px4Sequencer) (now : ℤ) :
    s.next now = (s, none) ∨
      ∃ op rest, s.queue = op :: rest ∧ (∀ f ∈ s.flights, f.abandoned = true) ∧
        s.next now =
          ({ s with
              queue := rest
              flights := s.flights ++ [⟨⟨op, s.nextId⟩, s.deadlineOf op now, false⟩]
              arm := if op = .arm then .inFlight else s.arm
              offboardRequested := s.offboardRequested || op = .offboardOn
              nextId := s.nextId + 1 }, some ⟨op, s.nextId⟩) := by
  unfold next
  split
  · exact .inl rfl
  case h_2 op rest queue =>
    split
    · exact .inl rfl
    case isFalse free =>
      refine .inr ⟨op, rest, queue, ?_, rfl⟩
      simpa using free

theorem release_cases (s : Px4Sequencer) (force : Bool) :
    (s.releasing = true ∧ (s.release force = s ∨
        (Px4Op.disarm ∉ s.queue ∧ s.release force = { s with queue := s.queue ++ [.disarm] }))) ∨
      (s.releasing = false ∧ s.release force =
        { s with
          releasing := true
          queue := (if s.offboardRequested then [.offboardOff] else []) ++ if force || s.armOwned then [.disarm] else []
          flights := s.flights.map fun f => { f with abandoned := true } }) := by
  unfold release
  split
  case isTrue releasing =>
    refine .inl ⟨releasing, ?_⟩
    split
    case isTrue needed =>
      simp only [Bool.and_eq_true, Bool.not_eq_true', List.contains_eq_mem, decide_eq_false_iff_not] at needed
      exact .inr ⟨needed.1.2, rfl⟩
    · exact .inl rfl
  case isFalse fresh => exact .inr ⟨by simpa using fresh, rfl⟩

theorem release_releasing (s : Px4Sequencer) (force : Bool) : (s.release force).releasing = true := by
  rcases release_cases s force with ⟨releasing, same | ⟨_, added⟩⟩ | ⟨_, released⟩
  · rw [same, releasing]
  · rw [added]; exact releasing
  · rw [released]

theorem engage_cases (s : Px4Sequencer) (op : Px4Op) :
    s.engage op = s ∨
      (s.releasing = false ∧ op.isRelease = false ∧ s.engage op = { s with queue := s.queue ++ [op] }) := by
  unfold engage
  split
  · exact .inl rfl
  case isFalse open_ =>
    simp only [Bool.or_eq_true, not_or, Bool.not_eq_true] at open_
    exact .inr ⟨open_.1, open_.2, rfl⟩

/-! ### The shape of the queue and of the flights -/

/-- Before a release only engage steps are queued and in flight, and nothing is abandoned. From the release on
the queue is what is left of the release, and exactly the engage flights are abandoned. -/
structure Shaped (s : Px4Sequencer) : Prop where
  engaging : s.releasing = false → ∀ op ∈ s.queue, op.isRelease = false
  quiet : s.releasing = false → ∀ f ∈ s.flights, f.req.op.isRelease = false ∧ f.abandoned = false
  order : s.releasing = true → s.queue.Sublist [.offboardOff, .disarm]
  overtaken : s.releasing = true → ∀ f ∈ s.flights, f.abandoned = !f.req.op.isRelease
  one : s.flights.Pairwise fun f g => f.abandoned = true ∨ g.abandoned = true

theorem Shaped.settles {s s' : Px4Sequencer} {out : List Px4Outcome} (h : Shaped s) (settles : Settles s s' out) :
    Shaped s' := by
  refine ⟨fun r => ?_, fun r f mem => ?_, fun r => ?_, fun r f mem => ?_, h.one.sublist settles.left⟩
  · rw [settles.queue]
    exact h.engaging (settles.releasing ▸ r)
  · exact h.quiet (settles.releasing ▸ r) f (settles.left.subset mem)
  · rw [settles.queue]
    exact h.order (settles.releasing ▸ r)
  · exact h.overtaken (settles.releasing ▸ r) f (settles.left.subset mem)

theorem Shaped.next {s : Px4Sequencer} (h : Shaped s) (now : ℤ) : Shaped (s.next now).1 := by
  rcases next_cases s now with none | ⟨op, rest, queue, free, some⟩
  · rwa [none]
  · rw [some]
    refine ⟨fun r => ?_, fun r => ?_, fun r => ?_, fun r => ?_, ?_⟩
    · have all := h.engaging r
      rw [queue, List.forall_mem_cons] at all
      exact all.2
    · have all := h.engaging r
      rw [queue, List.forall_mem_cons] at all
      rw [List.forall_mem_append, List.forall_mem_singleton]
      exact ⟨h.quiet r, all.1, rfl⟩
    · have order := h.order r
      rw [queue] at order
      exact (List.sublist_cons_self op rest).trans order
    · have order := h.order r
      rw [queue] at order
      rw [List.forall_mem_append, List.forall_mem_singleton]
      refine ⟨h.overtaken r, ?_⟩
      have mem : op ∈ [Px4Op.offboardOff, .disarm] := order.subset List.mem_cons_self
      rcases List.mem_pair.mp mem with rfl | rfl <;> rfl
    · rw [List.pairwise_append]
      exact ⟨h.one, List.pairwise_singleton _ _, fun f mem _ _ => .inl (free f mem)⟩

theorem Shaped.release {s : Px4Sequencer} (h : Shaped s) (force : Bool) : Shaped (s.release force) := by
  rcases release_cases s force with ⟨releasing, same | ⟨absent, added⟩⟩ | ⟨fresh, released⟩
  · rwa [same]
  · rw [added]
    refine ⟨fun r => ?_, fun r => ?_, fun _ => ?_, h.overtaken, h.one⟩
    · simp [releasing] at r
    · simp [releasing] at r
    · -- without its disarm the queue is at most the OFFBOARD step
      have order := h.order releasing
      have before : s.queue.Sublist [.offboardOff] := by
        match queue : s.queue with
        | [] => exact List.nil_sublist _
        | [.offboardOff] => exact .refl _
        | .offboardOff :: op :: rest =>
          rw [queue, List.cons_sublist_cons] at order
          have mem : op ∈ [Px4Op.disarm] := order.subset List.mem_cons_self
          rw [List.mem_singleton] at mem
          simp [queue, mem] at absent
        | .disarm :: _ => simp [queue] at absent
        | .arm :: _ | .offboardOn :: _ =>
          have mem := (queue ▸ order).subset List.mem_cons_self
          simp at mem
      exact before.append_right [.disarm]
  · rw [released]
    refine ⟨fun r => by simp at r, fun r => by simp at r, fun _ => ?_, fun _ f mem => ?_, ?_⟩
    · have all : ∀ off disarm : Bool, ((if off then [Px4Op.offboardOff] else []) ++
          if disarm then [Px4Op.disarm] else []).Sublist [.offboardOff, .disarm] := by decide
      exact all _ _
    · obtain ⟨g, inside, rfl⟩ := List.mem_map.mp mem
      simp [(h.quiet fresh g inside).1]
    · rw [List.pairwise_map]
      exact List.pairwise_of_forall fun _ _ => .inl rfl

theorem Shaped.call {s : Px4Sequencer} (h : Shaped s) (c : Call) : Shaped (s.call c).1 := by
  cases c with
  | setTimeouts t => exact ⟨h.engaging, h.quiet, h.order, h.overtaken, h.one⟩
  | beginExecution => exact ⟨by simp [Px4Sequencer.call, beginExecution], by simp [Px4Sequencer.call, beginExecution],
      by simp [Px4Sequencer.call, beginExecution], by simp [Px4Sequencer.call, beginExecution], .nil⟩
  | engage op =>
    rcases engage_cases s op with same | ⟨fresh, step, added⟩
    · simpa only [Px4Sequencer.call, same] using h
    · simp only [Px4Sequencer.call, added]
      refine ⟨fun r => ?_, h.quiet, fun r => ?_, h.overtaken, h.one⟩
      · rw [List.forall_mem_append, List.forall_mem_singleton]
        exact ⟨h.engaging r, step⟩
      · simp [fresh] at r
  | release force => exact h.release force
  | next now => exact h.next now
  | onResponse id accepted reason => exact h.settles (onResponse_settles s id accepted reason)
  | onTick now => exact h.settles (onTick_settles s now)

theorem shaped_start : Shaped {} := ⟨by simp, by simp, by simp, by simp, .nil⟩

end Px4Sequencer

end Dyx3.Mission
