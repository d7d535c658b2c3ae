import Mathlib.Data.Int.Notation
import Mathlib.Logic.Function.Basic
import Dyx3.Lib.Run

/-!
The status events of the gateway client: the filter by sequence number, the bounded queue between the socket reader and
the subscribers, and what the subscribers get to see of each kind.
-/

namespace Dyx3.Backend

open Lib

structure GatewayEvent where
  kind : String
  seq : ℤ
  data : String
  deriving DecidableEq, Repr

/-- A message of type "event" as `_handle_event` reads it: a field that is missing or has another type is none. -/
structure EventMsg where
  event : Option String
  seq : Option ℤ
  data : Option String
  deriving DecidableEq

def EventMsg.read : EventMsg → Option GatewayEvent
  | ⟨some kind, some seq, some data⟩ => some ⟨kind, seq, data⟩
  | _ => none

def GatewayEvent.msg (e : GatewayEvent) : EventMsg := ⟨some e.kind, some e.seq, some e.data⟩

@[simp] theorem read_msg (e : GatewayEvent) : e.msg.read = some e := rfl

def eventQueueMax : ℕ := 256

structure EventFeed where
  /-- the highest seq per kind on the current connection -/
  eventSeq : String → ℤ := fun _ => 0
  events : List GatewayEvent := []
  eventsDropped : ℕ := 0

namespace EventFeed

/-- A full queue loses its oldest event. -/
def makeRoom (f : EventFeed) : EventFeed :=
  if eventQueueMax ≤ f.events.length then { f with events := f.events.tail, eventsDropped := f.eventsDropped + 1 } else f

def handleEvent (f : EventFeed) (m : EventMsg) : EventFeed :=
  match m.read with
  | none => f
  | some e =>
    -- a push can race the connect replay: what is not above the highest seq is a duplicate
    if e.seq ≤ f.eventSeq e.kind then f
    else
      let f := { f with eventSeq := Function.update f.eventSeq e.kind e.seq }.makeRoom
      { f with events := f.events ++ [e] }

/-- One round of `_pump_events`: the event that is handed to the subscribers. -/
def pumpEvents (f : EventFeed) : EventFeed × Option GatewayEvent :=
  match f.events with
  | [] => (f, none)
  | e :: rest => ({ f with events := rest }, some e)

inductive Signal where
  | connected
  | line (m : EventMsg)
  | pump
  deriving DecidableEq

def step (f : EventFeed) : Signal → EventFeed × Option GatewayEvent
  | .connected => ({ f with eventSeq := fun _ => 0 }, none)
  | .line m => (f.handleEvent m, none)
  | .pump => f.pumpEvents

abbrev Record := Entry Signal (Option GatewayEvent)

/-- The newest event of a kind received on the connection. -/
def received (kind : String) : List Record → Option GatewayEvent
  | [] => none
  | ⟨.connected, _⟩ :: _ => none
  | ⟨.line m, _⟩ :: h =>
    match m.read with
    | some e => if e.kind = kind then some e else received kind h
    | none => received kind h
  | ⟨.pump, _⟩ :: h => received kind h

/-- What the subscribers got, oldest first. -/
def handedOn (h : List Record) : List GatewayEvent := h.reverse.filterMap (·.out)

def lastOf (kind : String) (es : List GatewayEvent) : Option GatewayEvent := lastWhere (·.kind = kind) es

/-- The gateway numbers the events of a kind upwards from 1. -/
def Rising (h : List Record) : Signal → Prop
  | .line m => ∀ e ∈ m.read, 0 < e.seq ∧ ∀ old ∈ received e.kind h, old.seq < e.seq
  | _ => True

/-- When a new event finds the queue full, its oldest event has a newer one of its kind: the new one or one that waits.
An event of an earlier connection whose kind did not come again needs none. -/
def Superseded (f : EventFeed) : Signal → Prop
  | .line m => ∀ e ∈ m.read, f.eventSeq e.kind < e.seq → f.events.length = eventQueueMax →
      ∀ oldest ∈ f.events.head?,
        oldest.kind = e.kind ∨ oldest.kind ∈ f.events.tail.map GatewayEvent.kind ∨ f.eventSeq oldest.kind = 0
  | _ => True

instance (h : List Record) : (x : Signal) → Decidable (Rising h x)
  | .line m => inferInstanceAs (Decidable (∀ e ∈ m.read, _))
  | .connected | .pump => isTrue trivial

instance (f : EventFeed) : (x : Signal) → Decidable (Superseded f x)
  | .line m => inferInstanceAs (Decidable (∀ e ∈ m.read, _))
  | .connected | .pump => isTrue trivial

theorem handedOn_cons (x : Record) (h : List Record) : handedOn (x :: h) = handedOn h ++ x.out.toList := by
  cases out : x.out <;> simp [handedOn, out]

theorem lastOf_append (kind : String) (es es' : List GatewayEvent) :
    lastOf kind (es ++ es') = (lastOf kind es').or (lastOf kind es) := lastWhere_append _ es es'

theorem lastOf_singleton (kind : String) (e : GatewayEvent) :
    lastOf kind [e] = if e.kind = kind then some e else none := by
  simp [lastOf, lastWhere_singleton]

/-- The first of a sequence is the last of its kind only when no other of its kind follows. -/
theorem lastOf_tail {kind : String} {e : GatewayEvent} {es es' : List GatewayEvent}
    (follows : e.kind ≠ kind ∨ kind ∈ es'.map GatewayEvent.kind) : lastOf kind (es ++ e :: es') = lastOf kind (es ++ es') := by
  have split : es ++ e :: es' = es ++ ([e] ++ es') := rfl
  rw [split, lastOf_append, lastOf_append, lastOf_append, lastOf_singleton]
  rcases follows with other | again
  · rw [if_neg other, Option.or_none]
  · obtain ⟨e', member, rfl⟩ := List.mem_map.mp again
    cases last : lastOf e'.kind es' with
    | none => exact absurd (lastWhere_none last e' member) (by simp)
    | some e'' => rfl

/-- What the queue still holds brings the newest event of each kind. -/
structure Current (h : List Record) (f : EventFeed) : Prop where
  bounded : f.events.length ≤ eventQueueMax
  seqs : ∀ kind, f.eventSeq kind = (received kind h).elim 0 GatewayEvent.seq
  positive : ∀ kind e, received kind h = some e → 0 < e.seq
  fresh : ∀ kind e, received kind h = some e → lastOf kind (handedOn h ++ f.events) = some e

variable {h : List Record} {f : EventFeed}

/-- The queue after an event that passes the filter. -/
theorem handleEvent_new {m : EventMsg} {e : GatewayEvent} (read : m.read = some e) (new : f.eventSeq e.kind < e.seq) :
    (f.handleEvent m).eventSeq = Function.update f.eventSeq e.kind e.seq ∧
      (f.handleEvent m).events = (if eventQueueMax ≤ f.events.length then f.events.tail else f.events) ++ [e] := by
  unfold handleEvent
  rw [read]
  dsimp only
  rw [if_neg (by omega), makeRoom]
  split
  · exact ⟨rfl, rfl⟩
  · exact ⟨rfl, rfl⟩

theorem received_line {m : EventMsg} {e : GatewayEvent} {out : Option GatewayEvent} (read : m.read = some e) (kind : String) :
    received kind (⟨.line m, out⟩ :: h) = if e.kind = kind then some e else received kind h := by
  rw [received, read]

/-! ### The filter -/

def accepted (f : EventFeed) (m : EventMsg) : Option GatewayEvent := m.read.filter fun e => f.eventSeq e.kind < e.seq

/-- The events that pass the filter, in order. -/
def passed : EventFeed → List EventMsg → List GatewayEvent
  | _, [] => []
  | f, m :: ms => (f.accepted m).toList ++ passed (f.handleEvent m) ms

theorem handleEvent_old {m : EventMsg} (old : f.accepted m = none) : f.handleEvent m = f := by
  unfold handleEvent
  cases read : m.read with
  | none => rfl
  | some e =>
    simp only [accepted, read, Option.filter_eq_none_iff, Option.some.injEq, decide_eq_true_eq] at old
    exact if_pos (Int.not_lt.mp (old e rfl))

theorem accepted_some {m : EventMsg} {e : GatewayEvent} (passes : f.accepted m = some e) :
    m.read = some e ∧ f.eventSeq e.kind < e.seq := by
  simpa [accepted, Option.filter_eq_some_iff] using passes

/-- What passes of a kind has rising seqs, all above the highest one so far. -/
theorem passed_rising (f : EventFeed) (ms : List EventMsg) (kind : String) :
    (∀ e ∈ passed f ms, e.kind = kind → f.eventSeq kind < e.seq) ∧
      ((passed f ms).filter (·.kind = kind)).Pairwise fun e e' => e.seq < e'.seq := by
  induction ms generalizing f with
  | nil => exact ⟨nofun, .nil⟩
  | cons m ms ih =>
    rw [passed]
    cases passes : f.accepted m with
    | none =>
      rw [handleEvent_old passes, Option.toList_none, List.nil_append]
      exact ih f
    | some x =>
      obtain ⟨read, new⟩ := accepted_some passes
      obtain ⟨above, rises⟩ := ih (f.handleEvent m)
      rw [(handleEvent_new read new).1] at above
      rw [Option.toList_some, List.singleton_append]
      by_cases same : x.kind = kind
      · rw [same, Function.update_self] at above
        refine ⟨fun e member at_ => ?_, ?_⟩
        · rcases List.mem_cons.mp member with rfl | later
          · exact same ▸ new
          · have higher := above e later at_
            rw [same] at new
            omega
        · rw [List.filter_cons_of_pos (by simpa using same)]
          refine List.pairwise_cons.mpr ⟨fun e member => ?_, rises⟩
          obtain ⟨later, at_⟩ := List.mem_filter.mp member
          exact above e later (by simpa using at_)
      · rw [Function.update_of_ne (Ne.symm same)] at above
        refine ⟨fun e member at_ => ?_, ?_⟩
        · rcases List.mem_cons.mp member with rfl | later
          · exact absurd at_ same
          · exact above e later at_
        · rw [List.filter_cons_of_neg (by simpa using same)]
          exact rises

theorem passed_received {ms : List EventMsg} {e : GatewayEvent} (member : e ∈ passed f ms) : e ∈ ms.filterMap EventMsg.read := by
  induction ms generalizing f with
  | nil => cases member
  | cons m ms ih =>
    rw [passed] at member
    rcases List.mem_append.mp member with first | later
    · have read := (accepted_some (Option.mem_toList.mp first)).1
      rw [List.filterMap_cons_some read]
      exact List.mem_cons_self
    · obtain ⟨m', inside, read⟩ := List.mem_filterMap.mp (ih later)
      exact List.mem_filterMap.mpr ⟨m', List.mem_cons_of_mem m inside, read⟩

/-- The event with the highest seq of its kind passes. -/
theorem passed_highest {ms : List EventMsg} {e : GatewayEvent} (member : e ∈ ms.filterMap EventMsg.read)
    (new : f.eventSeq e.kind < e.seq)
    (highest : ∀ e' ∈ ms.filterMap EventMsg.read, e'.kind = e.kind → e' = e ∨ e'.seq < e.seq) : e ∈ passed f ms := by
  induction ms generalizing f with
  | nil => cases member
  | cons m ms ih =>
    rw [passed]
    have later : ∀ e' ∈ ms.filterMap EventMsg.read, e'.kind = e.kind → e' = e ∨ e'.seq < e.seq := by
      intro e' inside
      obtain ⟨m', inside, read⟩ := List.mem_filterMap.mp inside
      exact highest e' (List.mem_filterMap.mpr ⟨m', List.mem_cons_of_mem m inside, read⟩)
    obtain ⟨m', inside, read⟩ := List.mem_filterMap.mp member
    by_cases now : m.read = some e
    · have passes : f.accepted m = some e := by simp [accepted, now, Option.filter, new]
      rw [passes]
      exact List.mem_cons_self
    · have rest : e ∈ ms.filterMap EventMsg.read := by
        rcases List.mem_cons.mp inside with rfl | inside
        · exact absurd read now
        · exact List.mem_filterMap.mpr ⟨m', inside, read⟩
      refine List.mem_append_right _ (ih rest ?_ later)
      cases passes : f.accepted m with
      | none =>
        rw [handleEvent_old passes]
        exact new
      | some x =>
        obtain ⟨first, above⟩ := accepted_some passes
        rw [(handleEvent_new first above).1]
        by_cases same : e.kind = x.kind
        · rw [same, Function.update_self]
          have found : x ∈ (m :: ms).filterMap EventMsg.read := by
            rw [List.filterMap_cons_some first]
            exact List.mem_cons_self
          rcases highest x found same.symm with rfl | lower
          · exact absurd first now
          · exact lower
        · rw [Function.update_of_ne same]
          exact new

/-- It is the last of its kind to pass. -/
theorem passed_last {ms : List EventMsg} {e : GatewayEvent} (member : e ∈ ms.filterMap EventMsg.read)
    (new : f.eventSeq e.kind < e.seq)
    (highest : ∀ e' ∈ ms.filterMap EventMsg.read, e'.kind = e.kind → e' = e ∨ e'.seq < e.seq) :
    lastOf e.kind (passed f ms) = some e := by
  have inside := passed_highest member new highest
  cases last : lastOf e.kind (passed f ms) with
  | none => exact absurd (lastWhere_none last e inside) (by simp)
  | some x =>
    obtain ⟨found, kind⟩ := lastWhere_mem last
    obtain ⟨earlier, split⟩ := List.getLast?_eq_some_iff.mp last
    have rises := (passed_rising f ms e.kind).2
    have kept : e ∈ (passed f ms).filter (·.kind = e.kind) := List.mem_filter.mpr ⟨inside, by simp⟩
    rw [split] at rises kept
    rcases highest x (passed_received found) (by simpa using kind) with rfl | lower
    · rfl
    · rcases List.mem_append.mp kept with before | here
      · have higher := (List.pairwise_append.mp rises).2.2 e before x List.mem_cons_self
        omega
      · rw [List.mem_singleton.mp here]

/-- With a newer event of its kind behind it the oldest event may go. -/
theorem Current.tail (current : Current h f) {kind : String} {e : GatewayEvent} (known : received kind h = some e)
    (again : ∀ oldest ∈ f.events.head?, oldest.kind ∈ f.events.tail.map GatewayEvent.kind ∨ f.eventSeq oldest.kind = 0 ∨
      oldest.kind ≠ kind) : lastOf kind (handedOn h ++ f.events.tail) = some e := by
  have fresh := current.fresh kind e known
  cases queue : f.events with
  | nil =>
    rw [queue] at fresh
    exact fresh
  | cons oldest rest =>
    rw [queue] at fresh again
    rw [List.tail_cons]
    rw [lastOf_tail] at fresh
    · exact fresh
    · by_cases same : oldest.kind = kind
      · rcases again oldest rfl with waits | unknown | other
        · exact .inr (same ▸ waits)
        · have seq := current.seqs oldest.kind
          rw [unknown, same, known] at seq
          have positive := current.positive kind e known
          simp only [Option.elim_some] at seq
          omega
        · exact absurd same other
      · exact .inl same

theorem Current.line (current : Current h f) {m : EventMsg} (rising : Rising h (.line m)) (superseded : Superseded f (.line m)) :
    Current (⟨.line m, none⟩ :: h) (f.handleEvent m) := by
  cases read : m.read with
  | none =>
    have same : f.handleEvent m = f := by
      unfold handleEvent
      rw [read]
    have known : ∀ kind, received kind (⟨.line m, none⟩ :: h) = received kind h := by
      intro kind
      rw [received, read]
    rw [same]
    refine ⟨current.bounded, ?_, ?_, ?_⟩
    · intro kind
      rw [known]
      exact current.seqs kind
    · intro kind
      rw [known]
      exact current.positive kind
    · intro kind
      rw [known, handedOn_cons, Option.toList_none, List.append_nil]
      exact current.fresh kind
  | some e =>
    obtain ⟨positive, above⟩ := rising e read
    have new : f.eventSeq e.kind < e.seq := by
      rw [current.seqs e.kind]
      cases known : received e.kind h with
      | none => exact positive
      | some old => exact above old known
    obtain ⟨seqs, queue⟩ := handleEvent_new read new
    refine ⟨?_, ?_, ?_, ?_⟩
    · have bounded := current.bounded
      rw [queue, List.length_append, List.length_singleton]
      split
      · have size : 0 < eventQueueMax := by decide
        rw [List.length_tail]
        omega
      · omega
    · intro kind
      rw [seqs, received_line read]
      by_cases same : e.kind = kind
      · rw [if_pos same, ← same, Function.update_self]
        rfl
      · rw [if_neg same, Function.update_of_ne (Ne.symm same)]
        exact current.seqs kind
    · intro kind x
      rw [received_line read]
      split
      · intro found
        cases found
        exact positive
      · exact current.positive kind x
    · intro kind x
      rw [received_line read, handedOn_cons, Option.toList_none, List.append_nil, queue, ← List.append_assoc, lastOf_append,
        lastOf_singleton]
      split
      · intro found
        exact found
      · rename_i other
        intro found
        rw [Option.none_or]
        split
        · refine current.tail found fun oldest first => ?_
          rcases superseded e read new (by have := current.bounded; omega) oldest first with same | waits | unknown
          · exact .inr (.inr (same ▸ other))
          · exact .inl waits
          · exact .inr (.inl unknown)
        · exact current.fresh kind x found

theorem Current.pump (current : Current h f) : Current (⟨.pump, f.pumpEvents.2⟩ :: h) f.pumpEvents.1 := by
  unfold pumpEvents
  cases queue : f.events with
  | nil =>
    refine ⟨current.bounded, current.seqs, current.positive, fun kind e found => ?_⟩
    rw [handedOn_cons, Option.toList_none, List.append_nil]
    exact current.fresh kind e found
  | cons first rest =>
    refine ⟨?_, current.seqs, current.positive, fun kind e found => ?_⟩
    · have bounded := current.bounded
      rw [queue, List.length_cons] at bounded
      show rest.length ≤ eventQueueMax
      omega
    · have fresh := current.fresh kind e found
      rw [queue] at fresh
      rw [handedOn_cons, Option.toList_some, List.append_assoc]
      exact fresh

theorem current_run (run : RunIf step (fun h f x => Rising h x ∧ Superseded f x) {} h f) : Current h f := by
  refine run.invariant Current ⟨by decide, fun _ => rfl, nofun, nofun⟩ ?_
  intro h f x current guard
  cases x with
  | connected => exact ⟨current.bounded, fun _ => rfl, nofun, nofun⟩
  | line m => exact current.line guard.1 guard.2
  | pump => exact current.pump

/-- When no event is dropped before a newer one of its kind is there, the subscribers end with the newest of each kind. -/
theorem newest_handed_on (run : RunIf step (fun h f x => Rising h x ∧ Superseded f x) {} h f) (drained : f.events = [])
    {kind : String} {e : GatewayEvent} (newest : received kind h = some e) : lastOf kind (handedOn h) = some e := by
  have fresh := (current_run run).fresh kind e newest
  rw [drained, List.append_nil] at fresh
  exact fresh

def estop : GatewayEvent := ⟨"estop", 1, "asserted"⟩

def missionState (seq : ℕ) : GatewayEvent := ⟨"mission_state", seq, ""⟩

/-- Two kinds, handed on one by one. -/
def calm : List Signal :=
  [.connected, .line estop.msg, .line (missionState 2).msg, .pump, .line (missionState 3).msg, .pump, .pump]

theorem calm_estop_handed_on : lastOf "estop" (handedOn (exec step [] {} calm).1) = some estop :=
  newest_handed_on (exec_runIf calm (by decide) .start) rfl rfl

/-- One rare event, then as many of another kind as the queue holds, before the subscribers get to run. -/
def burst : List Signal :=
  .connected :: .line estop.msg :: (List.range eventQueueMax).map (fun i => .line (missionState (i + 2)).msg) ++
    List.replicate eventQueueMax .pump

def burstRun : List Record × EventFeed := exec step [] {} burst

theorem burst_loses_estop : RunIf step (fun h _ x => Rising h x) {} burstRun.1 burstRun.2 ∧ burstRun.2.events = [] ∧
    received "estop" burstRun.1 = some estop ∧ lastOf "estop" (handedOn burstRun.1) = none := by
  have rising : Guarded step (fun h _ x => Rising h x) [] {} burst := by decide +kernel
  refine ⟨exec_runIf burst rising .start, ?_, ?_, ?_⟩
  · decide +kernel
  · decide +kernel
  · decide +kernel

end EventFeed

end Dyx3.Backend
