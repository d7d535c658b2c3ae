import Dyx3.Backend.GatewayEvents
import Dyx3.Gateway.EventStream

/-!
The status events from the gateway's stream to a client that connects while they are pushed.
-/

namespace Dyx3.System

open Lib Gateway Gateway.EventStream Backend

/-- What the client reads of an event line. -/
def eventOf (line : EventLine) : GatewayEvent := ⟨line.event, line.seq, line.data⟩

def msgOf (line : EventLine) : EventMsg := (eventOf line).msg

theorem reads (lines : List EventLine) : (lines.map msgOf).filterMap EventMsg.read = lines.map eventOf := by
  induction lines with
  | nil => rfl
  | cons line lines ih =>
    have read : (msgOf line).read = some (eventOf line) := read_msg (eventOf line)
    rw [List.map_cons, List.filterMap_cons_some read, ih, List.map_cons]

variable {wallMs : ℕ → ℤ} {coalesce : Flt} {before mid later : List EventStream.Record} {s₁ s₂ s₃ : EventStream}

theorem pushes_append (h h' : List EventStream.Record) : pushes (h ++ h') = pushes h' ++ pushes h := by
  simp [pushes]

/-- In a list with rising numbers the last entry of a kind has the highest. -/
theorem lastPush_highest {lines : List EventLine} {n : ℕ} {kind : String} {line last : EventLine}
    (numbered : lines.map EventLine.seq = List.range' 1 n) (found : lastPush kind lines = some last) (member : line ∈ lines)
    (event : line.event = kind) : line = last ∨ line.seq < last.seq := by
  have rises : lines.Pairwise fun a b => a.seq < b.seq := by
    have sorted := List.pairwise_lt_range' (s := 1) (n := n)
    rw [← numbered] at sorted
    exact List.pairwise_map.mp sorted
  have kept : line ∈ lines.filter (·.event = kind) := List.mem_filter.mpr ⟨member, by simpa using event⟩
  obtain ⟨earlier, split⟩ := List.getLast?_eq_some_iff.mp found
  have rises := rises.filter (·.event = kind)
  rw [split] at rises kept
  rcases List.mem_append.mp kept with before | here
  · exact .inr ((List.pairwise_append.mp rises).2.2 line before last List.mem_cons_self)
  · exact .inl (List.mem_singleton.mp here)

section

variable (run₁ : Run (EventStream.step wallMs) { coalesce } before s₁) (run₂ : Run (EventStream.step wallMs) s₁ mid s₂)
  (run₃ : Run (EventStream.step wallMs) s₂ later s₃) {lines : List EventLine}
  (arrives : lines.Perm (s₂.replay ++ pushes (later ++ mid)))

include run₁ run₂ arrives

/-- Every line that reaches the newcomer is a push, and the last push of each kind is among them. -/
theorem newcomer_lines :
    (∀ line ∈ lines, ∃ push ∈ pushes (later ++ mid ++ before), eventOf line = eventOf push) ∧
      ∀ kind last, lastPush kind (pushes (later ++ mid ++ before)) = some last → ∃ line ∈ lines, eventOf line = eventOf last := by
  have booked := books_run (run₂.append run₁)
  have pushed : pushes (later ++ mid ++ before) = pushes before ++ pushes (later ++ mid) := pushes_append _ _
  refine ⟨fun line member => ?_, fun kind last found => ?_⟩
  · rcases List.mem_append.mp (arrives.mem_iff.mp member) with replayed | sent
    · obtain ⟨kind, last, found, rfl⟩ := booked.mem_replay.mp replayed
      refine ⟨last, ?_, rfl⟩
      rw [List.append_assoc, pushes_append]
      exact List.mem_append_left _ (lastWhere_mem found).1
    · exact ⟨line, pushed ▸ List.mem_append_right _ sent, rfl⟩
  · rw [pushed, lastPush, lastWhere_append] at found
    cases recent : lastWhere (·.event = kind) (pushes (later ++ mid)) with
    | some line =>
      rw [recent] at found
      obtain rfl := Option.some.inj found
      exact ⟨line, arrives.mem_iff.mpr (List.mem_append_right _ (lastWhere_mem recent).1), rfl⟩
    | none =>
      -- nothing of the kind since the client joined, so the replay has its last push
      rw [recent, Option.none_or] at found
      have quiet : lastWhere (fun line : EventLine => line.event = kind) (pushes mid) = none := by
        rw [pushes_append, lastWhere_append, Option.or_eq_none_iff] at recent
        exact recent.2
      have shown : lastPush kind (pushes (mid ++ before)) = some last := by
        rw [pushes_append, lastPush, lastWhere_append, quiet, Option.none_or, found]
      have replayed := booked.mem_replay.mpr ⟨kind, last, shown, rfl⟩
      exact ⟨_, arrives.mem_iff.mpr (List.mem_append_left _ replayed), rfl⟩

include run₃

/-- The newcomer joins after `before`, its replay is made after `mid`, and `lines` are the replay and the lines broadcast
since it joined, in any order: the filter ends with the last push of each kind. -/
theorem newcomer_filter {f : EventFeed} (connected : f.eventSeq = fun _ => 0) {kind : String} {last : EventLine}
    (found : lastPush kind (pushes (later ++ mid ++ before)) = some last) :
    EventFeed.lastOf kind (f.passed (lines.map msgOf)) = some (eventOf last) := by
  have all := books_run (run₃.append (run₂.append run₁))
  rw [← List.append_assoc] at all
  obtain ⟨origin, complete⟩ := newcomer_lines run₁ run₂ arrives
  have event : (eventOf last).kind = kind := by simpa [eventOf] using (lastWhere_mem found).2
  have positive := all.positive (lastWhere_mem found).1
  obtain ⟨line, member, same⟩ := complete kind last found
  rw [← event]
  refine EventFeed.passed_last ?_ ?_ ?_
  · rw [reads, ← same]
    exact List.mem_map_of_mem member
  · rw [connected]
    show (0 : ℤ) < (last.seq : ℤ)
    omega
  · rw [reads]
    intro e inside kindOf
    obtain ⟨other, arrived, rfl⟩ := List.mem_map.mp inside
    obtain ⟨push, pushed, alike⟩ := origin other arrived
    rw [alike] at kindOf ⊢
    rcases lastPush_highest all.numbered found pushed (kindOf.trans event) with rfl | lower
    · exact .inl rfl
    · exact .inr (Int.ofNat_lt.mpr lower)

/-- The books of the event stream, and what a newcomer's filter makes of its lines. -/
theorem event_accounting :
    (pushes (later ++ mid ++ before)).map EventLine.seq = List.range' 1 (pushes (later ++ mid ++ before)).length ∧
      (∀ kind, transitions kind (later ++ mid ++ before) =
        accounted kind (pushes (later ++ mid ++ before)) + waiting (s₃.kinds kind)) ∧
      (∀ now kind, s₃.coalesce ≤ now - (s₃.kinds kind).lastPush →
        ((s₃.flush wallMs now).1.kinds kind).pending = false ∧
          ∀ key, lastKey kind (later ++ mid ++ before) = some key →
            ∃ line, lastPush kind (pushes (later ++ mid ++ before) ++ (s₃.flush wallMs now).2) = some line ∧
              Offered (later ++ mid ++ before) kind key line.data) ∧
      ∀ (f : EventFeed) (kind : String),
        (((f.step .connected).1.passed (lines.map msgOf)).filter (·.kind = kind)).Pairwise (fun e e' => e.seq < e'.seq) ∧
          ∀ last, lastPush kind (pushes (later ++ mid ++ before)) = some last →
            EventFeed.lastOf kind ((f.step .connected).1.passed (lines.map msgOf)) = some (eventOf last) := by
  have all := books_run (run₃.append (run₂.append run₁))
  rw [← List.append_assoc] at all
  refine ⟨?_, fun kind => (all.kept kind).balance, fun now kind past => ?_, fun f kind => ⟨?_, fun last found => ?_⟩⟩
  · have count := congrArg List.length all.numbered
    rw [List.length_map, List.length_range'] at count
    rw [count]
    exact all.numbered
  · have idle : ((s₃.flush wallMs now).1.kinds kind).pending = false := all.flush_settles past
    have flushed : Kept (later ++ mid ++ before) (pushes (later ++ mid ++ before) ++ (s₃.flush wallMs now).2) kind
        ((s₃.flush wallMs now).1.kinds kind) := (all.flushKinds now s₃.names).kept kind
    refine ⟨idle, fun key known => ?_⟩
    rw [flushed.key] at known
    split at known
    · rename_i seen
      obtain rfl := Option.some.inj known
      exact flushed.settled seen idle
    · cases known
  · exact (EventFeed.passed_rising _ (lines.map msgOf) kind).2
  · exact newcomer_filter run₁ run₂ run₃ arrives rfl found

end

/-- Three transitions of one kind in one window and one of another, then a flush past the window. -/
def pauses : List EventStream.Call :=
  [.offer "mission_state" "4" "running" (.fin 1), .offer "mission_state" "5" "paused" (.fin (101 / 100)),
    .offer "estop" "1" "asserted" (.fin (102 / 100)), .offer "mission_state" "7" "aborted" (.fin (103 / 100)),
    .flush (.fin 2)]

def pausesRun : List EventStream.Record × EventStream :=
  exec (EventStream.step fun _ => 0) [] { coalesce := .fin (1 / 10) } pauses

theorem pauses_accounted : (pushes pausesRun.1).length = 3 ∧ transitions "mission_state" pausesRun.1 = 3 ∧
    (pushes pausesRun.1).map EventLine.seq = List.range' 1 (pushes pausesRun.1).length ∧
      EventFeed.lastOf "mission_state" ((({} : EventFeed).step .connected).1.passed (pausesRun.2.replay.map msgOf)) =
        some ⟨"mission_state", 3, "aborted"⟩ := by
  obtain ⟨numbered, _, _, filtered⟩ := event_accounting (exec_run pauses .start)
    (.start : Run (EventStream.step fun _ => 0) pausesRun.2 [] pausesRun.2) .start (.refl (pausesRun.2.replay ++ pushes []))
  have last : lastPush "mission_state" (pushes pausesRun.1) = some ⟨"mission_state", 3, .fin (103 / 100), 0, 1, false, "aborted"⟩ := by
    decide +kernel
  refine ⟨by decide +kernel, by decide +kernel, numbered, ?_⟩
  have shown := (filtered {} "mission_state").2 _ last
  rwa [show pushes [] = ([] : List EventLine) from rfl, List.append_nil] at shown

end Dyx3.System
