import Dyx3.Px4Link.SprayCases

/-!
A call of the spray transactions in its parts: requests are shed or a new one joins, then the next is sent. What the
stores hold before and after is said exactly, for the invariants on their order and their identities.
-/

namespace Dyx3.Px4Link.SprayLink

variable {s t mid : SprayLink} {r r' q x : SprayPending} {env : Env} {outs : List SprayOut}

/-- The requests in flight and in the queue. -/
def requests (s : SprayLink) : List SprayPending := s.inflight.toList ++ s.queue

theorem mem_requests : q ∈ s.requests ↔ s.inflight = some q ∨ q ∈ s.queue := by
  simp [requests, Option.mem_toList]

/-! ### Room -/

/-- There is room for one request more, or an evicted one leaves it. -/
inductive Rooms (s : SprayLink) : SprayLink → List SprayOut → Prop where
  | free (room : s.requests.length < maxSprayTransactions) : Rooms s s []
  | evicted (q : SprayPending) (found : q ∈ s.queue) : Rooms s { s with queue := s.queue.erase q } [refuse q.seq q.source]

theorem makeRoom_eq (s : SprayLink) :
    s.makeRoom =
      if s.requests.length < maxSprayTransactions then some (s, [])
      else (s.queue.find? fun q => !isWatchdogOff q.toSprayActuatorCommand).map fun evict =>
        ({ s with queue := s.queue.erase evict }, [refuse evict.seq evict.source]) := by
  have count : s.queue.length + (if s.inflight.isSome then 1 else 0) = s.requests.length := by
    cases flying : s.inflight <;> simp [requests, flying]
  unfold makeRoom
  rw [count]
  split
  · rfl
  · cases s.queue.find? fun q => !isWatchdogOff q.toSprayActuatorCommand <;> rfl

theorem makeRoom_some {evicted : List SprayOut} (room : s.makeRoom = some (t, evicted)) : Rooms s t evicted := by
  rw [makeRoom_eq] at room
  by_cases few : s.requests.length < maxSprayTransactions
  · rw [if_pos few] at room
    cases room
    exact .free few
  · rw [if_neg few] at room
    obtain ⟨q, found, made⟩ := Option.map_eq_some_iff.mp room
    cases made
    exact .evicted q (List.mem_of_find?_eq_some found)

theorem Rooms.queue (rooms : Rooms s t outs) : ∃ left, left.Sublist s.queue ∧ t = { s with queue := left } := by
  cases rooms with
  | free => exact ⟨s.queue, .refl _, rfl⟩
  | evicted q => exact ⟨s.queue.erase q, List.erase_sublist, rfl⟩

theorem Rooms.fits (rooms : Rooms s t outs) : t.requests.length + 1 ≤ max maxSprayTransactions s.requests.length := by
  cases rooms with
  | free room => omega
  | evicted q found =>
    have nonempty := List.length_pos_of_mem found
    simp only [requests, List.length_append, List.length_erase_of_mem found]
    omega

theorem Rooms.silent (rooms : Rooms s t outs) : commands outs = [] := by
  cases rooms <;> rfl

/-- A request that finds no room is turned away, but what it replaced stays away. -/
theorem place_full (stuck : (s.replace r).1.makeRoom = none) :
    s.place r env = ((s.replace r).1, (s.replace r).2 ++ [refuse r.seq r.source]) := by
  simp [place, stuck]

/-- The queue with `r` at its front or its end. -/
def joined (s : SprayLink) (r : SprayPending) (queue : List SprayPending) : List SprayPending :=
  if isWatchdogOff r.toSprayActuatorCommand || s.preempts r then r :: queue else queue ++ [r]

theorem mem_joined {queue : List SprayPending} : q ∈ s.joined r queue ↔ q = r ∨ q ∈ queue := by
  unfold joined
  split
  · simp
  · simp [or_comm]

theorem joined_perm (s : SprayLink) (r : SprayPending) (queue : List SprayPending) :
    (s.joined r queue).Perm (r :: queue) := by
  unfold joined
  split
  · exact .refl _
  · exact List.perm_append_singleton r queue

theorem place_room {evicted : List SprayOut} (room : (s.replace r).1.makeRoom = some (t, evicted)) :
    s.place r env =
      (({ t with queue := s.joined r t.queue }.dispatchNext env).1,
        (s.replace r).2 ++ evicted ++ ({ t with queue := s.joined r t.queue }.dispatchNext env).2) := by
  simp [place, room, joined]

/-! ### Requests that leave, and the one that joins -/

/-- Requests were dropped or proved: nothing new is held, and an epoch ended only with its source's queue. -/
structure Sheds (s t : SprayLink) : Prop where
  tokens : t.tokens = s.tokens
  queue : t.queue.Sublist s.queue
  inflight : t.inflight = s.inflight ∨ t.inflight = none
  epochs : ∀ k, t.epochs.lookup k = s.epochs.lookup k ∨
    (t.epochs.lookup k = none ∧ ∀ q ∈ t.queue, q.source ≠ k)
  confirmed : ∀ k c, t.confirmed.lookup k = some c →
    s.confirmed.lookup k = some c ∨ (s.inflight = some c ∧ c.source = k)

/-- The request `r` has joined the queue as `r'`, under the identity of its source's epoch when it repeats it. -/
structure Joins (s : SprayLink) (r r' : SprayPending) (t : SprayLink) : Prop where
  tokens : t.tokens = s.tokens
  inflight : t.inflight = if s.preempts r then none else s.inflight
  confirmed : t.confirmed = s.confirmed.erase r.source
  others : ∀ k, k ≠ r.source → t.epochs.lookup k = s.epochs.lookup k
  identity : (∃ e, s.epochs.lookup r.source = some e ∧ sameSprayTransaction e r = true ∧
      t.epochs.lookup r.source = some e ∧ r' = { r with ackToken := e.ackToken, ackSystem := e.ackSystem }) ∨
    ((∀ e, s.epochs.lookup r.source = some e → sameSprayTransaction e r = false) ∧
      t.epochs.lookup r.source = none ∧ r' = r)
  queue : ∃ left, left.Sublist (s.queue.filter fun q => !supersedes r q) ∧ t.queue = s.joined r' left
  room : t.requests.length ≤ max maxSprayTransactions s.requests.length

theorem Joins.adopts (joins : Joins s r r' t) : Adopts r r' := by
  rcases joins.identity with ⟨e, _, _, _, rfl⟩ | ⟨_, _, rfl⟩ <;> exact ⟨rfl, rfl, rfl⟩

theorem Joins.mem (joins : Joins s r r' t) (member : q ∈ t.queue) : q = r' ∨ (q ∈ s.queue ∧ q.source ≠ r.source) := by
  obtain ⟨left, fewer, shape⟩ := joins.queue
  rw [shape] at member
  refine (mem_joined.mp member).imp_right ?_
  intro found
  obtain ⟨old, other⟩ := List.mem_filter.mp (fewer.mem found)
  simp only [supersedes, Bool.not_eq_true', Bool.or_eq_false_iff, decide_eq_false_iff_not] at other
  exact ⟨old, other.2⟩

theorem Joins.single (joins : Joins s r r' t) (single : (s.queue.map (·.source)).Nodup) :
    (t.queue.map (·.source)).Nodup := by
  obtain ⟨left, fewer, shape⟩ := joins.queue
  rw [shape, ((joined_perm s r' left).map _).nodup_iff, List.map_cons, List.nodup_cons]
  refine ⟨?_, ((fewer.trans List.filter_sublist).map _).nodup single⟩
  intro member
  obtain ⟨q, found, same⟩ := List.mem_map.mp member
  obtain ⟨_, other⟩ := List.mem_filter.mp (fewer.mem found)
  have source : r'.source = r.source := congrArg SprayActuatorCommand.source joins.adopts.message
  simp [supersedes, same, source] at other

/-- What a call does to the stores, and the VehicleCommand it publishes. -/
inductive Works (s : SprayLink) : Event → SprayLink → List SprayOut → Prop where
  | sheds {e : Event} {mid t : SprayLink} {env : Env} {acks sent : List SprayOut} (sheds : Sheds s mid)
      (silent : commands acks = []) (sends : Sends mid env t sent) : Works s e t (acks ++ sent)
  | resends {m : SprayActuatorCommand} {env : Env} {r x : SprayPending} (bar : Option SprayPending)
      (admissible : Admissible s m env r) (same : sameSprayTransaction x r = true)
      (known : s.inflight = some x ∨ s.confirmed.lookup m.source = some x) :
      Works s (.command m env) { s with barredOn := bar } [.command x]
  | joins {m : SprayActuatorCommand} {env : Env} {r r' : SprayPending} {mid t : SprayLink} {acks sent : List SprayOut}
      (admissible : Admissible s m env r) (new : s.reassert r = none) (joins : Joins s r r' mid)
      (silent : commands acks = []) (sends : Sends mid env t sent) : Works s (.command m env) t (acks ++ sent)

theorem Sheds.still (bar : Option SprayPending) (late : Nat) :
    Sheds s { s with barredOn := bar, lateAckCount := late } :=
  ⟨rfl, .refl _, .inl rfl, fun _ => .inl rfl, fun _ _ found => .inl found⟩

/-- A call that only sheds sends nothing. -/
theorem Works.of_sheds {e : Event} (sheds : Sheds s t) (silent : commands outs = []) : Works s e t outs := by
  rw [← List.append_nil outs]
  exact .sheds sheds silent (.idle (.inr (.inr rfl : _ ∨ (⟨false, true, 0⟩ : Env).linkOk = false)))

theorem adopt_cases (s : SprayLink) (r : SprayPending) :
    ∃ epochs, (s.adopt r).1 = { s with epochs } ∧ (∀ k, k ≠ r.source → epochs.lookup k = s.epochs.lookup k) ∧
      ((∃ e, s.epochs.lookup r.source = some e ∧ sameSprayTransaction e r = true ∧ epochs.lookup r.source = some e ∧
          (s.adopt r).2 = { r with ackToken := e.ackToken, ackSystem := e.ackSystem }) ∨
        ((∀ e, s.epochs.lookup r.source = some e → sameSprayTransaction e r = false) ∧
          epochs.lookup r.source = none ∧ (s.adopt r).2 = r)) := by
  cases found : s.epochs.lookup r.source with
  | none => exact ⟨s.epochs, by simp [adopt, found], fun _ _ => rfl, .inr ⟨by simp, found, by simp [adopt, found]⟩⟩
  | some e =>
    by_cases same : sameSprayTransaction e r = true
    · refine ⟨s.epochs, by simp [adopt, found, same], fun _ _ => rfl, .inl ⟨e, rfl, same, found, ?_⟩⟩
      simp [adopt, found, same]
    · refine ⟨s.epochs.erase r.source, by simp [adopt, found, same], ?_, .inr ⟨?_, AList.lookup_erase _ _, ?_⟩⟩
      · intro k other
        exact AList.lookup_erase_ne other
      · rintro _ ⟨⟩
        simpa using same
      · simp [adopt, found, same]

theorem supersedes_message (message : r'.toSprayActuatorCommand = r.toSprayActuatorCommand) :
    supersedes r' = supersedes r := by
  funext q
  simp [supersedes, message]

theorem taken_slot (s : SprayLink) (r : SprayPending) (queue : List SprayPending) :
    (s.taken r queue).inflight = s.inflight ∨ (s.taken r queue).inflight = none := by
  simp only [taken]
  split
  · exact .inr rfl
  · exact .inl rfl

theorem replace_silent (s : SprayLink) (r : SprayPending) : commands (s.replace r).2 = [] := by
  refine commands_silent fun w member => ?_
  obtain ⟨q, same, _⟩ := (replace_cases s r).2 _ member
  cases same

theorem taken_requests (s : SprayLink) (r : SprayPending) :
    (s.taken r (s.queue.filter fun q => !supersedes r q)).requests.length ≤ s.requests.length := by
  have shorter := List.length_filter_le (fun q => !supersedes r q) s.queue
  simp only [requests, taken, List.length_append]
  split
  · simp only [Option.toList_none, List.length_nil]
    omega
  · omega

theorem enqueue_works {m : SprayActuatorCommand} {bar : Option SprayPending} (admissible : Admissible s m env r)
    (new : s.reassert r = none) :
    Works s (.command m env) ({ s with barredOn := bar }.enqueue r env).1 ({ s with barredOn := bar }.enqueue r env).2 := by
  unfold enqueue
  obtain ⟨epochs, shape, others, identity⟩ :=
    adopt_cases { s with barredOn := bar, confirmed := s.confirmed.erase r.source } r
  generalize { s with barredOn := bar, confirmed := s.confirmed.erase r.source }.adopt r = adopted at shape identity ⊢
  obtain ⟨base, r'⟩ := adopted
  dsimp only at shape identity ⊢
  have message : r'.toSprayActuatorCommand = r.toSprayActuatorCommand := by
    rcases identity with ⟨e, _, _, _, rfl⟩ | ⟨_, _, rfl⟩ <;> rfl
  have on : r'.on = r.on := congrArg SprayActuatorCommand.on message
  have replaced := (replace_cases base r').1
  rw [supersedes_message message] at replaced
  have queue : base.queue = s.queue := by rw [shape]
  have slot : base.inflight = s.inflight := by rw [shape]
  have preempts_eq : base.preempts r' = s.preempts r := by simp [preempts, slot, on]
  cases room : (base.replace r').1.makeRoom with
  | none =>
    rw [place_full room]
    refine .of_sheds ⟨?_, ?_, ?_, ?_, ?_⟩ ?_
    · rw [replaced, shape]
      rfl
    · rw [replaced]
      simp only [taken, queue]
      exact List.filter_sublist
    · rw [replaced, ← slot]
      exact taken_slot base r' _
    · intro k
      rw [replaced]
      simp only [taken, queue]
      rw [shape]
      by_cases own : k = r.source
      · subst own
        rcases identity with ⟨e, before, _, after, _⟩ | ⟨_, ended, _⟩
        · exact .inl (after.trans before.symm)
        · refine .inr ⟨ended, ?_⟩
          intro q member same
          have kept := (List.mem_filter.mp member).2
          simp [supersedes, same] at kept
      · exact .inl (others k own)
    · intro k c found
      rw [replaced, shape] at found
      exact .inl (lookup_erase_some found)
    · rw [commands_append, replace_silent]
      rfl
  | some made =>
    obtain ⟨mid, evicted⟩ := made
    have rooms := makeRoom_some room
    rw [place_room room]
    rw [replaced] at rooms
    obtain ⟨left, fewer, made⟩ := rooms.queue
    have joins : Joins s r r' { mid with queue := base.joined r' mid.queue } := by
      refine ⟨?_, ?_, ?_, ?_, ?_, ?_, ?_⟩
      · rw [made, shape]
        rfl
      · rw [made]
        simp only [taken, preempts_eq, slot]
      · rw [made, shape]
        rfl
      · intro k other
        rw [made, shape]
        exact others k other
      · rw [made, shape]
        exact identity
      · refine ⟨left, ?_, ?_⟩
        · simpa [taken, queue] using fewer
        · rw [made]
          simp [joined, preempts, slot]
      · have few := rooms.fits
        have fewer := taken_requests base r'
        rw [supersedes_message message] at fewer
        have joined := (joined_perm base r' mid.queue).length_eq
        simp only [requests, List.length_append, List.length_cons, queue, slot] at few fewer joined ⊢
        omega
    refine .joins admissible new joins ?_ (dispatchNext_sends _ env)
    rw [commands_append, replace_silent, rooms.silent]
    rfl

theorem command_works (s : SprayLink) (m : SprayActuatorCommand) (env : Env) :
    Works s (.command m env) (s.onSprayCommand m env).1 (s.onSprayCommand m env).2 := by
  have refused : Works s (.command m env) s [refuse m.seq m.source] := .of_sheds (.still s.barredOn s.lateAckCount) rfl
  by_cases linkOk : env.linkOk = true
  swap
  · simpa [onSprayCommand, linkOk] using refused
  cases translated : translate m with
  | none => simpa [onSprayCommand, linkOk, translated] using refused
  | some r =>
    obtain ⟨bar, shape⟩ := rebar_eq s r
    have passed : Works s (.command m env) (s.rebar r) [] := by
      rw [shape]
      exact .of_sheds (.still bar s.lateAckCount) rfl
    rw [onSprayCommand_eq linkOk translated]
    by_cases barred : s.barred r = true
    · rw [if_pos barred]
      exact .of_sheds (.still s.barredOn s.lateAckCount) rfl
    by_cases blocked : s.blocked r = true
    · rw [if_neg barred, if_pos blocked]
      exact passed
    have admissible : Admissible s m env r := ⟨translated, linkOk, by simpa using barred, by simpa using blocked⟩
    rw [if_neg barred, if_neg blocked]
    cases found : s.reassert r with
    | some outs =>
      rcases reassert_cases found with ⟨x, rfl, same, known⟩ | ⟨q, _, rfl, _⟩
      · rw [shape]
        refine .resends bar admissible same ?_
        rwa [← translate_message translated]
      · exact passed
    | none =>
      rw [shape]
      exact enqueue_works admissible found

/-- The in-flight request is answered, and kept as the confirmed one when PX4 accepted it. -/
theorem ack_sheds {i : SprayPending} (flying : s.inflight = some i) (accepted : Bool) :
    Sheds s { s with
      inflight := none
      confirmed := if accepted then s.confirmed.insert i.source i else s.confirmed } := by
  refine ⟨rfl, .refl _, .inr rfl, fun _ => .inl rfl, ?_⟩
  intro k c found
  cases accepted with
  | false => exact .inl found
  | true =>
    by_cases same : k = i.source
    · subst same
      rw [if_pos rfl, AList.lookup_insert] at found
      obtain rfl := Option.some.inj found
      exact .inr ⟨flying, rfl⟩
    · rw [if_pos rfl, AList.lookup_insert_ne same] at found
      exact .inl found

theorem step_works (timeout : ℚ) (s : SprayLink) (e : Event) :
    Works s e (step timeout s e).1 (step timeout s e).2 := by
  cases e with
  | command m env => exact command_works s m env
  | fcuAck a env =>
    simp only [step, onVehicleCommandAck]
    split
    · exact .of_sheds (.still s.barredOn s.lateAckCount) rfl
    split
    · split
      · split
        · exact .of_sheds (.still s.barredOn s.lateAckCount) rfl
        · exact .of_sheds (.still s.barredOn _) rfl
      · exact .of_sheds (.still s.barredOn s.lateAckCount) rfl
    · rename_i i found
      have flying := (Option.filter_eq_some_iff.mp found).1
      rw [← List.singleton_append]
      exact .sheds (ack_sheds flying _) rfl (dispatchNext_sends _ env)
  | service env =>
    simp only [step, serviceSprayTransactions]
    split
    · refine .of_sheds ⟨rfl, List.nil_sublist _, .inr rfl, fun _ => .inl rfl, fun _ _ known => .inl known⟩ ?_
      exact commands_silent (by simp [refuse])
    · have expired : Sheds s (s.expire env timeout).1 ∧ commands (s.expire env timeout).2 = [] := by
        unfold expire
        split
        · split
          · exact ⟨⟨rfl, .refl _, .inr rfl, fun _ => .inl rfl, fun _ _ known => .inl known⟩, rfl⟩
          · exact ⟨.still s.barredOn s.lateAckCount, rfl⟩
        · exact ⟨.still s.barredOn s.lateAckCount, rfl⟩
      exact .sheds expired.1 expired.2 (dispatchNext_sends _ env)

end Dyx3.Px4Link.SprayLink
