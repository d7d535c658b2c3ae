import Dyx3.Px4Link.SprayTransactions

/-!
What one call of the spray transactions can do, said once: each function's cases with the stores they change and
the messages they publish. Every invariant of the transactions is derived from these.
-/

namespace Dyx3.Px4Link

open Lib

theorem sameFloat_iff {a b : Flt} : sameFloat a b = true ↔ a = b := by
  cases a <;> cases b <;> simp [sameFloat, Flt.same, Flt.isNan]

/-- Equal requests: the same message, translated the same way, under the same source system. -/
theorem sameSprayTransaction_iff {a b : SprayPending} :
    sameSprayTransaction a b = true ↔
      a.toSprayActuatorCommand = b.toSprayActuatorCommand ∧ a.command = b.command ∧
      { a.vehicleCommand with command := 0, sourceComponent := 0 } =
        { b.vehicleCommand with command := 0, sourceComponent := 0 } := by
  obtain ⟨⟨_, _, _, _, _, _, _, _⟩, ⟨_, _, _, _, _, _, _, _, _, _, _, _, _⟩, _, _, _, _⟩ := a
  obtain ⟨⟨_, _, _, _, _, _, _, _⟩, ⟨_, _, _, _, _, _, _, _, _, _, _, _, _⟩, _, _, _, _⟩ := b
  simp only [sameSprayTransaction, Bool.and_eq_true, decide_eq_true_eq, sameFloat_iff, SprayActuatorCommand.mk.injEq,
    VehicleCommand.mk.injEq]
  constructor
  · rintro ⟨⟨⟨⟨⟨⟨⟨⟨⟨⟨⟨⟨⟨⟨⟨⟨⟨⟨⟨rfl, rfl⟩, rfl⟩, rfl⟩, rfl⟩, rfl⟩, rfl⟩, rfl⟩, rfl⟩, rfl⟩, rfl⟩, rfl⟩, rfl⟩, rfl⟩, rfl⟩, rfl⟩,
      rfl⟩, rfl⟩, rfl⟩, rfl⟩
    simp
  · rintro ⟨⟨rfl, rfl, rfl, rfl, rfl, rfl, rfl, rfl⟩, rfl, ⟨_, rfl, rfl, rfl, rfl, rfl, rfl, rfl, rfl, rfl, rfl, _, rfl⟩⟩
    simp

theorem sameSprayTransaction_message {a b : SprayPending} (same : sameSprayTransaction a b = true) :
    a.toSprayActuatorCommand = b.toSprayActuatorCommand := (sameSprayTransaction_iff.mp same).1

theorem translate_message {m : SprayActuatorCommand} {r : SprayPending} (translated : translate m = some r) :
    r.toSprayActuatorCommand = m := by
  obtain ⟨wire, _, rfl⟩ := Option.map_eq_some_iff.mp translated
  rfl

namespace SprayLink

/-! ### Dispatch -/

/-- `w` is the request `q` as it goes on the wire under its identity. -/
structure Carries (q w : SprayPending) : Prop where
  message : w.toSprayActuatorCommand = q.toSprayActuatorCommand
  command : w.command = q.command
  wire : w.vehicleCommand =
    { q.vehicleCommand with sourceSystem := w.ackSystem, sourceComponent := w.ackToken }
  identified : w.ackToken ≠ 0

inductive Dispatches (s : SprayLink) (env : Env) : SprayLink → List SprayOut → Prop where
  | idle (why : s.inflight.isSome = true ∨ s.queue = [] ∨ env.linkOk = false) : Dispatches s env s []
  | refused (q : SprayPending) (rest : List SprayPending) (tokens : AckTokens) (free : s.inflight = none)
      (head : s.queue = q :: rest) (exhausted : (s.tokens.reserve env.persistOk).2 = none) :
      Dispatches s env { s with queue := rest, tokens } [refuse q.seq q.source]
  | sent (q : SprayPending) (rest : List SprayPending) (tokens : AckTokens) (w : SprayPending)
      (free : s.inflight = none) (head : s.queue = q :: rest) (carries : Carries q w)
      (moved : tokens = s.tokens ∨ tokens = (s.tokens.reserve env.persistOk).1) :
      Dispatches s env { s with queue := rest, tokens, epochs := s.epochs.insert q.source w, inflight := some w }
        [.command w]

/-- The pair that ties the acks of a request to it. -/
def pair (r : SprayPending) : Identity := ⟨r.ackSystem, r.ackToken⟩

/-- A dispatch with the identity it uses: the one the request has kept, or the next of the ledger. -/
inductive Sends (s : SprayLink) (env : Env) : SprayLink → List SprayOut → Prop where
  | idle (why : s.inflight.isSome = true ∨ s.queue = [] ∨ env.linkOk = false) : Sends s env s []
  | refused (q : SprayPending) (rest : List SprayPending) (tokens : AckTokens) (free : s.inflight = none)
      (head : s.queue = q :: rest) (exhausted : s.tokens.reserve env.persistOk = (tokens, none)) :
      Sends s env { s with queue := rest, tokens } [refuse q.seq q.source]
  | sent (q : SprayPending) (rest : List SprayPending) (tokens : AckTokens) (w : SprayPending)
      (free : s.inflight = none) (head : s.queue = q :: rest) (carries : Carries q w)
      (identity : (q.ackToken ≠ 0 ∧ tokens = s.tokens ∧ pair w = pair q) ∨
        (q.ackToken = 0 ∧ s.tokens.reserve env.persistOk = (tokens, some (pair w)))) :
      Sends s env { s with queue := rest, tokens, epochs := s.epochs.insert q.source w, inflight := some w }
        [.command w]

theorem dispatchNext_sends (s : SprayLink) (env : Env) : Sends s env (s.dispatchNext env).1 (s.dispatchNext env).2 := by
  unfold dispatchNext
  split
  · rename_i why
    simp only [Bool.or_eq_true, Bool.not_eq_true'] at why
    exact .idle (why.imp_right .inr)
  rename_i free
  simp only [Bool.or_eq_true, Bool.not_eq_true', not_or, Option.not_isSome_iff_eq_none] at free
  split
  · rename_i empty
    exact .idle (.inr (.inl empty))
  rename_i q rest head
  by_cases new : q.ackToken = 0
  · cases reserved : s.tokens.reserve env.persistOk with
    | mk tokens id =>
      cases id with
      | none =>
        simp only [identify, new, if_true, reserved]
        exact .refused q rest tokens free.1 head reserved
      | some id =>
        have identified : id.component ≠ 0 := by
          rw [(AckTokens.reserve_some reserved).1]
          exact AckTokens.identityAt_component_pos _
        simp only [identify, new, if_true, reserved, identified, if_false]
        exact .sent q rest tokens _ free.1 head ⟨rfl, rfl, rfl, identified⟩ (.inr ⟨new, reserved⟩)
  · simp only [identify, new, if_false]
    exact .sent q rest s.tokens _ free.1 head ⟨rfl, rfl, rfl, new⟩ (.inl ⟨new, rfl, rfl⟩)

theorem Sends.dispatches {s t : SprayLink} {env : Env} {outs : List SprayOut} (sends : Sends s env t outs) :
    Dispatches s env t outs := by
  cases sends with
  | idle why => exact .idle why
  | refused q rest tokens free head exhausted => exact .refused q rest tokens free head (by rw [exhausted])
  | sent q rest tokens w free head carries identity =>
    refine .sent q rest tokens w free head carries ?_
    rcases identity with ⟨_, same, _⟩ | ⟨_, reserved⟩
    · exact .inl same
    · exact .inr (by rw [reserved])

theorem dispatchNext_cases (s : SprayLink) (env : Env) :
    Dispatches s env (s.dispatchNext env).1 (s.dispatchNext env).2 := (dispatchNext_sends s env).dispatches

/-! ### A new request -/

/-- `r'` is the request `r`, possibly with the identity of its source's epoch. -/
structure Adopts (r r' : SprayPending) : Prop where
  message : r'.toSprayActuatorCommand = r.toSprayActuatorCommand
  command : r'.command = r.command
  wire : r'.vehicleCommand = r.vehicleCommand

/-- The requests a new request `r` takes from the queue `queue` and the in-flight slot of `s`, and the
failed acks it sends for them. -/
structure Takes (s : SprayLink) (r : SprayPending) (queue : List SprayPending) (acks : List SprayOut) : Prop where
  kept : ∀ q ∈ queue, q ∈ s.queue ∧ supersedes r q = false
  acks : ∀ o ∈ acks, ∃ q, o = refuse q.seq q.source ∧
    ((q ∈ s.queue ∧ supersedes r q = true) ∨ (s.inflight = some q ∧ q.on = true ∧ r.on = false) ∨
      (q ∈ s.queue ∧ isWatchdogOff q.toSprayActuatorCommand = false))

/-- The stores once `r` has taken what it takes, before it is queued. -/
def taken (s : SprayLink) (r : SprayPending) (queue : List SprayPending) : SprayLink :=
  { s with queue, inflight := if s.preempts r then none else s.inflight }

inductive Places (s : SprayLink) (r : SprayPending) (env : Env) : SprayLink → List SprayOut → Prop where
  | full (queue : List SprayPending) (acks : List SprayOut) (takes : Takes s r queue acks)
      (stuck : maxSprayTransactions ≤ queue.length + 1) :
      Places s r env (s.taken r queue) (acks ++ [refuse r.seq r.source])
  | queued (queue : List SprayPending) (t : SprayLink) (acks sent : List SprayOut) (takes : Takes s r queue acks)
      (dispatches : Dispatches
        (s.taken r (if isWatchdogOff r.toSprayActuatorCommand || s.preempts r then r :: queue else queue ++ [r]))
        env t sent) : Places s r env t (acks ++ sent)

theorem replace_cases (s : SprayLink) (r : SprayPending) :
    (s.replace r).1 = s.taken r (s.queue.filter fun q => !supersedes r q) ∧
    ∀ o ∈ (s.replace r).2, ∃ q, o = refuse q.seq q.source ∧
      ((q ∈ s.queue ∧ supersedes r q = true) ∨ (s.inflight = some q ∧ q.on = true ∧ r.on = false)) := by
  have dropped : ∀ o ∈ (s.dropSuperseded r).2, ∃ q, o = refuse q.seq q.source ∧
      ((q ∈ s.queue ∧ supersedes r q = true) ∨ (s.inflight = some q ∧ q.on = true ∧ r.on = false)) := by
    intro o member
    obtain ⟨q, found, rfl⟩ := List.mem_map.mp member
    exact ⟨q, rfl, .inl (List.mem_filter.mp found)⟩
  unfold replace preempt taken preempts
  simp only [dropSuperseded] at dropped ⊢
  cases flying : s.inflight with
  | none => exact ⟨by simp, by simpa [flying] using dropped⟩
  | some i =>
    simp only [Option.any_some]
    split
    · rename_i taken
      refine ⟨rfl, ?_⟩
      intro o member
      rcases List.mem_append.mp member with old | last
      · simpa [flying] using dropped o old
      · simp only [Bool.and_eq_true, Bool.not_eq_true'] at taken
        rw [List.mem_singleton.mp last]
        exact ⟨i, rfl, .inr ⟨rfl, taken.2, taken.1⟩⟩
    · exact ⟨by simp, by simpa [flying] using dropped⟩

theorem makeRoom_cases (s : SprayLink) :
    (s.makeRoom = none ∧ maxSprayTransactions ≤ s.queue.length + 1) ∨
    ∃ queue acks, s.makeRoom = some ({ s with queue }, acks) ∧ (∀ q ∈ queue, q ∈ s.queue) ∧
      ∀ o ∈ acks, ∃ q, o = refuse q.seq q.source ∧ q ∈ s.queue ∧
        isWatchdogOff q.toSprayActuatorCommand = false := by
  unfold makeRoom
  by_cases room : s.queue.length + (if s.inflight.isSome then 1 else 0) < maxSprayTransactions
  · rw [if_pos room]
    exact .inr ⟨s.queue, [], rfl, fun _ member => member, by simp⟩
  rw [if_neg room]
  split
  · refine .inl ⟨rfl, ?_⟩
    split at room <;> omega
  · rename_i evict found
    refine .inr ⟨s.queue.erase evict, _, rfl, fun q member => List.mem_of_mem_erase member, ?_⟩
    intro o member
    rw [List.mem_singleton.mp member]
    exact ⟨evict, rfl, List.mem_of_find?_eq_some found, by simpa using List.find?_some found⟩

theorem place_cases (s : SprayLink) (r : SprayPending) (env : Env) :
    Places s r env (s.place r env).1 (s.place r env).2 := by
  obtain ⟨shape, acks⟩ := replace_cases s r
  unfold place
  generalize s.replace r = replaced at shape acks ⊢
  obtain ⟨t, replaced⟩ := replaced
  dsimp only at shape acks ⊢
  subst shape
  have kept : ∀ q ∈ s.queue.filter (fun q => !supersedes r q), q ∈ s.queue ∧ supersedes r q = false := by
    intro q member
    simpa using List.mem_filter.mp member
  have answered : ∀ o ∈ replaced, ∃ q, o = refuse q.seq q.source ∧
      ((q ∈ s.queue ∧ supersedes r q = true) ∨ (s.inflight = some q ∧ q.on = true ∧ r.on = false) ∨
        (q ∈ s.queue ∧ isWatchdogOff q.toSprayActuatorCommand = false)) := by
    intro o member
    obtain ⟨q, same, dropped | preempted⟩ := acks o member
    · exact ⟨q, same, .inl dropped⟩
    · exact ⟨q, same, .inr (.inl preempted)⟩
  rcases makeRoom_cases (s.taken r (s.queue.filter fun q => !supersedes r q)) with
    ⟨none, stuck⟩ | ⟨queue, evicted, some, fewer, gone⟩
  · rw [none]
    exact .full _ replaced ⟨kept, answered⟩ stuck
  · rw [some]
    refine .queued queue _ (replaced ++ evicted) _ ⟨fun q member => kept q (fewer q member), ?_⟩
      (dispatchNext_cases _ env)
    intro o member
    rcases List.mem_append.mp member with old | new
    · exact answered o old
    · obtain ⟨q, same, found, other⟩ := gone o new
      exact ⟨q, same, .inr (.inr ⟨(kept q found).1, other⟩)⟩

/-- A request that repeats nothing: it is placed under its epoch's identity, or its source's epoch ends. -/
inductive Enqueues (s : SprayLink) (r : SprayPending) (env : Env) : SprayLink → List SprayOut → Prop where
  | mk (r' : SprayPending) (epochs : BySource) (t : SprayLink) (outs : List SprayOut) (adopts : Adopts r r')
      (ended : epochs = s.epochs ∨ epochs = s.epochs.erase r.source)
      (places : Places { s with confirmed := s.confirmed.erase r.source, epochs } r' env t outs) :
      Enqueues s r env t outs

theorem enqueue_cases (s : SprayLink) (r : SprayPending) (env : Env) :
    Enqueues s r env (s.enqueue r env).1 (s.enqueue r env).2 := by
  unfold enqueue adopt
  simp only
  split
  · rename_i e _
    split
    · exact .mk { r with ackToken := e.ackToken, ackSystem := e.ackSystem } s.epochs _ _ ⟨rfl, rfl, rfl⟩ (.inl rfl)
        (place_cases _ _ env)
    · exact .mk r _ _ _ ⟨rfl, rfl, rfl⟩ (.inr rfl) (place_cases _ _ env)
  · exact .mk r s.epochs _ _ ⟨rfl, rfl, rfl⟩ (.inl rfl) (place_cases _ _ env)

/-! ### The three calls -/

/-- The bar after a request: a watchdog OFF retires the controller's ON epoch, another controller ON ends the bar. -/
def rebar (s : SprayLink) (r : SprayPending) : SprayLink := (s.retire r).clearBar r

theorem rebar_eq (s : SprayLink) (r : SprayPending) : ∃ bar, s.rebar r = { s with barredOn := bar } := by
  have retired : ∃ bar, s.retire r = { s with barredOn := bar } := by
    unfold retire
    repeat' split
    · exact ⟨_, rfl⟩
    all_goals exact ⟨s.barredOn, rfl⟩
  obtain ⟨bar, retired⟩ := retired
  unfold rebar
  rw [retired]
  unfold clearBar
  split
  · exact ⟨none, rfl⟩
  · exact ⟨bar, rfl⟩

/-- What the receipt of a command can do. -/
inductive Receives (s : SprayLink) (m : SprayActuatorCommand) (env : Env) : SprayLink → List SprayOut → Prop where
  | refused (why : env.linkOk = false ∨ translate m = none) : Receives s m env s [refuse m.seq m.source]
  | barred (r b : SprayPending) (translated : translate m = some r) (on : isControllerOn m = true)
      (bar : s.barredOn = some b) (same : sameSprayTransaction b r = true) : Receives s m env s []
  | blocked (r : SprayPending) (translated : translate m = some r) (linkOk : env.linkOk = true)
      (unbarred : s.barred r = false) (on : m.on = true) : Receives s m env (s.rebar r) []
  | resent (r x : SprayPending) (translated : translate m = some r) (linkOk : env.linkOk = true)
      (unbarred : s.barred r = false) (unblocked : s.blocked r = false) (same : sameSprayTransaction x r = true)
      (known : s.inflight = some x ∨ s.confirmed.lookup m.source = some x) :
      Receives s m env (s.rebar r) [.command x]
  | repeated (r q : SprayPending) (translated : translate m = some r) (linkOk : env.linkOk = true)
      (unbarred : s.barred r = false) (same : sameSprayTransaction q r = true) (known : q ∈ s.queue) :
      Receives s m env (s.rebar r) []
  | enqueued (r : SprayPending) (t : SprayLink) (outs : List SprayOut) (translated : translate m = some r)
      (linkOk : env.linkOk = true) (unbarred : s.barred r = false) (unblocked : s.blocked r = false)
      (new : s.reassert r = none) (enqueues : Enqueues (s.rebar r) r env t outs) : Receives s m env t outs

theorem barred_retire (s : SprayLink) (r : SprayPending) : (s.retire r).barred r = s.barred r := by
  unfold retire
  split
  · rename_i off
    have notOn : isControllerOn r.toSprayActuatorCommand = false := by
      simp only [isWatchdogOff, Bool.and_eq_true, Bool.not_eq_true'] at off
      simp [isControllerOn, off.2]
    simp [barred, notOn]
  · rfl

theorem reassert_cases {s : SprayLink} {r : SprayPending} {outs : List SprayOut} (found : s.reassert r = some outs) :
    (∃ x, outs = [.command x] ∧ sameSprayTransaction x r = true ∧
      (s.inflight = some x ∨ s.confirmed.lookup r.source = some x)) ∨
    (∃ q ∈ s.queue, outs = [] ∧ sameSprayTransaction q r = true) := by
  unfold reassert at found
  split at found
  · rename_i x match_
    obtain ⟨known, same⟩ := Option.filter_eq_some_iff.mp match_
    obtain rfl := Option.some.inj found
    exact .inl ⟨x, rfl, same, .inl known⟩
  split at found
  · rename_i queued
    obtain ⟨q, known, same⟩ := List.any_eq_true.mp queued
    obtain rfl := Option.some.inj found
    exact .inr ⟨q, known, rfl, same⟩
  split at found
  · rename_i x match_
    obtain ⟨known, same⟩ := Option.filter_eq_some_iff.mp match_
    obtain rfl := Option.some.inj found
    exact .inl ⟨x, rfl, same, .inr known⟩
  · cases found

/-- The receipt of a request, read in the stores before it: the bar it sets or ends plays no part in it. -/
theorem onSprayCommand_eq {s : SprayLink} {m : SprayActuatorCommand} {env : Env} {r : SprayPending}
    (linkOk : env.linkOk = true) (translated : translate m = some r) :
    s.onSprayCommand m env =
      if s.barred r then (s, [])
      else if s.blocked r then (s.rebar r, [])
      else match s.reassert r with
        | some out => (s.rebar r, out)
        | none => (s.rebar r).enqueue r env := by
  obtain ⟨bar, shape⟩ := rebar_eq s r
  have blocked_eq : ((s.retire r).clearBar r).blocked r = s.blocked r := by
    change (s.rebar r).blocked r = s.blocked r
    rw [shape]
    rfl
  have reassert_eq : ((s.retire r).clearBar r).reassert r = s.reassert r := by
    change (s.rebar r).reassert r = s.reassert r
    rw [shape]
    rfl
  simp only [onSprayCommand, linkOk, Bool.not_true, Bool.false_eq_true, if_false, translated, barred_retire, blocked_eq,
    reassert_eq]
  by_cases isBarred : s.barred r = true
  · have retired : s.retire r = s := by
      simp only [barred, isControllerOn, Bool.and_eq_true] at isBarred
      simp [retire, isWatchdogOff, isBarred.1.2]
    rw [if_pos isBarred, if_pos isBarred, retired]
  · rw [if_neg isBarred, if_neg isBarred]
    rfl

theorem onSprayCommand_cases (s : SprayLink) (m : SprayActuatorCommand) (env : Env) :
    Receives s m env (s.onSprayCommand m env).1 (s.onSprayCommand m env).2 := by
  by_cases linkOk : env.linkOk = true
  swap
  · have refused : s.onSprayCommand m env = (s, [refuse m.seq m.source]) := by simp [onSprayCommand, linkOk]
    rw [refused]
    exact .refused (.inl (by simpa using linkOk))
  cases translated : translate m with
  | none =>
    have refused : s.onSprayCommand m env = (s, [refuse m.seq m.source]) := by
      simp [onSprayCommand, linkOk, translated]
    rw [refused]
    exact .refused (.inr translated)
  | some r =>
    have message := translate_message translated
    rw [onSprayCommand_eq linkOk translated]
    by_cases isBarred : s.barred r = true
    · rw [if_pos isBarred]
      simp only [barred, Bool.and_eq_true, Option.any_eq_true] at isBarred
      obtain ⟨on, b, bar, same⟩ := isBarred
      exact .barred r b translated (message ▸ on) bar same
    rw [if_neg isBarred]
    by_cases isBlocked : s.blocked r = true
    · rw [if_pos isBlocked]
      simp only [blocked, Bool.and_eq_true] at isBlocked
      exact .blocked r translated linkOk (by simpa using isBarred) (message ▸ isBlocked.1)
    rw [if_neg isBlocked]
    cases found : s.reassert r with
    | some outs =>
      rcases reassert_cases found with ⟨x, rfl, same, known⟩ | ⟨q, known, rfl, same⟩
      · exact .resent r x translated linkOk (by simpa using isBarred) (by simpa using isBlocked) same
          (by rwa [← message])
      · exact .repeated r q translated linkOk (by simpa using isBarred) same known
    | none =>
      exact .enqueued r _ _ translated linkOk (by simpa using isBarred) (by simpa using isBlocked) found
        (enqueue_cases _ r env)

/-- What an ack of the FCU can do. -/
inductive Acked (s : SprayLink) (a : VehicleCommandAck) (env : Env) : SprayLink → List SprayOut → Prop where
  | ignored (late : Nat) : Acked s a env { s with lateAckCount := late } []
  | completed (i : SprayPending) (t : SprayLink) (sent : List SprayOut) (flying : s.inflight = some i)
      (matched : matchesAck i a = true)
      (dispatches : Dispatches
        { s with
          inflight := none
          confirmed := if a.result == resultAccepted then s.confirmed.insert i.source i else s.confirmed } env t sent) :
      Acked s a env t (.ack ⟨i.seq, i.source, a.result == resultAccepted, a.result⟩ :: sent)

theorem onVehicleCommandAck_cases (s : SprayLink) (a : VehicleCommandAck) (env : Env) :
    Acked s a env (s.onVehicleCommandAck a env).1 (s.onVehicleCommandAck a env).2 := by
  unfold onVehicleCommandAck
  split
  · exact .ignored s.lateAckCount
  split
  · split
    · split
      · exact .ignored s.lateAckCount
      · exact .ignored _
    · exact .ignored s.lateAckCount
  · rename_i completed found
    obtain ⟨flying, matched⟩ := Option.filter_eq_some_iff.mp found
    exact .completed completed _ _ flying matched (dispatchNext_cases _ env)

/-- What a service tick can do. -/
inductive Serviced (s : SprayLink) (env : Env) (timeout : ℚ) : SprayLink → List SprayOut → Prop where
  | lost (down : env.linkOk = false) :
      Serviced s env timeout { s with inflight := none, queue := [] }
        ((s.inflight.toList ++ s.queue).map fun r => refuse r.seq r.source)
  | kept (t : SprayLink) (sent : List SprayOut) (linkOk : env.linkOk = true) (dispatches : Dispatches s env t sent) :
      Serviced s env timeout t sent
  | expired (i : SprayPending) (t : SprayLink) (sent : List SprayOut) (linkOk : env.linkOk = true)
      (flying : s.inflight = some i) (overdue : timeout < env.now - i.sent)
      (dispatches : Dispatches { s with inflight := none } env t sent) :
      Serviced s env timeout t (refuse i.seq i.source :: sent)

theorem serviceSprayTransactions_cases (s : SprayLink) (env : Env) (timeout : ℚ) :
    Serviced s env timeout (s.serviceSprayTransactions env timeout).1 (s.serviceSprayTransactions env timeout).2 := by
  unfold serviceSprayTransactions
  split
  · rename_i down
    exact .lost (by simpa using down)
  rename_i up
  have linkOk : env.linkOk = true := by simpa using up
  unfold expire
  cases flying : s.inflight with
  | none => exact .kept _ _ linkOk (dispatchNext_cases s env)
  | some i =>
    simp only
    split
    · rename_i overdue
      exact .expired i _ _ linkOk flying overdue (dispatchNext_cases _ env)
    · exact .kept _ _ linkOk (dispatchNext_cases s env)

/-! ### Where requests come from -/

/-- A message that reaches the transactions as the request `r`. -/
structure Admissible (s : SprayLink) (m : SprayActuatorCommand) (env : Env) (r : SprayPending) : Prop where
  translated : translate m = some r
  linkOk : env.linkOk = true
  unbarred : s.barred r = false
  unblocked : s.blocked r = false

/-- The request a call adds to the queue. -/
def New (s : SprayLink) : Event → SprayPending → Prop
  | .command m env, q => ∃ r, s.Admissible m env r ∧ Adopts r q
  | _, _ => False

/-- The request a call sends once more. -/
def Back (s : SprayLink) : Event → SprayPending → Prop
  | .command m env, w => ∃ r, s.Admissible m env r ∧ sameSprayTransaction w r = true ∧
      (s.inflight = some w ∨ s.confirmed.lookup m.source = some w)
  | _, _ => False

/-- The requests whose VehicleCommand is published, in order. -/
def commands : List SprayOut → List SprayPending
  | [] => []
  | .command w :: outs => w :: commands outs
  | .ack _ :: outs => commands outs

@[simp] theorem commands_append (a b : List SprayOut) : commands (a ++ b) = commands a ++ commands b := by
  induction a with
  | nil => rfl
  | cons o a ih => cases o <;> simp [commands, ih]

theorem mem_commands {outs : List SprayOut} {w : SprayPending} : w ∈ commands outs ↔ .command w ∈ outs := by
  induction outs with
  | nil => simp [commands]
  | cons o outs ih => cases o <;> simp [commands, ih]

theorem commands_silent {outs : List SprayOut} (silent : ∀ w, .command w ∉ outs) : commands outs = [] := by
  refine List.eq_nil_iff_forall_not_mem.mpr fun w member => ?_
  exact silent w (mem_commands.mp member)

/-- The stores only change by requests moving on: new into the queue, from there onto the wire as the source's
epoch and in flight, and from there to the confirmed one. -/
structure Flow (s t : SprayLink) (outs : List SprayOut) (new back : SprayPending → Prop) : Prop where
  queue : ∀ q ∈ t.queue, q ∈ s.queue ∨ new q
  inflight : ∀ i, t.inflight = some i →
    s.inflight = some i ∨ (.command i ∈ outs ∧ ∃ q, (q ∈ s.queue ∨ new q) ∧ Carries q i)
  epochs : ∀ source e, t.epochs.lookup source = some e →
    s.epochs.lookup source = some e ∨
      (.command e ∈ outs ∧ e.source = source ∧ ∃ q, (q ∈ s.queue ∨ new q) ∧ Carries q e)
  confirmed : ∀ source c, t.confirmed.lookup source = some c →
    s.confirmed.lookup source = some c ∨ (s.inflight = some c ∧ c.source = source)
  published : commands outs = [] ∨
    ∃ w, commands outs = [w] ∧ (back w ∨ ∃ q, (q ∈ s.queue ∨ new q) ∧ Carries q w)

theorem Flow.origin {s t : SprayLink} {outs : List SprayOut} {new back : SprayPending → Prop} {w : SprayPending}
    (flow : Flow s t outs new back) (member : .command w ∈ outs) :
    back w ∨ ∃ q, (q ∈ s.queue ∨ new q) ∧ Carries q w := by
  have found := mem_commands.mpr member
  rcases flow.published with none | ⟨x, only, source⟩
  · simp [none] at found
  · obtain rfl : w = x := by simpa [only] using found
    exact source

theorem Dispatches.flow {s t : SprayLink} {env : Env} {outs : List SprayOut} (dispatches : Dispatches s env t outs) :
    Flow s t outs (fun _ => False) (fun _ => False) := by
  cases dispatches with
  | idle => exact ⟨fun _ known => .inl known, fun _ known => .inl known, fun _ _ known => .inl known,
      fun _ _ known => .inl known, .inl rfl⟩
  | refused q rest tokens free head =>
    refine ⟨?_, fun _ known => .inl known, fun _ _ known => .inl known, fun _ _ known => .inl known, .inl rfl⟩
    intro x member
    exact .inl (by rw [head]; exact List.mem_cons_of_mem q member)
  | sent q rest tokens w free head carries =>
    have queued : q ∈ s.queue := by simp [head]
    have source : w.source = q.source := congrArg SprayActuatorCommand.source carries.message
    refine ⟨?_, ?_, ?_, fun _ _ known => .inl known, ?_⟩
    · intro x member
      exact .inl (by rw [head]; exact List.mem_cons_of_mem q member)
    · rintro i ⟨⟩
      exact .inr ⟨by simp, q, .inl queued, carries⟩
    · intro src e found
      by_cases same : src = q.source
      · subst same
        rw [AList.lookup_insert] at found
        obtain rfl := Option.some.inj found
        exact .inr ⟨by simp, source, q, .inl queued, carries⟩
      · rw [AList.lookup_insert_ne same] at found
        exact .inl found
    · exact .inr ⟨w, rfl, .inr ⟨q, .inl queued, carries⟩⟩

/-- A flow from stores that were only reduced, but for new requests in the queue. -/
theorem Flow.of_reduced {s r t : SprayLink} {acks sent : List SprayOut} {new back : SprayPending → Prop}
    (flow : Flow r t sent (fun _ => False) (fun _ => False)) (queue : ∀ q ∈ r.queue, q ∈ s.queue ∨ new q)
    (inflight : ∀ i, r.inflight = some i → s.inflight = some i)
    (epochs : ∀ source e, r.epochs.lookup source = some e → s.epochs.lookup source = some e)
    (confirmed : ∀ source c, r.confirmed.lookup source = some c →
      s.confirmed.lookup source = some c ∨ (s.inflight = some c ∧ c.source = source))
    (silent : commands acks = []) : Flow s t (acks ++ sent) new back := by
  have moved : ∀ w, (∃ q, (q ∈ r.queue ∨ False) ∧ Carries q w) → ∃ q, (q ∈ s.queue ∨ new q) ∧ Carries q w := by
    rintro w ⟨q, known, carries⟩
    exact ⟨q, queue q (by simpa using known), carries⟩
  refine ⟨?_, ?_, ?_, ?_, ?_⟩
  · intro q member
    rcases flow.queue q member with known | none
    · exact queue q known
    · exact none.elim
  · intro i flying
    rcases flow.inflight i flying with known | ⟨out, found⟩
    · exact .inl (inflight i known)
    · exact .inr ⟨List.mem_append_right _ out, moved i found⟩
  · intro source e found
    rcases flow.epochs source e found with known | ⟨out, same, found⟩
    · exact .inl (epochs source e known)
    · exact .inr ⟨List.mem_append_right _ out, same, moved e found⟩
  · intro source c found
    rcases flow.confirmed source c found with known | ⟨flying, same⟩
    · exact confirmed source c known
    · exact .inr ⟨inflight c flying, same⟩
  · rw [commands_append, silent, List.nil_append]
    rcases flow.published with none | ⟨w, only, back | found⟩
    · exact .inl none
    · exact back.elim
    · exact .inr ⟨w, only, .inr (moved w found)⟩

/-- A call that moves nothing: it may send a known request once more. -/
theorem Flow.still {s : SprayLink} {bar : Option SprayPending} {late : Nat} {outs : List SprayOut}
    {new back : SprayPending → Prop} (published : commands outs = [] ∨ ∃ w, commands outs = [w] ∧ back w) :
    Flow s { s with barredOn := bar, lateAckCount := late } outs new back :=
  ⟨fun _ known => .inl known, fun _ known => .inl known, fun _ _ known => .inl known, fun _ _ known => .inl known,
    published.imp_right fun ⟨w, only, back⟩ => ⟨w, only, .inl back⟩⟩

theorem lookup_erase_some {m : BySource} {key source : Nat} {c : SprayPending}
    (found : (m.erase key).lookup source = some c) : m.lookup source = some c := by
  by_cases same : source = key
  · subst same
    rw [AList.lookup_erase] at found
    cases found
  · rwa [AList.lookup_erase_ne same] at found

theorem Takes.silent {s : SprayLink} {r : SprayPending} {queue : List SprayPending} {acks : List SprayOut}
    (takes : Takes s r queue acks) : commands acks = [] := by
  refine commands_silent fun w member => ?_
  obtain ⟨q, same, _⟩ := takes.acks _ member
  cases same

theorem taken_inflight {s : SprayLink} {r : SprayPending} {queue : List SprayPending} {i : SprayPending}
    (flying : (s.taken r queue).inflight = some i) : s.inflight = some i := by
  simp only [taken] at flying
  split at flying
  · cases flying
  · exact flying

theorem Enqueues.flow {s t : SprayLink} {r : SprayPending} {env : Env} {outs : List SprayOut}
    {back : SprayPending → Prop} (enqueues : Enqueues s r env t outs) : Flow s t outs (Adopts r) back := by
  obtain ⟨r', epochs, t, outs, adopts, ended, places⟩ := enqueues
  have fewer : ∀ source e, epochs.lookup source = some e → s.epochs.lookup source = some e := by
    intro source e found
    rcases ended with rfl | rfl
    · exact found
    · exact lookup_erase_some found
  cases places with
  | full queue acks takes =>
    rw [← List.append_nil (acks ++ _)]
    -- Nothing is dispatched here, as if the link were down.
    refine Flow.of_reduced (Dispatches.idle (.inr (.inr rfl : _ ∨ (⟨false, true, 0⟩ : Env).linkOk = false))).flow
      ?_ ?_ fewer ?_ ?_
    · intro q member
      exact .inl (takes.kept q member).1
    · intro i flying
      have same := taken_inflight flying
      exact same
    · intro source c found
      exact .inl (lookup_erase_some found)
    · rw [commands_append, takes.silent]
      rfl
  | queued queue t acks sent takes dispatches =>
    refine Flow.of_reduced dispatches.flow ?_ ?_ fewer ?_ takes.silent
    · intro q member
      have known : q = r' ∨ q ∈ queue := by
        simp only [taken] at member
        split at member
        · simpa using member
        · simpa [or_comm] using member
      rcases known with rfl | known
      · exact .inr adopts
      · exact .inl (takes.kept q known).1
    · intro i flying
      have same := taken_inflight flying
      exact same
    · intro source c found
      exact .inl (lookup_erase_some found)

theorem command_flow (s : SprayLink) (m : SprayActuatorCommand) (env : Env) :
    Flow s (s.onSprayCommand m env).1 (s.onSprayCommand m env).2 (s.New (.command m env)) (s.Back (.command m env)) := by
  have received := onSprayCommand_cases s m env
  generalize s.onSprayCommand m env = result at received
  obtain ⟨t, outs⟩ := result
  have rebarred : ∀ {r : SprayPending} {outs : List SprayOut} {new back : SprayPending → Prop},
      (commands outs = [] ∨ ∃ w, commands outs = [w] ∧ back w) → Flow s (s.rebar r) outs new back := by
    intro r outs new back published
    obtain ⟨bar, shape⟩ := rebar_eq s r
    rw [shape]
    exact Flow.still published
  cases received with
  | refused => exact Flow.still (.inl rfl)
  | barred => exact Flow.still (.inl rfl)
  | blocked => exact rebarred (.inl rfl)
  | resent r x translated linkOk unbarred unblocked same known =>
    exact rebarred (.inr ⟨x, rfl, r, ⟨translated, linkOk, unbarred, unblocked⟩, same, known⟩)
  | repeated => exact rebarred (.inl rfl)
  | enqueued r t outs translated linkOk unbarred unblocked new enqueues =>
    obtain ⟨bar, shape⟩ := rebar_eq s r
    rw [shape] at enqueues
    have flow : Flow _ t outs (Adopts r) (s.Back (.command m env)) := enqueues.flow
    have known : ∀ q, q ∈ s.queue ∨ Adopts r q → q ∈ s.queue ∨ s.New (.command m env) q := by
      rintro q (known | adopts)
      · exact .inl known
      · exact .inr ⟨r, ⟨translated, linkOk, unbarred, unblocked⟩, adopts⟩
    refine ⟨fun q member => known q (flow.queue q member), ?_, ?_, flow.confirmed, ?_⟩
    · intro i flying
      rcases flow.inflight i flying with same | ⟨out, q, found, carries⟩
      · exact .inl same
      · exact .inr ⟨out, q, known q found, carries⟩
    · intro source e found
      rcases flow.epochs source e found with same | ⟨out, src, q, found, carries⟩
      · exact .inl same
      · exact .inr ⟨out, src, q, known q found, carries⟩
    · rcases flow.published with none | ⟨w, only, back | ⟨q, found, carries⟩⟩
      · exact .inl none
      · exact .inr ⟨w, only, .inl back⟩
      · exact .inr ⟨w, only, .inr ⟨q, known q found, carries⟩⟩

theorem ack_flow (s : SprayLink) (a : VehicleCommandAck) (env : Env) :
    Flow s (s.onVehicleCommandAck a env).1 (s.onVehicleCommandAck a env).2 (fun _ => False) (fun _ => False) := by
  have acked := onVehicleCommandAck_cases s a env
  generalize s.onVehicleCommandAck a env = result at acked
  obtain ⟨t, outs⟩ := result
  cases acked with
  | ignored late => exact Flow.still (.inl rfl)
  | completed i t sent flying matched dispatches =>
    rw [← List.singleton_append]
    refine Flow.of_reduced dispatches.flow (fun _ known => .inl known) (by simp) (fun _ _ known => known) ?_ rfl
    intro source c found
    simp only at found
    split at found
    · by_cases same : source = i.source
      · subst same
        rw [AList.lookup_insert] at found
        obtain rfl := Option.some.inj found
        exact .inr ⟨flying, rfl⟩
      · rw [AList.lookup_insert_ne same] at found
        exact .inl found
    · exact .inl found

theorem service_flow (s : SprayLink) (env : Env) (timeout : ℚ) :
    Flow s (s.serviceSprayTransactions env timeout).1 (s.serviceSprayTransactions env timeout).2
      (fun _ => False) (fun _ => False) := by
  have serviced := serviceSprayTransactions_cases s env timeout
  generalize s.serviceSprayTransactions env timeout = result at serviced
  obtain ⟨t, outs⟩ := result
  cases serviced with
  | lost =>
    refine ⟨by simp, by simp, fun _ _ known => .inl known, fun _ _ known => .inl known, .inl ?_⟩
    exact commands_silent (by simp [refuse])
  | kept t sent linkOk dispatches => exact dispatches.flow
  | expired i t sent linkOk flying overdue dispatches =>
    rw [← List.singleton_append]
    exact Flow.of_reduced dispatches.flow (fun _ known => .inl known) (by simp) (fun _ _ known => known)
      (fun _ _ known => .inl known) rfl

theorem step_flow (timeout : ℚ) (s : SprayLink) (e : Event) :
    Flow s (step timeout s e).1 (step timeout s e).2 (s.New e) (s.Back e) := by
  cases e with
  | command m env => exact command_flow s m env
  | fcuAck a env => exact ack_flow s a env
  | service env => exact service_flow s env timeout

theorem New.message {s : SprayLink} {m : SprayActuatorCommand} {env : Env} {q : SprayPending}
    (new : s.New (.command m env) q) : q.toSprayActuatorCommand = m := by
  obtain ⟨r, admissible, adopts⟩ := new
  rw [adopts.message, translate_message admissible.translated]

theorem Back.message {s : SprayLink} {m : SprayActuatorCommand} {env : Env} {w : SprayPending}
    (back : s.Back (.command m env) w) : w.toSprayActuatorCommand = m := by
  obtain ⟨r, admissible, same, _⟩ := back
  rw [sameSprayTransaction_message same, translate_message admissible.translated]

/-! ### The bar -/

theorem Dispatches.barredOn {s t : SprayLink} {env : Env} {outs : List SprayOut}
    (dispatches : Dispatches s env t outs) : t.barredOn = s.barredOn := by
  cases dispatches <;> rfl

theorem Enqueues.barredOn {s t : SprayLink} {r : SprayPending} {env : Env} {outs : List SprayOut}
    (enqueues : Enqueues s r env t outs) : t.barredOn = s.barredOn := by
  obtain ⟨r', epochs, t, outs, adopts, ended, places⟩ := enqueues
  cases places with
  | full => rfl
  | queued queue t acks sent takes dispatches => exact dispatches.barredOn

/-- A command that gets no further than the bar leaves it alone. -/
theorem command_barredOn (s : SprayLink) (m : SprayActuatorCommand) (env : Env) :
    ((s.onSprayCommand m env).1.barredOn = s.barredOn ∧
      (env.linkOk = false ∨ translate m = none ∨ isControllerOn m = true)) ∨
    ∃ r, translate m = some r ∧ env.linkOk = true ∧ s.barred r = false ∧
      (s.onSprayCommand m env).1.barredOn = (s.rebar r).barredOn := by
  have received := onSprayCommand_cases s m env
  generalize s.onSprayCommand m env = result at received
  obtain ⟨t, outs⟩ := result
  cases received with
  | refused why => exact .inl ⟨rfl, why.imp_right .inl⟩
  | barred r b translated on => exact .inl ⟨rfl, .inr (.inr on)⟩
  | blocked r translated linkOk unbarred => exact .inr ⟨r, translated, linkOk, unbarred, rfl⟩
  | resent r x translated linkOk unbarred => exact .inr ⟨r, translated, linkOk, unbarred, rfl⟩
  | repeated r q translated linkOk unbarred => exact .inr ⟨r, translated, linkOk, unbarred, rfl⟩
  | enqueued r t outs translated linkOk unbarred unblocked new enqueues =>
    exact .inr ⟨r, translated, linkOk, unbarred, enqueues.barredOn⟩

theorem rebar_watchdogOff {s : SprayLink} {r e : SprayPending} (off : isWatchdogOff r.toSprayActuatorCommand = true)
    (epoch : s.epochs.lookup sourceController = some e) (on : e.on = true) : (s.rebar r).barredOn = some e := by
  have notOn : isControllerOn r.toSprayActuatorCommand = false := by
    simp only [isWatchdogOff, Bool.and_eq_true, Bool.not_eq_true'] at off
    simp [isControllerOn, off.2]
  simp [rebar, retire, clearBar, off, epoch, on, notOn]

theorem rebar_other {s : SprayLink} {r : SprayPending} (off : isWatchdogOff r.toSprayActuatorCommand = false)
    (notOn : isControllerOn r.toSprayActuatorCommand = false) : (s.rebar r).barredOn = s.barredOn := by
  simp [rebar, retire, clearBar, off, notOn]

theorem ack_barredOn (s : SprayLink) (a : VehicleCommandAck) (env : Env) :
    (s.onVehicleCommandAck a env).1.barredOn = s.barredOn := by
  have acked := onVehicleCommandAck_cases s a env
  generalize s.onVehicleCommandAck a env = result at acked
  obtain ⟨t, outs⟩ := result
  cases acked with
  | ignored => rfl
  | completed i t sent flying matched dispatches => exact dispatches.barredOn

theorem service_barredOn (s : SprayLink) (env : Env) (timeout : ℚ) :
    (s.serviceSprayTransactions env timeout).1.barredOn = s.barredOn := by
  have serviced := serviceSprayTransactions_cases s env timeout
  generalize s.serviceSprayTransactions env timeout = result at serviced
  obtain ⟨t, outs⟩ := result
  cases serviced with
  | lost => rfl
  | kept t sent linkOk dispatches => exact dispatches.barredOn
  | expired i t sent linkOk flying overdue dispatches => exact dispatches.barredOn

end SprayLink

end Dyx3.Px4Link
