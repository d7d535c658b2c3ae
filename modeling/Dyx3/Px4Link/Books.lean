import Dyx3.Px4Link.SprayCases

/-!
The books of px4_link against the controller: what the queue, the in-flight slot and the confirmed requests hold is
bounded by what the controller has asked for and by what has been published.
-/

namespace Dyx3.Px4Link.SprayLink

/-- A message of the controller while it is at `n` and commands `on`, or a watchdog OFF. -/
def Fits (n : Nat) (on : Bool) (m : SprayActuatorCommand) : Prop :=
  (m.source = sourceController ∧ m.seq ≤ n ∧ (m.seq = n → m.on = on)) ∨ (m.source = sourceWatchdog ∧ m.on = false)

variable {n : Nat} {on : Bool} {s t : SprayLink} {r x : SprayPending} {env : Env} {outs : List SprayOut}
  {published : List SprayPending} {m : SprayActuatorCommand}

theorem Fits.watchdog (fits : Fits n on m) (other : m.source ≠ sourceController) :
    m.source = sourceWatchdog ∧ m.on = false :=
  fits.resolve_left fun found => other found.1

theorem Fits.controller (fits : Fits n on m) (own : m.source = sourceController) :
    m.seq ≤ n ∧ (m.seq = n → m.on = on) := by
  rcases fits with found | ⟨other, _⟩
  · exact found.2
  · rw [own] at other
    cases other

theorem Fits.of_on (fits : Fits n on m) (opens : m.on = true) : m.source = sourceController := by
  rcases fits with found | ⟨_, off⟩
  · exact found.1
  · rw [off] at opens
    cases opens

/-- The next command of the controller leaves every older message behind. -/
theorem Fits.next (fits : Fits n on m) (on' : Bool) : Fits (n + 1) on' m := by
  rcases fits with ⟨own, bound, _⟩ | off
  · refine .inl ⟨own, by omega, ?_⟩
    intro same
    omega
  · exact .inr off

/-- Nothing in the link can open the valve. -/
def AllOff (s : SprayLink) : Prop := (∀ q ∈ s.queue, q.on = false) ∧ ∀ i, s.inflight = some i → i.on = false

/-- No watchdog OFF waits for its proof. -/
def NoWatchdog (s : SprayLink) : Prop :=
  (∀ q ∈ s.queue, isWatchdogOff q.toSprayActuatorCommand = false) ∧
    ∀ i, s.inflight = some i → isWatchdogOff i.toSprayActuatorCommand = false

structure Books (n : Nat) (on : Bool) (s : SprayLink) (published : List SprayPending) : Prop where
  fits : ∀ x, x ∈ s.queue ∨ s.inflight = some x ∨ x ∈ published → Fits n on x.toSprayActuatorCommand
  flown : ∀ i, s.inflight = some i → i ∈ published
  proved : ∀ source c, s.confirmed.lookup source = some c → c ∈ published
  ahead : ∀ q, q ∈ s.queue ∨ s.inflight = some q → q.source = sourceController →
    ∀ x ∈ published, x.source = sourceController → x.seq ≤ q.seq
  single : ∀ a ∈ s.queue, ∀ b ∈ s.queue, a.source = sourceController → b.source = sourceController → a.seq = b.seq
  exclusive : AllOff s ∨ NoWatchdog s

theorem Books.next (books : Books n on s published) (on' : Bool) : Books (n + 1) on' s published :=
  { books with fits := fun x stored => (books.fits x stored).next on' }

/-- Stores that were only reduced. -/
structure Reduced (s t : SprayLink) : Prop where
  queue : ∀ q ∈ t.queue, q ∈ s.queue
  inflight : ∀ i, t.inflight = some i → s.inflight = some i

theorem Reduced.allOff (reduced : Reduced s t) (off : AllOff s) : AllOff t :=
  ⟨fun q member => off.1 q (reduced.queue q member), fun i flying => off.2 i (reduced.inflight i flying)⟩

theorem Reduced.noWatchdog (reduced : Reduced s t) (none : NoWatchdog s) : NoWatchdog t :=
  ⟨fun q member => none.1 q (reduced.queue q member), fun i flying => none.2 i (reduced.inflight i flying)⟩

theorem Books.reduce (books : Books n on s published) (reduced : Reduced s t)
    (confirmed : ∀ source c, t.confirmed.lookup source = some c →
      s.confirmed.lookup source = some c ∨ s.inflight = some c) : Books n on t published where
  fits x stored := books.fits x (stored.imp (reduced.queue x) (.imp_left (reduced.inflight x)))
  flown i flying := books.flown i (reduced.inflight i flying)
  proved source c found := by
    rcases confirmed source c found with known | flying
    · exact books.proved source c known
    · exact books.flown c flying
  ahead q held := books.ahead q (held.imp (reduced.queue q) (reduced.inflight q))
  single a first b second := books.single a (reduced.queue a first) b (reduced.queue b second)
  exclusive := books.exclusive.imp reduced.allOff reduced.noWatchdog

/-- A known request goes out once more. -/
theorem Books.resend (books : Books n on s published) (known : x ∈ published) : Books n on s (x :: published) where
  fits y stored := by
    refine books.fits y (stored.imp_right (.imp_right ?_))
    intro member
    rcases List.mem_cons.mp member with rfl | old
    · exact known
    · exact old
  flown i flying := List.mem_cons_of_mem x (books.flown i flying)
  proved source c found := List.mem_cons_of_mem x (books.proved source c found)
  ahead q held own y member := by
    rcases List.mem_cons.mp member with rfl | old
    · exact books.ahead q held own y known
    · exact books.ahead q held own y old
  single := books.single
  exclusive := books.exclusive

theorem Dispatches.allOff (dispatches : Dispatches s env t outs) (off : AllOff s) : AllOff t := by
  cases dispatches with
  | idle => exact off
  | refused q rest tokens free head =>
    exact ⟨fun x member => off.1 x (head ▸ List.mem_cons_of_mem q member), off.2⟩
  | sent q rest tokens w free head carries =>
    refine ⟨fun x member => off.1 x (head ▸ List.mem_cons_of_mem q member), ?_⟩
    rintro i ⟨⟩
    have message : w.on = q.on := congrArg SprayActuatorCommand.on carries.message
    rw [message]
    exact off.1 q (by simp [head])

theorem Dispatches.noWatchdog (dispatches : Dispatches s env t outs) (none : NoWatchdog s) : NoWatchdog t := by
  cases dispatches with
  | idle => exact none
  | refused q rest tokens free head =>
    exact ⟨fun x member => none.1 x (head ▸ List.mem_cons_of_mem q member), none.2⟩
  | sent q rest tokens w free head carries =>
    refine ⟨fun x member => none.1 x (head ▸ List.mem_cons_of_mem q member), ?_⟩
    rintro i ⟨⟩
    rw [carries.message]
    exact none.1 q (by simp [head])

theorem Books.dispatch (books : Books n on s published) (dispatches : Dispatches s env t outs) :
    Books n on t ((commands outs).reverse ++ published) := by
  cases dispatches with
  | idle => exact books
  | refused q rest tokens free head =>
    refine books.reduce ⟨?_, fun _ known => known⟩ fun _ _ known => .inl known
    intro x member
    rw [head]
    exact List.mem_cons_of_mem q member
  | sent q rest tokens w free head carries =>
    have queued : q ∈ s.queue := by simp [head]
    have later : ∀ x ∈ rest, x ∈ s.queue := by
      intro x member
      rw [head]
      exact List.mem_cons_of_mem q member
    have source : w.source = q.source := congrArg SprayActuatorCommand.source carries.message
    have seq : w.seq = q.seq := congrArg SprayActuatorCommand.seq carries.message
    have sent : Fits n on w.toSprayActuatorCommand := by
      rw [carries.message]
      exact books.fits q (.inl queued)
    change Books n on _ (w :: published)
    refine ⟨?_, ?_, ?_, ?_, ?_, ?_⟩
    · rintro x (member | flying | member)
      · exact books.fits x (.inl (later x member))
      · cases flying
        exact sent
      · rcases List.mem_cons.mp member with rfl | old
        · exact sent
        · exact books.fits x (.inr (.inr old))
    · rintro i ⟨⟩
      exact List.mem_cons_self
    · intro source c found
      exact List.mem_cons_of_mem w (books.proved source c found)
    · -- The request on the wire is the only one of the controller, in the queue and among the published.
      rintro x (member | flying) own y published
      · rcases List.mem_cons.mp published with rfl | old
        · intro theirs
          rw [seq, books.single q queued x (later x member) (source ▸ theirs) own]
        · exact books.ahead x (.inl (later x member)) own y old
      · cases flying
        rcases List.mem_cons.mp published with rfl | old
        · intro _
          rfl
        · rw [seq]
          exact books.ahead q (.inl queued) (source ▸ own) y old
    · intro a first b second
      exact books.single a (later a first) b (later b second)
    · have step : Dispatches s env _ _ := .sent q rest tokens w free head carries ‹_›
      exact books.exclusive.imp step.allOff step.noWatchdog

/-! ### A new request enters -/

/-- `t` holds the new request `r` and what it left of the requests of `s`. -/
structure Entered (s : SprayLink) (r : SprayPending) (t : SprayLink) : Prop where
  queue : ∀ q ∈ t.queue, q = r ∨ (q ∈ s.queue ∧ supersedes r q = false)
  inflight : ∀ i, t.inflight = some i → s.inflight = some i ∧ (r.on = false → i.on = false)
  confirmed : ∀ source c, t.confirmed.lookup source = some c → s.confirmed.lookup source = some c

theorem placed_entered {queue : List SprayPending} {acks : List SprayOut} (takes : Takes s r queue acks) (first : Bool) :
    Entered s r (s.taken r (if first then r :: queue else queue ++ [r])) := by
  refine ⟨?_, ?_, fun _ _ known => known⟩
  · intro q member
    have known : q = r ∨ q ∈ queue := by
      simp only [taken] at member
      split at member
      · simpa using member
      · simpa [or_comm] using member
    exact known.imp_right (takes.kept q)
  · intro i flying
    refine ⟨taken_inflight flying, ?_⟩
    intro off
    simp only [taken, preempts, off, Bool.not_false, Bool.true_and] at flying
    split at flying
    · cases flying
    · rename_i kept
      simpa [flying] using kept

theorem blocked_false (unblocked : s.blocked r = false) (opens : r.on = true) : NoWatchdog s := by
  simp only [blocked, opens, Bool.true_and, Bool.or_eq_false_iff, Option.any_eq_false, List.any_eq_false] at unblocked
  refine ⟨?_, ?_⟩
  · intro q member
    simpa using unblocked.2 q member
  · intro i flying
    simpa using unblocked.1 i flying

theorem Entered.noWatchdog (entered : Entered s r t) (none : NoWatchdog s) (opens : r.on = true) : NoWatchdog t := by
  refine ⟨?_, fun i flying => none.2 i (entered.inflight i flying).1⟩
  intro q member
  rcases entered.queue q member with rfl | ⟨old, _⟩
  · simp [isWatchdogOff, opens]
  · exact none.1 q old

/-- A watchdog OFF leaves nothing else in the queue, and no ON in flight. -/
theorem Entered.watchdogAlone (entered : Entered s r t) (off : isWatchdogOff r.toSprayActuatorCommand = true) :
    AllOff t := by
  simp only [isWatchdogOff, Bool.and_eq_true, decide_eq_true_eq, Bool.not_eq_true'] at off
  refine ⟨?_, fun i flying => (entered.inflight i flying).2 off.2⟩
  intro q member
  rcases entered.queue q member with rfl | ⟨_, kept⟩
  · exact off.2
  · simp only [supersedes, isWatchdogOff, off, Bool.or_eq_false_iff, decide_eq_false_iff_not] at kept
    simp [kept.2] at kept

/-- An OFF leaves nothing in the link that could open the valve. -/
theorem Entered.allOff (entered : Entered s r t) (books : Books n on s published)
    (fits : Fits n on r.toSprayActuatorCommand) (off : r.on = false) : AllOff t := by
  rcases fits with ⟨own, _⟩ | ⟨theirs, _⟩
  · refine ⟨?_, fun i flying => (entered.inflight i flying).2 off⟩
    intro q member
    rcases entered.queue q member with rfl | ⟨old, kept⟩
    · exact off
    · -- What a controller OFF leaves in the queue is not the controller's.
      simp only [supersedes, Bool.or_eq_false_iff, decide_eq_false_iff_not] at kept
      exact ((books.fits q (.inl old)).watchdog (own ▸ kept.2)).2
  · exact entered.watchdogAlone (by simp [isWatchdogOff, theirs, off])

/-- An ON and a watchdog OFF are never held together. -/
theorem Entered.exclusive (entered : Entered s r t) (exclusive : AllOff s ∨ NoWatchdog s)
    (unblocked : s.blocked r = false) : AllOff t ∨ NoWatchdog t := by
  cases opens : r.on with
  | true => exact .inr (entered.noWatchdog (blocked_false unblocked opens) opens)
  | false =>
    by_cases watchdog : isWatchdogOff r.toSprayActuatorCommand = true
    · exact .inl (entered.watchdogAlone watchdog)
    rcases exclusive with off | none
    · refine .inl ⟨?_, fun i flying => off.2 i (entered.inflight i flying).1⟩
      intro q member
      rcases entered.queue q member with rfl | ⟨old, _⟩
      · exact opens
      · exact off.1 q old
    · refine .inr ⟨?_, fun i flying => none.2 i (entered.inflight i flying).1⟩
      intro q member
      rcases entered.queue q member with rfl | ⟨old, _⟩
      · simpa using watchdog
      · exact none.1 q old

theorem Books.enter (books : Books n on s published) (entered : Entered s r t)
    (fits : Fits n on r.toSprayActuatorCommand) (unblocked : s.blocked r = false)
    (order : r.source = sourceController → ∀ x ∈ published, x.source = sourceController → x.seq ≤ r.seq) :
    Books n on t published := by
  refine ⟨?_, ?_, ?_, ?_, ?_, ?_⟩
  · rintro x (member | flying | old)
    · rcases entered.queue x member with rfl | ⟨old, _⟩
      · exact fits
      · exact books.fits x (.inl old)
    · exact books.fits x (.inr (.inl (entered.inflight x flying).1))
    · exact books.fits x (.inr (.inr old))
  · intro i flying
    exact books.flown i (entered.inflight i flying).1
  · intro source c found
    exact books.proved source c (entered.confirmed source c found)
  · rintro q (member | flying)
    · rcases entered.queue q member with rfl | ⟨old, _⟩
      · exact order
      · exact books.ahead q (.inl old)
    · exact books.ahead q (.inr (entered.inflight q flying).1)
  · -- The newest request of a source is its only one in the queue.
    intro a first b second own theirs
    have kept : ∀ q, q ∈ s.queue ∧ supersedes r q = false → q.source ≠ r.source := by
      rintro q ⟨_, kept⟩
      simp only [supersedes, Bool.or_eq_false_iff, decide_eq_false_iff_not] at kept
      exact kept.2
    rcases entered.queue a first with rfl | oldA
    · rcases entered.queue b second with rfl | oldB
      · rfl
      · exact absurd (theirs.trans own.symm) (kept b oldB)
    · rcases entered.queue b second with rfl | oldB
      · exact absurd (own.trans theirs.symm) (kept a oldA)
      · exact books.single a oldA.1 b oldB.1 own theirs
  · exact entered.exclusive books.exclusive unblocked

/-! ### What a call is made of -/

/-- Acks that no sender can take for a proof. -/
def Refusals (outs : List SprayOut) : Prop := ∀ o ∈ outs, ∃ seq source, o = refuse seq source

theorem Refusals.silent (refusals : Refusals outs) : commands outs = [] := by
  refine commands_silent fun w member => ?_
  obtain ⟨seq, source, same⟩ := refusals _ member
  cases same

theorem Refusals.append {more : List SprayOut} (refusals : Refusals outs) (others : Refusals more) :
    Refusals (outs ++ more) := by
  intro o member
  rcases List.mem_append.mp member with old | new
  · exact refusals o old
  · exact others o new

theorem Takes.refusals {queue : List SprayPending} (takes : Takes s r queue outs) : Refusals outs := by
  intro o member
  obtain ⟨q, same, _⟩ := takes.acks o member
  exact ⟨q.seq, q.source, same⟩

/-- An ack with success is the proof of the request in flight. -/
def Proves (s : SprayLink) (outs : List SprayOut) : Prop :=
  ∀ a, .ack a ∈ outs → a.success = true → ∃ i, s.inflight = some i ∧ a.seq = i.seq ∧ a.source = i.source

theorem Refusals.proves (refusals : Refusals outs) : Proves s outs := by
  intro a member success
  obtain ⟨seq, source, same⟩ := refusals _ member
  cases same
  cases success

theorem Proves.append {more : List SprayOut} (proves : Proves s outs) (others : Proves s more) :
    Proves s (outs ++ more) := by
  intro a member
  rcases List.mem_append.mp member with old | new
  · exact proves a old
  · exact others a new

theorem Dispatches.proves (dispatches : Dispatches s env t outs) (u : SprayLink) : Proves u outs := by
  cases dispatches with
  | idle => simp [Proves]
  | refused q => exact Refusals.proves fun o member => ⟨q.seq, q.source, List.mem_singleton.mp member⟩
  | sent => simp [Proves]

/-- Requests are dropped or proved, then the next one is dispatched. -/
inductive Settles (s : SprayLink) : SprayLink → List SprayOut → Prop where
  | mk {mid t : SprayLink} {env : Env} {acks sent : List SprayOut} (reduced : Reduced s mid)
      (confirmed : ∀ source c, mid.confirmed.lookup source = some c →
        s.confirmed.lookup source = some c ∨ s.inflight = some c)
      (silent : commands acks = []) (proves : Proves s acks) (dispatches : Dispatches mid env t sent) :
      Settles s t (acks ++ sent)

theorem Settles.proves (settles : Settles s t outs) : Proves s outs := by
  cases settles with
  | mk reduced confirmed silent proves dispatches => exact proves.append (dispatches.proves s)

/-- A call that moves nothing on. -/
theorem Settles.of_reduced (reduced : Reduced s t)
    (confirmed : ∀ source c, t.confirmed.lookup source = some c → s.confirmed.lookup source = some c)
    (refusals : Refusals outs) : Settles s t outs := by
  rw [← List.append_nil outs]
  exact .mk reduced (fun source c found => .inl (confirmed source c found)) refusals.silent refusals.proves
    (.idle (.inr (.inr rfl : _ ∨ (⟨false, true, 0⟩ : Env).linkOk = false)))

theorem Settles.same (bar : Option SprayPending) (late : Nat) (refusals : Refusals outs) :
    Settles s { s with barredOn := bar, lateAckCount := late } outs :=
  .of_reduced ⟨fun _ known => known, fun _ known => known⟩ (fun _ _ known => known) refusals

theorem Books.settle (books : Books n on s published) (settles : Settles s t outs) :
    Books n on t ((commands outs).reverse ++ published) := by
  cases settles with
  | mk reduced confirmed silent proves dispatches =>
    rw [commands_append, silent, List.nil_append]
    exact (books.reduce reduced confirmed).dispatch dispatches

theorem ack_settles (s : SprayLink) (a : VehicleCommandAck) (env : Env) :
    Settles s (s.onVehicleCommandAck a env).1 (s.onVehicleCommandAck a env).2 := by
  have acked := onVehicleCommandAck_cases s a env
  generalize s.onVehicleCommandAck a env = result at acked
  obtain ⟨t, outs⟩ := result
  dsimp only at acked ⊢
  cases acked with
  | ignored late => exact .same _ late (by simp [Refusals])
  | completed i t sent flying matched dispatches =>
    rw [← List.singleton_append]
    refine .mk ⟨by simp, by simp⟩ ?_ rfl ?_ dispatches
    · intro source c found
      simp only at found
      split at found
      · by_cases same : source = i.source
        · subst same
          rw [AList.lookup_insert] at found
          obtain rfl := Option.some.inj found
          exact .inr flying
        · rw [AList.lookup_insert_ne same] at found
          exact .inl found
      · exact .inl found
    · intro b member _
      cases List.mem_singleton.mp member
      exact ⟨i, flying, rfl, rfl⟩

theorem service_settles (s : SprayLink) (env : Env) (timeout : ℚ) :
    Settles s (s.serviceSprayTransactions env timeout).1 (s.serviceSprayTransactions env timeout).2 := by
  have serviced := serviceSprayTransactions_cases s env timeout
  generalize s.serviceSprayTransactions env timeout = result at serviced
  obtain ⟨t, outs⟩ := result
  dsimp only at serviced ⊢
  cases serviced with
  | lost =>
    refine .of_reduced ⟨by simp, by simp⟩ (fun _ _ known => known) ?_
    intro o member
    obtain ⟨q, _, rfl⟩ := List.mem_map.mp member
    exact ⟨q.seq, q.source, rfl⟩
  | kept t sent linkOk dispatches =>
    rw [← List.nil_append outs]
    exact .mk ⟨by simp, by simp⟩ (fun _ _ known => .inl known) rfl (by simp [Proves]) dispatches
  | expired i t sent linkOk flying overdue dispatches =>
    rw [← List.singleton_append]
    refine .mk ⟨by simp, by simp⟩ ?_ rfl ?_ dispatches
    · intro source c known
      exact .inl known
    · exact Refusals.proves fun o member => ⟨i.seq, i.source, List.mem_singleton.mp member⟩

/-- The parts of a call that handles the message `m`. -/
inductive Handles (s : SprayLink) (m : SprayActuatorCommand) (env : Env) : SprayLink → List SprayOut → Prop where
  | settled {t : SprayLink} {outs : List SprayOut} (settles : Settles s t outs) (refusals : Refusals outs) :
      Handles s m env t outs
  | resent (bar : Option SprayPending) (r x : SprayPending) (message : x.toSprayActuatorCommand = m)
      (translated : translate m = some r) (linkOk : env.linkOk = true) (unblocked : s.blocked r = false)
      (same : sameSprayTransaction x r = true)
      (known : s.inflight = some x ∨ s.confirmed.lookup m.source = some x) :
      Handles s m env { s with barredOn := bar } [.command x]
  | entered {mid t : SprayLink} {acks sent : List SprayOut} (r : SprayPending)
      (message : r.toSprayActuatorCommand = m) (linkOk : env.linkOk = true) (unblocked : s.blocked r = false)
      (entered : Entered s r mid) (refusals : Refusals acks) (dispatches : Dispatches mid env t sent) :
      Handles s m env t (acks ++ sent)

theorem blocked_message {r q : SprayPending} (message : q.toSprayActuatorCommand = r.toSprayActuatorCommand) :
    s.blocked q = s.blocked r := by
  have same : q.on = r.on := congrArg SprayActuatorCommand.on message
  simp [blocked, same]

theorem Enqueues.handles {bar : Option SprayPending} (message : r.toSprayActuatorCommand = m)
    (linkOk : env.linkOk = true) (unblocked : s.blocked r = false)
    (enqueues : Enqueues { s with barredOn := bar } r env t outs) : Handles s m env t outs := by
  obtain ⟨r', epochs, t, outs, adopts, ended, places⟩ := enqueues
  cases places with
  | full queue acks takes =>
    have refusals := takes.refusals.append fun o member => ⟨r'.seq, r'.source, List.mem_singleton.mp member⟩
    refine .settled (.of_reduced ⟨fun q member => (takes.kept q member).1, ?_⟩ ?_ refusals) refusals
    · intro i flying
      have same := taken_inflight flying
      exact same
    · intro source c found
      exact lookup_erase_some found
  | queued queue t acks sent takes dispatches =>
    refine .entered r' (adopts.message.trans message) linkOk ?_ ?_ takes.refusals dispatches
    · rw [blocked_message adopts.message]
      exact unblocked
    · have entered := placed_entered takes (isWatchdogOff r'.toSprayActuatorCommand ||
        preempts { s with confirmed := s.confirmed.erase r.source, epochs, barredOn := bar } r')
      exact ⟨entered.queue, entered.inflight, fun source c found => lookup_erase_some (entered.confirmed source c found)⟩

theorem command_handles (s : SprayLink) (m : SprayActuatorCommand) (env : Env) :
    Handles s m env (s.onSprayCommand m env).1 (s.onSprayCommand m env).2 := by
  have received := onSprayCommand_cases s m env
  generalize s.onSprayCommand m env = result at received
  obtain ⟨t, outs⟩ := result
  dsimp only at received ⊢
  have quiet : Refusals [] := by simp [Refusals]
  have rebarred : ∀ r, Handles s m env (s.rebar r) [] := by
    intro r
    obtain ⟨bar, shape⟩ := rebar_eq s r
    rw [shape]
    exact .settled (.same bar s.lateAckCount quiet) quiet
  cases received with
  | refused =>
    have refused : Refusals [refuse m.seq m.source] := fun o member => ⟨_, _, List.mem_singleton.mp member⟩
    exact .settled (.same _ _ refused) refused
  | barred => exact .settled (.same _ _ quiet) quiet
  | blocked r => exact rebarred r
  | repeated r => exact rebarred r
  | resent r x translated linkOk unbarred unblocked same known =>
    obtain ⟨bar, shape⟩ := rebar_eq s r
    rw [shape]
    exact .resent bar r x ((sameSprayTransaction_message same).trans (translate_message translated)) translated linkOk
      unblocked same known
  | enqueued r t outs translated linkOk unbarred unblocked new enqueues =>
    obtain ⟨bar, shape⟩ := rebar_eq s r
    rw [shape] at enqueues
    exact enqueues.handles (translate_message translated) linkOk unblocked

theorem Handles.refuses {a : SprayActuatorAck} (handles : Handles s m env t outs) (member : .ack a ∈ outs) :
    a.success = false := by
  have idle : Proves { s with inflight := none } outs := by
    cases handles with
    | settled settles refusals => exact refusals.proves
    | resent => simp [Proves]
    | entered r message linkOk unblocked entered refusals dispatches =>
      exact refusals.proves.append (dispatches.proves _)
  by_contra success
  obtain ⟨i, flying, _⟩ := idle a member (by simpa using success)
  cases flying

theorem Books.handle (books : Books n on s published) (fits : Fits n on m)
    (order : m.source = sourceController → ∀ x ∈ published, x.source = sourceController → x.seq ≤ m.seq)
    (handles : Handles s m env t outs) : Books n on t ((commands outs).reverse ++ published) := by
  cases handles with
  | settled settles refusals => exact books.settle settles
  | resent bar r x message translated linkOk unblocked same known =>
    have known : x ∈ published := known.elim (books.flown x) (books.proved m.source x)
    exact { books.resend known with }
  | entered r message linkOk unblocked entered refusals dispatches =>
    rw [commands_append, refusals.silent, List.nil_append]
    subst message
    exact (books.enter entered fits unblocked order).dispatch dispatches

/-- What waits or goes out after a dispatch was waiting before it. -/
theorem Dispatches.origin (dispatches : Dispatches s env t outs) (held : x ∈ t.queue ∨ x ∈ commands outs) :
    ∃ q ∈ s.queue, x.toSprayActuatorCommand = q.toSprayActuatorCommand := by
  cases dispatches with
  | idle =>
    rcases held with member | none
    · exact ⟨x, member, rfl⟩
    · cases none
  | refused q rest tokens free head =>
    rcases held with member | none
    · exact ⟨x, head ▸ List.mem_cons_of_mem q member, rfl⟩
    · cases none
  | sent q rest tokens w free head carries =>
    rcases held with member | out
    · exact ⟨x, head ▸ List.mem_cons_of_mem q member, rfl⟩
    · cases List.mem_singleton.mp out
      exact ⟨q, by simp [head], carries.message⟩

theorem Settles.origin (settles : Settles s t outs) (held : x ∈ t.queue ∨ x ∈ commands outs) :
    ∃ q ∈ s.queue, x.toSprayActuatorCommand = q.toSprayActuatorCommand := by
  cases settles with
  | mk reduced confirmed silent proves dispatches =>
    rw [commands_append, silent, List.nil_append] at held
    obtain ⟨q, member, message⟩ := dispatches.origin held
    exact ⟨q, reduced.queue q member, message⟩

theorem Handles.origin (handles : Handles s m env t outs) (held : x ∈ t.queue ∨ x ∈ commands outs) :
    x.toSprayActuatorCommand = m ∨ ∃ q ∈ s.queue, x.toSprayActuatorCommand = q.toSprayActuatorCommand := by
  cases handles with
  | settled settles => exact .inr (settles.origin held)
  | resent bar r y message =>
    rcases held with member | out
    · exact .inr ⟨x, member, rfl⟩
    · cases List.mem_singleton.mp out
      exact .inl message
  | entered r message linkOk unblocked entered refusals dispatches =>
    rw [commands_append, refusals.silent, List.nil_append] at held
    obtain ⟨q, member, same⟩ := dispatches.origin held
    rcases entered.queue q member with rfl | ⟨old, _⟩
    · exact .inl (same.trans message)
    · exact .inr ⟨q, old, same⟩

end Dyx3.Px4Link.SprayLink
