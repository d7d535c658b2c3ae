import Dyx3.System.Agreement

/-!
A confirmed ON against the valve. A watchdog OFF that reaches px4_link takes the valve from the controller; the
controller learns of it only by the failed ack of an ON that was still in flight. A repeat of the watchdog's confirmed
OFF goes out without failing anything, and an ON that is confirmed already is not failed either.
-/

namespace Dyx3.System.Loop

open Lib Px4Link Spray SprayLink

/-- Nothing waits in the link but ONs. -/
def AllOn (s : SprayLink) : Prop := (∀ q ∈ s.queue, q.on = true) ∧ ∀ i, s.inflight = some i → i.on = true

/-- The ON at `n`, once published: either its confirmation can no longer come (`lost`, with no ON in flight), or it
is the last command and nothing in the link takes it back. -/
def Steady (n : Nat) (lost : Prop) (s : SprayLink) (published : List SprayPending) : Prop :=
  (∃ x ∈ published, x.source = sourceController ∧ x.seq = n) →
    (lost ∧ ∀ i, s.inflight = some i → i.on = false) ∨
    ((∃ w older, published = w :: older ∧ w.on = true ∧ w.seq = n) ∧ AllOn s)

variable {n : Nat} {lost lost' : Prop} {s t : SprayLink} {q x : SprayPending} {m : SprayActuatorCommand} {env : Env}
  {outs : List SprayOut} {published : List SprayPending}

theorem Steady.imp (steady : Steady n lost s published)
    (keeps : lost → (∀ i, s.inflight = some i → i.on = false) → lost') : Steady n lost' s published := by
  intro found
  exact (steady found).imp_left fun ⟨gone, off⟩ => ⟨keeps gone off, off⟩

theorem Steady.reduce (steady : Steady n lost s published) (reduced : Reduced s t) : Steady n lost t published := by
  intro found
  refine (steady found).imp ?_ ?_
  · rintro ⟨gone, off⟩
    exact ⟨gone, fun i flying => off i (reduced.inflight i flying)⟩
  · rintro ⟨last, on⟩
    exact ⟨last, fun q member => on.1 q (reduced.queue q member), fun i flying => on.2 i (reduced.inflight i flying)⟩

/-- While the controller commands ON at `n`, what waits of it behind a publication of `n` is that ON. -/
theorem on_of_held (books : Books n true s published) (held : q ∈ s.queue ∨ s.inflight = some q)
    (own : q.source = sourceController) (found : ∃ x ∈ published, x.source = sourceController ∧ x.seq = n) :
    q.on = true := by
  obtain ⟨x, member, source, seq⟩ := found
  have reached := books.ahead q held own x member source
  have fits := (books.fits q (held.imp_right .inl)).controller own
  exact fits.2 (by omega)

theorem controller_of_noWatchdog (books : Books n true s published) (none : NoWatchdog s)
    (held : q ∈ s.queue ∨ s.inflight = some q) : q.source = sourceController := by
  by_contra other
  obtain ⟨theirs, off⟩ := (books.fits q (held.imp_right .inl)).watchdog other
  have absent := held.elim (none.1 q) (none.2 q)
  simp [isWatchdogOff, theirs, off] at absent

theorem allOn_of_noWatchdog (books : Books n true s published) (none : NoWatchdog s)
    (found : ∃ x ∈ published, x.source = sourceController ∧ x.seq = n) : AllOn s := by
  refine ⟨?_, ?_⟩
  · intro q member
    exact on_of_held books (.inl member) (controller_of_noWatchdog books none (.inl member)) found
  · intro i flying
    exact on_of_held books (.inr flying) (controller_of_noWatchdog books none (.inr flying)) found

theorem Steady.dispatch (steady : Steady n lost s published) (books : Books n true s published)
    (dispatches : Dispatches s env t outs) : Steady n lost t ((commands outs).reverse ++ published) := by
  have after := books.dispatch dispatches
  cases dispatches with
  | idle => exact steady
  | refused q rest tokens free head =>
    refine steady.reduce ⟨?_, fun _ known => known⟩
    intro x member
    rw [head]
    exact List.mem_cons_of_mem q member
  | sent q rest tokens w free head carries moved =>
    change Steady n lost _ (w :: published)
    change Books n true _ (w :: published) at after
    have queued : q ∈ s.queue := by simp [head]
    have source : w.source = q.source := congrArg SprayActuatorCommand.source carries.message
    have on : w.on = q.on := congrArg SprayActuatorCommand.on carries.message
    have step : Dispatches s env _ _ := .sent q rest tokens w free head carries moved
    by_cases own : q.source = sourceController
    · intro found
      -- Behind a publication of `n`, and as one, the controller's request is the ON of `n`.
      have reaches : q.on = true ∧ w.seq = n := by
        have flying := after.ahead w (.inr rfl) (source.trans own)
        obtain ⟨x, member, theirs, seq⟩ := found
        have bound := (after.fits w (.inr (.inl rfl))).controller (source.trans own)
        have reached := flying x member theirs
        have same : w.seq = n := by omega
        exact ⟨on ▸ bound.2 same, same⟩
      have none : NoWatchdog s := by
        refine books.exclusive.resolve_left ?_
        rintro ⟨off, _⟩
        rw [off q queued] at reaches
        cases reaches.1
      exact .inr ⟨⟨w, published, rfl, on.trans reaches.1, reaches.2⟩, allOn_of_noWatchdog after (step.noWatchdog none) found⟩
    · obtain ⟨theirs, off⟩ := (books.fits q (.inl queued)).watchdog own
      rintro ⟨x, member, ours, seq⟩
      have old : x ∈ published := by
        rcases List.mem_cons.mp member with rfl | old
        · exact absurd (source.symm.trans ours) own
        · exact old
      rcases steady ⟨x, old, ours, seq⟩ with ⟨gone, _⟩ | ⟨_, allOn⟩
      · refine .inl ⟨gone, ?_⟩
        rintro i ⟨⟩
        exact on.trans off
      · rw [allOn.1 q queued] at off
        cases off

theorem Steady.settle (steady : Steady n lost s published) (books : Books n true s published)
    (settles : Settles s t outs) (keeps : lost → (∀ i, s.inflight = some i → i.on = false) → lost') :
    Steady n lost' t ((commands outs).reverse ++ published) := by
  cases settles with
  | mk reduced confirmed silent proves dispatches =>
    rw [commands_append, silent, List.nil_append]
    exact ((steady.imp keeps).reduce reduced).dispatch (books.reduce reduced confirmed) dispatches

/-- A watchdog OFF may take the valve: the ON that is the last command is not confirmed and will not be, and while it
is in flight the OFF is not a mere repeat of a confirmed one. -/
def MayTake (n : Nat) (lost : Prop) (s : SprayLink) (published : List SprayPending) (m : SprayActuatorCommand) : Prop :=
  ∀ w ∈ published.head?, w.on = true → w.seq = n → lost ∧ (s.inflight.any (·.on) = true →
    ∀ c ∈ s.confirmed.lookup sourceWatchdog, ∀ r ∈ Px4Link.translate m, sameSprayTransaction c r = false)

theorem Steady.handle (steady : Steady n lost s published) (books : Books n true s published) (fits : Fits n true m)
    (newest : m.source = sourceController → ∀ x, x ∈ s.queue ∨ x ∈ published → x.source = sourceController → x.seq ≤ m.seq)
    (take : m.source = sourceWatchdog → env.linkOk = true → MayTake n lost s published m)
    (handles : Handles s m env t outs) : Steady n lost t ((commands outs).reverse ++ published) := by
  have current : m.source = sourceController → (∃ x ∈ published, x.source = sourceController ∧ x.seq = n) →
      m.on = true ∧ m.seq = n := by
    rintro own ⟨x, member, source, seq⟩
    have reached := newest own x (.inr member) source
    have bound := fits.controller own
    have same : m.seq = n := by omega
    exact ⟨bound.2 same, same⟩
  cases handles with
  | settled settles => exact steady.settle books settles fun gone _ => gone
  | resent bar r x message translated linkOk unblocked same known =>
    have published_x : x ∈ published := known.elim (books.flown x) (books.proved m.source x)
    suffices still : Steady n lost s (x :: published) from still
    rintro ⟨y, member, ours, seq⟩
    have found : ∃ x ∈ published, x.source = sourceController ∧ x.seq = n := by
      rcases List.mem_cons.mp member with rfl | old
      · exact ⟨y, published_x, ours, seq⟩
      · exact ⟨y, old, ours, seq⟩
    by_cases own : m.source = sourceController
    · obtain ⟨on, newestSeq⟩ := current own found
      have opens : r.on = true := by rw [translate_message translated, on]
      refine .inr ⟨⟨x, published, rfl, by rw [message, on], by rw [message, newestSeq]⟩, ?_⟩
      exact allOn_of_noWatchdog books (blocked_false unblocked opens) found
    · obtain ⟨theirs, off⟩ := fits.watchdog own
      rcases steady found with doomed | ⟨⟨w, older, head, on, seq⟩, allOn⟩
      · exact .inl doomed
      · obtain ⟨gone, fresh⟩ := take theirs linkOk w (by simp [head]) on seq
        refine .inl ⟨gone, ?_⟩
        intro i flying
        have opens := allOn.2 i flying
        rcases known with inflight | confirmed
        · obtain rfl := Option.some.inj (flying.symm.trans inflight)
          rw [message, off] at opens
          cases opens
        · rw [theirs] at confirmed
          have differs := fresh (by simp [flying, opens]) x confirmed r translated
          rw [same] at differs
          cases differs
  | @entered mid _ acks sent r message linkOk unblocked entered refusals dispatches =>
    subst message
    rw [commands_append, refusals.silent, List.nil_append]
    refine Steady.dispatch ?_ (books.enter entered fits unblocked fun own x member => newest own x (.inr member)) dispatches
    intro found
    rcases steady found with ⟨gone, off⟩ | ⟨⟨w, older, head, on, seq⟩, allOn⟩
    · exact .inl ⟨gone, fun i flying => off i (entered.inflight i flying).1⟩
    · by_cases own : r.source = sourceController
      · refine .inr ⟨⟨w, older, head, on, seq⟩, ?_, fun i flying => allOn.2 i (entered.inflight i flying).1⟩
        intro q member
        rcases entered.queue q member with rfl | ⟨old, _⟩
        · exact (current own found).1
        · exact allOn.1 q old
      · obtain ⟨theirs, off⟩ := fits.watchdog own
        exact .inl ⟨(take theirs linkOk w (by simp [head]) on seq).1, fun i flying => (entered.inflight i flying).2 off⟩

/-- The controller waits for the ack of its ON, and none of success is on its way. -/
def Unconfirmed (s : Loop) : Prop :=
  s.fsm.state = .onPending ∧ ∀ a ∈ s.toFsm, a.seq = s.fsm.seq → a.success = false

/-- No watchdog OFF that reaches the live link takes the valve behind the controller's back. -/
def Undisturbed (s : Loop) (e : Event) : Prop :=
  ∀ m ∈ s.wdToLink.head?, (∃ persistOk, e.action = .deliverWd true persistOk) →
    MayTake s.fsm.seq s.Unconfirmed s.link s.published m

/-- A quiet loop whose state machine has confirmed the ON has an ON as the last command on the wire. -/
def ConfirmedOnOpen (s : Loop) : Prop :=
  s.Quiet → s.fsm.state = .onConfirmed → ∃ w ∈ s.published.head?, w.on = true

structure Opens (s : Loop) : Prop where
  sound : Sound s
  steady : s.fsm.commanded = true → Steady s.fsm.seq s.Unconfirmed s.link s.published

theorem Unconfirmed.absorb {s t : Loop} (unconfirmed : s.Unconfirmed) (fsm : t.fsm = s.fsm)
    (acks : ∀ a ∈ t.toFsm, a.seq = s.fsm.seq → a ∈ s.toFsm ∨ a.success = false) : t.Unconfirmed := by
  refine ⟨fsm ▸ unconfirmed.1, ?_⟩
  intro a member seq
  rw [fsm] at seq
  rcases acks a member seq with old | failed
  · exact unconfirmed.2 a old seq
  · exact failed

theorem Opens.control {p : Params} {s t : Loop} (opens : Opens s) (call : Fsm.Event)
    (fsm : t.fsm = (s.fsm.step p.fsm call).1) (link : t.link = s.link) (published : t.published = s.published)
    (toFsm : t.toFsm.Sublist s.toFsm)
    (ack : ∀ seq now, call = .ack seq true now → ∃ a ∈ s.toFsm, a.seq = seq ∧ a.success = true) :
    t.fsm.commanded = true → Steady t.fsm.seq t.Unconfirmed t.link t.published := by
  rw [link, published]
  intro on
  rcases Fsm.step_follows p.fsm s.fsm call with ⟨c, _, _, seq, _⟩ | ⟨_, seq, commanded, confirmed⟩
  · -- Nothing of the new command has been published.
    rintro ⟨x, member, own, same⟩
    have bound := opens.sound.bound (.inr member) own
    rw [fsm, seq] at same
    omega
  · rw [← fsm] at seq commanded confirmed
    rw [seq]
    refine (opens.steady (commanded ▸ on)).imp ?_
    rintro ⟨pending, failed⟩ _
    have unproved : t.fsm.proved = false := by
      by_contra proved
      rcases confirmed (by simpa using proved) with before | ⟨now, same⟩
      · simp [Fsm.proved, pending] at before
      · obtain ⟨a, member, found, success⟩ := ack s.fsm.seq now same
        rw [failed a member found] at success
        cases success
    refine ⟨?_, fun a member same => failed a (toFsm.mem member) (seq ▸ same)⟩
    simp only [Fsm.commanded, Fsm.proved, decide_eq_true_eq, decide_eq_false_iff_not, not_or] at on unproved
    exact on.resolve_right unproved.1

theorem Opens.step {p : Params} {s : Loop} (opens : Opens s) {e : Event} (undisturbed : s.Undisturbed e) :
    Opens (Loop.step p s e).1 := by
  refine ⟨opens.sound.step e, ?_⟩
  have sound := opens.sound
  have turn : Turn p s e (Loop.step p s e).1 := sound.turn e
  generalize (Loop.step p s e).1 = t at turn
  cases turn with
  | idle fsm link published toFsm =>
    rw [fsm, link, published]
    intro on
    exact (opens.steady on).imp fun gone _ => gone.absorb fsm fun a member _ => .inl (toFsm.mem member)
  | control call fsm link published toFsm ack => exact opens.control call fsm link published toFsm ack
  | handle m env outs arrives handles fsm published toFsm watchdog =>
    rw [fsm, published]
    intro on
    have books := sound.books
    have fits := arrives.fits
    rw [on] at books fits
    refine Steady.imp ((opens.steady on).handle books fits arrives.newest ?_ handles) ?_
    · intro theirs linkOk
      obtain ⟨head, action⟩ := watchdog theirs
      exact undisturbed m head ⟨env.persistOk, linkOk ▸ action⟩
    · intro gone _
      refine gone.absorb fsm ?_
      intro a member _
      rw [toFsm] at member
      rcases List.mem_append.mp member with old | new
      · exact .inl old
      · exact .inr (handles.refuses (mem_acksFor.mp new).1)
  | settle outs settles fsm published toFsm =>
    rw [fsm, published]
    intro on
    have books := sound.books
    rw [on] at books
    refine (opens.steady on).settle books settles ?_
    intro gone off
    refine gone.absorb fsm ?_
    intro a member seq
    rw [toFsm] at member
    rcases List.mem_append.mp member with old | new
    · exact .inl old
    · obtain ⟨out, own⟩ := mem_acksFor.mp new
      refine .inr (Bool.eq_false_iff.mpr fun success => ?_)
      -- A proof would be that of the ON in flight.
      obtain ⟨i, flying, same, source⟩ := settles.proves a out success
      have opens := ((books.fits i (.inr (.inl flying))).controller (source.symm.trans own)).2 (same.symm.trans seq)
      rw [off i flying] at opens
      cases opens

theorem Opens.open {s : Loop} (opens : Opens s) : s.ConfirmedOnOpen := by
  intro _ state
  have on : s.fsm.commanded = true := by simp [Fsm.commanded, state]
  have proved : s.fsm.proved = true := by simp [Fsm.proved, state]
  rcases opens.steady on (opens.sound.proved proved) with ⟨⟨pending, _⟩, _⟩ | ⟨⟨w, older, head, opened, _⟩, _⟩
  · rw [state] at pending
    cases pending
  · exact ⟨w, by simp [head], opened⟩

theorem opens_start (index : Nat) : Opens (start index) := by
  refine ⟨sound_start index, fun _ => ?_⟩
  rintro ⟨x, member, _⟩
  simp [start] at member

/-- In every state of a run in which no watchdog OFF takes the valve from a confirmed ON, or from one in flight
without failing it. -/
theorem confirmedOn_undisturbed (p : Params) (index : Nat) {h : List (Entry Event Unit)} {s : Loop}
    (run : RunIf (step p) (fun _ s e => s.Undisturbed e) (start index) h s) : s.ConfirmedOnOpen :=
  (run.invariant (fun _ s => Opens s) (opens_start index) fun _ _ _ opens undisturbed => opens.step undisturbed).open

instance (s : Loop) : Decidable s.Unconfirmed :=
  inferInstanceAs (Decidable (_ ∧ ∀ a ∈ s.toFsm, a.seq = s.fsm.seq → a.success = false))

instance [Decidable lost] : Decidable (MayTake n lost s published m) :=
  inferInstanceAs (Decidable (∀ w ∈ published.head?, w.on = true → w.seq = n → lost ∧ (s.inflight.any (·.on) = true →
    ∀ c ∈ s.confirmed.lookup sourceWatchdog, ∀ r ∈ Px4Link.translate m, sameSprayTransaction c r = false)))

instance (s : Loop) (e : Event) : Decidable (s.Undisturbed e) :=
  inferInstanceAs (Decidable (∀ m ∈ s.wdToLink.head?, (∃ persistOk, e.action = .deliverWd true persistOk) →
    MayTake s.fsm.seq s.Unconfirmed s.link s.published m))

/-- The start of a job: both OFFs are confirmed and the first ON is on its way. -/
def opening : List Event :=
  let off : Output := { value := .fin (-1) }
  [⟨0, .wdTick⟩, ⟨0, .deliverWd true true⟩, ⟨0, .px4Ack true true⟩, ⟨0, .wdAck⟩,
    ⟨0, .tick false true true off⟩, ⟨0, .deliver true true⟩, ⟨0, .px4Ack true true⟩, ⟨0, .fsmAck off⟩,
    ⟨2 / 5, .tick true true true {}⟩, ⟨2 / 5, .deliver true true⟩]

/-- The lease runs out while the ON is in flight: the watchdog's new OFF fails that ON, and the next one is confirmed. -/
def yielded : List Event :=
  opening ++ [⟨2 / 5, .wdLease { allowOn := true, commandSeq := 2 }⟩, ⟨4 / 5, .wdTick⟩, ⟨4 / 5, .deliverWd true true⟩,
    ⟨4 / 5, .fsmAck { value := .fin (-1) }⟩, ⟨4 / 5, .deliver true true⟩, ⟨4 / 5, .px4Ack true true⟩,
    ⟨4 / 5, .px4Ack true true⟩, ⟨4 / 5, .wdAck⟩, ⟨4 / 5, .px4Ack true true⟩, ⟨4 / 5, .fsmAck {}⟩,
    ⟨1, .tick true true true {}⟩, ⟨1, .deliver true true⟩, ⟨1, .px4Ack true true⟩, ⟨1, .fsmAck {}⟩]

theorem confirmedOn_undisturbed_yielded :
    (exec (step {}) [] (start 0) yielded).2.Quiet ∧
    (exec (step {}) [] (start 0) yielded).2.fsm.state = .onConfirmed ∧
    (exec (step {}) [] (start 0) yielded).2.published.map (fun w => (w.source, w.on)) =
      [(0, true), (0, false), (1, false), (0, true), (0, false), (1, false)] ∧
    (exec (step {}) [] (start 0) yielded).2.ConfirmedOnOpen :=
  ⟨by decide +kernel, by decide +kernel, by decide +kernel,
    confirmedOn_undisturbed {} 0 (exec_runIf yielded (by decide +kernel) .start)⟩

/-- A reassert of the watchdog's confirmed OFF overtakes the lease that ends it: it is published again behind the ON,
which PX4 then acknowledges. -/
def overtaken : List Event :=
  opening ++ [⟨2 / 5, .wdTick⟩, ⟨2 / 5, .wdLease { allowOn := true, commandSeq := 2 }⟩, ⟨2 / 5, .deliverWd true true⟩,
    ⟨2 / 5, .px4Ack true true⟩, ⟨2 / 5, .px4Ack true true⟩, ⟨2 / 5, .fsmAck {}⟩]

theorem confirmedOn_fails_overtaken :
    ¬ ∀ (p : Params) (index : Nat) (h : List (Entry Event Unit)) (s : Loop),
      RunIf (step p) (fun _ _ e => e.lossless = true) (start index) h s → s.ConfirmedOnOpen := by
  intro all
  obtain ⟨w, last, on⟩ := all {} 0 _ _ (exec_runIf overtaken (by decide +kernel) .start)
    (by decide +kernel) (by decide +kernel)
  have off : ∀ w ∈ (exec (step {}) [] (start 0) overtaken).2.published.head?, w.on = false := by decide +kernel
  rw [off w last] at on
  cases on

end Dyx3.System.Loop
