import Dyx3.System.Agreement

/-!
The watchdog's proof of OFF authority against px4_link. A reassert of an OFF that px4_link has confirmed is sent to
PX4 again without another ack, while the watchdog waits for one: the proof holds only as long as no tick of the
watchdog finds its OFF in flight for longer than the ack timeout.
-/

namespace Dyx3.Spray

open Lib

variable {p : WatchdogParams} {w : Watchdog} {l : Lease} {now : ℚ}

theorem validateLease_fields (valid : validateLease l = none) :
    (l.backend = 0 ∨ l.backend = 1) ∧ (1 ≤ l.actuatorSetIndex ∧ l.actuatorSetIndex ≤ 6) ∧
      l.offValue.isFinite = true := by
  unfold validateLease at valid
  split at valid
  · cases valid
  split at valid
  · cases valid
  rename_i backend
  split at valid
  · cases valid
  rename_i index
  split at valid
  · cases valid
  rename_i value
  refine ⟨by omega, not_not.mp index, ?_⟩
  simp only [not_or, Bool.not_eq_true', Bool.not_eq_false] at value
  exact value.1

theorem sameActuatorMapping_self (valid : validateLease l = none) :
    sameActuatorMapping (actuatorMapping l) (actuatorMapping l) = true := by
  obtain ⟨x, finite⟩ := Flt.isFinite_iff.mp (validateLease_fields valid).2.2
  simp [sameActuatorMapping, actuatorMapping, finite, Flt.same]

/-- The watchdog of a controller that has denied ON from the start, under the mapping it started with: the first OFF
is still its only one. -/
structure Watchdog.Denied (p : WatchdogParams) (w : Watchdog) : Prop where
  valid : w.mon.invalid = false
  denies : w.mon.haveLease = true → w.mon.lastLease.allowOn = false
  mapping : actuatorMapping (w.mapping p) = actuatorMapping p.fallback
  epoch : (w.seq = 0 ∧ w.offEpochActive = false ∧ w.inflight = false ∧ w.offConfirmedMapping = none) ∨
    (w.inflightSeq = 1 ∧ w.offEpochActive = true)
  inflight : w.inflight = true → w.inflightMapping = some (actuatorMapping p.fallback)

namespace Watchdog

def offReady (p : WatchdogParams) (w : Watchdog) : Bool :=
  w.offConfirmedMapping.any (sameActuatorMapping · (actuatorMapping (w.mapping p)))

theorem denied_start (p : WatchdogParams) : Denied p {} :=
  ⟨rfl, by simp, rfl, .inl ⟨rfl, rfl, rfl, rfl⟩, by simp⟩

theorem Denied.required (denied : Denied p w) (timeout now : ℚ) : (w.mon.offReason timeout now).required = true := by
  unfold LeaseMonitor.offReason
  simp only [denied.valid, Bool.false_eq_true, if_false]
  split
  · rfl
  · rename_i present
    have denies := denied.denies (by simpa using present)
    split
    · rfl
    · simp [denies, OffReason.required]

/-- The fields a new cause for OFF does not touch. -/
theorem noteCause_eq (p : WatchdogParams) (w : Watchdog) (r : OffReason) (now : ℚ) :
    ∃ nextOff burstUntil haveLastCause lastCause,
      w.noteCause p r now = { w with nextOff, burstUntil, haveLastCause, lastCause } := by
  unfold noteCause
  split
  · split
    · exact ⟨_, _, _, _, rfl⟩
    · exact ⟨_, _, _, _, rfl⟩
  · exact ⟨_, _, _, _, rfl⟩

theorem Denied.emit (denied : Denied p w) :
    Denied p (w.emit p now).1 ∧ (w.emit p now).1.offConfirmedMapping = w.offConfirmedMapping ∧
      ∀ c, (w.emit p now).2 = some c → c.seq = 1 ∧ actuatorMapping c.mapping = actuatorMapping p.fallback := by
  unfold Watchdog.emit
  rcases denied.epoch with ⟨seq, inactive, _, unproved⟩ | ⟨seq, active⟩
  · simp only [inactive, Bool.not_false, if_true, seq]
    refine ⟨⟨denied.valid, denied.denies, denied.mapping, .inr ⟨rfl, rfl⟩, fun _ => ?_⟩, unproved.symm, ?_⟩
    · exact congrArg some denied.mapping
    · rintro c ⟨⟩
      exact ⟨rfl, denied.mapping⟩
  · simp only [active, Bool.not_true, Bool.false_eq_true, if_false]
    refine ⟨⟨denied.valid, denied.denies, denied.mapping, .inr ⟨seq, rfl⟩, fun _ => ?_⟩, trivial, ?_⟩
    · exact congrArg some denied.mapping
    · rintro c ⟨⟩
      exact ⟨seq, denied.mapping⟩

theorem Denied.tick (denied : Denied p w)
    (timely : w.inflight = true → now - w.inflightSince ≤ max (1 / 10) p.commandAckTimeout) :
    Denied p (w.tick p now).1 ∧ (w.tick p now).1.offConfirmedMapping = w.offConfirmedMapping ∧
      ∀ c, (w.tick p now).2 = some c → c.seq = 1 ∧ actuatorMapping c.mapping = actuatorMapping p.fallback := by
  have kept : w.expire p now = w := by
    unfold expire
    rw [if_neg]
    simp only [Bool.and_eq_true, decide_eq_true_eq, not_and, not_lt]
    exact timely
  unfold Watchdog.tick
  simp only [kept, denied.required, Bool.true_or, Bool.not_true, Bool.false_eq_true, if_false, Bool.true_and]
  obtain ⟨nextOff, burstUntil, haveLastCause, lastCause, shape⟩ :=
    noteCause_eq p w (w.mon.offReason p.leaseTimeout now) now
  rw [shape]
  have noted : Denied p { w with nextOff, burstUntil, haveLastCause, lastCause } := { denied with }
  split
  · exact noted.emit
  · exact ⟨noted, rfl, by simp⟩

/-- A success ack of the OFF proves it again. -/
theorem Denied.onAck (denied : Denied p w) (seq : Nat) :
    Denied p (w.onAck p seq true) ∧ (w.offReady p = true → (w.onAck p seq true).offReady p = true) := by
  unfold Watchdog.onAck
  split
  · exact ⟨denied, id⟩
  · rename_i open_
    have inflight : w.inflight = true := by
      simp only [Bool.or_eq_true, Bool.not_eq_true', decide_eq_true_eq, not_or] at open_
      simpa using open_.1
    have proves : w.inflightMapping.any (sameActuatorMapping · (actuatorMapping (w.mapping p))) = true := by
      rw [denied.inflight inflight, denied.mapping]
      exact sameActuatorMapping_self p.fallbackValid
    have active : w.inflightSeq = 1 ∧ w.offEpochActive = true := by
      rcases denied.epoch with ⟨_, _, idle, _⟩ | active
      · rw [idle] at inflight
        cases inflight
      · exact active
    simp only [proves, Bool.and_self, if_true]
    refine ⟨⟨denied.valid, denied.denies, denied.mapping, .inr active, by simp⟩, fun _ => ?_⟩
    show sameActuatorMapping (actuatorMapping (w.mapping p)) (actuatorMapping (w.mapping p)) = true
    rw [denied.mapping]
    exact sameActuatorMapping_self p.fallbackValid

/-- A lease that denies ON under the same mapping changes nothing but its age. -/
theorem Denied.onLease (denied : Denied p w) (valid : validateLease l = none) (denies : l.allowOn = false)
    (same : actuatorMapping l = actuatorMapping (w.mapping p)) :
    Denied p (w.onLease p l now) ∧ (w.onLease p l now).offConfirmedMapping = w.offConfirmedMapping := by
  have observed : ∃ mon, w.mon.observe l now = (mon, none) ∧ mon.invalid = false ∧ mon.haveLease = true ∧
      mon.lastLease = l := by
    simp only [LeaseMonitor.observe, valid]
    exact ⟨_, rfl, rfl, rfl, rfl⟩
  obtain ⟨mon, observed, validMon, present, lease⟩ := observed
  have stored : ({ w with mon } : Watchdog).mapping p = l := by simp [Watchdog.mapping, present, lease]
  have fresh : Denied p { w with mon } :=
    ⟨validMon, fun _ => lease ▸ denies, by rw [stored, same, denied.mapping], denied.epoch, denied.inflight⟩
  have unchanged : sameActuatorMapping (actuatorMapping (w.mapping p)) (actuatorMapping l) = true := by
    rw [same, denied.mapping]
    exact sameActuatorMapping_self p.fallbackValid
  have required : ({ w with mon } : Watchdog).offRequired p now = true := fresh.required p.leaseTimeout now
  unfold Watchdog.onLease
  rw [observed]
  simp only [stored, unchanged, required, Bool.not_true, Bool.false_and, Bool.false_eq_true, if_false]
  exact ⟨fresh, trivial⟩

end Watchdog

end Dyx3.Spray

namespace Dyx3.Px4Link.SprayLink

variable {n : Nat} {on : Bool} {s t : SprayLink} {r : SprayPending} {env : Env} {outs : List SprayOut}
  {published : List SprayPending} {m : SprayActuatorCommand} {a : SprayActuatorAck}

/-- The ledger has an identity for the next request. -/
def Identifies (s : SprayLink) (persistOk : Bool) : Prop := (s.tokens.reserve persistOk).2.isSome = true

theorem Dispatches.noAck (dispatches : Dispatches s env t outs) (identifies : s.Identifies env.persistOk) :
    .ack a ∉ outs := by
  cases dispatches with
  | idle => simp
  | refused q rest tokens free head exhausted => simp [Identifies, exhausted] at identifies
  | sent => simp

/-- A new request fails the watchdog's only if one of them waits in the queue. -/
theorem Takes.noWatchdog {queue : List SprayPending} {acks : List SprayOut} (takes : Takes s r queue acks)
    (books : Books n on s published) (fits : Fits n on r.toSprayActuatorCommand)
    (fresh : r.source = sourceWatchdog → ∀ q ∈ s.queue, q.source ≠ sourceWatchdog) (member : .ack a ∈ acks) :
    a.source ≠ sourceWatchdog := by
  obtain ⟨q, same, why⟩ := takes.acks _ member
  have source : a.source = q.source := by
    simp only [refuse, SprayOut.ack.injEq] at same
    rw [same]
  rw [source]
  rcases why with ⟨queued, superseded⟩ | ⟨flying, opens, _⟩ | ⟨queued, other⟩
  · rcases fits with ⟨own, _⟩ | ⟨theirs, _⟩
    · simp only [supersedes, isWatchdogOff, own, Bool.or_eq_true, Bool.and_eq_true, decide_eq_true_eq] at superseded
      rcases superseded with ⟨⟨impossible, _⟩, _⟩ | same
      · cases impossible
      · rw [same]
        simp [sourceController, sourceWatchdog]
    · exact fresh theirs q queued
  · rw [(books.fits q (.inr (.inl flying))).of_on opens]
    simp [sourceController, sourceWatchdog]
  · intro theirs
    have off := (books.fits q (.inl queued)).watchdog (by simp [theirs, sourceController, sourceWatchdog])
    simp [isWatchdogOff, off] at other

theorem watchdogOff_supersedes (off : isWatchdogOff r.toSprayActuatorCommand = true) (q : SprayPending) :
    supersedes r q = true := by
  have theirs : r.source = sourceWatchdog := by
    simp only [isWatchdogOff, Bool.and_eq_true, decide_eq_true_eq] at off
    exact off.1
  by_cases same : q.source = sourceWatchdog
  · simp [supersedes, same, theirs]
  · simp [supersedes, off, same]

theorem fresh_of_reassert (new : s.reassert r = none) {q : SprayPending} (queued : q ∈ s.queue) :
    sameSprayTransaction q r = false := by
  by_contra same
  have found : s.queue.any (sameSprayTransaction · r) = true :=
    List.any_eq_true.mpr ⟨q, queued, by simpa using same⟩
  unfold reassert at new
  split at new
  · cases new
  · simp [found] at new

theorem Places.noWatchdog (places : Places s r env t outs) (books : Books n on s published)
    (fits : Fits n on r.toSprayActuatorCommand)
    (fresh : r.source = sourceWatchdog → ∀ q ∈ s.queue, q.source ≠ sourceWatchdog)
    (identifies : s.Identifies env.persistOk) (member : .ack a ∈ outs) : a.source ≠ sourceWatchdog := by
  cases places with
  | full queue acks takes stuck =>
    rcases List.mem_append.mp member with old | last
    · exact takes.noWatchdog books fits fresh old
    · have source : a.source = r.source := by
        simp only [refuse, List.mem_singleton, SprayOut.ack.injEq] at last
        rw [last]
      rw [source]
      intro theirs
      -- A watchdog OFF finds room: it clears the queue.
      have off := (fits.watchdog (by simp [theirs, sourceController, sourceWatchdog])).2
      have cleared : queue = [] := by
        refine List.eq_nil_iff_forall_not_mem.mpr fun q kept => ?_
        have := (takes.kept q kept).2
        rw [watchdogOff_supersedes (by simp [isWatchdogOff, theirs, off])] at this
        cases this
      simp [cleared, maxSprayTransactions] at stuck
  | queued queue t acks sent takes dispatches =>
    rcases List.mem_append.mp member with old | new
    · exact takes.noWatchdog books fits fresh old
    · exact absurd new (dispatches.noAck identifies)

/-- While the link is up and has identities, a message fails no request of the watchdog. -/
theorem command_noWatchdog (books : Books n on s published) (fits : Fits n on m) (linkOk : env.linkOk = true)
    (identifies : s.Identifies env.persistOk)
    (repeats : m.source = sourceWatchdog → ∃ r, Px4Link.translate m = some r ∧
      ∀ q ∈ s.queue, q.source = sourceWatchdog → sameSprayTransaction q r = true)
    (member : .ack a ∈ (s.onSprayCommand m env).2) : a.source ≠ sourceWatchdog := by
  have received := onSprayCommand_cases s m env
  generalize s.onSprayCommand m env = result at received member
  obtain ⟨t, outs⟩ := result
  dsimp only at received member
  cases received with
  | refused why =>
    have source : a.source = m.source := by
      simp only [refuse, List.mem_singleton, SprayOut.ack.injEq] at member
      rw [member]
    rw [source]
    intro theirs
    obtain ⟨r, translated, _⟩ := repeats theirs
    simp [linkOk, translated] at why
  | barred => simp at member
  | blocked => simp at member
  | repeated => simp at member
  | resent => simp at member
  | enqueued r t outs translated linkOk unbarred unblocked new enqueues =>
    have message := translate_message translated
    obtain ⟨bar, shape⟩ := rebar_eq s r
    rw [shape] at enqueues
    obtain ⟨r', epochs, t, outs, adopts, ended, places⟩ := enqueues
    have same : r'.toSprayActuatorCommand = m := adopts.message.trans message
    have reduced : Books n on { s with barredOn := bar, confirmed := s.confirmed.erase r.source, epochs } published :=
      books.reduce ⟨by simp, by simp⟩ fun source c found => .inl (lookup_erase_some found)
    refine places.noWatchdog reduced (same ▸ fits) ?_ identifies member
    rw [same]
    intro theirs q queued source
    obtain ⟨r₀, translated₀, all⟩ := repeats theirs
    obtain rfl := Option.some.inj (translated.symm.trans translated₀)
    have repeated := all q queued source
    rw [fresh_of_reassert new queued] at repeated
    cases repeated

theorem ack_accepted {b : VehicleCommandAck} (member : .ack a ∈ (s.onVehicleCommandAck b env).2)
    (accepted : b.result = resultAccepted) (identifies : s.Identifies env.persistOk) : a.success = true := by
  have acked := onVehicleCommandAck_cases s b env
  generalize s.onVehicleCommandAck b env = result at acked member
  obtain ⟨t, outs⟩ := result
  dsimp only at acked member
  cases acked with
  | ignored => simp at member
  | completed i t sent flying matched dispatches =>
    rcases List.mem_cons.mp member with same | later
    · simp only [SprayOut.ack.injEq] at same
      simp [same, accepted]
    · exact absurd later (dispatches.noAck identifies)

theorem service_noWatchdog {timeout : ℚ} (member : .ack a ∈ (s.serviceSprayTransactions env timeout).2)
    (linkOk : env.linkOk = true) (identifies : s.Identifies env.persistOk)
    (due : ∀ i ∈ s.inflight, i.source = sourceWatchdog → env.now - i.sent ≤ timeout) : a.source ≠ sourceWatchdog := by
  have serviced := serviceSprayTransactions_cases s env timeout
  generalize s.serviceSprayTransactions env timeout = result at serviced member
  obtain ⟨t, outs⟩ := result
  dsimp only at serviced member
  cases serviced with
  | lost down => simp [linkOk] at down
  | kept t sent linkOk dispatches => exact absurd member (dispatches.noAck identifies)
  | expired i t sent linkOk flying overdue dispatches =>
    rcases List.mem_cons.mp member with same | later
    · simp only [refuse, SprayOut.ack.injEq] at same
      rw [same]
      intro theirs
      exact absurd overdue (not_lt.mpr (due i flying theirs))
    · exact absurd later (dispatches.noAck identifies)

end Dyx3.Px4Link.SprayLink

namespace Dyx3.System

open Lib Px4Link Spray SprayLink

theorem watchdog_translates {l : Lease} (valid : validateLease l = none) (seq : Nat) :
    ∃ r, Px4Link.translate (watchdogMessage ⟨seq, l⟩) = some r := by
  obtain ⟨backend, index, finite⟩ := validateLease_fields valid
  rcases backend with zero | one
  · have cast : 1 ≤ (l.actuatorSetIndex % 256).toNat ∧ (l.actuatorSetIndex % 256).toNat ≤ 6 := by omega
    simp [Px4Link.translate, translateWire, watchdogMessage, zero, backendServoPwm, backendActuator, finite, cast]
  · simp [Px4Link.translate, translateWire, watchdogMessage, one, backendServoPwm]

theorem watchdogMessage_mapping {l k : Lease} (same : actuatorMapping l = actuatorMapping k) (seq : Nat) :
    watchdogMessage ⟨seq, l⟩ = watchdogMessage ⟨seq, k⟩ := by
  simp only [actuatorMapping, ActuatorMapping.mk.injEq] at same
  simp [watchdogMessage, same]

namespace Loop

variable {p : Params} {s t : Loop}

/-- The controller keeps denying ON under an unchanged mapping, the link is up and PX4 accepts what it acknowledges. -/
def Denying (p : Params) (s : Loop) (e : Event) : Prop :=
  match e.action with
  | .wdLease l => validateLease l = none ∧ l.allowOn = false ∧
      actuatorMapping l = actuatorMapping (s.wd.mapping p.watchdog)
  | .wdShutdown => False
  | .deliver linkOk _ | .deliverWd linkOk _ | .px4Ack linkOk _ | .service linkOk _ => linkOk = true
  | .strayAck a linkOk _ => linkOk = true ∧ a.result = resultAccepted
  | _ => True

/-- No request waits in vain: the link has identities, a watchdog OFF is not in flight there beyond the transaction
timeout, and no tick of the watchdog finds its OFF unanswered beyond the ack timeout. -/
def Served (p : Params) (s : Loop) (e : Event) : Prop :=
  match e.action with
  | .wdTick => s.wd.inflight = true → e.now - s.wd.inflightSince ≤ max (1 / 10) p.watchdog.commandAckTimeout
  | .deliver _ persistOk | .deliverWd _ persistOk | .px4Ack _ persistOk | .strayAck _ _ persistOk =>
      s.link.Identifies persistOk
  | .service _ persistOk => s.link.Identifies persistOk ∧
      ∀ i ∈ s.link.inflight, i.source = sourceWatchdog → e.now - i.sent ≤ p.transactionTimeout
  | _ => True

def watchdogOff (p : Params) : SprayActuatorCommand := watchdogMessage ⟨1, p.watchdog.fallback⟩

/-- The watchdog's side of the loop: one OFF, the same wherever it waits, and only acks of success. -/
structure Proving (p : Params) (s : Loop) : Prop where
  denied : s.wd.Denied p.watchdog
  sent : ∀ m ∈ s.wdToLink, m = watchdogOff p
  queued : ∀ q ∈ s.link.queue, q.source = sourceWatchdog →
    ∃ r, Px4Link.translate (watchdogOff p) = some r ∧ sameSprayTransaction q r = true
  acks : ∀ a ∈ s.toWd, a.success = true

structure Keeps (p : Params) (s t : Loop) : Prop where
  proving : Proving p t
  ready : s.wd.offReady p.watchdog = true → t.wd.offReady p.watchdog = true

theorem Proving.repeats (proving : Proving p s) :
    ∃ r, Px4Link.translate (watchdogOff p) = some r ∧
      ∀ q ∈ s.link.queue, q.source = sourceWatchdog → sameSprayTransaction q r = true := by
  obtain ⟨r, translated⟩ := watchdog_translates p.watchdog.fallbackValid 1
  refine ⟨r, translated, ?_⟩
  intro q member source
  obtain ⟨r', again, same⟩ := proving.queued q member source
  obtain rfl := Option.some.inj (translated.symm.trans again)
  exact same

/-- The link and the watchdog are left alone. -/
theorem Proving.still (proving : Proving p s) (wd : t.wd = s.wd) (link : t.link = s.link)
    (sent : t.wdToLink.Sublist s.wdToLink) (acks : t.toWd.Sublist s.toWd) : Keeps p s t := by
  refine ⟨⟨wd ▸ proving.denied, fun m member => proving.sent m (sent.mem member), ?_,
    fun a member => proving.acks a (acks.mem member)⟩, ?_⟩
  · rw [link]
    exact proving.queued
  · rw [wd]
    exact id

/-- A call of the link that fails no request of the watchdog. -/
theorem Proving.call (proving : Proving p s) (e : SprayLink.Event) (wd : t.wd = s.wd)
    (link : t.link = (SprayLink.step p.transactionTimeout s.link e).1) (sent : t.wdToLink.Sublist s.wdToLink)
    (toWd : t.toWd = s.toWd ++ acksFor sourceWatchdog (SprayLink.step p.transactionTimeout s.link e).2)
    (message : ∀ m env, e = .command m env → m.source = sourceWatchdog → m = watchdogOff p)
    (kept : ∀ a, .ack a ∈ (SprayLink.step p.transactionTimeout s.link e).2 → a.source = sourceWatchdog →
      a.success = true) : Keeps p s t := by
  refine ⟨⟨wd ▸ proving.denied, fun m member => proving.sent m (sent.mem member), ?_, ?_⟩, by rw [wd]; exact id⟩
  · rw [link]
    intro q member source
    rcases (step_flow p.transactionTimeout s.link e).queue q member with old | new
    · exact proving.queued q old source
    · cases e with
      | command m env =>
        obtain ⟨r, admissible, adopts⟩ := new
        have same : m.source = sourceWatchdog := by
          rw [← translate_message admissible.translated, ← adopts.message]
          exact source
        rw [← message m env rfl same]
        refine ⟨r, admissible.translated, sameSprayTransaction_iff.mpr ⟨adopts.message, adopts.command, ?_⟩⟩
        rw [adopts.wire]
      | fcuAck | service => exact new.elim
  · rw [toWd]
    intro a member
    rcases List.mem_append.mp member with old | new
    · exact proving.acks a old
    · obtain ⟨out, theirs⟩ := mem_acksFor.mp new
      exact kept a out theirs

/-- A message the link receives fails no request of the watchdog. -/
theorem Proving.receive (proving : Proving p s) (sound : Sound s) {m : SprayActuatorCommand} (env : Env)
    (arrives : s.Arrives m) (repeated : m.source = sourceWatchdog → m = watchdogOff p) (linkOk : env.linkOk = true)
    (identifies : s.link.Identifies env.persistOk) (wd : t.wd = s.wd)
    (link : t.link = (s.link.onSprayCommand m env).1) (sent : t.wdToLink.Sublist s.wdToLink)
    (toWd : t.toWd = s.toWd ++ acksFor sourceWatchdog (s.link.onSprayCommand m env).2) : Keeps p s t := by
  refine proving.call (.command m env) wd link sent toWd ?_ ?_
  · rintro _ _ ⟨⟩ theirs
    exact repeated theirs
  · intro a out theirs
    refine absurd theirs (command_noWatchdog sound.books arrives.fits linkOk identifies ?_ out)
    intro source
    rw [repeated source]
    exact proving.repeats

theorem offReady_of_same {w w' : Watchdog} {q : WatchdogParams} (denied : w.Denied q) (denied' : w'.Denied q)
    (same : w'.offConfirmedMapping = w.offConfirmedMapping) (ready : w.offReady q = true) : w'.offReady q = true := by
  unfold Watchdog.offReady at ready ⊢
  rwa [same, denied'.mapping, ← denied.mapping]

theorem Proving.step (proving : Proving p s) (sound : Sound s) {e : Event} (denying : s.Denying p e)
    (served : s.Served p e) : Keeps p s (Loop.step p s e).1 := by
  obtain ⟨now, action⟩ := e
  cases action with
  | tick | eventReset => exact proving.still rfl rfl (.refl _) (.refl _)
  | reassert o =>
    simp only [Loop.step, act, Loop.reassert]
    split
    all_goals exact proving.still rfl rfl (.refl _) (.refl _)
  | fsmAck o =>
    simp only [Loop.step, act]
    split
    all_goals exact proving.still rfl rfl (.refl _) (.refl _)
  | wdTick =>
    obtain ⟨denied, same, out⟩ := proving.denied.tick served
    refine ⟨⟨denied, ?_, proving.queued, proving.acks⟩, offReady_of_same proving.denied denied same⟩
    intro m member
    rcases List.mem_append.mp member with old | new
    · exact proving.sent m old
    · simp only [Option.mem_toList, Option.map_eq_some_iff] at new
      obtain ⟨c, emitted, rfl⟩ := new
      obtain ⟨seq, mapping⟩ := out c emitted
      obtain ⟨_, lease⟩ := c
      dsimp only at seq mapping
      subst seq
      exact watchdogMessage_mapping mapping 1
  | wdLease l =>
    obtain ⟨valid, denies, same⟩ := denying
    obtain ⟨denied, unchanged⟩ := proving.denied.onLease valid denies same
    exact ⟨⟨denied, proving.sent, proving.queued, proving.acks⟩, offReady_of_same proving.denied denied unchanged⟩
  | wdAck =>
    simp only [Loop.step, act]
    split
    · exact proving.still rfl rfl (.refl _) (.refl _)
    · rename_i a rest head
      have success := proving.acks a (by simp [head])
      obtain ⟨denied, ready⟩ := proving.denied.onAck a.seq
      rw [success]
      refine ⟨⟨denied, proving.sent, proving.queued, ?_⟩, ready⟩
      intro b member
      exact proving.acks b (by rw [head]; exact List.mem_cons_of_mem a member)
  | wdShutdown => exact denying.elim
  | deliver linkOk persistOk =>
    simp only [Loop.step, act]
    split
    · exact proving.still rfl rfl (.refl _) (.refl _)
    · rename_i m rest head
      have own := (sound.controller m (by simp [head])).1
      refine proving.receive sound ⟨linkOk, persistOk, now⟩ (sound.arrives head) ?_ denying served rfl rfl (.refl _) rfl
      intro theirs
      rw [own] at theirs
      cases theirs
  | deliverWd linkOk persistOk =>
    simp only [Loop.step, act]
    split
    · exact proving.still rfl rfl (.refl _) (.refl _)
    · rename_i m rest head
      exact proving.receive sound ⟨linkOk, persistOk, now⟩ (sound.arrivesWd head)
        (fun _ => proving.sent m (by simp [head])) denying served rfl rfl (head ▸ List.sublist_cons_self m rest) rfl
  | px4Ack linkOk persistOk =>
    simp only [Loop.step, act]
    split
    · exact proving.still rfl rfl (.refl _) (.refl _)
    · rename_i w rest head
      refine proving.call (.fcuAck (accept w) ⟨linkOk, persistOk, now⟩) rfl rfl (.refl _) rfl ?_ ?_
      · rintro _ _ ⟨⟩
      · intro a out _
        exact ack_accepted out rfl served
  | strayAck b linkOk persistOk =>
    refine proving.call (.fcuAck b ⟨linkOk, persistOk, now⟩) rfl rfl (.refl _) rfl ?_ ?_
    · rintro _ _ ⟨⟩
    · intro a out _
      exact ack_accepted out denying.2 served
  | service linkOk persistOk =>
    refine proving.call (.service ⟨linkOk, persistOk, now⟩) rfl rfl (.refl _) rfl ?_ ?_
    · rintro _ _ ⟨⟩
    · intro a out theirs
      exact absurd theirs (service_noWatchdog out denying served.1 served.2)
  | lose channel i =>
    cases channel with
    | wdToLink => exact proving.still rfl rfl (List.eraseIdx_sublist ..) (.refl _)
    | toWd => exact proving.still rfl rfl (.refl _) (List.eraseIdx_sublist ..)
    | toLink | toFsm | px4 => exact proving.still rfl rfl (.refl _) (.refl _)

theorem proving_start (p : Params) (index : Nat) : Proving p (start index) := by
  refine ⟨Watchdog.denied_start p.watchdog, ?_, ?_, ?_⟩
  all_goals simp [start]

/-- Once it is ready, the proof stays ready as long as every request is served. -/
theorem offProof_served (p : Params) (index : Nat) {h later : List (Entry Event Unit)} {s t : Loop} {now now' : ℚ}
    (run : RunIf (step p) (fun _ s e => s.Denying p e ∧ s.Served p e) (start index) h s)
    (ready : (s.wd.status p.watchdog now).offAuthorityReady = true)
    (rest : RunIf (step p) (fun _ s e => s.Denying p e ∧ s.Served p e) s later t) :
    (t.wd.status p.watchdog now').offAuthorityReady = true := by
  have reached : Sound s ∧ Proving p s := by
    refine run.invariant (fun _ s => Sound s ∧ Proving p s) ⟨sound_start index, proving_start p index⟩ ?_
    rintro _ s e ⟨sound, proving⟩ ⟨denying, served⟩
    exact ⟨sound.step e, (proving.step sound denying served).proving⟩
  have kept : Sound t ∧ Proving p t ∧ t.wd.offReady p.watchdog = true := by
    refine rest.invariant (fun _ t => Sound t ∧ Proving p t ∧ t.wd.offReady p.watchdog = true)
      ⟨reached.1, reached.2, ready⟩ ?_
    rintro _ s e ⟨sound, proving, ready⟩ ⟨denying, served⟩
    have keeps := proving.step sound denying served
    exact ⟨sound.step e, keeps.proving, keeps.ready ready⟩
  exact kept.2.2

instance (p : Params) (s : Loop) : DecidablePred (s.Denying p)
  | ⟨_, .wdLease l⟩ => inferInstanceAs (Decidable (validateLease l = none ∧ l.allowOn = false ∧
      actuatorMapping l = actuatorMapping (s.wd.mapping p.watchdog)))
  | ⟨_, .wdShutdown⟩ => inferInstanceAs (Decidable False)
  | ⟨_, .deliver linkOk _⟩ | ⟨_, .deliverWd linkOk _⟩ | ⟨_, .px4Ack linkOk _⟩ | ⟨_, .service linkOk _⟩ =>
    inferInstanceAs (Decidable (linkOk = true))
  | ⟨_, .strayAck a linkOk _⟩ => inferInstanceAs (Decidable (linkOk = true ∧ a.result = resultAccepted))
  | ⟨_, .tick ..⟩ | ⟨_, .eventReset⟩ | ⟨_, .reassert _⟩ | ⟨_, .fsmAck _⟩ | ⟨_, .wdTick⟩ | ⟨_, .wdAck⟩ | ⟨_, .lose ..⟩ =>
    inferInstanceAs (Decidable True)

instance (s : SprayLink) (persistOk : Bool) : Decidable (s.Identifies persistOk) :=
  inferInstanceAs (Decidable (_ = true))

instance (p : Params) (s : Loop) : DecidablePred (s.Served p)
  | ⟨now, .wdTick⟩ => inferInstanceAs (Decidable (s.wd.inflight = true →
      now - s.wd.inflightSince ≤ max (1 / 10) p.watchdog.commandAckTimeout))
  | ⟨_, .deliver _ persistOk⟩ | ⟨_, .deliverWd _ persistOk⟩ | ⟨_, .px4Ack _ persistOk⟩ | ⟨_, .strayAck _ _ persistOk⟩ =>
    inferInstanceAs (Decidable (s.link.Identifies persistOk))
  | ⟨now, .service _ persistOk⟩ => inferInstanceAs (Decidable (s.link.Identifies persistOk ∧
      ∀ i ∈ s.link.inflight, i.source = sourceWatchdog → now - i.sent ≤ p.transactionTimeout))
  | ⟨_, .tick ..⟩ | ⟨_, .eventReset⟩ | ⟨_, .reassert _⟩ | ⟨_, .fsmAck _⟩ | ⟨_, .wdLease _⟩ | ⟨_, .wdAck⟩ |
    ⟨_, .wdShutdown⟩ | ⟨_, .lose ..⟩ => inferInstanceAs (Decidable True)

/-- The watchdog proves its OFF at start-up. -/
def proven : List Event := [⟨0, .wdTick⟩, ⟨0, .deliverWd true true⟩, ⟨0, .px4Ack true true⟩, ⟨0, .wdAck⟩]

/-- The first reassert of the proven OFF, answered by PX4 at once, and the watchdog's next tick at `last`. -/
def reasserted (last : ℚ) : List Event :=
  [⟨1 / 20, .wdLease {}⟩, ⟨1 / 20, .wdTick⟩, ⟨1 / 20, .deliverWd true true⟩, ⟨1 / 20, .px4Ack true true⟩,
    ⟨last, .service true true⟩, ⟨last, .wdTick⟩]

theorem offProof_served_reasserted :
    ((exec (step {}) [] (start 0) proven).2.wd.status {} 0).offAuthorityReady = true ∧
    ((exec (step {}) [] (exec (step {}) [] (start 0) proven).2 (reasserted 1)).2.wd.status {} 1).offAuthorityReady =
      true := by
  have ready : ((exec (step {}) [] (start 0) proven).2.wd.status {} 0).offAuthorityReady = true := by decide +kernel
  exact ⟨ready, offProof_served {} 0 (exec_runIf proven (by decide +kernel) .start) ready
    (exec_runIf (reasserted 1) (by decide +kernel) .start)⟩

/-- Nothing is lost, and every message and ack arrives in the instant it was sent. -/
def Instant (s : Loop) (e : Event) : Prop :=
  e.lossless = true ∧ (s.clock = e.now ∨ (s.clock < e.now ∧ s.Quiet))

instance (s : Loop) (e : Event) : Decidable (s.Instant e) := inferInstanceAs (Decidable (_ ∧ _))

/-- A tick a little more than the ack timeout after the first reassert finds it unanswered: the confirmed OFF was
published again, and px4_link sends no second ack. -/
theorem offProof_fails_reasserted :
    ¬ ∀ (p : Params) (index : Nat) (h later : List (Entry Event Unit)) (s t : Loop) (now now' : ℚ),
      RunIf (step p) (fun _ s e => s.Denying p e ∧ s.Instant e) (start index) h s →
      (s.wd.status p.watchdog now).offAuthorityReady = true →
      RunIf (step p) (fun _ s e => s.Denying p e ∧ s.Instant e) s later t →
      (t.wd.status p.watchdog now').offAuthorityReady = true := by
  intro all
  have stays := all {} 0 _ _ _ _ 0 0 (exec_runIf proven (by decide +kernel) .start) (by decide +kernel)
    (exec_runIf (reasserted (11 / 10)) (by decide +kernel) .start)
  exact absurd stays (by decide +kernel)

end Loop

end Dyx3.System
