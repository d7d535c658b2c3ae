import Dyx3.Spray.Watchdog
import Dyx3.Lib.Run

/-!
The authority of the watchdog over a run of its calls: which acknowledgement it rests on.

An OFF opens an epoch when, since the OFF before it, a lease or a tick found ON permitted or the mapping
changed; it is the first of a new denial epoch or of a new mapping.
-/

namespace Dyx3.Spray

open Lib

inductive WatchdogEvent where
  | lease (l : Lease) (now : ℚ)
  | ack (seq : Nat) (success : Bool)
  | tick (now : ℚ)
  | shutdown
  deriving DecidableEq

/-- What is seen of a call: a lease that changes the mapping in force, the OFF of a tick, and whether ON is
permitted after it. -/
inductive WatchdogSeen where
  | lease (remapped permitted : Bool)
  | tick (off : Option OffCommand) (permitted : Bool)
  | quiet
  deriving DecidableEq

/-- The mapping in force. -/
def Watchdog.current (p : WatchdogParams) (w : Watchdog) : ActuatorMapping := actuatorMapping (w.mapping p)

def watchdogStep (p : WatchdogParams) (w : Watchdog) : WatchdogEvent → Watchdog × WatchdogSeen
  | .lease l now =>
    (w.onLease p l now,
      .lease (decide (w.current p ≠ (w.onLease p l now).current p)) ((w.onLease p l now).status p now).allowOn)
  | .ack seq success => (w.onAck p seq success, .quiet)
  | .tick now => ((w.tick p now).1, .tick (w.tick p now).2 ((w.tick p now).1.status p now).allowOn)
  | .shutdown => (w.beginShutdown, .quiet)

abbrev WatchdogEntry := Entry WatchdogEvent WatchdogSeen

def remaps (x : WatchdogEntry) : Bool :=
  match x.out with
  | .lease remapped _ => remapped
  | _ => false

def permits (x : WatchdogEntry) : Bool :=
  match x.out with
  | .lease _ permitted | .tick _ permitted => permitted
  | .quiet => false

def offOf (x : WatchdogEntry) : Option OffCommand :=
  match x.out with
  | .tick off _ => off
  | _ => none

/-- What happened since the mapping in force was installed. -/
def sinceInstall (h : List WatchdogEntry) : List WatchdogEntry := h.takeWhile fun x => !remaps x

/-- A success for `seq` came after an OFF with this sequence number and mapping `m`. -/
def AckedAs (seq : Nat) (m : ActuatorMapping) (h : List WatchdogEntry) : Prop :=
  ∃ since x mid y older cmd, h = since ++ x :: (mid ++ y :: older) ∧ x.event = .ack seq true ∧
    offOf y = some cmd ∧ cmd.seq = seq ∧ actuatorMapping cmd.mapping = m

/-- Whether the next OFF opens an epoch. -/
def fresh : List WatchdogEntry → Bool
  | [] => true
  | x :: h => permits x || remaps x || (offOf x).isNone && fresh h

/-- The OFF at `x` opened the epoch the history is in. -/
structure Opened (h since : List WatchdogEntry) (x : WatchdogEntry) (older : List WatchdogEntry) (cmd : OffCommand) :
    Prop where
  split : h = since ++ x :: older
  off : offOf x = some cmd
  first : fresh older = true
  newest : ∀ later y between, since = later ++ y :: between → (offOf y).isSome = true →
    fresh (between ++ x :: older) = false

theorem sameActuatorMapping_eq {a b : ActuatorMapping} (same : sameActuatorMapping a b = true) : a = b := by
  obtain ⟨backend, index, off, servo, pwm⟩ := a
  obtain ⟨backend', index', off', servo', pwm'⟩ := b
  simp only [sameActuatorMapping, Bool.and_eq_true, decide_eq_true_eq] at same
  obtain ⟨⟨⟨⟨rfl, rfl⟩, value⟩, rfl⟩, rfl⟩ := same
  have : off = off' := by cases off <;> cases off' <;> simp_all [Flt.same]
  rw [this]

theorem sameActuatorMapping_refl {l : Lease} (valid : validateLease l = none) :
    sameActuatorMapping (actuatorMapping l) (actuatorMapping l) = true := by
  have finite : l.offValue.isFinite = true := by
    simp only [validateLease] at valid
    repeat (split at valid; · cases valid)
    rename_i off _ _
    cases value : l.offValue.isFinite with
    | true => rfl
    | false => exact absurd (.inl (by simp [value])) off
  obtain ⟨x, value⟩ := Flt.isFinite_iff.mp finite
  simp [sameActuatorMapping, actuatorMapping, value, Flt.same]

theorem AckedAs.later {seq : Nat} {m : ActuatorMapping} {h : List WatchdogEntry} (acked : AckedAs seq m h)
    (x : WatchdogEntry) : AckedAs seq m (x :: h) := by
  obtain ⟨since, y, mid, z, older, cmd, rfl, rest⟩ := acked
  exact ⟨x :: since, y, mid, z, older, cmd, rfl, rest⟩

theorem sinceInstall_cons (x : WatchdogEntry) (h : List WatchdogEntry) (stays : remaps x = false) :
    sinceInstall (x :: h) = x :: sinceInstall h := by
  simp [sinceInstall, stays]

/-- The state of the watchdog against the history that led to it. -/
structure WatchdogInv (p : WatchdogParams) (h : List WatchdogEntry) (w : Watchdog) : Prop where
  inflightSeq : w.inflightSeq = w.seq
  epoch : w.offEpochActive = !fresh h
  seqs : ∀ y ∈ h, ∀ cmd, offOf y = some cmd → cmd.seq ≤ w.seq
  opened : ∀ since x older cmd, Opened h since x older cmd →
    cmd.seq = w.seq ∧ ∀ y ∈ older, ∀ c, offOf y = some c → c.seq < w.seq
  inflight : w.inflight = true → w.inflightMapping = some (w.current p) ∧
    ∃ y ∈ sinceInstall h, ∃ cmd, offOf y = some cmd ∧ cmd.seq = w.seq ∧ actuatorMapping cmd.mapping = w.current p
  confirmed : w.offConfirmedMapping.isSome = true → AckedAs w.seq (w.current p) (sinceInstall h)
  required : w.mappingOffRequired = false →
    (∀ x ∈ h, remaps x = false) ∨ ∃ seq, AckedAs seq (w.current p) (sinceInstall h)

/-- A call that emits nothing leaves the epoch that is open as it is. -/
theorem Opened.silent {h since older : List WatchdogEntry} {x y : WatchdogEntry} {cmd : OffCommand}
    (opened : Opened (y :: h) since x older cmd) (silent : offOf y = none) :
    ∃ since', since = y :: since' ∧ Opened h since' x older cmd := by
  rcases cons_split opened.split with ⟨_, rfl, _⟩ | ⟨since', rfl, rest⟩
  · rw [opened.off] at silent
    cases silent
  · refine ⟨since', rfl, rest, opened.off, opened.first, ?_⟩
    intro later z between same
    exact opened.newest (y :: later) z between (by rw [same]; rfl)

/-- The start: nothing has been sent. -/
theorem watchdogInv_start (p : WatchdogParams) : WatchdogInv p [] {} where
  inflightSeq := rfl
  epoch := rfl
  seqs := by simp
  opened since x older cmd opened := by simpa using opened.split
  inflight := by simp
  confirmed := by simp
  required := by simp

section Steps

variable {p : WatchdogParams} {h : List WatchdogEntry} {w : Watchdog}

theorem onAck_mapping (seq : Nat) (success : Bool) : (w.onAck p seq success).current p = w.current p := by
  simp only [Watchdog.onAck]
  repeat' split
  all_goals rfl

/-- A call that sends no OFF and keeps the mapping. -/
theorem WatchdogInv.quiet (inv : WatchdogInv p h w) {x : WatchdogEntry} (stays : remaps x = false) (silent : offOf x = none)
    {w' : Watchdog} (seqs : w'.seq = w.seq) (inflightSeqs : w'.inflightSeq = w.inflightSeq)
    (epoch : w'.offEpochActive = !fresh (x :: h)) (mapping : w'.current p = w.current p)
    (inflights : w'.inflight = true → w.inflight = true ∧ w'.inflightMapping = w.inflightMapping)
    (confirmed : w'.offConfirmedMapping.isSome = true →
      w.offConfirmedMapping.isSome = true ∨ AckedAs w.seq (w.current p) (x :: sinceInstall h))
    (required : w'.mappingOffRequired = false →
      w.mappingOffRequired = false ∨ AckedAs w.seq (w.current p) (x :: sinceInstall h)) :
    WatchdogInv p (x :: h) w' := by
  refine ⟨by rw [inflightSeqs, seqs, inv.inflightSeq], epoch, ?_, ?_, ?_, ?_, ?_⟩
  · intro y member cmd off
    rw [seqs]
    rcases List.mem_cons.mp member with rfl | member
    · rw [silent] at off
      cases off
    · exact inv.seqs y member cmd off
  · intro since y older cmd opened
    obtain ⟨since', _, before⟩ := opened.silent silent
    rw [seqs]
    exact inv.opened since' y older cmd before
  · intro busy
    obtain ⟨before, same⟩ := inflights busy
    obtain ⟨sent, y, member, rest⟩ := inv.inflight before
    rw [sinceInstall_cons x h stays, seqs, mapping, same]
    exact ⟨sent, y, List.mem_cons_of_mem _ member, rest⟩
  · intro proven
    rw [sinceInstall_cons x h stays, seqs, mapping]
    rcases confirmed proven with before | acked
    · exact (inv.confirmed before).later x
    · exact acked
  · intro clear
    rw [sinceInstall_cons x h stays, mapping]
    rcases required clear with before | acked
    · rcases inv.required before with never | ⟨q, acked⟩
      · exact .inl fun y member => (List.mem_cons.mp member).elim (fun same => same ▸ stays) (never y)
      · exact .inr ⟨q, acked.later x⟩
    · exact .inr ⟨w.seq, acked⟩

theorem ack_inv (inv : WatchdogInv p h w) (seq : Nat) (success : Bool) :
    WatchdogInv p (⟨.ack seq success, .quiet⟩ :: h) (w.onAck p seq success) := by
  have epoch : w.offEpochActive = !fresh (⟨.ack seq success, .quiet⟩ :: h) := inv.epoch
  simp only [Watchdog.onAck]
  split
  · exact inv.quiet rfl rfl rfl rfl epoch rfl (fun busy => ⟨busy, rfl⟩) .inl .inl
  · rename_i matched
    simp only [Bool.or_eq_true, Bool.not_eq_true', decide_eq_true_eq, not_or, Bool.not_eq_false, ne_eq, not_not] at matched
    obtain ⟨busy, rfl⟩ := matched
    split
    · rename_i proven
      obtain ⟨success, _⟩ := Bool.and_eq_true_iff.mp proven
      subst success
      -- the OFF on its way has this sequence number and the mapping in force
      have acked : AckedAs w.seq (w.current p) (⟨.ack w.inflightSeq true, .quiet⟩ :: sinceInstall h) := by
        obtain ⟨_, y, member, cmd, off, seqs, mapping⟩ := inv.inflight busy
        obtain ⟨mid, older, split⟩ := List.append_of_mem member
        rw [split, inv.inflightSeq]
        exact ⟨[], _, mid, y, older, cmd, rfl, rfl, off, seqs, mapping⟩
      exact inv.quiet rfl rfl rfl rfl epoch rfl nofun (fun _ => .inr acked) fun _ => .inr acked
    · exact inv.quiet rfl rfl rfl rfl epoch rfl nofun nofun .inl

theorem shutdown_inv (inv : WatchdogInv p h w) : WatchdogInv p (⟨.shutdown, .quiet⟩ :: h) w.beginShutdown :=
  inv.quiet rfl rfl rfl rfl inv.epoch rfl (fun busy => ⟨busy, rfl⟩) .inl .inl

/-- A lease that changes the mapping: the proof, the OFF on its way and the epoch are gone. -/
theorem WatchdogInv.remapped (inv : WatchdogInv p h w) {x : WatchdogEntry} (changes : remaps x = true) (silent : offOf x = none)
    {w' : Watchdog} (seqs : w'.seq = w.seq) (inflightSeqs : w'.inflightSeq = w.inflightSeq)
    (epoch : w'.offEpochActive = false) (idle : w'.inflight = false) (unproven : w'.offConfirmedMapping = none)
    (required : w'.mappingOffRequired = true) : WatchdogInv p (x :: h) w' := by
  refine ⟨by rw [inflightSeqs, seqs, inv.inflightSeq], ?_, ?_, ?_, ?_, ?_, ?_⟩
  · rw [epoch, fresh, changes, Bool.or_true, Bool.true_or]
    rfl
  · intro y member cmd off
    rw [seqs]
    rcases List.mem_cons.mp member with rfl | member
    · rw [silent] at off
      cases off
    · exact inv.seqs y member cmd off
  · intro since y older cmd opened
    obtain ⟨since', _, before⟩ := opened.silent silent
    rw [seqs]
    exact inv.opened since' y older cmd before
  · intro busy
    rw [idle] at busy
    cases busy
  · intro proven
    rw [unproven] at proven
    cases proven
  · intro clear
    rw [required] at clear
    cases clear

/-- What a lease does: a refused one leaves the mapping and permits nothing; an accepted one either changes
the mapping or leaves everything but the lease and the epoch. -/
theorem onLease_cases (w : Watchdog) (l : Lease) (now : ℚ) :
    let w' := w.onLease p l now
    (w'.current p ≠ w.current p ∧ w'.seq = w.seq ∧ w'.inflightSeq = w.inflightSeq ∧ w'.offEpochActive = false ∧
      w'.inflight = false ∧ w'.offConfirmedMapping = none ∧ w'.mappingOffRequired = true) ∨
    (w'.current p = w.current p ∧ w'.seq = w.seq ∧ w'.inflightSeq = w.inflightSeq ∧
      w'.offEpochActive = (!(w'.status p now).allowOn && w.offEpochActive) ∧ w'.inflight = w.inflight ∧
      w'.inflightMapping = w.inflightMapping ∧ w'.offConfirmedMapping = w.offConfirmedMapping ∧
      w'.mappingOffRequired = w.mappingOffRequired) := by
  intro w'
  cases valid : validateLease l with
  | some why =>
    right
    have same : w' = { w with mon := w.mon.invalidate ("invalid controller lease: " ++ why) false, nextOff := 0 } := by
      simp only [w', Watchdog.onLease, LeaseMonitor.observe, valid]
    have refused : (w'.status p now).allowOn = false := by
      have invalid : w'.mon.invalid = true := by rw [same]; rfl
      simp only [Watchdog.status, Watchdog.offRequired, LeaseMonitor.offReason, invalid, if_true, OffReason.required]
      cases w'.mon.shutdown <;> rfl
    refine ⟨by rw [same]; rfl, by rw [same], by rw [same], ?_, by rw [same], by rw [same], by rw [same], by rw [same]⟩
    rw [refused, same]
    rfl
  | none =>
    obtain ⟨t, made⟩ : ∃ t : Watchdog, t = { w with mon := (w.mon.observe l now).1 } := ⟨_, rfl⟩
    have new : t.current p = actuatorMapping l := by
      rw [made]
      simp only [Watchdog.current, Watchdog.mapping, LeaseMonitor.observe, valid, if_true]
    have reads : w' =
        let u :=
          if !sameActuatorMapping (w.current p) (t.current p) then
            { t with
              offConfirmedMapping := none, inflight := false, offEpochActive := false, inflightMapping := none
              mappingOffRequired := true, nextOff := 0, burstUntil := now + max 0 p.offBurstDuration }
          else t
        if !u.offRequired p now && !u.mappingOffRequired then { u with offEpochActive := false } else u := by
      rw [made]
      simp only [w', Watchdog.onLease, LeaseMonitor.observe, valid, Watchdog.current]
    cases test : sameActuatorMapping (w.current p) (t.current p) with
    | true =>
      right
      have mapping := sameActuatorMapping_eq test
      simp only [test, Bool.not_true, Bool.false_eq_true, if_false] at reads
      have allowed : (w'.status p now).allowOn = (!t.offRequired p now && !t.mappingOffRequired) := by
        rw [reads]
        split <;> rfl
      rw [allowed]
      split at reads
      · rename_i permitted
        rw [permitted, reads]
        exact ⟨mapping.symm, by rw [made], by rw [made], rfl, by rw [made], by rw [made], by rw [made], by rw [made]⟩
      · rename_i denied
        rw [Bool.eq_false_iff.mpr denied, reads]
        exact ⟨mapping.symm, by rw [made], by rw [made], by rw [made]; rfl, by rw [made], by rw [made], by rw [made], by rw [made]⟩
    | false =>
      left
      simp only [test, Bool.not_false, if_true, Bool.not_true, Bool.and_false, Bool.false_eq_true, if_false] at reads
      refine ⟨?_, by rw [reads, made], by rw [reads, made], by rw [reads], by rw [reads], by rw [reads], by rw [reads]⟩
      intro same
      have remains : w'.current p = t.current p := by rw [reads]; rfl
      rw [← same, remains, new, sameActuatorMapping_refl valid] at test
      cases test

theorem lease_inv (inv : WatchdogInv p h w) (l : Lease) (now : ℚ) :
    WatchdogInv p (⟨.lease l now, (watchdogStep p w (.lease l now)).2⟩ :: h) (w.onLease p l now) := by
  rcases onLease_cases (p := p) w l now with
    ⟨changed, seqs, inflightSeqs, epoch, idle, unproven, required⟩ |
    ⟨mapping, seqs, inflightSeqs, epoch, busy, sent, proof, required⟩
  · refine inv.remapped ?_ rfl seqs inflightSeqs epoch idle unproven required
    exact decide_eq_true (Ne.symm changed)
  · have stays : remaps ⟨.lease l now, (watchdogStep p w (.lease l now)).2⟩ = false := by
      simp only [watchdogStep, remaps, mapping, ne_eq, not_true, decide_false]
    refine inv.quiet stays rfl seqs inflightSeqs ?_ mapping ?_ ?_ ?_
    · rw [epoch, inv.epoch, fresh, stays]
      simp only [permits, watchdogStep, offOf, Option.isNone_none, Bool.or_false, Bool.true_and, Bool.not_or]
    · exact fun active => ⟨busy ▸ active, sent⟩
    · exact fun proven => .inl (proof ▸ proven)
    · exact fun clear => .inl (required ▸ clear)

/-- The part of a tick before the OFF: nothing but the timers, a proof that ran out, and the epoch. -/
structure Prepared (w c : Watchdog) (required : Bool) : Prop where
  mon : c.mon = w.mon
  seq : c.seq = w.seq
  inflightSeq : c.inflightSeq = w.inflightSeq
  mappingOffRequired : c.mappingOffRequired = w.mappingOffRequired
  epoch : c.offEpochActive = (required && w.offEpochActive)
  inflight : c.inflight = true → w.inflight = true ∧ c.inflightMapping = w.inflightMapping
  confirmed : c.offConfirmedMapping.isSome = true → w.offConfirmedMapping.isSome = true

theorem tick_prepared (w : Watchdog) (now : ℚ) : ∃ c : Watchdog,
    Prepared w c (w.offRequired p now || w.mappingOffRequired) ∧
      w.tick p now =
        if (w.offRequired p now || w.mappingOffRequired) && c.nextOff ≤ now then c.emit p now else (c, none) := by
  obtain ⟨a, expired⟩ : ∃ a : Watchdog, a = w.expire p now := ⟨_, rfl⟩
  have first : a.mon = w.mon ∧ a.seq = w.seq ∧ a.inflightSeq = w.inflightSeq ∧ a.mappingOffRequired = w.mappingOffRequired ∧
      a.offEpochActive = w.offEpochActive ∧ (a.inflight = true → w.inflight = true ∧ a.inflightMapping = w.inflightMapping) ∧
      (a.offConfirmedMapping.isSome = true → w.offConfirmedMapping.isSome = true) := by
    rw [expired, Watchdog.expire]
    split
    · exact ⟨rfl, rfl, rfl, rfl, rfl, nofun, nofun⟩
    · exact ⟨rfl, rfl, rfl, rfl, rfl, fun busy => ⟨busy, rfl⟩, id⟩
  obtain ⟨b, noted⟩ : ∃ b : Watchdog, b = a.noteCause p (a.mon.offReason p.leaseTimeout now) now := ⟨_, rfl⟩
  have second : b.mon = a.mon ∧ b.seq = a.seq ∧ b.inflightSeq = a.inflightSeq ∧ b.mappingOffRequired = a.mappingOffRequired ∧
      b.offEpochActive = a.offEpochActive ∧ b.inflight = a.inflight ∧ b.inflightMapping = a.inflightMapping ∧
      b.offConfirmedMapping = a.offConfirmedMapping := by
    rw [noted, Watchdog.noteCause]
    repeat' split
    all_goals exact ⟨rfl, rfl, rfl, rfl, rfl, rfl, rfl, rfl⟩
  obtain ⟨mon, seq, inflightSeq, mapping, epoch, inflight, confirmed⟩ := first
  obtain ⟨mon', seq', inflightSeq', mapping', epoch', busy, sent, proof⟩ := second
  have same : (a.mon.offReason p.leaseTimeout now).required = w.offRequired p now := by rw [mon]; rfl
  have needed : ((a.mon.offReason p.leaseTimeout now).required || b.mappingOffRequired) =
      (w.offRequired p now || w.mappingOffRequired) := by rw [same, mapping', mapping]
  obtain ⟨c, cleared⟩ : ∃ c : Watchdog, c =
      if !(w.offRequired p now || w.mappingOffRequired) then { b with offEpochActive := false } else b := ⟨_, rfl⟩
  have fields : c.mon = b.mon ∧ c.seq = b.seq ∧ c.inflightSeq = b.inflightSeq ∧ c.mappingOffRequired = b.mappingOffRequired ∧
      c.inflight = b.inflight ∧ c.inflightMapping = b.inflightMapping ∧ c.offConfirmedMapping = b.offConfirmedMapping := by
    rw [cleared]
    split <;> exact ⟨rfl, rfl, rfl, rfl, rfl, rfl, rfl⟩
  obtain ⟨mon'', seq'', inflightSeq'', mapping'', busy', sent', proof'⟩ := fields
  refine ⟨c, ⟨by rw [mon'', mon', mon], by rw [seq'', seq', seq], by rw [inflightSeq'', inflightSeq', inflightSeq],
    by rw [mapping'', mapping', mapping], ?_, ?_, ?_⟩, ?_⟩
  · rw [cleared]
    cases w.offRequired p now || w.mappingOffRequired with
    | true => simp only [Bool.not_true, Bool.false_eq_true, if_false, Bool.true_and, epoch', epoch]
    | false => rfl
  · rw [busy', busy, sent', sent]
    exact inflight
  · rw [proof', proof]
    exact confirmed
  · simp only [Watchdog.tick, ← expired, ← noted, needed, ← cleared]

theorem emit_spec (c : Watchdog) (now : ℚ) : ∃ cmd, (c.emit p now).2 = some cmd ∧ cmd.seq = (c.emit p now).1.inflightSeq ∧
    actuatorMapping cmd.mapping = c.current p ∧ (c.emit p now).1.mon = c.mon ∧
    (c.emit p now).1.mappingOffRequired = c.mappingOffRequired ∧ (c.emit p now).1.offEpochActive = true ∧
    (c.emit p now).1.inflightMapping = some (c.current p) ∧
    (c.offEpochActive = true → (c.emit p now).1.seq = c.seq ∧ (c.emit p now).1.inflightSeq = c.inflightSeq ∧
      (c.emit p now).1.offConfirmedMapping = c.offConfirmedMapping) ∧
    (c.offEpochActive = false → (c.emit p now).1.seq = c.seq + 1 ∧ (c.emit p now).1.inflightSeq = c.seq + 1 ∧
      (c.emit p now).1.offConfirmedMapping = none) := by
  cases epoch : c.offEpochActive with
  | true =>
    simp only [Watchdog.emit, epoch]
    exact ⟨_, rfl, rfl, rfl, rfl, rfl, epoch, rfl, fun _ => ⟨rfl, rfl, rfl⟩, nofun⟩
  | false =>
    simp only [Watchdog.emit, epoch]
    exact ⟨_, rfl, rfl, rfl, rfl, rfl, rfl, rfl, nofun, fun _ => ⟨rfl, rfl, rfl⟩⟩

theorem tick_inv (inv : WatchdogInv p h w) (now : ℚ) :
    WatchdogInv p (⟨.tick now, (watchdogStep p w (.tick now)).2⟩ :: h) (w.tick p now).1 := by
  obtain ⟨c, prepared, result⟩ := tick_prepared (p := p) w now
  have mapping : c.current p = w.current p := by rw [Watchdog.current, Watchdog.mapping, prepared.mon]; rfl
  obtain ⟨x, made⟩ : ∃ x : WatchdogEntry, x = ⟨.tick now, (watchdogStep p w (.tick now)).2⟩ := ⟨_, rfl⟩
  have stays : remaps x = false := by rw [made]; rfl
  rw [← made]
  split at result
  · rename_i due
    have needed := (Bool.and_eq_true_iff.mp due).1
    obtain ⟨cmd, off, seq, target, mon, required, epoch, sent, same, opens⟩ := emit_spec (p := p) c now
    generalize c.emit p now = r at result off seq mon required epoch sent same opens
    obtain ⟨t, out⟩ := r
    dsimp only at off seq mon required epoch sent same opens
    have sentNow : offOf x = some cmd := by
      rw [made]
      simp only [watchdogStep, offOf, result, off]
    have denied : permits x = false := by
      have still : t.offRequired p now = w.offRequired p now := by rw [Watchdog.offRequired, mon, prepared.mon]; rfl
      rw [made]
      simp only [watchdogStep, permits, result, Watchdog.status, still, required, prepared.mappingOffRequired]
      rw [← Bool.not_or, needed]
      rfl
    have current : t.current p = w.current p := by rw [Watchdog.current, Watchdog.mapping, mon, ← mapping]; rfl
    have active : c.offEpochActive = w.offEpochActive := by rw [prepared.epoch, needed, Bool.true_and]
    rw [result]
    dsimp only
    have numbers : t.inflightSeq = t.seq ∧ cmd.seq = t.seq ∧ w.seq ≤ t.seq ∧ (fresh h = true → w.seq < t.seq) ∧
        (fresh h = false → t.seq = w.seq) ∧
        (t.offConfirmedMapping.isSome = true → t.seq = w.seq ∧ w.offConfirmedMapping.isSome = true) := by
      cases before : fresh h with
      | false =>
        have running : c.offEpochActive = true := by rw [active, inv.epoch, before]; rfl
        obtain ⟨seqs, inflightSeqs, proof⟩ := same running
        have numbered : t.inflightSeq = t.seq := by
          rw [inflightSeqs, seqs, prepared.inflightSeq, prepared.seq, inv.inflightSeq]
        rw [prepared.seq] at seqs
        refine ⟨numbered, seq.trans numbered, by omega, nofun, fun _ => seqs, fun proven => ⟨seqs, ?_⟩⟩
        rw [proof] at proven
        exact prepared.confirmed proven
      | true =>
        have idle : c.offEpochActive = false := by rw [active, inv.epoch, before]; rfl
        obtain ⟨seqs, inflightSeqs, proof⟩ := opens idle
        have numbered : t.inflightSeq = t.seq := by rw [inflightSeqs, seqs]
        rw [prepared.seq] at seqs
        refine ⟨numbered, seq.trans numbered, by omega, fun _ => by omega, nofun, fun proven => ?_⟩
        rw [proof] at proven
        cases proven
    obtain ⟨numbered, cmdSeq, grows, opensNew, keepsOld, proofs⟩ := numbers
    refine ⟨numbered, ?_, ?_, ?_, ?_, ?_, ?_⟩
    · rw [epoch, fresh, denied, stays, sentNow]
      rfl
    · intro y member other otherOff
      rcases List.mem_cons.mp member with rfl | member
      · rw [sentNow] at otherOff
        obtain rfl := Option.some.inj otherOff
        exact cmdSeq.le
      · exact (inv.seqs y member other otherOff).trans grows
    · intro since y older other opened
      rcases cons_split opened.split with ⟨_, rfl, rfl⟩ | ⟨since', rfl, rest⟩
      · have same := opened.off
        rw [sentNow] at same
        obtain rfl := Option.some.inj same
        have later := opensNew opened.first
        exact ⟨cmdSeq, fun z member c off => (inv.seqs z member c off).trans_lt later⟩
      · have running : fresh h = false := by
          rw [rest]
          exact opened.newest [] x since' rfl (by rw [sentNow]; rfl)
        have before : Opened h since' y older other := by
          refine ⟨rest, opened.off, opened.first, fun later z between split => ?_⟩
          exact opened.newest (x :: later) z between (by rw [split]; rfl)
        rw [keepsOld running]
        exact inv.opened since' y older other before
    · intro _
      rw [sinceInstall_cons x h stays, current]
      refine ⟨by rw [sent, mapping], x, List.mem_cons_self, cmd, sentNow, cmdSeq, target.trans mapping⟩
    · intro proven
      obtain ⟨same, before⟩ := proofs proven
      rw [sinceInstall_cons x h stays, same, current]
      exact (inv.confirmed before).later x
    · intro clear
      rw [sinceInstall_cons x h stays, current]
      rw [required, prepared.mappingOffRequired] at clear
      rcases inv.required clear with never | ⟨q, acked⟩
      · exact .inl fun y member => (List.mem_cons.mp member).elim (fun same => same ▸ stays) (never y)
      · exact .inr ⟨q, acked.later x⟩
  · have silent : offOf x = none := by rw [made]; simp only [watchdogStep, offOf, result]
    have allowed : permits x = !(w.offRequired p now || w.mappingOffRequired) := by
      have still : c.offRequired p now = w.offRequired p now := by rw [Watchdog.offRequired, prepared.mon]; rfl
      rw [made]
      simp only [watchdogStep, permits, result, Watchdog.status, still, prepared.mappingOffRequired, Bool.not_or]
    rw [result]
    refine inv.quiet stays silent prepared.seq prepared.inflightSeq ?_ mapping prepared.inflight
      (fun proven => .inl (prepared.confirmed proven)) (fun clear => .inl (prepared.mappingOffRequired ▸ clear))
    rw [prepared.epoch, inv.epoch, fresh, allowed, stays, silent]
    cases w.offRequired p now || w.mappingOffRequired <;> cases fresh h <;> rfl

end Steps

theorem watchdog_inv {p : WatchdogParams} {h : List WatchdogEntry} {w : Watchdog} (run : Run (watchdogStep p) {} h w) :
    WatchdogInv p h w := by
  refine run.invariant (WatchdogInv p) (watchdogInv_start p) fun h w e inv _ => ?_
  cases e with
  | lease l now => exact lease_inv inv l now
  | ack seq success => exact ack_inv inv seq success
  | tick now => exact tick_inv inv now
  | shutdown => exact shutdown_inv inv

/-- An acknowledgement of the OFF that opened the epoch comes after that OFF. -/
theorem acked_since_opened {seq : Nat} {m : ActuatorMapping} {h since older : List WatchdogEntry} {x : WatchdogEntry}
    {cmd : OffCommand} (acked : AckedAs seq m h) (opened : Opened h since x older cmd)
    (below : ∀ y ∈ older, ∀ c, offOf y = some c → c.seq < seq) : ∃ y ∈ since, y.event = .ack seq true := by
  obtain ⟨after, y, mid, z, before, c, split, event, off, same, _⟩ := acked
  have notOlder : z ∉ older := fun member => absurd (below z member c off) (by omega)
  have both : since ++ x :: older = (after ++ y :: mid) ++ z :: before := by
    rw [← opened.split, split, List.append_assoc]
    rfl
  rcases List.append_eq_append_iff.mp both with ⟨rest, long, tail⟩ | ⟨rest, long, tail⟩
  · rcases cons_split tail with ⟨empty, _, _⟩ | ⟨rest', _, behind⟩
    · rw [empty, List.append_nil] at long
      exact ⟨y, by rw [← long]; simp, event⟩
    · exact absurd (by rw [behind]; simp) notOlder
  · exact ⟨y, by rw [long]; simp, event⟩

/-- In every run of leases, acknowledgements and ticks, with any times: authority is ready only on a success
for an OFF of the mapping in force, both after it was installed; when an OFF has opened an epoch its number is
new and authority is ready only after a success for that very number; and after a change of mapping ON is
permitted only once the new mapping's OFF has been acknowledged. -/
theorem authority_follows_mapping (p : WatchdogParams) {h : List WatchdogEntry} {w : Watchdog}
    (run : Run (watchdogStep p) {} h w) (now : ℚ) :
    ((w.status p now).offAuthorityReady = true → ∃ seq, AckedAs seq (w.current p) (sinceInstall h)) ∧
      (∀ since x older cmd, Opened h since x older cmd →
        (∀ y ∈ older, ∀ c, offOf y = some c → c.seq < cmd.seq) ∧
          ((w.status p now).offAuthorityReady = true → ∃ y ∈ since, y.event = .ack cmd.seq true)) ∧
      ((∃ x ∈ h, remaps x = true) → (w.status p now).allowOn = true → ∃ seq, AckedAs seq (w.current p) (sinceInstall h)) := by
  have inv := watchdog_inv run
  have proven : (w.status p now).offAuthorityReady = true → w.offConfirmedMapping.isSome = true := by
    intro ready
    simp only [Watchdog.status] at ready
    cases confirmed : w.offConfirmedMapping with
    | none => rw [confirmed] at ready; cases ready
    | some _ => rfl
  refine ⟨fun ready => ⟨w.seq, inv.confirmed (proven ready)⟩, fun since x older cmd opened => ?_, fun changed allowed => ?_⟩
  · obtain ⟨same, below⟩ := inv.opened since x older cmd opened
    rw [same]
    refine ⟨below, fun ready => ?_⟩
    have acked : AckedAs w.seq (w.current p) h := by
      obtain ⟨after, y, mid, z, before, c, split, rest⟩ := inv.confirmed (proven ready)
      refine ⟨after, y, mid, z, before ++ h.dropWhile (fun x => !remaps x), c, ?_, rest⟩
      calc
        h = sinceInstall h ++ h.dropWhile (fun x => !remaps x) := List.takeWhile_append_dropWhile.symm
        _ = after ++ y :: (mid ++ z :: (before ++ h.dropWhile (fun x => !remaps x))) := by
          rw [split]
          simp only [List.append_assoc, List.cons_append]
    exact acked_since_opened acked opened below
  · simp only [Watchdog.status, Bool.and_eq_true, Bool.not_eq_true'] at allowed
    rcases inv.required allowed.2 with never | acked
    · obtain ⟨x, member, remap⟩ := changed
      rw [never x member] at remap
      cases remap
    · exact acked

/-- The first OFF after a start is acknowledged. -/
theorem authority_after_first_ack : ∃ h w, Run (watchdogStep {}) {} h w ∧ (w.status {} 0).offAuthorityReady = true ∧
    ∃ seq, AckedAs seq (w.current {}) (sinceInstall h) := by
  have run : Run (watchdogStep {}) {} _ _ := exec_run [.tick 0, .ack 1 true] .start
  have ready : ((exec (watchdogStep {}) [] {} [.tick 0, .ack 1 true]).2.status {} 0).offAuthorityReady = true := by
    decide +kernel
  exact ⟨_, _, run, ready, (authority_follows_mapping {} run 0).1 ready⟩

end Dyx3.Spray
