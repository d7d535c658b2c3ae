import Dyx3.Px4Link.SprayCases

/-!
The watchdog's barrier: after a watchdog OFF no controller ON that was received before it goes out again. It holds
as long as each watchdog OFF finds the controller's newest ON as the epoch it retires, under an identity of source
system 1 (the one a received request is compared with), and repeats of that ON carry the same values.
-/

namespace Dyx3.Px4Link.SprayLink

open Lib

/-- The commands received, newest first. -/
def received : List Record → List SprayActuatorCommand
  | [] => []
  | x :: h => match x.event with
    | .command m _ => m :: received h
    | _ => received h

/-- A watchdog OFF that is received with the link up. -/
def LiveWatchdogOff : Event → Prop
  | .command m env => isWatchdogOff m = true ∧ env.linkOk = true
  | _ => False

instance : DecidablePred LiveWatchdogOff
  | .command m env => inferInstanceAs (Decidable (isWatchdogOff m = true ∧ env.linkOk = true))
  | .fcuAck .. | .service _ => inferInstanceAs (Decidable False)

/-- The commands that had been received when the newest live watchdog OFF came. -/
def overtaken : List Record → List SprayActuatorCommand
  | [] => []
  | x :: h => if LiveWatchdogOff x.event then received h else overtaken h

/-- The senders keep their order: a controller seq never decreases, and the watchdog only sends OFF. -/
def InOrder (h : List Record) : Event → Prop
  | .command m _ =>
    (m.source = sourceController → ∀ n ∈ received h, n.source = sourceController → n.seq ≤ m.seq) ∧
    (m.source = sourceWatchdog → m.on = false)
  | _ => True

/-- `n` is an ON and no controller command received is newer. -/
def NewestOn (h : List Record) (n : SprayActuatorCommand) : Prop :=
  isControllerOn n = true ∧ ∀ m ∈ received h, m.source = sourceController → m.seq ≤ n.seq

/-- A live watchdog OFF finds no controller ON waiting, and retires the newest one received: it is the controller's
epoch, under an identity of source system 1. -/
def Retires (h : List Record) (s : SprayLink) (m : SprayActuatorCommand) : Prop :=
  (∀ q ∈ s.queue, isControllerOn q.toSprayActuatorCommand = false) ∧
  ∀ n ∈ received h, NewestOn h n → translate m ≠ none ∧
    (s.epochs.lookup sourceController).any
      (fun e => e.on && e.seq = n.seq && e.vehicleCommand.sourceSystem = 1) = true

/-- A controller ON repeats the command that was overtaken under its seq. -/
def Repeats (h : List Record) (m : SprayActuatorCommand) : Prop :=
  ∀ n ∈ overtaken h, n.source = sourceController → n.seq = m.seq → n = m

def Covered (h : List Record) (s : SprayLink) : Event → Prop
  | .command m env => env.linkOk = true →
    (isWatchdogOff m = true → Retires h s m) ∧ (isControllerOn m = true → Repeats h m)
  | _ => True

/-- After a live watchdog OFF no VehicleCommand of a controller ON goes out whose seq was received before it. -/
def Barrier (h : List Record) : Prop :=
  ∀ later x earlier, h = later ++ x :: earlier → LiveWatchdogOff x.event →
    ∀ y ∈ later, ∀ w, .command w ∈ y.out → isControllerOn w.toSprayActuatorCommand = true →
      ∀ n ∈ received earlier, n.source = sourceController → n.seq ≠ w.seq

/-! ### The invariant -/

/-- A controller command under `seq` was overtaken by a watchdog OFF. -/
def Stale (h : List Record) (seq : Nat) : Prop := ∃ n ∈ overtaken h, n.source = sourceController ∧ n.seq = seq

/-- A received command as a request, before it is dispatched. -/
structure Formed (h : List Record) (q : SprayPending) : Prop where
  received : q.toSprayActuatorCommand ∈ received h
  translated : ∃ r, translate q.toSprayActuatorCommand = some r ∧ q.command = r.command ∧
    q.vehicleCommand = r.vehicleCommand

/-- The request that bars a stale ON: any repeat of it compares equal. -/
structure Retired (h : List Record) (b : SprayPending) : Prop where
  overtaken : b.toSprayActuatorCommand ∈ overtaken h
  controllerOn : isControllerOn b.toSprayActuatorCommand = true
  recognises : ∀ r, translate b.toSprayActuatorCommand = some r → sameSprayTransaction b r = true

structure Guards (h : List Record) (s : SprayLink) : Prop where
  formed : ∀ q ∈ s.queue, Formed h q
  epochs : ∀ source e, s.epochs.lookup source = some e → e.source = source ∧ ∃ q, Formed h q ∧ Carries q e
  fresh : ∀ q ∈ s.queue, isControllerOn q.toSprayActuatorCommand = true → ¬ Stale h q.seq
  barred : ∀ m ∈ overtaken h, isControllerOn m = true →
    (∃ n ∈ received h, n.source = sourceController ∧ m.seq < n.seq) ∨
    ∃ b, s.barredOn = some b ∧ b.seq = m.seq ∧ Retired h b

theorem received_cons (x : Record) (h : List Record) : received h ⊆ received (x :: h) := by
  intro m member
  simp only [received]
  split
  · exact List.mem_cons_of_mem _ member
  · exact member

theorem overtaken_received (h : List Record) : overtaken h ⊆ received h := by
  induction h with
  | nil => simp [overtaken]
  | cons x h ih =>
    unfold overtaken
    split
    · exact received_cons x h
    · exact fun m member => received_cons x h (ih member)

/-- What was overtaken stays overtaken. -/
theorem overtaken_cons (x : Record) (h : List Record) : overtaken h ⊆ overtaken (x :: h) := by
  show overtaken h ⊆ if LiveWatchdogOff x.event then received h else overtaken h
  split
  · exact overtaken_received h
  · exact fun _ member => member

theorem overtaken_append (later : List Record) {x : Record} {earlier : List Record} (live : LiveWatchdogOff x.event) :
    received earlier ⊆ overtaken (later ++ x :: earlier) := by
  induction later with
  | nil => simp [overtaken, live]
  | cons y later ih => exact fun m member => overtaken_cons y _ (ih member)

theorem Formed.keep {h : List Record} {q : SprayPending} (formed : Formed h q) (x : Record) : Formed (x :: h) q :=
  ⟨received_cons x h formed.received, formed.translated⟩

theorem Retired.keep {h : List Record} {b : SprayPending} (retired : Retired h b) (x : Record) : Retired (x :: h) b :=
  ⟨overtaken_cons x h retired.overtaken, retired.controllerOn, retired.recognises⟩

theorem guards_start (index : Nat) : Guards [] { tokens := .load index } :=
  ⟨by simp, by simp, by simp, by simp [overtaken]⟩

theorem isControllerOn_source {m : SprayActuatorCommand} (on : isControllerOn m = true) :
    m.source = sourceController ∧ m.on = true := by
  simpa [isControllerOn] using on

/-- A controller ON that passes the bar is not stale. -/
theorem fresh_of_admissible {h : List Record} {s : SprayLink} {m : SprayActuatorCommand} {env : Env} {r : SprayPending}
    (known : Guards h s) (inOrder : InOrder h (.command m env)) (covered : Covered h s (.command m env))
    (translated : translate m = some r) (linkOk : env.linkOk = true) (unbarred : s.barred r = false)
    (on : isControllerOn m = true) : ¬ Stale h m.seq := by
  rintro ⟨n, old, source, same⟩
  have repeats := (covered linkOk).2 on
  obtain rfl := repeats n old source same
  rcases known.barred n old on with ⟨newer, member, controller, later⟩ | ⟨b, bar, sameSeq, retired⟩
  · have bound := inOrder.1 source newer member controller
    omega
  · have message := repeats _ retired.overtaken (isControllerOn_source retired.controllerOn).1 sameSeq
    have recognised := retired.recognises r (message ▸ translated)
    have isOn : isControllerOn r.toSprayActuatorCommand = true := translate_message translated ▸ on
    simp [SprayLink.barred, isOn, bar, recognised] at unbarred

theorem translate_system {m : SprayActuatorCommand} {r : SprayPending} (translated : translate m = some r) :
    r.vehicleCommand.sourceSystem = 1 := by
  obtain ⟨wire, found, rfl⟩ := Option.map_eq_some_iff.mp translated
  unfold translateWire at found
  simp only at found
  split at found
  · cases found
    rfl
  split at found
  · cases found
    rfl
  · cases found

/-- A dispatched request under source system 1 compares equal to a new translation of its message. -/
theorem recognises_of_carries {h : List Record} {q e : SprayPending} (formed : Formed h q) (carries : Carries q e)
    (system : e.vehicleCommand.sourceSystem = 1) (r : SprayPending)
    (translated : translate e.toSprayActuatorCommand = some r) : sameSprayTransaction e r = true := by
  obtain ⟨r', translated', command, wire⟩ := formed.translated
  rw [← carries.message, translated] at translated'
  obtain rfl := Option.some.inj translated'
  have assigned : e.ackSystem = 1 := by
    rw [carries.wire] at system
    exact system
  refine sameSprayTransaction_iff.mpr ⟨(translate_message translated).symm, carries.command.trans command, ?_⟩
  rw [carries.wire, wire]
  simp [assigned, translate_system translated]

theorem new_formed {h : List Record} {s : SprayLink} {m : SprayActuatorCommand} {env : Env} {q : SprayPending}
    {out : List SprayOut} (new : s.New (.command m env) q) : Formed (⟨.command m env, out⟩ :: h) q := by
  have message := new.message
  obtain ⟨r, admissible, adopts⟩ := new
  exact ⟨by simp [received, message], r, by rw [message, admissible.translated], adopts.command, adopts.wire⟩

theorem formed_step {h : List Record} {s : SprayLink} {e : Event} {out : List SprayOut} {q : SprayPending}
    (known : Guards h s) (found : q ∈ s.queue ∨ s.New e q) : Formed (⟨e, out⟩ :: h) q := by
  rcases found with old | new
  · exact (known.formed q old).keep _
  · cases e with
    | command m env => exact new_formed new
    | fcuAck | service => exact new.elim

/-- A request in the queue or new to it is not a stale controller ON. -/
theorem fresh_found {h : List Record} {s : SprayLink} {e : Event} {q : SprayPending} (known : Guards h s)
    (inOrder : InOrder h e) (covered : Covered h s e) (found : q ∈ s.queue ∨ s.New e q)
    (on : isControllerOn q.toSprayActuatorCommand = true) : ¬ Stale h q.seq := by
  rcases found with old | new
  · exact known.fresh q old on
  · cases e with
    | command m env =>
      have message := new.message
      obtain ⟨r, admissible, _⟩ := new
      rw [message] at on ⊢
      exact fresh_of_admissible known inOrder covered admissible.translated admissible.linkOk admissible.unbarred on
    | fcuAck | service => exact new.elim

theorem stale_cons {h : List Record} {x : Record} {seq : Nat} (other : ¬ LiveWatchdogOff x.event) :
    Stale (x :: h) seq ↔ Stale h seq := by
  simp [Stale, overtaken, other]

theorem isWatchdogOff_not_controllerOn {m : SprayActuatorCommand} (off : isWatchdogOff m = true) :
    isControllerOn m = false := by
  simp only [isWatchdogOff, Bool.and_eq_true, Bool.not_eq_true'] at off
  simp [isControllerOn, off.2]

/-- A live watchdog OFF leaves the newest overtaken ON barred. -/
theorem barred_live {h : List Record} {s : SprayLink} {m n : SprayActuatorCommand} {env : Env} {out : List SprayOut}
    (known : Guards h s) (off : isWatchdogOff m = true) (linkOk : env.linkOk = true) (retires : Retires h s m)
    (old : n ∈ received h) (newest : NewestOn h n) :
    ∃ b, (s.onSprayCommand m env).1.barredOn = some b ∧ b.seq = n.seq ∧ Retired (⟨.command m env, out⟩ :: h) b := by
  obtain ⟨translatable, found⟩ := retires.2 n old newest
  simp only [Option.any_eq_true, Bool.and_eq_true, decide_eq_true_eq] at found
  obtain ⟨e, epoch, ⟨on, seq⟩, system⟩ := found
  obtain ⟨source, q, formed, carries⟩ := known.epochs _ e epoch
  refine ⟨e, ?_, seq, ?_, ?_, recognises_of_carries formed carries system⟩
  · rcases command_barredOn s m env with ⟨_, down | none | isOn⟩ | ⟨r, translated, _, _, bar⟩
    · rw [linkOk] at down
      cases down
    · exact absurd none translatable
    · rw [isWatchdogOff_not_controllerOn off] at isOn
      cases isOn
    · rw [bar, rebar_watchdogOff (by rw [translate_message translated]; exact off) epoch on]
  · have live : LiveWatchdogOff (.command m env) := ⟨off, linkOk⟩
    simp only [overtaken, live, if_true]
    rw [carries.message]
    exact formed.received
  · simp [isControllerOn, source, on]

/-- Between watchdog OFFs an overtaken ON stays barred, or the controller has moved on. -/
theorem barred_quiet {timeout : ℚ} {h : List Record} {s : SprayLink} {e : Event} {m : SprayActuatorCommand}
    (known : Guards h s) (inOrder : InOrder h e) (covered : Covered h s e) (other : ¬ LiveWatchdogOff e)
    (old : m ∈ overtaken h) (on : isControllerOn m = true) :
    (∃ n ∈ received (⟨e, (step timeout s e).2⟩ :: h), n.source = sourceController ∧ m.seq < n.seq) ∨
    ∃ b, (step timeout s e).1.barredOn = some b ∧ b.seq = m.seq ∧ Retired (⟨e, (step timeout s e).2⟩ :: h) b := by
  rcases known.barred m old on with ⟨n, member, newer⟩ | ⟨b, bar, seq, retired⟩
  · exact .inl ⟨n, received_cons _ h member, newer⟩
  have same : (step timeout s e).1.barredOn = s.barredOn → ∃ b, (step timeout s e).1.barredOn = some b ∧
      b.seq = m.seq ∧ Retired (⟨e, (step timeout s e).2⟩ :: h) b :=
    fun unchanged => ⟨b, unchanged.trans bar, seq, retired.keep _⟩
  cases e with
  | fcuAck a env => exact .inr (same (ack_barredOn s a env))
  | service env => exact .inr (same (service_barredOn s env timeout))
  | command n env =>
    rcases command_barredOn s n env with ⟨unchanged, _⟩ | ⟨r, translated, linkOk, unbarred, moved⟩
    · exact .inr (same unchanged)
    have message := translate_message translated
    have notOff : isWatchdogOff n = false := by
      cases off : isWatchdogOff n with
      | false => rfl
      | true => exact absurd ⟨off, linkOk⟩ other
    by_cases isOn : isControllerOn n = true
    · have source := (isControllerOn_source on).1
      have fresh := fresh_of_admissible known inOrder covered translated linkOk unbarred isOn
      have bound := inOrder.1 (isControllerOn_source isOn).1 m (overtaken_received h old) source
      have different : m.seq ≠ n.seq := fun equal => fresh ⟨m, old, source, equal⟩
      exact .inl ⟨n, by simp [received], (isControllerOn_source isOn).1, by omega⟩
    · refine .inr (same (moved.trans (rebar_other ?_ ?_)))
      · rw [message, notOff]
      · rw [message]
        simpa using isOn

theorem guards_step {h : List Record} {s : SprayLink} {e : Event} (timeout : ℚ) (known : Guards h s)
    (inOrder : InOrder h e) (covered : Covered h s e) :
    Guards (⟨e, (step timeout s e).2⟩ :: h) (step timeout s e).1 := by
  have flow := step_flow timeout s e
  refine ⟨fun q member => formed_step known (flow.queue q member), ?_, ?_, ?_⟩
  · intro source x found
    rcases flow.epochs source x found with old | ⟨_, same, q, found, carries⟩
    · obtain ⟨same, q, formed, carries⟩ := known.epochs source x old
      exact ⟨same, q, formed.keep _, carries⟩
    · exact ⟨same, q, formed_step known found, carries⟩
  · intro q member on
    by_cases live : LiveWatchdogOff e
    · -- The watchdog OFF found no controller ON in the queue, and it is none itself.
      rcases flow.queue q member with old | new
      · cases e with
        | command m env =>
          rw [((covered live.2).1 live.1).1 q old] at on
          cases on
        | fcuAck | service => exact live.elim
      · cases e with
        | command m env =>
          rw [new.message, isWatchdogOff_not_controllerOn live.1] at on
          cases on
        | fcuAck | service => exact live.elim
    · rw [stale_cons live]
      exact fresh_found known inOrder covered (flow.queue q member) on
  · intro m member on
    by_cases live : LiveWatchdogOff e
    · cases e with
      | command n env =>
        have old : m ∈ received h := by simpa [overtaken, live] using member
        by_cases newest : ∀ k ∈ received h, k.source = sourceController → k.seq ≤ m.seq
        · exact .inr (barred_live known live.1 live.2 ((covered live.2).1 live.1) old ⟨on, newest⟩)
        · push Not at newest
          obtain ⟨k, found, source, newer⟩ := newest
          exact .inl ⟨k, received_cons _ h found, source, newer⟩
      | fcuAck | service => exact live.elim
    · have old : m ∈ overtaken h := by simpa [overtaken, live] using member
      exact barred_quiet known inOrder covered live old on

/-- The controller ONs one call publishes are not stale. -/
def Published (x : Record) (earlier : List Record) : Prop :=
  ∀ w, .command w ∈ x.out → isControllerOn w.toSprayActuatorCommand = true → ¬ Stale earlier w.seq

theorem published_step {h : List Record} {s : SprayLink} {e : Event} (timeout : ℚ) (known : Guards h s)
    (inOrder : InOrder h e) (covered : Covered h s e) : Published ⟨e, (step timeout s e).2⟩ h := by
  intro w member on
  rcases (step_flow timeout s e).origin member with back | ⟨q, found, carries⟩
  · cases e with
    | command m env =>
      have message := back.message
      obtain ⟨r, admissible, _⟩ := back
      rw [message] at on ⊢
      exact fresh_of_admissible known inOrder covered admissible.translated admissible.linkOk admissible.unbarred on
    | fcuAck | service => exact back.elim
  · rw [carries.message] at on ⊢
    exact fresh_found known inOrder covered found on

theorem barrier_of_published {h : List Record} (all : Everywhere Published h) : Barrier h := by
  rintro later x earlier rfl live y member w sent on n old source same
  obtain ⟨newer, older, rfl⟩ := List.append_of_mem member
  rw [List.append_assoc] at all
  exact everywhere_split all w sent on ⟨n, overtaken_append older live old, source, same⟩

/-- In every run whose live watchdog OFFs retire the newest controller ON, from any ledger index. -/
theorem barrier_covered (timeout : ℚ) (index : Nat) {h : List Record} {s : SprayLink}
    (run : RunIf (step timeout) (fun h s e => InOrder h e ∧ Covered h s e) { tokens := .load index } h s) :
    Barrier h := by
  refine barrier_of_published (run.invariant (fun h s => Guards h s ∧ Everywhere Published h)
    ⟨guards_start index, trivial⟩ ?_).2
  rintro h s e ⟨known, all⟩ ⟨inOrder, covered⟩
  exact ⟨guards_step timeout known inOrder covered, published_step timeout known inOrder covered, all⟩

instance (h : List Record) : DecidablePred (InOrder h)
  | .command m _ => inferInstanceAs (Decidable
      ((m.source = sourceController → ∀ n ∈ received h, n.source = sourceController → n.seq ≤ m.seq) ∧
        (m.source = sourceWatchdog → m.on = false)))
  | .fcuAck .. | .service _ => inferInstanceAs (Decidable True)

instance (h : List Record) (n : SprayActuatorCommand) : Decidable (NewestOn h n) :=
  inferInstanceAs (Decidable (_ ∧ _))

instance (h : List Record) (s : SprayLink) (m : SprayActuatorCommand) : Decidable (Retires h s m) :=
  inferInstanceAs (Decidable (_ ∧ _))

instance (h : List Record) (m : SprayActuatorCommand) : Decidable (Repeats h m) :=
  inferInstanceAs (Decidable (∀ n ∈ overtaken h, n.source = sourceController → n.seq = m.seq → n = m))

instance (h : List Record) (s : SprayLink) : DecidablePred (Covered h s)
  | .command m env => inferInstanceAs (Decidable (env.linkOk = true →
      (isWatchdogOff m = true → Retires h s m) ∧ (isControllerOn m = true → Repeats h m)))
  | .fcuAck .. | .service _ => inferInstanceAs (Decidable True)

/-- An ON, a watchdog OFF that the FCU accepts under the ledger's second identity, and the ON again. -/
def reopened (index : Nat) : List Event :=
  let off := AckTokens.identityAt (index + 1)
  [.command { seq := 1, on := true, value := .fin 1 } {},
    .command { seq := 1, source := sourceWatchdog, on := false, value := .fin (-1) } {},
    .fcuAck ⟨cmdDoSetActuator, resultAccepted, off.system, off.component⟩ {},
    .command { seq := 1, on := true, value := .fin 1 } {}]

theorem barrier_covered_reopened :
    (exec (step (3 / 10)) [] { tokens := .load 0 } (reopened 0)).1.map (·.out.length) = [0, 1, 2, 1] ∧
    Barrier (exec (step (3 / 10)) [] { tokens := .load 0 } (reopened 0)).1 :=
  ⟨by decide +kernel, barrier_covered (3 / 10) 0 (exec_runIf (reopened 0) (by decide +kernel) .start)⟩

/-- With 998 identities already used, the retired ON carries source system 2 and its repeat is not recognised. -/
theorem barrier_fails_reopened :
    ¬ ∀ (timeout : ℚ) (index : Nat) (h : List Record) (s : SprayLink),
      RunIf (step timeout) (fun h _ e => InOrder h e) { tokens := .load index } h s → Barrier h := by
  intro all
  have barrier := all (3 / 10) 998 _ _ (exec_runIf (reopened 998) (by decide +kernel) .start)
  have published : ((exec (step (3 / 10)) [] { tokens := .load 998 } (reopened 998)).1.take 2).any (fun y =>
      y.out.any fun
        | .command w => isControllerOn w.toSprayActuatorCommand && w.seq = 1
        | .ack _ => false) = true := by decide +kernel
  obtain ⟨y, later, found⟩ := List.any_eq_true.mp published
  obtain ⟨out, sent, holds⟩ := List.any_eq_true.mp found
  cases out with
  | ack => cases holds
  | command w =>
    simp only [Bool.and_eq_true, decide_eq_true_eq] at holds
    exact barrier _ ((exec (step (3 / 10)) [] { tokens := .load 998 } (reopened 998)).1.drop 2 |>.head (by decide +kernel))
      ((exec (step (3 / 10)) [] { tokens := .load 998 } (reopened 998)).1.drop 3) (by decide +kernel) (by decide +kernel)
      y later w sent holds.1 { seq := 1, on := true, value := .fin 1 } (by decide +kernel) rfl holds.2.symm

end Dyx3.Px4Link.SprayLink
