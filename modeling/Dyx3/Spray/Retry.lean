import Dyx3.Spray.OnDiscipline
import Mathlib.Tactic.Linarith

/-!
`SpraySafetyStateMachine` never waits without a timer: a command that is not acknowledged times out, and a failed OFF is
sent again at its deadline.
-/

namespace Dyx3.Spray.Fsm

open Lib

def Event.time : Event → ℚ
  | .tick _ _ _ now => now
  | .ack _ _ now => now
  | .eventReset now => now

/-- `check_pending_timeout` acts: the request is that old. -/
def timesOut (p : FsmParams) (s : Fsm) (now : ℚ) : Bool := s.havePending && decide (p.ackTimeout ≤ now - s.pendingSince)

/-- The call assigns `recovery_deadline_`. -/
def assignsDeadline (p : FsmParams) (s : Fsm) : Event → Bool
  | .tick _ safetyOk enabled now =>
    let t := s.noteEnabled enabled
    (enabled && !safetyOk && t.prevSafetyOk && t.state = .recovery) ||
      (timesOut p (t.noteSafety enabled safetyOk now) now && t.state = .offPending)
  | .ack seq success _ => seq = s.seq && s.state = .offPending && !success
  | .eventReset _ => s.state = .recovery

/-- A call, answered with its command and whether it set the deadline. -/
def watched (p : FsmParams) (s : Fsm) (e : Event) : Fsm × (Option SprayCommand × Bool) :=
  ((step p s e).1, (step p s e).2, assignsDeadline p s e)

/-- The timers and flags that the state needs. -/
structure Wired (s : Fsm) : Prop where
  pending : s.havePending = true ↔ s.state = .onPending ∨ s.state = .offPending
  recovery : s.state = .recovery → s.haveDeadline = true
  disabled : s.disabled = !s.prevEnabled
  off : s.state = .disabled → s.prevEnabled = false

theorem wired_start : Wired {} := ⟨by simp, by simp, rfl, by simp⟩

theorem Wired.noteEnabled {s : Fsm} (wired : Wired s) (enabled : Bool) : Wired (s.noteEnabled enabled) := by
  obtain ⟨pending, recovery, disabled, off⟩ := wired
  unfold Fsm.noteEnabled
  cases enabled <;> cases previous : s.prevEnabled
  · exact ⟨pending, recovery, by simpa [previous] using disabled, fun _ => rfl⟩
  · exact ⟨pending, recovery, rfl, fun _ => rfl⟩
  · exact ⟨by simp, by simp, rfl, by simp⟩
  · refine ⟨pending, recovery, by simpa [previous] using disabled, fun isOff => ?_⟩
    rw [off isOff] at previous
    cases previous

theorem Wired.noteSafety {s : Fsm} (wired : Wired s) (enabled safetyOk : Bool) (now : ℚ) :
    Wired (s.noteSafety enabled safetyOk now) := by
  obtain ⟨pending, recovery, disabled, off⟩ := wired
  unfold Fsm.noteSafety
  split
  · split
    · exact ⟨pending, fun _ => rfl, disabled, off⟩
    · exact ⟨pending, recovery, disabled, off⟩
  · exact ⟨pending, recovery, disabled, off⟩

theorem Wired.dispatchOff {s : Fsm} (wired : Wired s) (force : Bool) (now : ℚ) : Wired (s.dispatchOff force now).1 :=
  ⟨by simp [Fsm.dispatchOff], by simp [Fsm.dispatchOff], wired.disabled, by simp [Fsm.dispatchOff]⟩

theorem Wired.dispatchOn {s : Fsm} (wired : Wired s) (now : ℚ) : Wired (s.dispatchOn now).1 :=
  ⟨by simp [Fsm.dispatchOn], by simp [Fsm.dispatchOn], wired.disabled, by simp [Fsm.dispatchOn]⟩

theorem Wired.enterRecovery {s : Fsm} (wired : Wired s) (p : FsmParams) (now : ℚ) : Wired (s.enterRecovery p now) :=
  ⟨by simp [Fsm.enterRecovery], fun _ => rfl, wired.disabled, by simp [Fsm.enterRecovery]⟩

/-- What a request that is too old becomes. -/
theorem checkPendingTimeout_eq {p : FsmParams} {s : Fsm} (wired : Wired s) (now : ℚ) :
    checkPendingTimeout p s now =
      if timesOut p s now then
        if s.state = .onPending then s.dispatchOff false now else (s.enterRecovery p now, none)
      else (s, none) := by
  unfold checkPendingTimeout timesOut
  cases present : s.havePending with
  | false => simp
  | true =>
    by_cases early : now - s.pendingSince < p.ackTimeout
    · simp [early, not_le.mpr early]
    · rcases wired.pending.mp present with state | state <;> simp [early, not_lt.mp early, state]

theorem Wired.checkPendingTimeout {p : FsmParams} {s : Fsm} (wired : Wired s) (now : ℚ) :
    Wired (checkPendingTimeout p s now).1 := by
  rw [checkPendingTimeout_eq wired]
  split
  · split
    · exact wired.dispatchOff false now
    · exact wired.enterRecovery p now
  · exact wired

theorem Wired.drive {s : Fsm} (wired : Wired s) (desired safetyOk : Bool) (now : ℚ) :
    Wired (s.drive desired safetyOk s.prevEnabled now).1 := by
  unfold Fsm.drive
  split
  · rename_i disabled
    unfold driveOffDisabled
    split
    · rename_i confirmed
      refine ⟨?_, by simp, wired.disabled, fun _ => by simpa using disabled⟩
      have idle := wired.pending
      simp only [confirmed] at idle
      simpa using idle
    · exact wired
    · exact wired
    · exact wired.dispatchOff true now
  · split
    · unfold driveOffSafety
      split
      · exact wired
      · exact wired
      · exact wired
      · split
        · exact wired.dispatchOff true now
        · exact wired
      all_goals exact wired.dispatchOff true now
    · unfold normalTick
      split
      · exact wired.dispatchOff false now
      · split
        · exact wired.dispatchOff false now
        · exact wired
      · split
        · exact wired.dispatchOn now
        · exact wired
      · split
        · exact wired
        · exact wired.dispatchOff false now
      · split
        · exact wired
        · exact wired.dispatchOff false now
      · exact wired
      · exact wired

/-- The edges of a tick. -/
def edges (s : Fsm) (safetyOk enabled : Bool) (now : ℚ) : Fsm := (s.noteEnabled enabled).noteSafety enabled safetyOk now

theorem Wired.edges {s : Fsm} (wired : Wired s) (safetyOk enabled : Bool) (now : ℚ) : Wired (s.edges safetyOk enabled now) :=
  (wired.noteEnabled enabled).noteSafety enabled safetyOk now

theorem edges_prevEnabled (s : Fsm) (safetyOk enabled : Bool) (now : ℚ) : (s.edges safetyOk enabled now).prevEnabled = enabled :=
  (edges_cases s enabled safetyOk now).2.1

theorem noteSafety_pendingSince (s : Fsm) (enabled safetyOk : Bool) (now : ℚ) :
    (s.noteSafety enabled safetyOk now).pendingSince = s.pendingSince := by
  unfold noteSafety
  split
  · split <;> rfl
  · rfl

theorem noteEnabled_kept {s : Fsm} {enabled : Bool} (kept : enabled = true → s.prevEnabled = true) :
    let t := s.noteEnabled enabled
    t.state = s.state ∧ t.seq = s.seq ∧ t.havePending = s.havePending ∧ t.pendingSince = s.pendingSince := by
  unfold noteEnabled
  cases enabled with
  | false => cases s.prevEnabled <;> simp
  | true => simp [kept rfl]

/-- Without the re-enabling edge the request stays as it is. -/
theorem edges_kept {s : Fsm} {enabled : Bool} (kept : enabled = true → s.prevEnabled = true) (safetyOk : Bool) (now : ℚ) :
    let t := s.edges safetyOk enabled now
    t.state = s.state ∧ t.seq = s.seq ∧ t.havePending = s.havePending ∧ t.pendingSince = s.pendingSince := by
  obtain ⟨state, seq, pending, since⟩ := noteEnabled_kept kept
  obtain ⟨state', seq', pending', -⟩ := noteSafety_fields (s.noteEnabled enabled) enabled safetyOk now
  have since' := noteSafety_pendingSince (s.noteEnabled enabled) enabled safetyOk now
  exact ⟨state'.trans state, seq'.trans seq, pending'.trans pending, since'.trans since⟩

theorem tick_eq {p : FsmParams} {s : Fsm} (wired : Wired s) (desired safetyOk enabled : Bool) (now : ℚ) :
    s.tick p desired safetyOk enabled now =
      let t := s.edges safetyOk enabled now
      if timesOut p t now then
        if t.state = .onPending then t.dispatchOff false now
        else (t.enterRecovery p now).drive desired safetyOk enabled now
      else t.drive desired safetyOk enabled now := by
  unfold tick
  rw [← edges, checkPendingTimeout_eq (wired.edges safetyOk enabled now)]
  simp only
  split
  · rename_i timedOut
    split at timedOut
    · rename_i late
      rw [if_pos late]
      split at timedOut
      · rename_i pending
        rw [if_pos pending, timedOut]
      · cases timedOut
    · cases timedOut
  · rename_i quiet
    split at quiet
    · rename_i late
      rw [if_pos late]
      split at quiet
      · cases quiet
      · rename_i other
        cases quiet
        rw [if_neg other]
    · rename_i early
      cases quiet
      rw [if_neg early]

theorem Wired.tick {p : FsmParams} {s : Fsm} (wired : Wired s) (desired safetyOk enabled : Bool) (now : ℚ) :
    Wired (s.tick p desired safetyOk enabled now).1 := by
  rw [tick_eq wired]
  have prev := edges_prevEnabled s safetyOk enabled now
  have after := wired.edges safetyOk enabled now
  simp only
  generalize s.edges safetyOk enabled now = t at prev after ⊢
  subst prev
  split
  · split
    · exact after.dispatchOff false now
    · exact (after.enterRecovery p now).drive desired safetyOk now
  · exact after.drive desired safetyOk now

theorem Wired.onAck {p : FsmParams} {s : Fsm} (wired : Wired s) (seq : Nat) (success : Bool) (now : ℚ) :
    Wired (s.onAck p seq success now).1 := by
  unfold Fsm.onAck
  split
  · exact wired
  split
  · split
    · exact ⟨by simp, by simp, wired.disabled, by simp⟩
    · exact wired.dispatchOff false now
  · split
    · have flag := wired.disabled
      refine ⟨by cases s.disabled <;> simp, by cases s.disabled <;> simp, wired.disabled, fun isOff => ?_⟩
      cases disabled : s.disabled with
      | false => simp [disabled] at isOff
      | true =>
        rw [disabled] at flag
        simpa using flag.symm
    · exact wired.enterRecovery p now
  · exact wired

theorem Wired.noteEventReset {s : Fsm} (wired : Wired s) (now : ℚ) : Wired (s.noteEventReset now) := by
  unfold Fsm.noteEventReset
  split
  · exact ⟨wired.pending, fun _ => rfl, wired.disabled, wired.off⟩
  · exact ⟨wired.pending, wired.recovery, wired.disabled, wired.off⟩

theorem Wired.step {p : FsmParams} {s : Fsm} (wired : Wired s) (e : Event) : Wired (step p s e).1 := by
  cases e with
  | tick desired safetyOk enabled now => exact wired.tick desired safetyOk enabled now
  | ack seq success now => exact wired.onAck seq success now
  | eventReset now => exact wired.noteEventReset now

/-! ### The deadline -/

/-- A machine in RECOVERY that is not driven out of it is left as it was. -/
theorem drive_recovery {s : Fsm} {desired safetyOk enabled : Bool} {now : ℚ}
    (recovering : (s.drive desired safetyOk enabled now).1.state = .recovery) :
    (s.drive desired safetyOk enabled now).1 = s ∧ s.state = .recovery := by
  obtain ⟨-, ⟨-, -, kept, -, -⟩ | ⟨_, -, -, sent⟩ | ⟨-, -, -, -, disabled⟩ | ⟨-, -, -, -, -, -, sent⟩⟩ :=
    drive_cases s desired safetyOk enabled now
  · have state := kept.symm.trans recovering
    refine ⟨?_, state⟩
    cases enabled with
    | false => simp [drive, driveOffDisabled, dispatchOff, state] at recovering
    | true =>
      by_cases due : s.haveDeadline = true ∧ s.recoveryDeadline ≤ now
      · cases safetyOk <;> simp [drive, driveOffSafety, normalTick, dispatchOff, state, due] at recovering
      · cases safetyOk <;> simp [drive, driveOffSafety, normalTick, state, due]
  · rw [sent] at recovering
    cases recovering
  · rw [disabled] at recovering
    cases recovering
  · rw [sent] at recovering
    cases recovering

theorem enterRecovery_deadline (p : FsmParams) (s : Fsm) (now : ℚ) :
    (s.enterRecovery p now).recoveryDeadline ≤ now + p.backoffMax :=
  add_le_add_right (min_le_right _ _) now

theorem noteEnabled_recovery {s : Fsm} {enabled : Bool} (recovering : (s.noteEnabled enabled).state = .recovery) :
    s.state = .recovery ∧ (s.noteEnabled enabled).recoveryDeadline = s.recoveryDeadline := by
  unfold noteEnabled at recovering ⊢
  cases enabled <;> cases previous : s.prevEnabled <;> simp_all

theorem edges_deadline {p : FsmParams} {s : Fsm} {desired safetyOk enabled : Bool} {now : ℚ}
    (recovering : (s.edges safetyOk enabled now).state = .recovery) (early : timesOut p (s.edges safetyOk enabled now) now = false) :
    (assignsDeadline p s (.tick desired safetyOk enabled now) = true ∧
      (0 ≤ p.backoffMax → (s.edges safetyOk enabled now).recoveryDeadline ≤ now + p.backoffMax)) ∨
    (assignsDeadline p s (.tick desired safetyOk enabled now) = false ∧ s.state = .recovery ∧
      (s.edges safetyOk enabled now).recoveryDeadline = s.recoveryDeadline) := by
  have state := (noteSafety_fields (s.noteEnabled enabled) enabled safetyOk now).1.symm.trans recovering
  obtain ⟨before, deadline⟩ := noteEnabled_recovery state
  rw [edges] at early
  have assigned : assignsDeadline p s (.tick desired safetyOk enabled now) =
      (enabled && !safetyOk && (s.noteEnabled enabled).prevSafetyOk) := by
    simp [assignsDeadline, early, state]
  rw [assigned, edges, noteSafety]
  split
  · rename_i lost
    exact .inl ⟨lost, fun positive => le_add_of_nonneg_right positive⟩
  · rename_i stays
    exact .inr ⟨by simpa using stays, before, deadline⟩

/-- Where a call ends in RECOVERY, it set the deadline, or it left the one that was there. -/
theorem step_deadline {p : FsmParams} {s : Fsm} (wired : Wired s) {e : Event}
    (recovering : (step p s e).1.state = .recovery) :
    (assignsDeadline p s e = true ∧ (0 ≤ p.backoffMax → (step p s e).1.recoveryDeadline ≤ e.time + p.backoffMax)) ∨
    (assignsDeadline p s e = false ∧ s.state = .recovery ∧ (step p s e).1.recoveryDeadline = s.recoveryDeadline) := by
  cases e with
  | tick desired safetyOk enabled now =>
    have after := wired.edges safetyOk enabled now
    simp only [step, tick_eq wired] at recovering ⊢
    by_cases late : timesOut p (s.edges safetyOk enabled now) now = true
    · rw [if_pos late] at recovering ⊢
      have requested : (s.edges safetyOk enabled now).havePending = true := (Bool.and_eq_true_iff.mp late).1
      rcases after.pending.mp requested with state | state
      · rw [if_pos state] at recovering
        cases recovering
      · rw [if_neg (by simp [state])] at recovering ⊢
        rw [(drive_recovery recovering).1]
        refine .inl ⟨?_, fun _ => enterRecovery_deadline p _ now⟩
        have pending := (noteSafety_fields (s.noteEnabled enabled) enabled safetyOk now).1.symm.trans state
        rw [edges] at late
        simp [assignsDeadline, late, pending]
    · rw [if_neg late] at recovering ⊢
      obtain ⟨same, state⟩ := drive_recovery recovering
      rw [same]
      exact edges_deadline state (by simpa using late)
  | ack seq success now =>
    simp only [step, onAck] at recovering ⊢
    by_cases same : seq = s.seq
    · rw [if_neg (not_not.mpr same)] at recovering ⊢
      cases state : s.state with
      | offPending =>
        cases success with
        | true =>
          cases disabled : s.disabled <;> simp [disabled, state] at recovering
        | false =>
          exact .inl ⟨by simp [assignsDeadline, same, state], fun _ => enterRecovery_deadline p s now⟩
      | onPending =>
        cases success <;> simp [state, dispatchOff] at recovering
      | recovery => exact .inr ⟨by simp [assignsDeadline, state], rfl, rfl⟩
      | _ => simp [state] at recovering
    · rw [if_pos same] at recovering ⊢
      exact .inr ⟨by simp [assignsDeadline, same], recovering, rfl⟩
  | eventReset now =>
    simp only [step, noteEventReset] at recovering ⊢
    split
    · rename_i state
      exact .inl ⟨by simp [assignsDeadline, state], fun positive => le_add_of_nonneg_right positive⟩
    · rename_i state
      rw [if_neg state] at recovering
      exact absurd recovering state

/-! ### What becomes due -/

/-- The answer is a new OFF. -/
def SendsOff (s : Fsm) (out : Option SprayCommand) : Prop := ∃ force, out = some ⟨false, s.seq + 1, force⟩

theorem tick_reenabled (p : FsmParams) {s : Fsm} {enabled : Bool} (edge : ¬ (enabled = true → s.prevEnabled = true))
    (desired safetyOk : Bool) (now : ℚ) : SendsOff s (s.tick p desired safetyOk enabled now).2 ∧ s.prevEnabled = false := by
  obtain ⟨rfl, off⟩ := Classical.not_imp.mp edge
  have previous : s.prevEnabled = false := by simpa using off
  exact ⟨(tick_spec p s desired safetyOk true now).reenable desired safetyOk now rfl previous, previous⟩

theorem edges_late {p : FsmParams} {s : Fsm} (wired : Wired s) {enabled : Bool} (kept : enabled = true → s.prevEnabled = true)
    (safetyOk : Bool) {now : ℚ} (requested : s.state = .onPending ∨ s.state = .offPending) (late : s.pendingSince + p.ackTimeout ≤ now) :
    timesOut p (s.edges safetyOk enabled now) now = true := by
  obtain ⟨-, -, pending, since⟩ := edges_kept kept safetyOk now
  rw [timesOut, pending, since, wired.pending.mpr requested, Bool.true_and, decide_eq_true_eq]
  linarith

theorem tick_late_on {p : FsmParams} {s : Fsm} (wired : Wired s) (state : s.state = .onPending) {now : ℚ}
    (late : s.pendingSince + p.ackTimeout ≤ now) (desired safetyOk enabled : Bool) :
    SendsOff s (s.tick p desired safetyOk enabled now).2 := by
  by_cases kept : enabled = true → s.prevEnabled = true
  · obtain ⟨same, seq, -, -⟩ := edges_kept kept safetyOk now
    rw [tick_eq wired]
    simp only [edges_late wired kept safetyOk (.inl state) late, same.trans state, if_true]
    exact ⟨false, by rw [← seq]; rfl⟩
  · exact (tick_reenabled p kept desired safetyOk now).1

/-- A machine in RECOVERY sends the OFF again when it is due, or at once while disabled. -/
theorem drive_due {s : Fsm} (state : s.state = .recovery) (armed : s.haveDeadline = true) {enabled : Bool} {now : ℚ}
    (due : enabled = false ∨ s.recoveryDeadline ≤ now) (desired safetyOk : Bool) :
    SendsOff s (s.drive desired safetyOk enabled now).2 := by
  cases enabled with
  | false => exact ⟨true, by simp [drive, driveOffDisabled, dispatchOff, state]⟩
  | true =>
    have passed : s.recoveryDeadline ≤ now := by simpa using due
    cases safetyOk with
    | false => exact ⟨true, by simp [drive, driveOffSafety, dispatchOff, state, armed, passed]⟩
    | true => exact ⟨false, by simp [drive, normalTick, dispatchOff, state, armed, passed]⟩

theorem drive_waits {s : Fsm} (state : s.state = .recovery) {now : ℚ} (early : now < s.recoveryDeadline) (desired safetyOk : Bool) :
    s.drive desired safetyOk true now = (s, none) := by
  cases safetyOk <;> simp [drive, driveOffSafety, normalTick, state, early]

theorem enterRecovery_due {p : FsmParams} {s : Fsm} {now : ℚ} (due : (s.enterRecovery p now).recoveryDeadline ≤ now) :
    p.backoffBase ≤ 0 ∨ p.backoffMax ≤ 0 := by
  have least : min (p.backoffBase * 2 ^ s.recoveryAttempt) p.backoffMax ≤ 0 := by
    simpa [enterRecovery] using due
  rcases min_le_iff.mp least with base | max
  · have power : (0 : ℚ) < 2 ^ s.recoveryAttempt := by positivity
    exact .inl (nonpos_of_mul_nonpos_left base power)
  · exact .inr max

theorem tick_late_off {p : FsmParams} {s : Fsm} (wired : Wired s) (state : s.state = .offPending) {now : ℚ}
    (late : s.pendingSince + p.ackTimeout ≤ now) (desired safetyOk enabled : Bool) :
    ((s.tick p desired safetyOk enabled now).2 = none ∧ (s.tick p desired safetyOk enabled now).1.state = .recovery) ∨
    (SendsOff s (s.tick p desired safetyOk enabled now).2 ∧
      (enabled = false ∨ s.prevEnabled = false ∨ p.backoffBase ≤ 0 ∨ p.backoffMax ≤ 0)) := by
  by_cases kept : enabled = true → s.prevEnabled = true
  · obtain ⟨same, seq, -, -⟩ := edges_kept kept safetyOk now
    have other : (s.edges safetyOk enabled now).state ≠ .onPending := by simp [same.trans state]
    have recovered : (enterRecovery p (s.edges safetyOk enabled now) now).seq = s.seq := seq
    rw [tick_eq wired]
    simp only [edges_late wired kept safetyOk (.inr state) late, other, if_true, if_false]
    generalize entered : enterRecovery p (s.edges safetyOk enabled now) now = t at recovered ⊢
    have due := @enterRecovery_due p (s.edges safetyOk enabled now) now
    have armed : t.state = .recovery ∧ t.haveDeadline = true := by
      rw [← entered]
      exact ⟨rfl, rfl⟩
    rw [entered] at due
    by_cases now' : enabled = false ∨ t.recoveryDeadline ≤ now
    · obtain ⟨force, sent⟩ := drive_due armed.1 armed.2 now' desired safetyOk
      refine .inr ⟨⟨force, by rw [sent, recovered]⟩, ?_⟩
      rcases now' with disabled | passed
      · exact .inl disabled
      · exact .inr (.inr (due passed))
    · obtain ⟨on, early⟩ := not_or.mp now'
      have enabled' : enabled = true := by simpa using on
      rw [enabled', drive_waits armed.1 (not_le.mp early)]
      exact .inl ⟨rfl, armed.1⟩
  · obtain ⟨sends, previous⟩ := tick_reenabled p kept desired safetyOk now
    exact .inr ⟨sends, .inr (.inl previous)⟩

theorem edges_due {s : Fsm} {now : ℚ} (due : s.recoveryDeadline ≤ now) (safetyOk enabled : Bool) :
    (s.edges safetyOk enabled now).recoveryDeadline ≤ now := by
  have same : (s.noteEnabled enabled).recoveryDeadline = s.recoveryDeadline := by
    unfold noteEnabled
    split
    · rfl
    · split <;> rfl
  unfold edges noteSafety
  split
  · split
    · exact le_rfl
    · exact same ▸ due
  · exact same ▸ due

/-- Without a request, a tick on which no edge restarts the machine drives it from where it is. -/
theorem tick_idle {p : FsmParams} {s : Fsm} (wired : Wired s) (idle : ¬ (s.state = .onPending ∨ s.state = .offPending))
    {enabled : Bool} (kept : enabled = true → s.prevEnabled = true) (desired safetyOk : Bool) (now : ℚ) :
    s.tick p desired safetyOk enabled now = (s.edges safetyOk enabled now).drive desired safetyOk enabled now := by
  have none : s.havePending = false := by
    simpa using mt wired.pending.mp idle
  have early : timesOut p (s.edges safetyOk enabled now) now = false := by
    rw [timesOut, (edges_kept kept safetyOk now).2.2.1, none, Bool.false_and]
  rw [tick_eq wired]
  simp only [early, Bool.false_eq_true, if_false]

theorem tick_retry {p : FsmParams} {s : Fsm} (wired : Wired s) (state : s.state = .recovery) {enabled : Bool} {now : ℚ}
    (due : enabled = false ∨ s.recoveryDeadline ≤ now) (desired safetyOk : Bool) :
    SendsOff s (s.tick p desired safetyOk enabled now).2 := by
  by_cases kept : enabled = true → s.prevEnabled = true
  · obtain ⟨same, seq, -, -⟩ := edges_kept kept safetyOk now
    have armed := (wired.edges safetyOk enabled now).recovery (same.trans state)
    have due' := due.imp_right fun passed => edges_due passed safetyOk enabled
    obtain ⟨force, sent⟩ := drive_due (same.trans state) armed due' desired safetyOk
    rw [tick_idle wired (by simp [state]) kept]
    exact ⟨force, by rw [sent, seq]⟩
  · exact (tick_reenabled p kept desired safetyOk now).1

theorem tick_unconfirmed {p : FsmParams} {s : Fsm} (wired : Wired s) (state : s.state = .offUnconfirmed)
    (desired safetyOk enabled : Bool) (now : ℚ) : SendsOff s (s.tick p desired safetyOk enabled now).2 := by
  by_cases kept : enabled = true → s.prevEnabled = true
  · obtain ⟨same, seq, -, -⟩ := edges_kept kept safetyOk now
    have still := same.trans state
    rw [tick_idle wired (by simp [state]) kept, SendsOff, ← seq]
    cases enabled with
    | false => exact ⟨true, by simp [drive, driveOffDisabled, dispatchOff, still]⟩
    | true =>
      cases safetyOk with
      | false => exact ⟨true, by simp [drive, driveOffSafety, dispatchOff, still]⟩
      | true => exact ⟨false, by simp [drive, normalTick, dispatchOff, still]⟩
  · exact (tick_reenabled p kept desired safetyOk now).1

/-! ### Whole runs -/

abbrev Watched := Entry Event (Option SprayCommand × Bool)

def IsTick (x : Watched) : Prop := ∃ desired safetyOk enabled now, x.event = .tick desired safetyOk enabled now

/-- No state with an unconfirmed valve waits for nothing. -/
structure Scheduled (p : FsmParams) (h : List Watched) (s : Fsm) : Prop where
  pending : s.state = .onPending ∨ s.state = .offPending ↔ s.havePending = true
  recovery : s.state = .recovery → s.haveDeadline = true ∧
    ∃ since x, Latest (fun y => y.out.2 = true) h since x ∧ (0 ≤ p.backoffMax → s.recoveryDeadline ≤ x.event.time + p.backoffMax)
  disabled : s.state = .disabled →
    ∃ since x desired safetyOk now, Latest IsTick h since x ∧ x.event = .tick desired safetyOk false now
  lateOn : ∀ desired safetyOk enabled now, s.state = .onPending → s.pendingSince + p.ackTimeout ≤ now →
    SendsOff s (s.tick p desired safetyOk enabled now).2
  lateOff : ∀ desired safetyOk enabled now, s.state = .offPending → s.pendingSince + p.ackTimeout ≤ now →
    ((s.tick p desired safetyOk enabled now).2 = none ∧ (s.tick p desired safetyOk enabled now).1.state = .recovery) ∨
    (SendsOff s (s.tick p desired safetyOk enabled now).2 ∧
      (enabled = false ∨ s.prevEnabled = false ∨ p.backoffBase ≤ 0 ∨ p.backoffMax ≤ 0))
  retry : ∀ desired safetyOk enabled now, s.state = .recovery → enabled = false ∨ s.recoveryDeadline ≤ now →
    SendsOff s (s.tick p desired safetyOk enabled now).2
  unconfirmed : ∀ desired safetyOk enabled now, s.state = .offUnconfirmed → SendsOff s (s.tick p desired safetyOk enabled now).2

/-- What the history says about the timers. -/
structure Timed (p : FsmParams) (h : List Watched) (s : Fsm) : Prop where
  wired : Wired s
  deadline : s.state = .recovery →
    ∃ since x, Latest (fun y => y.out.2 = true) h since x ∧ (0 ≤ p.backoffMax → s.recoveryDeadline ≤ x.event.time + p.backoffMax)
  enabled : s.prevEnabled = false →
    ∃ since x desired safetyOk now, Latest IsTick h since x ∧ x.event = .tick desired safetyOk false now

theorem timed_step {p : FsmParams} {h : List Watched} {s : Fsm} (timed : Timed p h s) (e : Event) :
    Timed p (⟨e, (watched p s e).2⟩ :: h) (watched p s e).1 := by
  refine ⟨timed.wired.step e, fun recovering => ?_, fun off => ?_⟩
  · rcases step_deadline timed.wired recovering with ⟨set, bound⟩ | ⟨kept, before, same⟩
    · exact ⟨[], _, .new h set, bound⟩
    · obtain ⟨since, x, latest, bound⟩ := timed.deadline before
      refine ⟨_, x, latest.keep ?_, fun positive => ?_⟩
      · simp [watched, kept]
      · rw [watched, same]
        exact bound positive
  · have now := (step_spec p s e).enabled
    cases e with
    | tick desired safetyOk enabled time =>
      obtain rfl : enabled = false := now.symm.trans off
      exact ⟨[], _, desired, safetyOk, time, .new h ⟨desired, safetyOk, false, time, rfl⟩, rfl⟩
    | ack seq success time =>
      obtain ⟨since, x, desired, safetyOk, before, latest, event⟩ := timed.enabled (now.symm.trans off)
      exact ⟨_, x, desired, safetyOk, before, latest.keep (by simp [IsTick]), event⟩
    | eventReset time =>
      obtain ⟨since, x, desired, safetyOk, before, latest, event⟩ := timed.enabled (now.symm.trans off)
      exact ⟨_, x, desired, safetyOk, before, latest.keep (by simp [IsTick]), event⟩

theorem Timed.scheduled {p : FsmParams} {h : List Watched} {s : Fsm} (timed : Timed p h s) : Scheduled p h s where
  pending := timed.wired.pending.symm
  recovery state := ⟨timed.wired.recovery state, timed.deadline state⟩
  disabled state := timed.enabled (timed.wired.off state)
  lateOn desired safetyOk enabled _ state late := tick_late_on timed.wired state late desired safetyOk enabled
  lateOff desired safetyOk enabled _ state late := tick_late_off timed.wired state late desired safetyOk enabled
  retry desired safetyOk _ _ state due := tick_retry timed.wired state due desired safetyOk
  unconfirmed desired safetyOk enabled now state := tick_unconfirmed timed.wired state desired safetyOk enabled now

theorem run_scheduled (p : FsmParams) {h : List Watched} {s : Fsm} (run : Run (watched p) {} h s) : Scheduled p h s := by
  refine (run.invariant (Timed p) ⟨wired_start, by simp, by simp⟩ ?_).scheduled
  intro h s e timed _
  exact timed_step timed e

/-- An OFF that is never acknowledged, then the switch: the late request is not left to RECOVERY but replaced. -/
theorem late_off_disabled :
    let s := (exec (watched {}) [] {} [.tick false true true 0]).2
    s.state = .offPending ∧ s.pendingSince + 1 ≤ 1 ∧ s.prevEnabled = true ∧
      (s.tick {} false true false 1).1.state = .offPending ∧ (s.tick {} false true false 1).2 = some ⟨false, 2, true⟩ := by
  decide +kernel

/-- The same in the words of a run. -/
theorem run_scheduled_late :
    Scheduled {} (exec (watched {}) [] {} [.tick false true true 0, .tick false true true 1]).1
      (exec (watched {}) [] {} [.tick false true true 0, .tick false true true 1]).2 :=
  run_scheduled {} (exec_run _ .start)

end Dyx3.Spray.Fsm
