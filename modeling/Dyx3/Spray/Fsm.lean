import Mathlib.Data.Rat.Defs
import Mathlib.Algebra.Order.Ring.Rat
import Dyx3.Lib.Run

/-!
`SpraySafetyStateMachine` (dyx3_spray/spray_fsm): the actuator command state machine of the spray
controller. All times are seconds the caller passes in. `cmd_seq` is monotonic by the contract of
`SprayActuatorCommand`; it is a `Nat` here (the field is a `uint32`).
-/

namespace Dyx3.Spray

open Lib

inductive SprayState where
  | offUnconfirmed | offConfirmed | onPending | onConfirmed | offPending | recovery | disabled
  deriving DecidableEq, Repr

structure SprayCommand where
  on : Bool
  seq : Nat
  force : Bool
  deriving DecidableEq, Repr

structure FsmParams where
  backoffBase : ℚ := 1 / 2
  backoffMax : ℚ := 5
  ackTimeout : ℚ := 1

structure Fsm where
  state : SprayState := .offUnconfirmed
  seq : Nat := 0
  havePending : Bool := false
  pendingSince : ℚ := 0
  disabled : Bool := false
  recoveryAttempt : Nat := 0
  haveDeadline : Bool := false
  recoveryDeadline : ℚ := 0
  prevEnabled : Bool := true
  prevSafetyOk : Bool := true
  deriving DecidableEq

namespace Fsm

def spraying (s : Fsm) : Bool := s.state = .onConfirmed

def commanded (s : Fsm) : Bool := s.state = .onPending ∨ s.state = .onConfirmed

def dispatchOff (s : Fsm) (force : Bool) (now : ℚ) : Fsm × Option SprayCommand :=
  ({ s with seq := s.seq + 1, state := .offPending, havePending := true, pendingSince := now },
    some ⟨false, s.seq + 1, force⟩)

def dispatchOn (s : Fsm) (now : ℚ) : Fsm × Option SprayCommand :=
  ({ s with seq := s.seq + 1, state := .onPending, havePending := true, pendingSince := now },
    some ⟨true, s.seq + 1, false⟩)

def enterRecovery (p : FsmParams) (s : Fsm) (now : ℚ) : Fsm :=
  { s with
    recoveryDeadline := now + min (p.backoffBase * 2 ^ s.recoveryAttempt) p.backoffMax
    haveDeadline := true
    recoveryAttempt := s.recoveryAttempt + 1
    state := .recovery
    havePending := false }

def checkPendingTimeout (p : FsmParams) (s : Fsm) (now : ℚ) : Fsm × Option SprayCommand :=
  if !s.havePending then (s, none)
  else if now - s.pendingSince < p.ackTimeout then (s, none)
  else match s.state with
    | .onPending => s.dispatchOff false now  -- never latch an unconfirmed ON
    | .offPending => (s.enterRecovery p now, none)
    | _ => ({ s with havePending := false }, none)

def normalTick (s : Fsm) (desired : Bool) (now : ℚ) : Fsm × Option SprayCommand :=
  match s.state with
  | .offUnconfirmed => s.dispatchOff false now
  | .recovery => if s.haveDeadline && s.recoveryDeadline ≤ now then s.dispatchOff false now else (s, none)
  | .offConfirmed => if desired then s.dispatchOn now else (s, none)
  | .onPending | .onConfirmed => if desired then (s, none) else s.dispatchOff false now
  | .offPending | .disabled => (s, none)

def driveOffDisabled (s : Fsm) (now : ℚ) : Fsm × Option SprayCommand :=
  match s.state with
  | .offConfirmed => ({ s with state := .disabled }, none)
  | .disabled | .offPending => (s, none)
  | _ => s.dispatchOff true now

def driveOffSafety (s : Fsm) (now : ℚ) : Fsm × Option SprayCommand :=
  match s.state with
  | .offConfirmed | .disabled | .offPending => (s, none)
  | .recovery => if s.haveDeadline && s.recoveryDeadline ≤ now then s.dispatchOff true now else (s, none)
  | .onPending | .onConfirmed | .offUnconfirmed => s.dispatchOff true now

/-- The enabled edges, handled before any ON dispatch is considered. -/
def noteEnabled (s : Fsm) (enabled : Bool) : Fsm :=
  if !enabled && s.prevEnabled then
    { s with prevEnabled := enabled, disabled := true, recoveryAttempt := 0 }
  else if enabled && !s.prevEnabled then
    { s with
      prevEnabled := enabled, disabled := false, state := .offUnconfirmed, recoveryAttempt := 0
      haveDeadline := false, havePending := false }
  else { s with prevEnabled := enabled }

/-- The safety-loss edge: the retry of a machine in RECOVERY becomes due at once. -/
def noteSafety (s : Fsm) (enabled safetyOk : Bool) (now : ℚ) : Fsm :=
  if enabled && !safetyOk && s.prevSafetyOk then
    if s.state = .recovery then
      { s with prevSafetyOk := safetyOk, recoveryAttempt := 0, haveDeadline := true, recoveryDeadline := now }
    else { s with prevSafetyOk := safetyOk, recoveryAttempt := 0 }
  else { s with prevSafetyOk := safetyOk }

/-- The last part of a tick, reached when no pending command timed out into a new OFF. -/
def drive (s : Fsm) (desired safetyOk enabled : Bool) (now : ℚ) : Fsm × Option SprayCommand :=
  if !enabled then s.driveOffDisabled now
  else if !safetyOk then s.driveOffSafety now
  else s.normalTick desired now

def tick (p : FsmParams) (s : Fsm) (desired safetyOk enabled : Bool) (now : ℚ) : Fsm × Option SprayCommand :=
  match checkPendingTimeout p ((s.noteEnabled enabled).noteSafety enabled safetyOk now) now with
  | (s, some command) => (s, some command)
  | (s, none) => s.drive desired safetyOk enabled now

def onAck (p : FsmParams) (s : Fsm) (seq : Nat) (success : Bool) (now : ℚ) : Fsm × Option SprayCommand :=
  if seq ≠ s.seq then (s, none)
  else match s.state with
    | .onPending =>
      if success then ({ s with havePending := false, state := .onConfirmed }, none)
      else s.dispatchOff false now  -- a failed ON is never latched as ON
    | .offPending =>
      if success then
        ({ s with
          havePending := false, recoveryAttempt := 0, haveDeadline := false
          state := if s.disabled then .disabled else .offConfirmed }, none)
      else (s.enterRecovery p now, none)
    | _ => (s, none)  -- late duplicate for a state that already moved on

def noteEventReset (s : Fsm) (now : ℚ) : Fsm :=
  if s.state = .recovery then { s with recoveryAttempt := 0, haveDeadline := true, recoveryDeadline := now }
  else { s with recoveryAttempt := 0 }

inductive Event where
  | tick (desired safetyOk enabled : Bool) (now : ℚ)
  | ack (seq : Nat) (success : Bool) (now : ℚ)
  | eventReset (now : ℚ)
  deriving DecidableEq

def step (p : FsmParams) (s : Fsm) : Event → Fsm × Option SprayCommand
  | .tick desired safetyOk enabled now => s.tick p desired safetyOk enabled now
  | .ack seq success now => s.onAck p seq success now
  | .eventReset now => (s.noteEventReset now, none)

/-! ### What one call can do -/

/-- A tick that must not leave the valve commanded: a gate is lost or spray is disabled. -/
def Blocks : Event → Prop
  | .tick _ safetyOk enabled _ => safetyOk = false ∨ enabled = false
  | _ => False

/-- The moves of the machine without its timers: the next state and the command it emits. -/
inductive Move (s : Fsm) : Event → SprayState → Option SprayCommand → Prop where
  | stay (e : Event) (safe : Blocks e → s.commanded = false) : Move s e s.state none
  | off (e : Event) (force : Bool) : Move s e .offPending (some ⟨false, s.seq + 1, force⟩)
  | on (now : ℚ) (confirmed : s.state = .offConfirmed) (enabled : s.prevEnabled = true) :
      Move s (.tick true true true now) .onPending (some ⟨true, s.seq + 1, false⟩)
  | onAcked (now : ℚ) (pending : s.state = .onPending) : Move s (.ack s.seq true now) .onConfirmed none
  | offAcked (now : ℚ) (pending : s.state = .offPending) (next : SprayState)
      (closed : next = .offConfirmed ∨ next = .disabled) : Move s (.ack s.seq true now) next none
  | recover (e : Event) (pending : s.state = .offPending) : Move s e .recovery none
  | disable (desired safetyOk : Bool) (now : ℚ) (confirmed : s.state = .offConfirmed) :
      Move s (.tick desired safetyOk false now) .disabled none

theorem noteSafety_fields (s : Fsm) (enabled safetyOk : Bool) (now : ℚ) :
    (s.noteSafety enabled safetyOk now).state = s.state ∧
    (s.noteSafety enabled safetyOk now).seq = s.seq ∧
    (s.noteSafety enabled safetyOk now).havePending = s.havePending ∧
    (s.noteSafety enabled safetyOk now).prevEnabled = s.prevEnabled := by
  unfold noteSafety
  split
  · split <;> exact ⟨rfl, rfl, rfl, rfl⟩
  · exact ⟨rfl, rfl, rfl, rfl⟩

/-- The edges either leave the state alone or, on re-enabling, restart it without a pending command. -/
theorem edges_cases (s : Fsm) (enabled safetyOk : Bool) (now : ℚ) :
    let t := (s.noteEnabled enabled).noteSafety enabled safetyOk now
    t.seq = s.seq ∧ t.prevEnabled = enabled ∧
      ((enabled = true ∧ s.prevEnabled = false ∧ t.state = .offUnconfirmed ∧ t.havePending = false) ∨
       ((enabled = true → s.prevEnabled = true) ∧ t.state = s.state ∧ t.havePending = s.havePending)) := by
  obtain ⟨state, seq, pending, prev⟩ := noteSafety_fields (s.noteEnabled enabled) enabled safetyOk now
  simp only [state, seq, pending, prev]
  unfold noteEnabled
  cases enabled <;> cases s.prevEnabled <;> simp

theorem checkPendingTimeout_cases (p : FsmParams) (s : Fsm) (now : ℚ) :
    (s.state = .onPending ∧ s.havePending = true ∧ checkPendingTimeout p s now = s.dispatchOff false now) ∨
    ∃ t, checkPendingTimeout p s now = (t, none) ∧ t.seq = s.seq ∧ t.prevEnabled = s.prevEnabled ∧
      (t.state = s.state ∨ (s.state = .offPending ∧ t.state = .recovery)) := by
  unfold checkPendingTimeout
  split
  · exact .inr ⟨s, rfl, rfl, rfl, .inl rfl⟩
  split
  · exact .inr ⟨s, rfl, rfl, rfl, .inl rfl⟩
  split
  · rename_i present _ _ pending
    exact .inl ⟨pending, by simpa using present, rfl⟩
  · rename_i pending
    exact .inr ⟨_, rfl, rfl, rfl, .inr ⟨pending, rfl⟩⟩
  · exact .inr ⟨_, rfl, rfl, rfl, .inl rfl⟩

theorem drive_cases (s : Fsm) (desired safetyOk enabled : Bool) (now : ℚ) :
    let r := s.drive desired safetyOk enabled now
    r.1.prevEnabled = s.prevEnabled ∧
    ((r.2 = none ∧ r.1.seq = s.seq ∧ r.1.state = s.state ∧ s.state ≠ .offUnconfirmed ∧
        (safetyOk = false ∨ enabled = false → s.commanded = false)) ∨
     (∃ force, r.2 = some ⟨false, s.seq + 1, force⟩ ∧ r.1.seq = s.seq + 1 ∧ r.1.state = .offPending) ∨
     (s.state = .offConfirmed ∧ enabled = false ∧ r.2 = none ∧ r.1.seq = s.seq ∧ r.1.state = .disabled) ∨
     (s.state = .offConfirmed ∧ desired = true ∧ safetyOk = true ∧ enabled = true ∧
        r.2 = some ⟨true, s.seq + 1, false⟩ ∧ r.1.seq = s.seq + 1 ∧ r.1.state = .onPending)) := by
  cases enabled with
  | false =>
    cases found : s.state <;> simp [drive, driveOffDisabled, dispatchOff, commanded, found]
  | true =>
    cases safetyOk with
    | false =>
      cases found : s.state <;> simp [drive, driveOffSafety, dispatchOff, commanded, found]
      split <;> simp [found]
    | true =>
      cases found : s.state <;> cases desired <;>
        simp [drive, normalTick, dispatchOff, dispatchOn, commanded, found]
      all_goals split <;> simp [found]

/-- `enabled` as the newest tick had it. -/
def Event.enabled (prev : Bool) : Event → Bool
  | .tick _ _ enabled _ => enabled
  | _ => prev

/-- What a call answers and what it remembers of it, whichever move it makes. -/
structure Spec (s : Fsm) (e : Event) (r : Fsm × Option SprayCommand) : Prop where
  move : Move s e r.1.state r.2
  seq : r.1.seq = r.2.elim s.seq SprayCommand.seq
  reenable : ∀ desired safetyOk now, e = .tick desired safetyOk true now → s.prevEnabled = false →
    ∃ force, r.2 = some ⟨false, s.seq + 1, force⟩
  enabled : r.1.prevEnabled = e.enabled s.prevEnabled

theorem tick_spec (p : FsmParams) (s : Fsm) (desired safetyOk enabled : Bool) (now : ℚ) :
    Spec s (.tick desired safetyOk enabled now) (s.tick p desired safetyOk enabled now) := by
  obtain ⟨seq, prev, edge⟩ := edges_cases s enabled safetyOk now
  unfold tick
  generalize (s.noteEnabled enabled).noteSafety enabled safetyOk now = t at seq prev edge ⊢
  rcases checkPendingTimeout_cases p t now with ⟨_, _, timedOut⟩ | ⟨u, checked, useq, uprev, ustate⟩
  · rw [timedOut]
    refine ⟨?_, rfl, ?_, prev⟩
    · simp only [dispatchOff, seq]
      exact .off _ _
    · intro _ _ _ _ _
      exact ⟨false, by simp [dispatchOff, seq]⟩
  rw [checked]
  obtain ⟨dprev, stay | ⟨force, out, dseq, state⟩ | ⟨confirmed, off, out, dseq, state⟩ |
    ⟨confirmed, rfl, rfl, rfl, out, dseq, state⟩⟩ := drive_cases u desired safetyOk enabled now
  · obtain ⟨out, dseq, state, known, safe⟩ := stay
    have kept : (enabled = true → s.prevEnabled = true) ∧ t.state = s.state := by
      rcases edge with ⟨_, _, restarted, _⟩ | ⟨wasEnabled, kept, _⟩
      · rcases ustate with same | ⟨pending, _⟩
        · exact absurd (same.trans restarted) known
        · rw [restarted] at pending
          cases pending
      · exact ⟨wasEnabled, kept⟩
    refine ⟨?_, ?_, ?_, (dprev.trans uprev).trans prev⟩
    · rw [out, state]
      rcases ustate with same | ⟨pending, recovery⟩
      · rw [same, kept.2]
        refine .stay _ fun blocked => ?_
        simpa [commanded, same, kept.2] using safe blocked
      · rw [recovery]
        exact .recover _ (kept.2 ▸ pending)
    · rw [out, dseq, useq, seq]
      rfl
    · intro _ _ _ same lost
      cases same
      rw [kept.1 rfl] at lost
      cases lost
  · refine ⟨?_, by rw [dseq, out]; rfl, ?_, (dprev.trans uprev).trans prev⟩
    · rw [out, state, useq, seq]
      exact .off _ _
    · intro _ _ _ _ _
      exact ⟨force, by rw [out, useq, seq]⟩
  · subst off
    have kept : t.state = s.state := by
      rcases edge with ⟨on, _⟩ | ⟨_, kept, _⟩
      · cases on
      · exact kept
    refine ⟨?_, by rw [out, dseq, useq, seq]; rfl, ?_, (dprev.trans uprev).trans prev⟩
    · rw [out, state]
      rcases ustate with same | ⟨_, recovery⟩
      · exact .disable _ _ _ (by rw [← kept, ← same, confirmed])
      · rw [recovery] at confirmed
        cases confirmed
    · intro _ _ _ same
      cases same
  · have kept : s.prevEnabled = true ∧ s.state = .offConfirmed := by
      rcases ustate with same | ⟨_, recovery⟩
      · rcases edge with ⟨_, _, restarted, _⟩ | ⟨wasEnabled, kept, _⟩
        · rw [same, restarted] at confirmed
          cases confirmed
        · exact ⟨wasEnabled rfl, by rw [← kept, ← same, confirmed]⟩
      · rw [recovery] at confirmed
        cases confirmed
    refine ⟨?_, by rw [out, dseq]; rfl, ?_, (dprev.trans uprev).trans prev⟩
    · rw [out, state, useq, seq]
      exact .on _ kept.2 kept.1
    · intro _ _ _ _ lost
      rw [kept.1] at lost
      cases lost

theorem onAck_spec (p : FsmParams) (s : Fsm) (seq : Nat) (success : Bool) (now : ℚ) :
    Spec s (.ack seq success now) (s.onAck p seq success now) := by
  unfold onAck
  split
  · exact ⟨.stay _ (by simp [Blocks]), rfl, by simp, rfl⟩
  rename_i same
  obtain rfl : seq = s.seq := by simpa using same
  split
  · rename_i pending
    cases success with
    | true => exact ⟨.onAcked _ pending, rfl, by simp, rfl⟩
    | false => exact ⟨.off _ _, rfl, by simp, rfl⟩
  · rename_i pending
    cases success with
    | true =>
      refine ⟨.offAcked _ pending _ ?_, rfl, by simp, rfl⟩
      cases s.disabled <;> simp
    | false => exact ⟨.recover _ pending, rfl, by simp, rfl⟩
  · exact ⟨.stay _ (by simp [Blocks]), rfl, by simp, rfl⟩

theorem noteEventReset_spec (s : Fsm) (now : ℚ) : Spec s (.eventReset now) (s.noteEventReset now, none) := by
  unfold noteEventReset
  split <;> exact ⟨.stay _ (by simp [Blocks]), rfl, by simp, rfl⟩

theorem step_spec (p : FsmParams) (s : Fsm) (e : Event) : Spec s e (step p s e) := by
  cases e with
  | tick desired safetyOk enabled now => exact tick_spec p s desired safetyOk enabled now
  | ack seq success now => exact onAck_spec p s seq success now
  | eventReset now => exact noteEventReset_spec s now

/-- A tick that must not leave the valve commanded emits no ON and leaves the ON states. -/
theorem Move.blocked {s : Fsm} {e : Event} {next : SprayState} {out : Option SprayCommand}
    (move : Move s e next out) (blocks : Blocks e) :
    (∀ c, out = some c → c.on = false) ∧ next ≠ .onPending ∧ next ≠ .onConfirmed := by
  cases move with
  | stay _ safe =>
    have quiet := safe blocks
    simp only [commanded, decide_eq_false_iff_not, not_or] at quiet
    exact ⟨by simp, quiet.1, quiet.2⟩
  | off => exact ⟨by rintro c ⟨⟩; rfl, by simp, by simp⟩
  | on now => simp [Blocks] at blocks
  | onAcked => exact blocks.elim
  | offAcked _ _ _ closed => exact blocks.elim
  | recover => simp
  | disable => simp

/-- The newest command is confirmed by its ack. -/
def proved (s : Fsm) : Bool := s.state = .onConfirmed ∨ s.state = .offConfirmed ∨ s.state = .disabled

/-- A call emits the next command and stands by it, or it keeps the sequence number and what is commanded. -/
theorem step_follows (p : FsmParams) (s : Fsm) (e : Event) :
    (∃ c, (step p s e).2 = some c ∧ c.seq = s.seq + 1 ∧ (step p s e).1.seq = s.seq + 1 ∧
      (step p s e).1.commanded = c.on ∧ (step p s e).1.proved = false) ∨
    ((step p s e).2 = none ∧ (step p s e).1.seq = s.seq ∧ (step p s e).1.commanded = s.commanded ∧
      ((step p s e).1.proved = true → s.proved = true ∨ ∃ now, e = .ack s.seq true now)) := by
  obtain ⟨move, seq, _, _⟩ := step_spec p s e
  generalize step p s e = r at move seq ⊢
  obtain ⟨t, out⟩ := r
  dsimp only at move seq ⊢
  generalize next : t.state = state at move
  cases move with
  | stay =>
    refine .inr ⟨rfl, seq, ?_, ?_⟩
    · simp only [commanded, next]
    · intro confirmed
      refine .inl ?_
      simpa only [proved, next] using confirmed
  | off => exact .inl ⟨_, rfl, rfl, seq, by simp [commanded, next], by simp [proved, next]⟩
  | on => exact .inl ⟨_, rfl, rfl, seq, by simp [commanded, next], by simp [proved, next]⟩
  | onAcked now pending => exact .inr ⟨rfl, seq, by simp [commanded, next, pending], fun _ => .inr ⟨now, rfl⟩⟩
  | offAcked now pending _ closed =>
    refine .inr ⟨rfl, seq, ?_, fun _ => .inr ⟨now, rfl⟩⟩
    rcases closed with rfl | rfl <;> simp [commanded, next, pending]
  | recover _ pending => exact .inr ⟨rfl, seq, by simp [commanded, next, pending], by simp [proved, next]⟩
  | disable _ _ _ confirmed =>
    exact .inr ⟨rfl, seq, by simp [commanded, next, confirmed], fun _ => .inl (by simp [proved, confirmed])⟩

end Fsm

end Dyx3.Spray
