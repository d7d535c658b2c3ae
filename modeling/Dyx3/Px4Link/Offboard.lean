import Mathlib.Algebra.Order.Ring.Rat
import Dyx3.Lib.Run

/-!
`OffboardSession` (dyx3_px4_link/offboard_heartbeat): when the heartbeat runs, when it carries the
explicit STOP and when OFFBOARD is requested. Over any sequence of calls, the guard's command is
forwarded only inside a session that PX4 confirmed and that has not been interrupted since.
-/

namespace Dyx3.Px4Link

open Lib

inductive OffboardState where
  | disabled | prestream | requested | active | failed | lost
  deriving DecidableEq, Repr

structure OffboardTiming where
  prestream : ℚ := 1 / 2
  confirmTimeout : ℚ := 2
  disableStop : ℚ := 3 / 10
  deriving DecidableEq

structure OffboardStep where
  publishHeartbeat : Bool := false
  sendModeCommand : Bool := false
  stopOnly : Bool := false
  state : OffboardState := .disabled
  deriving DecidableEq, Repr

structure OffboardSession where
  state : OffboardState := .disabled
  enabled : Bool := false
  since : ℚ := 0
  stopUntil : ℚ := -1
  deriving DecidableEq

namespace OffboardSession

def enable (timing : OffboardTiming) (s : OffboardSession) (on : Bool) (now : ℚ) : OffboardSession :=
  if on then { state := .prestream, enabled := true, since := now, stopUntil := -1 }
  else
    { s with
      stopUntil := if s.enabled then now + timing.disableStop else s.stopUntil
      state := .disabled
      enabled := false }

def failRequested (s : OffboardSession) : OffboardSession × Bool :=
  if !s.enabled || s.state ≠ .requested then (s, false) else ({ s with state := .failed }, true)

/-- The transition of an enabled session while the link is up; true asks for the mode command. -/
def advance (timing : OffboardTiming) (s : OffboardSession) (now : ℚ) (nav : Bool) : OffboardSession × Bool :=
  match s.state with
  | .prestream =>
    if now - s.since ≥ timing.prestream then ({ s with state := .requested, since := now }, true) else (s, false)
  | .requested =>
    if nav then ({ s with state := .active }, false)
    else if now - s.since > timing.confirmTimeout then ({ s with state := .failed }, false)
    else (s, false)
  | .active => if nav then (s, false) else ({ s with state := .lost }, false)
  | .failed | .lost | .disabled => (s, false)

def step (timing : OffboardTiming) (s : OffboardSession) (now : ℚ) (linkOk nav : Bool) :
    OffboardSession × OffboardStep :=
  if !s.enabled then
    (s, if linkOk && now < s.stopUntil then { publishHeartbeat := true, stopOnly := true } else {})
  else if !linkOk then
    let t := { s with
      since := now
      state := if s.state = .active then .lost
        else if s.state ≠ .failed ∧ s.state ≠ .lost then .prestream else s.state }
    (t, { state := t.state })
  else
    let (t, send) := advance timing s now nav
    (t, { publishHeartbeat := true, sendModeCommand := send, stopOnly := t.state ≠ .active, state := t.state })

inductive Event where
  | enable (on : Bool) (now : ℚ)
  | failRequested
  | step (now : ℚ) (linkOk nav : Bool)
  deriving DecidableEq

inductive Answer where
  | done
  | refused (changed : Bool)
  | stepped (out : OffboardStep)
  deriving DecidableEq

def call (timing : OffboardTiming) (s : OffboardSession) : Event → OffboardSession × Answer
  | .enable on now => (s.enable timing on now, .done)
  | .failRequested => (s.failRequested.1, .refused s.failRequested.2)
  | .step now linkOk nav => ((s.step timing now linkOk nav).1, .stepped (s.step timing now linkOk nav).2)

abbrev Record := Entry Event Answer

/-! ### What the history says about the session -/

/-- The session state a call reported, if it reported one. -/
def Reports (x : Record) (state : OffboardState) : Prop :=
  (∃ out, x.out = .stepped out ∧ out.state = state) ∨ (x.out = .refused true ∧ state = .failed)

def Sends (x : Record) (now : ℚ) : Prop :=
  ∃ linkOk nav out, x.event = .step now linkOk nav ∧ x.out = .stepped out ∧ out.sendModeCommand = true

/-- A call that does not interrupt the session: no enable call, and a step sees the link up. -/
def Undisturbed (x : Record) : Prop :=
  (∀ on now, x.event ≠ .enable on now) ∧ ∀ now linkOk nav, x.event = .step now linkOk nav → linkOk = true

def SawOffboard (x : Record) : Prop := ∀ now linkOk nav, x.event = .step now linkOk nav → nav = true

def LinkLost (x : Record) : Prop := ∃ now nav, x.event = .step now false nav

def EnablesTrue (x : Record) : Prop := ∃ now, x.event = .enable true now

/-- The newest enable call of the history asked for OFFBOARD. -/
def Wanted (h : List Record) : Prop :=
  ∃ since x, Latest (fun y => ∃ on now, y.event = .enable on now) h since x ∧ EnablesTrue x

/-- `anchor` is where the undisturbed stretch starts: the enable call, or a step that saw the link
down while OFFBOARD was wanted. -/
def Anchor (anchor : Record) (old : List Record) (t : ℚ) : Prop :=
  anchor.event = .enable true t ∨ ((∃ nav, anchor.event = .step t false nav) ∧ Wanted old)

/-- Since `anchor` at time `t` nothing has interrupted the session. -/
def Streaming (h : List Record) (t : ℚ) : Prop :=
  ∃ pre anchor old, h = pre ++ anchor :: old ∧ Anchor anchor old t ∧ ∀ x ∈ pre, Undisturbed x

/-- The mode command was sent after at least `prestream` of undisturbed streaming, and nothing has
interrupted the session since. -/
def Asked (timing : OffboardTiming) (h : List Record) : Prop :=
  ∃ wait m earlier t now, h = wait ++ m :: earlier ∧ Sends m now ∧ Undisturbed m ∧
    (∀ x ∈ wait, Undisturbed x) ∧ Streaming earlier t ∧ timing.prestream ≤ now - t

/-- After the mode command a step saw OFFBOARD, and every step since then saw it too. -/
def Confirmed (timing : OffboardTiming) (h : List Record) : Prop :=
  ∃ since first earlier, h = since ++ first :: earlier ∧ (∃ now, first.event = .step now true true) ∧
    (∀ x ∈ since, Undisturbed x ∧ SawOffboard x) ∧ Asked timing earlier

/-- Between two mode commands the link was lost before the session had become active. -/
def LostBeforeActive (mid : List Record) : Prop :=
  ∃ a lost b, mid = a ++ lost :: b ∧ LinkLost lost ∧ ∀ z ∈ b, ¬ Reports z .active

theorem Wanted.keep {h : List Record} {x : Record} (wanted : Wanted h) (quiet : ∀ on now, x.event ≠ .enable on now) :
    Wanted (x :: h) := by
  obtain ⟨since, y, latest, enables⟩ := wanted
  exact ⟨_, y, latest.keep (by rintro ⟨on, now, event⟩; exact quiet on now event), enables⟩

theorem Streaming.keep {h : List Record} {t : ℚ} {x : Record} (streaming : Streaming h t) (quiet : Undisturbed x) :
    Streaming (x :: h) t := by
  obtain ⟨pre, anchor, old, rfl, anchored, clean⟩ := streaming
  exact ⟨x :: pre, anchor, old, rfl, anchored, List.forall_mem_cons.mpr ⟨quiet, clean⟩⟩

theorem Asked.keep {timing : OffboardTiming} {h : List Record} {x : Record} (asked : Asked timing h)
    (quiet : Undisturbed x) : Asked timing (x :: h) := by
  obtain ⟨wait, m, earlier, t, now, rfl, sends, clean, waited, rest⟩ := asked
  exact ⟨x :: wait, m, earlier, t, now, rfl, sends, clean, List.forall_mem_cons.mpr ⟨quiet, waited⟩, rest⟩

theorem Confirmed.keep {timing : OffboardTiming} {h : List Record} {x : Record} (confirmed : Confirmed timing h)
    (quiet : Undisturbed x) (saw : SawOffboard x) : Confirmed timing (x :: h) := by
  obtain ⟨since, first, earlier, rfl, event, clean, asked⟩ := confirmed
  exact ⟨x :: since, first, earlier, rfl, event, List.forall_mem_cons.mpr ⟨⟨quiet, saw⟩, clean⟩, asked⟩

theorem LostBeforeActive.keep {mid : List Record} (lost : LostBeforeActive mid) (x : Record) :
    LostBeforeActive (x :: mid) := by
  obtain ⟨a, y, b, rfl, isLost, inactive⟩ := lost
  exact ⟨x :: a, y, b, rfl, isLost, inactive⟩

/-- The entries after `x` in `h`, with no new request for OFFBOARD among them. -/
def After (h mid : List Record) (x : Record) : Prop :=
  (∃ old, h = mid ++ x :: old) ∧ ∀ z ∈ mid, ¬ EnablesTrue z

theorem After.cons_cases {h mid : List Record} {x y : Record} (after : After (y :: h) mid x) :
    (mid = [] ∧ y = x) ∨ ∃ mid', mid = y :: mid' ∧ ¬ EnablesTrue y ∧ After h mid' x := by
  obtain ⟨⟨old, same⟩, clean⟩ := after
  rcases cons_split same with ⟨rfl, rfl, _⟩ | ⟨mid', rfl, rfl⟩
  · exact .inl ⟨rfl, rfl⟩
  · exact .inr ⟨mid', rfl, clean y (by simp), ⟨old, rfl⟩, fun z member => clean z (by simp [member])⟩

/-- What the history explains about an enabled session in each of its states. -/
structure Explains (timing : OffboardTiming) (h : List Record) (s : OffboardSession) : Prop where
  live : s.enabled = true → s.state ≠ .disabled
  wanted : s.enabled = true → Wanted h
  streaming : s.enabled = true → s.state = .prestream → Streaming h s.since
  asked : s.enabled = true → s.state = .requested → Asked timing h
  confirmed : s.enabled = true → s.state = .active → Confirmed timing h
  resendable : s.enabled = true → s.state = .prestream →
    ∀ mid x t, After h mid x → Sends x t → LostBeforeActive mid
  inactive : s.enabled = true → s.state = .requested →
    ∀ mid x t, After h mid x → Sends x t → LostBeforeActive mid ∨ ∀ z ∈ mid, ¬ Reports z .active
  ended : s.enabled = true → ∀ mid x, After h mid x → Reports x .failed ∨ Reports x .lost →
    s.state = .failed ∨ s.state = .lost

theorem explains_start (timing : OffboardTiming) : Explains timing [] {} :=
  ⟨by simp, by simp, by simp, by simp, by simp, by simp, by simp, by simp⟩

/-- A session that is not enabled owes nothing to its history. -/
theorem explains_disabled (timing : OffboardTiming) (h : List Record) {s : OffboardSession}
    (off : s.enabled = false) : Explains timing h s :=
  ⟨by simp [off], by simp [off], by simp [off], by simp [off], by simp [off], by simp [off], by simp [off],
    by simp [off]⟩

/-- A session that has failed or was lost only has to remember that OFFBOARD was wanted. -/
theorem explains_ended (timing : OffboardTiming) {h : List Record} {s : OffboardSession}
    (past : s.state = .failed ∨ s.state = .lost) (wanted : s.enabled = true → Wanted h) : Explains timing h s := by
  rcases past with past | past <;>
    exact ⟨by simp [past], wanted, by simp [past], by simp [past], by simp [past], by simp [past], by simp [past],
      by simp [past]⟩

theorem explains_enable (timing : OffboardTiming) {h : List Record} {s : OffboardSession} (on : Bool) (now : ℚ) :
    Explains timing (⟨.enable on now, .done⟩ :: h) (s.enable timing on now) := by
  cases on with
  | false => exact explains_disabled _ _ rfl
  | true =>
    have fresh : ∀ mid x, After (⟨.enable true now, .done⟩ :: h) mid x → x = ⟨.enable true now, .done⟩ := by
      intro mid x after
      rcases after.cons_cases with ⟨_, same⟩ | ⟨_, _, clean, _⟩
      · exact same.symm
      · exact absurd ⟨now, rfl⟩ clean
    refine ⟨by simp [enable], fun _ => ⟨[], _, .new h ⟨true, now, rfl⟩, now, rfl⟩,
      fun _ _ => ⟨[], _, h, rfl, .inl rfl, by simp⟩, by simp [enable], by simp [enable], ?_, by simp [enable], ?_⟩
    · intro _ _ mid x t after sends
      obtain ⟨_, _, _, event, _⟩ := sends
      rw [fresh mid x after] at event
      cases event
    · intro _ mid x after reports
      rw [fresh mid x after] at reports
      rcases reports with (⟨_, out, _⟩ | ⟨out, _⟩) | (⟨_, out, _⟩ | ⟨out, _⟩) <;> cases out

/-- A call that keeps the state and interrupts nothing. -/
theorem Explains.keep {timing : OffboardTiming} {h : List Record} {s t : OffboardSession} {x : Record}
    (known : Explains timing h s) (state : t.state = s.state) (enabled : t.enabled = s.enabled)
    (since : t.since = s.since) (quiet : Undisturbed x) (silent : ∀ now, ¬ Sends x now)
    (saw : s.state = .active → SawOffboard x)
    (inactive : s.enabled = true → s.state = .requested → ¬ Reports x .active)
    (ended : s.enabled = true → Reports x .failed ∨ Reports x .lost → s.state = .failed ∨ s.state = .lost) :
    Explains timing (x :: h) t := by
  rw [show t = ⟨s.state, s.enabled, s.since, t.stopUntil⟩ by rw [← state, ← enabled, ← since]]
  refine ⟨known.live, fun on => (known.wanted on).keep quiet.1, fun on found => (known.streaming on found).keep quiet,
    fun on found => (known.asked on found).keep quiet,
    fun on found => (known.confirmed on found).keep quiet (saw found), ?_, ?_, ?_⟩
  · intro on found mid y t' after sends
    rcases after.cons_cases with ⟨_, rfl⟩ | ⟨mid', rfl, _, after⟩
    · exact absurd sends (silent t')
    · exact (known.resendable on found mid' y t' after sends).keep x
  · intro on found mid y t' after sends
    rcases after.cons_cases with ⟨_, rfl⟩ | ⟨mid', rfl, _, after⟩
    · exact absurd sends (silent t')
    · rcases known.inactive on found mid' y t' after sends with lost | none
      · exact .inl (lost.keep x)
      · exact .inr (List.forall_mem_cons.mpr ⟨inactive on found, none⟩)
  · intro on mid y after reports
    rcases after.cons_cases with ⟨_, rfl⟩ | ⟨mid', rfl, _, after⟩
    · exact ended on reports
    · exact known.ended on mid' y after reports

theorem explains_failRequested {timing : OffboardTiming} {h : List Record} {s : OffboardSession}
    (known : Explains timing h s) :
    Explains timing (⟨.failRequested, .refused s.failRequested.2⟩ :: h) s.failRequested.1 := by
  have quiet : ∀ b, Undisturbed ⟨.failRequested, .refused b⟩ := fun _ => ⟨by simp, by simp⟩
  unfold failRequested
  split
  · refine known.keep rfl rfl rfl (quiet _) (by simp [Sends]) (by simp [SawOffboard]) ?_ ?_
    · simp [Reports]
    · simp [Reports]
  · exact explains_ended timing (.inl rfl) fun on => (known.wanted on).keep (quiet _).1

/-- The link is down: an active session is lost, a pending one starts its prestream again. -/
theorem explains_linkDown {timing : OffboardTiming} {h : List Record} {s t : OffboardSession} {now : ℚ} {nav : Bool}
    {out : OffboardStep} (known : Explains timing h s) (on : s.enabled = true) (since : t.since = now)
    (state : t.state = if s.state = .active then .lost
      else if s.state ≠ .failed ∧ s.state ≠ .lost then .prestream else s.state)
    (shown : out.state = t.state) (silent : out.sendModeCommand = false) :
    Explains timing (⟨.step now false nav, .stepped out⟩ :: h) t := by
  have wanted : Wanted (⟨.step now false nav, .stepped out⟩ :: h) := (known.wanted on).keep (by simp)
  by_cases past : t.state = .failed ∨ t.state = .lost
  · exact explains_ended timing past fun _ => wanted
  have pending : t.state = .prestream ∧ (s.state = .prestream ∨ s.state = .requested) := by
    have live := known.live on
    cases found : s.state <;> simp_all
  obtain ⟨restarted, before⟩ := pending
  refine ⟨by simp [restarted], fun _ => wanted, fun _ _ => ?_, by simp [restarted], by simp [restarted], ?_,
    by simp [restarted], ?_⟩
  · exact ⟨[], _, h, rfl, .inr ⟨⟨nav, by rw [since]⟩, known.wanted on⟩, by simp⟩
  · intro _ _ mid x t' after sends
    rcases after.cons_cases with ⟨_, rfl⟩ | ⟨mid', rfl, _, after⟩
    · simp [Sends, silent] at sends
    rcases before with waiting | requested
    · exact (known.resendable on waiting mid' x t' after sends).keep _
    · rcases known.inactive on requested mid' x t' after sends with lost | inactive
      · exact lost.keep _
      · exact ⟨[], _, mid', rfl, ⟨now, nav, rfl⟩, inactive⟩
  · intro _ mid x after reports
    rcases after.cons_cases with ⟨_, rfl⟩ | ⟨mid', rfl, _, after⟩
    · simp [Reports, shown, restarted] at reports
    · rcases known.ended on mid' x after reports with failed | lost
      · simp [failed] at before
      · simp [lost] at before

/-- What a step with the link up does to an enabled session. -/
inductive Moves (timing : OffboardTiming) (s : OffboardSession) (now : ℚ) (nav : Bool) : OffboardSession → Bool → Prop where
  | stay (saw : s.state = .active → nav = true) : Moves timing s now nav s false
  | ask (waiting : s.state = .prestream) (due : timing.prestream ≤ now - s.since) :
      Moves timing s now nav { s with state := .requested, since := now } true
  | confirm (requested : s.state = .requested) (saw : nav = true) :
      Moves timing s now nav { s with state := .active } false
  | fail (requested : s.state = .requested) : Moves timing s now nav { s with state := .failed } false
  | lose (active : s.state = .active) : Moves timing s now nav { s with state := .lost } false

theorem advance_moves (timing : OffboardTiming) (s : OffboardSession) (now : ℚ) (nav : Bool) :
    Moves timing s now nav (s.advance timing now nav).1 (s.advance timing now nav).2 := by
  unfold advance
  split
  · rename_i waiting
    split
    · exact .ask waiting ‹_›
    · exact .stay (by simp [waiting])
  · rename_i requested
    split
    · exact .confirm requested ‹_›
    · split
      · exact .fail requested
      · exact .stay (by simp [requested])
  · rename_i active
    split
    · exact .stay fun _ => ‹_›
    · exact .lose active
  all_goals
    rename_i found
    exact .stay (by simp [found])

theorem explains_linkUp {timing : OffboardTiming} {h : List Record} {s t : OffboardSession} {now : ℚ} {nav : Bool}
    {out : OffboardStep} (known : Explains timing h s) (on : s.enabled = true)
    (moves : Moves timing s now nav t out.sendModeCommand) (shown : out.state = t.state) :
    Explains timing (⟨.step now true nav, .stepped out⟩ :: h) t := by
  have quiet : Undisturbed ⟨.step now true nav, .stepped out⟩ := ⟨by simp, by simp⟩
  have wanted : Wanted (⟨.step now true nav, .stepped out⟩ :: h) := (known.wanted on).keep quiet.1
  have pending : s.state = .prestream ∨ s.state = .requested → ∀ mid x, After h mid x →
      ¬ (Reports x .failed ∨ Reports x .lost) := by
    rintro (waiting | requested) mid x after reports
    · simpa [waiting] using known.ended on mid x after reports
    · simpa [requested] using known.ended on mid x after reports
  generalize sent : out.sendModeCommand = send at moves
  cases moves with
  | stay saw =>
    refine known.keep rfl rfl rfl quiet (by simp [Sends, sent]) ?_ ?_ ?_
    · intro active now' linkOk nav' event
      cases event
      exact saw active
    · simp +contextual [Reports, shown]
    · simp [Reports, shown]
  | ask waiting due =>
    refine ⟨by simp, fun _ => wanted, by simp, fun _ _ => ?_, by simp, by simp, ?_, ?_⟩
    · exact ⟨[], _, h, s.since, now, rfl, ⟨true, nav, out, rfl, rfl, sent⟩, quiet, by simp,
        known.streaming on waiting, due⟩
    · intro _ _ mid x t' after sends
      rcases after.cons_cases with ⟨rfl, _⟩ | ⟨mid', rfl, _, after⟩
      · exact .inr (by simp)
      · exact .inl ((known.resendable on waiting mid' x t' after sends).keep _)
    · intro _ mid x after reports
      rcases after.cons_cases with ⟨_, rfl⟩ | ⟨mid', rfl, _, after⟩
      · simp [Reports, shown] at reports
      · exact absurd reports (pending (.inl waiting) mid' x after)
  | confirm requested saw =>
    subst saw
    refine ⟨by simp, fun _ => wanted, by simp, by simp, fun _ _ => ?_, by simp, by simp, ?_⟩
    · exact ⟨[], _, h, rfl, ⟨now, rfl⟩, by simp, known.asked on requested⟩
    · intro _ mid x after reports
      rcases after.cons_cases with ⟨_, rfl⟩ | ⟨mid', rfl, _, after⟩
      · simp [Reports, shown] at reports
      · exact absurd reports (pending (.inr requested) mid' x after)
  | fail => exact explains_ended timing (.inl rfl) fun _ => wanted
  | lose => exact explains_ended timing (.inr rfl) fun _ => wanted

theorem explains_call {timing : OffboardTiming} {h : List Record} {s : OffboardSession} (known : Explains timing h s)
    (e : Event) : Explains timing (⟨e, (call timing s e).2⟩ :: h) (call timing s e).1 := by
  cases e with
  | enable on now => exact explains_enable timing on now
  | failRequested => exact explains_failRequested known
  | step now linkOk nav =>
    cases on : s.enabled with
    | false =>
      refine explains_disabled timing _ ?_
      simp [call, step, on]
    | true =>
      cases linkOk with
      | false =>
        simp only [call, step, on]
        exact explains_linkDown known on rfl rfl rfl rfl
      | true =>
        simp only [call, step, on]
        exact explains_linkUp known on (advance_moves timing s now nav) rfl

/-! ### The session over whole runs -/

/-- The discipline of one call `x` after the calls `earlier`. -/
structure Disciplined (timing : OffboardTiming) (x : Record) (earlier : List Record) : Prop where
  forwards : ∀ out, x.out = .stepped out → out.publishHeartbeat = true → out.stopOnly = false →
    Confirmed timing (x :: earlier)
  resends : ∀ now, Sends x now → ∀ mid y t, After earlier mid y → Sends y t → LostBeforeActive mid
  final : ∀ now, Sends x now → ∀ mid y, After earlier mid y → ¬ (Reports y .failed ∨ Reports y .lost)

theorem sends_waiting {timing : OffboardTiming} {s : OffboardSession} {e : Event} {now : ℚ}
    (sends : Sends ⟨e, (call timing s e).2⟩ now) : s.enabled = true ∧ s.state = .prestream := by
  obtain ⟨linkOk, nav, out, rfl, answer, send⟩ := sends
  obtain rfl : (s.step timing now linkOk nav).2 = out := by simpa [call] using answer
  unfold step at send
  split at send
  · split at send <;> cases send
  split at send
  · cases send
  refine ⟨by simpa using ‹¬ (!s.enabled) = true›, ?_⟩
  have moves := advance_moves timing s now nav
  simp only at send
  rw [send] at moves
  generalize (s.advance timing now nav).1 = t at moves
  cases moves with
  | ask waiting => exact waiting

theorem forwards_active {timing : OffboardTiming} {s : OffboardSession} {now : ℚ} {linkOk nav : Bool}
    (beats : (s.step timing now linkOk nav).2.publishHeartbeat = true)
    (moving : (s.step timing now linkOk nav).2.stopOnly = false) :
    (s.step timing now linkOk nav).1.enabled = true ∧ (s.step timing now linkOk nav).1.state = .active := by
  unfold step at beats moving ⊢
  split at beats
  · split at beats <;> simp_all
  split at beats
  · cases beats
  rename_i enabled linkUp
  simp only [enabled, linkUp] at moving ⊢
  have moves := advance_moves timing s now nav
  refine ⟨?_, by simpa using moving⟩
  generalize s.advance timing now nav = r at moves
  obtain ⟨t, send⟩ := r
  cases moves <;> simpa using enabled

theorem disciplined_call {timing : OffboardTiming} {h : List Record} {s : OffboardSession}
    (known : Explains timing h s) (e : Event) : Disciplined timing ⟨e, (call timing s e).2⟩ h := by
  refine ⟨?_, ?_, ?_⟩
  · intro out answer beats moving
    cases e with
    | enable on now => cases answer
    | failRequested => cases answer
    | step now linkOk nav =>
      obtain rfl : (s.step timing now linkOk nav).2 = out := by simpa [call] using answer
      obtain ⟨on, active⟩ := forwards_active beats moving
      exact (explains_call known (.step now linkOk nav)).confirmed on active
  · intro now sends mid y t after earlier
    obtain ⟨on, waiting⟩ := sends_waiting sends
    exact known.resendable on waiting mid y t after earlier
  · intro now sends mid y after reports
    obtain ⟨on, waiting⟩ := sends_waiting sends
    rcases known.ended on mid y after reports with failed | lost
    · rw [waiting] at failed
      cases failed
    · rw [waiting] at lost
      cases lost

theorem run_disciplined {timing : OffboardTiming} {h : List Record} {s : OffboardSession}
    (run : Run (call timing) {} h s) : Explains timing h s ∧ Everywhere (Disciplined timing) h := by
  refine run.invariant (fun h s => Explains timing h s ∧ Everywhere (Disciplined timing) h)
    ⟨explains_start timing, trivial⟩ ?_
  rintro h s e ⟨known, all⟩ _
  exact ⟨explains_call known e, disciplined_call known e, all⟩

end OffboardSession

end Dyx3.Px4Link
