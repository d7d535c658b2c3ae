import Dyx3.System.Agreement

/-!
A confirmed OFF means a closed valve: once the controller's machine has the ack of its OFF, px4_link has published no
ON since the VehicleCommand of that OFF. The invariant starts earlier, when the OFF reaches the link's queue.
-/

namespace Dyx3.System.Loop

open Lib Px4Link Spray SprayLink

/-- Once the controller's request `n` is in the link nothing there opens the valve, and nothing did since it went out. -/
def Shut (n : Nat) (s : SprayLink) (published : List SprayPending) : Prop :=
  (∃ x, (x ∈ s.queue ∨ x ∈ published) ∧ x.source = sourceController ∧ x.seq = n) →
    AllOff s ∧ published.Pairwise fun x w => w.source = sourceController → w.seq = n → x.on = false

variable {n : Nat} {on : Bool} {s t : SprayLink} {x : SprayPending} {m : SprayActuatorCommand} {env : Env}
  {outs : List SprayOut} {published : List SprayPending}

theorem Shut.reduce (shut : Shut n s published) (reduced : Reduced s t) : Shut n t published := by
  rintro ⟨x, stored, own⟩
  obtain ⟨off, since⟩ := shut ⟨x, stored.imp_left (reduced.queue x), own⟩
  exact ⟨reduced.allOff off, since⟩

theorem Shut.dispatch (shut : Shut n s published) (dispatches : Dispatches s env t outs) :
    Shut n t ((commands outs).reverse ++ published) := by
  rintro ⟨x, stored, own⟩
  have before : ∃ x, (x ∈ s.queue ∨ x ∈ published) ∧ x.source = sourceController ∧ x.seq = n := by
    have held : (x ∈ t.queue ∨ x ∈ commands outs) ∨ x ∈ published := by
      simpa [or_assoc] using stored
    rcases held with held | old
    · obtain ⟨q, queued, message⟩ := dispatches.origin held
      refine ⟨q, .inl queued, ?_⟩
      rw [← message]
      exact own
    · exact ⟨x, .inr old, own⟩
  obtain ⟨off, since⟩ := shut before
  refine ⟨dispatches.allOff off, ?_⟩
  have quiet : ∀ w ∈ commands outs, w.on = false := by
    intro w out
    obtain ⟨q, queued, message⟩ := dispatches.origin (.inr out)
    rw [message]
    exact off.1 q queued
  refine List.pairwise_append.mpr ⟨?_, since, ?_⟩
  · exact List.pairwise_of_forall_mem_list fun x out _ _ _ _ => quiet x (List.mem_reverse.mp out)
  · intro x out _ _ _ _
    exact quiet x (List.mem_reverse.mp out)

theorem Shut.settle (shut : Shut n s published) (settles : Settles s t outs) :
    Shut n t ((commands outs).reverse ++ published) := by
  cases settles with
  | mk reduced confirmed silent proves dispatches =>
    rw [commands_append, silent, List.nil_append]
    exact (shut.reduce reduced).dispatch dispatches

/-- A message that comes once the request `n` of a machine that commands no ON is in the link is an OFF. -/
theorem off_of_arrived (fits : Fits n false m)
    (newest : m.source = sourceController → ∀ x, x ∈ s.queue ∨ x ∈ published → x.source = sourceController → x.seq ≤ m.seq)
    (found : ∃ x, (x ∈ s.queue ∨ x ∈ published) ∧ x.source = sourceController ∧ x.seq = n) : m.on = false := by
  obtain ⟨x, stored, own, seq⟩ := found
  rcases fits with ⟨source, bound, current⟩ | ⟨_, off⟩
  · have reached := newest source x stored own
    exact current (by omega)
  · exact off

theorem Shut.handle (shut : Shut n s published) (books : Books n false s published) (fits : Fits n false m)
    (newest : m.source = sourceController → ∀ x, x ∈ s.queue ∨ x ∈ published → x.source = sourceController → x.seq ≤ m.seq)
    (handles : Handles s m env t outs) : Shut n t ((commands outs).reverse ++ published) := by
  cases handles with
  | settled settles => exact shut.settle settles
  | resent bar r x message translated linkOk unblocked same known =>
    have known : x ∈ published := known.elim (books.flown x) (books.proved m.source x)
    rintro ⟨y, stored, own⟩
    have before : y ∈ s.queue ∨ y ∈ published := by
      rcases stored with queued | member
      · exact .inl queued
      · rcases List.mem_cons.mp member with rfl | old
        · exact .inr known
        · exact .inr old
    obtain ⟨off, since⟩ := shut ⟨y, before, own⟩
    refine ⟨off, List.pairwise_cons.mpr ⟨?_, since⟩⟩
    intro w _ _ _
    rw [message]
    exact off_of_arrived fits newest ⟨y, before, own⟩
  | @entered mid _ acks sent r message linkOk unblocked entered refusals dispatches =>
    subst message
    rw [commands_append, refusals.silent, List.nil_append]
    suffices entry : Shut n mid published from entry.dispatch dispatches
    rintro ⟨x, stored, own, seq⟩
    have cases : x = r ∨ x ∈ s.queue ∨ x ∈ published := by
      rcases stored with queued | old
      · exact (entered.queue x queued).imp_right fun found => .inl found.1
      · exact .inr (.inr old)
    have closes : r.on = false := by
      rcases cases with rfl | before
      · exact (fits.controller own).2 seq
      · exact off_of_arrived fits newest ⟨x, before, own, seq⟩
    refine ⟨entered.allOff books fits closes, ?_⟩
    by_cases before : ∃ x, (x ∈ s.queue ∨ x ∈ published) ∧ x.source = sourceController ∧ x.seq = n
    · exact (shut before).2
    · -- The request has not gone out yet.
      refine List.pairwise_of_forall_mem_list ?_
      intro _ _ w member source same
      exact absurd ⟨w, .inr member, source, same⟩ before

/-- The machine has confirmed the OFF it names by its seq (only the ack of that seq confirms it): the OFF was
published, and no ON since any time it was. -/
def ConfirmedOffClosed (s : Loop) : Prop :=
  s.fsm.state = .offConfirmed ∨ s.fsm.state = .disabled →
    (∃ w ∈ s.published, w.source = sourceController ∧ w.seq = s.fsm.seq ∧ w.on = false) ∧
    ∀ since w older, s.published = since ++ w :: older → w.source = sourceController → w.seq = s.fsm.seq →
      ∀ x ∈ since, x.on = false

structure Closes (s : Loop) : Prop where
  sound : Sound s
  shut : s.fsm.commanded = false → Shut s.fsm.seq s.link s.published

theorem Closes.step {p : Params} {s : Loop} (closes : Closes s) (e : Event) : Closes (Loop.step p s e).1 := by
  refine ⟨closes.sound.step e, ?_⟩
  have sound := closes.sound
  have turn : Turn p s e (Loop.step p s e).1 := sound.turn e
  generalize (Loop.step p s e).1 = t at turn
  cases turn with
  | idle fsm link published =>
    rw [fsm, link, published]
    exact closes.shut
  | control call fsm link published =>
    rw [link, published]
    rcases Fsm.step_follows p.fsm s.fsm call with ⟨c, _, _, seq, _⟩ | ⟨_, seq, commanded, _⟩
    · -- Nothing of the new command has reached the link.
      rw [fsm, seq]
      rintro _ ⟨x, stored, own, same⟩
      have := sound.bound stored own
      omega
    · rw [fsm, seq, commanded]
      exact closes.shut
  | handle m env outs arrives handles fsm published =>
    rw [fsm, published]
    intro off
    have books := sound.books
    have fits := arrives.fits
    rw [off] at books fits
    exact (closes.shut off).handle books fits arrives.newest handles
  | settle outs settles fsm published =>
    rw [fsm, published]
    intro off
    exact (closes.shut off).settle settles

theorem Closes.closed {s : Loop} (closes : Closes s) : s.ConfirmedOffClosed := by
  intro state
  have off : s.fsm.commanded = false := by rcases state with same | same <;> simp [Fsm.commanded, same]
  have proved : s.fsm.proved = true := by rcases state with same | same <;> simp [Fsm.proved, same]
  obtain ⟨w, member, own, seq⟩ := closes.sound.proved proved
  have closed : w.on = false := by
    rw [((closes.sound.books.fits w (.inr (.inr member))).controller own).2 seq, off]
  refine ⟨⟨w, member, own, seq, closed⟩, ?_⟩
  intro since v older split source same x later
  have pairwise := (closes.shut off ⟨w, .inr member, own, seq⟩).2
  rw [split] at pairwise
  exact (List.pairwise_append.mp pairwise).2.2 x later v (by simp) source same

/-- In every reachable state, whatever is lost, late or repeated. -/
theorem confirmedOff_closed (p : Params) (index : Nat) {h : List (Entry Event Unit)} {s : Loop}
    (run : Run (step p) (start index) h s) : s.ConfirmedOffClosed := by
  have start : Closes (start index) := ⟨sound_start index, fun _ => by rintro ⟨x, stored, _⟩; simp [Loop.start] at stored⟩
  exact (run.invariant (fun _ s => Closes s) start fun _ _ e closes _ => closes.step e).closed

/-- One stretch of paint: the ON's reassert waits in the channel while the OFF is sent, and the FCU repeats an ack. -/
def painted : List Event :=
  let off : Output := { value := .fin (-1) }
  [⟨0, .tick false true true off⟩, ⟨0, .deliver true true⟩, ⟨0, .px4Ack true true⟩, ⟨0, .fsmAck off⟩,
    ⟨1, .tick true true true {}⟩, ⟨1, .deliver true true⟩, ⟨1, .px4Ack true true⟩, ⟨1, .fsmAck {}⟩,
    ⟨2, .reassert {}⟩, ⟨2, .tick false true true off⟩, ⟨2, .deliver true true⟩, ⟨2, .deliver true true⟩,
    ⟨2, .strayAck ⟨cmdDoSetActuator, resultAccepted, 1, 3⟩ true true⟩, ⟨2, .px4Ack true true⟩,
    ⟨2, .px4Ack true true⟩, ⟨2, .fsmAck off⟩]

theorem confirmedOff_closed_painted :
    (exec (step {}) [] (start 0) painted).2.fsm.state = .offConfirmed ∧
    (exec (step {}) [] (start 0) painted).2.published.map (·.on) = [false, true, true, false] ∧
    (exec (step {}) [] (start 0) painted).2.ConfirmedOffClosed :=
  ⟨by decide +kernel, by decide +kernel, confirmedOff_closed {} 0 (exec_run painted .start)⟩

end Dyx3.System.Loop
