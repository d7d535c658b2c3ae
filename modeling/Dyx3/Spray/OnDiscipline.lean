import Dyx3.Spray.Fsm

/-!
The ON discipline of `SpraySafetyStateMachine` over whole runs: an ON is emitted only right after
an OFF that was acknowledged, and the machine reports spraying only after its newest ON was.
-/

namespace Dyx3.Spray.Fsm

open Lib

abbrev Record := Entry Event (Option SprayCommand)

/-- The newest command of `h` is `on` with sequence `n`; the entries `since` came after it. -/
def Newest (h since : List Record) (on : Bool) (n : Nat) : Prop :=
  ∃ x force, Latest (fun y => y.out ≠ none) h since x ∧ x.out = some ⟨on, n, force⟩

def AckedIn (since : List Record) (n : Nat) : Prop :=
  ∃ y ∈ since, ∃ now, y.event = .ack n true now

/-- The newest command of `h` is `on` with sequence `n` and was acknowledged since. -/
def Acked (h : List Record) (on : Bool) (n : Nat) : Prop :=
  ∃ since, Newest h since on n ∧ AckedIn since n

def EnabledTick (x : Record) : Prop := ∃ desired safetyOk now, x.event = .tick desired safetyOk true now

def DisabledTick (x : Record) : Prop := ∃ desired safetyOk now, x.event = .tick desired safetyOk false now

/-- `enabled` as the newest tick had it; a fresh machine counts as enabled. -/
def lastEnabled (h : List Record) : Bool := h.foldr (fun x prev => x.event.enabled prev) true

theorem Newest.keep {h since : List Record} {on : Bool} {n : Nat} (newest : Newest h since on n) (e : Event) :
    Newest (⟨e, none⟩ :: h) (⟨e, none⟩ :: since) on n := by
  obtain ⟨x, force, latest, out⟩ := newest
  exact ⟨x, force, latest.keep (by simp), out⟩

theorem Newest.new (h : List Record) (e : Event) (on : Bool) (n : Nat) (force : Bool) :
    Newest (⟨e, some ⟨on, n, force⟩⟩ :: h) [] on n :=
  ⟨_, force, .new h (by simp), rfl⟩

theorem Acked.keep {h : List Record} {on : Bool} {n : Nat} (acked : Acked h on n) (e : Event) :
    Acked (⟨e, none⟩ :: h) on n := by
  obtain ⟨since, newest, y, member, now, event⟩ := acked
  exact ⟨_, newest.keep e, y, List.mem_cons_of_mem _ member, now, event⟩

/-- What the history says about the state: the pending command is the newest one, a confirmed
state was acknowledged, and re-enabling has always emitted an OFF. -/
structure Explains (h : List Record) (s : Fsm) : Prop where
  onPending : s.state = .onPending → ∃ since, Newest h since true s.seq
  offPending : s.state = .offPending → ∃ since, Newest h since false s.seq
  onConfirmed : s.state = .onConfirmed → Acked h true s.seq
  offConfirmed : s.state = .offConfirmed → Acked h false s.seq
  enabled : s.prevEnabled = lastEnabled h
  follows : Everywhere (fun x earlier => ∀ c, x.out = some c → c.on = true →
    ∃ n, c.seq = n + 1 ∧ Acked earlier false n ∧ lastEnabled earlier = true) h
  reenabled : Everywhere (fun x earlier => EnabledTick x → lastEnabled earlier = false → x.out ≠ none) h

theorem explains_start : Explains [] ({} : Fsm) :=
  ⟨by simp, by simp, by simp, by simp, rfl, trivial, trivial⟩

/-- Nothing emitted and the state kept: every clause is carried over by its `keep` lemma. -/
theorem Explains.stay {h : List Record} {s : Fsm} (known : Explains h s) {t : Fsm} (e : Event)
    (state : t.state = s.state) (seq : t.seq = s.seq) :
    (t.state = .onPending → ∃ since, Newest (⟨e, none⟩ :: h) since true t.seq) ∧
    (t.state = .offPending → ∃ since, Newest (⟨e, none⟩ :: h) since false t.seq) ∧
    (t.state = .onConfirmed → Acked (⟨e, none⟩ :: h) true t.seq) ∧
    (t.state = .offConfirmed → Acked (⟨e, none⟩ :: h) false t.seq) := by
  rw [state, seq]
  refine ⟨fun on => ?_, fun off => ?_, fun on => (known.onConfirmed on).keep e,
    fun off => (known.offConfirmed off).keep e⟩
  · obtain ⟨since, newest⟩ := known.onPending on
    exact ⟨_, newest.keep e⟩
  · obtain ⟨since, newest⟩ := known.offPending off
    exact ⟨_, newest.keep e⟩

theorem explains_step (p : FsmParams) {h : List Record} {s : Fsm} (known : Explains h s) (e : Event) :
    Explains (⟨e, (step p s e).2⟩ :: h) (step p s e).1 := by
  have spec := step_spec p s e
  generalize step p s e = r at spec ⊢
  obtain ⟨t, out⟩ := r
  obtain ⟨move, seq, reenable, enabled⟩ := spec
  simp only at move seq reenable enabled
  have lastSeen : t.prevEnabled = lastEnabled (⟨e, out⟩ :: h) := by
    rw [enabled, known.enabled]
    rfl
  have emitsOff : EnabledTick ⟨e, out⟩ → lastEnabled h = false → out ≠ none := by
    rintro ⟨desired, safetyOk, now, same⟩ lost
    obtain ⟨force, emitted⟩ := reenable desired safetyOk now same (known.enabled.trans lost)
    simp [emitted]
  have reenabled := And.intro emitsOff known.reenabled
  have quiet : (∀ c, out = some c → c.on = false) →
      Everywhere (fun x earlier => ∀ c, x.out = some c → c.on = true →
        ∃ n, c.seq = n + 1 ∧ Acked earlier false n ∧ lastEnabled earlier = true) (⟨e, out⟩ :: h) := by
    intro off
    exact ⟨fun c emitted on => absurd (off c emitted) (by simp [on]), known.follows⟩
  generalize nextState : t.state = next at move
  cases move with
  | stay =>
    obtain ⟨a, b, c, d⟩ := known.stay e nextState seq
    exact ⟨a, b, c, d, lastSeen, quiet (by simp), reenabled⟩
  | off force =>
    refine ⟨by simp [nextState], ?_, by simp [nextState], by simp [nextState], lastSeen,
      quiet (by rintro c ⟨⟩; rfl), reenabled⟩
    intro _
    rw [seq]
    exact ⟨[], .new h e false _ _⟩
  | on now confirmed wasEnabled =>
    refine ⟨?_, by simp [nextState], by simp [nextState], by simp [nextState], lastSeen, ?_, reenabled⟩
    · intro _
      rw [seq]
      exact ⟨[], .new h _ true _ _⟩
    · refine ⟨?_, known.follows⟩
      rintro c ⟨⟩ _
      exact ⟨s.seq, rfl, known.offConfirmed confirmed, known.enabled ▸ wasEnabled⟩
  | onAcked now pending =>
    refine ⟨by simp [nextState], by simp [nextState], ?_, by simp [nextState], lastSeen, quiet (by simp),
      reenabled⟩
    intro _
    obtain ⟨since, newest⟩ := known.onPending pending
    rw [seq]
    exact ⟨_, newest.keep _, _, List.mem_cons_self, now, rfl⟩
  | offAcked now pending next closed =>
    have acked : Acked (⟨.ack s.seq true now, none⟩ :: h) false t.seq := by
      obtain ⟨since, newest⟩ := known.offPending pending
      rw [seq]
      exact ⟨_, newest.keep _, _, List.mem_cons_self, now, rfl⟩
    rcases closed with rfl | rfl
    · exact ⟨by simp [nextState], by simp [nextState], by simp [nextState], fun _ => acked, lastSeen,
        quiet (by simp), reenabled⟩
    · exact ⟨by simp [nextState], by simp [nextState], by simp [nextState], by simp [nextState], lastSeen,
        quiet (by simp), reenabled⟩
  | recover =>
    exact ⟨by simp [nextState], by simp [nextState], by simp [nextState], by simp [nextState], lastSeen,
      quiet (by simp), reenabled⟩
  | disable =>
    exact ⟨by simp [nextState], by simp [nextState], by simp [nextState], by simp [nextState], lastSeen,
      quiet (by simp), reenabled⟩

theorem run_explains {p : FsmParams} {h : List Record} {s : Fsm} (run : Run (step p) {} h s) : Explains h s :=
  run.invariant Explains explains_start fun _ _ e known _ => explains_step p known e

/-- Between a disabled tick and an entry that saw the machine enabled again, the re-enabling tick
emitted a command. -/
theorem reenabled_emits {mid older : List Record} {dis : Record} (disabled : DisabledTick dis)
    (enabled : lastEnabled (mid ++ dis :: older) = true)
    (all : Everywhere (fun x earlier => EnabledTick x → lastEnabled earlier = false → x.out ≠ none)
      (mid ++ dis :: older)) :
    ∃ since on rest, mid = since ++ on :: rest ∧ EnabledTick on ∧ on.out ≠ none := by
  induction mid with
  | nil =>
    obtain ⟨_, _, _, event⟩ := disabled
    simp [lastEnabled, event, Event.enabled] at enabled
  | cons x mid ih =>
    cases before : lastEnabled (mid ++ dis :: older) with
    | true =>
      obtain ⟨since, on, rest, split, tick, emits⟩ := ih before all.2
      exact ⟨x :: since, on, rest, by simp [split], tick, emits⟩
    | false =>
      have tick : EnabledTick x := by
        cases event : x.event with
        | tick desired safetyOk now' now =>
          simp only [List.cons_append, lastEnabled, List.foldr_cons, event, Event.enabled] at enabled
          subst enabled
          exact ⟨desired, safetyOk, now, event⟩
        | ack | eventReset =>
          have : lastEnabled (mid ++ dis :: older) = true := by
            simpa [lastEnabled, event, Event.enabled] using enabled
          rw [before] at this
          cases this
      exact ⟨[], x, mid, rfl, tick, all.1 tick before⟩

/-- If `x` is the newest emitting entry and `mid` holds an emitting entry, then `x` lies in `mid`,
at or after that entry. -/
theorem latest_within {mid earlier since a b : List Record} {x on : Record}
    (latest : Latest (fun y => y.out ≠ none) (mid ++ earlier) since x)
    (split : mid = a ++ on :: b) (emits : on.out ≠ none) :
    ∃ rest, mid = since ++ x :: rest ∧ on ∈ x :: rest := by
  obtain ⟨older, same, _, none⟩ := latest
  subst split
  simp only [List.append_assoc, List.cons_append] at same
  rcases List.append_eq_append_iff.mp same with ⟨c, rfl, tail⟩ | ⟨c, rfl, tail⟩
  · cases c with
    | nil =>
      obtain ⟨rfl, -⟩ : on = x ∧ b ++ earlier = older := by simpa using tail
      exact ⟨b, by simp, by simp⟩
    | cons y c =>
      obtain ⟨rfl, -⟩ : on = y ∧ b ++ earlier = c ++ x :: older := by simpa using tail
      exact absurd emits (none on (by simp))
  · cases c with
    | nil =>
      obtain ⟨rfl, -⟩ : x = on ∧ older = b ++ earlier := by simpa using tail
      exact ⟨b, by simp, by simp⟩
    | cons y c =>
      obtain ⟨rfl, -⟩ : x = y ∧ older = c ++ on :: (b ++ earlier) := by simpa using tail
      exact ⟨c ++ on :: b, by simp, by simp⟩

/-- The ON discipline of a run with history `h` that ends in `s`. -/
structure OnDiscipline (p : FsmParams) (h : List Record) (s : Fsm) : Prop where
  /-- An ON `n + 1` comes right after an OFF `n` that was acknowledged before it. -/
  follows_acked_off : ∀ later x earlier c, h = later ++ x :: earlier → x.out = some c → c.on = true →
    ∃ n, c.seq = n + 1 ∧ Acked earlier false n
  /-- `spraying` needs an acknowledgement of the newest command, an ON, with its own sequence. -/
  spraying_acked : s.spraying = true → Acked h true s.seq
  /-- A tick without the gate or with spray disabled emits no ON and leaves the ON states. -/
  blocked : ∀ desired safetyOk enabled now, safetyOk = false ∨ enabled = false →
    (∀ c, (s.tick p desired safetyOk enabled now).2 = some c → c.on = false) ∧
    (s.tick p desired safetyOk enabled now).1.commanded = false
  /-- After a disabled tick, an ON needs an OFF emitted at or after a re-enabling tick and
  acknowledged after that. -/
  fresh_off : ∀ later x mid dis earlier c, h = later ++ x :: (mid ++ dis :: earlier) → DisabledTick dis →
    x.out = some c → c.on = true →
    ∃ n since off rest force, mid = since ++ off :: rest ∧ c.seq = n + 1 ∧ off.out = some ⟨false, n, force⟩ ∧
      AckedIn since n ∧ ∃ y ∈ off :: rest, EnabledTick y

theorem onDiscipline {p : FsmParams} {h : List Record} {s : Fsm} (run : Run (step p) {} h s) :
    OnDiscipline p h s := by
  have known := run_explains run
  refine ⟨?_, ?_, ?_, ?_⟩
  · rintro later x earlier c rfl emitted on
    obtain ⟨n, seq, acked, -⟩ := everywhere_split known.follows c emitted on
    exact ⟨n, seq, acked⟩
  · intro spraying
    exact known.onConfirmed (of_decide_eq_true spraying)
  · intro desired safetyOk enabled now blocks
    obtain ⟨off, notPending, notConfirmed⟩ :=
      (tick_spec p s desired safetyOk enabled now).move.blocked blocks
    exact ⟨off, by simp [commanded, notPending, notConfirmed]⟩
  · rintro later x mid dis earlier c rfl disabled emitted on
    obtain ⟨n, seq, ⟨since, ⟨off, force, latest, out⟩, acked⟩, enabled⟩ :=
      everywhere_split known.follows c emitted on
    have all := (everywhere_append known.reenabled).2
    obtain ⟨a, tick, b, split, enabledTick, emits⟩ := reenabled_emits disabled enabled all
    obtain ⟨rest, within, member⟩ := latest_within latest split emits
    exact ⟨n, since, off, rest, force, within, seq, out, acked, tick, member, enabledTick⟩

def paintOnce : List Event :=
  [.tick true true true 0, .ack 1 true (1 / 10), .tick true true true (2 / 10), .ack 2 true (3 / 10)]

theorem onDiscipline_paintOnce :
    let r := exec (step {}) [] {} paintOnce
    r.2.spraying = true ∧ OnDiscipline {} r.1 r.2 :=
  ⟨by decide +kernel, onDiscipline (exec_run paintOnce .start)⟩

end Dyx3.Spray.Fsm
