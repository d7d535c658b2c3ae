import Mathlib.Data.List.Basic

/-!
Runs of a machine `step : S → E → S × O` together with their history.

A history lists the events with the machine's answers, newest first, so that "since", "the last"
and "before" are a prefix, the head and the tail. A run may carry a guard on each of its steps:
`ok h s e` may look at the history, the state before the step and the event.
-/

namespace Dyx3.Lib

/-- One entry of a history: an event and the machine's answer to it. -/
structure Entry (E O : Type*) where
  event : E
  out : O
  deriving DecidableEq, Repr

variable {S E O α : Type*}

inductive RunIf (step : S → E → S × O) (ok : List (Entry E O) → S → E → Prop) (s₀ : S) :
    List (Entry E O) → S → Prop where
  | start : RunIf step ok s₀ [] s₀
  | next {h : List (Entry E O)} {s : S} (run : RunIf step ok s₀ h s) (e : E) (guard : ok h s e) :
      RunIf step ok s₀ (⟨e, (step s e).2⟩ :: h) (step s e).1

/-- A run with no guard: every event may come in every state. -/
abbrev Run (step : S → E → S × O) (s₀ : S) : List (Entry E O) → S → Prop :=
  RunIf step (fun _ _ _ => True) s₀

variable {step : S → E → S × O} {ok : List (Entry E O) → S → E → Prop} {s₀ s : S} {h : List (Entry E O)}

theorem RunIf.run (run : RunIf step ok s₀ h s) : Run step s₀ h s := by
  induction run with
  | start => exact .start
  | next _ e _ ih => exact .next ih e trivial

/-- The invariant rule: what holds at the start and is kept by every guarded step holds of every
history with the state it leads to. -/
theorem RunIf.invariant (run : RunIf step ok s₀ h s) (inv : List (Entry E O) → S → Prop)
    (start : inv [] s₀)
    (keep : ∀ h s e, inv h s → ok h s e → inv (⟨e, (step s e).2⟩ :: h) (step s e).1) : inv h s := by
  induction run with
  | start => exact start
  | next _ e guard ih => exact keep _ _ e ih guard

theorem RunIf.append {h' : List (Entry E O)} {s' : S} (later : Run step s h' s') (run : Run step s₀ h s) :
    Run step s₀ (h' ++ h) s' := by
  induction later with
  | start => exact run
  | next _ e _ ih => exact ih.next e trivial

/-- The run that feeds `events` (oldest first) to the machine, continuing the history `h`. -/
def exec (step : S → E → S × O) : List (Entry E O) → S → List E → List (Entry E O) × S
  | h, s, [] => (h, s)
  | h, s, e :: events => exec step (⟨e, (step s e).2⟩ :: h) (step s e).1 events

theorem exec_run (events : List E) (run : Run step s₀ h s) :
    Run step s₀ (exec step h s events).1 (exec step h s events).2 := by
  induction events generalizing h s with
  | nil => exact run
  | cons e events ih => exact ih (run.next e trivial)

/-- Every event of `events` meets the guard where it comes in the run that feeds them. -/
def Guarded (step : S → E → S × O) (ok : List (Entry E O) → S → E → Prop) : List (Entry E O) → S → List E → Prop
  | _, _, [] => True
  | h, s, e :: events => ok h s e ∧ Guarded step ok (⟨e, (step s e).2⟩ :: h) (step s e).1 events

instance decidableGuarded [∀ h s e, Decidable (ok h s e)] :
    ∀ (events : List E) (h : List (Entry E O)) (s : S), Decidable (Guarded step ok h s events)
  | [], _, _ => isTrue trivial
  | e :: events, h, s =>
    have := decidableGuarded events (⟨e, (step s e).2⟩ :: h) (step s e).1
    inferInstanceAs (Decidable (ok h s e ∧ Guarded step ok (⟨e, (step s e).2⟩ :: h) (step s e).1 events))

theorem exec_runIf (events : List E) (guarded : Guarded step ok h s events) (run : RunIf step ok s₀ h s) :
    RunIf step ok s₀ (exec step h s events).1 (exec step h s events).2 := by
  induction events generalizing h s with
  | nil => exact run
  | cons e events ih => exact ih guarded.2 (run.next e guarded.1)

theorem exec_concat (events : List E) (e : E) (h : List (Entry E O)) (s : S) :
    exec step h s (events ++ [e]) =
      (⟨e, (step (exec step h s events).2 e).2⟩ :: (exec step h s events).1, (step (exec step h s events).2 e).1) := by
  induction events generalizing h s with
  | nil => rfl
  | cons e events ih => exact ih _ _

/-- Where a run ends does not depend on the history it continues. -/
theorem exec_state (events : List E) (h h' : List (Entry E O)) (s : S) :
    (exec step h s events).2 = (exec step h' s events).2 := by
  induction events generalizing h h' s with
  | nil => rfl
  | cons e events ih => exact ih _ _ _

theorem exec_append (events later : List E) (h : List (Entry E O)) (s : S) :
    (exec step h s (events ++ later)).2 = (exec step h (exec step h s events).2 later).2 := by
  induction events generalizing h s with
  | nil => rfl
  | cons e events ih =>
    rw [List.cons_append, exec, exec, ih]
    exact exec_state _ _ _ _

/-- One event more after the run that feeds `events`. -/
theorem runIf_concat {events : List E} {e : E}
    (run : RunIf step ok s₀ (exec step h s events).1 (exec step h s events).2)
    (guard : ok (exec step h s events).1 (exec step h s events).2 e) :
    RunIf step ok s₀ (exec step h s (events ++ [e])).1 (exec step h s (events ++ [e])).2 := by
  rw [exec_concat]
  exact run.next e guard

/-- `q x earlier` holds of every entry `x` with the history `earlier` before it. -/
def Everywhere (q : α → List α → Prop) : List α → Prop
  | [] => True
  | x :: earlier => q x earlier ∧ Everywhere q earlier

theorem everywhere_append {q : α → List α → Prop} {later earlier : List α}
    (all : Everywhere q (later ++ earlier)) : Everywhere q earlier := by
  induction later with
  | nil => exact all
  | cons x later ih => exact ih all.2

theorem everywhere_split {q : α → List α → Prop} {later earlier : List α} {x : α}
    (all : Everywhere q (later ++ x :: earlier)) : q x earlier :=
  (everywhere_append all).1

/-- Where an entry of an extended history lies: it is the new one, or it was there before. -/
theorem cons_split {y x : α} {l mid old : List α} (same : y :: l = mid ++ x :: old) :
    (mid = [] ∧ y = x ∧ l = old) ∨ ∃ mid', mid = y :: mid' ∧ l = mid' ++ x :: old := by
  cases mid with
  | nil =>
    obtain ⟨rfl, rfl⟩ := List.cons.inj same
    exact .inl ⟨rfl, rfl, rfl⟩
  | cons z mid =>
    obtain ⟨rfl, rfl⟩ := List.cons.inj same
    exact .inr ⟨mid, rfl, rfl⟩

/-- Two entries of one history: when `x` is not among the entries after `z`, it came before `z`. -/
theorem split_before {x z : α} {mid old later earlier : List α} (same : mid ++ z :: old = later ++ x :: earlier)
    (absent : x ∉ mid) (other : x ≠ z) : ∃ between, later = mid ++ z :: between ∧ old = between ++ x :: earlier := by
  induction mid generalizing later with
  | nil =>
    rcases cons_split same with ⟨_, found, _⟩ | ⟨between, rfl, rest⟩
    · exact absurd found.symm other
    · exact ⟨between, rfl, rest⟩
  | cons y mid ih =>
    rcases cons_split same with ⟨_, rfl, _⟩ | ⟨later, rfl, rest⟩
    · simp at absent
    · obtain ⟨between, rfl, rfl⟩ := ih rest fun member => absent (by simp [member])
      exact ⟨between, rfl, rfl⟩

/-- `x` is the newest entry of `h` with `p`, and `since` are the entries after it. -/
def Latest (p : α → Prop) (h since : List α) (x : α) : Prop :=
  ∃ older, h = since ++ x :: older ∧ p x ∧ ∀ y ∈ since, ¬ p y

variable {p : α → Prop} {l since : List α} {x y : α}

theorem Latest.new (l : List α) (holds : p x) : Latest p (x :: l) [] x :=
  ⟨l, rfl, holds, by simp⟩

theorem Latest.keep (fails : ¬ p y) (latest : Latest p l since x) :
    Latest p (y :: l) (y :: since) x := by
  obtain ⟨older, rfl, holds, none⟩ := latest
  refine ⟨older, rfl, holds, ?_⟩
  intro z member
  rcases List.mem_cons.mp member with rfl | member
  · exact fails
  · exact none z member

/-- The newest entry with `p` of an extended history is the new one or it was there before. -/
theorem Latest.cons_cases (latest : Latest p (y :: l) since x) :
    (since = [] ∧ y = x ∧ p y) ∨ ∃ since', since = y :: since' ∧ ¬ p y ∧ Latest p l since' x := by
  obtain ⟨older, split, holds, none⟩ := latest
  rcases cons_split split with ⟨rfl, rfl, rfl⟩ | ⟨since', rfl, rfl⟩
  · exact .inl ⟨rfl, rfl, holds⟩
  · refine .inr ⟨since', rfl, none y List.mem_cons_self, older, rfl, holds, ?_⟩
    intro z member
    exact none z (List.mem_cons_of_mem y member)

/-- From `y` on every entry of `h` is `good`. -/
def Unbroken (good : α → Prop) (h : List α) (y : α) : Prop := ∃ mid old, h = mid ++ y :: old ∧ good y ∧ ∀ z ∈ mid, good z

theorem Unbroken.new {good : α → Prop} {x : α} (holds : good x) (h : List α) : Unbroken good (x :: h) x :=
  ⟨[], h, rfl, holds, by simp⟩

theorem Unbroken.cons {good : α → Prop} {h : List α} {x y : α} (unbroken : Unbroken good h y) (holds : good x) :
    Unbroken good (x :: h) y := by
  obtain ⟨mid, old, rfl, first, others⟩ := unbroken
  exact ⟨x :: mid, old, rfl, first, List.forall_mem_cons.mpr ⟨holds, others⟩⟩

theorem Unbroken.head {good : α → Prop} {h : List α} {x y : α} (unbroken : Unbroken good (x :: h) y) : good x := by
  obtain ⟨mid, old, split, first, others⟩ := unbroken
  rcases cons_split split with ⟨_, rfl, _⟩ | ⟨mid, rfl, _⟩
  · exact first
  · exact others x List.mem_cons_self

/-- The last entry of a list that satisfies `p`. -/
def lastWhere (p : α → Bool) (l : List α) : Option α := (l.filter p).getLast?

theorem lastWhere_append (p : α → Bool) (l l' : List α) :
    lastWhere p (l ++ l') = (lastWhere p l').or (lastWhere p l) := by
  simp only [lastWhere, List.filter_append, List.getLast?_append]

theorem lastWhere_singleton (p : α → Bool) (x : α) : lastWhere p [x] = if p x then some x else none := by
  unfold lastWhere
  cases test : p x <;> simp [test]

theorem lastWhere_mem {p : α → Bool} {l : List α} {x : α} (last : lastWhere p l = some x) : x ∈ l ∧ p x = true :=
  List.mem_filter.mp (List.mem_of_getLast? last)

theorem lastWhere_none {p : α → Bool} {l : List α} (none : lastWhere p l = none) : ∀ x ∈ l, p x = false := by
  intro x member
  have empty := List.getLast?_eq_none_iff.mp none
  by_contra holds
  have kept : x ∈ l.filter p := List.mem_filter.mpr ⟨member, by simpa using holds⟩
  rw [empty] at kept
  exact absurd kept List.not_mem_nil

end Dyx3.Lib
