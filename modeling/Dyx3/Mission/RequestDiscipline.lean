import Mathlib.Data.List.Nodup
import Dyx3.Mission.Px4Sequencer

/-!
The requests of `Px4Sequencer` over any sequence of its calls: their ids, their outcomes, and what a release
leaves to be sent.
-/

namespace Dyx3.Mission.Px4Sequencer

open Lib

def IsBegin (x : Record) : Prop := x.event = .beginExecution

def IsRelease (x : Record) : Prop := ∃ force, x.event = .release force

@[simp] theorem sent_cons (x : Record) (h : List Record) : sent (x :: h) = x.out.request.toList ++ sent h := by
  rw [sent, List.filterMap_cons]
  cases x.out.request <;> rfl

@[simp] theorem outcomes_cons (x : Record) (h : List Record) : outcomes (x :: h) = x.out.outcomes ++ outcomes h := by
  simp [outcomes]

@[simp] theorem sent_append (later earlier : List Record) : sent (later ++ earlier) = sent later ++ sent earlier := by
  simp [sent]

@[simp] theorem outcomes_append (later earlier : List Record) :
    outcomes (later ++ earlier) = outcomes later ++ outcomes earlier := by
  simp [outcomes]

/-! ### Ids -/

/-- Every id is below the counter, and is either still in flight or has at most one outcome. -/
structure Numbered (h : List Record) (s : Px4Sequencer) : Prop where
  below : ∀ r ∈ sent h, r.id < s.nextId
  increasing : (sent h).Pairwise fun later earlier => earlier.id < later.id
  flying : ∀ f ∈ s.flights, f.req ∈ sent h
  answered : ∀ o ∈ outcomes h, ∃ r ∈ sent h, r.id = o.id
  once : ((outcomes h).map Px4Outcome.id ++ s.flights.map (·.req.id)).Nodup

theorem Numbered.unique {h : List Record} {s : Px4Sequencer} (n : Numbered h s) {r r' : Px4Request} (mem : r ∈ sent h)
    (mem' : r' ∈ sent h) (same : r.id = r'.id) : r = r' := by
  have nodup : ((sent h).map Px4Request.id).Nodup := List.pairwise_map.mpr (n.increasing.imp fun lt => lt.ne')
  exact List.inj_on_of_nodup_map nodup mem mem' same

theorem Numbered.quiet {h : List Record} {s s' : Px4Sequencer} {x : Record} (n : Numbered h s)
    (request : x.out.request = none) (outcomes : x.out.outcomes = []) (nextId : s'.nextId = s.nextId)
    (flights : s'.flights.map Flight.req = s.flights.map Flight.req) : Numbered (x :: h) s' := by
  have same : s'.flights.map (·.req.id) = s.flights.map (·.req.id) := by
    simpa [Function.comp_def] using congrArg (List.map Px4Request.id) flights
  refine ⟨?_, ?_, fun f mem => ?_, ?_, ?_⟩
  · simpa [request, nextId] using n.below
  · simpa [request] using n.increasing
  · obtain ⟨g, inside, eq⟩ := List.mem_map.mp (flights ▸ List.mem_map_of_mem mem)
    simpa [request, ← eq] using n.flying g inside
  · simpa [request, outcomes] using n.answered
  · simpa [outcomes, same] using n.once

theorem Numbered.settles {h : List Record} {s s' : Px4Sequencer} {x : Record} (n : Numbered h s)
    (request : x.out.request = none) (settles : Settles s s' x.out.outcomes) : Numbered (x :: h) s' := by
  refine ⟨?_, ?_, fun f mem => ?_, ?_, ?_⟩
  · simpa [request, settles.nextId] using n.below
  · simpa [request] using n.increasing
  · simpa [request] using n.flying f (settles.left.subset mem)
  · intro o mem
    rw [outcomes_cons, List.mem_append] at mem
    rcases mem with new | old
    · obtain ⟨f, inside, req, -⟩ := settles.origin o new
      exact ⟨f.req, by simpa [request] using n.flying f inside, by rw [req]⟩
    · simpa [request] using n.answered o old
  · -- the outcomes take the ids of the flights they settle
    have perm : ((outcomes (x :: h)).map Px4Outcome.id ++ s'.flights.map (·.req.id)).Perm
        ((outcomes h).map Px4Outcome.id ++ s.flights.map (·.req.id)) := by
      rw [outcomes_cons, List.map_append, List.append_assoc]
      refine List.perm_append_comm.trans ?_
      rw [List.append_assoc]
      exact (List.perm_append_comm.trans settles.ids).append_left _
    exact perm.nodup_iff.mpr n.once

theorem Numbered.next {h : List Record} {s : Px4Sequencer} (n : Numbered h s) (now : ℤ) :
    Numbered (⟨.next now, (s.call (.next now)).2⟩ :: h) (s.call (.next now)).1 := by
  simp only [call]
  rcases next_cases s now with none | ⟨op, rest, -, -, some⟩
  · rw [none]
    exact n.quiet rfl rfl rfl rfl
  · rw [some]
    have fresh : ∀ id ∈ (outcomes h).map Px4Outcome.id ++ s.flights.map (·.req.id), id < s.nextId := by
      rw [List.forall_mem_append]
      constructor
      · intro id mem
        obtain ⟨o, inside, rfl⟩ := List.mem_map.mp mem
        obtain ⟨r, sent, same⟩ := n.answered o inside
        exact same ▸ n.below r sent
      · intro id mem
        obtain ⟨f, inside, rfl⟩ := List.mem_map.mp mem
        exact n.below f.req (n.flying f inside)
    refine ⟨?_, ?_, ?_, ?_, ?_⟩
    · simp only [sent_cons, Option.toList_some, List.singleton_append, List.forall_mem_cons]
      exact ⟨Nat.lt_succ_self _, fun r mem => (n.below r mem).trans (Nat.lt_succ_self _)⟩
    · simp only [sent_cons, Option.toList_some, List.singleton_append, List.pairwise_cons]
      exact ⟨n.below, n.increasing⟩
    · simp only [sent_cons, Option.toList_some, List.singleton_append, List.forall_mem_append, List.mem_cons]
      exact ⟨fun f mem => .inr (n.flying f mem), by simp⟩
    · intro o mem
      obtain ⟨r, inside, same⟩ := n.answered o (by simpa using mem)
      exact ⟨r, by simp [inside], same⟩
    · simp only [outcomes_cons, List.nil_append, List.map_append, List.map_cons, List.map_nil, ← List.append_assoc]
      rw [List.nodup_append]
      refine ⟨n.once, List.nodup_singleton _, fun id mem id' mem' => ?_⟩
      rw [List.mem_singleton.mp mem']
      exact (fresh id mem).ne

theorem Numbered.begin {h : List Record} {s : Px4Sequencer} (n : Numbered h s) :
    Numbered (⟨.beginExecution, {}⟩ :: h) s.beginExecution := by
  refine ⟨by simpa [beginExecution] using n.below, by simpa using n.increasing, by simp [beginExecution],
    by simpa using n.answered, ?_⟩
  simpa [beginExecution] using n.once.of_append_left

theorem numbered {h : List Record} {s : Px4Sequencer} (run : Run call {} h s) : Numbered h s := by
  refine run.invariant _ ⟨by simp [sent], by simp [sent], by simp, by simp [outcomes], by simp [outcomes]⟩ ?_
  intro h s c n _
  cases c with
  | setTimeouts t => exact n.quiet rfl rfl rfl rfl
  | beginExecution => exact n.begin
  | engage op =>
    rcases engage_cases s op with same | ⟨_, _, added⟩
    · exact n.quiet rfl rfl (by simp only [call, same]) (by simp only [call, same])
    · exact n.quiet rfl rfl (by simp only [call, added]) (by simp only [call, added])
  | release force =>
    rcases release_cases s force with ⟨_, same | ⟨_, added⟩⟩ | ⟨_, released⟩
    · exact n.quiet rfl rfl (by simp only [call, same]) (by simp only [call, same])
    · exact n.quiet rfl rfl (by simp only [call, added]) (by simp only [call, added])
    · refine n.quiet rfl rfl (by simp only [call, released]) ?_
      simp only [call, released, List.map_map]
      rfl
  | next now => exact n.next now
  | onResponse id accepted reason => exact n.settles rfl (onResponse_settles s id accepted reason)
  | onTick now => exact n.settles rfl (onTick_settles s now)

theorem shaped {h : List Record} {s : Px4Sequencer} (run : Run call {} h s) : Shaped s :=
  run.invariant (fun _ s => Shaped s) shaped_start fun _ _ c ih _ => ih.call c

/-! ### After a release -/

/-- A release without a new execution since. -/
def ReleasedIn (h : List Record) : Prop :=
  ∃ later x old, h = later ++ x :: old ∧ IsRelease x ∧ ∀ y ∈ later, ¬IsBegin y

theorem call_releasing (s : Px4Sequencer) {c : Call} (other : c ≠ .beginExecution) (h : s.releasing = true) :
    (s.call c).1.releasing = true := by
  cases c with
  | beginExecution => exact absurd rfl other
  | setTimeouts t => exact h
  | engage op => rcases engage_cases s op with same | ⟨_, _, added⟩ <;> simp [call, *]
  | release force => rcases release_cases s force with ⟨_, same | ⟨_, added⟩⟩ | ⟨_, released⟩ <;> simp [call, *]
  | next now => rcases next_cases s now with none | ⟨_, _, _, _, some⟩ <;> simp [call, *]
  | onResponse id accepted reason => exact (onResponse_settles s id accepted reason).releasing.trans h
  | onTick now => exact (onTick_settles s now).releasing.trans h

theorem releasing_of_released {h : List Record} {s : Px4Sequencer} (run : Run call {} h s) (released : ReleasedIn h) :
    s.releasing = true := by
  induction run with
  | start =>
    obtain ⟨later, x, old, same, -⟩ := released
    simp at same
  | @next h s run c _ ih =>
    obtain ⟨later, x, old, same, ⟨force, event⟩, clean⟩ := released
    rcases cons_split same with ⟨rfl, rfl, rfl⟩ | ⟨later, rfl, rfl⟩
    · obtain rfl : c = .release force := event
      exact release_releasing s force
    · rw [List.forall_mem_cons] at clean
      exact call_releasing s clean.1 (ih ⟨later, x, old, rfl, ⟨force, event⟩, clean.2⟩)

/-- A call that sends a request sends the head of the queue, while nothing but abandoned flights is out. -/
theorem call_request {s : Px4Sequencer} {c : Call} {r : Px4Request} (h : (s.call c).2.request = some r) :
    (∃ rest, s.queue = r.op :: rest) ∧ ∀ f ∈ s.flights, f.abandoned = true := by
  cases c with
  | next now =>
    rcases next_cases s now with none | ⟨op, rest, queue, free, some⟩
    · simp [call, none] at h
    · simp only [call, some, Option.some_inj] at h
      exact ⟨⟨rest, h ▸ queue⟩, free⟩
  | _ => simp [call] at h

/-- An outcome is one of a flight. -/
theorem call_outcome {s : Px4Sequencer} {c : Call} {o : Px4Outcome} (h : o ∈ (s.call c).2.outcomes) :
    ∃ f ∈ s.flights, f.req = ⟨o.op, o.id⟩ ∧ f.abandoned = o.abandoned := by
  cases c with
  | onResponse id accepted reason => exact (onResponse_settles s id accepted reason).origin o h
  | onTick now => exact (onTick_settles s now).origin o h
  | _ => simp [call] at h

theorem released_request {h : List Record} {s : Px4Sequencer} (run : Run call {} h s) {later old : List Record}
    {x : Record} (same : h = later ++ x :: old) (release : IsRelease x) (clean : ∀ y ∈ later, ¬IsBegin y) :
    ∀ r ∈ sent later, r.op.isRelease = true := by
  induction run generalizing later with
  | start => simp at same
  | @next h s run c _ ih =>
    rcases cons_split same with ⟨rfl, -, -⟩ | ⟨later, rfl, rfl⟩
    · simp [sent]
    · rw [List.forall_mem_cons] at clean
      rw [sent_cons, List.forall_mem_append]
      refine ⟨fun r mem => ?_, ih rfl clean.2⟩
      obtain ⟨⟨rest, queue⟩, -⟩ := call_request (Option.mem_toList.mp mem)
      have order := (shaped run).order (releasing_of_released run ⟨later, x, old, rfl, release, clean.2⟩)
      have head : r.op ∈ [Px4Op.offboardOff, .disarm] := order.subset (by simp [queue])
      rcases List.mem_pair.mp head with same | same <;> simp [same, Px4Op.isRelease]

/-- A flight sent before a release is still of that release's execution. -/
theorem released_flight {h : List Record} {s : Px4Sequencer} (run : Run call {} h s) {later old : List Record}
    {x : Record} (same : h = later ++ x :: old) (release : IsRelease x) {f : Flight} (mem : f ∈ s.flights)
    (before : f.req ∈ sent old) : s.releasing = true := by
  induction run generalizing later f with
  | start => simp at same
  | @next h s run c _ ih =>
    rcases cons_split same with ⟨rfl, rfl, rfl⟩ | ⟨later, rfl, rfl⟩
    · obtain ⟨force, event⟩ := release
      obtain rfl : c = .release force := event
      exact release_releasing s force
    · cases c with
      | beginExecution => simp [call, beginExecution] at mem
      | next now =>
        rcases next_cases s now with none | ⟨op, rest, queue, free, some⟩
        · rw [call, none] at mem ⊢
          exact ih rfl mem before
        · rw [call, some] at mem ⊢
          rcases List.mem_append.mp mem with mem | new
          · exact ih rfl mem before
          · -- the new flight's id is above every id sent before
            rw [List.mem_singleton.mp new] at before
            have earlier : (⟨op, s.nextId⟩ : Px4Request) ∈ sent (later ++ x :: old) := by
              rw [sent_append, sent_cons]
              exact List.mem_append_right _ (List.mem_append_right _ before)
            exact absurd ((numbered run).below _ earlier) (Nat.lt_irrefl _)
      | setTimeouts t => exact ih rfl mem before
      | engage op =>
        rcases engage_cases s op with none | ⟨_, _, added⟩
        · rw [call, none] at mem ⊢
          exact ih rfl mem before
        · rw [call, added] at mem ⊢
          exact ih rfl mem before
      | release force => exact release_releasing s force
      | onResponse id accepted reason =>
        have settles := onResponse_settles s id accepted reason
        exact settles.releasing.trans (ih rfl (settles.left.subset mem) before)
      | onTick now =>
        have settles := onTick_settles s now
        exact settles.releasing.trans (ih rfl (settles.left.subset mem) before)

/-- The outcome of an engage request that a release overtook is marked. -/
theorem overtaken_outcome {h : List Record} {s : Px4Sequencer} (run : Run call {} h s) {later old : List Record}
    {x : Record} (same : h = later ++ x :: old) (release : IsRelease x) {r : Px4Request} (before : r ∈ sent old)
    (engage : r.op.isRelease = false) : ∀ o ∈ outcomes later, o.id = r.id → o.abandoned = true := by
  induction run generalizing later with
  | start => simp at same
  | @next h s run c _ ih =>
    rcases cons_split same with ⟨rfl, -, -⟩ | ⟨later, rfl, rfl⟩
    · simp [outcomes]
    · rw [outcomes_cons, List.forall_mem_append]
      refine ⟨fun o mem id => ?_, ih rfl⟩
      obtain ⟨f, inside, req, mark⟩ := call_outcome mem
      -- ids are unique, so the flight is the one of `r`
      have numbers := numbered run
      have eq : f.req = r := numbers.unique (numbers.flying f inside) (by simp [before]) (by rw [req]; exact id)
      rw [← mark, (shaped run).overtaken (released_flight run rfl release inside (eq ▸ before)) f inside, eq, engage]
      rfl

/-! ### OFFBOARD is released before the disarm -/

/-- The OffboardOff with this id is in flight or has its outcome. -/
def Awaits (id : ℕ) (later : List Record) (s : Px4Sequencer) : Prop :=
  (∃ f ∈ s.flights, f.req = ⟨.offboardOff, id⟩) ∨ ∃ o ∈ outcomes later, o.id = id

theorem Awaits.call {id : ℕ} {later : List Record} {s : Px4Sequencer} (h : Awaits id later s)
    (releasing : s.releasing = true) {c : Call} (other : c ≠ .beginExecution) :
    Awaits id (⟨c, (s.call c).2⟩ :: later) (s.call c).1 := by
  rcases h with ⟨f, mem, req⟩ | ⟨o, mem, same⟩
  · have settled : ∀ {s' : Px4Sequencer} {out : List Px4Outcome}, Settles s s' out →
        (∃ g ∈ s'.flights, g.req = ⟨.offboardOff, id⟩) ∨ ∃ o ∈ out, o.id = id := by
      intro s' out settles
      rcases settles.kept f mem with kept | ⟨o, inside, same⟩
      · exact .inl ⟨f, kept, req⟩
      · exact .inr ⟨o, inside, by rw [same, req]⟩
    cases c with
    | beginExecution => exact absurd rfl other
    | setTimeouts t => exact .inl ⟨f, mem, req⟩
    | engage op =>
      rcases engage_cases s op with none | ⟨fresh, -, -⟩
      · exact .inl ⟨f, by rwa [Px4Sequencer.call, none], req⟩
      · simp [releasing] at fresh
    | release force =>
      rcases release_cases s force with ⟨_, none | ⟨_, added⟩⟩ | ⟨fresh, _⟩
      · exact .inl ⟨f, by rwa [Px4Sequencer.call, none], req⟩
      · exact .inl ⟨f, by rwa [Px4Sequencer.call, added], req⟩
      · simp [releasing] at fresh
    | next now =>
      rcases next_cases s now with none | ⟨op, rest, _, _, some⟩
      · exact .inl ⟨f, by rwa [Px4Sequencer.call, none], req⟩
      · exact .inl ⟨f, by rw [Px4Sequencer.call, some]; exact List.mem_append_left _ mem, req⟩
    | onResponse i accepted reason =>
      rcases settled (onResponse_settles s i accepted reason) with flying | ⟨o, inside, same⟩
      · exact .inl flying
      · exact .inr ⟨o, by rw [outcomes_cons]; exact List.mem_append_left _ inside, same⟩
    | onTick now =>
      rcases settled (onTick_settles s now) with flying | ⟨o, inside, same⟩
      · exact .inl flying
      · exact .inr ⟨o, by rw [outcomes_cons]; exact List.mem_append_left _ inside, same⟩
  · exact .inr ⟨o, by rw [outcomes_cons]; exact List.mem_append_right _ mem, same⟩

/-- The OffboardOff is still queued, or it was sent and is awaited. -/
def OffFirst (later : List Record) (s : Px4Sequencer) : Prop :=
  Px4Op.offboardOff ∈ s.queue ∨ ∃ id, ⟨.offboardOff, id⟩ ∈ sent later ∧ Awaits id later s

theorem OffFirst.call {later : List Record} {s : Px4Sequencer} (h : OffFirst later s) (releasing : s.releasing = true)
    {c : Call} (other : c ≠ .beginExecution) : OffFirst (⟨c, (s.call c).2⟩ :: later) (s.call c).1 := by
  rcases h with queued | ⟨id, mem, awaits⟩
  · cases c with
    | beginExecution => exact absurd rfl other
    | setTimeouts t => exact .inl queued
    | engage op =>
      rcases engage_cases s op with none | ⟨fresh, -, -⟩
      · exact .inl (by rwa [Px4Sequencer.call, none])
      · simp [releasing] at fresh
    | release force =>
      rcases release_cases s force with ⟨_, none | ⟨_, added⟩⟩ | ⟨fresh, _⟩
      · exact .inl (by rwa [Px4Sequencer.call, none])
      · exact .inl (by rw [Px4Sequencer.call, added]; exact List.mem_append_left _ queued)
      · simp [releasing] at fresh
    | next now =>
      rcases next_cases s now with none | ⟨op, rest, queue, _, some⟩
      · exact .inl (by rwa [Px4Sequencer.call, none])
      · rw [queue] at queued
        rcases List.mem_cons.mp queued with rfl | queued
        · refine .inr ⟨s.nextId, by simp [Px4Sequencer.call, some], .inl
            ⟨⟨⟨.offboardOff, s.nextId⟩, s.deadlineOf .offboardOff now, false⟩, ?_, rfl⟩⟩
          rw [Px4Sequencer.call, some]
          exact List.mem_append_right _ (List.mem_singleton_self _)
        · exact .inl (by rwa [Px4Sequencer.call, some])
    | onResponse id accepted reason => exact .inl ((onResponse_settles s id accepted reason).queue ▸ queued)
    | onTick now => exact .inl ((onTick_settles s now).queue ▸ queued)
  · exact .inr ⟨id, by rw [sent_cons]; exact List.mem_append_right _ mem, awaits.call releasing other⟩

/-- When a disarm goes out nothing is left of an OffboardOff. -/
theorem disarm_last {s : Px4Sequencer} (shape : Shaped s) (releasing : s.releasing = true) {c : Call} {d : Px4Request}
    (request : (s.call c).2.request = some d) (disarm : d.op = .disarm) :
    Px4Op.offboardOff ∉ s.queue ∧ ∀ f ∈ s.flights, f.req.op ≠ .offboardOff := by
  obtain ⟨⟨rest, queue⟩, free⟩ := call_request request
  have order := shape.order releasing
  rw [queue, disarm] at order
  constructor
  · have short : (Px4Op.disarm :: rest).Sublist [.disarm] := by
      cases order with
      | cons _ rest => exact rest
    rw [queue, disarm]
    intro mem
    simpa using short.subset mem
  · intro f mem op
    have mark := shape.overtaken releasing f mem
    rw [free f mem, op] at mark
    simp [Px4Op.isRelease] at mark

/-- A run on from a state that releases. -/
theorem released_run {s s' : Px4Sequencer} {later : List Record} (run : Run call s later s')
    (clean : ∀ y ∈ later, ¬IsBegin y) (releasing : s.releasing = true) (inv : List Record → Px4Sequencer → Prop)
    (start : inv [] s)
    (keep : ∀ later s c, inv later s → s.releasing = true → c ≠ .beginExecution →
      inv (⟨c, (s.call c).2⟩ :: later) (s.call c).1) : inv later s' ∧ s'.releasing = true := by
  induction run with
  | start => exact ⟨start, releasing⟩
  | next _ c _ ih =>
    rw [List.forall_mem_cons] at clean
    obtain ⟨held, releasing⟩ := ih clean.2
    exact ⟨keep _ _ c held releasing clean.1, call_releasing _ clean.1 releasing⟩

/-! ### The discipline -/

/-- What holds of a history and the state it leads to: ids go up, one flight that counts, one outcome an id, no
engage step after a release, an overtaken engage step is marked, and OFFBOARD is released before the disarm. -/
structure Disciplined (h : List Record) (s : Px4Sequencer) : Prop where
  increasing : (sent h).Pairwise fun later earlier => earlier.id < later.id
  oneFlight : (s.flights.filter fun f => !f.abandoned).length ≤ 1
  oneOutcome : ((outcomes h).map Px4Outcome.id).Nodup
  noEngage : ∀ later x old, h = later ++ x :: old → IsRelease x → (∀ y ∈ later, ¬IsBegin y) →
    ∀ r ∈ sent later, r.op.isRelease = true
  overtaken : ∀ later x old, h = later ++ x :: old → IsRelease x → ∀ r ∈ sent old, r.op.isRelease = false →
    ∀ o ∈ outcomes later, o.id = r.id → o.abandoned = true
  ordered : ∀ later s', Run call s later s' → (∀ y ∈ later, ¬IsBegin y) →
    ∀ c d, (s'.call c).2.request = some d → d.op = .disarm →
      (∀ front back, s.queue = front ++ .offboardOff :: back → .disarm ∈ back →
        ∃ r ∈ sent later, r.op = .offboardOff ∧ ∃ o ∈ outcomes later, o.id = r.id) ∧
      ∀ f ∈ s.flights, f.req.op = .offboardOff → .disarm ∈ s.queue → ∃ o ∈ outcomes later, o.id = f.req.id

theorem Shaped.oneFlight {s : Px4Sequencer} (h : Shaped s) : (s.flights.filter fun f => !f.abandoned).length ≤ 1 := by
  have pair := h.one.filter fun f => !f.abandoned
  match live : s.flights.filter fun f => !f.abandoned with
  | [] => simp [live]
  | [_] => simp [live]
  | f :: g :: rest =>
    have marks : ∀ x ∈ f :: g :: rest, x.abandoned = false := by
      intro x mem
      rw [← live] at mem
      simpa using List.of_mem_filter mem
    rw [live, List.pairwise_cons] at pair
    have both := pair.1 g List.mem_cons_self
    simp [marks f (by simp), marks g (by simp)] at both

theorem requests_disciplined {h : List Record} {s : Px4Sequencer} (run : Run call {} h s) : Disciplined h s := by
  have shape := shaped run
  refine ⟨(numbered run).increasing, shape.oneFlight, (numbered run).once.of_append_left,
    fun later x old same release clean => released_request run same release clean,
    fun later x old same release r before engage => overtaken_outcome run same release before engage, ?_⟩
  intro later s' on clean c d request disarm
  have shape' := shaped (on.append run)
  constructor
  · intro front back queue _
    have queued : Px4Op.offboardOff ∈ s.queue := by simp [queue]
    have releasing : s.releasing = true := by
      by_contra fresh
      simpa [Px4Op.isRelease] using shape.engaging (by simpa using fresh) _ queued
    obtain ⟨first, releasing'⟩ := released_run on clean releasing OffFirst (.inl queued) fun _ _ _ h r o => h.call r o
    obtain ⟨empty, free⟩ := disarm_last shape' releasing' request disarm
    rcases first with queued | ⟨id, mem, ⟨f, flying, req⟩ | answered⟩
    · exact absurd queued empty
    · exact absurd (by rw [req]) (free f flying)
    · exact ⟨_, mem, rfl, answered⟩
  · intro f mem op _
    have releasing : s.releasing = true := by
      by_contra fresh
      have := (shape.quiet (by simpa using fresh) f mem).1
      simp [op, Px4Op.isRelease] at this
    have start : Awaits f.req.id [] s := .inl ⟨f, mem, by rw [← op]⟩
    obtain ⟨awaits, releasing'⟩ := released_run on clean releasing (Awaits f.req.id) start fun _ _ _ h r o => h.call r o
    obtain ⟨-, free⟩ := disarm_last shape' releasing' request disarm
    rcases awaits with ⟨g, flying, req⟩ | answered
    · exact absurd (by rw [req]) (free g flying)
    · exact answered

/-- Arm, an E-stop release that overtakes it, the late answer and the disarm. -/
def overtakenArm : List Call :=
  [.beginExecution, .engage .arm, .next 0, .release true, .next 1, .onResponse 1 true 0, .onTick (10 ^ 12)]

theorem overtakenArm_disciplined : Disciplined (exec call [] {} overtakenArm).1 (exec call [] {} overtakenArm).2 :=
  requests_disciplined (exec_run overtakenArm .start)

/-! ### Ownership -/

/-- The entries since the execution began, none of them a release. -/
def SinceBegin (mid h : List Record) : Prop :=
  ∃ x old, h = mid ++ x :: old ∧ IsBegin x ∧ ∀ y ∈ mid, ¬IsBegin y ∧ ¬IsRelease y

def Denied (o : Px4Outcome) : Prop := o.result = .refused ∧ o.reasonCode ≠ armReasonTimeout

/-- The request was refused for another reason than a timeout. -/
def DeniedIn (mid : List Record) (id : ℕ) : Prop := ∃ o ∈ outcomes mid, o.id = id ∧ Denied o

/-- An arm request whose outcome so far is not a refusal. -/
def MayHaveArmed (mid : List Record) : Prop := ∃ r ∈ sent mid, r.op = .arm ∧ ¬DeniedIn mid r.id

/-- What the sequencer knows of the arm requests since the execution began. -/
structure Owns (mid : List Record) (s : Px4Sequencer) : Prop where
  quiet : s.releasing = false
  flying : ∀ f ∈ s.flights, f.req ∈ sent mid
  unanswered : ∀ f ∈ s.flights, ∀ o ∈ outcomes mid, o.id ≠ f.req.id
  airborne : s.arm = .inFlight ↔ ∃ f ∈ s.flights, f.req.op = .arm
  settled : s.arm = .confirmed ∨ s.arm = .doubt → s.armedEarlier = true
  earlier : s.armedEarlier = true ↔
    ∃ r ∈ sent mid, r.op = .arm ∧ (∀ f ∈ s.flights, f.req.id ≠ r.id) ∧ ¬DeniedIn mid r.id
  offboard : s.offboardRequested = true ↔ ∃ r ∈ sent mid, r.op = .offboardOn

theorem Owns.arm_owned {mid : List Record} {s : Px4Sequencer} (h : Owns mid s)
    (unique : ∀ r ∈ sent mid, ∀ r' ∈ sent mid, r.id = r'.id → r = r') : s.armOwned = true ↔ MayHaveArmed mid := by
  have owned : s.armOwned = true ↔ s.armedEarlier = true ∨ s.arm = .inFlight := by
    have := h.settled
    simp only [armOwned, Bool.or_eq_true, decide_eq_true_eq]
    tauto
  rw [owned, h.earlier, h.airborne]
  constructor
  · rintro (⟨r, mem, arm, -, denied⟩ | ⟨f, mem, arm⟩)
    · exact ⟨r, mem, arm, denied⟩
    · refine ⟨f.req, h.flying f mem, arm, ?_⟩
      rintro ⟨o, inside, same, -⟩
      exact h.unanswered f mem o inside same
  · rintro ⟨r, mem, arm, denied⟩
    by_cases out : ∃ f ∈ s.flights, f.req.id = r.id
    · obtain ⟨f, flying, same⟩ := out
      exact .inr ⟨f, flying, by rw [unique f.req (h.flying f flying) r mem same, arm]⟩
    · push Not at out
      exact .inl ⟨r, mem, arm, out, denied⟩

theorem noteOutcome_arm (s : Px4Sequencer) {o : Px4Outcome} (arm : o.op = .arm) :
    (s.noteOutcome o).arm ≠ .inFlight ∧
      ((s.noteOutcome o).arm = .confirmed ∨ (s.noteOutcome o).arm = .doubt → (s.noteOutcome o).armedEarlier = true) ∧
      ((s.noteOutcome o).armedEarlier = true ↔ s.armedEarlier = true ∨ ¬Denied o) := by
  unfold noteOutcome noteArmResult Denied
  rw [if_pos arm]
  cases o.result <;> by_cases timeout : o.reasonCode = armReasonTimeout <;> simp [timeout]

/-- Before the release there is at most one flight. -/
theorem Shaped.single {s : Px4Sequencer} (h : Shaped s) (fresh : s.releasing = false) :
    s.flights = [] ∨ ∃ f, s.flights = [f] := by
  match flights : s.flights with
  | [] => exact .inl rfl
  | [f] => exact .inr ⟨f, rfl⟩
  | f :: g :: rest =>
    have one := h.one
    have quiet := h.quiet fresh
    rw [flights, List.pairwise_cons] at one
    have both := one.1 g List.mem_cons_self
    simp [(quiet f (by simp [flights])).2, (quiet g (by simp [flights])).2] at both

/-- An answer or a tick while one request is out. -/
theorem call_settled {s : Px4Sequencer} {c : Call} (answer : (∃ id a r, c = .onResponse id a r) ∨ ∃ now, c = .onTick now)
    (single : s.flights = [] ∨ ∃ f, s.flights = [f]) :
    s.call c = (s, {}) ∨ ∃ f o, s.flights = [f] ∧ o.op = f.req.op ∧ o.id = f.req.id ∧
      s.call c = (({ s with flights := [] } : Px4Sequencer).noteOutcome o, { outcomes := [o] }) := by
  rcases answer with ⟨id, a, r, rfl⟩ | ⟨now, rfl⟩
  · rcases onResponse_cases s id a r with unknown | ⟨f, before, after, o, split, rfl, known⟩
    · exact .inl (by rw [call, unknown]; rfl)
    · rcases single with none | ⟨g, one⟩
      · simp [none] at split
      · rw [one] at split
        obtain ⟨rfl, rfl, rfl⟩ : before = [] ∧ g = f ∧ after = [] := by
          cases before <;> simp_all
        exact .inr ⟨g, _, one, rfl, rfl, by rw [call, known]; rfl⟩
  · rcases single with none | ⟨f, one⟩
    · exact .inl (by cases s; simp_all [call, onTick])
    · by_cases due : f.deadline ≤ now
      · exact .inr ⟨f, timedOut f, one, rfl, rfl, by simp [call, onTick, one, due]⟩
      · exact .inl (by cases s; simp_all [call, onTick])

theorem deniedIn_cons {mid : List Record} {x : Record} {o : Px4Outcome} (outcomes : x.out.outcomes = [o]) (id : ℕ) :
    DeniedIn (x :: mid) id ↔ (o.id = id ∧ Denied o) ∨ DeniedIn mid id := by
  simp [DeniedIn, outcomes, or_and_right, exists_or]

theorem Owns.still {mid : List Record} {s s' : Px4Sequencer} {x : Record} (h : Owns mid s)
    (request : x.out.request = none) (outcomes : x.out.outcomes = []) (flights : s'.flights = s.flights)
    (arm : s'.arm = s.arm) (earlier : s'.armedEarlier = s.armedEarlier)
    (offboard : s'.offboardRequested = s.offboardRequested) (releasing : s'.releasing = s.releasing) :
    Owns (x :: mid) s' := by
  have sent : sent (x :: mid) = sent mid := by simp [request]
  have outcomes : Px4Sequencer.outcomes (x :: mid) = Px4Sequencer.outcomes mid := by simp [outcomes]
  constructor
  · rw [releasing, h.quiet]
  · rw [flights, sent]
    exact h.flying
  · rw [flights, outcomes]
    exact h.unanswered
  · rw [flights, arm]
    exact h.airborne
  · rw [arm, earlier]
    exact h.settled
  · simp only [flights, earlier, sent, DeniedIn, outcomes]
    exact h.earlier
  · rw [offboard, sent]
    exact h.offboard

theorem Owns.outcome {mid : List Record} {s : Px4Sequencer} (h : Owns mid s)
    (unique : ∀ r ∈ sent mid, ∀ r' ∈ sent mid, r.id = r'.id → r = r') {f : Flight} {o : Px4Outcome} {x : Record}
    (one : s.flights = [f]) (op : o.op = f.req.op) (id : o.id = f.req.id) (request : x.out.request = none)
    (outcomes : x.out.outcomes = [o]) : Owns (x :: mid) (({ s with flights := [] } : Px4Sequencer).noteOutcome o) := by
  obtain ⟨flights, -, offboard, releasing, -⟩ := noteOutcome_same { s with flights := [] } o
  have mine : f.req ∈ sent mid := h.flying f (by simp [one])
  have open_ : ¬DeniedIn mid f.req.id := by
    rintro ⟨o', mem, same, -⟩
    exact h.unanswered f (by simp [one]) o' mem same
  have same : sent (x :: mid) = sent mid := by simp [request]
  refine ⟨releasing.trans h.quiet, by simp [flights], by simp [flights], ?_, ?_, ?_, ?_⟩
  · by_cases arm : o.op = .arm
    · simp [flights, (noteOutcome_arm { s with flights := [] } arm).1]
    · have airborne := h.airborne
      rw [one] at airborne
      simp [noteOutcome, arm, airborne, ← op]
  · by_cases arm : o.op = .arm
    · exact (noteOutcome_arm { s with flights := [] } arm).2.1
    · simpa [noteOutcome, arm] using h.settled
  · rw [flights, same]
    simp only [deniedIn_cons outcomes, List.not_mem_nil, false_imp_iff, implies_true, true_and]
    by_cases arm : o.op = .arm
    · rw [(noteOutcome_arm { s with flights := [] } arm).2.2, show _ ↔ _ from h.earlier, one]
      simp only [List.forall_mem_singleton, id]
      constructor
      · rintro (⟨r, mem, isArm, other, denied⟩ | granted)
        · exact ⟨r, mem, isArm, by tauto⟩
        · exact ⟨f.req, mine, op ▸ arm, by tauto⟩
      · rintro ⟨r, mem, isArm, denied⟩
        by_cases this : f.req.id = r.id
        · exact .inr fun no => denied (.inl ⟨this, no⟩)
        · exact .inl ⟨r, mem, isArm, this, fun no => denied (.inr no)⟩
    · have earlier := h.earlier
      rw [one] at earlier
      simp only [noteOutcome, if_neg arm, earlier, List.forall_mem_singleton, id]
      refine exists_congr fun r => and_congr_right fun mem => and_congr_right fun isArm => ?_
      -- the answered request is no arm request
      have other : f.req.id ≠ r.id := fun eq => arm (by rw [op, unique _ mine r mem eq, isArm])
      simp [other]
  · rw [offboard, same]
    exact h.offboard

theorem Owns.next {mid : List Record} {s : Px4Sequencer} (h : Owns mid s) (shape : Shaped s)
    (below : (∀ r ∈ sent mid, r.id < s.nextId) ∧ ∀ o ∈ outcomes mid, o.id < s.nextId) (now : ℤ) :
    Owns (⟨.next now, (s.call (.next now)).2⟩ :: mid) (s.call (.next now)).1 := by
  simp only [call]
  rcases next_cases s now with none | ⟨op, rest, -, free, some⟩
  · rw [none]
    exact h.still rfl rfl rfl rfl rfl rfl rfl
  · rw [some]
    have idle : s.flights = [] := by
      rcases shape.single h.quiet with none | ⟨f, one⟩
      · exact none
      · have mark := (shape.quiet h.quiet f (by simp [one])).2
        rw [free f (by simp [one])] at mark
        cases mark
    have airborne := h.airborne
    have earlier := h.earlier
    rw [idle] at airborne earlier
    have fresh : ∀ r ∈ sent mid, s.nextId ≠ r.id := fun r mem => (below.1 r mem).ne'
    refine ⟨h.quiet, by simp [idle], ?_, ?_, ?_, ?_, ?_⟩
    · simp only [idle, List.nil_append, List.forall_mem_singleton, outcomes_cons]
      exact fun o mem => (below.2 o mem).ne
    · by_cases arm : op = .arm <;> simp_all
    · by_cases arm : op = .arm
      · simp [arm]
      · simpa [arm] using h.settled
    · have denied : ∀ id, DeniedIn (⟨.next now, { request := Option.some ⟨op, s.nextId⟩ }⟩ :: mid) id ↔ DeniedIn mid id := by
        simp [DeniedIn]
      simp only [denied, earlier, idle, sent_cons, Option.toList_some, List.singleton_append, List.nil_append,
        List.forall_mem_singleton, List.not_mem_nil, false_imp_iff, implies_true, true_and, List.exists_mem_cons_iff]
      constructor
      · rintro ⟨r, mem, arm, rest⟩
        exact .inr ⟨r, mem, arm, fresh r mem, rest⟩
      · rintro (⟨-, no, -⟩ | ⟨r, mem, arm, -, rest⟩)
        · exact absurd rfl no
        · exact ⟨r, mem, arm, rest⟩
    · simp [h.offboard, or_comm]

/-- The bookkeeping follows the history since the execution began. -/
theorem owns {h : List Record} {s : Px4Sequencer} (run : Run call {} h s) {mid : List Record}
    (since : SinceBegin mid h) : Owns mid s := by
  induction run generalizing mid with
  | start =>
    obtain ⟨x, old, same, -⟩ := since
    simp at same
  | @next h s run c _ ih =>
    obtain ⟨x, old, same, begins, clean⟩ := since
    rcases cons_split same with ⟨rfl, rfl, rfl⟩ | ⟨mid, rfl, rfl⟩
    · obtain rfl : c = .beginExecution := begins
      constructor <;> simp [call, beginExecution, sent, outcomes]
    · rw [List.forall_mem_cons] at clean
      have h := ih ⟨x, old, rfl, begins, clean.2⟩
      have numbers := numbered run
      have shape := shaped run
      have unique : ∀ r ∈ sent mid, ∀ r' ∈ sent mid, r.id = r'.id → r = r' := fun r mem r' mem' same =>
        numbers.unique (by simp [mem]) (by simp [mem']) same
      have settle : ∀ {c : Call}, ((∃ id a r, c = .onResponse id a r) ∨ ∃ now, c = .onTick now) →
          Owns (⟨c, (s.call c).2⟩ :: mid) (s.call c).1 := by
        intro c answer
        rcases call_settled answer (shape.single h.quiet) with none | ⟨f, o, one, op, id, settled⟩
        · rw [none]
          exact h.still rfl rfl rfl rfl rfl rfl rfl
        · rw [settled]
          exact h.outcome unique one op id rfl rfl
      cases c with
      | beginExecution => exact absurd rfl clean.1.1
      | release force => exact absurd ⟨force, rfl⟩ clean.1.2
      | setTimeouts t => exact h.still rfl rfl rfl rfl rfl rfl rfl
      | engage op =>
        rcases engage_cases s op with none | ⟨_, _, added⟩
        · simp only [call, none]
          exact h.still rfl rfl rfl rfl rfl rfl rfl
        · simp only [call, added]
          exact h.still rfl rfl rfl rfl rfl rfl rfl
      | next now =>
        refine h.next shape ⟨fun r mem => numbers.below r (by simp [mem]), fun o mem => ?_⟩ now
        obtain ⟨r, sent, same⟩ := numbers.answered o (by simp [mem])
        exact same ▸ numbers.below r sent
      | onResponse id accepted reason => exact settle (.inl ⟨id, accepted, reason, rfl⟩)
      | onTick now => exact settle (.inr ⟨now, rfl⟩)

/-- What a release leaves to be sent: the first one of an execution undoes exactly what the execution may have
engaged, and an E-stop during it still disarms. -/
structure Releases (h : List Record) (s : Px4Sequencer) : Prop where
  disarm : ∀ mid force, SinceBegin mid h →
    (.disarm ∈ (s.release force).queue ↔ force = true ∨ MayHaveArmed mid)
  offboard : ∀ mid force, SinceBegin mid h →
    (.offboardOff ∈ (s.release force).queue ↔ ∃ r ∈ sent mid, r.op = .offboardOn)
  rest : ∀ mid force, SinceBegin mid h → (s.release force).queue.Sublist [.offboardOff, .disarm]
  estop : s.releasing = true →
    .disarm ∈ (s.release true).queue ∨ ∃ f ∈ (s.release true).flights, f.req.op = .disarm

theorem release_owned {h : List Record} {s : Px4Sequencer} (run : Run call {} h s) : Releases h s := by
  have numbers := numbered run
  have first : ∀ {mid : List Record}, SinceBegin mid h → ∀ force, (s.release force).queue =
      (if s.offboardRequested then [.offboardOff] else []) ++ if force || s.armOwned then [.disarm] else [] := by
    intro mid since force
    rcases release_cases s force with ⟨releasing, -⟩ | ⟨-, released⟩
    · simp [(owns run since).quiet] at releasing
    · rw [released]
  constructor
  · intro mid force since
    have unique : ∀ r ∈ sent mid, ∀ r' ∈ sent mid, r.id = r'.id → r = r' := by
      obtain ⟨x, old, rfl, -⟩ := since
      exact fun r mem r' mem' same => numbers.unique (by simp [mem]) (by simp [mem']) same
    rw [first since, ← (owns run since).arm_owned unique]
    cases s.offboardRequested <;> cases force <;> cases s.armOwned <;> simp
  · intro mid force since
    rw [first since, ← (owns run since).offboard]
    cases s.offboardRequested <;> cases force <;> cases s.armOwned <;> simp
  · intro mid force since
    rw [first since]
    cases s.offboardRequested <;> cases force <;> cases s.armOwned <;> decide
  · intro releasing
    unfold release
    rw [if_pos releasing]
    split
    · simp
    case isFalse there =>
      simp only [Bool.true_and, Bool.and_eq_true, Bool.not_eq_true', List.contains_eq_mem, decide_eq_false_iff_not,
        List.any_eq_false, decide_eq_true_eq, not_and, not_forall, not_not] at there
      by_cases queued : Px4Op.disarm ∈ s.queue
      · exact .inl queued
      · exact .inr (by simpa using there queued)

/-- The arm in flight is owned: the release disarms. -/
theorem overtakenArm_released : Releases (exec call [] {} (overtakenArm.take 3)).1 (exec call [] {} (overtakenArm.take 3)).2 ∧
    .disarm ∈ ((exec call [] {} (overtakenArm.take 3)).2.release false).queue :=
  ⟨release_owned (exec_run _ .start), by decide⟩

end Dyx3.Mission.Px4Sequencer
