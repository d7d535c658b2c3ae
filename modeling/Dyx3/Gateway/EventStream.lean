import Mathlib.Data.List.Sort
import Mathlib.Data.String.Basic
import Mathlib.Logic.Function.Basic
import Dyx3.Lib.Flt
import Dyx3.Lib.Run

/-!
The gateway's status events: transitions are pushed with the next sequence number, inside the coalescing window they are
folded into one pending event, and a newcomer gets the latest event of each kind.
-/

namespace Dyx3.Gateway

open Lib

/-- One event line, with the fields of its JSON object. -/
structure EventLine where
  event : String
  seq : ℕ
  tMono : Flt
  tWallMs : ℤ
  coalesced : ℕ
  replay : Bool
  data : String
  deriving DecidableEq

structure Kind where
  seen : Bool := false
  key : String := ""
  pending : Bool := false
  folded : ℕ := 0
  data : String := ""
  observed : Flt := .fin 0
  lastPush : Flt := .fin (-10 ^ 18)
  lastSeq : ℕ := 0
  replayLine : Option EventLine := none

structure EventStream where
  coalesce : Flt
  /-- the kinds that have an entry, in the order of their names -/
  names : List String := []
  kinds : String → Kind := fun _ => {}
  seq : ℕ := 0

/-- A new value: a key that differs from the last one is a transition, and what is pending carries the latest data. -/
def Kind.note (k : Kind) (key data : String) (now : Flt) : Kind :=
  let transition := !k.seen || key ≠ k.key
  let k := { k with
    seen := true
    key
    folded := if transition && k.pending then k.folded + 1 else k.folded
    pending := k.pending || transition }
  if k.pending then { k with data, observed := now } else k

namespace EventStream

def setKind (s : EventStream) (name : String) (k : Kind) : EventStream :=
  { s with
    names := if name ∈ s.names then s.names else s.names.orderedInsert (· ≤ ·) name
    kinds := Function.update s.kinds name k }

/-- The coalescing window of a kind is over. -/
def due (s : EventStream) (name : String) (now : Flt) : Prop := s.coalesce - .fin (1 / 10 ^ 9) ≤ now - (s.kinds name).lastPush

instance (s : EventStream) (name : String) (now : Flt) : Decidable (s.due name now) :=
  inferInstanceAs (Decidable (_ ≤ _))

/-- The wall clock is read once for each push: `wallMs seq` is what it says at the push `seq`. -/
def pushLocked (wallMs : ℕ → ℤ) (s : EventStream) (name : String) (now : Flt) : EventStream × EventLine :=
  let k := s.kinds name
  let line : EventLine := ⟨name, s.seq + 1, k.observed, wallMs (s.seq + 1), k.folded, false, k.data⟩
  ({ s with
      seq := s.seq + 1
      kinds := Function.update s.kinds name { k with
        pending := false
        lastPush := now
        lastSeq := s.seq + 1
        replayLine := some { line with replay := true }
        folded := 0 } }, line)

def pushDue (wallMs : ℕ → ℤ) (s : EventStream) (name : String) (now : Flt) : EventStream × List EventLine :=
  if (s.kinds name).pending ∧ s.due name now then
    ((s.pushLocked wallMs name now).1, [(s.pushLocked wallMs name now).2])
  else (s, [])

def offer (wallMs : ℕ → ℤ) (s : EventStream) (name key data : String) (now : Flt) : EventStream × List EventLine :=
  (s.setKind name ((s.kinds name).note key data now)).pushDue wallMs name now

def flushKinds (wallMs : ℕ → ℤ) (now : Flt) : List String → EventStream → EventStream × List EventLine
  | [], s => (s, [])
  | name :: names, s =>
    let (s, lines) := s.pushDue wallMs name now
    let (s, rest) := flushKinds wallMs now names s
    (s, lines ++ rest)

def flush (wallMs : ℕ → ℤ) (s : EventStream) (now : Flt) : EventStream × List EventLine :=
  flushKinds wallMs now s.names s

/-- The latest event of each kind, in the order of their sequence numbers. -/
def replay (s : EventStream) : List EventLine :=
  let pushed := (s.names.map s.kinds).filter (·.lastSeq ≠ 0)
  (pushed.mergeSort (fun a b => decide (a.lastSeq ≤ b.lastSeq))).filterMap Kind.replayLine

inductive Call where
  | offer (kind key data : String) (now : Flt)
  | flush (now : Flt)
  deriving DecidableEq

/-- A call and the lines it broadcasts. -/
def step (wallMs : ℕ → ℤ) (s : EventStream) : Call → EventStream × List EventLine
  | .offer kind key data now => s.offer wallMs kind key data now
  | .flush now => s.flush wallMs now

abbrev Record := Entry Call (List EventLine)

/-- The lines pushed so far, oldest first. -/
def pushes (h : List Record) : List EventLine := h.reverse.flatMap (·.out)

/-- The key of the last value offered of a kind. -/
def lastKey (kind : String) : List Record → Option String
  | [] => none
  | ⟨.offer name key _ _, _⟩ :: h => if name = kind then some key else lastKey kind h
  | ⟨.flush _, _⟩ :: h => lastKey kind h

/-- The values offered of a kind whose key is not the one before. -/
def transitions (kind : String) : List Record → ℕ
  | [] => 0
  | ⟨.offer name key _ _, _⟩ :: h => transitions kind h + if name = kind ∧ lastKey kind h ≠ some key then 1 else 0
  | ⟨.flush _, _⟩ :: h => transitions kind h

def Offered (h : List Record) (kind key data : String) : Prop := ∃ now out, ⟨.offer kind key data now, out⟩ ∈ h

def lastPush (kind : String) (lines : List EventLine) : Option EventLine := lastWhere (·.event = kind) lines

/-- The transitions a kind's pushes stand for. -/
def accounted (kind : String) (lines : List EventLine) : ℕ :=
  ((lines.filter (·.event = kind)).map fun line => 1 + line.coalesced).sum

/-- The transitions that wait in a pending event. -/
def waiting (k : Kind) : ℕ := if k.pending then 1 + k.folded else 0

/-! ### What one kind's entry says about the history -/

structure Kept (h : List Record) (lines : List EventLine) (kind : String) (k : Kind) : Prop where
  key : lastKey kind h = if k.seen then some k.key else none
  balance : transitions kind h = accounted kind lines + waiting k
  folded : k.pending = false → k.folded = 0
  carried : k.pending = true → k.seen = true ∧ Offered h kind k.key k.data
  settled : k.seen = true → k.pending = false → ∃ line, lastPush kind lines = some line ∧ Offered h kind k.key line.data
  replayed : k.replayLine = (lastPush kind lines).map fun line => { line with replay := true }
  lastSeq : k.lastSeq = (lastPush kind lines).elim 0 EventLine.seq
  pushed : k.lastSeq ≠ 0 → k.seen = true

variable {h : List Record} {lines : List EventLine} {kind : String} {k : Kind}

theorem Offered.cons {key data : String} (offered : Offered h kind key data) (x : Record) : Offered (x :: h) kind key data := by
  obtain ⟨now, out, member⟩ := offered
  exact ⟨now, out, List.mem_cons_of_mem x member⟩

/-- A call that offers nothing of the kind. -/
theorem Kept.call (kept : Kept h lines kind k) {x : Record} (key : lastKey kind (x :: h) = lastKey kind h)
    (count : transitions kind (x :: h) = transitions kind h) : Kept (x :: h) lines kind k := by
  refine ⟨key.trans kept.key, count.trans kept.balance, kept.folded, fun pending => ?_, fun seen idle => ?_, kept.replayed,
    kept.lastSeq, kept.pushed⟩
  · obtain ⟨seen, offered⟩ := kept.carried pending
    exact ⟨seen, offered.cons x⟩
  · obtain ⟨line, last, offered⟩ := kept.settled seen idle
    exact ⟨line, last, offered.cons x⟩

theorem lastPush_concat (line : EventLine) :
    lastPush kind (lines ++ [line]) = if line.event = kind then some line else lastPush kind lines := by
  unfold lastPush
  rw [lastWhere_append, lastWhere_singleton]
  by_cases same : line.event = kind
  · simp [same]
  · simp [same]

theorem accounted_concat (line : EventLine) :
    accounted kind (lines ++ [line]) = accounted kind lines + if line.event = kind then 1 + line.coalesced else 0 := by
  unfold accounted
  rw [List.filter_append, List.map_append, List.sum_append]
  by_cases same : line.event = kind
  · simp [same]
  · simp [same]

/-- A push of another kind. -/
theorem Kept.line (kept : Kept h lines kind k) {line : EventLine} (other : line.event ≠ kind) :
    Kept h (lines ++ [line]) kind k := by
  refine ⟨kept.key, ?_, kept.folded, kept.carried, ?_, ?_, ?_, kept.pushed⟩
  · rw [accounted_concat, if_neg other]
    exact kept.balance
  · rw [lastPush_concat, if_neg other]
    exact kept.settled
  · rw [lastPush_concat, if_neg other]
    exact kept.replayed
  · rw [lastPush_concat, if_neg other]
    exact kept.lastSeq

/-- A value that is offered: what it adds to the count is what it adds to the pending event. -/
theorem Kept.note (kept : Kept h lines kind k) (key data : String) (now : Flt) (out : List EventLine) :
    Kept (⟨.offer kind key data now, out⟩ :: h) lines kind (k.note key data now) := by
  have newest : Offered (⟨.offer kind key data now, out⟩ :: h) kind key data := ⟨now, out, List.mem_cons_self⟩
  have latest : lastKey kind (⟨.offer kind key data now, out⟩ :: h) = some key := by
    rw [lastKey, if_pos rfl]
  have changed : lastKey kind h ≠ some key ↔ (!k.seen || key ≠ k.key) = true := by
    rw [kept.key]
    cases k.seen
    · simp
    · simpa using ne_comm
  have count : transitions kind (⟨.offer kind key data now, out⟩ :: h) =
      transitions kind h + if (!k.seen || key ≠ k.key) = true then 1 else 0 := by
    rw [transitions]
    simp only [changed, true_and]
  have balance := kept.balance
  unfold Kind.note
  generalize (!k.seen || key ≠ k.key) = transition at changed count
  cases transition with
  | true =>
    dsimp only
    rw [Bool.or_true, if_pos rfl]
    refine ⟨?_, ?_, ?_, fun _ => ⟨rfl, newest⟩, ?_, kept.replayed, kept.lastSeq, fun _ => rfl⟩
    · rw [latest]
      rfl
    · rw [count, if_pos rfl, balance]
      cases pending : k.pending with
      | true => simp [waiting, pending]; omega
      | false => simp [waiting, pending, kept.folded pending]
    · simp
    · simp
  | false =>
    dsimp only
    have same : lastKey kind h = some key := by
      by_contra other
      have := changed.mp other
      contradiction
    rw [Bool.or_false, Bool.false_and, if_neg Bool.false_ne_true]
    have seen : k.seen = true := by
      by_contra unseen
      rw [kept.key, if_neg unseen] at same
      cases same
    have known : k.key = key := by
      rw [kept.key, if_pos seen] at same
      exact Option.some.inj same
    cases pending : k.pending with
    | true =>
      refine ⟨?_, ?_, ?_, fun _ => ⟨rfl, newest⟩, ?_, kept.replayed, kept.lastSeq, fun _ => rfl⟩
      · rw [latest]
        rfl
      · rw [count, if_neg Bool.false_ne_true, balance]
        simp [waiting, pending]
      · simp
      · simp
    | false =>
      refine ⟨?_, ?_, fun _ => kept.folded pending, ?_, fun _ _ => ?_, kept.replayed, kept.lastSeq, fun _ => rfl⟩
      · rw [latest]
        rfl
      · rw [count, if_neg Bool.false_ne_true, balance]
        simp [waiting, pending]
      · simp
      · obtain ⟨line, last, offered⟩ := kept.settled seen pending
        exact ⟨line, last, known ▸ offered.cons _⟩

/-- A push takes over what the pending event stands for. -/
theorem Kept.push (kept : Kept h lines kind k) (pending : k.pending = true) {line : EventLine} (now : Flt)
    (event : line.event = kind) (coalesced : line.coalesced = k.folded) (data : line.data = k.data) :
    Kept h (lines ++ [line]) kind { k with
      pending := false
      lastPush := now
      lastSeq := line.seq
      replayLine := some { line with replay := true }
      folded := 0 } := by
  have last : lastPush kind (lines ++ [line]) = some line := by
    rw [lastPush_concat, if_pos event]
  refine ⟨kept.key, ?_, fun _ => rfl, ?_, fun _ _ => ⟨line, last, ?_⟩, ?_, ?_,
    fun _ => (kept.carried pending).1⟩
  · have balance := kept.balance
    rw [accounted_concat, if_pos event, coalesced]
    simp only [waiting, pending, if_true] at balance
    simp only [waiting, Bool.false_eq_true, if_false]
    omega
  · simp
  · rw [data]
    exact (kept.carried pending).2
  · rw [last]
    rfl
  · rw [last]
    rfl

/-! ### The whole stream -/

structure Books (h : List Record) (lines : List EventLine) (s : EventStream) : Prop where
  numbered : lines.map EventLine.seq = List.range' 1 s.seq
  kept : ∀ kind, Kept h lines kind (s.kinds kind)
  named : ∀ kind, (s.kinds kind).seen = true → kind ∈ s.names

variable {s : EventStream} {wallMs : ℕ → ℤ}

theorem Books.note (books : Books h lines s) (name key data : String) (now : Flt) (out : List EventLine) :
    Books (⟨.offer name key data now, out⟩ :: h) lines (s.setKind name ((s.kinds name).note key data now)) := by
  refine ⟨books.numbered, fun kind => ?_, fun kind seen => ?_⟩
  · by_cases same : kind = name
    · rw [same]
      simp only [setKind, Function.update_self]
      exact (books.kept name).note key data now out
    · simp only [setKind, Function.update_of_ne same]
      refine (books.kept kind).call ?_ ?_
      · rw [lastKey, if_neg (Ne.symm same)]
      · rw [transitions, if_neg (fun both => same both.1.symm)]
        rfl
  · have grown : ∀ other, other = name ∨ other ∈ s.names →
        other ∈ if name ∈ s.names then s.names else s.names.orderedInsert (· ≤ ·) name := by
      intro other known
      split
      · rename_i present
        rcases known with rfl | known
        · exact present
        · exact known
      · exact (List.mem_orderedInsert _).mpr known
    refine grown kind ?_
    by_cases same : kind = name
    · exact .inl same
    · simp only [setKind, Function.update_of_ne same] at seen
      exact .inr (books.named kind seen)

theorem Books.pushDue (books : Books h lines s) (name : String) (now : Flt) :
    Books h (lines ++ (s.pushDue wallMs name now).2) (s.pushDue wallMs name now).1 := by
  unfold EventStream.pushDue
  split
  · rename_i ready
    refine ⟨?_, fun kind => ?_, fun kind seen => ?_⟩
    · rw [List.map_append, books.numbered]
      simp [pushLocked, List.range'_concat, Nat.add_comm]
    · by_cases same : kind = name
      · rw [same]
        simp only [pushLocked, Function.update_self]
        exact (books.kept name).push ready.1 now rfl rfl rfl
      · simp only [pushLocked, Function.update_of_ne same]
        exact (books.kept kind).line (Ne.symm same)
    · refine books.named kind ?_
      by_cases same : kind = name
      · rw [same] at seen ⊢
        simpa [pushLocked] using seen
      · simpa [pushLocked, Function.update_of_ne same] using seen
  · rw [List.append_nil]
    exact books

theorem Books.flushKinds (now : Flt) (names : List String) (books : Books h lines s) :
    Books h (lines ++ (EventStream.flushKinds wallMs now names s).2) (EventStream.flushKinds wallMs now names s).1 := by
  induction names generalizing lines s with
  | nil =>
    unfold EventStream.flushKinds
    rw [List.append_nil]
    exact books
  | cons name names ih =>
    unfold EventStream.flushKinds
    dsimp only
    rw [← List.append_assoc]
    exact ih (books.pushDue name now)

theorem pushes_cons (x : Record) (h : List Record) : pushes (x :: h) = pushes h ++ x.out := by
  simp [pushes]

theorem books_run {coalesce : Flt} (run : Run (step wallMs) { coalesce } h s) : Books h (pushes h) s := by
  refine run.invariant (fun h s => Books h (pushes h) s) ⟨rfl, fun kind => ?_, fun _ seen => ?_⟩ ?_
  · exact ⟨rfl, rfl, fun _ => rfl, nofun, nofun, rfl, rfl, fun pushed => absurd rfl pushed⟩
  · cases seen
  · intro h s call books _
    rw [pushes_cons]
    cases call with
    | offer name key data now => exact (books.note name key data now _).pushDue name now
    | flush now =>
      have noted : Books (⟨.flush now, (s.step wallMs (.flush now)).2⟩ :: h) (pushes h) s :=
        ⟨books.numbered, fun kind => (books.kept kind).call rfl rfl, books.named⟩
      exact noted.flushKinds now s.names

theorem Books.positive (books : Books h lines s) {line : EventLine} (member : line ∈ lines) : 0 < line.seq := by
  have number := List.mem_map_of_mem (f := EventLine.seq) member
  rw [books.numbered, List.mem_range'_1] at number
  omega

/-- A newcomer gets the last push of every kind that was pushed. -/
theorem Books.mem_replay (books : Books h lines s) {line : EventLine} :
    line ∈ s.replay ↔ ∃ kind last, lastPush kind lines = some last ∧ line = { last with replay := true } := by
  unfold replay
  simp only [List.mem_filterMap, List.mem_mergeSort, List.mem_filter, List.mem_map]
  constructor
  · rintro ⟨k, ⟨⟨name, _, rfl⟩, _⟩, shown⟩
    rw [(books.kept name).replayed] at shown
    obtain ⟨last, found, rfl⟩ := Option.map_eq_some_iff.mp shown
    exact ⟨name, last, found, rfl⟩
  · rintro ⟨kind, last, found, rfl⟩
    have kept := books.kept kind
    have number : (s.kinds kind).lastSeq ≠ 0 := by
      have positive := books.positive (lastWhere_mem found).1
      rw [kept.lastSeq, found, Option.elim_some]
      omega
    refine ⟨s.kinds kind, ⟨⟨kind, books.named kind (kept.pushed number), rfl⟩, by simpa using number⟩, ?_⟩
    rw [kept.replayed, found]
    rfl

/-! ### A flush past the window -/

/-- At or past the end of the window the test with its tolerance succeeds. -/
theorem due_of_past {name : String} {now : Flt} (past : s.coalesce ≤ now - (s.kinds name).lastPush) : s.due name now := 
  Flt.sub_le_of_le (by norm_num) past

theorem pushDue_other {name : String} (now : Flt) (other : name ≠ kind) :
    (s.pushDue wallMs name now).1.kinds kind = s.kinds kind := by
  unfold pushDue
  split
  · exact Function.update_of_ne (Ne.symm other) _ _
  · rfl

theorem pushDue_coalesce (name : String) (now : Flt) : (s.pushDue wallMs name now).1.coalesce = s.coalesce := by
  unfold pushDue
  split
  · rfl
  · rfl

theorem pushDue_idle {name : String} {now : Flt} (idle : (s.kinds kind).pending = false) :
    ((s.pushDue wallMs name now).1.kinds kind).pending = false := by
  by_cases same : name = kind
  · rw [same, pushDue, if_neg (by simp [idle])]
    exact idle
  · rw [pushDue_other now same]
    exact idle

theorem flushKinds_idle {now : Flt} (names : List String) (idle : (s.kinds kind).pending = false) :
    ((flushKinds wallMs now names s).1.kinds kind).pending = false := by
  induction names generalizing s with
  | nil => exact idle
  | cons name names ih => exact ih (pushDue_idle idle)

theorem flushKinds_pushes {now : Flt} {names : List String} (member : kind ∈ names) (due : s.due kind now) :
    ((flushKinds wallMs now names s).1.kinds kind).pending = false := by
  induction names generalizing s with
  | nil => cases member
  | cons name names ih =>
    show ((flushKinds wallMs now names (s.pushDue wallMs name now).1).1.kinds kind).pending = false
    by_cases same : name = kind
    · refine flushKinds_idle names ?_
      rw [same]
      cases pending : (s.kinds kind).pending with
      | false => exact pushDue_idle pending
      | true =>
        rw [pushDue, if_pos ⟨pending, due⟩]
        simp [pushLocked]
    · refine ih ((List.mem_cons.mp member).resolve_left (Ne.symm same)) ?_
      unfold EventStream.due at due ⊢
      rw [pushDue_coalesce, pushDue_other now same]
      exact due

theorem Books.flush_settles (books : Books h lines s) {now : Flt} (past : s.coalesce ≤ now - (s.kinds kind).lastPush) :
    ((s.flush wallMs now).1.kinds kind).pending = false := by
  cases pending : (s.kinds kind).pending with
  | false => exact flushKinds_idle s.names pending
  | true =>
    have seen := ((books.kept kind).carried pending).1
    exact flushKinds_pushes (books.named kind seen) (due_of_past past)

end EventStream

end Dyx3.Gateway
