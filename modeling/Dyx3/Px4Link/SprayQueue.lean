import Mathlib.Algebra.Order.Group.Multiset
import Mathlib.Data.Multiset.Filter
import Dyx3.Px4Link.Books
import Dyx3.Px4Link.SprayWork

/-!
What the spray transactions hold: the requests in flight and in the queue, in which order and together with which
others, and the one ack every one of them leaves with.
-/

namespace Dyx3.Px4Link.SprayLink

open Lib

variable {s t u : SprayLink} {r r' q : SprayPending} {env : Env} {outs : List SprayOut} {m : SprayActuatorCommand}

/-! ### Accounts -/

/-- What an ack says of the request it answers. -/
def key (m : SprayActuatorCommand) : Nat × Nat := (m.seq, m.source)

/-- The messages of the requests in flight and in the queue. -/
def held (s : SprayLink) : Multiset SprayActuatorCommand := s.requests.map (·.toSprayActuatorCommand)

/-- What the acks among the messages answer. -/
def acked : List SprayOut → Multiset (Nat × Nat)
  | [] => 0
  | .command _ :: outs => acked outs
  | .ack a :: outs => (a.seq, a.source) ::ₘ acked outs

@[simp] theorem acked_append (a b : List SprayOut) : acked (a ++ b) = acked a + acked b := by
  induction a with
  | nil => simp [acked]
  | cons o a ih => cases o <;> simp [acked, ih]

theorem acked_refused (gone : List SprayPending) :
    acked (gone.map fun q => refuse q.seq q.source) =
      Multiset.map key (gone.map (·.toSprayActuatorCommand) : List SprayActuatorCommand) := by
  induction gone with
  | nil => rfl
  | cons q gone ih =>
    rw [List.map_cons, List.map_cons, ← Multiset.cons_coe, Multiset.map_cons, ← ih]
    rfl

/-- `new` requests come in, `denied` ones are turned away, and the others are still held or answered. -/
def Accounts (s : SprayLink) (new denied : Multiset SprayActuatorCommand) (t : SprayLink) (outs : List SprayOut) :
    Prop :=
  ∃ left, held s + new = held t + left ∧ acked outs = (left + denied).map key

theorem Accounts.same (held_eq : held t = held s) (silent : acked outs = 0) : Accounts s 0 0 t outs :=
  ⟨0, by simp [held_eq], by simp [silent]⟩

theorem Accounts.trans {new more denied others : Multiset SprayActuatorCommand} {sent : List SprayOut}
    (first : Accounts s new denied t outs) (second : Accounts t more others u sent) :
    Accounts s (new + more) (denied + others) u (outs ++ sent) := by
  obtain ⟨left, kept, answered⟩ := first
  obtain ⟨left', kept', answered'⟩ := second
  refine ⟨left + left', ?_, ?_⟩
  · calc
      held s + (new + more) = held t + left + more := by rw [← add_assoc, kept]
      _ = held u + left' + left := by rw [add_right_comm, kept']
      _ = held u + (left + left') := by rw [add_assoc, add_comm left']
  · rw [acked_append, answered, answered', ← Multiset.map_add]
    congr 1
    abel

/-- Requests are taken away, each with its refusal. -/
theorem Accounts.gone (gone : List SprayPending) (parts : s.requests.Perm (t.requests ++ gone))
    (answered : outs = gone.map fun q => refuse q.seq q.source) : Accounts s 0 0 t outs := by
  refine ⟨(gone.map (·.toSprayActuatorCommand) : List SprayActuatorCommand), ?_, ?_⟩
  · rw [add_zero, held, held, Multiset.coe_add, ← List.map_append]
    exact Multiset.coe_eq_coe.mpr (parts.map _)
  · rw [answered, add_zero, acked_refused]

theorem Accounts.refused (q : SprayPending) (parts : s.requests.Perm (t.requests ++ [q])) :
    Accounts s 0 0 t [refuse q.seq q.source] :=
  .gone [q] parts rfl

theorem dropSuperseded_accounts (s : SprayLink) (r : SprayPending) :
    Accounts s 0 0 (s.dropSuperseded r).1 (s.dropSuperseded r).2 := by
  refine Accounts.gone _ ?_ rfl
  have parts : s.queue.Perm ((s.queue.filter fun q => !supersedes r q) ++ s.queue.filter (supersedes r)) :=
    (List.perm_append_comm.trans (List.filter_append_perm _ _)).symm
  simp only [requests, dropSuperseded, List.append_assoc]
  exact parts.append_left _

theorem preempt_accounts (s : SprayLink) (r : SprayPending) : Accounts s 0 0 (s.preempt r).1 (s.preempt r).2 := by
  unfold preempt
  split
  · rename_i i flying
    split
    · refine Accounts.refused i ?_
      simp only [requests, flying, Option.toList_some, Option.toList_none, List.nil_append]
      exact List.perm_append_comm
    · exact .same rfl rfl
  · exact .same rfl rfl

theorem replace_accounts (s : SprayLink) (r : SprayPending) : Accounts s 0 0 (s.replace r).1 (s.replace r).2 :=
  (dropSuperseded_accounts s r).trans (preempt_accounts _ r)

theorem Rooms.accounts (rooms : Rooms s t outs) : Accounts s 0 0 t outs := by
  cases rooms with
  | free => exact .same rfl rfl
  | evicted q found =>
    have parts : s.queue.Perm (s.queue.erase q ++ [q]) :=
      (List.perm_cons_erase found).trans (List.perm_append_singleton _ _).symm
    refine Accounts.refused q ?_
    simp only [requests, List.append_assoc]
    exact parts.append_left _

theorem Dispatches.accounts (dispatches : Dispatches s env t outs) : Accounts s 0 0 t outs := by
  cases dispatches with
  | idle => exact .same rfl rfl
  | refused q rest tokens free head =>
    refine Accounts.refused q ?_
    simp only [requests, free, head, Option.toList_none, List.nil_append]
    exact (List.perm_append_singleton q rest).symm
  | sent q rest tokens w free head carries =>
    refine .same ?_ rfl
    simp only [held, requests, free, head, Option.toList_none, Option.toList_some, List.nil_append,
      List.singleton_append, List.map_cons, carries.message]

theorem joined_accounts (s t : SprayLink) (r : SprayPending) :
    Accounts t {r.toSprayActuatorCommand} 0 { t with queue := s.joined r t.queue } [] := by
  refine ⟨0, ?_, rfl⟩
  have parts : (t.inflight.toList ++ s.joined r t.queue).Perm (r :: t.requests) :=
    ((joined_perm s r t.queue).append_left _).trans List.perm_middle
  rw [add_zero, add_comm, Multiset.singleton_add, held, held, Multiset.cons_coe, ← List.map_cons]
  exact (Multiset.coe_eq_coe.mpr (parts.map _)).symm

/-! ### The fate of a command -/

/-- A command is queued as a new request, turned away with a refusal, or neither. -/
inductive Fate where
  | queued
  | refused
  | passed
  deriving DecidableEq, Repr

def fate (s : SprayLink) (m : SprayActuatorCommand) (env : Env) : Fate :=
  if !env.linkOk then .refused
  else match translate m with
    | none => .refused
    | some r =>
      if s.barred r || s.blocked r || (s.reassert r).isSome then .passed
      else if (s.replace r).1.makeRoom.isSome then .queued
      else .refused

def queues (s : SprayLink) : Event → Multiset SprayActuatorCommand
  | .command m env => if s.fate m env = .queued then {m} else 0
  | _ => 0

def refuses (s : SprayLink) : Event → Multiset SprayActuatorCommand
  | .command m env => if s.fate m env = .refused then {m} else 0
  | _ => 0

theorem place_accounts (s : SprayLink) (r : SprayPending) (env : Env) :
    Accounts s (if (s.replace r).1.makeRoom.isSome then {r.toSprayActuatorCommand} else 0)
      (if (s.replace r).1.makeRoom.isSome then 0 else {r.toSprayActuatorCommand}) (s.place r env).1 (s.place r env).2 := by
  have replaced := replace_accounts s r
  cases room : (s.replace r).1.makeRoom with
  | none =>
    obtain ⟨left, kept, answered⟩ := replaced
    rw [place_full room]
    refine ⟨left, by simpa using kept, ?_⟩
    simp [answered, acked, refuse, key]
  | some made =>
    obtain ⟨mid, evicted⟩ := made
    rw [place_room room]
    have joined := (replaced.trans (makeRoom_some room).accounts).trans (joined_accounts s mid r)
    have sent := joined.trans (dispatchNext_cases _ env).accounts
    simpa using sent

/-- Whether there is room depends on the message, the queue and the in-flight slot alone. -/
theorem room_congr (queue : t.queue = s.queue) (inflight : t.inflight = s.inflight)
    (message : q.toSprayActuatorCommand = r.toSprayActuatorCommand) :
    (t.replace q).1.makeRoom.isSome = (s.replace r).1.makeRoom.isSome := by
  have on : q.on = r.on := congrArg SprayActuatorCommand.on message
  have isSome : ∀ u : SprayLink, u.makeRoom.isSome = (decide (u.requests.length < maxSprayTransactions) ||
      (u.queue.find? fun q => !isWatchdogOff q.toSprayActuatorCommand).isSome) := by
    intro u
    rw [makeRoom_eq]
    split <;> simp [*]
  rw [isSome, isSome, (replace_cases t q).1, (replace_cases s r).1]
  simp only [requests, taken, preempts, queue, inflight, supersedes_message message, on]
  rfl

theorem held_congr (queue : t.queue = s.queue) (inflight : t.inflight = s.inflight) : held t = held s := by
  simp [held, requests, queue, inflight]

theorem adopt_congr (s : SprayLink) (r : SprayPending) :
    (s.adopt r).1.queue = s.queue ∧ (s.adopt r).1.inflight = s.inflight ∧
      (s.adopt r).2.toSprayActuatorCommand = r.toSprayActuatorCommand := by
  obtain ⟨epochs, shape, _, identity⟩ := adopt_cases s r
  refine ⟨by rw [shape], by rw [shape], ?_⟩
  rcases identity with ⟨e, _, _, _, same⟩ | ⟨_, _, same⟩ <;> rw [same]

theorem enqueue_accounts (s : SprayLink) (r : SprayPending) (env : Env) :
    Accounts s (if (s.replace r).1.makeRoom.isSome then {r.toSprayActuatorCommand} else 0)
      (if (s.replace r).1.makeRoom.isSome then 0 else {r.toSprayActuatorCommand}) (s.enqueue r env).1
      (s.enqueue r env).2 := by
  unfold enqueue
  obtain ⟨queue, inflight, message⟩ := adopt_congr { s with confirmed := s.confirmed.erase r.source } r
  have placed := place_accounts ({ s with confirmed := s.confirmed.erase r.source }.adopt r).1
    ({ s with confirmed := s.confirmed.erase r.source }.adopt r).2 env
  have same : held ({ s with confirmed := s.confirmed.erase r.source }.adopt r).1 = held s :=
    held_congr queue inflight
  have room := room_congr (s := s) (r := r) queue inflight message
  unfold Accounts at placed ⊢
  rwa [room, message, same] at placed

theorem command_accounts (s : SprayLink) (m : SprayActuatorCommand) (env : Env) :
    Accounts s (s.queues (.command m env)) (s.refuses (.command m env)) (s.onSprayCommand m env).1
      (s.onSprayCommand m env).2 := by
  have denied : Accounts s 0 {m} s [refuse m.seq m.source] := ⟨0, by simp, by simp [acked, refuse, key]⟩
  by_cases linkOk : env.linkOk = true
  swap
  · simpa [queues, refuses, fate, onSprayCommand, linkOk] using denied
  cases translated : translate m with
  | none => simpa [queues, refuses, fate, onSprayCommand, linkOk, translated] using denied
  | some r =>
    have decided : s.fate m env =
        if s.barred r || s.blocked r || (s.reassert r).isSome then .passed
        else if (s.replace r).1.makeRoom.isSome then .queued else .refused := by
      simp [fate, linkOk, translated]
    obtain ⟨bar, shape⟩ := rebar_eq s r
    have quiet : held (s.rebar r) = held s := held_congr (by rw [shape]) (by rw [shape])
    simp only [queues, refuses, decided]
    rw [onSprayCommand_eq linkOk translated]
    by_cases barred : s.barred r = true
    · have still : Accounts s 0 0 s [] := .same rfl rfl
      simpa [barred] using still
    by_cases blocked : s.blocked r = true
    · have still : Accounts s 0 0 (s.rebar r) [] := .same quiet rfl
      simpa [barred, blocked] using still
    cases found : s.reassert r with
    | some outs =>
      have silent : acked outs = 0 := by
        rcases reassert_cases found with ⟨x, rfl, _⟩ | ⟨q, _, rfl, _⟩ <;> rfl
      simpa [barred, blocked, found] using Accounts.same quiet silent
    | none =>
      have enqueued := enqueue_accounts (s.rebar r) r env
      rw [room_congr (s := s) (by rw [shape]) (by rw [shape]) rfl, translate_message translated] at enqueued
      unfold Accounts at enqueued ⊢
      rw [quiet] at enqueued
      cases room : (s.replace r).1.makeRoom.isSome <;> simpa [barred, blocked, found, room] using enqueued

theorem step_accounts (timeout : ℚ) (s : SprayLink) (e : Event) :
    Accounts s (s.queues e) (s.refuses e) (step timeout s e).1 (step timeout s e).2 := by
  cases e with
  | command m env => exact command_accounts s m env
  | fcuAck a env =>
    have acked := onVehicleCommandAck_cases s a env
    change Accounts s 0 0 (s.onVehicleCommandAck a env).1 (s.onVehicleCommandAck a env).2
    generalize s.onVehicleCommandAck a env = result at acked
    obtain ⟨t, outs⟩ := result
    cases acked with
    | ignored late => exact .same rfl rfl
    | completed i t sent flying matched dispatches =>
      -- The completed request leaves with its verdict, success or not.
      have left : Accounts s 0 0 { s with
          inflight := none
          confirmed := if a.result == resultAccepted then s.confirmed.insert i.source i else s.confirmed }
          [.ack ⟨i.seq, i.source, a.result == resultAccepted, a.result⟩] := by
        refine ⟨{i.toSprayActuatorCommand}, ?_, rfl⟩
        simp [held, requests, flying, ← Multiset.cons_coe, add_comm]
      exact left.trans dispatches.accounts
  | service env =>
    have serviced := serviceSprayTransactions_cases s env timeout
    change Accounts s 0 0 (s.serviceSprayTransactions env timeout).1 (s.serviceSprayTransactions env timeout).2
    generalize s.serviceSprayTransactions env timeout = result at serviced
    obtain ⟨t, outs⟩ := result
    cases serviced with
    | lost => exact .gone s.requests (.refl _) rfl
    | kept t sent linkOk dispatches => exact dispatches.accounts
    | expired i t sent linkOk flying overdue dispatches =>
      have left : Accounts s 0 0 { s with inflight := none } [refuse i.seq i.source] := by
        refine Accounts.refused i ?_
        simp only [requests, flying, Option.toList_some, Option.toList_none, List.nil_append]
        exact List.perm_append_comm
      exact left.trans dispatches.accounts

/-! ### Order -/

/-- One request in flight is all the in-flight slot can hold. -/
structure Disciplined (s : SprayLink) : Prop where
  single : (s.queue.map (·.source)).Nodup
  bounded : s.requests.length ≤ maxSprayTransactions
  yields : ∀ i, s.inflight = some i → i.on = true → ∀ q ∈ s.queue, q.on = true
  exclusive : ∀ x ∈ s.requests, x.on = true → ∀ y ∈ s.requests, isWatchdogOff y.toSprayActuatorCommand = false

/-- In an orderly link no OFF waits behind an ON of the queue either. -/
structure Orderly (s : SprayLink) : Prop extends Disciplined s where
  sorted : s.queue.Pairwise fun a b => a.on = true → b.on = true

theorem Orderly.fewer (orderly : Orderly s) (queue : t.queue.Sublist s.queue)
    (inflight : t.inflight = s.inflight ∨ t.inflight = none) : Orderly t := by
  have flown : ∀ i, t.inflight = some i → s.inflight = some i := by
    intro i flying
    rcases inflight with same | none
    · rwa [← same]
    · rw [none] at flying
      cases flying
  have known : ∀ x ∈ t.requests, x ∈ s.requests := by
    intro x member
    rw [mem_requests] at member ⊢
    exact member.imp (flown x) (queue.mem ·)
  refine ⟨⟨(queue.map _).nodup orderly.single, ?_, ?_, ?_⟩, orderly.sorted.sublist queue⟩
  · have slots : t.inflight.toList.length ≤ s.inflight.toList.length := by
      rcases inflight with same | none
      · rw [same]
      · simp [none]
    have shorter := queue.length_le
    have bounded := orderly.bounded
    simp only [requests, List.length_append] at bounded ⊢
    omega
  · intro i flying on q member
    exact orderly.yields i (flown i flying) on q (queue.mem member)
  · intro x held on y other
    exact orderly.exclusive x (known x held) on y (known y other)

theorem Orderly.dispatch (orderly : Orderly s) (dispatches : Dispatches s env t outs) : Orderly t := by
  cases dispatches with
  | idle => exact orderly
  | refused q rest tokens free head =>
    refine orderly.fewer ?_ (.inl rfl)
    rw [head]
    exact List.sublist_cons_self q rest
  | sent q rest tokens w free head carries =>
    have on : w.on = q.on := congrArg SprayActuatorCommand.on carries.message
    have sorted := orderly.sorted
    have single := orderly.single
    have bounded := orderly.bounded
    rw [head, List.pairwise_cons] at sorted
    rw [head, List.map_cons, List.nodup_cons] at single
    simp only [requests, free, head, Option.toList_none, List.nil_append] at bounded
    refine ⟨⟨single.2, bounded, ?_, ?_⟩, sorted.2⟩
    · rintro i ⟨⟩ opens x member
      exact sorted.1 x member (on ▸ opens)
    · -- The request on the wire stands for the head of the queue.
      have known : ∀ x, x = w ∨ x ∈ rest → ∃ y ∈ s.requests, x.toSprayActuatorCommand = y.toSprayActuatorCommand := by
        rintro x (rfl | member)
        · exact ⟨q, by simp [mem_requests, head], carries.message⟩
        · exact ⟨x, by simp [mem_requests, head, member], rfl⟩
      intro x first opens y second
      obtain ⟨x', old, same⟩ := known x (by simpa [mem_requests, eq_comm] using first)
      obtain ⟨y', other, same'⟩ := known y (by simpa [mem_requests, eq_comm] using second)
      rw [same']
      exact orderly.exclusive x' old (by simpa [same] using opens) y' other

/-- An ON of another producer that waits where the OFF `r` would have to queue up. -/
def waitsBehindOn (s : SprayLink) (r : SprayPending) : Bool :=
  !r.on && !isWatchdogOff r.toSprayActuatorCommand && !s.preempts r && s.queue.any fun q => q.on && q.source ≠ r.source

theorem exclusive_iff :
    (∀ x ∈ s.requests, x.on = true → ∀ y ∈ s.requests, isWatchdogOff y.toSprayActuatorCommand = false) ↔
      AllOff s ∨ NoWatchdog s := by
  constructor
  · intro exclusive
    by_cases opens : ∃ x ∈ s.requests, x.on = true
    · obtain ⟨x, held, on⟩ := opens
      refine .inr ⟨fun q member => ?_, fun i flying => ?_⟩
      · exact exclusive x held on q (mem_requests.mpr (.inr member))
      · exact exclusive x held on i (mem_requests.mpr (.inl flying))
    · push Not at opens
      refine .inl ⟨fun q member => ?_, fun i flying => ?_⟩
      · simpa using opens q (mem_requests.mpr (.inr member))
      · simpa using opens i (mem_requests.mpr (.inl flying))
  · rintro (off | none) x held on y other
    · have closed : x.on = false := (mem_requests.mp held).elim (off.2 x) (off.1 x)
      rw [closed] at on
      cases on
    · exact (mem_requests.mp other).elim (none.2 y) (none.1 y)

theorem Joins.entered (joins : Joins s r r' t) : Entered s r' t := by
  have message := joins.adopts.message
  have on : r'.on = r.on := congrArg SprayActuatorCommand.on message
  obtain ⟨left, fewer, shape⟩ := joins.queue
  refine ⟨?_, ?_, ?_⟩
  · intro q member
    rw [shape] at member
    refine (mem_joined.mp member).imp_right ?_
    intro found
    rw [supersedes_message message]
    simpa using List.mem_filter.mp (fewer.mem found)
  · intro i flying
    rw [joins.inflight] at flying
    split at flying
    · cases flying
    · rename_i kept
      refine ⟨flying, ?_⟩
      intro off
      simpa [preempts, flying, ← on, off] using kept
  · intro source c found
    rw [joins.confirmed] at found
    exact lookup_erase_some found

theorem Orderly.join (orderly : Orderly s) (unblocked : s.blocked r = false) (clear : s.waitsBehindOn r = false)
    (joins : Joins s r r' t) : Orderly t := by
  have entered := joins.entered
  have message := joins.adopts.message
  have on : r'.on = r.on := congrArg SprayActuatorCommand.on message
  obtain ⟨left, fewer, shape⟩ := joins.queue
  have kept : ∀ q ∈ left, q ∈ s.queue ∧ q.source ≠ r.source := by
    intro q member
    obtain ⟨old, other⟩ := List.mem_filter.mp (fewer.mem member)
    simp only [supersedes, Bool.not_eq_true', Bool.or_eq_false_iff, decide_eq_false_iff_not] at other
    exact ⟨old, other.2⟩
  have old : left.Sublist s.queue := fewer.trans List.filter_sublist
  refine ⟨⟨?_, ?_, ?_, ?_⟩, ?_⟩
  · exact joins.single orderly.single
  · have room := joins.room
    have bounded := orderly.bounded
    omega
  · intro i flying opens q member
    obtain ⟨known, closes⟩ := entered.inflight i flying
    have opened : r'.on = true := by
      by_contra off
      simp [closes (by simpa using off)] at opens
    rcases entered.queue q member with rfl | ⟨old, _⟩
    · exact opened
    · exact orderly.yields i known opens q old
  · refine exclusive_iff.mpr (entered.exclusive (exclusive_iff.mp orderly.exclusive) ?_)
    rw [blocked_message message]
    exact unblocked
  · rw [shape, joined]
    split
    · rename_i first
      refine List.pairwise_cons.mpr ⟨?_, orderly.sorted.sublist old⟩
      intro q _ opens
      -- Only an OFF goes to the front.
      simp [isWatchdogOff, preempts, opens] at first
    · rename_i last
      refine List.pairwise_append.mpr ⟨orderly.sorted.sublist old, List.pairwise_singleton _ _, ?_⟩
      intro q member x only
      rw [List.mem_singleton.mp only]
      intro opens
      by_contra off
      have off : r.on = false := by simpa [on] using off
      simp only [preempts, message, off, Bool.not_false, Bool.true_and, Bool.or_eq_true, not_or, Bool.not_eq_true] at last
      simp only [waitsBehindOn, preempts, off, last, Bool.not_false, Bool.true_and, List.any_eq_false] at clear
      exact clear q (kept q member).1 (by simp [opens, (kept q member).2])

/-- A new OFF that would be queued behind an ON of another producer. -/
def offBehindOn (s : SprayLink) : Event → Bool
  | .command m env => env.linkOk && (translate m).any fun r => (s.reassert r).isNone && s.waitsBehindOn r
  | _ => false

theorem Works.orderly {e : Event} (works : Works s e t outs) (clear : s.offBehindOn e = false) (orderly : Orderly s) :
    Orderly t := by
  cases works with
  | sheds sheds silent sends => exact (orderly.fewer sheds.queue sheds.inflight).dispatch sends.dispatches
  | resends bar => exact orderly.fewer (.refl _) (.inl rfl)
  | joins admissible new joins silent sends =>
    simp only [offBehindOn, admissible.linkOk, admissible.translated, new, Bool.true_and, Option.any_some,
      Option.isNone_none] at clear
    exact (orderly.join admissible.unblocked clear joins).dispatch sends.dispatches

/-! ### Runs -/

/-- A call with the requests it queues and turns away and those the link no longer holds after it. -/
structure Audit where
  outs : List SprayOut
  queued : Multiset SprayActuatorCommand
  refused : Multiset SprayActuatorCommand
  left : Multiset SprayActuatorCommand
  deriving DecidableEq

def audit (timeout : ℚ) (s : SprayLink) (e : Event) : SprayLink × Audit :=
  let (t, outs) := step timeout s e
  (t, { outs, queued := s.queues e, refused := s.refuses e, left := held s + s.queues e - held t })

/-- Every call answers exactly the requests that leave in it and the command it turns away, and what was queued has
left or is still held. -/
structure Settled (h : List (Entry Event Audit)) (s : SprayLink) : Prop where
  answered : ∀ x ∈ h, acked x.out.outs = (x.out.left + x.out.refused).map key
  kept : (h.map (·.out.queued)).sum = (h.map (·.out.left)).sum + held s

theorem audit_settled {h : List (Entry Event Audit)} (timeout : ℚ) (e : Event) (settled : Settled h s) :
    Settled (⟨e, (audit timeout s e).2⟩ :: h) (audit timeout s e).1 := by
  obtain ⟨left, kept, answered⟩ := step_accounts timeout s e
  have gone : (audit timeout s e).2.left = left := by
    simp only [audit]
    rw [kept, add_tsub_cancel_left]
  refine ⟨?_, ?_⟩
  · intro x member
    rcases List.mem_cons.mp member with rfl | old
    · simp only [gone]
      exact answered
    · exact settled.answered x old
  · simp only [List.map_cons, List.sum_cons, gone]
    calc
      (audit timeout s e).2.queued + (h.map (·.out.queued)).sum
          = (h.map (·.out.left)).sum + (held s + s.queues e) := by
        rw [settled.kept, add_comm, add_assoc]
        rfl
      _ = left + (h.map (·.out.left)).sum + held (step timeout s e).1 := by
        rw [kept]
        abel

theorem start_orderly (tokens : AckTokens) : Orderly { tokens } :=
  ⟨⟨by simp, by simp [requests, maxSprayTransactions], by simp, by simp [requests]⟩, by simp⟩

/-- Unless a new OFF finds an ON of another producer in the queue, the queue stays disciplined, and every request that
was queued leaves with exactly one ack. -/
theorem queue_disciplined (timeout : ℚ) (tokens : AckTokens) (h : List (Entry Event Audit)) (s : SprayLink)
    (run : RunIf (audit timeout) (fun _ s e => s.offBehindOn e = false) { tokens } h s) :
    Disciplined s ∧ Settled h s := by
  have kept : Orderly s ∧ Settled h s := by
    refine run.invariant (fun h s => Orderly s ∧ Settled h s) ⟨start_orderly tokens, by simp, by simp [held, requests]⟩ ?_
    rintro h s e ⟨orderly, settled⟩ clear
    exact ⟨(step_works timeout s e).orderly clear orderly, audit_settled timeout e settled⟩
  exact ⟨kept.1.toDisciplined, kept.2⟩

/-- A controller OFF and an ON are pre-empted and superseded by a watchdog OFF, which is confirmed. -/
def preempted : List Event :=
  [.command { seq := 1, on := false, value := .fin (-1) } {}, .command { seq := 2, on := true, value := .fin 1 } {},
    .command { seq := 1, source := sourceWatchdog, on := false, value := .fin (-1) } {},
    .fcuAck ⟨cmdDoSetActuator, resultAccepted, 1, 2⟩ {}, .fcuAck ⟨cmdDoSetActuator, resultAccepted, 1, 3⟩ {}]

theorem preempted_disciplined :
    Guarded (audit 1) (fun _ s e => s.offBehindOn e = false) [] { tokens := .load 0 } preempted ∧
      Disciplined (exec (audit 1) [] { tokens := .load 0 } preempted).2 ∧
      Settled (exec (audit 1) [] { tokens := .load 0 } preempted).1 (exec (audit 1) [] { tokens := .load 0 } preempted).2 := by
  have guarded : Guarded (audit 1) (fun _ s e => s.offBehindOn e = false) [] { tokens := .load 0 } preempted := by
    decide +kernel
  exact ⟨guarded, queue_disciplined 1 (.load 0) _ _ (exec_runIf preempted guarded .start)⟩

/-- Behind an OFF in flight an ON and then a further OFF are queued; the ack of the first OFF sends the ON. -/
def queuedBehind : List Event :=
  [.command { seq := 1, on := false, value := .fin (-1) } {},
    .command { seq := 1, source := sourceWatchdog, on := true, value := .fin 1 } {},
    .command { seq := 2, on := false, value := .fin (-1) } {}, .fcuAck ⟨cmdDoSetActuator, resultAccepted, 1, 2⟩ {}]

theorem queuedBehind_off_waits :
    ∃ h s, Run (audit 1) { tokens := .load 0 } h s ∧
      ∃ i q, s.inflight = some i ∧ i.on = true ∧ q ∈ s.queue ∧ q.on = false := by
  refine ⟨_, _, exec_run queuedBehind .start, ?_⟩
  have waits : (exec (audit 1) [] { tokens := .load 0 } queuedBehind).2.inflight.any (·.on) = true ∧
      (exec (audit 1) [] { tokens := .load 0 } queuedBehind).2.queue.any (!·.on) = true := by
    decide +kernel
  obtain ⟨i, flying, on⟩ := (Option.any_eq_true _ _).mp waits.1
  obtain ⟨q, queued, off⟩ := List.any_eq_true.mp waits.2
  exact ⟨i, q, flying, on, queued, by simpa using off⟩

end Dyx3.Px4Link.SprayLink
