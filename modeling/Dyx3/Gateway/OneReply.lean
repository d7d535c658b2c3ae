import Mathlib.Data.List.Range
import Dyx3.Gateway.Node

/-!
One reply for each line: the books tie every line that was received to the one place where it is, which is the inbox, the
batch of the step, the table of pending calls, or the replies sent.
-/

namespace Dyx3.Gateway.GatewayNode

open Lib

abbrev Record := Entry Event (List Output)

/-- The lines received in a history, the oldest first, with their clients and what they parse to. -/
def lines (parse : String → ParseResult) : List Record → List (ℕ × ParseResult)
  | [] => []
  | ⟨.line client text, _⟩ :: h => lines parse h ++ [(client, parse text)]
  | _ :: h => lines parse h

/-- What the node showed in a history, the oldest first. -/
def outputs (h : List Record) : List Output := h.reverse.flatMap (·.out)

/-- The lines that got a reply. -/
def replied (out : List Output) : List ℕ :=
  out.filterMap fun | .reply _ k _ => some k | _ => none

/-- The lines that the loop of a step handled. -/
def processed (out : List Output) : List ℕ :=
  out.filterMap fun | .reply .loop k _ => some k | .request k _ _ => some k | _ => none

/-- The lines that were refused on arrival. -/
def turnedAway (out : List Output) : List ℕ :=
  out.filterMap fun | .reply .line k _ => some k | _ => none

def tokens (out : List Output) : List ℕ :=
  out.filterMap fun | .request _ token _ => some token | _ => none

def refreshes (out : List Output) : List (Flt × ℕ) :=
  out.filterMap fun | .refreshed _ now client => some (now, client) | _ => none

/-- The lines that wait for the loop of a step. -/
def queue (s : GatewayNode) : List ℕ := (s.inbox ++ s.batch.getD []).map (·.number)

/-- The lines that wait for their reply. -/
def waiting (s : GatewayNode) : List ℕ := s.queue ++ s.pending.map (·.2.number)

@[simp] theorem outputs_cons (x : Record) (h : List Record) : outputs (x :: h) = outputs h ++ x.out := by
  simp [outputs]

@[simp] theorem replied_append (a b : List Output) : replied (a ++ b) = replied a ++ replied b := List.filterMap_append
@[simp] theorem processed_append (a b : List Output) : processed (a ++ b) = processed a ++ processed b :=
  List.filterMap_append
@[simp] theorem turnedAway_append (a b : List Output) : turnedAway (a ++ b) = turnedAway a ++ turnedAway b :=
  List.filterMap_append
@[simp] theorem tokens_append (a b : List Output) : tokens (a ++ b) = tokens a ++ tokens b := List.filterMap_append
@[simp] theorem refreshes_append (a b : List Output) : refreshes (a ++ b) = refreshes a ++ refreshes b :=
  List.filterMap_append

theorem outputs_append (later earlier : List Record) : outputs (later ++ earlier) = outputs earlier ++ outputs later := by
  simp [outputs]

theorem lines_append (parse : String → ParseResult) (later earlier : List Record) :
    ∃ new, lines parse (later ++ earlier) = lines parse earlier ++ new := by
  induction later with
  | nil => exact ⟨[], by simp⟩
  | cons x later ih =>
    obtain ⟨new, same⟩ := ih
    obtain ⟨event, out⟩ := x
    cases event with
    | line client text => exact ⟨new ++ [(client, parse text)], by simp [lines, same]⟩
    | swap => exact ⟨new, same⟩
    | serve now ready snapshot => exact ⟨new, same⟩
    | answer token res => exact ⟨new, same⟩

theorem lines_length_le (parse : String → ParseResult) (later earlier : List Record) :
    (lines parse earlier).length ≤ (lines parse (later ++ earlier)).length := by
  obtain ⟨new, same⟩ := lines_append parse later earlier
  rw [same, List.length_append]
  omega

/-- A line keeps its number. -/
theorem lines_keep {parse : String → ParseResult} {earlier : List Record} {k : ℕ} {l : ℕ × ParseResult}
    (known : (lines parse earlier)[k]? = some l) (later : List Record) :
    (lines parse (later ++ earlier))[k]? = some l := by
  obtain ⟨new, same⟩ := lines_append parse later earlier
  obtain ⟨bound, _⟩ := List.getElem?_eq_some_iff.mp known
  rw [same, List.getElem?_append_left bound]
  exact known

section Loop

variable {timeouts : Timeouts} {now : Flt} {ready : ℕ → Bool} {snapshot : ℕ → String} {last : Option ℕ}
  {s : GatewayNode} {i : Inbound}

/-- The entry of a call that was handed to a service. -/
def pendingOf (timeouts : Timeouts) (now : Flt) (i : Inbound) : Pending :=
  ⟨i.number, i.client, i.pr.id, i.pr.cmd.kind, now + timeouts.timeoutFor i.pr.cmd.kind, i.pr.cmd.requestId⟩

/-- The node after it handed a line to a service. -/
def handedOver (timeouts : Timeouts) (now : Flt) (s : GatewayNode) (i : Inbound) : GatewayNode :=
  { s with pending := s.pending ++ [(s.nextToken, pendingOf timeouts now i)], nextToken := s.nextToken + 1 }

/-- A reply of the loop to `i`: to its client, with its id, and to an E-stop neither busy nor a success. -/
structure RepliesTo (i : Inbound) (r : Reply) : Prop where
  client : r.client = i.client
  id : r.id = i.pr.id
  estop : i.pr.cmd.kind = .estop → r.code ≠ "busy" ∧ r.ok = false

theorem repliesTo {ok : Bool} {code reason : String} {data : Data}
    (estop : i.pr.cmd.kind = .estop → code ≠ "busy" ∧ ok = false) :
    RepliesTo i ⟨i.client, i.pr.id, ok, code, reason, data⟩ := ⟨rfl, rfl, estop⟩

/-- The request an E-stop is turned into. -/
def Fits (i : Inbound) (req : Request) : Prop :=
  i.pr.cmd.kind = .estop → req = .setEmergencyStop i.pr.cmd.flag i.pr.cmd.source

theorem call_cases (timeouts : Timeouts) (now : Flt) (s : GatewayNode) (i : Inbound) (name : String) (req : Request)
    (ready : Bool) : (∃ r, s.call timeouts i now ready name req = (s, [.reply .loop i.number r]) ∧ RepliesTo i r) ∨
    s.call timeouts i now ready name req = (handedOver timeouts now s i, [.request i.number s.nextToken req]) := by
  unfold call
  dsimp only
  split
  · have code : "service_unavailable" ≠ "busy" := by decide
    exact .inl ⟨_, rfl, repliesTo fun _ => ⟨code, rfl⟩⟩
  · split
    · next full => exact .inl ⟨_, rfl, repliesTo fun estop => absurd estop full.2⟩
    · exact .inr rfl

/-- What one turn of the loop can do. -/
inductive Turn (timeouts : Timeouts) (now : Flt) (last : Option ℕ) (s : GatewayNode) (i : Inbound) :
    GatewayNode × List Output → Prop where
  | replies (r : Reply) (proper : RepliesTo i r) (quiet : i.isHeartbeat → some i.number ≠ last) :
      Turn timeouts now last s i (s, [.reply .loop i.number r])
  | refreshes (r : Reply) (proper : RepliesTo i r) (heartbeat : i.isHeartbeat) (chosen : some i.number = last) :
      Turn timeouts now last s i
        ({ s with link := some (now, i.client) }, [.refreshed i.number now i.client, .reply .loop i.number r])
  | handsOver (req : Request) (fits : Fits i req) (other : ¬ i.isHeartbeat) :
      Turn timeouts now last s i (handedOver timeouts now s i, [.request i.number s.nextToken req])

theorem turn_call {name : String} {req : Request} {ready : Bool} (fits : Fits i req) (other : ¬ i.isHeartbeat) :
    Turn timeouts now last s i (s.call timeouts i now ready name req) := by
  rcases call_cases timeouts now s i name req ready with ⟨r, same, proper⟩ | same
  · rw [same]
    exact .replies r proper fun heartbeat => absurd heartbeat other
  · rw [same]
    exact .handsOver req fits other

theorem turn_workOne : Turn timeouts now last s i (workOne timeouts now ready snapshot last s i) := by
  unfold workOne
  split
  · next quiet =>
    refine .replies _ (repliesTo fun estop => ?_) fun _ => quiet.2
    simp [Inbound.isHeartbeat, estop] at quiet
  · next loud =>
    unfold process
    dsimp only
    cases kind : i.pr.cmd.kind with
    | heartbeat =>
      have heartbeat : i.isHeartbeat = true := by simp [Inbound.isHeartbeat, kind]
      have chosen : some i.number = last := by simpa [heartbeat] using loud
      refine .refreshes _ (repliesTo fun estop => ?_) heartbeat chosen
      simp [kind] at estop
    | getSnapshot =>
      refine .replies _ (repliesTo fun estop => ?_) fun heartbeat => ?_
      · simp [kind] at estop
      · simp [Inbound.isHeartbeat, kind] at heartbeat
    | estop =>
      refine turn_call (fun _ => rfl) ?_
      simp [Inbound.isHeartbeat, kind]
    | _ =>
      refine turn_call (fun estop => ?_) ?_
      · simp [kind] at estop
      · simp [Inbound.isHeartbeat, kind]

/-- What the loop does to the node and shows outside for the lines `work`. -/
structure Worked (timeouts : Timeouts) (now : Flt) (last : Option ℕ) (work : List Inbound) (s s' : GatewayNode)
    (out : List Output) : Prop where
  inbox : s'.inbox = s.inbox
  received : s'.received = s.received
  batch : s'.batch = s.batch
  handled : processed out = work.map (·.number)
  away : turnedAway out = []
  counted : ∀ k, (replied out).count k + (s'.pending.map (·.2.number)).count k =
    (work.map (·.number)).count k + (s.pending.map (·.2.number)).count k
  issued : ∃ n, s'.nextToken = s.nextToken + n ∧ tokens out = List.range' s.nextToken n
  replies : ∀ o k r, .reply o k r ∈ out → ∃ i ∈ work, i.number = k ∧ RepliesTo i r
  pending : ∀ e ∈ s'.pending, e ∈ s.pending ∨
    ∃ i ∈ work, e.2 = pendingOf timeouts now i ∧ ∃ req, Fits i req ∧ .request i.number e.1 req ∈ out
  refreshed : ∀ k t c, .refreshed k t c ∈ out ↔
    ∃ i ∈ work, (i.isHeartbeat ∧ some i.number = last) ∧ k = i.number ∧ t = now ∧ c = i.client
  link : s'.link = (refreshes out).getLast?.or s.link

theorem Worked.append {w w' : List Inbound} {s s' s'' : GatewayNode} {out out' : List Output}
    (first : Worked timeouts now last w s s' out) (second : Worked timeouts now last w' s' s'' out') :
    Worked timeouts now last (w ++ w') s s'' (out ++ out') where
  inbox := second.inbox.trans first.inbox
  received := second.received.trans first.received
  batch := second.batch.trans first.batch
  handled := by simp [first.handled, second.handled]
  away := by simp [first.away, second.away]
  counted k := by
    have one := first.counted k
    have two := second.counted k
    simp only [replied_append, List.map_append, List.count_append]
    omega
  issued := by
    obtain ⟨n, next, issued⟩ := first.issued
    obtain ⟨n', next', issued'⟩ := second.issued
    refine ⟨n + n', by omega, ?_⟩
    rw [tokens_append, issued, issued', next, List.range'_append_1]
  replies o k r member := by
    rcases List.mem_append.mp member with member | member
    · obtain ⟨i, work, rest⟩ := first.replies o k r member
      exact ⟨i, List.mem_append_left _ work, rest⟩
    · obtain ⟨i, work, rest⟩ := second.replies o k r member
      exact ⟨i, List.mem_append_right _ work, rest⟩
  pending e member := by
    rcases second.pending e member with member | ⟨i, work, same, req, fits, sent⟩
    · rcases first.pending e member with member | ⟨i, work, same, req, fits, sent⟩
      · exact .inl member
      · exact .inr ⟨i, List.mem_append_left _ work, same, req, fits, List.mem_append_left _ sent⟩
    · exact .inr ⟨i, List.mem_append_right _ work, same, req, fits, List.mem_append_right _ sent⟩
  refreshed k t c := by
    simp only [List.mem_append, first.refreshed, second.refreshed, or_and_right, exists_or]
  link := by
    rw [second.link, first.link, refreshes_append, List.getLast?_append, Option.or_assoc]

theorem Worked.nil : Worked timeouts now last [] s s [] where
  inbox := rfl
  received := rfl
  batch := rfl
  handled := rfl
  away := rfl
  counted k := by simp [replied]
  issued := ⟨0, rfl, rfl⟩
  replies := nofun
  pending _ member := .inl member
  refreshed k t c := by simp
  link := by simp [refreshes]

theorem Turn.worked {result : GatewayNode × List Output} (turn : Turn timeouts now last s i result) :
    Worked timeouts now last [i] s result.1 result.2 := by
  cases turn with
  | replies r proper quiet =>
    refine ⟨rfl, rfl, rfl, rfl, rfl, fun k => rfl, ⟨0, rfl, rfl⟩, ?_, fun e member => .inl member, ?_, rfl⟩
    · intro o k r' member
      simp only [List.mem_singleton, Output.reply.injEq] at member
      obtain ⟨-, rfl, rfl⟩ := member
      exact ⟨i, List.mem_singleton_self i, rfl, proper⟩
    · intro k t c
      simp only [List.mem_singleton, reduceCtorEq, exists_eq_left, false_iff]
      rintro ⟨⟨heartbeat, chosen⟩, -⟩
      exact quiet heartbeat chosen
  | refreshes r proper heartbeat chosen =>
    refine ⟨rfl, rfl, rfl, rfl, rfl, fun k => rfl, ⟨0, rfl, rfl⟩, ?_, fun e member => .inl member, ?_, rfl⟩
    · intro o k r' member
      simp only [List.mem_cons, reduceCtorEq, List.not_mem_nil, or_false, false_or, Output.reply.injEq] at member
      obtain ⟨-, rfl, rfl⟩ := member
      exact ⟨i, List.mem_singleton_self i, rfl, proper⟩
    · intro k t c
      simp [heartbeat, chosen]
  | handsOver req fits other =>
    refine ⟨rfl, rfl, rfl, rfl, rfl, fun k => ?_, ⟨1, rfl, rfl⟩, ?_, ?_, ?_, rfl⟩
    · simp only [replied, handedOver, pendingOf, List.filterMap_cons_none, List.filterMap_nil, List.map_append,
        List.map_cons, List.map_nil, List.count_append, List.count_nil]
      omega
    · intro o k r' member
      simp at member
    · intro e member
      rcases List.mem_append.mp member with member | member
      · exact .inl member
      · obtain rfl := List.mem_singleton.mp member
        exact .inr ⟨i, List.mem_singleton_self i, rfl, req, fits, List.mem_singleton_self _⟩
    · intro k t c
      simp [other]

theorem worked_all (timeouts : Timeouts) (now : Flt) (ready : ℕ → Bool) (snapshot : ℕ → String) (last : Option ℕ)
    (work : List Inbound) (s : GatewayNode) :
    Worked timeouts now last work s (workAll timeouts now ready snapshot last work s).1
      (workAll timeouts now ready snapshot last work s).2 := by
  induction work generalizing s with
  | nil => exact .nil
  | cons i rest ih => exact turn_workOne.worked.append (ih _)

end Loop

section Commute

variable {timeouts : Timeouts} {now : Flt} {ready : ℕ → Bool} {snapshot : ℕ → String} {last : Option ℕ}
  {inbox : List Inbound} {received : ℕ}

/-- The node with another inbox, as a line that comes meanwhile leaves it. -/
def withInbox (s : GatewayNode) (inbox : List Inbound) (received : ℕ) : GatewayNode := { s with inbox, received }

theorem call_withInbox (s : GatewayNode) (i : Inbound) (ready : Bool) (name : String) (req : Request) :
    (s.withInbox inbox received).call timeouts i now ready name req =
      ((s.call timeouts i now ready name req).1.withInbox inbox received, (s.call timeouts i now ready name req).2) := by
  unfold call
  dsimp only
  cases ready with
  | false => rfl
  | true =>
    have same : (s.withInbox inbox received).pending = s.pending := rfl
    by_cases full : kPendingCap ≤ s.pending.length ∧ i.pr.cmd.kind ≠ .estop
    · rw [same, if_pos full, if_pos full]
      rfl
    · rw [same, if_neg full, if_neg full]
      rfl

theorem workOne_withInbox (s : GatewayNode) (i : Inbound) :
    workOne timeouts now ready snapshot last (s.withInbox inbox received) i =
      ((workOne timeouts now ready snapshot last s i).1.withInbox inbox received,
        (workOne timeouts now ready snapshot last s i).2) := by
  unfold workOne
  split
  · rfl
  · unfold process
    dsimp only
    cases i.pr.cmd.kind with
    | heartbeat => rfl
    | getSnapshot => rfl
    | _ => exact call_withInbox s i _ _ _

theorem workAll_withInbox (work : List Inbound) (s : GatewayNode) :
    workAll timeouts now ready snapshot last work (s.withInbox inbox received) =
      ((workAll timeouts now ready snapshot last work s).1.withInbox inbox received,
        (workAll timeouts now ready snapshot last work s).2) := by
  induction work generalizing s with
  | nil => rfl
  | cons i rest ih =>
    unfold workAll
    dsimp only
    rw [workOne_withInbox]
    dsimp only
    rw [ih]

theorem serve_withInbox (work : List Inbound) (s : GatewayNode) :
    (s.withInbox inbox received).serve timeouts work now ready snapshot =
      ((s.serve timeouts work now ready snapshot).1.withInbox inbox received,
        (s.serve timeouts work now ready snapshot).2) := by
  have idle : { s.withInbox inbox received with batch := none } =
    ({ s with batch := none } : GatewayNode).withInbox inbox received := rfl
  unfold serve
  dsimp only
  rw [idle, workAll_withInbox]
  rfl

/-- What a line does depends on the inbox and nothing else. -/
theorem onLine_withInbox (parse : String → ParseResult) (s : GatewayNode) (client : ℕ) (text : String) :
    ∃ inbox received out, ∀ t : GatewayNode, t.inbox = s.inbox → t.received = s.received →
      t.onLine parse client text = (t.withInbox inbox received, out) := by
  refine ⟨(s.onLine parse client text).1.inbox, (s.onLine parse client text).1.received,
    (s.onLine parse client text).2, fun t inbox received => ?_⟩
  unfold onLine
  dsimp only
  rw [inbox, received]
  split
  · rw [← inbox]
    rfl
  · split
    · rw [← inbox]
      rfl
    · rfl

/-- A line that comes after the swap and the rest of the step do not see each other: in both orders the node, and what it
shows for each of the two, are the same. -/
theorem line_serve_comm (parse : String → ParseResult) (s : GatewayNode) (client : ℕ) (text : String) :
    ∃ inbox received out,
      s.onLine parse client text = (s.withInbox inbox received, out) ∧
      (handle parse timeouts s (.serve now ready snapshot)).1.onLine parse client text =
        ((handle parse timeouts s (.serve now ready snapshot)).1.withInbox inbox received, out) ∧
      handle parse timeouts (s.withInbox inbox received) (.serve now ready snapshot) =
        ((handle parse timeouts s (.serve now ready snapshot)).1.withInbox inbox received,
          (handle parse timeouts s (.serve now ready snapshot)).2) := by
  obtain ⟨inbox, received, out, lines⟩ := onLine_withInbox parse s client text
  have worked := worked_all timeouts now ready snapshot (lastHb (s.batch.getD [])) (s.batch.getD []) { s with batch := none }
  exact ⟨inbox, received, out, lines s rfl rfl, lines _ worked.inbox worked.received, serve_withInbox _ s⟩

end Commute

section Sorting

variable {α : Type*} {f : α → ℕ} {R : α → α → Prop}

/-- The order a stable sort by `f` leaves in a list that was ordered by `R`. -/
def Precedes (f : α → ℕ) (R : α → α → Prop) (a b : α) : Prop := f a < f b ∨ f a = f b ∧ R a b

theorem orderedInsert_precedes {a : α} {l : List α} (sorted : l.Pairwise (Precedes f R)) (first : ∀ b ∈ l, R a b) :
    (l.orderedInsert (fun a b => f a ≤ f b) a).Pairwise (Precedes f R) := by
  induction l with
  | nil => exact List.pairwise_singleton _ _
  | cons b l ih =>
    obtain ⟨head, tail⟩ := List.pairwise_cons.mp sorted
    rw [List.orderedInsert_cons]
    split
    · next before =>
      refine List.pairwise_cons.mpr ⟨fun c member => ?_, sorted⟩
      have later : f a ≤ f c := by
        rcases List.mem_cons.mp member with rfl | member
        · exact before
        · rcases head c member with less | ⟨same, _⟩
          · omega
          · omega
      rcases Nat.lt_or_eq_of_le later with less | same
      · exact .inl less
      · exact .inr ⟨same, first c member⟩
    · next after =>
      refine List.pairwise_cons.mpr ⟨fun c member => ?_, ih tail fun c member => first c (List.mem_cons_of_mem b member)⟩
      rcases (List.mem_orderedInsert _).mp member with rfl | member
      · exact .inl (by omega)
      · exact head c member

theorem insertionSort_precedes {l : List α} (ordered : l.Pairwise R) :
    (l.insertionSort fun a b => f a ≤ f b).Pairwise (Precedes f R) := by
  induction l with
  | nil => exact .nil
  | cons a l ih =>
    obtain ⟨head, tail⟩ := List.pairwise_cons.mp ordered
    exact orderedInsert_precedes (ih tail) fun b member => head b ((List.mem_insertionSort _).mp member)

end Sorting

/-- A reply to line `k` goes to the client that sent it and carries its id. To an E-stop it is never busy, and it is a
success only as the accepted answer to the request that was sent for this very line. -/
def Proper (parse : String → ParseResult) (x : Record) (earlier : List Record) (k : ℕ) (r : Reply) : Prop :=
  ∃ pr, (lines parse (x :: earlier))[k]? = some (r.client, pr) ∧ r.id = pr.id ∧
    (pr.ok = true ∧ pr.cmd.kind = .estop → r.code ≠ "busy" ∧
      (r.ok = true → ∃ token res, x.event = .answer token res ∧ res.accepted = true ∧
        .request k token (.setEmergencyStop pr.cmd.flag pr.cmd.source) ∈ outputs earlier))

/-- `d` is when the answer to line `k` is due: its timeout after the step that handed it over. -/
def Deadline (parse : String → ParseResult) (timeouts : Timeouts) (h : List Record) (k : ℕ) (d : Flt) : Prop :=
  ∃ now ready snapshot out token req client pr, ⟨.serve now ready snapshot, out⟩ ∈ h ∧ .request k token req ∈ out ∧
    (lines parse h)[k]? = some (client, pr) ∧ d = now + timeouts.timeoutFor pr.cmd.kind

def rankOf (parse : String → ParseResult) (h : List Record) (k : ℕ) : ℕ :=
  ((lines parse h)[k]?).elim 2 fun l => batchRank l.2.cmd.kind

def heartbeatAt (parse : String → ParseResult) (h : List Record) (k : ℕ) : Bool :=
  ((lines parse h)[k]?).any fun l => l.2.cmd.kind = .heartbeat

/-- A step handles its lines by rank and, in a rank, as they arrived; the last heartbeat refreshes the link. -/
structure InOrder (parse : String → ParseResult) (now : Flt) (out : List Output) (earlier : List Record) : Prop where
  order : (processed out).Pairwise (Precedes (rankOf parse earlier) (· < ·))
  refreshed : ∀ k t c, .refreshed k t c ∈ out ↔ lastWhere (heartbeatAt parse earlier) (processed out) = some k ∧
    t = now ∧ ∃ pr, (lines parse earlier)[k]? = some (c, pr)

/-- What holds of every call `x` after the calls `earlier`: its replies are proper and, when it is a step, it goes in order
and leaves no line without its reply that came before the step and has no deadline ahead. -/
structure Served (parse : String → ParseResult) (timeouts : Timeouts) (x : Record) (earlier : List Record) : Prop where
  proper : ∀ o k r, .reply o k r ∈ x.out → Proper parse x earlier k r
  inOrder : ∀ now ready snapshot, x.event = .serve now ready snapshot → InOrder parse now x.out earlier
  settled : ∀ now ready snapshot, x.event = .serve now ready snapshot → ∀ mid swap old,
    earlier = mid ++ ⟨.swap, swap⟩ :: old → ∀ k < (lines parse old).length,
      (∀ d, Deadline parse timeouts (x :: earlier) k d → d ≤ now) → (replied (outputs (x :: earlier))).count k = 1

/-- `i` is the line with its number. -/
def Known (parse : String → ParseResult) (h : List Record) (i : Inbound) : Prop :=
  (lines parse h)[i.number]? = some (i.client, i.pr) ∧ i.pr.ok = true

/-- `e` is the call that a step of the history handed the line `i` over to. -/
def CallOf (timeouts : Timeouts) (h : List Record) (i : Inbound) (e : ℕ × Pending) : Prop :=
  ∃ now ready snapshot out req, ⟨.serve now ready snapshot, out⟩ ∈ h ∧ e.2 = pendingOf timeouts now i ∧
    Fits i req ∧ .request i.number e.1 req ∈ out

structure Books (parse : String → ParseResult) (timeouts : Timeouts) (h : List Record) (s : GatewayNode) : Prop where
  received : s.received = (lines parse h).length
  replied : ∀ k, (replied (outputs h)).count k + s.waiting.count k = if k < s.received then 1 else 0
  handled : ∀ k, (processed (outputs h)).count k + (turnedAway (outputs h)).count k + s.queue.count k =
    if k < s.received then 1 else 0
  known : ∀ i ∈ s.inbox ++ s.batch.getD [], Known parse h i
  arrival : s.inbox.Pairwise fun a b => a.number < b.number
  sorted : (s.batch.getD []).Pairwise (Precedes (fun i => batchRank i.pr.cmd.kind) fun a b => a.number < b.number)
  /-- what is in the inbox came after every swap -/
  fresh : ∀ later out old, h = later ++ ⟨.swap, out⟩ :: old → ∀ i ∈ s.inbox, (lines parse old).length ≤ i.number
  calls : ∀ e ∈ s.pending, ∃ i, Known parse h i ∧ CallOf timeouts h i e
  issued : ∃ n, s.nextToken = 1 + n ∧ tokens (outputs h) = List.range' 1 n
  link : s.link = (refreshes (outputs h)).getLast?

section Steps

variable {parse : String → ParseResult} {timeouts : Timeouts} {h : List Record} {s : GatewayNode}

theorem Known.cons {i : Inbound} (known : Known parse h i) (x : Record) : Known parse (x :: h) i :=
  ⟨lines_keep known.1 [x], known.2⟩

theorem CallOf.cons {i : Inbound} {e : ℕ × Pending} (call : CallOf timeouts h i e) (x : Record) :
    CallOf timeouts (x :: h) i e := by
  obtain ⟨now, ready, snapshot, out, req, member, rest⟩ := call
  exact ⟨now, ready, snapshot, out, req, List.mem_cons_of_mem x member, rest⟩

theorem CallOf.extend {i : Inbound} {e : ℕ × Pending} {event : Event} {out : List Output}
    (call : CallOf timeouts (⟨event, out⟩ :: h) i e) (out' : List Output) :
    CallOf timeouts (⟨event, out ++ out'⟩ :: h) i e := by
  obtain ⟨now, ready, snapshot, shown, req, member, same, fits, sent⟩ := call
  rcases List.mem_cons.mp member with head | member
  · obtain ⟨rfl, rfl⟩ := Entry.mk.inj head
    exact ⟨now, ready, snapshot, _, req, List.mem_cons_self, same, fits, List.mem_append_left _ sent⟩
  · exact ⟨now, ready, snapshot, shown, req, List.mem_cons_of_mem _ member, same, fits, sent⟩

theorem Known.bound {i : Inbound} (known : Known parse h i) : i.number < (lines parse h).length :=
  (List.getElem?_eq_some_iff.mp known.1).1

/-- A line is refused on arrival, which never happens to an E-stop, or it is queued. -/
theorem onLine_cases (parse : String → ParseResult) (s : GatewayNode) (client : ℕ) (text : String) :
    (∃ r : Reply, s.onLine parse client text =
        ({ s with received := s.received + 1 }, [.reply .line s.received r]) ∧
      r.client = client ∧ r.id = (parse text).id ∧ ¬ ((parse text).ok = true ∧ (parse text).cmd.kind = .estop)) ∨
    ((parse text).ok = true ∧ s.onLine parse client text =
      ({ s with received := s.received + 1, inbox := s.inbox ++ [⟨s.received, client, parse text⟩] }, [])) := by
  unfold onLine
  dsimp only
  split
  · next bad => exact .inl ⟨_, rfl, rfl, rfl, fun estop => by simp [bad] at estop⟩
  · next good =>
    split
    · next full => exact .inl ⟨_, rfl, rfl, rfl, fun estop => full.2 estop.2⟩
    · exact .inr ⟨by simpa using good, rfl⟩

/-- The books of a line are open to it alone: it is numbered one past the others. -/
theorem count_succ (k n : ℕ) : (if k < n then 1 else 0) + (if n = k then 1 else 0) = if k < n + 1 then 1 else 0 := by
  split <;> split <;> split <;> omega

theorem fresh_cons {x : Record} (noSwap : x.event ≠ .swap) {inbox : List Inbound}
    (fresh : ∀ later out old, h = later ++ ⟨.swap, out⟩ :: old → ∀ i ∈ inbox, (lines parse old).length ≤ i.number) :
    ∀ later out old, x :: h = later ++ ⟨.swap, out⟩ :: old → ∀ i ∈ inbox, (lines parse old).length ≤ i.number := by
  intro later out old same
  rcases cons_split same with ⟨_, rfl, _⟩ | ⟨later, rfl, rest⟩
  · exact absurd rfl noSwap
  · exact fresh later out old rest

theorem calls_cons {pending : List (ℕ × Pending)}
    (calls : ∀ e ∈ pending, ∃ i, Known parse h i ∧ CallOf timeouts h i e) (x : Record) :
    ∀ e ∈ pending, ∃ i, Known parse (x :: h) i ∧ CallOf timeouts (x :: h) i e := by
  intro e member
  obtain ⟨i, known, call⟩ := calls e member
  exact ⟨i, known.cons x, call.cons x⟩

theorem Books.line (books : Books parse timeouts h s) (client : ℕ) (text : String) :
    Books parse timeouts (⟨.line client text, (s.onLine parse client text).2⟩ :: h) (s.onLine parse client text).1 := by
  rcases onLine_cases parse s client text with ⟨r, same, -⟩ | ⟨good, same⟩
  · rw [same]
    refine ⟨?_, fun k => ?_, fun k => ?_, fun i member => (books.known i member).cons _, books.arrival, books.sorted,
      fresh_cons (by simp) books.fresh, calls_cons books.calls _, ?_, ?_⟩
    · simp [lines, books.received]
    · have before := books.replied k
      have new : (GatewayNode.replied [.reply .line s.received r]).count k = if s.received = k then 1 else 0 := by
        simp [GatewayNode.replied, List.count_singleton]
      simp only [outputs_cons, replied_append, List.count_append, new, ← count_succ]
      simp only [waiting, queue] at before ⊢
      omega
    · have before := books.handled k
      have new : (turnedAway [.reply .line s.received r]).count k = if s.received = k then 1 else 0 := by
        simp [turnedAway, List.count_singleton]
      have none : processed [.reply .line s.received r] = [] := rfl
      simp only [outputs_cons, processed_append, turnedAway_append, List.count_append, new, none, List.count_nil,
        ← count_succ]
      simp only [queue] at before ⊢
      omega
    · simpa [tokens] using books.issued
    · simpa [refreshes] using books.link
  · rw [same]
    have last : Known parse (⟨.line client text, []⟩ :: h) ⟨s.received, client, parse text⟩ := by
      simp [Known, lines, books.received, good]
    refine ⟨?_, fun k => ?_, fun k => ?_, ?_, ?_, books.sorted, ?_, calls_cons books.calls _, ?_, ?_⟩
    · simp [lines, books.received]
    · have before := books.replied k
      simp only [waiting, queue] at before ⊢
      simp only [outputs_cons, List.append_nil, List.map_append, List.count_append, List.map_cons, List.map_nil,
        List.count_singleton, beq_iff_eq, ← count_succ] at before ⊢
      omega
    · have before := books.handled k
      simp only [queue] at before ⊢
      simp only [outputs_cons, List.append_nil, List.map_append, List.count_append, List.map_cons, List.map_nil,
        List.count_singleton, beq_iff_eq, ← count_succ] at before ⊢
      omega
    · intro i member
      simp only [List.append_assoc, List.mem_append, List.mem_singleton] at member
      rcases member with old | rfl | old
      · exact (books.known i (List.mem_append_left _ old)).cons _
      · exact last
      · exact (books.known i (List.mem_append_right _ old)).cons _
    · refine List.pairwise_append.mpr ⟨books.arrival, List.pairwise_singleton _ _, fun i member j new => ?_⟩
      obtain rfl := List.mem_singleton.mp new
      have bound := (books.known i (List.mem_append_left _ member)).bound
      simpa [books.received] using bound
    · refine fresh_cons (by simp) fun later out old split i member => ?_
      rcases List.mem_append.mp member with member | new
      · exact books.fresh later out old split i member
      · obtain rfl := List.mem_singleton.mp new
        have grown := lines_length_le parse later (⟨.swap, out⟩ :: old)
        rw [← split, ← books.received] at grown
        exact grown
    · simpa using books.issued
    · simpa using books.link

theorem Books.swap (books : Books parse timeouts h s) (idle : s.batch = none) :
    Books parse timeouts (⟨.swap, []⟩ :: h) s.swap := by
  have perm := List.perm_insertionSort (fun a b : Inbound => batchRank a.pr.cmd.kind ≤ batchRank b.pr.cmd.kind) s.inbox
  have same : ∀ k, s.swap.queue.count k = s.queue.count k := by
    intro k
    simp only [queue, GatewayNode.swap, idle, Option.getD_some, Option.getD_none, List.nil_append, List.append_nil]
    exact (perm.map _).count_eq k
  refine ⟨books.received, fun k => ?_, fun k => ?_, fun i member => ?_, .nil, insertionSort_precedes books.arrival,
    fun _ _ _ _ i member => absurd member List.not_mem_nil, calls_cons books.calls _, ?_, ?_⟩
  · have before := books.replied k
    simp only [waiting, List.count_append, same, outputs_cons, List.append_nil] at before ⊢
    exact before
  · have before := books.handled k
    rw [same]
    simp only [outputs_cons, List.append_nil]
    exact before
  · have member : i ∈ s.inbox := perm.mem_iff.mp (by simpa [GatewayNode.swap] using member)
    exact (books.known i (List.mem_append_left _ member)).cons _
  · simpa [GatewayNode.swap] using books.issued
  · simpa [GatewayNode.swap] using books.link

/-- The node shows nothing but the replies to the calls it takes out of the table. -/
structure Settles (s s' : GatewayNode) (out : List Output) : Prop where
  inbox : s'.inbox = s.inbox
  received : s'.received = s.received
  batch : s'.batch = s.batch
  nextToken : s'.nextToken = s.nextToken
  link : s'.link = s.link
  pending : ∀ e ∈ s'.pending, e ∈ s.pending
  handled : processed out = []
  away : turnedAway out = []
  issued : tokens out = []
  refreshed : refreshes out = []
  counted : ∀ k, (replied out).count k + (s'.pending.map (·.2.number)).count k = (s.pending.map (·.2.number)).count k

theorem settles_sweep (s : GatewayNode) (now : Flt) : Settles s (s.sweep now).1 (s.sweep now).2 := by
  have numbers : replied (s.sweep now).2 = (s.pending.filter fun e => e.2.deadline ≤ now).map (·.2.number) := by
    simp [replied, sweep, timedOut, List.filterMap_map]
  refine ⟨rfl, rfl, rfl, rfl, rfl, fun e member => (List.mem_filter.mp member).1, ?_, ?_, ?_, ?_, fun k => ?_⟩
  · simp [processed, sweep, timedOut, List.filterMap_map]
  · simp [turnedAway, sweep, timedOut, List.filterMap_map]
  · simp [tokens, sweep, timedOut, List.filterMap_map]
  · simp [refreshes, sweep, timedOut, List.filterMap_map]
  · have perm := (List.filter_append_perm (fun e : ℕ × Pending => decide (e.2.deadline ≤ now)) s.pending).map (·.2.number)
    have counts := perm.count_eq k
    rw [numbers]
    simpa [sweep] using counts

theorem answer_cases (s : GatewayNode) (token : ℕ) (res : Response) :
    s.answer token res = (s, []) ∨
    ∃ p before after, s.pending = before ++ (token, p) :: after ∧
      s.answer token res = ({ s with pending := before ++ after }, [answered p res]) := by
  unfold answer
  cases found : s.pending.find? fun e => decide (e.1 = token) with
  | none => exact .inl rfl
  | some e =>
    obtain ⟨own, before, after, same, others⟩ := List.find?_eq_some_iff_append.mp found
    obtain ⟨t, p⟩ := e
    obtain rfl : t = token := by simpa using own
    have erased : s.pending.eraseP (fun e => decide (e.1 = t)) = before ++ after := by
      rw [same, List.eraseP_append_right _ (by simpa using others), List.eraseP_cons_of_pos (by simp)]
    exact .inr ⟨p, before, after, same, by rw [← erased]⟩

theorem settles_answer (s : GatewayNode) (token : ℕ) (res : Response) :
    Settles s (s.answer token res).1 (s.answer token res).2 := by
  rcases answer_cases s token res with same | ⟨p, before, after, calls, same⟩
  · rw [same]
    exact ⟨rfl, rfl, rfl, rfl, rfl, fun _ member => member, rfl, rfl, rfl, rfl, fun k => by simp [replied]⟩
  · rw [same]
    refine ⟨rfl, rfl, rfl, rfl, rfl, fun e member => ?_, rfl, rfl, rfl, rfl, fun k => ?_⟩
    · rw [calls]
      exact (List.sublist_cons_self (token, p) after).append_left before |>.mem member
    · have one : replied [answered p res] = [p.number] := rfl
      simp only [one, calls, List.map_append, List.map_cons, List.count_append, List.count_cons, List.count_nil]
      omega

/-- Calls are settled at the end of what an event does. -/
theorem Books.settles {event : Event} {out out' : List Output} {s' : GatewayNode}
    (books : Books parse timeouts (⟨event, out⟩ :: h) s) (settles : Settles s s' out') :
    Books parse timeouts (⟨event, out ++ out'⟩ :: h) s' := by
  have same : lines parse (⟨event, out ++ out'⟩ :: h) = lines parse (⟨event, out⟩ :: h) := by
    cases event <;> rfl
  have shown : outputs (⟨event, out ++ out'⟩ :: h) = outputs (⟨event, out⟩ :: h) ++ out' := by simp
  have waiting : ∀ k, (GatewayNode.replied out').count k + s'.waiting.count k = s.waiting.count k := by
    intro k
    have counted := settles.counted k
    simp only [GatewayNode.waiting, queue, settles.inbox, settles.batch, List.count_append]
    omega
  have known : ∀ i, Known parse (⟨event, out⟩ :: h) i → Known parse (⟨event, out ++ out'⟩ :: h) i := by
    intro i known
    unfold Known
    rw [same]
    exact known
  refine ⟨?_, fun k => ?_, fun k => ?_, fun i member => ?_, ?_, ?_, ?_, fun e member => ?_, ?_, ?_⟩
  · rw [same, settles.received]
    exact books.received
  · rw [shown, settles.received, ← books.replied k, ← waiting k, replied_append, List.count_append]
    omega
  · rw [shown, settles.received, ← books.handled k, processed_append, turnedAway_append, settles.handled, settles.away,
      List.append_nil, List.append_nil]
    simp only [queue, settles.inbox, settles.batch]
  · rw [settles.inbox, settles.batch] at member
    exact known i (books.known i member)
  · rw [settles.inbox]
    exact books.arrival
  · rw [settles.batch]
    exact books.sorted
  · rw [settles.inbox]
    intro later shows old split
    rcases cons_split split with ⟨_, head, rfl⟩ | ⟨later, _, rfl⟩
    · obtain ⟨rfl, -⟩ := Entry.mk.inj head
      exact books.fresh [] out h rfl
    · exact books.fresh (⟨event, out⟩ :: later) shows old rfl
  · obtain ⟨i, old, call⟩ := books.calls e (settles.pending e member)
    exact ⟨i, known i old, call.extend out'⟩
  · rw [settles.nextToken, shown, tokens_append, settles.issued, List.append_nil]
    exact books.issued
  · rw [settles.link, shown, refreshes_append, settles.refreshed, List.append_nil]
    exact books.link

theorem Books.worked {now : Flt} {ready : ℕ → Bool} {snapshot : ℕ → String} {last : Option ℕ} {out : List Output}
    {s' : GatewayNode} (books : Books parse timeouts h s)
    (worked : Worked timeouts now last (s.batch.getD []) { s with batch := none } s' out) :
    Books parse timeouts (⟨.serve now ready snapshot, out⟩ :: h) s' := by
  refine ⟨worked.received.trans books.received, fun k => ?_, fun k => ?_, fun i member => ?_, ?_, ?_, ?_, ?_, ?_, ?_⟩
  · have before := books.replied k
    have loop := worked.counted k
    simp only [waiting, queue, worked.inbox, worked.batch, worked.received, Option.getD_none, List.append_nil,
      List.map_append, List.count_append, outputs_cons, replied_append] at before loop ⊢
    omega
  · have before := books.handled k
    simp only [queue, worked.inbox, worked.batch, worked.received, Option.getD_none, List.append_nil, List.map_append,
      List.count_append, outputs_cons, processed_append, turnedAway_append, worked.handled, worked.away] at before ⊢
    omega
  · rw [worked.inbox, worked.batch, Option.getD_none, List.append_nil] at member
    exact (books.known i (List.mem_append_left _ member)).cons _
  · rw [worked.inbox]
    exact books.arrival
  · rw [worked.batch]
    exact .nil
  · rw [worked.inbox]
    exact fresh_cons (by simp) books.fresh
  · intro e member
    rcases worked.pending e member with old | ⟨i, member, same, req, fits, sent⟩
    · exact calls_cons books.calls _ e old
    · refine ⟨i, (books.known i (List.mem_append_right _ member)).cons _, ?_⟩
      exact ⟨now, ready, snapshot, _, req, List.mem_cons_self, same, fits, sent⟩
  · obtain ⟨n, next, issued⟩ := books.issued
    obtain ⟨m, next', issued'⟩ := worked.issued
    refine ⟨n + m, by rw [next']; dsimp only; omega, ?_⟩
    simp only [outputs_cons, tokens_append, issued, issued', next]
    exact List.range'_append_1
  · rw [worked.link]
    simp only [outputs_cons, refreshes_append, List.getLast?_append, books.link]

theorem Books.silent (books : Books parse timeouts h s) (token : ℕ) (res : Response) :
    Books parse timeouts (⟨.answer token res, []⟩ :: h) s := by
  refine ⟨books.received, fun k => ?_, fun k => ?_, fun i member => (books.known i member).cons _, books.arrival,
    books.sorted, fresh_cons (by simp) books.fresh, calls_cons books.calls _, ?_, ?_⟩
  · simpa using books.replied k
  · simpa using books.handled k
  · simpa using books.issued
  · simpa using books.link

theorem books_run (run : RunIf (handle parse timeouts) (fun _ => InTurn) {} h s) : Books parse timeouts h s := by
  refine run.invariant (Books parse timeouts) ?_ ?_
  · exact ⟨rfl, fun k => rfl, fun k => rfl, fun i member => absurd member List.not_mem_nil, .nil, .nil,
      fun _ _ _ _ i member => absurd member List.not_mem_nil, fun e member => absurd member List.not_mem_nil,
      ⟨0, rfl, rfl⟩, rfl⟩
  · intro h s e books turn
    cases e with
    | line client text => exact books.line client text
    | swap => exact books.swap turn
    | serve now ready snapshot =>
      exact (books.worked (worked_all timeouts now ready snapshot _ _ _)).settles (settles_sweep _ now)
    | answer token res => exact (books.silent token res).settles (settles_answer s token res)

theorem Known.unique {i : Inbound} (known : Known parse h i) {l : ℕ × ParseResult}
    (same : (lines parse h)[i.number]? = some l) : l = (i.client, i.pr) :=
  Option.some.inj (same.symm.trans known.1)

theorem sent_outputs {x : Record} {y : Output} (member : x ∈ h) (shown : y ∈ x.out) : y ∈ outputs h := by
  simp only [outputs, List.mem_flatMap, List.mem_reverse]
  exact ⟨x, member, shown⟩

/-- A pending call names the client and the id of its line. -/
theorem proper_call {x : Record} {e : ℕ × Pending} {i : Inbound} {r : Reply} (known : Known parse (x :: h) i)
    (call : CallOf timeouts (x :: h) i e) (client : r.client = e.2.client) (id : r.id = e.2.id) (code : r.code ≠ "busy")
    (accepted : ∀ req, r.ok = true → Fits i req → .request i.number e.1 req ∈ outputs (x :: h) →
      ∃ res, x.event = .answer e.1 res ∧ res.accepted = true ∧ .request i.number e.1 req ∈ outputs h) :
    Proper parse x h e.2.number r := by
  obtain ⟨now, ready, snapshot, out, req, member, same, fits, sent⟩ := call
  rw [same] at client id ⊢
  refine ⟨i.pr, ?_, id, fun estop => ⟨code, fun ok => ?_⟩⟩
  · rw [client]
    exact known.1
  · obtain ⟨res, event, accepted, earlier⟩ := accepted req ok fits (sent_outputs member sent)
    rw [fits estop.2] at earlier
    exact ⟨e.1, res, event, accepted, earlier⟩

theorem Books.proper_line (books : Books parse timeouts h s) {client : ℕ} {text : String} {o : Origin} {k : ℕ} {r : Reply}
    (shown : .reply o k r ∈ (s.onLine parse client text).2) :
    Proper parse ⟨.line client text, (s.onLine parse client text).2⟩ h k r := by
  rcases onLine_cases parse s client text with ⟨r', same, from_, id, other⟩ | ⟨_, same⟩
  · rw [same] at shown ⊢
    simp only [List.mem_singleton, Output.reply.injEq] at shown
    obtain ⟨-, rfl, rfl⟩ := shown
    refine ⟨parse text, ?_, id, fun estop => absurd estop other⟩
    simp [lines, books.received, from_]
  · rw [same] at shown
    simp at shown

theorem Books.proper_answer (books : Books parse timeouts h s) {token : ℕ} {res : Response} {o : Origin} {k : ℕ}
    {r : Reply} (shown : .reply o k r ∈ (s.answer token res).2) :
    Proper parse ⟨.answer token res, (s.answer token res).2⟩ h k r := by
  rcases answer_cases s token res with same | ⟨p, before, after, calls, same⟩
  · rw [same] at shown
    simp at shown
  · rw [same] at shown ⊢
    simp only [List.mem_singleton, answered, Output.reply.injEq] at shown
    obtain ⟨-, rfl, rfl⟩ := shown
    obtain ⟨i, known, call⟩ := books.calls (token, p) (by simp [calls])
    refine proper_call (known.cons _) (call.cons _) rfl rfl ?_ fun req ok _ sent => ?_
    · dsimp only
      unfold refusalCode
      split
      · decide
      · split <;> decide
    · refine ⟨res, rfl, ok, ?_⟩
      simpa [answered] using sent

section Serve

variable {now : Flt} {ready : ℕ → Bool} {snapshot : ℕ → String} {last : Option ℕ} {out : List Output} {s' : GatewayNode}

theorem Books.proper_loop (books : Books parse timeouts h s)
    (worked : Worked timeouts now last (s.batch.getD []) { s with batch := none } s' out) {o : Origin} {k : ℕ} {r : Reply}
    (shown : .reply o k r ∈ out) {x : Record} : Proper parse x h k r := by
  obtain ⟨i, member, rfl, proper⟩ := worked.replies o k r shown
  have known := (books.known i (List.mem_append_right _ member)).cons x
  refine ⟨i.pr, ?_, proper.id, fun estop => ?_⟩
  · rw [proper.client]
    exact known.1
  · obtain ⟨code, failed⟩ := proper.estop estop.2
    exact ⟨code, fun ok => by simp [failed] at ok⟩

theorem Books.proper_sweep (books : Books parse timeouts (⟨.serve now ready snapshot, out⟩ :: h) s) {o : Origin} {k : ℕ}
    {r : Reply} (shown : .reply o k r ∈ (s.sweep now).2) :
    Proper parse ⟨.serve now ready snapshot, out ++ (s.sweep now).2⟩ h k r := by
  obtain ⟨e, member, same⟩ := List.mem_map.mp shown
  simp only [timedOut, Output.reply.injEq] at same
  obtain ⟨-, rfl, rfl⟩ := same
  obtain ⟨i, known, call⟩ := books.calls e (List.mem_filter.mp member).1
  have code : "timeout" ≠ "busy" := by decide
  exact proper_call known (call.extend _) rfl rfl code fun _ ok => by simp at ok

theorem Books.in_order (books : Books parse timeouts h s)
    (worked : Worked timeouts now (lastHb (s.batch.getD [])) (s.batch.getD []) { s with batch := none } s' out)
    {s'' : GatewayNode} {out' : List Output} (settles : Settles s' s'' out') : InOrder parse now (out ++ out') h := by
  have known : ∀ i ∈ s.batch.getD [], Known parse h i := fun i member => books.known i (List.mem_append_right _ member)
  have handled : processed (out ++ out') = (s.batch.getD []).map (·.number) := by
    rw [processed_append, worked.handled, settles.handled, List.append_nil]
  have heartbeats : lastWhere (heartbeatAt parse h) (processed (out ++ out')) = lastHb (s.batch.getD []) := by
    rw [handled]
    unfold lastHb lastWhere
    rw [← List.getLast?_map, List.filter_map]
    congr 2
    refine List.filter_congr fun i member => ?_
    simp [heartbeatAt, Inbound.isHeartbeat, (known i member).1]
  refine ⟨?_, fun k t c => ?_⟩
  · rw [handled, List.pairwise_map]
    refine books.sorted.imp_of_mem fun {a b} first second before => ?_
    simpa [Precedes, rankOf, (known a first).1, (known b second).1] using before
  · have silent : .refreshed k t c ∉ out' := by
      intro member
      have found : (t, c) ∈ refreshes out' := List.mem_filterMap.mpr ⟨_, member, rfl⟩
      rw [settles.refreshed] at found
      exact absurd found List.not_mem_nil
    rw [heartbeats, List.mem_append, or_iff_left silent, worked.refreshed]
    constructor
    · rintro ⟨i, member, ⟨_, chosen⟩, rfl, rfl, rfl⟩
      exact ⟨chosen.symm, rfl, i.pr, (known i member).1⟩
    · rintro ⟨chosen, rfl, pr, line⟩
      obtain ⟨i, found, rfl⟩ := Option.map_eq_some_iff.mp chosen
      obtain ⟨member, heartbeat⟩ := lastWhere_mem found
      obtain ⟨rfl, -⟩ := Prod.mk.inj ((known i member).unique line)
      exact ⟨i, member, ⟨heartbeat, chosen.symm⟩, rfl, rfl, rfl⟩

/-- After a step nothing waits but what came after it began and calls whose deadline is still ahead. -/
theorem settled_after {x : Record} (books : Books parse timeouts (x :: h) s') (idle : s'.batch = none)
    (ahead : ∀ e ∈ s'.pending, ¬ e.2.deadline ≤ now) {mid old : List Record} {swap : List Output}
    (split : h = mid ++ ⟨.swap, swap⟩ :: old) {k : ℕ} (before : k < (lines parse old).length)
    (past : ∀ d, Deadline parse timeouts (x :: h) k d → d ≤ now) : (replied (outputs (x :: h))).count k = 1 := by
  have bound : k < s'.received := by
    rw [books.received, split]
    have grown := lines_length_le parse (x :: (mid ++ [⟨.swap, swap⟩])) old
    simp only [List.cons_append, List.append_assoc, List.nil_append] at grown
    omega
  have queue : s'.queue.count k = 0 := by
    refine List.count_eq_zero.mpr fun member => ?_
    simp only [GatewayNode.queue, idle, Option.getD_none, List.append_nil, List.mem_map] at member
    obtain ⟨i, member, rfl⟩ := member
    have fresh := books.fresh (x :: mid) swap old (by rw [split, List.cons_append]) i member
    omega
  have pending : (s'.pending.map (·.2.number)).count k = 0 := by
    refine List.count_eq_zero.mpr fun listed => ?_
    obtain ⟨e, member, rfl⟩ := List.mem_map.mp listed
    obtain ⟨i, known, now₀, ready, snapshot, out, req, found, same, _, sent⟩ := books.calls e member
    refine ahead e member (past e.2.deadline ?_)
    rw [same]
    exact ⟨now₀, ready, snapshot, out, e.1, req, i.client, i.pr, found, sent, known.1, rfl⟩
  have counted := books.replied k
  simp only [waiting, List.count_append, queue, pending, bound, if_true] at counted
  omega

theorem Books.served_step (books : Books parse timeouts h s) (now : Flt) (ready : ℕ → Bool) (snapshot : ℕ → String) :
    Served parse timeouts ⟨.serve now ready snapshot, (s.serve timeouts (s.batch.getD []) now ready snapshot).2⟩ h := by
  have worked := worked_all timeouts now ready snapshot (lastHb (s.batch.getD [])) (s.batch.getD []) { s with batch := none }
  unfold GatewayNode.serve
  dsimp only
  generalize workAll timeouts now ready snapshot (lastHb (s.batch.getD [])) (s.batch.getD []) { s with batch := none } =
    loop at worked ⊢
  obtain ⟨s₁, out⟩ := loop
  have looped : Books parse timeouts (⟨.serve now ready snapshot, out⟩ :: h) s₁ := books.worked worked
  have swept := looped.settles (settles_sweep s₁ now)
  refine ⟨fun o k r shown => ?_, ?_, ?_⟩
  · rcases List.mem_append.mp shown with shown | shown
    · exact books.proper_loop worked shown
    · exact looped.proper_sweep shown
  · rintro _ _ _ ⟨⟩
    exact books.in_order worked (settles_sweep s₁ now)
  · rintro _ _ _ ⟨⟩ mid swap old split k before past
    refine settled_after swept worked.batch (fun e member => ?_) split before past
    exact of_decide_eq_true (List.mem_filter.mp member).2

end Serve

theorem Books.served (books : Books parse timeouts h s) (e : Event) :
    Served parse timeouts ⟨e, (handle parse timeouts s e).2⟩ h := by
  cases e with
  | line client text => exact ⟨fun o k r shown => books.proper_line shown, nofun, nofun⟩
  | swap => exact ⟨nofun, nofun, nofun⟩
  | serve now ready snapshot => exact books.served_step now ready snapshot
  | answer token res => exact ⟨fun o k r shown => books.proper_answer shown, nofun, nofun⟩

theorem served_run (run : RunIf (handle parse timeouts) (fun _ => InTurn) {} h s) :
    Everywhere (Served parse timeouts) h := by
  induction run with
  | start => trivial
  | next run e _ ih => exact ⟨(books_run run).served e, ih⟩

/-- Over every interleaving of lines, steps and answers a line waits or has its one reply, and a queued one waits or was
handled once; every reply goes where it belongs, every step goes in order and leaves nothing behind that is due. -/
theorem one_reply_per_line (run : RunIf (handle parse timeouts) (fun _ => InTurn) {} h s) :
    (∀ k < (lines parse h).length,
      (replied (outputs h)).count k + s.waiting.count k = 1 ∧
      (processed (outputs h)).count k + (turnedAway (outputs h)).count k + s.queue.count k = 1) ∧
    (∀ later x earlier, h = later ++ x :: earlier → Served parse timeouts x earlier) ∧
    (tokens (outputs h)).Nodup ∧
    s.link = (refreshes (outputs h)).getLast? := by
  have books := books_run run
  refine ⟨fun k bound => ?_, fun later x earlier split => ?_, ?_, books.link⟩
  · rw [← books.received] at bound
    have replied := books.replied k
    have handled := books.handled k
    rw [if_pos bound] at replied handled
    exact ⟨replied, handled⟩
  · have all := served_run run
    rw [split] at all
    exact everywhere_split all
  · obtain ⟨n, _, issued⟩ := books.issued
    rw [issued]
    exact List.nodup_range'

end Steps

def shiftParse (text : String) : ParseResult :=
  if text = "stop" then { ok := true, id := some 7, cmd := { kind := .estop, flag := true, source := "tablet" } }
  else if text = "beat" then { ok := true, cmd := { kind := .heartbeat } }
  else { code := "bad_message", reason := "not JSON" }

def shiftTimeouts : Timeouts := ⟨.fin 2, .fin 1, .fin 4, .fin 5⟩

/-- Two heartbeats, an E-stop that is answered, a line that does not parse, and a heartbeat that comes during the step. -/
def shift : List Event :=
  [.line 1 "beat", .line 2 "stop", .line 3 "", .line 1 "beat", .swap, .line 2 "beat",
    .serve (.fin 0) (fun _ => true) (fun _ => ""), .answer 1 { accepted := true }, .swap,
    .serve (.fin 1) (fun _ => true) (fun _ => "")]

def shiftRun : List Record × GatewayNode := exec (handle shiftParse shiftTimeouts) [] {} shift

instance (s : GatewayNode) : ∀ e, Decidable (InTurn s e)
  | .line .. => isTrue trivial
  | .swap => inferInstanceAs (Decidable (_ = none))
  | .serve .. => inferInstanceAs (Decidable (_ ≠ none))
  | .answer .. => isTrue trivial

theorem shift_inTurn : RunIf (handle shiftParse shiftTimeouts) (fun _ => InTurn) {} shiftRun.1 shiftRun.2 :=
  exec_runIf shift (by decide +kernel) .start

theorem shift_replied : processed (outputs shiftRun.1) = [1, 0, 3, 4] ∧ replied (outputs shiftRun.1) = [2, 0, 3, 1, 4] ∧
    ∀ k < 5, (replied (outputs shiftRun.1)).count k + shiftRun.2.waiting.count k = 1 := by
  have all := (one_reply_per_line shift_inTurn).1
  have received : (lines shiftParse shiftRun.1).length = 5 := by decide +kernel
  rw [received] at all
  exact ⟨by decide +kernel, by decide +kernel, fun k bound => (all k bound).1⟩

end Dyx3.Gateway.GatewayNode
