import Dyx3.Px4Link.Books
import Dyx3.Px4Link.SprayWork

/-!
The spray transactions over restarts of px4_link: the stores are lost, the index in the ledger file stays. Every pair
is carried by one request only, so an ack that matches a pair is about that request.
-/

namespace Dyx3.Px4Link

open Lib

namespace AckTokens

/-- The tokens of a process that starts on a ledger file, `none` when the file cannot be read. -/
def ofLedger : Option Nat → AckTokens
  | some mark => if mark ≤ capacity then load mark else { failed := true, next := 0, reserved := 0 }
  | none => { failed := true, next := 0, reserved := 0 }

def blockEnd (t : AckTokens) : Nat := if capacity - t.next < block then capacity else t.next + block

/-- The index in the ledger file after a call. A write that failed may have replaced the file all the same: the
directory is synced after the rename. -/
def written (before after : AckTokens) (mark : Nat) (replaced : Bool) : Nat :=
  if after.persists = before.persists || (after.failed && !replaced) then mark else before.blockEnd

/-- The pairs handed out are below the mark on disk. -/
structure Covered (mark : Nat) (t : AckTokens) : Prop where
  handed : t.next ≤ t.reserved
  durable : t.reserved ≤ mark
  exist : t.next ≤ capacity

/-- The pair of `index` may have been handed out. -/
def Spent (mark : Nat) (t : AckTokens) (index : Nat) : Prop := index < mark ∧ (t.failed = false → index < t.next)

variable {t u : AckTokens} {mark index : Nat} {persistOk : Bool} {given : Option Identity}

theorem identityAt_inj {i j : Nat} (same : identityAt i = identityAt j) : i = j := by
  simp only [identityAt, Identity.mk.injEq, perSystem, first, last] at same
  omega

/-- What a reservation can do. -/
inductive Reserves (t : AckTokens) : AckTokens → Option Identity → Prop where
  | closed : Reserves t t none
  | failed (live : t.failed = false) (spent : t.next = t.reserved) :
      Reserves t { t with failed := true, persists := t.persists + 1 } none
  | handed (live : t.failed = false) (room : t.next ≠ capacity) (left : t.next ≠ t.reserved) :
      Reserves t { t with next := t.next + 1 } (some (identityAt t.next))
  | extended (live : t.failed = false) (room : t.next ≠ capacity) (spent : t.next = t.reserved) :
      Reserves t { t with next := t.next + 1, reserved := t.blockEnd, persists := t.persists + 1 }
        (some (identityAt t.next))

theorem reserve_cases (reserved : t.reserve persistOk = (u, given)) : Reserves t u given := by
  unfold reserve at reserved
  by_cases shut : (t.failed || t.next = capacity) = true
  · rw [if_pos shut] at reserved
    cases reserved
    exact .closed
  rw [if_neg shut] at reserved
  simp only [Bool.or_eq_true, decide_eq_true_eq, not_or, Bool.not_eq_true] at shut
  by_cases spent : t.next = t.reserved
  · rw [if_pos spent] at reserved
    cases persistOk with
    | false =>
      cases reserved
      exact .failed shut.1 spent
    | true =>
      cases reserved
      exact .extended shut.1 shut.2 spent
  · rw [if_neg spent] at reserved
    cases reserved
    exact .handed shut.1 shut.2 spent

theorem written_same (same : u.persists = t.persists) (replaced : Bool) : written t u mark replaced = mark := by
  simp [written, same]

theorem le_blockEnd (exist : t.next ≤ capacity) : t.next ≤ t.blockEnd := by
  unfold blockEnd
  split <;> omega

theorem lt_blockEnd (exist : t.next ≤ capacity) (room : t.next ≠ capacity) : t.next < t.blockEnd := by
  unfold blockEnd block
  split <;> omega

/-- The mark on disk moves before any pair of the new block is handed out. -/
theorem Reserves.covered (reserves : Reserves t u given) (covered : Covered mark t) (replaced : Bool) :
    Covered (written t u mark replaced) u := by
  obtain ⟨handed, durable, exist⟩ := covered
  have room := le_blockEnd exist
  cases reserves with
  | closed => exact ⟨handed, by simpa [written] using durable, exist⟩
  | failed live spent =>
    refine ⟨handed, ?_, exist⟩
    simp only [written]
    split <;> omega
  | handed live free left =>
    refine ⟨?_, by simpa [written] using durable, ?_⟩
    · simp only
      omega
    · simp only
      omega
  | extended live free spent =>
    have next := lt_blockEnd exist free
    refine ⟨next, by simp [written, live], ?_⟩
    simp only
    omega

theorem Reserves.spent (reserves : Reserves t u given) (covered : Covered mark t) (replaced : Bool)
    (spent : Spent mark t index) : Spent (written t u mark replaced) u index := by
  obtain ⟨below, used⟩ := spent
  have room := le_blockEnd covered.exist
  cases reserves with
  | closed => exact ⟨by simpa [written] using below, used⟩
  | failed live =>
    refine ⟨?_, by simp⟩
    have used := used live
    simp only [written]
    split <;> omega
  | handed live =>
    have used := used live
    refine ⟨by simpa [written] using below, ?_⟩
    intro _
    simp only
    omega
  | extended live =>
    have used := used live
    refine ⟨?_, ?_⟩
    · simp only [written]
      split <;> omega
    · intro _
      simp only
      omega

/-- The pair of a reservation is the next one, which was not handed out before and now is. -/
theorem Reserves.some {id : Identity} (reserves : Reserves t u (some id)) (covered : Covered mark t) (replaced : Bool) :
    id = identityAt t.next ∧ ¬ Spent mark t t.next ∧ Spent (written t u mark replaced) u t.next := by
  have covers := reserves.covered covered replaced
  have below : u.next ≤ written t u mark replaced := covers.handed.trans covers.durable
  cases reserves with
  | handed live => exact ⟨rfl, fun spent => Nat.lt_irrefl _ (spent.2 live), below, fun _ => Nat.lt_succ_self _⟩
  | extended live => exact ⟨rfl, fun spent => Nat.lt_irrefl _ (spent.2 live), below, fun _ => Nat.lt_succ_self _⟩

theorem Covered.start (mark : Nat) (readable : Bool) : Covered mark (ofLedger (if readable then .some mark else none)) := by
  cases readable with
  | false => exact ⟨Nat.le_refl 0, Nat.zero_le _, Nat.zero_le _⟩
  | true =>
    simp only [if_true, ofLedger]
    split
    · rename_i bound
      exact ⟨Nat.le_refl _, Nat.le_refl _, bound⟩
    · exact ⟨Nat.le_refl 0, Nat.zero_le _, Nat.zero_le _⟩

/-- A restart on the ledger starts behind every pair handed out before it. -/
theorem Spent.restart (spent : Spent mark t index) (readable : Bool) :
    Spent mark (ofLedger (if readable then .some mark else none)) index := by
  refine ⟨spent.1, ?_⟩
  cases readable with
  | false => simp [ofLedger]
  | true =>
    simp only [if_true, ofLedger]
    split
    · intro _
      exact spent.1
    · simp

end AckTokens

/-! ### Restarts -/

namespace SprayLink

/-- The transactions with the index in the ledger file. -/
structure Ledgered where
  link : SprayLink
  mark : Nat

namespace Ledgered

/-- A call, with whether a failed ledger write has replaced the file, or a restart, with whether the file can be
read. -/
inductive Event where
  | call (e : SprayLink.Event) (replaced : Bool)
  | restart (readable : Bool)
  deriving DecidableEq

def step (timeout : ℚ) (s : Ledgered) : Event → Ledgered × List SprayOut
  | .call e replaced =>
    let (link, outs) := s.link.step timeout e
    ({ link, mark := s.link.tokens.written link.tokens s.mark replaced }, outs)
  | .restart readable => ({ s with link := { tokens := .ofLedger (if readable then some s.mark else none) } }, [])

/-- The first process on a ledger file. -/
def start (mark : Nat) : Ledgered := { link := { tokens := .ofLedger (some mark) }, mark }

abbrev Record := Entry Event (List SprayOut)

/-- The requests whose VehicleCommand was published, newest first. -/
def published (h : List Record) : List SprayPending := h.flatMap fun x => commands x.out

end Ledgered

variable {s t mid : SprayLink} {r r' q x w : SprayPending} {env : Env} {outs : List SprayOut}
  {past : List SprayPending} {mark : Nat}

/-- `x` is the request in flight, or its source's epoch or confirmed request. -/
def Known (s : SprayLink) (x : SprayPending) : Prop :=
  s.inflight = some x ∨ s.epochs.lookup x.source = some x ∨ s.confirmed.lookup x.source = some x

/-- The queue holds one request for each source; one with an identity has it from its source's epoch. -/
structure Coherent (s : SprayLink) : Prop where
  single : (s.queue.map (·.source)).Nodup
  translated : ∀ q ∈ s.queue, ∃ r, translate q.toSprayActuatorCommand = some r ∧ Adopts r q
  kept : ∀ q ∈ s.queue, q.ackToken ≠ 0 → ∃ e, s.epochs.lookup q.source = some e ∧
    e.toSprayActuatorCommand = q.toSprayActuatorCommand ∧ pair e = pair q

theorem Coherent.shed (coherent : Coherent s) (sheds : Sheds s mid) : Coherent mid := by
  refine ⟨(sheds.queue.map _).nodup coherent.single, ?_, ?_⟩
  · intro q member
    exact coherent.translated q (sheds.queue.mem member)
  · intro q member identified
    obtain ⟨e, epoch, same⟩ := coherent.kept q (sheds.queue.mem member) identified
    rcases sheds.epochs q.source with unchanged | ⟨_, dropped⟩
    · exact ⟨e, unchanged.trans epoch, same⟩
    · exact absurd rfl (dropped q member)

theorem Sheds.known (sheds : Sheds s mid) (known : Known mid x) : Known s x := by
  rcases known with flying | epoch | confirmed
  · rcases sheds.inflight with same | none
    · exact .inl (same ▸ flying)
    · rw [none] at flying
      cases flying
  · rcases sheds.epochs x.source with same | ⟨none, _⟩
    · exact .inr (.inl (same ▸ epoch))
    · rw [none] at epoch
      cases epoch
  · rcases sheds.confirmed x.source x confirmed with old | ⟨flying, _⟩
    · exact .inr (.inr old)
    · exact .inl flying

theorem Coherent.join {m : SprayActuatorCommand} (coherent : Coherent s) (translated : translate m = some r)
    (joins : Joins s r r' t) : Coherent t := by
  have message := joins.adopts.message
  refine ⟨joins.single coherent.single, ?_, ?_⟩
  · intro q member
    rcases joins.mem member with rfl | ⟨old, _⟩
    · refine ⟨r, ?_, joins.adopts⟩
      rw [message, translate_message translated, translated]
    · exact coherent.translated q old
  · intro q member identified
    rcases joins.mem member with rfl | ⟨old, other⟩
    · have source : q.source = r.source := congrArg SprayActuatorCommand.source message
      rcases joins.identity with ⟨e, _, same, epoch, rfl⟩ | ⟨_, _, rfl⟩
      · exact ⟨e, epoch, sameSprayTransaction_message same, rfl⟩
      · -- A translated message has no identity yet.
        obtain ⟨wire, _, rfl⟩ := Option.map_eq_some_iff.mp translated
        exact absurd rfl identified
    · obtain ⟨e, epoch, same⟩ := coherent.kept q old identified
      exact ⟨e, (joins.others q.source other).trans epoch, same⟩

theorem Joins.known (joins : Joins s r r' t) (known : Known t x) : Known s x := by
  rcases known with flying | epoch | confirmed
  · rw [joins.inflight] at flying
    split at flying
    · cases flying
    · exact .inl flying
  · by_cases own : x.source = r.source
    · rcases joins.identity with ⟨e, before, _, after, _⟩ | ⟨_, none, _⟩
      · rw [own, after, ← before, ← own] at epoch
        exact .inr (.inl epoch)
      · rw [own, none] at epoch
        cases epoch
    · rw [joins.others x.source own] at epoch
      exact .inr (.inl epoch)
  · rw [joins.confirmed] at confirmed
    exact .inr (.inr (lookup_erase_some confirmed))

theorem Coherent.send (coherent : Coherent s) (sends : Sends s env t outs) : Coherent t := by
  cases sends with
  | idle => exact coherent
  | refused q rest tokens free head =>
    obtain ⟨single, translated, kept⟩ := coherent
    rw [head] at single translated kept
    exact ⟨(List.nodup_cons.mp single).2, fun x member => translated x (List.mem_cons_of_mem q member),
      fun x member => kept x (List.mem_cons_of_mem q member)⟩
  | sent q rest tokens w free head =>
    obtain ⟨single, translated, kept⟩ := coherent
    rw [head] at single translated kept
    obtain ⟨alone, single⟩ := List.nodup_cons.mp single
    refine ⟨single, fun x member => translated x (List.mem_cons_of_mem q member), ?_⟩
    intro x member identified
    obtain ⟨e, epoch, same⟩ := kept x (List.mem_cons_of_mem q member) identified
    have other : x.source ≠ q.source := fun same => alone (List.mem_map.mpr ⟨x, member, same⟩)
    exact ⟨e, (AList.lookup_insert_ne other).trans epoch, same⟩

/-- The request that a dispatch puts on the wire is the only one it makes known. -/
theorem Sends.known (sends : Sends s env t outs) (known : Known t x) : Known s x ∨ x ∈ commands outs := by
  cases sends with
  | idle => exact .inl known
  | refused => exact .inl known
  | sent q rest tokens w free head carries =>
    rcases known with flying | epoch | confirmed
    · cases flying
      exact .inr (List.mem_singleton.mpr rfl)
    · by_cases own : x.source = q.source
      · rw [own, AList.lookup_insert] at epoch
        cases epoch
        exact .inr (List.mem_singleton.mpr rfl)
      · rw [AList.lookup_insert_ne own] at epoch
        exact .inl (.inr (.inl epoch))
    · exact .inl (.inr (.inr confirmed))

/-- Every pair was handed out to one request, and every known request has been on the wire with its pair. -/
structure Owned (past : List SprayPending) (mark : Nat) (s : SprayLink) : Prop extends Coherent s where
  covered : s.tokens.Covered mark
  spent : ∀ w ∈ past, ∃ k, pair w = AckTokens.identityAt k ∧ s.tokens.Spent mark k
  stamped : ∀ w ∈ past, ∃ r, translate w.toSprayActuatorCommand = some r ∧ Carries r w
  known : ∀ x, Known s x → x ∈ past
  owner : ∀ v ∈ past, ∀ w ∈ past, pair v = pair w → v.toSprayActuatorCommand = w.toSprayActuatorCommand

theorem Owned.shed (owned : Owned past mark s) (sheds : Sheds s mid) : Owned past mark mid where
  toCoherent := owned.toCoherent.shed sheds
  covered := sheds.tokens ▸ owned.covered
  spent := sheds.tokens ▸ owned.spent
  stamped := owned.stamped
  known x known := owned.known x (sheds.known known)
  owner := owned.owner

theorem Owned.join {m : SprayActuatorCommand} (owned : Owned past mark s) (translated : translate m = some r)
    (joins : Joins s r r' t) : Owned past mark t where
  toCoherent := owned.toCoherent.join translated joins
  covered := joins.tokens ▸ owned.covered
  spent := joins.tokens ▸ owned.spent
  stamped := owned.stamped
  known x known := owned.known x (joins.known known)
  owner := owned.owner

/-- A further VehicleCommand, under a pair of its own request or under one that nobody has used. -/
theorem Owned.publish (owned : Owned past mark s) (stamped : ∃ r, translate w.toSprayActuatorCommand = some r ∧ Carries r w)
    (own : ∀ v ∈ past, pair v = pair w → v.toSprayActuatorCommand = w.toSprayActuatorCommand) :
    (∀ v ∈ w :: past, ∃ r, translate v.toSprayActuatorCommand = some r ∧ Carries r v) ∧
    ∀ u ∈ w :: past, ∀ v ∈ w :: past, pair u = pair v → u.toSprayActuatorCommand = v.toSprayActuatorCommand := by
  refine ⟨?_, ?_⟩
  · intro v member
    rcases List.mem_cons.mp member with rfl | old
    · exact stamped
    · exact owned.stamped v old
  · intro u first v second same
    rcases List.mem_cons.mp first with rfl | old
    · rcases List.mem_cons.mp second with rfl | other
      · rfl
      · exact (own v other same.symm).symm
    · rcases List.mem_cons.mp second with rfl | other
      · exact own u old same
      · exact owned.owner u old v other same

theorem Owned.resend (owned : Owned past mark s) (known : Known s x) : Owned (x :: past) mark s := by
  have member := owned.known x known
  obtain ⟨stamped, owner⟩ := owned.publish (owned.stamped x member) fun v old => owned.owner v old x member
  refine { owned with stamped, owner, spent := ?_, known := ?_ }
  · intro w found
    rcases List.mem_cons.mp found with rfl | old
    · exact owned.spent w member
    · exact owned.spent w old
  · intro y known
    exact List.mem_cons_of_mem x (owned.known y known)

theorem Owned.send (owned : Owned past mark s) (sends : Sends s env t outs) (replaced : Bool) :
    Owned (commands outs ++ past) (s.tokens.written t.tokens mark replaced) t := by
  have coherent := owned.toCoherent.send sends
  have known : ∀ x, Known t x → x ∈ commands outs ++ past := by
    intro x known
    rcases sends.known known with old | new
    · exact List.mem_append_right _ (owned.known x old)
    · exact List.mem_append_left _ new
  cases sends with
  | idle =>
    rw [AckTokens.written_same rfl]
    exact owned
  | refused q rest tokens free head exhausted =>
    have reserves := AckTokens.reserve_cases exhausted
    refine ⟨coherent, reserves.covered owned.covered replaced, ?_, owned.stamped, known, owned.owner⟩
    intro w member
    obtain ⟨k, same, spent⟩ := owned.spent w member
    exact ⟨k, same, reserves.spent owned.covered replaced spent⟩
  | sent q rest tokens w free head carries identity =>
    have queued : q ∈ s.queue := by simp [head]
    have stamped : ∃ r, translate w.toSprayActuatorCommand = some r ∧ Carries r w := by
      obtain ⟨r, translated, adopts⟩ := owned.translated q queued
      refine ⟨r, by rw [carries.message, translated], ?_⟩
      exact ⟨carries.message.trans adopts.message, carries.command.trans adopts.command,
        by rw [carries.wire, adopts.wire], carries.identified⟩
    rcases identity with ⟨identified, same, kept⟩ | ⟨_, reserved⟩
    · -- The pair is its epoch's, which carries the same message.
      obtain ⟨e, epoch, message, own⟩ := owned.kept q queued identified
      have source : e.source = q.source := congrArg SprayActuatorCommand.source message
      have member := owned.known e (.inr (.inl (by rw [source]; exact epoch)))
      obtain ⟨stamped, owner⟩ := owned.publish stamped fun v old alike => by
        rw [carries.message, ← message]
        exact owned.owner v old e member (alike.trans (kept.trans own.symm))
      subst same
      rw [AckTokens.written_same rfl]
      refine ⟨coherent, owned.covered, ?_, stamped, known, owner⟩
      intro v found
      rcases List.mem_cons.mp found with rfl | old
      · rw [kept, ← own]
        exact owned.spent e member
      · exact owned.spent v old
    · have reserves := AckTokens.reserve_cases reserved
      obtain ⟨next, unspent, spent⟩ := reserves.some owned.covered replaced
      obtain ⟨stamped, owner⟩ := owned.publish stamped fun v old alike => by
        obtain ⟨k, same, used⟩ := owned.spent v old
        rw [same, next] at alike
        rw [AckTokens.identityAt_inj alike] at used
        exact absurd used unspent
      refine ⟨coherent, reserves.covered owned.covered replaced, ?_, stamped, known, owner⟩
      intro v found
      rcases List.mem_cons.mp found with rfl | old
      · exact ⟨_, next, spent⟩
      · obtain ⟨k, same, used⟩ := owned.spent v old
        exact ⟨k, same, reserves.spent owned.covered replaced used⟩

theorem Works.owned {e : Event} (works : Works s e t outs) (owned : Owned past mark s) (replaced : Bool) :
    Owned (commands outs ++ past) (s.tokens.written t.tokens mark replaced) t := by
  cases works with
  | sheds sheds silent sends =>
    rw [commands_append, silent, List.nil_append, ← sheds.tokens]
    exact (owned.shed sheds).send sends replaced
  | resends bar admissible same known =>
    rename_i m _ r x
    have message := (sameSprayTransaction_message same).trans (translate_message admissible.translated)
    have known : Known s x := by
      rcases known with flying | confirmed
      · exact .inl flying
      · refine .inr (.inr ?_)
        rw [message]
        exact confirmed
    rw [AckTokens.written_same rfl]
    exact (owned.resend known).shed (.still bar s.lateAckCount)
  | joins admissible new joins silent sends =>
    rw [commands_append, silent, List.nil_append, ← joins.tokens]
    exact (owned.join admissible.translated joins).send sends replaced

/-- The acks of the FCU are the only ones that a success is read from. -/
theorem success_cause {timeout : ℚ} {e : Event} {a : SprayActuatorAck} (member : .ack a ∈ (step timeout s e).2)
    (success : a.success = true) :
    ∃ v env i, e = .fcuAck v env ∧ v.result = resultAccepted ∧ s.inflight = some i ∧ matchesAck i v = true ∧
      a.seq = i.seq ∧ a.source = i.source := by
  cases e with
  | command m env =>
    rw [(command_handles s m env).refuses member] at success
    cases success
  | service env =>
    have serviced := serviceSprayTransactions_cases s env timeout
    have dropped : Proves { s with inflight := none } (s.serviceSprayTransactions env timeout).2 := by
      generalize s.serviceSprayTransactions env timeout = result at serviced
      obtain ⟨t, outs⟩ := result
      cases serviced with
      | lost =>
        refine Refusals.proves fun o member => ?_
        obtain ⟨q, _, rfl⟩ := List.mem_map.mp member
        exact ⟨q.seq, q.source, rfl⟩
      | kept t sent linkOk dispatches => exact dispatches.proves _
      | expired i t sent linkOk flying overdue dispatches =>
        have refused : Refusals [refuse i.seq i.source] := fun o member => ⟨_, _, List.mem_singleton.mp member⟩
        exact refused.proves.append (dispatches.proves _)
    obtain ⟨i, flying, _⟩ := dropped a member success
    cases flying
  | fcuAck v env =>
    have acked := onVehicleCommandAck_cases s v env
    simp only [step] at member
    generalize s.onVehicleCommandAck v env = result at acked member
    obtain ⟨t, outs⟩ := result
    cases acked with
    | ignored => cases member
    | completed i t sent flying matched dispatches =>
      rcases List.mem_cons.mp member with same | sent
      · cases same
        exact ⟨v, env, i, rfl, by simpa using success, flying, matched, rfl, rfl⟩
      · obtain ⟨i, flying, _⟩ := dispatches.proves { s with inflight := none } a sent success
        cases flying

namespace Ledgered

/-- The ack answers a VehicleCommand with this command and these source fields. -/
def Answers (v : VehicleCommandAck) (c : VehicleCommand) : Prop :=
  c.command = v.command ∧ c.sourceSystem = v.targetSystem ∧ c.sourceComponent = v.targetComponent

/-- The cause of every success in the entry `x`, after the history `earlier`. -/
def Caused (x : Record) (earlier : List Record) : Prop :=
  ∀ a, .ack a ∈ x.out → a.success = true → ∃ v env replaced, x.event = .call (.fcuAck v env) replaced ∧
    v.result = resultAccepted ∧ ∃ w ∈ published earlier, Answers v w.vehicleCommand ∧ w.seq = a.seq ∧ w.source = a.source

theorem stamped_answers (stamped : ∃ r, translate w.toSprayActuatorCommand = some r ∧ Carries r w)
    (v : VehicleCommandAck) : Answers v w.vehicleCommand ↔ matchesAck w v = true := by
  obtain ⟨r, translated, carries⟩ := stamped
  obtain ⟨wire, _, rfl⟩ := Option.map_eq_some_iff.mp translated
  simp only [Answers, matchesAck, carries.wire, carries.command, Bool.and_eq_true, decide_eq_true_eq, and_assoc]

theorem not_known_fresh (tokens : AckTokens) : ∀ x, ¬ Known { tokens } x := by
  rintro x (flying | epoch | confirmed)
  · cases flying
  · cases epoch
  · cases confirmed

/-- A process starts with empty stores, behind every pair that was handed out. -/
theorem fresh_owned {past : List SprayPending} {mark : Nat} (tokens : AckTokens) (readable : Bool)
    (spent : ∀ w ∈ past, ∃ k, pair w = AckTokens.identityAt k ∧ tokens.Spent mark k)
    (stamped : ∀ w ∈ past, ∃ r, translate w.toSprayActuatorCommand = some r ∧ Carries r w)
    (owner : ∀ v ∈ past, ∀ w ∈ past, pair v = pair w → v.toSprayActuatorCommand = w.toSprayActuatorCommand) :
    Owned past mark { tokens := .ofLedger (if readable then some mark else none) } := by
  refine ⟨⟨by simp, by simp, by simp⟩, AckTokens.Covered.start mark readable, ?_, stamped, ?_, owner⟩
  · intro w member
    obtain ⟨k, same, spent⟩ := spent w member
    exact ⟨k, same, spent.restart readable⟩
  · intro x known
    exact absurd known (not_known_fresh _ x)

theorem start_owned (mark : Nat) : Owned [] mark (start mark).link :=
  fresh_owned (.ofLedger none) true (by simp) (by simp) (by simp)

theorem step_owned {timeout : ℚ} {h : List Record} {s : Ledgered} (e : Event)
    (owned : Owned (published h) s.mark s.link) :
    Owned (published (⟨e, (step timeout s e).2⟩ :: h)) (step timeout s e).1.mark (step timeout s e).1.link := by
  cases e with
  | call e replaced => exact (step_works timeout s.link e).owned owned replaced
  | restart readable => exact fresh_owned _ readable owned.spent owned.stamped owned.owner

theorem owned_run {timeout : ℚ} {mark : Nat} {h : List Record} {s : Ledgered}
    (run : Run (step timeout) (start mark) h s) : Owned (published h) s.mark s.link ∧ Everywhere Caused h := by
  refine run.invariant (fun h s => Owned (published h) s.mark s.link ∧ Everywhere Caused h)
    ⟨start_owned mark, trivial⟩ ?_
  rintro h s e ⟨owned, caused⟩ -
  refine ⟨step_owned e owned, ?_, caused⟩
  intro a member success
  cases e with
  | restart => cases member
  | call e replaced =>
    obtain ⟨v, env, i, rfl, accepted, flying, matched, seq, source⟩ := success_cause member success
    have out := owned.known i (.inl flying)
    exact ⟨v, env, replaced, rfl, accepted, i, out, (stamped_answers (owned.stamped i out) v).mpr matched, seq.symm,
      source.symm⟩

/-- A success is read from an accepted ack of a VehicleCommand that was published for the same request, and no other
request has carried or will carry what the ack names. -/
theorem success_sound (timeout : ℚ) (mark : Nat) (h later earlier : List Record) (s : Ledgered) (x : Record)
    (a : SprayActuatorAck) (run : Run (step timeout) (start mark) h s) (split : h = later ++ x :: earlier)
    (member : .ack a ∈ x.out) (success : a.success = true) :
    ∃ v env replaced, x.event = .call (.fcuAck v env) replaced ∧ v.result = resultAccepted ∧
      ∃ w ∈ published earlier, Answers v w.vehicleCommand ∧ w.seq = a.seq ∧ w.source = a.source ∧
        ∀ w' ∈ published h, Answers v w'.vehicleCommand →
          w'.toSprayActuatorCommand = w.toSprayActuatorCommand ∧ w'.vehicleCommand = w.vehicleCommand := by
  obtain ⟨owned, caused⟩ := owned_run run
  subst split
  obtain ⟨v, env, replaced, event, accepted, w, out, answers, seq, source⟩ := everywhere_split caused a member success
  refine ⟨v, env, replaced, event, accepted, w, out, answers, seq, source, ?_⟩
  intro w' found other
  have still : w ∈ published (later ++ x :: earlier) := by
    rw [published, List.flatMap_append, List.flatMap_cons]
    exact List.mem_append_right _ (List.mem_append_right _ out)
  have first := (stamped_answers (owned.stamped w still) v).mp answers
  have second := (stamped_answers (owned.stamped w' found) v).mp other
  simp only [matchesAck, Bool.and_eq_true, decide_eq_true_eq] at first second
  have same : pair w' = pair w := by
    simp only [pair, Identity.mk.injEq]
    exact ⟨second.1.2.trans first.1.2.symm, second.2.trans first.2.symm⟩
  have message := owned.owner w' found w still same
  obtain ⟨r, translated, carries⟩ := owned.stamped w still
  obtain ⟨r', translated', carries'⟩ := owned.stamped w' found
  rw [message, translated] at translated'
  obtain rfl := Option.some.inj translated'
  simp only [pair, Identity.mk.injEq] at same
  exact ⟨message, by rw [carries'.wire, carries.wire, same.1, same.2]⟩

/-- An ON is in flight when px4_link restarts; its late ack is not the one that confirms the OFF after it. -/
def restarted : List Event :=
  [.call (.command { seq := 1, on := true, value := .fin 1 } {}) false, .restart true,
    .call (.command { seq := 2, on := false, value := .fin (-1) } {}) false,
    .call (.fcuAck ⟨cmdDoSetActuator, resultAccepted, 1, 2⟩ {}) false,
    .call (.fcuAck ⟨cmdDoSetActuator, resultAccepted, 1, 66⟩ {}) false]

theorem restarted_success_sound :
    let h := (exec (step 1) [] (start 0) restarted).1
    let x : Record := ⟨.call (.fcuAck ⟨cmdDoSetActuator, resultAccepted, 1, 66⟩ {}) false, [.ack ⟨2, 0, true, 0⟩]⟩
    h = [] ++ x :: h.tail ∧ ∃ v env replaced, x.event = .call (.fcuAck v env) replaced ∧ v.result = resultAccepted ∧
      ∃ w ∈ published h.tail, Answers v w.vehicleCommand ∧ w.seq = 2 ∧ w.source = 0 ∧
        ∀ w' ∈ published h, Answers v w'.vehicleCommand →
          w'.toSprayActuatorCommand = w.toSprayActuatorCommand ∧ w'.vehicleCommand = w.vehicleCommand := by
  intro h x
  have split : h = [] ++ x :: h.tail := by decide +kernel
  exact ⟨split, success_sound 1 0 h [] h.tail _ x ⟨2, 0, true, 0⟩ (exec_run restarted .start) split (by decide) rfl⟩

end Ledgered

end SprayLink

end Dyx3.Px4Link
