import Dyx3.Px4Link.Ledger

/-!
A request that is sent again keeps its pair, a new one gets a pair of its own. A stored request is recognised in its
message only while its pair is on system 1: the comparison reads the source system that the dispatch has rewritten.
-/

namespace Dyx3.Px4Link.SprayLink

open Lib

variable {s t mid : SprayLink} {r r' q x w : SprayPending} {env : Env} {outs : List SprayOut}
  {past : List SprayPending} {mark : Nat} {m : SprayActuatorCommand}

/-- The requests that a message asks for again: in flight, confirmed or last dispatched. -/
def equalTo (s : SprayLink) (m : SprayActuatorCommand) : List SprayPending :=
  (s.inflight.toList ++ (s.confirmed.lookup m.source).toList ++ (s.epochs.lookup m.source).toList).filter
    (·.toSprayActuatorCommand = m)

theorem mem_equalTo : x ∈ s.equalTo m ↔ Known s x ∧ x.toSprayActuatorCommand = m := by
  simp only [equalTo, List.mem_filter, List.mem_append, Option.mem_toList, decide_eq_true_eq]
  constructor
  · rintro ⟨(flying | confirmed) | epoch, rfl⟩
    · exact ⟨.inl flying, rfl⟩
    · exact ⟨.inr (.inr confirmed), rfl⟩
    · exact ⟨.inr (.inl epoch), rfl⟩
  · rintro ⟨flying | epoch | confirmed, rfl⟩
    · exact ⟨.inl (.inl flying), rfl⟩
    · exact ⟨.inr epoch, rfl⟩
    · exact ⟨.inl (.inr confirmed), rfl⟩

/-- A message that gets through to the requests it repeats finds their pairs on system 1. -/
def recognised (s : SprayLink) : Event → Bool
  | .command m env => !env.linkOk || (translate m).all fun r =>
      s.barred r || s.blocked r || (s.equalTo m).all (·.ackSystem = 1)
  | _ => true

theorem Admissible.recognised (admissible : Admissible s m env r) (recognised : s.recognised (.command m env) = true)
    (known : Known s x) (message : x.toSprayActuatorCommand = m) : x.ackSystem = 1 := by
  simp only [SprayLink.recognised, admissible.linkOk, admissible.translated, admissible.unbarred, admissible.unblocked,
    Bool.not_true, Bool.false_or, Option.all_some, List.all_eq_true, decide_eq_true_eq] at recognised
  exact recognised x (mem_equalTo.mpr ⟨known, message⟩)

/-- On system 1 a stored request is recognised in its message. -/
theorem Carries.same (translated : translate m = some r) (carries : Carries r x) (system : x.ackSystem = 1) :
    sameSprayTransaction x r = true := by
  obtain ⟨wire, found, rfl⟩ := Option.map_eq_some_iff.mp translated
  refine sameSprayTransaction_iff.mpr ⟨carries.message, carries.command, ?_⟩
  have plain : wire.sourceSystem = 1 := by
    unfold translateWire at found
    simp only at found
    split at found
    · cases found
      rfl
    split at found
    · cases found
      rfl
    · cases found
  simp [carries.wire, system, plain]

theorem Adopts.same (adopts : Adopts r q) : sameSprayTransaction q r = true :=
  sameSprayTransaction_iff.mpr ⟨adopts.message, adopts.command, by rw [adopts.wire]⟩

theorem reassert_none (new : s.reassert r = none) :
    (∀ i, s.inflight = some i → sameSprayTransaction i r = false) ∧
    (∀ q ∈ s.queue, sameSprayTransaction q r = false) ∧
    ∀ c, s.confirmed.lookup r.source = some c → sameSprayTransaction c r = false := by
  unfold reassert at new
  cases flying : s.inflight.filter (sameSprayTransaction · r) with
  | some i => simp [flying] at new
  | none =>
    simp only [flying] at new
    split at new
    · cases new
    rename_i queued
    cases confirmed : (s.confirmed.lookup r.source).filter (sameSprayTransaction · r) with
    | some c => simp [confirmed] at new
    | none =>
      refine ⟨?_, ?_, ?_⟩
      · intro i found
        simpa [found, Option.filter] using flying
      · simpa using queued
      · intro c found
        simpa [found, Option.filter] using confirmed

/-- The stored requests of one message share its pair, and so does the request of the queue. -/
structure Faithful (s : SprayLink) : Prop where
  unique : ∀ x y, Known s x → Known s y → x.toSprayActuatorCommand = y.toSprayActuatorCommand → pair x = pair y
  waits : ∀ q ∈ s.queue, ∀ x, Known s x → x.toSprayActuatorCommand = q.toSprayActuatorCommand → pair q = pair x

theorem Faithful.shed (faithful : Faithful s) (sheds : Sheds s mid) : Faithful mid :=
  ⟨fun x y first second => faithful.unique x y (sheds.known first) (sheds.known second),
    fun q member x known => faithful.waits q (sheds.queue.mem member) x (sheds.known known)⟩

theorem Owned.identified (owned : Owned past mark s) (known : Known s x) : x.ackToken ≠ 0 := by
  obtain ⟨_, _, carries⟩ := owned.stamped x (owned.known x known)
  exact carries.identified

/-- A recognised message joins the queue under the pair of the requests it repeats. -/
theorem Owned.join_pair (owned : Owned past mark s) (admissible : Admissible s m env r)
    (recognised : s.recognised (.command m env) = true) (new : s.reassert r = none) (joins : Joins s r r' t)
    (known : Known s x) (message : x.toSprayActuatorCommand = m) : pair r' = pair x := by
  have translated := admissible.translated
  obtain ⟨r₀, found, carries⟩ := owned.stamped x (owned.known x known)
  rw [message, translated] at found
  obtain rfl := Option.some.inj found
  have same := carries.same translated (admissible.recognised recognised known message)
  have source : x.source = r.source := congrArg SprayActuatorCommand.source carries.message
  obtain ⟨flies, _, confirms⟩ := reassert_none new
  rcases known with flying | epoch | confirmed
  · rw [flies x flying] at same
    cases same
  · rw [source] at epoch
    rcases joins.identity with ⟨e, before, _, _, rfl⟩ | ⟨differs, _, _⟩
    · rw [epoch] at before
      cases before
      rfl
    · rw [differs x epoch] at same
      cases same
  · rw [source] at confirmed
    rw [confirms x confirmed] at same
    cases same

theorem Faithful.join (faithful : Faithful s) (owned : Owned past mark s) (admissible : Admissible s m env r)
    (recognised : s.recognised (.command m env) = true) (new : s.reassert r = none) (joins : Joins s r r' t) :
    Faithful t := by
  refine ⟨fun x y first second => faithful.unique x y (joins.known first) (joins.known second), ?_⟩
  intro q member x known same
  rcases joins.mem member with rfl | ⟨old, _⟩
  · rw [joins.adopts.message, translate_message admissible.translated] at same
    exact owned.join_pair admissible recognised new joins (joins.known known) same
  · exact faithful.waits q old x (joins.known known) same

theorem Faithful.send (faithful : Faithful s) (owned : Owned past mark s) (sends : Sends s env t outs) : Faithful t := by
  have known : ∀ x, Known t x → Known s x ∨ x ∈ commands outs := fun x => sends.known
  cases sends with
  | idle => exact faithful
  | refused q rest tokens free head =>
    refine ⟨faithful.unique, ?_⟩
    intro x member
    exact faithful.waits x (by rw [head]; exact List.mem_cons_of_mem q member)
  | sent q rest tokens w free head carries identity =>
    have queued : q ∈ s.queue := by simp [head]
    have known : ∀ x, Known _ x → Known s x ∨ x = w := fun x found => (known x found).imp_right List.mem_singleton.mp
    -- What the request repeats had its pair, so it was not given a new one.
    have agrees : ∀ x, Known s x → x.toSprayActuatorCommand = w.toSprayActuatorCommand → pair x = pair w := by
      intro x old same
      have kept := faithful.waits q queued x old (same.trans carries.message)
      rcases identity with ⟨_, _, pairs⟩ | ⟨fresh, _⟩
      · rw [pairs, kept]
      · simp only [pair, fresh, Identity.mk.injEq] at kept
        exact absurd kept.2.symm (owned.identified old)
    refine ⟨?_, ?_⟩
    · intro x y first second same
      rcases known x first with old | rfl
      · rcases known y second with other | rfl
        · exact faithful.unique x y old other same
        · exact agrees x old same
      · rcases known y second with other | rfl
        · exact (agrees y other same.symm).symm
        · rfl
    · intro y member x found same
      have later : y ∈ s.queue := by
        rw [head]
        exact List.mem_cons_of_mem q member
      rcases known x found with old | rfl
      · exact faithful.waits y later x old same
      · -- The queue holds no second request of the source.
        have single := owned.single
        rw [head, List.map_cons, List.nodup_cons] at single
        have source : y.source = q.source := congrArg SprayActuatorCommand.source (same.symm.trans carries.message)
        exact absurd (List.mem_map.mpr ⟨y, member, source⟩) single.1

theorem Works.faithful {e : Event} (works : Works s e t outs) (faithful : Faithful s) (owned : Owned past mark s)
    (recognised : s.recognised e = true) : Faithful t := by
  cases works with
  | sheds sheds silent sends => exact (faithful.shed sheds).send (owned.shed sheds) sends
  | resends bar => exact faithful.shed (.still bar s.lateAckCount)
  | joins admissible new joins silent sends =>
    exact (faithful.join owned admissible recognised new joins).send (owned.join admissible.translated joins) sends

/-! ### The pairs of one call -/

/-- The pair in the source fields of the VehicleCommand. -/
def wirePair (w : SprayPending) : Identity := ⟨w.vehicleCommand.sourceSystem, w.vehicleCommand.sourceComponent⟩

theorem Owned.wirePair_eq (owned : Owned past mark s) (member : x ∈ past) : wirePair x = pair x := by
  obtain ⟨r, _, carries⟩ := owned.stamped x member
  simp [wirePair, pair, carries.wire]

/-- The pairs of a call from `s` to `t` that publishes `sent`, where `used` holds of the pairs given out before it. -/
structure PairLaw (used : Identity → Prop) (s : SprayLink) (e : Event) (t : SprayLink) (sent : List SprayPending) :
    Prop where
  /-- A command that asks for a known request again. -/
  repeated : ∀ m env x, e = .command m env → Known s x → x.toSprayActuatorCommand = m →
    (∀ w ∈ sent, w.toSprayActuatorCommand = m → wirePair w = wirePair x) ∧
    (∀ q ∈ t.queue, q.toSprayActuatorCommand = m → pair q = wirePair x) ∧
    (t.tokens.next ≠ s.tokens.next → ∃ w ∈ sent, w.toSprayActuatorCommand ≠ m)
  /-- A command that asks for something else. -/
  different : ∀ m env, e = .command m env → (∀ x, Known s x → x.toSprayActuatorCommand ≠ m) →
    (∀ w ∈ sent, w.toSprayActuatorCommand = m → ¬ used (wirePair w)) ∧
    ∀ q ∈ t.queue, q.toSprayActuatorCommand = m → q.ackToken = 0
  stays : ∀ q ∈ t.queue, q ∈ s.queue ∨ ∃ m env, e = .command m env ∧ q.toSprayActuatorCommand = m
  /-- A queued request that has a pair goes out under it, one that has none under a new pair. -/
  kept : ∀ w ∈ sent, ∀ q ∈ s.queue, q.toSprayActuatorCommand = w.toSprayActuatorCommand → q.ackToken ≠ 0 →
    wirePair w = pair q ∧ t.tokens.next = s.tokens.next
  fresh : ∀ w ∈ sent, ∀ q ∈ s.queue, q.toSprayActuatorCommand = w.toSprayActuatorCommand → q.ackToken = 0 →
    ¬ used (wirePair w)

theorem Sends.queue (sends : Sends s env t outs) : t.queue.Sublist s.queue := by
  cases sends with
  | idle => exact .refl _
  | refused q rest tokens free head =>
    rw [head]
    exact List.sublist_cons_self q rest
  | sent q rest tokens w free head =>
    rw [head]
    exact List.sublist_cons_self q rest

/-- The request a dispatch publishes, under its own pair or a new one. -/
theorem Sends.origin (sends : Sends s env t outs) (member : w ∈ commands outs) :
    ∃ q ∈ s.queue, w.toSprayActuatorCommand = q.toSprayActuatorCommand ∧
      ((q.ackToken ≠ 0 ∧ t.tokens = s.tokens ∧ pair w = pair q) ∨
        (q.ackToken = 0 ∧ s.tokens.reserve env.persistOk = (t.tokens, some (pair w)))) := by
  cases sends with
  | idle => cases member
  | refused => cases member
  | sent q rest tokens w free head carries identity =>
    obtain rfl := List.mem_singleton.mp member
    exact ⟨q, by simp [head], carries.message, identity⟩

/-- A pair is reserved only for a request that has none. -/
theorem Sends.reserved (sends : Sends s env t outs) (moved : t.tokens.next ≠ s.tokens.next) :
    ∃ w ∈ commands outs, ∃ q ∈ s.queue, w.toSprayActuatorCommand = q.toSprayActuatorCommand ∧ q.ackToken = 0 := by
  cases sends with
  | idle => exact absurd rfl moved
  | refused q rest tokens free head exhausted =>
    have reserves := AckTokens.reserve_cases exhausted
    cases reserves <;> exact absurd rfl moved
  | sent q rest tokens w free head carries identity =>
    rcases identity with ⟨_, same, _⟩ | ⟨fresh, _⟩
    · exact absurd (congrArg AckTokens.next same) moved
    · exact ⟨w, List.mem_singleton.mpr rfl, q, by simp [head], carries.message, fresh⟩

/-- One request for each source: the message tells the queued requests apart. -/
theorem Coherent.queue_inj (coherent : Coherent s) (first : q ∈ s.queue) (second : x ∈ s.queue)
    (same : q.toSprayActuatorCommand = x.toSprayActuatorCommand) : q = x :=
  List.inj_on_of_nodup_map coherent.single first second (congrArg SprayActuatorCommand.source same)

section

variable {used : Identity → Prop}

theorem Owned.sends_fresh (owned : Owned past mark s) (sends : Sends s env t outs) (member : w ∈ commands outs)
    (spent : ∀ p, used p → ∃ k, p = AckTokens.identityAt k ∧ s.tokens.Spent mark k)
    (reserved : s.tokens.reserve env.persistOk = (t.tokens, some (pair w))) : ¬ used (wirePair w) := by
  have after := owned.send sends false
  rw [after.wirePair_eq (List.mem_append_left _ member)]
  obtain ⟨next, unspent, _⟩ := (AckTokens.reserve_cases reserved).some owned.covered false
  intro before
  obtain ⟨k, same, spent⟩ := spent _ before
  rw [next] at same
  rw [← AckTokens.identityAt_inj same] at spent
  exact unspent spent

/-- The law for a call that leaves the stores `mid` and then dispatches. -/
theorem PairLaw.of_sends {e : Event} (before : Owned past mark s) (owned : Owned past mark mid)
    (tokens : mid.tokens = s.tokens) (sends : Sends mid env t outs)
    (spent : ∀ p, used p → ∃ k, p = AckTokens.identityAt k ∧ s.tokens.Spent mark k)
    (asked : ∀ m env x, e = .command m env → Known s x → x.toSprayActuatorCommand = m →
      ∀ q ∈ mid.queue, q.toSprayActuatorCommand = m → pair q = pair x)
    (new : ∀ m env, e = .command m env → (∀ x, Known s x → x.toSprayActuatorCommand ≠ m) →
      ∀ q ∈ mid.queue, q.toSprayActuatorCommand = m → q.ackToken = 0)
    (stays : ∀ q ∈ mid.queue, q ∈ s.queue ∨ ∃ m env, e = .command m env ∧ q.toSprayActuatorCommand = m)
    (alone : ∀ q ∈ mid.queue, ∀ q₀ ∈ s.queue, q₀.toSprayActuatorCommand = q.toSprayActuatorCommand → q₀ = q) :
    PairLaw used s e t (commands outs) := by
  have after := owned.send sends false
  have onWire : ∀ w ∈ commands outs, wirePair w = pair w :=
    fun w member => after.wirePair_eq (List.mem_append_left _ member)
  have unused : ∀ w ∈ commands outs, mid.tokens.reserve env.persistOk = (t.tokens, some (pair w)) →
      ¬ used (wirePair w) := fun w member => owned.sends_fresh sends member (tokens ▸ spent)
  refine ⟨?_, ?_, ?_, ?_, ?_⟩
  · intro m env x event known message
    have identified := before.identified known
    rw [before.wirePair_eq (before.known x known)]
    have held : ∀ q ∈ mid.queue, q.toSprayActuatorCommand = m → pair q = pair x ∧ q.ackToken ≠ 0 := by
      intro q member same
      have pairs := asked m env x event known message q member same
      refine ⟨pairs, ?_⟩
      rw [show q.ackToken = x.ackToken from congrArg Identity.component pairs]
      exact identified
    refine ⟨?_, fun q member same => (held q (sends.queue.mem member) same).1, ?_⟩
    · intro w member same
      obtain ⟨q, queued, message, ⟨_, _, pairs⟩ | ⟨fresh, _⟩⟩ := sends.origin member
      · rw [onWire w member, pairs]
        exact (held q queued (message ▸ same)).1
      · exact absurd fresh (held q queued (message ▸ same)).2
    · intro moved
      obtain ⟨w, member, q, queued, message, fresh⟩ := sends.reserved (by rwa [tokens])
      exact ⟨w, member, fun same => (held q queued (message ▸ same)).2 fresh⟩
  · intro m env event unknown
    have held := new m env event unknown
    refine ⟨?_, fun q member => held q (sends.queue.mem member)⟩
    intro w member same
    obtain ⟨q, queued, message, ⟨identified, _⟩ | ⟨_, reserved⟩⟩ := sends.origin member
    · exact absurd (held q queued (message ▸ same)) identified
    · exact unused w member reserved
  · intro q member
    exact stays q (sends.queue.mem member)
  · intro w member q₀ queued₀ same identified
    obtain ⟨q, queued, message, identity⟩ := sends.origin member
    obtain rfl := alone q queued q₀ queued₀ (same.trans message)
    rcases identity with ⟨_, unmoved, pairs⟩ | ⟨fresh, _⟩
    · exact ⟨(onWire w member).trans pairs, by rw [unmoved, tokens]⟩
    · exact absurd fresh identified
  · intro w member q₀ queued₀ same none
    obtain ⟨q, queued, message, identity⟩ := sends.origin member
    obtain rfl := alone q queued q₀ queued₀ (same.trans message)
    rcases identity with ⟨identified, _⟩ | ⟨_, reserved⟩
    · exact absurd none identified
    · exact unused w member reserved

/-- A queued request that has a pair repeats a known one. -/
theorem Coherent.queued_known (coherent : Coherent s) (member : q ∈ s.queue) (identified : q.ackToken ≠ 0) :
    ∃ x, Known s x ∧ x.toSprayActuatorCommand = q.toSprayActuatorCommand := by
  obtain ⟨e, epoch, message, _⟩ := coherent.kept q member identified
  have source : e.source = q.source := congrArg SprayActuatorCommand.source message
  exact ⟨e, .inr (.inl (by rw [source]; exact epoch)), message⟩

theorem Coherent.queued_new (coherent : Coherent s) (member : q ∈ s.queue) (message : q.toSprayActuatorCommand = m)
    (unknown : ∀ x, Known s x → x.toSprayActuatorCommand ≠ m) : q.ackToken = 0 := by
  by_contra identified
  obtain ⟨x, known, same⟩ := coherent.queued_known member identified
  exact unknown x known (same.trans message)

theorem Works.pairLaw {e : Event} (works : Works s e t outs) (faithful : Faithful s) (owned : Owned past mark s)
    (recognised : s.recognised e = true)
    (spent : ∀ p, used p → ∃ k, p = AckTokens.identityAt k ∧ s.tokens.Spent mark k) :
    PairLaw used s e t (commands outs) := by
  have coherent := owned.toCoherent
  cases works with
  | sheds sheds silent sends =>
    rw [commands_append, silent, List.nil_append]
    refine PairLaw.of_sends owned (owned.shed sheds) sheds.tokens sends spent ?_ ?_ ?_ ?_
    · intro m env x _ known message q member same
      exact faithful.waits q (sheds.queue.mem member) x known (message.trans same.symm)
    · intro m env _ unknown q member same
      exact coherent.queued_new (sheds.queue.mem member) same unknown
    · intro q member
      exact .inl (sheds.queue.mem member)
    · intro q member q₀ queued same
      exact coherent.queue_inj queued (sheds.queue.mem member) same
  | resends bar admissible same stored =>
    rename_i m env r y
    have message := (sameSprayTransaction_message same).trans (translate_message admissible.translated)
    have known : Known s y := by
      refine stored.imp_right fun confirmed => .inr ?_
      rw [message]
      exact confirmed
    have onWire : ∀ w ∈ commands [.command y], w = y := fun w member => List.mem_singleton.mp member
    have pairs : ∀ q ∈ s.queue, q.toSprayActuatorCommand = y.toSprayActuatorCommand → pair q = pair y :=
      fun q queued alike => faithful.waits q queued y known alike.symm
    refine ⟨?_, ?_, fun q member => .inl member, ?_, ?_⟩
    · rintro _ _ x ⟨⟩ repeats rfl
      rw [owned.wirePair_eq (owned.known x repeats)]
      refine ⟨?_, fun q member alike => faithful.waits q member x repeats alike.symm, fun moved => absurd rfl moved⟩
      intro w member _
      rw [onWire w member, owned.wirePair_eq (owned.known y known)]
      exact faithful.unique y x known repeats message
    · rintro _ _ ⟨⟩ unknown
      exact absurd message (unknown y known)
    · intro w member q queued alike _
      obtain rfl := onWire w member
      rw [owned.wirePair_eq (owned.known w known)]
      exact ⟨(pairs q queued alike).symm, rfl⟩
    · intro w member q queued alike none
      obtain rfl := onWire w member
      have same : q.ackToken = w.ackToken := congrArg Identity.component (pairs q queued alike)
      exact absurd (same.symm.trans none) (owned.identified known)
  | joins admissible new joins silent sends =>
    rename_i m env r r' mid acks sent
    rw [commands_append, silent, List.nil_append]
    have message : r'.toSprayActuatorCommand = m :=
      joins.adopts.message.trans (translate_message admissible.translated)
    refine PairLaw.of_sends owned (owned.join admissible.translated joins) joins.tokens sends spent ?_ ?_ ?_ ?_
    · rintro _ _ x ⟨⟩ known repeats q member same
      rcases joins.mem member with rfl | ⟨old, _⟩
      · exact owned.join_pair admissible recognised new joins known repeats
      · exact faithful.waits q old x known (repeats.trans same.symm)
    · rintro _ _ ⟨⟩ unknown q member same
      rcases joins.mem member with rfl | ⟨old, _⟩
      · exact (owned.join admissible.translated joins).toCoherent.queued_new member same
          fun x known => unknown x (joins.known known)
      · exact coherent.queued_new old same unknown
    · intro q member
      rcases joins.mem member with rfl | ⟨old, _⟩
      · exact .inr ⟨m, env, rfl, message⟩
      · exact .inl old
    · intro q member q₀ queued same
      rcases joins.mem member with rfl | ⟨old, _⟩
      · -- A request of the queue is recognised whatever its pair: it has not been on the wire.
        obtain ⟨r₀, translated, adopts⟩ := owned.translated q₀ queued
        rw [same, message, admissible.translated] at translated
        obtain rfl := Option.some.inj translated
        have repeats := (reassert_none new).2.1 q₀ queued
        rw [adopts.same] at repeats
        cases repeats
      · exact coherent.queue_inj queued old same

end

theorem Works.spent {e : Event} {k : Nat} (works : Works s e t outs) (covered : s.tokens.Covered mark)
    (spent : s.tokens.Spent mark k) (replaced : Bool) :
    t.tokens.Spent (s.tokens.written t.tokens mark replaced) k := by
  have sent : ∀ {mid t : SprayLink} {env : Env} {outs : List SprayOut}, mid.tokens = s.tokens → Sends mid env t outs →
      t.tokens.Spent (s.tokens.written t.tokens mark replaced) k := by
    intro mid t env outs tokens sends
    rw [← tokens] at covered spent ⊢
    cases sends with
    | idle =>
      rw [AckTokens.written_same rfl]
      exact spent
    | refused q rest after free head exhausted =>
      exact (AckTokens.reserve_cases exhausted).spent covered replaced spent
    | sent q rest after w free head carries identity =>
      rcases identity with ⟨_, rfl, _⟩ | ⟨_, reserved⟩
      · rw [AckTokens.written_same rfl]
        exact spent
      · exact (AckTokens.reserve_cases reserved).spent covered replaced spent
  cases works with
  | sheds sheds silent sends => exact sent sheds.tokens sends
  | resends =>
    rw [AckTokens.written_same rfl]
    exact spent
  | joins admissible new joins silent sends => exact sent joins.tokens sends

/-! ### Runs -/

namespace Ledgered

/-- The condition on a step: a message is recognised in the requests that it repeats. -/
def Recognised (s : Ledgered) : Event → Prop
  | .call e _ => s.link.recognised e = true
  | .restart _ => True

instance (s : Ledgered) (e : Event) : Decidable (s.Recognised e) := by
  cases e with
  | call e => exact inferInstanceAs (Decidable (s.link.recognised e = true))
  | restart => exact isTrue trivial

/-- The pairs given out in the history, or below the mark of the ledger it started on. -/
def Used (mark : Nat) (h : List Record) (p : Identity) : Prop :=
  (∃ k < mark, p = AckTokens.identityAt k) ∨ ∃ w ∈ published h, wirePair w = p

theorem fresh_faithful (tokens : AckTokens) : Faithful { tokens } :=
  ⟨fun x _ known => absurd known (not_known_fresh tokens x), by simp⟩

theorem step_spent {timeout : ℚ} {s : Ledgered} {k : Nat} (e : Event) (covered : s.link.tokens.Covered s.mark)
    (spent : s.link.tokens.Spent s.mark k) :
    (step timeout s e).1.link.tokens.Spent (step timeout s e).1.mark k := by
  cases e with
  | restart readable => exact spent.restart readable
  | call e replaced => exact (step_works timeout s.link e).spent covered spent replaced

theorem start_spent {mark k : Nat} (below : k < mark) : (start mark).link.tokens.Spent (start mark).mark k :=
  AckTokens.Spent.restart (t := { failed := true, next := 0, reserved := 0 }) ⟨below, by simp⟩ true

/-- While every message is recognised in the requests it repeats, a repeated request keeps its pair and reserves none,
and a different one gets a pair that nobody has used. -/
theorem reassert_keeps_pair (timeout : ℚ) (mark : Nat) (h : List Record) (s : Ledgered)
    (run : RunIf (step timeout) (fun _ s e => s.Recognised e) (start mark) h s) (e : SprayLink.Event)
    (recognised : s.link.recognised e = true) :
    PairLaw (Used mark h) s.link e (s.link.step timeout e).1 (commands (s.link.step timeout e).2) := by
  have kept : Owned (published h) s.mark s.link ∧ Faithful s.link ∧ ∀ k < mark, s.link.tokens.Spent s.mark k := by
    refine run.invariant (fun h s => Owned (published h) s.mark s.link ∧ Faithful s.link ∧
      ∀ k < mark, s.link.tokens.Spent s.mark k) ⟨start_owned mark, fresh_faithful _, fun k => start_spent⟩ ?_
    rintro h s e ⟨owned, faithful, spent⟩ recognised
    refine ⟨step_owned e owned, ?_, fun k below => step_spent e owned.covered (spent k below)⟩
    cases e with
    | call e => exact (step_works timeout s.link e).faithful faithful owned recognised
    | restart => exact fresh_faithful _
  obtain ⟨owned, faithful, spent⟩ := kept
  refine (step_works timeout s.link e).pairLaw faithful owned recognised ?_
  rintro p (⟨k, below, same⟩ | ⟨w, member, same⟩)
  · exact ⟨k, same, spent k below⟩
  · rw [← same, owned.wirePair_eq member]
    exact owned.spent w member

def openValve : SprayActuatorCommand := { seq := 1, on := true, value := .fin 1 }

/-- An ON is sent again while it is in flight, on the first pair of the ledger. -/
theorem openValve_keeps_pair :
    let run := exec (step 1) [] (start 0) [.call (.command openValve {}) false]
    run.2.link.equalTo openValve ≠ [] ∧ run.2.link.recognised (.command openValve {}) = true ∧
      PairLaw (Used 0 run.1) run.2.link (.command openValve {}) (run.2.link.step 1 (.command openValve {})).1
        (commands (run.2.link.step 1 (.command openValve {})).2) := by
  intro run
  have guarded : Guarded (step 1) (fun _ s e => s.Recognised e) [] (start 0) [.call (.command openValve {}) false] := by
    decide +kernel
  have recognised : run.2.link.recognised (.command openValve {}) = true := by decide +kernel
  exact ⟨by decide +kernel, recognised,
    reassert_keeps_pair 1 0 run.1 run.2 (exec_runIf _ guarded .start) (.command openValve {}) recognised⟩

/-- Behind the last pair of system 1 a confirmed ON that is sent again goes out under another pair. -/
theorem openValve_changes_pair :
    ∃ h s, Run (step 1) (start AckTokens.perSystem) h s ∧ s.link.barredOn = none ∧
      ∃ x ∈ s.link.equalTo openValve, ∃ w ∈ commands (s.link.step 1 (.command openValve {})).2,
        w.toSprayActuatorCommand = openValve ∧ wirePair w ≠ wirePair x := by
  refine ⟨_, _, exec_run [.call (.command openValve {}) false,
    .call (.fcuAck ⟨cmdDoSetActuator, resultAccepted, 2, 2⟩ {}) false] .start, ?_⟩
  decide +kernel

end Ledgered

end Dyx3.Px4Link.SprayLink
