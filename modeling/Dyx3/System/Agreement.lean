import Dyx3.Px4Link.Books
import Dyx3.System.SprayLoop

/-!
The controller, the channels and the books of px4_link agree in every reachable state of the spray loop: the
controller's messages are in order and none of them, waiting or published, is ahead of its state machine.
-/

namespace Dyx3.System.Loop

open Lib Px4Link Spray SprayLink

structure Sound (s : Loop) : Prop where
  books : Books s.fsm.seq s.fsm.commanded s.link s.published
  controller : ∀ m ∈ s.toLink, m.source = sourceController ∧ m.seq ≤ s.fsm.seq ∧
    (m.seq = s.fsm.seq → m.on = s.fsm.commanded)
  watchdog : ∀ m ∈ s.wdToLink, m.source = sourceWatchdog ∧ m.on = false
  order : ∀ x, x ∈ s.link.queue ∨ x ∈ s.published → x.source = sourceController → ∀ m ∈ s.toLink, x.seq ≤ m.seq
  sorted : s.toLink.Pairwise fun m k => m.seq ≤ k.seq
  acks : ∀ a ∈ s.toFsm, a.success = true → ∃ x ∈ s.published, x.source = sourceController ∧ x.seq = a.seq
  proved : s.fsm.proved = true → ∃ x ∈ s.published, x.source = sourceController ∧ x.seq = s.fsm.seq

variable {p : Params} {s : Loop}

theorem mem_acksFor {source : Nat} {outs : List SprayOut} {a : SprayActuatorAck} :
    a ∈ acksFor source outs ↔ .ack a ∈ outs ∧ a.source = source := by
  induction outs with
  | nil => simp [acksFor]
  | cons o outs ih =>
    cases o with
    | command w => simp [acksFor, ih]
    | ack b =>
      simp only [acksFor]
      split
      · rename_i own
        simp only [List.mem_cons, ih, SprayOut.ack.injEq]
        constructor
        · rintro (rfl | found)
          · exact ⟨.inl rfl, own⟩
          · exact ⟨.inr found.1, found.2⟩
        · rintro ⟨rfl | found, own⟩
          · exact .inl rfl
          · exact .inr ⟨found, own⟩
      · rename_i other
        simp only [List.mem_cons, ih, SprayOut.ack.injEq]
        constructor
        · rintro ⟨found, own⟩
          exact ⟨.inr found, own⟩
        · rintro ⟨rfl | found, own⟩
          · exact absurd own other
          · exact ⟨found, own⟩

/-! ### The controller -/

/-- What is stored of the controller is at most at its current seq. -/
theorem Sound.bound (sound : Sound s) {x : SprayPending} (stored : x ∈ s.link.queue ∨ x ∈ s.published)
    (own : x.source = sourceController) : x.seq ≤ s.fsm.seq :=
  ((sound.books.fits x (stored.imp_right .inr)).controller own).1

theorem Sound.send (sound : Sound s) {m : SprayActuatorCommand} (own : m.source = sourceController)
    (newest : m.seq = s.fsm.seq) (on : m.on = s.fsm.commanded) : Sound { s with toLink := s.toLink ++ [m] } := by
  refine { sound with controller := ?_, order := ?_, sorted := ?_ }
  · intro k member
    rcases List.mem_append.mp member with old | new
    · exact sound.controller k old
    · obtain rfl := List.mem_singleton.mp new
      exact ⟨own, newest.le, fun _ => on⟩
  · intro x stored source k member
    rcases List.mem_append.mp member with old | new
    · exact sound.order x stored source k old
    · obtain rfl := List.mem_singleton.mp new
      rw [newest]
      exact sound.bound stored source
  · refine List.pairwise_append.mpr ⟨sound.sorted, by simp, ?_⟩
    intro k member l new
    obtain rfl := List.mem_singleton.mp new
    rw [newest]
    exact (sound.controller k member).2.1

/-- The state machine moves on to its next command. -/
theorem Sound.next (sound : Sound s) {fsm : Fsm} (seq : fsm.seq = s.fsm.seq + 1) (pending : fsm.proved = false) :
    Sound { s with fsm } := by
  refine ⟨?_, ?_, sound.watchdog, sound.order, sound.sorted, sound.acks, by simp [pending]⟩
  · have books := sound.books.next fsm.commanded
    rwa [← seq] at books
  · intro m member
    obtain ⟨own, bound, _⟩ := sound.controller m member
    refine ⟨own, by simp only [seq]; omega, ?_⟩
    simp only [seq]
    omega

theorem Sound.control (sound : Sound s) {e : Fsm.Event} (o : Output)
    (ack : ∀ now, e = .ack s.fsm.seq true now → ∃ x ∈ s.published, x.source = sourceController ∧ x.seq = s.fsm.seq) :
    Sound (s.control p e o) := by
  have follows := Fsm.step_follows p.fsm s.fsm e
  unfold Loop.control
  generalize s.fsm.step p.fsm e = r at follows ⊢
  obtain ⟨fsm, out⟩ := r
  dsimp only at follows ⊢
  rcases follows with ⟨c, rfl, next, seq, commanded, pending⟩ | ⟨rfl, seq, commanded, confirmed⟩
  · exact (sound.next seq pending).send rfl (next.trans seq.symm) commanded.symm
  · simp only [Option.map_none, Option.toList_none, List.append_nil]
    refine ⟨?_, ?_, sound.watchdog, sound.order, sound.sorted, sound.acks, ?_⟩
    · simpa only [seq, commanded] using sound.books
    · simpa only [seq, commanded] using sound.controller
    · simp only [seq]
      intro closed
      rcases confirmed closed with before | ⟨now, same⟩
      · exact sound.proved before
      · exact ack now same

theorem Sound.reassert (sound : Sound s) (o : Output) : Sound (s.reassert o) := by
  unfold Loop.reassert
  split
  · rename_i on
    exact sound.send rfl rfl on.symm
  · exact sound

/-! ### The link -/

/-- A call of the link that keeps the books and brings no request that the channel has overtaken. -/
theorem Sound.absorb (sound : Sound s) {r : SprayLink × List SprayOut}
    (books : Books s.fsm.seq s.fsm.commanded r.1 ((commands r.2).reverse ++ s.published))
    (origin : ∀ x, x ∈ r.1.queue ∨ x ∈ commands r.2 → x.source = sourceController → ∀ m ∈ s.toLink, x.seq ≤ m.seq)
    (proves : Proves s.link r.2) : Sound (s.absorb r) := by
  have older : ∀ x ∈ s.published, x ∈ (commands r.2).reverse ++ s.published := fun x member =>
    List.mem_append_right _ member
  refine ⟨books, sound.controller, sound.watchdog, ?_, sound.sorted, ?_, ?_⟩
  · rintro x (queued | member)
    · exact origin x (.inl queued)
    · rcases List.mem_append.mp member with new | old
      · exact origin x (.inr (List.mem_reverse.mp new))
      · exact sound.order x (.inr old)
  · intro a member success
    rcases List.mem_append.mp member with old | new
    · obtain ⟨x, known, found⟩ := sound.acks a old success
      exact ⟨x, older x known, found⟩
    · obtain ⟨out, own⟩ := mem_acksFor.mp new
      obtain ⟨i, flying, seq, source⟩ := proves a out success
      exact ⟨i, older i (sound.books.flown i flying), source.symm.trans own, seq.symm⟩
  · intro confirmed
    obtain ⟨x, known, found⟩ := sound.proved confirmed
    exact ⟨x, older x known, found⟩

theorem Sound.settle (sound : Sound s) {r : SprayLink × List SprayOut} (settles : Settles s.link r.1 r.2) :
    Sound (s.absorb r) := by
  refine sound.absorb (sound.books.settle settles) ?_ settles.proves
  intro x held own
  obtain ⟨q, queued, message⟩ := settles.origin held
  have source : x.source = q.source := congrArg SprayActuatorCommand.source message
  have seq : x.seq = q.seq := congrArg SprayActuatorCommand.seq message
  rw [seq]
  exact sound.order q (.inl queued) (source.symm.trans own)

/-- A message the link may receive now: in order with the controller's, or a watchdog OFF. -/
structure Arrives (s : Loop) (m : SprayActuatorCommand) : Prop where
  fits : Fits s.fsm.seq s.fsm.commanded m
  newest : m.source = sourceController → ∀ x, x ∈ s.link.queue ∨ x ∈ s.published → x.source = sourceController → x.seq ≤ m.seq
  before : m.source = sourceController → ∀ k ∈ s.toLink, m.seq ≤ k.seq

theorem Sound.handle (sound : Sound s) {m : SprayActuatorCommand} {env : Env} {r : SprayLink × List SprayOut}
    (arrives : s.Arrives m) (handles : Handles s.link m env r.1 r.2) : Sound (s.absorb r) := by
  refine sound.absorb (sound.books.handle arrives.fits ?_ handles) ?_ ?_
  · intro own x member
    exact arrives.newest own x (.inr member)
  · intro x held own
    rcases handles.origin held with message | ⟨q, queued, message⟩
    · subst message
      exact arrives.before own
    · have source : x.source = q.source := congrArg SprayActuatorCommand.source message
      have seq : x.seq = q.seq := congrArg SprayActuatorCommand.seq message
      rw [seq]
      exact sound.order q (.inl queued) (source.symm.trans own)
  · intro a member success
    rw [handles.refuses member] at success
    cases success

theorem Sound.arrives (sound : Sound s) {m : SprayActuatorCommand} {rest : List SprayActuatorCommand}
    (head : s.toLink = m :: rest) : s.Arrives m := by
  have first : m ∈ s.toLink := by simp [head]
  refine ⟨.inl (sound.controller m first), fun _ x stored own => sound.order x stored own m first, ?_⟩
  intro _ k member
  have sorted := sound.sorted
  rw [head] at sorted member
  rcases List.mem_cons.mp member with rfl | later
  · exact le_rfl
  · exact (List.pairwise_cons.mp sorted).1 k later

theorem Sound.arrivesWd (sound : Sound s) {m : SprayActuatorCommand} {rest : List SprayActuatorCommand}
    (head : s.wdToLink = m :: rest) : s.Arrives m := by
  have off := sound.watchdog m (by simp [head])
  have other : m.source ≠ sourceController := by simp [off.1, sourceController, sourceWatchdog]
  exact ⟨.inr off, fun own => absurd own other, fun own => absurd own other⟩

/-- Messages may be lost from every channel. -/
theorem Sound.lose (sound : Sound s) {toLink wdToLink : List SprayActuatorCommand} {toFsm toWd : List SprayActuatorAck}
    {px4 : List SprayPending} (link : toLink.Sublist s.toLink) (wd : wdToLink.Sublist s.wdToLink)
    (fsm : toFsm.Sublist s.toFsm) : Sound { s with toLink, wdToLink, toFsm, toWd, px4 } where
  books := sound.books
  controller m member := sound.controller m (link.mem member)
  watchdog m member := sound.watchdog m (wd.mem member)
  order x stored own m member := sound.order x stored own m (link.mem member)
  sorted := sound.sorted.sublist link
  acks a member := sound.acks a (fsm.mem member)
  proved := sound.proved

theorem Sound.watch (sound : Sound s) (wd : Watchdog) (now : ℚ) : Sound (s.watch p wd now) := by
  unfold Loop.watch
  generalize wd.tick p.watchdog now = r
  obtain ⟨wd, out⟩ := r
  refine { sound with watchdog := ?_ }
  intro m member
  rcases List.mem_append.mp member with old | new
  · exact sound.watchdog m old
  · cases out with
    | none => simp at new
    | some c =>
      obtain rfl : m = watchdogMessage c := by simpa using new
      exact ⟨rfl, rfl⟩

theorem sound_start (index : Nat) : Sound (start index) := by
  refine ⟨⟨?_, ?_, ?_, ?_, ?_, .inl ?_⟩, ?_, ?_, ?_, ?_, ?_, ?_⟩
  all_goals simp [start, AllOff, Fsm.proved]

theorem Sound.step (sound : Sound s) (e : Event) : Sound (step p s e).1 := by
  obtain ⟨now, action⟩ := e
  suffices acted : Sound (s.act p now action) from { acted with }
  cases action with
  | tick desired safetyOk enabled o =>
    show Sound (s.control p (.tick desired safetyOk enabled now) o)
    refine sound.control o ?_
    rintro _ ⟨⟩
  | eventReset =>
    show Sound (s.control p (.eventReset now) {})
    refine sound.control {} ?_
    rintro _ ⟨⟩
  | reassert o => exact sound.reassert o
  | fsmAck o =>
    simp only [act]
    split
    · exact sound
    · rename_i a rest head
      have popped : Sound { s with toFsm := rest } :=
        sound.lose (.refl _) (.refl _) (head ▸ List.sublist_cons_self a rest)
      refine popped.control o ?_
      intro later same
      obtain ⟨seq, success, _⟩ := Fsm.Event.ack.inj same
      rw [← seq]
      exact sound.acks a (by simp [head]) success
  | wdTick => exact sound.watch s.wd now
  | wdLease l => exact { sound with }
  | wdAck =>
    simp only [act]
    split
    · exact sound
    · exact { sound with }
  | wdShutdown => exact sound.watch s.wd.beginShutdown now
  | deliver linkOk persistOk =>
    simp only [act]
    split
    · exact sound
    · rename_i m rest head
      have popped : Sound { s with toLink := rest } :=
        sound.lose (head ▸ List.sublist_cons_self m rest) (.refl _) (.refl _)
      have arrives := sound.arrives head
      refine popped.handle ⟨arrives.fits, arrives.newest, ?_⟩ (command_handles s.link m _)
      intro own k member
      exact arrives.before own k (head ▸ List.mem_cons_of_mem m member)
  | deliverWd linkOk persistOk =>
    simp only [act]
    split
    · exact sound
    · rename_i m rest head
      have popped : Sound { s with wdToLink := rest } :=
        sound.lose (.refl _) (head ▸ List.sublist_cons_self m rest) (.refl _)
      have arrives := sound.arrivesWd head
      exact popped.handle ⟨arrives.fits, arrives.newest, arrives.before⟩ (command_handles s.link m _)
  | px4Ack linkOk persistOk =>
    simp only [act]
    split
    · exact sound
    · rename_i w rest head
      have popped : Sound { s with px4 := rest } := { sound with }
      exact popped.settle (ack_settles s.link _ _)
  | strayAck a linkOk persistOk => exact sound.settle (ack_settles s.link a _)
  | service linkOk persistOk => exact sound.settle (service_settles s.link _ _)
  | lose channel i =>
    cases channel with
    | toLink => exact sound.lose (List.eraseIdx_sublist ..) (.refl _) (.refl _)
    | wdToLink => exact sound.lose (.refl _) (List.eraseIdx_sublist ..) (.refl _)
    | toFsm => exact sound.lose (.refl _) (.refl _) (List.eraseIdx_sublist ..)
    | toWd => exact { sound with }
    | px4 => exact { sound with }

/-! ### One step, seen from the valve -/

/-- What a step does to the state machine, the link and the published commands. -/
inductive Turn (p : Params) (s : Loop) (e : Event) (t : Loop) : Prop where
  | idle (fsm : t.fsm = s.fsm) (link : t.link = s.link) (published : t.published = s.published)
      (toFsm : t.toFsm.Sublist s.toFsm) : Turn p s e t
  | control (call : Fsm.Event) (fsm : t.fsm = (s.fsm.step p.fsm call).1) (link : t.link = s.link)
      (published : t.published = s.published) (toFsm : t.toFsm.Sublist s.toFsm)
      (ack : ∀ seq now, call = .ack seq true now → ∃ a ∈ s.toFsm, a.seq = seq ∧ a.success = true) : Turn p s e t
  | handle (m : SprayActuatorCommand) (env : Env) (outs : List SprayOut) (arrives : s.Arrives m)
      (handles : Handles s.link m env t.link outs) (fsm : t.fsm = s.fsm)
      (published : t.published = (commands outs).reverse ++ s.published)
      (toFsm : t.toFsm = s.toFsm ++ acksFor sourceController outs)
      (watchdog : m.source = sourceWatchdog → s.wdToLink.head? = some m ∧
        e.action = .deliverWd env.linkOk env.persistOk) : Turn p s e t
  | settle (outs : List SprayOut) (settles : Settles s.link t.link outs) (fsm : t.fsm = s.fsm)
      (published : t.published = (commands outs).reverse ++ s.published)
      (toFsm : t.toFsm = s.toFsm ++ acksFor sourceController outs) : Turn p s e t

theorem Sound.turn (sound : Sound s) (e : Event) : Turn p s e (Loop.step p s e).1 := by
  obtain ⟨now, action⟩ := e
  cases action with
  | tick desired safetyOk enabled o =>
    exact .control (.tick desired safetyOk enabled now) rfl rfl rfl (.refl _) (by simp)
  | eventReset => exact .control (.eventReset now) rfl rfl rfl (.refl _) (by simp)
  | reassert o =>
    have unchanged : s.reassert o = s ∨ ∃ m, s.reassert o = { s with toLink := s.toLink ++ [m] } := by
      unfold Loop.reassert
      split
      · exact .inr ⟨_, rfl⟩
      · exact .inl rfl
    rcases unchanged with same | ⟨m, same⟩
    all_goals
      simp only [Loop.step, act, same]
      exact .idle rfl rfl rfl (.refl _)
  | fsmAck o =>
    simp only [Loop.step, act]
    split
    · exact .idle rfl rfl rfl (.refl _)
    · rename_i a rest head
      refine .control (.ack a.seq a.success now) rfl rfl rfl (head ▸ List.sublist_cons_self a rest) ?_
      intro seq later same
      obtain ⟨found, success, _⟩ := Fsm.Event.ack.inj same
      exact ⟨a, by simp [head], found, success⟩
  | wdTick => exact .idle rfl rfl rfl (.refl _)
  | wdLease l => exact .idle rfl rfl rfl (.refl _)
  | wdAck =>
    simp only [Loop.step, act]
    split
    all_goals exact .idle rfl rfl rfl (.refl _)
  | wdShutdown => exact .idle rfl rfl rfl (.refl _)
  | deliver linkOk persistOk =>
    simp only [Loop.step, act]
    split
    · exact .idle rfl rfl rfl (.refl _)
    · rename_i m rest head
      have own := (sound.controller m (by simp [head])).1
      refine .handle m ⟨linkOk, persistOk, now⟩ _ (sound.arrives head) (command_handles s.link m _) rfl rfl rfl ?_
      intro theirs
      rw [own] at theirs
      cases theirs
  | deliverWd linkOk persistOk =>
    simp only [Loop.step, act]
    split
    · exact .idle rfl rfl rfl (.refl _)
    · rename_i m rest head
      refine .handle m ⟨linkOk, persistOk, now⟩ _ (sound.arrivesWd head) (command_handles s.link m _) rfl rfl rfl ?_
      intro _
      exact ⟨by simp [head], rfl⟩
  | px4Ack linkOk persistOk =>
    simp only [Loop.step, act]
    split
    · exact .idle rfl rfl rfl (.refl _)
    · exact .settle _ (ack_settles s.link _ _) rfl rfl rfl
  | strayAck a linkOk persistOk => exact .settle _ (ack_settles s.link a _) rfl rfl rfl
  | service linkOk persistOk => exact .settle _ (service_settles s.link _ _) rfl rfl rfl
  | lose channel i =>
    cases channel with
    | toFsm => exact .idle rfl rfl rfl (List.eraseIdx_sublist ..)
    | toLink => exact .idle rfl rfl rfl (.refl _)
    | wdToLink => exact .idle rfl rfl rfl (.refl _)
    | toWd => exact .idle rfl rfl rfl (.refl _)
    | px4 => exact .idle rfl rfl rfl (.refl _)

end Dyx3.System.Loop
