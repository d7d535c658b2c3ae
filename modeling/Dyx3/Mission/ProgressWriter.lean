import Mathlib.Data.String.Basic
import Dyx3.Mission.ResumedPoints

/-!
The records of the mission's progress on their way to the disk: `note_progress` queues the newest one of each
artifact, one job at a time writes what was queued, and the destructor writes the rest. The job's thread writes its
records one by one, between any two callbacks. A record is anything with the artifact's id, and writes succeed.
-/

namespace Dyx3.Mission

open Lib

structure Writer (α : Type) where
  queue : List (String × α) := []
  job : Job (List α) (List String) := .none
  /-- What the job's thread has still to write. -/
  left : List α := []
  disk : List (String × α) := []
  destroyed : Bool := false

namespace Writer

variable {α : Type} (key : α → String)

/-- `launch_progress_job`. -/
def launch (w : Writer α) : Writer α :=
  if w.job.valid || w.queue.isEmpty then w
  else { w with queue := [], job := .running (w.queue.map (·.2)), left := w.queue.map (·.2) }

/-- One `write_progress`. -/
def store (disk : List (String × α)) (p : α) : List (String × α) := putKey (key p) p disk

inductive Event (α : Type) where
  | note (p : α)
  | write
  | done
  | poll
  | destroy
  deriving DecidableEq

/-- One event and the records it writes, oldest first. -/
def step (w : Writer α) : Event α → Writer α × List α
  | .note p => (launch { w with queue := putKey (key p) p w.queue }, [])
  | .write =>
    match w.left with
    | [] => (w, [])
    | p :: left => ({ w with left, disk := store key w.disk p }, [p])
  | .done =>
    match w.job, w.left with
    | .running _, [] => ({ w with job := .ready [] }, [])
    | _, _ => (w, [])
  | .poll =>
    match w.job with
    | .ready _ => (launch { w with job := .none }, [])
    | _ => (w, [])
  | .destroy =>
    -- the job is waited for before the queue is written
    let written := w.left ++ w.queue.map (·.2)
    ({ disk := written.foldl (store key) w.disk, destroyed := true }, written)

abbrev Log (α : Type) := List (Entry (Event α) (List α))

/-- The records of an artifact that an event notes. -/
def noted (sha : String) : Event α → List α
  | .note p => if key p = sha then [p] else []
  | _ => []

/-- The records noted for an artifact, oldest first. -/
def notes (sha : String) : Log α → List α
  | [] => []
  | x :: h => notes sha h ++ noted key sha x.event

/-- The records written for an artifact, oldest first. -/
def writes (sha : String) : Log α → List α
  | [] => []
  | x :: h => writes sha h ++ x.out.filter (key · = sha)

/-! ### The map of pending records -/

theorem lookup_putKey_ne {s k : String} (other : s ≠ k) (v : α) (l : List (String × α)) :
    (putKey k v l).lookup s = l.lookup s := by
  induction l with
  | nil => simp [putKey, List.lookup_cons, beq_eq_false_iff_ne.mpr other]
  | cons entry rest ih =>
    obtain ⟨k', v'⟩ := entry
    unfold putKey
    split
    case isTrue same =>
      subst same
      simp [List.lookup_cons, beq_eq_false_iff_ne.mpr other]
    · split
      · simp [List.lookup_cons, beq_eq_false_iff_ne.mpr other]
      · rw [List.lookup_cons, List.lookup_cons, ih]

/-- The pending records: one for each artifact, under its own id. -/
structure Pending (queue : List (String × α)) : Prop where
  sorted : queue.Pairwise fun a b => a.1 < b.1
  named : ∀ e ∈ queue, key e.2 = e.1

variable {key}

theorem mem_putKey {k : String} {v : α} {l : List (String × α)} {e : String × α} (member : e ∈ putKey k v l) :
    e = (k, v) ∨ e ∈ l := by
  induction l with
  | nil => exact .inl (List.mem_singleton.mp member)
  | cons entry rest ih =>
    obtain ⟨k', v'⟩ := entry
    unfold putKey at member
    split at member
    · rcases List.mem_cons.mp member with new | old
      · exact .inl new
      · exact .inr (List.mem_cons_of_mem _ old)
    · split at member
      · rcases List.mem_cons.mp member with new | old
        · exact .inl new
        · exact .inr old
      · rcases List.mem_cons.mp member with head | later
        · exact .inr (head ▸ List.mem_cons_self)
        · rcases ih later with new | old
          · exact .inl new
          · exact .inr (List.mem_cons_of_mem _ old)

theorem sorted_putKey {k : String} {v : α} {l : List (String × α)} (sorted : l.Pairwise fun a b => a.1 < b.1) :
    (putKey k v l).Pairwise fun a b => a.1 < b.1 := by
  induction l with
  | nil => exact List.pairwise_singleton ..
  | cons entry rest ih =>
    obtain ⟨k', v'⟩ := entry
    obtain ⟨first, tail⟩ := List.pairwise_cons.mp sorted
    unfold putKey
    split
    case isTrue same =>
      subst same
      exact List.pairwise_cons.mpr ⟨first, tail⟩
    case isFalse other =>
      split
      case isTrue before =>
        refine List.pairwise_cons.mpr ⟨fun e member => ?_, sorted⟩
        rcases List.mem_cons.mp member with rfl | later
        · exact before
        · exact before.trans (first e later)
      case isFalse after =>
        refine List.pairwise_cons.mpr ⟨fun e member => ?_, ih tail⟩
        rcases mem_putKey member with rfl | old
        · exact lt_of_le_of_ne (not_lt.mp after) (Ne.symm other)
        · exact first e old

theorem Pending.put {queue : List (String × α)} (pending : Pending key queue) (p : α) :
    Pending key (putKey (key p) p queue) := by
  refine ⟨sorted_putKey pending.sorted, fun e member => ?_⟩
  rcases mem_putKey member with rfl | old
  · rfl
  · exact pending.named e old

/-- A pending map has at most one record of an artifact. -/
theorem Pending.filter {queue : List (String × α)} (pending : Pending key queue) (sha : String) :
    (queue.map (·.2)).filter (key · = sha) = (queue.lookup sha).toList := by
  induction queue with
  | nil => rfl
  | cons entry rest ih =>
    obtain ⟨k, p⟩ := entry
    obtain ⟨first, sorted⟩ := List.pairwise_cons.mp pending.sorted
    have name : key p = k := pending.named _ List.mem_cons_self
    have rest' := ih ⟨sorted, fun e member => pending.named e (List.mem_cons_of_mem _ member)⟩
    rw [List.map_cons, List.filter_cons, List.lookup_cons]
    by_cases same : sha = k
    · subst same
      have none : (rest.map (·.2)).filter (key · = sha) = [] := by
        rw [List.filter_eq_nil_iff]
        intro q member
        obtain ⟨e, inRest, rfl⟩ := List.mem_map.mp member
        have later := first e inRest
        rw [← pending.named e (List.mem_cons_of_mem _ inRest)] at later
        simpa using later.ne'
      simp [name, none]
    · have other : key p ≠ sha := fun found => same (found ▸ name)
      simpa [other, beq_eq_false_iff_ne.mpr same] using rest'

/-! ### The order of the writes -/

/-- The records of an artifact that are on their way, oldest first. -/
def waiting (key : α → String) (sha : String) (w : Writer α) : List α :=
  w.left.filter (key · = sha) ++ (w.queue.lookup sha).toList

theorem lookup_store (sha : String) (disk : List (String × α)) (p : α) :
    (store key disk p).lookup sha = ([p].filter (key · = sha)).getLast?.or (disk.lookup sha) := by
  unfold store
  by_cases same : key p = sha
  · subst same
    simp [Node.lookup_putKey]
  · simp [same, lookup_putKey_ne (Ne.symm same)]

theorem lookup_stored (sha : String) (written : List α) (disk : List (String × α)) :
    (written.foldl (store key) disk).lookup sha = (written.filter (key · = sha)).getLast?.or (disk.lookup sha) := by
  induction written generalizing disk with
  | nil => rfl
  | cons p written ih =>
    rw [List.foldl_cons, ih, lookup_store, ← Option.or_assoc, ← List.getLast?_append, ← List.filter_append,
      List.singleton_append]

/-- What was written and what is on its way are notes in their order, up to the newest one. -/
structure Ordered (key : α → String) (disk₀ : List (String × α)) (sha : String) (h : Log α) (w : Writer α) : Prop where
  pending : Pending key w.queue
  idle : (∀ batch, w.job ≠ .running batch) → w.left = []
  order : (writes key sha h ++ waiting key sha w).Sublist (notes key sha h)
  newest : (writes key sha h ++ waiting key sha w).getLast? = (notes key sha h).getLast?
  disk : w.disk.lookup sha = (writes key sha h).getLast?.or (disk₀.lookup sha)

variable {disk₀ : List (String × α)} {sha : String} {h : Log α} {w : Writer α}

theorem Ordered.launch (ordered : Ordered key disk₀ sha h w) : Ordered key disk₀ sha h w.launch := by
  unfold Writer.launch
  split
  · exact ordered
  case isFalse free =>
    simp only [Bool.or_eq_true, List.isEmpty_iff, not_or, Bool.not_eq_true] at free
    have nothing : w.left = [] := ordered.idle fun batch running => by simp [running, Job.valid] at free
    have same : waiting key sha { w with queue := [], job := .running (w.queue.map (·.2)), left := w.queue.map (·.2) } =
        waiting key sha w := by
      simp [waiting, nothing, ordered.pending.filter sha]
    refine ⟨⟨.nil, by simp⟩, fun idle => absurd rfl (idle _), ?_, ?_, ordered.disk⟩
    · rw [same]; exact ordered.order
    · rw [same]; exact ordered.newest

theorem notes_quiet {e : Event α} (silent : noted key sha e = []) (out : List α) :
    notes key sha (⟨e, out⟩ :: h) = notes key sha h := by
  rw [notes, silent, List.append_nil]

theorem Ordered.quiet (ordered : Ordered key disk₀ sha h w) {e : Event α} (silent : noted key sha e = []) :
    Ordered key disk₀ sha (⟨e, []⟩ :: h) w := by
  have same := notes_quiet (h := h) silent []
  have same' : writes key sha (⟨e, []⟩ :: h) = writes key sha h := List.append_nil _
  refine ⟨ordered.pending, ordered.idle, ?_, ?_, ?_⟩
  · rw [same, same']; exact ordered.order
  · rw [same, same']; exact ordered.newest
  · rw [same']; exact ordered.disk

theorem Ordered.note (ordered : Ordered key disk₀ sha h w) (p : α) :
    Ordered key disk₀ sha (⟨.note p, []⟩ :: h) ({ w with queue := putKey (key p) p w.queue } : Writer α).launch := by
  refine Ordered.launch ?_
  by_cases mine : key p = sha
  · subst mine
    have waits : waiting key (key p) { w with queue := putKey (key p) p w.queue } =
        w.left.filter (key · = key p) ++ [p] := by
      simp [waiting, Node.lookup_putKey]
    have told : notes key (key p) (⟨.note p, []⟩ :: h) = notes key (key p) h ++ [p] := by simp [notes, noted]
    have quiet : writes key (key p) (⟨.note p, []⟩ :: h) = writes key (key p) h := List.append_nil _
    have older : (writes key (key p) h ++ w.left.filter (key · = key p)).Sublist (notes key (key p) h) := by
      refine .trans ?_ ordered.order
      rw [waiting, ← List.append_assoc]
      exact List.sublist_append_left _ _
    refine ⟨ordered.pending.put p, ordered.idle, ?_, ?_, ?_⟩
    · rw [waits, told, quiet, ← List.append_assoc]
      exact older.append (List.Sublist.refl [p])
    · rw [waits, told, quiet, ← List.append_assoc, List.getLast?_concat, List.getLast?_concat]
    · rw [quiet]
      exact ordered.disk
  · have waits : waiting key sha { w with queue := putKey (key p) p w.queue } = waiting key sha w := by
      simp [waiting, lookup_putKey_ne (Ne.symm mine)]
    have kept := ordered.quiet (e := .note p) (by simp [noted, mine])
    refine ⟨ordered.pending.put p, ordered.idle, ?_, ?_, kept.disk⟩
    · rw [waits]; exact kept.order
    · rw [waits]; exact kept.newest

theorem Ordered.write (ordered : Ordered key disk₀ sha h w) {p : α} {left : List α} (next : w.left = p :: left) :
    Ordered key disk₀ sha (⟨.write, [p]⟩ :: h) { w with left, disk := store key w.disk p } := by
  have same : writes key sha (⟨.write, [p]⟩ :: h) ++ waiting key sha { w with left, disk := store key w.disk p } =
      writes key sha h ++ waiting key sha w := by
    have split : w.left.filter (key · = sha) = [p].filter (key · = sha) ++ left.filter (key · = sha) := by
      rw [next, ← List.filter_append, List.singleton_append]
    rw [writes, waiting, waiting, split]
    simp only [List.append_assoc]
  have told : notes key sha (⟨.write, [p]⟩ :: h) = notes key sha h := notes_quiet rfl _
  refine ⟨ordered.pending, fun idle => ?_, ?_, ?_, ?_⟩
  · rw [ordered.idle idle] at next
    cases next
  · rw [same, told]; exact ordered.order
  · rw [same, told]; exact ordered.newest
  · rw [lookup_store, ordered.disk, writes, List.getLast?_append, Option.or_assoc]

theorem Ordered.destroy (ordered : Ordered key disk₀ sha h w) :
    Ordered key disk₀ sha (⟨.destroy, w.left ++ w.queue.map (·.2)⟩ :: h)
      { disk := (w.left ++ w.queue.map (·.2)).foldl (store key) w.disk, destroyed := true } := by
  have all : (w.left ++ w.queue.map (·.2)).filter (key · = sha) = waiting key sha w := by
    rw [List.filter_append, ordered.pending.filter sha, waiting]
  have same : writes key sha (⟨.destroy, w.left ++ w.queue.map (·.2)⟩ :: h) = writes key sha h ++ waiting key sha w := by
    rw [writes, all]
  have told : notes key sha (⟨.destroy, w.left ++ w.queue.map (·.2)⟩ :: h) = notes key sha h := notes_quiet rfl _
  refine ⟨⟨.nil, nofun⟩, fun _ => rfl, ?_, ?_, ?_⟩
  · rw [same, told]
    simpa [waiting] using ordered.order
  · rw [same, told]
    simpa [waiting] using ordered.newest
  · rw [lookup_stored, all, ordered.disk, same, List.getLast?_append, Option.or_assoc]

theorem Ordered.step (ordered : Ordered key disk₀ sha h w) (e : Event α) :
    Ordered key disk₀ sha (⟨e, (w.step key e).2⟩ :: h) (w.step key e).1 := by
  cases e with
  | note p => exact ordered.note p
  | write =>
    cases next : w.left with
    | nil =>
      have idle : w.step key .write = (w, []) := by simp only [Writer.step, next]
      rw [idle]
      exact ordered.quiet rfl
    | cons p left =>
      have one : w.step key .write = ({ w with left, disk := store key w.disk p }, [p]) := by simp only [Writer.step, next]
      rw [one]
      exact ordered.write next
  | done =>
    unfold Writer.step
    dsimp only
    split
    case h_1 last =>
      have kept := ordered.quiet (e := .done) rfl
      exact ⟨kept.pending, fun _ => last, kept.order, kept.newest, kept.disk⟩
    · exact ordered.quiet rfl
  | poll =>
    unfold Writer.step
    dsimp only
    split
    case h_1 ready =>
      have kept := ordered.quiet (e := .poll) rfl
      have nothing : w.left = [] := ordered.idle fun batch running => by rw [ready] at running; cases running
      have polled : Ordered key disk₀ sha (⟨.poll, []⟩ :: h) { w with job := .none } :=
        ⟨kept.pending, fun _ => nothing, kept.order, kept.newest, kept.disk⟩
      exact polled.launch
    · exact ordered.quiet rfl
  | destroy => exact ordered.destroy

theorem launch_destroyed (w : Writer α) : w.launch.destroyed = w.destroyed := by
  unfold launch
  split
  · rfl
  · rfl

theorem step_destroyed {e : Event α} (other : e ≠ .destroy) : (w.step key e).1.destroyed = w.destroyed := by
  cases e with
  | note p => exact launch_destroyed _
  | write =>
    unfold Writer.step
    dsimp only
    split
    · rfl
    · rfl
  | done =>
    unfold Writer.step
    dsimp only
    split
    · rfl
    · rfl
  | poll =>
    unfold Writer.step
    dsimp only
    split
    · exact launch_destroyed _
    · rfl
  | destroy => exact absurd rfl other

/-- The destructor leaves nothing to write. -/
theorem step_rests (alive : w.destroyed = false) (e : Event α) (destroyed : (w.step key e).1.destroyed = true) :
    (w.step key e).1.left = [] ∧ (w.step key e).1.queue = [] := by
  by_cases last : e = .destroy
  · subst last
    exact ⟨rfl, rfl⟩
  · rw [step_destroyed last, alive] at destroyed
    cases destroyed

/-- Over every interleaving of notes, of the writer thread, of polls and of the destructor: an artifact's records reach the
disk in the order they were noted, each at most once, the last one written is the one on disk, and after the destructor that
is the last one noted. -/
theorem progress_newest {w : Writer α} (run : RunIf (Writer.step key) (fun _ w _ => w.destroyed = false) { disk := disk₀ } h w)
    (sha : String) :
    (writes key sha h).Sublist (notes key sha h) ∧ w.disk.lookup sha = (writes key sha h).getLast?.or (disk₀.lookup sha) ∧
      (w.destroyed = true → w.disk.lookup sha = (notes key sha h).getLast?.or (disk₀.lookup sha)) := by
  have ordered : Ordered key disk₀ sha h w := by
    refine run.invariant (Ordered key disk₀ sha) ?_ fun _ _ e ordered _ => ordered.step e
    exact ⟨⟨.nil, nofun⟩, fun _ => rfl, .slnil, rfl, rfl⟩
  have rests : w.destroyed = true → w.left = [] ∧ w.queue = [] := by
    refine run.invariant (fun _ w => w.destroyed = true → w.left = [] ∧ w.queue = []) (fun _ => ⟨rfl, rfl⟩) ?_
    exact fun _ _ e _ alive => step_rests alive e
  refine ⟨(List.sublist_append_left _ _).trans ordered.order, ordered.disk, fun destroyed => ?_⟩
  have newest := ordered.newest
  rw [waiting, (rests destroyed).1, (rests destroyed).2] at newest
  rw [ordered.disk, ← newest]
  simp

/-- Two records of one artifact while the first is being written, one of another. -/
def overtaken : List (Event (String × ℕ)) :=
  [.note ("a", 1), .note ("a", 2), .note ("b", 1), .note ("a", 3), .write, .done, .poll, .write, .note ("b", 2), .destroy]

theorem overtaken_newest :
    (exec (Writer.step Prod.fst) [] ({} : Writer (String × ℕ)) overtaken).2.disk.lookup "a" = some ("a", 3) ∧
      (exec (Writer.step Prod.fst) [] ({} : Writer (String × ℕ)) overtaken).2.disk.lookup "b" = some ("b", 2) := by
  have run : RunIf (Writer.step Prod.fst) (fun _ w _ => w.destroyed = false) ({} : Writer (String × ℕ))
      (exec (Writer.step Prod.fst) [] {} overtaken).1 (exec (Writer.step Prod.fst) [] {} overtaken).2 :=
    exec_runIf overtaken (by decide +kernel) .start
  refine ⟨((progress_newest run "a").2.2 rfl).trans ?_, ((progress_newest run "b").2.2 rfl).trans ?_⟩ <;> decide +kernel

end Writer

/-! ### The node's part -/

namespace Node

open Writer

/-- The writer of a node, with what its thread has left to write and the disk. -/
def writer (n : Node) (left : List MissionProgress) (disk : List (String × MissionProgress)) : Writer MissionProgress :=
  { queue := n.progressQueue, job := n.progressJob, left, disk }

def artifactOf (p : MissionProgress) : String := p.pathArtifactSha256

/-- What the node's own thread does to the writer. -/
def Notes : Writer.Event MissionProgress → Prop
  | .note _ | .poll => True
  | _ => False

/-- The way from `n` to `m` is a sequence of notes and polls to the writer, whatever its thread and the disk are at. -/
def Follows (n m : Node) : Prop :=
  ∀ left disk, ∃ events left', (∀ e ∈ events, Notes e) ∧
    (exec (Writer.step artifactOf) [] (n.writer left disk) events).2 = m.writer left' disk

variable {n m : Node} {t : Clock}

theorem follows_same (queue : m.progressQueue = n.progressQueue) (job : m.progressJob = n.progressJob) : Follows n m := by
  intro left disk
  refine ⟨[], left, nofun, ?_⟩
  simp only [exec, writer, queue, job]

theorem Follows.trans {k : Node} (first : Follows n m) (second : Follows m k) : Follows n k := by
  intro left disk
  obtain ⟨events, left', notes, reached⟩ := first left disk
  obtain ⟨later, left'', notes', reached'⟩ := second left' disk
  refine ⟨events ++ later, left'', ?_, by rw [exec_append, reached, reached']⟩
  intro e member
  rcases List.mem_append.mp member with early | late
  · exact notes e early
  · exact notes' e late

/-- Launching the job is the writer's own launch. -/
theorem launch_writer (n : Node) (left : List MissionProgress) (disk : List (String × MissionProgress)) :
    ∃ left', (n.writer left disk).launch = n.launchProgressJob.writer left' disk := by
  by_cases waits : (n.progressJob.valid || n.progressQueue.isEmpty) = true
  · have kept : (n.writer left disk).launch = n.writer left disk := if_pos waits
    have same : n.launchProgressJob = n := if_pos waits
    exact ⟨left, by rw [kept, same]⟩
  · have launched : (n.writer left disk).launch = { n.writer left disk with
        queue := [], job := .running (n.progressQueue.map (·.2)), left := n.progressQueue.map (·.2) } := if_neg waits
    have same : n.launchProgressJob =
        { n with progressQueue := [], progressJob := .running (n.progressQueue.map (·.2)) } := if_neg waits
    exact ⟨n.progressQueue.map (·.2), by rw [launched, same]; rfl⟩

theorem follows_noteProgress (n : Node) (t : Clock) : Follows n (n.noteProgress t) := by
  intro left disk
  cases tracked : n.progressTracking with
  | false =>
    have idle : n.noteProgress t = n := by
      unfold noteProgress
      rw [tracked]
      rfl
    exact ⟨[], left, nofun, by rw [idle]; rfl⟩
  | true =>
    let p : MissionProgress := ⟨n.run.sourceArtifactSha256, n.fsm.missionId, n.progressRun, n.run.pointIndex, n.completed,
      n.fsm.state.text, t.utc⟩
    let queued : Node := { n with
      progressTracking := if n.fsm.terminal then false else n.progressTracking
      progress := putKey p.pathArtifactSha256 p n.progress
      progressQueue := putKey p.pathArtifactSha256 p n.progressQueue }
    have noted : n.noteProgress t = queued.launchProgressJob := by
      unfold noteProgress
      rw [if_neg (by simp [tracked])]
    obtain ⟨left', launched⟩ := launch_writer queued left disk
    refine ⟨[.note p], left', by simp [Notes], ?_⟩
    rw [noted, ← launched]
    rfl

theorem follows_pollProgress (n : Node) : Follows n n.pollProgress := by
  intro left disk
  refine ⟨[.poll], ?_⟩
  unfold pollProgress
  split
  case h_1 errors ready =>
    obtain ⟨left', launched⟩ := launch_writer { n with progressJob := .none } left disk
    refine ⟨left', by simp [Notes], ?_⟩
    rw [← launched]
    simp only [exec, Writer.step, writer, ready]
  case h_2 other =>
    refine ⟨left, by simp [Notes], ?_⟩
    simp only [exec, Writer.step, writer]

theorem follows_recordResolved (n : Node) (t : Clock) (evs : List PointEvent) : Follows n (n.recordResolved t evs) := by
  unfold recordResolved
  split
  · exact follows_same rfl rfl
  · refine .trans ?_ (follows_noteProgress _ t)
    exact follows_same rfl rfl

theorem follows_fire (n : Node) (t : Clock) (c : MissionFsm.Call) : Follows n (n.fire t c) := by
  rcases fire_cases n t c with ⟨same, _⟩ | ⟨_, m, closed, same⟩
  · exact follows_same same.queue same.job
  · exact follows_same (same.queue.trans closed.queue) (same.job.trans closed.job)

theorem Act.follows {hypot : Flt → Flt → Flt} (act : Act hypot t n m) : Follows n m := by
  cases act with
  | same same => exact follows_same same.queue same.job
  | fire c => exact follows_fire n t c
  | note => exact follows_noteProgress n t
  | poll => exact follows_pollProgress n
  | verified a => exact (follows_same rfl rfl).trans (follows_fire (n.loaded a) t _)
  | @placed r j => exact (follows_same rfl rfl).trans (follows_fire (n.journaled r j) t _)
  | unplaced => exact follows_same rfl rfl
  | track v =>
    unfold trackPoints
    split
    · split
      · dsimp only
        rw [publishPoints_eq]
        refine .trans ?_ (follows_recordResolved _ t _)
        exact follows_same rfl rfl
      · exact follows_same rfl rfl
    · exact follows_same rfl rfl
  | skip =>
    unfold skipPoint
    split
    · exact follows_same rfl rfl
    · split
      · exact follows_same rfl rfl
      · refine .trans ?_ (follows_recordResolved _ t _)
        exact follows_same rfl rfl

theorem Acts.follows {hypot : Flt → Flt → Flt} (acts : Acts hypot t n m) : Follows n m :=
  acts.keeps (Follows n) (fun _ _ act follows => follows.trans act.follows) (follows_same rfl rfl)

/-- Every callback of the node is, to the writer, a sequence of notes and polls; only the job's own end is not. -/
theorem handle_follows (hypot : Flt → Flt → Flt) (n : Node) (t : Clock) (e : Event)
    (other : ∀ errors, e ≠ .progressDone errors) : Follows n (handle hypot n t e).1 := by
  by_cases place : ∃ r, e = .placeDone r
  · obtain ⟨r, rfl⟩ := place
    exact follows_same rfl rfl
  by_cases new : ∃ o, (handle hypot n t e).2 = .start o ∧ begins o = true
  · obtain ⟨o, answer, new⟩ := new
    cases e with
    | start sha requestId resume =>
      rcases beginMission_cases n t sha requestId resume with ⟨_, untouched⟩ | begun
      · have acts : Acts hypot t n (n.beginMission t sha requestId resume).1 := untouched.acts
        exact acts.follows
      · have advanced : Acts hypot t (n.begun t sha requestId resume) ((n.begun t sha requestId resume).advance t) :=
          acts_advance _
        have started : Follows n (n.begun t sha requestId resume) :=
          (follows_same rfl rfl).trans ((follows_fire (n.withRun (n.identity sha requestId resume)) t (.start true)).trans
            (follows_same rfl rfl))
        show Follows n (n.beginMission t sha requestId resume).1
        rw [begun.node]
        exact started.trans advanced.follows
    | skip =>
      simp only [handle, onSkip] at answer
      split at answer <;> cases answer
    | parameters ps =>
      simp only [handle, onParameters] at answer
      split at answer <;> cases answer
    | _ => cases answer
  · have refused : ∀ o, (handle hypot n t e).2 = .start o → begins o = false := by
      intro o answer
      by_contra yes
      exact new ⟨o, answer, by simpa using yes⟩
    exact (handle_acts n e refused (not_exists.mp place) other).follows

end Node

end Dyx3.Mission
