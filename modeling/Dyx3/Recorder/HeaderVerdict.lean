import Dyx3.Lib.Run
import Dyx3.Recorder.UlogFeed

/-!
The header verdict of a run. An observer keeps the bytes of the current stream, and what the first file of the run has to start
with; the verdict is compared with that.
-/

namespace Dyx3.Recorder

open Lib Lib.ByteReader

namespace UlogCapture

/-! ### The stream as it comes -/

def defines (m : ByteString) : Bool := isDefinition (m.getD 2 0)

/-- The messages after the file header, and what is left. -/
def streamMessages (raw : ByteString) : List ByteString := (ulog.split (raw.drop kFileHeaderLen)).1

def streamRest (raw : ByteString) : ByteString := (ulog.split (raw.drop kFileHeaderLen)).2

/-- The file header and the definitions section as far as it has come. -/
def definitionsOf (raw : ByteString) : ByteString :=
  raw.take kFileHeaderLen ++ ((streamMessages raw).takeWhile defines).flatten

/-- The first data message was reached. -/
def sectionOver (raw : ByteString) : Bool := (streamMessages raw).any fun m => !defines m

/-- Bytes that are no message cost the rest of a definitions section that is not over. -/
def intact (raw : ByteString) : Option ByteString :=
  if sectionOver raw = false ∧ ulog.front (streamRest raw) = .bad then none else some raw

theorem intact_spared {raw : ByteString} (spared : intact raw ≠ none) : intact raw = some raw := by
  rw [intact] at spared ⊢
  split
  · rename_i cut
    rw [if_pos cut] at spared
    exact absurd rfl spared
  · rfl

structure Observer where
  /-- The current stream from its file header on; none before one starts and once a part of its definitions section is missing. -/
  stream : Option ByteString := none
  running : Bool := false
  /-- The first file of the run is of the current stream. -/
  follows : Bool := false
  /-- What the first file has to start with; none when it has no whole header. -/
  due : Option ByteString := none
  deriving DecidableEq

namespace Observer

/-- A run starts with the stream so far when the cache may hold it. -/
def onOpen (opened : Bool) (o : Observer) : Observer :=
  let cached := o.stream.filter fun raw => (definitionsOf raw).length ≤ kMaxHeaderBytes
  { o with running := opened, follows := cached.isSome, due := cached.map definitionsOf }

def onClose (o : Observer) : Observer := { o with running := false }

/-- The stream after a chunk of it. -/
def grown (gap : Bool) (data : ByteString) (raw : ByteString) : Option ByteString :=
  if sectionOver raw then some raw else if gap then none else intact (raw ++ data)

/-- More of the stream. -/
def more (gap : Bool) (data : ByteString) (o : Observer) : Observer :=
  let stream := o.stream.bind (grown gap data)
  { o with stream, due := if o.follows then stream.map definitionsOf else o.due }

def onChunk (s : UlogCapture) (seq : UInt16) (fmo : UInt8) (data : ByteString) (o : Observer) : Observer :=
  if isDuplicate s.last seq || isLate s.last seq fmo data then o
  else if isStreamStart fmo data then
    let first : Bool := s.isOpen && s.files = [[]]
    { o with stream := intact data, follows := first, due := if first then (intact data).map definitionsOf else o.due }
  else o.more (isGap s.last seq fmo data) data

end Observer

inductive Call where
  | openRun
  | chunk (seq : UInt16) (fmo : UInt8) (data : ByteString)
  | close

/-- A call of the capture, which the observer sees. -/
def call (disk : Disk) (p : UlogCapture × Observer) : Call → (UlogCapture × Observer) × Bool
  | .openRun => (((p.1.openRun disk).1, p.2.onOpen (p.1.openRun disk).2), (p.1.openRun disk).2)
  | .chunk seq fmo data => (((p.1.onChunk disk seq fmo data).1, p.2.onChunk p.1 seq fmo data), (p.1.onChunk disk seq fmo data).2)
  | .close => (((p.1.close disk).1, p.2.onClose), (p.1.close disk).2)

def incompleteTexts : List String := [HeaderState.none, .lost, .tooLarge].map ulogHeaderStateName

/-- The verdict says what the first file is. -/
structure Truthful (s : UlogCapture) (o : Observer) : Prop where
  complete : s.runHeaderStatus = "complete" → ∃ due ∈ o.due, ∃ first ∈ s.files.getLast?, due <+: first
  incomplete : o.due = none → s.runHeaderStatus ∈ incompleteTexts

/-- The chunk costs no part of the definitions section that the first file of the run has begun with. -/
def Spared (p : UlogCapture × Observer) : Call → Prop
  | .chunk seq fmo data =>
    let o := p.2.onChunk p.1 seq fmo data
    o.running = true → o.follows = true → o.stream ≠ none
  | _ => True

instance decidableSpared (p : UlogCapture × Observer) : ∀ e, Decidable (Spared p e)
  | .openRun => isTrue trivial
  | .chunk seq fmo data =>
    inferInstanceAs (Decidable ((p.2.onChunk p.1 seq fmo data).running = true → (p.2.onChunk p.1 seq fmo data).follows = true →
      (p.2.onChunk p.1 seq fmo data).stream ≠ none))
  | .close => isTrue trivial

/-! ### The cache -/

namespace Cache

theorem table_keeps (m : ByteString) (c : Cache) : (c.table m).headerState = c.headerState ∧ (c.table m).header = c.header := by
  rw [table]
  split
  · exact ⟨rfl, rfl⟩
  split
  · exact ⟨rfl, rfl⟩
  split <;> exact ⟨rfl, rfl⟩

theorem keep_other {c : Cache} (other : c.headerState ≠ .definitions) (m : ByteString) :
    (c.keep m).headerState = c.headerState ∧ (c.keep m).header = c.header := by
  rw [keep, if_neg fun defining => other defining.1, if_neg other]
  exact table_keeps m c

/-- The first message of the data section ends the definitions. -/
theorem keep_data {c : Cache} (definitions : c.headerState = .definitions) {m : ByteString} (data : ¬ defines m = true) :
    (c.keep m).headerState = .complete ∧ (c.keep m).header = c.header := by
  rw [keep, if_neg fun both => data both.2, if_pos definitions]
  exact table_keeps m _

theorem keepAll_other {c : Cache} (other : c.headerState ≠ .definitions) (ms : List ByteString) :
    (ms.foldl keep c).headerState = c.headerState ∧ (ms.foldl keep c).header = c.header := by
  induction ms generalizing c with
  | nil => exact ⟨rfl, rfl⟩
  | cons m ms ih =>
    obtain ⟨state, header⟩ := keep_other other m
    obtain ⟨later, after⟩ := ih (c := c.keep m) (by rw [state]; exact other)
    exact ⟨later.trans state, after.trans header⟩

/-- Nothing of a data section. -/
def Fresh (c : Cache) : Prop := c.headerState = .definitions → c.subs = [] ∧ c.params = []

theorem keepAll_fresh {c : Cache} (fresh : c.Fresh) (ms : List ByteString) : (ms.foldl keep c).Fresh := by
  induction ms generalizing c with
  | nil => exact fresh
  | cons m ms ih =>
    refine ih fun still => ?_
    by_cases definitions : c.headerState = .definitions
    · by_cases defining : defines m = true
      · have step : c.keep m = c.define m := if_pos ⟨definitions, defining⟩
        rw [step, define] at still ⊢
        split at still
        · cases still
        · rename_i small
          rw [if_neg small]
          exact fresh definitions
      · rw [(keep_data definitions defining).1] at still
        cases still
    · rw [(keep_other definitions m).1] at still
      exact absurd still definitions

/-- Messages after a header of the definitions section. -/
theorem keepAll_definitions {c : Cache} (definitions : c.headerState = .definitions) (within : c.header.length ≤ kMaxHeaderBytes)
    (ms : List ByteString) :
    ((c.header ++ (ms.takeWhile defines).flatten).length ≤ kMaxHeaderBytes →
      (ms.foldl keep c).header = c.header ++ (ms.takeWhile defines).flatten ∧
        (ms.foldl keep c).headerState = if ms.any fun m => !defines m then .complete else .definitions) ∧
    (kMaxHeaderBytes < (c.header ++ (ms.takeWhile defines).flatten).length → (ms.foldl keep c).headerState = .tooLarge) := by
  induction ms generalizing c with
  | nil => exact ⟨fun _ => ⟨(List.append_nil _).symm, definitions⟩, fun large => absurd large (by simpa using within)⟩
  | cons m ms ih =>
    by_cases defining : defines m = true
    · have step : c.keep m = c.define m := if_pos ⟨definitions, defining⟩
      have text : c.header ++ ((m :: ms).takeWhile defines).flatten = (c.header ++ m) ++ (ms.takeWhile defines).flatten := by
        rw [List.takeWhile_cons_of_pos defining, List.flatten_cons, List.append_assoc]
      rw [text, List.foldl_cons, step, define, List.any_cons, defining, Bool.not_true, Bool.false_or]
      by_cases large : kMaxHeaderBytes < (c.header ++ m).length
      · rw [if_pos large]
        obtain ⟨state, _⟩ := keepAll_other (c := { c with headerState := .tooLarge, header := [] }) (by simp) ms
        refine ⟨fun small => ?_, fun _ => state⟩
        rw [List.length_append] at small
        omega
      · rw [if_neg large]
        exact ih (c := { c with header := c.header ++ m }) definitions (not_lt.mp large)
    · have none : (m :: ms).takeWhile defines = [] := List.takeWhile_cons_of_neg defining
      have any : (m :: ms).any (fun m => !defines m) = true := by
        rw [List.any_cons, Bool.eq_false_iff.mpr defining]
        rfl
      have state := keep_data definitions defining
      obtain ⟨later, after⟩ := keepAll_other (c := c.keep m) (by rw [state.1]; simp) ms
      rw [none, List.flatten_nil, List.append_nil, any, List.foldl_cons, if_pos rfl]
      exact ⟨fun _ => ⟨after.trans state.2, later.trans state.1⟩, fun large => absurd large (not_lt.mpr within)⟩

end Cache

/-! ### The capture and the stream -/

theorem streamMessages_append {raw : ByteString} (header : kFileHeaderLen ≤ raw.length) (data : ByteString) :
    streamMessages (raw ++ data) = streamMessages raw ++ (ulog.split (streamRest raw ++ data)).1 ∧
      streamRest (raw ++ data) = (ulog.split (streamRest raw ++ data)).2 := by
  have parts := ulog.split_append (raw.drop kFileHeaderLen) data
  have after : (raw ++ data).drop kFileHeaderLen = raw.drop kFileHeaderLen ++ data := List.drop_append_of_le_length header
  simp only [streamMessages, streamRest, after, parts, and_self]

theorem over_append {raw : ByteString} (header : kFileHeaderLen ≤ raw.length) (going : sectionOver raw = false) (data : ByteString) :
    sectionOver (raw ++ data) = (ulog.split (streamRest raw ++ data)).1.any fun m => !defines m := by
  rw [sectionOver] at going
  rw [sectionOver, (streamMessages_append header data).1, List.any_append, going, Bool.false_or]

/-- The definitions section grows message by message. -/
theorem definitionsOf_append {raw : ByteString} (header : kFileHeaderLen ≤ raw.length) (going : sectionOver raw = false) (data : ByteString) :
    definitionsOf (raw ++ data) =
      definitionsOf raw ++ ((ulog.split (streamRest raw ++ data)).1.takeWhile defines).flatten := by
  have all : ∀ m ∈ streamMessages raw, defines m = true := by
    intro m member
    have none := List.any_eq_false.mp going m member
    simpa using none
  rw [definitionsOf, definitionsOf, (streamMessages_append header data).1, List.takeWhile_append_of_pos all,
    List.takeWhile_eq_self_iff.mpr all, List.flatten_append, List.take_append_of_le_length header, List.append_assoc]

/-- What the capture holds of a stream whose definitions section is whole so far. -/
structure Tracks (raw : ByteString) (s : UlogCapture) : Prop where
  header : kFileHeaderLen ≤ raw.length
  small : (definitionsOf raw).length ≤ kMaxHeaderBytes →
    s.header = definitionsOf raw ∧ s.headerState = if sectionOver raw then .complete else .definitions
  large : kMaxHeaderBytes < (definitionsOf raw).length → s.headerState = .tooLarge
  going : sectionOver raw = false →
    s.synced = true ∧ s.partialMsg = streamRest raw ∧ ulog.front (streamRest raw) ≠ .bad

theorem lose_other {c : Cache} (other : c.headerState ≠ .definitions) : c.lose = c := if_neg other

/-- The cache after the messages that continue a definitions section. -/
theorem fold_tracks {raw : ByteString} {s : UlogCapture} (tracks : Tracks raw s) (going : sectionOver raw = false) (data : ByteString) :
    ((definitionsOf (raw ++ data)).length ≤ kMaxHeaderBytes →
      ((ulog.split (streamRest raw ++ data)).1.foldl Cache.keep s.cache).header = definitionsOf (raw ++ data) ∧
        ((ulog.split (streamRest raw ++ data)).1.foldl Cache.keep s.cache).headerState =
          if sectionOver (raw ++ data) then .complete else .definitions) ∧
    (kMaxHeaderBytes < (definitionsOf (raw ++ data)).length →
      ((ulog.split (streamRest raw ++ data)).1.foldl Cache.keep s.cache).headerState = .tooLarge) := by
  have text := definitionsOf_append tracks.header going data
  have ended := over_append tracks.header going data
  rcases Nat.lt_or_ge kMaxHeaderBytes (definitionsOf raw).length with large | small
  · -- what was too large already stays so
    have state : s.cache.headerState = .tooLarge := tracks.large large
    have kept := (Cache.keepAll_other (c := s.cache) (by rw [state]; exact nofun) (ulog.split (streamRest raw ++ data)).1).1
    refine ⟨fun within => ?_, fun _ => kept.trans state⟩
    rw [text, List.length_append] at within
    omega
  · obtain ⟨header, state⟩ := tracks.small small
    rw [going, if_neg (by decide)] at state
    have same : s.cache.header = definitionsOf raw := header
    have folded := Cache.keepAll_definitions (c := s.cache) state (by rw [same]; exact small) (ulog.split (streamRest raw ++ data)).1
    rw [same, ← text, ← ended] at folded
    exact folded

/-- More of a definitions section that is going on. -/
theorem fed_tracks {raw data : ByteString} {s s' : UlogCapture} (tracks : Tracks raw s) (going : sectionOver raw = false)
    (fed : Fed (s.partialMsg ++ data) s s') : ∀ raw', intact (raw ++ data) = some raw' → Tracks raw' s' := by
  obtain ⟨synced, kept, _⟩ := tracks.going going
  intro raw' whole
  rw [intact] at whole
  split at whole
  · cases whole
  rename_i spared
  obtain rfl := Option.some.inj whole
  rw [not_and] at spared
  have rest := (streamMessages_append tracks.header data).2
  obtain ⟨small, large⟩ := fold_tracks tracks going data
  have good := fed.good
  have bad := fed.bad
  rw [kept, ← rest] at good bad
  have longer : kFileHeaderLen ≤ (raw ++ data).length := by
    rw [List.length_append]
    exact le_trans tracks.header (Nat.le_add_right _ _)
  by_cases front : ulog.front (streamRest (raw ++ data)) = .bad
  · -- the section is over, and the bytes that are no message come after it
    have ended : sectionOver (raw ++ data) = true := by
      by_contra still
      exact spared (Bool.eq_false_iff.mpr still) front
    have cache := (bad front).1
    have other : ((ulog.split (streamRest raw ++ data)).1.foldl Cache.keep s.cache).headerState ≠ .definitions := by
      rcases Nat.lt_or_ge kMaxHeaderBytes (definitionsOf (raw ++ data)).length with beyond | within
      · rw [large beyond]
        exact nofun
      · rw [(small within).2, if_pos ended]
        exact nofun
    rw [lose_other other] at cache
    have header : s'.header = _ := congrArg Cache.header cache
    have state : s'.headerState = _ := congrArg Cache.headerState cache
    refine ⟨longer, fun within => ?_, fun beyond => state.trans (large beyond), fun still => ?_⟩
    · exact ⟨header.trans (small within).1, state.trans (small within).2⟩
    · rw [ended] at still
      cases still
  · obtain ⟨cache, still, partialMsg⟩ := good front
    have header : s'.header = _ := congrArg Cache.header cache
    have state : s'.headerState = _ := congrArg Cache.headerState cache
    refine ⟨longer, fun within => ?_, fun beyond => state.trans (large beyond), fun _ => ⟨still.trans synced, partialMsg, front⟩⟩
    exact ⟨header.trans (small within).1, state.trans (small within).2⟩

/-- A part of the section is missing: what comes cannot make it up. -/
theorem fed_lost {raw data : ByteString} {s s' : UlogCapture} (tracks : Tracks raw s) (going : sectionOver raw = false)
    (fed : Fed (s.partialMsg ++ data) s s') (cut : intact (raw ++ data) = none) :
    s'.headerState ≠ .definitions ∧ s'.headerState ≠ .complete := by
  obtain ⟨_, kept, _⟩ := tracks.going going
  rw [intact] at cut
  split at cut
  · rename_i lost
    have rest := (streamMessages_append tracks.header data).2
    obtain ⟨small, large⟩ := fold_tracks tracks going data
    have bad := fed.bad
    rw [kept, ← rest] at bad
    have state : s'.headerState = _ := congrArg Cache.headerState (bad lost.2).1
    rw [state, Cache.lose]
    rcases Nat.lt_or_ge kMaxHeaderBytes (definitionsOf (raw ++ data)).length with beyond | within
    · rw [if_neg (by rw [large beyond]; exact nofun), large beyond]
      exact ⟨nofun, nofun⟩
    · have definitions := (small within).2
      rw [lost.1, if_neg (by decide)] at definitions
      rw [if_pos definitions]
      exact ⟨nofun, nofun⟩
  · cases cut

/-- Outside of a definitions section nothing that comes changes the header. -/
theorem fed_other {buffer : ByteString} {s s' : UlogCapture} (other : s.headerState ≠ .definitions) (fed : Fed buffer s s') :
    s'.headerState = s.headerState ∧ s'.header = s.header := by
  obtain ⟨state, header⟩ := Cache.keepAll_other (c := s.cache) other (ulog.split buffer).1
  by_cases bad : ulog.front (ulog.split buffer).2 = .bad
  · have cache := (fed.bad bad).1
    rw [lose_other (by rw [state]; exact other)] at cache
    exact ⟨(congrArg Cache.headerState cache).trans state, (congrArg Cache.header cache).trans header⟩
  · have cache := (fed.good bad).1
    exact ⟨(congrArg Cache.headerState cache).trans state, (congrArg Cache.header cache).trans header⟩

theorem fed_fresh {buffer : ByteString} {s s' : UlogCapture} (fresh : s.cache.Fresh) (fed : Fed buffer s s') : s'.cache.Fresh := by
  have folded := Cache.keepAll_fresh fresh (ulog.split buffer).1
  by_cases bad : ulog.front (ulog.split buffer).2 = .bad
  · rw [(fed.bad bad).1, Cache.lose]
    split
    · exact fun still => nomatch still
    · exact folded
  · rw [(fed.good bad).1]
    exact folded

/-! ### The files of the run -/

/-- The first file has begun with the header of the current stream. -/
def Follows (s : UlogCapture) (o : Observer) : Prop :=
  ∃ raw first, o.stream = some raw ∧ o.due = some (definitionsOf raw) ∧ s.isOpen = true ∧ s.runHeaderStatus = "complete" ∧
    s.files = [first] ∧ definitionsOf raw <+: first ∧ (sectionOver raw = false → first = definitionsOf raw)

/-- The first file has the header of a stream that has ended, or none. -/
structure Past (s : UlogCapture) (o : Observer) : Prop where
  whole : ∀ due, o.due = some due →
    s.runHeaderStatus = "complete" ∧ (∃ first ∈ s.files.getLast?, due <+: first) ∧ (s.isOpen = true → 2 ≤ s.files.length)
  none : o.due = none → s.runHeaderStatus ∈ incompleteTexts

/-- The newest file has the bytes that were counted; only the first may be empty. -/
def Newest (s : UlogCapture) : Prop :=
  s.isOpen = true → ∃ newest others, s.files = newest :: others ∧ newest.length = s.fileBytes ∧ (others ≠ [] → 0 < s.fileBytes)

structure Inv (s : UlogCapture) (o : Observer) : Prop where
  tracked : ∀ raw, o.stream = some raw → Tracks raw s
  untracked : o.stream = none → s.headerState ≠ .definitions ∧ s.headerState ≠ .complete
  fresh : s.cache.Fresh
  running : s.isOpen = true → o.running = true
  newest : Newest s
  follows : o.running = true → o.follows = true → Follows s o
  past : o.running = true → o.follows = false → Past s o

theorem Newest.put {p : ByteString} {s s' : UlogCapture} (newest : Newest s) (put : Put p s s') : Newest s' := by
  intro isOpen
  rw [put.isOpen] at isOpen
  obtain ⟨file, others, files, length, counted⟩ := newest isOpen
  refine ⟨file ++ p, others, ?_, ?_, fun some => ?_⟩
  · rw [put.files, if_pos isOpen, files, appended]
  · rw [put.fileBytes, if_pos isOpen, List.length_append, length]
  · rw [put.fileBytes, if_pos isOpen]
    exact Nat.add_pos_left (counted some) _

/-- What the first file has begun with stays. -/
theorem Past.put {p : ByteString} {s s' : UlogCapture} {o o' : Observer} (past : Past s o) (put : Put p s s') (due : o'.due = o.due) :
    Past s' o' := by
  refine ⟨fun text some => ?_, fun none => ?_⟩
  · obtain ⟨status, first, two⟩ := past.whole text (due ▸ some)
    rw [put.status, put.isOpen, put.files]
    refine ⟨status, ?_, fun isOpen => ?_⟩
    · split
      · rename_i isOpen
        have many := two isOpen
        cases files : s.files with
        | nil => simp [files] at many
        | cons file others =>
          cases others with
          | nil => simp [files] at many
          | cons other others =>
            rw [files] at first
            rw [appended, List.getLast?_cons_cons]
            rw [List.getLast?_cons_cons] at first
            exact first
      · exact first
    · rw [if_pos isOpen]
      have many := two isOpen
      cases files : s.files with
      | nil => simp [files] at many
      | cons file others =>
        rw [files] at many
        exact many
  · rw [put.status]
    exact past.none (due ▸ none)

theorem takeWhile_front (q : ByteString → Bool) (ms : List ByteString) : (ms.takeWhile q).flatten <+: ms.flatten := by
  conv_rhs => rw [← List.takeWhile_append_dropWhile (p := q) (l := ms), List.flatten_append]
  exact List.prefix_append _ _

/-- The file grows with its stream. -/
theorem Follows.grow {raw data first : ByteString} {s s' : UlogCapture} (tracks : Tracks raw s) (going : sectionOver raw = false)
    (fed : Fed (s.partialMsg ++ data) s s') (isOpen : s.isOpen = true) (status : s.runHeaderStatus = "complete")
    (files : s.files = [first]) (exactly : first = definitionsOf raw) {o : Observer} (stream : o.stream = some (raw ++ data))
    (due : o.due = some (definitionsOf (raw ++ data))) : Follows s' o := by
  obtain ⟨_, kept, _⟩ := tracks.going going
  have text := definitionsOf_append tracks.header going data
  have ended := over_append tracks.header going data
  have file := fed.files
  rw [if_pos isOpen, files, appended, kept] at file
  refine ⟨raw ++ data, _, stream, due, fed.isOpen.trans isOpen, fed.status.trans status, file, ?_, fun still => ?_⟩
  · rw [text, exactly]
    exact (List.prefix_append_right_inj _).mpr (takeWhile_front _ _)
  · have all : ∀ m ∈ (ulog.split (streamRest raw ++ data)).1, defines m = true := by
      intro m member
      rw [ended] at still
      simpa using List.any_eq_false.mp still m member
    rw [text, exactly, List.takeWhile_eq_self_iff.mpr all]

/-- After the section nothing is due any more. -/
theorem Follows.stay {p : ByteString} {s s' : UlogCapture} {o o' : Observer} (follows : Follows s o) (put : Put p s s')
    (ended : ∀ raw, o.stream = some raw → sectionOver raw = true) (stream : o'.stream = o.stream) (due : o'.due = o.due) : Follows s' o' := by
  obtain ⟨raw, first, here, text, isOpen, status, files, front, _⟩ := follows
  have file := put.files
  rw [if_pos isOpen, files, appended] at file
  refine ⟨raw, first ++ p, stream.trans here, due.trans text, put.isOpen.trans isOpen, put.status.trans status, file,
    front.trans (List.prefix_append _ _), fun still => ?_⟩
  rw [ended raw here] at still
  cases still

/-! ### The calls -/

theorem tracks_of {raw : ByteString} {s s' : UlogCapture} (tracks : Tracks raw s) (cache : s'.cache = s.cache)
    (synced : s'.synced = s.synced) (partialMsg : s'.partialMsg = s.partialMsg) : Tracks raw s' := by
  have state : s'.headerState = s.headerState := congrArg Cache.headerState cache
  have header : s'.header = s.header := congrArg Cache.header cache
  refine ⟨tracks.header, ?_, ?_, ?_⟩
  · rw [state, header]
    exact tracks.small
  · rw [state]
    exact tracks.large
  · rw [synced, partialMsg]
    exact tracks.going

theorem incomplete_mem {state : HeaderState} (definitions : state ≠ .definitions) (complete : state ≠ .complete) :
    ulogHeaderStateName state ∈ incompleteTexts := by
  cases state with
  | definitions => exact absurd rfl definitions
  | complete => exact absurd rfl complete
  | none => exact List.mem_cons_self
  | lost => exact List.mem_cons_of_mem _ List.mem_cons_self
  | tooLarge => exact List.mem_cons_of_mem _ (List.mem_cons_of_mem _ List.mem_cons_self)

section

variable {disk : Disk} {s : UlogCapture} {o : Observer} (inv : Inv s o)

include inv

theorem inv_close : Inv (s.close disk).1 o.onClose := by
  rw [close]
  split
  · exact ⟨fun raw stream => tracks_of (inv.tracked raw stream) rfl rfl rfl, inv.untracked, inv.fresh, nofun, nofun, nofun, nofun⟩
  · rename_i shut
    exact ⟨inv.tracked, inv.untracked, inv.fresh, fun isOpen => absurd isOpen shut, inv.newest, nofun, nofun⟩

variable (works : ∀ i, disk.takes i = none)

include works

theorem inv_openRun : Inv (s.openRun disk).1 (o.onOpen (s.openRun disk).2) := by
  obtain ⟨t, made⟩ : ∃ t : UlogCapture, t = ({ (s.close disk).1 with
    files := [], bytes := 0, chunks := 0, duplicates := 0, outOfOrder := 0, parseErrors := 0, segments := 0,
    writeFailed := false, gaps := [] } : UlogCapture).openFile disk := ⟨_, rfl⟩
  have kept : t.cache = s.cache ∧ t.synced = s.synced ∧ t.partialMsg = s.partialMsg := by
    rw [made, openFile, close]
    split <;> split <;> exact ⟨rfl, rfl, rfl⟩
  have opened : t.isOpen = true → t.files = [[]] ∧ t.fileBytes = 0 := by
    rw [made, openFile]
    split
    · exact fun _ => ⟨rfl, rfl⟩
    · exact nofun
  obtain ⟨cache, synced, partialMsg⟩ := kept
  have state : t.headerState = s.headerState := congrArg Cache.headerState cache
  have tracked : ∀ raw, o.stream = some raw → Tracks raw t := fun raw stream =>
    tracks_of (inv.tracked raw stream) cache synced partialMsg
  have untracked : o.stream = none → t.headerState ≠ .definitions ∧ t.headerState ≠ .complete := by
    rw [state]
    exact inv.untracked
  have fresh : t.cache.Fresh := by
    rw [cache]
    exact inv.fresh
  rw [openRun, ← made]
  clear made
  split
  · rename_i shut
    rw [Bool.not_eq_true'] at shut
    have closed : ∀ status : String, ({ t with runHeaderStatus := status } : UlogCapture).isOpen = true → False := fun _ isOpen => by
      rw [shut] at isOpen
      cases isOpen
    exact ⟨fun raw stream => tracks_of (tracked raw stream) rfl rfl rfl, untracked, fresh, fun isOpen => (closed _ isOpen).elim,
      fun isOpen => (closed _ isOpen).elim, nofun, nofun⟩
  rename_i isOpen
  rw [Bool.not_eq_true', Bool.not_eq_false] at isOpen
  obtain ⟨files, bytes⟩ := opened isOpen
  split
  · rename_i cached
    have wrote := writeCachedHeader_wrote works t
    have file := wrote.files
    rw [if_pos isOpen, files] at file
    cases stream : o.stream with
    | none =>
      obtain ⟨definitions, complete⟩ := untracked stream
      rcases cached with same | same
      · exact absurd same complete
      · exact absurd same definitions
    | some raw =>
      have tracks := tracked raw stream
      have small : (definitionsOf raw).length ≤ kMaxHeaderBytes := by
        by_contra large
        have tooLarge := tracks.large (not_le.mp large)
        rw [tooLarge] at cached
        rcases cached with ⟨⟨⟩⟩ | ⟨⟨⟩⟩
      obtain ⟨header, headerState⟩ := tracks.small small
      have observed : o.onOpen true =
          { o with running := true, follows := true, due := some (definitionsOf raw) } := by
        rw [Observer.onOpen, stream, Option.filter_some, if_pos (decide_eq_true small)]
        rfl
      have newest : Newest t := fun _ => ⟨[], [], files, bytes.symm, nofun⟩
      have front : definitionsOf raw <+: t.cache.text := by
        rw [Cache.text, List.append_assoc, show t.cache.header = definitionsOf raw from header]
        exact List.prefix_append _ _
      dsimp only
      rw [observed]
      refine ⟨fun raw' same => ?_, fun none => ?_, ?_, fun _ => rfl, ?_, fun _ _ => ?_, nofun⟩
      · exact tracks_of (tracked raw' same) wrote.cache wrote.synced wrote.partialMsg
      · exact absurd (stream.symm.trans none) nofun
      · have same : (t.writeCachedHeader disk).cache.Fresh := by
          rw [wrote.cache]
          exact fresh
        exact same
      · have later : Newest (t.writeCachedHeader disk) := newest.put wrote.toPut
        exact later
      · refine ⟨raw, t.cache.text, stream, rfl, wrote.isOpen.trans isOpen, rfl, file, front, fun going => ?_⟩
        -- there is nothing but definitions in the cache yet
        rw [going, if_neg (by decide)] at headerState
        obtain ⟨subs, params⟩ := fresh headerState
        rw [Cache.text, subs, params, show t.cache.header = definitionsOf raw from header]
        simp
  · rename_i uncached
    rw [not_or] at uncached
    have none : (o.stream.filter fun raw => (definitionsOf raw).length ≤ kMaxHeaderBytes) = none := by
      cases stream : o.stream with
      | none => rfl
      | some raw =>
        rw [Option.filter_some, if_neg]
        intro small
        have headerState := ((tracked raw stream).small (of_decide_eq_true small)).2
        split at headerState
        · exact uncached.1 headerState
        · exact uncached.2 headerState
    have observed : o.onOpen true = { o with running := true, follows := false, due := Option.none } := by
      rw [Observer.onOpen, none]
      rfl
    dsimp only
    rw [observed]
    refine ⟨fun raw stream => tracks_of (tracked raw stream) rfl rfl rfl, untracked, fresh, fun _ => rfl,
      fun _ => ⟨[], [], files, bytes.symm, nofun⟩, nofun, fun _ _ => ⟨nofun, fun _ => ?_⟩⟩
    exact incomplete_mem uncached.2 uncached.1

end

/-- Outside of a definitions section, more bytes change no part of it. -/
theorem Inv.pass {p : ByteString} {s s' : UlogCapture} {o : Observer} (inv : Inv s o)
    (ended : ∀ raw, o.stream = some raw → sectionOver raw = true) (put : Put p s s') (state : s'.headerState = s.headerState)
    (header : s'.header = s.header) (fresh : s'.cache.Fresh) (gap : Bool) (data : ByteString) : Inv s' (o.more gap data) := by
  have stream : o.stream.bind (Observer.grown gap data) = o.stream := by
    cases here : o.stream with
    | none => rfl
    | some raw => rw [Option.bind_some, Observer.grown, if_pos (ended raw here)]
  rw [Observer.more, stream]
  refine ⟨fun raw here => ?_, fun none => ?_, fresh, fun isOpen => inv.running (put.isOpen ▸ isOpen), inv.newest.put put,
    fun running follows => ?_, fun running follows => ?_⟩
  · have tracks := inv.tracked raw here
    refine ⟨tracks.header, fun small => ?_, fun large => state.trans (tracks.large large), fun going => ?_⟩
    · exact ⟨header.trans (tracks.small small).1, state.trans (tracks.small small).2⟩
    · rw [ended raw here] at going
      cases going
  · rw [state]
    exact inv.untracked none
  · have before := inv.follows running follows
    have due : (if o.follows = true then o.stream.map definitionsOf else o.due) = o.due := by
      obtain ⟨raw, _, here, text, _⟩ := before
      rw [if_pos follows, here, text]
      rfl
    exact before.stay put ended rfl due
  · exact (inv.past running follows).put put (if_neg (by rw [show o.follows = false from follows]; decide))

/-- More of a definitions section that is going on. -/
theorem Inv.grow {s s' : UlogCapture} {o : Observer} (inv : Inv s o) {raw data : ByteString} (stream : o.stream = some raw)
    (going : sectionOver raw = false) (fed : Fed (s.partialMsg ++ data) s s')
    (spared : o.running = true → o.follows = true → (o.more false data).stream ≠ none) : Inv s' (o.more false data) := by
  have tracks := inv.tracked raw stream
  have next : o.stream.bind (Observer.grown false data) = intact (raw ++ data) := by
    rw [stream, Option.bind_some, Observer.grown, going, if_neg (by decide), if_neg (by decide)]
  rw [Observer.more] at spared ⊢
  rw [next]
  refine ⟨fed_tracks tracks going fed, fed_lost tracks going fed, fed_fresh inv.fresh fed,
    fun isOpen => inv.running (fed.isOpen ▸ isOpen), inv.newest.put fed.toPut, fun running follows => ?_, fun running follows => ?_⟩
  · obtain ⟨raw', first, here, _, isOpen, status, files, _, exactly⟩ := inv.follows running follows
    obtain rfl : raw' = raw := Option.some.inj (here.symm.trans stream)
    have spared := spared running follows
    dsimp only at spared
    rw [next] at spared
    have whole := intact_spared spared
    refine Follows.grow tracks going fed isOpen status files (exactly going) whole ?_
    rw [if_pos follows, whole]
    rfl
  · exact (inv.past running follows).put fed.toPut (if_neg (by rw [show o.follows = false from follows]; decide))

/-- When no definitions section is going on, the cache is not in one. -/
theorem Inv.outside {s : UlogCapture} {o : Observer} (inv : Inv s o) (ended : ∀ raw, o.stream = some raw → sectionOver raw = true) :
    s.headerState ≠ .definitions := by
  cases here : o.stream with
  | none => exact (inv.untracked here).1
  | some raw =>
    have tracks := inv.tracked raw here
    rcases Nat.lt_or_ge kMaxHeaderBytes (definitionsOf raw).length with large | small
    · rw [tracks.large large]
      exact nofun
    · rw [(tracks.small small).2, ended raw here, if_pos rfl]
      exact nofun

/-- Missing chunks cost a definitions section that is going on, and the message in progress. -/
theorem Inv.gap {s s' : UlogCapture} {o : Observer} (inv : Inv s o) (cache : s'.cache = s.cache.lose) (put : Put [] s s')
    (data : ByteString) (spared : o.running = true → o.follows = true → (o.more true data).stream ≠ none) :
    Inv s' (o.more true data) := by
  by_cases ended : ∀ raw, o.stream = some raw → sectionOver raw = true
  · have other : s.cache.headerState ≠ .definitions := inv.outside ended
    rw [lose_other other] at cache
    have fresh : s'.cache.Fresh := by
      rw [cache]
      exact inv.fresh
    exact inv.pass ended put (congrArg Cache.headerState cache) (congrArg Cache.header cache) fresh true data
  · push Not at ended
    obtain ⟨raw, here, going⟩ := ended
    rw [ne_eq, Bool.not_eq_true] at going
    have tracks := inv.tracked raw here
    have next : o.stream.bind (Observer.grown true data) = none := by
      rw [here, Option.bind_some, Observer.grown, going]
      rfl
    have state : s'.headerState = s.cache.lose.headerState := congrArg Cache.headerState cache
    rw [Observer.more] at spared ⊢
    rw [next] at spared ⊢
    refine ⟨nofun, fun _ => ?_, ?_, fun isOpen => inv.running (put.isOpen ▸ isOpen), inv.newest.put put,
      fun running follows => absurd rfl (spared running follows), fun running follows => ?_⟩
    · rw [state, Cache.lose]
      rcases Nat.lt_or_ge kMaxHeaderBytes (definitionsOf raw).length with large | small
      · have tooLarge : s.cache.headerState = .tooLarge := tracks.large large
        rw [if_neg (by rw [tooLarge]; exact nofun), tooLarge]
        exact ⟨nofun, nofun⟩
      · have definitions := (tracks.small small).2
        rw [going, if_neg (by decide)] at definitions
        rw [if_pos (show s.cache.headerState = .definitions from definitions)]
        exact ⟨nofun, nofun⟩
    · rw [cache, Cache.lose]
      split
      · exact fun still => nomatch still
      · exact inv.fresh
    · exact (inv.past running follows).put put (if_neg (by rw [show o.follows = false from follows]; decide))

/-- The counters and the sequence number do not matter. -/
theorem Inv.counted {s : UlogCapture} {o : Observer} (inv : Inv s o) (last : Option UInt16) (chunks duplicates outOfOrder : ℕ)
    (gaps : List UlogGap) : Inv { s with last, chunks, duplicates, outOfOrder, gaps } o :=
  ⟨fun raw stream => tracks_of (inv.tracked raw stream) rfl rfl rfl, inv.untracked, inv.fresh, inv.running, inv.newest, inv.follows,
    fun running follows => ⟨(inv.past running follows).whole, (inv.past running follows).none⟩⟩

theorem gapBefore_lost (s : UlogCapture) (seq : UInt16) (fmo : UInt8) {data : ByteString} (gap : isGap s.last seq fmo data = true) :
    Put [] s (s.gapBefore seq fmo) ∧ (s.gapBefore seq fmo).cache = s.cache.lose := by
  rw [gapBefore]
  cases last : s.last with
  | none =>
    rw [last] at gap
    cases gap
  | some before =>
    dsimp only
    refine ⟨⟨by rw [appended_nil, ite_self], by simp, rfl, last.symm, rfl⟩, ?_⟩
    by_cases definitions : s.headerState = .definitions
    · rw [Cache.lose, if_pos (show s.cache.headerState = .definitions from definitions)]
      simp only [cache, if_pos definitions]
    · rw [Cache.lose, if_neg (show ¬s.cache.headerState = .definitions from definitions)]
      simp only [cache, if_neg definitions]

/-- What is lost in front of a chunk is lost before the chunk is read. -/
theorem Observer.more_lost (data : ByteString) (o : Observer) : (o.more true data).more false data = o.more true data := by
  have stream : (o.stream.bind (grown true data)).bind (grown false data) = o.stream.bind (grown true data) := by
    cases o.stream with
    | none => rfl
    | some raw =>
      rw [Option.bind_some, grown]
      split
      · rename_i ended
        rw [Option.bind_some, grown, if_pos ended]
      · rfl
  simp only [more, stream]
  cases o.follows <;> rfl

section

variable {disk : Disk} (works : ∀ i, disk.takes i = none)

include works

/-- The rest of a chunk that starts no stream: skipped, taken from a message on, or taken whole. -/
theorem Inv.receive {s : UlogCapture} {o : Observer} (inv : Inv s o) {seq : UInt16} {fmo : UInt8} {data : ByteString}
    (other : isStreamStart fmo data = false)
    (spared : o.running = true → o.follows = true → (o.more false data).stream ≠ none) :
    Inv (s.receive disk seq fmo data) (o.more false data) := by
  have heard := inv.counted (some seq) (if s.isOpen then s.chunks + 1 else s.chunks) s.duplicates s.outOfOrder s.gaps
  rw [UlogCapture.receive, other]
  generalize ({ s with last := some seq, chunks := if s.isOpen then s.chunks + 1 else s.chunks } : UlogCapture) = t at heard ⊢
  rw [if_neg (by decide)]
  split
  · rename_i lost
    rw [Bool.not_eq_true'] at lost
    have ended : ∀ raw, o.stream = some raw → sectionOver raw = true := by
      intro raw here
      by_contra going
      rw [((heard.tracked raw here).going (Bool.eq_false_iff.mpr going)).1] at lost
      cases lost
    have outside := heard.outside ended
    split
    · exact heard.pass ended (.refl t) rfl rfl heard.fresh false data
    · have fed := feed_fed works (data.drop fmo.toNat) { t with synced := true, partialMsg := [] }
      have still : ({ t with synced := true, partialMsg := [] } : UlogCapture).headerState ≠ .definitions := outside
      have fresh : ({ t with synced := true, partialMsg := [] } : UlogCapture).cache.Fresh := heard.fresh
      obtain ⟨state, header⟩ := fed_other still fed
      exact heard.pass ended ⟨fed.files, fed.fileBytes, fed.isOpen, fed.last, fed.status⟩ state header (fed_fresh fresh fed) false data
  · have fed := feed_fed works data t
    by_cases ended : ∀ raw, o.stream = some raw → sectionOver raw = true
    · obtain ⟨state, header⟩ := fed_other (heard.outside ended) fed
      exact heard.pass ended fed.toPut state header (fed_fresh heard.fresh fed) false data
    · push Not at ended
      obtain ⟨raw, here, going⟩ := ended
      rw [ne_eq, Bool.not_eq_true] at going
      exact heard.grow here going fed spared

omit works in
/-- The next file of a run, or none. -/
theorem nextFile {t : UlogCapture} (isOpen : t.isOpen = true) :
    ((t.close disk).1.openFile disk).cache = t.cache ∧ ((t.close disk).1.openFile disk).synced = t.synced ∧
      ((t.close disk).1.openFile disk).partialMsg = t.partialMsg ∧
      ((t.close disk).1.openFile disk).runHeaderStatus = t.runHeaderStatus ∧
      (((t.close disk).1.openFile disk).isOpen = true ∧ ((t.close disk).1.openFile disk).files = [] :: t.files ∧
          ((t.close disk).1.openFile disk).fileBytes = 0 ∨
        ((t.close disk).1.openFile disk).isOpen = false ∧ ((t.close disk).1.openFile disk).files = t.files) := by
  rw [close, if_pos isOpen, openFile]
  split
  · exact ⟨rfl, rfl, rfl, rfl, .inl ⟨rfl, rfl, rfl⟩⟩
  · exact ⟨rfl, rfl, rfl, rfl, .inr ⟨rfl, rfl⟩⟩

/-- What a stream start leaves: the header in an empty file, in the next file, or in none. -/
inductive Started (h : ByteString) (s s' : UlogCapture) : Prop
  | here : s.isOpen = true → s.fileBytes = 0 → s'.isOpen = true → s'.files = appended h s.files → s'.fileBytes = h.length →
    s'.runHeaderStatus = "complete" → Started h s s'
  | rolled : s.isOpen = true → 0 < s.fileBytes → s'.isOpen = true → s'.files = h :: s.files → s'.fileBytes = h.length →
    s'.runHeaderStatus = s.runHeaderStatus → Started h s s'
  | shut : (s.isOpen = true → 0 < s.fileBytes) → s'.isOpen = false → s'.files = s.files →
    s'.runHeaderStatus = s.runHeaderStatus → Started h s s'

theorem streamStart_started (h : ByteString) (s : UlogCapture) :
    (s.streamStart disk h).cache = ⟨.definitions, h, [], []⟩ ∧ (s.streamStart disk h).synced = true ∧
      (s.streamStart disk h).partialMsg = [] ∧ Started h s (s.streamStart disk h) := by
  rw [streamStart]
  generalize made : ({ s with
    header := h, subs := [], params := [], partialMsg := [], synced := true, headerState := .definitions } : UlogCapture) = t
  have cache : t.cache = ⟨.definitions, h, [], []⟩ := by rw [← made]; rfl
  have synced : t.synced = true := by rw [← made]
  have partialMsg : t.partialMsg = [] := by rw [← made]
  have isOpen : t.isOpen = s.isOpen := by rw [← made]
  have files : t.files = s.files := by rw [← made]
  have bytes : t.fileBytes = s.fileBytes := by rw [← made]
  have status : t.runHeaderStatus = s.runHeaderStatus := by rw [← made]
  clear made
  split
  · rename_i closed
    rw [Bool.not_eq_true'] at closed
    exact ⟨cache, synced, partialMsg, .shut (fun opened => by rw [← isOpen, closed] at opened; cases opened) closed files status⟩
  rename_i opened
  rw [Bool.not_eq_true', Bool.not_eq_false] at opened
  have was : s.isOpen = true := isOpen.symm.trans opened
  split
  · rename_i some
    obtain ⟨nextCache, nextSynced, nextPartial, nextStatus, next⟩ := @nextFile disk _ opened
    generalize (t.close disk).1.openFile disk = u at nextCache nextSynced nextPartial nextStatus next ⊢
    dsimp only
    rw [bytes] at some
    rcases next with ⟨open', list, zero⟩ | ⟨shut, list⟩
    · have wrote := write_wrote works h u
      have file := wrote.files
      have count := wrote.fileBytes
      rw [if_pos open', list, appended, List.nil_append, files] at file
      rw [if_pos open', zero, Nat.zero_add] at count
      rw [if_neg (by rw [open']; decide)]
      exact ⟨wrote.cache.trans (nextCache.trans cache), wrote.synced.trans (nextSynced.trans synced),
        wrote.partialMsg.trans (nextPartial.trans partialMsg),
        .rolled was some (wrote.isOpen.trans open') file count (wrote.status.trans (nextStatus.trans status))⟩
    · rw [if_pos (by rw [shut]; decide)]
      exact ⟨nextCache.trans cache, nextSynced.trans synced, nextPartial.trans partialMsg,
        .shut (fun _ => some) shut (list.trans files) (nextStatus.trans status)⟩
  · rename_i empty
    have zero : s.fileBytes = 0 := by
      rw [bytes] at empty
      omega
    have wrote := write_wrote works h { t with runHeaderStatus := "complete" }
    have file := wrote.files.trans ((if_pos opened).trans (congrArg (appended h) files))
    have sum : t.fileBytes + h.length = h.length := by
      rw [bytes, zero, Nat.zero_add]
    have count := wrote.fileBytes.trans ((if_pos opened).trans sum)
    exact ⟨wrote.cache.trans cache, wrote.synced.trans synced, wrote.partialMsg.trans partialMsg,
      .here was zero (wrote.isOpen.trans opened) file count wrote.status⟩

omit works in
/-- A file header alone is the beginning of a definitions section. -/
theorem header_tracks {h : ByteString} (length : h.length = kFileHeaderLen) {s : UlogCapture} (cache : s.cache = ⟨.definitions, h, [], []⟩)
    (synced : s.synced = true) (partialMsg : s.partialMsg = []) : Tracks h s ∧ sectionOver h = false ∧ definitionsOf h = h := by
  have none : h.drop kFileHeaderLen = [] := List.drop_of_length_le (le_of_eq length)
  have messages : streamMessages h = [] := by
    rw [streamMessages, none]
    rfl
  have rest : streamRest h = [] := by
    rw [streamRest, none]
    rfl
  have ended : sectionOver h = false := by
    rw [sectionOver, messages]
    rfl
  have text : definitionsOf h = h := by
    rw [definitionsOf, messages, ← length, List.take_length]
    simp
  refine ⟨⟨le_of_eq length.symm, fun _ => ⟨?_, ?_⟩, fun large => ?_, fun _ => ⟨synced, partialMsg.trans rest.symm, ?_⟩⟩, ended, text⟩
  · rw [text]
    exact congrArg Cache.header cache
  · rw [ended]
    exact congrArg Cache.headerState cache
  · rw [text, length] at large
    exact absurd large (by decide)
  · rw [rest]
    exact fun bad => nomatch bad

omit works in
/-- A stream start while a run is recorded: its first file has begun with an earlier stream, or with none. -/
theorem Past.roll {s s' : UlogCapture} {o o' : Observer} (running : o.running = true) (inv : Inv s o) (due : o'.due = o.due)
    (status : s'.runHeaderStatus = s.runHeaderStatus)
    (files : s'.files = s.files ∧ s'.isOpen = false ∨ ∃ h, s.isOpen = true ∧ s'.files = h :: s.files) : Past s' o' := by
  have last : ∀ first ∈ s.files.getLast?, first ∈ s'.files.getLast? := by
    intro first here
    rcases files with ⟨same, _⟩ | ⟨h, _, more⟩
    · rw [same]
      exact here
    · rw [more]
      match list : s.files with
      | [] => rw [list] at here; cases here
      | file :: others =>
        rw [List.getLast?_cons_cons, ← list]
        exact here
  have two : (∃ first, first ∈ s.files.getLast?) → s'.isOpen = true → 2 ≤ s'.files.length := by
    rintro ⟨first, here⟩ isOpen
    rcases files with ⟨_, shut⟩ | ⟨h, _, more⟩
    · rw [shut] at isOpen
      cases isOpen
    · rw [more, List.length_cons]
      match list : s.files with
      | [] => rw [list] at here; cases here
      | file :: others => simp
  by_cases follows : o.follows = true
  · obtain ⟨raw, first, _, text, _, complete, one, front, _⟩ := inv.follows running follows
    have here : first ∈ s.files.getLast? := by
      rw [one]
      rfl
    refine ⟨fun header same => ?_, fun none => ?_⟩
    · rw [due, text] at same
      cases same
      exact ⟨status.trans complete, ⟨first, last first here, front⟩, two ⟨first, here⟩⟩
    · rw [due, text] at none
      cases none
  · rw [Bool.not_eq_true] at follows
    have past := inv.past running follows
    refine ⟨fun header same => ?_, fun none => ?_⟩
    · obtain ⟨complete, ⟨first, here, front⟩, _⟩ := past.whole header (due ▸ same)
      exact ⟨status.trans complete, ⟨first, last first here, front⟩, two ⟨first, here⟩⟩
    · rw [status]
      exact past.none (due ▸ none)

omit works in
/-- An open file without bytes is the only one of its run. -/
theorem Newest.empty {s : UlogCapture} (newest : Newest s) (isOpen : s.isOpen = true) (empty : s.fileBytes = 0) : s.files = [[]] := by
  obtain ⟨file, others, files, length, counted⟩ := newest isOpen
  rw [empty] at length counted
  have alone : others = [] := by
    by_contra some
    exact absurd (counted some) (lt_irrefl 0)
  rw [files, alone, List.eq_nil_of_length_eq_zero length]

/-- A file header in front of what comes. -/
theorem Inv.header {s : UlogCapture} {o : Observer} (inv : Inv s o) {h : ByteString} (length : h.length = kFileHeaderLen) {first : Bool}
    (here : first = (s.isOpen && s.files = [[]])) :
    Inv (s.streamStart disk h) { o with stream := some h, follows := first, due := if first then some h else o.due } := by
  obtain ⟨cache, synced, partialMsg, started⟩ := streamStart_started works h s
  obtain ⟨tracks, going, text⟩ := header_tracks length cache synced partialMsg
  have some : 0 < h.length := by
    rw [length]
    decide
  have counted : first = true → s.isOpen = true ∧ s.files = [[]] ∧ s.fileBytes = 0 := by
    intro yes
    rw [here, Bool.and_eq_true, decide_eq_true_iff] at yes
    obtain ⟨file, others, files, bytes, _⟩ := inv.newest yes.1
    rw [yes.2] at files
    obtain ⟨rfl, _⟩ := List.cons.inj files
    exact ⟨yes.1, yes.2, bytes.symm⟩
  refine ⟨fun raw same => ?_, nofun, ?_, fun isOpen => ?_, fun isOpen => ?_, fun running follows => ?_, fun running follows => ?_⟩
  · obtain rfl := Option.some.inj same
    exact tracks
  · rw [cache]
    exact fun _ => ⟨rfl, rfl⟩
  · cases started with
    | here was => exact inv.running was
    | rolled was => exact inv.running was
    | shut _ shut =>
      rw [shut] at isOpen
      cases isOpen
  · cases started with
    | here was empty _ files bytes =>
      refine ⟨h, [], ?_, bytes.symm, nofun⟩
      rw [files, inv.newest.empty was empty]
      rfl
    | rolled _ _ _ files bytes =>
      refine ⟨h, s.files, files, bytes.symm, fun _ => ?_⟩
      rw [bytes]
      exact some
    | shut _ shut =>
      rw [shut] at isOpen
      cases isOpen
  · obtain ⟨was, alone, empty⟩ := counted follows
    cases started with
    | here _ _ isOpen files _ status =>
      rw [alone] at files
      refine ⟨h, h, rfl, ?_, isOpen, status, files, ?_, fun _ => text.symm⟩
      · rw [text]
        exact if_pos follows
      · exact text.symm ▸ List.prefix_refl h
    | rolled _ more =>
      rw [empty] at more
      exact absurd more (lt_irrefl 0)
    | shut more =>
      have more := more was
      rw [empty] at more
      exact absurd more (lt_irrefl 0)
  · have due : (if first = true then Option.some h else o.due) = o.due := if_neg (by rw [show first = false from follows]; decide)
    cases started with
    | here was empty =>
      rw [show first = false from follows, was, inv.newest.empty was empty] at here
      cases here
    | rolled was _ _ files _ status => exact @Past.roll _ _ o _ running inv due status (.inr ⟨h, was, files⟩)
    | shut _ shut files status => exact @Past.roll _ _ o _ running inv due status (.inl ⟨files, shut⟩)

/-- A chunk that starts a stream. -/
theorem Inv.start {s : UlogCapture} {o : Observer} (inv : Inv s o) {seq : UInt16} {fmo : UInt8} {data : ByteString}
    (begins : isStreamStart fmo data = true) {first : Bool} (here : first = (s.isOpen && s.files = [[]]))
    (spared : o.running = true → first = true → intact data ≠ none) :
    Inv (s.receive disk seq fmo data)
      { o with stream := intact data, follows := first, due := if first then (intact data).map definitionsOf else o.due } := by
  have heard := inv.counted (some seq) (if s.isOpen then s.chunks + 1 else s.chunks) s.duplicates s.outOfOrder s.gaps
  rw [UlogCapture.receive, begins, if_pos rfl]
  have length : (data.take kFileHeaderLen).length = kFileHeaderLen := by
    rw [isStreamStart, Bool.and_eq_true, Bool.and_eq_true, decide_eq_true_iff, decide_eq_true_iff] at begins
    rw [List.length_take]
    exact min_eq_left begins.1.2
  have under := heard.header works length here
  have whole : data.take kFileHeaderLen ++ data.drop kFileHeaderLen = data := List.take_append_drop _ _
  generalize data.take kFileHeaderLen = h at length under whole ⊢
  generalize data.drop kFileHeaderLen = rest at whole ⊢
  have going : sectionOver h = false := by
    have none : h.drop kFileHeaderLen = [] := List.drop_of_length_le (le_of_eq length)
    rw [sectionOver, streamMessages, none]
    rfl
  have next : (some h : Option ByteString).bind (Observer.grown false rest) = intact data := by
    rw [Option.bind_some, Observer.grown, going, if_neg (by decide), if_neg (by decide), whole]
  have grown := under.grow rfl going (feed_fed works rest _) fun running follows => by
    rw [Observer.more, next]
    exact spared running follows
  rw [Observer.more, next] at grown
  cases first with
  | false => exact grown
  | true => exact grown

/-- Every chunk: dropped, the start of a stream, after a gap or the next one. -/
theorem Inv.chunk {s : UlogCapture} {o : Observer} (inv : Inv s o) {seq : UInt16} {fmo : UInt8} {data : ByteString}
    (spared : Spared (s, o) (.chunk seq fmo data)) : Inv (s.onChunk disk seq fmo data).1 (o.onChunk s seq fmo data) := by
  rw [Spared] at spared
  rw [UlogCapture.onChunk]
  rw [Observer.onChunk] at spared ⊢
  by_cases duplicate : isDuplicate s.last seq = true
  · rw [if_pos duplicate, duplicate, Bool.true_or, if_pos rfl]
    exact inv.counted s.last s.chunks _ s.outOfOrder s.gaps
  rw [if_neg duplicate]
  rw [Bool.eq_false_iff.mpr duplicate, Bool.false_or] at spared ⊢
  by_cases late : isLate s.last seq fmo data = true
  · rw [if_pos late, if_pos late]
    exact inv.counted s.last s.chunks s.duplicates _ s.gaps
  rw [if_neg late] at spared
  rw [if_neg late, if_neg late]
  by_cases begins : isStreamStart fmo data = true
  · have whole : isGap s.last seq fmo data = false := by
      rw [isGap, begins]
      cases s.last with
      | none => rfl
      | some last => simp
    rw [if_pos begins] at spared
    rw [whole, if_neg (by decide), if_pos begins]
    exact inv.start works begins rfl spared
  rw [if_neg begins] at spared
  rw [if_neg begins]
  have other := Bool.eq_false_iff.mpr begins
  by_cases gap : isGap s.last seq fmo data = true
  · rw [gap] at spared
    rw [gap, if_pos rfl]
    have lost := (s.gapBefore_lost seq fmo gap)
    have after := inv.gap lost.2 lost.1 data spared
    have once : (o.more true data).more false data = o.more true data := Observer.more_lost data o
    have rest := @Inv.receive _ works _ _ after seq fmo data other (by rw [once]; exact spared)
    rw [once] at rest
    exact rest
  · rw [Bool.eq_false_iff.mpr gap] at spared
    rw [Bool.eq_false_iff.mpr gap, if_neg (by decide)]
    exact inv.receive works other spared

theorem inv_call {p : UlogCapture × Observer} (inv : Inv p.1 p.2) {e : Call} (spared : Spared p e) :
    Inv (call disk p e).1.1 (call disk p e).1.2 := by
  obtain ⟨s, o⟩ := p
  cases e with
  | openRun => exact inv_openRun inv works
  | chunk seq fmo data => exact inv.chunk works spared
  | close => exact inv_close inv

end

theorem inv_start : Inv {} {} := ⟨nofun, fun _ => ⟨nofun, nofun⟩, nofun, nofun, nofun, nofun, nofun⟩

theorem Inv.truthful {s : UlogCapture} {o : Observer} (inv : Inv s o) (running : o.running = true) : Truthful s o := by
  by_cases follows : o.follows = true
  · obtain ⟨raw, first, _, due, _, complete, files, front, _⟩ := inv.follows running follows
    refine ⟨fun _ => ⟨definitionsOf raw, due, first, by rw [files]; rfl, front⟩, fun none => ?_⟩
    rw [due] at none
    cases none
  · have past := inv.past running (Bool.eq_false_iff.mpr follows)
    refine ⟨fun complete => ?_, past.none⟩
    cases due : o.due with
    | none =>
      have incomplete := past.none due
      rw [complete] at incomplete
      exact absurd incomplete (by decide)
    | some text => exact ⟨text, rfl, (past.whole text due).2.1⟩

/-- Closing the run changes neither its files nor the verdict. -/
theorem Truthful.close {s : UlogCapture} {o : Observer} (truthful : Truthful s o) (disk : Disk) : Truthful (s.close disk).1 o := by
  rw [UlogCapture.close]
  split
  · exact ⟨truthful.complete, truthful.incomplete⟩
  · exact truthful

/-- When nothing of a definitions section is missing that the first file of a run has begun with, the verdict on the run is true as
long as it is recorded and when it is closed. -/
theorem headerStatus_truthful {disk : Disk} (works : ∀ i, disk.takes i = none) {h : List (Entry Call Bool)} {s : UlogCapture}
    {o : Observer} (run : RunIf (call disk) (fun _ p e => Spared p e) ({}, {}) h (s, o)) (running : o.running = true) :
    Truthful s o ∧ Truthful (s.close disk).1 o := by
  have inv : Inv s o :=
    run.invariant (fun _ p => Inv p.1 p.2) inv_start fun _ _ _ inv spared => inv_call works inv spared
  exact ⟨inv.truthful running, (inv.truthful running).close disk⟩

def reliable : Disk where
  opens _ := true
  takes _ := none
  closes _ := true

def fileHeader : ByteString := kMagic ++ List.replicate 9 0

/-- A definition and a data message. -/
def flagBits : ByteString := [2, 0, byte 'B', 0, 0]

def dataMessage : ByteString := [2, 0, byte 'D', 7, 0]

/-- A gap after the definitions section. -/
def wholeSection : List Call :=
  [.openRun, .chunk 0 0 (fileHeader ++ flagBits.take 4), .chunk 1 1 (flagBits.drop 4 ++ dataMessage), .chunk 3 255 [1]]

theorem headerStatus_truthful_whole :
    Truthful (exec (call reliable) [] ({}, {}) wholeSection).2.1 (exec (call reliable) [] ({}, {}) wholeSection).2.2 ∧
      (exec (call reliable) [] ({}, {}) wholeSection).2.2.due = some (fileHeader ++ flagBits) := by
  have run : RunIf (call reliable) (fun _ p e => Spared p e) ({}, {}) (exec (call reliable) [] ({}, {}) wholeSection).1
      (exec (call reliable) [] ({}, {}) wholeSection).2 := exec_runIf wholeSection (by decide +kernel) .start
  exact ⟨(headerStatus_truthful (fun _ => rfl) run (by decide +kernel)).1, by decide +kernel⟩

/-- A gap in the definitions section: the rest of its first definition is missing. -/
def cutSection : List Call := [.openRun, .chunk 0 0 (fileHeader ++ flagBits.take 4), .chunk 2 1 dataMessage]

/-- The verdict stays "complete" then. -/
theorem headerStatus_not_truthful :
    ¬ ∀ {disk : Disk}, (∀ i, disk.takes i = none) → ∀ {h : List (Entry Call Bool)} {s : UlogCapture} {o : Observer},
      Run (call disk) ({}, {}) h (s, o) → o.running = true → Truthful s o ∧ Truthful (s.close disk).1 o := by
  intro claim
  have run : Run (call reliable) ({}, {}) (exec (call reliable) [] ({}, {}) cutSection).1 (exec (call reliable) [] ({}, {}) cutSection).2 :=
    exec_run cutSection .start
  have incomplete := (claim (fun _ => rfl) run (by decide +kernel)).1.incomplete (by decide +kernel)
  exact absurd incomplete (by decide +kernel)

end UlogCapture

end Dyx3.Recorder
