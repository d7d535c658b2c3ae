import Mathlib.Data.List.Nodup
import Dyx3.Lib.Framing
import Dyx3.Lib.Run

/-!
The gateway's socket server: one poll round after the other it reads what its clients sent, cuts it into lines and hands
the lines on. What `poll`, `read`, `send` and `accept` answer comes from outside.
-/

namespace Dyx3.Gateway

open Lib

abbrev Bytes := List UInt8

def newline : UInt8 := 10

/-- The buffer of one `read`. -/
def readSize : ℕ := 4096

structure IpcConfig where
  maxClients : ℕ := 4
  maxLineBytes : ℕ := 65536
  maxOutBytes : ℕ := 1048576

structure IpcClient where
  inp : Bytes := []
  out : Bytes := []
  drop : Bool := false

structure Chunk where
  bytes : Bytes
  nonempty : bytes ≠ []
  fits : bytes.length ≤ readSize

inductive ReadAnswer where
  | data (c : Chunk)
  | eof
  | again
  | error

inductive SendAnswer where
  | wrote (n : ℕ)
  | again
  | gone

/-- What a poll round finds on a client's socket. -/
structure Polled where
  err : Bool := false
  hup : Bool := false
  readable : Bool := false
  writable : Bool := false
  sent : SendAnswer := .again
  reads : List ReadAnswer := []

/-- What the read loop leaves: the unfinished line, the lines it cut, the bytes it took. -/
structure Reading where
  inp : Bytes
  lines : List Bytes := []
  taken : Bytes := []
  close : Bool := false
  overflow : Bool := false

def readAll (bound : ℕ) : List ReadAnswer → Bytes → Reading
  | [], inp | .again :: _, inp => { inp }
  | .eof :: _, inp | .error :: _, inp => { inp, close := true }
  | .data c :: rest, inp =>
    let parts := cut newline [] (inp ++ c.bytes)
    if bound < parts.2.length then
      { inp := parts.2, lines := parts.1, taken := c.bytes, close := true, overflow := true }
    else if c.bytes.length < readSize then { inp := parts.2, lines := parts.1, taken := c.bytes }
    else
      let r := readAll bound rest parts.2
      { r with lines := parts.1 ++ r.lines, taken := c.bytes ++ r.taken }

structure Served where
  client : IpcClient
  lines : List Bytes := []
  taken : Bytes := []
  close : Bool := false
  slow : Bool := false
  overflow : Bool := false

/-- Writing never blocks: a peer that is gone loses its output and is closed. -/
def writeOut (c : IpcClient) (p : Polled) : IpcClient × Bool :=
  if p.writable ∧ !p.hup then
    match p.sent with
    | .wrote n => ({ c with out := c.out.drop n }, false)
    | .again => (c, false)
    | .gone => ({ c with out := [] }, true)
  else (c, false)

def serve (bound : ℕ) (c : IpcClient) (p : Polled) : Served :=
  if c.drop then { client := c, close := true, slow := true }
  else if p.err then { client := c, close := true }
  else
    let (c, gone) := writeOut c p
    if p.readable ∨ p.hup then
      let r := readAll bound p.reads c.inp
      { client := { c with inp := r.inp }, lines := r.lines, taken := r.taken, close := gone || r.close,
        overflow := r.overflow }
    else { client := c, close := gone }

structure IpcServer where
  /-- the connected clients, in the order of their ids -/
  ids : List ℕ := []
  clients : ℕ → IpcClient := fun _ => {}
  nextId : ℕ := 1
  droppedSlow : ℕ := 0
  rejectedFull : ℕ := 0
  overflows : ℕ := 0

namespace IpcServer

/-- The connections that wait, as many as there is room for. -/
def accept (cfg : IpcConfig) : ℕ → IpcServer → IpcServer × List ℕ
  | 0, s => (s, [])
  | n + 1, s =>
    if cfg.maxClients ≤ s.ids.length then accept cfg n { s with rejectedFull := s.rejectedFull + 1 }
    else
      let (t, more) := accept cfg n
        { s with ids := s.ids ++ [s.nextId], clients := Function.update s.clients s.nextId {}, nextId := s.nextId + 1 }
      (t, s.nextId :: more)

/-- What a call shows outside: the clients it accepted, the lines it handed on, and the bytes it took from each client. -/
structure Reply where
  accepted : List ℕ := []
  lines : List (ℕ × Bytes) := []
  taken : List (ℕ × Bytes) := []

def tooLong (cfg : IpcConfig) (line : Bytes) : Bool := cfg.maxLineBytes < line.length

/-- A client is closed by its own reading or writing, or by a line that is too long. -/
def closes (cfg : IpcConfig) (r : Served) : Bool := r.close || r.lines.any (tooLong cfg)

/-- One round of the loop. The newcomers are not polled before the next one. -/
def round (cfg : IpcConfig) (s : IpcServer) (waiting : ℕ) (polled : ℕ → Polled) : IpcServer × Reply :=
  let (t, accepted) := s.accept cfg waiting
  let served := fun id => serve cfg.maxLineBytes (t.clients id) (polled id)
  let lines := s.ids.flatMap fun id => (served id).lines.map fun line => (id, line)
  ({ t with
      ids := t.ids.filter fun id => !(decide (id ∈ s.ids) && closes cfg (served id))
      clients := fun id => if id ∈ s.ids then (served id).client else t.clients id
      droppedSlow := t.droppedSlow + s.ids.countP fun id => (served id).slow
      overflows := t.overflows + s.ids.countP (fun id => (served id).overflow) + lines.countP fun x => tooLong cfg x.2 },
    { accepted
      lines := lines.filter fun x => !tooLong cfg x.2
      taken := s.ids.map fun id => (id, (served id).taken) })

/-- A peer whose output does not fit is dropped at its next round. -/
def queueLine (cfg : IpcConfig) (line : Bytes) (c : IpcClient) : IpcClient :=
  if cfg.maxOutBytes < c.out.length + line.length + 1 then { c with drop := true }
  else { c with out := c.out ++ line ++ [newline] }

def send (cfg : IpcConfig) (s : IpcServer) (id : ℕ) (line : Bytes) : IpcServer :=
  if id ∈ s.ids then { s with clients := Function.update s.clients id (queueLine cfg line (s.clients id)) } else s

def broadcast (cfg : IpcConfig) (s : IpcServer) (line : Bytes) : IpcServer :=
  { s with clients := fun id => if id ∈ s.ids then queueLine cfg line (s.clients id) else s.clients id }

inductive Event where
  | round (waiting : ℕ) (polled : ℕ → Polled)
  | send (id : ℕ) (line : Bytes)
  | broadcast (line : Bytes)

def step (cfg : IpcConfig) (s : IpcServer) : Event → IpcServer × Reply
  | .round waiting polled => s.round cfg waiting polled
  | .send id line => (s.send cfg id line, {})
  | .broadcast line => (s.broadcast cfg line, {})

abbrev Record := Entry Event Reply

/-- The entries of one client. -/
def own (id : ℕ) (xs : List (ℕ × Bytes)) : List Bytes := (xs.filter (·.1 = id)).map Prod.snd

/-- The lines of a client that were handed on, oldest first. -/
def linesOf (id : ℕ) (h : List Record) : List Bytes := h.reverse.flatMap fun x => own id x.out.lines

/-- The bytes that were read from a client. -/
def bytesOf (id : ℕ) (h : List Record) : Bytes := h.reverse.flatMap fun x => (own id x.out.taken).flatten

/-- No line of at most `bound` bytes stands behind a longer one. -/
def Tidy (bound : ℕ) (lines : List Bytes) : Prop := ∀ line ∈ lines.dropWhile (·.length ≤ bound), bound < line.length

instance (bound : ℕ) (lines : List Bytes) : Decidable (Tidy bound lines) := inferInstanceAs (Decidable (∀ line ∈ _, _))

/-- The lines a round completes: what was unfinished before it and the bytes it reads. -/
def completes (id : ℕ) (x : Record) (earlier : List Record) : List Bytes :=
  (cut newline [] ((cut newline [] (bytesOf id earlier)).2 ++ (own id x.out.taken).flatten)).1

/-! ### Reading -/

theorem readAll_cut (bound : ℕ) (answers : List ReadAnswer) {inp : Bytes} (plain : newline ∉ inp) :
    cut newline [] (inp ++ (readAll bound answers inp).taken) =
      ((readAll bound answers inp).lines, (readAll bound answers inp).inp) := by
  have nothing : cut newline [] (inp ++ []) = ([], inp) := by
    rw [List.append_nil]
    exact cut_plain plain []
  induction answers generalizing inp with
  | nil => exact nothing
  | cons answer rest ih =>
    cases answer with
    | eof => exact nothing
    | again => exact nothing
    | error => exact nothing
    | data c =>
      have left : newline ∉ (cut newline [] (inp ++ c.bytes)).2 := cut_rest_plain (by simp) _
      rw [readAll]
      dsimp only
      split
      · rfl
      split
      · rfl
      · dsimp only
        rw [← List.append_assoc, cut_resume, ih left]
        rw [List.append_nil]
        exact cut_plain left []

theorem readAll_bounded {bound : ℕ} {answers : List ReadAnswer} {inp : Bytes} (before : inp.length ≤ bound)
    (stays : (readAll bound answers inp).close = false) : (readAll bound answers inp).inp.length ≤ bound := by
  induction answers generalizing inp with
  | nil => exact before
  | cons answer rest ih =>
    cases answer with
    | eof => cases stays
    | again => exact before
    | error => cases stays
    | data c =>
      rw [readAll] at stays ⊢
      dsimp only at stays ⊢
      split at stays
      · cases stays
      rename_i short
      rw [if_neg short]
      split at stays
      · rename_i last
        rw [if_pos last]
        exact not_lt.mp short
      · rename_i more
        rw [if_neg more]
        exact ih (not_lt.mp short) stays

theorem writeOut_inp (c : IpcClient) (p : Polled) : (writeOut c p).1.inp = c.inp := by
  unfold writeOut
  split
  · split <;> rfl
  · rfl

/-- A client's turn in a round: what was unfinished and what was read, cut into lines. -/
theorem serve_cut (bound : ℕ) (c : IpcClient) (p : Polled) (plain : newline ∉ c.inp) :
    cut newline [] (c.inp ++ (serve bound c p).taken) = ((serve bound c p).lines, (serve bound c p).client.inp) := by
  have nothing : cut newline [] (c.inp ++ []) = ([], c.inp) := by
    rw [List.append_nil]
    exact cut_plain plain []
  unfold serve
  split
  · exact nothing
  split
  · exact nothing
  dsimp only
  split
  · dsimp only
    rw [← writeOut_inp c p] at plain ⊢
    exact readAll_cut bound p.reads plain
  · dsimp only
    rw [writeOut_inp]
    exact nothing

theorem serve_bounded {bound : ℕ} {c : IpcClient} {p : Polled} (before : c.inp.length ≤ bound)
    (stays : (serve bound c p).close = false) : (serve bound c p).client.inp.length ≤ bound := by
  unfold serve at stays ⊢
  split at stays
  · cases stays
  rename_i kept
  rw [if_neg kept]
  split at stays
  · cases stays
  rename_i healthy
  rw [if_neg healthy]
  dsimp only at stays ⊢
  split at stays
  · rename_i reads
    rw [if_pos reads]
    simp only [Bool.or_eq_false_iff] at stays
    refine readAll_bounded ?_ stays.2
    rw [writeOut_inp]
    exact before
  · rename_i quiet
    rw [if_neg quiet]
    dsimp only
    rw [writeOut_inp]
    exact before

/-! ### One client among the others -/

structure Distinct (s : IpcServer) : Prop where
  nodup : s.ids.Nodup
  used : ∀ id ∈ s.ids, id < s.nextId

/-- What accepting does: only new ids are added, with empty buffers. -/
structure Accepts (s t : IpcServer) (accepted : List ℕ) : Prop where
  ids : t.ids = s.ids ++ accepted
  next : s.nextId ≤ t.nextId
  new : ∀ id ∈ accepted, s.nextId ≤ id ∧ id < t.nextId ∧ t.clients id = {}
  nodup : accepted.Nodup
  old : ∀ id < s.nextId, t.clients id = s.clients id

theorem accept_accepts (cfg : IpcConfig) (n : ℕ) (s : IpcServer) : Accepts s (s.accept cfg n).1 (s.accept cfg n).2 := by
  induction n generalizing s with
  | zero => exact ⟨by simp [accept], Nat.le_refl _, by simp [accept], by simp [accept], fun _ _ => rfl⟩
  | succ n ih =>
    rw [accept]
    split
    · obtain ⟨ids, next, new, nodup, old⟩ := ih { s with rejectedFull := s.rejectedFull + 1 }
      exact ⟨ids, next, new, nodup, old⟩
    · obtain ⟨t, made⟩ : ∃ t : IpcServer, t = { s with
          ids := s.ids ++ [s.nextId]
          clients := Function.update s.clients s.nextId {}
          nextId := s.nextId + 1 } := ⟨_, rfl⟩
      have first : t.clients s.nextId = {} ∧ t.nextId = s.nextId + 1 ∧ t.ids = s.ids ++ [s.nextId] ∧
          ∀ id < s.nextId, t.clients id = s.clients id := by
        rw [made]
        exact ⟨Function.update_self .., rfl, rfl, fun id below => Function.update_of_ne (by omega) _ _⟩
      obtain ⟨begun, number, names, same⟩ := first
      rw [← made]
      obtain ⟨ids, next, new, nodup, old⟩ := ih t
      dsimp only
      refine ⟨by rw [ids, names, List.append_assoc]; rfl, by omega, fun id member => ?_, ?_, fun id below => ?_⟩
      · rcases List.mem_cons.mp member with rfl | later
        · refine ⟨Nat.le_refl _, by omega, ?_⟩
          rw [old s.nextId (by omega), begun]
        · obtain ⟨above, below, empty⟩ := new id later
          exact ⟨by omega, below, empty⟩
      · refine List.nodup_cons.mpr ⟨fun member => ?_, nodup⟩
        have above := (new s.nextId member).1
        omega
      · rw [old id (by omega), same id below]

theorem own_flatMap {ids : List ℕ} (nodup : ids.Nodup) (f : ℕ → List Bytes) (id : ℕ) :
    own id (ids.flatMap fun i => (f i).map fun line => (i, line)) = if id ∈ ids then f id else [] := by
  induction ids with
  | nil => rfl
  | cons i ids ih =>
    obtain ⟨fresh, nodup⟩ := List.nodup_cons.mp nodup
    have first : own id ((f i).map fun line => (i, line)) = if i = id then f i else [] := by
      unfold own
      by_cases same : i = id
      · simp [same, List.filter_map, Function.comp_def]
      · simp [same, List.filter_map, Function.comp_def]
    have both : own id ((i :: ids).flatMap fun i => (f i).map fun line => (i, line)) =
        own id ((f i).map fun line => (i, line)) ++ own id (ids.flatMap fun i => (f i).map fun line => (i, line)) := by
      simp [own]
    rw [both, first, ih nodup]
    by_cases same : i = id
    · rw [if_pos same, if_neg (same ▸ fresh), if_pos (by simp [same]), List.append_nil, same]
    · rw [if_neg same, List.nil_append]
      by_cases member : id ∈ ids
      · rw [if_pos member, if_pos (List.mem_cons_of_mem i member)]
      · rw [if_neg member, if_neg (by simp [member, Ne.symm same])]

theorem own_pairs {ids : List ℕ} (nodup : ids.Nodup) (f : ℕ → Bytes) (id : ℕ) :
    (own id (ids.map fun i => (i, f i))).flatten = if id ∈ ids then f id else [] := by
  have single := own_flatMap nodup (fun i => [f i]) id
  simp only [List.map_cons, List.map_nil, ← List.map_eq_flatMap] at single
  rw [single]
  split
  · simp
  · rfl

theorem own_filter (id : ℕ) (p : Bytes → Bool) (xs : List (ℕ × Bytes)) :
    own id (xs.filter fun x => p x.2) = (own id xs).filter p := by
  simp only [own, List.filter_map, List.filter_filter, Function.comp_def]
  congr 1
  exact List.filter_congr fun x _ => Bool.and_comm _ _

theorem distinct_round {s : IpcServer} (distinct : Distinct s) (cfg : IpcConfig) (waiting : ℕ) (polled : ℕ → Polled) :
    Distinct (s.round cfg waiting polled).1 := by
  obtain ⟨ids, next, new, nodup, _⟩ := accept_accepts cfg waiting s
  constructor
  · refine List.Nodup.filter _ ?_
    rw [ids]
    refine List.nodup_append.mpr ⟨distinct.nodup, nodup, fun a member b member' same => ?_⟩
    have below := distinct.used a member
    have above := (new b member').1
    omega
  · intro id member
    have inside := List.mem_of_mem_filter member
    rw [ids] at inside
    show id < (s.accept cfg waiting).1.nextId
    rcases List.mem_append.mp inside with old | accepted
    · exact lt_of_lt_of_le (distinct.used id old) next
    · exact (new id accepted).2.1

theorem linesOf_cons (id : ℕ) (x : Record) (h : List Record) : linesOf id (x :: h) = linesOf id h ++ own id x.out.lines := by
  simp [linesOf]

theorem bytesOf_cons (id : ℕ) (x : Record) (h : List Record) :
    bytesOf id (x :: h) = bytesOf id h ++ (own id x.out.taken).flatten := by
  simp [bytesOf]

/-- How far a client's framing is right: exactly as long as its rounds are tidy. While it is connected it is, nothing too
long has come, and its buffer holds the unfinished line. -/
structure Framing (cfg : IpcConfig) (id : ℕ) (h : List Record) (s : IpcServer) : Prop where
  distinct : Distinct s
  exact : linesOf id h = framed newline cfg.maxLineBytes (bytesOf id h) ↔
    Everywhere (fun x earlier => Tidy cfg.maxLineBytes (completes id x earlier)) h
  unborn : s.nextId ≤ id → bytesOf id h = [] ∧ linesOf id h = []
  buffer : id ∈ s.ids → (s.clients id).inp = (cut newline [] (bytesOf id h)).2
  short : id ∈ s.ids → ¬ Oversize newline cfg.maxLineBytes (bytesOf id h)
  right : id ∈ s.ids → linesOf id h = framed newline cfg.maxLineBytes (bytesOf id h)

variable {cfg : IpcConfig} {id : ℕ} {h : List Record} {s : IpcServer}

theorem tidy_nil : Tidy cfg.maxLineBytes [] := nofun

/-- A call that neither reads from the client nor hands on a line of it. -/
theorem Framing.silent (framing : Framing cfg id h s) {x : Record} {t : IpcServer} (distinct : Distinct t)
    (lines : own id x.out.lines = []) (taken : (own id x.out.taken).flatten = []) (next : s.nextId ≤ t.nextId)
    (old : id ∈ t.ids → id ∈ s.ids ∧ (t.clients id).inp = (s.clients id).inp ∨
      s.nextId ≤ id ∧ (t.clients id).inp = []) : Framing cfg id (x :: h) t := by
  have sameLines : linesOf id (x :: h) = linesOf id h := by rw [linesOf_cons, lines, List.append_nil]
  have sameBytes : bytesOf id (x :: h) = bytesOf id h := by rw [bytesOf_cons, taken, List.append_nil]
  have nothing : completes id x h = [] := by
    have plain : newline ∉ (cut newline [] (bytesOf id h)).2 := cut_rest_plain (by simp) _
    rw [completes, taken, List.append_nil, cut_plain plain]
  refine ⟨distinct, ?_, fun above => ?_, fun open_ => ?_, fun open_ => ?_, fun open_ => ?_⟩
  · rw [sameLines, sameBytes, framing.exact, Everywhere, nothing]
    exact ⟨fun all => ⟨tidy_nil, all⟩, And.right⟩
  · rw [sameLines, sameBytes]
    exact framing.unborn (next.trans above)
  all_goals rw [sameBytes]
  · rcases old open_ with ⟨member, same⟩ | ⟨above, empty⟩
    · rw [same]
      exact framing.buffer member
    · rw [empty, (framing.unborn above).1]
      rfl
  · rcases old open_ with ⟨member, _⟩ | ⟨above, _⟩
    · exact framing.short member
    · rw [(framing.unborn above).1]
      simp [Oversize, cut]
  · rw [sameLines]
    rcases old open_ with ⟨member, _⟩ | ⟨above, _⟩
    · exact framing.right member
    · obtain ⟨bytes, none⟩ := framing.unborn above
      rw [bytes, none]
      rfl

theorem not_oversize {bound : ℕ} {bytes : Bytes} (short : ¬ Oversize newline bound bytes) :
    (∀ line ∈ (cut newline [] bytes).1, line.length ≤ bound) ∧ (cut newline [] bytes).2.length ≤ bound := by
  simpa [Oversize] using short

theorem round_taken (distinct : Distinct s) (waiting : ℕ) (polled : ℕ → Polled) :
    (own id (s.round cfg waiting polled).2.taken).flatten =
      if id ∈ s.ids then (serve cfg.maxLineBytes ((s.accept cfg waiting).1.clients id) (polled id)).taken else [] :=
  own_pairs distinct.nodup (fun i => (serve cfg.maxLineBytes ((s.accept cfg waiting).1.clients i) (polled i)).taken) id

theorem round_lines (distinct : Distinct s) (waiting : ℕ) (polled : ℕ → Polled) :
    own id (s.round cfg waiting polled).2.lines =
      if id ∈ s.ids then (serve cfg.maxLineBytes ((s.accept cfg waiting).1.clients id) (polled id)).lines.filter
        (·.length ≤ cfg.maxLineBytes) else [] := by
  show own id ((s.ids.flatMap fun i =>
    (serve cfg.maxLineBytes ((s.accept cfg waiting).1.clients i) (polled i)).lines.map fun line => (i, line)).filter
      fun x => !tooLong cfg x.2) = _
  rw [own_filter id (fun line => !tooLong cfg line), own_flatMap distinct.nodup]
  split
  · exact List.filter_congr fun line _ => by simp [tooLong, ← decide_not]
  · rfl

/-- A round in which the client is served. -/
theorem Framing.served (framing : Framing cfg id h s) (open_ : id ∈ s.ids) (waiting : ℕ) (polled : ℕ → Polled) :
    Framing cfg id (⟨.round waiting polled, (s.round cfg waiting polled).2⟩ :: h) (s.round cfg waiting polled).1 := by
  have distinct := distinct_round framing.distinct cfg waiting polled
  obtain ⟨_, next, _, _, old⟩ := accept_accepts cfg waiting s
  have known := framing.distinct.used id open_
  have buffer := framing.buffer open_
  obtain ⟨lengths, rest⟩ := not_oversize (framing.short open_)
  obtain ⟨r, made⟩ : ∃ r, r = serve cfg.maxLineBytes ((s.accept cfg waiting).1.clients id) (polled id) := ⟨_, rfl⟩
  have plain : newline ∉ (s.clients id).inp := by
    rw [buffer]
    exact cut_rest_plain (by simp) _
  rw [old id known] at made
  have served := serve_cut cfg.maxLineBytes (s.clients id) (polled id) plain
  rw [← made, buffer] at served
  have taken : (own id (s.round cfg waiting polled).2.taken).flatten = r.taken := by
    rw [round_taken framing.distinct, if_pos open_, old id known, made]
  have lines : own id (s.round cfg waiting polled).2.lines = r.lines.filter (·.length ≤ cfg.maxLineBytes) := by
    rw [round_lines framing.distinct, if_pos open_, old id known, made]
  -- the whole stream is cut into the lines before the round and those the round completes
  have whole : cut newline [] (bytesOf id h ++ r.taken) = ((cut newline [] (bytesOf id h)).1 ++ r.lines, r.client.inp) := by
    rw [cut_resume, served]
  have before : framed newline cfg.maxLineBytes (bytesOf id h) = (cut newline [] (bytesOf id h)).1 :=
    List.takeWhile_eq_self_iff.mpr (by simpa using lengths)
  have after : framed newline cfg.maxLineBytes (bytesOf id h ++ r.taken) =
      (cut newline [] (bytesOf id h)).1 ++ r.lines.takeWhile (·.length ≤ cfg.maxLineBytes) := by
    rw [framed, whole]
    exact List.takeWhile_append_of_pos (by simpa using lengths)
  have kept : id ∈ (s.round cfg waiting polled).1.ids → closes cfg r = false := by
    intro member
    have filtered := (List.mem_filter.mp member).2
    rw [made, ← old id known]
    simpa [open_] using filtered
  have inBounds : id ∈ (s.round cfg waiting polled).1.ids →
      r.close = false ∧ ∀ line ∈ r.lines, line.length ≤ cfg.maxLineBytes := by
    intro member
    simpa [closes, tooLong] using kept member
  refine ⟨distinct, ?_, fun above => ?_, fun member => ?_, fun member => ?_, fun member => ?_⟩
  · rw [linesOf_cons, bytesOf_cons, lines, taken, framing.right open_, before, after, List.append_cancel_left_eq,
      filter_eq_takeWhile, Everywhere, completes, taken, served]
    have tidy := framing.exact.mp (framing.right open_)
    simp only [Tidy, decide_eq_false_iff_not, not_le]
    exact ⟨fun all => ⟨all, tidy⟩, And.left⟩
  · exact absurd (known.trans_le (next.trans above)) (lt_irrefl id)
  · rw [bytesOf_cons, taken, whole, made, ← old id known]
    exact congrArg IpcClient.inp (if_pos open_)
  · obtain ⟨stays, all⟩ := inBounds member
    rw [bytesOf_cons, taken]
    rintro (⟨line, inside, long⟩ | long)
    · rw [whole] at inside
      rcases List.mem_append.mp inside with earlier | now
      · exact absurd long (not_lt.mpr (lengths line earlier))
      · exact absurd long (not_lt.mpr (all line now))
    · rw [whole, made] at long
      rw [made] at stays
      exact absurd long (not_lt.mpr (serve_bounded (buffer ▸ rest) stays))
  · obtain ⟨_, all⟩ := inBounds member
    rw [linesOf_cons, bytesOf_cons, lines, taken, framing.right open_, before, after, List.append_cancel_left_eq]
    rw [List.filter_eq_self.mpr (by simpa using all), List.takeWhile_eq_self_iff.mpr (by simpa using all)]

theorem queueLine_inp (line : Bytes) (c : IpcClient) : (queueLine cfg line c).inp = c.inp := by
  unfold queueLine
  split <;> rfl

theorem framing_run (id : ℕ) (run : Run (step cfg) {} h s) : Framing cfg id h s := by
  refine run.invariant (Framing cfg id) ⟨⟨.nil, by simp⟩, ⟨fun _ => trivial, fun _ => rfl⟩, fun _ => ⟨rfl, rfl⟩, ?_, ?_, ?_⟩ ?_
  · simp
  · simp
  · simp
  · intro h s e framing _
    cases e with
    | round waiting polled =>
      by_cases open_ : id ∈ s.ids
      · exact framing.served open_ waiting polled
      · obtain ⟨ids, next, new, _, _⟩ := accept_accepts cfg waiting s
        refine framing.silent (distinct_round framing.distinct cfg waiting polled) ?_ ?_ next fun member => .inr ?_
        · exact (round_lines framing.distinct waiting polled).trans (if_neg open_)
        · exact (round_taken framing.distinct waiting polled).trans (if_neg open_)
        · have inside := List.mem_of_mem_filter member
          rw [ids] at inside
          obtain ⟨above, _, empty⟩ := new id ((List.mem_append.mp inside).resolve_left open_)
          have same : (s.round cfg waiting polled).1.clients id = (s.accept cfg waiting).1.clients id := if_neg open_
          refine ⟨above, ?_⟩
          show ((s.round cfg waiting polled).1.clients id).inp = []
          rw [same, empty]
    | send peer line =>
      have kept : (s.send cfg peer line).ids = s.ids ∧ (s.send cfg peer line).nextId = s.nextId ∧
          ((s.send cfg peer line).clients id).inp = (s.clients id).inp := by
        unfold IpcServer.send
        split
        · refine ⟨rfl, rfl, ?_⟩
          by_cases same : id = peer
          · rw [same]
            simp [queueLine_inp]
          · simp [Function.update_of_ne same]
        · exact ⟨rfl, rfl, rfl⟩
      obtain ⟨ids, next, inp⟩ := kept
      refine framing.silent (t := s.send cfg peer line) ⟨?_, ?_⟩ rfl rfl next.ge fun member => .inl ⟨ids ▸ member, inp⟩
      · rw [ids]
        exact framing.distinct.nodup
      · rw [ids, next]
        exact framing.distinct.used
    | broadcast line =>
      refine framing.silent (t := s.broadcast cfg line) ⟨framing.distinct.nodup, framing.distinct.used⟩ rfl rfl (Nat.le_refl _)
        fun member => .inl ⟨member, ?_⟩
      have same : ((s.broadcast cfg line).clients id) = queueLine cfg line (s.clients id) := if_pos member
      exact (congrArg IpcClient.inp same).trans (queueLine_inp line _)

/-- However a client's bytes arrive, its lines are those before the first one that is too long, exactly when no round reads
a complete line in bounds behind a complete line that is too long. The client is closed in either case. -/
theorem lines_iff_tidy (run : Run (step cfg) {} h s) (id : ℕ) {stream : Bytes} (reads : bytesOf id h <+: stream)
    (complete : bytesOf id h = stream ∨ Oversize newline cfg.maxLineBytes (bytesOf id h)) :
    linesOf id h = framed newline cfg.maxLineBytes stream ∧ (Oversize newline cfg.maxLineBytes stream → id ∉ s.ids) ↔
      Everywhere (fun x earlier => Tidy cfg.maxLineBytes (completes id x earlier)) h := by
  have framing := framing_run id run
  have same : framed newline cfg.maxLineBytes stream = framed newline cfg.maxLineBytes (bytesOf id h) := by
    obtain ⟨unread, rfl⟩ := reads
    rcases complete with all | oversize
    · rw [← all]
    · exact framed_append oversize unread
  have closed : Oversize newline cfg.maxLineBytes stream → id ∉ s.ids := by
    intro oversize
    rcases complete with all | seen
    · exact fun member => framing.short member (all ▸ oversize)
    · exact fun member => framing.short member seen
  rw [same, ← framing.exact]
  exact ⟨And.left, fun right => ⟨right, closed⟩⟩

def chunk (bytes : Bytes) (nonempty : bytes ≠ []) (fits : bytes.length ≤ readSize) : ReadAnswer := .data ⟨bytes, nonempty, fits⟩

/-- A client connects and sends one line. -/
def oneLine : List Event :=
  [.round 1 fun _ => {}, .round 0 fun _ => { readable := true, reads := [chunk [111, 107, 10] (by decide) (by decide)] }]

theorem oneLine_framed : linesOf 1 (exec (step {}) [] {} oneLine).1 = framed newline 65536 [111, 107, 10] := by
  have run : Run (step {}) {} (exec (step {}) [] {} oneLine).1 (exec (step {}) [] {} oneLine).2 := exec_run oneLine .start
  have tidy : Everywhere (fun x earlier => Tidy ({} : IpcConfig).maxLineBytes (completes 1 x earlier))
      (exec (step {}) [] {} oneLine).1 := ⟨by decide, by decide, trivial⟩
  exact ((lines_iff_tidy run 1 (List.prefix_refl [111, 107, 10]) (.inl rfl)).mpr tidy).1

/-! ### A command behind a line that is too long -/

def filler (n : ℕ) : Bytes := List.replicate n 120

theorem filler_add (m n : ℕ) : filler m ++ filler n = filler (m + n) := List.replicate_append_replicate

theorem filler_plain (n : ℕ) : newline ∉ filler n := by
  intro member
  have byte := List.eq_of_mem_replicate member
  exact absurd byte (by decide)

theorem filler_length (n : ℕ) : (filler n).length = n := List.length_replicate

def fullChunk : ReadAnswer :=
  chunk (filler readSize) (List.ne_nil_of_length_pos (by rw [filler_length]; decide)) (filler_length readSize).le

/-- Full reads of one unfinished line. -/
theorem readAll_filler {bound n k : ℕ} {rest : List ReadAnswer} {r : Reading} (fits : k + n * readSize ≤ bound)
    (last : readAll bound rest (filler (k + n * readSize)) = r) :
    readAll bound (List.replicate n fullChunk ++ rest) (filler k) = { r with taken := filler (n * readSize) ++ r.taken } := by
  induction n generalizing k with
  | zero =>
    rw [Nat.zero_mul, Nat.add_zero] at last
    rw [Nat.zero_mul]
    exact last
  | succ n ih =>
    rw [Nat.succ_mul] at fits
    have next : k + (n + 1) * readSize = k + readSize + n * readSize := by
      rw [Nat.succ_mul]
      omega
    have whole : filler ((n + 1) * readSize) = filler readSize ++ filler (n * readSize) := by
      rw [filler_add, Nat.succ_mul, Nat.add_comm]
    have parts : cut newline [] (filler k ++ filler readSize) = ([], filler (k + readSize)) := by
      rw [filler_add, cut_plain (filler_plain _), List.nil_append]
    rw [next] at last
    rw [List.replicate_succ, List.cons_append]
    show readAll bound (.data ⟨filler readSize, _, _⟩ :: (List.replicate n fullChunk ++ rest)) (filler k) = _
    rw [readAll]
    dsimp only
    rw [parts, if_neg (by rw [filler_length]; omega), if_neg (by rw [filler_length]; omega), ih (by omega) last, whole,
      List.append_assoc]
    rfl

def command : ReadAnswer := chunk [120, 10, 111, 107, 10] (by decide) (by decide)

/-- A line one byte too long in one round with a command, in full reads and a last short one. -/
def longReads : List ReadAnswer := List.replicate 16 fullChunk ++ [command]

theorem longReads_read : readAll 65536 longReads (filler 0) =
    { inp := [], lines := [filler 65536 ++ [120], [111, 107]], taken := filler 65536 ++ [120, 10, 111, 107, 10] } := by
  have size : 16 * readSize = 65536 := rfl
  have last : readAll 65536 [command] (filler (0 + 16 * readSize)) =
      { inp := [], lines := [filler 65536 ++ [120], [111, 107]], taken := [120, 10, 111, 107, 10] } := by
    have parts : cut newline [] (filler 65536 ++ [120, 10, 111, 107, 10]) = ([filler 65536 ++ [120], [111, 107]], []) := by
      rw [cut_append, cut_plain (filler_plain _)]
      rfl
    rw [Nat.zero_add, size, command, chunk, readAll]
    dsimp only
    rw [parts, if_neg (by decide), if_pos (by decide)]
  have all := readAll_filler (show 0 + 16 * readSize ≤ 65536 by decide) last
  rw [size] at all
  unfold longReads
  exact all

def connects : Event := .round 1 fun _ => {}

def flood : ℕ → Polled := fun _ => { readable := true, reads := longReads }

def overrunRun : List Record × IpcServer := exec (step {}) [] {} [connects, .round 0 flood]

/-- The command behind the line that is too long is handed on. -/
theorem overrun_delivers : Run (step {}) {} overrunRun.1 overrunRun.2 ∧
    bytesOf 1 overrunRun.1 = filler 65536 ++ [120, 10, 111, 107, 10] ∧ linesOf 1 overrunRun.1 = [[111, 107]] ∧
      framed newline 65536 (filler 65536 ++ [120, 10, 111, 107, 10]) = [] := by
  obtain ⟨h, s, begun⟩ : ∃ h s, exec (step {}) [] {} [connects] = (h, s) := ⟨_, _, rfl⟩
  have distinct : Distinct s := by
    have run : Run (step {}) {} h s := by
      have first : Run (step {}) {} (exec (step {}) [] {} [connects]).1 (exec (step {}) [] {} [connects]).2 :=
        exec_run [connects] .start
      rwa [begun] at first
    exact (framing_run 1 run).distinct
  have shape : overrunRun.1 = ⟨.round 0 flood, (s.round {} 0 flood).2⟩ :: h ∧ bytesOf 1 h = [] ∧ linesOf 1 h = [] ∧
      1 ∈ s.ids ∧ (s.accept {} 0).1.clients 1 = {} := by
    cases begun
    exact ⟨rfl, rfl, rfl, List.mem_singleton.mpr rfl, rfl⟩
  obtain ⟨history, noBytes, noLines, open_, empty⟩ := shape
  have long : (filler 65536 ++ [120]).length = 65537 := by
    rw [List.length_append, filler_length]
    rfl
  have served : serve ({} : IpcConfig).maxLineBytes ((s.accept {} 0).1.clients 1) (flood 1) =
      { client := {}, lines := [filler 65536 ++ [120], [111, 107]], taken := filler 65536 ++ [120, 10, 111, 107, 10] } := by
    have read : readAll 65536 longReads [] = _ := longReads_read
    rw [empty]
    simp [serve, writeOut, flood, read]
  refine ⟨exec_run _ .start, ?_, ?_, ?_⟩
  · rw [history, bytesOf_cons, noBytes, round_taken distinct, if_pos open_]
    simp only [served, List.nil_append]
  · rw [history, linesOf_cons, noLines, round_lines distinct, if_pos open_, served, List.nil_append, List.filter_cons_of_neg]
    · rfl
    · rw [long]
      decide
  · rw [framed, cut_append, cut_plain (filler_plain _)]
    show ([filler 65536 ++ [120], [111, 107]] : List Bytes).takeWhile (·.length ≤ 65536) = []
    rw [List.takeWhile_cons_of_neg]
    rw [long]
    decide

end IpcServer

end Dyx3.Gateway
