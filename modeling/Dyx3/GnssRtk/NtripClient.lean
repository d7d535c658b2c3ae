import Dyx3.GnssRtk.RtcmParser
import Dyx3.Lib.Search
import Mathlib.Data.List.DropRight

/-!
The NTRIP client (dyx3_gnss_rtk, ntrip_client): the response header and what a connection makes of the bytes it reads.
The clock is not modelled: what a comparison with it gave is part of a turn.
-/

namespace Dyx3.GnssRtk

open Lib

def ascii (s : String) : Bytes := s.toList.map fun c => UInt8.ofNat c.toNat

def crlf : Bytes := [0x0D, 0x0A]
def blankLine : Bytes := crlf ++ crlf

/-! ### The response header -/

def isBlank (c : UInt8) : Bool := c = 0x20 || c = 0x09
def isspace (c : UInt8) : Bool := c = 0x20 || (0x09 ≤ c && c ≤ 0x0D)
def isdigit (c : UInt8) : Bool := 0x30 ≤ c && c ≤ 0x39
def toupper (c : UInt8) : UInt8 := if 0x61 ≤ c ∧ c ≤ 0x7A then c - 0x20 else c

/-- At least one byte with `p`, and what follows them. -/
def skipSome (p : UInt8 → Bool) (s : Bytes) : Option Bytes :=
  match s with
  | c :: s => if p c then some (s.dropWhile p) else none
  | [] => none

/-- What follows the protocol: `ICY`, or `HTTP/` and a version. -/
def afterProtocol (u : Bytes) : Option Bytes :=
  if ascii "ICY" <+: u then some (u.drop 3)
  else if ascii "HTTP/" <+: u then
    match skipSome isdigit (u.drop 5) with
    | some (0x2E :: minor) => skipSome isdigit minor
    | rest => rest
  else none

/-- The first line, trimmed: `^(ICY|HTTP/\d+(\.\d+)?)\s+200(\s|$)`, case-insensitive. -/
def responseIsSuccess (header : Bytes) : Bool :=
  let line := (header.takeWhile fun c => !(c = 0x0D || c = 0x0A)).dropWhile isBlank
  match (afterProtocol ((line.rdropWhile isBlank).map toupper)).bind (skipSome isspace) with
  | some status => ascii "200" <+: status && (status.drop 3).head?.all isspace
  | none => false

inductive HeaderStatus where
  | needMore
  | complete
  | tooLong
deriving DecidableEq, Repr

structure HeaderParse where
  status : HeaderStatus := .needMore
  /-- The status line (ICY) or the whole header (HTTP). -/
  header : Bytes := []
  /-- The bytes after the header: RTCM, kept. -/
  leftover : Bytes := []

def parseResponseHeader (rx : Bytes) : HeaderParse :=
  let unfinished : HeaderParse := { status := if 2048 < rx.length then .tooLong else .needMore }
  match find blankLine rx with
  | some stop => { status := .complete, header := rx.take stop, leftover := rx.drop (stop + 4) }
  | none =>
    if ascii "ICY " <+: rx then
      match find crlf rx with
      | some nl => { status := .complete, header := rx.take nl, leftover := rx.drop (nl + 2) }
      | none => unfinished
    else unfinished

/-! ### A connection -/

/-- What `read_some` returned. -/
inductive Read where
  | data (bytes : Bytes)
  | eof
  | failure
  | stopped
  | deadline

inductive SendResult where
  | complete
  | timeout
  | stopped
  | failed
deriving DecidableEq

/-- One turn of the loop that reads. -/
structure Turn where
  /-- `t - last_frame >= stream_timeout_s` -/
  frameOverdue : Bool := false
  /-- The sending of a GGA sentence, when one was due. -/
  gga : Option SendResult := none
  read : Read
  /-- `now_s() - last_rx >= stream_timeout_s`, asked after a deadline -/
  silent : Bool := false

inductive Phase where
  | handshake (rx : Bytes)
  | streaming
  /-- With the error, which is empty after a stop. -/
  | closed (error : String)
deriving DecidableEq

structure Client where
  parser : RtcmParser := {}
  phase : Phase := .closed ""
  bytes : ℕ := 0
  ggaSent : ℕ := 0
  frameTimeouts : ℕ := 0
  partialTimeouts : ℕ := 0

/-- What is said of a caster that does not answer 200. -/
def rejection (header : Bytes) : String :=
  let status := match find (ascii " ") header with
    | some i => (header.drop (i + 1)).take 3
    | none => []
  if status.length = 3 ∧ status.all isdigit = true then
    "caster rejected: status " ++ String.ofList (status.map fun c => Char.ofNat c.toNat)
  else "caster rejected request"

namespace Client

/-- `deliver`: the frames that go to the sink. -/
def deliver (c : Client) (data : Bytes) : Client × List Bytes :=
  ({ c with parser := (c.parser.feed data).1 }, (c.parser.feed data).2)

/-- The request has been sent over a new connection. -/
def connected (c : Client) : Client := { c with phase := .handshake [] }

/-- One read of `connect_and_handshake`; when the header is complete, the start of the stream. -/
def onHandshake (c : Client) (rx : Bytes) : Read → Client × List Bytes
  | .stopped => ({ c with phase := .closed "stopped" }, [])
  | .deadline => ({ c with phase := .closed "handshake timeout" }, [])
  | .failure => ({ c with phase := .closed "handshake read failed" }, [])
  | .eof => ({ c with phase := .closed "caster closed the connection during the handshake" }, [])
  | .data bytes =>
    let rx := rx ++ bytes
    let hp := parseResponseHeader rx
    match hp.status with
    | .needMore => ({ c with phase := .handshake rx }, [])
    | .tooLong => ({ c with phase := .closed "bad response from the caster" }, [])
    | .complete =>
      if responseIsSuccess hp.header = false then ({ c with phase := .closed (rejection hp.header) }, [])
      else
        let c := { c with parser := c.parser.clear, phase := .streaming, bytes := c.bytes + hp.leftover.length }
        if hp.leftover = [] then (c, []) else c.deliver hp.leftover

/-- What the streaming loop does with a read. -/
def onRead (c : Client) (silent : Bool) : Read → Client × List Bytes
  | .stopped => ({ c with phase := .closed "" }, [])
  | .deadline =>
    if silent then
      if 0 < c.parser.buf.length then
        ({ c with
            parser := c.parser.clear
            partialTimeouts := c.partialTimeouts + 1
            phase := .closed "stream timeout" }, [])
      else ({ c with phase := .closed "stream timeout" }, [])
    else (c, [])
  | .data bytes => { c with bytes := c.bytes + bytes.length }.deliver bytes
  | .eof => ({ c with phase := .closed "stream ended" }, [])
  | .failure => ({ c with phase := .closed "stream read failed" }, [])

/-- One turn of the streaming loop. -/
def onStream (c : Client) (t : Turn) : Client × List Bytes :=
  if t.frameOverdue then
    ({ c with
        parser := if 0 < c.parser.buf.length then c.parser.clear else c.parser
        frameTimeouts := c.frameTimeouts + 1
        phase := .closed "no valid RTCM frame within the stream timeout" }, [])
  else
    match t.gga with
    | none => c.onRead t.silent t.read
    | some .complete => { c with ggaSent := c.ggaSent + 1 }.onRead t.silent t.read
    | some .stopped => ({ c with phase := .closed "" }, [])
    | some .timeout => ({ c with phase := .closed "GGA send timeout" }, [])
    | some .failed => ({ c with phase := .closed "GGA send failed" }, [])

def turn (c : Client) (t : Turn) : Client × List Bytes :=
  match c.phase with
  | .handshake rx => c.onHandshake rx t.read
  | .streaming => c.onStream t
  | .closed _ => (c, [])

/-- The turns of a connection, and the frames delivered to the sink. -/
def run (c : Client) : List Turn → Client × List Bytes
  | [] => (c, [])
  | t :: turns => (((c.turn t).1.run turns).1, (c.turn t).2 ++ ((c.turn t).1.run turns).2)

/-- Connections one after the other, each with its turns. -/
def connections (c : Client) : List (List Turn) → Client
  | [] => c
  | turns :: later => ((c.connected.run turns).1).connections later

end Client

/-! ### Responses -/

def icyOk : Bytes := ascii "ICY 200 OK"

/-- A header that says 200 and ends at the first blank line. -/
structure IsHttp (header : Bytes) : Prop where
  version : ascii "HTTP/" <+: header
  success : responseIsSuccess header = true
  first : find blankLine (header ++ blankLine) = some header.length

inductive Response where
  | icy (payload : Bytes)
  | http (header payload : Bytes) (http : IsHttp header)

def Response.bytes : Response → Bytes
  | .icy payload => icyOk ++ crlf ++ payload
  | .http header payload _ => header ++ blankLine ++ payload

def Response.payload : Response → Bytes
  | .icy payload => payload
  | .http _ payload _ => payload

/-- The frames that a parser makes of `data`. -/
def yields (data : Bytes) : List Bytes := (({} : RtcmParser).feed data).2

/-- What has been received when at least `need` bytes have, after `rx`. -/
def arrived (need : ℕ) (rx : Bytes) : List Bytes → Bytes
  | [] => rx
  | bytes :: reads => if need ≤ (rx ++ bytes).length then rx ++ bytes else arrived need (rx ++ bytes) reads

/-- What is delivered and how the response is read do not depend on how it was cut. -/
def Response.Spared (reads : List Bytes) : Response → Prop
  | .icy payload => ∀ stop, find blankLine (arrived 12 [] reads) = some stop → yields (payload.drop (stop - 8)) = yields payload
  | .http header _ _ => ∀ n, (reads.take n).flatten.length < header.length + 4 → (reads.take n).flatten.length ≤ 2048

/-- A turn that reads, while nothing goes wrong. -/
structure Turn.Flows (t : Turn) : Prop where
  inTime : t.frameOverdue = false
  sent : t.gga = none ∨ t.gga = some .complete
  reads : ∃ bytes, t.read = .data bytes

def Turn.received (t : Turn) : Bytes :=
  match t.read with
  | .data bytes => bytes
  | _ => []

/-- A turn in which nothing happens but the read. -/
def reading (bytes : Bytes) : Turn := { read := .data bytes }

theorem flows_reading {reads : List Bytes} : ∀ t ∈ reads.map reading, t.Flows := by
  intro t member
  obtain ⟨bytes, -, rfl⟩ := List.mem_map.mp member
  exact ⟨rfl, .inl rfl, bytes, rfl⟩

theorem Turn.Flows.read_eq {t : Turn} (flows : t.Flows) : t.read = .data t.received := by
  obtain ⟨bytes, read⟩ := flows.reads
  rw [Turn.received, read]

/-! ### The stream -/

namespace Client

theorem onRead_maxBuffer (c : Client) (silent : Bool) (r : Read) :
    (c.onRead silent r).1.parser.maxBuffer = c.parser.maxBuffer := by
  cases r with
  | data bytes => exact RtcmParser.feed_maxBuffer _ _
  | deadline =>
    rw [onRead]
    repeat' split
    all_goals rfl
  | stopped => rfl
  | eof => rfl
  | failure => rfl

theorem onHandshake_maxBuffer (c : Client) (rx : Bytes) (r : Read) :
    (c.onHandshake rx r).1.parser.maxBuffer = c.parser.maxBuffer := by
  cases r with
  | data bytes =>
    rw [onHandshake]
    dsimp only
    split
    · rfl
    · rfl
    · split
      · rfl
      · split
        · rfl
        · exact RtcmParser.feed_maxBuffer _ _
  | deadline => rfl
  | stopped => rfl
  | eof => rfl
  | failure => rfl

theorem turn_maxBuffer (c : Client) (t : Turn) : (c.turn t).1.parser.maxBuffer = c.parser.maxBuffer := by
  unfold turn
  split
  · exact onHandshake_maxBuffer c _ _
  · unfold onStream
    split
    · dsimp only
      split <;> rfl
    · split
      · exact onRead_maxBuffer _ _ _
      · exact onRead_maxBuffer _ _ _
      · rfl
      · rfl
      · rfl
  · rfl

theorem run_maxBuffer (c : Client) (turns : List Turn) : (c.run turns).1.parser.maxBuffer = c.parser.maxBuffer := by
  induction turns generalizing c with
  | nil => rfl
  | cons t turns ih => exact (ih _).trans (turn_maxBuffer c t)

/-- Whatever the connections before brought, the parser has its buffer of 8192 bytes. -/
theorem connections_maxBuffer (c : Client) (before : List (List Turn)) :
    (c.connections before).parser.maxBuffer = c.parser.maxBuffer := by
  induction before generalizing c with
  | nil => rfl
  | cons turns later ih => exact (ih _).trans (run_maxBuffer c.connected turns)

end Client

theorem yields_eq {p : RtcmParser} (enough : 1029 ≤ p.maxBuffer) (empty : p.buf = []) (data : Bytes) :
    (p.feed data).2 = yields data := by
  rw [yields, RtcmParser.feed_eq enough, RtcmParser.feed_eq (by decide), empty]

namespace Client

/-- Once the stream flows, the reads are the chunks of the parser. -/
theorem stream_run {c : Client} (streaming : c.phase = .streaming) {turns : List Turn} (flows : ∀ t ∈ turns, t.Flows) :
    (c.run turns).1.phase = .streaming ∧ (c.run turns).2 = (c.parser.feedAll (turns.map (·.received))).2 := by
  induction turns generalizing c with
  | nil => exact ⟨streaming, rfl⟩
  | cons t turns ih =>
    have flow := flows t (List.mem_cons_self ..)
    have here : (c.turn t).1.phase = .streaming ∧ (c.turn t).1.parser = (c.parser.feed t.received).1 ∧
        (c.turn t).2 = (c.parser.feed t.received).2 := by
      rw [turn, streaming]
      dsimp only
      rw [onStream, flow.inTime, if_neg Bool.false_ne_true, flow.read_eq]
      rcases flow.sent with sent | sent <;> rw [sent]
      · exact ⟨streaming, rfl, rfl⟩
      · exact ⟨streaming, rfl, rfl⟩
    obtain ⟨phase, out⟩ := ih here.1 fun u member => flows u (List.mem_cons_of_mem t member)
    refine ⟨phase, ?_⟩
    rw [run, List.map_cons, RtcmParser.feedAll, here.2.2, out, here.2.1]

end Client

/-! ### The header -/

theorem blankLine_nonempty : blankLine ≠ [] := List.cons_ne_nil _ _

theorem crlf_nonempty : crlf ≠ [] := List.cons_ne_nil _ _

/-- Nothing after the status line counts. -/
theorem icy_success {rest : Bytes} (ended : ∀ c ∈ rest.head?, c = 0x0D) : responseIsSuccess (icyOk ++ rest) = true := by
  have line : (icyOk ++ rest).takeWhile (fun c => !(c = 0x0D || c = 0x0A)) = icyOk := by
    rw [List.takeWhile_append_of_pos (by decide +kernel)]
    cases rest with
    | nil => rfl
    | cons c rest =>
      rw [ended c rfl]
      rfl
  rw [responseIsSuccess, line]
  decide

/-- Before the status line is complete nothing is decided. -/
theorem parse_icy_early {rx payload : Bytes} {n : ℕ} (taken : rx = (icyOk ++ crlf ++ payload).take n) (early : n < 12) :
    (parseResponseHeader rx).status = .needMore := by
  have line : rx = (icyOk ++ crlf).take n := by
    rw [taken, List.take_append_of_le_length (by rw [show (icyOk ++ crlf).length = 12 from rfl]; omega)]
  have blank : find blankLine rx = none := by
    rw [line, find_take blankLine_nonempty]
    rfl
  have unended : find crlf rx = none := by
    rw [line]
    exact find_take_none crlf_nonempty (k := 10) rfl early
  have short : ¬2048 < rx.length := by
    rw [line, List.length_take]
    omega
  rw [parseResponseHeader, blank, unended, if_neg short]
  dsimp only
  split <;> rfl

/-- How many bytes of the payload the header takes when it is found in `icyOk ++ crlf ++ rest`. -/
def eaten (rx : Bytes) : ℕ := ((find blankLine rx).map (· - 8)).getD 0

/-- A blank line cannot lie inside the status line. -/
theorem blank_late {rest : Bytes} {stop : ℕ} (blank : find blankLine (icyOk ++ crlf ++ rest) = some stop) :
    10 ≤ stop ∧ stop + 4 ≤ (icyOk ++ crlf ++ rest).length := by
  have here := find_prefix blank
  have fits := here.length_le
  rw [List.length_drop, show blankLine.length = 4 from rfl] at fits
  have late : ¬stop + blankLine.length ≤ 12 := by
    intro soon
    have early := find_take_some blankLine_nonempty blank soon
    rw [show 12 = (icyOk ++ crlf).length from rfl, List.take_left] at early
    cases early
  have letter : stop ≠ 9 := by
    rintro rfl
    obtain ⟨t, starts⟩ := here
    have clash : (0x0D : UInt8) = 0x4B := Option.some.inj (congrArg List.head? starts)
    cases clash
  rw [show blankLine.length = 4 from rfl] at late
  omega

theorem parse_icy (rest : Bytes) :
    let hp := parseResponseHeader (icyOk ++ crlf ++ rest)
    hp.status = .complete ∧ responseIsSuccess hp.header = true ∧
      hp.leftover = rest.drop (eaten (icyOk ++ crlf ++ rest)) ∧ eaten (icyOk ++ crlf ++ rest) ≤ rest.length := by
  intro hp
  have size : (icyOk ++ crlf ++ rest).length = 12 + rest.length := List.length_append
  cases blank : find blankLine (icyOk ++ crlf ++ rest) with
  | some stop =>
    obtain ⟨late, fits⟩ := blank_late blank
    have parsed : hp = { status := .complete, header := (icyOk ++ crlf ++ rest).take stop,
                         leftover := (icyOk ++ crlf ++ rest).drop (stop + 4) } := by
      rw [show hp = parseResponseHeader (icyOk ++ crlf ++ rest) from rfl, parseResponseHeader, blank]
    have cut : stop + 4 = 12 + (stop - 8) := by omega
    rw [parsed, eaten, blank]
    refine ⟨rfl, ?_, ?_, ?_⟩
    · dsimp only
      rw [List.append_assoc, List.take_append, List.take_of_length_le (by exact late)]
      apply icy_success
      intro c first
      cases skipped : stop - icyOk.length with
      | zero =>
        rw [skipped] at first
        cases first
      | succ n =>
        rw [skipped] at first
        exact (Option.some.inj first).symm
    · dsimp only
      rw [cut, ← List.drop_drop, List.drop_left' (by rfl)]
      rfl
    · simp only [Option.map_some, Option.getD_some]
      omega
  | none =>
    have nl : find crlf (icyOk ++ crlf ++ rest) = some 10 := find_append crlf_nonempty rfl rest
    have icy : ascii "ICY " <+: icyOk ++ crlf ++ rest := ⟨ascii "200 OK" ++ crlf ++ rest, rfl⟩
    have parsed : hp = { status := .complete, header := (icyOk ++ crlf ++ rest).take 10,
                         leftover := (icyOk ++ crlf ++ rest).drop 12 } := by
      rw [show hp = parseResponseHeader (icyOk ++ crlf ++ rest) from rfl, parseResponseHeader, blank]
      dsimp only
      rw [if_pos icy, nl]
    rw [parsed, eaten, blank]
    exact ⟨rfl, @icy_success [] (by simp), rfl, Nat.zero_le _⟩

/-! ### Runs of a connection -/

namespace Client

theorem run_needMore {c : Client} {rx : Bytes} (phase : c.phase = .handshake rx) {t : Turn} (flow : t.Flows) (turns : List Turn)
    (unfinished : (parseResponseHeader (rx ++ t.received)).status = .needMore) :
    c.run (t :: turns) = { c with phase := .handshake (rx ++ t.received) }.run turns := by
  rw [run, turn, phase]
  dsimp only
  rw [flow.read_eq, onHandshake]
  dsimp only
  rw [unfinished]
  rfl

theorem run_tooLong {c : Client} {rx : Bytes} (phase : c.phase = .handshake rx) {t : Turn} (flow : t.Flows) (turns : List Turn)
    (long : (parseResponseHeader (rx ++ t.received)).status = .tooLong) : (c.run (t :: turns)).1.phase ≠ .streaming := by
  have closed : ∀ (d : Client) (error : String), d.phase = .closed error → ∀ turns, (d.run turns).1.phase = .closed error := by
    intro d error shut turns
    induction turns with
    | nil => exact shut
    | cons u turns ih =>
      rw [run, turn, shut]
      exact ih
  rw [run, turn, phase]
  dsimp only
  rw [flow.read_eq, onHandshake]
  dsimp only
  rw [long]
  dsimp only
  rw [closed _ "bad response from the caster" rfl]
  exact Phase.noConfusion

/-- The header is complete: what is left of the read starts the stream. -/
theorem onHandshake_opens {c : Client} (enough : 1029 ≤ c.parser.maxBuffer) {rx bytes : Bytes} {hp : HeaderParse}
    (parsed : parseResponseHeader (rx ++ bytes) = hp) (complete : hp.status = .complete)
    (success : responseIsSuccess hp.header = true) :
    ∃ d : Client, d.phase = .streaming ∧ d.parser = (c.parser.clear.feed hp.leftover).1 ∧
      c.onHandshake rx (.data bytes) = (d, (c.parser.clear.feed hp.leftover).2) := by
  have opened : c.onHandshake rx (.data bytes) =
      (if hp.leftover = [] then
        ({ c with parser := c.parser.clear, phase := .streaming, bytes := c.bytes + hp.leftover.length }, [])
      else { c with parser := c.parser.clear, phase := .streaming, bytes := c.bytes + hp.leftover.length }.deliver
        hp.leftover) := by
    rw [onHandshake]
    dsimp only
    rw [parsed, complete]
    dsimp only
    rw [success, if_neg (by simp)]
  rw [opened]
  by_cases none_left : hp.leftover = []
  · have idle : c.parser.clear.feed [] = (c.parser.clear, []) := RtcmParser.feed_nil (p := c.parser.clear) enough rfl
    rw [if_pos none_left, none_left, idle]
    exact ⟨_, rfl, rfl, rfl⟩
  · rw [if_neg none_left]
    exact ⟨_, rfl, rfl, rfl⟩

theorem run_complete {c : Client} (enough : 1029 ≤ c.parser.maxBuffer) {rx : Bytes} (phase : c.phase = .handshake rx) {t : Turn}
    {turns : List Turn} (flows : ∀ u ∈ t :: turns, u.Flows) {hp : HeaderParse}
    (parsed : parseResponseHeader (rx ++ t.received) = hp) (complete : hp.status = .complete)
    (success : responseIsSuccess hp.header = true) :
    (c.run (t :: turns)).1.phase = .streaming ∧
      (c.run (t :: turns)).2 = yields (hp.leftover ++ (turns.map (·.received)).flatten) := by
  have flow := flows t (List.mem_cons_self ..)
  obtain ⟨d, streaming, parser, opened⟩ := onHandshake_opens enough parsed complete success
  have here : c.turn t = (d, (c.parser.clear.feed hp.leftover).2) := by
    rw [turn, phase]
    dsimp only
    rw [flow.read_eq, opened]
  obtain ⟨still, later⟩ := stream_run streaming fun u member => flows u (List.mem_cons_of_mem t member)
  rw [run, here]
  refine ⟨still, ?_⟩
  have all : (c.parser.clear.feedAll (hp.leftover :: turns.map (·.received))).2 =
      (c.parser.clear.feed hp.leftover).2 ++ (d.parser.feedAll (turns.map (·.received))).2 := by
    rw [RtcmParser.feedAll, parser]
  rw [later, ← all, RtcmParser.feedAll_eq (p := c.parser.clear) enough rfl, List.flatten_cons]
  exact yields_eq (p := c.parser.clear) enough rfl _

/-- An ICY response, from before its status line is complete. -/
theorem icy_run {c : Client} (enough : 1029 ≤ c.parser.maxBuffer) {rx payload : Bytes} (phase : c.phase = .handshake rx)
    (early : rx.length < 12) {turns : List Turn} (flows : ∀ t ∈ turns, t.Flows)
    (whole : rx ++ (turns.map (·.received)).flatten = icyOk ++ crlf ++ payload) :
    (c.run turns).1.phase = .streaming ∧
      (c.run turns).2 = yields (payload.drop (eaten (arrived 12 rx (turns.map (·.received))))) := by
  induction turns generalizing c rx with
  | nil =>
    have size := congrArg List.length whole
    rw [List.map_nil, List.flatten_nil, List.append_nil, List.length_append, show (icyOk ++ crlf).length = 12 from rfl] at size
    omega
  | cons t turns ih =>
    rw [List.map_cons, List.flatten_cons, ← List.append_assoc] at whole
    rw [List.map_cons, arrived]
    by_cases complete : 12 ≤ (rx ++ t.received).length
    · rw [if_pos complete]
      obtain ⟨rest, split⟩ : ∃ rest, rx ++ t.received = icyOk ++ crlf ++ rest := by
        have taken := congrArg (List.take 12) whole
        rw [List.take_append_of_le_length complete, show 12 = (icyOk ++ crlf).length from rfl, List.take_left] at taken
        refine ⟨(rx ++ t.received).drop (icyOk ++ crlf).length, ?_⟩
        conv_lhs => rw [← List.take_append_drop (icyOk ++ crlf).length (rx ++ t.received), taken]
      obtain ⟨status, success, leftover, within⟩ := parse_icy rest
      have parsed : parseResponseHeader (rx ++ t.received) = parseResponseHeader (icyOk ++ crlf ++ rest) := by rw [split]
      obtain ⟨streaming, out⟩ := run_complete enough phase flows parsed status success
      rw [split, List.append_assoc, List.append_cancel_left_eq] at whole
      refine ⟨streaming, ?_⟩
      rw [out, leftover, split, ← whole, List.drop_append_of_le_length within]
    · rw [if_neg complete]
      have line : rx ++ t.received = (icyOk ++ crlf ++ payload).take (rx ++ t.received).length := by
        rw [← whole, List.take_left]
      rw [run_needMore phase (flows t (List.mem_cons_self ..)) turns (parse_icy_early line (Nat.lt_of_not_le complete))]
      exact ih (c := { c with phase := .handshake (rx ++ t.received) }) enough rfl (Nat.lt_of_not_le complete) (fun u member => flows u (List.mem_cons_of_mem t member)) whole

end Client

/-! ### HTTP -/

theorem parse_http_early {header payload rx : Bytes} (http : IsHttp header) {n : ℕ}
    (taken : rx = (header ++ blankLine ++ payload).take n) (early : n < header.length + 4) :
    (parseResponseHeader rx).status = if 2048 < rx.length then .tooLong else .needMore := by
  have blank : find blankLine rx = none := by
    rw [taken]
    exact find_take_none blankLine_nonempty (find_append blankLine_nonempty http.first payload) early
  have other : ¬ascii "ICY " <+: rx := by
    intro icy
    have letter : ∀ word : Bytes, word <+: header ++ blankLine ++ payload → word ≠ [] →
        (header ++ blankLine ++ payload).head? = word.head? := by
      intro word ⟨rest, begins⟩ some_letter
      rw [← begins, List.head?_append_of_ne_nil word some_letter]
    have h := letter (ascii "HTTP/") ((http.version.trans (List.prefix_append header blankLine)).trans (List.prefix_append _ payload)) (by decide)
    have i := letter (ascii "ICY ") (icy.trans (taken ▸ List.take_prefix n _)) (by decide)
    rw [h] at i
    exact absurd i (by decide)
  rw [parseResponseHeader, blank]
  dsimp only
  rw [if_neg other]

theorem parse_http {header : Bytes} (http : IsHttp header) (rest : Bytes) :
    parseResponseHeader (header ++ blankLine ++ rest) = { status := .complete, header := header, leftover := rest } := by
  have first := find_append blankLine_nonempty http.first rest
  rw [parseResponseHeader, first]
  dsimp only
  rw [List.append_assoc, List.take_left, ← List.append_assoc,
    List.drop_left' (by rw [List.length_append]; rfl)]

namespace Client

theorem http_run {c : Client} (enough : 1029 ≤ c.parser.maxBuffer) {header rx payload : Bytes} (http : IsHttp header)
    (phase : c.phase = .handshake rx) (early : rx.length < header.length + 4) (short : rx.length ≤ 2048) {turns : List Turn}
    (flows : ∀ t ∈ turns, t.Flows) (whole : rx ++ (turns.map (·.received)).flatten = header ++ blankLine ++ payload) :
    ((c.run turns).1.phase = .streaming ∧ (c.run turns).2 = yields payload) ↔
      ∀ n, (rx ++ ((turns.map (·.received)).take n).flatten).length < header.length + 4 →
        (rx ++ ((turns.map (·.received)).take n).flatten).length ≤ 2048 := by
  induction turns generalizing c rx with
  | nil =>
    have size := congrArg List.length whole
    rw [List.map_nil, List.flatten_nil, List.append_nil, List.length_append, List.length_append,
      show blankLine.length = 4 from rfl] at size
    omega
  | cons t turns ih =>
    rw [List.map_cons, List.flatten_cons, ← List.append_assoc] at whole
    have flow := flows t (List.mem_cons_self ..)
    -- one read less is left
    have rest : ∀ n, (rx ++ ((t.received :: turns.map (·.received)).take (n + 1)).flatten).length =
        (rx ++ t.received ++ ((turns.map (·.received)).take n).flatten).length := by
      intro n
      rw [List.take_succ_cons, List.flatten_cons, List.append_assoc]
    have none_read : (rx ++ ((t.received :: turns.map (·.received)).take 0).flatten).length = rx.length := by
      rw [List.take_zero, List.flatten_nil, List.append_nil]
    rw [List.map_cons]
    by_cases complete : header.length + 4 ≤ (rx ++ t.received).length
    · have size : (header ++ blankLine).length = header.length + 4 := List.length_append
      obtain ⟨begun, split⟩ : ∃ begun, rx ++ t.received = header ++ blankLine ++ begun := by
        have taken := congrArg (List.take (header ++ blankLine).length) whole
        rw [List.take_append_of_le_length (by omega), List.take_left] at taken
        refine ⟨(rx ++ t.received).drop (header ++ blankLine).length, ?_⟩
        conv_lhs => rw [← List.take_append_drop (header ++ blankLine).length (rx ++ t.received), taken]
      have parsed := parse_http http begun
      rw [← split] at parsed
      obtain ⟨streaming, out⟩ := run_complete enough phase flows parsed rfl http.success
      rw [split, List.append_assoc, List.append_cancel_left_eq] at whole
      refine iff_of_true ⟨streaming, by rw [out, whole]⟩ fun n unfinished => ?_
      cases n with
      | zero => rwa [none_read]
      | succ n =>
        rw [rest, List.length_append] at unfinished
        omega
    · have line : rx ++ t.received = (header ++ blankLine ++ payload).take (rx ++ t.received).length := by
        rw [← whole, List.take_left]
      have status := parse_http_early http line (Nat.lt_of_not_le complete)
      by_cases long : 2048 < (rx ++ t.received).length
      · rw [if_pos long] at status
        refine iff_of_false (fun kept => run_tooLong phase flow turns status kept.1) fun spared => ?_
        have first := spared 1
        rw [rest 0, List.take_zero, List.flatten_nil, List.append_nil] at first
        omega
      · rw [if_neg long] at status
        rw [run_needMore phase flow turns status, ih (c := { c with phase := .handshake (rx ++ t.received) }) enough rfl
          (Nat.lt_of_not_le complete) (Nat.not_lt.mp long) (fun u member => flows u (List.mem_cons_of_mem t member)) whole]
        constructor
        · intro spared n unfinished
          cases n with
          | zero => rwa [none_read]
          | succ n =>
            rw [rest] at unfinished ⊢
            exact spared n unfinished
        · intro spared n
          rw [← rest]
          exact spared (n + 1)

end Client

/-- When nothing before the end of the blank line is a preamble, its loss does not show. -/
theorem yields_drop {k : ℕ} {payload : Bytes} (plain : ∀ b ∈ payload.take k, b ≠ preamble) :
    yields (payload.drop k) = yields payload := by
  induction k generalizing payload with
  | zero => rfl
  | succ k ih =>
    cases payload with
    | nil => rfl
    | cons b payload =>
      have other : b ≠ preamble := plain b (List.mem_cons_self ..)
      have skipped : yields (b :: payload) = yields payload := by
        have settled : scanner.front (b :: payload) = some (.noPreamble, 0) := front_other other payload
        rw [yields, RtcmParser.feed_eq (by decide), yields, RtcmParser.feed_eq (by decide)]
        dsimp only
        rw [List.nil_append, List.nil_append, Scanner.scan_some settled]
        rfl
      rw [List.drop_succ_cons, skipped]
      exact ih fun c member => plain c (List.mem_cons_of_mem b member)

/-- What reaches the sink of a new connection is what the payload of the response holds exactly when the read that brings
the end of an ICY status line brings no blank line that matters, and no read of an HTTP header leaves more than 2048
bytes without its end. -/
theorem keeps_corrections_iff (before : List (List Turn)) (response : Response) {turns : List Turn} (flows : ∀ t ∈ turns, t.Flows)
    (whole : (turns.map (·.received)).flatten = response.bytes) :
    (((({} : Client).connections before).connected.run turns).1.phase = .streaming ∧
      ((({} : Client).connections before).connected.run turns).2 = yields response.payload) ↔
      response.Spared (turns.map (·.received)) := by
  have enough : 1029 ≤ (({} : Client).connections before).connected.parser.maxBuffer := by
    rw [show (({} : Client).connections before).connected.parser = (({} : Client).connections before).parser from rfl,
      Client.connections_maxBuffer]
    decide
  cases response with
  | icy payload =>
    obtain ⟨streaming, out⟩ := Client.icy_run enough rfl (by decide) flows whole
    rw [and_iff_right streaming, out, eaten, Response.Spared, Response.payload]
    cases blank : find blankLine (arrived 12 [] (turns.map (·.received))) with
    | none => exact iff_of_true rfl fun stop found => by cases found
    | some stop => simp
  | http header payload http =>
    have iff := Client.http_run enough http rfl (Nat.succ_pos _) (Nat.zero_le _) flows whole
    exact iff

theorem yields_nil : yields [] = [] := by
  rw [yields, RtcmParser.feed_nil (by decide) rfl]

/-- A valid frame in front of the rest is one frame more. -/
theorem yields_frame (valid : ValidatedFrame) (rest : Bytes) : yields (valid.bytes ++ rest) = valid.bytes :: yields rest := by
  have scanned := RtcmParser.scan_valid [valid]
  rw [List.map_cons, List.map_nil, List.flatten_cons, List.flatten_nil, List.append_nil] at scanned
  rw [yields, RtcmParser.feed_eq (by decide), yields, RtcmParser.feed_eq (by decide)]
  dsimp only
  rw [List.nil_append, List.nil_append, Scanner.scan_resume, scanned]
  rfl

theorem keeps_corrections_split :
    (((({} : Client).connections []).connected.run
        ([icyOk ++ [0x0D], [0x0A], RtcmParser.shortest.bytes].map reading)).1.phase = .streaming ∧
      ((({} : Client).connections []).connected.run
        ([icyOk ++ [0x0D], [0x0A], RtcmParser.shortest.bytes].map reading)).2 = yields RtcmParser.shortest.bytes) :=
  (keeps_corrections_iff [] (.icy RtcmParser.shortest.bytes) flows_reading rfl).mpr fun stop blank => by cases blank

/-- A header of more than 2048 bytes. -/
def longHeader : Bytes := ascii "HTTP/1.0 200" ++ crlf ++ List.replicate 2086 0x78

theorem longHeader_http : IsHttp longHeader where
  version := ⟨ascii "1.0 200" ++ crlf ++ List.replicate 2086 0x78, rfl⟩
  success := by decide +kernel
  first := by decide +kernel

/-- A correction that comes in one read with the status line and a blank line is lost; a header of 2100 bytes is too long
when its end comes in a read of its own, but not when the read before it ends at 2048 bytes. -/
theorem corrections_lost :
    ((({} : Client).connected.run ([icyOk ++ crlf ++ RtcmParser.shortest.bytes ++ blankLine].map reading)).2 = [] ∧
      yields (RtcmParser.shortest.bytes ++ blankLine) = [RtcmParser.shortest.bytes]) ∧
    (({} : Client).connected.run ([longHeader, blankLine].map reading)).1.phase ≠ .streaming ∧
    (({} : Client).connected.run ([longHeader.take 2048, longHeader.drop 2048 ++ blankLine].map reading)).1.phase =
      .streaming := by
  refine ⟨⟨?_, ?_⟩, ?_, ?_⟩
  · have whole : [] ++ (([icyOk ++ crlf ++ RtcmParser.shortest.bytes ++ blankLine].map reading).map (·.received)).flatten =
        icyOk ++ crlf ++ (RtcmParser.shortest.bytes ++ blankLine) := rfl
    have lost := (Client.icy_run (c := ({} : Client).connected) (by decide) rfl (by decide) flows_reading whole).2
    rw [lost, List.drop_of_length_le (by decide +kernel), yields_nil]
  · rw [yields_frame, ← yields_drop (k := 4) (by decide +kernel)]
    exact congrArg _ yields_nil
  · have line : [] ++ (reading longHeader).received = (longHeader ++ blankLine ++ []).take longHeader.length := by
      rw [List.append_nil, List.take_left]
      rfl
    have status := parse_http_early longHeader_http line (by omega)
    rw [if_pos (by decide +kernel)] at status
    exact Client.run_tooLong rfl ⟨rfl, .inl rfl, _, rfl⟩ _ status
  · have whole : [] ++ (([longHeader.take 2048, longHeader.drop 2048 ++ blankLine].map reading).map (·.received)).flatten =
        longHeader ++ blankLine ++ [] := by decide +kernel
    refine ((Client.http_run (c := ({} : Client).connected) (by decide) longHeader_http rfl
      (Nat.lt_of_lt_of_le (Nat.succ_pos 3) (Nat.le_add_left 4 _)) (Nat.zero_le _) flows_reading whole).mpr
      fun n unfinished => ?_).1
    rcases n with _ | _ | n
    · exact Nat.zero_le _
    · decide +kernel
    · rw [List.take_of_length_le (Nat.le_add_left 2 n)] at unfinished
      exact absurd unfinished (by decide +kernel)

end Dyx3.GnssRtk
