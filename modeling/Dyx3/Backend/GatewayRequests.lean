import Mathlib.Logic.Function.Basic
import Mathlib.Data.List.Basic
import Dyx3.Lib.Run

/-!
The requests of the gateway client: each is written to one connection and ends with its reply, with
`GatewayUnavailable` (not delivered) or with `GatewayTimeout` (delivery unknown). What the transport does with the
bytes, and when a waiting coroutine goes on, comes from outside.
-/

namespace Dyx3.Backend

open Lib

/-- How a request ends. -/
inductive Ending where
  | reply
  | unavailable
  | timeout
  deriving DecidableEq

/-- What the exception says about delivery; a reply says that it was delivered. -/
def Ending.delivered : Ending → Option Bool
  | .reply => some true
  | .unavailable => some false
  | .timeout => none

inductive Future where
  | waiting
  | answered
  | failed
  deriving DecidableEq

/-- Where the coroutine of a request stands. -/
inductive Phase where
  | queued
  | draining
  | awaiting
  | done (e : Ending)
  deriving DecidableEq

/-- `size` is the length of the line without its newline. -/
structure Request where
  conn : ℕ
  size : ℕ
  future : Future := .waiting
  phase : Phase := .queued
  deriving DecidableEq

/-- A future that is done keeps its result. -/
def Request.fail (r : Request) : Request := if r.future = .waiting then { r with future := .failed } else r

def Request.answer (r : Request) : Request := if r.future = .waiting then { r with future := .answered } else r

/-- A stream transport: the lines in its send buffer, each with the bytes that are still to go. A closing transport
flushes its buffer; when it is lost nothing goes out any more. -/
structure Transport where
  closing : Bool := false
  lost : Bool := false
  buffer : List (ℕ × ℕ) := []
  deriving DecidableEq

namespace Transport

def write (t : Transport) (id size : ℕ) : Transport :=
  if t.lost then t else { t with buffer := t.buffer ++ [(id, size + 1)] }

def close (t : Transport) : Transport := { t with closing := true, lost := t.lost || t.buffer.isEmpty }

/-- The peer is gone: what is left in the buffer is lost. -/
def forceClose (t : Transport) : Transport := { t with closing := true, lost := true, buffer := [] }

/-- The lines that are complete after `n` more bytes, and what is left. -/
def takeBytes : ℕ → List (ℕ × ℕ) → List ℕ × List (ℕ × ℕ)
  | _, [] => ([], [])
  | n, (id, k) :: rest =>
    if n < k then ([], (id, k - n) :: rest)
    else (id :: (takeBytes (n - k) rest).1, (takeBytes (n - k) rest).2)

def flow (t : Transport) (n : ℕ) : Transport × List ℕ :=
  if t.lost then (t, [])
  else ({ t with buffer := (takeBytes n t.buffer).2, lost := t.closing && (takeBytes n t.buffer).2.isEmpty },
    (takeBytes n t.buffer).1)

end Transport

structure GatewayClient where
  writer : Option ℕ := none
  stopped : Bool := false
  requests : ℕ → Option Request := fun _ => none
  pending : List ℕ := []
  nextId : ℕ := 1
  transports : ℕ → Transport := fun _ => {}
  opened : ℕ := 0
  /-- the requests of which the gateway got the complete line -/
  received : List ℕ := []

namespace GatewayClient

def connected (c : GatewayClient) : Bool := c.writer.any fun w => !(c.transports w).closing

def setRequest (c : GatewayClient) (id : ℕ) (r : Request) : GatewayClient :=
  { c with requests := Function.update c.requests id (some r) }

def setTransport (c : GatewayClient) (w : ℕ) (t : Transport) : GatewayClient :=
  { c with transports := Function.update c.transports w t }

/-- A request before its first suspension: none is started without a connection. -/
def call (c : GatewayClient) (size : ℕ) : GatewayClient × Option Ending :=
  match c.writer with
  | some w =>
    if c.connected then
      ({ c.setRequest c.nextId ⟨w, size, .waiting, .queued⟩ with pending := c.pending ++ [c.nextId], nextId := c.nextId + 1 },
        none)
    else (c, some .unavailable)
  | none => (c, some .unavailable)

def write (c : GatewayClient) (id : ℕ) : GatewayClient :=
  match c.requests id with
  | some r =>
    if r.phase = .queued then
      (c.setRequest id { r with phase := .draining }).setTransport r.conn ((c.transports r.conn).write id r.size)
    else c
  | none => c

def flow (c : GatewayClient) (w n : ℕ) : GatewayClient :=
  { c.setTransport w ((c.transports w).flow n).1 with received := c.received ++ ((c.transports w).flow n).2 }

/-- A request ends; in any case it is not pending any more. -/
def finish (c : GatewayClient) (id : ℕ) (r : Request) (e : Ending) : GatewayClient × Option Ending :=
  ({ c.setRequest id { r with phase := .done e } with pending := c.pending.erase id }, some e)

/-- `drain` returns, or it raises because the connection is lost. -/
def drained (c : GatewayClient) (id : ℕ) (ok : Bool) : GatewayClient × Option Ending :=
  match c.requests id with
  | some r =>
    if r.phase = .draining then
      if ok then (c.setRequest id { r with phase := .awaiting }, none)
      else if (c.transports r.conn).lost then c.finish id r .unavailable
      else (c, none)
    else (c, none)
  | none => (c, none)

/-- A reply line: an unknown id is ignored. -/
def handleReply (c : GatewayClient) (id : ℕ) : GatewayClient :=
  match c.writer, c.requests id with
  | some _, some r =>
    if id ∈ c.pending then { c.setRequest id r.answer with pending := c.pending.erase id } else c
  | _, _ => c

/-- The coroutine goes on after its future is done. -/
def resume (c : GatewayClient) (id : ℕ) : GatewayClient × Option Ending :=
  match c.requests id with
  | some r =>
    if r.phase = .awaiting then
      match r.future with
      | .waiting => (c, none)
      | .answered => c.finish id r .reply
      | .failed => c.finish id r .unavailable
    else (c, none)
  | none => (c, none)

/-- The budget of the write and the reply is over. -/
def timeout (c : GatewayClient) (id : ℕ) : GatewayClient × Option Ending :=
  match c.requests id with
  | some r =>
    match r.phase with
    | .done _ => (c, none)
    | _ => c.finish id r .timeout
  | none => (c, none)

def failPending (c : GatewayClient) : GatewayClient :=
  { c with
    requests := fun id => if id ∈ c.pending then (c.requests id).map Request.fail else c.requests id
    pending := [] }

/-- The reader ends: by EOF, by an error of the link, or because the client stops. -/
def connectionLost (c : GatewayClient) : GatewayClient :=
  match c.writer with
  | some w => ({ c with writer := none }.setTransport w (c.transports w).close).failPending
  | none => c

def stop (c : GatewayClient) : GatewayClient := { c with stopped := true }.connectionLost.failPending

def connect (c : GatewayClient) : GatewayClient :=
  if c.writer = none ∧ !c.stopped then { c with writer := some c.opened, opened := c.opened + 1 } else c

inductive Event where
  | connect
  | call (size : ℕ)
  | write (id : ℕ)
  | flow (w n : ℕ)
  | drained (id : ℕ) (ok : Bool)
  | reply (id : ℕ)
  | resume (id : ℕ)
  | timeout (id : ℕ)
  | reset (w : ℕ)
  | connectionLost
  | stop
  deriving DecidableEq

/-- One step of the client or of its surroundings, and how a request ends with it. -/
def step (c : GatewayClient) : Event → GatewayClient × Option Ending
  | .connect => (c.connect, none)
  | .call size => c.call size
  | .write id => (c.write id, none)
  | .flow w n => (if w < c.opened then c.flow w n else c, none)
  | .drained id ok => c.drained id ok
  | .reply id => (c.handleReply id, none)
  | .resume id => c.resume id
  | .timeout id => c.timeout id
  | .reset w => (if w < c.opened then c.setTransport w (c.transports w).forceClose else c, none)
  | .connectionLost => (c.connectionLost, none)
  | .stop => (c.stop, none)

abbrev Record := Entry Event (Option Ending)

/-- The line of a request was received, or it waits in a buffer that is still sent. -/
def MayArrive (c : GatewayClient) (id : ℕ) : Prop :=
  id ∈ c.received ∨ ∃ w k, (id, k) ∈ (c.transports w).buffer

/-- When the connection is lost or the client stops, no pending request has been received, and its transport has nothing
left to send. A request whose `drain` fails has not been received. -/
def Undelivered (c : GatewayClient) : Event → Prop
  | .connectionLost | .stop => ∀ id ∈ c.pending, id ∉ c.received ∧
      ∀ r ∈ c.requests id, (c.transports r.conn).lost = true ∨ (c.transports r.conn).buffer = []
  | .drained id false => id ∉ c.received
  | _ => True

/-- No request that failed as not delivered can reach the gateway. -/
structure Sound (c : GatewayClient) : Prop where
  empty : ∀ w, (c.transports w).lost = true → (c.transports w).buffer = []
  unopened : ∀ w, c.opened ≤ w → c.transports w = {}
  writer : ∀ w ∈ c.writer, w < c.opened
  known : ∀ id r, c.requests id = some r → id < c.nextId ∧ r.conn < c.opened
  sent : ∀ w id k, (id, k) ∈ (c.transports w).buffer → ∃ r, c.requests id = some r ∧ r.conn = w ∧ r.phase ≠ .queued
  got : ∀ id ∈ c.received, ∃ r, c.requests id = some r ∧ r.phase ≠ .queued
  pends : ∀ id ∈ c.pending, ∃ r, c.requests id = some r ∧ c.writer = some r.conn
  failed : ∀ id r, c.requests id = some r → r.future = .failed ∨ r.phase = .done .unavailable →
    id ∉ c.received ∧ (c.transports r.conn).lost = true

variable {c : GatewayClient} {id : ℕ} {r : Request}

/-- A request moves on: it keeps its connection, and when it fails nothing of it can arrive. -/
theorem Sound.update (sound : Sound c) (found : c.requests id = some r) (r' : Request) (conn : r'.conn = r.conn)
    (begun : r.phase ≠ .queued → r'.phase ≠ .queued)
    (fails : r'.future = .failed ∨ r'.phase = .done .unavailable → id ∉ c.received ∧ (c.transports r.conn).lost = true)
    {pending : List ℕ} (fewer : pending ⊆ c.pending) : Sound { c.setRequest id r' with pending } := by
  have same : ∀ other, other ≠ id → Function.update c.requests id (some r') other = c.requests other :=
    fun other different => Function.update_of_ne different _ _
  have mine : Function.update c.requests id (some r') id = some r' := Function.update_self ..
  refine ⟨sound.empty, sound.unopened, sound.writer, fun other x => ?_, fun w other k inside => ?_, fun other inside => ?_,
    fun other inside => ?_, fun other x => ?_⟩ <;> simp only [setRequest]
  · by_cases at_ : other = id
    · rw [at_, mine]
      rintro ⟨⟩
      rw [conn]
      exact sound.known id r found
    · rw [same other at_]
      exact sound.known other x
  · obtain ⟨x, sent, w', phase⟩ := sound.sent w other k inside
    by_cases at_ : other = id
    · rw [at_, found] at sent
      cases sent
      exact ⟨r', at_ ▸ mine, conn.trans w', begun phase⟩
    · exact ⟨x, (same other at_).trans sent, w', phase⟩
  · obtain ⟨x, got, phase⟩ := sound.got other inside
    by_cases at_ : other = id
    · rw [at_, found] at got
      cases got
      exact ⟨r', at_ ▸ mine, begun phase⟩
    · exact ⟨x, (same other at_).trans got, phase⟩
  · obtain ⟨x, pends, writer⟩ := sound.pends other (fewer inside)
    by_cases at_ : other = id
    · rw [at_, found] at pends
      cases pends
      exact ⟨r', at_ ▸ mine, conn ▸ writer⟩
    · exact ⟨x, (same other at_).trans pends, writer⟩
  · by_cases at_ : other = id
    · rw [at_, mine]
      rintro ⟨⟩
      rw [conn]
      exact fails
    · rw [same other at_]
      exact sound.failed other x

theorem Sound.finish (sound : Sound c) (found : c.requests id = some r) {e : Ending}
    (fails : r.future = .failed ∨ e = .unavailable → id ∉ c.received ∧ (c.transports r.conn).lost = true) :
    Sound (c.finish id r e).1 := by
  refine sound.update found { r with phase := .done e } rfl (fun _ => by simp) ?_ (List.erase_subset ..)
  rintro (failed | ended)
  · exact fails (.inl failed)
  · exact fails (.inr (by simpa using ended))

/-- A transport changes: once lost it stays so, and its lines are those of requests that were written. -/
theorem Sound.transport (sound : Sound c) {w : ℕ} {t : Transport} (opened : w < c.opened)
    (empty : t.lost = true → t.buffer = []) (lost : (c.transports w).lost = true → t.lost = true)
    (sent : ∀ id k, (id, k) ∈ t.buffer → ∃ r, c.requests id = some r ∧ r.conn = w ∧ r.phase ≠ .queued) :
    Sound (c.setTransport w t) := by
  have same : ∀ other, other ≠ w → Function.update c.transports w t other = c.transports other :=
    fun other different => Function.update_of_ne different _ _
  have mine : Function.update c.transports w t w = t := Function.update_self ..
  refine ⟨fun other => ?_, fun other above => ?_, sound.writer, sound.known, fun other id k => ?_, sound.got, sound.pends,
    fun id r found failed => ?_⟩ <;> simp only [setTransport]
  · by_cases at_ : other = w
    · rw [at_, mine]
      exact empty
    · rw [same other at_]
      exact sound.empty other
  · have different : other ≠ w := by
      rintro rfl
      exact absurd opened (Nat.not_lt.mpr above)
    rw [same other different]
    exact sound.unopened other above
  · by_cases at_ : other = w
    · rw [at_, mine]
      exact sent id k
    · rw [same other at_]
      exact sound.sent other id k
  · obtain ⟨missing, gone⟩ := sound.failed id r found failed
    refine ⟨missing, ?_⟩
    by_cases at_ : r.conn = w
    · rw [at_, mine]
      rw [at_] at gone
      exact lost gone
    · rw [same r.conn at_]
      exact gone

theorem takeBytes_origin (n : ℕ) (buffer : List (ℕ × ℕ)) :
    (∀ id ∈ (Transport.takeBytes n buffer).1, ∃ k, (id, k) ∈ buffer) ∧
      ∀ id k, (id, k) ∈ (Transport.takeBytes n buffer).2 → ∃ k', (id, k') ∈ buffer := by
  induction buffer generalizing n with
  | nil => exact ⟨nofun, nofun⟩
  | cons first rest ih =>
    obtain ⟨id, k⟩ := first
    rw [Transport.takeBytes]
    split
    · refine ⟨nofun, fun other j inside => ?_⟩
      rcases List.mem_cons.mp inside with same | later
      · cases same
        exact ⟨k, List.mem_cons_self⟩
      · exact ⟨j, List.mem_cons_of_mem _ later⟩
    · obtain ⟨done, left⟩ := ih (n - k)
      refine ⟨fun other inside => ?_, fun other j inside => ?_⟩
      · rcases List.mem_cons.mp inside with rfl | later
        · exact ⟨k, List.mem_cons_self⟩
        · obtain ⟨j, member⟩ := done other later
          exact ⟨j, List.mem_cons_of_mem _ member⟩
      · obtain ⟨j', member⟩ := left other j inside
        exact ⟨j', List.mem_cons_of_mem _ member⟩

/-- Lines arrive from the buffer of a transport that is not lost. -/
theorem Sound.receive (sound : Sound c) {w : ℕ} {ids : List ℕ} (origin : ∀ id ∈ ids, ∃ k, (id, k) ∈ (c.transports w).buffer) :
    Sound { c with received := c.received ++ ids } := by
  refine ⟨sound.empty, sound.unopened, sound.writer, sound.known, sound.sent, fun id inside => ?_, sound.pends,
    fun id r found failed => ?_⟩
  · rcases List.mem_append.mp inside with old | new
    · exact sound.got id old
    · obtain ⟨k, buffered⟩ := origin id new
      obtain ⟨r, found, _, phase⟩ := sound.sent w id k buffered
      exact ⟨r, found, phase⟩
  · obtain ⟨missing, lost⟩ := sound.failed id r found failed
    refine ⟨fun inside => ?_, lost⟩
    rcases List.mem_append.mp inside with old | new
    · exact missing old
    · obtain ⟨k, buffered⟩ := origin id new
      obtain ⟨x, found', rfl, _⟩ := sound.sent w id k buffered
      obtain rfl : r = x := Option.some.inj (found.symm.trans found')
      rw [sound.empty _ lost] at buffered
      cases buffered

theorem Sound.flow (sound : Sound c) {w : ℕ} (opened : w < c.opened) (n : ℕ) : Sound (c.flow w n) := by
  obtain ⟨done, left⟩ := takeBytes_origin n (c.transports w).buffer
  have arrived : ∀ id ∈ ((c.transports w).flow n).2, ∃ k, (id, k) ∈ (c.transports w).buffer := by
    unfold Transport.flow
    split
    · exact nofun
    · exact done
  have received := sound.receive arrived
  refine received.transport (t := ((c.transports w).flow n).1) opened ?_ ?_ ?_
  · unfold Transport.flow
    split
    · exact sound.empty w
    · simp only [Bool.and_eq_true, List.isEmpty_iff]
      exact And.right
  · intro lost
    rw [Transport.flow, if_pos lost]
    exact lost
  · unfold Transport.flow
    split
    · exact sound.sent w
    · intro id k inside
      obtain ⟨k', before⟩ := left id k inside
      exact sound.sent w id k' before

theorem Sound.connect (sound : Sound c) : Sound c.connect := by
  unfold GatewayClient.connect
  split
  · rename_i free
    refine ⟨sound.empty, fun w above => sound.unopened w (Nat.le_of_succ_le above), ?_, fun id r found => ?_, sound.sent, sound.got,
      fun id inside => ?_, sound.failed⟩
    · intro w is
      cases is
      exact Nat.lt_succ_self _
    · obtain ⟨numbered, opened⟩ := sound.known id r found
      exact ⟨numbered, Nat.lt_succ_of_lt opened⟩
    · obtain ⟨r, _, writer⟩ := sound.pends id inside
      rw [free.1] at writer
      cases writer
  · exact sound

theorem Sound.call (sound : Sound c) (size : ℕ) : Sound (c.call size).1 := by
  unfold GatewayClient.call
  split
  · rename_i w writer
    split
    · have old : ∀ id r, c.requests id = some r → Function.update c.requests c.nextId (some ⟨w, size, .waiting, .queued⟩) id = some r := by
        intro id r found
        have below := (sound.known id r found).1
        rw [Function.update_of_ne (by omega)]
        exact found
      have split : ∀ id r, Function.update c.requests c.nextId (some ⟨w, size, .waiting, .queued⟩) id = some r →
          r = ⟨w, size, .waiting, .queued⟩ ∧ id = c.nextId ∨ c.requests id = some r := by
        intro id r found
        by_cases new : id = c.nextId
        · rw [new, Function.update_self] at found
          exact .inl ⟨(Option.some.inj found).symm, new⟩
        · rw [Function.update_of_ne new] at found
          exact .inr found
      refine ⟨sound.empty, sound.unopened, sound.writer, fun id r found => ?_, fun v id k inside => ?_, fun id inside => ?_,
        fun id inside => ?_, fun id r found failed => ?_⟩
      · rcases split id r found with ⟨rfl, rfl⟩ | before
        · exact ⟨Nat.lt_succ_self _, sound.writer w writer⟩
        · obtain ⟨numbered, opened⟩ := sound.known id r before
          exact ⟨Nat.lt_succ_of_lt numbered, opened⟩
      · obtain ⟨r, found, conn, phase⟩ := sound.sent v id k inside
        exact ⟨r, old id r found, conn, phase⟩
      · obtain ⟨r, found, phase⟩ := sound.got id inside
        exact ⟨r, old id r found, phase⟩
      · rcases List.mem_append.mp inside with before | new
        · obtain ⟨r, found, at_⟩ := sound.pends id before
          exact ⟨r, old id r found, at_⟩
        · obtain rfl := List.mem_singleton.mp new
          exact ⟨_, Function.update_self .., writer⟩
      · rcases split id r found with ⟨rfl, rfl⟩ | before
        · rcases failed with future | phase
          · cases future
          · cases phase
        · exact sound.failed id r before failed
    · exact sound
  · exact sound

theorem Sound.write (sound : Sound c) (id : ℕ) : Sound (c.write id) := by
  unfold GatewayClient.write
  split
  · rename_i r found
    split
    · rename_i queued
      have moved : Sound (c.setRequest id { r with phase := .draining }) := by
        refine sound.update found { r with phase := .draining } rfl (fun _ => by simp) ?_ (List.Subset.refl c.pending)
        rintro (failed | ended)
        · exact sound.failed id r found (.inl failed)
        · cases ended
      have mine : (c.setRequest id { r with phase := .draining }).requests id = some { r with phase := .draining } :=
        Function.update_self ..
      refine moved.transport (t := (c.transports r.conn).write id r.size) (sound.known id r found).2 ?_ ?_ ?_
      · unfold Transport.write
        split
        · exact sound.empty r.conn
        · rename_i open_
          exact fun lost => absurd lost open_
      · intro (lost : (c.transports r.conn).lost = true)
        rw [Transport.write, if_pos lost]
        exact lost
      · unfold Transport.write
        split
        · exact moved.sent r.conn
        · intro other k inside
          rcases List.mem_append.mp inside with before | new
          · exact moved.sent r.conn other k before
          · cases List.mem_singleton.mp new
            exact ⟨_, mine, rfl, by simp⟩
    · exact sound
  · exact sound

theorem Sound.drained (sound : Sound c) {ok : Bool} (undelivered : Undelivered c (.drained id ok)) :
    Sound (c.drained id ok).1 := by
  unfold GatewayClient.drained
  split
  · rename_i r found
    split
    · cases ok with
      | true =>
        refine sound.update found { r with phase := .awaiting } rfl (fun _ => by simp) ?_ (List.Subset.refl c.pending)
        rintro (failed | ended)
        · exact sound.failed id r found (.inl failed)
        · cases ended
      | false =>
        rw [if_neg Bool.false_ne_true]
        split
        · rename_i lost
          exact sound.finish found fun _ => ⟨undelivered, lost⟩
        · exact sound
    · exact sound
  · exact sound

theorem Sound.handleReply (sound : Sound c) (id : ℕ) : Sound (c.handleReply id) := by
  unfold GatewayClient.handleReply
  split
  · rename_i r _ found
    have kept : r.answer.conn = r.conn ∧ r.answer.phase = r.phase ∧ (r.answer.future = .failed → r.future = .failed) := by
      unfold Request.answer
      split
      · exact ⟨rfl, rfl, nofun⟩
      · exact ⟨rfl, rfl, fun failed => failed⟩
    obtain ⟨conn, phase, failed⟩ := kept
    split
    · refine sound.update found r.answer conn (by rw [phase]; exact fun begun => begun) ?_ (List.erase_subset ..)
      rw [phase]
      exact fun either => sound.failed id r found (either.imp_left failed)
    · exact sound
  · exact sound

theorem Sound.resume (sound : Sound c) (id : ℕ) : Sound (c.resume id).1 := by
  unfold GatewayClient.resume
  split
  · rename_i r found
    split
    · split
      · exact sound
      · rename_i answered
        exact sound.finish found (by simp [answered])
      · rename_i failed
        exact sound.finish found fun _ => sound.failed id r found (.inl failed)
    · exact sound
  · exact sound

theorem Sound.timeout (sound : Sound c) (id : ℕ) : Sound (c.timeout id).1 := by
  unfold GatewayClient.timeout
  split
  · rename_i r found
    split
    · exact sound
    · refine sound.finish found ?_
      rintro (failed | ended)
      · exact sound.failed id r found (.inl failed)
      · cases ended
  · exact sound

/-- A failing future changes neither the connection nor the phase of its request. -/
theorem failPending_request (c : GatewayClient) (id : ℕ) :
    (c.requests id = none ∧ c.failPending.requests id = none) ∨
      ∃ r r', c.requests id = some r ∧ c.failPending.requests id = some r' ∧ r'.conn = r.conn ∧ r'.phase = r.phase ∧
        (r'.future = .failed → id ∈ c.pending ∨ r.future = .failed) := by
  have failed : ∀ r : Request, r.fail.conn = r.conn ∧ r.fail.phase = r.phase := by
    intro r
    unfold Request.fail
    split
    · exact ⟨rfl, rfl⟩
    · exact ⟨rfl, rfl⟩
  cases found : c.requests id with
  | none => exact .inl ⟨rfl, by simp [failPending, found]⟩
  | some r =>
    right
    by_cases pends : id ∈ c.pending
    · exact ⟨r, r.fail, rfl, by simp [failPending, found, pends], (failed r).1, (failed r).2, fun _ => .inl pends⟩
    · exact ⟨r, r, rfl, by simp [failPending, found, pends], rfl, rfl, .inr⟩

theorem Sound.failPending (sound : Sound c)
    (undelivered : ∀ id ∈ c.pending, ∀ r, c.requests id = some r → id ∉ c.received ∧ (c.transports r.conn).lost = true) :
    Sound c.failPending := by
  have back : ∀ id r', c.failPending.requests id = some r' → ∃ r, c.requests id = some r ∧ r'.conn = r.conn ∧
      r'.phase = r.phase ∧ (r'.future = .failed → id ∈ c.pending ∨ r.future = .failed) := by
    intro id r' found
    rcases failPending_request c id with ⟨_, none⟩ | ⟨r, x, before, after, rest⟩
    · rw [none] at found
      cases found
    · rw [after] at found
      cases found
      exact ⟨r, before, rest⟩
  have forth : ∀ id r, c.requests id = some r → ∃ r', c.failPending.requests id = some r' ∧ r'.conn = r.conn ∧
      r'.phase = r.phase := by
    intro id r found
    rcases failPending_request c id with ⟨none, _⟩ | ⟨x, r', before, after, conn, phase, _⟩
    · rw [none] at found
      cases found
    · rw [before] at found
      cases found
      exact ⟨r', after, conn, phase⟩
  refine ⟨sound.empty, sound.unopened, sound.writer, fun id r' found => ?_, fun w id k inside => ?_, fun id inside => ?_,
    nofun, fun id r' found failed => ?_⟩
  · obtain ⟨r, before, conn, _⟩ := back id r' found
    rw [conn]
    exact sound.known id r before
  · obtain ⟨r, before, conn, phase⟩ := sound.sent w id k inside
    obtain ⟨r', after, conn', phase'⟩ := forth id r before
    exact ⟨r', after, conn'.trans conn, phase' ▸ phase⟩
  · obtain ⟨r, before, phase⟩ := sound.got id inside
    obtain ⟨r', after, _, phase'⟩ := forth id r before
    exact ⟨r', after, phase' ▸ phase⟩
  · obtain ⟨r, before, conn, phase, future⟩ := back id r' found
    rw [conn]
    rw [phase] at failed
    rcases failed with failed | ended
    · rcases future failed with pends | old
      · exact undelivered id pends r before
      · exact sound.failed id r before (.inl old)
    · exact sound.failed id r before (.inr ended)

theorem Sound.connectionLost (sound : Sound c) (undelivered : Undelivered c .connectionLost) :
    Sound c.connectionLost ∧ c.connectionLost.pending = [] := by
  unfold GatewayClient.connectionLost
  split
  · rename_i w writer
    have closed : Sound (c.setTransport w (c.transports w).close) := by
      refine sound.transport (sound.writer w writer) ?_ (fun lost => by simp [Transport.close, lost]) (sound.sent w)
      intro lost
      simp only [Transport.close, Bool.or_eq_true, List.isEmpty_iff] at lost
      exact lost.elim (sound.empty w) fun none => none
    have failed : Sound (c.setTransport w (c.transports w).close).failPending := by
      refine closed.failPending fun id pends r found => ?_
      obtain ⟨missing, gone⟩ := undelivered id pends
      obtain ⟨x, known, at_⟩ := sound.pends id pends
      obtain rfl : r = x := Option.some.inj (found.symm.trans known)
      obtain rfl : w = r.conn := Option.some.inj (writer.symm.trans at_)
      refine ⟨missing, ?_⟩
      simp only [setTransport, Function.update_self, Transport.close, Bool.or_eq_true, List.isEmpty_iff]
      exact gone r known
    exact ⟨⟨failed.empty, failed.unopened, nofun, failed.known, failed.sent, failed.got, nofun, failed.failed⟩, rfl⟩
  · rename_i writer
    refine ⟨sound, List.eq_nil_iff_forall_not_mem.mpr fun id pends => ?_⟩
    obtain ⟨_, _, at_⟩ := sound.pends id pends
    rw [writer] at at_
    cases at_

theorem sound_run {h : List Record} (run : RunIf step (fun _ c e => Undelivered c e) {} h c) : Sound c := by
  refine run.invariant (fun _ c => Sound c)
    ⟨fun _ => nofun, fun _ _ => rfl, nofun, nofun, nofun, nofun, nofun, nofun⟩ ?_
  intro h c e sound guard
  cases e with
  | connect => exact sound.connect
  | call size => exact sound.call size
  | write id => exact sound.write id
  | flow w n =>
    show Sound (if w < c.opened then c.flow w n else c)
    split
    · exact sound.flow ‹_› n
    · exact sound
  | drained id ok => exact sound.drained guard
  | reply id => exact sound.handleReply id
  | resume id => exact sound.resume id
  | timeout id => exact sound.timeout id
  | reset w =>
    show Sound (if w < c.opened then c.setTransport w (c.transports w).forceClose else c)
    split
    · exact sound.transport ‹_› (fun _ => rfl) (fun _ => rfl) nofun
    · exact sound
  | connectionLost => exact (sound.connectionLost guard).1
  | stop =>
    have stopped : Sound { c with stopped := true } :=
      ⟨sound.empty, sound.unopened, sound.writer, sound.known, sound.sent, sound.got, sound.pends, sound.failed⟩
    obtain ⟨ended, none⟩ := stopped.connectionLost guard
    refine ended.failPending fun id pends => ?_
    rw [none] at pends
    cases pends

/-- While no connection ends with a request that was or may still be received, a request that fails as not delivered never
arrives, one that arrived or may arrive ends with its reply or with delivery unknown, and a refused one is not sent. -/
theorem verdict_truthful {h : List Record} (run : RunIf step (fun _ c e => Undelivered c e) {} h c) :
    (∀ id r e, c.requests id = some r → r.phase = .done e → e.delivered = some false → ¬ MayArrive c id) ∧
      (∀ id r e, c.requests id = some r → r.phase = .done e → MayArrive c id → e = .reply ∨ e.delivered = none) ∧
      ∀ size, c.connected = false → c.step (.call size) = (c, some .unavailable) := by
  have sound := sound_run run
  have never : ∀ id r, c.requests id = some r → r.phase = .done .unavailable → ¬ MayArrive c id := by
    intro id r found ended arrives
    obtain ⟨missing, lost⟩ := sound.failed id r found (.inr ended)
    rcases arrives with received | ⟨w, k, buffered⟩
    · exact missing received
    · obtain ⟨x, known, rfl, _⟩ := sound.sent w id k buffered
      obtain rfl : r = x := Option.some.inj (found.symm.trans known)
      rw [sound.empty r.conn lost] at buffered
      cases buffered
  refine ⟨fun id r e found ended verdict => ?_, fun id r e found ended arrives => ?_, fun size off => ?_⟩
  · cases e with
    | unavailable => exact never id r found ended
    | reply => cases verdict
    | timeout => cases verdict
  · cases e with
    | reply => exact .inl rfl
    | timeout => exact .inr rfl
    | unavailable => exact absurd arrives (never id r found ended)
  · show c.call size = _
    unfold GatewayClient.call
    split
    · rw [if_neg (by simp [off])]
    · rfl

/-- The peer resets the connection before the request is written. -/
def resets : List Event := [.connect, .call 20, .reset 0, .write 1, .connectionLost, .drained 1 true, .resume 1]

def resetRun : List Record × GatewayClient := exec step [] {} resets

theorem reset_not_delivered : resetRun.2.requests 1 = some ⟨0, 20, .failed, .done .unavailable⟩ ∧ ¬ MayArrive resetRun.2 1 := by
  have guarded : Guarded step (fun _ c e => Undelivered c e) [] {} resets := by
    refine ⟨trivial, trivial, trivial, trivial, ?_, trivial, trivial, trivial⟩
    intro id pends
    obtain rfl : id = 1 := by simpa [step, GatewayClient.write, setTransport, setRequest, GatewayClient.call, connect,
      connected] using pends
    exact ⟨by decide, fun r found => .inl (by cases found; rfl)⟩
  have ended : resetRun.2.requests 1 = some ⟨0, 20, .failed, .done .unavailable⟩ := by decide
  exact ⟨ended, (verdict_truthful (exec_runIf resets guarded .start)).1 1 _ _ ended rfl rfl⟩

/-- The gateway gets the whole line, and the connection ends before the reply. -/
def lostReply : List Event :=
  [.connect, .call 20, .write 1, .flow 0 21, .drained 1 true, .connectionLost, .resume 1]

def lostReplyRun : List Record × GatewayClient := exec step [] {} lostReply

theorem lostReply_false_verdict : Run step {} lostReplyRun.1 lostReplyRun.2 ∧
    lostReplyRun.2.requests 1 = some ⟨0, 20, .failed, .done .unavailable⟩ ∧ Ending.unavailable.delivered = some false ∧
      1 ∈ lostReplyRun.2.received :=
  ⟨exec_run lostReply .start, by decide, rfl, by decide⟩

end GatewayClient

end Dyx3.Backend
