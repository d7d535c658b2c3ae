import Mathlib.Data.Nat.Basic

/-!
A file that is replaced through a temporary one, and programs of system calls on it.

The outcome of every call comes from outside. A process whose answers have run out was killed before that call.
Until the directory is synced a power loss may bring back what a rename replaced.
-/

namespace Dyx3.Lib

/-- How a system call ends; `short` is a transfer of part of the bytes, which is never empty. -/
inductive Answer where
  | done | error | interrupted | short (bytes : Nat)
  deriving DecidableEq, Repr

def Answer.succeeds : Answer → Bool
  | .done | .short _ => true
  | .error | .interrupted => false

/-- The bytes a transfer of `size` moves. -/
def Answer.bytes (size : Nat) : Answer → Nat
  | .short bytes => min size (max 1 bytes)
  | _ => size

structure TempFile where
  text : List Char
  synced : Bool
  deriving DecidableEq

structure Disk where
  file : Option (List Char)
  /-- What a power loss may bring back in place of the file. -/
  older : List (Option (List Char)) := []
  /-- The data of the file were not synced before it got its name. -/
  torn : Bool := false
  temp : Option TempFile := none
  deriving DecidableEq

/-- What a reboot finds: one of the contents the name may have, and any temporary file. -/
def Disk.reboot (d : Disk) (survivor : Nat) (garbage : Option (List Char)) (temp : Option TempFile) : Disk :=
  { file := if d.torn then garbage else ((d.file :: d.older)[survivor]?).getD d.file, temp }

def Sys (α : Type) : Type := Disk → List Answer → Option (α × List Answer) × Disk

namespace Sys

variable {α β : Type}

instance : Monad Sys where
  pure a := fun d answers => (some (a, answers), d)
  bind x f := fun d answers =>
    match x d answers with
    | (none, d) => (none, d)
    | (some (a, answers), d) => f a d answers

/-- One call: its result and its effect, given how it ends. -/
def call (effect : Answer → Disk → α × Disk) : Sys α := fun d answers =>
  match answers with
  | [] => (none, d)
  | a :: answers => (some ((effect a d).1, answers), (effect a d).2)

theorem pure_apply (a : α) (d : Disk) (answers : List Answer) : (pure a : Sys α) d answers = (some (a, answers), d) := rfl

theorem bind_apply (x : Sys α) (f : α → Sys β) (d : Disk) (answers : List Answer) :
    (x >>= f) d answers = match x d answers with
      | (none, d) => (none, d)
      | (some (a, answers), d) => f a d answers := rfl

theorem bind_ended {x : Sys α} {f : α → Sys β} {d d' : Disk} {a : α} {answers rest : List Answer}
    (ended : x d answers = (some (a, rest), d')) : (x >>= f) d answers = f a d' rest := by
  rw [bind_apply, ended]

theorem bind_killed {x : Sys α} {f : α → Sys β} {d d' : Disk} {answers : List Answer} (killed : x d answers = (none, d')) :
    (x >>= f) d answers = (none, d') := by
  rw [bind_apply, killed]

theorem call_killed (effect : Answer → Disk → α × Disk) (d : Disk) : call effect d [] = (none, d) := rfl

theorem call_ended (effect : Answer → Disk → α × Disk) (d : Disk) (a : Answer) (answers : List Answer) :
    call effect d (a :: answers) = (some ((effect a d).1, answers), (effect a d).2) := rfl

def openFile : Sys Bool := call fun a d => (a.succeeds && d.file.isSome, d)

/-- The bytes from `offset` on, at most `size`. -/
def readAt (offset size : Nat) : Sys (Option (List Char)) := call fun a d =>
  (if a.succeeds then some (((d.file.getD []).drop offset).take (a.bytes size)) else none, d)

/-- The temporary file is created; it must not exist. -/
def create : Sys Bool := call fun a d =>
  if a.succeeds && d.temp.isNone then (true, { d with temp := some ⟨[], false⟩ }) else (false, d)

def close : Sys Bool := call fun a d => (a.succeeds, d)

/-- Every byte of `text` goes to the temporary file, over as many calls as it takes. -/
def writeAll : List Char → Sys Bool := fun text d answers =>
  if text = [] then (some (true, answers), d)
  else match answers with
    | [] => (none, d)
    | .interrupted :: answers => writeAll text d answers
    | .error :: answers => (some (false, answers), d)
    | a :: answers =>
      writeAll (text.drop (a.bytes text.length))
        { d with temp := d.temp.map fun t => ⟨t.text ++ text.take (a.bytes text.length), false⟩ } answers
  termination_by structural _ _ answers => answers

def syncTemp : Sys Bool := call fun a d =>
  if a.succeeds then (true, { d with temp := d.temp.map fun t => { t with synced := true } }) else (false, d)

/-- The temporary file takes the name of the file, at once. -/
def rename : Sys Bool := call fun a d =>
  match a.succeeds, d.temp with
  | true, some t => (true, { file := some t.text, older := d.file :: d.older, torn := d.torn || !t.synced })
  | _, _ => (false, d)

def unlink : Sys Unit := call fun a d => ((), if a.succeeds then { d with temp := none } else d)

def openDir : Sys Bool := call fun a d => (a.succeeds, d)

def syncDir : Sys Bool := call fun a d => if a.succeeds then (true, { d with older := [] }) else (false, d)

/-- Started where `pre` holds, the program leaves a disk with `crash` if it is killed, at whatever call, and one with
`post` if it ends. -/
def Triple (pre : Disk → Prop) (x : Sys α) (crash : Disk → Prop) (post : α → Disk → Prop) : Prop :=
  ∀ d answers, pre d →
    match x d answers with
    | (none, d) => crash d
    | (some (a, _), d) => post a d

section Rules

variable {pre crash : Disk → Prop} {m : α → Disk → Prop} {post : β → Disk → Prop} {x : Sys α} {f : α → Sys β}

theorem Triple.pure {a : α} (holds : ∀ d, pre d → m a d) : Triple pre (Pure.pure a) crash m :=
  fun d _ held => holds d held

theorem Triple.bind (first : Triple pre x crash m) (second : ∀ a, Triple (m a) (f a) crash post) :
    Triple pre (x >>= f) crash post := by
  intro d answers held
  have reached := first d answers held
  rcases ended : x d answers with ⟨_ | ⟨a, rest⟩, d'⟩
  · rw [ended] at reached
    rw [bind_killed ended]
    exact reached
  · rw [ended] at reached
    rw [bind_ended ended]
    exact second a d' rest reached

theorem Triple.call {effect : Answer → Disk → α × Disk} (killed : ∀ d, pre d → crash d)
    (made : ∀ a d, pre d → m (effect a d).1 (effect a d).2) : Triple pre (Sys.call effect) crash m := by
  intro d answers held
  cases answers with
  | nil => exact killed d held
  | cons a answers => exact made a d held

theorem Triple.strengthen {weaker : Disk → Prop} (triple : Triple weaker x crash m) (holds : ∀ d, pre d → weaker d) :
    Triple pre x crash m :=
  fun d answers held => triple d answers (holds d held)

theorem Triple.weaken {broken : Disk → Prop} {after : α → Disk → Prop} (triple : Triple pre x crash m)
    (killed : ∀ d, crash d → broken d) (ended : ∀ a d, m a d → after a d) : Triple pre x broken after := by
  intro d answers held
  have reached := triple d answers held
  revert reached
  rcases x d answers with ⟨_ | ⟨a, rest⟩, d'⟩
  · exact killed d'
  · exact ended a d'

/-- The disk at the start may be named. -/
theorem Triple.from_each (each : ∀ d₀, pre d₀ → Triple (fun d => d = d₀) x crash m) : Triple pre x crash m :=
  fun d answers held => each d held d answers rfl

/-- A property that no byte of the temporary file decides holds all through a write. -/
theorem Triple.writeAll {text done : List Char} {base : Disk → Prop}
    (frame : ∀ d t, base d → base { d with temp := t }) :
    Triple (fun d => base d ∧ ∃ synced, d.temp = some ⟨done, synced⟩) (Sys.writeAll text) base
      (fun ok d => base d ∧ (ok = true → ∃ synced, d.temp = some ⟨done ++ text, synced⟩)) := by
  intro d answers held
  induction answers generalizing text done d with
  | nil =>
    unfold Sys.writeAll
    by_cases empty : text = []
    · rw [if_pos empty, empty]
      exact ⟨held.1, fun _ => by rw [List.append_nil]; exact held.2⟩
    · rw [if_neg empty]
      exact held.1
  | cons a answers ih =>
    unfold Sys.writeAll
    by_cases empty : text = []
    · rw [if_pos empty, empty]
      exact ⟨held.1, fun _ => by rw [List.append_nil]; exact held.2⟩
    rw [if_neg empty]
    obtain ⟨kept, synced, temp⟩ := held
    have later := @ih (text.drop (a.bytes text.length)) (done ++ text.take (a.bytes text.length))
      { d with temp := d.temp.map fun t => ⟨t.text ++ text.take (a.bytes text.length), false⟩ }
      ⟨frame d _ kept, false, by rw [temp]; rfl⟩
    rw [List.append_assoc, List.take_append_drop] at later
    cases a with
    | interrupted => exact ih d ⟨kept, synced, temp⟩
    | error => exact ⟨kept, fun no => by cases no⟩
    | done => exact later
    | short n => exact later

end Rules

/-- While calls succeed the program ends with `a` and `d'`, after at most `calls` of them. -/
def Yields (calls : Nat) (x : Sys α) (d : Disk) (a : α) (d' : Disk) : Prop :=
  ∀ answers, (∀ r ∈ answers, r.succeeds = true) → calls ≤ answers.length →
    ∃ rest, x d answers = (some (a, rest), d') ∧ (∀ r ∈ rest, r.succeeds = true) ∧ answers.length ≤ rest.length + calls

section Progress

variable {n k : Nat} {x : Sys α} {f : α → Sys β} {a : α} {b : β} {d d' d'' : Disk}

theorem Yields.pure : Yields 0 (Pure.pure a : Sys α) d a d :=
  fun answers succeed _ => ⟨answers, rfl, succeed, Nat.le_refl _⟩

theorem Yields.bind (first : Yields n x d a d') (second : Yields k (f a) d' b d'') :
    Yields (n + k) (x >>= f) d b d'' := by
  intro answers succeed enough
  obtain ⟨between, made, succeed, left⟩ := first answers succeed (by omega)
  obtain ⟨rest, made', succeed, left'⟩ := second between succeed (by omega)
  exact ⟨rest, (bind_ended made).trans made', succeed, by omega⟩

theorem Yields.call {effect : Answer → Disk → α × Disk} (made : ∀ r, r.succeeds = true → effect r d = (a, d')) :
    Yields 1 (Sys.call effect) d a d' := by
  intro answers succeed enough
  cases answers with
  | nil => cases enough
  | cons r rest =>
    refine ⟨rest, ?_, fun r' member => succeed r' (List.mem_cons_of_mem _ member), Nat.le_refl _⟩
    show (some ((effect r d).1, rest), (effect r d).2) = _
    rw [made r (succeed r List.mem_cons_self)]

theorem Yields.mono (yields : Yields n x d a d') (fewer : n ≤ k) : Yields k x d a d' := by
  intro answers succeed enough
  obtain ⟨rest, made, succeed, left⟩ := yields answers succeed (by omega)
  exact ⟨rest, made, succeed, by omega⟩

theorem Answer.bytes_pos {r : Answer} {size : Nat} (some : 0 < size) : 0 < r.bytes size ∧ r.bytes size ≤ size := by
  cases r <;> simp only [Answer.bytes] <;> omega

theorem Yields.writeAll {text done : List Char} (temp : d.temp = some ⟨done, false⟩) :
    Yields text.length (Sys.writeAll text) d true { d with temp := some ⟨done ++ text, false⟩ } := by
  intro answers succeed enough
  induction answers generalizing text done d with
  | nil =>
    obtain rfl := List.length_eq_zero_iff.mp (Nat.le_zero.mp enough)
    refine ⟨[], ?_, succeed, Nat.le_refl _⟩
    unfold Sys.writeAll
    rw [if_pos rfl, List.append_nil, ← temp]
  | cons r answers ih =>
    unfold Sys.writeAll
    by_cases empty : text = []
    · rw [if_pos empty, empty, List.append_nil, ← temp]
      exact ⟨r :: answers, rfl, succeed, Nat.le_add_right _ _⟩
    rw [if_neg empty]
    obtain ⟨moved, atMost⟩ := Answer.bytes_pos (r := r) (List.length_pos_iff.mpr empty)
    obtain ⟨t, made⟩ : ∃ t : Disk, t = { d with temp := some ⟨done ++ text.take (r.bytes text.length), false⟩ } := ⟨_, rfl⟩
    have next : ({ d with temp := d.temp.map fun t => ⟨t.text ++ text.take (r.bytes text.length), false⟩ } : Disk) = t := by
      rw [made, temp]
      rfl
    obtain ⟨rest, ended, succeed', left⟩ := @ih t (text.drop (r.bytes text.length))
      (done ++ text.take (r.bytes text.length)) (by rw [made])
      (fun r' member => succeed r' (List.mem_cons_of_mem _ member))
      (by rw [List.length_drop]; rw [List.length_cons] at enough; omega)
    rw [List.append_assoc, List.take_append_drop, made] at ended
    rw [List.length_drop] at left
    refine ⟨rest, ?_, succeed', by rw [List.length_cons]; omega⟩
    have good := succeed r List.mem_cons_self
    cases r with
    | interrupted | error => cases good
    | done | short =>
      simp only [next, made]
      exact ended

end Progress

end Sys

end Dyx3.Lib
