import Dyx3.Lib.Disk
import Dyx3.Lib.Run
import Dyx3.Px4Link.Ledger

/-!
The ledger file of `SprayAckTokens` (dyx3_px4_link/spray_ack_tokens): how the index is read at a start, and how the
mark of a new block is written before any pair of it is handed out. A byte is written as its character.
-/

namespace Dyx3.Px4Link.SprayAckTokens

open Lib AckTokens

/-- `std::from_chars` of a `uint32_t` that has to use up the text. -/
def fromChars (text : List Char) : Option Nat :=
  if text ≠ [] ∧ text.all Char.isDigit ∧ Nat.ofDigitChars 10 text 0 < 2 ^ 32 then some (Nat.ofDigitChars 10 text 0)
  else none

/-- The index in the contents of a ledger. The old ledger is the next component of system 1. -/
def parse (contents : List Char) : Option Nat :=
  let text := if contents.getLast? = some '\n' then contents.dropLast else contents
  let versioned := text.take 3 == "v2 ".toList
  match fromChars (if versioned then text.drop 3 else text) with
  | none => none
  | some value =>
    if versioned then (if capacity < value then none else some value)
    else if value < first ∨ last + 1 < value then none
    else if capacity < value - first then none
    else some (value - first)

def load : Sys (Option Nat) := do
  if !(← Sys.openFile) then return none
  let contents ← Sys.readAt 0 32
  let extra ← Sys.readAt ((contents.getD []).length) 1
  let closed ← Sys.close
  match contents, extra with
  | some contents, some [] =>
    if contents = [] ∨ 32 ≤ contents.length ∨ !closed then return none
    return parse contents
  | _, _ => return none

/-- The constructor. -/
def construct (path : String) : Sys AckTokens := do
  if path = "" then return { failed := true, next := 0, reserved := 0 }
  match ← load with
  | none => return { failed := true, next := 0, reserved := 0 }
  | some index => return .load index

def contents (next : Nat) : List Char := "v2 ".toList ++ (toString next).toList ++ ['\n']

/-- The temporary file gets its contents, on the medium. -/
def fill (text : List Char) : Sys Bool := do
  if ← Sys.writeAll text then Sys.syncTemp else return false

/-- The rename reaches the medium. -/
def settle : Sys Bool := do
  if !(← Sys.openDir) then return false
  let synced ← Sys.syncDir
  let _ ← Sys.close
  return synced

def persist (next : Nat) : Sys Bool := do
  if !(← Sys.create) then return false
  let written ← fill (contents next)
  let closed ← Sys.close
  let renamed ← (if written && closed then Sys.rename else pure false)
  if renamed then settle
  else do
    Sys.unlink
    return false

def reserve (t : AckTokens) : Sys (AckTokens × Option Identity) :=
  if t.failed then return (t, none)
  else if t.next = capacity then return (t, none)
  else if t.next = t.reserved then do
    let ok ← persist t.blockEnd
    if ok then
      return ({ t with next := t.next + 1, reserved := t.blockEnd, persists := t.persists + 1 }, some (identityAt t.next))
    else return ({ t with failed := true, persists := t.persists + 1 }, none)
  else return ({ t with next := t.next + 1 }, some (identityAt t.next))

/-- The host of the link: its disk, and the tokens of the process when one runs. -/
structure Host where
  disk : Disk
  tokens : Option AckTokens := none
  deriving DecidableEq

inductive HostEvent where
  | start (answers : List Answer)
  | reserve (answers : List Answer)
  | kill
  | power (survivor : Nat) (garbage : Option (List Char)) (temp : Option TempFile)
  deriving DecidableEq

def Host.step (path : String) (s : Host) : HostEvent → Host × Option Identity
  | .start answers =>
    match construct path s.disk answers with
    | (none, disk) => ({ disk, tokens := none }, none)
    | (some (t, _), disk) => ({ disk, tokens := some t }, none)
  | .reserve answers =>
    match s.tokens with
    | none => (s, none)
    | some t =>
      match reserve t s.disk answers with
      | (none, disk) => ({ disk, tokens := none }, none)
      | (some ((t, given), _), disk) => ({ disk, tokens := some t }, given)
  | .kill => ({ s with tokens := none }, none)
  | .power survivor garbage temp => ({ disk := s.disk.reboot survivor garbage temp }, none)

abbrev HostEntry := Entry HostEvent (Option Identity)

/-- The pairs handed out in a history, newest first. -/
def issued (h : List HostEntry) : List Identity := h.filterMap Entry.out

/-- A host with an installed ledger file, whatever it holds. -/
def Host.installed (file : Option (List Char)) (temp : Option TempFile) : Host := { disk := { file, temp } }

/-- What a reservation does to the tokens is the reservation of the tokens in memory, with the outcome of the write. -/
theorem reserve_tokens {t u : AckTokens} {given : Option Identity} {d d' : Disk} {answers rest : List Answer}
    (reserved : reserve t d answers = (some ((u, given), rest), d')) : ∃ ok, t.reserve ok = (u, given) := by
  unfold reserve at reserved
  unfold AckTokens.reserve
  split at reserved
  · cases reserved
    exact ⟨true, by simp_all⟩
  split at reserved
  · cases reserved
    exact ⟨true, by simp_all⟩
  split at reserved
  · rename_i live room spent
    rcases wrote : persist t.blockEnd d answers with ⟨_ | ⟨ok, left⟩, disk⟩
    · simp only [bind, wrote] at reserved
      cases reserved
    · simp only [bind, wrote] at reserved
      cases ok with
      | false =>
        cases reserved
        exact ⟨false, by rw [if_neg (by simp [live, room]), if_pos spent]; rfl⟩
      | true =>
        cases reserved
        exact ⟨true, by rw [if_neg (by simp [live, room]), if_pos spent]; rfl⟩
  · rename_i live room left
    cases reserved
    exact ⟨true, by simp [live, room, left]⟩

theorem toDigits_all_digits (n : Nat) : (Nat.toDigits 10 n).all Char.isDigit = true :=
  List.all_eq_true.mpr fun _ member => Nat.isDigit_of_mem_toDigits (by decide) (by decide) member

theorem fromChars_toDigits {n : Nat} (small : n < 2 ^ 32) : fromChars (Nat.toDigits 10 n) = some n := by
  have value : Nat.ofDigitChars 10 (Nat.toDigits 10 n) 0 = n := Nat.ofDigitChars_ten_toDigits
  rw [fromChars, value, if_pos ⟨Nat.toDigits_ne_nil, toDigits_all_digits n, small⟩]

/-- What is written is read back. -/
theorem parse_contents {n : Nat} (exist : n ≤ capacity) : parse (contents n) = some n := by
  have small : n < 2 ^ 32 := lt_of_le_of_lt exist (by decide)
  have text : contents n = ("v2 ".toList ++ Nat.toDigits 10 n) ++ ['\n'] := by
    simp [contents, toString]
  have version : ("v2 ".toList ++ Nat.toDigits 10 n).take 3 = "v2 ".toList := rfl
  have digits : ("v2 ".toList ++ Nat.toDigits 10 n).drop 3 = Nat.toDigits 10 n := rfl
  simp only [parse, text, List.getLast?_concat, if_true, List.dropLast_concat, version, digits, BEq.rfl,
    fromChars_toDigits small]
  rw [if_neg (by omega)]

end Dyx3.Px4Link.SprayAckTokens
