import Mathlib.Data.Nat.Basic

/-!
`SprayAckTokens` (dyx3_px4_link/spray_ack_tokens): the source identities of spray commands, handed out
once each and reserved on disk in blocks. Whether a write of the ledger succeeds comes with the call.
-/

namespace Dyx3.Px4Link

structure Identity where
  system : Nat
  component : Nat
  deriving DecidableEq, Repr

structure AckTokens where
  failed : Bool := false
  next : Nat
  reserved : Nat
  persists : Nat := 0
  deriving DecidableEq, Repr

namespace AckTokens

def first : Nat := 2
def last : Nat := 999
def perSystem : Nat := last - first + 1
def capacity : Nat := 255 * perSystem
def block : Nat := 64

/-- The tokens of a process that starts with `index` in a valid ledger. -/
def load (index : Nat) : AckTokens := { next := index, reserved := index }

def identityAt (index : Nat) : Identity := ⟨index / perSystem + 1, index % perSystem + first⟩

def reserve (t : AckTokens) (persistOk : Bool) : AckTokens × Option Identity :=
  if t.failed || t.next = capacity then (t, none)
  else if t.next = t.reserved then
    -- The mark moves on disk before any pair of the new block is handed out.
    let blockEnd := if capacity - t.next < block then capacity else t.next + block
    if !persistOk then ({ t with failed := true, persists := t.persists + 1 }, none)
    else
      ({ t with next := t.next + 1, reserved := blockEnd, persists := t.persists + 1 }, some (identityAt t.next))
  else ({ t with next := t.next + 1 }, some (identityAt t.next))

theorem reserve_some {t u : AckTokens} {persistOk : Bool} {id : Identity} (reserved : t.reserve persistOk = (u, some id)) :
    id = identityAt t.next ∧ u.next = t.next + 1 := by
  unfold reserve at reserved
  split at reserved
  · cases reserved
  split at reserved
  · simp only at reserved
    split at reserved
    · cases reserved
    · cases reserved
      exact ⟨rfl, rfl⟩
  · cases reserved
    exact ⟨rfl, rfl⟩

theorem identityAt_component_pos (index : Nat) : (identityAt index).component ≠ 0 := by
  simp [identityAt, first]

end AckTokens

end Dyx3.Px4Link
