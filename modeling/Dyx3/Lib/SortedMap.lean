import Mathlib.Data.List.Basic
import Mathlib.Order.Defs.LinearOrder
import Mathlib.Order.Basic
import Mathlib.Order.Lattice

/-!
Maps as lists of entries in the order of their keys: two such lists are equal when their lookups are.
-/

namespace Dyx3.Lib.SortedMap

variable {κ β : Type*}

theorem lookup_entry [BEq κ] [LawfulBEq κ] [DecidableEq κ] (entry : κ × β) (entries : List (κ × β)) (key : κ) :
    (entry :: entries).lookup key = if key = entry.1 then some entry.2 else entries.lookup key := by
  rw [List.lookup_cons]
  by_cases same : key = entry.1
  · rw [if_pos same, beq_iff_eq.mpr same]
  · rw [if_neg same, beq_eq_false_iff_ne.mpr same]

theorem mem_of_lookup [BEq κ] [LawfulBEq κ] [DecidableEq κ] {entries : List (κ × β)} {key : κ} {value : β}
    (found : entries.lookup key = some value) : (key, value) ∈ entries := by
  induction entries with
  | nil => cases found
  | cons entry entries ih =>
    rw [lookup_entry] at found
    split at found
    · rename_i same
      cases found
      rw [same]
      exact List.mem_cons_self
    · exact List.mem_cons_of_mem entry (ih found)

variable [LinearOrder κ]

def Sorted (entries : List (κ × β)) : Prop := entries.Pairwise fun a b => a.1 < b.1

/-- Keeps the order; an entry with the key is replaced. -/
def put (key : κ) (value : β) : List (κ × β) → List (κ × β)
  | [] => [(key, value)]
  | entry :: entries =>
    if key < entry.1 then (key, value) :: entry :: entries
    else if key = entry.1 then (key, value) :: entries
    else entry :: put key value entries

def erase (key : κ) (entries : List (κ × β)) : List (κ × β) := entries.filter fun entry => entry.1 ≠ key

theorem mem_put {key : κ} {value : β} {entries : List (κ × β)} {entry : κ × β} (member : entry ∈ put key value entries) :
    entry = (key, value) ∨ entry ∈ entries := by
  induction entries with
  | nil => exact .inl (List.mem_singleton.mp member)
  | cons first entries ih =>
    rw [put] at member
    split at member
    · exact (List.mem_cons.mp member)
    · split at member
      · exact (List.mem_cons.mp member).imp_right (List.mem_cons_of_mem first)
      · rcases List.mem_cons.mp member with rfl | later
        · exact .inr List.mem_cons_self
        · exact (ih later).imp_right (List.mem_cons_of_mem first)

theorem Sorted.put {entries : List (κ × β)} (sorted : Sorted entries) (key : κ) (value : β) : Sorted (put key value entries) := by
  induction entries with
  | nil => exact List.pairwise_singleton _ _
  | cons first entries ih =>
    obtain ⟨above, rest⟩ := List.pairwise_cons.mp sorted
    rw [SortedMap.put]
    split
    · rename_i less
      refine List.pairwise_cons.mpr ⟨fun entry member => ?_, sorted⟩
      rcases List.mem_cons.mp member with rfl | later
      · exact less
      · exact less.trans (above entry later)
    · split
      · rename_i same
        subst same
        exact List.pairwise_cons.mpr ⟨above, rest⟩
      · rename_i notLess other
        refine List.pairwise_cons.mpr ⟨fun entry member => ?_, ih rest⟩
        rcases mem_put member with rfl | later
        · exact lt_of_le_of_ne (not_lt.mp notLess) (Ne.symm other)
        · exact above entry later

theorem Sorted.erase {entries : List (κ × β)} (sorted : Sorted entries) (key : κ) : Sorted (erase key entries) :=
  List.Pairwise.filter _ sorted

variable [BEq κ] [LawfulBEq κ]

theorem lookup_put (key : κ) (value : β) (entries : List (κ × β)) (other : κ) :
    (put key value entries).lookup other = if other = key then some value else entries.lookup other := by
  induction entries with
  | nil => exact lookup_entry _ _ _
  | cons first entries ih =>
    rw [put]
    split
    · exact lookup_entry _ _ _
    · split
      · rename_i same
        rw [lookup_entry, lookup_entry, same]
        split <;> rfl
      · rename_i different
        rw [lookup_entry, lookup_entry, ih]
        split
        · rename_i here
          rw [if_neg (here ▸ Ne.symm different)]
        · rfl

theorem lookup_erase (key : κ) (entries : List (κ × β)) (other : κ) :
    (erase key entries).lookup other = if other = key then none else entries.lookup other := by
  induction entries with
  | nil => exact (ite_self none).symm
  | cons first entries ih =>
    rw [erase] at ih ⊢
    rw [List.filter_cons, lookup_entry]
    by_cases erased : first.1 = key
    · rw [if_neg (by simpa using erased), ih, erased]
      split <;> rfl
    · rw [if_pos (by simpa using erased), lookup_entry, ih]
      split
      · rename_i here
        rw [if_neg (here ▸ erased)]
      · rfl

theorem lookup_below {entries : List (κ × β)} {key : κ} (below : ∀ entry ∈ entries, key < entry.1) : entries.lookup key = none := by
  induction entries with
  | nil => rfl
  | cons first entries ih =>
    rw [lookup_entry, if_neg (below first List.mem_cons_self).ne]
    exact ih fun entry member => below entry (List.mem_cons_of_mem first member)

theorem Sorted.ext {entries others : List (κ × β)} (sorted : Sorted entries) (sorted' : Sorted others)
    (same : ∀ key, entries.lookup key = others.lookup key) : entries = others := by
  induction entries generalizing others with
  | nil =>
    cases others with
    | nil => rfl
    | cons other others =>
      have first := same other.1
      rw [lookup_entry, if_pos rfl] at first
      cases first
  | cons entry entries ih =>
    obtain ⟨above, rest⟩ := List.pairwise_cons.mp sorted
    cases others with
    | nil =>
      have first := same entry.1
      rw [lookup_entry, if_pos rfl] at first
      cases first
    | cons other others =>
      obtain ⟨above', rest'⟩ := List.pairwise_cons.mp sorted'
      have here := same entry.1
      have there := same other.1
      rw [lookup_entry, if_pos rfl, lookup_entry] at here
      rw [lookup_entry, lookup_entry, if_pos rfl] at there
      rcases lt_trichotomy entry.1 other.1 with less | equal | greater
      · rw [if_neg less.ne, lookup_below fun e member => less.trans (above' e member)] at here
        cases here
      · rw [if_pos equal] at here
        have first : entry = other := Prod.ext equal (Option.some.inj here)
        subst first
        refine congrArg (entry :: ·) (ih rest rest' fun key => ?_)
        have apart := same key
        rw [lookup_entry, lookup_entry] at apart
        by_cases own : key = entry.1
        · rw [own, lookup_below above, lookup_below above']
        · rwa [if_neg own, if_neg own] at apart
      · rw [if_neg greater.ne, lookup_below fun e member => greater.trans (above e member)] at there
        cases there

/-! ### One map over another -/

/-- The entries of `top` put into `base`. -/
def overlay (base top : List (κ × β)) : List (κ × β) := top.foldl (fun entries entry => put entry.1 entry.2 entries) base

omit [BEq κ] [LawfulBEq κ] in
theorem Sorted.overlay {base : List (κ × β)} (sorted : Sorted base) (top : List (κ × β)) : Sorted (overlay base top) := by
  induction top generalizing base with
  | nil => exact sorted
  | cons entry top ih => exact ih (sorted.put entry.1 entry.2)

theorem lookup_overlay (base : List (κ × β)) {top : List (κ × β)} (sorted : Sorted top) (key : κ) :
    (overlay base top).lookup key = (top.lookup key).or (base.lookup key) := by
  induction top generalizing base with
  | nil => rfl
  | cons entry top ih =>
    obtain ⟨above, rest⟩ := List.pairwise_cons.mp sorted
    rw [overlay, List.foldl_cons, ← overlay, ih _ rest, lookup_put, lookup_entry]
    by_cases same : key = entry.1
    · rw [if_pos same, if_pos same, same, lookup_below above]
      rfl
    · rw [if_neg same, if_neg same]

theorem overlay_put {base top : List (κ × β)} (sorted : Sorted base) (sorted' : Sorted top) (key : κ) (value : β) :
    put key value (overlay base top) = overlay base (put key value top) := by
  refine ((sorted.overlay top).put key value).ext (sorted.overlay _) fun other => ?_
  rw [lookup_put, lookup_overlay base sorted', lookup_overlay base (sorted'.put key value), lookup_put]
  split <;> rfl

theorem overlay_nil {top : List (κ × β)} (sorted : Sorted top) : overlay [] top = top := by
  refine (Sorted.overlay List.Pairwise.nil top).ext sorted fun key => ?_
  rw [lookup_overlay [] sorted]
  exact Option.or_none

end Dyx3.Lib.SortedMap
