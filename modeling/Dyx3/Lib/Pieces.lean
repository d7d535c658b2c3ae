import Mathlib.Data.List.Basic
import Mathlib.Data.List.Chain
import Mathlib.Data.List.Infix

/-!
Lists cut into pieces that share their joints, and lists made of blocks on which a label is constant.
-/

namespace Dyx3.Lib

variable {α β : Type*}

/-- `l` cut into pieces of two elements or more, each of which starts with the last element of the one
before. -/
inductive Pieces : List α → List (List α) → Prop where
  | whole {l : List α} (long : 2 ≤ l.length) : Pieces l [l]
  | cut {p : List α} (x : α) {rest : List α} {ps : List (List α)} (some : p ≠ [])
      (tail : Pieces (x :: rest) ps) : Pieces (p ++ x :: rest) ((p ++ [x]) :: ps)

namespace Pieces

variable {l l₁ l₂ p q : List α} {ps ps₁ ps₂ : List (List α)}

theorem ne_nil (h : Pieces l ps) : ps ≠ [] := by
  cases h <;> simp

theorem head (h : Pieces l (p :: ps)) : p.head? = l.head? := by
  cases h with
  | whole => rfl
  | cut x some => rw [List.head?_append_of_ne_nil _ some, List.head?_append_of_ne_nil _ some]

theorem isPrefix (h : Pieces l (p :: ps)) : p <+: l := by
  cases h with
  | whole => exact List.prefix_rfl
  | @cut p x rest ps some tail => exact ⟨rest, by simp⟩

theorem last (h : Pieces l ps) : ps.getLast?.bind List.getLast? = l.getLast? := by
  induction h with
  | whole => rfl
  | cut x some tail ih =>
    rw [List.getLast?_cons_of_ne_nil tail.ne_nil, ih, List.getLast?_append_of_ne_nil _ (by simp)]

theorem isInfix (h : Pieces l ps) (mem : p ∈ ps) : p <:+: l := by
  induction h with
  | whole => rw [List.mem_singleton.mp mem]
  | @cut p₀ x rest ps some tail ih =>
    rcases List.mem_cons.mp mem with rfl | mem
    · exact List.IsPrefix.isInfix ⟨rest, by simp⟩
    · exact (ih mem).trans (List.suffix_append _ _).isInfix

theorem long_of_mem (h : Pieces l ps) (mem : p ∈ ps) : 2 ≤ p.length := by
  induction h with
  | whole long => rwa [List.mem_singleton.mp mem]
  | cut x some tail ih =>
    rcases List.mem_cons.mp mem with rfl | mem
    · have := List.length_pos_iff.mpr some
      simp only [List.length_append, List.length_cons, List.length_nil]
      omega
    · exact ih mem

/-- What follows the first piece is cut on its own. -/
theorem uncons (h : Pieces l (p :: q :: ps)) :
    ∃ l', p.getLast? = l'.head? ∧ Pieces l' (q :: ps) ∧ ∀ rs, Pieces l' rs → Pieces l (p :: rs) := by
  cases h with
  | @cut p x rest ps some tail => exact ⟨x :: rest, by simp, tail, fun rs => Pieces.cut x some⟩

theorem joint (h : Pieces l (p :: q :: ps)) : p.getLast? = q.head? := by
  obtain ⟨l', shared, tail, -⟩ := h.uncons
  rw [shared, tail.head]

theorem isChain (h : Pieces l ps) : ps.IsChain fun p q => ∃ x, p.getLast? = some x ∧ q.head? = some x := by
  induction h with
  | whole => exact .singleton _
  | @cut p x rest ps some tail ih =>
    refine List.isChain_cons.mpr ⟨fun q head => ⟨x, by simp, ?_⟩, ih⟩
    cases ps with
    | nil => cases head
    | cons q' ps =>
      obtain rfl := Option.some.inj head
      exact tail.head

theorem covers (h : Pieces l ps) : ∀ x ∈ l, ∃ p ∈ ps, x ∈ p := by
  induction h with
  | whole => exact fun x mem => ⟨_, List.mem_singleton_self _, mem⟩
  | cut y some tail ih =>
    intro x mem
    rcases List.mem_append.mp mem with front | later
    · exact ⟨_, List.mem_cons_self, List.mem_append_left _ front⟩
    · obtain ⟨p, there, inside⟩ := ih x later
      exact ⟨p, List.mem_cons_of_mem _ there, inside⟩

/-- Two neighbouring pieces are one piece. -/
theorem fuse (h : Pieces l (p :: q :: ps)) : Pieces l ((p ++ q.tail) :: ps) := by
  cases h with
  | @cut p x rest ps some tail =>
    have := List.length_pos_iff.mpr some
    generalize same : x :: rest = l' at tail
    cases tail with
    | whole long =>
      subst same
      rw [List.tail_cons, List.append_assoc, List.singleton_append]
      refine .whole ?_
      simp only [List.length_append, List.length_cons] at long ⊢
      omega
    | @cut q y rest' ps someq tail =>
      obtain ⟨x', q, rfl⟩ := List.exists_cons_of_ne_nil someq
      obtain ⟨rfl, rfl⟩ : x = x' ∧ rest = q ++ y :: rest' := by simpa using same
      have cut := Pieces.cut (p := p ++ x :: q) y (by simp) tail
      simpa using cut

theorem append (h₁ : Pieces l₁ ps₁) (h₂ : Pieces l₂ ps₂) (shared : l₁.getLast? = l₂.head?) :
    Pieces (l₁ ++ l₂.tail) (ps₁ ++ ps₂) := by
  induction h₁ with
  | @whole l long =>
    obtain ⟨x, p, rfl⟩ : ∃ x p, l = p ++ [x] := by
      have some : l ≠ [] := List.ne_nil_of_length_pos (by omega)
      exact ⟨l.getLast some, l.dropLast, (List.dropLast_append_getLast some).symm⟩
    obtain ⟨rest, rfl⟩ : ∃ rest, l₂ = x :: rest := by
      cases l₂ with
      | nil => simp at shared
      | cons y rest => exact ⟨rest, by simpa using Eq.symm shared⟩
    have some : p ≠ [] := by
      rintro rfl
      simp at long
    simpa using Pieces.cut x some h₂
  | @cut p x rest ps some tail ih =>
    have shared' : (x :: rest).getLast? = l₂.head? := by
      rwa [List.getLast?_append_of_ne_nil _ (by simp)] at shared
    simpa using Pieces.cut x some (ih shared')

end Pieces

/-- The elements whose label is not that of the element before. -/
def changesFrom (f : α → Bool) (prev : Bool) : List α → List α
  | [] => []
  | x :: xs => if prev ≠ f x then x :: changesFrom f (f x) xs else changesFrom f (f x) xs

def changes (f : α → Bool) : List α → List α
  | [] => []
  | x :: xs => changesFrom f (f x) xs

theorem changesFrom_map (f : α → Bool) (g : β → α) (prev : Bool) (l : List β) :
    changesFrom f prev (l.map g) = (changesFrom (f ∘ g) prev l).map g := by
  induction l generalizing prev with
  | nil => rfl
  | cons x l ih =>
    simp only [List.map_cons, changesFrom, ih, Function.comp_apply]
    split <;> simp

theorem changes_map (f : α → Bool) (g : β → α) (l : List β) :
    changes f (l.map g) = (changes (f ∘ g) l).map g := by
  cases l with
  | nil => rfl
  | cons x l => exact changesFrom_map f g (f (g x)) l

theorem mem_of_mem_changesFrom {f : α → Bool} {prev : Bool} {l : List α} {x : α}
    (h : x ∈ changesFrom f prev l) : x ∈ l := by
  induction l generalizing prev with
  | nil => exact h
  | cons y l ih =>
    rw [changesFrom] at h
    split at h
    · rcases List.mem_cons.mp h with rfl | h
      · exact List.mem_cons_self
      · exact List.mem_cons_of_mem _ (ih h)
    · exact List.mem_cons_of_mem _ (ih h)

theorem mem_of_mem_changes {f : α → Bool} {l : List α} {x : α} (h : x ∈ changes f l) : x ∈ l := by
  cases l with
  | nil => exact h
  | cons y l => exact List.mem_cons_of_mem _ (mem_of_mem_changesFrom h)

/-- A block of the label `b`. -/
theorem changesFrom_append {f : α → Bool} {b : Bool} {block : List α} (constant : ∀ x ∈ block, f x = b)
    (rest : List α) : changesFrom f b (block ++ rest) = changesFrom f b rest := by
  induction block with
  | nil => rfl
  | cons x block ih =>
    rw [List.forall_mem_cons] at constant
    simp only [List.cons_append, changesFrom, constant.1, ne_eq, not_true_eq_false, if_false]
    exact ih constant.2

end Dyx3.Lib
