import Mathlib.Data.List.Basic
import Mathlib.Tactic.Ring
import Mathlib.Tactic.Linarith

/-!
Readers of comma-separated sequences: items with a state carried from one to the next, up to a closing bracket.
One rule says what such a reader does on the text of a list, one says that what it accepts is the text of a list.
-/

namespace Dyx3.Lib

variable {σ α : Type}

/-- `text` without `word` in front. -/
def afterWord (word text : List Char) : Option (List Char) :=
  if text.take word.length = word then some (text.drop word.length) else none

theorem afterWord_none {word s : List Char} (other : s.take word.length ≠ word) : afterWord word s = none := if_neg other

theorem afterWord_append (word s : List Char) : afterWord word (word ++ s) = some s := by
  rw [afterWord, List.take_left, if_pos rfl, List.drop_left]

theorem afterWord_cons (c : Char) (t : List Char) : afterWord [c] (c :: t) = some t := afterWord_append [c] t

theorem afterWord_sound {word s t : List Char} (found : afterWord word s = some t) : s = word ++ t := by
  rw [afterWord] at found
  split at found
  · rename_i front
    cases found
    conv_lhs => rw [← List.take_append_drop word.length s, front]
  · cases found

/-- Reads one item; the state depends on the items before it. -/
abbrev ItemReader (σ : Type) := σ → List Char → Option (σ × List Char)

/-- Items up to the closing bracket, at least one. -/
def readItems (item : ItemReader σ) (close : Char) : ℕ → ItemReader σ
  | 0, _, _ => none
  | fuel + 1, acc, s => do
    let (acc, s) ← item acc s
    match s with
    | [] => none
    | c :: t => if c = close then some (acc, t) else if c = ',' then readItems item close fuel acc t else none

/-- What follows an opening bracket. Every item takes a character for itself or its comma. -/
def readSequence (item : ItemReader σ) (close : Char) : ItemReader σ := fun acc s =>
  if s.head? = some close then some (acc, s.tail) else readItems item close s.length acc s

/-- Texts with commas between them. -/
def commas : List (List Char) → List Char
  | [] => []
  | [text] => text
  | text :: texts => text ++ ',' :: commas texts

theorem commas_cons_cons (text text' : List Char) (texts : List (List Char)) :
    commas (text :: text' :: texts) = text ++ ',' :: commas (text' :: texts) := rfl

theorem length_le_commas (texts : List (List Char)) : texts.length ≤ (commas texts).length + 1 := by
  induction texts with
  | nil => exact Nat.zero_le _
  | cons text texts ih =>
    cases texts with
    | nil => simp [commas]
    | cons text' texts =>
      simp only [commas_cons_cons, List.length_append, List.length_cons] at ih ⊢
      omega

/-! ### The fuel -/

section

variable {item : ItemReader σ} {close : Char}
  (forward : ∀ {acc s acc' rest}, item acc s = some (acc', rest) → rest.length ≤ s.length)

include forward

theorem readItems_nil (fuel : ℕ) (acc : σ) : readItems item close fuel acc [] = none := by
  cases fuel with
  | zero => rfl
  | succ fuel =>
    cases found : item acc [] with
    | none => simp [readItems, found]
    | some out =>
      have rest : out.2 = [] := List.eq_nil_of_length_eq_zero (Nat.le_zero.mp (forward found))
      simp [readItems, found, rest]

/-- Fuel beyond the length of the text changes nothing: an item and its comma take a character. -/
theorem readItems_fuel {m n : ℕ} {acc : σ} {s : List Char} (left : s.length ≤ m) (right : s.length ≤ n) :
    readItems item close m acc s = readItems item close n acc s := by
  induction m generalizing n acc s with
  | zero =>
    rw [List.eq_nil_of_length_eq_zero (Nat.le_zero.mp left), readItems_nil forward, readItems_nil forward]
  | succ m ih =>
    cases n with
    | zero =>
      rw [List.eq_nil_of_length_eq_zero (Nat.le_zero.mp right), readItems_nil forward, readItems_nil forward]
    | succ n =>
      cases found : item acc s with
      | none => simp [readItems, found]
      | some out =>
        obtain ⟨acc', rest⟩ := out
        have shorter := forward found
        cases rest with
        | nil => simp [readItems, found]
        | cons c t =>
          rw [List.length_cons] at shorter
          simp only [readItems, found, Option.bind_eq_bind, Option.bind_some]
          split
          · rfl
          · split
            · exact ih (by omega) (by omega)
            · rfl

end

/-- The loop over items, however many rounds it takes: what it ends with. -/
inductive ItemsRun (item : ItemReader σ) (close : Char) : σ → List Char → Option (σ × List Char) → Prop
  | refused {acc : σ} {s : List Char} : item acc s = none → ItemsRun item close acc s none
  | cut {acc acc' : σ} {s : List Char} : item acc s = some (acc', []) → ItemsRun item close acc s none
  | closed {acc acc' : σ} {s t : List Char} :
    item acc s = some (acc', close :: t) → ItemsRun item close acc s (some (acc', t))
  | other {acc acc' : σ} {s t : List Char} {c : Char} :
    item acc s = some (acc', c :: t) → c ≠ close → c ≠ ',' → ItemsRun item close acc s none
  | next {acc acc' : σ} {s t : List Char} {out : Option (σ × List Char)} :
    item acc s = some (acc', ',' :: t) → ',' ≠ close → ItemsRun item close acc' t out → ItemsRun item close acc s out

/-- A reader with fuel for every character does what the loop does, which ends. -/
theorem readItems_run {item : ItemReader σ} {close : Char}
    (forward : ∀ {acc s acc' rest}, item acc s = some (acc', rest) → rest.length ≤ s.length) {fuel : ℕ} {acc : σ}
    {s : List Char} (enough : s.length ≤ fuel) : ItemsRun item close acc s (readItems item close fuel acc s) := by
  induction fuel generalizing acc s with
  | zero =>
    obtain rfl := List.eq_nil_of_length_eq_zero (Nat.le_zero.mp enough)
    cases found : item acc [] with
    | none => exact .refused found
    | some out =>
      obtain ⟨acc', rest⟩ := out
      obtain rfl := List.eq_nil_of_length_eq_zero (Nat.le_zero.mp (forward found))
      exact .cut found
  | succ fuel ih =>
    cases found : item acc s with
    | none =>
      simp only [readItems, found, Option.bind_eq_bind, Option.bind_none]
      exact .refused found
    | some out =>
      obtain ⟨acc', rest⟩ := out
      have shorter := forward found
      simp only [readItems, found, Option.bind_eq_bind, Option.bind_some]
      cases rest with
      | nil => exact .cut found
      | cons c t =>
        dsimp only
        split
        · rename_i last
          subst last
          exact .closed found
        · rename_i more
          split
          · rename_i comma
            subst comma
            rw [List.length_cons] at shorter
            exact .next found more (ih (by omega))
          · rename_i mark
            exact .other found more mark

/-! ### The two rules -/

/-- `item` reads the text of `x` and takes the step from `acc`, or refuses where there is none. -/
def Takes (item : ItemReader σ) (close : Char) (text : α → List Char) (step : σ → α → Option σ) (x : α) : Prop :=
  ∀ acc c rest, c = close ∨ c = ',' → item acc (text x ++ c :: rest) = (step acc x).map (·, c :: rest)

theorem readItems_commas {item : ItemReader σ} {close : Char} {text : α → List Char} {step : σ → α → Option σ}
    (other : close ≠ ',') {fuel : ℕ} {acc : σ} {x : α} {xs : List α} {rest : List Char}
    (enough : xs.length < fuel) (takes : ∀ y ∈ x :: xs, Takes item close text step y) :
    readItems item close fuel acc (commas ((x :: xs).map text) ++ close :: rest) =
      ((x :: xs).foldlM step acc).map (·, rest) := by
  induction xs generalizing fuel acc x with
  | nil =>
    obtain ⟨fuel, rfl⟩ : ∃ n, fuel = n + 1 := ⟨fuel - 1, by omega⟩
    have read := takes x List.mem_cons_self acc close rest (.inl rfl)
    simp only [List.map_cons, List.map_nil, commas, readItems, read, List.foldlM_cons, List.foldlM_nil]
    cases step acc x with
    | none => rfl
    | some acc' => simp
  | cons y ys ih =>
    obtain ⟨fuel, rfl⟩ : ∃ n, fuel = n + 1 := ⟨fuel - 1, by omega⟩
    have read := takes x List.mem_cons_self acc ',' (commas ((y :: ys).map text) ++ close :: rest) (.inr rfl)
    have text : commas ((x :: y :: ys).map text) ++ close :: rest =
        text x ++ ',' :: (commas ((y :: ys).map text) ++ close :: rest) := by
      simp only [List.map_cons, commas_cons_cons, List.append_assoc, List.cons_append]
    rw [text, readItems, read, List.foldlM_cons]
    cases step acc x with
    | none => rfl
    | some acc' =>
      simp only [Option.map_some, Option.bind_eq_bind, Option.bind_some, if_neg other.symm, if_true]
      exact ih (by simpa using enough) fun z member => takes z (List.mem_cons_of_mem _ member)

theorem readSequence_commas {item : ItemReader σ} {close : Char} {text : α → List Char} {step : σ → α → Option σ}
    (other : close ≠ ',') {acc : σ} {xs : List α} {rest : List Char}
    (starts : ∀ x ∈ xs, ∃ c t, text x = c :: t ∧ c ≠ close) (takes : ∀ x ∈ xs, Takes item close text step x) :
    readSequence item close acc (commas (xs.map text) ++ close :: rest) = (xs.foldlM step acc).map (·, rest) := by
  cases xs with
  | nil => simp [readSequence, commas]
  | cons x xs =>
    obtain ⟨c, t, start, differ⟩ := starts x List.mem_cons_self
    have head : (commas ((x :: xs).map text) ++ close :: rest).head? ≠ some close := by
      cases xs with
      | nil => simpa [commas, start] using differ
      | cons y ys => simpa [commas, start] using differ
    rw [readSequence, if_neg head]
    refine readItems_commas other ?_ takes
    have length := length_le_commas ((x :: xs).map text)
    rw [List.length_map, List.length_cons] at length
    rw [List.length_append, List.length_cons]
    omega

/-- What `item` accepts is the text of some `x` and the step to it. -/
def Yields (item : ItemReader σ) (text : α → List Char) (step : σ → α → Option σ) (valid : α → Prop) : Prop :=
  ∀ acc s acc' rest, item acc s = some (acc', rest) → ∃ x, valid x ∧ step acc x = some acc' ∧ s = text x ++ rest

theorem readItems_yields {item : ItemReader σ} {close : Char} {text : α → List Char} {step : σ → α → Option σ}
    {valid : α → Prop} (yields : Yields item text step valid) {fuel : ℕ} {acc acc' : σ} {s rest : List Char}
    (read : readItems item close fuel acc s = some (acc', rest)) :
    ∃ x xs, (∀ y ∈ x :: xs, valid y) ∧ (x :: xs).foldlM step acc = some acc' ∧
      s = commas ((x :: xs).map text) ++ close :: rest := by
  induction fuel generalizing acc s with
  | zero => cases read
  | succ fuel ih =>
    rw [readItems, Option.bind_eq_bind, Option.bind_eq_some_iff] at read
    obtain ⟨⟨acc₁, s₁⟩, found, read⟩ := read
    obtain ⟨x, valid, stepped, rfl⟩ := yields acc s acc₁ s₁ found
    cases s₁ with
    | nil => cases read
    | cons c t =>
      dsimp only at read
      split at read
      · rename_i last
        subst last
        cases read
        refine ⟨x, [], ?_, ?_, rfl⟩
        · intro y member
          rw [List.mem_singleton.mp member]
          exact valid
        · simp [stepped]
      · split at read
        · rename_i comma
          subst comma
          obtain ⟨y, ys, all, folded, rfl⟩ := ih read
          refine ⟨x, y :: ys, ?_, ?_, ?_⟩
          · intro z member
            rcases List.mem_cons.mp member with rfl | member
            · exact valid
            · exact all z member
          · rw [List.foldlM_cons, stepped]
            exact folded
          · simp only [List.map_cons, commas_cons_cons, List.append_assoc, List.cons_append]
        · cases read

theorem readSequence_yields {item : ItemReader σ} {close : Char} {text : α → List Char} {step : σ → α → Option σ}
    {valid : α → Prop} (yields : Yields item text step valid) {acc acc' : σ} {s rest : List Char}
    (read : readSequence item close acc s = some (acc', rest)) :
    ∃ xs : List α, (∀ x ∈ xs, valid x) ∧ xs.foldlM step acc = some acc' ∧ s = commas (xs.map text) ++ close :: rest := by
  rw [readSequence] at read
  split at read
  · rename_i empty
    cases s with
    | nil => cases empty
    | cons c t =>
      cases empty
      cases read
      exact ⟨[], nofun, rfl, rfl⟩
  · obtain ⟨x, xs, valid, folded, text⟩ := readItems_yields yields read
    exact ⟨x :: xs, valid, folded, text⟩

/-! ### Two readings of one sequence -/

/-- On the text of `x`, `item` takes the step of the related state, or refuses where there is none. -/
def Mirrors {τ : Type} (Rel : τ → σ → Prop) (item : ItemReader σ) (close : Char) (text : α → List Char)
    (step : τ → α → Option τ) (x : α) : Prop :=
  ∀ acc acc' c rest, Rel acc acc' → c = close ∨ c = ',' →
    Option.Rel (fun a b => Rel a b.1 ∧ b.2 = c :: rest) (step acc x) (item acc' (text x ++ c :: rest))

theorem readItems_mirrors {τ : Type} {Rel : τ → σ → Prop} {item : ItemReader σ} {close : Char} {text : α → List Char}
    {step : τ → α → Option τ} (other : close ≠ ',') {fuel : ℕ} {acc : τ} {acc' : σ} (related : Rel acc acc') {x : α}
    {xs : List α} {rest : List Char} (enough : xs.length < fuel) (mirrors : ∀ y ∈ x :: xs, Mirrors Rel item close text step y) :
    Option.Rel (fun a b => Rel a b.1 ∧ b.2 = rest) ((x :: xs).foldlM step acc)
      (readItems item close fuel acc' (commas ((x :: xs).map text) ++ close :: rest)) := by
  induction xs generalizing fuel acc acc' x with
  | nil =>
    obtain ⟨fuel, rfl⟩ : ∃ n, fuel = n + 1 := ⟨fuel - 1, by omega⟩
    have read := mirrors x List.mem_cons_self acc acc' close rest related (.inl rfl)
    simp only [List.map_cons, List.map_nil, commas, readItems, List.foldlM_cons, List.foldlM_nil]
    generalize step acc x = left at read ⊢
    generalize item acc' (text x ++ close :: rest) = right at read ⊢
    cases read with
    | none => exact .none
    | some both =>
      rename_i b
      obtain ⟨a, s⟩ := b
      obtain ⟨related, rfl⟩ := both
      simp only [Option.bind_eq_bind, Option.bind_some, if_true]
      exact .some ⟨related, rfl⟩
  | cons y ys ih =>
    obtain ⟨fuel, rfl⟩ : ∃ n, fuel = n + 1 := ⟨fuel - 1, by omega⟩
    have read := mirrors x List.mem_cons_self acc acc' ',' (commas ((y :: ys).map text) ++ close :: rest) related (.inr rfl)
    have parts : commas ((x :: y :: ys).map text) ++ close :: rest =
        text x ++ ',' :: (commas ((y :: ys).map text) ++ close :: rest) := by
      simp only [List.map_cons, commas_cons_cons, List.append_assoc, List.cons_append]
    rw [parts, readItems, List.foldlM_cons]
    generalize step acc x = left at read ⊢
    generalize item acc' _ = right at read ⊢
    cases read with
    | none => exact .none
    | some both =>
      rename_i b
      obtain ⟨a, s⟩ := b
      obtain ⟨related, rfl⟩ := both
      simp only [Option.bind_eq_bind, Option.bind_some, if_neg other.symm, if_true]
      exact ih related (by simpa using enough) fun z member => mirrors z (List.mem_cons_of_mem _ member)

/-- A reader whose state depends on where it reads follows one whose state does not. -/
theorem readSequence_mirrors {τ : Type} {Rel : τ → σ → Prop} {item : ItemReader σ} {close : Char} {text : α → List Char}
    {step : τ → α → Option τ} (other : close ≠ ',') {acc : τ} {acc' : σ} (related : Rel acc acc') {xs : List α}
    {rest : List Char} (starts : ∀ x ∈ xs, ∃ c t, text x = c :: t ∧ c ≠ close)
    (mirrors : ∀ x ∈ xs, Mirrors Rel item close text step x) :
    Option.Rel (fun a b => Rel a b.1 ∧ b.2 = rest) (xs.foldlM step acc)
      (readSequence item close acc' (commas (xs.map text) ++ close :: rest)) := by
  cases xs with
  | nil =>
    have read : readSequence item close acc' (commas (([] : List α).map text) ++ close :: rest) = some (acc', rest) := by
      simp [readSequence, commas]
    rw [read]
    exact .some ⟨related, rfl⟩
  | cons x xs =>
    obtain ⟨c, t, start, differ⟩ := starts x List.mem_cons_self
    have head : (commas ((x :: xs).map text) ++ close :: rest).head? ≠ some close := by
      cases xs with
      | nil => simpa [commas, start] using differ
      | cons y ys => simpa [commas, start] using differ
    rw [readSequence, if_neg head]
    refine readItems_mirrors other related ?_ mirrors
    have length := length_le_commas ((x :: xs).map text)
    rw [List.length_map, List.length_cons] at length
    rw [List.length_append, List.length_cons]
    omega

/-! ### Folds over members with distinct keys -/

section

variable {β κ ν : Type}

/-- Two steps that may refuse, side by side. -/
def sideBySide (f : α → ν → Option α) (g : β → ν → Option β) (p : α × β) (x : ν) : Option (α × β) := do
  let a ← f p.1 x
  let b ← g p.2 x
  some (a, b)

theorem foldlM_sideBySide (f : α → ν → Option α) (g : β → ν → Option β) (p : α × β) (xs : List ν) :
    xs.foldlM (sideBySide f g) p = (do let a ← xs.foldlM f p.1; let b ← xs.foldlM g p.2; some (a, b)) := by
  induction xs generalizing p with
  | nil => rfl
  | cons x xs ih =>
    simp only [List.foldlM_cons, sideBySide]
    cases f p.1 x with
    | none => rfl
    | some a =>
      cases g p.2 x with
      | none => simp
      | some b => exact ih (a, b)

/-- A fold one step of which always refuses. -/
theorem foldlM_refuses {f : α → ν → Option α} {xs : List ν} {x : ν} (member : x ∈ xs) (refuses : ∀ acc, f acc x = none)
    (acc : α) : xs.foldlM f acc = none := by
  induction xs generalizing acc with
  | nil => cases member
  | cons y ys ih =>
    rw [List.foldlM_cons]
    rcases List.mem_cons.mp member with rfl | member
    · rw [refuses]
      rfl
    · cases f acc y with
      | none => rfl
      | some acc' => exact ih member acc'

/-- A step that acts on one key. -/
def onKey [DecidableEq κ] (key : κ) (f : α → ν → Option α) (acc : α) (kv : κ × ν) : Option α :=
  if kv.1 = key then f acc kv.2 else some acc

theorem foldlM_absent [DecidableEq κ] {fields : List (κ × ν)} {key : κ} (absent : ∀ kv ∈ fields, kv.1 ≠ key)
    (f : α → ν → Option α) (acc : α) : fields.foldlM (onKey key f) acc = some acc := by
  induction fields with
  | nil => rfl
  | cons kv fields ih =>
    rw [List.foldlM_cons, onKey, if_neg (absent kv List.mem_cons_self)]
    exact ih fun other member => absent other (List.mem_cons_of_mem _ member)

variable [BEq κ] [LawfulBEq κ]

/-- It acts once. -/
theorem foldlM_onKey [DecidableEq κ] {fields : List (κ × ν)} (distinct : fields.Pairwise fun a b => a.1 ≠ b.1) (key : κ)
    (f : α → ν → Option α) (acc : α) :
    fields.foldlM (onKey key f) acc = (fields.lookup key).elim (some acc) (f acc) := by
  induction fields with
  | nil => rfl
  | cons kv fields ih =>
    obtain ⟨first, distinct⟩ := List.pairwise_cons.mp distinct
    rw [List.foldlM_cons, onKey]
    by_cases here : kv.1 = key
    · subst here
      have found : ((kv.1, kv.2) :: fields).lookup kv.1 = some kv.2 := List.lookup_cons_self
      rw [if_pos rfl, found, Option.elim_some]
      cases f acc kv.2 with
      | none => rfl
      | some acc' => exact foldlM_absent (fun other member same => first other member same.symm) f acc'
    · have later : ((kv.1, kv.2) :: fields).lookup key = fields.lookup key := by
        rw [List.lookup_cons, beq_eq_false_iff_ne.mpr (Ne.symm here)]
      rw [if_neg here, later]
      exact ih distinct

theorem lookup_mem {fields : List (κ × ν)} {key : κ} {v : ν} (found : fields.lookup key = some v) : (key, v) ∈ fields := by
  obtain ⟨before, after, rfl, _⟩ := List.lookup_eq_some_iff.mp found
  exact List.mem_append_right _ List.mem_cons_self

end

end Dyx3.Lib
