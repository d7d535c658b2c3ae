import Dyx3.Lib.FloatText
import Dyx3.Lib.Rounded
import Dyx3.Lib.Run
import Dyx3.Rpp.Params

/-!
`ParamSet` with its journal: a batch is tried on tentative values, judged as a whole, and recorded when it is applied.

The decimal text of a number is a parameter: the store only compares and records it.
-/

namespace Dyx3.RppCore

open Lib

variable {R : Type} [Scalar R]

structure Change where
  seq : ℕ
  name : String
  oldValue : String
  newValue : String
  source : String
  deriving DecidableEq

structure SetContext where
  missionRunning : Bool
  source : String

structure ParamStore (R : Type) where
  values : ParamSet R
  journal : List Change := []
  seq : ℕ := 0

namespace ParamStore

/-- The value as text; `print` is `ostream <<` with 17 digits. -/
def fmt (print : R → String) (d : Descriptor R) (n : R) (s : String) : String :=
  match d.kind with
  | .string => s
  | .bool => if decide (n ≤ Scalar.lit 0) && decide (Scalar.lit 0 ≤ n) then "false" else "true"
  | _ => print n

def classRule (missionRunning : Bool) (d : Descriptor R) (item : Item R) : Option String :=
  if d.cls = .restart then some (item.name ++ " is RESTART: it cannot change at runtime")
  else if d.cls = .idleOnly ∧ missionRunning then
    some (item.name ++ " is IDLE_ONLY: refused while a mission is loaded or running")
  else none

/-- The items on the tentative values, and the indices that they set. -/
def fill (table : List (Descriptor R)) (refuse : Descriptor R → Item R → Option String) :
    ParamSet R × List ℕ → List (Item R) → Except String (ParamSet R × List ℕ)
  | t, [] => .ok t
  | (ps, touched), item :: rest =>
    match ParamSet.findIndex table item.name with
    | none => .error ("unknown parameter " ++ item.name)
    | some i =>
      match table[i]? with
      | none => .error ("unknown parameter " ++ item.name)
      | some d =>
        match refuse d item with
        | some why => .error why
        | none =>
          match ParamSet.validate d item.num item.str with
          | some why => .error why
          | none =>
            fill table refuse
              (⟨Function.update ps.nums i item.num, Function.update ps.strs i item.str⟩, touched ++ [i]) rest

/-- A change for each index; `unchanged` leaves out those with the same text. -/
def record (table : List (Descriptor R)) (print : R → String) (source : String) (unchanged : Bool) (old new : ParamSet R) :
    List Change × ℕ → List ℕ → List Change × ℕ
  | entries, [] => entries
  | (journal, seq), i :: rest =>
    match table[i]? with
    | none => record table print source unchanged old new (journal, seq) rest
    | some d =>
      let oldValue := fmt print d (old.nums i) (old.strs i)
      let newValue := fmt print d (new.nums i) (new.strs i)
      if unchanged ∧ oldValue = newValue then record table print source unchanged old new (journal, seq) rest
      else
        record table print source unchanged old new
          (journal ++ [⟨seq + 1, d.name, oldValue, newValue, source⟩], seq + 1) rest

/-- The end of `init_many` and of `set_many`; the reason of the refusal, or `none`. -/
def commit (table : List (Descriptor R)) (print : R → String) (source : String) (unchanged : Bool) (s : ParamStore R)
    (outcome : Except String (ParamSet R × List ℕ)) : ParamStore R × Option String :=
  match outcome with
  | .error why => (s, some why)
  | .ok (tentative, touched) =>
    match tentative.relationsOf with
    | some why => (s, some why)
    | none =>
      let entries := record table print source unchanged s.values tentative (s.journal, s.seq) touched
      (⟨tentative, entries.1, entries.2⟩, none)

section Calls

variable (table : List (Descriptor R)) (print : R → String)

def initMany (s : ParamStore R) (items : List (Item R)) : ParamStore R × Option String :=
  s.commit table print "startup" true (fill table (fun _ _ => none) (s.values, []) items)

def setMany (s : ParamStore R) (items : List (Item R)) (ctx : SetContext) : ParamStore R × Option String :=
  s.commit table print ctx.source false (fill table (classRule ctx.missionRunning) (s.values, []) items)

def set (s : ParamStore R) (item : Item R) (ctx : SetContext) : ParamStore R × Option String :=
  s.setMany table print [item] ctx

inductive Call (R : Type) where
  | initMany (items : List (Item R))
  | set (item : Item R) (ctx : SetContext)
  | setMany (items : List (Item R)) (ctx : SetContext)

def step (s : ParamStore R) : Call R → ParamStore R × Option String
  | .initMany items => s.initMany table print items
  | .set item ctx => s.set table print item ctx
  | .setMany items ctx => s.setMany table print items ctx

/-- Each parameter as text. -/
def formatted (ps : ParamSet R) (i : ℕ) : String :=
  (table[i]?.map fun d => fmt print d (ps.nums i) (ps.strs i)).getD ""

/-- The new values of the journal over `texts`. -/
def replay (texts : ℕ → String) : List Change → ℕ → String
  | [] => texts
  | c :: rest =>
    match ParamSet.findIndex table c.name with
    | none => replay texts rest
    | some i => replay (Function.update texts i c.newValue) rest

def Valid (ps : ParamSet R) : Prop := ∀ i d, table[i]? = some d → ParamSet.validate d (ps.nums i) (ps.strs i) = none

end Calls

variable {table : List (Descriptor R)} {print : R → String}

/-- The batch without the journal is `ParamSet.setMany`. -/
theorem fill_setOne (running : Bool) (items : List (Item R)) (ps : ParamSet R) (touched : List ℕ) :
    (fill table (classRule running) (ps, touched) items).map Prod.fst = items.foldlM (ParamSet.setOne table running) ps := by
  induction items generalizing ps touched with
  | nil => rfl
  | cons item rest ih =>
    rw [List.foldlM_cons, fill, ParamSet.setOne]
    cases ParamSet.findIndex table item.name with
    | none => rfl
    | some i =>
      simp only
      cases table[i]? with
      | none => rfl
      | some d =>
        simp only [classRule]
        split
        · rename_i why refused
          split at refused
          · rename_i restart
            rw [if_pos restart, ← Option.some.inj refused]
            rfl
          · rename_i runtime
            rw [if_neg runtime]
            split at refused
            · rename_i idle
              rw [if_pos idle, ← Option.some.inj refused]
              rfl
            · cases refused
        · rename_i allowed
          split at allowed
          · cases allowed
          · rename_i runtime
            rw [if_neg runtime]
            split at allowed
            · cases allowed
            · rename_i idle
              rw [if_neg idle]
              cases ParamSet.validate d item.num item.str with
              | some why => rfl
              | none => exact ih _ _

theorem setMany_values (s : ParamStore R) (items : List (Item R)) (ctx : SetContext) :
    ParamSet.setMany table ctx.missionRunning s.values items =
      match s.setMany table print items ctx with
      | (_, some why) => .error why
      | (s', none) => .ok s'.values := by
  have filled := @fill_setOne R _ table ctx.missionRunning items s.values []
  unfold ParamSet.setMany
  rw [← filled]
  unfold setMany commit
  cases fill table (classRule ctx.missionRunning) (s.values, []) items with
  | error why => rfl
  | ok t =>
    obtain ⟨tentative, touched⟩ := t
    simp only [Except.map, bind, Except.bind]
    cases tentative.relationsOf <;> rfl

/-! ### What a batch sets -/

/-- From `old` a batch sets the parameters at `touched`: each by an item that the rule lets through, to a valid value. -/
structure Filled (table : List (Descriptor R)) (refuse : Descriptor R → Item R → Option String) (old new : ParamSet R) (touched : List ℕ) :
    Prop where
  untouched : ∀ j ∉ touched, new.nums j = old.nums j ∧ new.strs j = old.strs j
  found : ∀ i ∈ touched, ∃ d, table[i]? = some d ∧ ParamSet.findIndex table d.name = some i
  allowed : ∀ i ∈ touched, ∀ d, table[i]? = some d → ∃ item, refuse d item = none
  valid : ∀ i ∈ touched, ∀ d, table[i]? = some d → ParamSet.validate d (new.nums i) (new.strs i) = none

theorem findIndex_self {name : String} {i : ℕ} {d : Descriptor R} (found : ParamSet.findIndex table name = some i)
    (there : table[i]? = some d) : ParamSet.findIndex table d.name = some i := by
  obtain ⟨inside, names, -⟩ := List.findIdx?_eq_some_iff_getElem.mp found
  obtain rfl : table[i] = d := by simpa [List.getElem?_eq_getElem inside] using there
  rw [of_decide_eq_true names]
  exact found

theorem Filled.put {refuse : Descriptor R → Item R → Option String} {old new : ParamSet R} {touched : List ℕ}
    (filled : Filled table refuse old new touched) {item : Item R} {i : ℕ} {d : Descriptor R}
    (found : ParamSet.findIndex table item.name = some i) (there : table[i]? = some d) (allowed : refuse d item = none)
    (valid : ParamSet.validate d item.num item.str = none) :
    Filled table refuse old ⟨Function.update new.nums i item.num, Function.update new.strs i item.str⟩ (touched ++ [i]) := by
  refine ⟨fun j outside => ?_, fun j member => ?_, fun j member d' there' => ?_, fun j member d' there' => ?_⟩
  · rw [List.mem_append, List.mem_singleton, not_or] at outside
    simp only [Function.update_of_ne outside.2]
    exact filled.untouched j outside.1
  · rcases List.mem_append.mp member with before | here
    · exact filled.found j before
    · rw [List.mem_singleton.mp here]
      exact ⟨d, there, findIndex_self found there⟩
  · rcases List.mem_append.mp member with before | here
    · exact filled.allowed j before d' there'
    · rw [List.mem_singleton.mp here, there] at there'
      exact ⟨item, Option.some.inj there' ▸ allowed⟩
  · by_cases same : j = i
    · subst same
      rw [there] at there'
      simp only [Function.update_self]
      exact Option.some.inj there' ▸ valid
    · simp only [Function.update_of_ne same]
      rcases List.mem_append.mp member with before | here
      · exact filled.valid j before d' there'
      · exact absurd (List.mem_singleton.mp here) same

theorem fill_filled {refuse : Descriptor R → Item R → Option String} {items : List (Item R)} {old ps new : ParamSet R} {start touched : List ℕ}
    (filled : Filled table refuse old ps start) (done : fill table refuse (ps, start) items = .ok (new, touched)) :
    Filled table refuse old new touched := by
  induction items generalizing ps start with
  | nil =>
    obtain ⟨rfl, rfl⟩ := Prod.mk.inj (Except.ok.inj done)
    exact filled
  | cons item rest ih =>
    unfold fill at done
    split at done
    · cases done
    rename_i i found
    split at done
    · cases done
    rename_i d there
    split at done
    · cases done
    rename_i allowed
    split at done
    · cases done
    rename_i valid
    exact ih (filled.put found there allowed valid) done

theorem fill_all {refuse : Descriptor R → Item R → Option String} {items : List (Item R)} {old new : ParamSet R} {touched : List ℕ}
    (done : fill table refuse (old, []) items = .ok (new, touched)) : Filled table refuse old new touched :=
  fill_filled ⟨fun _ _ => ⟨rfl, rfl⟩, by simp, by simp, by simp⟩ done

/-! ### The journal -/

theorem replay_append (texts : ℕ → String) (changes later : List Change) :
    replay table texts (changes ++ later) = replay table (replay table texts changes) later := by
  induction changes generalizing texts with
  | nil => rfl
  | cons c changes ih =>
    rw [List.cons_append, replay, replay]
    split
    · exact ih texts
    · exact ih _

/-- Where the replay is on the way through the touched indices: each parameter has its new text, or its old one and
its turn is still to come. -/
theorem record_replay {refuse : Descriptor R → Item R → Option String} {old new : ParamSet R} {touched : List ℕ}
    (filled : Filled table refuse old new touched) (source : String) (unchanged : Bool) {rest : List ℕ} (inside : rest ⊆ touched)
    (texts : ℕ → String) (journal : List Change) (seq : ℕ)
    (way : ∀ j, replay table texts journal j = formatted table print new j ∨
      (j ∈ rest ∧ replay table texts journal j = formatted table print old j)) :
    replay table texts (record table print source unchanged old new (journal, seq) rest).1 = formatted table print new := by
  induction rest generalizing journal seq with
  | nil =>
    funext j
    rcases way j with now | ⟨none, -⟩
    · exact now
    · exact absurd none List.not_mem_nil
  | cons i rest ih =>
    have later : rest ⊆ touched := fun j member => inside (List.mem_cons_of_mem _ member)
    obtain ⟨d, there, found⟩ := filled.found i (inside List.mem_cons_self)
    have text : ∀ ps : ParamSet R, formatted table print ps i = fmt print d (ps.nums i) (ps.strs i) := by
      intro ps
      rw [formatted, there]
      rfl
    rw [record, there]
    simp only
    split
    · rename_i skip
      refine ih later journal seq fun j => ?_
      rcases way j with now | ⟨member, before⟩
      · exact .inl now
      · rcases List.mem_cons.mp member with rfl | member
        · rw [text, skip.2, ← text] at before
          exact .inl before
        · exact .inr ⟨member, before⟩
    · refine ih later _ _ fun j => ?_
      simp only [replay_append, replay, found]
      by_cases same : j = i
      · subst same
        rw [Function.update_self, ← text]
        exact .inl rfl
      · rw [Function.update_of_ne same]
        rcases way j with now | ⟨member, before⟩
        · exact .inl now
        · rcases List.mem_cons.mp member with rfl | member
          · exact absurd rfl same
          · exact .inr ⟨member, before⟩

/-! ### Over a run -/

/-- What a call does: it changes nothing, or it sets valid values that satisfy the relations and records them. -/
theorem commit_cases {refuse : Descriptor R → Item R → Option String} {items : List (Item R)} (s : ParamStore R) (source : String)
    (unchanged : Bool) {s' : ParamStore R} {answer : Option String}
    (done : s.commit table print source unchanged (fill table refuse (s.values, []) items) = (s', answer)) :
    (s' = s ∧ answer ≠ none) ∨
    (answer = none ∧ s'.values.relationsOf = none ∧ ∃ touched, Filled table refuse s.values s'.values touched ∧
      (s'.journal, s'.seq) = record table print source unchanged s.values s'.values (s.journal, s.seq) touched) := by
  unfold commit at done
  split at done
  · obtain ⟨rfl, rfl⟩ := Prod.mk.inj done
    exact .inl ⟨rfl, by simp⟩
  · rename_i tentative touched filled
    split at done
    · obtain ⟨rfl, rfl⟩ := Prod.mk.inj done
      exact .inl ⟨rfl, by simp⟩
    · rename_i related
      obtain ⟨rfl, rfl⟩ := Prod.mk.inj done
      exact .inr ⟨rfl, related, touched, fill_all filled, rfl⟩

def Call.rule : Call R → Descriptor R → Item R → Option String
  | .initMany _ => fun _ _ => none
  | .set _ ctx | .setMany _ ctx => classRule ctx.missionRunning

/-- The same for every call, with its class rule. -/
theorem step_cases (table : List (Descriptor R)) (print : R → String) (s : ParamStore R) (call : Call R) :
    ((step table print s call).1 = s ∧ (step table print s call).2 ≠ none) ∨
    ((step table print s call).2 = none ∧ (step table print s call).1.values.relationsOf = none ∧
      ∃ touched source unchanged, Filled table call.rule s.values (step table print s call).1.values touched ∧
        ((step table print s call).1.journal, (step table print s call).1.seq) =
          record table print source unchanged s.values (step table print s call).1.values (s.journal, s.seq) touched) := by
  cases call with
  | initMany items =>
    rcases commit_cases s "startup" true rfl with same |
      ⟨accepted, related, touched, filled, recorded⟩
    · exact .inl same
    · exact .inr ⟨accepted, related, touched, _, _, filled, recorded⟩
  | set item ctx =>
    rcases commit_cases s ctx.source false rfl with same |
      ⟨accepted, related, touched, filled, recorded⟩
    · exact .inl same
    · exact .inr ⟨accepted, related, touched, _, _, filled, recorded⟩
  | setMany items ctx =>
    rcases commit_cases s ctx.source false rfl with same |
      ⟨accepted, related, touched, filled, recorded⟩
    · exact .inl same
    · exact .inr ⟨accepted, related, touched, _, _, filled, recorded⟩

def start (table : List (Descriptor R)) : ParamStore R := { values := ParamSet.defaults table }

/-- Valid values that satisfy the relations, and a journal that explains them. -/
structure Accounted (table : List (Descriptor R)) (print : R → String) (s : ParamStore R) : Prop where
  valid : Valid table s.values
  related : s.values.relationsOf = none
  explained : replay table (formatted table print (ParamSet.defaults table)) s.journal = formatted table print s.values

theorem Accounted.step {s : ParamStore R} (accounted : Accounted table print s) (call : Call R) :
    Accounted table print (step table print s call).1 := by
  rcases step_cases table print s call with ⟨same, -⟩ | ⟨-, related, touched, source, unchanged, filled, recorded⟩
  · rwa [same]
  · refine ⟨fun i d there => ?_, related, ?_⟩
    · by_cases member : i ∈ touched
      · exact filled.valid i member d there
      · obtain ⟨num, str⟩ := filled.untouched i member
        rw [num, str]
        exact accounted.valid i d there
    · rw [show (ParamStore.step table print s call).1.journal = _ from congrArg Prod.fst recorded]
      refine record_replay filled source unchanged (List.Subset.refl touched) _ s.journal s.seq fun j => ?_
      rw [accounted.explained]
      by_cases member : j ∈ touched
      · exact .inr ⟨member, rfl⟩
      · obtain ⟨num, str⟩ := filled.untouched j member
        left
        unfold formatted
        rw [num, str]

/-- What a call leaves alone. -/
structure Transactional (table : List (Descriptor R)) (print : R → String) (s : ParamStore R) (call : Call R) : Prop where
  refused : (ParamStore.step table print s call).2 ≠ none → (ParamStore.step table print s call).1 = s
  restart : ∀ i d, table[i]? = some d → d.cls = .restart → (∀ items, call ≠ .initMany items) →
    (ParamStore.step table print s call).1.values.nums i = s.values.nums i ∧
      (ParamStore.step table print s call).1.values.strs i = s.values.strs i
  idleOnly : ∀ i d, table[i]? = some d → d.cls = .idleOnly →
    (∃ items source, call = .setMany items ⟨true, source⟩) ∨ (∃ item source, call = .set item ⟨true, source⟩) →
      (ParamStore.step table print s call).1.values.nums i = s.values.nums i ∧
        (ParamStore.step table print s call).1.values.strs i = s.values.strs i

/-- An accepted call leaves a parameter alone whose class it refuses. -/
theorem step_spares (s : ParamStore R) (call : Call R) {i : ℕ} {d : Descriptor R} (there : table[i]? = some d)
    (refuses : ∀ item, call.rule d item ≠ none) :
    (step table print s call).1.values.nums i = s.values.nums i ∧ (step table print s call).1.values.strs i = s.values.strs i := by
  rcases step_cases table print s call with ⟨same, -⟩ | ⟨-, -, touched, -, -, filled, -⟩
  · rw [same]
    exact ⟨rfl, rfl⟩
  · apply filled.untouched
    intro member
    obtain ⟨item, allowed⟩ := filled.allowed i member d there
    exact refuses item allowed

theorem step_transactional (s : ParamStore R) (call : Call R) : Transactional table print s call := by
  refine ⟨fun refused => ?_, fun i d there restart runtime => ?_, fun i d there idle running => ?_⟩
  · rcases step_cases table print s call with ⟨same, -⟩ | ⟨accepted, -⟩
    · exact same
    · exact absurd accepted refused
  · apply step_spares s call there
    intro item
    cases call with
    | initMany items => exact absurd rfl (runtime items)
    | set | setMany => simp [Call.rule, classRule, restart]
  · apply step_spares s call there
    intro item
    rcases running with ⟨items, source, rfl⟩ | ⟨one, source, rfl⟩ <;> simp [Call.rule, classRule, idle]

/-- Over every run the values stay valid and related and the journal explains them, and each call is a transaction. -/
theorem params_transactional (valid : Valid table (ParamSet.defaults table)) (related : (ParamSet.defaults table).relationsOf = none)
    {h : List (Entry (Call R) (Option String))} {s : ParamStore R} (run : Run (step table print) (start table) h s) :
    Accounted table print s ∧ ∀ call, Transactional table print s call := by
  refine ⟨?_, fun call => step_transactional s call⟩
  apply run.invariant fun _ s => Accounted table print s
  · exact ⟨valid, related, rfl⟩
  · exact fun _ s call accounted _ => accounted.step call

/-- Every default of the table passes its own check. -/
theorem kTable_valid : Valid (kTable : List (Descriptor Flt)) (ParamSet.defaults kTable) := by
  have each : ∀ d ∈ (kTable : List (Descriptor Flt)), ParamSet.validate d d.dflt d.sdflt = none := by decide +kernel
  intro i d there
  have own := each d (List.mem_of_getElem? there)
  simpa only [ParamSet.defaults, there, Option.map_some, Option.getD_some] using own

/-- `ostream <<` with 17 digits, of the nearest double. -/
def ostream : Flt → String
  | .nan => "nan"
  | .inf neg => if neg then "-inf" else "inf"
  | .fin x =>
    let v := Double.ofRat x
    let d := (v.withDigits 17).getD (0, 0)
    let sci := Scientific.of v.neg d.1 d.2
    let point := sci.exp + 1
    let text :=
      if -4 < point ∧ point ≤ 17 then
        if point ≤ 0 then "0.".toList ++ List.replicate (-point).toNat '0' ++ sci.digits
        else if sci.digits.length ≤ point then sci.digits ++ List.replicate (point - sci.digits.length).toNat '0'
        else sci.digits.take point.toNat ++ '.' :: sci.digits.drop point.toNat
      else
        sci.digits.take 1 ++ (if 1 < sci.digits.length then '.' :: sci.digits.drop 1 else []) ++
          (if sci.exp < 0 then "e-" else "e+").toList ++ (if sci.exp.natAbs < 10 then ['0'] else []) ++ Nat.toDigits 10 sci.exp.natAbs
    String.ofList ((if v.neg then ['-'] else []) ++ text)

/-- A batch that is applied, one that breaks a relation and one that a mission refuses. -/
theorem params_transactional_calls :
    Accounted kTable ostream (exec (step kTable ostream) [] (start kTable) [.initMany [⟨"mission_speed", .fin (1 / 2), ""⟩],
      .setMany [⟨"kappa_hard_exit", .fin 1, ""⟩] ⟨false, "tablet"⟩, .set ⟨"pivot_intercept_dist_m", .fin 1, ""⟩ ⟨true, "cli"⟩]).2 :=
  (params_transactional kTable_valid (by decide +kernel) (exec_run _ .start)).1

end ParamStore

end Dyx3.RppCore
