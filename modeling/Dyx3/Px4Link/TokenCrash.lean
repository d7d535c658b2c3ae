import Mathlib.Tactic.IntervalCases
import Dyx3.Px4Link.TokenFile

/-!
The pairs of `SprayAckTokens` over starts, failed writes, crashes and power losses of the host: none is handed out
twice, and when a host that came back hands out pairs again.
-/

namespace Dyx3.Px4Link.SprayAckTokens

open Lib AckTokens Sys

/-- Whatever contents of the ledger survive, the index in them is at least `mark`. -/
structure Above (mark : Nat) (d : Disk) : Prop where
  whole : d.torn = false
  marks : ∀ text, some text ∈ d.file :: d.older → ∀ index, parse text = some index → mark ≤ index

variable {mark next : Nat} {d : Disk} {t : AckTokens}

theorem Above.temp (above : Above mark d) (temp : Option TempFile) : Above mark { d with temp } := ⟨above.whole, above.marks⟩

theorem Above.mono {lower : Nat} (above : Above mark d) (below : lower ≤ mark) : Above lower d :=
  ⟨above.whole, fun text member index found => below.trans (above.marks text member index found)⟩

theorem Above.reboot (above : Above mark d) (survivor : Nat) (garbage : Option (List Char)) (temp : Option TempFile) :
    Above mark (d.reboot survivor garbage temp) := by
  refine ⟨rfl, fun text member index found => above.marks text ?_ index found⟩
  rw [Disk.reboot, above.whole] at member
  rw [List.mem_singleton.mp member]
  rcases kept : (d.file :: d.older)[survivor]? with _ | content
  · exact List.mem_cons_self
  · exact List.mem_of_getElem? kept

/-- The file is written whole and synced before it gets the name. -/
theorem Above.renamed {synced : Bool} (above : Above mark d) (below : mark ≤ next) (exist : next ≤ capacity)
    (sync : synced = true) :
    Above mark { file := some (contents next), older := d.file :: d.older, torn := d.torn || !synced } := by
  refine ⟨by rw [above.whole, sync]; rfl, fun text member index found => ?_⟩
  rcases List.mem_cons.mp member with same | member
  · cases same
    rw [parse_contents exist] at found
    cases found
    exact below
  · exact above.marks text member index found

theorem Above.synced (exist : next ≤ capacity) (whole : d.torn = false) (file : d.file = some (contents next)) :
    Above next { d with older := [] } := by
  refine ⟨whole, fun text member index found => ?_⟩
  have same := List.mem_singleton.mp member
  rw [file] at same
  cases same
  rw [parse_contents exist] at found
  cases found
  exact Nat.le_refl _

theorem fill_above (text : List Char) :
    Triple (fun d => Above mark d ∧ ∃ synced, d.temp = some ⟨[], synced⟩) (fill text) (Above mark)
      (fun ok d => Above mark d ∧ (ok = true → d.temp = some ⟨text, true⟩)) := by
  refine Triple.bind (Triple.writeAll fun d temp above => above.temp temp) fun ok => ?_
  cases ok with
  | false => exact Triple.pure fun d held => ⟨held.1, fun no => by cases no⟩
  | true =>
    refine Triple.call (fun d held => held.1) fun a d held => ?_
    obtain ⟨above, filled⟩ := held
    obtain ⟨synced, temp⟩ := filled rfl
    split
    · exact ⟨above.temp _, fun _ => by simp [temp]⟩
    · exact ⟨above, fun no => by cases no⟩

theorem settle_above (exist : next ≤ capacity) :
    Triple (fun d => Above mark d ∧ d.file = some (contents next)) settle (Above mark)
      (fun ok d => Above mark d ∧ (ok = true → Above next d)) := by
  refine Triple.bind (Triple.call (m := fun _ d => Above mark d ∧ d.file = some (contents next))
    (fun d held => held.1) fun a d held => held) fun opened => ?_
  cases opened with
  | false => exact Triple.pure fun d held => ⟨held.1, fun no => by cases no⟩
  | true =>
    refine Triple.bind (Triple.call (m := fun ok d => Above mark d ∧ (ok = true → Above next d))
      (fun d held => held.1) fun a d held => ?_) fun synced => ?_
    · obtain ⟨above, file⟩ := held
      split
      · refine ⟨⟨above.whole, fun text member => above.marks text ?_⟩, fun _ => .synced exist above.whole file⟩
        exact List.mem_cons.mpr (.inl (List.mem_singleton.mp member))
      · exact ⟨above, fun no => by cases no⟩
    · exact Triple.bind (Triple.call (m := fun _ d => Above mark d ∧ (synced = true → Above next d))
        (fun d held => held.1) fun a d held => held) fun _ => Triple.pure fun d held => held

/-- At whatever call a write is killed or fails, no surviving mark falls; when it reports success they all have
reached the new one. -/
theorem persist_above (mark : Nat) (below : mark ≤ next) (exist : next ≤ capacity) :
    Triple (Above mark) (persist next) (Above mark) (fun ok d => Above mark d ∧ (ok = true → Above next d)) := by
  refine Triple.bind (Triple.call
    (m := fun ok d => Above mark d ∧ (ok = true → ∃ synced, d.temp = some ⟨[], synced⟩)) (fun d above => above)
    fun a d above => ?_) fun created => ?_
  · split
    · exact ⟨above.temp _, fun _ => ⟨false, rfl⟩⟩
    · exact ⟨above, fun no => by cases no⟩
  cases created with
  | false => exact Triple.pure fun d held => ⟨held.1, fun no => by cases no⟩
  | true =>
    refine Triple.bind ((fill_above (contents next)).strengthen fun d held => ⟨held.1, held.2 rfl⟩) fun written => ?_
    refine Triple.bind (Triple.call
      (m := fun _ d => Above mark d ∧ (written = true → d.temp = some ⟨contents next, true⟩))
      (fun d held => held.1) fun a d held => held) fun closed => ?_
    refine Triple.bind (m := fun ok d => Above mark d ∧ (ok = true → d.file = some (contents next))) ?_ fun renamed => ?_
    · split
      · rename_i both
        have wrote : written = true := (Bool.and_eq_true _ _ ▸ both).1
        refine Triple.call (fun d held => held.1) fun a d held => ?_
        have temp := held.2 wrote
        rw [temp]
        cases a.succeeds with
        | true => exact ⟨held.1.renamed below exist rfl, fun _ => rfl⟩
        | false => exact ⟨held.1, fun no => by cases no⟩
      · exact Triple.pure fun d held => ⟨held.1, fun no => by cases no⟩
    · cases renamed with
      | true => exact (settle_above exist).strengthen fun d held => ⟨held.1, held.2 rfl⟩
      | false =>
        refine Triple.bind (Triple.call (m := fun _ => Above mark) (fun d held => held.1) fun a d held => ?_)
          fun _ => Triple.pure fun d above => ⟨above, fun no => by cases no⟩
        dsimp only
        split
        · exact held.1.temp _
        · exact held.1

theorem take_whole {file : List Char} {k : Nat} (ended : (file.drop (file.take k).length).take 1 = []) : file.take k = file := by
  rcases List.take_eq_nil_iff.mp ended with one | empty
  · cases one
  · have long := List.drop_eq_nil_iff.mp empty
    exact List.take_of_length_le (by rw [List.length_take] at long; omega)

theorem bytes_one (a : Answer) : a.bytes 1 = 1 := by
  cases a <;> simp only [Answer.bytes]
  omega

/-- A ledger is only accepted when its whole contents were read. -/
theorem load_reads (d₀ : Disk) :
    Triple (fun d => d = d₀) load (fun d => d = d₀)
      (fun found d => d = d₀ ∧ ∀ index, found = some index → ∃ text, d₀.file = some text ∧ parse text = some index) := by
  have nothing : Triple (fun d => d = d₀) (pure none) (fun d => d = d₀)
      (fun found d => d = d₀ ∧ ∀ index, found = some index → ∃ text, d₀.file = some text ∧ parse text = some index) :=
    Triple.pure fun d same => ⟨same, fun index no => by cases no⟩
  refine Triple.bind (Triple.call (m := fun ok d => d = d₀ ∧ (ok = true → d₀.file.isSome = true)) (fun d same => same)
    fun a d same => ⟨same, fun ok => by rw [← same]; exact (Bool.and_eq_true _ _ ▸ ok).2⟩) fun opened => ?_
  cases opened with
  | false => exact nothing.strengthen fun d held => held.1
  | true =>
    refine Triple.bind (Triple.call (m := fun contents d => d = d₀ ∧ d₀.file.isSome = true ∧
      ∀ text, contents = some text → ∃ k, text = (d₀.file.getD []).take k) (fun d held => held.1)
      fun a d held => ⟨held.1, held.2 rfl, fun text read => ?_⟩) fun contents => ?_
    · rw [held.1] at read
      dsimp only at read
      split at read
      · exact ⟨_, (Option.some.inj read).symm⟩
      · cases read
    refine Triple.bind (Triple.call (m := fun extra d => d = d₀ ∧ (extra = some [] → ∀ text, contents = some text →
      d₀.file = some text)) (fun d held => held.1) fun a d held => ⟨held.1, fun ended text read => ?_⟩) fun extra => ?_
    · obtain ⟨same, exists', prefixes⟩ := held
      obtain ⟨file, named⟩ := Option.isSome_iff_exists.mp exists'
      obtain ⟨k, taken⟩ := prefixes text read
      have whole : d₀.file.getD [] = file := by rw [named]; rfl
      rw [whole] at taken
      rw [same, read, bytes_one, whole] at ended
      dsimp only at ended
      split at ended
      · rw [named, taken]
        rw [Option.getD_some, taken] at ended
        exact congrArg some (take_whole (Option.some.inj ended)).symm
      · cases ended
    refine Triple.bind (Triple.call (m := fun _ d => d = d₀ ∧ (extra = some [] → ∀ text, contents = some text →
      d₀.file = some text)) (fun d held => held.1) fun a d held => held) fun closed => ?_
    split
    · rename_i text
      split
      · exact nothing.strengthen fun d held => held.1
      · exact Triple.pure fun d held => ⟨held.1, fun index found => ⟨text, held.2 rfl text rfl, found⟩⟩
    · exact nothing.strengthen fun d held => held.1

/-- The tokens of a running process stay ahead of `mark`, and behind what is on disk. -/
def Holds (mark : Nat) (d : Disk) (t : AckTokens) : Prop :=
  t.failed = false → mark ≤ t.next ∧ t.next ≤ t.reserved ∧ t.reserved ≤ capacity ∧ (t.next ≠ t.reserved → Above t.reserved d)

theorem parse_le {contents : List Char} {index : Nat} (found : parse contents = some index) : index ≤ capacity := by
  simp only [parse] at found
  generalize ((if contents.getLast? = some '\n' then contents.dropLast else contents).take 3 == "v2 ".toList) = versioned at found
  generalize fromChars _ = value at found
  cases value with
  | none => cases found
  | some value =>
    cases versioned with
    | true =>
      simp only [if_true, Option.ite_none_left_eq_some, Option.some.injEq] at found
      omega
    | false =>
      simp only [Bool.false_eq_true, if_false, Option.ite_none_left_eq_some, Option.some.injEq] at found
      omega

theorem construct_holds (path : String) :
    Triple (Above mark) (construct path) (Above mark) (fun t d => Above mark d ∧ Holds mark d t) := by
  unfold construct
  split
  · exact Triple.pure fun d above => ⟨above, fun no => by cases no⟩
  have loaded : Triple (Above mark) load (Above mark)
      (fun found d => Above mark d ∧ ∀ index, found = some index → mark ≤ index ∧ index ≤ capacity) := by
    refine Triple.from_each fun d₀ above => (load_reads d₀).weaken (fun d same => same ▸ above) fun found d reads => ?_
    refine ⟨reads.1 ▸ above, fun index some => ?_⟩
    obtain ⟨text, file, parsed⟩ := reads.2 index some
    exact ⟨above.marks text (by rw [file]; exact List.mem_cons_self) index parsed, parse_le parsed⟩
  refine Triple.bind loaded fun found => ?_
  cases found with
  | none => exact Triple.pure fun d held => ⟨held.1, fun no => by cases no⟩
  | some index =>
    refine Triple.pure fun d held => ⟨held.1, fun _ => ?_⟩
    obtain ⟨least, most⟩ := held.2 index rfl
    exact ⟨least, Nat.le_refl _, most, fun differ => absurd rfl differ⟩

/-- A pair handed out leaves every mark behind it. -/
def Reserved (mark : Nat) (t : AckTokens) (r : AckTokens × Option Identity) (d : Disk) : Prop :=
  match r.2 with
  | none => Above mark d ∧ Holds mark d r.1
  | some id => id = identityAt t.next ∧ mark ≤ t.next ∧ t.next < capacity ∧ Above (t.next + 1) d ∧ Holds (t.next + 1) d r.1

theorem reserve_holds :
    Triple (fun d => Above mark d ∧ Holds mark d t) (reserve t) (Above mark) (Reserved mark t) := by
  unfold reserve
  split
  · exact Triple.pure fun d held => held
  rename_i live
  rw [Bool.not_eq_true] at live
  split
  · exact Triple.pure fun d held => held
  rename_i room
  split
  · rename_i spent
    refine Triple.from_each fun d₀ held => ?_
    obtain ⟨above, holds⟩ := held
    obtain ⟨ahead, behind, most, _⟩ := holds live
    have exist : t.next ≤ capacity := by omega
    have further := lt_blockEnd exist room
    have last : t.blockEnd ≤ capacity := by
      unfold blockEnd
      split <;> omega
    refine Triple.bind ((persist_above mark (by omega) last).strengthen fun d same => same ▸ above) fun ok => ?_
    cases ok with
    | false => exact Triple.pure fun d written => ⟨written.1, fun no => by cases no⟩
    | true =>
      refine Triple.pure fun d written => ?_
      have durable := written.2 rfl
      refine ⟨rfl, ahead, by omega, durable.mono further, fun _ => ⟨Nat.le_refl _, further, last, fun _ => durable⟩⟩
  · rename_i left
    refine Triple.pure fun d held => ?_
    obtain ⟨ahead, behind, most, durable⟩ := held.2 live
    have durable := durable left
    have before : t.next < t.reserved := by omega
    exact ⟨rfl, ahead, by omega, durable.mono before, fun _ => ⟨Nat.le_refl _, before, most, fun _ => durable⟩⟩

/-- The indices handed out so far fall towards the past, and every index that may still be handed out is beyond
them and not below `floor`. -/
structure Ahead (floor : Nat) (h : List HostEntry) (s : Host) (used : List Nat) (mark : Nat) : Prop where
  issued : issued h = used.map identityAt
  falls : used.Pairwise (· > ·)
  within : ∀ i ∈ used, floor ≤ i ∧ i < capacity
  beyond : ∀ i ∈ used, i < mark
  floor : floor ≤ mark
  disk : Above mark s.disk
  tokens : ∀ t, s.tokens = some t → Holds mark s.disk t

variable {floor : Nat} {h : List HostEntry} {s : Host} {used : List Nat} {path : String}

theorem Ahead.silent {e : HostEvent} {s' : Host} (ahead : Ahead floor h s used mark) (disk : Above mark s'.disk)
    (tokens : ∀ t, s'.tokens = some t → Holds mark s'.disk t) : Ahead floor (⟨e, none⟩ :: h) s' used mark :=
  ⟨ahead.issued, ahead.falls, ahead.within, ahead.beyond, ahead.floor, disk, tokens⟩

theorem Ahead.start (ahead : Ahead floor h s used mark) (answers : List Answer) :
    Ahead floor (⟨.start answers, (s.step path (.start answers)).2⟩ :: h) (s.step path (.start answers)).1 used mark := by
  have built := construct_holds path s.disk answers ahead.disk
  simp only [Host.step]
  revert built
  rcases construct path s.disk answers with ⟨_ | ⟨t, rest⟩, disk⟩
  · exact fun above => ahead.silent above fun t no => by cases no
  · rintro ⟨above, holds⟩
    exact ahead.silent above fun t' same => by cases same; exact holds

theorem Ahead.reserve (ahead : Ahead floor h s used mark) (answers : List Answer) :
    ∃ used mark, Ahead floor (⟨.reserve answers, (s.step path (.reserve answers)).2⟩ :: h)
      (s.step path (.reserve answers)).1 used mark := by
  simp only [Host.step]
  cases running : s.tokens with
  | none => exact ⟨used, mark, ahead.silent ahead.disk ahead.tokens⟩
  | some t =>
    have reserved := reserve_holds s.disk answers ⟨ahead.disk, ahead.tokens t running⟩
    dsimp only
    revert reserved
    rcases SprayAckTokens.reserve t s.disk answers with ⟨_ | ⟨⟨u, given⟩, rest⟩, disk⟩
    · exact fun above => ⟨used, mark, ahead.silent above fun t no => by cases no⟩
    cases given with
    | none =>
      rintro ⟨above, holds⟩
      exact ⟨used, mark, ahead.silent above fun t' same => by cases same; exact holds⟩
    | some id =>
      rintro ⟨rfl, passed, exist, above, holds⟩
      refine ⟨t.next :: used, t.next + 1, ?_, ?_, ?_, ?_, ?_, above, fun t' same => by cases same; exact holds⟩
      · show identityAt t.next :: SprayAckTokens.issued h = identityAt t.next :: used.map identityAt
        rw [ahead.issued]
      · exact List.pairwise_cons.mpr ⟨fun i member => (ahead.beyond i member).trans_le passed, ahead.falls⟩
      · exact List.forall_mem_cons.mpr ⟨⟨ahead.floor.trans passed, exist⟩, ahead.within⟩
      · refine List.forall_mem_cons.mpr ⟨Nat.lt_succ_self _, fun i member => ?_⟩
        have := ahead.beyond i member
        omega
      · have := ahead.floor
        omega

theorem host_ahead (floor : Nat) {file : Option (List Char)} {temp : Option TempFile}
    (installed : ∀ text, file = some text → ∀ index, parse text = some index → floor ≤ index)
    (run : Run (Host.step path) (Host.installed file temp) h s) : ∃ used mark, Ahead floor h s used mark := by
  refine run.invariant (fun h s => ∃ used mark, Ahead floor h s used mark) ?_ fun h s e ahead _ => ?_
  · refine ⟨[], floor, rfl, .nil, by simp, by simp, Nat.le_refl _, ⟨rfl, fun text member => ?_⟩, fun t no => by cases no⟩
    exact installed text (List.mem_singleton.mp member).symm
  obtain ⟨used, mark, ahead⟩ := ahead
  cases e with
  | start answers => exact ⟨used, mark, ahead.start answers⟩
  | reserve answers => exact ahead.reserve answers
  | kill => exact ⟨used, mark, ahead.silent ahead.disk fun t no => by cases no⟩
  | power survivor garbage temp =>
    exact ⟨used, mark, ahead.silent (ahead.disk.reboot survivor garbage temp) fun t no => by cases no⟩

/-- An unversioned ledger: the next component of system 1, in decimal. -/
def LegacyLedger (contents : List Char) (component : Nat) : Prop :=
  ∃ text, (contents = text ∨ contents = text ++ ['\n']) ∧ text ≠ [] ∧ text.all Char.isDigit = true ∧
    Nat.ofDigitChars 10 text 0 = component

theorem parse_legacy {contents : List Char} {component index : Nat} (legacy : LegacyLedger contents component)
    (found : parse contents = some index) : component ≤ index + first := by
  obtain ⟨text, written, filled, digits, value⟩ := legacy
  have digit := List.all_eq_true.mp digits
  have stripped : (if contents.getLast? = some '\n' then contents.dropLast else contents) = text := by
    rcases written with rfl | rfl
    · rw [if_neg fun newline => ?_]
      exact absurd (digit _ (List.mem_of_getLast? newline)) (by decide)
    · rw [if_pos List.getLast?_concat, List.dropLast_concat]
  have unversioned : (text.take 3 == "v2 ".toList) = false := by
    cases text with
    | nil => exact absurd rfl filled
    | cons c rest =>
      have first := digit c List.mem_cons_self
      rw [beq_eq_false_iff_ne]
      intro same
      rw [show "v2 ".toList = 'v' :: ['2', ' '] from rfl, List.take_succ_cons, List.cons.injEq] at same
      rw [same.1] at first
      exact absurd first (by decide)
  simp only [parse, stripped, unversioned, Bool.false_eq_true, if_false] at found
  cases read : fromChars text with
  | none => rw [read] at found; cases found
  | some number =>
    simp only [read, Option.ite_none_left_eq_some, Option.some.injEq] at found
    simp only [fromChars, Option.ite_none_right_eq_some, Option.some.injEq] at read
    omega

theorem identityAt_range {index : Nat} (exist : index < capacity) :
    1 ≤ (identityAt index).system ∧ (identityAt index).system ≤ 255 ∧
      first ≤ (identityAt index).component ∧ (identityAt index).component ≤ last := by
  simp only [identityAt, capacity, perSystem, first, last] at exist ⊢
  omega

/-- Over every history of starts, reservations with any outcome of each call, kills and power losses: no pair is
handed out twice, none that an old ledger had allocated, and all are in range. -/
theorem identities_never_reused (path : String) (file : Option (List Char)) (temp : Option TempFile) {h : List HostEntry}
    {s : Host} (run : Run (Host.step path) (Host.installed file temp) h s) :
    (issued h).Nodup ∧
      (∀ id ∈ issued h, 1 ≤ id.system ∧ id.system ≤ 255 ∧ first ≤ id.component ∧ id.component ≤ last) ∧
      ∀ contents component, file = some contents → LegacyLedger contents component →
        ∀ id ∈ issued h, ¬ (id.system = 1 ∧ id.component < component) := by
  obtain ⟨used, mark, ahead⟩ := host_ahead 0 (fun _ _ _ _ => Nat.zero_le _) run
  refine ⟨?_, ?_, ?_⟩
  · rw [ahead.issued]
    exact (ahead.falls.imp (fun later => later.ne')).map _ fun i j differ same => differ (identityAt_inj same)
  · rw [ahead.issued]
    intro id member
    obtain ⟨i, inside, rfl⟩ := List.mem_map.mp member
    exact identityAt_range (ahead.within i inside).2
  · intro contents component named legacy id member taken
    obtain ⟨used, mark, ahead⟩ := host_ahead (component - first) (fun text same index found => by
      rw [named] at same
      cases same
      have := parse_legacy legacy found
      omega) run
    rw [ahead.issued] at member
    obtain ⟨i, inside, rfl⟩ := List.mem_map.mp member
    have least := (ahead.within i inside).1
    simp only [identityAt, perSystem, first, last] at taken least
    omega

/-- An old ledger at component 5, a pair, a power loss and a pair. -/
def upgraded : List HostEvent :=
  [.start (.replicate 4 .done), .reserve (.replicate 20 .done), .power 0 none none, .start (.replicate 4 .done),
    .reserve (.replicate 20 .done)]

theorem upgraded_identities : ∃ h s, Run (Host.step "state") (Host.installed (some ['5', '\n']) none) h s ∧
    issued h = [⟨1, 69⟩, ⟨1, 5⟩] ∧ LegacyLedger ['5', '\n'] 5 ∧ (issued h).Nodup ∧
    ∀ id ∈ issued h, ¬ (id.system = 1 ∧ id.component < 5) := by
  have run : Run (Host.step "state") (Host.installed (some ['5', '\n']) none) _ _ := exec_run upgraded .start
  have legacy : LegacyLedger ['5', '\n'] 5 := ⟨['5'], .inr rfl, by decide, by decide, by decide⟩
  obtain ⟨distinct, _, old⟩ := identities_never_reused "state" _ none run
  exact ⟨_, _, run, by decide +kernel, legacy, distinct, old _ 5 rfl legacy⟩

/-! A host that came back. -/

/-- The answers of a file system that works: a read is never cut, a write may be. -/
structure Working (start : List Answer) (calls : List (List Answer)) : Prop where
  reads : 4 ≤ start.length ∧ ∀ r ∈ start, r = .done
  writes : ∀ answers ∈ calls, 32 ≤ answers.length ∧ ∀ r ∈ answers, r.succeeds = true

/-- Started anew, the tokens hand out a pair at every call until the last index. -/
def HandsOut (path : String) (s : Host) : Prop :=
  ∀ start calls last, Working start (last :: calls) →
    ∃ t, (exec (Host.step path) [] s (.start start :: calls.map .reserve)).2.tokens = some t ∧
      (t.next ≠ capacity →
        ((exec (Host.step path) [] s (.start start :: calls.map .reserve)).2.step path (.reserve last)).2.isSome = true)

theorem length_contents (exist : next ≤ capacity) : (contents next).length ≤ 10 := by
  have digits : (Nat.toDigits 10 next).length ≤ 6 :=
    (Nat.length_toDigits_le_iff (by decide) (by decide)).mpr (lt_of_le_of_lt exist (by decide))
  have length : (contents next).length = 3 + (Nat.toDigits 10 next).length + 1 := by
    simp [contents, toString]
    omega
  omega

theorem close_yields (d : Disk) : Yields 1 close d true d := Yields.call fun r good => by rw [good]

theorem settle_yields (d : Disk) : Yields 3 settle d true { d with older := [] } := by
  have opened : Yields 1 openDir d true d := Yields.call fun r good => by rw [good]
  have synced : Yields 1 syncDir d true { d with older := [] } := Yields.call fun r good => by rw [good]; rfl
  unfold settle
  refine Yields.bind (k := 2) opened ?_
  refine Yields.bind (k := 1) synced ?_
  exact Yields.bind (k := 0) (close_yields _) Yields.pure

theorem fill_yields {text : List Char} (temp : d.temp = some ⟨[], false⟩) :
    Yields (text.length + 1) (fill text) d true { d with temp := some ⟨text, true⟩ } := by
  have synced : Yields 1 syncTemp { d with temp := some ⟨text, false⟩ } true { d with temp := some ⟨text, true⟩ } :=
    Yields.call fun r good => by rw [good]; rfl
  exact Yields.bind (Yields.writeAll temp) synced

theorem persist_yields (exist : next ≤ capacity) (free : d.temp = none) :
    ∃ d', d'.temp = none ∧ Yields 17 (persist next) d true d' := by
  have short := length_contents exist
  obtain ⟨text, made⟩ : ∃ text, text = contents next := ⟨_, rfl⟩
  rw [← made] at short
  obtain ⟨filled, inTemp⟩ : ∃ filled : Disk, filled = { d with temp := some ⟨text, true⟩ } := ⟨_, rfl⟩
  obtain ⟨named, replaced⟩ : ∃ named : Disk, named = { file := some text, older := d.file :: d.older, torn := d.torn || !true } :=
    ⟨_, rfl⟩
  have created : Yields 1 create d true { d with temp := some ⟨[], false⟩ } := Yields.call fun r good => by simp [good, free]
  have wrote : Yields (text.length + 1) (fill text) { d with temp := some ⟨[], false⟩ } true filled := by
    rw [inTemp]
    exact fill_yields rfl
  have renamed : Yields 1 rename filled true named := Yields.call fun r good => by rw [good, inTemp, replaced]
  refine ⟨{ named with older := [] }, by rw [replaced], Yields.mono (n := 1 + ((text.length + 1) + (1 + (1 + 3)))) ?_ (by omega)⟩
  unfold persist
  rw [← made]
  refine Yields.bind created ?_
  exact Yields.bind wrote (Yields.bind (close_yields _) (Yields.bind renamed (settle_yields _)))

theorem persist_blocked {n : Nat} {temp : TempFile} (left : d.temp = some temp) : Yields 1 (persist n) d false d := by
  have refused : Yields 1 create d false d := Yields.call fun r good => by simp [left]
  unfold persist
  exact Yields.bind (k := 0) refused Yields.pure

/-- A running process that can hand out pairs: its tokens are live and no temporary file is in the way. -/
structure Serving (s : Host) (t : AckTokens) : Prop where
  running : s.tokens = some t
  live : t.failed = false
  behind : t.next ≤ t.reserved
  most : t.reserved ≤ capacity
  free : s.disk.temp = none

theorem Serving.reserve {answers : List Answer} (serving : Serving s t) (path : String) (enough : 32 ≤ answers.length)
    (good : ∀ r ∈ answers, r.succeeds = true) :
    (∃ u, Serving (s.step path (.reserve answers)).1 u) ∧
      (t.next ≠ capacity → (s.step path (.reserve answers)).2.isSome = true) := by
  obtain ⟨running, live, behind, most, free⟩ := serving
  simp only [Host.step, running, SprayAckTokens.reserve, live, Bool.false_eq_true, if_false]
  by_cases full : t.next = capacity
  · rw [if_pos full]
    exact ⟨⟨t, rfl, live, behind, most, free⟩, fun room => absurd full room⟩
  rw [if_neg full]
  by_cases spent : t.next = t.reserved
  · rw [if_pos spent]
    have further := lt_blockEnd (spent ▸ most) full
    have last : t.blockEnd ≤ capacity := by
      unfold blockEnd
      split <;> omega
    obtain ⟨disk, empty, yields⟩ := persist_yields last free
    obtain ⟨rest, wrote, _⟩ := yields answers good (by omega)
    simp only [bind, wrote]
    exact ⟨⟨_, rfl, rfl, further, last, empty⟩, fun _ => rfl⟩
  · rw [if_neg spent]
    refine ⟨⟨_, rfl, rfl, ?_, most, free⟩, fun _ => rfl⟩
    dsimp only
    omega

theorem Serving.calls {calls : List (List Answer)} (serving : Serving s t) (path : String) (h : List HostEntry)
    (good : ∀ answers ∈ calls, 32 ≤ answers.length ∧ ∀ r ∈ answers, r.succeeds = true) :
    ∃ u, Serving (exec (Host.step path) h s (calls.map .reserve)).2 u := by
  induction calls generalizing h s t with
  | nil => exact ⟨t, serving⟩
  | cons answers calls ih =>
    obtain ⟨enough, works⟩ := good answers List.mem_cons_self
    obtain ⟨⟨u, serving⟩, _⟩ := serving.reserve path enough works
    exact ih serving _ fun later member => good later (List.mem_cons_of_mem _ member)

theorem four_done {start : List Answer} (enough : 4 ≤ start.length) (good : ∀ r ∈ start, r = .done) :
    ∃ rest, start = .done :: .done :: .done :: .done :: rest := by
  match start with
  | [] | [_] | [_, _] | [_, _, _] => simp at enough
  | a :: b :: c :: e :: rest =>
    simp only [List.mem_cons, forall_eq_or_imp] at good
    obtain ⟨rfl, rfl, rfl, rfl, _⟩ := good
    exact ⟨rest, rfl⟩

theorem load_valid {text : List Char} {index : Nat} {rest : List Answer} (file : d.file = some text)
    (fits : text.length < 32) (valid : parse text = some index) :
    load d (.done :: .done :: .done :: .done :: rest) = (some (some index, rest), d) := by
  have whole : text.take 32 = text := List.take_of_length_le (by omega)
  have filled : text ≠ [] := by
    rintro rfl
    cases valid
  have opened : openFile d (.done :: .done :: .done :: .done :: rest) = (some (true, .done :: .done :: .done :: rest), d) := by
    simp [openFile, call_ended, Answer.succeeds, file]
  have first : readAt 0 32 d (.done :: .done :: .done :: rest) = (some (some text, .done :: .done :: rest), d) := by
    simp [readAt, call_ended, Answer.succeeds, Answer.bytes, file, whole]
  have second : readAt text.length 1 d (.done :: .done :: rest) = (some (some [], .done :: rest), d) := by
    simp [readAt, call_ended, Answer.succeeds, Answer.bytes, file]
  have closed : close d (.done :: rest) = (some (true, rest), d) := rfl
  unfold load
  rw [bind_ended opened]
  simp only [Bool.not_true, Bool.false_eq_true, if_false]
  rw [bind_ended first, Option.getD_some, bind_ended second, bind_ended closed]
  simp only [filled, not_le.mpr fits, Bool.not_true, Bool.false_eq_true, or_self, if_false, pure_apply, valid]

theorem writeAll_done {text : List Char} {rest : List Answer} (filled : text ≠ []) :
    writeAll text d (.done :: rest) = (some (true, rest), { d with temp := d.temp.map fun t => ⟨t.text ++ text, false⟩ }) := by
  unfold writeAll
  rw [if_neg filled]
  simp only [Answer.bytes, List.drop_length, List.take_length]
  unfold writeAll
  rw [if_pos rfl]

/-- Where a kill leaves the disk: the calls are create, write, sync, close, rename, and three on the directory. -/
theorem persist_killed (next : Nat) {n : Nat} (free : d.temp = none) (cut : n < 8) :
    ∃ d', persist next d (.replicate n .done) = (none, d') ∧ (d'.temp = none ↔ n = 0 ∨ 5 ≤ n) ∧
      d'.file = if 5 ≤ n then some (contents next) else d.file := by
  have filled : contents next ≠ [] := by simp [contents]
  obtain ⟨text, made⟩ : ∃ text, text = contents next := ⟨_, rfl⟩
  rw [← made] at filled ⊢
  have created : ∀ rest, create d (.done :: rest) = (some (true, rest), { d with temp := some ⟨[], false⟩ }) := by
    intro rest
    simp [create, call_ended, Answer.succeeds, free]
  have wrote : ∀ rest, writeAll text { d with temp := some ⟨[], false⟩ } (.done :: rest) =
      (some (true, rest), { d with temp := some ⟨text, false⟩ }) := fun rest => writeAll_done filled
  have begun : writeAll text { d with temp := some ⟨[], false⟩ } [] = (none, { d with temp := some ⟨[], false⟩ }) := by
    unfold writeAll
    rw [if_neg filled]
  -- The calls after the write end or are killed by computation.
  interval_cases n <;>
    simp only [persist, fill, settle, bind_apply, created, wrote, begun, ← made, List.replicate, Bool.not_true,
      Bool.false_eq_true, if_false] <;>
    exact ⟨_, rfl, by simp [free, Answer.succeeds], rfl⟩

theorem start_valid {text : List Char} {index : Nat} {start : List Answer} (named : path ≠ "")
    (present : s.disk.file = some text) (fits : text.length < 32) (valid : parse text = some index)
    (enough : 4 ≤ start.length) (good : ∀ r ∈ start, r = .done) :
    (s.step path (.start start)).1 = { disk := s.disk, tokens := some (.load index) } := by
  obtain ⟨rest, rfl⟩ := four_done enough good
  have built : construct path s.disk (.done :: .done :: .done :: .done :: rest) = (some (.load index, rest), s.disk) := by
    rw [construct, if_neg named, bind_ended (load_valid present fits valid)]
    rfl
  simp only [Host.step, built]

/-- A call that has to move the mark. -/
theorem reserve_spent (live : t.failed = false) (room : t.next ≠ capacity) (spent : t.next = t.reserved) :
    SprayAckTokens.reserve t = (do
      let ok ← persist t.blockEnd
      if ok then
        return ({ t with next := t.next + 1, reserved := t.blockEnd, persists := t.persists + 1 }, some (identityAt t.next))
      else return ({ t with failed := true, persists := t.persists + 1 }, none)) := by
  rw [SprayAckTokens.reserve, if_neg (by simp [live]), if_neg room, if_pos spent]

/-- With a valid ledger and no temporary file every call is served. -/
theorem handsOut_of_free {text : List Char} {index : Nat} (named : path ≠ "") (present : s.disk.file = some text)
    (fits : text.length < 32) (valid : parse text = some index) (free : s.disk.temp = none) : HandsOut path s := by
  intro start calls last working
  have started := start_valid named present fits valid working.reads.1 working.reads.2
  have serving : Serving { disk := s.disk, tokens := some (.load index) } (.load index) :=
    ⟨rfl, rfl, Nat.le_refl _, parse_le valid, free⟩
  have good := fun answers member => working.writes answers (List.mem_cons_of_mem _ member)
  obtain ⟨t, serving⟩ := serving.calls path _ good
  refine ⟨t, ?_, fun below => ?_⟩
  · simp only [exec, started]
    exact serving.running
  · obtain ⟨enough, works⟩ := working.writes last List.mem_cons_self
    simp only [exec, started]
    exact (serving.reserve path enough works).2 below

/-- With a temporary file in the way the first call fails. -/
theorem not_handsOut {text : List Char} {index : Nat} {temp : TempFile} (named : path ≠ "")
    (present : s.disk.file = some text) (fits : text.length < 32) (valid : parse text = some index)
    (room : index ≠ capacity) (left : s.disk.temp = some temp) : ¬ HandsOut path s := by
  intro hands
  have working : Working (.replicate 4 .done) [.replicate 32 .done] := by
    constructor
    · simp
    · simp [Answer.succeeds]
  obtain ⟨t, running, given⟩ := hands _ [] _ working
  simp only [List.map_nil, exec, start_valid named present fits valid working.reads.1 working.reads.2] at running given
  obtain rfl := Option.some.inj running
  have given := given room
  obtain ⟨rest, wrote, _⟩ := persist_blocked (n := (AckTokens.load index).blockEnd) left (.replicate 32 .done) (by simp [Answer.succeeds]) (by simp)
  simp only [Host.step, reserve_spent (t := .load index) rfl room rfl, bind_ended wrote] at given
  cases given

/-- Whether a host that came back hands out pairs: exactly when no temporary file was left. A kill inside a write leaves
one when it comes after the call that creates it and before the rename, the fifth. -/
theorem hands_out_iff_no_temp (path : String) (s : Host) (text : List Char) (index : Nat) (named : path ≠ "")
    (present : s.disk.file = some text) (fits : text.length < 32) (valid : parse text = some index)
    (room : index ≠ capacity) :
    (HandsOut path s ↔ s.disk.temp = none) ∧
      ∀ t n, Serving s t → t.next = t.reserved → t.next ≠ capacity → n < 8 →
        (s.step path (.reserve (.replicate n .done))).1.tokens = none ∧
          (HandsOut path (s.step path (.reserve (.replicate n .done))).1 ↔ n = 0 ∨ 5 ≤ n) := by
  refine ⟨⟨fun hands => ?_, handsOut_of_free named present fits valid⟩, fun t n serving spent left cut => ?_⟩
  · cases left : s.disk.temp with
    | none => rfl
    | some temp => exact absurd hands (not_handsOut named present fits valid room left)
  obtain ⟨running, live, behind, most, free⟩ := serving
  have last : t.blockEnd ≤ capacity := by
    unfold blockEnd
    split <;> omega
  obtain ⟨disk, killed, clean, file⟩ := persist_killed t.blockEnd free cut
  have stopped : (s.step path (.reserve (.replicate n .done))).1 = { disk } := by
    simp only [Host.step, running, reserve_spent live left spent, bind_killed killed]
  rw [stopped]
  refine ⟨rfl, fun hands => ?_, fun point => ?_⟩
  · by_contra inside
    have inside := not_or.mp inside
    rw [if_neg inside.2] at file
    cases temp : disk.temp with
    | none => exact absurd (clean.mp temp) (by omega)
    | some _ => exact not_handsOut named (file.trans present) fits valid room temp hands
  · by_cases replaced : 5 ≤ n
    · rw [if_pos replaced] at file
      have short := length_contents last
      exact handsOut_of_free named file (by omega) (parse_contents last) (clean.mpr point)
    · rw [if_neg replaced] at file
      exact handsOut_of_free named (file.trans present) fits valid (clean.mpr point)

/-- A host with a first ledger whose process has started. -/
def fresh : Host := { disk := { file := some ['2', '\n'] }, tokens := some (.load 0) }

theorem fresh_hands_out : (HandsOut "state" fresh ↔ fresh.disk.temp = none) ∧
    (HandsOut "state" (fresh.step "state" (.reserve (.replicate 2 .done))).1 ↔ 2 = 0 ∨ 5 ≤ 2) := by
  have applied := hands_out_iff_no_temp "state" fresh ['2', '\n'] 0 (by decide) rfl (by decide) (by decide)
    (by decide)
  exact ⟨applied.1, (applied.2 (.load 0) 2 ⟨rfl, rfl, Nat.le_refl _, by decide, rfl⟩ rfl (by decide) (by decide)).2⟩

/-- The process is killed after it has created and written the temporary file of its first block; the ledger is intact,
and no later start hands out a pair. -/
theorem killed_write_wedges : ∃ h s, Run (Host.step "state") (Host.installed (some ['2', '\n']) none) h s ∧
    s.disk.file = some ['2', '\n'] ∧ parse ['2', '\n'] = some 0 ∧ (0 : Nat) ≠ capacity ∧ ¬ HandsOut "state" s := by
  have run : Run (Host.step "state") (Host.installed (some ['2', '\n']) none) _ _ :=
    exec_run [.start (.replicate 4 .done), .reserve (.replicate 2 .done)] .start
  have valid : parse ['2', '\n'] = some 0 := by decide
  have intact : (exec (Host.step "state") [] (Host.installed (some ['2', '\n']) none)
    [.start (.replicate 4 .done), .reserve (.replicate 2 .done)]).2.disk.file = some ['2', '\n'] := by decide +kernel
  have left : (exec (Host.step "state") [] (Host.installed (some ['2', '\n']) none)
    [.start (.replicate 4 .done), .reserve (.replicate 2 .done)]).2.disk.temp = some ⟨contents 64, false⟩ := by decide +kernel
  exact ⟨_, _, run, intact, valid, by decide, not_handsOut (by decide) intact (by decide) valid (by decide) left⟩

end Dyx3.Px4Link.SprayAckTokens
