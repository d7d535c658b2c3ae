import Dyx3.GnssRtk.RtkNode

/-!
Passwords go in and never come out: what is shown of a configuration does not depend on them, and what is sent back
without them gets each profile its own.
-/

namespace Dyx3.GnssRtk

open Lib

namespace Json

theorem find?_set {fields : List (String × Json)} (key other : String) (v : Json) :
    ((Json.obj fields).set key v).find? other = if other = key then some v else (Json.obj fields).find? other :=
  SortedMap.lookup_put key v fields other

theorem put_put (key : String) (v w : Json) (fields : List (String × Json)) :
    SortedMap.put key w (SortedMap.put key v fields) = SortedMap.put key w fields := by
  induction fields with
  | nil => simp [SortedMap.put]
  | cons first fields ih =>
    by_cases less : key < first.1
    · simp [SortedMap.put, less]
    · by_cases same : key = first.1
      · simp [SortedMap.put, same]
      · simp [SortedMap.put, less, same, ih]

theorem set_set (j : Json) (key : String) (v w : Json) : (j.set key v).set key w = j.set key w := by
  cases j with
  | obj fields => exact congrArg Json.obj (put_put key v w fields)
  | _ => rfl

/-- Objects are maps, at every level. -/
inductive Mapped : Json → Prop
  | null : Mapped .null
  | bool (b : Bool) : Mapped (.bool b)
  | int (i : ℤ) : Mapped (.int i)
  | float (x : Double) : Mapped (.float x)
  | str (s : String) : Mapped (.str s)
  | arr {items : List Json} : (∀ v ∈ items, Mapped v) → Mapped (.arr items)
  | obj {fields : List (String × Json)} : SortedMap.Sorted fields → (∀ kv ∈ fields, Mapped kv.2) → Mapped (.obj fields)

theorem Mapped.sorted {fields : List (String × Json)} (mapped : Mapped (.obj fields)) : SortedMap.Sorted fields := by
  cases mapped
  assumption

theorem Mapped.find {j v : Json} (mapped : Mapped j) {key : String} (found : j.find? key = some v) : Mapped v := by
  cases mapped with
  | obj sorted inside => exact inside _ (SortedMap.mem_of_lookup found)
  | _ => cases found

theorem set_same {j v : Json} (mapped : Mapped j) {key : String} (found : j.find? key = some v) : j.set key v = j := by
  cases mapped with
  | @obj fields sorted inside =>
    refine congrArg Json.obj ((sorted.put key v).ext sorted fun other => ?_)
    rw [SortedMap.lookup_put]
    split
    · rename_i same
      rw [same]
      exact found.symm
    · rfl
  | _ => rfl

end Json

theorem profilesOf_ok {c : Json} {profiles : List Json} :
    profilesOf c = .ok profiles ↔ ∃ ntrip, c.find? "ntrip" = some ntrip ∧ ntrip.find? "profiles" = some (.arr profiles) := by
  constructor
  · intro h
    obtain ⟨ntrip, found, h⟩ := bind_ok h
    obtain ⟨v, inside, h⟩ := bind_ok h
    rw [items_ok.mp h] at inside
    exact ⟨ntrip, get_ok.mp found, get_ok.mp inside⟩
  · rintro ⟨ntrip, found, inside⟩
    rw [profilesOf, get_ok.mpr found]
    show (ntrip.get "profiles" >>= Json.items) = .ok profiles
    rw [get_ok.mpr inside]
    rfl

theorem withProfiles_ok {c d : Json} {profiles : List Json} :
    withProfiles c profiles = .ok d ↔
      ∃ ntrip, c.find? "ntrip" = some ntrip ∧ c.set "ntrip" (ntrip.set "profiles" (.arr profiles)) = d := by
  constructor
  · intro h
    obtain ⟨ntrip, found, h⟩ := bind_ok h
    cases h
    exact ⟨ntrip, get_ok.mp found, rfl⟩
  · rintro ⟨ntrip, found, rfl⟩
    rw [withProfiles, get_ok.mpr found]
    rfl

/-! ### What is shown of a profile -/

def shown (p : Json) : Json :=
  match p with
  | .obj fields =>
    .obj (SortedMap.erase "password" (SortedMap.put "password_set" (.bool ((fields.lookup "password").any fun v => !v.is "")) fields))
  | p => p

theorem publicProfile_eq {p : Json} {id : String} (profile : IsProfile p id) : publicProfile p = .ok (shown p) := by
  obtain ⟨⟨fields, rfl⟩, -, ⟨password, found⟩, -⟩ := profile
  rw [publicProfile, get_ok.mpr found]
  show (do let password ← Json.text (.str password); _) = _
  rw [shown, show fields.lookup "password" = some (.str password) from found]
  simp [Json.text, Json.set, Json.erase, Json.is]
  rfl

theorem sameId_self {profiles : List Json} {ids : List String} (each : List.Forall₂ IsProfile profiles ids) (distinct : ids.Nodup) :
    ∀ p ∈ profiles, ∃ id ∈ ids, IsProfile p id ∧ sameId id profiles = .ok (some p) := by
  induction each with
  | nil => simp
  | @cons first id rest later profile each ih =>
    obtain ⟨fresh, distinct⟩ := List.nodup_cons.mp distinct
    have here : ∀ other, sameId other (first :: rest) = if (Json.str id).is other then .ok (some first) else sameId other rest := by
      intro other
      rw [sameId, get_ok.mpr profile.id]
      rfl
    intro p member
    rcases List.mem_cons.mp member with rfl | member
    · refine ⟨id, List.mem_cons_self, profile, ?_⟩
      rw [here, if_pos (show (Json.str id).is id = true from decide_eq_true rfl)]
    · obtain ⟨own, listed, ofOwn, found⟩ := ih distinct p member
      refine ⟨own, List.mem_cons_of_mem id listed, ofOwn, ?_⟩
      rw [here, if_neg, found]
      intro same
      exact fresh (of_decide_eq_true same ▸ listed)

theorem shown_hides {p : Json} {id : String} (profile : IsProfile p id) : (shown p).find? "password" = none := by
  obtain ⟨⟨fields, rfl⟩, -⟩ := profile
  exact (SortedMap.lookup_erase _ _ _).trans (if_pos rfl)

/-- What was shown of a profile comes back as the profile. -/
theorem mergeProfile_shown {profiles : List Json} {p : Json} {id : String} (profile : IsProfile p id) (mapped : p.Mapped)
    (same : sameId id profiles = .ok (some p)) : mergeProfile profiles (shown p) = .ok p := by
  obtain ⟨⟨fields, rfl⟩, named, ⟨password, found⟩, hidden⟩ := profile
  have sorted := mapped.sorted
  -- `password_set` leaves no trace
  have plain : (shown (.obj fields)).erase "password_set" = .ok (.obj (SortedMap.erase "password" fields)) := by
    refine congrArg (fun fields => (Except.ok (Json.obj fields) : Checked Json)) ?_
    refine SortedMap.Sorted.ext (((sorted.put _ _).erase _).erase _) (sorted.erase _) fun key => ?_
    rw [SortedMap.lookup_erase, SortedMap.lookup_erase, SortedMap.lookup_put, SortedMap.lookup_erase]
    by_cases marked : key = "password_set"
    · rw [if_pos marked, marked, show fields.lookup "password_set" = none from hidden, ite_self]
    · rw [if_neg marked, if_neg marked]
  have without : (Json.obj (SortedMap.erase "password" fields)).find? "password" = none :=
    (SortedMap.lookup_erase _ _ _).trans (if_pos rfl)
  have still : (Json.obj (SortedMap.erase "password" fields)).find? "id" = some (.str id) :=
    (SortedMap.lookup_erase _ _ _).trans ((if_neg (by decide)).trans named)
  have back : (Json.obj (SortedMap.erase "password" fields)).set "password" (.str password) = .obj fields := by
    refine congrArg Json.obj (((sorted.erase _).put _ _).ext sorted fun key => ?_)
    rw [SortedMap.lookup_put, SortedMap.lookup_erase]
    split
    · rename_i own
      rw [own]
      exact found.symm
    · rfl
  rw [mergeProfile, plain]
  show (if (Json.obj (SortedMap.erase "password" fields)).contains "password" = true then _ else _) = _
  rw [Json.contains, without, if_neg (by decide), still]
  show (do let found ← sameId id profiles; _) = _
  rw [same]
  show (do let value ← Json.get (.obj fields) "password"; _) = _
  rw [get_ok.mpr found]
  exact congrArg Except.ok back

/-! ### What is shown of a configuration -/

theorem publicView_eq {c : Json} {profiles : List Json} {ids : List String} (listed : profilesOf c = .ok profiles)
    (each : List.Forall₂ IsProfile profiles ids) : publicView c = withProfiles c (profiles.map shown) := by
  have views : profiles.mapM publicProfile = .ok (profiles.map shown) := by
    refine mapM_ok.mpr (List.forall₂_map_right_iff.mpr (List.forall₂_same.mpr fun p member => ?_))
    obtain ⟨i, inside, rfl⟩ := List.getElem_of_mem member
    exact publicProfile_eq (each.get inside (each.length_eq ▸ inside))
  rw [publicView, listed]
  show (do let views ← profiles.mapM publicProfile; _) = _
  rw [views]
  rfl

/-- A validated configuration and its profiles. -/
theorem validated {c : Json} (valid : validate c = .ok ()) :
    ∃ ntrip profiles ids, c.find? "ntrip" = some ntrip ∧ ntrip.find? "profiles" = some (.arr profiles) ∧
      (∃ fields, c = .obj fields) ∧ (∃ fields, ntrip = .obj fields) ∧ List.Forall₂ IsProfile profiles ids ∧ ids.Nodup := by
  obtain ⟨fields, ntrip, rfl, found, checked, -⟩ := validate_ok valid
  obtain ⟨inner, profiles, ids, rfl, inside, each, distinct⟩ := validateNtrip_ok checked
  exact ⟨_, profiles, ids, found, inside, ⟨_, rfl⟩, ⟨_, rfl⟩, each, distinct⟩

theorem merge_view {c : Json} (mapped : c.Mapped) (valid : validate c = .ok ()) :
    ∃ view, publicView c = .ok view ∧ mergeWriteOnlyPasswords c view = .ok c := by
  obtain ⟨ntrip, profiles, ids, found, inside, ⟨fields, object⟩, ⟨inner, innerObject⟩, each, distinct⟩ := validated valid
  have listed : profilesOf c = .ok profiles := profilesOf_ok.mpr ⟨ntrip, found, inside⟩
  refine ⟨c.set "ntrip" (ntrip.set "profiles" (.arr (profiles.map shown))), ?_, ?_⟩
  · rw [publicView_eq listed each]
    exact withProfiles_ok.mpr ⟨ntrip, found, rfl⟩
  have ntripMapped := mapped.find found
  have back : (profiles.map shown).mapM (mergeProfile profiles) = .ok profiles := by
    refine mapM_ok.mpr (List.forall₂_map_left_iff.mpr (List.forall₂_same.mpr fun p member => ?_))
    obtain ⟨id, -, profile, same⟩ := sameId_self each distinct p member
    have list := ntripMapped.find inside
    cases list with
    | arr items => exact mergeProfile_shown profile (items p member) same
  have newNtrip : (c.set "ntrip" (ntrip.set "profiles" (.arr (profiles.map shown)))).find? "ntrip" =
      some (ntrip.set "profiles" (.arr (profiles.map shown))) := by
    rw [object, Json.find?_set, if_pos rfl]
  have newProfiles : (ntrip.set "profiles" (.arr (profiles.map shown))).find? "profiles" = some (.arr (profiles.map shown)) := by
    rw [innerObject, Json.find?_set, if_pos rfl]
  rw [mergeWriteOnlyPasswords, newNtrip, Option.bind_some, newProfiles, listed]
  show (do let profiles ← (profiles.map shown).mapM (mergeProfile profiles); _) = _
  rw [back]
  refine withProfiles_ok.mpr ⟨_, newNtrip, ?_⟩
  rw [Json.set_set, Json.set_set, Json.set_same ntripMapped inside, Json.set_same mapped found]

/-! ### Two configurations -/

/-- The same profile, but for the value of a nonempty password. -/
inductive SameProfile : Json → Json → Prop
  | same (p : Json) : SameProfile p p
  | password {p : Json} {old new : String} : old ≠ "" → new ≠ "" → p.find? "password" = some (.str old) →
      SameProfile p (p.set "password" (.str new))

def DifferInPasswords (c c' : Json) : Prop :=
  ∃ profiles profiles', profilesOf c = .ok profiles ∧ List.Forall₂ SameProfile profiles profiles' ∧ withProfiles c profiles' = .ok c'

theorem shown_same {p p' : Json} {id : String} (differ : SameProfile p p') (profile : IsProfile p id) (mapped : p.Mapped) :
    shown p' = shown p := by
  cases differ with
  | same => rfl
  | @password old new nonempty nonempty' found =>
    obtain ⟨⟨fields, rfl⟩, -⟩ := profile
    have sorted := mapped.sorted
    have set : (SortedMap.put "password" (Json.str new) fields).lookup "password" = some (.str new) :=
      (SortedMap.lookup_put _ _ _ _).trans (if_pos rfl)
    have marks : ((SortedMap.put "password" (Json.str new) fields).lookup "password").any (fun v => !v.is "") =
        (fields.lookup "password").any (fun v => !v.is "") := by
      rw [set, show fields.lookup "password" = some (.str old) from found]
      simp [Json.is, nonempty, nonempty']
    refine congrArg Json.obj ?_
    rw [marks]
    refine SortedMap.Sorted.ext (((sorted.put _ _).put _ _).erase _) ((sorted.put _ _).erase _) fun key => ?_
    rw [SortedMap.lookup_erase, SortedMap.lookup_erase, SortedMap.lookup_put, SortedMap.lookup_put, SortedMap.lookup_put]
    by_cases own : key = "password"
    · rw [if_pos own, if_pos own]
    · rw [if_neg own, if_neg own, if_neg own]

theorem view_same {c c' : Json} (mapped : c.Mapped) (valid : validate c = .ok ()) (valid' : validate c' = .ok ())
    (differ : DifferInPasswords c c') : publicView c = publicView c' := by
  obtain ⟨profiles, profiles', listed, same, replaced⟩ := differ
  obtain ⟨ntrip, found, inside⟩ := profilesOf_ok.mp listed
  obtain ⟨_, _, ids, found', inside', ⟨fields, object⟩, ⟨inner, innerObject⟩, each, -⟩ := validated valid
  cases found.symm.trans found'
  cases inside.symm.trans inside'
  obtain ⟨ntrip', _, ids', foundNew, insideNew, -, -, each', -⟩ := validated valid'
  obtain ⟨_, again, rfl⟩ := withProfiles_ok.mp replaced
  cases found.symm.trans again
  have newNtrip : (c.set "ntrip" (ntrip.set "profiles" (.arr profiles'))).find? "ntrip" = some (ntrip.set "profiles" (.arr profiles')) := by
    rw [object, Json.find?_set, if_pos rfl]
  have newProfiles : (ntrip.set "profiles" (.arr profiles')).find? "profiles" = some (.arr profiles') := by
    rw [innerObject, Json.find?_set, if_pos rfl]
  cases newNtrip.symm.trans foundNew
  cases newProfiles.symm.trans insideNew
  have list := (mapped.find found).find inside
  have views : profiles'.map shown = profiles.map shown := by
    have pointwise : ∀ {ps ps' : List Json} {ids : List String}, List.Forall₂ SameProfile ps ps' → List.Forall₂ IsProfile ps ids →
        (∀ p ∈ ps, p.Mapped) → ps'.map shown = ps.map shown := by
      intro ps ps' ids same
      induction same generalizing ids with
      | nil => exact fun _ _ => rfl
      | @cons p p' ps ps' first rest ih =>
        intro each mapped
        cases each with
        | cons profile each =>
          rw [List.map_cons, List.map_cons, shown_same first profile (mapped p List.mem_cons_self),
            ih each fun q member => mapped q (List.mem_cons_of_mem p member)]
    cases list with
    | arr items => exact pointwise same each items
  rw [publicView_eq listed each, publicView_eq (profilesOf_ok.mpr ⟨_, newNtrip, newProfiles⟩) each', views,
    withProfiles_ok.mpr ⟨ntrip, found, rfl⟩, withProfiles_ok.mpr ⟨_, newNtrip, rfl⟩, Json.set_set, Json.set_set]

/-! ### What is stored -/

/-- The password of the stored profile `p'` came with the candidate's profile `p`, or is that of the old profile with the
same id. -/
def OwnPassword (old : List Json) (p p' : Json) : Prop :=
  (∃ password, p.find? "password" = some password ∧ p'.find? "password" = some password) ∨
  (p.find? "password" = none ∧ ∃ o ∈ old, ∃ id, o.find? "id" = some (.str id) ∧ p'.find? "id" = some (.str id) ∧
    o.find? "password" = p'.find? "password")

theorem sameId_ok {id : String} {old : List Json} {o : Json} (h : sameId id old = .ok (some o)) :
    o ∈ old ∧ o.find? "id" = some (.str id) := by
  induction old with
  | nil => cases h
  | cons first rest ih =>
    rw [sameId] at h
    obtain ⟨named, found, h⟩ := bind_ok h
    split at h
    · rename_i same
      cases h
      cases named with
      | str own => exact ⟨List.mem_cons_self, (of_decide_eq_true same) ▸ get_ok.mp found⟩
      | _ => cases same
    · exact ⟨List.mem_cons_of_mem first (ih h).1, (ih h).2⟩

theorem erase_find {j k : Json} {key : String} (erased : j.erase key = .ok k) (other : String) (apart : other ≠ key) :
    k.find? other = j.find? other := by
  cases j with
  | obj fields =>
    cases erased
    exact (SortedMap.lookup_erase _ _ _).trans (if_neg apart)
  | _ => cases erased

theorem mergeProfile_own {old : List Json} {p p' : Json} {id : String} (merged : mergeProfile old p = .ok p')
    (profile : IsProfile p' id) : OwnPassword old p p' := by
  obtain ⟨bare, erased, h⟩ := bind_ok merged
  have kept := fun other apart => erase_find erased other apart
  obtain ⟨⟨fields, object⟩, named, ⟨password, set⟩, -⟩ := profile
  rw [OwnPassword, ← kept "password" (by decide)]
  split at h
  · cases h
    exact .inl ⟨_, set, set⟩
  rename_i without
  have lacks : bare.find? "password" = none := by
    rw [Json.contains] at without
    simpa using without
  refine .inr ⟨lacks, ?_⟩
  split at h
  · rename_i own found
    obtain ⟨same, search, h⟩ := bind_ok h
    cases same with
    | none =>
      cases h
      rw [lacks] at set
      cases set
    | some o =>
      obtain ⟨theirs, read, h⟩ := bind_ok h
      cases h
      obtain ⟨member, ofOwn⟩ := sameId_ok search
      cases bare with
      | obj fields =>
        refine ⟨o, member, own, ofOwn, ?_, ?_⟩
        · rw [Json.find?_set, if_neg (by decide)]
          exact found
        · rw [Json.find?_set, if_pos rfl]
          exact get_ok.mp read
      | _ => cases found
  · cases h
    rw [lacks] at set
    cases set

theorem find_object {j v : Json} {key : String} (found : j.find? key = some v) : ∃ fields, j = .obj fields := by
  cases j with
  | obj fields => exact ⟨fields, rfl⟩
  | _ => cases found

theorem profilesOf_with {c d : Json} {profiles old : List Json} (listed : profilesOf c = .ok old)
    (replaced : withProfiles c profiles = .ok d) : profilesOf d = .ok profiles := by
  obtain ⟨ntrip, found, inside⟩ := profilesOf_ok.mp listed
  obtain ⟨_, again, rfl⟩ := withProfiles_ok.mp replaced
  cases found.symm.trans again
  obtain ⟨fields, object⟩ := find_object found
  obtain ⟨inner, innerObject⟩ := find_object inside
  refine profilesOf_ok.mpr ⟨ntrip.set "profiles" (.arr profiles), ?_, ?_⟩
  · rw [object, Json.find?_set, if_pos rfl]
  · rw [innerObject, Json.find?_set, if_pos rfl]

theorem merge_ok {config candidate merged : Json} (h : mergeWriteOnlyPasswords config candidate = .ok merged) :
    ∃ old profiles profiles', profilesOf config = .ok old ∧ profilesOf candidate = .ok profiles ∧
      List.Forall₂ (fun p p' => mergeProfile old p = .ok p') profiles profiles' ∧ profilesOf merged = .ok profiles' := by
  unfold mergeWriteOnlyPasswords at h
  split at h
  · rename_i profiles array
    obtain ⟨_, asked, h⟩ := bind_ok h
    cases asked
    obtain ⟨old, stored, h⟩ := bind_ok h
    obtain ⟨profiles', each, h⟩ := bind_ok h
    obtain ⟨ntrip, found, inside⟩ := Option.bind_eq_some_iff.mp array
    have listed : profilesOf candidate = .ok profiles := profilesOf_ok.mpr ⟨ntrip, found, inside⟩
    exact ⟨old, profiles, profiles', stored, listed, mapM_ok.mp each, profilesOf_with listed h⟩
  · obtain ⟨_, refused, -⟩ := bind_ok h
    cases refused

theorem profilesOf_set {c : Json} {profiles : List Json} (listed : profilesOf c = .ok profiles) {key : String}
    (other : "ntrip" ≠ key) (v : Json) : profilesOf (c.set key v) = .ok profiles := by
  obtain ⟨ntrip, found, inside⟩ := profilesOf_ok.mp listed
  obtain ⟨fields, object⟩ := find_object found
  refine profilesOf_ok.mpr ⟨ntrip, ?_, inside⟩
  rw [object, Json.find?_set, if_neg other, ← object, found]

theorem nextConfig_ok {config candidate next : Json} {utcNow : String} (h : nextConfig config candidate utcNow = .ok next) :
    ∃ revision merged, revisionOf config = some revision ∧ revisionOf candidate = some revision ∧
      mergeWriteOnlyPasswords config candidate = .ok merged ∧ validate next = .ok () ∧
      next = (merged.set "revision" (.int ((revision + 1) % 2 ^ 64 : ℕ))).set "updated_at" (.str utcNow) := by
  unfold nextConfig at h
  split at h
  · rename_i revision own
    obtain ⟨_, current, h⟩ := bind_ok h
    cases current
    obtain ⟨_, same, h⟩ := bind_ok h
    obtain ⟨merged, done, h⟩ := bind_ok h
    obtain ⟨_, valid, h⟩ := bind_ok h
    cases h
    exact ⟨revision, merged, own, of_decide_eq_true (need_ok same), done, valid, rfl⟩
  · obtain ⟨_, refused, -⟩ := bind_ok h
    cases refused

/-- Each profile of an accepted configuration has the password it came with, or its own from before. -/
theorem nextConfig_own {config candidate next : Json} {utcNow : String} (h : nextConfig config candidate utcNow = .ok next) :
    ∃ old profiles profiles', profilesOf config = .ok old ∧ profilesOf candidate = .ok profiles ∧ profilesOf next = .ok profiles' ∧
      List.Forall₂ (OwnPassword old) profiles profiles' := by
  obtain ⟨revision, merged, -, -, done, valid, rfl⟩ := nextConfig_ok h
  obtain ⟨old, profiles, profiles', stored, listed, each, mergedList⟩ := merge_ok done
  have notRevision : "ntrip" ≠ "revision" := by decide
  have notTime : "ntrip" ≠ "updated_at" := by decide
  have list := profilesOf_set (profilesOf_set mergedList notRevision (.int ((revision + 1) % 2 ^ 64 : ℕ))) notTime (.str utcNow)
  obtain ⟨ntrip, _, ids, found, inside, -, -, profile, -⟩ := validated valid
  cases list.symm.trans (profilesOf_ok.mpr ⟨ntrip, found, inside⟩)
  refine ⟨old, profiles, profiles', stored, listed, list, ?_⟩
  refine List.forall₂_iff_get.mpr ⟨each.length_eq, fun i inProfiles inProfiles' => ?_⟩
  exact mergeProfile_own (each.get inProfiles inProfiles') (profile.get inProfiles' (profile.length_eq ▸ inProfiles'))

/-- Passwords are write-only. -/
theorem passwords_writeOnly :
    (∀ c : Json, c.Mapped → validate c = .ok () →
      ∃ view, publicView c = .ok view ∧ mergeWriteOnlyPasswords c view = .ok c) ∧
    (∀ c c' : Json, c.Mapped → validate c = .ok () → validate c' = .ok () → DifferInPasswords c c' →
      publicView c = publicView c') ∧
    ∀ (config candidate next : Json) (utcNow : String), nextConfig config candidate utcNow = .ok next →
      ∃ old profiles profiles', profilesOf config = .ok old ∧ profilesOf candidate = .ok profiles ∧
        profilesOf next = .ok profiles' ∧ List.Forall₂ (OwnPassword old) profiles profiles' :=
  ⟨fun _ mapped valid => merge_view mapped valid, fun _ _ mapped valid valid' differ => view_same mapped valid valid' differ,
    fun _ _ _ _ accepted => nextConfig_own accepted⟩

/-! With one profile in use. -/

def fieldProfile : Json :=
  .obj [("backoff_base_s", .int 1), ("backoff_max_s", .int 60), ("ca_file", .str ""), ("connect_timeout_s", .int 10),
    ("gga_interval_s", .int 10), ("host", .str "caster.local"), ("id", .str "field"), ("mountpoint", .str "BASE"),
    ("name", .str "Field"), ("password", .str "secret"), ("port", .int 2101), ("security", .str "PLAINTEXT"),
    ("stream_timeout_s", .int 30), ("username", .str "rover")]

def fieldConfig : Json :=
  .obj [("desired_state", .str "RUNNING"),
    ("lora", .obj [("baud", .int 0), ("read_timeout_s", .int 0), ("reopen_delay_s", .int 0), ("serial_device", .str "")]),
    ("ntrip", .obj [("active_profile_id", .str "field"), ("profiles", .arr [fieldProfile])]),
    ("revision", .int 1), ("schema", .int 1), ("source", .str "NTRIP"), ("transport", .str "USB_DIRECT"), ("updated_at", .str ""),
    ("usb", .obj [("baud", .int 0), ("receiver_device", .str ""), ("reopen_delay_s", .int 0), ("write_timeout_s", .int 0)])]

theorem fieldConfig_valid : validate fieldConfig = .ok () := by
  have accepted : (validate fieldConfig).isOk = true := by decide +kernel
  cases result : validate fieldConfig with
  | ok _ => rfl
  | error e =>
    rw [result] at accepted
    cases accepted

theorem fieldConfig_mapped : fieldConfig.Mapped := by
  have profile : fieldProfile.Mapped := by
    refine .obj (by unfold SortedMap.Sorted; decide +kernel) ?_
    simp [Json.Mapped.str, Json.Mapped.int]
  have ntrip : (Json.obj [("active_profile_id", .str "field"), ("profiles", .arr [fieldProfile])]).Mapped := by
    refine .obj (by unfold SortedMap.Sorted; decide +kernel) ?_
    simp [Json.Mapped.str, Json.Mapped.arr, profile]
  have lora : (Json.obj [("baud", .int 0), ("read_timeout_s", .int 0), ("reopen_delay_s", .int 0), ("serial_device", .str "")]).Mapped := by
    refine .obj (by unfold SortedMap.Sorted; decide +kernel) ?_
    simp [Json.Mapped.str, Json.Mapped.int]
  have usb : (Json.obj [("baud", .int 0), ("receiver_device", .str ""), ("reopen_delay_s", .int 0), ("write_timeout_s", .int 0)]).Mapped := by
    refine .obj (by unfold SortedMap.Sorted; decide +kernel) ?_
    simp [Json.Mapped.str, Json.Mapped.int]
  refine .obj (by unfold SortedMap.Sorted; decide +kernel) ?_
  simp [Json.Mapped.str, Json.Mapped.int, lora, ntrip, usb]

theorem passwords_writeOnly_field :
    ∃ view, publicView fieldConfig = .ok view ∧ mergeWriteOnlyPasswords fieldConfig view = .ok fieldConfig :=
  passwords_writeOnly.1 fieldConfig fieldConfig_mapped fieldConfig_valid

end Dyx3.GnssRtk
