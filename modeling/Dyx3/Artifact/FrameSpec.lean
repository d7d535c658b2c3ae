import Dyx3.Artifact.Format
import Dyx3.Artifact.MetaReader

/-!
`read_frame_spec` (dyx3_mission, frame_placement): the frame and the anchor of a verified `meta`. It answers what the
members `frame` and `anchor` say to the standard's reader, unless an integer anywhere in the `meta` is too large for a
double.
-/

namespace Dyx3.Artifact

open Lib Json

structure GeoPoint where
  latDeg : Double
  lonDeg : Double

inductive FrameSpec where
  | ekfLocal
  | anchored (anchor : GeoPoint)

/-! ### `read_frame_spec` -/

def validGeo (g : GeoPoint) : Prop :=
  g.latDeg.isFinite ∧ g.lonDeg.isFinite ∧ g.latDeg.abs ≤ .ofInt 90 ∧ g.lonDeg.abs ≤ .ofInt 180

instance (g : GeoPoint) : Decidable (validGeo g) := inferInstanceAs (Decidable (_ ∧ _))

/-- What is noted of the top-level members. -/
structure TopMembers where
  frame : Option Bytes := none
  frameNotString : Bool := false
  /-- Where a non-null anchor begins. -/
  anchorAt : Option Bytes := none
  anchorBad : Bool := false

def noteTop (m : TopMembers) (key : Bytes) (v : JsonValue) : Option TopMembers :=
  if key = "frame".toList then
    match v with
    | .string text => some { m with frame := some text }
    | _ => some { m with frameNotString := true }
  else if key = "anchor".toList then
    match v with
    | .object begin => some { m with anchorAt := some begin }
    | .null => some m
    | _ => some { m with anchorBad := true }
  else some m

structure Coordinates where
  lat : Option Double := none
  lon : Option Double := none

def noteCoordinate (c : Coordinates) (key : Bytes) (v : JsonValue) : Option Coordinates :=
  if key = "lat".toList ∨ key = "lon".toList then
    match v with
    | .number x => some (if key = "lat".toList then { c with lat := some x } else { c with lon := some x })
    | _ => none
  else some c

/-- Both coordinates are needed. -/
def pointOf (lat lon : Option Double) : Option GeoPoint := do
  let latDeg ← lat
  let lonDeg ← lon
  some { latDeg, lonDeg }

/-- The anchor that begins here. -/
def readAnchor (begin : Bytes) : Option GeoPoint :=
  (MetaReader.object noteCoordinate {} begin).bind fun c => pointOf c.lat c.lon

def readFrameSpec (metaJson : Bytes) : ArtifactResult FrameSpec :=
  match MetaReader.object noteTop {} metaJson with
  | none => .error "artifact meta is not a JSON object".toList
  | some m =>
    let anchor := m.anchorAt.bind readAnchor
    let anchorBad := m.anchorBad || (m.anchorAt.isSome && anchor.isNone)
    match m.frame with
    | none =>
      .error (if m.frameNotString then "meta \"frame\" is not a string".toList
        else "meta has no \"frame\": EKF-local is never assumed".toList)
    | some frame =>
      if anchorBad then .error "meta \"anchor\" is not \x7blat, lon\x7d numbers or null".toList
      else if frame = "local_ned".toList then
        match anchor with
        | none => .error "frame \"local_ned\" without an anchor".toList
        | some anchor =>
          if validGeo anchor then .ok (.anchored anchor) else .error "anchor latitude/longitude out of range".toList
      else if frame = "ekf_local_ned".toList then
        if m.anchorAt.isSome then .error "frame \"ekf_local_ned\" with an anchor".toList else .ok .ekfLocal
      else .error ("unknown frame \"".toList ++ frame ++ ['"'])

/-! ### What the standard's reader sees -/

/-- The code points of an ASCII text. -/
def ascii (s : String) : Str := s.toList.map Char.toNat

def positionOf (fields : List (Str × Json)) : Option GeoPoint :=
  pointOf ((fields.lookup (ascii "lat")).bind toDouble) ((fields.lookup (ascii "lon")).bind toDouble)

/-- The anchor of a `meta`: bad when there is one that is not `{lat, lon}` numbers. -/
def anchorOf : Option Json → Option (Option GeoPoint)
  | none => some none
  | some .null => some none
  | some (.obj fields) => (positionOf fields).map some
  | some _ => none

/-- The frame that the members `frame` and `anchor` of a `meta` say. -/
def frameSpecOf (frame anchor : Option Json) : ArtifactResult FrameSpec :=
  match frame with
  | none => .error "meta has no \"frame\": EKF-local is never assumed".toList
  | some (.str name) =>
    match anchorOf anchor with
    | none => .error "meta \"anchor\" is not \x7blat, lon\x7d numbers or null".toList
    | some anchor =>
      if name = ascii "local_ned" then
        match anchor with
        | none => .error "frame \"local_ned\" without an anchor".toList
        | some anchor =>
          if validGeo anchor then .ok (.anchored anchor) else .error "anchor latitude/longitude out of range".toList
      else if name = ascii "ekf_local_ned" then
        if anchor.isSome then .error "frame \"ekf_local_ned\" with an anchor".toList else .ok .ekfLocal
      else .error ("unknown frame \"".toList ++ escape name ++ ['"'])
  | some _ => .error "meta \"frame\" is not a string".toList

/-! ### Names -/

theorem joined_small {s : Str} (small : ∀ c ∈ s, c < 0xd800) : Joined s := by
  induction s with
  | nil => exact ⟨nofun, .nil⟩
  | cons c s ih =>
    have first := small c List.mem_cons_self
    refine joined_cons (by omega) ?_ (ih fun d member => small d (List.mem_cons_of_mem _ member))
    rintro d _ ⟨⟨high, _⟩, _⟩
    omega

theorem escape_inj {s t : Str} (left : Joined s) (right : Joined t) (same : escape s = escape t) : s = t := by
  have read := CanonicalJson.string_quote left []
  rw [same, CanonicalJson.string_quote right []] at read
  exact (Prod.mk.inj (Option.some.inj read)).1.symm

/-- A plain name is written as it is, and nothing else is written like it. -/
theorem escape_name {name : String} (plain : escape (ascii name) = name.toList) (small : ∀ c ∈ ascii name, c < 0xd800)
    {key : Str} (joined : Joined key) : escape key = name.toList ↔ key = ascii name := by
  constructor
  · intro same
    exact escape_inj joined (joined_small small) (same.trans plain.symm)
  · rintro rfl
    exact plain

section

variable {key : Str} (joined : Joined key)

include joined

theorem escape_frame : escape key = "frame".toList ↔ key = ascii "frame" := escape_name (by decide) (by decide) joined
theorem escape_anchor : escape key = "anchor".toList ↔ key = ascii "anchor" := escape_name (by decide) (by decide) joined
theorem escape_lat : escape key = "lat".toList ↔ key = ascii "lat" := escape_name (by decide) (by decide) joined
theorem escape_lon : escape key = "lon".toList ↔ key = ascii "lon" := escape_name (by decide) (by decide) joined
theorem escape_local : escape key = "local_ned".toList ↔ key = ascii "local_ned" :=
  escape_name (by decide) (by decide) joined
theorem escape_ekf : escape key = "ekf_local_ned".toList ↔ key = ascii "ekf_local_ned" :=
  escape_name (by decide) (by decide) joined

end

/-! ### The anchor -/

abbrev Fields := List (Str × Json)

def seenNumber (_ : Option Double) (v : Json) : Option (Option Double) := (toDouble v).map some

/-- What is noted of lat and lon, each by itself. -/
def seenCoordinates : Option Double × Option Double → Str × Json → Option (Option Double × Option Double) :=
  sideBySide (onKey (ascii "lat") seenNumber) (onKey (ascii "lon") seenNumber)

theorem sees_number {v : Json} {j : JsonValue} (sees : Sees v j) :
    (∃ x, toDouble v = some x ∧ j = .number x) ∨ (toDouble v = none ∧ ∀ x, j ≠ .number x) := by
  cases sees with
  | number read => exact .inl ⟨_, read, rfl⟩
  | _ => exact .inr ⟨rfl, nofun⟩

theorem noteCoordinate_sees {kv : Str × Json} (joined : Joined kv.1) (c : Option Double × Option Double) (c' : Coordinates)
    {j : JsonValue} (related : c = (c'.lat, c'.lon)) (sees : Sees kv.2 j) :
    Option.Rel (fun c c' => c = (c'.lat, c'.lon)) (seenCoordinates c kv) (noteCoordinate c' (escape kv.1) j) := by
  subst related
  have apart : ascii "lat" ≠ ascii "lon" := by decide
  simp only [seenCoordinates, sideBySide, onKey, seenNumber, noteCoordinate, escape_lat joined, escape_lon joined]
  by_cases lat : kv.1 = ascii "lat"
  · have lon : ¬ kv.1 = ascii "lon" := fun same => apart (lat.symm.trans same)
    simp only [if_pos lat, if_pos (Or.inl lat : kv.1 = ascii "lat" ∨ kv.1 = ascii "lon"), if_neg lon]
    rcases sees_number sees with ⟨x, read, rfl⟩ | ⟨read, other⟩
    · rw [read]
      exact .some rfl
    · rw [read]
      cases j with
      | number x => exact absurd rfl (other x)
      | _ => exact .none
  · by_cases lon : kv.1 = ascii "lon"
    · simp only [if_neg lat, if_pos (Or.inr lon : kv.1 = ascii "lat" ∨ kv.1 = ascii "lon"), if_pos lon]
      rcases sees_number sees with ⟨x, read, rfl⟩ | ⟨read, other⟩
      · rw [read]
        exact .some rfl
      · rw [read]
        cases j with
        | number x => exact absurd rfl (other x)
        | _ => exact .none
    · have neither : ¬ (kv.1 = ascii "lat" ∨ kv.1 = ascii "lon") := not_or.mpr ⟨lat, lon⟩
      simp only [if_neg lat, if_neg lon, if_neg neither]
      exact .some rfl

/-- Where every number fits, fitting members are all members. -/
theorem foldlM_fitting {τ : Type} {step : τ → Str × Json → Option τ} {fields : Fields} (fits : numbersFit (.obj fields) = true)
    (acc : τ) : fields.foldlM (MetaReader.fittingStep step) acc = fields.foldlM step acc := by
  rw [numbersFit_obj, List.all_eq_true] at fits
  induction fields generalizing acc with
  | nil => rfl
  | cons kv fields ih =>
    have here : MetaReader.fittingStep step acc kv = step acc kv := if_pos (fits kv List.mem_cons_self)
    rw [List.foldlM_cons, List.foldlM_cons, here]
    cases step acc kv with
    | none => rfl
    | some acc' => exact ih (fun other member => fits other (List.mem_cons_of_mem _ member)) acc'

theorem distinct_keys {levels : ℕ} {fields : Fields} (canonical : Canonical (levels + 1) (.obj fields)) :
    fields.Pairwise fun (a b : Str × Json) => a.1 ≠ b.1 := canonical.1.imp fun less => ne_of_lt less

theorem rel_map {α β : Type} {f : β → α} {a : Option α} {b : Option β} (related : Option.Rel (fun a b => a = f b) a b) :
    b.map f = a := by
  cases related with
  | none => rfl
  | some same => rw [Option.map_some, same]

/-- Lat and lon are read wherever the anchor begins. -/
theorem readAnchor_dumps {levels : ℕ} {fields : Fields} (canonical : Canonical (levels + 1) (.obj fields))
    (within : levels ≤ 64 + 1) (fits : numbersFit (.obj fields) = true) (rest : Bytes) :
    readAnchor ((Json.obj fields).dumps ++ rest) = positionOf fields := by
  have start : ((none, none) : Option Double × Option Double) = (({} : Coordinates).lat, ({} : Coordinates).lon) := rfl
  have read := MetaReader.object_reads canonical within
    (fun kv member c c' j => noteCoordinate_sees (canonical.2 kv member).1 c c') start rest
  have distinct := distinct_keys canonical
  rw [foldlM_fitting fits, seenCoordinates, foldlM_sideBySide, foldlM_onKey distinct, foldlM_onKey distinct] at read
  have seen := rel_map (f := fun c : Coordinates => (c.lat, c.lon)) read
  have parts : readAnchor ((Json.obj fields).dumps ++ rest) =
      ((MetaReader.object noteCoordinate {} ((Json.obj fields).dumps ++ rest)).map fun c => (c.lat, c.lon)).bind
        fun p => pointOf p.1 p.2 := by
    rw [readAnchor]
    cases MetaReader.object noteCoordinate {} ((Json.obj fields).dumps ++ rest) <;> rfl
  rw [parts, seen, positionOf]
  cases fields.lookup (ascii "lat") with
  | none =>
    cases fields.lookup (ascii "lon") with
    | none => rfl
    | some lon => cases read : toDouble lon <;> simp [seenNumber, pointOf, read]
  | some lat =>
    cases readLat : toDouble lat with
    | none => simp [seenNumber, pointOf, readLat]
    | some x =>
      cases fields.lookup (ascii "lon") with
      | none => simp [seenNumber, pointOf, readLat]
      | some lon => cases readLon : toDouble lon <;> simp [seenNumber, pointOf, readLat, readLon]

/-! ### The top level -/

def seenFrame (a : Option Bytes × Bool) : Json → Option (Option Bytes × Bool)
  | .str name => some (some (escape name), a.2)
  | _ => some (a.1, true)

def seenAnchor (b : Option Fields × Bool) : Json → Option (Option Fields × Bool)
  | .obj fields => some (some fields, b.2)
  | .null => some b
  | _ => some (b.1, true)

/-- What is noted of frame and anchor, each by itself. -/
def seenTop : (Option Bytes × Bool) × Option Fields × Bool → Str × Json → Option ((Option Bytes × Bool) × Option Fields × Bool) :=
  sideBySide (onKey (ascii "frame") seenFrame) (onKey (ascii "anchor") seenAnchor)

structure Noted (p : (Option Bytes × Bool) × Option Fields × Bool) (m : TopMembers) : Prop where
  frame : m.frame = p.1.1
  notString : m.frameNotString = p.1.2
  anchor : Option.Rel (fun fields begin => ∃ rest, begin = (Json.obj fields).dumps ++ rest) p.2.1 m.anchorAt
  bad : m.anchorBad = p.2.2

theorem noteTop_sees {key : Str} {v : Json} (joined : Joined key) (p : (Option Bytes × Bool) × Option Fields × Bool)
    (m : TopMembers) {j : JsonValue} (noted : Noted p m) (sees : Sees v j) :
    Option.Rel Noted (seenTop p (key, v)) (noteTop m (escape key) j) := by
  have apart : ascii "frame" ≠ ascii "anchor" := by decide
  obtain ⟨frame, notString, anchor, bad⟩ := noted
  simp only [seenTop, sideBySide, onKey, noteTop, escape_frame joined, escape_anchor joined]
  by_cases here : key = ascii "frame"
  · have other : ¬ key = ascii "anchor" := fun same => apart (here.symm.trans same)
    simp only [if_pos here, if_neg other]
    cases sees with
    | string s => exact .some ⟨rfl, notString, anchor, bad⟩
    | number read =>
      cases v with
      | int i => exact .some ⟨frame, rfl, anchor, bad⟩
      | float y => exact .some ⟨frame, rfl, anchor, bad⟩
      | _ => cases read
    | _ => exact .some ⟨frame, rfl, anchor, bad⟩
  · by_cases there : key = ascii "anchor"
    · simp only [if_neg here, if_pos there]
      cases sees with
      | obj fields rest => exact .some ⟨frame, notString, .some ⟨rest, rfl⟩, bad⟩
      | null => exact .some ⟨frame, notString, anchor, bad⟩
      | number read =>
          cases v with
        | int i => exact .some ⟨frame, notString, anchor, rfl⟩
        | float y => exact .some ⟨frame, notString, anchor, rfl⟩
        | _ => cases read
      | _ => exact .some ⟨frame, notString, anchor, rfl⟩
    · simp only [if_neg here, if_neg there]
      exact .some ⟨frame, notString, anchor, bad⟩

theorem seenFrame_frame (frame : Option Json) {a : Option Bytes × Bool}
    (seen : frame.elim (some (none, false)) (seenFrame (none, false)) = some a) :
    a = match frame with
      | none => (none, false)
      | some (.str name) => (some (escape name), false)
      | some _ => (none, true) := by
  rcases frame with _ | frame
  · exact (Option.some.inj seen).symm
  · cases frame <;> exact (Option.some.inj seen).symm

/-- What is noted of the anchor says as much as the anchor. -/
theorem anchor_noted (anchor : Option Json) {b : Option Fields × Bool} {m : TopMembers}
    (seen : anchor.elim (some (none, false)) (seenAnchor (none, false)) = some b)
    (begins : Option.Rel (fun fields begin => ∃ rest, begin = (Json.obj fields).dumps ++ rest) b.1 m.anchorAt)
    (bad : m.anchorBad = b.2)
    (reads : ∀ fields, anchor = some (.obj fields) → ∀ rest, readAnchor ((Json.obj fields).dumps ++ rest) = positionOf fields) :
    (anchorOf anchor = none ∧ (m.anchorBad || (m.anchorAt.isSome && (m.anchorAt.bind readAnchor).isNone)) = true) ∨
      (anchorOf anchor = some (m.anchorAt.bind readAnchor) ∧
        (m.anchorBad || (m.anchorAt.isSome && (m.anchorAt.bind readAnchor).isNone)) = false ∧
        m.anchorAt.isSome = (m.anchorAt.bind readAnchor).isSome) := by
  rcases anchor with _ | anchor
  · obtain rfl := Option.some.inj seen
    generalize m.anchorAt = at_ at begins ⊢
    cases begins
    exact .inr ⟨rfl, by rw [bad]; rfl, rfl⟩
  · cases anchor with
    | null =>
      obtain rfl := Option.some.inj seen
      generalize m.anchorAt = at_ at begins ⊢
      cases begins
      exact .inr ⟨rfl, by rw [bad]; rfl, rfl⟩
    | obj fields =>
      obtain rfl := Option.some.inj seen
      generalize m.anchorAt = at_ at begins ⊢
      cases begins with
      | some begin =>
        obtain ⟨rest, rfl⟩ := begin
        have read := reads fields rfl rest
        rw [bad, Option.bind_some, read, anchorOf]
        cases positionOf fields with
        | none => exact .inl ⟨rfl, rfl⟩
        | some g => exact .inr ⟨rfl, rfl, rfl⟩
    | _ =>
      obtain rfl := Option.some.inj seen
      exact .inl ⟨rfl, by rw [bad]; rfl⟩

section

variable {levels : ℕ} {fields : Fields} (canonical : Canonical (levels + 1) (.obj fields)) (within : levels ≤ 64)

include canonical within

/-- The whole `meta` is read exactly when every number in it fits. -/
theorem object_noted (rest : Bytes) :
    Option.Rel Noted (fields.foldlM (MetaReader.fittingStep seenTop) ((none, false), (none, false)))
      (MetaReader.object noteTop {} ((Json.obj fields).dumps ++ rest)) :=
  MetaReader.object_reads canonical (by omega)
    (fun kv member p m _ => noteTop_sees (canonical.2 kv member).1 p m) ⟨rfl, rfl, .none, rfl⟩ rest

theorem readFrameSpec_unfit (large : numbersFit (.obj fields) = false) :
    readFrameSpec (Json.obj fields).dumps = .error "artifact meta is not a JSON object".toList := by
  rw [numbersFit_obj, List.all_eq_false] at large
  obtain ⟨kv, member, large⟩ := large
  have refuses : fields.foldlM (MetaReader.fittingStep seenTop) ((none, false), (none, false)) = none :=
    foldlM_refuses member (fun p => if_neg large) _
  have read := object_noted canonical within []
  rw [refuses, List.append_nil] at read
  generalize out : MetaReader.object noteTop {} (Json.obj fields).dumps = m at read
  cases read with
  | none => rw [readFrameSpec, out]

theorem readFrameSpec_fits (fits : numbersFit (.obj fields) = true) :
    readFrameSpec (Json.obj fields).dumps =
      frameSpecOf (fields.lookup (ascii "frame")) (fields.lookup (ascii "anchor")) := by
  have distinct := distinct_keys canonical
  have read := object_noted canonical within []
  rw [foldlM_fitting fits, seenTop, foldlM_sideBySide, foldlM_onKey distinct, foldlM_onKey distinct, List.append_nil] at read
  have anchors : ∀ afields, fields.lookup (ascii "anchor") = some (.obj afields) → ∀ rest,
      readAnchor ((Json.obj afields).dumps ++ rest) = positionOf afields := by
    intro afields found rest
    have member := lookup_mem found
    rw [numbersFit_obj, List.all_eq_true] at fits
    have inside := (canonical.2 _ member).2
    cases levels with
    | zero => exact inside.elim
    | succ levels => exact readAnchor_dumps inside (by omega) (fits _ member) rest
  have joined : ∀ name, fields.lookup (ascii "frame") = some (.str name) → Joined name := by
    intro name found
    have inside := (canonical.2 _ (lookup_mem found)).2
    cases levels with
    | zero => exact inside.elim
    | succ levels => exact inside
  rw [readFrameSpec]
  generalize MetaReader.object noteTop {} (Json.obj fields).dumps = result at read ⊢
  generalize fields.lookup (ascii "frame") = frame at read joined ⊢
  generalize fields.lookup (ascii "anchor") = anchor at read anchors ⊢
  obtain ⟨a, seenA⟩ : ∃ a, frame.elim (some (none, false)) (seenFrame (none, false)) = some a := by
    rcases frame with _ | frame
    · exact ⟨_, rfl⟩
    · cases frame <;> exact ⟨_, rfl⟩
  obtain ⟨b, seenB⟩ : ∃ b, anchor.elim (some (none, false)) (seenAnchor (none, false)) = some b := by
    rcases anchor with _ | anchor
    · exact ⟨_, rfl⟩
    · cases anchor <;> exact ⟨_, rfl⟩
  dsimp only at read
  rw [seenA, seenB] at read
  cases read with
  | some noted =>
    rename_i m
    obtain ⟨named, notString, begins, bad⟩ := noted
    have anchored := anchor_noted anchor seenB begins bad anchors
    have parts := seenFrame_frame frame seenA
    dsimp only at named notString ⊢
    rw [named, notString, parts]
    rcases frame with _ | frame
    · rfl
    · cases frame with
      | str name =>
        have joined := joined name rfl
        rcases anchored with ⟨none, bad⟩ | ⟨same, bad, present⟩
        · simp only [bad, if_true, frameSpecOf, none]
        · rw [present] at bad
          simp only [present, bad, Bool.false_eq_true, if_false, frameSpecOf, same, escape_local joined, escape_ekf joined]
      | _ => rfl

end

theorem refusal_ne {msg : Bytes} (other : msg.take 2 ≠ ['a', 'r']) :
    (.error msg : ArtifactResult FrameSpec) ≠ .error "artifact meta is not a JSON object".toList := by
  intro same
  exact other (congrArg (List.take 2) (Except.error.inj same))

/-- What a frame says never reads like a refusal of the whole `meta`. -/
theorem frameSpecOf_known (frame anchor : Option Json) :
    frameSpecOf frame anchor ≠ .error "artifact meta is not a JSON object".toList := by
  rcases frame with _ | frame
  · exact refusal_ne (by decide)
  · cases frame with
    | str name =>
      simp only [frameSpecOf]
      rcases anchorOf anchor with _ | anchor
      · exact refusal_ne (by decide)
      · dsimp only
        split_ifs with named ekf given
        · cases anchor with
          | none => exact refusal_ne (by decide)
          | some g =>
            dsimp only
            split_ifs
            · exact nofun
            · exact refusal_ne (by decide)
        · exact refusal_ne (by decide)
        · exact nofun
        · exact refusal_ne fun same => by cases congrArg List.head? same
    | _ => exact refusal_ne (by decide)

/-- The reader answers what the members frame and anchor say to the standard's reader, exactly when every number in the
`meta` fits a double. -/
theorem readFrameSpec_iff (s : Bytes) (verified : CanonicalJson.object s = true) :
    ∃ fields, loads none s = some (.obj fields) ∧
      (readFrameSpec s = frameSpecOf (fields.lookup (ascii "frame")) (fields.lookup (ascii "anchor")) ↔
        numbersFit (.obj fields) = true) ∧
      (readFrameSpec s = .error "artifact meta is not a JSON object".toList ↔ numbersFit (.obj fields) = false) := by
  obtain ⟨fields, canonical, rfl⟩ := CanonicalJson.object_iff.mp verified
  refine ⟨fields, loads_dumps canonical (by decide) nofun, ?_⟩
  cases fits : numbersFit (.obj fields) with
  | true =>
    have read := readFrameSpec_fits canonical (by decide) fits
    refine ⟨⟨fun _ => rfl, fun _ => read⟩, ⟨fun refused => ?_, nofun⟩⟩
    exact absurd (read.symm.trans refused) (frameSpecOf_known _ _)
  | false =>
    have read := readFrameSpec_unfit canonical (by decide) fits
    refine ⟨⟨fun same => ?_, nofun⟩, ⟨fun _ => rfl, fun _ => read⟩⟩
    exact absurd (same.symm.trans read) (frameSpecOf_known _ _)

/-- `{"frame":"ekf_local_ned"}` -/
def ekfMeta : Fields := [(ascii "frame", .str (ascii "ekf_local_ned"))]

theorem ekfMeta_canonical : CanonicalJson.object (Json.obj ekfMeta).dumps = true := by
  refine CanonicalJson.object_iff.mpr ⟨ekfMeta, ⟨List.pairwise_singleton _ _, ?_⟩, rfl⟩
  intro kv member
  rw [List.mem_singleton.mp member]
  exact ⟨joined_small (by decide), joined_small (by decide)⟩

theorem readFrameSpec_ekf :
    ∃ fields, loads none (Json.obj ekfMeta).dumps = some (.obj fields) ∧
      (readFrameSpec (Json.obj ekfMeta).dumps = frameSpecOf (fields.lookup (ascii "frame")) (fields.lookup (ascii "anchor")) ↔
        numbersFit (.obj fields) = true) ∧
      (readFrameSpec (Json.obj ekfMeta).dumps = .error "artifact meta is not a JSON object".toList ↔
        numbersFit (.obj fields) = false) :=
  readFrameSpec_iff (Json.obj ekfMeta).dumps ekfMeta_canonical

/-- The same `meta` with an integer of 401 digits. -/
def hugeMeta : Fields := ekfMeta ++ [(ascii "x", .int (10 ^ 200 * 10 ^ 200))]

/-- A verified `meta` whose frame is known is said to be no JSON object. -/
theorem readFrameSpec_huge :
    CanonicalJson.object (Json.obj hugeMeta).dumps = true ∧
      loads none (Json.obj hugeMeta).dumps = some (.obj hugeMeta) ∧
      frameSpecOf (hugeMeta.lookup (ascii "frame")) (hugeMeta.lookup (ascii "anchor")) = .ok .ekfLocal ∧
      readFrameSpec (Json.obj hugeMeta).dumps = .error "artifact meta is not a JSON object".toList := by
  have canonical : Canonical (CanonicalJson.kMaxDepth + 1) (.obj hugeMeta) := by
    refine ⟨List.pairwise_pair.mpr (by decide), ?_⟩
    intro kv member
    rcases List.mem_cons.mp member with rfl | member
    · exact ⟨joined_small (by decide), joined_small (by decide)⟩
    · rw [List.mem_singleton.mp member]
      exact ⟨joined_small (by decide), trivial⟩
  have large : numbersFit (.obj hugeMeta) = false := by
    rw [numbersFit_obj, List.all_eq_false]
    refine ⟨(ascii "x", .int (10 ^ 200 * 10 ^ 200)), by simp [hugeMeta], ?_⟩
    rw [numbersFit, leaves_int]
    decide +kernel
  exact ⟨CanonicalJson.object_iff.mpr ⟨hugeMeta, canonical, rfl⟩, loads_dumps canonical (by decide) (fun _ _ _ limited => by cases limited), rfl,
    readFrameSpec_unfit canonical (by decide) large⟩

end Dyx3.Artifact
