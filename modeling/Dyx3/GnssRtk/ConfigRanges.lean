import Dyx3.GnssRtk.ConfigSwap

/-!
The numbers of an accepted configuration. `validate` looks at them after `get<int>()` and `get<uint64_t>()`, so what is written may be
another number by a multiple of `2 ^ 32` or `2 ^ 64`.
-/

namespace Dyx3.GnssRtk

open Lib

/-- The integer written in the document. -/
def written (j : Json) (key : String) : Option ℤ := (j.find? key).bind Json.integer?

def BaudInRange (c : Json) (key device : String) : Prop :=
  ∃ port baud, c.find? key = some port ∧ written port "baud" = some baud ∧ (baud ∈ kBauds ∨ baud = 0 ∧ port.find? device = some (.str ""))

/-- The numbers as written are what the checks ask for. -/
structure InRange (c : Json) : Prop where
  revision : ∃ r, written c "revision" = some r ∧ 1 ≤ r ∧ r ≤ 2 ^ 64 - 1
  ports : ∀ profiles, profilesOf c = .ok profiles → ∀ p ∈ profiles, ∃ port, written p "port" = some port ∧ 1 ≤ port ∧ port ≤ 65535
  lora : BaudInRange c "lora" "serial_device"
  usb : BaudInRange c "usb" "receiver_device"

def stamp (merged : Json) (revision : ℤ) (utcNow : String) : Json := (merged.set "revision" (.int revision)).set "updated_at" (.str utcNow)

/-- A change that is made has the revision after the one written, and one that only the revision could spoil is made, up to the last
revision. -/
def Successor (c : Json) : Prop :=
  ∀ r, written c "revision" = some r → ∀ candidate utcNow,
    (∀ next, nextConfig c candidate utcNow = .ok next → r + 1 ≤ 2 ^ 64 - 1 ∧ written next "revision" = some (r + 1)) ∧
    ∀ merged, revisionOf candidate = revisionOf c → mergeWriteOnlyPasswords c candidate = .ok merged →
      validate (stamp merged 1 utcNow) = .ok () → r + 1 ≤ 2 ^ 64 - 1 → ∃ next, nextConfig c candidate utcNow = .ok next

/-- A number that `int` holds. -/
def IsInt (i : ℤ) : Prop := -2 ^ 31 ≤ i ∧ i < 2 ^ 31

/-- The numbers as written are of the types that they are read as. -/
structure FitsTypes (c : Json) : Prop where
  revision : ∀ r, written c "revision" = some r → 0 ≤ r ∧ r < 2 ^ 64
  ports : ∀ profiles, profilesOf c = .ok profiles → ∀ p ∈ profiles, ∀ port, written p "port" = some port → IsInt port
  bauds : ∀ key ∈ ["lora", "usb"], ∀ port baud, c.find? key = some port → written port "baud" = some baud → IsInt baud

/-! ### Conversions -/

theorem asInt_fits {i : ℤ} (fits : IsInt i) : asInt i = i := by
  obtain ⟨low, high⟩ := fits
  rw [asInt, Int.bmod_def]
  split <;> omega

theorem asUint64_fits {i : ℤ} (low : 0 ≤ i) (high : i < 2 ^ 64) : (asUint64 i : ℤ) = i := by
  rw [asUint64, Int.emod_eq_of_lt low high, Int.toNat_of_nonneg low]

theorem revisionOf_written {c : Json} {r : ℤ} (found : written c "revision" = some r) (low : 0 ≤ r) (high : r < 2 ^ 64) :
    revisionOf c = some r.toNat := by
  rw [revisionOf, show (c.find? "revision").bind Json.integer? = some r from found, Option.map_some, asUint64, Int.emod_eq_of_lt low high]

/-! ### What `validate` knows of the numbers -/

theorem validateProfile_port {ids ids' : List String} {p : Json} (h : validateProfile ids p = .ok ids') :
    ∃ port, written p "port" = some port ∧ 0 < asInt port ∧ asInt port < 65536 := by
  iterate 6 obtain ⟨_, -, h⟩ := bind_ok h
  obtain ⟨_, checked, -⟩ := bind_ok h
  obtain ⟨port, found, range⟩ := (Option.any_eq_true _ _).mp (need_ok checked)
  obtain ⟨low, high⟩ := Bool.and_eq_true_iff.mp range
  exact ⟨port, found, of_decide_eq_true low, of_decide_eq_true high⟩

theorem profiles_ports {profiles : List Json} {ids ids' : List String} (h : profiles.foldlM validateProfile ids = .ok ids') :
    ∀ p ∈ profiles, ∃ port, written p "port" = some port ∧ 0 < asInt port ∧ asInt port < 65536 := by
  induction profiles generalizing ids with
  | nil => exact fun _ member => absurd member List.not_mem_nil
  | cons p profiles ih =>
    rw [List.foldlM_cons] at h
    obtain ⟨_, first, h⟩ := bind_ok h
    intro q member
    rcases List.mem_cons.mp member with rfl | member
    · exact validateProfile_port first
    · exact ih h q member

theorem validate_ports {c : Json} (valid : validate c = .ok ()) {profiles : List Json} (listed : profilesOf c = .ok profiles) :
    ∀ p ∈ profiles, ∃ port, written p "port" = some port ∧ 0 < asInt port ∧ asInt port < 65536 := by
  obtain ⟨fields, ntrip, rfl, found, checked, -⟩ := validate_ok valid
  iterate 3 obtain ⟨_, -, checked⟩ := bind_ok checked
  obtain ⟨v, inside, checked⟩ := bind_ok checked
  obtain ⟨profiles', array, checked⟩ := bind_ok checked
  obtain ⟨_, each, -⟩ := bind_ok checked
  rw [items_ok.mp array] at inside
  have same : profilesOf (.obj fields) = .ok profiles' := profilesOf_ok.mpr ⟨ntrip, found, get_ok.mp inside⟩
  cases listed.symm.trans same
  exact profiles_ports each

/-- A serial port that passed. -/
def BaudChecked (c : Json) (key device : String) : Prop :=
  ∃ port path baud, c.find? key = some port ∧ port.find? device = some (.str path) ∧ written port "baud" = some baud ∧
    (path = "" ∧ asInt baud = 0 ∨ asInt baud ∈ kBauds)

theorem baudOk_checked {c port : Json} {key device path : String} (found : c.get key = .ok port) {v : Json}
    (named : port.get device = .ok v) (text : v.text = .ok path) (ok : baudOk port path = true) : BaudChecked c key device := by
  obtain ⟨baud, number, range⟩ := (Option.any_eq_true _ _).mp ok
  rw [text_ok.mp text] at named
  refine ⟨port, path, baud, get_ok.mp found, get_ok.mp named, number, ?_⟩
  rcases Bool.or_eq_true_iff.mp range with unset | supported
  · obtain ⟨empty, zero⟩ := Bool.and_eq_true_iff.mp unset
    exact .inl ⟨of_decide_eq_true empty, of_decide_eq_true zero⟩
  · exact .inr (of_decide_eq_true supported)

theorem validate_bauds {c : Json} (valid : validate c = .ok ()) :
    BaudChecked c "lora" "serial_device" ∧ BaudChecked c "usb" "receiver_device" := by
  iterate 9 obtain ⟨_, -, valid⟩ := bind_ok valid
  obtain ⟨lora, foundLora, valid⟩ := bind_ok valid
  iterate 2 obtain ⟨_, -, valid⟩ := bind_ok valid
  obtain ⟨_, namedLora, valid⟩ := bind_ok valid
  obtain ⟨loraPath, textLora, valid⟩ := bind_ok valid
  obtain ⟨_, -, valid⟩ := bind_ok valid
  obtain ⟨_, baudLora, valid⟩ := bind_ok valid
  iterate 2 obtain ⟨_, -, valid⟩ := bind_ok valid
  obtain ⟨usb, foundUsb, valid⟩ := bind_ok valid
  iterate 2 obtain ⟨_, -, valid⟩ := bind_ok valid
  obtain ⟨_, namedUsb, valid⟩ := bind_ok valid
  obtain ⟨usbPath, textUsb, valid⟩ := bind_ok valid
  iterate 2 obtain ⟨_, -, valid⟩ := bind_ok valid
  obtain ⟨_, baudUsb, valid⟩ := bind_ok valid
  exact ⟨baudOk_checked foundLora namedLora textLora (need_ok baudLora), baudOk_checked foundUsb namedUsb textUsb (need_ok baudUsb)⟩

/-! ### Another revision -/

theorem find?_stamp {fields : List (String × Json)} (revision : ℤ) (utcNow : String) (key : String) :
    (stamp (.obj fields) revision utcNow).find? key =
      if key = "updated_at" then some (.str utcNow) else if key = "revision" then some (.int revision) else (Json.obj fields).find? key := by
  show ((Json.obj _).set "updated_at" _).find? key = _
  rw [Json.find?_set]
  split
  · rfl
  · exact Json.find?_set "revision" key _

theorem keys_stamp {fields : List (String × Json)} (revision other : ℤ) (utcNow : String) (allowed : List String) :
    keys (stamp (.obj fields) revision utcNow) allowed = keys (stamp (.obj fields) other utcNow) allowed := by
  have names : ∀ (fields fields' : List (String × Json)) (key : String) (v w : Json), fields.map Prod.fst = fields'.map Prod.fst →
      (SortedMap.put key v fields).map Prod.fst = (SortedMap.put key w fields').map Prod.fst := by
    intro fields
    induction fields with
    | nil =>
      intro fields' key v w same
      rw [List.map_eq_nil_iff.mp same.symm]
      rfl
    | cons first fields ih =>
      intro fields' key v w same
      cases fields' with
      | nil => cases same
      | cons first' fields' =>
        obtain ⟨head, tail⟩ := List.cons.inj same
        rw [SortedMap.put, SortedMap.put, ← head]
        split
        · rw [List.map_cons, List.map_cons, List.map_cons, List.map_cons, head, tail]
        · split
          · rw [List.map_cons, List.map_cons, tail]
          · rw [List.map_cons, List.map_cons, head, ih fields' key v w tail]
  have checks : ∀ fields : List (String × Json), (fields.all fun kv => decide (kv.1 ∈ allowed)) =
      (fields.map Prod.fst).all fun key => decide (key ∈ allowed) := by
    intro fields
    rw [List.all_map]
    rfl
  show need (List.all _ _) _ = need (List.all _ _) _
  rw [checks, checks]
  congr 2
  exact names _ _ _ _ _ (names _ _ _ _ _ rfl)

theorem validate_stamp {merged : Json} (object : ∃ fields, merged = .obj fields) {revision : ℤ} {utcNow : String}
    (positive : 0 < asUint64 revision) (valid : validate (stamp merged 1 utcNow) = .ok ()) :
    validate (stamp merged revision utcNow) = .ok () := by
  obtain ⟨fields, rfl⟩ := object
  have same : ∀ key, key ≠ "revision" → (stamp (.obj fields) revision utcNow).find? key = (stamp (.obj fields) 1 utcNow).find? key := by
    intro key other
    rw [find?_stamp, find?_stamp, if_neg other, if_neg other]
  have own : ∀ r, (stamp (.obj fields) r utcNow).find? "revision" = some (.int r) := by
    intro r
    rw [find?_stamp, if_neg (by decide), if_pos rfl]
  have checked : decide (0 < asUint64 revision) = decide (0 < asUint64 1) := by
    rw [decide_eq_true positive]
    rfl
  rw [← valid]
  unfold validate
  rw [keys_stamp revision 1]
  simp only [Json.get, own, Option.bind_some, Json.integer?, Option.any_some, checked, same "schema" (by decide),
    same "updated_at" (by decide), same "desired_state" (by decide), same "source" (by decide), same "transport" (by decide),
    same "ntrip" (by decide), same "lora" (by decide), same "usb" (by decide)]

theorem revisionOf_eq {c : Json} {r : ℤ} (found : written c "revision" = some r) : revisionOf c = some (asUint64 r) := by
  rw [revisionOf, show (c.find? "revision").bind Json.integer? = some r from found, Option.map_some]

theorem written_stamp {merged : Json} (object : ∃ fields, merged = .obj fields) (revision : ℤ) (utcNow : String) :
    written (stamp merged revision utcNow) "revision" = some revision := by
  obtain ⟨fields, rfl⟩ := object
  rw [written, find?_stamp, if_neg (by decide), if_pos rfl]
  rfl

theorem successor {c : Json} (fits : FitsTypes c) : Successor c := by
  intro r found candidate utcNow
  obtain ⟨low, high⟩ := fits.revision r found
  have own := revisionOf_written found low high
  refine ⟨fun next accepted => ?_, fun merged current done valid room => ?_⟩
  · obtain ⟨n, current, after⟩ := nextConfig_revision accepted
    obtain ⟨n', merged, current', -, done, valid, rfl⟩ := nextConfig_ok accepted
    cases own.symm.trans current
    cases own.symm.trans current'
    obtain ⟨_, _, _, _, _, _, list⟩ := merge_ok done
    obtain ⟨_, inside, _⟩ := profilesOf_ok.mp list
    have small := revision_small after
    refine ⟨by omega, ?_⟩
    rw [show (merged.set "revision" (.int ((r.toNat + 1) % 2 ^ 64 : ℕ))).set "updated_at" (.str utcNow)
      = stamp merged ((r.toNat + 1) % 2 ^ 64 : ℕ) utcNow from rfl, written_stamp (find_object inside)]
    congr 1
    omega
  · obtain ⟨_, _, _, _, _, _, list⟩ := merge_ok done
    obtain ⟨_, inside, _⟩ := profilesOf_ok.mp list
    have positive : 0 < asUint64 (((r.toNat + 1) % 2 ^ 64 : ℕ) : ℤ) := by
      unfold asUint64
      omega
    have passes := validate_stamp (find_object inside) positive valid
    refine ⟨stamp merged ((r.toNat + 1) % 2 ^ 64 : ℕ) utcNow, ?_⟩
    unfold nextConfig
    rw [own]
    show (need (revisionOf candidate = some r.toNat) _ >>= _) = _
    rw [need, if_pos (decide_eq_true (current.trans own))]
    show (mergeWriteOnlyPasswords c candidate >>= _) = _
    rw [done]
    show (validate (stamp merged ((r.toNat + 1) % 2 ^ 64 : ℕ) utcNow) >>= _) = _
    rw [passes]
    rfl

/-- The numbers of an accepted configuration are in range, and its revision has a successor, exactly when none of them is changed by
reading it. -/
theorem accepted_numbers {c : Json} (valid : validate c = .ok ()) : (InRange c ∧ Successor c) ↔ FitsTypes c := by
  constructor
  · rintro ⟨⟨⟨r, found, low, high⟩, ports, lora, usb⟩, -⟩
    have baud : ∀ {key device}, BaudInRange c key device → ∀ port baud, c.find? key = some port → written port "baud" = some baud →
        IsInt baud := by
      rintro key device ⟨port, baud, there, number, range⟩ port' baud' there' number'
      cases there.symm.trans there'
      cases number.symm.trans number'
      rcases range with supported | ⟨rfl, -⟩
      · have all : ∀ b ∈ kBauds, -2 ^ 31 ≤ b ∧ b < 2 ^ 31 := by decide
        exact all baud supported
      · exact ⟨by decide, by decide⟩
    refine ⟨fun r' found' => ?_, fun profiles listed p member port number => ?_, fun key member => ?_⟩
    · cases found.symm.trans found'
      omega
    · obtain ⟨port', number', low, high⟩ := ports profiles listed p member
      cases number.symm.trans number'
      exact ⟨by omega, by omega⟩
    · rcases List.mem_cons.mp member with rfl | member
      · exact baud lora
      · rw [List.mem_singleton.mp member]
        exact baud usb
  · intro fits
    have baud : ∀ {key device}, key ∈ ["lora", "usb"] → BaudChecked c key device → BaudInRange c key device := by
      rintro key device listed ⟨port, path, baud, there, named, number, range⟩
      rw [asInt_fits (fits.bauds key listed port baud there number)] at range
      refine ⟨port, baud, there, number, ?_⟩
      rcases range with ⟨rfl, zero⟩ | supported
      · exact .inr ⟨zero, named⟩
      · exact .inl supported
    obtain ⟨lora, usb⟩ := validate_bauds valid
    refine ⟨⟨?_, fun profiles listed p member => ?_, baud (by decide) lora, baud (by decide) usb⟩, successor fits⟩
    · obtain ⟨_, _, _, _, _, revision⟩ := validate_ok valid
      obtain ⟨r, found, positive⟩ := (Option.any_eq_true _ _).mp revision
      obtain ⟨low, high⟩ := fits.revision r found
      have same := asUint64_fits low high
      have nonzero : 0 < asUint64 r := of_decide_eq_true positive
      exact ⟨r, found, by omega, by omega⟩
    · obtain ⟨port, number, low, high⟩ := validate_ports valid listed p member
      rw [asInt_fits (fits.ports profiles listed p member port number)] at low high
      exact ⟨port, number, by omega, by omega⟩

theorem accepted_numbers_field : (InRange fieldConfig ∧ Successor fieldConfig) ↔ FitsTypes fieldConfig := accepted_numbers fieldConfig_valid

/-! A port, two bauds and a revision that are read as other numbers. -/

def wrappedConfig : Json :=
  .obj [("desired_state", .str "RUNNING"),
    ("lora", .obj [("baud", .int 4294967296), ("read_timeout_s", .int 0), ("reopen_delay_s", .int 0), ("serial_device", .str "")]),
    ("ntrip", .obj [("active_profile_id", .str "field"), ("profiles", .arr [fieldProfile.set "port" (.int 4294969397)])]),
    ("revision", .int (-1)), ("schema", .int 1), ("source", .str "NTRIP"), ("transport", .str "USB_DIRECT"), ("updated_at", .str ""),
    ("usb", .obj [("baud", .int (-4294967296)), ("receiver_device", .str ""), ("reopen_delay_s", .int 0), ("write_timeout_s", .int 0)])]

/-- It is accepted, and then no change of it is. -/
theorem accepted_wrapped :
    validate wrappedConfig = .ok () ∧ written wrappedConfig "revision" = some (-1) ∧ ¬InRange wrappedConfig ∧
      ∀ candidate utcNow next, nextConfig wrappedConfig candidate utcNow ≠ .ok next := by
  have passes : (validate wrappedConfig).isOk = true := by decide +kernel
  have valid : validate wrappedConfig = .ok () := by
    cases result : validate wrappedConfig with
    | ok _ => rfl
    | error e =>
      rw [result] at passes
      cases passes
  have number : written wrappedConfig "revision" = some (-1) := by decide +kernel
  have read : revisionOf wrappedConfig = some (2 ^ 64 - 1) := by decide +kernel
  refine ⟨valid, number, fun range => ?_, fun candidate utcNow next accepted => ?_⟩
  · obtain ⟨r, found, low, -⟩ := range.revision
    cases number.symm.trans found
    exact absurd low (by decide)
  · obtain ⟨n, current, after⟩ := nextConfig_revision accepted
    cases read.symm.trans current
    exact absurd (revision_small after) (by decide)

end Dyx3.GnssRtk
