import Dyx3.Lib.Checks
import Dyx3.Lib.DoubleOrder
import Dyx3.Lib.SortedMap
import Mathlib.Data.String.Basic

/-!
The RTK configuration (dyx3_gnss_rtk, rtk_config): `validate`, what is shown of it and how the passwords that are never
shown come back.
-/

namespace Dyx3.GnssRtk

open Lib

/-- `nlohmann::json`. An object is a `std::map`: its entries are in the order of their keys; an integer is an `int64_t` or a
`uint64_t`. -/
inductive Json where
  | null
  | bool (b : Bool)
  | int (i : ℤ)
  | float (x : Double)
  | str (s : String)
  | arr (items : List Json)
  | obj (fields : List (String × Json))

inductive Error where
  | config (reason : String)
  /-- An exception of the JSON library. -/
  | json

abbrev Checked := Except Error

namespace Json

def find? (j : Json) (key : String) : Option Json :=
  match j with
  | .obj fields => fields.lookup key
  | _ => none

def contains (j : Json) (key : String) : Bool := (j.find? key).isSome

/-- `at(key)` -/
def get (j : Json) (key : String) : Checked Json :=
  match j.find? key with
  | some v => .ok v
  | none => .error .json

/-- `j[key] = v` on an object. -/
def set (j : Json) (key : String) (v : Json) : Json :=
  match j with
  | .obj fields => .obj (SortedMap.put key v fields)
  | j => j

/-- `j.erase(key)` -/
def erase (j : Json) (key : String) : Checked Json :=
  match j with
  | .obj fields => .ok (.obj (SortedMap.erase key fields))
  | _ => .error .json

def items : Json → Checked (List Json)
  | .arr items => .ok items
  | _ => .error .json

def text : Json → Checked String
  | .str s => .ok s
  | _ => .error .json

def isString : Json → Bool
  | .str _ => true
  | _ => false

/-- `j == s` -/
def is (j : Json) (s : String) : Bool :=
  match j with
  | .str t => t = s
  | _ => false

/-- `get<double>()` of a number. -/
def number? : Json → Option Double
  | .int i => some (.ofInt i)
  | .float x => some x
  | _ => none

def integer? : Json → Option ℤ
  | .int i => some i
  | _ => none

end Json

/-- `get<uint64_t>()` -/
def asUint64 (i : ℤ) : ℕ := (i % 2 ^ 64).toNat

/-- `get<int>()` -/
def asInt (i : ℤ) : ℤ := i.bmod (2 ^ 32)

/-! ### `validate` -/

def need (ok : Bool) (reason : String) : Checked Unit := if ok then .ok () else .error (.config reason)

def cleanText (value : String) (maxSize : ℕ) : Bool :=
  value ≠ "" && decide (value.utf8ByteSize ≤ maxSize) && value.toList.all fun c => decide (0x20 ≤ c.toNat) && decide (c.toNat ≠ 0x7F)

def keys (object : Json) (allowed : List String) : Checked Unit :=
  match object with
  | .obj fields => need (fields.all fun kv => decide (kv.1 ∈ allowed)) "unknown configuration field"
  | _ => .error (.config "configuration object expected")

def longest : Double := .ofInt 3600

def positive (object : Json) (key : String) : Checked Double :=
  match (object.find? key).bind Json.number? with
  | some value => do
    need (value.isFinite && decide (Double.ofInt 0 < value) && decide (value ≤ longest)) "number out of range"
    return value
  | none => .error (.config "positive number required")

def unsetOrPositive (object : Json) (key : String) (configured : Bool) : Checked Unit :=
  if configured then do
    let _ ← positive object key
  else
    match (object.find? key).bind Json.number? with
    | some value => need (value.isFinite && decide (Double.ofInt 0 ≤ value) && decide (value ≤ longest)) "number out of range"
    | none => .error (.config "number required")

def requiredString (object : Json) (key : String) (maxSize : ℕ) : Checked String :=
  match object.find? key with
  | some (.str value) => do
    need (cleanText value maxSize) "string empty or contains control characters"
    return value
  | _ => .error (.config "string required")

def kBauds : List ℤ := [9600, 19200, 38400, 57600, 115200, 230400, 460800, 500000, 576000, 921600]

def supportedSerialBaud (baud : ℤ) : Bool := baud ∈ kBauds

def stableNameUnder (path start : String) (allowColon : Bool) : Bool :=
  let name := path.toList.drop start.length
  start.toList.isPrefixOf path.toList && name ≠ [] && name ≠ ['.'] && name ≠ ['.', '.'] &&
    name.all fun c => c.isAlphanum || c = '_' || c = '-' || c = '.' || (allowColon && c = ':')

/-- With the default prefix. -/
def stableSerialPath (path : String) : Bool :=
  stableNameUnder path "/dev/serial/by-id/" false || stableNameUnder path "/dev/serial/by-path/" true

def profileKeys : List String :=
  ["id", "name", "host", "port", "mountpoint", "username", "password", "security", "ca_file", "connect_timeout_s",
    "stream_timeout_s", "gga_interval_s", "backoff_base_s", "backoff_max_s"]

/-- One turn of the loop over the profiles; `ids` are those before it. -/
def validateProfile (ids : List String) (p : Json) : Checked (List String) := do
  keys p profileKeys
  let id ← requiredString p "id" 64
  need (id.toList.all fun ch => ch.isAlphanum || ch = '-' || ch = '_') "invalid profile id"
  need (decide (id ∉ ids)) "duplicate profile id"
  let _ ← requiredString p "name" 80
  let _ ← requiredString p "host" 255
  need (((p.find? "port").bind Json.integer?).any fun port => decide (0 < asInt port) && decide (asInt port < 65536))
    "invalid NTRIP port"
  let _ ← requiredString p "mountpoint" 255
  let _ ← requiredString p "username" 255
  need ((p.find? "password").any fun
    | .str password => decide (password.utf8ByteSize ≤ 1024)
    | _ => false) "NTRIP password required"
  need ((p.find? "security").any fun security => security.is "PLAINTEXT" || security.is "TLS")
    "NTRIP security must be PLAINTEXT or TLS"
  need ((p.find? "ca_file").any Json.isString) "ca_file must be a string"
  let caFile ← (← p.get "ca_file").text
  need (caFile = "" || (caFile.toList.head? = some '/' && cleanText caFile 255)) "ca_file must be an absolute path"
  let _ ← positive p "connect_timeout_s"
  let _ ← positive p "stream_timeout_s"
  let _ ← positive p "gga_interval_s"
  let base ← positive p "backoff_base_s"
  let max ← positive p "backoff_max_s"
  need (decide (base ≤ max)) "invalid NTRIP backoff range"
  return ids ++ [id]

def validateNtrip (ntrip : Json) : Checked Unit := do
  keys ntrip ["active_profile_id", "profiles"]
  need ((ntrip.find? "active_profile_id").any Json.isString) "active_profile_id required"
  need ((ntrip.find? "profiles").any fun
    | .arr profiles => decide (profiles.length ≤ 16)
    | _ => false) "profiles must be an array of at most 16"
  let profiles ← (← ntrip.get "profiles").items
  let ids ← profiles.foldlM validateProfile []
  let active ← (← ntrip.get "active_profile_id").text
  need (active = "" || decide (active ∈ ids)) "active NTRIP profile not found"

/-- The baud of a serial port; 0 while none is configured. -/
def baudOk (port : Json) (path : String) : Bool :=
  ((port.find? "baud").bind Json.integer?).any fun baud =>
    (path = "" && asInt baud = 0) || supportedSerialBaud (asInt baud)

def validate (c : Json) : Checked Unit := do
  keys c ["schema", "revision", "updated_at", "desired_state", "source", "transport", "ntrip", "lora", "usb"]
  need ((c.find? "schema").any fun
    | .int i => decide (i = 1)
    | .float x => decide (x = .ofInt 1)
    | _ => false) "unsupported RTK config schema"
  need (((c.find? "revision").bind Json.integer?).any fun revision => decide (0 < asUint64 revision)) "invalid config revision"
  need ((c.find? "updated_at").any Json.isString) "updated_at required"
  need ((c.find? "desired_state").any fun s => s.is "RUNNING" || s.is "STOPPED") "invalid desired_state"
  need ((c.find? "source").any fun s => s.is "NTRIP" || s.is "LORA") "invalid source"
  need ((c.find? "transport").any fun s => s.is "USB_DIRECT" || s.is "PX4_DDS") "invalid transport"
  validateNtrip (← c.get "ntrip")
  let lora ← c.get "lora"
  keys lora ["serial_device", "baud", "read_timeout_s", "reopen_delay_s"]
  need ((lora.find? "serial_device").any Json.isString) "LoRa device must be a string"
  let loraPath ← (← lora.get "serial_device").text
  need (loraPath = "" || stableSerialPath loraPath) "LoRa requires a /dev/serial/by-id or by-path path"
  need (baudOk lora loraPath) "unsupported LoRa baud"
  unsetOrPositive lora "read_timeout_s" (loraPath ≠ "")
  unsetOrPositive lora "reopen_delay_s" (loraPath ≠ "")
  let usb ← c.get "usb"
  keys usb ["receiver_device", "baud", "write_timeout_s", "reopen_delay_s"]
  need ((usb.find? "receiver_device").any Json.isString) "USB device must be a string"
  let usbPath ← (← usb.get "receiver_device").text
  need (usbPath = "" || stableSerialPath usbPath) "USB requires a /dev/serial/by-id or by-path path"
  need (usbPath = "" || usbPath ≠ loraPath) "LoRa and USB may not use the same port"
  need (baudOk usb usbPath) "unsupported USB baud"
  unsetOrPositive usb "write_timeout_s" (usbPath ≠ "")
  unsetOrPositive usb "reopen_delay_s" (usbPath ≠ "")

/-! ### Passwords -/

/-- The profiles of a configuration. -/
def profilesOf (c : Json) : Checked (List Json) := do (← (← c.get "ntrip").get "profiles").items

/-- `c["ntrip"]["profiles"]` replaced. -/
def withProfiles (c : Json) (profiles : List Json) : Checked Json := do
  return c.set "ntrip" ((← c.get "ntrip").set "profiles" (.arr profiles))

def publicProfile (profile : Json) : Checked Json := do
  let password ← (← profile.get "password").text
  (profile.set "password_set" (.bool (password ≠ ""))).erase "password"

/-- Of a validated configuration. -/
def publicView (config : Json) : Checked Json := do
  withProfiles config (← (← profilesOf config).mapM publicProfile)

/-- The first profile of the old configuration with the id. -/
def sameId (id : String) : List Json → Checked (Option Json)
  | [] => return none
  | old :: rest => do
    if (← old.get "id").is id then return some old
    sameId id rest

def mergeProfile (old : List Json) (profile : Json) : Checked Json := do
  let profile ← profile.erase "password_set"
  if profile.contains "password" then return profile
  match profile.find? "id" with
  | some (.str id) =>
    match ← sameId id old with
    | some same => return profile.set "password" (← same.get "password")
    | none => return profile
  | _ => return profile

def mergeWriteOnlyPasswords (oldConfig candidate : Json) : Checked Json := do
  let profiles ← match (candidate.find? "ntrip").bind (·.find? "profiles") with
    | some (.arr profiles) => pure profiles
    | _ => .error (.config "profiles array required")
  withProfiles candidate (← profiles.mapM (mergeProfile (← profilesOf oldConfig)))

/-! ### What a validated configuration is -/

theorem need_ok {ok : Bool} {reason : String} {u : Unit} (h : need ok reason = .ok u) : ok = true := by
  cases ok with
  | true => rfl
  | false => cases h

theorem get_ok {j v : Json} {key : String} : j.get key = .ok v ↔ j.find? key = some v := by
  unfold Json.get
  cases j.find? key <;> simp

theorem items_ok {j : Json} {items : List Json} : j.items = .ok items ↔ j = .arr items := by
  cases j <;> simp [Json.items]

theorem text_ok {j : Json} {s : String} : j.text = .ok s ↔ j = .str s := by
  cases j <;> simp [Json.text]

theorem keys_ok {object : Json} {allowed : List String} {u : Unit} (h : keys object allowed = .ok u) :
    ∃ fields, object = .obj fields ∧ ∀ kv ∈ fields, kv.1 ∈ allowed := by
  cases object with
  | obj fields =>
    refine ⟨fields, rfl, fun kv member => ?_⟩
    exact of_decide_eq_true (List.all_eq_true.mp (need_ok h) kv member)
  | _ => cases h

theorem lookup_none {fields : List (String × Json)} {key : String} (absent : ∀ kv ∈ fields, kv.1 ≠ key) :
    fields.lookup key = none := by
  cases found : fields.lookup key with
  | none => rfl
  | some v => exact absurd rfl (absent _ (SortedMap.mem_of_lookup found))

theorem requiredString_ok {object : Json} {key : String} {maxSize : ℕ} {value : String}
    (h : requiredString object key maxSize = .ok value) : object.find? key = some (.str value) := by
  rw [requiredString] at h
  split at h
  · rename_i found
    obtain ⟨u, -, h⟩ := bind_ok h
    cases h
    exact found
  · cases h

/-- What the loop knows of a profile that passed. -/
structure IsProfile (p : Json) (id : String) : Prop where
  isObject : ∃ fields, p = .obj fields
  id : p.find? "id" = some (.str id)
  password : ∃ password, p.find? "password" = some (.str password)
  hidden : p.find? "password_set" = none

theorem validateProfile_ok {ids ids' : List String} {p : Json} (h : validateProfile ids p = .ok ids') :
    ∃ id, ids' = ids ++ [id] ∧ id ∉ ids ∧ IsProfile p id := by
  obtain ⟨_, listed, h⟩ := bind_ok h
  obtain ⟨fields, object, known⟩ := keys_ok listed
  obtain ⟨id, named, h⟩ := bind_ok h
  obtain ⟨_, -, h⟩ := bind_ok h
  obtain ⟨_, fresh, h⟩ := bind_ok h
  obtain ⟨_, -, h⟩ := bind_ok h
  obtain ⟨_, -, h⟩ := bind_ok h
  obtain ⟨_, -, h⟩ := bind_ok h
  obtain ⟨_, -, h⟩ := bind_ok h
  obtain ⟨_, -, h⟩ := bind_ok h
  obtain ⟨_, password, h⟩ := bind_ok h
  iterate 11 obtain ⟨_, -, h⟩ := bind_ok h
  cases h
  refine ⟨id, rfl, of_decide_eq_true (need_ok fresh), ⟨fields, object⟩, requiredString_ok named, ?_, ?_⟩
  · obtain ⟨v, found, isText⟩ := (Option.any_eq_true _ _).mp (need_ok password)
    cases v with
    | str password => exact ⟨password, found⟩
    | _ => cases isText
  · subst object
    refine lookup_none fun kv member same => ?_
    have listed := known kv member
    rw [same] at listed
    exact absurd listed (by decide)

theorem profiles_ok {profiles : List Json} {ids ids' : List String} (h : profiles.foldlM validateProfile ids = .ok ids') :
    ∃ own, ids' = ids ++ own ∧ List.Forall₂ IsProfile profiles own ∧ (∀ id ∈ own, id ∉ ids) ∧ own.Nodup := by
  induction profiles generalizing ids with
  | nil =>
    cases h
    exact ⟨[], (List.append_nil _).symm, .nil, by simp, List.nodup_nil⟩
  | cons p profiles ih =>
    rw [List.foldlM_cons] at h
    obtain ⟨_, first, h⟩ := bind_ok h
    obtain ⟨id, rfl, fresh, profile⟩ := validateProfile_ok first
    obtain ⟨own, rfl, later, apart, distinct⟩ := ih h
    refine ⟨id :: own, by rw [List.append_assoc]; rfl, .cons profile later, ?_, ?_⟩
    · intro other member
      rcases List.mem_cons.mp member with rfl | member
      · exact fresh
      · exact fun old => apart other member (List.mem_append_left _ old)
    · exact List.nodup_cons.mpr ⟨fun again => apart id again (List.mem_append_right _ (List.mem_singleton.mpr rfl)), distinct⟩

theorem validateNtrip_ok {ntrip : Json} {u : Unit} (h : validateNtrip ntrip = .ok u) :
    ∃ fields profiles ids, ntrip = .obj fields ∧ fields.lookup "profiles" = some (.arr profiles) ∧
      List.Forall₂ IsProfile profiles ids ∧ ids.Nodup := by
  obtain ⟨_, known, h⟩ := bind_ok h
  obtain ⟨fields, rfl, -⟩ := keys_ok known
  obtain ⟨_, -, h⟩ := bind_ok h
  obtain ⟨_, -, h⟩ := bind_ok h
  obtain ⟨v, found, h⟩ := bind_ok h
  obtain ⟨profiles, array, h⟩ := bind_ok h
  obtain ⟨ids, each, h⟩ := bind_ok h
  obtain ⟨own, rfl, profile, -, distinct⟩ := profiles_ok each
  rw [items_ok.mp array] at found
  exact ⟨fields, profiles, _, rfl, get_ok.mp found, profile, distinct⟩

theorem validate_ok {c : Json} {u : Unit} (h : validate c = .ok u) :
    ∃ fields ntrip, c = .obj fields ∧ fields.lookup "ntrip" = some ntrip ∧ validateNtrip ntrip = .ok () ∧
      ((c.find? "revision").bind Json.integer?).any (fun revision => decide (0 < asUint64 revision)) = true := by
  obtain ⟨_, known, h⟩ := bind_ok h
  obtain ⟨fields, rfl, -⟩ := keys_ok known
  obtain ⟨_, -, h⟩ := bind_ok h
  obtain ⟨_, revision, h⟩ := bind_ok h
  iterate 4 obtain ⟨_, -, h⟩ := bind_ok h
  obtain ⟨ntrip, found, h⟩ := bind_ok h
  obtain ⟨_, checked, h⟩ := bind_ok h
  exact ⟨fields, ntrip, rfl, get_ok.mp found, checked, need_ok revision⟩

end Dyx3.GnssRtk
