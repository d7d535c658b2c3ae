import Dyx3.GnssRtk.Passwords

/-!
A change of the configuration is a compare-and-swap: it is refused with nothing changed, or it is made in memory and on
disk. A save that fails after the workers are gone leaves the configuration that the file has.
-/

namespace Dyx3.GnssRtk

open Lib

/-- What a command that was served is answered with. -/
def Reply.served : Reply → Bool
  | .status .. | .config _ => true
  | .refused .. | .error _ => false

theorem revision_small {config : Json} {n : ℕ} (h : revisionOf config = some n) : n < 2 ^ 64 := by
  obtain ⟨i, -, rfl⟩ := Option.map_eq_some_iff.mp h
  have bounds := Int.emod_lt_of_pos i (show (0 : ℤ) < 2 ^ 64 by decide)
  have positive := Int.emod_nonneg i (show (2 ^ 64 : ℤ) ≠ 0 by decide)
  unfold asUint64
  omega

theorem revision_positive {config : Json} (valid : validate config = .ok ()) {n : ℕ} (h : revisionOf config = some n) : 0 < n := by
  obtain ⟨i, found, rfl⟩ := Option.map_eq_some_iff.mp h
  obtain ⟨_, _, valid⟩ := bind_ok valid
  obtain ⟨_, _, valid⟩ := bind_ok valid
  obtain ⟨_, revision, _⟩ := bind_ok valid
  have := need_ok revision
  rw [found] at this
  simpa using this

theorem revisionOf_stamped {merged : Json} (object : ∃ fields, merged = .obj fields) (n : ℕ) (utcNow : String) :
    revisionOf ((merged.set "revision" (.int (n % 2 ^ 64 : ℕ))).set "updated_at" (.str utcNow)) = some (n % 2 ^ 64) := by
  obtain ⟨fields, rfl⟩ := object
  have other : ¬ "revision" = "updated_at" := by decide
  have found : (((Json.obj fields).set "revision" (.int (n % 2 ^ 64 : ℕ))).set "updated_at" (.str utcNow)).find? "revision" =
      some (.int (n % 2 ^ 64 : ℕ)) := by
    show ((Json.obj _).set "updated_at" _).find? "revision" = _
    rw [Json.find?_set, if_neg other]
    exact (Json.find?_set "revision" "revision" _).trans (if_pos rfl)
  rw [revisionOf, found]
  simp only [Option.bind_some, Json.integer?, Option.map_some, asUint64]
  congr 1
  omega

/-- The revision does not wrap: 0 is no revision. -/
theorem nextConfig_revision {config candidate next : Json} {utcNow : String} (h : nextConfig config candidate utcNow = .ok next) :
    ∃ n, revisionOf config = some n ∧ revisionOf next = some (n + 1) := by
  obtain ⟨n, merged, current, -, done, valid, rfl⟩ := nextConfig_ok h
  obtain ⟨_, profiles, _, _, _, _, list⟩ := merge_ok done
  obtain ⟨_, found, _⟩ := profilesOf_ok.mp list
  have stamped := revisionOf_stamped (find_object found) (n + 1) utcNow
  have positive := revision_positive valid stamped
  have small := revision_small current
  refine ⟨n, current, stamped.trans ?_⟩
  congr 1
  by_cases last : n + 1 = 2 ^ 64
  · rw [last] at positive
    simp at positive
  · omega

section

variable {Text : Type*}

/-- What can be loaded is active. -/
def Agrees (parse : Text → Option Json) (s : Service Text) : Prop := ∀ c, load parse s.file = .ok (some c) → s.node.config = c

@[simp] theorem activateConfig_config (n : RtkNode) : n.activateConfig.config = n.config := by
  unfold RtkNode.activateConfig
  simp only
  split
  · rfl
  · split <;> rfl

@[simp] theorem stopWorkers_config (n : RtkNode) : n.stopWorkers.config = n.config := rfl

section

variable {dump : Json → Text} {parse : Text → Option Json} (roundTrip : ∀ c, validate c = .ok () → parse (dump c) = some c)

include roundTrip

theorem load_dump {c : Json} (valid : validate c = .ok ()) : load parse (.text (dump c)) = .ok (some c) := by
  simp [load, roundTrip c valid, valid]

theorem save_ok {file file' : File Text} {c : Json} {fault : Option SaveStep} {u : Unit}
    (saved : save dump file c fault = (file', .ok u)) : load parse file' = .ok (some c) := by
  unfold save at saved
  split at saved
  · cases saved
  · rename_i valid
    split at saved
    · cases saved
      exact load_dump roundTrip valid
    · cases saved
    · cases saved

/-- A service that starts has what is on disk. -/
theorem boot_agrees (file : File Text) (initial : Checked Json) : Agrees parse (boot dump parse file initial none) := by
  intro c loaded
  unfold boot at loaded ⊢
  cases read : load parse file with
  | error e =>
    rw [read] at loaded
    cases read.symm.trans loaded
  | ok persisted =>
    rw [read] at loaded
    cases persisted with
    | some config =>
      cases read.symm.trans loaded
      exact activateConfig_config _
    | none =>
      cases initial with
      | error e => cases read.symm.trans loaded
      | ok config =>
        simp only at loaded ⊢
        cases saved : save dump file config none with
        | mk file' result =>
          rw [saved] at loaded
          cases result with
          | ok _ =>
            cases (save_ok roundTrip saved).symm.trans loaded
            exact activateConfig_config _
          | error e =>
            have kept : file' = file := by
              unfold save at saved
              split at saved
              · cases saved
                rfl
              · cases saved
            rw [kept] at loaded
            cases read.symm.trans loaded

/-- Saved or not, the file and the service agree: what was lost of the change in one is lost in the other. -/
theorem replace_agrees (s : Service Text) (next : Json) (fault : Option SaveStep) :
    Agrees parse (replace dump parse s next fault).1 := by
  intro c loaded
  unfold replace at loaded ⊢
  cases saved : save dump s.file next fault with
  | mk file result =>
    simp only [saved] at loaded ⊢
    cases result with
    | ok _ =>
      cases (save_ok roundTrip saved).symm.trans loaded
      exact activateConfig_config _
    | error e =>
      cases read : load parse file with
      | error _ =>
        simp only [read] at loaded
        cases loaded
      | ok persisted =>
        cases persisted with
        | none =>
          simp only [read] at loaded
          cases loaded
        | some persisted =>
          simp only [read] at loaded ⊢
          cases loaded
          exact activateConfig_config _

theorem replace_ok {s s' : Service Text} {next : Json} {fault : Option SaveStep} {u : Unit}
    (done : replace dump parse s next fault = (s', .ok u)) :
    s'.node.config = next ∧ load parse s'.file = .ok (some next) := by
  unfold replace at done
  cases saved : save dump s.file next fault with
  | mk file result =>
    simp only [saved] at done
    cases result with
    | ok _ =>
      cases done
      exact ⟨activateConfig_config _, save_ok roundTrip saved⟩
    | error e =>
      split at done
      · rename_i pair
        cases pair
      · split at done <;> cases done

theorem applyConfig_ok {s s' : Service Text} {candidate : Json} {utcNow : String} {fault : Option SaveStep} {u : Unit}
    (done : applyConfig dump parse s candidate utcNow fault = (s', .ok u)) :
    ∃ n, revisionOf s.node.config = some n ∧ revisionOf s'.node.config = some (n + 1) ∧
      load parse s'.file = .ok (some s'.node.config) := by
  unfold applyConfig at done
  split at done
  · cases done
  · rename_i next accepted
    obtain ⟨active, stored⟩ := replace_ok roundTrip done
    obtain ⟨n, current, one⟩ := nextConfig_revision accepted
    exact ⟨n, current, active ▸ one, active ▸ stored⟩

theorem applyConfig_agrees {s : Service Text} (candidate : Json) (utcNow : String) (fault : Option SaveStep)
    (agrees : Agrees parse s) : Agrees parse (applyConfig dump parse s candidate utcNow fault).1 := by
  unfold applyConfig
  split
  · exact agrees
  · exact replace_agrees roundTrip s _ fault

end

variable (dump : Json → Text) (parse : Text → Option Json)

/-- A request changes the service through `apply_config` only. -/
theorem handleControl_cases (s : Service Text) (r : Request) :
    ((handleControl dump parse s r).1 = s ∧ (r.command.changes = true → (handleControl dump parse s r).2.served = false) ∧
      (r.missionActive = false → r.command.candidate s.node.config = none)) ∨
    ∃ candidate s' result, r.missionActive = false ∧ r.command.candidate s.node.config = some candidate ∧
      applyConfig dump parse s candidate r.utcNow r.fault = (s', result) ∧ (handleControl dump parse s r).1 = s' ∧
      ∀ e, result = .error e → (handleControl dump parse s r).2.served = false := by
  unfold handleControl
  cases locked : r.command.changes && r.missionActive with
  | true =>
    obtain ⟨-, active⟩ := Bool.and_eq_true_iff.mp locked
    refine .inl ⟨rfl, fun _ => rfl, fun free => ?_⟩
    rw [active] at free
    cases free
  | false =>
    have free : r.command.changes = true → r.missionActive = false := by
      intro changes
      simpa [changes] using locked
    cases asked : r.command with
    | getStatus | getConfig | other => exact .inl ⟨rfl, by simp [Command.changes], fun _ => rfl⟩
    | setConfig config =>
      cases config with
      | none => exact .inl ⟨rfl, fun _ => rfl, fun _ => rfl⟩
      | some candidate =>
        right
        cases applied : applyConfig dump parse s candidate r.utcNow r.fault with
        | mk s' result =>
          refine ⟨candidate, s', result, free (by rw [asked]; rfl), rfl, applied, ?_, ?_⟩
          · simp only [Command.candidate, applied]
            cases result <;> rfl
          · rintro e rfl
            simp only [Command.candidate, applied]
            rfl
    | start =>
      right
      cases applied : applyConfig dump parse s (s.node.config.set "desired_state" (.str "RUNNING")) r.utcNow r.fault with
      | mk s' result =>
        refine ⟨_, s', result, free (by rw [asked]; rfl), rfl, applied, ?_, ?_⟩
        · simp only [Command.candidate, applied]
          cases result <;> rfl
        · rintro e rfl
          simp only [Command.candidate, applied]
          rfl
    | stop =>
      right
      cases applied : applyConfig dump parse s (s.node.config.set "desired_state" (.str "STOPPED")) r.utcNow r.fault with
      | mk s' result =>
        refine ⟨_, s', result, free (by rw [asked]; rfl), rfl, applied, ?_, ?_⟩
        · simp only [Command.candidate, applied]
          cases result <;> rfl
        · rintro e rfl
          simp only [Command.candidate, applied]
          rfl

/-- The candidate was read at another revision, or what it would give is no configuration. -/
def Refused (config candidate : Json) (utcNow : String) : Prop :=
  revisionOf candidate ≠ revisionOf config ∨
    ∀ merged n, mergeWriteOnlyPasswords config candidate = .ok merged → revisionOf config = some n →
      validate ((merged.set "revision" (.int ((n + 1) % 2 ^ 64 : ℕ))).set "updated_at" (.str utcNow)) ≠ .ok ()

theorem nextConfig_refused {config candidate : Json} {utcNow : String} (refused : Refused config candidate utcNow) :
    ∃ e, nextConfig config candidate utcNow = .error e := by
  cases result : nextConfig config candidate utcNow with
  | error e => exact ⟨e, rfl⟩
  | ok next =>
    obtain ⟨n, merged, current, same, done, valid, rfl⟩ := nextConfig_ok result
    rcases refused with stale | invalid
    · exact absurd (same.trans current.symm) stale
    · exact absurd valid (invalid merged n done current)

variable {dump : Json → Text} {parse : Text → Option Json} (roundTrip : ∀ c, validate c = .ok () → parse (dump c) = some c)

include roundTrip

theorem handleControl_agrees {s : Service Text} (r : Request) (agrees : Agrees parse s) :
    Agrees parse (handleControl dump parse s r).1 := by
  obtain ⟨same, -, -⟩ | ⟨candidate, s', result, -, -, applied, new, -⟩ := handleControl_cases dump parse s r
  · rwa [same]
  · have after := applyConfig_agrees roundTrip candidate r.utcNow r.fault agrees
    rw [applied] at after
    rwa [new]

theorem serve_agrees {s : Service Text} (agrees : Agrees parse s) (requests : List Request) :
    Agrees parse (serve dump parse s requests) := by
  induction requests generalizing s with
  | nil => exact agrees
  | cons r requests ih => exact ih (handleControl_agrees roundTrip r agrees)

/-- Changes of the configuration, after any requests, whatever became of their saves. -/
theorem configuration_compareAndSwap (s₀ : Service Text) (before : List Request) (r : Request) :
    let s := serve dump parse s₀ before
    let s' := (handleControl dump parse s r).1
    -- made
    (r.command.changes = true → (handleControl dump parse s r).2.served = true →
      ∃ n, revisionOf s.node.config = some n ∧ revisionOf s'.node.config = some (n + 1) ∧
        load parse s'.file = .ok (some s'.node.config)) ∧
    -- refused
    (∀ candidate, r.command.candidate s.node.config = some candidate → Refused s.node.config candidate r.utcNow →
      s' = s ∧ (handleControl dump parse s r).2.served = false) ∧
    -- not saved, or saved and still not known to be on disk
    (∀ candidate next, r.missionActive = false → r.command.candidate s.node.config = some candidate →
      nextConfig s.node.config candidate r.utcNow = .ok next →
      ∀ c, load parse s'.file = .ok (some c) → s'.node.config = c) ∧
    (Agrees parse s₀ → Agrees parse s) := by
  intro s s'
  refine ⟨fun changes served => ?_, fun candidate asked refused => ?_, fun candidate next free asked accepted => ?_,
    fun agrees => serve_agrees roundTrip agrees before⟩
  · obtain ⟨-, unserved, -⟩ | ⟨candidate, after, result, -, -, applied, new, failed⟩ := handleControl_cases dump parse s r
    · rw [unserved changes] at served
      cases served
    · cases result with
      | error e =>
        rw [failed e rfl] at served
        cases served
      | ok _ =>
        have := applyConfig_ok roundTrip applied
        rwa [← new] at this
  · obtain ⟨e, stays⟩ := nextConfig_refused refused
    obtain ⟨same, unserved, -⟩ | ⟨candidate', after, result, -, asked', applied, new, failed⟩ := handleControl_cases dump parse s r
    · refine ⟨same, unserved ?_⟩
      cases command : r.command <;> rw [command] at asked <;> first | rfl | cases asked
    · cases asked.symm.trans asked'
      simp only [applyConfig, stays] at applied
      cases applied
      exact ⟨new, failed e rfl⟩
  · obtain ⟨-, -, unasked⟩ | ⟨candidate', after, result, -, asked', applied, new, -⟩ := handleControl_cases dump parse s r
    · cases asked.symm.trans (unasked free)
    · cases asked.symm.trans asked'
      simp only [applyConfig, accepted] at applied
      have agrees := replace_agrees roundTrip s next r.fault
      rw [applied, ← new] at agrees
      exact agrees

end

/-! Stopped with the directory not synced, then started again. -/

def stoppedService : Service Json :=
  serve id some (boot id some .absent (.ok fieldConfig) none) [{ command := .stop, fault := some .syncDirectory }]

theorem configuration_compareAndSwap_field :
    ∃ n, revisionOf stoppedService.node.config = some n ∧
      revisionOf (handleControl id some stoppedService { command := .start }).1.node.config = some (n + 1) ∧
      load some (handleControl id some stoppedService { command := .start }).1.file =
        .ok (some (handleControl id some stoppedService { command := .start }).1.node.config) := by
  have served : (handleControl id some stoppedService { command := .start }).2.served = true := by decide +kernel
  have swap := @configuration_compareAndSwap Json id some (fun _ _ => rfl) stoppedService [] { command := .start }
  simp only [serve] at swap
  exact swap.1 rfl served

end Dyx3.GnssRtk
