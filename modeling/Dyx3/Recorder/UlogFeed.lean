import Dyx3.Recorder.UlogCapture

/-!
What `feed` does: the whole messages of the buffer go to the file and the cache one after the other, and what is left is kept, or
given up when it does not begin a message.
-/

namespace Dyx3.Recorder

open Lib Lib.ByteReader

namespace UlogCapture

variable {disk : Disk}

/-- The messages of a buffer, one after the other. -/
def takeMessages (disk : Disk) (ms : List ByteString) (s : UlogCapture) : UlogCapture := ms.foldl (fun s m => onMessage disk m s) s

/-- What is left of the buffer. -/
def settle (rest : ByteString) (s : UlogCapture) : UlogCapture :=
  if ulog.front rest = .bad then parseError s else { s with partialMsg := rest }

theorem front_long (m₀ m₁ type : UInt8) (rest : ByteString) :
    ulog.front (m₀ :: m₁ :: type :: rest) =
      if !isKnownType type then .bad
      else if (m₀ :: m₁ :: type :: rest).length < total m₀ m₁ then .more
      else .whole (total m₀ m₁) := by
  change ulogFront (m₀ :: m₁ :: type :: rest) = _
  rw [ulogFront]

/-- Nothing is taken from a buffer that has no message in front. -/
theorem settle_other {buffer : ByteString} (other : ∀ n, ulog.front buffer ≠ .whole n) (s : UlogCapture) :
    settle (ulog.split buffer).2 (takeMessages disk (ulog.split buffer).1 s) = settle buffer s := by
  rw [Format.split_other other]
  rfl

theorem settle_more {buffer : ByteString} (more : ulog.front buffer = .more) (s : UlogCapture) :
    settle (ulog.split buffer).2 (takeMessages disk (ulog.split buffer).1 s) = { s with partialMsg := buffer } := by
  have other : ∀ n, ulog.front buffer ≠ .whole n := fun n => by
    rw [more]
    exact nofun
  have kept : ulog.front buffer ≠ .bad := by
    rw [more]
    exact nofun
  rw [settle_other other, settle, if_neg kept]

theorem feedLoop_eq {fuel : ℕ} {buffer : ByteString} (enough : buffer.length ≤ fuel) (s : UlogCapture) :
    feedLoop disk fuel buffer s = settle (ulog.split buffer).2 (takeMessages disk (ulog.split buffer).1 s) := by
  induction fuel generalizing buffer s with
  | zero =>
    obtain rfl := List.eq_nil_of_length_eq_zero (Nat.le_zero.mp enough)
    rfl
  | succ fuel ih =>
    rcases buffer with _ | ⟨m₀, _ | ⟨m₁, _ | ⟨type, rest⟩⟩⟩
    · exact (settle_more rfl s).symm
    · exact (settle_more rfl s).symm
    · exact (settle_more rfl s).symm
    · have front := front_long m₀ m₁ type rest
      rw [feedLoop]
      split
      · rename_i unknown
        rw [if_pos unknown] at front
        rw [settle_other (fun n => by rw [front]; exact nofun), settle, if_pos front]
      · rename_i known
        rw [if_neg known] at front
        split
        · rename_i short
          rw [if_pos short] at front
          exact (settle_more front s).symm
        · rename_i long
          rw [if_neg long] at front
          have positive := (ulog.size front).1
          have fewer : ((m₀ :: m₁ :: type :: rest).drop (total m₀ m₁)).length ≤ fuel := by
            rw [List.length_drop]
            omega
          rw [Format.split_whole front, ih fewer]
          rfl

theorem feed_eq (data : ByteString) (s : UlogCapture) :
    feed disk data s =
      settle (ulog.split (s.partialMsg ++ data)).2 (takeMessages disk (ulog.split (s.partialMsg ++ data)).1 s) :=
  feedLoop_eq le_rfl s

/-- A message in the file and in the cache. -/
structure Took (p : ByteString) (c : Cache) (s s' : UlogCapture) : Prop extends Put p s s' where
  synced : s'.synced = s.synced
  partialMsg : s'.partialMsg = s.partialMsg
  cache : s'.cache = c

section

variable (works : ∀ i, disk.takes i = none)

include works

theorem write_took {p : ByteString} {c : Cache} {s t : UlogCapture} (same : Put [] s t) (synced : t.synced = s.synced)
    (kept : t.partialMsg = s.partialMsg) (cache : t.cache = c) : Took p c s (t.write disk p) := by
  have wrote := write_wrote works p t
  have put := same.trans wrote.toPut
  rw [List.nil_append] at put
  exact ⟨put, wrote.synced.trans synced, wrote.partialMsg.trans kept, wrote.cache.trans cache⟩

theorem onMessage_took (m : ByteString) (s : UlogCapture) : Took m (s.cache.keep m) s (onMessage disk m s) := by
  have same : ∀ (c : Cache), Put [] s
      { s with headerState := c.headerState, header := c.header, subs := c.subs, params := c.params } := fun c =>
    ⟨by rw [appended_nil, ite_self], by simp, rfl, rfl, rfl⟩
  have took : ∀ (c : Cache), Took m c s
      ({ s with headerState := c.headerState, header := c.header, subs := c.subs, params := c.params }.write disk m) := fun c =>
    write_took works (same c) rfl rfl rfl
  unfold onMessage Cache.keep
  dsimp only
  by_cases defining : s.headerState = .definitions ∧ isDefinition (m.getD 2 0) = true
  · rw [if_pos defining]
    have here : s.cache.headerState = .definitions ∧ isDefinition (m.getD 2 0) = true := defining
    rw [if_pos here, Cache.define]
    by_cases large : kMaxHeaderBytes < (s.header ++ m).length
    · rw [if_pos large, if_pos (show kMaxHeaderBytes < (s.cache.header ++ m).length from large)]
      exact took ⟨.tooLarge, [], s.subs, s.params⟩
    · rw [if_neg large, if_neg (show ¬ kMaxHeaderBytes < (s.cache.header ++ m).length from large)]
      exact took ⟨s.headerState, s.header ++ m, s.subs, s.params⟩
  · rw [if_neg defining, if_neg (show ¬ (s.cache.headerState = .definitions ∧ isDefinition (m.getD 2 0) = true) from defining)]
    by_cases definitions : s.headerState = .definitions
    · rw [if_pos definitions, if_pos (show s.cache.headerState = .definitions from definitions), Cache.table]
      split
      · exact took ⟨.complete, s.header, SortedMap.put (subscriptionId m) m s.subs, s.params⟩
      split
      · exact took ⟨.complete, s.header, SortedMap.erase (removedId m) s.subs, s.params⟩
      split
      · exact took ⟨.complete, s.header, s.subs, SortedMap.put (paramKey m) m s.params⟩
      · exact took ⟨.complete, s.header, s.subs, s.params⟩
    · rw [if_neg definitions, if_neg (show ¬ s.cache.headerState = .definitions from definitions), Cache.table]
      split
      · exact took ⟨s.headerState, s.header, SortedMap.put (subscriptionId m) m s.subs, s.params⟩
      split
      · exact took ⟨s.headerState, s.header, SortedMap.erase (removedId m) s.subs, s.params⟩
      split
      · exact took ⟨s.headerState, s.header, s.subs, SortedMap.put (paramKey m) m s.params⟩
      · exact took ⟨s.headerState, s.header, s.subs, s.params⟩

theorem takeMessages_took (ms : List ByteString) (s : UlogCapture) :
    Took ms.flatten (ms.foldl Cache.keep s.cache) s (takeMessages disk ms s) := by
  induction ms generalizing s with
  | nil => exact ⟨.refl s, rfl, rfl, rfl⟩
  | cons m ms ih =>
    have first := onMessage_took works m s
    have others := ih (onMessage disk m s)
    rw [first.cache] at others
    exact ⟨first.toPut.trans others.toPut, others.synced.trans first.synced, others.partialMsg.trans first.partialMsg, others.cache⟩

/-- The cache, the synchronisation and the message in progress after the buffer. -/
structure Fed (buffer : ByteString) (s s' : UlogCapture) : Prop extends Put (ulog.split buffer).1.flatten s s' where
  good : ulog.front (ulog.split buffer).2 ≠ .bad →
    s'.cache = (ulog.split buffer).1.foldl Cache.keep s.cache ∧ s'.synced = s.synced ∧ s'.partialMsg = (ulog.split buffer).2
  bad : ulog.front (ulog.split buffer).2 = .bad →
    s'.cache = ((ulog.split buffer).1.foldl Cache.keep s.cache).lose ∧ s'.synced = false ∧ s'.partialMsg = []

theorem feed_fed (data : ByteString) (s : UlogCapture) : Fed (s.partialMsg ++ data) s (feed disk data s) := by
  have took := takeMessages_took works (ulog.split (s.partialMsg ++ data)).1 s
  have put : ∀ t : UlogCapture, t.files = (takeMessages disk (ulog.split (s.partialMsg ++ data)).1 s).files →
      t.fileBytes = (takeMessages disk (ulog.split (s.partialMsg ++ data)).1 s).fileBytes →
      t.isOpen = (takeMessages disk (ulog.split (s.partialMsg ++ data)).1 s).isOpen →
      t.last = (takeMessages disk (ulog.split (s.partialMsg ++ data)).1 s).last →
      t.runHeaderStatus = (takeMessages disk (ulog.split (s.partialMsg ++ data)).1 s).runHeaderStatus →
      Put (ulog.split (s.partialMsg ++ data)).1.flatten s t := fun t files bytes isOpen last status =>
    ⟨files.trans took.files, bytes.trans took.fileBytes, isOpen.trans took.isOpen, last.trans took.last, status.trans took.status⟩
  rw [feed_eq, settle]
  split
  · rename_i bad
    refine ⟨put _ rfl rfl rfl rfl rfl, fun good => absurd bad good, fun _ => ⟨?_, rfl, rfl⟩⟩
    rw [← took.cache]
    unfold parseError Cache.lose cache
    dsimp only
    split <;> rfl
  · rename_i good
    exact ⟨put _ rfl rfl rfl rfl rfl, fun _ => ⟨took.cache, took.synced, rfl⟩, fun bad => absurd bad good⟩

end

end UlogCapture

end Dyx3.Recorder
