import Lucendex.Store.Invariant

/-!
# The in-memory store: eviction and failed writes

`evictOldest` deletes the entry whose element is at the back of the list.  An entry whose
element a failed overwrite dropped from the list (`failedOverwrite_breaks_accounting`) stays in
`data` but is never at the back, so later evictions pass over it and delete entries used after
it (`evictOldest_skips_orphan`).

A write changes the store before it can fail only inside `setLocked`, whose one error is
`ErrMemoryLimit`: every other error of `Set` and `IncrementRateLimit` leaves the store as it was
(`set_eq_error`, `incrementRateLimit_eq_error`).  `ErrMemoryLimit` comes only after the
eviction loop has emptied the list, so the failed write has evicted entries, and on an overwrite
it has also released the old entry's bytes and element (`failed_set_changes_store`).
-/

namespace Lucendex.Kv

open Lucendex.Go

/-- After the failed overwrite of `a:o` at time 1 has dropped its element, `a:b` is written at
time 2.  A `Set` of `a:c` at time 3 then needs room: it evicts `a:b` alone and keeps `a:o`, whose
last successful write, at time 0, came before that of `a:b`. -/
theorem evictOldest_skips_orphan :
  (let s := run (newMemoryStoreWithConfig 100 256 1048576)
      [(0, .set "a" "o" [] 0), (1, .set "a" "o" (List.replicate 40 0) 0), (2, .set "a" "b" [] 0)];
    s.data.keys = ["a:b", "a:o"] ∧ s.lru.values = ["a:b"] ∧
      (s.set 3 "a" "c" [] 0).2 = .ok () ∧ (s.set 3 "a" "c" [] 0).1.data.keys = ["a:c", "a:o"] ∧
      (s.set 3 "a" "c" [] 0).1.evictions = s.evictions + 1)
  := by decide

/-! ### Failed writes -/

namespace MemoryStore

variable {s s' : MemoryStore} {now ttl : Int} {ns key p : String} {value : List UInt8}
  {err : KvError}

/-- A `setLocked` that fails does so with `ErrMemoryLimit`. -/
theorem setLocked_eq_error (h : (s.setLocked now ns key value ttl).2 = .error err) :
  err = .errMemoryLimit
  := by
  rcases setLocked_result s now ns key value ttl with hr | hr <;> rw [hr] at h <;> cases h
  rfl

/-- A `Set` that fails with any error but `ErrMemoryLimit` leaves the store as it was. -/
theorem set_eq_error (h : s.set now ns key value ttl = (s', .error err))
    (herr : err ≠ .errMemoryLimit) :
  s' = s
  := by
  unfold MemoryStore.set at h
  split at h
  · exact (Prod.mk.inj h).1.symm
  · split at h
    · exact (Prod.mk.inj h).1.symm
    · exact absurd (setLocked_eq_error (congrArg Prod.snd h)) herr

/-- An `IncrementRateLimit` that fails with any error but `ErrMemoryLimit` leaves the store as it
was. -/
theorem incrementRateLimit_eq_error (h : s.incrementRateLimit now p ttl = (s', .error err))
    (herr : err ≠ .errMemoryLimit) :
  s' = s
  := by
  have hmap : ∀ {t : MemoryStore} {v : List UInt8} {c : Int},
      ((t.setLocked now namespaceRateLimits p v ttl).1,
        (t.setLocked now namespaceRateLimits p v ttl).2.map fun _ => c) ≠ (s', .error err) :=
    fun {t v c} he => by
      have h2 := congrArg Prod.snd he
      rcases hr : (t.setLocked now namespaceRateLimits p v ttl).2 with e | _ <;>
        rw [hr] at h2 <;> cases h2
      exact herr (setLocked_eq_error hr)
  unfold incrementRateLimit at h
  split at h
  · exact (Prod.mk.inj h).1.symm
  dsimp only at h
  split at h
  · exact absurd h hmap
  · split at h
    · exact absurd h hmap
    · split at h
      · exact (Prod.mk.inj h).1.symm
      · exact absurd h hmap

end MemoryStore

/-- A store of 134 bytes holding `a:x` and then `a:b`, 67 bytes each.  Overwriting `a:b` with 71
bytes fails with `ErrMemoryLimit`, and leaves a different store: `a:x` evicted, `a:b` kept in
`data` with its bytes and its element gone, the list empty, and one eviction counted. -/
theorem failed_set_changes_store :
  (let s := run (newMemoryStoreWithConfig 134 256 1048576)
      [(0, .set "a" "x" [] 0), (1, .set "a" "b" [] 0)];
    let r := s.set 2 "a" "b" (List.replicate 71 0) 0;
    r.2 = .error .errMemoryLimit ∧
      s.data.keys = ["a:b", "a:x"] ∧ s.lru.values = ["a:b", "a:x"] ∧ s.currentBytes = 134 ∧
      s.evictions = 0 ∧
      r.1.data.keys = ["a:b"] ∧ r.1.lru.values = [] ∧ r.1.currentBytes = 0 ∧ r.1.evictions = 1)
  := by decide

end Lucendex.Kv
