import Lucendex.Store.Ops
import Mathlib.Algebra.Order.BigOperators.Group.List
import Mathlib.Tactic.Linarith

/-!
# The in-memory store: byte accounting

`Consistent data lru currentBytes maxBytes` is the accounting the store keeps for the entries
of `data`: the list's values are the full keys of `data`, each once; every entry's `lruNode`
is the element carrying its full key; `currentBytes` is the sum of the entries' sizes, every
size is positive, and the sum stays within `maxBytes`.  `Inv` is `Consistent` of the store's
own fields.

Every call keeps `Inv` but one: a write through the body of `setLocked` to a full key that
`data` already holds, failing with `ErrMemoryLimit` (`Op.failedOverwrite`).  The body has
then taken the old entry's bytes off `currentBytes` and its element off the list, and left
the entry in `data`; `failedOverwrite_breaks_accounting` runs such a call.  Inside the body
the store is `Consistent` for `data` without the key being written, which is what the
eviction loop keeps.
-/

namespace Lucendex.Kv

open Lucendex.Go

/-- The sum of the accounted sizes of the entries of `data`. -/
def sizeSum (data : AList (fun _ : String => Entry)) : Int :=
  (data.entries.map fun x => x.2.size).sum

section Data

variable {data : AList (fun _ : String => Entry)} {k k' : String} {e e' : Entry}

theorem sizeSum_erase (h : data.lookup k = some e) :
  sizeSum data = e.size + sizeSum (data.erase k)
  := by
  have hk : k ∈ data.entries.keys := AList.mem_keys.mp (AList.lookup_isSome.mp (by simp [h]))
  obtain ⟨b, l₁, l₂, hnot, heq, herase⟩ := List.exists_of_kerase hk
  have hb : b = e := by
    have : data.lookup k = some b := by
      simp [AList.lookup, heq, List.dlookup_append, List.dlookup_eq_none.mpr hnot]
    exact Option.some.inj (this.symm.trans h)
  show (data.entries.map _).sum = e.size + ((data.entries.kerase k).map _).sum
  rw [herase, heq, hb]
  simp only [List.map_append, List.map_cons, List.sum_append, List.sum_cons]
  omega

@[simp]
theorem sizeSum_insert :
  sizeSum (data.insert k e) = e.size + sizeSum (data.erase k)
  := by
  show ((data.insert k e).entries.map _).sum = e.size + ((data.entries.kerase k).map _).sum
  rw [AList.insert_entries, List.map_cons, List.sum_cons]

theorem erase_of_not_mem (h : k ∉ data) :
  data.erase k = data
  := AList.ext (List.kerase_of_not_mem_keys (AList.mem_keys.not.mp h))

theorem lookup_of_lookup_erase (h : (data.erase k).lookup k' = some e') :
  data.lookup k' = some e'
  := by
  by_cases hk : k' = k
  · subst hk; simp at h
  · rwa [AList.lookup_erase_ne hk] at h

theorem mem_of_lookup (h : data.lookup k = some e) :
  k ∈ data.keys
  := AList.mem_keys.mp (AList.lookup_isSome.mp (by simp [h]))

end Data

/-- The accounting of the store for the entries of `data`. -/
structure Consistent (data : AList (fun _ : String => Entry)) (lru : LruList)
    (currentBytes maxBytes : Int) : Prop where
  values_perm : lru.values.Perm data.keys
  node_mem : ∀ {k e}, data.lookup k = some e → (e.lruNode, k) ∈ lru.elems
  size_pos : ∀ {k e}, data.lookup k = some e → 0 < e.size
  bytes_eq : currentBytes = sizeSum data
  bytes_le : currentBytes ≤ maxBytes

/-- The store's accounting is `Consistent` for its own entries. -/
def MemoryStore.Inv (s : MemoryStore) : Prop :=
  Consistent s.data s.lru s.currentBytes s.maxBytes

section Consistent

variable {data : AList (fun _ : String => Entry)} {lru : LruList} {cur max : Int}
  {k : String} {e : Entry}

/-- The accounted bytes are never negative. -/
theorem Consistent.bytes_nonneg (hc : Consistent data lru cur max) :
  0 ≤ cur
  := by
  rw [hc.bytes_eq, sizeSum]
  refine List.sum_nonneg fun x hx => ?_
  obtain ⟨y, hy, rfl⟩ := List.mem_map.mp hx
  exact (hc.size_pos (AList.mem_lookup_iff.mpr hy)).le

/-- `deleteEntryLocked` of an entry of `data` keeps the accounting. -/
theorem Consistent.deleteEntry (hc : Consistent data lru cur max) (h : data.lookup k = some e) :
  Consistent (data.erase k) (lru.remove e.lruNode) (cur - e.size) max
  where
  values_perm := by
    have hkeys : data.keys.Perm (k :: (data.erase k).keys) := by
      rw [AList.keys_erase]; exact List.perm_cons_erase (mem_of_lookup h)
    exact ((lru.values_perm_remove (hc.node_mem h)).symm.trans
      (hc.values_perm.trans hkeys)).cons_inv
  node_mem := by
    intro k' e' h'
    have hne : k' ≠ k := by rintro rfl; simp at h'
    rw [AList.lookup_erase_ne hne] at h'
    refine LruList.mem_remove.mpr ⟨hc.node_mem h', fun hid => hne ?_⟩
    have hmem : (e.lruNode, k') ∈ lru.elems := by
      rw [← show e'.lruNode = e.lruNode from hid]; exact hc.node_mem h'
    exact LruList.eq_of_mem_of_mem hmem (hc.node_mem h)
  size_pos h' := hc.size_pos (lookup_of_lookup_erase h')
  bytes_eq := by rw [hc.bytes_eq, sizeSum_erase h]; omega
  bytes_le := by linarith [hc.bytes_le, hc.size_pos h]

/-- Storing a new entry under `k`, with a fresh element in front, keeps the accounting when
the store was consistent without `k` and the entry fits. -/
theorem Consistent.store (hc : Consistent (data.erase k) lru cur max) (hpos : 0 < e.size)
    (hfit : cur + e.size ≤ max) (hnode : e.lruNode = lru.next) :
  Consistent (data.insert k e) (lru.pushFront k).1 (cur + e.size) max
  where
  values_perm := by
    rw [AList.keys_insert, ← AList.keys_erase]
    exact hc.values_perm.cons k
  node_mem := by
    intro k' e' h'
    by_cases hk : k' = k
    · subst hk
      rw [AList.lookup_insert] at h'
      cases h'
      simp [hnode]
    · rw [AList.lookup_insert_ne hk, ← AList.lookup_erase_ne hk] at h'
      exact List.mem_cons_of_mem _ (hc.node_mem h')
  size_pos := by
    intro k' e' h'
    by_cases hk : k' = k
    · subst hk; rw [AList.lookup_insert] at h'; cases h'; exact hpos
    · rw [AList.lookup_insert_ne hk, ← AList.lookup_erase_ne hk] at h'
      exact hc.size_pos h'
  bytes_eq := by rw [sizeSum_insert, hc.bytes_eq]; omega
  bytes_le := hfit

/-- `MoveToFront` keeps the accounting. -/
theorem Consistent.moveToFront (hc : Consistent data lru cur max) (i : Nat) :
  Consistent data (lru.moveToFront i) cur max
  where
  values_perm := ((lru.moveToFront_perm i).map Prod.snd).trans hc.values_perm
  node_mem h := (lru.moveToFront_perm i).mem_iff.mpr (hc.node_mem h)
  size_pos := hc.size_pos
  bytes_eq := hc.bytes_eq
  bytes_le := hc.bytes_le

end Consistent

namespace MemoryStore

variable {s s' : MemoryStore} {k : String}

/-- The store is `Consistent` for its entries other than the one under `k`. -/
def ConsistentWithout (k : String) (s : MemoryStore) : Prop :=
  Consistent (s.data.erase k) s.lru s.currentBytes s.maxBytes

theorem Inv.without (h : s.Inv) (hk : k ∉ s.data) :
  s.ConsistentWithout k
  := by rw [ConsistentWithout, erase_of_not_mem hk]; exact h

theorem ConsistentWithout.inv (h : s.ConsistentWithout k) (hk : k ∉ s.data) :
  s.Inv
  := by rw [ConsistentWithout, erase_of_not_mem hk] at h; exact h

/-- `deleteEntryLocked` of an entry of the store keeps `Inv`. -/
theorem Inv.deleteEntryLocked {e : Entry} (h : s.Inv) (he : s.data.lookup k = some e) :
  (s.deleteEntryLocked k e).Inv
  := Consistent.deleteEntry h he

/-- `evictOldest` deletes the back key, which is not `k` when the store is consistent without
`k`, so it keeps that consistency. -/
theorem ConsistentWithout.evictOldest (hc : s.ConsistentWithout k)
    (h : s.evictOldest = some s') :
  s'.ConsistentWithout k
  := by
  obtain ⟨i, k', e, hback, hlook, rfl⟩ := evictOldest_eq_some h
  have hk' : k' ∈ s.data.erase k := AList.mem_keys.mpr <|
    hc.values_perm.subset (List.mem_map_of_mem Prod.snd (List.mem_of_getLast?_eq_some hback))
  have hlook' : (s.data.erase k).lookup k' = some e := by
    rwa [AList.lookup_erase_ne (AList.mem_erase.mp hk').1]
  show Consistent ((s.data.erase k').erase k) _ _ _
  rw [AList.erase_erase]
  exact hc.deleteEntry hlook'

/-- `evictOldest` only removes entries. -/
theorem evictOldest_lookup {e : Entry} (h : s.evictOldest = some s')
    (he : s'.data.lookup k = some e) :
  s.data.lookup k = some e
  := by
  obtain ⟨_, k', _, -, -, rfl⟩ := evictOldest_eq_some h
  exact lookup_of_lookup_erase he

theorem evictOldest_maxBytes (h : s.evictOldest = some s') :
  s'.maxBytes = s.maxBytes
  := by obtain ⟨_, _, _, -, -, rfl⟩ := evictOldest_eq_some h; rfl

/-- The eviction loop only removes entries. -/
theorem evictLoop_lookup {sz : Int} {e : Entry} :
    ∀ {n : Nat} {s : MemoryStore}, (evictLoop sz n s).1.data.lookup k = some e →
      s.data.lookup k = some e
  | 0, _, h => h
  | n + 1, s, h => by
    simp only [evictLoop] at h
    split at h
    · split at h
      · exact h
      · exact evictOldest_lookup ‹_› (evictLoop_lookup h)
    · exact h

theorem evictLoop_maxBytes (sz : Int) :
    ∀ (n : Nat) (s : MemoryStore), (evictLoop sz n s).1.maxBytes = s.maxBytes
  | 0, _ => rfl
  | n + 1, s => by
    simp only [evictLoop]
    split
    · split
      · rfl
      · exact (evictLoop_maxBytes sz n _).trans (evictOldest_maxBytes ‹_›)
    · rfl

/-- The eviction loop keeps consistency without `k`, and ends with `true` only when the new
entry fits. -/
theorem evictLoop_consistent (sz : Int) :
    ∀ (n : Nat) {s : MemoryStore}, s.ConsistentWithout k →
      (evictLoop sz n s).1.ConsistentWithout k ∧
      ((evictLoop sz n s).2 = true →
        (evictLoop sz n s).1.currentBytes + sz ≤ (evictLoop sz n s).1.maxBytes)
  | 0, s, hc => ⟨hc, by simp [evictLoop]⟩
  | n + 1, s, hc => by
    simp only [evictLoop]
    split
    · split
      · exact ⟨hc, by simp⟩
      · exact evictLoop_consistent sz n (hc.evictOldest ‹_›)
    · exact ⟨hc, fun _ => by dsimp only; omega⟩

@[simp]
theorem releaseExisting_data (s : MemoryStore) (k : String) :
  (s.releaseExisting k).data = s.data
  := by unfold releaseExisting; split <;> rfl

/-- After `releaseExisting k` the store is consistent without `k`. -/
theorem Inv.releaseExisting (h : s.Inv) (k : String) :
  (s.releaseExisting k).ConsistentWithout k
  := by
  unfold MemoryStore.releaseExisting
  split
  · rename_i hk
    exact h.without (AList.lookup_eq_none.mp hk)
  · rename_i e he
    exact h.deleteEntry he

theorem entrySize_pos (ns key : String) (value : List UInt8) :
  0 < entrySize ns key value
  := by unfold entrySize; omega

/-- Storing the new entry after a successful eviction loop restores `Inv`. -/
theorem ConsistentWithout.storeEntry {now ttl : Int} {ns key : String} {value : List UInt8}
    (hc : s.ConsistentWithout (makeKey ns key))
    (hfit : s.currentBytes + entrySize ns key value ≤ s.maxBytes) :
  (s.storeEntry now ns key value ttl (entrySize ns key value)).Inv
  := Consistent.store hc (entrySize_pos ns key value) hfit rfl

/-- `setLocked` fails only with `ErrMemoryLimit`. -/
theorem setLocked_result (s : MemoryStore) (now : Int) (ns key : String) (value : List UInt8)
    (ttl : Int) :
  (s.setLocked now ns key value ttl).2 = .ok () ∨
    (s.setLocked now ns key value ttl).2 = .error .errMemoryLimit
  := by dsimp only [setLocked]; split <;> simp

/-- `setLocked` keeps `Inv` unless it fails on a full key `data` holds. -/
theorem Inv.setLocked {now ttl : Int} {ns key : String} {value : List UInt8} (h : s.Inv)
    (hk : (s.setLocked now ns key value ttl).2 = .ok () ∨ makeKey ns key ∉ s.data) :
  (s.setLocked now ns key value ttl).1.Inv
  := by
  obtain ⟨h1, h4⟩ := evictLoop_consistent (entrySize ns key value)
    (s.releaseExisting (makeKey ns key)).data.keys.length (h.releaseExisting (makeKey ns key))
  dsimp only [MemoryStore.setLocked] at hk ⊢
  split
  · exact h1.storeEntry (h4 ‹_›)
  · rename_i hfail
    simp only [hfail, Bool.false_eq_true, ↓reduceIte, reduceCtorEq, false_or] at hk
    refine h1.inv fun hmem => hk ?_
    obtain ⟨e, he⟩ := Option.isSome_iff_exists.mp (AList.lookup_isSome.mpr hmem)
    have hs := evictLoop_lookup he
    rw [releaseExisting_data] at hs
    exact AList.lookup_isSome.mp (by rw [hs]; rfl)

/-- `Set` keeps `Inv` unless it fails with `ErrMemoryLimit` on a full key `data` holds. -/
theorem Inv.set {now ttl : Int} {ns key : String} {value : List UInt8} (h : s.Inv)
    (hk : (s.set now ns key value ttl).2 ≠ .error .errMemoryLimit ∨ makeKey ns key ∉ s.data) :
  (s.set now ns key value ttl).1.Inv
  := by
  unfold MemoryStore.set at hk ⊢
  rcases hv : s.validate ns key value with _ | ⟨⟩
  · exact h
  · rcases hq : s.checkNamespaceQuota now ns with _ | ⟨⟩
    · exact h
    · simp only [hv, hq] at hk ⊢
      exact h.setLocked (hk.imp_left (setLocked_result s now ns key value ttl).resolve_right)

theorem Inv.get (h : s.Inv) (now : Int) (ns key : String) :
  (s.get now ns key).1.Inv
  := by
  unfold MemoryStore.get
  split
  · exact h
  · split
    · exact h
    · rename_i e he
      split
      · exact h.deleteEntryLocked he
      · exact h.moveToFront e.lruNode

theorem Inv.delete (h : s.Inv) (ns key : String) :
  (s.delete ns key).1.Inv
  := by
  unfold MemoryStore.delete
  split
  · exact h
  · split
    · exact h
    · exact h.deleteEntryLocked ‹_›

/-- `IncrementRateLimit` keeps `Inv` unless it fails with `ErrMemoryLimit` while rewriting a
counter that has not expired. -/
theorem Inv.incrementRateLimit {now ttl : Int} {p : String} (h : s.Inv)
    (hk : (s.incrementRateLimit now p ttl).2 ≠ .error .errMemoryLimit ∨
      ∀ e, s.data.lookup (makeKey namespaceRateLimits p) = some e → e.expired now = true) :
  (s.incrementRateLimit now p ttl).1.Inv
  := by
  by_cases hp : p = ""
  · simp only [MemoryStore.incrementRateLimit, hp, ↓reduceIte]; exact h
  rcases he : s.data.lookup (makeKey namespaceRateLimits p) with _ | e
  · simp only [MemoryStore.incrementRateLimit, hp, he, ↓reduceIte]
    exact h.setLocked (Or.inr (AList.lookup_eq_none.mp he))
  rcases hx : e.expired now
  · rcases hparse : parseInt e.value 64 with err | count
    · simp only [MemoryStore.incrementRateLimit, hp, he, hx, hparse, ↓reduceIte,
        Bool.false_eq_true]
      exact h
    · simp only [MemoryStore.incrementRateLimit, hp, he, hx, hparse, ↓reduceIte,
        Bool.false_eq_true, Option.some.injEq, forall_eq', or_false] at hk ⊢
      refine h.setLocked (Or.inl ((setLocked_result _ _ _ _ _ _).resolve_right fun hm => hk ?_))
      rw [hm]; rfl
  · simp only [MemoryStore.incrementRateLimit, hp, he, hx, ↓reduceIte]
    exact (h.deleteEntryLocked he).setLocked (Or.inr (by simp))

theorem Inv.cleanupOne (h : s.Inv) (k : String) :
  (s.cleanupOne k).Inv
  := by
  unfold MemoryStore.cleanupOne
  split
  · exact h
  · exact h.deleteEntryLocked ‹_›

theorem Inv.cleanup (h : s.Inv) (now : Int) :
  (s.cleanup now).Inv
  := by
  unfold MemoryStore.cleanup
  generalize (s.data.entries.filter fun x => x.2.expired now).map (·.1) = ks
  induction ks generalizing s with
  | nil => exact h
  | cons k ks ih => exact ih (h.cleanupOne k)

end MemoryStore

/-! ### Runs -/

/-- The call writes through the body of `setLocked` to a full key `data` holds (for
`IncrementRateLimit`, a counter that has not expired) and fails with `ErrMemoryLimit`. -/
def Op.failedOverwrite (now : Int) (s : MemoryStore) : Op → Bool
  | .set ns key value ttl =>
    decide (MemoryStore.makeKey ns key ∈ s.data) &&
      decide ((s.set now ns key value ttl).2 = .error .errMemoryLimit)
  | .incrementRateLimit p ttl =>
    (match s.data.lookup (MemoryStore.makeKey namespaceRateLimits p) with
      | some e => !e.expired now
      | none => false) &&
      decide ((s.incrementRateLimit now p ttl).2 = .error .errMemoryLimit)
  | _ => false

/-- Every call but a failed overwrite keeps `Inv`. -/
theorem Op.inv_apply {s : MemoryStore} {now : Int} {o : Op} (h : s.Inv)
    (ho : o.failedOverwrite now s = false) :
  (o.apply now s).Inv
  := by
  cases o with
  | get ns key => exact h.get now ns key
  | set ns key value ttl =>
    simp only [failedOverwrite, Bool.and_eq_false_iff, decide_eq_false_iff_not] at ho
    exact h.set ho.symm
  | delete ns key => exact h.delete ns key
  | incrementRateLimit p ttl =>
    simp only [failedOverwrite, Bool.and_eq_false_iff, decide_eq_false_iff_not] at ho
    refine h.incrementRateLimit (ho.symm.imp_right fun hl e he => ?_)
    simpa [he] using hl
  | cleanup => exact h.cleanup now

/-- No call of the run is a failed overwrite of the store it is applied to. -/
def noFailedOverwrite : MemoryStore → List (Int × Op) → Bool
  | _, [] => true
  | s, (now, o) :: ops => !o.failedOverwrite now s && noFailedOverwrite (o.apply now s) ops

theorem run_inv {s : MemoryStore} {ops : List (Int × Op)} (h : s.Inv)
    (hops : noFailedOverwrite s ops = true) :
  (run s ops).Inv
  := by
  induction ops generalizing s with
  | nil => exact h
  | cons o ops ih =>
    simp only [noFailedOverwrite, Bool.and_eq_true, Bool.not_eq_true'] at hops
    exact ih (Op.inv_apply h hops.1) hops.2

theorem newMemoryStoreWithConfig_inv {maxBytes : Int} (h : 0 ≤ maxBytes)
    (maxKeyLength maxValueSize : Int) :
  (newMemoryStoreWithConfig maxBytes maxKeyLength maxValueSize).Inv
  where
  values_perm := by simp [LruList.values, LruList.empty, newMemoryStoreWithConfig, AList.keys]
  node_mem h := by simp [newMemoryStoreWithConfig] at h
  size_pos h := by simp [newMemoryStoreWithConfig] at h
  bytes_eq := rfl
  bytes_le := h

/-- From a store built with `maxBytes ≥ 0`, every run without a failed overwrite keeps the
accounting: the list holds the full keys of `data` each once, each entry's `lruNode` is the
element carrying its key, and `currentBytes` is the sum of the sizes, between `0` and
`maxBytes`. -/
theorem accounting_of_noFailedOverwrite {maxBytes : Int} (hmax : 0 ≤ maxBytes)
    (maxKeyLength maxValueSize : Int) {ops : List (Int × Op)}
    (hops : noFailedOverwrite (newMemoryStoreWithConfig maxBytes maxKeyLength maxValueSize) ops) :
  (run (newMemoryStoreWithConfig maxBytes maxKeyLength maxValueSize) ops).Inv ∧
    0 ≤ (run (newMemoryStoreWithConfig maxBytes maxKeyLength maxValueSize) ops).currentBytes
  :=
  have h := run_inv (newMemoryStoreWithConfig_inv hmax maxKeyLength maxValueSize) hops
  ⟨h, Consistent.bytes_nonneg h⟩

/-- The workload of `TestMemoryStore_LRUEviction` has no failed overwrite. -/
theorem accounting_of_noFailedOverwrite_lruEviction :
  (let ops : List (Int × Op) := [(0, .set "test" "key1" (List.replicate 100 0) 0),
      (1, .set "test" "key2" (List.replicate 100 0) 0), (2, .get "test" "key1"),
      (3, .set "test" "key3" (List.replicate 100 0) 0)];
    (run (newMemoryStoreWithConfig 500 256 200) ops).Inv ∧
      0 ≤ (run (newMemoryStoreWithConfig 500 256 200) ops).currentBytes)
  := accounting_of_noFailedOverwrite (by decide) 256 200 (by decide)

/-- A write that overwrites `a:b` and fails with `ErrMemoryLimit` leaves the old entry in `data`,
with its element gone from the list and its bytes gone from `currentBytes`; deleting it then
drives `currentBytes` to `-77`. -/
theorem failedOverwrite_breaks_accounting :
  (let s := run (newMemoryStoreWithConfig 100 256 1048576)
      [(0, .set "a" "b" (List.replicate 10 0) 0), (1, .set "a" "b" (List.replicate 40 0) 0)];
    s.data.keys = ["a:b"] ∧ s.lru.values = [] ∧ s.currentBytes = 0 ∧ sizeSum s.data = 77 ∧
      ¬ s.Inv ∧ (Op.apply 2 s (.delete "a" "b")).currentBytes = -77)
  := by
  refine ⟨by decide, by decide, by decide, by decide, fun h => ?_, by decide⟩
  have := h.values_perm.length_eq
  revert this
  decide

end Lucendex.Kv
