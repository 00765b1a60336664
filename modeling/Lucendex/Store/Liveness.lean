import Lucendex.Store.Isolation

/-!
# The in-memory store: which entries are live

The store has two tests of an entry's expiry.  `Get`, `IncrementRateLimit` and `cleanup` drop an
entry once `now.After(expiresAt)` (`Entry.expired`); `Keys`, `Stats` and `checkNamespaceQuota`
count it while `now.Before(expiresAt)` (`Entry.live`).  At `now = expiresAt` the entry is
neither: `Get` still returns it and `cleanup` keeps it, while `Keys`, `Stats` and the quota no
longer count it (`liveness_boundary_disagrees`).

Away from that instant the read paths agree.  `Stats`, `Keys` and the quota count with the one
test `Entry.live`, and `cleanup` keeps exactly the entries `Get`'s test keeps (`cleanup_lookup`).
Every entry is stored under the full key of its own namespace and key
(`MemoryStore.Keyed`), so every key `Keys` lists is one `Get` returns
(`get_of_mem_keys_run`).  The converse fails at the boundary and for the colliding full keys of
`makeKey_collision_get`.
-/

namespace Lucendex.Kv

open Lucendex.Go

/-- A live entry has not expired. -/
theorem Entry.expired_of_live {e : Entry} {now : Int} (h : e.live now = true) :
  e.expired now = false
  := by
  unfold Entry.live at h
  unfold Entry.expired
  split <;> simp_all only [decide_eq_true_eq, decide_eq_false_iff_not, not_lt]
  exact le_of_lt h

namespace MemoryStore

variable {s : MemoryStore} {now : Int} {ns key k : String} {e : Entry}

/-! ### Purging -/

/-- `cleanup` at `now` keeps exactly the entries `Get`'s expiry test keeps at `now`. -/
theorem cleanup_lookup (s : MemoryStore) (now : Int) (k : String) :
  (s.cleanup now).data.lookup k = (s.data.lookup k).filter fun e => !e.expired now
  := by
  rw [cleanup, foldl_cleanupOne_lookup]
  rcases hk : s.data.lookup k with _ | e
  · rw [ite_self]
    rfl
  · have hmem : k ∈ (s.data.entries.filter fun x => x.2.expired now).map (·.1) ↔
        e.expired now = true := by
      simp only [List.mem_map, List.mem_filter]
      constructor
      · rintro ⟨⟨k', e'⟩, ⟨hx, hex⟩, rfl⟩
        exact (Option.some.inj (hk.symm.trans (AList.mem_lookup_iff.mpr hx))) ▸ hex
      · exact fun hex => ⟨⟨k, e⟩, ⟨AList.mem_lookup_iff.mp hk, hex⟩, rfl⟩
    by_cases hex : e.expired now <;> simp [Option.filter, hmem, hex]

end MemoryStore

/-- A quote written at time 0 with a ttl of one second, read at exactly one second: `Get`
returns it and `cleanup` keeps it, while `Keys`, `Stats` and the quota count no longer see it. -/
theorem liveness_boundary_disagrees :
  (let s := (newMemoryStore.set 0 namespaceQuotes "k" (goBytes "v") (10 ^ 9)).1;
    (s.get (10 ^ 9) namespaceQuotes "k").2 = some (goBytes "v") ∧
      s.keys (10 ^ 9) namespaceQuotes = [] ∧ (s.stats (10 ^ 9)).namespaceCounts namespaceQuotes = 0 ∧
      s.liveCount (10 ^ 9) namespaceQuotes = 0 ∧
      (s.cleanup (10 ^ 9)).data.keys = [MemoryStore.makeKey namespaceQuotes "k"])
  := by decide

/-! ### Entries sit under their own full key -/

namespace MemoryStore

/-- Every entry is stored under `makeKey` of its own namespace and key, both non-empty. -/
def Keyed (s : MemoryStore) : Prop :=
  ∀ k e, s.data.lookup k = some e → k = makeKey e.«namespace» e.key ∧ e.«namespace» ≠ "" ∧
    e.key ≠ ""

variable {s s' : MemoryStore} {now : Int} {ns key k : String} {e : Entry}

/-- Every call keeps `Keyed`: what it leaves under a full key was there before, or is the entry
it wrote under its own namespace and key. -/
theorem Keyed.apply (h : s.Keyed) (o : Op) :
  (o.apply now s).Keyed
  := fun k e he => (Op.lookup_apply he).elim (h k e) fun hnew => hnew.2.2

theorem Keyed.run (h : s.Keyed) (ops : List (Int × Op)) :
  (run s ops).Keyed
  := by
  induction ops generalizing s with
  | nil => exact h
  | cons o ops ih => exact ih (h.apply o.2)

/-- Every key `Keys` lists is found by `Get` at the same time. -/
theorem Keyed.get_of_mem_keys (h : s.Keyed) (hk : key ∈ s.keys now ns) :
  ∃ v, (s.get now ns key).2 = some v
  := by
  obtain ⟨⟨k, e⟩, hx, rfl⟩ := List.mem_map.mp hk
  obtain ⟨hmem, hf⟩ := List.mem_filter.mp hx
  simp only [decide_eq_true_eq] at hf
  have hl : s.data.lookup k = some e := AList.mem_lookup_iff.mpr hmem
  obtain ⟨rfl, hns, hkey⟩ := h k e hl
  rw [hf.1] at hl hns
  refine ⟨e.value, ?_⟩
  rw [get_snd, if_neg (by simp [hns, hkey]), hl]
  simp [Entry.expired_of_live hf.2]

end MemoryStore

/-- On every store a run of calls reaches from a new store, every key `Keys(ns)` lists at
`now` is one `Get(ns, key)` returns at `now`. -/
theorem get_of_mem_keys_run (maxBytes maxKeyLength maxValueSize : Int) (ops : List (Int × Op))
    {now : Int} {ns key : String}
    (hk : key ∈ (run (newMemoryStoreWithConfig maxBytes maxKeyLength maxValueSize) ops).keys now ns) :
  ∃ v, ((run (newMemoryStoreWithConfig maxBytes maxKeyLength maxValueSize) ops).get now ns key).2 =
    some v
  := MemoryStore.Keyed.get_of_mem_keys
    (MemoryStore.Keyed.run (fun _ _ he => by simp [newMemoryStoreWithConfig] at he) ops) hk

/-- A quote written at time 0 without a ttl is listed and found. -/
theorem get_of_mem_keys_run_quote :
  "k" ∈ (run newMemoryStore [(0, .set namespaceQuotes "k" (goBytes "v") 0)]).keys 1 namespaceQuotes ∧
    ∃ v, ((run newMemoryStore [(0, .set namespaceQuotes "k" (goBytes "v") 0)]).get 1
      namespaceQuotes "k").2 = some v
  := ⟨by decide, get_of_mem_keys_run _ _ _ _ (by decide)⟩

end Lucendex.Kv
