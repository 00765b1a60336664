import Lucendex.Go.Strconv
import Mathlib.Data.List.AList

/-!
# The in-memory store: data model

`MemoryStore` is the state of `kv.MemoryStore`: the map `data` from full keys
`namespace + ":" + key` to entries, the recency list `lru` of full keys (front = most recently
used), the byte counter `currentBytes` against the budget `maxBytes`, the validation limits and
the eviction, hit and miss counters.  Times are nanoseconds as `Int`; an expiry of `none` is
Go's zero `time.Time`.  The lock is left out: every operation is one atomic step.

The module also holds what the operations share: `validate`, `checkNamespaceQuota`,
`deleteEntryLocked` and `evictOldest`, with the small lemmas that say what each changes.
-/

namespace Lucendex.Kv

open Lucendex.Go

/-- The errors of package `kv` that the store returns, the last one being the wrap
`fmt.Errorf("invalid counter value: %w", err)` of a `strconv` error. -/
inductive KvError where
  | errKeyTooLong
  | errKeyEmpty
  | errNamespaceEmpty
  | errValueTooLarge
  | errMemoryLimit
  | errKeyNotFound
  | errNamespaceQuota
  | invalidCounterValue (err : NumError)
  deriving DecidableEq, Repr

/-- The text of each error, as `errors.New` and `fmt.Errorf` build it; the input of a
`strconv` error is shown between plain quotes. -/
def KvError.message : KvError → String
  | .errKeyTooLong => "key exceeds maximum length"
  | .errKeyEmpty => "key cannot be empty"
  | .errNamespaceEmpty => "namespace cannot be empty"
  | .errValueTooLarge => "value exceeds maximum size"
  | .errMemoryLimit => "memory limit exceeded"
  | .errKeyNotFound => "key not found"
  | .errNamespaceQuota => "namespace quota exceeded"
  | .invalidCounterValue e =>
    "invalid counter value: strconv." ++ e.func ++ ": parsing \"" ++
      String.mk (e.num.map fun b => Char.ofNat b.toNat) ++ "\": " ++ e.err.message

/-- `DefaultMaxBytes`, 512 MiB. -/
def defaultMaxBytes : Int := 512 * 1024 * 1024

/-- `DefaultMaxKeyLength`. -/
def defaultMaxKeyLength : Int := 256

/-- `DefaultMaxValueSize`, 1 MiB. -/
def defaultMaxValueSize : Int := 1024 * 1024

/-- `NamespaceQuotes`. -/
def namespaceQuotes : String := "quotes"

/-- `NamespaceRateLimits`. -/
def namespaceRateLimits : String := "rate_limits"

/-- `NamespaceCircuitBreaker`. -/
def namespaceCircuitBreaker : String := "circuit_breaker"

/-- `NamespaceSystem`. -/
def namespaceSystem : String := "system"

/-- `namespaceQuotas[ns]`, with `none` for a namespace that is not in the map. -/
def namespaceQuotas (ns : String) : Option Int :=
  if ns = namespaceQuotes then some 10000
  else if ns = namespaceRateLimits then some 100000
  else if ns = namespaceCircuitBreaker then some 1000
  else if ns = namespaceSystem then some 128
  else none

/-- An `entry`: its namespace and key, its value, its expiry (`none` is the zero time), its
accounted size and the identity of its `lruNode` element. -/
structure Entry where
  «namespace» : String
  key : String
  value : List UInt8
  expiresAt : Option Int
  size : Int
  lruNode : Nat
  deriving DecidableEq, Repr

/-- `!e.expiresAt.IsZero() && now.After(e.expiresAt)`, the expiry test of `Get`,
`IncrementRateLimit` and `cleanup`. -/
def Entry.expired (e : Entry) (now : Int) : Bool :=
  match e.expiresAt with
  | none => false
  | some t => t < now

/-- `e.expiresAt.IsZero() || now.Before(e.expiresAt)`, the liveness test of `Keys`, `Stats`
and `checkNamespaceQuota`. -/
def Entry.live (e : Entry) (now : Int) : Bool :=
  match e.expiresAt with
  | none => true
  | some t => now < t

/-! ### The recency list -/

/-- A `container/list` list of full keys: its elements front to back, each with the
identity of its `list.Element`, and the identity the next `PushFront` allocates.  Every
element's identity is below `next`, and no two elements share one. -/
structure LruList where
  elems : List (Nat × String)
  next : Nat
  lt_next : ∀ x ∈ elems, x.1 < next
  nodup : (elems.map Prod.fst).Nodup

/-- `list.New()`. -/
def LruList.empty : LruList :=
  ⟨[], 0, fun _ h => absurd h (List.not_mem_nil _), List.nodup_nil⟩

/-- `l.PushFront(v)`: the list with a fresh element in front, and that element. -/
def LruList.pushFront (l : LruList) (v : String) : LruList × Nat :=
  (⟨(l.next, v) :: l.elems, l.next + 1,
    by
      simp only [List.mem_cons, forall_eq_or_imp, Nat.lt_succ_self, true_and]
      exact fun x hx => Nat.lt_succ_of_lt (l.lt_next x hx),
    by
      simp only [List.map_cons, List.nodup_cons, List.mem_map, not_exists, not_and, l.nodup,
        and_true]
      exact fun x hx h => Nat.lt_irrefl _ (h ▸ l.lt_next x hx)⟩, l.next)

/-- `l.Remove(e)`: the list without element `e`, unchanged when `e` is not in it. -/
def LruList.remove (l : LruList) (e : Nat) : LruList :=
  ⟨l.elems.filter (·.1 ≠ e), l.next,
    fun x hx => l.lt_next x (List.mem_of_mem_filter hx),
    (l.nodup.sublist ((List.filter_sublist _).map Prod.fst))⟩

/-- `l.MoveToFront(e)`: element `e` moved to the front, nothing done when it is not in the
list. -/
def LruList.moveToFront (l : LruList) (e : Nat) : LruList :=
  match h : l.elems.find? (·.1 = e) with
  | none => l
  | some x =>
    ⟨x :: l.elems.filter (·.1 ≠ e), l.next,
      by
        simp only [List.mem_cons, forall_eq_or_imp]
        exact ⟨l.lt_next x (List.mem_of_find?_eq_some h),
          fun y hy => l.lt_next y (List.mem_of_mem_filter hy)⟩,
      by
        have hx : x.1 = e := by simpa using List.find?_some h
        simp only [List.map_cons, List.nodup_cons, List.mem_map, List.mem_filter, not_exists,
          not_and]
        exact ⟨fun y hy h' => of_decide_eq_true hy.2 (h'.trans hx),
          l.nodup.sublist ((List.filter_sublist _).map Prod.fst)⟩⟩

/-- `l.Back()`: the last element, if any. -/
def LruList.back (l : LruList) : Option (Nat × String) :=
  l.elems.getLast?

/-- The values of the list, front to back. -/
def LruList.values (l : LruList) : List String :=
  l.elems.map Prod.snd

@[simp]
theorem LruList.pushFront_elems (l : LruList) (v : String) :
  (l.pushFront v).1.elems = (l.next, v) :: l.elems
  := rfl

@[simp]
theorem LruList.pushFront_node (l : LruList) (v : String) :
  (l.pushFront v).2 = l.next
  := rfl

@[simp]
theorem LruList.remove_elems (l : LruList) (e : Nat) :
  (l.remove e).elems = l.elems.filter (·.1 ≠ e)
  := rfl

/-- In a list whose first components are distinct, an element and the elements whose first
component differs from its own make up the whole list. -/
theorem perm_cons_filter_ne :
    ∀ {l : List (Nat × String)}, (l.map Prod.fst).Nodup → ∀ {x}, x ∈ l →
      l.Perm (x :: l.filter (·.1 ≠ x.1))
  | [], _, _, hx => absurd hx (List.not_mem_nil _)
  | y :: t, hl, x, hx => by
    rw [List.map_cons, List.nodup_cons] at hl
    rcases List.mem_cons.mp hx with rfl | hx
    · have : t.filter (·.1 ≠ x.1) = t :=
        List.filter_eq_self.mpr fun z hz => decide_eq_true fun h => hl.1 (h ▸ List.mem_map_of_mem _ hz)
      rw [List.filter_cons_of_neg (by simp), this]
    · have hne : y.1 ≠ x.1 := fun h => hl.1 (h ▸ List.mem_map_of_mem _ hx)
      simpa [hne] using ((perm_cons_filter_ne hl.2 hx).cons y).trans (List.Perm.swap x y _)

/-- Two elements of a list with the same identity are the same element. -/
theorem LruList.eq_of_mem_of_mem {l : LruList} {i : Nat} {a b : String}
    (ha : (i, a) ∈ l.elems) (hb : (i, b) ∈ l.elems) :
  a = b
  := congrArg Prod.snd (List.inj_on_of_nodup_map l.nodup ha hb rfl)

theorem LruList.perm_remove {l : LruList} {x : Nat × String} (hx : x ∈ l.elems) :
  l.elems.Perm (x :: (l.remove x.1).elems)
  := perm_cons_filter_ne l.nodup hx

theorem LruList.values_perm_remove {l : LruList} {x : Nat × String} (hx : x ∈ l.elems) :
  l.values.Perm (x.2 :: (l.remove x.1).values)
  := (l.perm_remove hx).map Prod.snd

@[simp]
theorem LruList.mem_remove {l : LruList} {x : Nat × String} {e : Nat} :
  x ∈ (l.remove e).elems ↔ x ∈ l.elems ∧ x.1 ≠ e
  := by simp

/-- `MoveToFront` only reorders the list. -/
theorem LruList.moveToFront_perm (l : LruList) (e : Nat) :
  (l.moveToFront e).elems.Perm l.elems
  := by
  unfold moveToFront
  split
  · rfl
  · rename_i x h
    have hx : x.1 = e := by simpa using List.find?_some h
    exact hx ▸ (l.perm_remove (List.mem_of_find?_eq_some h)).symm

/-! ### The store -/

/-- A `MemoryStore`, without its lock, its stop channel and its cleanup goroutine. -/
structure MemoryStore where
  data : AList (fun _ : String => Entry)
  lru : LruList
  maxBytes : Int
  currentBytes : Int
  maxKeyLength : Int
  maxValueSize : Int
  evictions : Int
  hits : Int
  misses : Int

/-- `NewMemoryStoreWithConfig(maxBytes, maxKeyLength, maxValueSize)`. -/
def newMemoryStoreWithConfig (maxBytes maxKeyLength maxValueSize : Int) : MemoryStore where
  data := ∅
  lru := .empty
  maxBytes := maxBytes
  currentBytes := 0
  maxKeyLength := maxKeyLength
  maxValueSize := maxValueSize
  evictions := 0
  hits := 0
  misses := 0

/-- `NewMemoryStore()`. -/
def newMemoryStore : MemoryStore :=
  newMemoryStoreWithConfig defaultMaxBytes defaultMaxKeyLength defaultMaxValueSize

namespace MemoryStore

/-- `s.makeKey(namespace, key)`. -/
def makeKey (ns key : String) : String :=
  ns ++ ":" ++ key

/-- `s.validate(namespace, key, value)`: the checks of `Set`, in order. -/
def validate (s : MemoryStore) (ns key : String) (value : List UInt8) : Except KvError Unit :=
  if ns = "" then .error .errNamespaceEmpty
  else if key = "" then .error .errKeyEmpty
  else if (key.utf8ByteSize : Int) > s.maxKeyLength then .error .errKeyTooLong
  else if (value.length : Int) > s.maxValueSize then .error .errValueTooLarge
  else .ok ()

/-- The number of entries of namespace `ns` live at `now`, as `checkNamespaceQuota` counts
them. -/
def liveCount (s : MemoryStore) (now : Int) (ns : String) : Nat :=
  (s.data.entries.filter fun x => x.2.«namespace» = ns ∧ x.2.live now).length

/-- `s.checkNamespaceQuota(namespace)` at time `now`. -/
def checkNamespaceQuota (s : MemoryStore) (now : Int) (ns : String) : Except KvError Unit :=
  match namespaceQuotas ns with
  | none => .ok ()
  | some quota => if (s.liveCount now ns : Int) ≥ quota then .error .errNamespaceQuota else .ok ()

/-- `s.deleteEntryLocked(fullKey, e)`. -/
def deleteEntryLocked (s : MemoryStore) (fullKey : String) (e : Entry) : MemoryStore :=
  { s with
    lru := s.lru.remove e.lruNode
    data := s.data.erase fullKey
    currentBytes := s.currentBytes - e.size }

/-- `s.evictOldest()`: the store after evicting the entry at the back of the list, or `none`
where the Go function returns `false` and changes nothing. -/
def evictOldest (s : MemoryStore) : Option MemoryStore :=
  match s.lru.back with
  | none => none
  | some elem =>
    match s.data.lookup elem.2 with
    | none => none
    | some e => some { s.deleteEntryLocked elem.2 e with evictions := s.evictions + 1 }

@[simp]
theorem deleteEntryLocked_data (s : MemoryStore) (k : String) (e : Entry) :
  (s.deleteEntryLocked k e).data = s.data.erase k
  := rfl

@[simp]
theorem deleteEntryLocked_lru (s : MemoryStore) (k : String) (e : Entry) :
  (s.deleteEntryLocked k e).lru = s.lru.remove e.lruNode
  := rfl

@[simp]
theorem deleteEntryLocked_currentBytes (s : MemoryStore) (k : String) (e : Entry) :
  (s.deleteEntryLocked k e).currentBytes = s.currentBytes - e.size
  := rfl

@[simp]
theorem deleteEntryLocked_maxBytes (s : MemoryStore) (k : String) (e : Entry) :
  (s.deleteEntryLocked k e).maxBytes = s.maxBytes
  := rfl

/-- A successful `evictOldest` deletes the entry of the full key at the back of the list. -/
theorem evictOldest_eq_some {s s' : MemoryStore} (h : s.evictOldest = some s') :
  ∃ id k e, s.lru.back = some (id, k) ∧ s.data.lookup k = some e ∧
    s' = { s.deleteEntryLocked k e with evictions := s.evictions + 1 }
  := by
  unfold evictOldest at h
  split at h
  · cases h
  · rename_i elem _
    split at h
    · cases h
    · rename_i e he
      exact ⟨elem.1, elem.2, e, by simpa, he, (Option.some.inj h).symm⟩

end MemoryStore

end Lucendex.Kv
