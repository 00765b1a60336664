import Lucendex.Store.Invariant

/-!
# The in-memory store: keys of different pairs

Entries are stored under `makeKey ns key = ns ++ ":" ++ key`, and neither part is checked for
`:`.  Two pairs share one slot exactly when their full keys agree, and `("a", "b:c")` and
`("a:b", "c")` do (`makeKey_collision_get`).  For namespaces without `:`, such as the four the
store fixes, `makeKey` is injective (`makeKey_inj`).  A call never creates or changes the entry
of a full key other than its own (`Op.lookup_apply_of_key_ne`); it can only remove it, by
eviction or by the expiry purge of `cleanup`.
-/

namespace Lucendex.Kv

open Lucendex.Go

namespace MemoryStore

/-- For namespaces without `:`, the full key determines the namespace and the key. -/
theorem makeKey_inj {ns ns' key key' : String} (h : ':' ∉ ns.data) (h' : ':' ∉ ns'.data) :
  makeKey ns key = makeKey ns' key' ↔ ns = ns' ∧ key = key'
  := by
  refine ⟨fun he => ?_, fun ⟨rfl, rfl⟩ => rfl⟩
  have hd := congrArg String.data he
  simp only [makeKey, String.data_append, List.append_assoc] at hd
  obtain ⟨h1, h2⟩ := append_cons_inj h h' hd
  exact ⟨String.ext h1, String.ext h2⟩

variable {s : MemoryStore} {k : String} {e : Entry}

/-- `setLocked` on another full key never creates or changes the entry of `k`. -/
theorem setLocked_lookup_of_ne {now ttl : Int} {ns key : String} {value : List UInt8}
    (hk : makeKey ns key ≠ k) (he : (s.setLocked now ns key value ttl).1.data.lookup k = some e) :
  s.data.lookup k = some e
  := by
  dsimp only [setLocked] at he
  split at he
  · simp only [storeEntry, AList.lookup_insert_ne (Ne.symm hk)] at he
    simpa using evictLoop_lookup he
  · simpa using evictLoop_lookup he

/-- An entry after `setLocked` was there before, or is the one it wrote, under its own namespace
and key. -/
theorem setLocked_lookup {now ttl : Int} {ns key : String} {value : List UInt8}
    (he : (s.setLocked now ns key value ttl).1.data.lookup k = some e) :
  s.data.lookup k = some e ∨ (k = makeKey ns key ∧ e.«namespace» = ns ∧ e.key = key)
  := by
  by_cases hk : makeKey ns key = k
  · subst hk
    dsimp only [setLocked] at he
    split at he
    · simp only [storeEntry, AList.lookup_insert, Option.some.injEq] at he
      exact .inr ⟨rfl, he ▸ rfl, he ▸ rfl⟩
    · exact .inl (by simpa using evictLoop_lookup he)
  · exact .inl (setLocked_lookup_of_ne hk he)

/-- One deletion of `cleanup` removes the entry of its full key and no other. -/
theorem cleanupOne_lookup (s : MemoryStore) (k' k : String) :
  (s.cleanupOne k').data.lookup k = if k = k' then none else s.data.lookup k
  := by
  unfold cleanupOne
  split <;> split_ifs with hk
  · subst hk; assumption
  · rfl
  · subst hk; simp
  · simp [AList.lookup_erase_ne hk]

theorem foldl_cleanupOne_lookup (ks : List String) (s : MemoryStore) (k : String) :
  (ks.foldl cleanupOne s).data.lookup k = if k ∈ ks then none else s.data.lookup k
  := by
  induction ks generalizing s with
  | nil => simp
  | cons k' ks ih =>
    rw [List.foldl_cons, ih, cleanupOne_lookup]
    by_cases h : k = k' <;> simp [h]

end MemoryStore

open MemoryStore

/-- The full key a call reads or writes; `cleanup` has none. -/
def Op.key : Op → Option String
  | .get ns key => some (makeKey ns key)
  | .set ns key _ _ => some (makeKey ns key)
  | .delete ns key => some (makeKey ns key)
  | .incrementRateLimit partnerID _ => some (makeKey namespaceRateLimits partnerID)
  | .cleanup => none

/-- The namespace a call writes an entry into, if any: `Set`'s own, and `rate_limits` for
`IncrementRateLimit`. -/
def Op.writeNamespace : Op → Option String
  | .set ns _ _ _ => some ns
  | .incrementRateLimit _ _ => some namespaceRateLimits
  | _ => none

/-- What a call can leave under a full key `k`: the entry `k` had before, or the entry the call
wrote under its own full key, in the namespace it writes into, with that namespace and key, both
non-empty. -/
theorem Op.lookup_apply {s : MemoryStore} {now : Int} {o : Op} {k : String} {e : Entry}
    (he : (o.apply now s).data.lookup k = some e) :
  s.data.lookup k = some e ∨
    (o.key = some k ∧ o.writeNamespace = some e.«namespace» ∧ k = makeKey e.«namespace» e.key ∧
      e.«namespace» ≠ "" ∧ e.key ≠ "")
  := by
  cases o with
  | get ns key | delete ns key =>
    simp only [apply, MemoryStore.get, MemoryStore.delete] at he
    repeat' split at he
    all_goals first | with_reducible exact .inl he | exact .inl (lookup_of_lookup_erase he)
  | set ns key value ttl =>
    simp only [apply, MemoryStore.set, validate] at he
    split at he
    · exact .inl he
    rename_i hv
    split_ifs at hv with h1 h2
    split at he
    · exact .inl he
    rcases setLocked_lookup he with he | ⟨rfl, rfl, rfl⟩
    exacts [.inl he, .inr ⟨rfl, rfl, rfl, h1, h2⟩]
  | incrementRateLimit p ttl =>
    simp only [apply, MemoryStore.incrementRateLimit] at he
    split at he
    · exact .inl he
    rename_i hp
    have hnew : ∀ {k}, k = makeKey namespaceRateLimits p ∧ e.«namespace» = namespaceRateLimits ∧
        e.key = p → some (makeKey namespaceRateLimits p) = some k ∧
          some namespaceRateLimits = some e.«namespace» ∧ k = makeKey e.«namespace» e.key ∧
          e.«namespace» ≠ "" ∧ e.key ≠ "" := by
      rintro _ ⟨rfl, hns, rfl⟩
      exact ⟨rfl, by rw [hns], by rw [hns], by rw [hns]; decide, hp⟩
    repeat' split at he
    all_goals first
      | with_reducible exact .inl he
      | exact (setLocked_lookup he).imp lookup_of_lookup_erase hnew
      | exact (setLocked_lookup he).imp id hnew
  | cleanup =>
    rw [apply, MemoryStore.cleanup, foldl_cleanupOne_lookup] at he
    split_ifs at he
    exact .inl he

/-- A call on one full key never creates or changes the entry of another full key `k`: the
entry `k` has after the call it had before. -/
theorem Op.lookup_apply_of_key_ne {s : MemoryStore} {now : Int} {o : Op} {k : String}
    {e : Entry} (hk : o.key ≠ some k) (he : (o.apply now s).data.lookup k = some e) :
  s.data.lookup k = some e
  := (Op.lookup_apply he).resolve_right fun h => hk h.1

/-- What `Get` returns is read off the entry of the full key. -/
theorem MemoryStore.get_snd (s : MemoryStore) (now : Int) (ns key : String) :
  (s.get now ns key).2 =
    if ns = "" ∨ key = "" then none
    else (s.data.lookup (makeKey ns key)).bind fun e => if e.expired now then none else some e.value
  := by
  unfold MemoryStore.get
  split
  · rfl
  · split <;> rename_i h
    · simp [h]
    · split <;> simp_all

/-- For namespaces without `:`, no call on a pair `(ns', key')` other than `(ns, key)` makes
`Get(ns, key)` return a value it would not have returned before the call. -/
theorem get_isolated {s : MemoryStore} {now t : Int} {o : Op} {ns key ns' key' : String}
    {v : List UInt8} (hns : ':' ∉ ns.data) (hns' : ':' ∉ ns'.data)
    (ho : o.key = some (makeKey ns' key')) (hne : (ns', key') ≠ (ns, key))
    (hv : ((o.apply now s).get t ns key).2 = some v) :
  (s.get t ns key).2 = some v
  := by
  have hk : o.key ≠ some (makeKey ns key) := by
    rw [ho]
    exact fun h => hne (Prod.ext_iff.mpr ((makeKey_inj hns' hns).mp (Option.some.inj h)))
  rw [MemoryStore.get_snd] at hv ⊢
  split at hv
  · cases hv
  · rename_i hempty
    rw [if_neg hempty]
    obtain ⟨e, he, hev⟩ := Option.bind_eq_some.mp hv
    rw [Op.lookup_apply_of_key_ne hk he]
    exact hev

/-- A `Set` on `quotes:k2` leaves what `Get("quotes", "k1")` returns. -/
theorem get_isolated_quotes :
  ((newMemoryStore.set 0 "quotes" "k1" (goBytes "v1") 0).1.get 2 "quotes" "k1").2 =
    some (goBytes "v1")
  := @get_isolated _ 1 2 (.set "quotes" "k2" (goBytes "v2") 0) "quotes" "k1" "quotes" "k2" _
    (by decide) (by decide) rfl (by decide) (by decide)

/-- `("a", "b:c")` and `("a:b", "c")` share the full key `a:b:c`: after `Set("a", "b:c", "v1")`
and `Set("a:b", "c", "v2")`, `Get("a", "b:c")` returns `v2`. -/
theorem makeKey_collision_get :
  (let s := run newMemoryStore
      [(0, .set "a" "b:c" (goBytes "v1") 0), (1, .set "a:b" "c" (goBytes "v2") 0)];
    (s.get 2 "a" "b:c").2 = some (goBytes "v2"))
  := by decide

end Lucendex.Kv
