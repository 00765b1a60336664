import Lucendex.Store.Liveness
import Lucendex.Store.RateLimit

/-!
# The in-memory store: namespace quotas

`checkNamespaceQuota` is called by `Set` alone, and before `Set` looks for the key it writes.
`IncrementRateLimit` writes its counters through `setLocked` and never consults the quota, so
calls for fresh partners each add a live `rate_limits` entry, past the quota of 100000
(`liveCount_run_incrementRateLimit`, `incrementRateLimit_exceeds_quota`).  And since the quota
counts entries before the existence check, a `Set` that would overwrite a live key of a full
namespace fails with `ErrNamespaceQuota`: `SetLedgerIndex` does once `system` holds 128 live keys
(`setLedgerIndex_full_namespace`).

Both runs are built from one fact: a write to a full key without an entry, for an entry that
fits, stores it without evicting and adds one live entry to its namespace (`set_of_fresh`,
`incrementRateLimit_of_fresh`, `liveCount_storeEntry`).

The quota does bound what `Set` writes.  Every call other than `Set` and `IncrementRateLimit` only
removes entries, a `Set` that passes the check adds at most the entry of its own full key, and
the live count only falls as time passes; so on every run in which no `IncrementRateLimit`
writes into a namespace, that namespace stays within its quota at every later time
(`quota_holds_without_incrementRateLimit`).
-/

namespace Lucendex.Kv

open Lucendex.Go

namespace MemoryStore

variable {s : MemoryStore} {now ttl sz : Int} {ns key k p : String} {value : List UInt8}

/-! ### Writes to a fresh key -/

theorem evictLoop_of_fits (h : s.currentBytes + sz ≤ s.maxBytes) :
    ∀ n, evictLoop sz n s = (s, true)
  | 0 => by simp [evictLoop, h]
  | _ + 1 => by simp [evictLoop, not_lt.mpr h]

theorem releaseExisting_of_not_mem (h : k ∉ s.data) :
  s.releaseExisting k = s
  := by simp [releaseExisting, AList.lookup_eq_none.mpr h]

/-- A write to a full key without an entry, for an entry that fits, evicts nothing. -/
theorem setLocked_of_fresh (hk : makeKey ns key ∉ s.data)
    (hfit : s.currentBytes + entrySize ns key value ≤ s.maxBytes) :
  s.setLocked now ns key value ttl =
    (s.storeEntry now ns key value ttl (entrySize ns key value), .ok ())
  := by simp [setLocked, releaseExisting_of_not_mem hk, evictLoop_of_fits hfit]

theorem set_of_fresh (hv : s.validate ns key value = .ok ())
    (hq : s.checkNamespaceQuota now ns = .ok ()) (hk : makeKey ns key ∉ s.data)
    (hfit : s.currentBytes + entrySize ns key value ≤ s.maxBytes) :
  s.set now ns key value ttl =
    (s.storeEntry now ns key value ttl (entrySize ns key value), .ok ())
  := by simp [set, hv, hq, setLocked_of_fresh hk hfit]

/-- A first call for a partner writes the counter `1`, whatever the namespace holds. -/
theorem incrementRateLimit_of_fresh (hp : p ≠ "") (hk : makeKey namespaceRateLimits p ∉ s.data)
    (hfit : s.currentBytes + entrySize namespaceRateLimits p (goBytes "1") ≤ s.maxBytes) :
  s.incrementRateLimit now p ttl =
    (s.storeEntry now namespaceRateLimits p (goBytes "1") ttl
      (entrySize namespaceRateLimits p (goBytes "1")), .ok 1)
  := by
  simp [incrementRateLimit, hp, AList.lookup_eq_none.mpr hk, setLocked_of_fresh hk hfit, Except.map]

theorem checkNamespaceQuota_of_lt
    (h : ∀ q, namespaceQuotas ns = some q → (s.liveCount now ns : Int) < q) :
  s.checkNamespaceQuota now ns = .ok ()
  := by
  unfold checkNamespaceQuota
  split
  · rfl
  · rename_i q hq
    simp [not_le.mpr (h q hq)]

theorem checkNamespaceQuota_of_ge {q : Int} (hq : namespaceQuotas ns = some q)
    (h : q ≤ s.liveCount now ns) :
  s.checkNamespaceQuota now ns = .error .errNamespaceQuota
  := by simp [checkNamespaceQuota, hq, h]

/-- In a namespace whose live keys have reached its quota, every valid `Set` fails with
`ErrNamespaceQuota` and changes nothing, whether or not its key is there. -/
theorem set_of_full {q : Int} (hv : s.validate ns key value = .ok ())
    (hq : namespaceQuotas ns = some q) (h : q ≤ s.liveCount now ns) :
  s.set now ns key value ttl = (s, .error .errNamespaceQuota)
  := by simp [set, hv, checkNamespaceQuota_of_ge hq h]

/-- The entry a write stores is live when it is written. -/
theorem liveCount_storeEntry (hk : makeKey ns key ∉ s.data) :
  (s.storeEntry now ns key value ttl sz).liveCount now ns = s.liveCount now ns + 1
  := by
  have hlive : (⟨ns, key, value, if ttl > 0 then some (now + ttl) else none, sz,
      (s.lru.pushFront (makeKey ns key)).2⟩ : Entry).live now = true := by
    unfold Entry.live
    split_ifs with h <;> simp [h]
  simp only [liveCount, storeEntry, AList.insert_entries,
    List.kerase_of_not_mem_keys (AList.mem_keys.not.mp hk), List.filter_cons, hlive]
  simp

theorem mem_storeEntry :
  k ∈ (s.storeEntry now ns key value ttl sz).data ↔ k = makeKey ns key ∨ k ∈ s.data
  := AList.mem_insert _

theorem storeEntry_lookup_of_mem {e : Entry} (hk : makeKey ns key ∉ s.data)
    (he : s.data.lookup k = some e) :
  (s.storeEntry now ns key value ttl sz).data.lookup k = some e
  := by
  rw [storeEntry, AList.lookup_insert_ne (by rintro rfl; exact hk (AList.mem_keys.mp (mem_of_lookup he)))]
  exact he

theorem makeKey_right_inj {key' : String} (h : makeKey ns key = makeKey ns key') :
  key = key'
  := by
  have hd := congrArg String.data h
  simp only [makeKey, String.data_append, List.append_assoc, List.append_cancel_left_eq] at hd
  exact String.ext hd

/-- `Keys` lists a key whose entry is live. -/
theorem mem_keys_of_lookup {e : Entry} (he : s.data.lookup (makeKey ns key) = some e)
    (hns : e.«namespace» = ns) (hkey : e.key = key) (hlive : e.live now = true) :
  key ∈ s.keys now ns
  := List.mem_map.mpr ⟨⟨_, e⟩, List.mem_filter.mpr ⟨AList.mem_lookup_iff.mp he, by simp [hns, hlive]⟩,
    hkey⟩

end MemoryStore

open MemoryStore

/-- The sum of the accounted sizes of a run's writes. -/
theorem sum_entrySize_nonneg (ns : String) (ks : List String) (value : List UInt8) :
  0 ≤ (ks.map fun k => entrySize ns k value).sum
  := List.sum_nonneg fun _ hx => by
    obtain ⟨_, -, rfl⟩ := List.mem_map.mp hx
    exact (entrySize_pos _ _ _).le

/-! ### Counters past the quota -/

/-- `IncrementRateLimit` never consults the quota: from any store, calls at one time for distinct
partners without a counter, whose counters fit without eviction, each add a live counter. -/
theorem liveCount_run_incrementRateLimit {s : MemoryStore} {now ttl : Int} {ps : List String}
    (hnd : ps.Nodup) (hne : ∀ p ∈ ps, p ≠ "")
    (hfresh : ∀ p ∈ ps, makeKey namespaceRateLimits p ∉ s.data)
    (hfit : s.currentBytes + (ps.map fun p => entrySize namespaceRateLimits p (goBytes "1")).sum ≤
      s.maxBytes) :
  (run s (ps.map fun p => (now, .incrementRateLimit p ttl))).liveCount now namespaceRateLimits =
    s.liveCount now namespaceRateLimits + ps.length
  := by
  induction ps generalizing s with
  | nil => rfl
  | cons p ps ih =>
    rw [List.nodup_cons] at hnd
    rw [List.map_cons, List.sum_cons] at hfit
    have hp := hfresh p (List.mem_cons_self _ _)
    have hsz := sum_entrySize_nonneg namespaceRateLimits ps (goBytes "1")
    rw [List.map_cons, run_cons]
    dsimp only [Op.apply]
    rw [incrementRateLimit_of_fresh (hne p (List.mem_cons_self _ _)) hp (by omega),
      ih hnd.2 (fun q hq => hne q (List.mem_cons_of_mem _ hq))
        (fun q hq hmem => (mem_storeEntry.mp hmem).elim
          (fun he => hnd.1 (by rwa [← makeKey_right_inj he]))
          (hfresh q (List.mem_cons_of_mem _ hq)))
        (by simp only [storeEntry]; omega),
      liveCount_storeEntry hp, List.length_cons]
    omega

/-- The six hexadecimal digits of the three low bytes of `i`: `000000`, `000001`, and so on. -/
def hexId (i : Nat) : String :=
  encodeToString [UInt8.ofNat (i / 65536), UInt8.ofNat (i / 256), UInt8.ofNat i]

theorem hexId_inj {i j : Nat} (hi : i < 2 ^ 24) (hj : j < 2 ^ 24) (h : hexId i = hexId j) :
  i = j
  := by
  have h := encodeToString_inj h
  simp only [List.cons.injEq, and_true] at h
  obtain ⟨h1, h2, h3⟩ := h
  have e1 : i / 65536 % 256 = j / 65536 % 256 := congrArg UInt8.toNat h1
  have e2 : i / 256 % 256 = j / 256 % 256 := congrArg UInt8.toNat h2
  have e3 : i % 256 = j % 256 := congrArg UInt8.toNat h3
  omega

theorem utf8ByteSize_hexId (i : Nat) :
  (hexId i).utf8ByteSize = 6
  := utf8ByteSize_encodeToString _

theorem entrySize_hexId (ns : String) (i : Nat) (value : List UInt8) :
  entrySize ns (hexId i) value = ns.utf8ByteSize + 7 + value.length + 64
  := by
  simp only [entrySize, makeKey, utf8ByteSize_append, utf8ByteSize_hexId]
  have : ":".utf8ByteSize = 1 := rfl
  omega

theorem hexId_ne_empty (i : Nat) :
  hexId i ≠ ""
  := fun h => absurd (h ▸ utf8ByteSize_hexId i) (by decide)

/-- A run of `100001` calls `IncrementRateLimit(p, 1 min)` at time 0 on a new store, one per
partner id `000000` to `0186a0`, leaves `100001` live counters in `rate_limits`, whose quota is
`100000`. -/
theorem incrementRateLimit_exceeds_quota :
  namespaceQuotas namespaceRateLimits = some 100000 ∧
    (run newMemoryStore ((List.range 100001).map fun i =>
      (0, .incrementRateLimit (hexId i) (60 * 10 ^ 9)))).liveCount 0 namespaceRateLimits = 100001
  := by
  refine ⟨by decide, ?_⟩
  have hmap : (List.range 100001).map (fun i => ((0 : Int), Op.incrementRateLimit (hexId i) (60 * 10 ^ 9))) =
      ((List.range 100001).map hexId).map fun p => (0, .incrementRateLimit p (60 * 10 ^ 9)) := by
    rw [List.map_map]; rfl
  have hsum : (((List.range 100001).map hexId).map fun p =>
      entrySize namespaceRateLimits p (goBytes "1")).sum = 100001 * 83 := by
    rw [List.sum_eq_card_nsmul _ 83 fun x hx => by
      obtain ⟨_, hp, rfl⟩ := List.mem_map.mp hx
      obtain ⟨i, -, rfl⟩ := List.mem_map.mp hp
      rw [entrySize_hexId]; rfl]
    simp
  rw [hmap, liveCount_run_incrementRateLimit
    ((List.nodup_range _).map_on fun i hi j hj => hexId_inj
      (by simp at hi; omega) (by simp at hj; omega))
    (fun p hp => by obtain ⟨i, -, rfl⟩ := List.mem_map.mp hp; exact hexId_ne_empty i)
    (fun p _ => AList.not_mem_empty _) (by rw [hsum]; decide)]
  simp
  rfl

/-! ### An overwrite in a full namespace -/

/-- `Set` calls at one time for distinct keys without an entry, each valid and fitting without
eviction, while the namespace has room for them all: each stores its entry, adding one live entry
to the namespace and keeping every entry the store had. -/
theorem run_set_of_fresh {s : MemoryStore} {now ttl : Int} {ns : String} {value : List UInt8}
    {ks : List String} (hnd : ks.Nodup) (hv : ∀ k ∈ ks, s.validate ns k value = .ok ())
    (hfresh : ∀ k ∈ ks, makeKey ns k ∉ s.data)
    (hfit : s.currentBytes + (ks.map fun k => entrySize ns k value).sum ≤ s.maxBytes)
    (hroom : ∀ q, namespaceQuotas ns = some q → (s.liveCount now ns + ks.length : Int) ≤ q) :
  let s' := run s (ks.map fun k => (now, .set ns k value ttl))
  s'.liveCount now ns = s.liveCount now ns + ks.length ∧ s'.validate = s.validate ∧
    ∀ {k e}, s.data.lookup k = some e → s'.data.lookup k = some e
  := by
  induction ks generalizing s with
  | nil => exact ⟨rfl, rfl, id⟩
  | cons k ks ih =>
    rw [List.nodup_cons] at hnd
    rw [List.map_cons, List.sum_cons] at hfit
    have hk := hfresh k (List.mem_cons_self _ _)
    have hsz := sum_entrySize_nonneg ns ks value
    have hq : s.checkNamespaceQuota now ns = .ok () := checkNamespaceQuota_of_lt fun q h => by
      have := hroom q h
      simp only [List.length_cons, Nat.cast_add, Nat.cast_one] at this
      omega
    dsimp only
    rw [List.map_cons, run_cons]
    dsimp only [Op.apply]
    rw [set_of_fresh (hv k (List.mem_cons_self _ _)) hq hk (by omega)]
    obtain ⟨h1, h2, h3⟩ := @ih (s.storeEntry now ns k value ttl (entrySize ns k value)) hnd.2
      (fun k' hk' => hv k' (List.mem_cons_of_mem _ hk'))
      (fun k' hk' hmem => (mem_storeEntry.mp hmem).elim
        (fun he => hnd.1 (by rwa [← makeKey_right_inj he]))
        (hfresh k' (List.mem_cons_of_mem _ hk')))
      (by simp only [storeEntry]; omega)
      (fun q h => by
        have := hroom q h
        rw [liveCount_storeEntry hk]
        simp only [List.length_cons, Nat.cast_add, Nat.cast_one] at this ⊢
        omega)
    refine ⟨by rw [h1, liveCount_storeEntry hk, List.length_cons]; omega, h2,
      fun he => h3 (storeEntry_lookup_of_mem hk he)⟩

/-- `SetLedgerIndex(7)` at time 0 on a new store, then `Set("system", k, "7", 0)` for the 127 keys
`000000` to `00007e`: the `system` namespace holds its 128 keys, `ledger_index` among them, and
`SetLedgerIndex(8)`, which only overwrites that live key, fails with `ErrNamespaceQuota`. -/
theorem setLedgerIndex_full_namespace :
  (let s := run (newMemoryStore.setLedgerIndex 0 7).1
      (((List.range 127).map hexId).map fun k => (0, .set namespaceSystem k (formatUint 7) 0));
    (s.get 0 namespaceSystem "ledger_index").2 = some (formatUint 7) ∧
      "ledger_index" ∈ s.keys 0 namespaceSystem ∧
      namespaceQuotas namespaceSystem = some 128 ∧ s.liveCount 0 namespaceSystem = 128 ∧
      (s.setLedgerIndex 0 8).2 = .error .errNamespaceQuota)
  := by
  -- the first write, evaluated
  have he : (newMemoryStore.setLedgerIndex 0 7).1.data.lookup (makeKey namespaceSystem "ledger_index") =
      some ⟨namespaceSystem, "ledger_index", formatUint 7, none, 84, 0⟩ := by decide
  have hkeys : (newMemoryStore.setLedgerIndex 0 7).1.data.keys =
      [makeKey namespaceSystem "ledger_index"] := by decide
  obtain ⟨hmk, hmv, hmb, hcur, hlive⟩ : (newMemoryStore.setLedgerIndex 0 7).1.maxKeyLength = 256 ∧
      (newMemoryStore.setLedgerIndex 0 7).1.maxValueSize = 1048576 ∧
      (newMemoryStore.setLedgerIndex 0 7).1.maxBytes = 512 * 1024 * 1024 ∧
      (newMemoryStore.setLedgerIndex 0 7).1.currentBytes = 84 ∧
      (newMemoryStore.setLedgerIndex 0 7).1.liveCount 0 namespaceSystem = 1 := by
    decide
  have hsum : (((List.range 127).map hexId).map fun k => entrySize namespaceSystem k (formatUint 7)).sum =
      127 * 78 := by
    rw [List.sum_eq_card_nsmul _ 78 fun x hx => by
      obtain ⟨_, hp, rfl⟩ := List.mem_map.mp hx
      obtain ⟨i, -, rfl⟩ := List.mem_map.mp hp
      rw [entrySize_hexId]; rfl]
    simp
  -- the 127 writes
  obtain ⟨hcount, hval, hlook⟩ := @run_set_of_fresh (newMemoryStore.setLedgerIndex 0 7).1 0 0
    namespaceSystem (formatUint 7) ((List.range 127).map hexId)
    ((List.nodup_range _).map_on fun i hi j hj => hexId_inj
      (by simp at hi; omega) (by simp at hj; omega))
    (fun k hk => by
      obtain ⟨i, -, rfl⟩ := List.mem_map.mp hk
      simp only [validate, hexId_ne_empty, utf8ByteSize_hexId, hmk, hmv, if_false]
      decide)
    (fun k hk hmem => by
      obtain ⟨i, -, rfl⟩ := List.mem_map.mp hk
      have : makeKey namespaceSystem (hexId i) ∈ (newMemoryStore.setLedgerIndex 0 7).1.data.keys :=
        AList.mem_keys.mpr hmem
      rw [hkeys, List.mem_singleton] at this
      exact absurd (congrArg String.utf8ByteSize (makeKey_right_inj this))
        (by rw [utf8ByteSize_hexId]; decide))
    (by rw [hsum, hmb, hcur]; norm_num)
    (fun q hq => by cases hq; simp [hlive])
  intro s
  have hs := hlook he
  have hc : s.liveCount 0 namespaceSystem = 128 := by
    rw [hcount, hlive]; simp
  refine ⟨?_, mem_keys_of_lookup hs rfl rfl rfl, rfl, hc, ?_⟩
  · rw [get_snd, hs]; rfl
  · have hv : s.validate namespaceSystem "ledger_index" (formatUint (UInt32.toNat 8)) = .ok () := by
      rw [hval]; decide
    show (s.set 0 namespaceSystem "ledger_index" (formatUint (UInt32.toNat 8)) 0).2 = _
    rw [set_of_full hv (rfl : namespaceQuotas namespaceSystem = some 128) (by rw [hc]; decide)]

/-! ### What the quota bounds -/

namespace MemoryStore

variable {s s' : MemoryStore} {now τ : Int} {ns : String}

/-- Entries only leave the live count as time passes. -/
theorem liveCount_antitone {t t' : Int} (h : t ≤ t') :
  s.liveCount t' ns ≤ s.liveCount t ns
  := by
  refine (List.monotone_filter_right _ fun x hx => ?_).length_le
  simp only [decide_eq_true_eq] at hx ⊢
  refine ⟨hx.1, ?_⟩
  have := hx.2
  unfold Entry.live at this ⊢
  split at this <;> simp_all only [decide_eq_true_eq]
  omega

/-- A store whose counted entries all come from `s` counts no more than `s`. -/
theorem liveCount_le_of_lookup
    (h : ∀ k e, s'.data.lookup k = some e → e.«namespace» = ns → e.live now = true →
      s.data.lookup k = some e) :
  s'.liveCount now ns ≤ s.liveCount now ns
  := by
  refine ((s'.data.nodupKeys.nodup.filter _).subperm fun ⟨k, e⟩ hx => ?_).length_le
  obtain ⟨hmem, hp⟩ := List.mem_filter.mp hx
  simp only [decide_eq_true_eq] at hp
  exact List.mem_filter.mpr ⟨AList.mem_lookup_iff.mp (h k e (AList.mem_lookup_iff.mpr hmem) hp.1 hp.2),
    by simpa using hp⟩

/-- A store whose entries come from `s`, but for the one of a full key `K`, counts at most one
more than `s`. -/
theorem liveCount_le_succ_of_lookup {K : String}
    (h : ∀ k e, s'.data.lookup k = some e → s.data.lookup k = some e ∨ k = K) :
  s'.liveCount now ns ≤ s.liveCount now ns + 1
  := by
  set A := s'.data.entries.filter fun x => x.2.«namespace» = ns ∧ x.2.live now
  have hsub : A ⊆ (s.data.entries.filter fun x => x.2.«namespace» = ns ∧ x.2.live now) ++
      A.filter (·.1 = K) := fun ⟨k, e⟩ hx => by
    obtain ⟨hmem, hp⟩ := List.mem_filter.mp hx
    rcases h k e (AList.mem_lookup_iff.mpr hmem) with hs | rfl
    · exact List.mem_append_left _ (List.mem_filter.mpr ⟨AList.mem_lookup_iff.mp hs, hp⟩)
    · exact List.mem_append_right _ (List.mem_filter.mpr ⟨hx, by simp⟩)
  have hK : (A.filter (·.1 = K)).length ≤ 1 := by
    have hnd : (A.filter (·.1 = K)).NodupKeys :=
      s'.data.nodupKeys.sublist ((List.filter_sublist _).trans (List.filter_sublist _))
    have hle := (@List.Nodup.subperm _ _ [K] hnd fun k hk => by
      obtain ⟨x, hx, rfl⟩ := List.mem_map.mp hk
      simpa using (List.mem_filter.mp hx).2).length_le
    simpa [List.keys] using hle
  have := ((s'.data.nodupKeys.nodup.filter _).subperm hsub).length_le
  rw [List.length_append] at this
  exact le_trans this (Nat.add_le_add_left hK _)

theorem namespaceQuotas_nonneg {q : Int} (hq : namespaceQuotas ns = some q) :
  0 ≤ q
  := by
  unfold namespaceQuotas at hq
  split_ifs at hq <;> cases hq <;> decide

/-- A `Set` leaves the store as it was, or passes the quota check and writes through
`setLocked`. -/
theorem set_fst_cases {key : String} {value : List UInt8} {ttl : Int} :
  (s.set now ns key value ttl).1 = s ∨
    (s.checkNamespaceQuota now ns = .ok () ∧
      (s.set now ns key value ttl).1 = (s.setLocked now ns key value ttl).1)
  := by
  unfold set
  split
  · exact .inl rfl
  split
  · exact .inl rfl
  rename_i hq
  exact .inr ⟨hq, rfl⟩

/-- A call that writes into no namespace, or into another, never raises the count of `ns`. -/
theorem liveCount_apply_le {o : Op} (h : o.writeNamespace ≠ some ns) :
  (o.apply now s).liveCount τ ns ≤ s.liveCount τ ns
  := liveCount_le_of_lookup fun _ _ he hns _ =>
    (Op.lookup_apply he).resolve_right fun hnew => h (hns ▸ hnew.2.1)

/-- A call at `now` keeps `ns` within its quota `q` at every time from `max T now` on, when it
was from `T` on, unless it is an `IncrementRateLimit` and `ns` is `rate_limits`. -/
theorem liveCount_apply_le_quota {o : Op} {q T : Int} (hq : namespaceQuotas ns = some q)
    (hrl : ∀ p ttl, o = .incrementRateLimit p ttl → ns ≠ namespaceRateLimits)
    (h : ∀ τ, T ≤ τ → (s.liveCount τ ns : Int) ≤ q) :
  ∀ τ, max T now ≤ τ → ((o.apply now s).liveCount τ ns : Int) ≤ q
  := by
  intro τ hτ
  have hT : T ≤ τ := le_trans (le_max_left _ _) hτ
  by_cases hw : o.writeNamespace = some ns
  · cases o with
    | set ns' key value ttl =>
      obtain rfl : ns' = ns := Option.some.inj hw
      rcases @set_fst_cases s now ns' key value ttl with heq | ⟨hc, -⟩
      · rw [Op.apply, heq]
        exact h τ hT
      -- the check passed, and the call adds at most the entry of its own full key
      have hlt : (s.liveCount now ns' : Int) < q := by
        simp only [checkNamespaceQuota, hq] at hc
        split_ifs at hc with hge
        exact not_le.mp hge
      have hle : ((Op.set ns' key value ttl).apply now s).liveCount now ns' ≤ s.liveCount now ns' + 1 :=
        liveCount_le_succ_of_lookup fun _ _ he =>
          (Op.lookup_apply he).imp id fun hnew => (Option.some.inj hnew.1).symm
      have hlater : ((Op.set ns' key value ttl).apply now s).liveCount τ ns' ≤
          ((Op.set ns' key value ttl).apply now s).liveCount now ns' :=
        liveCount_antitone (le_trans (le_max_right _ _) hτ)
      omega
    | incrementRateLimit p ttl => exact absurd (Option.some.inj hw).symm (hrl p ttl rfl)
    | get _ _ | delete _ _ | cleanup => cases hw
  · exact le_trans (Nat.cast_le.mpr (liveCount_apply_le hw)) (h τ hT)

theorem liveCount_run_le_quota {q : Int} (hq : namespaceQuotas ns = some q) :
    ∀ {s : MemoryStore} {T t : Int} {ops : List (Int × Op)},
      (∀ p ttl, ∀ o ∈ ops, o.2 = .incrementRateLimit p ttl → ns ≠ namespaceRateLimits) →
      (∀ τ, T ≤ τ → (s.liveCount τ ns : Int) ≤ q) → T ≤ t → (∀ o ∈ ops, o.1 ≤ t) →
      ((run s ops).liveCount t ns : Int) ≤ q
  | _, _, _, [], _, h, hT, _ => h _ hT
  | _, _, _, (_, _) :: _, hrl, h, hT, ht => by
    rw [run_cons]
    exact liveCount_run_le_quota hq (fun p ttl o' ho' => hrl p ttl o' (List.mem_cons_of_mem _ ho'))
      (liveCount_apply_le_quota hq (fun p ttl ho => hrl p ttl _ (List.mem_cons_self _ _) ho) h)
      (max_le hT (ht _ (List.mem_cons_self _ _))) fun o' ho' => ht o' (List.mem_cons_of_mem _ ho')

end MemoryStore

/-- On every run of calls from a new store, at every time `t` no call of the run has passed,
each namespace with a quota holds at most its quota of live entries, as long as no
`IncrementRateLimit` of the run writes into it: `Set` checks the quota before it writes, every
other call only removes entries, and `IncrementRateLimit`, which writes into `rate_limits`, is
the one call that writes without the check. -/
theorem quota_holds_without_incrementRateLimit (maxBytes maxKeyLength maxValueSize : Int)
    (ops : List (Int × Op)) {ns : String} {q t : Int} (hq : namespaceQuotas ns = some q)
    (hrl : ∀ p ttl, ∀ o ∈ ops, o.2 = .incrementRateLimit p ttl → ns ≠ namespaceRateLimits)
    (ht : ∀ o ∈ ops, o.1 ≤ t) :
  ((run (newMemoryStoreWithConfig maxBytes maxKeyLength maxValueSize) ops).liveCount t ns : Int) ≤ q
  := MemoryStore.liveCount_run_le_quota hq hrl
    (fun _ _ => by simpa [MemoryStore.liveCount, newMemoryStoreWithConfig] using
      MemoryStore.namespaceQuotas_nonneg hq) (le_refl t) ht

/-- Two quotes, a rate-limit counter and a delete, observed at 5 s. -/
theorem quota_holds_without_incrementRateLimit_quotes :
  namespaceQuotas namespaceQuotes = some 10000 ∧
    (∀ o ∈ [(0, Op.set namespaceQuotes "a" (goBytes "v") 0), (1, .incrementRateLimit "p" 60),
      (2, .set namespaceQuotes "b" (goBytes "w") 0), (3, .delete namespaceQuotes "a")],
      o.1 ≤ (5 : Int)) ∧
    ((run newMemoryStore [(0, .set namespaceQuotes "a" (goBytes "v") 0), (1, .incrementRateLimit "p" 60),
      (2, .set namespaceQuotes "b" (goBytes "w") 0), (3, .delete namespaceQuotes "a")]).liveCount 5
        namespaceQuotes : Int) ≤ 10000
  := ⟨rfl, by decide, quota_holds_without_incrementRateLimit _ _ _ _ rfl
    (fun _ _ _ _ _ => by decide) (by decide)⟩

end Lucendex.Kv
