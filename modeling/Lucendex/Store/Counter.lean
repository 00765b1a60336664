import Lucendex.Store.Quota

/-!
# The in-memory store: a partner's counter over a run

`IncrementRateLimit(p, ttl)` is meant to keep one sliding counter per partner.  `Counter` is that
counter: the count the last successful call returned and when it expires.  `Counter.next` is the
count a call finds it should return, `1` after the expiry and the old count plus one (as an
`int64`) before it, and `Counter.follows` checks a list of results against it.

The store keeps the counter as the entry `rate_limits:p`, written with `FormatInt` and read with
`ParseInt`, among the entries of every other caller, behind the eviction loop of `setLocked` and
the expiry purge of `cleanup`.  `HoldsCounter` relates the two, and `rateLimitResults_follow`
says the store refines the counter: in every run with a non-decreasing clock that evicts nothing
(`Stats().Evictions` is the same at its end as at its start) and in which only
`IncrementRateLimit(p, ttl)` calls name the full key `rate_limits:p`, the results of the calls of
`p` are those of the sliding counter, whatever other calls come between them.  Calls that fail
leave the counter as it was.

The frame lemma behind it, `Op.liveEntry_apply`, says a call that evicts nothing leaves the live
entry of every full key but its own as it was, for every later clock reading.
-/

namespace Lucendex.Kv

open Lucendex.Go

namespace MemoryStore

variable {s : MemoryStore} {k : String}

/-! ### Calls that evict nothing -/

/-- The eviction loop either changes nothing or counts an eviction. -/
theorem evictLoop_eq_or_evicts (sz : Int) :
    ∀ (n : Nat) (s : MemoryStore),
      (evictLoop sz n s).1 = s ∨ s.evictions < (evictLoop sz n s).1.evictions
  | 0, _ => .inl rfl
  | n + 1, s => by
    simp only [evictLoop]
    split
    · split
      · exact .inl rfl
      · rename_i s' hs'
        obtain ⟨_, _, _, -, -, rfl⟩ := evictOldest_eq_some hs'
        refine .inr ?_
        rcases evictLoop_eq_or_evicts sz n _ with h | h
        · rw [h]
          exact Int.lt_succ _
        · exact (Int.lt_succ _).trans h
    · exact .inl rfl

theorem evictLoop_evictions_le (sz : Int) (n : Nat) (s : MemoryStore) :
    s.evictions ≤ (evictLoop sz n s).1.evictions := by
  rcases evictLoop_eq_or_evicts sz n s with h | h
  · rw [h]
  · exact h.le

@[simp]
theorem releaseExisting_evictions (s : MemoryStore) (k : String) :
    (s.releaseExisting k).evictions = s.evictions := by
  unfold releaseExisting; split <;> rfl

/-- The eviction loop of `setLocked` and whether it ended in a fit, when it counted nothing. -/
theorem setLocked_evictLoop {now ttl : Int} {ns key : String} {value : List UInt8}
    (hev : (s.setLocked now ns key value ttl).1.evictions ≤ s.evictions) :
    (evictLoop (entrySize ns key value) (s.releaseExisting (makeKey ns key)).data.keys.length
      (s.releaseExisting (makeKey ns key))).1 = s.releaseExisting (makeKey ns key) := by
  dsimp only [setLocked] at hev
  rcases evictLoop_eq_or_evicts (entrySize ns key value)
    (s.releaseExisting (makeKey ns key)).data.keys.length (s.releaseExisting (makeKey ns key))
    with h | h
  · exact h
  · rw [releaseExisting_evictions] at h
    split at hev <;> (dsimp only [storeEntry] at hev; omega)

theorem setLocked_evictions_le {now ttl : Int} {ns key : String} {value : List UInt8} :
    s.evictions ≤ (s.setLocked now ns key value ttl).1.evictions := by
  have h := evictLoop_evictions_le (entrySize ns key value)
    (s.releaseExisting (makeKey ns key)).data.keys.length (s.releaseExisting (makeKey ns key))
  rw [releaseExisting_evictions] at h
  dsimp only [setLocked]
  split <;> exact h

/-- A `setLocked` that evicts nothing changes the entry of no other full key. -/
theorem setLocked_lookup_of_ne' {now ttl : Int} {ns key : String} {value : List UInt8}
    (hk : makeKey ns key ≠ k) (hev : (s.setLocked now ns key value ttl).1.evictions ≤ s.evictions) :
    (s.setLocked now ns key value ttl).1.data.lookup k = s.data.lookup k := by
  have hl := setLocked_evictLoop hev
  dsimp only [setLocked]
  split
  · rw [storeEntry, AList.lookup_insert_ne (Ne.symm hk), hl, releaseExisting_data]
  · rw [hl, releaseExisting_data]

/-- A `setLocked` that fails without evicting leaves the entries as they were. -/
theorem setLocked_data_of_error {now ttl : Int} {ns key : String} {value : List UInt8}
    (hev : (s.setLocked now ns key value ttl).1.evictions ≤ s.evictions)
    (herr : (s.setLocked now ns key value ttl).2 ≠ .ok ()) :
    (s.setLocked now ns key value ttl).1.data = s.data := by
  have hl := setLocked_evictLoop hev
  dsimp only [setLocked] at herr ⊢
  split
  · rename_i hfit
    rw [if_pos hfit] at herr
    exact absurd rfl herr
  · rw [hl, releaseExisting_data]

/-- The entry of the full key `k` as a call at time `now` finds it: `none` when it is missing or
has expired. -/
def liveEntry (s : MemoryStore) (k : String) (now : Int) : Option Entry :=
  (s.data.lookup k).filter fun e => !e.expired now

/-- An expired entry stays expired. -/
theorem Entry.expired_mono {e : Entry} {now t : Int} (h : e.expired now = true) (ht : now ≤ t) :
    e.expired t = true := by
  obtain ⟨_, _, _, _ | x, _, _⟩ := e
  · cases h
  · simp only [Entry.expired, decide_eq_true_eq] at h ⊢
    omega

/-- What a call finds at `t` is what one at an earlier `now` found, less what expired since. -/
theorem liveEntry_mono {now t : Int} (ht : now ≤ t) :
    s.liveEntry k t = (s.liveEntry k now).filter fun e => !e.expired t := by
  unfold liveEntry
  cases s.data.lookup k with
  | none => rfl
  | some e =>
    by_cases h : e.expired now
    · simp [Option.filter, h, Entry.expired_mono h ht]
    · simp [Option.filter, h]

/-! ### Each call -/

@[simp]
theorem get_evictions (now : Int) (ns key : String) : (s.get now ns key).1.evictions = s.evictions := by
  unfold MemoryStore.get
  repeat' split
  all_goals rfl

@[simp]
theorem delete_evictions (ns key : String) : (s.delete ns key).1.evictions = s.evictions := by
  unfold MemoryStore.delete
  repeat' split
  all_goals rfl

theorem set_evictions_le {now ttl : Int} {ns key : String} {value : List UInt8} :
    s.evictions ≤ (s.set now ns key value ttl).1.evictions := by
  unfold MemoryStore.set
  repeat' split
  all_goals first | exact le_rfl | exact setLocked_evictions_le

theorem incrementRateLimit_evictions_le {now ttl : Int} {p : String} :
    s.evictions ≤ (s.incrementRateLimit now p ttl).1.evictions := by
  unfold incrementRateLimit
  dsimp only
  repeat' split
  all_goals dsimp only
  · exact le_rfl
  · exact setLocked_evictions_le
  · exact (setLocked_evictions_le : (s.deleteEntryLocked _ _).evictions ≤ _)
  · exact le_rfl
  · exact setLocked_evictions_le

@[simp]
theorem cleanup_evictions (now : Int) : (s.cleanup now).evictions = s.evictions := by
  unfold cleanup
  generalize (s.data.entries.filter fun x => x.2.expired now).map (·.1) = ks
  induction ks generalizing s with
  | nil => rfl
  | cons k ks ih =>
    rw [List.foldl_cons, ih]
    unfold cleanupOne
    split <;> rfl

/-! ### What a call leaves of other keys -/

variable {now ttl : Int} {ns key p : String} {value : List UInt8}

/-- `setLocked` leaves the entry of another full key, or counts an eviction. -/
theorem setLocked_lookup_or_evicts (hk : makeKey ns key ≠ k) :
    (s.setLocked now ns key value ttl).1.data.lookup k = s.data.lookup k ∨
      s.evictions < (s.setLocked now ns key value ttl).1.evictions := by
  by_cases hev : (s.setLocked now ns key value ttl).1.evictions ≤ s.evictions
  · exact .inl (setLocked_lookup_of_ne' hk hev)
  · exact .inr (lt_of_not_le hev)

theorem get_lookup_of_ne (hk : makeKey ns key ≠ k) :
    (s.get now ns key).1.data.lookup k = s.data.lookup k := by
  unfold MemoryStore.get
  repeat' split
  all_goals first | rfl | exact AList.lookup_erase_ne (Ne.symm hk)

theorem delete_lookup_of_ne (hk : makeKey ns key ≠ k) :
    (s.delete ns key).1.data.lookup k = s.data.lookup k := by
  unfold MemoryStore.delete
  repeat' split
  all_goals first | rfl | exact AList.lookup_erase_ne (Ne.symm hk)

theorem set_lookup_or_evicts (hk : makeKey ns key ≠ k) :
    (s.set now ns key value ttl).1.data.lookup k = s.data.lookup k ∨
      s.evictions < (s.set now ns key value ttl).1.evictions := by
  unfold MemoryStore.set
  repeat' split
  all_goals first | exact .inl rfl | exact setLocked_lookup_or_evicts hk

theorem incrementRateLimit_lookup_or_evicts (hk : makeKey namespaceRateLimits p ≠ k) :
    (s.incrementRateLimit now p ttl).1.data.lookup k = s.data.lookup k ∨
      s.evictions < (s.incrementRateLimit now p ttl).1.evictions := by
  unfold incrementRateLimit
  dsimp only
  repeat' split
  all_goals dsimp only
  · exact .inl rfl
  · exact setLocked_lookup_or_evicts hk
  · exact (@setLocked_lookup_or_evicts (s.deleteEntryLocked _ _) k now ttl _ _ _ hk).imp
      (fun h => h.trans (AList.lookup_erase_ne (Ne.symm hk))) id
  · exact .inl rfl
  · exact setLocked_lookup_or_evicts hk

end MemoryStore

open MemoryStore

/-- No call counts down the evictions. -/
theorem Op.evictions_le_apply (now : Int) (s : MemoryStore) (o : Op) :
    s.evictions ≤ (o.apply now s).evictions := by
  cases o with
  | get ns key => exact (get_evictions now ns key).ge
  | set ns key value ttl => exact set_evictions_le
  | delete ns key => exact (delete_evictions ns key).ge
  | incrementRateLimit p ttl => exact incrementRateLimit_evictions_le
  | cleanup => exact (cleanup_evictions now).ge

theorem run_evictions_le (s : MemoryStore) (ops : List (Int × Op)) :
    s.evictions ≤ (run s ops).evictions := by
  induction ops generalizing s with
  | nil => exact le_rfl
  | cons o ops ih => exact (Op.evictions_le_apply o.1 s o.2).trans (ih _)

/-- A run that evicts nothing is a first call that evicts nothing and a rest that evicts
nothing. -/
theorem run_cons_evictions {s : MemoryStore} {o : Int × Op} {ops : List (Int × Op)}
    (hev : (run s (o :: ops)).evictions ≤ s.evictions) :
    (o.2.apply o.1 s).evictions ≤ s.evictions ∧
      (run (o.2.apply o.1 s) ops).evictions ≤ (o.2.apply o.1 s).evictions := by
  have h₁ := Op.evictions_le_apply o.1 s o.2
  have h₂ := run_evictions_le (o.2.apply o.1 s) ops
  rw [run_cons] at hev
  omega

/-- A call that evicts nothing leaves the live entry of every full key but its own: a call at any
later `t` finds there what it would have found before. -/
theorem Op.liveEntry_apply {s : MemoryStore} {now t : Int} {o : Op} {k : String}
    (hk : o.key ≠ some k) (hev : (o.apply now s).evictions ≤ s.evictions) (ht : now ≤ t) :
    (o.apply now s).liveEntry k t = s.liveEntry k t := by
  have hne : ∀ {k'}, o.key = some k' → k' ≠ k := fun h he => hk (he ▸ h)
  have hlookup : ∀ {s' : MemoryStore}, s'.data.lookup k = s.data.lookup k ∨ s.evictions < s'.evictions →
      s'.evictions ≤ s.evictions → s'.liveEntry k t = s.liveEntry k t := fun h hle => by
    rcases h with h | h
    · rw [liveEntry, liveEntry, h]
    · omega
  cases o with
  | get ns key => exact hlookup (.inl (get_lookup_of_ne (hne rfl))) hev
  | set ns key value ttl => exact hlookup (set_lookup_or_evicts (hne rfl)) hev
  | delete ns key => exact hlookup (.inl (delete_lookup_of_ne (hne rfl))) hev
  | incrementRateLimit p ttl => exact hlookup (incrementRateLimit_lookup_or_evicts (hne rfl)) hev
  | cleanup =>
    conv_rhs => rw [liveEntry_mono ht]
    rw [liveEntry, liveEntry, Op.apply, cleanup_lookup]

/-! ### The sliding counter -/

/-- A partner's counter as `IncrementRateLimit` means to keep it: the count the last successful
call returned, and when that count expires (`none` for a ttl of zero or less). -/
structure Counter where
  count : Int
  expiresAt : Option Int
  deriving DecidableEq, Repr

namespace Counter

/-- The expiry test of `IncrementRateLimit`, `now.After(expiresAt)`. -/
def expired (c : Counter) (now : Int) : Bool :=
  match c.expiresAt with
  | none => false
  | some t => t < now

/-- The count a call at `now` returns when it finds the counter `c`: `1` for a missing or expired
counter, and otherwise the count plus one, as an `int64`. -/
def next (c : Option Counter) (now : Int) : Int :=
  match c with
  | some c => if c.expired now then 1 else wrapInt64 (c.count + 1)
  | none => 1

/-- The counter a successful call at `now` with `ttl` leaves. -/
def after (c : Option Counter) (now ttl : Int) : Counter :=
  ⟨next c now, if ttl > 0 then some (now + ttl) else none⟩

/-- Whether a partner's results, each with its clock reading and its ttl, are those of the sliding
counter started at `c`: each success returns `next` of the counter the last success left, and a
failure leaves the counter as it was. -/
def follows : Option Counter → List (Int × Int × Except KvError Int) → Bool
  | _, [] => true
  | c, (now, ttl, .ok n) :: rs => n = next c now && follows (some (after c now ttl)) rs
  | c, (_, _, .error _) :: rs => follows c rs

theorem expired_mono {c : Counter} {now t : Int} (h : c.expired now = true) (ht : now ≤ t) :
    c.expired t = true := by
  obtain ⟨_, _ | x⟩ := c
  · cases h
  · simp only [expired, decide_eq_true_eq] at h ⊢
    omega

end Counter

/-- `Entry.expired` and `Counter.expired` are one test of the expiry. -/
theorem Entry.expired_eq {e : Entry} {c : Counter} (h : e.expiresAt = c.expiresAt) (now : Int) :
    e.expired now = c.expired now := by
  obtain ⟨_, _ | t⟩ := c <;> simp only [Entry.expired, Counter.expired, h]

/-- The calls `IncrementRateLimit(p, ttl)` of a run, each with its clock reading, its ttl and what
it returned. -/
def rateLimitResults (p : String) :
    MemoryStore → List (Int × Op) → List (Int × Int × Except KvError Int)
  | _, [] => []
  | s, (now, o) :: ops =>
    match o with
    | .incrementRateLimit p' ttl =>
      if p' = p then
        (now, ttl, (s.incrementRateLimit now p ttl).2) :: rateLimitResults p (o.apply now s) ops
      else rateLimitResults p (o.apply now s) ops
    | _ => rateLimitResults p (o.apply now s) ops

theorem rateLimitResults_cons_self (p : String) (s : MemoryStore) (now ttl : Int)
    (ops : List (Int × Op)) :
    rateLimitResults p s ((now, .incrementRateLimit p ttl) :: ops) =
      (now, ttl, (s.incrementRateLimit now p ttl).2) ::
        rateLimitResults p ((Op.incrementRateLimit p ttl).apply now s) ops := by
  simp [rateLimitResults]

theorem rateLimitResults_cons_other {p : String} {o : Op} (h : ∀ ttl, o ≠ .incrementRateLimit p ttl)
    (s : MemoryStore) (now : Int) (ops : List (Int × Op)) :
    rateLimitResults p s ((now, o) :: ops) = rateLimitResults p (o.apply now s) ops := by
  cases o <;> simp_all [rateLimitResults]

/-- Each result of a call of `p` comes from a call `IncrementRateLimit(p, ttl)` of the run, at its
clock reading and with its ttl. -/
theorem mem_rateLimitResults {p : String} {s : MemoryStore} {ops : List (Int × Op)}
    {r : Int × Int × Except KvError Int} (hr : r ∈ rateLimitResults p s ops) :
    (r.1, Op.incrementRateLimit p r.2.1) ∈ ops := by
  induction ops generalizing s with
  | nil => cases hr
  | cons o ops ih =>
    obtain ⟨now, o⟩ := o
    by_cases hp : ∃ ttl, o = .incrementRateLimit p ttl
    · obtain ⟨ttl, rfl⟩ := hp
      rw [rateLimitResults_cons_self] at hr
      rcases List.mem_cons.mp hr with rfl | hr
      · exact List.mem_cons_self _ _
      · exact List.mem_cons_of_mem _ (ih hr)
    · rw [rateLimitResults_cons_other fun ttl he => hp ⟨ttl, he⟩] at hr
      exact List.mem_cons_of_mem _ (ih hr)

/-- The clock readings of the results are those of some of the calls, in order. -/
theorem rateLimitResults_sublist (p : String) (s : MemoryStore) (ops : List (Int × Op)) :
    ((rateLimitResults p s ops).map Prod.fst).Sublist (ops.map Prod.fst) := by
  induction ops generalizing s with
  | nil => exact List.Sublist.slnil
  | cons o ops ih =>
    obtain ⟨now, o⟩ := o
    by_cases hp : ∃ ttl, o = .incrementRateLimit p ttl
    · obtain ⟨ttl, rfl⟩ := hp
      rw [rateLimitResults_cons_self]
      exact (ih _).cons₂ now
    · rw [rateLimitResults_cons_other fun ttl he => hp ⟨ttl, he⟩]
      exact (ih _).cons now

namespace MemoryStore

/-- The store holds the counter `c` of partner `p` for a call at `now`: the entry of
`rate_limits:p` such a call finds is the live part of `c`, written by `FormatInt` with the
counter's expiry, and the count is an `int64`. -/
def HoldsCounter (s : MemoryStore) (p : String) (now : Int) (c : Option Counter) : Prop :=
  (s.liveEntry (makeKey namespaceRateLimits p) now).map (fun e => (e.value, e.expiresAt)) =
      (c.filter fun c => !c.expired now).map (fun c => (formatInt c.count, c.expiresAt)) ∧
    ∀ c' ∈ c, -2 ^ 63 ≤ c'.count ∧ c'.count < 2 ^ 63

variable {s s' : MemoryStore} {p : String} {now t ttl : Int} {c : Option Counter}

theorem HoldsCounter.of_liveEntry (h : s.HoldsCounter p t c)
    (he : s'.liveEntry (makeKey namespaceRateLimits p) t =
      s.liveEntry (makeKey namespaceRateLimits p) t) :
    s'.HoldsCounter p t c :=
  ⟨he ▸ h.1, h.2⟩

/-- A counter held for a call at `now` is held for every later call. -/
theorem HoldsCounter.mono (h : s.HoldsCounter p now c) (ht : now ≤ t) : s.HoldsCounter p t c := by
  refine ⟨?_, h.2⟩
  have hc : (c.filter fun c => !c.expired t) =
      (c.filter fun c => !c.expired now).filter fun c => !c.expired t := by
    cases c with
    | none => rfl
    | some c =>
      by_cases hx : c.expired now
      · simp [Option.filter, hx, Counter.expired_mono hx ht]
      · simp [Option.filter, hx]
  rw [liveEntry_mono ht, hc]
  have h1 := h.1
  revert h1
  generalize s.liveEntry (makeKey namespaceRateLimits p) now = a
  generalize c.filter (fun c => !c.expired now) = b
  rcases a with _ | e <;> rcases b with _ | c' <;> intro h1 <;> simp only [Option.map] at h1
  · rfl
  · cases h1
  · cases h1
  · obtain ⟨-, hx⟩ := Prod.mk.inj (Option.some.inj h1)
    simp only [Option.filter, Entry.expired_eq hx]
    split <;> simp [h1]

/-- A call that finds no live counter entry finds the counter missing or expired. -/
theorem HoldsCounter.next_of_none (h : s.HoldsCounter p now c)
    (he : s.liveEntry (makeKey namespaceRateLimits p) now = none) :
    Counter.next c now = 1 := by
  have h1 := h.1
  rw [he] at h1
  cases c with
  | none => rfl
  | some c =>
    by_cases hx : c.expired now
    · simp [Counter.next, hx]
    · simp [Option.filter, hx] at h1

/-- A live counter entry reads back as the held count, and the call returns it plus one. -/
theorem HoldsCounter.next_of_some {e : Entry} (h : s.HoldsCounter p now c)
    (he : s.liveEntry (makeKey namespaceRateLimits p) now = some e) :
    ∃ n, parseInt e.value 64 = .ok n ∧ Counter.next c now = wrapInt64 (n + 1) := by
  have h1 := h.1
  rw [he] at h1
  cases c with
  | none => simp at h1
  | some c =>
    by_cases hx : c.expired now
    · simp [Option.filter, hx] at h1
    · simp only [Option.filter, hx, Bool.not_false, ite_true, Option.map_some', Option.some.injEq,
        Prod.mk.injEq] at h1
      obtain ⟨hlo, hhi⟩ := h.2 c rfl
      exact ⟨c.count, by rw [h1.1, parseInt_formatInt hlo hhi], by simp [Counter.next, hx]⟩

/-- What a call answers through `Except.map`, as both branches of `IncrementRateLimit` do, is the
mapped value when it succeeds. -/
theorem except_map_eq_ok {r : Except KvError Unit} {v n : Int} (h : r.map (fun _ => v) = .ok n) :
    n = v := by
  cases r <;> simp only [Except.map, reduceCtorEq, Except.ok.injEq] at h
  exact h.symm

/-- A successful call of `p` returns the held counter's next count, and leaves held the counter
that count starts. -/
theorem HoldsCounter.incrementRateLimit_ok {n : Int} (h : s.HoldsCounter p now c)
    (hr : s.incrementRateLimit now p ttl = (s', .ok n)) :
    n = Counter.next c now ∧ ∀ t, s'.HoldsCounter p t (some (Counter.after c now ttl)) := by
  have hn : n = Counter.next c now := by
    have hr' := hr
    unfold incrementRateLimit at hr'
    split at hr'
    · cases hr'
    dsimp only at hr'
    split at hr'
    · rename_i hl
      rw [h.next_of_none (by rw [liveEntry, hl]; rfl)]
      exact except_map_eq_ok (congrArg Prod.snd hr')
    · rename_i e hl
      split at hr'
      · rename_i hx
        rw [h.next_of_none (by simp [liveEntry, hl, Option.filter, hx])]
        exact except_map_eq_ok (congrArg Prod.snd hr')
      · rename_i hx
        have hle : s.liveEntry (makeKey namespaceRateLimits p) now = some e := by
          simp [liveEntry, hl, Option.filter, hx]
        obtain ⟨m, hm, hnext⟩ := h.next_of_some hle
        rw [hm] at hr'
        rw [hnext]
        exact except_map_eq_ok (congrArg Prod.snd hr')
  obtain ⟨-, hlo, hhi, e, he, hv, hexp⟩ := incrementRateLimit_eq_ok hr
  refine ⟨hn, fun t => ?_⟩
  have hx : e.expired t = (Counter.after c now ttl).expired t := Entry.expired_eq hexp t
  refine ⟨?_, fun c' hc' => ?_⟩
  swap
  · cases hc'
    show -2 ^ 63 ≤ Counter.next c now ∧ Counter.next c now < 2 ^ 63
    exact hn ▸ ⟨hlo, hhi⟩
  rw [liveEntry, he]
  simp only [Option.filter, hx]
  split <;> simp [hv, hn, hexp, Counter.after]

/-- A failed call of `p` that evicts nothing leaves the counter held, for every later call. -/
theorem HoldsCounter.incrementRateLimit_error {err : KvError} (h : s.HoldsCounter p now c)
    (hr : s.incrementRateLimit now p ttl = (s', .error err)) (hev : s'.evictions ≤ s.evictions)
    (ht : now ≤ t) :
    s'.HoldsCounter p t c := by
  have hmap : ∀ {s₀ : MemoryStore} {v : List UInt8} {m : Int},
      ((s₀.setLocked now namespaceRateLimits p v ttl).1,
        (s₀.setLocked now namespaceRateLimits p v ttl).2.map fun _ => m) = (s', .error err) →
      s'.evictions ≤ s₀.evictions → s'.data = s₀.data := fun hr hev => by
    obtain ⟨rfl, h2⟩ := Prod.mk.inj hr
    exact setLocked_data_of_error hev fun hok => by rw [hok] at h2; cases h2
  refine (h.mono ht).of_liveEntry ?_
  unfold incrementRateLimit at hr
  split at hr
  · rw [(Prod.mk.inj hr).1.symm]
  dsimp only at hr
  split at hr
  · rw [liveEntry, liveEntry, hmap hr hev]
  · rename_i e hl
    split at hr
    · rename_i hx
      rw [liveEntry, liveEntry, hmap hr hev, deleteEntryLocked_data, AList.lookup_erase, hl]
      simp [Option.filter, Entry.expired_mono hx ht]
    · split at hr
      · rw [(Prod.mk.inj hr).1.symm]
      · rw [liveEntry, liveEntry, hmap hr hev]

end MemoryStore

open MemoryStore

/-- The store refines the sliding counter.  In a run from a store holding the counter `c` of `p`,
with a non-decreasing clock from `t`, that evicts nothing, and in which only calls
`IncrementRateLimit(p, ttl)` name the full key `rate_limits:p`, the results of the calls of `p`
are those of the sliding counter started at `c`, whatever calls on other keys and purges come
between them. -/
theorem rateLimitResults_follow {s : MemoryStore} {p : String} {t : Int} {c : Option Counter}
    {ops : List (Int × Op)} (hc : s.HoldsCounter p t c)
    (hclock : List.Chain (· ≤ ·) t (ops.map Prod.fst))
    (hev : (run s ops).evictions = s.evictions)
    (hkey : ∀ o ∈ ops, o.2.key = some (makeKey namespaceRateLimits p) →
      ∃ ttl, o.2 = .incrementRateLimit p ttl) :
    Counter.follows c (rateLimitResults p s ops) = true := by
  induction ops generalizing s t c with
  | nil => rfl
  | cons o ops ih =>
    obtain ⟨now, o⟩ := o
    obtain ⟨ht, hclock⟩ := List.chain_cons.mp hclock
    obtain ⟨hev₁, hev⟩ := run_cons_evictions hev.le
    have hkey' : ∀ o ∈ ops, o.2.key = some (makeKey namespaceRateLimits p) →
        ∃ ttl, o.2 = .incrementRateLimit p ttl := fun o ho => hkey o (List.mem_cons_of_mem _ ho)
    have hc := hc.mono ht
    by_cases hp : ∃ ttl, o = .incrementRateLimit p ttl
    · obtain ⟨ttl, rfl⟩ := hp
      rw [rateLimitResults_cons_self]
      rcases hr : s.incrementRateLimit now p ttl with ⟨s', r⟩
      have happly : (Op.incrementRateLimit p ttl).apply now s = s' := by rw [Op.apply, hr]
      rw [happly] at hev₁ hev ⊢
      have hev' := le_antisymm hev (run_evictions_le _ _)
      cases r with
      | error err => exact ih (hc.incrementRateLimit_error hr hev₁ le_rfl) hclock hev' hkey'
      | ok n =>
        simp only [Counter.follows, Bool.and_eq_true, decide_eq_true_eq]
        exact ⟨(hc.incrementRateLimit_ok hr).1, ih ((hc.incrementRateLimit_ok hr).2 now) hclock hev' hkey'⟩
    · have hother : ∀ ttl, o ≠ .incrementRateLimit p ttl := fun ttl he => hp ⟨ttl, he⟩
      rw [rateLimitResults_cons_other hother]
      have hk : o.key ≠ some (makeKey namespaceRateLimits p) := fun he =>
        hp (hkey (now, o) (List.mem_cons_self _ _) he)
      exact ih (hc.of_liveEntry (Op.liveEntry_apply hk hev₁ le_rfl)) hclock
        (le_antisymm hev (run_evictions_le _ _)) hkey'

/-- Two calls of `p` 30 seconds apart, with a ttl of 60 seconds and a `Set` of a quote between
them, return what the sliding counter returns. -/
theorem rateLimitResults_follow_interleaved :
    Counter.follows none (rateLimitResults "p" newMemoryStore
      [(0, .incrementRateLimit "p" (60 * 10 ^ 9)), (1, .set namespaceQuotes "q" [] 0),
        (30 * 10 ^ 9, .incrementRateLimit "p" (60 * 10 ^ 9))]) = true :=
  @rateLimitResults_follow newMemoryStore "p" 0 none _ ⟨rfl, fun _ h => by cases h⟩
    (.cons (by decide) (.cons (by decide) (.cons (by decide) .nil))) (by decide) fun o ho hk => by
    simp only [List.mem_cons, List.mem_singleton, List.not_mem_nil, or_false] at ho
    rcases ho with rfl | rfl | rfl
    · exact ⟨_, rfl⟩
    · exact absurd hk (by decide)
    · exact ⟨_, rfl⟩

/-! ### Windows of the sliding counter -/

/-- `wrapInt64` leaves an `int64` as it is. -/
theorem wrapInt64_of_mem {i : Int} (hlo : -2 ^ 63 ≤ i) (hhi : i < 2 ^ 63) : wrapInt64 i = i := by
  unfold wrapInt64
  omega

/-- The counts the successful calls among `rs` return at clock readings in `[w, w + T]`, in call
order. -/
def windowCounts (w T : Int) : List (Int × Int × Except KvError Int) → List Int
  | [] => []
  | (now, _, r) :: rs =>
    match r with
    | .ok n => if w ≤ now ∧ now ≤ w + T then n :: windowCounts w T rs else windowCounts w T rs
    | .error _ => windowCounts w T rs

/-- No call after the window counts in it. -/
theorem windowCounts_eq_nil {w T t : Int} :
    ∀ {rs : List (Int × Int × Except KvError Int)}, List.Chain (· ≤ ·) t (rs.map Prod.fst) →
      w + T < t → windowCounts w T rs = []
  | [], _, _ => rfl
  | (now, _, r) :: rs, hclock, ht => by
    obtain ⟨h1, h2⟩ := List.chain_cons.mp hclock
    have hrest := windowCounts_eq_nil h2 (lt_of_lt_of_le ht h1)
    dsimp only at h1
    cases r with
    | ok n => rw [windowCounts, if_neg (by omega), hrest]
    | error _ => rw [windowCounts, hrest]

namespace Counter

/-- Inside a window as long as the ttl, each count of the sliding counter is the one before it
plus one: no call in the window finds the counter of an earlier call in it expired.  When the
calls start in the window, the first count is also the one after a counter that outlives it. -/
theorem follows_window {w T : Int} (hT : 0 < T) :
    ∀ {c : Option Counter} {t : Int} {rs : List (Int × Int × Except KvError Int)},
      follows c rs = true → List.Chain (· ≤ ·) t (rs.map Prod.fst) → (∀ r ∈ rs, r.2.1 = T) →
      (windowCounts w T rs).Chain' (fun a b => b = wrapInt64 (a + 1)) ∧
        ∀ c₀, c = some c₀ → w ≤ t → c₀.expired (w + T) = false →
          ∀ n ∈ (windowCounts w T rs).head?, n = wrapInt64 (c₀.count + 1)
  | _, _, [], _, _, _ => ⟨List.chain'_nil, fun _ _ _ _ _ h => by cases h⟩
  | c, t, (now, ttl, r) :: rs, hf, hclock, httl => by
    obtain ⟨ht, hclock⟩ := List.chain_cons.mp hclock
    dsimp only at ht
    have httl' : ∀ r ∈ rs, r.2.1 = T := fun r hr => httl r (List.mem_cons_of_mem _ hr)
    cases r with
    | error err =>
      simp only [follows] at hf
      obtain ⟨h1, h2⟩ := follows_window hT hf hclock httl'
      exact ⟨h1, fun c₀ hc hw hx => h2 c₀ hc (hw.trans ht) hx⟩
    | ok n =>
      simp only [follows, Bool.and_eq_true, decide_eq_true_eq] at hf
      obtain ⟨rfl, hf⟩ := hf
      obtain ⟨h1, h2⟩ := follows_window hT hf hclock httl'
      obtain rfl : ttl = T := httl _ (List.mem_cons_self _ _)
      by_cases hin : w ≤ now ∧ now ≤ w + ttl
      · -- a count in the window: the counter it starts outlives the window
        obtain ⟨hw, hw'⟩ := hin
        simp only [windowCounts, hw, hw', and_self, if_true]
        have hafter : (after c now ttl).expired (w + ttl) = false := by
          simp only [after, expired, hT, if_true, decide_eq_false_iff_not, not_lt]
          omega
        refine ⟨?_, fun c₀ hc _ hx n' hn' => ?_⟩
        · rcases hl : windowCounts w ttl rs with _ | ⟨m, l⟩
          · exact List.chain'_singleton _
          · rw [hl] at h1 h2
            exact List.Chain'.cons (h2 _ rfl hw hafter m rfl) h1
        · obtain rfl := Option.some.inj hn'.symm
          subst hc
          have hx' : c₀.expired now = false := by
            by_contra hx'
            rw [expired_mono (Bool.eq_true_of_not_eq_false hx') hw'] at hx
            cases hx
          simp [next, hx']
      · -- a count outside the window: before it nothing counts, after it nothing does
        simp only [windowCounts, if_neg hin]
        refine ⟨h1, fun c₀ _ hw _ => ?_⟩
        rw [windowCounts_eq_nil hclock (by omega)]
        intro _ h
        cases h

/-- The counts of a sliding counter whose count is not negative stay in `[1, 2^63)` while fewer
calls come than the room left above the count. -/
theorem follows_count_mem (w T : Int) :
    ∀ {c : Option Counter} {rs : List (Int × Int × Except KvError Int)},
      follows c rs = true → (∀ c₀ ∈ c, 0 ≤ c₀.count) → c.elim 0 (·.count) + rs.length < 2 ^ 63 →
      ∀ n ∈ windowCounts w T rs, 1 ≤ n ∧ n < 2 ^ 63
  | _, [], _, _, _ => fun _ h => by cases h
  | c, (now, ttl, r) :: rs, hf, hc, hlen => by
    simp only [List.length_cons, Nat.cast_add, Nat.cast_one] at hlen
    cases r with
    | error err =>
      simp only [follows] at hf
      rw [windowCounts]
      exact follows_count_mem w T hf hc (by omega)
    | ok n =>
      simp only [follows, Bool.and_eq_true, decide_eq_true_eq] at hf
      obtain ⟨rfl, hf⟩ := hf
      -- the count returned is `1` or the held count plus one, without wrapping
      have hmem : 1 ≤ next c now ∧ next c now + rs.length < 2 ^ 63 := by
        cases c with
        | none => simp only [next, Option.elim] at hlen ⊢; omega
        | some c₀ =>
          have h0 := hc c₀ rfl
          simp only [Option.elim] at hlen
          by_cases hx : c₀.expired now
          · simp only [next, hx, if_true]; omega
          · simp only [next, hx, Bool.false_eq_true, if_false]
            rw [wrapInt64_of_mem (by omega) (by omega)]
            omega
      have hrest := follows_count_mem w T hf
        (fun c₀ hc₀ => by cases hc₀; show 0 ≤ next c now; omega) hmem.2
      rw [windowCounts]
      split
      · intro m hm
        rcases List.mem_cons.mp hm with rfl | hm
        · exact ⟨hmem.1, by omega⟩
        · exact hrest m hm
      · exact hrest

end Counter

/-- A strictly increasing list of integers in `[a, L]` has at most `L + 1 - a` elements. -/
theorem length_le_of_sorted {L : Int} :
    ∀ {l : List Int} {a : Int}, l.Sorted (· < ·) → (∀ x ∈ l, a ≤ x ∧ x ≤ L) →
      l.length ≤ (L + 1 - a).toNat
  | [], _, _, _ => Nat.zero_le _
  | x :: l, a, hs, hb => by
    obtain ⟨hx, hl⟩ := List.sorted_cons.mp hs
    have ih := @length_le_of_sorted L l (x + 1) hl fun y hy => ⟨hx y hy, (hb y (.tail _ hy)).2⟩
    have := hb x (.head _)
    simp only [List.length_cons]
    omega

namespace Counter

/-- In every window as long as the ttl, at most `L` of the calls that succeed return a count of at
most `L`: the counts in the window are consecutive and positive. -/
theorem window_bound {c : Option Counter} {rs : List (Int × Int × Except KvError Int)}
    {t w T L : Int} (hT : 0 < T) (hf : follows c rs = true)
    (hclock : List.Chain (· ≤ ·) t (rs.map Prod.fst)) (httl : ∀ r ∈ rs, r.2.1 = T)
    (hc : ∀ c₀ ∈ c, 0 ≤ c₀.count) (hlen : c.elim 0 (·.count) + rs.length < 2 ^ 63) :
    ((windowCounts w T rs).filter (· ≤ L)).length ≤ L.toNat := by
  have hmem := follows_count_mem w T hf hc hlen
  have hsorted : (windowCounts w T rs).Sorted (· < ·) := by
    refine List.chain'_iff_pairwise.mp (List.Chain'.imp ?_
      (List.Chain'.iff_mem.mp (follows_window hT hf hclock httl).1))
    rintro a b ⟨ha, hb, rfl⟩
    have ha := hmem a ha
    have hb := hmem _ hb
    unfold wrapInt64 at hb ⊢
    omega
  have h : ((windowCounts w T rs).filter (· ≤ L)).length ≤ (L + 1 - 1).toNat :=
    length_le_of_sorted (hsorted.filter _) fun x hx => by
      obtain ⟨hx, hxL⟩ := List.mem_filter.mp hx
      exact ⟨(hmem x hx).1, of_decide_eq_true hxL⟩
  simpa using h

end Counter

end Lucendex.Kv
