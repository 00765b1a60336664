import Lucendex.Store.Isolation

/-!
# The in-memory store: the rate-limit counter

`IncrementRateLimit(p, ttl)` restarts the counter `rate_limits:p` at `1` when it is missing or
has expired, and otherwise increments it; either way it writes the counter back through
`setLocked`, which stamps the expiry `now + ttl` again.  The counter therefore expires only after
`ttl` without calls, and calls closer together than `ttl` keep it growing
(`incrementRateLimit_restamps_expiry`).

The counter is written with `strconv.FormatInt` and read with `strconv.ParseInt`, and every
count the call returns is an `int64`, so the next call always reads the counter back
(`incrementRateLimit_next`): it never fails with an invalid counter value.
-/

namespace Lucendex.Kv

open Lucendex.Go

/-- Four calls of `IncrementRateLimit("p", 60s)` at 0, 30, 60 and 90 seconds return 1, 2, 3 and 4:
each call moves the expiry to 60 seconds after itself, so the counter never expires.  Only three
of the calls lie in the 60-second window `[30s, 90s]` that ends at the fourth. -/
theorem incrementRateLimit_restamps_expiry :
  (let ttl : Int := 60 * 10 ^ 9;
    let s₁ := newMemoryStore.incrementRateLimit 0 "p" ttl;
    let s₂ := s₁.1.incrementRateLimit (30 * 10 ^ 9) "p" ttl;
    let s₃ := s₂.1.incrementRateLimit (60 * 10 ^ 9) "p" ttl;
    let s₄ := s₃.1.incrementRateLimit (90 * 10 ^ 9) "p" ttl;
    [s₁.2, s₂.2, s₃.2, s₄.2] = [.ok 1, .ok 2, .ok 3, .ok 4])
  := by decide

/-! ### Reading the counter back -/

namespace MemoryStore

/-- A `setLocked` that succeeds leaves the entry it wrote under its full key, with the value and
the expiry it was given. -/
theorem setLocked_lookup_self {s : MemoryStore} {now ttl : Int} {ns key : String}
    {value : List UInt8} (h : (s.setLocked now ns key value ttl).2 = .ok ()) :
    ∃ e, (s.setLocked now ns key value ttl).1.data.lookup (makeKey ns key) = some e ∧
      e.value = value ∧ e.expiresAt = if ttl > 0 then some (now + ttl) else none := by
  dsimp only [setLocked] at h ⊢
  split
  · exact ⟨_, AList.lookup_insert _, rfl, rfl⟩
  · rename_i hc
    rw [if_neg hc] at h
    cases h

/-- `wrapInt64` lands in the `int64` range. -/
theorem wrapInt64_mem (i : Int) : -2 ^ 63 ≤ wrapInt64 i ∧ wrapInt64 i < 2 ^ 63 := by
  unfold wrapInt64
  omega

/-- A counter written with `setLocked` and answered through `Except.map`, as both branches of
`IncrementRateLimit` write it, reads back under its full key with the answered value. -/
theorem setLocked_counter {t s' : MemoryStore} {now ttl v c : Int} {p : String}
    (h : ((t.setLocked now namespaceRateLimits p (formatInt v) ttl).1,
      (t.setLocked now namespaceRateLimits p (formatInt v) ttl).2.map fun _ => v) = (s', .ok c)) :
    v = c ∧ ∃ e, s'.data.lookup (makeKey namespaceRateLimits p) = some e ∧ e.value = formatInt c ∧
      e.expiresAt = if ttl > 0 then some (now + ttl) else none := by
  obtain ⟨rfl, hr⟩ := Prod.mk.inj h
  rcases setLocked_result t now namespaceRateLimits p (formatInt v) ttl with hok | hok <;>
    rw [hok] at hr <;> cases hr
  exact ⟨rfl, setLocked_lookup_self hok⟩

/-- A successful `IncrementRateLimit` leaves the counter it returns, as `FormatInt` writes it,
with the expiry `now + ttl` (none for `ttl ≤ 0`); the count is an `int64`. -/
theorem incrementRateLimit_eq_ok {s s' : MemoryStore} {now ttl c : Int} {p : String}
    (h : s.incrementRateLimit now p ttl = (s', .ok c)) :
    p ≠ "" ∧ -2 ^ 63 ≤ c ∧ c < 2 ^ 63 ∧
      ∃ e, s'.data.lookup (makeKey namespaceRateLimits p) = some e ∧ e.value = formatInt c ∧
        e.expiresAt = if ttl > 0 then some (now + ttl) else none := by
  unfold incrementRateLimit at h
  split at h
  · cases h
  rename_i hp
  dsimp only at h
  have h1 : goBytes "1" = formatInt 1 := by decide
  -- a missing or expired counter restarts at 1; a live one is incremented
  split at h
  · obtain ⟨rfl, hw⟩ := setLocked_counter (h1 ▸ h)
    exact ⟨hp, by decide, by decide, hw⟩
  · split at h
    · obtain ⟨rfl, hw⟩ := setLocked_counter (h1 ▸ h)
      exact ⟨hp, by decide, by decide, hw⟩
    · split at h
      · cases h
      · obtain ⟨rfl, hw⟩ := setLocked_counter h
        exact ⟨hp, (wrapInt64_mem _).1, (wrapInt64_mem _).2, hw⟩

/-- The counter `IncrementRateLimit` writes reads back: after a call that returns the count `c`,
the next call on the same partner, with no call between and before the counter expires, returns
`c + 1` as an `int64`, or `ErrMemoryLimit` when the new counter does not fit; it never fails to
parse the counter. -/
theorem incrementRateLimit_next {s s' : MemoryStore} {now now' ttl c : Int} {p : String}
    (h : s.incrementRateLimit now p ttl = (s', .ok c)) (hlive : ttl ≤ 0 ∨ now' ≤ now + ttl) :
    (s'.incrementRateLimit now' p ttl).2 = .ok (wrapInt64 (c + 1)) ∨
      (s'.incrementRateLimit now' p ttl).2 = .error .errMemoryLimit := by
  obtain ⟨hp, hlo, hhi, e, he, hv, hexp⟩ := incrementRateLimit_eq_ok h
  have hx : e.expired now' = false := by
    by_cases httl : ttl > 0
    · simp only [Entry.expired, hexp, httl, if_true, decide_eq_false_iff_not, not_lt]
      omega
    · simp [Entry.expired, hexp, httl]
  simp only [incrementRateLimit, hp, if_false, he, hx, hv, parseInt_formatInt hlo hhi]
  rcases setLocked_result s' now' namespaceRateLimits p (formatInt (wrapInt64 (c + 1))) ttl
    with hr | hr <;> simp [hr, Except.map]

/-- Two calls on a fresh store, 30 seconds apart with a ttl of 60 seconds. -/
theorem incrementRateLimit_next_fresh :
    ((newMemoryStore.incrementRateLimit 0 "p" (60 * 10 ^ 9)).1.incrementRateLimit (30 * 10 ^ 9)
        "p" (60 * 10 ^ 9)).2 = .ok (wrapInt64 (1 + 1)) ∨
      ((newMemoryStore.incrementRateLimit 0 "p" (60 * 10 ^ 9)).1.incrementRateLimit (30 * 10 ^ 9)
        "p" (60 * 10 ^ 9)).2 = .error .errMemoryLimit :=
  incrementRateLimit_next (Prod.ext rfl (by decide)) (Or.inr (by decide))

end MemoryStore

end Lucendex.Kv
