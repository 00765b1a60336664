import Lucendex.Api.Auth
import Lucendex.Store.Counter

/-!
# The rate limiter and the partner route

`rateLimit` follows `RateLimiter.Middleware` up to `next.ServeHTTP`.  It reads the partner id
and the partner from the request's context and answers `500 missing partner context` when either
is missing.  Otherwise it counts the request with `IncrementRateLimit(partnerID.String(), 60s)`:
a failed count lets the request through without headers (fail open), and a count above the
limit of the partner's plan is answered `429 rate limit exceeded` with `Retry-After: 60`.  The
reset header reads the clock of the call.

`cmd/router` mounts the partner routes as
`rateLimiter.Middleware(authMiddleware.Middleware(partnerMux))`: the rate limiter runs first, and
only the auth middleware inside it puts the partner into the context.  A request comes with the
context `net/http` gives it (`RequestContext.background`), which holds neither value, so the
rate limiter answers it `500 missing partner context` before the handler inside it runs.

With the partner in the context, as the middleware's comment expects of the auth middleware, the
rate limiter keeps its limit (`rateLimit_window_bound`): among the requests of one partner that it
counts, at most the plan's limit are passed in any 60 seconds, however the requests interleave
with other partners' requests and the store's other callers, as long as the store evicts nothing
and nothing else writes the partner's counter.  The model's `Partner` carries no `Plan`, so the
context holds the plan itself.
-/

namespace Lucendex.Api

open Lucendex.Go Lucendex.Kv Lucendex.Kv.MemoryStore

/-- `FreePlanLimit`, requests per minute. -/
def freePlanLimit : Int := 100

/-- `ProPlanLimit`. -/
def proPlanLimit : Int := 1000

/-- `EnterprisePlanLimit`. -/
def enterprisePlanLimit : Int := 10000

/-- `rl.getLimitForPlan(plan)`. -/
def getLimitForPlan (plan : String) : Int :=
  match plan with
  | "free" => freePlanLimit
  | "pro" => proPlanLimit
  | "enterprise" => enterprisePlanLimit
  | _ => freePlanLimit

/-- `60*time.Second`, the ttl of a partner's counter. -/
def rateLimitWindow : Int := 60 * 10 ^ 9

/-- `uuid.UUID.String()`: the bytes in lower-case hex, in groups of 4, 2, 2, 2 and 6 bytes
joined by dashes. -/
def uuidString (u : Uuid) : String :=
  encodeToString (u.take 4) ++ "-" ++ encodeToString ((u.drop 4).take 2) ++ "-" ++
    encodeToString ((u.drop 6).take 2) ++ "-" ++ encodeToString ((u.drop 8).take 2) ++ "-" ++
    encodeToString (u.drop 10)

/-- What a request's context holds for the partner routes: the partner id under
`ContextKeyPartnerID`, and the `Plan` of the `*Partner` under `ContextKeyPartner`, the one field
of it the rate limiter reads. -/
structure RequestContext where
  partnerID : Option Uuid
  plan : Option String
  deriving DecidableEq, Repr

/-- The context `net/http` gives a request: neither value is set. -/
def RequestContext.background : RequestContext :=
  ⟨none, none⟩

/-- The partner whose counter a request with context `ctx` increments, as `partnerID.String()`. -/
def RequestContext.counterKey (ctx : RequestContext) : Option String :=
  match ctx.partnerID, ctx.plan with
  | some partnerID, some _ => some (uuidString partnerID)
  | _, _ => none

/-- What the rate limiter does with a request. -/
inductive LimitDecision where
  /-- The context lacks the partner id or the partner. -/
  | missingPartner
  /-- `IncrementRateLimit` failed, and the request goes on without headers. -/
  | failOpen
  /-- The request was counted: the plan's limit, the count, and the Unix second of the reset. -/
  | counted (limit count reset : Int)
  deriving DecidableEq, Repr

/-- `RateLimiter.Middleware` on one request at time `now`, up to `next.ServeHTTP`: the store
afterwards and the decision. -/
def rateLimit (s : MemoryStore) (now : Int) (ctx : RequestContext) : MemoryStore × LimitDecision :=
  match ctx.partnerID, ctx.plan with
  | some partnerID, some plan =>
    let limit := getLimitForPlan plan
    match s.incrementRateLimit now (uuidString partnerID) rateLimitWindow with
    | (s', .error _) => (s', .failOpen)
    | (s', .ok count) => (s', .counted limit count ((now + rateLimitWindow) / 10 ^ 9))
  | _, _ => (s, .missingPartner)

namespace LimitDecision

/-- The status and message of the `writeError` with which the middleware answers the request
itself, if it does. -/
def error : LimitDecision → Option (Nat × String)
  | .missingPartner => some (500, "missing partner context")
  | .failOpen => none
  | .counted limit count _ => if count > limit then some (429, "rate limit exceeded") else none

/-- The headers the middleware sets. -/
def headers : LimitDecision → List (String × String)
  | .counted limit count reset =>
    [("X-RateLimit-Limit", toString limit),
      ("X-RateLimit-Remaining", toString (max 0 (limit - count))),
      ("X-RateLimit-Reset", toString reset)] ++
      if count > limit then [("Retry-After", "60")] else []
  | _ => []

/-- The request was counted and goes on to the next handler. -/
def passesCounted : LimitDecision → Bool
  | .counted limit count _ => !(count > limit)
  | _ => false

/-- The count of a counted request. -/
def count? : LimitDecision → Option Int
  | .counted _ count _ => some count
  | _ => none

end LimitDecision

/-! ### The partner route -/

/-- The state of the router process the partner route reads and writes: the in-memory store and
the tables of the auth middleware. -/
structure RouterState where
  kv : MemoryStore
  auth : AuthDb

/-- What a request gets: the headers set on the response, then the status and message of a
`writeError`, or the answer of the handler it reached. -/
structure Response (α : Type) where
  headers : List (String × String)
  answer : Except (Nat × String) α

/-- A handler of the router, at time `now`, for a request with its context. -/
abbrev Handler (α : Type) :=
  RouterState → Int → RequestContext → HttpRequest → RouterState × Response α

/-- `rateLimiter.Middleware(next)`. -/
def rateLimiterMiddleware {α : Type} (next : Handler α) : Handler α := fun st now ctx r =>
  let d := rateLimit st.kv now ctx
  let st := { st with kv := d.1 }
  match d.2.error with
  | some e => (st, ⟨d.2.headers, .error e⟩)
  | none =>
    let a := next st now ctx r
    (a.1, { a.2 with headers := d.2.headers ++ a.2.headers })

/-- A run of requests through the handler `h`, each with its clock reading and the context
`net/http` gives it: the state afterwards and the responses. -/
def serve {α : Type} (h : Handler α) : RouterState → List (Int × HttpRequest) →
    RouterState × List (Response α)
  | st, [] => (st, [])
  | st, (now, r) :: rs =>
    let a := h st now .background r
    let b := serve h a.1 rs
    (b.1, a.2 :: b.2)

/-! ### The limit over a run -/

/-- What reaches the router's store: a request at the rate limiter, with its context, or a call
of another of the store's callers. -/
inductive StoreEvent where
  | request (ctx : RequestContext)
  | call (o : Op)

/-- The store call an event makes. -/
def StoreEvent.op : StoreEvent → Option Op
  | .request ctx => ctx.counterKey.map fun k => .incrementRateLimit k rateLimitWindow
  | .call o => some o

/-- A run of the rate limiter among the store's other callers, each event at its clock reading:
the store afterwards and, for each request, its clock reading, its context and the decision. -/
def limiterRun : MemoryStore → List (Int × StoreEvent) →
    MemoryStore × List (Int × RequestContext × LimitDecision)
  | s, [] => (s, [])
  | s, (now, .request ctx) :: es =>
    let d := rateLimit s now ctx
    let r := limiterRun d.1 es
    (r.1, (now, ctx, d.2) :: r.2)
  | s, (now, .call o) :: es => limiterRun (o.apply now s) es

/-- The store calls of a run of events, each at its clock reading. -/
def storeOps (es : List (Int × StoreEvent)) : List (Int × Op) :=
  es.filterMap fun e => e.2.op.map (e.1, ·)

section RateLimit

variable {s : MemoryStore} {now : Int} {ctx : RequestContext}

/-- The store after a request is the one its call leaves. -/
theorem rateLimit_fst :
    (rateLimit s now ctx).1 = match (StoreEvent.request ctx).op with
      | some o => o.apply now s
      | none => s := by
  unfold rateLimit StoreEvent.op RequestContext.counterKey
  split
  · simp only [Option.map_some', Op.apply]
    split <;> simp_all
  · simp_all

/-- A counted request carries the count its call returned. -/
theorem rateLimit_count? :
    (rateLimit s now ctx).2.count? = ctx.counterKey.bind fun k =>
      (s.incrementRateLimit now k rateLimitWindow).2.toOption := by
  unfold rateLimit RequestContext.counterKey
  split
  · simp only [Option.bind_some]
    split <;> simp_all [LimitDecision.count?, Except.toOption]
  · simp_all [LimitDecision.count?]

/-- A counted request is counted against the limit of the plan in its context. -/
theorem rateLimit_counted {limit count reset : Int}
    (h : (rateLimit s now ctx).2 = .counted limit count reset) :
    ∃ plan, ctx.plan = some plan ∧ limit = getLimitForPlan plan := by
  unfold rateLimit at h
  split at h
  · rename_i _ plan _ hplan
    split at h
    · cases h
    · cases h
      exact ⟨plan, hplan, rfl⟩
  · cases h

end RateLimit

theorem limiterRun_fst (s : MemoryStore) (es : List (Int × StoreEvent)) :
    (limiterRun s es).1 = run s (storeOps es) := by
  induction es generalizing s with
  | nil => rfl
  | cons e es ih =>
    obtain ⟨now, _ | o⟩ := e
    · rename_i ctx
      simp only [limiterRun, ih, storeOps, List.filterMap_cons, rateLimit_fst]
      cases (StoreEvent.request ctx).op <;> rfl
    · simp only [limiterRun, ih, storeOps, List.filterMap_cons, StoreEvent.op, Option.map_some']
      rfl

/-- Every decision of a run answers one of its requests. -/
theorem mem_limiterRun {s : MemoryStore} {es : List (Int × StoreEvent)}
    {x : Int × RequestContext × LimitDecision} (hx : x ∈ (limiterRun s es).2) :
    (x.1, StoreEvent.request x.2.1) ∈ es ∧
      ∀ {limit count reset}, x.2.2 = .counted limit count reset →
        ∃ plan, x.2.1.plan = some plan ∧ limit = getLimitForPlan plan := by
  induction es generalizing s with
  | nil => cases hx
  | cons e es ih =>
    obtain ⟨now, _ | o⟩ := e
    · simp only [limiterRun, List.mem_cons] at hx
      rcases hx with rfl | hx
      · exact ⟨.head _, rateLimit_counted⟩
      · exact (ih hx).imp (List.mem_cons_of_mem _) id
    · exact (ih hx).imp (List.mem_cons_of_mem _) id

theorem storeOps_cons (now : Int) (e : StoreEvent) (es : List (Int × StoreEvent)) :
    storeOps ((now, e) :: es) = match e.op with
      | some o => (now, o) :: storeOps es
      | none => storeOps es := by
  simp only [storeOps, List.filterMap_cons]
  cases e.op <;> rfl

theorem storeOps_sublist (es : List (Int × StoreEvent)) :
    ((storeOps es).map Prod.fst).Sublist (es.map Prod.fst) := by
  induction es with
  | nil => exact List.Sublist.slnil
  | cons e es ih =>
    obtain ⟨now, e⟩ := e
    rw [storeOps_cons]
    cases e.op
    · exact ih.cons now
    · exact ih.cons₂ now

theorem mem_storeOps {es : List (Int × StoreEvent)} {o : Int × Op} (ho : o ∈ storeOps es) :
    ∃ e ∈ es, e.1 = o.1 ∧ e.2.op = some o.2 := by
  obtain ⟨e, he, heo⟩ := List.mem_filterMap.mp ho
  obtain ⟨o', ho', rfl⟩ := Option.map_eq_some'.mp heo
  exact ⟨e, he, rfl, ho'⟩

/-- The counts of a partner's requests in a window are the counts its counter returns there. -/
theorem limiterRun_windowCounts {k : String} {w T : Int} (s : MemoryStore)
    {es : List (Int × StoreEvent)} (hcall : ∀ e ∈ es, ∀ ttl, e.2 ≠ .call (.incrementRateLimit k ttl)) :
    (limiterRun s es).2.filterMap (fun x =>
        if x.2.1.counterKey = some k ∧ w ≤ x.1 ∧ x.1 ≤ w + T then x.2.2.count? else none) =
      windowCounts w T (rateLimitResults k s (storeOps es)) := by
  induction es generalizing s with
  | nil => rfl
  | cons e es ih =>
    have hcall' := fun e he => hcall e (List.mem_cons_of_mem _ he)
    obtain ⟨now, ctx | o⟩ := e
    · have hfst := @rateLimit_fst s now ctx
      have hcount := @rateLimit_count? s now ctx
      simp only [StoreEvent.op] at hfst
      rw [storeOps_cons, StoreEvent.op]
      cases hk : ctx.counterKey with
      | none =>
        simp only [hk, Option.map_none', Option.none_bind] at hfst hcount ⊢
        simp only [limiterRun, List.filterMap_cons, hk, reduceCtorEq, false_and, if_false, hfst]
        exact ih s hcall'
      | some k' =>
        simp only [hk, Option.map_some', Option.some_bind, Op.apply] at hfst hcount ⊢
        simp only [limiterRun, List.filterMap_cons, hk, Option.some.injEq, hfst]
        by_cases hkk : k' = k
        · subst hkk
          rw [rateLimitResults_cons_self, Op.apply, ih _ hcall', hcount]
          generalize (s.incrementRateLimit now k' rateLimitWindow).2 = r
          cases r with
          | error _ => simp [Except.toOption, windowCounts]
          | ok n =>
            by_cases hw : w ≤ now ∧ now ≤ w + T <;> simp [Except.toOption, windowCounts, hw]
        · rw [rateLimitResults_cons_other (fun ttl he => hkk (by cases he; rfl)), Op.apply,
            ← ih _ hcall']
          simp [hkk]
    · rw [storeOps_cons, StoreEvent.op]
      simp only [limiterRun]
      rw [rateLimitResults_cons_other fun ttl he => hcall _ (List.mem_cons_self _ _) ttl
        (by rw [he])]
      exact ih _ hcall'

/-- A filter whose elements all carry a value at most `L` keeps no more elements than the values
at most `L`. -/
theorem length_filter_le_filterMap {X : Type} {D : List X} {P : X → Bool} {g : X → Option Int}
    {L : Int} (h : ∀ x ∈ D, P x = true → ∃ n, g x = some n ∧ n ≤ L) :
    (D.filter P).length ≤ ((D.filterMap g).filter (· ≤ L)).length := by
  induction D with
  | nil => exact le_rfl
  | cons x D ih =>
    have ih := ih fun y hy => h y (List.mem_cons_of_mem _ hy)
    by_cases hp : P x = true
    · obtain ⟨n, hg, hn⟩ := h x (List.mem_cons_self _ _) hp
      simp only [List.filter_cons, hp, if_true, List.filterMap_cons, hg, decide_eq_true hn,
        List.length_cons]
      omega
    · simp only [List.filter_cons, hp, Bool.false_eq_true, if_false, List.filterMap_cons]
      split
      · exact ih
      · exact ih.trans ((List.sublist_cons_self _ _).filter _).length_le

/-- The rate limiter keeps its limit over every run.  Take a store that holds the counter of the
partner printed `k` (no counter, or one whose count is not negative), and a run of requests and
of other callers' calls, with a non-decreasing clock from `t`, fewer than `2^63` events above that
count, that evicts nothing and in which no other caller names `rate_limits:k`.  If every request
of `k` carries a plan whose limit is at most `L`, then in every window of 60 seconds the rate
limiter passes at most `L` of the requests of `k` it counted. -/
theorem rateLimit_window_bound {s : MemoryStore} {es : List (Int × StoreEvent)} {k : String}
    {t w L : Int} {c : Option Counter} (hc : s.HoldsCounter k t c)
    (hc₀ : ∀ c₀ ∈ c, 0 ≤ c₀.count) (hlen : c.elim 0 (·.count) + es.length < 2 ^ 63)
    (hclock : List.Chain (· ≤ ·) t (es.map Prod.fst))
    (hev : (limiterRun s es).1.evictions = s.evictions)
    (hkey : ∀ e ∈ es, ∀ o, e.2 = .call o → o.key ≠ some (makeKey namespaceRateLimits k))
    (hplan : ∀ e ∈ es, ∀ ctx, e.2 = .request ctx → ctx.counterKey = some k →
      ∀ plan ∈ ctx.plan, getLimitForPlan plan ≤ L) :
    ((limiterRun s es).2.filter fun x => x.2.1.counterKey = some k ∧ w ≤ x.1 ∧
      x.1 ≤ w + rateLimitWindow ∧ x.2.2.passesCounted).length ≤ L.toNat := by
  -- only the rate limiter's calls of `k` name its counter, all with the window as ttl
  have hops : ∀ o ∈ storeOps es, o.2.key = some (makeKey namespaceRateLimits k) →
      o.2 = .incrementRateLimit k rateLimitWindow := by
    intro o ho hk
    obtain ⟨⟨now, e⟩, he, -, heo⟩ := mem_storeOps ho
    cases e with
    | request ctx =>
      cases hck : ctx.counterKey with
      | none => simp [StoreEvent.op, hck] at heo
      | some k' =>
        simp only [StoreEvent.op, hck, Option.map_some', Option.some.injEq] at heo
        rw [← heo] at hk ⊢
        rw [makeKey_right_inj (Option.some.inj hk)]
    | call o' =>
      simp only [StoreEvent.op, Option.some.injEq] at heo
      exact absurd (heo ▸ hk) (hkey _ he o' rfl)
  have hsub := rateLimitResults_sublist k s (storeOps es)
  have hclock' : List.Chain (· ≤ ·) t ((storeOps es).map Prod.fst) :=
    List.Chain'.sublist (show List.Chain' (· ≤ ·) (t :: es.map Prod.fst) from hclock)
      ((storeOps_sublist es).cons₂ t)
  have hf := rateLimitResults_follow hc hclock' (by rwa [← limiterRun_fst])
    fun o ho hk => ⟨_, hops o ho hk⟩
  have httl : ∀ r ∈ rateLimitResults k s (storeOps es), r.2.1 = rateLimitWindow := fun r hr =>
    (Op.incrementRateLimit.inj (hops _ (mem_rateLimitResults hr) rfl)).2
  have hlen' : c.elim 0 (·.count) + (rateLimitResults k s (storeOps es)).length < 2 ^ 63 := by
    have h₁ := hsub.length_le
    have h₂ := (storeOps_sublist es).length_le
    simp only [List.length_map] at h₁ h₂
    omega
  have hbound := @Counter.window_bound c _ t w rateLimitWindow L (by decide) hf
    (List.Chain'.sublist (show List.Chain' (· ≤ ·) (t :: (storeOps es).map Prod.fst) from hclock')
      (hsub.cons₂ t)) httl hc₀ hlen'
  rw [← limiterRun_windowCounts s fun e he ttl hce =>
    hkey e he _ hce (by rfl)] at hbound
  refine (length_filter_le_filterMap fun x hx hp => ?_).trans hbound
  simp only [Bool.and_eq_true, decide_eq_true_eq] at hp
  obtain ⟨hk, hw, hw', hpass⟩ := hp
  obtain ⟨hmem, hlimit⟩ := mem_limiterRun hx
  rcases hd : x.2.2 with _ | _ | ⟨limit, count, reset⟩ <;> rw [hd] at hpass <;>
    simp only [LimitDecision.passesCounted, Bool.false_eq_true, Bool.not_eq_true',
      decide_eq_false_iff_not, not_lt] at hpass
  obtain ⟨plan, hplan', rfl⟩ := hlimit hd
  exact ⟨count, by simp [hk, hw, hw', hd, LimitDecision.count?],
    hpass.trans (hplan _ hmem x.2.1 rfl hk plan hplan')⟩

/-- Two requests of a partner on the free plan, two seconds apart with a purge between them, are
within its limit. -/
theorem rateLimit_window_bound_free :
    ((limiterRun newMemoryStore [(0, .request ⟨some [1], some "free"⟩), (1, .call .cleanup),
        (2, .request ⟨some [1], some "free"⟩)]).2.filter fun x =>
        x.2.1.counterKey = some (uuidString [1]) ∧ 0 ≤ x.1 ∧ x.1 ≤ 0 + rateLimitWindow ∧
          x.2.2.passesCounted).length ≤ (100 : Int).toNat :=
  @rateLimit_window_bound newMemoryStore _ (uuidString [1]) 0 0 100 none ⟨rfl, fun _ h => by cases h⟩
    (fun _ h => by cases h) (by decide) (.cons (by decide) (.cons (by decide) (.cons (by decide) .nil)))
    (by decide)
    (fun e he o heo => by
      simp only [List.mem_cons, List.mem_singleton, List.not_mem_nil, or_false] at he
      rcases he with rfl | rfl | rfl <;> cases heo
      exact fun h => by cases h)
    (fun e he ctx hctx _ plan hplan => by
      simp only [List.mem_cons, List.mem_singleton, List.not_mem_nil, or_false] at he
      rcases he with rfl | rfl | rfl <;> cases hctx <;> cases hplan <;> decide)

end Lucendex.Api
