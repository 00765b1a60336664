import Lucendex.Router.Quote
import Lucendex.Router.BreakerInvariant

/-!
# Quotes and the breaker: what one quote sees of the others

`GenerateQuote` checks its price with the breaker under the pair `in-out` of its request
(`QuoteRequest.pair`), and an admitted price is recorded for that pair.  A quote therefore
changes what later quotes for its own pair see, also on a market that does not move: a large
request records a price with much slippage, and a small request after it deviates from that price
and is rejected (`earlier_quote_trips_breaker`).

What a check of a pair reads of the breaker is the pair's state, the two thresholds and the
caution window (`CircuitBreaker.view`), and a quote changes its own pair's state only.  So the
outcome of a quote is a function of the quotes made before it for its own pair: quotes for other
pairs never change it (`generateQuote_after_pair_requests`).  The digest enters the hash only,
neither the breaker nor which outcome a quote has (`generateQuote_digest`).
-/

namespace Lucendex.Router

open Lucendex.Decimal

/-- The breaker pair `GenerateQuote` checks a request's price under: `in-out`. -/
def QuoteRequest.pair (req : QuoteRequest) : String :=
  req.in.toString ++ "-" ++ req.out.toString

namespace QuoteEngine

/-- Quotes one after another on one breaker against one snapshot, each at its clock reading: the
breaker afterwards, `none` when the pathfinder of one of them does not return. -/
def quoteRun (sum256 : List UInt8 → List UInt8) (qe : QuoteEngine) (ledgerIndex : UInt32) :
    CircuitBreaker → List (Int × QuoteRequest) → Option CircuitBreaker
  | cb, [] => some cb
  | cb, (now, req) :: reqs =>
    (qe.generateQuote sum256 cb now req ledgerIndex).bind fun x => quoteRun sum256 qe ledgerIndex x.1 reqs

end QuoteEngine

/-! ### What a check reads of the breaker -/

namespace CircuitBreaker

/-- What `CheckPrice` on `pair` reads of the breaker: the pair's state, the two thresholds and
the caution window. -/
def view (cb : CircuitBreaker) (pair : String) : BreakerState × Decimal × Decimal × Bool × Int :=
  (cb.getOrCreateState pair, cb.threshold, cb.cautionThreshold, cb.cautionMode, cb.cautionUntil)

variable {cb cb' : CircuitBreaker} {now : Int} {pair p : String} {st : BreakerState}
  {price : Decimal}

theorem view_put_self : (cb.put pair st).view pair = (st, (cb.view pair).2) := by
  simp only [view, getOrCreateState_put_self]
  rfl

theorem view_put_ne (h : p ≠ pair) : (cb.put p st).view pair = cb.view pair := by
  simp only [view, getOrCreateState_put_ne h]
  rfl

theorem effectiveThreshold_of_view (h : cb.view pair = cb'.view pair) :
  cb.effectiveThreshold now = cb'.effectiveThreshold now
  := by
  simp only [view, Prod.mk.injEq] at h
  simp only [effectiveThreshold, h]

/-- `evaluate` reads the breaker only through the view of its pair. -/
theorem evaluate_view (h : cb.view pair = cb'.view pair) :
  ((cb.evaluate now pair st price).1.view pair, (cb.evaluate now pair st price).2) =
    ((cb'.evaluate now pair st price).1.view pair, (cb'.evaluate now pair st price).2)
  := by
  have hput : ∀ st, (cb.put pair st).view pair = (cb'.put pair st).view pair := fun st => by
    rw [view_put_self, view_put_self, h]
  rcases hd : st.deviation price with _ | d <;>
    simp only [evaluate, hd, effectiveThreshold_of_view h] <;> split_ifs <;> simp only [hput]

/-- `CheckPrice` reads the breaker only through the view of its pair, and what it leaves of that
view depends on nothing else. -/
theorem checkPrice_view (h : cb.view pair = cb'.view pair) :
  ((cb.checkPrice now pair price).1.view pair, (cb.checkPrice now pair price).2) =
    ((cb'.checkPrice now pair price).1.view pair, (cb'.checkPrice now pair price).2)
  := by
  have hst : cb.getOrCreateState pair = cb'.getOrCreateState pair := congrArg Prod.fst h
  simp only [checkPrice, hst]
  split_ifs
  · exact evaluate_view h
  · rw [view_put_self, view_put_self, h]
  · exact evaluate_view h

/-- A check of another pair leaves the view of `pair` as it was. -/
theorem checkPrice_view_ne (h : p ≠ pair) : (cb.checkPrice now p price).1.view pair = cb.view pair := by
  obtain ⟨st, hst⟩ := checkPrice_fst cb now p price
  rw [hst, view_put_ne h]

end CircuitBreaker

/-! ### One quote -/

namespace QuoteEngine

variable {sum256 : List UInt8 → List UInt8} {qe : QuoteEngine} {cb cb' : CircuitBreaker}
  {now : Int} {req : QuoteRequest} {ledgerIndex : UInt32} {r : Except RouterError QuoteResponse}

/-- `GenerateQuote` reads the breaker only through the view of the request's pair, and what it
leaves of that view depends on nothing else. -/
theorem generateQuote_view (h : cb.view req.pair = cb'.view req.pair) :
  (qe.generateQuote sum256 cb now req ledgerIndex).map (fun x => (x.1.view req.pair, x.2)) =
    (qe.generateQuote sum256 cb' now req ledgerIndex).map (fun x => (x.1.view req.pair, x.2))
  := by
  simp only [generateQuote]
  split
  · simp only [Option.map_some', h]
  · simp only [Option.map_map]
    congr 1
    funext res
    simp only [Function.comp]
    -- every error before the check keeps the breaker
    iterate 4 (split; · simp only [h])
    -- the check itself
    rename_i price _
    have hc := @CircuitBreaker.checkPrice_view cb cb' now req.pair price h
    rw [QuoteRequest.pair] at hc
    generalize cb.checkPrice now (req.in.toString ++ "-" ++ req.out.toString) price = x at hc ⊢
    generalize cb'.checkPrice now (req.in.toString ++ "-" ++ req.out.toString) price = y at hc ⊢
    obtain ⟨c, r⟩ := x
    obtain ⟨c', r'⟩ := y
    simp only [Prod.mk.injEq] at hc
    obtain ⟨hv, rfl⟩ := hc
    rcases r with e | ⟨⟩ <;> simp only [QuoteRequest.pair, hv]

/-- A quote stores a new state for its own pair only: the breaker is kept, or it is the breaker
after a check of the request's pair. -/
theorem generateQuote_breaker (h : qe.generateQuote sum256 cb now req ledgerIndex = some (cb', r)) :
  cb' = cb ∨ ∃ price, cb' = (cb.checkPrice now req.pair price).1
  := by
  simp only [generateQuote] at h
  split at h
  · exact .inl (Prod.mk.inj (Option.some.inj h)).1.symm
  obtain ⟨res, -, h⟩ := Option.map_eq_some'.mp h
  repeat' split at h
  all_goals simp only [Prod.mk.injEq] at h
  all_goals first
    | exact .inl h.1.symm
    | exact .inr ⟨_, by rw [← h.1, QuoteRequest.pair]; rename_i heq; rw [heq]⟩

/-- A quote for another pair leaves the view of `pair` as it was. -/
theorem generateQuote_view_ne (h : qe.generateQuote sum256 cb now req ledgerIndex = some (cb', r))
    (hp : req.pair ≠ p) :
  cb'.view p = cb.view p
  := by
  rcases generateQuote_breaker h with rfl | ⟨price, rfl⟩
  · rfl
  · exact CircuitBreaker.checkPrice_view_ne hp

/-- The digest and the ledger index enter the response only: the breaker a quote leaves, and its
outcome with the response left out, are the same for all of them. -/
theorem generateQuote_digest (sum256' : List UInt8 → List UInt8) (ledgerIndex' : UInt32) :
  (qe.generateQuote sum256 cb now req ledgerIndex).map (fun x => (x.1, x.2.map fun _ => ())) =
    (qe.generateQuote sum256' cb now req ledgerIndex').map (fun x => (x.1, x.2.map fun _ => ()))
  := by
  simp only [generateQuote]
  split
  · rfl
  · simp only [Option.map_map]
    congr 1
    funext res
    simp only [Function.comp]
    repeat' split
    all_goals rfl

/-! ### Runs of quotes -/

/-- The breaker a run of quotes leaves is the same for every digest and ledger index. -/
theorem quoteRun_digest (sum256' : List UInt8 → List UInt8) (ledgerIndex' : UInt32)
    (reqs : List (Int × QuoteRequest)) (cb : CircuitBreaker) :
  qe.quoteRun sum256 ledgerIndex cb reqs = qe.quoteRun sum256' ledgerIndex' cb reqs
  := by
  induction reqs generalizing cb with
  | nil => rfl
  | cons x reqs ih =>
    obtain ⟨now, req⟩ := x
    have hd : (qe.generateQuote sum256 cb now req ledgerIndex).map Prod.fst =
        (qe.generateQuote sum256' cb now req ledgerIndex').map Prod.fst := by
      simpa only [Option.map_map] using congrArg (Option.map Prod.fst)
        (@generateQuote_digest sum256 qe cb now req ledgerIndex sum256' ledgerIndex')
    calc qe.quoteRun sum256 ledgerIndex cb ((now, req) :: reqs)
        _ = ((qe.generateQuote sum256 cb now req ledgerIndex).map Prod.fst).bind
              fun c => qe.quoteRun sum256' ledgerIndex' c reqs := by
          simp only [quoteRun, ih, Option.bind_map]; rfl
        _ = qe.quoteRun sum256' ledgerIndex' cb ((now, req) :: reqs) := by
          simp only [hd, quoteRun, Option.bind_map]; rfl

/-- Leaving out of a run the quotes for pairs other than `pair` changes neither whether the run
returns nor the view of `pair` at its end. -/
theorem quoteRun_filter_pair (pair : String) {reqs : List (Int × QuoteRequest)}
    {cbA cbF cbA' : CircuitBreaker} (h : cbA.view pair = cbF.view pair)
    (hA : qe.quoteRun sum256 ledgerIndex cbA reqs = some cbA') :
  ∃ cbF', qe.quoteRun sum256 ledgerIndex cbF (reqs.filter fun x => x.2.pair = pair) = some cbF' ∧
    cbA'.view pair = cbF'.view pair
  := by
  induction reqs generalizing cbA cbF with
  | nil =>
    obtain rfl := Option.some.inj hA
    exact ⟨cbF, rfl, h⟩
  | cons x reqs ih =>
    obtain ⟨now, req⟩ := x
    obtain ⟨⟨c, res⟩, hg, hrest⟩ := Option.bind_eq_some.mp hA
    by_cases hp : req.pair = pair
    · subst hp
      have hv : (qe.generateQuote sum256 cbA now req ledgerIndex).map _ =
          (qe.generateQuote sum256 cbF now req ledgerIndex).map _ := generateQuote_view h
      rw [hg, Option.map_some'] at hv
      obtain ⟨⟨c', res'⟩, hg', hcc⟩ := Option.map_eq_some'.mp hv.symm
      simp only [Prod.mk.injEq] at hcc
      obtain ⟨cbF', hF, hview⟩ := ih hcc.1.symm hrest
      refine ⟨cbF', ?_, hview⟩
      simp [List.filter_cons, quoteRun, hg', hF]
    · obtain ⟨cbF', hF, hview⟩ := ih ((generateQuote_view_ne hg hp).trans h) hrest
      refine ⟨cbF', ?_, hview⟩
      simp [List.filter_cons, hp, hF]

/-- Two runs of quotes from one breaker against one snapshot that make the same quotes for the
pair of `req`, at the same times and in the same order, and that both return, leave
`GenerateQuote(req)` at `now` with the same outcome: quotes for other pairs never change it. -/
theorem generateQuote_after_pair_requests (cb₀ : CircuitBreaker) (now : Int) (req : QuoteRequest)
    {reqsA reqsB : List (Int × QuoteRequest)}
    (hsame : reqsA.filter (fun x => x.2.pair = req.pair) = reqsB.filter (fun x => x.2.pair = req.pair))
    (hA : (qe.quoteRun sum256 ledgerIndex cb₀ reqsA).isSome)
    (hB : (qe.quoteRun sum256 ledgerIndex cb₀ reqsB).isSome) :
  (qe.quoteRun sum256 ledgerIndex cb₀ reqsA).bind
      (fun cb => (qe.generateQuote sum256 cb now req ledgerIndex).map Prod.snd) =
    (qe.quoteRun sum256 ledgerIndex cb₀ reqsB).bind
      (fun cb => (qe.generateQuote sum256 cb now req ledgerIndex).map Prod.snd)
  := by
  obtain ⟨cbA, hA⟩ := Option.isSome_iff_exists.mp hA
  obtain ⟨cbB, hB⟩ := Option.isSome_iff_exists.mp hB
  obtain ⟨cF, hF, hvA⟩ := quoteRun_filter_pair req.pair rfl hA
  obtain ⟨cF', hF', hvB⟩ := quoteRun_filter_pair req.pair rfl hB
  rw [hsame, hF'] at hF
  obtain rfl := Option.some.inj hF
  have hv : (qe.generateQuote sum256 cbA now req ledgerIndex).map (fun x => (x.1.view req.pair, x.2)) =
      (qe.generateQuote sum256 cbB now req ledgerIndex).map (fun x => (x.1.view req.pair, x.2)) :=
    generateQuote_view (hvA.trans hvB.symm)
  rw [hA, hB, Option.some_bind, Option.some_bind]
  simpa only [Option.map_map] using congrArg (Option.map Prod.snd) hv

set_option exponentiation.threshold 400 in
/-- One breaker made at time 0 and two pools at 30 bps, `XRP/USD` and `XRP/EUR`: a quote of 5000
XRP for EUR at 61 s changes nothing for a quote of 1 XRP for USD at 62 s. -/
theorem generateQuote_after_pair_requests_eur :
  (let xrp : Asset := ⟨"XRP", ""⟩;
    let usd : Asset := ⟨"USD", "rvYAfWj5gh67oV6fW32ZzP3Aw4Eubs59B"⟩;
    let eur : Asset := ⟨"EUR", "rvYAfWj5gh67oV6fW32ZzP3Aw4Eubs59B"⟩;
    let qe : QuoteEngine := ⟨⟨[⟨xrp, usd, newFromInt 10000, newFromInt 15000, 30⟩,
      ⟨xrp, eur, newFromInt 10000, newFromInt 9000, 30⟩], []⟩, 20⟩;
    let cb := newCircuitBreaker 0 (new 5 (-2)) (new 25 (-3));
    (qe.quoteRun (fun _ => []) 7 cb [(61 * 10 ^ 9, ⟨xrp, eur, newFromInt 5000⟩)]).bind
        (fun cb => (qe.generateQuote (fun _ => []) cb (62 * 10 ^ 9) ⟨xrp, usd, newFromInt 1⟩ 7).map
          Prod.snd) =
      (qe.quoteRun (fun _ => []) 7 cb []).bind
        (fun cb => (qe.generateQuote (fun _ => []) cb (62 * 10 ^ 9) ⟨xrp, usd, newFromInt 1⟩ 7).map
          Prod.snd))
  := generateQuote_after_pair_requests _ _ _ (by decide) (by decide) (by decide)

end QuoteEngine

set_option exponentiation.threshold 400 in
/-- One pool `XRP/USD` with reserves 10000 and 15000 at 30 bps, a breaker of threshold 0.05 made
at time 0 whose caution mode has been turned off, and a request of 1 XRP for USD at 62 s.  Quoted
alone, the
request gets a response.  After a request of 5000 XRP for the same pair at 61 s, quoted at the
price 0.9979..., the request's price 1.4953... deviates by about 50% from the recorded mean, and
it is rejected with `ErrCircuitBreakerOpen`, whatever the digest and the ledger index. -/
theorem earlier_quote_trips_breaker :
  (let xrp : Asset := ⟨"XRP", ""⟩;
    let usd : Asset := ⟨"USD", "rvYAfWj5gh67oV6fW32ZzP3Aw4Eubs59B"⟩;
    let qe : QuoteEngine := ⟨⟨[⟨xrp, usd, newFromInt 10000, newFromInt 15000, 30⟩], []⟩, 20⟩;
    let cb := (newCircuitBreaker 0 (new 5 (-2)) (new 25 (-3))).cautionModeOff;
    ∀ sum256 ledgerIndex,
      (qe.quoteRun sum256 ledgerIndex cb []).bind (fun cb =>
          (qe.generateQuote sum256 cb (62 * 10 ^ 9) ⟨xrp, usd, newFromInt 1⟩ ledgerIndex).map
            (·.2.map fun _ => ())) = some (.ok ()) ∧
        (qe.quoteRun sum256 ledgerIndex cb [(61 * 10 ^ 9, ⟨xrp, usd, newFromInt 5000⟩)]).bind (fun cb =>
          (qe.generateQuote sum256 cb (62 * 10 ^ 9) ⟨xrp, usd, newFromInt 1⟩ ledgerIndex).map
            (·.2.map fun _ => ())) = some (.error .errCircuitBreakerOpen))
  := by
  intro xrp usd qe cb sum256 ledgerIndex
  have hout : ∀ c now req, (qe.generateQuote sum256 c now req ledgerIndex).map (·.2.map fun _ => ()) =
      (qe.generateQuote (fun _ => []) c now req 0).map (·.2.map fun _ => ()) := fun c now req => by
    simpa only [Option.map_map] using congrArg (Option.map Prod.snd)
      (@QuoteEngine.generateQuote_digest sum256 qe c now req ledgerIndex (fun _ => []) 0)
  simp only [@QuoteEngine.quoteRun_digest sum256 qe ledgerIndex (fun _ => []) 0, hout]
  decide

end Lucendex.Router
