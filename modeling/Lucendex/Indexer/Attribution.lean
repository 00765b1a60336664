import Lucendex.Api.Handlers

/-!
# Trade attribution

`attributeTrade` follows the Lucendex-trade branch of the indexer's `processLedger`: for a
Payment whose memo carries a quote hash, it loads the registry entry of the hash, records the
completed trade and the partner's usage event with the router fee `RouterBps` of the entry, or
20 where the entry has 0, computes the fee amount `amountOut * fee / 10000`, and deletes the
entry.  The Payment enters as the fields `extractTradeDetails` reads off it; the decoding of the
memo and of the transaction, the route metadata and the database errors, which are only logged,
are left out.

Where the three router fees of a quote come from is then a chain of three functions: the
engine's `routerBps` in the quote and its hash (`generateQuote_routerBps`), the partner's
`RouterBps` in the registry row (`quoteHandler_quote_inv`), and the row's fee, or 20, in the
charge (`attributeTrade_of_lookup`).
-/

namespace Lucendex.Indexer

open Lucendex.Api Lucendex.Router Lucendex.Decimal Lucendex.Go

/-- A `QuoteRegistryEntry` as `GetQuoteRegistryEntry` loads it, with the fields attribution
reads. -/
structure QuoteRegistryEntry where
  partnerID : String
  routerBps : Int
  deriving DecidableEq, Repr

/-- `db.GetQuoteRegistryEntry(ctx, quoteHash)`. -/
def getQuoteRegistryEntry (t : RegistryTable) (quoteHash : List UInt8) :
    Option QuoteRegistryEntry :=
  (t.lookup quoteHash).map fun r => ⟨r.partnerID, r.routerBps⟩

/-- What `processLedger` reads off a Payment: its hash and sender, and the assets and amounts
`extractTradeDetails` returns. -/
structure Payment where
  txHash : String
  account : String
  inAsset : String
  outAsset : String
  amountIn : String
  amountOut : String
  deriving DecidableEq, Repr

/-- A `store.CompletedTrade`, without its route metadata. -/
structure CompletedTrade where
  quoteHash : List UInt8
  txHash : String
  account : String
  inAsset : String
  outAsset : String
  amountIn : String
  amountOut : String
  routerFeeBps : Int
  ledgerIndex : Int
  ledgerHash : String
  deriving DecidableEq, Repr

/-- A `store.UsageEvent`. -/
structure UsageEvent where
  partnerID : String
  quoteHash : List UInt8
  pair : String
  amountIn : String
  amountOut : String
  routerBps : Int
  feeAmount : String
  txHash : String
  ledgerIndex : Int
  deriving DecidableEq, Repr

/-- The router fee `processLedger` charges for an entry: its `RouterBps`, or 20 where that
is 0. -/
def routerFeeOf (entry : QuoteRegistryEntry) : Int :=
  if entry.routerBps = 0 then 20 else entry.routerBps

/-- The fee amount: `amountOut * routerFee / 10000` for an amount that parses, else zero. -/
def feeAmountOf (amountOut : String) (routerFee : Int) : Decimal :=
  match newFromString amountOut with
  | .ok d => (d.mul (newFromInt routerFee)).divNonzero (newFromInt 10000) (by decide)
  | .error _ => zero

/-- The Lucendex-trade branch of `processLedger` for a Payment whose memo carries `quoteHash`,
in the ledger `ledgerIndex` with hash `ledgerHash`: nothing for a hash without an entry;
otherwise the completed trade and the usage event it inserts, and the registry without the
entry. -/
def attributeTrade (t : RegistryTable) (quoteHash : List UInt8) (tx : Payment) (ledgerIndex : Int)
    (ledgerHash : String) : Option (CompletedTrade × UsageEvent) × RegistryTable :=
  match getQuoteRegistryEntry t quoteHash with
  | none => (none, t)
  | some entry =>
    (some (⟨quoteHash, tx.txHash, tx.account, tx.inAsset, tx.outAsset, tx.amountIn, tx.amountOut,
        routerFeeOf entry, ledgerIndex, ledgerHash⟩,
      ⟨entry.partnerID, quoteHash, tx.inAsset ++ "-" ++ tx.outAsset, tx.amountIn, tx.amountOut,
        routerFeeOf entry, (feeAmountOf tx.amountOut (routerFeeOf entry)).toString, tx.txHash,
        ledgerIndex⟩),
      t.erase quoteHash)

/-- A hash with a registry row is attributed with the row's fee, or 20, in both records. -/
theorem attributeTrade_of_lookup {t : RegistryTable} {quoteHash : List UInt8} {row : QuoteRegistry}
    (h : t.lookup quoteHash = some row) (tx : Payment) (ledgerIndex : Int) (ledgerHash : String) :
    ∃ trade usage, attributeTrade t quoteHash tx ledgerIndex ledgerHash =
        (some (trade, usage), t.erase quoteHash) ∧
      trade.routerFeeBps = routerFeeOf ⟨row.partnerID, row.routerBps⟩ ∧
      usage.routerBps = trade.routerFeeBps ∧ usage.partnerID = row.partnerID ∧
      usage.feeAmount = (feeAmountOf tx.amountOut trade.routerFeeBps).toString := by
  simp only [attributeTrade, getQuoteRegistryEntry, h, Option.map_some']
  exact ⟨_, _, rfl, rfl, rfl, rfl, rfl⟩

/-- A Payment is attributed only under a hash with a registry row: the usage event bills the
row's partner with the row's fee, or 20, and the row is deleted. -/
theorem attributeTrade_eq_some {t t' : RegistryTable} {quoteHash : List UInt8} {tx : Payment}
    {ledgerIndex : Int} {ledgerHash : String} {trade : CompletedTrade} {usage : UsageEvent}
    (h : attributeTrade t quoteHash tx ledgerIndex ledgerHash = (some (trade, usage), t')) :
    ∃ row, t.lookup quoteHash = some row ∧ t' = t.erase quoteHash ∧
      usage.quoteHash = quoteHash ∧ usage.partnerID = row.partnerID ∧
      usage.routerBps = routerFeeOf ⟨row.partnerID, row.routerBps⟩ := by
  unfold attributeTrade getQuoteRegistryEntry at h
  cases hl : t.lookup quoteHash with
  | none => simp [hl] at h
  | some row =>
    simp only [hl, Option.map_some', Prod.mk.injEq, Option.some.injEq] at h
    obtain ⟨⟨-, rfl⟩, rfl⟩ := h
    exact ⟨row, rfl, rfl, rfl, rfl, rfl⟩

/-! ### The three router fees -/

set_option exponentiation.threshold 400 in
/-- The run of the router's tests: one `XRP/USD` pool with reserves 10000 and 15000 at 30 bps, an
engine whose `routerBps` is 20 and a fresh breaker.  A partner whose `RouterBps` is 10 asks,
a minute later, for 100 XRP in USD: the handler answers a quote with a router fee of 20 and
registers its hash, which commits 20, with the fee 10. -/
theorem quoteHandler_tenBps_run (sum256 : List UInt8 → List UInt8) :
  (let xrp : Asset := ⟨"XRP", ""⟩;
    let usd : Asset := ⟨"USD", "rvYAfWj5gh67oV6fW32ZzP3Aw4Eubs59B"⟩;
    let qe : QuoteEngine := ⟨⟨[⟨xrp, usd, newFromInt 10000, newFromInt 15000, 30⟩], []⟩, 20⟩;
    ∃ cb' row resp, quoteHandler sum256 qe (newCircuitBreaker 0 (new 5 (-2)) (new 25 (-3)))
        12345 ∅ (61 * 10 ^ 9) "POST" "partner-1" ⟨10⟩
        ⟨"XRP", "USD.rvYAfWj5gh67oV6fW32ZzP3Aw4Eubs59B", "100"⟩ =
        some (cb', insertRegistry ∅ row, .quote resp) ∧
      row.quoteHash = computeQuoteHash sum256 ⟨xrp, usd, newFromInt 100⟩
        ⟨20, new (-4807370515955919) (-16), zero⟩ 12345 100 ∧
      row.partnerID = "partner-1" ∧ row.routerBps = 10 ∧ resp.routerBps = 20 ∧
      resp.quoteHash = encodeToString row.quoteHash)
  := by
  intro xrp usd qe
  let hop : Hop := ⟨"amm", xrp, usd, newFromInt 100, new 1480737051595591948 (-16)⟩
  have hv : validateQuoteRequest ⟨xrp, usd, newFromInt 100⟩ = .ok () := by decide
  have hr : qe.pathfinder.findBestRoute xrp usd (newFromInt 100) =
      some (.ok ⟨[hop], ⟨0, zero, zero⟩, zero⟩) := by decide
  have hf : calculateTotalFees ⟨[hop], ⟨0, zero, zero⟩, zero⟩ =
      some ⟨0, new (-4807370515955919) (-16), zero⟩ := by decide
  have hp : hop.amountOut.div (newFromInt 100) = some (new 14807370515955919 (-16)) := by decide
  have hc : ((newCircuitBreaker 0 (new 5 (-2)) (new 25 (-3))).checkPrice (61 * 10 ^ 9)
      (xrp.toString ++ "-" ++ usd.toString) (new 14807370515955919 (-16))).2 = .ok () := by decide
  have hq : qe.generateQuote sum256 (newCircuitBreaker 0 (new 5 (-2)) (new 25 (-3))) (61 * 10 ^ 9)
      ⟨xrp, usd, newFromInt 100⟩ 12345 = some (_, .ok _) :=
    QuoteEngine.generateQuote_eq_ok hv hr hf rfl hp hc
  exact ⟨_, _, _, quoteHandler_eq_quote rfl (by decide) (by decide) (by decide) (by decide)
    (by decide) hq rfl, rfl, rfl, rfl, rfl, rfl⟩

/-- At the run of the tests, whatever the digest: the partner is answered a router fee of 20,
and its hash commits 20, while the registry row under the hash records 10; the Payment that
settles the quote, 148.07 USD out, is then charged 10 bps in the completed trade and in the
usage event, a fee of 0.14807. -/
theorem quoteHandler_partner_fee_mismatch (sum256 : List UInt8 → List UInt8) :
  (let xrp : Asset := ⟨"XRP", ""⟩;
    let usd : Asset := ⟨"USD", "rvYAfWj5gh67oV6fW32ZzP3Aw4Eubs59B"⟩;
    let qe : QuoteEngine := ⟨⟨[⟨xrp, usd, newFromInt 10000, newFromInt 15000, 30⟩], []⟩, 20⟩;
    let tx : Payment :=
      ⟨"TX", "rSender", "XRP", "USD.rvYAfWj5gh67oV6fW32ZzP3Aw4Eubs59B", "100", "148.07"⟩;
    ∃ cb' t' resp key, quoteHandler sum256 qe (newCircuitBreaker 0 (new 5 (-2)) (new 25 (-3)))
        12345 ∅ (61 * 10 ^ 9) "POST" "partner-1" ⟨10⟩
        ⟨"XRP", "USD.rvYAfWj5gh67oV6fW32ZzP3Aw4Eubs59B", "100"⟩ = some (cb', t', .quote resp) ∧
      resp.routerBps = 20 ∧ resp.quoteHash = encodeToString key ∧
      key = computeQuoteHash sum256 ⟨xrp, usd, newFromInt 100⟩
        ⟨20, new (-4807370515955919) (-16), zero⟩ 12345 100 ∧
      (t'.lookup key).map QuoteRegistry.routerBps = some 10 ∧
      ∃ trade usage, (attributeTrade t' key tx 12346 "LEDGER").1 = some (trade, usage) ∧
        trade.routerFeeBps = 10 ∧ usage.routerBps = 10 ∧ usage.feeAmount = "0.14807")
  := by
  intro xrp usd qe tx
  obtain ⟨cb', row, resp, h, hkey, -, hbps, hresp, hhash⟩ := quoteHandler_tenBps_run sum256
  have hlookup : (insertRegistry ∅ row).lookup row.quoteHash = some row :=
    insertRegistry_lookup_self (AList.not_mem_empty _)
  obtain ⟨trade, usage, hat, hfee, husage, -, hamount⟩ :=
    attributeTrade_of_lookup hlookup tx 12346 "LEDGER"
  have hten : trade.routerFeeBps = 10 := by simp only [hfee, hbps, routerFeeOf]; decide
  refine ⟨cb', _, resp, row.quoteHash, h, hresp, hhash, hkey, by simp [hlookup, hbps],
    trade, usage, by rw [hat], hten, husage.trans hten, ?_⟩
  rw [hamount, hten]
  decide

end Lucendex.Indexer
