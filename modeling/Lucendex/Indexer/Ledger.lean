import Lucendex.Indexer.Attribution

/-!
# The indexer's ledgers

`processLedger` follows the indexer's `processLedger` on the tables its Lucendex-trade branch
reads and writes: `quote_registry`, `core.completed_trades`, `usage_events` and the ledger
checkpoints.  A ledger whose index has a checkpoint is skipped.  Otherwise each transaction
whose memo carries a quote hash and whose Payment `extractTradeDetails` reads is attributed
(`attributeTrade`): the completed trade is inserted unless its transaction hash is already
recorded (`ON CONFLICT (tx_hash) DO NOTHING`), the usage event is appended, and the registry row
is deleted.  The ledger then gets its checkpoint.

The AMM and orderbook parsers and `OfferCancel` touch none of these tables and are left out,
with the logging, the database errors (which are only logged) and the `CHECK` of
`completed_trades` on positive amounts.

The main result, `indexLedgers_bills_once`, says that however many ledgers and Payments carry a
quote hash, the indexer bills each registered quote at most once, to the partner of its row and
with the row's fee.
-/

namespace Lucendex.Indexer

open Lucendex.Api

/-- A transaction of a ledger as the Lucendex-trade branch sees it: the hash
`hasLucendexQuoteHash` finds in its memos and the Payment `extractTradeDetails` reads, each
`none` where the function fails. -/
structure LedgerTx where
  quoteHash : Option (List UInt8)
  payment : Option Payment
  deriving DecidableEq, Repr

/-- A validated ledger: its index, its hash and its transactions. -/
structure Ledger where
  ledgerIndex : Int
  ledgerHash : String
  transactions : List LedgerTx
  deriving DecidableEq, Repr

/-- The tables the Lucendex-trade branch reads and writes: the registry, the completed trades,
the usage events in the order they were inserted, and the indices of the checkpointed ledgers. -/
structure IndexerState where
  registry : RegistryTable
  trades : List CompletedTrade
  usage : List UsageEvent
  checkpoints : List Int

/-- `db.InsertCompletedTrade(ctx, trade)`, which does nothing for a recorded `tx_hash`. -/
def insertCompletedTrade (trades : List CompletedTrade) (trade : CompletedTrade) :
    List CompletedTrade :=
  if trades.any (·.txHash = trade.txHash) then trades else trades ++ [trade]

/-- One iteration of the transaction loop of `processLedger`, on its Lucendex-trade branch. -/
def processTx (ledgerIndex : Int) (ledgerHash : String) (s : IndexerState) (tx : LedgerTx) :
    IndexerState :=
  match tx.quoteHash, tx.payment with
  | some quoteHash, some payment =>
    match attributeTrade s.registry quoteHash payment ledgerIndex ledgerHash with
    | (some (trade, usage), registry) =>
      { s with registry := registry, trades := insertCompletedTrade s.trades trade,
               usage := s.usage ++ [usage] }
    | (none, _) => s
  | _, _ => s

/-- `processLedger(ctx, db, ledger, ...)`. -/
def processLedger (s : IndexerState) (ledger : Ledger) : IndexerState :=
  if ledger.ledgerIndex ∈ s.checkpoints then s
  else
    let s := ledger.transactions.foldl (processTx ledger.ledgerIndex ledger.ledgerHash) s
    { s with checkpoints := ledger.ledgerIndex :: s.checkpoints }

/-- The indexer's main loop, over a run of ledgers. -/
def indexLedgers (s : IndexerState) (ledgers : List Ledger) : IndexerState :=
  ledgers.foldl processLedger s

/-! ### Billing -/

/-- What the tables hold after a run from `s₀` that appended the usage events `new`: every
registry row is one `s₀` had, and the new events carry pairwise distinct hashes, each of a row of
`s₀` that is gone, billed to its partner with its fee. -/
structure BilledFrom (s₀ s : IndexerState) (new : List UsageEvent) : Prop where
  usage : s.usage = s₀.usage ++ new
  registry : ∀ {h r}, s.registry.lookup h = some r → s₀.registry.lookup h = some r
  nodup : (new.map UsageEvent.quoteHash).Nodup
  billed : ∀ u ∈ new, u.quoteHash ∉ s.registry ∧ ∃ r, s₀.registry.lookup u.quoteHash = some r ∧
    u.partnerID = r.partnerID ∧ u.routerBps = routerFeeOf ⟨r.partnerID, r.routerBps⟩

variable {s₀ s : IndexerState} {new : List UsageEvent}

theorem BilledFrom.refl (s : IndexerState) : BilledFrom s s [] :=
  ⟨by simp, id, List.nodup_nil, by simp⟩

/-- An attribution bills a row that is still in the registry, so a hash it has billed before
is never billed again. -/
theorem BilledFrom.attribute (hb : BilledFrom s₀ s new) {quoteHash : List UInt8}
    {payment : Payment} {ledgerIndex : Int} {ledgerHash : String} {trade : CompletedTrade}
    {usage : UsageEvent} {registry : RegistryTable}
    (h : attributeTrade s.registry quoteHash payment ledgerIndex ledgerHash =
      (some (trade, usage), registry)) :
    BilledFrom s₀
      { s with registry := registry, trades := insertCompletedTrade s.trades trade,
               usage := s.usage ++ [usage] } (new ++ [usage]) := by
  obtain ⟨row, hrow, rfl, hhash, hpartner, hfee⟩ := attributeTrade_eq_some h
  have hmem : quoteHash ∈ s.registry := AList.lookup_isSome.mp (by rw [hrow]; rfl)
  have hsub : ∀ {k r}, (s.registry.erase quoteHash).lookup k = some r →
      s.registry.lookup k = some r := fun {k} {r} hl => by
    by_cases hk : k = quoteHash
    · rw [hk, AList.lookup_erase] at hl
      cases hl
    · rwa [AList.lookup_erase_ne hk] at hl
  refine ⟨by simp [hb.usage], fun hl => hb.registry (hsub hl), ?_, ?_⟩
  · rw [List.map_append, List.nodup_append]
    refine ⟨hb.nodup, List.nodup_singleton _, ?_⟩
    intro _ hm hv
    obtain ⟨u, hu, rfl⟩ := List.mem_map.mp hm
    simp only [List.map_cons, List.map_nil, List.mem_singleton] at hv
    exact (hb.billed u hu).1 (hv.trans hhash ▸ hmem)
  · intro u hu
    rcases List.mem_append.mp hu with hu | hu
    · exact ⟨fun hm => (hb.billed u hu).1 (AList.mem_erase.mp hm).2, (hb.billed u hu).2⟩
    · rw [List.mem_singleton.mp hu, hhash]
      exact ⟨fun hm => (AList.mem_erase.mp hm).1 rfl,
        row, hb.registry hrow, hpartner, hfee⟩

/-- One transaction keeps `BilledFrom`, appending at most one usage event. -/
theorem BilledFrom.processTx (hb : BilledFrom s₀ s new) (ledgerIndex : Int)
    (ledgerHash : String) (tx : LedgerTx) :
    ∃ new', BilledFrom s₀ (processTx ledgerIndex ledgerHash s tx) new' := by
  unfold Indexer.processTx
  split
  · split
    · exact ⟨_, hb.attribute ‹_›⟩
    · exact ⟨new, hb⟩
  · exact ⟨new, hb⟩

/-- A whole ledger keeps `BilledFrom`. -/
theorem BilledFrom.processLedger (hb : BilledFrom s₀ s new) (ledger : Ledger) :
    ∃ new', BilledFrom s₀ (processLedger s ledger) new' := by
  unfold Indexer.processLedger
  split
  · exact ⟨new, hb⟩
  · obtain ⟨new', hb'⟩ := List.foldlRecOn (motive := fun t => ∃ new, BilledFrom s₀ t new)
      ledger.transactions (Indexer.processTx ledger.ledgerIndex ledger.ledgerHash) s ⟨new, hb⟩
      fun _ ⟨_, hb⟩ tx _ => hb.processTx ledger.ledgerIndex ledger.ledgerHash tx
    exact ⟨new', hb'.usage, hb'.registry, hb'.nodup, hb'.billed⟩

/-- Over any run of ledgers, the indexer bills each quote at most once: the usage events it
appends carry pairwise distinct quote hashes, each the hash of a row the registry held at the
start, billed to that row's partner with its fee (20 where the row has 0), and the row is gone
at the end. -/
theorem indexLedgers_bills_once (s : IndexerState) (ledgers : List Ledger) :
    ∃ new, (indexLedgers s ledgers).usage = s.usage ++ new ∧
      (new.map UsageEvent.quoteHash).Nodup ∧
      ∀ u ∈ new, u.quoteHash ∉ (indexLedgers s ledgers).registry ∧
        ∃ r, s.registry.lookup u.quoteHash = some r ∧ u.partnerID = r.partnerID ∧
          u.routerBps = routerFeeOf ⟨r.partnerID, r.routerBps⟩ := by
  obtain ⟨new, hb⟩ := List.foldlRecOn (motive := fun t => ∃ new, BilledFrom s t new) ledgers
    processLedger s ⟨[], BilledFrom.refl s⟩ fun _ ⟨_, hb⟩ ledger _ => hb.processLedger ledger
  exact ⟨new, hb.usage, hb.nodup, hb.billed⟩

end Lucendex.Indexer
