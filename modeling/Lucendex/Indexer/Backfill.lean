import Lucendex.Indexer.Ledger

/-!
# The live loop and the backfill goroutine

When `cmd/indexer` starts behind the chain, it runs `processLedger` in two goroutines at once: the
main loop on the ledgers of the stream, and a backfill goroutine on the ledgers it missed.  Both
share the database, and `processLedger` runs its statements one at a time, each its own
transaction: `GetCheckpoint` before a ledger, `GetQuoteRegistryEntry`, `InsertCompletedTrade`,
`InsertUsageEvent` and `DeleteQuoteRegistryEntry` for a Lucendex trade, and `SaveCheckpoint`
after the ledger.

A `Worker` is one goroutine between two statements, `Worker.step` runs its next statement, and
`IndexerSystem.run` runs a schedule of statements of any number of workers, recording each usage
event with the worker that inserted it.

* `runAlone_eq_indexLedgers`: a worker alone, run long enough, leaves the tables `indexLedgers`
  leaves.  The atomic model of `Indexer.Ledger` is the serial case; `Worker.finish`, the atomic
  rest of a worker's run, is kept by every statement.
* `run_bills_per_worker`: over every schedule, each worker bills each quote hash at most once,
  to the partner of a row the registry held at the start and with its fee, so a hash gets at most
  as many usage events as there are workers.
* `run_bills_twice`: two workers that both read a row before either deletes it bill its quote
  twice: `usage_events` has no key that would refuse the second insert.
-/

namespace Lucendex.Indexer

open Lucendex.Api

/-- The statement a worker runs next. -/
inductive Phase where
  /-- Between two ledgers: `GetCheckpoint` of the next one. -/
  | idle
  /-- In `ledger`, before the transactions `rest`: the next one's `GetQuoteRegistryEntry`, or
  `SaveCheckpoint` when none is left. -/
  | scan (ledger : Ledger) (rest : List LedgerTx)
  /-- The row of `quoteHash` was read: `InsertCompletedTrade` of `trade`. -/
  | insertTrade (ledger : Ledger) (rest : List LedgerTx) (quoteHash : List UInt8)
      (trade : CompletedTrade) (usage : UsageEvent)
  /-- `InsertUsageEvent` of `usage`. -/
  | insertUsage (ledger : Ledger) (rest : List LedgerTx) (quoteHash : List UInt8)
      (usage : UsageEvent)
  /-- `DeleteQuoteRegistryEntry` of `quoteHash`. -/
  | delete (ledger : Ledger) (rest : List LedgerTx) (quoteHash : List UInt8)
  deriving DecidableEq, Repr

/-- An indexer goroutine between two statements: the ledgers it has yet to start, and the
statement it runs next. -/
structure Worker where
  ledgers : List Ledger
  phase : Phase
  deriving DecidableEq, Repr

/-- The next statement of a worker: the tables afterwards, the worker afterwards, and the usage
event it inserted, if it ran `InsertUsageEvent`.  A worker with nothing left does nothing. -/
def Worker.step (s : IndexerState) (w : Worker) : IndexerState × Worker × Option UsageEvent :=
  match w.phase with
  | .idle =>
    match w.ledgers with
    | [] => (s, w, none)
    | ledger :: ledgers =>
      if ledger.ledgerIndex ∈ s.checkpoints then (s, ⟨ledgers, .idle⟩, none)
      else (s, ⟨ledgers, .scan ledger ledger.transactions⟩, none)
  | .scan ledger [] =>
    ({ s with checkpoints := ledger.ledgerIndex :: s.checkpoints }, ⟨w.ledgers, .idle⟩, none)
  | .scan ledger (tx :: rest) =>
    match tx.quoteHash, tx.payment with
    | some quoteHash, some payment =>
      match (attributeTrade s.registry quoteHash payment ledger.ledgerIndex ledger.ledgerHash).1 with
      | some (trade, usage) => (s, ⟨w.ledgers, .insertTrade ledger rest quoteHash trade usage⟩, none)
      | none => (s, ⟨w.ledgers, .scan ledger rest⟩, none)
    | _, _ => (s, ⟨w.ledgers, .scan ledger rest⟩, none)
  | .insertTrade ledger rest quoteHash trade usage =>
    ({ s with trades := insertCompletedTrade s.trades trade },
      ⟨w.ledgers, .insertUsage ledger rest quoteHash usage⟩, none)
  | .insertUsage ledger rest quoteHash usage =>
    ({ s with usage := s.usage ++ [usage] }, ⟨w.ledgers, .delete ledger rest quoteHash⟩, some usage)
  | .delete ledger rest quoteHash =>
    ({ s with registry := s.registry.erase quoteHash }, ⟨w.ledgers, .scan ledger rest⟩, none)

/-- The indexer's goroutines on their shared tables. -/
structure IndexerSystem where
  db : IndexerState
  workers : List Worker

namespace IndexerSystem

/-- The next statement of worker `i`, and the usage event it inserted; nothing for a worker that
does not exist. -/
def step (sys : IndexerSystem) (i : Nat) : IndexerSystem × Option UsageEvent :=
  match sys.workers[i]? with
  | none => (sys, none)
  | some w =>
    let r := w.step sys.db
    (⟨r.1, sys.workers.set i r.2.1⟩, r.2.2)

/-- A schedule of statements, each naming its worker: the system afterwards and, in order, the
usage events inserted, each with its worker. -/
def run : IndexerSystem → List Nat → IndexerSystem × List (Nat × UsageEvent)
  | sys, [] => (sys, [])
  | sys, i :: is =>
    let r := sys.step i
    let rest := run r.1 is
    (rest.1, (r.2.map (i, ·)).toList ++ rest.2)

end IndexerSystem

/-! ### A worker alone -/

/-- The transactions `rest` of `ledger` and its checkpoint, done at once as `processLedger` of
`Indexer.Ledger` does them. -/
def finishLedger (ledger : Ledger) (rest : List LedgerTx) (s : IndexerState) : IndexerState :=
  let s := rest.foldl (processTx ledger.ledgerIndex ledger.ledgerHash) s
  { s with checkpoints := ledger.ledgerIndex :: s.checkpoints }

/-- The ledger in hand, finished at once from the statement a worker runs next. -/
def Phase.finish : Phase → IndexerState → IndexerState
  | .idle, s => s
  | .scan ledger rest, s => finishLedger ledger rest s
  | .insertTrade ledger rest quoteHash trade usage, s =>
    finishLedger ledger rest
      { s with registry := s.registry.erase quoteHash,
               trades := insertCompletedTrade s.trades trade, usage := s.usage ++ [usage] }
  | .insertUsage ledger rest quoteHash usage, s =>
    finishLedger ledger rest
      { s with registry := s.registry.erase quoteHash, usage := s.usage ++ [usage] }
  | .delete ledger rest quoteHash, s =>
    finishLedger ledger rest { s with registry := s.registry.erase quoteHash }

/-- The rest of a worker's run, done at once: the ledger in hand, then the ledgers left. -/
def Worker.finish (w : Worker) (s : IndexerState) : IndexerState :=
  indexLedgers (w.phase.finish s) w.ledgers

/-- A bound on the statements a worker has left. -/
def Phase.work : Phase → Nat
  | .idle => 0
  | .scan _ rest => 4 * rest.length + 1
  | .insertTrade _ rest _ _ _ => 4 * rest.length + 4
  | .insertUsage _ rest _ _ => 4 * rest.length + 3
  | .delete _ rest _ => 4 * rest.length + 2

/-- A bound on the statements a worker has left, its ledgers included. -/
def Worker.work (w : Worker) : Nat :=
  w.phase.work + (w.ledgers.map fun l => 4 * l.transactions.length + 2).sum

theorem processLedger_eq (s : IndexerState) (ledger : Ledger) :
    processLedger s ledger =
      if ledger.ledgerIndex ∈ s.checkpoints then s
      else finishLedger ledger ledger.transactions s :=
  rfl

/-- Every statement keeps what the rest of the run does at once. -/
theorem Worker.finish_step (s : IndexerState) (w : Worker) :
    (w.step s).2.1.finish (w.step s).1 = w.finish s := by
  obtain ⟨ledgers, phase⟩ := w
  cases phase with
  | idle =>
    cases ledgers with
    | nil => rfl
    | cons ledger ledgers =>
      simp only [Worker.step, Worker.finish, Phase.finish, indexLedgers, List.foldl_cons,
        processLedger_eq]
      split_ifs <;> rfl
  | scan ledger rest =>
    cases rest with
    | nil => rfl
    | cons tx rest =>
      obtain ⟨_ | quoteHash, _ | payment⟩ := tx
      any_goals rfl
      simp only [Worker.step, Worker.finish, Phase.finish, finishLedger, List.foldl_cons, processTx]
      rcases h : attributeTrade s.registry quoteHash payment ledger.ledgerIndex ledger.ledgerHash
        with ⟨_ | ⟨trade, usage⟩, registry⟩
      · rfl
      · obtain ⟨-, -, rfl, -⟩ := attributeTrade_eq_some h
        rfl
  | insertTrade | insertUsage | delete => rfl

/-- Every statement of a worker with work left brings its bound down. -/
theorem Worker.work_step (s : IndexerState) (w : Worker) :
    w.work = 0 ∧ (w.step s).2.1 = w ∨ (w.step s).2.1.work < w.work := by
  obtain ⟨ledgers, phase⟩ := w
  cases phase with
  | idle =>
    cases ledgers with
    | nil => exact .inl ⟨rfl, rfl⟩
    | cons ledger ledgers =>
      refine .inr ?_
      simp only [Worker.step, Worker.work, Phase.work, List.map_cons, List.sum_cons]
      split_ifs <;> simp only [Phase.work] <;> omega
  | scan ledger rest =>
    refine .inr ?_
    cases rest with
    | nil => simp only [Worker.step, Worker.work, Phase.work, List.length_nil]; omega
    | cons tx rest =>
      simp only [Worker.step, Worker.work]
      repeat' split
      all_goals simp only [Phase.work, List.length_cons]; omega
  | insertTrade | insertUsage | delete =>
    refine .inr ?_
    simp only [Worker.step, Worker.work, Phase.work]
    omega

theorem IndexerSystem.step_alone (s : IndexerState) (w : Worker) :
    IndexerSystem.step ⟨s, [w]⟩ 0 = (⟨(w.step s).1, [(w.step s).2.1]⟩, (w.step s).2.2) :=
  rfl

/-- A worker alone, run for at least as many statements as its bound, ends with the tables the
rest of its run leaves at once. -/
theorem Worker.run_alone (m : Nat) :
    ∀ (s : IndexerState) (w : Worker), w.work ≤ m →
      (IndexerSystem.run ⟨s, [w]⟩ (List.replicate m 0)).1.db = w.finish s := by
  induction m with
  | zero =>
    intro s ⟨ledgers, phase⟩ hw
    cases phase <;> simp only [Worker.work, Phase.work] at hw <;> try omega
    cases ledgers with
    | nil => rfl
    | cons ledger ledgers => simp only [List.map_cons, List.sum_cons] at hw; omega
  | succ m ih =>
    intro s w hw
    rw [List.replicate_succ, IndexerSystem.run, IndexerSystem.step_alone]
    rcases w.work_step s with ⟨h0, hstep⟩ | hlt
    · have := ih (w.step s).1 (w.step s).2.1 (by rw [hstep]; omega)
      rw [hstep] at this ⊢
      rw [this, ← Worker.finish_step s w, hstep]
    · rw [ih _ _ (by omega), Worker.finish_step]

/-- A worker alone, run long enough statement by statement, leaves the tables `indexLedgers`
leaves: the atomic model of the indexer is the serial case of the concurrent one. -/
theorem runAlone_eq_indexLedgers (s : IndexerState) (ledgers : List Ledger) {m : Nat}
    (hm : (ledgers.map fun l => 4 * l.transactions.length + 2).sum ≤ m) :
    (IndexerSystem.run ⟨s, [⟨ledgers, .idle⟩]⟩ (List.replicate m 0)).1.db =
      indexLedgers s ledgers :=
  Worker.run_alone m s ⟨ledgers, .idle⟩ (by simpa [Worker.work, Phase.work] using hm)

/-- A ledger with one payment, whose memo carries the hash `[7]`. -/
def sampleLedger (ledgerIndex : Int) (txHash : String) : Ledger :=
  ⟨ledgerIndex, "", [⟨some [7], some ⟨txHash, "a", "XRP", "USD", "1", "1"⟩⟩]⟩

/-- A registry with one row, of partner `p`, under the hash `[7]`. -/
def sampleState : IndexerState :=
  ⟨AList.insert [7] ⟨[7], "p", Decimal.zero, Decimal.zero, 0, 0, 0⟩ ∅, [], [], []⟩

theorem runAlone_eq_indexLedgers_sample :
    (IndexerSystem.run ⟨sampleState, [⟨[sampleLedger 1 "t1", sampleLedger 2 "t2"], .idle⟩]⟩
        (List.replicate 12 0)).1.db =
      indexLedgers sampleState [sampleLedger 1 "t1", sampleLedger 2 "t2"] :=
  runAlone_eq_indexLedgers _ _ (by decide)

/-! ### Any number of workers -/

/-- The row a worker has read and not yet billed: its hash and the usage event it inserts. -/
def Phase.pending : Phase → Option (List UInt8 × UsageEvent)
  | .insertTrade _ _ quoteHash _ usage => some (quoteHash, usage)
  | .insertUsage _ _ quoteHash usage => some (quoteHash, usage)
  | _ => none

/-- The hash of the row a worker has billed and deletes next. -/
def Phase.deleting : Phase → Option (List UInt8)
  | .delete _ _ quoteHash => some quoteHash
  | _ => none

/-- The quote hashes worker `i` billed, in a trace of usage events with their workers. -/
def billedBy (i : Nat) (trace : List (Nat × UsageEvent)) : List (List UInt8) :=
  (trace.filter (·.1 = i)).map (·.2.quoteHash)

/-- A usage event bills the partner of a row of the registry `t`, with the row's fee. -/
def BillsRow (t : RegistryTable) (u : UsageEvent) : Prop :=
  ∃ row, t.lookup u.quoteHash = some row ∧ u.partnerID = row.partnerID ∧
    u.routerBps = routerFeeOf ⟨row.partnerID, row.routerBps⟩

/-- What a worker keeps on the tables `s` of a run from `s₀`, with the hashes `billed` it has
billed: each once; each row gone unless the worker deletes it next; a row it has read and not
billed yet not among them, and billed, when it is, as a row of `s₀`. -/
structure WorkerInv (s₀ s : IndexerState) (w : Worker) (billed : List (List UInt8)) : Prop where
  nodup : billed.Nodup
  gone : ∀ h ∈ billed, h ∉ s.registry ∨ w.phase.deleting = some h
  fresh : ∀ {h u}, w.phase.pending = some (h, u) → h ∉ billed
  pending : ∀ {h u}, w.phase.pending = some (h, u) → u.quoteHash = h ∧ BillsRow s₀.registry u

section Step

variable {s₀ s : IndexerState} {w : Worker} {billed : List (List UInt8)}

/-- A statement deletes at most the row its worker deletes next. -/
theorem Worker.step_registry (s : IndexerState) (w : Worker) :
    (w.step s).1.registry = s.registry ∨
      ∃ h, w.phase.deleting = some h ∧ (w.step s).1.registry = s.registry.erase h := by
  obtain ⟨ledgers, phase⟩ := w
  cases phase with
  | idle => cases ledgers <;> simp only [Worker.step] <;> (try split_ifs) <;> simp
  | scan ledger rest =>
    cases rest with
    | nil => exact .inl rfl
    | cons tx rest =>
      simp only [Worker.step]
      repeat' split
      all_goals exact .inl rfl
  | insertTrade | insertUsage => exact .inl rfl
  | delete ledger rest h => exact .inr ⟨h, rfl, rfl⟩

/-- A statement inserts the usage event it reports, and no other. -/
theorem Worker.step_usage (s : IndexerState) (w : Worker) :
    (w.step s).1.usage = s.usage ++ (w.step s).2.2.toList := by
  obtain ⟨ledgers, phase⟩ := w
  cases phase with
  | idle => cases ledgers <;> simp only [Worker.step] <;> (try split_ifs) <;> simp
  | scan ledger rest =>
    cases rest with
    | nil => simp [Worker.step]
    | cons tx rest =>
      simp only [Worker.step]
      repeat' split
      all_goals simp
  | insertTrade | insertUsage | delete => simp [Worker.step]

/-- Rows only leave the registry. -/
theorem Worker.lookup_step {h : List UInt8} {r : QuoteRegistry}
    (hl : (w.step s).1.registry.lookup h = some r) : s.registry.lookup h = some r := by
  rcases Worker.step_registry s w with he | ⟨h', -, he⟩ <;> rw [he] at hl
  · exact hl
  · by_cases hh : h = h'
    · rw [hh, AList.lookup_erase] at hl
      cases hl
    · rwa [AList.lookup_erase_ne hh] at hl

theorem Worker.not_mem_step {h : List UInt8} (hh : h ∉ s.registry) : h ∉ (w.step s).1.registry :=
  fun hm => hh (AList.lookup_isSome.mp (by
    obtain ⟨r, hr⟩ := Option.isSome_iff_exists.mp (AList.lookup_isSome.mpr hm)
    rw [Worker.lookup_step hr]
    rfl))

/-- Another worker's statement keeps a worker's invariant: it only deletes rows. -/
theorem WorkerInv.of_registry {s' : IndexerState} (hw : WorkerInv s₀ s w billed)
    (hs : ∀ {h}, h ∉ s.registry → h ∉ s'.registry) :
    WorkerInv s₀ s' w billed :=
  ⟨hw.nodup, fun h hb => (hw.gone h hb).imp_left hs, hw.fresh, hw.pending⟩

/-- A statement that deletes no row, inserts no usage event and leaves nothing read unbilled
keeps a worker's invariant. -/
theorem WorkerInv.quiet {s' : IndexerState} {w' : Worker} (hw : WorkerInv s₀ s w billed)
    (hdel : w.phase.deleting = none) (hreg : s'.registry = s.registry)
    (hpend : w'.phase.pending = none) :
    WorkerInv s₀ s' w' billed where
  nodup := hw.nodup
  gone h hb := .inl (hreg ▸ (hw.gone h hb).resolve_right (by rw [hdel]; simp))
  fresh hp := by rw [hpend] at hp; cases hp
  pending hp := by rw [hpend] at hp; cases hp

/-- A worker's own statement keeps its invariant, with the hash of the usage event it inserts
added to its billed hashes; that event bills a row of `s₀`. -/
theorem WorkerInv.step (hw : WorkerInv s₀ s w billed)
    (hreg : ∀ {h r}, s.registry.lookup h = some r → s₀.registry.lookup h = some r) :
    WorkerInv s₀ (w.step s).1 (w.step s).2.1
        (billed ++ ((w.step s).2.2.map (·.quoteHash)).toList) ∧
      ∀ u ∈ (w.step s).2.2, BillsRow s₀.registry u := by
  obtain ⟨ledgers, phase⟩ := w
  have hgone : phase.deleting = none → ∀ h ∈ billed, h ∉ s.registry := fun hd h hb =>
    (hw.gone h hb).resolve_right (by rw [hd]; simp)
  cases phase with
  | idle =>
    cases ledgers <;> simp only [Worker.step] <;> (try split_ifs) <;>
      simp only [Option.map_none', Option.toList_none, List.append_nil] <;>
      exact ⟨hw.quiet rfl (by rfl) (by rfl), fun _ => nofun⟩
  | scan ledger rest =>
    cases rest with
    | nil =>
      simp only [Worker.step, Option.map_none', Option.toList_none, List.append_nil]
      exact ⟨hw.quiet rfl (by rfl) (by rfl), fun _ => nofun⟩
    | cons tx rest =>
      obtain ⟨_ | quoteHash, _ | payment⟩ := tx <;>
        simp only [Worker.step, Option.map_none', Option.toList_none, List.append_nil]
      iterate 3 exact ⟨hw.quiet rfl (by rfl) (by rfl), fun _ => nofun⟩
      rcases hA : attributeTrade s.registry quoteHash payment ledger.ledgerIndex ledger.ledgerHash
        with ⟨_ | ⟨trade, usage⟩, registry⟩ <;>
        simp only [Option.map_none', Option.toList_none, List.append_nil]
      · exact ⟨hw.quiet rfl (by rfl) (by rfl), fun _ => nofun⟩
      · -- the read of a row: the worker holds it, unbilled
        obtain ⟨row, hrow, -, hu, hpartner, hfee⟩ := attributeTrade_eq_some hA
        have hmem : quoteHash ∈ s.registry := AList.lookup_isSome.mp (by rw [hrow]; rfl)
        refine ⟨⟨hw.nodup, fun h hb => .inl (hgone rfl h hb), fun hp => ?_, fun hp => ?_⟩,
          fun _ => nofun⟩ <;>
          simp only [Phase.pending, Option.some.injEq, Prod.mk.injEq] at hp <;>
          obtain ⟨rfl, rfl⟩ := hp
        · exact fun hb => hgone rfl _ hb hmem
        · exact ⟨hu, row, hreg (hu ▸ hrow), hpartner, hfee⟩
  | insertTrade ledger rest quoteHash trade usage =>
    simp only [Worker.step, Option.map_none', Option.toList_none, List.append_nil]
    exact ⟨⟨hw.nodup, fun h hb => .inl (hgone rfl h hb), hw.fresh, hw.pending⟩, fun _ => nofun⟩
  | insertUsage ledger rest quoteHash usage =>
    -- the insert of the usage event: the hash joins the billed ones, its row is deleted next
    obtain ⟨hq, hbills⟩ := hw.pending rfl
    have hfresh := hw.fresh rfl
    simp only [Worker.step, Option.map_some', Option.toList_some]
    refine ⟨⟨?_, fun h hb => ?_, fun hp => (nomatch hp), fun hp => (nomatch hp)⟩, fun u hu => ?_⟩
    · rw [hq, List.nodup_append]
      exact ⟨hw.nodup, List.nodup_singleton _, fun a ha hb => hfresh (List.mem_singleton.mp hb ▸ ha)⟩
    · rcases List.mem_append.mp hb with hb | hb
      · exact .inl (hgone rfl h hb)
      · rw [List.mem_singleton.mp hb, hq]
        exact .inr rfl
    · cases hu
      exact hbills
  | delete ledger rest quoteHash =>
    simp only [Worker.step, Option.map_none', Option.toList_none, List.append_nil]
    refine ⟨⟨hw.nodup, fun h hb => .inl fun hm => ?_, fun hp => (nomatch hp),
      fun hp => (nomatch hp)⟩, fun _ => nofun⟩
    obtain ⟨hne, hm⟩ := AList.mem_erase.mp hm
    exact (hw.gone h hb).elim (· hm) fun hd => hne (Option.some.inj hd).symm

end Step

/-! ### Every schedule -/

theorem billedBy_cons (i : Nat) (x : Nat × UsageEvent) (trace : List (Nat × UsageEvent)) :
    billedBy i (x :: trace) =
      if x.1 = i then x.2.quoteHash :: billedBy i trace else billedBy i trace := by
  by_cases h : x.1 = i <;> simp [billedBy, List.filter_cons, h]

/-- The hashes worker `j` billed, after a statement of worker `i`. -/
theorem billedBy_append_event (i j : Nat) (trace : List (Nat × UsageEvent))
    (o : Option UsageEvent) :
    billedBy j (trace ++ (o.map (i, ·)).toList) =
      billedBy j trace ++ if i = j then (o.map (·.quoteHash)).toList else [] := by
  cases o <;> by_cases h : i = j <;> simp [billedBy, h]

theorem mem_event {i : Nat} {o : Option UsageEvent} {x : Nat × UsageEvent}
    (hx : x ∈ (o.map (i, ·)).toList) : x.1 = i ∧ x.2 ∈ o := by
  cases o <;> simp only [Option.map_none', Option.map_some', Option.toList_none,
    Option.toList_some, List.not_mem_nil, List.mem_singleton] at hx
  subst hx
  exact ⟨rfl, rfl⟩

theorem IndexerSystem.length_run (sched : List Nat) :
    ∀ sys : IndexerSystem, (sys.run sched).1.workers.length = sys.workers.length := by
  induction sched with
  | nil => intro; rfl
  | cons i is ih =>
    intro sys
    rw [IndexerSystem.run, ih, IndexerSystem.step]
    split <;> simp only [List.length_set]

/-- What every schedule keeps, from the tables `s₀` and with the usage events `trace` inserted so
far: the usage table is the old one and the trace's events; rows only leave the registry; each
event is of a worker that exists and bills a row of `s₀`; and each worker keeps its invariant with
the hashes it billed. -/
structure SystemInv (s₀ : IndexerState) (sys : IndexerSystem)
    (trace : List (Nat × UsageEvent)) : Prop where
  usage : sys.db.usage = s₀.usage ++ trace.map (·.2)
  registry : ∀ {h r}, sys.db.registry.lookup h = some r → s₀.registry.lookup h = some r
  lt : ∀ x ∈ trace, x.1 < sys.workers.length
  bills : ∀ x ∈ trace, BillsRow s₀.registry x.2
  workers : ∀ {i w}, sys.workers[i]? = some w → WorkerInv s₀ sys.db w (billedBy i trace)

section Run

variable {s₀ : IndexerState}

/-- Goroutines start between two ledgers, with nothing billed. -/
theorem SystemInv.init (s : IndexerState) (workers : List Worker)
    (hidle : ∀ w ∈ workers, w.phase = .idle) : SystemInv s ⟨s, workers⟩ [] where
  usage := by simp
  registry := id
  lt := nofun
  bills := nofun
  workers {_ w} hw := by
    have hw : w.phase = .idle := hidle w (List.getElem?_mem hw)
    exact ⟨List.nodup_nil, nofun, fun hp => (by rw [hw] at hp; cases hp),
      fun hp => (by rw [hw] at hp; cases hp)⟩

/-- Every statement of every worker keeps the system's invariant. -/
theorem SystemInv.step {sys : IndexerSystem} {trace : List (Nat × UsageEvent)}
    (hs : SystemInv s₀ sys trace) (i : Nat) :
    SystemInv s₀ (sys.step i).1 (trace ++ ((sys.step i).2.map (i, ·)).toList) := by
  unfold IndexerSystem.step
  rcases hget : sys.workers[i]? with _ | w
  · simpa using hs
  obtain ⟨hw, hbills⟩ := (hs.workers hget).step hs.registry
  have hi : i < sys.workers.length := (List.getElem?_eq_some.mp hget).1
  refine ⟨?_, fun hl => hs.registry (Worker.lookup_step hl), ?_, ?_, fun {j w'} hj => ?_⟩
  · rw [Worker.step_usage, hs.usage]
    cases (w.step sys.db).2.2 <;> simp
  · intro x hx
    rw [List.length_set]
    rcases List.mem_append.mp hx with hx | hx
    · exact hs.lt x hx
    · exact (mem_event hx).1 ▸ hi
  · intro x hx
    rcases List.mem_append.mp hx with hx | hx
    · exact hs.bills x hx
    · exact hbills _ (mem_event hx).2
  · rw [billedBy_append_event]
    by_cases hij : i = j
    · -- the worker that ran
      subst hij
      rw [List.getElem?_set_self', hget] at hj
      cases hj
      simpa using hw
    · -- every other worker: its invariant survives the rows deleted
      rw [List.getElem?_set_ne hij] at hj
      simpa [hij] using (hs.workers hj).of_registry Worker.not_mem_step

/-- Every schedule keeps the system's invariant. -/
theorem SystemInv.run (sched : List Nat) :
    ∀ {sys : IndexerSystem} {trace : List (Nat × UsageEvent)}, SystemInv s₀ sys trace →
      SystemInv s₀ (sys.run sched).1 (trace ++ (sys.run sched).2) := by
  induction sched with
  | nil => intro sys trace hs; simpa [IndexerSystem.run] using hs
  | cons i is ih =>
    intro sys trace hs
    simpa only [IndexerSystem.run, List.append_assoc] using ih (hs.step i)

end Run

/-- In a trace where no worker billed a hash twice, the events of one hash are of distinct
workers. -/
theorem nodup_workers_of_billedBy (h : List UInt8) :
    ∀ trace : List (Nat × UsageEvent), (∀ i, (billedBy i trace).Nodup) →
      ((trace.filter fun x => x.2.quoteHash = h).map (·.1)).Nodup
  | [], _ => List.nodup_nil
  | x :: trace, hn => by
    have hrest : ∀ i, (billedBy i trace).Nodup := fun i => (hn i).sublist (by
      rw [billedBy_cons]
      split_ifs
      exacts [List.sublist_cons_self _ _, List.Sublist.refl _])
    have ih := nodup_workers_of_billedBy h trace hrest
    by_cases hx : x.2.quoteHash = h
    · have hx1 := hn x.1
      rw [billedBy_cons, if_pos rfl, List.nodup_cons] at hx1
      simp only [List.filter_cons, hx, decide_True, if_true, List.map_cons, List.nodup_cons]
      refine ⟨fun hmem => hx1.1 ?_, ih⟩
      obtain ⟨y, hy, hyx⟩ := List.mem_map.mp hmem
      obtain ⟨hy, hyh⟩ := List.mem_filter.mp hy
      exact List.mem_map.mpr ⟨y, List.mem_filter.mpr ⟨hy, by simpa using hyx⟩,
        by simpa [hx] using hyh⟩
    · simpa [List.filter_cons, hx] using ih

theorem length_le_of_nodup_lt {l : List Nat} {n : Nat} (hl : l.Nodup) (h : ∀ x ∈ l, x < n) :
    l.length ≤ n :=
  (List.subperm_of_subset hl fun x hx => List.mem_range.mpr (h x hx)).length_le.trans_eq
    (List.length_range n)

/-- Over every schedule of the goroutines, started between two ledgers: the usage table gains
exactly the events of the trace; no worker bills a quote hash twice, so a hash has at most as
many usage events as there are workers; and each event bills the partner of a row the registry
held at the start, with its fee. -/
theorem run_bills_per_worker (s : IndexerState) (workers : List Worker)
    (hidle : ∀ w ∈ workers, w.phase = .idle) (sched : List Nat) {sys : IndexerSystem}
    {trace : List (Nat × UsageEvent)}
    (hrun : IndexerSystem.run ⟨s, workers⟩ sched = (sys, trace)) :
    sys.db.usage = s.usage ++ trace.map (·.2) ∧ (∀ i, (billedBy i trace).Nodup) ∧
      (∀ h, (trace.filter fun x => x.2.quoteHash = h).length ≤ workers.length) ∧
      ∀ x ∈ trace, BillsRow s.registry x.2 := by
  have hs := (SystemInv.init s workers hidle).run sched
  have hlen := IndexerSystem.length_run sched ⟨s, workers⟩
  rw [hrun] at hs hlen
  rw [List.nil_append] at hs
  have hnodup : ∀ i, (billedBy i trace).Nodup := fun i => by
    rcases hi : sys.workers[i]? with _ | w
    · -- no such worker: it billed nothing
      rw [billedBy, List.filter_eq_nil_iff.mpr fun x hx => ?_]
      · exact List.nodup_nil
      have := hs.lt x hx
      rw [List.getElem?_eq_none_iff] at hi
      simpa using (this.trans_le hi).ne
    · exact (hs.workers hi).nodup
  refine ⟨hs.usage, hnodup, fun h => ?_, hs.bills⟩
  rw [← List.length_map _ (·.1), ← hlen]
  exact length_le_of_nodup_lt (nodup_workers_of_billedBy h trace hnodup) fun i hi => by
    obtain ⟨x, hx, rfl⟩ := List.mem_map.mp hi
    exact hs.lt x (List.mem_filter.mp hx).1


/-- The live loop on ledger 2 and the backfill goroutine on ledger 1, each with a payment carrying
the hash of the one row of `sampleState`. -/
def twiceWorkers : List Worker :=
  [⟨[sampleLedger 2 "t2"], .idle⟩, ⟨[sampleLedger 1 "t1"], .idle⟩]

/-- Both goroutines read the row before either deletes it. -/
def twiceRun : IndexerSystem × List (Nat × UsageEvent) :=
  IndexerSystem.run ⟨sampleState, twiceWorkers⟩ [0, 0, 1, 1, 0, 0, 1, 1]

/-- The bound is reached: the two goroutines bill the quote twice. -/
theorem run_bills_twice :
    twiceRun.2.map (·.2.quoteHash) = [[7], [7]] ∧
      (twiceRun.1.db.usage = sampleState.usage ++ twiceRun.2.map (·.2) ∧
        (∀ i, (billedBy i twiceRun.2).Nodup) ∧
        (∀ h, (twiceRun.2.filter fun x => x.2.quoteHash = h).length ≤ twiceWorkers.length) ∧
        ∀ x ∈ twiceRun.2, BillsRow sampleState.registry x.2) :=
  ⟨by decide, @run_bills_per_worker sampleState twiceWorkers (by decide) [0, 0, 1, 1, 0, 0, 1, 1]
    twiceRun.1 twiceRun.2 rfl⟩

end Lucendex.Indexer
