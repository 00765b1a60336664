import Lucendex.Router.Pathfinder

/-!
# The routes the pathfinder returns

`FindBestRoute` runs Dijkstra on the graph of the snapshot, rebuilds the path from `prev`, and
prices each step of the path with the first pool or offer that joins its two assets.

Every route it returns is a chain of one to `MaxHops` hops along a path that ends at the
requested output (`Pathfinder.Chain`, `findBestRoute_chain`): each hop goes from one asset of the
path to the next, takes in what the hop before it gave out, the first the requested amount, and
is priced by a pool in one of its directions or by an offer.  `dijkstra`'s answer depends on the
state its loop ends in through `prev` and `dist[end]` only (`dijkstra_of_loop`).

Three of the code's choices show on small snapshots.

* The reconstruction loop `for at := end; at != ""; at = prev[at]` takes the empty string for
  "no predecessor".  An asset whose string is empty, with an empty currency and issuer, is a
  node of the graph like any other, and the loop stops there: the route then starts after it,
  not at the requested input (`findBestRoute_truncated_path`).  Without such an asset every
  route starts at the input (`Router.Predecessors`).
* `dist` has an entry only for the assets with outgoing edges, and reads as zero for the
  others.  An asset that only an offer leads to, at a quality of at most 1, is never relaxed;
  and the hop cap is applied to the cheapest path only, so a cheaper path of four hops hides a
  direct pool.  Either way the answer is `ErrNoRoute` although a route of one hop exists
  (`findBestRoute_misses_route`).
* Dijkstra relaxes every parallel edge and keeps the cheapest, but `findHop` prices the step
  with the first pool joining the two assets: the route can cost more than the path Dijkstra
  found (`findHop_prices_first_pool`).
-/

namespace Lucendex.Router

open Lucendex.Decimal

/-! ### Dijkstra's answer from the state its loop ends in -/

namespace DijkstraState

variable {st st' : DijkstraState}

/-- The path rebuilt from `prev` reads nothing else of the state. -/
theorem buildPath_congr (h : st.prev = st'.prev) (start : String) (fuel : Nat) :
  ∀ a path, buildPath st start fuel a path = buildPath st' start fuel a path
  := by
  induction fuel with
  | zero => intro a path; rw [buildPath, buildPath]
  | succ fuel ih => intro a path; rw [buildPath, buildPath, prevOf, prevOf, h, ih]

/-- What `dijkstra` returns after its loop reads `prev` and `dist[end]` only. -/
theorem dijkstraFinish_congr {start target : String} (hp : st.prev = st'.prev)
    (hd : st.distOf target = st'.distOf target) :
  dijkstraFinish start target st = dijkstraFinish start target st'
  := by
  simp only [dijkstraFinish, hp, hd, buildPath_congr hp]

end DijkstraState

/-- `dijkstra` answers as on any state with the `prev` and `dist[end]` its loop ends with. -/
theorem dijkstra_of_loop {g : Graph} {start target : String} (st' : DijkstraState)
    (h : (dijkstraLoop g target (g.edgeCount + 1) (dijkstraInit g start)).map
      (fun st => (st.prev.entries, st.distOf target)) = some (st'.prev.entries, st'.distOf target)) :
  dijkstra g start target = dijkstraFinish start target st'
  := by
  obtain ⟨st, hst, he⟩ := Option.map_eq_some'.mp h
  simp only [Prod.mk.injEq] at he
  rw [dijkstra, hst, Option.some_bind]
  exact DijkstraState.dijkstraFinish_congr (AList.ext he.1) he.2

/-! ### What a returned route is -/

namespace Pathfinder

/-- `hop` is priced by the snapshot: an `amm` hop through a pool in one of its two directions,
with the pool's output for its input, or an `orderbook` hop along an offer, with its input times
the offer's quality. -/
def Prices (pf : Pathfinder) (hop : Hop) : Prop :=
  (∃ pool ∈ pf.pools, ∃ dir : Bool, hop.type = "amm" ∧
    hop.in = (if dir then pool.asset1 else pool.asset2) ∧
    hop.out = (if dir then pool.asset2 else pool.asset1) ∧
    calculateAMMOutput pool hop.amountIn dir = some hop.amountOut) ∨
  (∃ offer ∈ pf.offers, hop.type = "orderbook" ∧ hop.in = offer.takerPays ∧
    hop.out = offer.takerGets ∧ hop.amountOut = hop.amountIn.mul offer.quality)

/-- `hops` lead along the asset strings `path` from the amount `amount`: each hop goes from one
asset of the path to the next, takes in what the hop before it gave out, and is priced by the
snapshot. -/
inductive Chain (pf : Pathfinder) : List String → Decimal → List Hop → Prop
  | last (a : String) (amount : Decimal) : Chain pf [a] amount []
  | hop {amount : Decimal} {hop : Hop} {rest : List String} {hops : List Hop} :
      hop.amountIn = amount → pf.Prices hop → Chain pf (hop.out.toString :: rest) hop.amountOut hops →
      Chain pf (hop.in.toString :: hop.out.toString :: rest) amount (hop :: hops)

variable {pf : Pathfinder} {path : List String} {amount : Decimal} {hops : List Hop}

theorem Chain.length_eq (h : pf.Chain path amount hops) : path.length = hops.length + 1 := by
  induction h with
  | last => rfl
  | hop _ _ _ ih => simp only [List.length_cons, ih]

/-- The first hop of a chain leaves from the first asset of its path. -/
theorem Chain.head_in (h : pf.Chain path amount hops) (hne : hops ≠ []) :
    (hops.head?.map fun hop => hop.in.toString) = path.head? := by
  cases h with
  | last => exact absurd rfl hne
  | hop => rfl

/-- After its first asset, the path of a chain lists its hops' outputs. -/
theorem Chain.tail_eq (h : pf.Chain path amount hops) :
    path.tail = hops.map fun hop => hop.out.toString := by
  induction h with
  | last => rfl
  | hop _ _ _ ih => rw [List.map_cons, ← ih]; rfl

/-- The last hop of a chain arrives at the last asset of its path. -/
theorem Chain.getLast_out (h : pf.Chain path amount hops) (hne : hops ≠ []) :
    (hops.getLast?.map fun hop => hop.out.toString) = path.getLast? := by
  cases h with
  | last => exact absurd rfl hne
  | hop _ _ hrest =>
    have hrest := hrest.tail_eq
    rw [List.tail_cons] at hrest
    rw [List.getLast?_cons_cons, hrest, ← List.getLast?_map]
    rfl

end Pathfinder

/-- The pool `findPool` picks is one of the pools, and joins `from` to `to` in the direction it
returns. -/
theorem findPool_spec {«from» «to» : String} {pools : List AMMPool} {pool : AMMPool} {dir : Bool}
    (h : findPool «from» «to» pools = some (pool, dir)) :
  pool ∈ pools ∧ (if dir then pool.asset1 else pool.asset2).toString = «from» ∧
    (if dir then pool.asset2 else pool.asset1).toString = «to»
  := by
  induction pools with
  | nil => simp [findPool] at h
  | cons p pools ih =>
    simp only [findPool] at h
    split_ifs at h with h1 h2
    · obtain ⟨rfl, rfl⟩ := Prod.mk.inj (Option.some.inj h)
      exact ⟨List.mem_cons_self _ _, h1⟩
    · obtain ⟨rfl, rfl⟩ := Prod.mk.inj (Option.some.inj h)
      exact ⟨List.mem_cons_self _ _, h2⟩
    · obtain ⟨hm, h'⟩ := ih h
      exact ⟨List.mem_cons_of_mem _ hm, h'⟩

namespace Pathfinder

variable {pf : Pathfinder} {«from» «to» : String} {amountIn : Decimal} {hop : Hop}

/-- A hop `findHop` finds goes from `from` to `to`, takes in `amountIn`, and is priced by the
snapshot. -/
theorem findHop_spec (h : pf.findHop «from» «to» amountIn = .ok (some hop)) :
  hop.in.toString = «from» ∧ hop.out.toString = «to» ∧ hop.amountIn = amountIn ∧ pf.Prices hop
  := by
  unfold findHop at h
  split at h
  · rename_i pool dir hpool
    obtain ⟨hmem, hin, hout⟩ := findPool_spec hpool
    split at h
    · cases h
    · rename_i out hcalc
      obtain rfl := Option.some.inj (Except.ok.inj h).symm
      exact ⟨hin, hout, rfl, .inl ⟨pool, hmem, dir, rfl, rfl, rfl, hcalc⟩⟩
  · split at h
    · rename_i offer hoffer
      obtain rfl := Option.some.inj (Except.ok.inj h).symm
      have hp := List.find?_some hoffer
      simp only [decide_eq_true_eq] at hp
      exact ⟨hp.1, hp.2, rfl, .inr ⟨offer, List.mem_of_find?_eq_some hoffer, rfl, rfl, rfl, rfl⟩⟩
    · cases h

/-- The hops `buildRoute`'s loop returns for a path lead along it. -/
theorem buildHops_chain : ∀ {path : List String} {amount : Decimal} {hops : List Hop},
    path ≠ [] → pf.buildHops path amount = .ok (some hops) → pf.Chain path amount hops := by
  intro path
  induction path with
  | nil => exact fun hne => absurd rfl hne
  | cons a rest ih =>
    intro amount hops _ h
    cases rest with
    | nil =>
      obtain rfl := Option.some.inj (Except.ok.inj h).symm
      exact .last a amount
    | cons b rest =>
      simp only [buildHops, bind, Except.bind] at h
      rcases hf : pf.findHop a b amount with e | _ | hop <;> simp only [hf] at h
      · cases h
      · cases h
      rcases hb : pf.buildHops (b :: rest) hop.amountOut with e | _ | hops' <;> simp only [hb] at h
      · cases h
      · cases h
      obtain rfl := Option.some.inj (Except.ok.inj h).symm
      obtain ⟨rfl, rfl, hamount, hprices⟩ := findHop_spec hf
      exact .hop hamount hprices (ih (List.cons_ne_nil _ _) hb)

end Pathfinder

/-- The path rebuilt from `prev` is the assets the loop prepends to `acc`, the last of them the
one it starts from, unless that is the empty string. -/
theorem buildPath_last {st : DijkstraState} {start : String} :
    ∀ (fuel : Nat) (a : String) (acc path : List String), buildPath st start fuel a acc = some path →
      ∃ pre, path = pre ++ acc ∧ (a ≠ "" → pre.getLast? = some a)
  | fuel, a, acc, path, h => by
    unfold buildPath at h
    split_ifs at h with ha hs
    · exact ⟨[], (Option.some.inj h).symm, fun h' => absurd ha h'⟩
    · exact ⟨[a], (Option.some.inj h).symm, fun _ => rfl⟩
    · cases fuel with
      | zero => cases h
      | succ fuel =>
        obtain ⟨pre, rfl, -⟩ := buildPath_last fuel _ _ _ h
        exact ⟨pre ++ [a], by simp, fun _ => List.getLast?_concat _⟩

/-- `dijkstra` answers that there is no path when `end` has no predecessor and is not `start`,
and otherwise walks back from `end`. -/
theorem dijkstraFinish_cases (start target : String) (st : DijkstraState) :
  dijkstraFinish start target st = some (none, zero) ∨
    ((target = start ∨ target ∈ st.prev) ∧ dijkstraFinish start target st =
      (buildPath st start (st.prev.keys.length + 1) target []).map fun path =>
        (some path, st.distOf target))
  := by
  unfold dijkstraFinish
  split_ifs with hnone
  · exact .inl rfl
  refine .inr ⟨?_, rfl⟩
  by_cases hk : target ∈ st.prev
  · exact .inr hk
  · rw [AList.lookup_eq_none.mpr hk] at hnone
    simp only [Option.isNone_none, Bool.true_and, decide_eq_true_eq, not_not] at hnone
    exact .inl hnone.symm

/-- A path `dijkstra` returns is the walk back from `end` over the state its loop ends in, and
`end` is `start` or has a predecessor there. -/
theorem dijkstra_eq_some {g : Graph} {start target : String} {path : List String} {cost : Decimal}
    (h : dijkstra g start target = some (some path, cost)) :
  ∃ st, dijkstraLoop g target (g.edgeCount + 1) (dijkstraInit g start) = some st ∧
    (target = start ∨ target ∈ st.prev) ∧
    buildPath st start (st.prev.keys.length + 1) target [] = some path
  := by
  obtain ⟨st, hloop, hfin⟩ := Option.bind_eq_some.mp h
  rcases dijkstraFinish_cases start target st with hf | ⟨hend, hf⟩ <;> rw [hf] at hfin
  · cases hfin
  obtain ⟨path', hbp, hpath⟩ := Option.map_eq_some'.mp hfin
  obtain rfl : path' = path := Option.some.inj (Prod.mk.inj hpath).1
  exact ⟨st, hloop, hend, hbp⟩

/-- `dijkstra`'s path, when not empty, ends at `end`. -/
theorem dijkstra_getLast {g : Graph} {start target : String} {path : List String} {cost : Decimal}
    (h : dijkstra g start target = some (some path, cost)) (hne : path ≠ []) :
  path.getLast? = some target
  := by
  obtain ⟨st, -, -, hbp⟩ := dijkstra_eq_some h
  obtain ⟨pre, rfl, hlast⟩ := buildPath_last _ _ _ _ hbp
  by_cases ht : target = ""
  · rw [ht, buildPath, if_pos rfl] at hbp
    exact absurd (Option.some.inj hbp).symm hne
  · simpa using hlast ht

namespace Pathfinder

variable {pf : Pathfinder} {«in» out : Asset} {amount : Decimal} {route : Route}

/-- A route `FindBestRoute` returns is made of the hops `buildRoute`'s loop finds along
`dijkstra`'s path, which has two to `MaxHops + 1` assets. -/
theorem findBestRoute_eq_ok (h : pf.findBestRoute «in» out amount = some (.ok route)) :
  ∃ path cost, dijkstra pf.buildGraph «in».toString out.toString = some (some path, cost) ∧
    2 ≤ path.length ∧ path.length ≤ maxHops + 1 ∧ pf.buildHops path amount = .ok (some route.hops)
  := by
  obtain ⟨⟨_ | path, cost⟩, hd, hr⟩ := Option.map_eq_some'.mp h
  · cases hr
  simp only at hr
  split_ifs at hr with hlen
  rcases hb : pf.buildRoute path amount with e | _ | route' <;> simp only [hb] at hr
  · cases hr
  · cases hr
  obtain rfl := Except.ok.inj hr
  unfold buildRoute at hb
  split_ifs at hb with h2
  · cases hb
  rcases hh : pf.buildHops path amount with e | _ | hops <;>
    simp only [hh, Except.map, Option.map_none', Option.map_some'] at hb
  · cases hb
  · cases hb
  obtain rfl := Option.some.inj (Except.ok.inj hb)
  exact ⟨path, cost, hd, by omega, by omega, hh⟩

end Pathfinder

/-- Every route `FindBestRoute` returns is a chain of one to `MaxHops` hops along a path of asset
strings that ends at `out`: each hop goes from one asset of the path to the next and takes in
what the hop before it gave out, the first the requested amount, and each is priced by a pool or
an offer of the snapshot.  Where the path starts is another matter
(`findBestRoute_truncated_path`). -/
theorem findBestRoute_chain {pf : Pathfinder} {«in» out : Asset} {amount : Decimal} {route : Route}
    (h : pf.findBestRoute «in» out amount = some (.ok route)) :
  ∃ path, pf.Chain path amount route.hops ∧ path.getLast? = some out.toString ∧
    1 ≤ route.hops.length ∧ route.hops.length ≤ maxHops
  := by
  obtain ⟨path, _, hd, h2, hlen, hh⟩ := Pathfinder.findBestRoute_eq_ok h
  have hne : path ≠ [] := List.ne_nil_of_length_pos (by omega)
  have hchain := Pathfinder.buildHops_chain hne hh
  have hlength := hchain.length_eq
  exact ⟨path, hchain, dijkstra_getLast hd hne, by omega, by omega⟩

set_option exponentiation.threshold 400 in
/-- One pool `XRP/USD` with reserves 10000 and 15000 at 30 bps: the route for 1 XRP is its one
hop. -/
theorem findBestRoute_chain_one_pool :
  (let xrp : Asset := ⟨"XRP", ""⟩;
    let usd : Asset := ⟨"USD", "rvYAfWj5gh67oV6fW32ZzP3Aw4Eubs59B"⟩;
    let pf : Pathfinder := ⟨[⟨xrp, usd, newFromInt 10000, newFromInt 15000, 30⟩], []⟩;
    let route : Route :=
      ⟨[⟨"amm", xrp, usd, newFromInt 1, new 14953509135139227 (-16)⟩], ⟨0, zero, zero⟩, zero⟩;
    pf.findBestRoute xrp usd (newFromInt 1) = some (.ok route) ∧
      ∃ path, pf.Chain path (newFromInt 1) route.hops ∧ path.getLast? = some usd.toString ∧
        1 ≤ route.hops.length ∧ route.hops.length ≤ maxHops)
  := ⟨by decide, @findBestRoute_chain _ ⟨"XRP", ""⟩ _ _ _ (by decide)⟩

/-! ### Three runs -/

set_option exponentiation.threshold 400 in
/-- Three pools at 30 bps, `XRP` to the asset with the empty string, that asset to `USD`, and
`USD` to `EUR`, each with reserves 1000 and 1000.  Dijkstra reaches `EUR` through all three, but
the path rebuilt from `prev` stops at the empty string, and `FindBestRoute(XRP, EUR, 10)` returns
the one hop `USD` to `EUR`, taking in the 10 `XRP` as `USD`. -/
theorem findBestRoute_truncated_path :
  (let xrp : Asset := ⟨"XRP", ""⟩;
    let blank : Asset := ⟨"", ""⟩;
    let usd : Asset := ⟨"USD", "rvYAfWj5gh67oV6fW32ZzP3Aw4Eubs59B"⟩;
    let eur : Asset := ⟨"EUR", "rvYAfWj5gh67oV6fW32ZzP3Aw4Eubs59B"⟩;
    let pf : Pathfinder := ⟨[⟨xrp, blank, newFromInt 1000, newFromInt 1000, 30⟩,
      ⟨blank, usd, newFromInt 1000, newFromInt 1000, 30⟩,
      ⟨usd, eur, newFromInt 1000, newFromInt 1000, 30⟩], []⟩;
    blank.toString = "" ∧
      (dijkstraLoop pf.buildGraph eur.toString (pf.buildGraph.edgeCount + 1)
        (dijkstraInit pf.buildGraph xrp.toString)).map
          (fun st => [st.prevOf eur.toString, st.prevOf usd.toString, st.prevOf blank.toString]) =
        some [usd.toString, blank.toString, xrp.toString] ∧
      pf.findBestRoute xrp eur (newFromInt 10) =
        some (.ok ⟨[⟨"amm", usd, eur, newFromInt 10, new 98715803439706130 (-16)⟩], ⟨0, zero, zero⟩,
          zero⟩) ∧
      xrp.toString ≠ usd.toString)
  := by
  refine ⟨rfl, by decide, ?_, by decide⟩
  rw [Pathfinder.findBestRoute, dijkstra_of_loop
    ⟨(∅ : AList _).insert "EUR.rvYAfWj5gh67oV6fW32ZzP3Aw4Eubs59B" (new 90000000000000 (-16)),
      (((∅ : AList _).insert "" "XRP").insert "USD.rvYAfWj5gh67oV6fW32ZzP3Aw4Eubs59B" "").insert
        "EUR.rvYAfWj5gh67oV6fW32ZzP3Aw4Eubs59B" "USD.rvYAfWj5gh67oV6fW32ZzP3Aw4Eubs59B", [], []⟩
    ?loop]
  · decide
  case loop => decide

set_option exponentiation.threshold 400 in
/-- Two snapshots with a route of one hop for which `FindBestRoute` answers `ErrNoRoute`.  In
the first, one offer turns `XRP` into `USD` at the quality 0.5: `USD` has no `dist` entry, reads
as zero, and the cost 0.5 of the edge is not below it.  In the second, a pool `AAA/BBB` at
5000 bps sits beside the chain `AAA`, `CCC`, `DDD`, `EEE`, `BBB` of pools at 0 bps, which
Dijkstra prefers; that path has five assets, one more than `MaxHops + 1`. -/
theorem findBestRoute_misses_route :
  (let xrp : Asset := ⟨"XRP", ""⟩;
    let usd : Asset := ⟨"USD", "rvYAfWj5gh67oV6fW32ZzP3Aw4Eubs59B"⟩;
    let pf : Pathfinder := ⟨[], [⟨xrp, usd, new 5 (-1)⟩]⟩;
    pf.buildGraph.edges xrp.toString = [⟨usd.toString, new 5 (-1)⟩] ∧
      pf.findBestRoute xrp usd (newFromInt 10) = some (.error .errNoRoute)) ∧
  (let a : Asset := ⟨"AAA", ""⟩;
    let b : Asset := ⟨"BBB", ""⟩;
    let c : Asset := ⟨"CCC", ""⟩;
    let d : Asset := ⟨"DDD", ""⟩;
    let e : Asset := ⟨"EEE", ""⟩;
    let pf : Pathfinder := ⟨[⟨a, b, newFromInt 1000, newFromInt 1000, 5000⟩,
      ⟨a, c, newFromInt 1000, newFromInt 1000, 0⟩, ⟨c, d, newFromInt 1000, newFromInt 1000, 0⟩,
      ⟨d, e, newFromInt 1000, newFromInt 1000, 0⟩, ⟨e, b, newFromInt 1000, newFromInt 1000, 0⟩], []⟩;
    b.toString ∈ (pf.buildGraph.edges a.toString).map (·.«to») ∧
      (dijkstra pf.buildGraph a.toString b.toString).map (·.1) =
        some (some [a.toString, c.toString, d.toString, e.toString, b.toString]) ∧
      pf.findBestRoute a b (newFromInt 10) = some (.error .errNoRoute))
  := by
  have hd := @dijkstra_of_loop
    (Pathfinder.buildGraph ⟨[⟨⟨"AAA", ""⟩, ⟨"BBB", ""⟩, newFromInt 1000, newFromInt 1000, 5000⟩,
      ⟨⟨"AAA", ""⟩, ⟨"CCC", ""⟩, newFromInt 1000, newFromInt 1000, 0⟩,
      ⟨⟨"CCC", ""⟩, ⟨"DDD", ""⟩, newFromInt 1000, newFromInt 1000, 0⟩,
      ⟨⟨"DDD", ""⟩, ⟨"EEE", ""⟩, newFromInt 1000, newFromInt 1000, 0⟩,
      ⟨⟨"EEE", ""⟩, ⟨"BBB", ""⟩, newFromInt 1000, newFromInt 1000, 0⟩], []⟩)
    (Asset.toString ⟨"AAA", ""⟩) (Asset.toString ⟨"BBB", ""⟩)
    ⟨(∅ : AList _).insert "BBB" (new 0 (-16)),
      ((((∅ : AList _).insert "CCC" "AAA").insert "DDD" "CCC").insert "EEE" "DDD").insert "BBB" "EEE",
      [], []⟩ (by decide)
  refine ⟨by decide, by decide, by rw [hd]; decide, ?_⟩
  rw [Pathfinder.findBestRoute, hd]
  decide

set_option exponentiation.threshold 400 in
/-- Two pools `AAA/BBB` with reserves 1000 and 1000, at 100 bps and then at 10 bps.  Dijkstra
reaches `BBB` at the cost 0.001 of the second pool, but `findHop` prices the hop with the first:
the route `FindBestRoute(AAA, BBB, 10)` returns costs 0.01, and gives out less than the hop
through the second pool would. -/
theorem findHop_prices_first_pool :
  (let a : Asset := ⟨"AAA", ""⟩;
    let b : Asset := ⟨"BBB", ""⟩;
    let pool100 : AMMPool := ⟨a, b, newFromInt 1000, newFromInt 1000, 100⟩;
    let pool10 : AMMPool := ⟨a, b, newFromInt 1000, newFromInt 1000, 10⟩;
    let pf : Pathfinder := ⟨[pool100, pool10], []⟩;
    dijkstra pf.buildGraph a.toString b.toString =
        some (some [a.toString, b.toString], new 10000000000000 (-16)) ∧
      (newFromInt 1).sub (feeMultiplier pool10.tradingFeeBps) = new 10000000000000 (-16) ∧
      findPool a.toString b.toString pf.pools = some (pool100, true) ∧
      (newFromInt 1).sub (feeMultiplier pool100.tradingFeeBps) = new 100000000000000 (-16) ∧
      pf.findBestRoute a b (newFromInt 10) =
        some (.ok ⟨[⟨"amm", a, b, newFromInt 10, new 98029507872066541 (-16)⟩], ⟨0, zero, zero⟩,
          zero⟩) ∧
      calculateAMMOutput pool10 (newFromInt 10) true = some (new 98911870414558560 (-16)))
  := by decide

end Lucendex.Router
