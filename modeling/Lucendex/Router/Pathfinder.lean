import Lucendex.Router.Types
import Mathlib.Data.List.AList

/-!
# The pathfinder

`findBestRoute` follows `FindBestRoute`: it builds the graph of the snapshot (`buildGraph`: two
edges per pool, one per offer, keyed by the assets' strings), runs `dijkstra` on it, and turns
the path into hops (`buildRoute`), pricing each hop with the first pool or offer that joins its
two assets (`findHop`).

`dijkstra` keeps the Go code's maps: `dist` holds `decimal.NewFromFloat(math.MaxFloat64)` for
every asset with outgoing edges and reads as the zero decimal elsewhere, `prev` reads as `""`
where it has no entry.  Its priority queue is the slice of `container/heap`, with `up`, `down`,
`Push` and `Pop` as that package writes them, so that ties between equal costs are broken as in
the code.  The loops of the heap, of Dijkstra and of the path reconstruction are run on fuel:
`up` and `down` on the heap's length, Dijkstra on one iteration per heap entry, at most one more
than the number of edges, and the path on one step per entry of `prev`.  Where the fuel ends
before the loop does, the model answers `none`, the code not returning.

A panic of a decimal division by zero inside the computation of a hop is the error
`decimalDivisionByZero`.
-/

namespace Lucendex.Router

open Lucendex.Decimal

/-- `MaxHops`. -/
def maxHops : Nat := 3

/-- A `Pathfinder`: the snapshot's pools and offers. -/
structure Pathfinder where
  pools : List AMMPool
  offers : List Offer

/-- An `edge`, without its pointers to the pool or the offer, which nothing reads. -/
structure Edge where
  «to» : String
  weight : Decimal
  deriving DecidableEq, Repr

/-- The graph `map[string][]edge`. -/
abbrev Graph := AList (fun _ : String => List Edge)

/-- `graph[k]`: the edges out of `k`, none if `k` has no entry. -/
def Graph.edges (g : Graph) (k : String) : List Edge :=
  (g.lookup k).getD []

/-- `graph[k] = append(graph[k], e)`. -/
def Graph.addEdge (g : Graph) (k : String) (e : Edge) : Graph :=
  g.insert k (g.edges k ++ [e])

/-- The number of edges of the graph. -/
def Graph.edgeCount (g : Graph) : Nat :=
  (g.entries.map fun e => e.2.length).sum

/-- `decimal.NewFromInt(1).Sub(decimal.NewFromInt(int64(bps)).Div(decimal.NewFromInt(10000)))`. -/
def feeMultiplier (bps : Int) : Decimal :=
  (newFromInt 1).sub ((newFromInt bps).divNonzero (newFromInt 10000) (by decide))

/-- The two edges `buildGraph` adds for a pool, one each way, weighted by its fee multiplier. -/
def Graph.addPool (g : Graph) (pool : AMMPool) : Graph :=
  (g.addEdge pool.asset1.toString ⟨pool.asset2.toString, feeMultiplier pool.tradingFeeBps⟩).addEdge
    pool.asset2.toString ⟨pool.asset1.toString, feeMultiplier pool.tradingFeeBps⟩

/-- The edge `buildGraph` adds for an offer, from `TakerPays` to `TakerGets`, weighted by its
quality. -/
def Graph.addOffer (g : Graph) (offer : Offer) : Graph :=
  g.addEdge offer.takerPays.toString ⟨offer.takerGets.toString, offer.quality⟩

/-- `pf.buildGraph()`. -/
def Pathfinder.buildGraph (pf : Pathfinder) : Graph :=
  pf.offers.foldl Graph.addOffer (pf.pools.foldl Graph.addPool ∅)

/-! ### The priority queue -/

/-- A heap `node`: the asset and its cost; the `index` field only serves `heap.Fix`, which the
code never calls. -/
structure Node where
  asset : String
  cost : Decimal
  deriving DecidableEq, Repr, Inhabited

namespace PriorityQueue

/-- `pq.Less(i, j)`. -/
def less (h : List Node) (i j : Nat) : Bool :=
  (h.getD i default).cost.lessThan (h.getD j default).cost

/-- `pq.Swap(i, j)`. -/
def swap (h : List Node) (i j : Nat) : List Node :=
  (h.set i (h.getD j default)).set j (h.getD i default)

/-- `up(h, j)` of `container/heap`: the element at `j` climbs while it is less than its
parent. -/
def up (h : List Node) : Nat → Nat → List Node
  | 0, _ => h
  | fuel + 1, j =>
    let i := (j - 1) / 2
    if i = j || !less h j i then h else up (swap h i j) fuel i

/-- `down(h, i, n)` of `container/heap`: the element at `i` sinks below its lesser child while
that child is less. -/
def down (n : Nat) (h : List Node) : Nat → Nat → List Node
  | 0, _ => h
  | fuel + 1, i =>
    let j1 := 2 * i + 1
    if n ≤ j1 then h
    else
      let j := if j1 + 1 < n && less h (j1 + 1) j1 then j1 + 1 else j1
      if !less h j i then h else down n (swap h i j) fuel j

/-- `heap.Push(&pq, x)`. -/
def push (h : List Node) (x : Node) : List Node :=
  up (h ++ [x]) (h.length + 1) h.length

/-- `heap.Pop(&pq)`, `none` on an empty queue. -/
def pop (h : List Node) : Option (Node × List Node) :=
  let n := h.length - 1
  let h := down n (swap h 0 n) n 0
  h.getLast?.map fun x => (x, h.dropLast)

end PriorityQueue

/-! ### Dijkstra -/

/-- `decimal.NewFromFloat(math.MaxFloat64)`, that is `1.7976931348623157e308`. -/
def maxFloat64 : Decimal :=
  new 17976931348623157 292

/-- The maps and the queue of `dijkstra`; an asset is visited when it is in `visited`. -/
structure DijkstraState where
  dist : AList (fun _ : String => Decimal)
  prev : AList (fun _ : String => String)
  visited : List String
  pq : List Node

namespace DijkstraState

/-- `dist[k]`, the zero decimal where there is no entry. -/
def distOf (st : DijkstraState) (k : String) : Decimal :=
  (st.dist.lookup k).getD zero

/-- `prev[k]`, the empty string where there is no entry. -/
def prevOf (st : DijkstraState) (k : String) : String :=
  (st.prev.lookup k).getD ""

/-- The body of the inner loop over the edges of `current`. -/
def relax (current : Node) (st : DijkstraState) (e : Edge) : DijkstraState :=
  if e.«to» ∈ st.visited then st
  else
    let newCost := current.cost.add ((newFromInt 1).sub e.weight)
    if newCost.lessThan (st.distOf e.«to») then
      { st with
        dist := st.dist.insert e.«to» newCost
        prev := st.prev.insert e.«to» current.asset
        pq := PriorityQueue.push st.pq ⟨e.«to», newCost⟩ }
    else st

end DijkstraState

/-- The loop `for pq.Len() > 0`, one iteration per unit of fuel. -/
def dijkstraLoop (graph : Graph) (target : String) : Nat → DijkstraState → Option DijkstraState
  | 0, st => if st.pq = [] then some st else none
  | fuel + 1, st =>
    match PriorityQueue.pop st.pq with
    | none => some st
    | some (current, pq) =>
      let st := { st with pq := pq }
      if current.asset ∈ st.visited then dijkstraLoop graph target fuel st
      else
        let st := { st with visited := current.asset :: st.visited }
        if current.asset = target then some st
        else dijkstraLoop graph target fuel ((graph.edges current.asset).foldl (·.relax current) st)

/-- The path reconstruction loop `for at := end; at != ""; at = prev[at]`, which prepends each
asset to `path` and stops after `start`. -/
def buildPath (st : DijkstraState) (start : String) : Nat → String → List String → Option (List String)
  | fuel, «at», path =>
    if «at» = "" then some path
    else if «at» = start then some («at» :: path)
    else
      match fuel with
      | 0 => none
      | fuel + 1 => buildPath st start fuel (st.prevOf «at») («at» :: path)

/-- The state before the loop: `dist` at `MaxFloat64` for every asset with edges and at zero for
`start`, and `start` alone in the queue. -/
def dijkstraInit (graph : Graph) (start : String) : DijkstraState :=
  let dist := graph.keys.foldl (fun (d : AList fun _ : String => Decimal) k => d.insert k maxFloat64) ∅
  ⟨dist.insert start zero, ∅, [], [⟨start, zero⟩]⟩

/-- What `dijkstra` returns after its loop: the `nil` path and the zero cost when `end` was
never reached, else the path rebuilt from `prev` and `dist[end]`. -/
def dijkstraFinish (start target : String) (st : DijkstraState) :
    Option (Option (List String) × Decimal) :=
  if (st.prev.lookup target).isNone && start ≠ target then some (none, zero)
  else (buildPath st start (st.prev.keys.length + 1) target []).map fun path =>
    (some path, st.distOf target)

/-- `pf.dijkstra(graph, start, end)`: `none` for the `nil` path. -/
def dijkstra (graph : Graph) (start target : String) : Option (Option (List String) × Decimal) :=
  (dijkstraLoop graph target (graph.edgeCount + 1) (dijkstraInit graph start)).bind
    (dijkstraFinish start target)

/-! ### Hops and routes -/

/-- `pf.calculateAMMOutput(pool, amountIn, asset1ToAsset2)`, `none` when the denominator is
zero. -/
def calculateAMMOutput (pool : AMMPool) (amountIn : Decimal) (asset1ToAsset2 : Bool) :
    Option Decimal :=
  let reserveIn := if asset1ToAsset2 then pool.asset1Reserve else pool.asset2Reserve
  let reserveOut := if asset1ToAsset2 then pool.asset2Reserve else pool.asset1Reserve
  let amountInAfterFee := amountIn.mul (feeMultiplier pool.tradingFeeBps)
  (amountInAfterFee.mul reserveOut).div (reserveIn.add amountInAfterFee)

/-- The first pool joining `from` to `to`, with the direction it is traded in. -/
def findPool («from» «to» : String) : List AMMPool → Option (AMMPool × Bool)
  | [] => none
  | pool :: pools =>
    if pool.asset1.toString = «from» ∧ pool.asset2.toString = «to» then some (pool, true)
    else if pool.asset2.toString = «from» ∧ pool.asset1.toString = «to» then some (pool, false)
    else findPool «from» «to» pools

namespace Pathfinder

/-- `pf.findHop(from, to, amountIn)`: the first pool joining the two assets, else the first
offer from `from` to `to`. -/
def findHop (pf : Pathfinder) («from» «to» : String) (amountIn : Decimal) :
    Except RouterError (Option Hop) :=
  match findPool «from» «to» pf.pools with
  | some (pool, dir) =>
    match calculateAMMOutput pool amountIn dir with
    | none => .error .decimalDivisionByZero
    | some amountOut =>
      .ok (some ⟨"amm", if dir then pool.asset1 else pool.asset2,
        if dir then pool.asset2 else pool.asset1, amountIn, amountOut⟩)
  | none =>
    match pf.offers.find? fun o => o.takerPays.toString = «from» ∧ o.takerGets.toString = «to» with
    | some offer =>
      .ok (some ⟨"orderbook", offer.takerPays, offer.takerGets, amountIn, amountIn.mul offer.quality⟩)
    | none => .ok none

/-- The loop of `buildRoute` over consecutive assets of the path, each hop taking the previous
hop's output. -/
def buildHops (pf : Pathfinder) : List String → Decimal → Except RouterError (Option (List Hop))
  | a :: b :: rest, amount => do
    match ← pf.findHop a b amount with
    | none => return none
    | some hop => return (← pf.buildHops (b :: rest) hop.amountOut).map (hop :: ·)
  | _, _ => return some []

/-- `pf.buildRoute(path, amount)`: `none` for the `nil` route. -/
def buildRoute (pf : Pathfinder) (path : List String) (amount : Decimal) :
    Except RouterError (Option Route) :=
  if path.length < 2 then .ok none
  else (pf.buildHops path amount).map (·.map fun hops => ⟨hops, ⟨0, zero, zero⟩, zero⟩)

/-- `pf.FindBestRoute(in, out, amount)`. -/
def findBestRoute (pf : Pathfinder) («in» out : Asset) (amount : Decimal) :
    Option (Except RouterError Route) :=
  (dijkstra pf.buildGraph «in».toString out.toString).map fun (path, _) =>
    match path with
    | none => .error .errNoRoute
    | some path =>
      if path.length > maxHops + 1 then .error .errNoRoute
      else
        match pf.buildRoute path amount with
        | .error e => .error e
        | .ok none => .error .errInsufficientLiquidity
        | .ok (some route) => .ok route

/-- Without pools or offers no route is ever found: `dijkstra` stops after the start, so two
different assets have no path, and where the two assets are one, the path of the start alone
gives no hops and is reported as insufficient liquidity. -/
theorem findBestRoute_empty («in» out : Asset) (amount : Decimal) :
    (⟨[], []⟩ : Pathfinder).findBestRoute «in» out amount = some (.error
      (if «in».toString = out.toString then .errInsufficientLiquidity else .errNoRoute)) := by
  by_cases h : «in».toString = out.toString
  · rw [if_pos h]
    simp only [findBestRoute, dijkstra, dijkstraLoop, dijkstraInit, PriorityQueue.pop,
      PriorityQueue.swap, PriorityQueue.down, dijkstraFinish, Graph.edges, Graph.edgeCount,
      buildGraph, h, buildPath, buildRoute, maxHops]
    split_ifs <;> simp
  · rw [if_neg h]
    simp [findBestRoute, dijkstra, dijkstraLoop, dijkstraInit, PriorityQueue.pop,
      PriorityQueue.swap, PriorityQueue.down, dijkstraFinish, Graph.edges, Graph.edgeCount,
      buildGraph, h]

end Pathfinder

end Lucendex.Router
