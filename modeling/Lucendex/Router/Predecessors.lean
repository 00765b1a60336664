import Lucendex.Router.Routes
import Mathlib.Data.List.GetD

/-!
# Dijkstra's queue and predecessor map

The path `dijkstra` returns is rebuilt from `prev` by the loop
`for at := end; at != ""; at = prev[at]`, which stops after `start`.  It starts at `start`
unless the walk meets the empty string first.  The walk cannot meet it when no asset an edge
leads to, and not `start`, has the empty string: every asset the queue holds and every
predecessor is `start` or has a predecessor of its own, and no asset with a predecessor is the
empty string (`DijkstraState.Rooted`), from the first state on, through every relaxation and
every iteration of the loop.  The walk back from `end` is then the chain `end`, `prev[end]`,
... up to the first `start` (`DijkstraState.Rooted.buildPath_eq`), which meets no asset twice,
and every route `FindBestRoute` returns starts at `in` (`findBestRoute_starts_at_in`).  With the
chain of `Router.Routes` this is the whole of what a returned route is: one to `MaxHops` priced
hops from `in` to `out`, passing no asset twice (`findBestRoute_valid_route`).
`findBestRoute_truncated_path` is the route when an asset's string is empty.

The queue's heap operations only move its nodes about: `Push` adds one, `Pop` takes one out
(`PriorityQueue.mem_push`, `PriorityQueue.pop_eq_some`).
-/

namespace Lucendex.Router

open Lucendex.Decimal

/-! ### The queue keeps its nodes -/

namespace PriorityQueue

variable {h h' : List Node} {x y : Node}

theorem length_swap (h : List Node) (i j : Nat) :
  (swap h i j).length = h.length
  := by simp only [swap, List.length_set]

theorem getD_mem {i : Nat} (hi : i < h.length) :
  h.getD i default ∈ h
  := by
  rw [List.getD_eq_getElem _ _ hi]
  exact List.getElem_mem hi

theorem mem_swap {i j : Nat} (hi : i < h.length) (hj : j < h.length) (hx : x ∈ swap h i j) :
  x ∈ h
  := by
  rcases List.mem_or_eq_of_mem_set hx with hx | rfl
  · rcases List.mem_or_eq_of_mem_set hx with hx | rfl
    exacts [hx, getD_mem hj]
  · exact getD_mem hi

theorem mem_up : ∀ (fuel : Nat) {h : List Node} {j : Nat}, j < h.length → x ∈ up h fuel j → x ∈ h
  | 0, _, _, _, hx => hx
  | fuel + 1, h, j, hj, hx => by
    dsimp only [up] at hx
    split_ifs at hx
    · exact hx
    · have hi : (j - 1) / 2 < h.length := by omega
      exact mem_swap hi hj (mem_up fuel (by rw [length_swap]; exact hi) hx)

theorem mem_down {n : Nat} : ∀ (fuel : Nat) {h : List Node} {i : Nat}, n ≤ h.length →
    x ∈ down n h fuel i → x ∈ h
  | 0, _, _, _, hx => hx
  | fuel + 1, h, i, hn, hx => by
    dsimp only [down] at hx
    split_ifs at hx with h1 h2 h3 h3
    · exact hx
    · exact hx
    · have h2' := of_decide_eq_true ((Bool.and_eq_true _ _).mp h2).1
      exact mem_swap (by omega) (by omega) (mem_down fuel (by rw [length_swap]; exact hn) hx)
    · exact hx
    · exact mem_swap (by omega) (by omega) (mem_down fuel (by rw [length_swap]; exact hn) hx)

/-- `Push` adds its node to the queue. -/
theorem mem_push (hx : x ∈ push h y) :
  x ∈ h ∨ x = y
  := by simpa using mem_up _ (by simp) hx

/-- `Pop` takes one of the queue's nodes out and leaves nodes of the queue. -/
theorem pop_eq_some (hp : pop h = some (x, h')) :
  x ∈ h ∧ ∀ y ∈ h', y ∈ h
  := by
  cases h with
  | nil => simp [pop, down, swap] at hp
  | cons a h =>
    unfold pop at hp
    obtain ⟨x', hl, hxh⟩ := Option.map_eq_some'.mp hp
    obtain ⟨rfl, rfl⟩ := Prod.mk.inj hxh
    have hsub : ∀ y ∈ down (a :: h).length.pred (swap (a :: h) 0 (a :: h).length.pred)
        (a :: h).length.pred 0, y ∈ a :: h := fun y hy =>
      mem_swap (by simp) (by simp) (mem_down _ (by rw [length_swap]; simp) hy)
    exact ⟨hsub _ (List.mem_of_getLast?_eq_some hl), fun y hy => hsub y (List.dropLast_subset _ hy)⟩

end PriorityQueue

/-! ### The predecessor map leads back to the start -/

namespace DijkstraState

/-- The queue and the predecessor map lead back to `start`: every queued asset and every
predecessor is `start` or has a predecessor of its own, and no asset with a predecessor is the
empty string. -/
structure Rooted (start : String) (st : DijkstraState) : Prop where
  pq_rooted : ∀ n ∈ st.pq, n.asset = start ∨ n.asset ∈ st.prev
  prev_rooted : ∀ k v, st.prev.lookup k = some v → v = start ∨ v ∈ st.prev
  keys_ne : ∀ k ∈ st.prev, k ≠ ""

variable {start : String} {st : DijkstraState} {current : Node} {e : Edge}

theorem mem_prev_relax {a : String} (ha : a ∈ st.prev) :
  a ∈ (st.relax current e).prev
  := by
  dsimp only [relax]
  split_ifs
  exacts [ha, (AList.mem_insert _).mpr (.inr ha), ha]

/-- A relaxation from a rooted node, along an edge to an asset that is not the empty string,
keeps the state rooted. -/
theorem Rooted.relax (h : st.Rooted start) (hc : current.asset = start ∨ current.asset ∈ st.prev)
    (he : e.«to» ≠ "") :
  (st.relax current e).Rooted start
  := by
  have hmono : ∀ {a}, a = start ∨ a ∈ st.prev → a = start ∨ a ∈ st.prev.insert e.«to» current.asset :=
    fun ha => ha.imp id fun ha => (AList.mem_insert _).mpr (.inr ha)
  dsimp only [DijkstraState.relax]
  split_ifs
  · exact h
  · refine ⟨fun n hn => ?_, fun k v hkv => ?_, fun k hk => ?_⟩
    · rcases PriorityQueue.mem_push hn with hn | rfl
      exacts [hmono (h.pq_rooted n hn), .inr ((AList.mem_insert _).mpr (.inl rfl))]
    · by_cases hk : k = e.«to»
      · subst hk
        rw [AList.lookup_insert] at hkv
        exact Option.some.inj hkv ▸ hmono hc
      · rw [AList.lookup_insert_ne hk] at hkv
        exact hmono (h.prev_rooted k v hkv)
    · rcases (AList.mem_insert _).mp hk with rfl | hk
      exacts [he, h.keys_ne k hk]
  · exact h

theorem Rooted.foldl_relax {es : List Edge} (hes : ∀ e ∈ es, e.«to» ≠ "") :
    ∀ {st : DijkstraState}, st.Rooted start → (current.asset = start ∨ current.asset ∈ st.prev) →
      (es.foldl (·.relax current) st).Rooted start
  := by
  induction es with
  | nil => exact fun h _ => h
  | cons e es ih =>
    intro st h hc
    exact ih (fun e' he' => hes e' (List.mem_cons_of_mem _ he'))
      (h.relax hc (hes e (List.mem_cons_self _ _))) (hc.imp id mem_prev_relax)

/-- Taking a node out of the queue keeps the state rooted, whatever becomes of `visited`. -/
theorem Rooted.pop {c : Node} {pq : List Node} (h : st.Rooted start)
    (hp : PriorityQueue.pop st.pq = some (c, pq)) (visited : List String) :
  ({ st with pq, visited } : DijkstraState).Rooted start
  := ⟨fun n hn => h.pq_rooted n ((PriorityQueue.pop_eq_some hp).2 n hn), h.prev_rooted, h.keys_ne⟩

end DijkstraState

/-- A property of states holds of the state the loop returns when it holds of the state the loop
starts from and the loop's three moves keep it: taking out of the queue a node already visited,
taking out a new one and marking it visited, and, after that, relaxing its edges. -/
theorem dijkstraLoop_induction {g : Graph} {target : String} (P : DijkstraState → Prop)
    (hskip : ∀ {st c pq}, P st → PriorityQueue.pop st.pq = some (c, pq) → c.asset ∈ st.visited →
      P { st with pq })
    (hvisit : ∀ {st c pq}, P st → PriorityQueue.pop st.pq = some (c, pq) → c.asset ∉ st.visited →
      P { st with pq, visited := c.asset :: st.visited })
    (hrelax : ∀ {st c pq}, P st → PriorityQueue.pop st.pq = some (c, pq) → c.asset ∉ st.visited →
      P ((g.edges c.asset).foldl (·.relax c) { st with pq, visited := c.asset :: st.visited })) :
    ∀ {fuel : Nat} {st st' : DijkstraState}, P st → dijkstraLoop g target fuel st = some st' → P st'
  | 0, st, st', h, hl => by
    rw [dijkstraLoop] at hl
    split_ifs at hl
    exact Option.some.inj hl ▸ h
  | fuel + 1, st, st', h, hl => by
    dsimp only [dijkstraLoop] at hl
    split at hl
    · exact Option.some.inj hl ▸ h
    rename_i c pq hp
    split_ifs at hl with hv
    · exact dijkstraLoop_induction P hskip hvisit hrelax (hskip h hp hv) hl
    · exact Option.some.inj hl ▸ hvisit h hp hv
    · exact dijkstraLoop_induction P hskip hvisit hrelax (hrelax h hp hv) hl

namespace DijkstraState

/-- Every iteration of the loop keeps the state rooted, when no edge leads to the empty
string. -/
theorem Rooted.dijkstraLoop {g : Graph} {target : String}
    (hg : ∀ k, ∀ e ∈ g.edges k, e.«to» ≠ "") :
    ∀ {fuel : Nat} {st st' : DijkstraState}, st.Rooted start →
      Router.dijkstraLoop g target fuel st = some st' → st'.Rooted start
  := dijkstraLoop_induction _ (fun h hp _ => h.pop hp _) (fun h hp _ => h.pop hp _)
    fun h hp _ => Rooted.foldl_relax (hg _) (h.pop hp _)
      (h.pq_rooted _ (PriorityQueue.pop_eq_some hp).1)

/-- The first state is rooted. -/
theorem rooted_dijkstraInit (g : Graph) (start : String) :
  (dijkstraInit g start).Rooted start
  := ⟨fun n hn => .inl (by simp [dijkstraInit] at hn; rw [hn]),
    fun _ _ h => by simp [dijkstraInit] at h, fun _ h => by simp [dijkstraInit] at h⟩

/-- The walk of `n + 1` steps back from `at` is `at` and then the walk of `n` steps back from
`prev[at]`. -/
theorem reverse_map_iterate_range_succ (f : String → String) (a : String) (n : Nat) :
  ((List.range (n + 1)).map fun k => f^[k] a).reverse = ((List.range n).map fun k => f^[k] (f a)).reverse ++ [a]
  := by
  rw [List.range_succ_eq_map, List.map_cons, List.map_map, List.reverse_cons]
  rfl

/-- On a rooted state, the walk back from an asset that is `start` or has a predecessor, when
it returns, is the chain `at`, `prev[at]`, `prev[prev[at]]`, ... up to the first `start`,
reversed, in front of `acc`. -/
theorem Rooted.buildPath_eq (h : st.Rooted start) (hs : start ≠ "") :
    ∀ (fuel : Nat) (a : String) (acc path : List String), (a = start ∨ a ∈ st.prev) →
      buildPath st start fuel a acc = some path →
      ∃ m, (∀ k < m, st.prevOf^[k] a ≠ start) ∧ st.prevOf^[m] a = start ∧
        path = ((List.range (m + 1)).map fun k => st.prevOf^[k] a).reverse ++ acc
  | fuel, a, acc, path, ha, hp => by
    unfold buildPath at hp
    split_ifs at hp with h1 h2
    · exact absurd h1 (ha.elim (· ▸ hs) (h.keys_ne a))
    · exact ⟨0, fun _ hk => absurd hk (Nat.not_lt_zero _), h2, (Option.some.inj hp).symm⟩
    · cases fuel with
      | zero => cases hp
      | succ fuel =>
        obtain ⟨v, hv⟩ := Option.isSome_iff_exists.mp
          (AList.lookup_isSome.mpr (ha.resolve_left h2))
        have hroot : st.prevOf a = start ∨ st.prevOf a ∈ st.prev := by
          rw [prevOf, hv]
          exact h.prev_rooted a v hv
        obtain ⟨m, hfirst, hm, rfl⟩ := Rooted.buildPath_eq h hs fuel _ _ _ hroot hp
        refine ⟨m + 1, fun k hk => ?_, hm, by
          rw [reverse_map_iterate_range_succ _ a, List.append_assoc, List.singleton_append]⟩
        cases k with
        | zero => exact h2
        | succ k => exact hfirst k (by omega)

/-- A chain that stops at the first `start` has no asset twice. -/
theorem nodup_iterate_range {f : String → String} {a : String} {m : Nat}
    (hfirst : ∀ k < m, f^[k] a ≠ start) (hm : f^[m] a = start) :
  ((List.range (m + 1)).map fun k => f^[k] a).Nodup
  := by
  have hcycle : ∀ {i j}, i < j → j < m + 1 → f^[i] a ≠ f^[j] a := fun {i j} hij hj he =>
    hfirst (i + (m - j)) (by omega) (by
      rw [Nat.add_comm, Function.iterate_add_apply, he, ← Function.iterate_add_apply,
        Nat.sub_add_cancel (by omega), hm])
  refine List.Nodup.map_on (fun i hi j hj hij => ?_) (List.nodup_range _)
  rw [List.mem_range] at hi hj
  rcases lt_trichotomy i j with hlt | heq | hgt
  exacts [absurd hij (hcycle hlt hj), heq, absurd hij.symm (hcycle hgt hi)]

/-- On a rooted state, the path the walk back from `end` returns starts at `start` and has no
asset twice. -/
theorem Rooted.buildPath_spec (h : st.Rooted start) (hs : start ≠ "") {fuel : Nat} {a : String}
    {path : List String} (ha : a = start ∨ a ∈ st.prev) (hp : buildPath st start fuel a [] = some path) :
  path.head? = some start ∧ path.Nodup
  := by
  obtain ⟨m, hfirst, hm, rfl⟩ := h.buildPath_eq hs fuel a [] path ha hp
  refine ⟨by simp [List.range_succ, hm], ?_⟩
  rw [List.append_nil, List.nodup_reverse]
  exact nodup_iterate_range hfirst hm

end DijkstraState

/-! ### No edge of the snapshot's graph leads to the empty string -/

namespace Graph

/-- Every edge of the graph leads to an asset that is not the empty string. -/
def TargetsNamed (g : Graph) : Prop :=
  ∀ k, ∀ e ∈ g.edges k, e.«to» ≠ ""

theorem TargetsNamed.addEdge {g : Graph} (hg : g.TargetsNamed) {k : String} {e : Edge}
    (he : e.«to» ≠ "") :
  (g.addEdge k e).TargetsNamed
  := by
  intro j e' he'
  unfold Graph.addEdge Graph.edges at he'
  by_cases hj : j = k
  · subst hj
    rw [AList.lookup_insert, Option.getD_some, List.mem_append, List.mem_singleton] at he'
    exact he'.elim (hg j e') (· ▸ he)
  · rw [AList.lookup_insert_ne hj] at he'
    exact hg j e' he'

theorem TargetsNamed.foldl_addPool : ∀ {pools : List AMMPool} {g : Graph}, g.TargetsNamed →
    (∀ p ∈ pools, p.asset1.toString ≠ "" ∧ p.asset2.toString ≠ "") →
      (pools.foldl addPool g).TargetsNamed
  | [], _, hg, _ => hg
  | p :: _, _, hg, hp => by
    have hp1 := hp p (List.mem_cons_self _ _)
    rw [List.foldl_cons]
    exact TargetsNamed.foldl_addPool ((hg.addEdge hp1.2).addEdge hp1.1)
      fun q hq => hp q (List.mem_cons_of_mem _ hq)

theorem TargetsNamed.foldl_addOffer : ∀ {offers : List Offer} {g : Graph}, g.TargetsNamed →
    (∀ o ∈ offers, o.takerGets.toString ≠ "") → (offers.foldl addOffer g).TargetsNamed
  | [], _, hg, _ => hg
  | o :: _, _, hg, ho => by
    rw [List.foldl_cons]
    exact TargetsNamed.foldl_addOffer (hg.addEdge (ho o (List.mem_cons_self _ _)))
      fun q hq => ho q (List.mem_cons_of_mem _ hq)

end Graph

/-- When no pool asset and no asset an offer gives has the empty string, neither has any asset
an edge of the graph leads to. -/
theorem Pathfinder.buildGraph_targetsNamed {pf : Pathfinder}
    (hpools : ∀ p ∈ pf.pools, p.asset1.toString ≠ "" ∧ p.asset2.toString ≠ "")
    (hoffers : ∀ o ∈ pf.offers, o.takerGets.toString ≠ "") :
  pf.buildGraph.TargetsNamed
  := (Graph.TargetsNamed.foldl_addPool (fun _ _ he => by simp [Graph.edges] at he) hpools).foldl_addOffer
    hoffers

/-! ### Where a returned route starts -/

/-- When `in` and no asset of the snapshot that an edge leads to has the empty string, every
route `FindBestRoute` returns is a chain along a path that starts at `in` and passes no asset
twice. -/
theorem findBestRoute_starts_at_in {pf : Pathfinder} {«in» out : Asset} {amount : Decimal}
    {route : Route} (hin : «in».toString ≠ "")
    (hpools : ∀ p ∈ pf.pools, p.asset1.toString ≠ "" ∧ p.asset2.toString ≠ "")
    (hoffers : ∀ o ∈ pf.offers, o.takerGets.toString ≠ "")
    (h : pf.findBestRoute «in» out amount = some (.ok route)) :
  ∃ path, pf.Chain path amount route.hops ∧ path.head? = some «in».toString ∧ path.Nodup
  := by
  obtain ⟨path, _, hd, h2, -, hh⟩ := Pathfinder.findBestRoute_eq_ok h
  obtain ⟨st, hloop, hend, hbp⟩ := dijkstra_eq_some hd
  have hroot := (DijkstraState.rooted_dijkstraInit _ _).dijkstraLoop
    (Pathfinder.buildGraph_targetsNamed hpools hoffers) hloop
  obtain ⟨hhead, hnodup⟩ := hroot.buildPath_spec hin hend hbp
  exact ⟨path, Pathfinder.buildHops_chain (List.ne_nil_of_length_pos (by omega)) hh, hhead, hnodup⟩

set_option exponentiation.threshold 400 in
/-- One pool `XRP/USD` with reserves 10000 and 15000 at 30 bps: the route for 1 XRP starts at
`XRP`. -/
theorem findBestRoute_starts_at_in_one_pool :
  (let xrp : Asset := ⟨"XRP", ""⟩;
    let usd : Asset := ⟨"USD", "rvYAfWj5gh67oV6fW32ZzP3Aw4Eubs59B"⟩;
    let pf : Pathfinder := ⟨[⟨xrp, usd, newFromInt 10000, newFromInt 15000, 30⟩], []⟩;
    let route : Route :=
      ⟨[⟨"amm", xrp, usd, newFromInt 1, new 14953509135139227 (-16)⟩], ⟨0, zero, zero⟩, zero⟩;
    xrp.toString ≠ "" ∧ (∀ p ∈ pf.pools, p.asset1.toString ≠ "" ∧ p.asset2.toString ≠ "") ∧
      (∀ o ∈ pf.offers, o.takerGets.toString ≠ "") ∧
      pf.findBestRoute xrp usd (newFromInt 1) = some (.ok route) ∧
      ∃ path, pf.Chain path (newFromInt 1) route.hops ∧ path.head? = some xrp.toString ∧ path.Nodup)
  := ⟨by decide, by decide, by decide, by decide,
    @findBestRoute_starts_at_in _ ⟨"XRP", ""⟩ ⟨"USD", "rvYAfWj5gh67oV6fW32ZzP3Aw4Eubs59B"⟩ _ _ (by decide) (by decide) (by decide) (by decide)⟩

/-- What every returned route is, on a snapshot whose assets have non-empty strings.  When `in`
and no asset an edge leads to has the empty string, every route `FindBestRoute` returns has one to
`MaxHops` hops, its first hop leaves from `in` and its last arrives at `out`; its hops form a
chain along a path of asset strings that passes no asset twice, each hop going from one asset of
the path to the next, taking in what the hop before it gave out (the first the requested
amount), and priced by a pool in one of its directions or by an offer. -/
theorem findBestRoute_valid_route {pf : Pathfinder} {«in» out : Asset} {amount : Decimal}
    {route : Route} (hin : «in».toString ≠ "")
    (hpools : ∀ p ∈ pf.pools, p.asset1.toString ≠ "" ∧ p.asset2.toString ≠ "")
    (hoffers : ∀ o ∈ pf.offers, o.takerGets.toString ≠ "")
    (h : pf.findBestRoute «in» out amount = some (.ok route)) :
  1 ≤ route.hops.length ∧ route.hops.length ≤ maxHops ∧
    (route.hops.head?.map fun hop => hop.in.toString) = some «in».toString ∧
    (route.hops.getLast?.map fun hop => hop.out.toString) = some out.toString ∧
    ∃ path, pf.Chain path amount route.hops ∧ path.Nodup
  := by
  obtain ⟨path, _, hd, h2, hlen, hh⟩ := Pathfinder.findBestRoute_eq_ok h
  have hne : path ≠ [] := List.ne_nil_of_length_pos (by omega)
  have hchain := Pathfinder.buildHops_chain hne hh
  have hlength := hchain.length_eq
  have hhops : route.hops ≠ [] := List.ne_nil_of_length_pos (by omega)
  -- the path starts at `in`: `Rooted` holds through the loop
  obtain ⟨st, hloop, hend, hbp⟩ := dijkstra_eq_some hd
  have hroot := (DijkstraState.rooted_dijkstraInit _ _).dijkstraLoop
    (Pathfinder.buildGraph_targetsNamed hpools hoffers) hloop
  obtain ⟨hhead, hnodup⟩ := hroot.buildPath_spec hin hend hbp
  exact ⟨by omega, by omega, (hchain.head_in hhops).trans hhead,
    (hchain.getLast_out hhops).trans (dijkstra_getLast hd hne), path, hchain, hnodup⟩

set_option exponentiation.threshold 400 in
/-- One pool `XRP/USD` with reserves 10000 and 15000 at 30 bps: the route for 1 XRP is its one
hop, from `XRP` to `USD`. -/
theorem findBestRoute_valid_route_one_pool :
  (let xrp : Asset := ⟨"XRP", ""⟩;
    let usd : Asset := ⟨"USD", "rvYAfWj5gh67oV6fW32ZzP3Aw4Eubs59B"⟩;
    let pf : Pathfinder := ⟨[⟨xrp, usd, newFromInt 10000, newFromInt 15000, 30⟩], []⟩;
    let route : Route :=
      ⟨[⟨"amm", xrp, usd, newFromInt 1, new 14953509135139227 (-16)⟩], ⟨0, zero, zero⟩, zero⟩;
    xrp.toString ≠ "" ∧ (∀ p ∈ pf.pools, p.asset1.toString ≠ "" ∧ p.asset2.toString ≠ "") ∧
      (∀ o ∈ pf.offers, o.takerGets.toString ≠ "") ∧
      pf.findBestRoute xrp usd (newFromInt 1) = some (.ok route) ∧
      1 ≤ route.hops.length ∧ route.hops.length ≤ maxHops ∧
      (route.hops.head?.map fun hop => hop.in.toString) = some xrp.toString ∧
      (route.hops.getLast?.map fun hop => hop.out.toString) = some usd.toString ∧
      ∃ path, pf.Chain path (newFromInt 1) route.hops ∧ path.Nodup)
  := ⟨by decide, by decide, by decide, by decide,
    @findBestRoute_valid_route _ ⟨"XRP", ""⟩ ⟨"USD", "rvYAfWj5gh67oV6fW32ZzP3Aw4Eubs59B"⟩ _ _
      (by decide) (by decide) (by decide) (by decide)⟩

end Lucendex.Router
