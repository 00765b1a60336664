import Lucendex.Router.Predecessors
import Mathlib.Data.List.Chain
import Mathlib.Data.List.Range

/-!
# Every run of `dijkstra`

`dijkstra` terminates on every graph, whatever its weights: offers of quality above 1, that is
edges of negative cost, parallel edges and loops included.  A node is visited once, and only a
relaxation from a node visited for the first time pushes a node, at most one per edge, so the
loop makes at most `1 + |E|` calls of `heap.Push` (`dijkstraPushCount`), and as many iterations:
the queue's length plus the number of edges out of the nodes not yet visited falls at every
iteration (`dijkstraLoop_isSome`).

The predecessor map is acyclic.  `prev[v]` is written only while `v` is not visited, by the node
being visited, along one of its edges; so a visited node's predecessor was visited before it
(`DijkstraState.Ordered`).  Following `prev` from a node with an entry therefore visits nodes
that were visited ever earlier, and ends at the one visited node without an entry, `start`.  So
the reconstruction loop terminates, and the path `dijkstra` returns passes no node twice and
follows edges of the graph.  It ends at `end` when `end` is not the empty string; when it is,
the loop `for at := end; at != ""` never starts and the path is empty.
-/

namespace Lucendex.Router

open Lucendex.Decimal

/-! ### The queue's length -/

namespace PriorityQueue

variable {h h' : List Node} {x : Node}

theorem length_up : ∀ (fuel : Nat) (h : List Node) (j : Nat), (up h fuel j).length = h.length
  | 0, _, _ => rfl
  | fuel + 1, h, j => by
    dsimp only [up]
    split_ifs
    · rfl
    · rw [length_up, length_swap]

theorem length_down (n : Nat) : ∀ (fuel : Nat) (h : List Node) (i : Nat),
    (down n h fuel i).length = h.length
  | 0, _, _ => rfl
  | fuel + 1, h, i => by
    dsimp only [down]
    split_ifs <;> simp only [length_down, length_swap]

/-- `Push` adds one node. -/
theorem length_push : (push h x).length = h.length + 1 := by
  simp [push, length_up]

/-- `Pop` takes one node out. -/
theorem length_pop (hp : pop h = some (x, h')) : h'.length + 1 = h.length := by
  unfold pop at hp
  obtain ⟨x', hl, hxh⟩ := Option.map_eq_some'.mp hp
  obtain ⟨rfl, rfl⟩ := Prod.mk.inj hxh
  have hpos := List.length_pos_of_mem (List.mem_of_getLast?_eq_some hl)
  rw [List.length_dropLast]
  rw [length_down, length_swap] at hpos ⊢
  omega

end PriorityQueue

/-! ### Relaxations push at most one node per edge -/

namespace DijkstraState

variable {st : DijkstraState} {current : Node}

theorem visited_relax (e : Edge) : (st.relax current e).visited = st.visited := by
  dsimp only [relax]
  split_ifs <;> rfl

theorem length_pq_relax (e : Edge) : (st.relax current e).pq.length ≤ st.pq.length + 1 := by
  dsimp only [relax]
  split_ifs
  · omega
  · simp only [PriorityQueue.length_push, le_refl]
  · omega

theorem visited_foldl_relax (es : List Edge) :
    (es.foldl (·.relax current) st).visited = st.visited := by
  induction es generalizing st with
  | nil => rfl
  | cons e es ih => rw [List.foldl_cons, ih, visited_relax]

theorem length_pq_foldl_relax (es : List Edge) :
    (es.foldl (·.relax current) st).pq.length ≤ st.pq.length + es.length := by
  induction es generalizing st with
  | nil => simp
  | cons e es ih =>
    rw [List.foldl_cons, List.length_cons]
    have := @length_pq_relax st current e
    have := @ih (st.relax current e)
    omega

end DijkstraState

/-! ### The edges still to relax -/

namespace Graph

/-- The number of edges out of the nodes not in `visited`. -/
def unvisitedEdges (g : Graph) (visited : List String) : Nat :=
  ((g.entries.filter fun e => e.1 ∉ visited).map fun e => e.2.length).sum

theorem unvisitedEdges_nil (g : Graph) : g.unvisitedEdges [] = g.edgeCount := by
  simp [unvisitedEdges, edgeCount]

theorem sum_filter_cons {l : List (Σ _ : String, List Edge)} (hl : l.NodupKeys) {a : String}
    {visited : List String} (ha : a ∉ visited) :
  ((l.filter fun e => e.1 ∉ a :: visited).map fun e => e.2.length).sum +
      ((l.dlookup a).getD []).length =
    ((l.filter fun e => e.1 ∉ visited).map fun e => e.2.length).sum
  := by
  induction l with
  | nil => simp
  | cons e l ih =>
    obtain ⟨k, es⟩ := e
    obtain ⟨hk, hl⟩ := List.nodupKeys_cons.mp hl
    have ih := ih hl
    by_cases hka : k = a
    · subst hka
      rw [List.dlookup_eq_none.mpr hk, Option.getD_none, List.length_nil, add_zero] at ih
      rw [List.filter_cons_of_neg (by simp), List.filter_cons_of_pos (by simpa using ha),
        List.dlookup_cons_eq, Option.getD_some, List.map_cons, List.sum_cons, ← ih, Nat.add_comm]
    · rw [List.dlookup_cons_ne _ _ (Ne.symm hka)]
      by_cases hkv : k ∈ visited
      · rw [List.filter_cons_of_neg (by simp [hkv]), List.filter_cons_of_neg (by simp [hkv]), ih]
      · rw [List.filter_cons_of_pos (by simp [hka, hkv]), List.filter_cons_of_pos (by simpa using hkv),
          List.map_cons, List.map_cons, List.sum_cons, List.sum_cons, ← ih]
        omega

/-- Visiting a new node takes its edges out of the count. -/
theorem unvisitedEdges_cons (g : Graph) {a : String} {visited : List String} (ha : a ∉ visited) :
  g.unvisitedEdges (a :: visited) + (g.edges a).length = g.unvisitedEdges visited
  := sum_filter_cons g.nodupKeys ha

end Graph

/-! ### The loop terminates after at most `1 + |E|` pushes -/

section Termination

variable {g : Graph} {target : String}

/-- The number of `heap.Push` calls `dijkstra`'s loop makes from `st` on, with its fuel: a
relaxation pushes one node when it lowers `dist`, so an iteration's calls are what its
relaxations add to the queue. -/
def dijkstraPushes (graph : Graph) (target : String) : Nat → DijkstraState → Nat
  | 0, _ => 0
  | fuel + 1, st =>
    match PriorityQueue.pop st.pq with
    | none => 0
    | some (current, pq) =>
      let st := { st with pq := pq }
      if current.asset ∈ st.visited then dijkstraPushes graph target fuel st
      else
        let st := { st with visited := current.asset :: st.visited }
        if current.asset = target then 0
        else
          let st' := (graph.edges current.asset).foldl (·.relax current) st
          st'.pq.length - st.pq.length + dijkstraPushes graph target fuel st'

/-- The `heap.Push` calls of `dijkstra(graph, start, end)`: the one of `start`, and those of its
loop. -/
def dijkstraPushCount (graph : Graph) (start target : String) : Nat :=
  1 + dijkstraPushes graph target (graph.edgeCount + 1) (dijkstraInit graph start)

/-- The loop pushes at most one node per edge out of a node it visits for the first time. -/
theorem dijkstraPushes_le : ∀ (fuel : Nat) (st : DijkstraState),
    dijkstraPushes g target fuel st ≤ g.unvisitedEdges st.visited
  | 0, _ => Nat.zero_le _
  | fuel + 1, st => by
    dsimp only [dijkstraPushes]
    split
    · exact Nat.zero_le _
    rename_i c pq _
    split_ifs with hv
    · exact dijkstraPushes_le fuel _
    · exact Nat.zero_le _
    · have hu := g.unvisitedEdges_cons hv
      have hq := @DijkstraState.length_pq_foldl_relax { st with pq, visited := c.asset :: st.visited } c
        (g.edges c.asset)
      have hrest := dijkstraPushes_le fuel
        ((g.edges c.asset).foldl (·.relax c) { st with pq, visited := c.asset :: st.visited })
      rw [DijkstraState.visited_foldl_relax] at hrest
      dsimp only at hq hrest ⊢
      omega

/-- The loop returns once its fuel reaches the queue's length plus the number of edges out of
the nodes not yet visited: every iteration lowers that sum. -/
theorem dijkstraLoop_isSome : ∀ {fuel : Nat} {st : DijkstraState},
    st.pq.length + g.unvisitedEdges st.visited ≤ fuel → (dijkstraLoop g target fuel st).isSome
  | 0, st, h => by
    have : st.pq = [] := List.eq_nil_of_length_eq_zero (by omega)
    simp [dijkstraLoop, this]
  | fuel + 1, st, h => by
    dsimp only [dijkstraLoop]
    split
    · rfl
    rename_i c pq hp
    have hlen := PriorityQueue.length_pop hp
    split_ifs with hv
    · exact dijkstraLoop_isSome (by dsimp only; omega)
    · rfl
    · have hu := g.unvisitedEdges_cons hv
      have hq := @DijkstraState.length_pq_foldl_relax { st with pq, visited := c.asset :: st.visited } c
        (g.edges c.asset)
      refine dijkstraLoop_isSome ?_
      rw [DijkstraState.visited_foldl_relax]
      dsimp only at hq ⊢
      omega

/-- `dijkstra` pushes at most `1 + |E|` nodes, and its loop returns within that many
iterations. -/
theorem dijkstra_loop_bounds (g : Graph) (start target : String) :
  dijkstraPushCount g start target ≤ 1 + g.edgeCount ∧
    (dijkstraLoop g target (g.edgeCount + 1) (dijkstraInit g start)).isSome
  := by
  have hinit : (dijkstraInit g start).visited = [] := rfl
  have hpushes := @dijkstraPushes_le g target (g.edgeCount + 1) (dijkstraInit g start)
  rw [hinit, Graph.unvisitedEdges_nil] at hpushes
  refine ⟨by unfold dijkstraPushCount; omega, dijkstraLoop_isSome ?_⟩
  rw [hinit, Graph.unvisitedEdges_nil]
  show 1 + g.edgeCount ≤ g.edgeCount + 1
  omega

end Termination

/-! ### Predecessors were visited earlier -/

namespace DijkstraState

/-- What the loop keeps of its state, whatever the weights: `visited` lists each node once, the
latest first; every queued node and every visited node is `start` or has a predecessor, and
`start` has none, once anything has one; and every entry `prev[k] = v` is an edge `v → k` of the
graph from a visited node, visited before `k` if `k` is. -/
structure Ordered (g : Graph) (start : String) (st : DijkstraState) : Prop where
  visited_nodup : st.visited.Nodup
  pq_rooted : ∀ n ∈ st.pq, n.asset = start ∨ n.asset ∈ st.prev
  visited_rooted : ∀ a ∈ st.visited, a = start ∨ a ∈ st.prev
  start_not_mem : start ∉ st.prev
  start_visited : ∀ k ∈ st.prev, start ∈ st.visited
  prev_edge : ∀ k v, st.prev.lookup k = some v → ∃ e ∈ g.edges v, e.«to» = k
  prev_visited : ∀ k v, st.prev.lookup k = some v → v ∈ st.visited
  prev_before : ∀ k v, st.prev.lookup k = some v → k ∈ st.visited →
    st.visited.indexOf k < st.visited.indexOf v

variable {g : Graph} {start : String} {st : DijkstraState} {c : Node} {pq : List Node}

theorem ordered_dijkstraInit (g : Graph) (start : String) :
  (dijkstraInit g start).Ordered g start
  := by
  constructor <;> simp [dijkstraInit]

/-- Taking a node out of the queue keeps the invariant. -/
theorem Ordered.pop (h : st.Ordered g start) (hp : PriorityQueue.pop st.pq = some (c, pq)) :
  ({ st with pq } : DijkstraState).Ordered g start
  := { h with pq_rooted := fun n hn => h.pq_rooted n ((PriorityQueue.pop_eq_some hp).2 n hn) }

/-- Marking a new node taken out of the queue visited keeps the invariant: it comes first in
`visited`, after every predecessor. -/
theorem Ordered.visit (h : st.Ordered g start) (hp : PriorityQueue.pop st.pq = some (c, pq))
    (hv : c.asset ∉ st.visited) :
  ({ st with pq, visited := c.asset :: st.visited } : DijkstraState).Ordered g start
  where
  visited_nodup := List.nodup_cons.mpr ⟨hv, h.visited_nodup⟩
  pq_rooted := (h.pop hp).pq_rooted
  visited_rooted a ha := (List.mem_cons.mp ha).elim
    (fun hac => hac ▸ h.pq_rooted c (PriorityQueue.pop_eq_some hp).1) (h.visited_rooted a)
  start_not_mem := h.start_not_mem
  start_visited k hk := List.mem_cons_of_mem _ (h.start_visited k hk)
  prev_edge := h.prev_edge
  prev_visited k v hkv := List.mem_cons_of_mem _ (h.prev_visited k v hkv)
  prev_before k v hkv hk := by
    have hvc : c.asset ≠ v := fun e => hv (by rw [e]; exact h.prev_visited k v hkv)
    rw [List.indexOf_cons_ne _ hvc]
    rcases List.mem_cons.mp hk with rfl | hk
    · rw [List.indexOf_cons_self]
      exact Nat.succ_pos _
    · rw [List.indexOf_cons_ne _ fun e => hv (by rw [e]; exact hk)]
      exact Nat.succ_lt_succ (h.prev_before k v hkv hk)

/-- A relaxation from a visited node, along one of its edges, once `start` is visited, keeps the
invariant: the node it records a predecessor for is not visited. -/
theorem Ordered.relax (h : st.Ordered g start) (hc : c.asset ∈ st.visited) (hs : start ∈ st.visited)
    {e : Edge} (he : e ∈ g.edges c.asset) :
  (st.relax c e).Ordered g start
  := by
  dsimp only [DijkstraState.relax]
  split_ifs with hto
  · exact h
  · have hmono : ∀ {a}, a ∈ st.prev → a ∈ st.prev.insert e.«to» c.asset :=
      fun ha => (AList.mem_insert _).mpr (.inr ha)
    have hlook : ∀ {k v}, (st.prev.insert e.«to» c.asset).lookup k = some v →
        (k = e.«to» ∧ v = c.asset) ∨ (k ≠ e.«to» ∧ st.prev.lookup k = some v) := fun {k v} hkv => by
      by_cases hk : k = e.«to»
      · subst hk
        rw [AList.lookup_insert] at hkv
        exact .inl ⟨rfl, (Option.some.inj hkv).symm⟩
      · rw [AList.lookup_insert_ne hk] at hkv
        exact .inr ⟨hk, hkv⟩
    exact {
      visited_nodup := h.visited_nodup
      pq_rooted := fun n hn => (PriorityQueue.mem_push hn).elim
        (fun hn => (h.pq_rooted n hn).imp id hmono)
        fun hn => .inr ((AList.mem_insert _).mpr (.inl (by rw [hn])))
      visited_rooted := fun a ha => (h.visited_rooted a ha).imp id hmono
      start_not_mem := fun hmem => ((AList.mem_insert _).mp hmem).elim
        (fun hse => hto (hse ▸ hs)) h.start_not_mem
      start_visited := fun _ _ => hs
      prev_edge := fun k v hkv => (hlook hkv).elim
        (fun ⟨hk, hv⟩ => ⟨e, hv ▸ he, hk.symm⟩) fun ⟨_, hkv⟩ => h.prev_edge k v hkv
      prev_visited := fun k v hkv => (hlook hkv).elim
        (fun ⟨_, hv⟩ => hv ▸ hc) fun ⟨_, hkv⟩ => h.prev_visited k v hkv
      prev_before := fun k v hkv hk => (hlook hkv).elim
        (fun ⟨hke, _⟩ => absurd (hke ▸ hk) hto) fun ⟨_, hkv⟩ => h.prev_before k v hkv hk }
  · exact h

theorem Ordered.foldl_relax (hc : c.asset ∈ st.visited) (hs : start ∈ st.visited) :
    ∀ {es : List Edge}, (∀ e ∈ es, e ∈ g.edges c.asset) → st.Ordered g start →
      (es.foldl (·.relax c) st).Ordered g start
  := by
  intro es
  induction es generalizing st with
  | nil => exact fun _ h => h
  | cons e es ih =>
    intro hes h
    rw [List.foldl_cons]
    exact ih (by rwa [visited_relax]) (by rwa [visited_relax])
      (fun e' he' => hes e' (List.mem_cons_of_mem _ he'))
      (h.relax hc hs (hes e (List.mem_cons_self _ _)))

/-- Every state the loop returns keeps the invariant. -/
theorem Ordered.dijkstraLoop {target : String} {fuel : Nat} {st' : DijkstraState}
    (h : st.Ordered g start) (hl : Router.dijkstraLoop g target fuel st = some st') :
  st'.Ordered g start
  := dijkstraLoop_induction _ (fun h hp _ => h.pop hp) (fun h hp hv => h.visit hp hv)
    (fun {st c pq} h hp hv => by
      have hs : start ∈ c.asset :: st.visited :=
        (h.pq_rooted c (PriorityQueue.pop_eq_some hp).1).elim (fun hcs => hcs ▸ List.mem_cons_self _ _)
          fun hcp => List.mem_cons_of_mem _ (h.start_visited _ hcp)
      exact Ordered.foldl_relax (List.mem_cons_self _ _) hs (fun _ he => he) (h.visit hp hv))
    h hl

end DijkstraState

/-! ### Following `prev` -/

namespace Graph

/-- The nodes of the graph: the assets with edges out of them and the assets the edges lead to. -/
def vertices (g : Graph) : List String :=
  (g.keys ++ g.entries.flatMap fun e => e.2.map (·.«to»)).dedup

/-- Both ends of an edge are nodes of the graph. -/
theorem mem_vertices_of_mem_edges {g : Graph} {v : String} {e : Edge} (he : e ∈ g.edges v) :
  v ∈ g.vertices ∧ e.«to» ∈ g.vertices
  := by
  unfold edges at he
  rcases hv : g.lookup v with _ | es
  · rw [hv] at he
    cases he
  rw [hv, Option.getD_some] at he
  simp only [vertices, List.mem_dedup, List.mem_append, List.mem_flatMap, List.mem_map]
  exact ⟨.inl (AList.mem_keys.mpr (AList.lookup_isSome.mp (by rw [hv]; rfl))),
    .inr ⟨⟨v, es⟩, AList.mem_lookup_iff.mp hv, e, he, rfl⟩⟩

end Graph

namespace DijkstraState

variable {g : Graph} {start : String} {st : DijkstraState}

theorem exists_lookup {k : String} (hk : k ∈ st.prev) : ∃ v, st.prev.lookup k = some v :=
  Option.isSome_iff_exists.mp (AList.lookup_isSome.mpr hk)

theorem prevOf_of_lookup {k v : String} (hv : st.prev.lookup k = some v) : st.prevOf k = v := by
  rw [prevOf, hv, Option.getD_some]

/-- Following `prev` from a visited node ends at `start`: each step goes to a node visited
earlier. -/
theorem Ordered.reaches_start (h : st.Ordered g start) :
    ∀ (n : Nat) {a : String}, a ∈ st.visited → st.visited.length - st.visited.indexOf a ≤ n →
      ∃ m, st.prevOf^[m] a = start
  | 0, a, ha, hn => absurd hn (by have := List.indexOf_lt_length.mpr ha; omega)
  | n + 1, a, ha, hn => by
    rcases h.visited_rooted a ha with hs | hap
    · exact ⟨0, hs⟩
    obtain ⟨v, hv⟩ := exists_lookup hap
    have hvv := h.prev_visited a v hv
    have hlt := h.prev_before a v hv ha
    have hvlen := List.indexOf_lt_length.mpr hvv
    obtain ⟨m, hm⟩ := h.reaches_start n hvv (by omega)
    exact ⟨m + 1, by rw [Function.iterate_succ_apply, prevOf_of_lookup hv, hm]⟩

/-- The walk back from `start` or from a node with a predecessor meets `start`, and there is a
first time it does. -/
theorem Ordered.first_start (h : st.Ordered g start) {a : String} (ha : a = start ∨ a ∈ st.prev) :
  ∃ m, (∀ i < m, st.prevOf^[i] a ≠ start) ∧ st.prevOf^[m] a = start
  := by
  have hex : ∃ m, st.prevOf^[m] a = start := by
    rcases ha with hs | hap
    · exact ⟨0, hs⟩
    obtain ⟨v, hv⟩ := exists_lookup hap
    obtain ⟨m, hm⟩ := h.reaches_start _ (h.prev_visited a v hv) le_rfl
    exact ⟨m + 1, by rw [Function.iterate_succ_apply, prevOf_of_lookup hv, hm]⟩
  exact ⟨Nat.find hex, fun i hi => Nat.find_min hex hi, Nat.find_spec hex⟩

/-- Before its first `start`, the walk back stays among the nodes with a predecessor. -/
theorem Ordered.iterate_mem_prev (h : st.Ordered g start) {a : String} {m : Nat}
    (ha : a = start ∨ a ∈ st.prev) (hfirst : ∀ i < m, st.prevOf^[i] a ≠ start) :
    ∀ i < m, st.prevOf^[i] a ∈ st.prev
  | 0, hi => ha.resolve_left (hfirst 0 hi)
  | i + 1, hi => by
    obtain ⟨v, hv⟩ := exists_lookup (h.iterate_mem_prev ha hfirst i (by omega))
    have hnext : st.prevOf^[i + 1] a = v := by
      rw [Function.iterate_succ_apply', prevOf_of_lookup hv]
    rw [hnext]
    exact (h.visited_rooted v (h.prev_visited _ v hv)).resolve_left (hnext ▸ hfirst (i + 1) hi)

/-- Following `prev` from any node with an entry passes distinct nodes of the graph and reaches
`start` within `|V| - 1` steps. -/
theorem Ordered.prev_chain (h : st.Ordered g start) {k : String} (hk : k ∈ st.prev) :
  ∃ m, m + 1 ≤ g.vertices.length ∧ st.prevOf^[m] k = start ∧
    ((List.range (m + 1)).map fun i => st.prevOf^[i] k).Nodup
  := by
  obtain ⟨m, hfirst, hm⟩ := h.first_start (.inr hk)
  have hnd := nodup_iterate_range hfirst hm
  have hmem := h.iterate_mem_prev (.inr hk) hfirst
  have hm0 : m ≠ 0 := by
    rintro rfl
    exact h.start_not_mem (hm ▸ hk)
  have hsub : ((List.range (m + 1)).map fun i => st.prevOf^[i] k) ⊆ g.vertices := by
    intro x hx
    obtain ⟨i, hi, rfl⟩ := List.mem_map.mp hx
    rcases Nat.lt_succ_iff_lt_or_eq.mp (List.mem_range.mp hi) with hi | rfl
    · obtain ⟨v, hv⟩ := exists_lookup (hmem i hi)
      obtain ⟨e, he, hto⟩ := h.prev_edge _ v hv
      exact hto ▸ (Graph.mem_vertices_of_mem_edges he).2
    · obtain ⟨j, rfl⟩ := Nat.exists_eq_succ_of_ne_zero hm0
      obtain ⟨v, hv⟩ := exists_lookup (hmem j (Nat.lt_succ_self j))
      obtain ⟨e, he, -⟩ := h.prev_edge _ v hv
      rw [Function.iterate_succ_apply', prevOf_of_lookup hv]
      exact (Graph.mem_vertices_of_mem_edges he).1
  refine ⟨m, ?_, hm, hnd⟩
  simpa using (hnd.subperm hsub).length_le

end DijkstraState

/-- The walk back from `at` prepends `at`, `prev[at]`, ... to `acc`, and goes on past a node only
if it is not `start`. -/
theorem buildPath_walk {st : DijkstraState} {start : String} :
    ∀ (fuel : Nat) (a : String) (acc path : List String), buildPath st start fuel a acc = some path →
      ∃ n, path = ((List.range n).map fun i => st.prevOf^[i] a).reverse ++ acc ∧
        ∀ i, i + 1 < n → st.prevOf^[i] a ≠ start
  | fuel, a, acc, path, hp => by
    unfold buildPath at hp
    split_ifs at hp with h1 h2
    · exact ⟨0, (Option.some.inj hp).symm, fun _ hi => absurd hi (by omega)⟩
    · exact ⟨1, by rw [← Option.some.inj hp]; rfl, fun _ hi => absurd hi (by omega)⟩
    · cases fuel with
      | zero => cases hp
      | succ fuel =>
        obtain ⟨n, rfl, hns⟩ := buildPath_walk fuel _ _ _ hp
        refine ⟨n + 1, by
          rw [DijkstraState.reverse_map_iterate_range_succ _ a, List.append_assoc, List.singleton_append],
          fun i hi => ?_⟩
        cases i with
        | zero => exact h2
        | succ i =>
          rw [Function.iterate_succ_apply]
          exact hns i (by omega)

/-- The walk back returns once its fuel covers the steps to `start`. -/
theorem buildPath_isSome {st : DijkstraState} {start : String} :
    ∀ (m fuel : Nat) (a : String) (acc : List String), st.prevOf^[m] a = start → m ≤ fuel →
      (buildPath st start fuel a acc).isSome
  | 0, fuel, a, acc, hm, _ => by
    unfold buildPath
    split_ifs
    · rfl
    · rfl
    · contradiction
  | m + 1, fuel, a, acc, hm, hle => by
    unfold buildPath
    split_ifs
    · rfl
    · rfl
    · obtain ⟨fuel, rfl⟩ : ∃ f, fuel = f + 1 := ⟨fuel - 1, by omega⟩
      exact buildPath_isSome m fuel _ _ (by rwa [Function.iterate_succ_apply] at hm) (by omega)

namespace DijkstraState

variable {g : Graph} {start : String} {st : DijkstraState}

/-- On a state of the loop, the walk back from `end`, when `end` is `start` or has a
predecessor, returns, passes no node twice and follows edges of the graph. -/
theorem Ordered.buildPath_path (h : st.Ordered g start) {target : String}
    (ht : target = start ∨ target ∈ st.prev) :
  ∃ path, buildPath st start (st.prev.keys.length + 1) target [] = some path ∧
    path.Nodup ∧ path.Chain' (fun u v => ∃ e ∈ g.edges u, e.«to» = v)
  := by
  obtain ⟨M, hfirst, hM⟩ := h.first_start ht
  have hnd := nodup_iterate_range hfirst hM
  have hmem := h.iterate_mem_prev ht hfirst
  have hkeys : M ≤ st.prev.keys.length := by
    have hsub : ((List.range M).map fun i => st.prevOf^[i] target) ⊆ st.prev.keys := fun x hx => by
      obtain ⟨i, hi, rfl⟩ := List.mem_map.mp hx
      exact AList.mem_keys.mpr (hmem i (List.mem_range.mp hi))
    have hndM := hnd.sublist ((List.range_sublist.mpr (Nat.le_succ M)).map _)
    simpa using (hndM.subperm hsub).length_le
  obtain ⟨path, hp⟩ := Option.isSome_iff_exists.mp (buildPath_isSome M (st.prev.keys.length + 1) target [] hM (by omega))
  refine ⟨path, hp, ?_⟩
  obtain ⟨n, rfl, hns⟩ := buildPath_walk _ target [] path hp
  have hnM : n ≤ M + 1 := by
    by_contra hlt
    exact hns M (by omega) hM
  rw [List.append_nil, List.nodup_reverse, List.chain'_reverse, List.chain'_map]
  refine ⟨hnd.sublist ((List.range_sublist.mpr hnM).map _), ?_⟩
  cases n with
  | zero => exact List.chain'_nil
  | succ n =>
    rw [List.chain'_range_succ]
    intro i hi
    obtain ⟨v, hv⟩ := exists_lookup (hmem i (by omega))
    obtain ⟨e, he, hto⟩ := h.prev_edge _ v hv
    refine ⟨e, ?_, hto⟩
    show e ∈ g.edges (st.prevOf^[i + 1] target)
    rwa [Function.iterate_succ_apply', prevOf_of_lookup hv]

end DijkstraState

/-! ### The runs of `dijkstra` -/

/-- On every graph, from any `start` to any `end`, `dijkstra` pushes at most `1 + |E|` nodes and
its loop returns; following the predecessor map it builds from any node with an entry passes
distinct nodes and reaches `start` within `|V| - 1` steps; so `dijkstra` returns, and a path it
returns passes no node twice, follows edges of the graph, and ends at `end` unless `end` is the
empty string, where it is empty. -/
theorem dijkstra_terminates_acyclic (g : Graph) (start target : String) :
  dijkstraPushCount g start target ≤ 1 + g.edgeCount ∧
    ∃ st, dijkstraLoop g target (g.edgeCount + 1) (dijkstraInit g start) = some st ∧
      (∀ k ∈ st.prev, ∃ m, m + 1 ≤ g.vertices.length ∧ st.prevOf^[m] k = start ∧
        ((List.range (m + 1)).map fun i => st.prevOf^[i] k).Nodup) ∧
      ∃ r, dijkstra g start target = some r ∧
        ∀ path cost, r = (some path, cost) →
          path.Nodup ∧ path.Chain' (fun u v => ∃ e ∈ g.edges u, e.«to» = v) ∧
          (target ≠ "" → path.getLast? = some target) ∧ (target = "" → path = [])
  := by
  obtain ⟨hpush, hloop⟩ := dijkstra_loop_bounds g start target
  obtain ⟨st, hst⟩ := Option.isSome_iff_exists.mp hloop
  have hord := (DijkstraState.ordered_dijkstraInit g start).dijkstraLoop hst
  have hfin : (dijkstraFinish start target st).isSome := by
    rcases dijkstraFinish_cases start target st with hf | ⟨hend, hf⟩ <;> rw [hf]
    · rfl
    · obtain ⟨path, hp, -⟩ := hord.buildPath_path hend
      rw [hp]
      rfl
  obtain ⟨r, hr⟩ := Option.isSome_iff_exists.mp hfin
  have hd : dijkstra g start target = some r := by rw [dijkstra, hst, Option.some_bind, hr]
  refine ⟨hpush, st, hst, fun k hk => hord.prev_chain hk, r, hd, fun path cost hrp => ?_⟩
  subst hrp
  obtain ⟨st', hst', hend, hbp⟩ := dijkstra_eq_some hd
  obtain rfl : st' = st := Option.some.inj (hst'.symm.trans hst)
  obtain ⟨path', hp', hnd, hch⟩ := hord.buildPath_path hend
  obtain rfl : path' = path := Option.some.inj (hp'.symm.trans hbp)
  refine ⟨hnd, hch, fun hne => ?_, fun h0 => ?_⟩
  · obtain ⟨pre, rfl, hl⟩ := buildPath_last _ _ _ _ hbp
    simpa using hl hne
  · rw [h0, buildPath, if_pos rfl] at hbp
    exact (Option.some.inj hbp).symm

/-- The graph of one pool `XRP/USD`, from `XRP` to `USD`. -/
theorem dijkstra_terminates_acyclic_one_pool :
  (let g := Pathfinder.buildGraph ⟨[⟨⟨"XRP", ""⟩, ⟨"USD", "rvYAfWj5gh67oV6fW32ZzP3Aw4Eubs59B"⟩,
      newFromInt 10000, newFromInt 15000, 30⟩], []⟩;
    dijkstraPushCount g "XRP" "USD.rvYAfWj5gh67oV6fW32ZzP3Aw4Eubs59B" ≤ 1 + g.edgeCount ∧
      ∃ st, dijkstraLoop g "USD.rvYAfWj5gh67oV6fW32ZzP3Aw4Eubs59B" (g.edgeCount + 1)
          (dijkstraInit g "XRP") = some st ∧
        (∀ k ∈ st.prev, ∃ m, m + 1 ≤ g.vertices.length ∧ st.prevOf^[m] k = "XRP" ∧
          ((List.range (m + 1)).map fun i => st.prevOf^[i] k).Nodup) ∧
        ∃ r, dijkstra g "XRP" "USD.rvYAfWj5gh67oV6fW32ZzP3Aw4Eubs59B" = some r ∧
          ∀ path cost, r = (some path, cost) →
            path.Nodup ∧ path.Chain' (fun u v => ∃ e ∈ g.edges u, e.«to» = v) ∧
            ("USD.rvYAfWj5gh67oV6fW32ZzP3Aw4Eubs59B" ≠ "" →
              path.getLast? = some "USD.rvYAfWj5gh67oV6fW32ZzP3Aw4Eubs59B") ∧
            ("USD.rvYAfWj5gh67oV6fW32ZzP3Aw4Eubs59B" = "" → path = []))
  := dijkstra_terminates_acyclic _ _ _

/-- With `end` the empty string, `dijkstra` on the empty graph from the empty string returns the
empty path, which does not end at `end`. -/
theorem dijkstra_empty_end :
  dijkstra ∅ "" "" = some (some [], zero)
  := by decide

end Lucendex.Router
