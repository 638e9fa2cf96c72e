import Mathlib.Data.List.Sort
import Mathlib.Logic.Relation
import CodeGraph.Graph.Cycles
import CodeGraph.Proofs.Graph.Adjacency

/-!
# Cycles are found exactly

A vertex reaches another one if a path of one or more edges leads there (`Reaches`). The search from a
vertex visits what the vertex reaches (`mem_reachableFrom`). It visits nothing else, since every vertex
that waits is reached. It comes to an end with nothing left waiting, since the vertices that wait and the
edges that leave vertices not visited yet become fewer together with every step (`explore_closed`).

So a graph has cycles exactly if a vertex reaches itself, and the groups of cyclic vertices are the
classes of vertices that reach each other (`cyclicComponents_exact`). A group is listed at its least
vertex.
-/

namespace CodeGraph.PropertyGraph

open Relation (TransGen)

/-- An edge leads from one vertex to another. -/
def Leads (g : PropertyGraph) (a b : String) : Prop :=
  ∃ e ∈ g.edgeList, e.source = a ∧ e.target = b

/-- A path of one or more edges leads from one vertex to another. -/
def Reaches (g : PropertyGraph) : String → String → Prop :=
  TransGen g.Leads

/-! ## The search -/

section

variable {waiting visited : List String} {fuel : Nat} {v : String}

/-- What holds of the vertices that wait, and of what edges lead to, holds of all that are visited. -/
theorem of_mem_explore {successors : String → List String} {P : String → Prop}
    (hstep : ∀ v, P v → ∀ w ∈ successors v, P w) (hwaiting : ∀ v ∈ waiting, P v)
    (hvisited : ∀ v ∈ visited, P v) (hv : v ∈ explore successors fuel waiting visited) : P v := by
  fun_induction explore successors fuel waiting visited with
  | case1 | case2 => exact hvisited v hv
  | case3 fuel w waiting visited _ ih =>
    exact ih (List.forall_mem_cons.1 hwaiting).2 hvisited hv
  | case4 fuel w waiting visited _ ih =>
    obtain ⟨hw, hwaiting⟩ := List.forall_mem_cons.1 hwaiting
    refine ih (List.forall_mem_append.2 ⟨hstep w hw, hwaiting⟩) ?_ hv
    exact List.forall_mem_cons.2 ⟨hw, hvisited⟩

theorem mem_explore_of_mem {successors : String → List String} (hv : v ∈ visited) :
    v ∈ explore successors fuel waiting visited := by
  fun_induction explore successors fuel waiting visited with
  | case1 | case2 => exact hv
  | case3 fuel w waiting visited _ ih => exact ih hv
  | case4 fuel w waiting visited _ ih => exact ih (List.mem_cons_of_mem w hv)

/-- What the edges of a list lead to from a vertex. -/
def targets (l : List Edge) (v : String) : List String :=
  (l.filter (·.source == v)).map (·.target)

theorem mem_targets {l : List Edge} {w : String} :
    w ∈ targets l v ↔ ∃ e ∈ l, e.source = v ∧ e.target = w := by
  simp only [targets, List.mem_map, List.mem_filter, beq_iff_eq, and_assoc]

/-- The edges that leave vertices not visited yet. -/
def unseen (l : List Edge) (visited : List String) : List Edge :=
  l.filter fun e => !visited.contains e.source

/-- The edges that leave a vertex are seen when it is visited. -/
theorem length_unseen_cons (l : List Edge) (hv : visited.contains v = false) :
    (targets l v).length + (unseen l (v :: visited)).length = (unseen l visited).length := by
  have hv : v ∉ visited := by simpa using hv
  have hleaving : (unseen l visited).filter (·.source == v) = l.filter (·.source == v) := by
    rw [unseen, List.filter_filter]
    refine List.filter_congr fun e _ => ?_
    by_cases he : e.source = v <;> simp [he, hv]
  have hothers : (unseen l visited).filter (fun e => !(e.source == v)) = unseen l (v :: visited) := by
    rw [unseen, List.filter_filter]
    refine List.filter_congr fun e _ => ?_
    by_cases he : e.source = v <;> simp [he]
  have hsplit := (List.filter_append_perm (·.source == v) (unseen l visited)).length_eq
  rw [hleaving, hothers, List.length_append] at hsplit
  rw [targets, List.length_map]
  exact hsplit

/-- With fuel for every vertex that waits and every edge not seen, all that waits is visited, and
whatever edges lead to from a visited vertex is visited too. -/
theorem explore_closed {l : List Edge}
    (hfuel : waiting.length + (unseen l visited).length ≤ fuel)
    (hclosed : ∀ e ∈ l, e.source ∈ visited → e.target ∈ visited ∨ e.target ∈ waiting) :
    (∀ v ∈ waiting, v ∈ explore (targets l) fuel waiting visited) ∧
      ∀ e ∈ l, e.source ∈ explore (targets l) fuel waiting visited →
        e.target ∈ explore (targets l) fuel waiting visited := by
  fun_induction explore (targets l) fuel waiting visited with
  | case1 waiting visited =>
    obtain rfl : waiting = [] := List.length_eq_zero_iff.1 (by omega)
    simpa using hclosed
  | case2 fuel visited => simpa using hclosed
  | case3 fuel v waiting visited hv ih =>
    rw [List.length_cons] at hfuel
    have hv : v ∈ visited := by simpa using hv
    obtain ⟨hall, hreach⟩ := ih (by omega) fun e he hsource => by
      rcases hclosed e he hsource with h | h
      · exact .inl h
      · rcases List.mem_cons.1 h with rfl | h
        · exact .inl hv
        · exact .inr h
    exact ⟨List.forall_mem_cons.2 ⟨mem_explore_of_mem hv, hall⟩, hreach⟩
  | case4 fuel v waiting visited hv ih =>
    have hv : visited.contains v = false := by simpa using hv
    have hcount := length_unseen_cons l hv
    rw [List.length_cons] at hfuel
    obtain ⟨hall, hreach⟩ := ih (by rw [List.length_append]; omega) fun e he hsource => by
      rcases List.mem_cons.1 hsource with rfl | hsource
      · exact .inr (List.mem_append_left _ (mem_targets.2 ⟨e, he, rfl, rfl⟩))
      · rcases hclosed e he hsource with h | h
        · exact .inl (List.mem_cons_of_mem _ h)
        · rcases List.mem_cons.1 h with h | h
          · exact .inl (h ▸ List.mem_cons_self)
          · exact .inr (List.mem_append_right _ h)
    refine ⟨List.forall_mem_cons.2 ⟨mem_explore_of_mem List.mem_cons_self, fun w hw => ?_⟩, hreach⟩
    exact hall w (List.mem_append_right _ hw)

end

variable {g : PropertyGraph} {v w : String}

theorem Indexed.successors (h : g.Indexed) : g.successors = targets g.edgeList := by
  funext v
  rw [PropertyGraph.successors, h.edgesFrom, targets]

/-- What is found from a vertex is what it reaches. -/
theorem Indexed.mem_reachableFrom (h : g.Indexed) : w ∈ g.reachableFrom v ↔ g.Reaches v w := by
  rw [reachableFrom, h.successors]
  constructor
  · refine of_mem_explore (fun u hu x hx => ?_) (fun u hu => ?_) (by simp)
    · exact TransGen.tail hu (mem_targets.1 hx)
    · exact TransGen.single (mem_targets.1 hu)
  · have hsize : g.edgeList.length = g.edges.size := Array.length_toList
    have hstart : (targets g.edgeList v).length ≤ g.edgeList.length := by
      rw [targets, List.length_map]
      exact List.length_filter_le ..
    have hunseen : (unseen g.edgeList []).length ≤ g.edgeList.length := List.length_filter_le ..
    obtain ⟨hwaiting, hclosed⟩ := @explore_closed (targets g.edgeList v) [] (2 * g.edges.size + 1)
      g.edgeList (by omega) (by simp)
    intro hreach
    induction hreach with
    | single hlead => exact hwaiting _ (mem_targets.2 hlead)
    | tail _ hlead ih =>
      obtain ⟨e, he, rfl, rfl⟩ := hlead
      exact hclosed e he ih

/-! ## Cyclic vertices -/

theorem Reaches.trans {u : String} (h : g.Reaches u v) (h' : g.Reaches v w) : g.Reaches u w :=
  TransGen.trans h h'

/-- What is reached is the end of an edge. -/
theorem Reaches.mem_vertices (h : g.Reaches v w) : w ∈ g.vertices.names := by
  obtain ⟨u, -, e, he, -, rfl⟩ := TransGen.tail'_iff.1 h
  refine NameSet.mem_names_ofNames.2 (List.mem_append_right _ ?_)
  exact List.mem_flatMap.2 ⟨e, he, by simp⟩

/-- The vertices that lead back to themselves, increasing. -/
def cyclicNames (g : PropertyGraph) : List String :=
  g.vertices.names.filter fun v => (g.reachableFrom v).contains v

/-- The cyclic vertices that reach a vertex and are reached by it, increasing. -/
def classOf (g : PropertyGraph) (v : String) : List String :=
  g.cyclicNames.filter fun w => (g.reachableFrom v).contains w && (g.reachableFrom w).contains v

theorem Indexed.mem_cyclicNames (h : g.Indexed) : v ∈ g.cyclicNames ↔ g.Reaches v v := by
  rw [cyclicNames, List.mem_filter, List.contains_iff_mem, h.mem_reachableFrom]
  exact and_iff_right_of_imp Reaches.mem_vertices

theorem pairwise_cyclicNames (g : PropertyGraph) : g.cyclicNames.Pairwise (· < ·) :=
  g.vertices.pairwise_names.filter _

theorem pairwise_classOf (g : PropertyGraph) (v : String) : (g.classOf v).Pairwise (· < ·) :=
  g.pairwise_cyclicNames.filter _

theorem Indexed.mem_classOf (h : g.Indexed) :
    w ∈ g.classOf v ↔ g.Reaches v w ∧ g.Reaches w v := by
  rw [classOf, List.mem_filter, Bool.and_eq_true, List.contains_iff_mem, List.contains_iff_mem,
    h.mem_reachableFrom, h.mem_reachableFrom, h.mem_cyclicNames]
  exact and_iff_right_of_imp fun hw => hw.2.trans hw.1

/-- Vertices that reach each other have one class. -/
theorem Indexed.classOf_eq (h : g.Indexed) (hw : w ∈ g.classOf v) : g.classOf w = g.classOf v := by
  obtain ⟨hvw, hwv⟩ := h.mem_classOf.1 hw
  refine List.filter_congr fun u _ => Bool.eq_iff_iff.2 ?_
  simp only [Bool.and_eq_true, List.contains_iff_mem, h.mem_reachableFrom]
  exact ⟨fun hu => ⟨hvw.trans hu.1, hu.2.trans hwv⟩, fun hu => ⟨hwv.trans hu.1, hu.2.trans hvw⟩⟩

/-! ## The groups -/

/-- A group is the class of its least vertex. -/
theorem cyclicComponents_eq (g : PropertyGraph) :
    g.cyclicComponents =
      (g.cyclicNames.filter fun v => (g.classOf v).head? == some v).map g.classOf := by
  have hcyclic : g.cyclicVertices = g.cyclicNames.map fun v => (v, g.reachableFrom v) := by
    rw [cyclicVertices, cyclicNames, List.filter_map]
    rfl
  have hclass : ∀ v, ((g.cyclicVertices.filter fun q =>
      (g.reachableFrom v).contains q.1 && q.2.contains v).map Prod.fst) = g.classOf v := by
    intro v
    rw [hcyclic, List.filter_map, List.map_map]
    exact List.map_id _
  have hgroups : (g.cyclicVertices.map fun p =>
      (p.1, (g.cyclicVertices.filter fun q => p.2.contains q.1 && q.2.contains p.1).map Prod.fst)) =
        g.cyclicNames.map fun v => (v, g.classOf v) := by
    conv_lhs => rw [hcyclic, List.map_map, ← hcyclic]
    exact List.map_congr_left fun v _ => congrArg (v, ·) (hclass v)
  rw [cyclicComponents]
  simp only [hgroups]
  rw [List.filter_map, List.map_map]
  rfl

theorem Indexed.mem_cyclicComponents (h : g.Indexed) {c : List String} :
    c ∈ g.cyclicComponents ↔ ∃ v, g.Reaches v v ∧ c = g.classOf v := by
  rw [cyclicComponents_eq, List.mem_map]
  simp only [List.mem_filter, beq_iff_eq, h.mem_cyclicNames]
  constructor
  · rintro ⟨v, ⟨hv, -⟩, rfl⟩
    exact ⟨v, hv, rfl⟩
  · rintro ⟨v, hv, rfl⟩
    have hself : v ∈ g.classOf v := h.mem_classOf.2 ⟨hv, hv⟩
    -- The class is listed at its first vertex, whose class it is too.
    obtain ⟨least, rest, hclass⟩ := List.exists_cons_of_ne_nil (List.ne_nil_of_mem hself)
    have hleast : least ∈ g.classOf v := hclass ▸ List.mem_cons_self
    have heq := h.classOf_eq hleast
    obtain ⟨hto, hfrom⟩ := h.mem_classOf.1 hleast
    exact ⟨least, ⟨hfrom.trans hto, by rw [heq, hclass]; rfl⟩, heq⟩

/-- Groups with a member in common are one group. -/
theorem Indexed.cyclicComponents_unique (h : g.Indexed) {c c' : List String}
    (hc : c ∈ g.cyclicComponents) (hc' : c' ∈ g.cyclicComponents) (hv : v ∈ c) (hv' : v ∈ c') :
    c = c' := by
  obtain ⟨a, -, rfl⟩ := h.mem_cyclicComponents.1 hc
  obtain ⟨b, -, rfl⟩ := h.mem_cyclicComponents.1 hc'
  exact (h.classOf_eq hv).symm.trans (h.classOf_eq hv')

/-- The groups are in the order of their first vertices. -/
theorem pairwise_cyclicComponents (g : PropertyGraph) :
    g.cyclicComponents.Pairwise (· < ·) := by
  rw [cyclicComponents_eq, List.pairwise_map, List.pairwise_filter]
  refine g.pairwise_cyclicNames.imp fun {a b} hlt ha hb => ?_
  obtain ⟨_, ha⟩ := List.head?_eq_some_iff.1 (beq_iff_eq.1 ha)
  obtain ⟨_, hb⟩ := List.head?_eq_some_iff.1 (beq_iff_eq.1 hb)
  rw [ha, hb]
  exact List.Lex.rel hlt

theorem Indexed.hasCycles_iff (h : g.Indexed) : g.hasCycles = true ↔ ∃ v, g.Reaches v v := by
  rw [hasCycles, List.any_eq_true]
  simp only [List.contains_iff_mem, h.mem_reachableFrom]
  exact ⟨fun ⟨v, _, hv⟩ => ⟨v, hv⟩, fun ⟨v, hv⟩ => ⟨v, hv.mem_vertices, hv⟩⟩

/-- **Cycles.** A graph has cycles exactly if a vertex reaches itself. Its cyclic groups are the classes
of vertices that reach each other, of those that reach themselves: each in increasing order, the list
of them in increasing order too, none empty, no two with a vertex in common, and each cyclic vertex in
exactly one. There are none exactly if there are no cycles. -/
theorem cyclicComponents_exact (h : g.Reachable) :
    (g.hasCycles = true ↔ ∃ v, g.Reaches v v) ∧
    (∀ c, c ∈ g.cyclicComponents ↔ c.Pairwise (· < ·) ∧
      ∃ v, g.Reaches v v ∧ ∀ w, w ∈ c ↔ g.Reaches v w ∧ g.Reaches w v) ∧
    g.cyclicComponents.Pairwise (· < ·) ∧ (∀ c ∈ g.cyclicComponents, c ≠ []) ∧
    g.cyclicComponents.Pairwise List.Disjoint ∧
    (∀ v, g.Reaches v v → ∃! c, c ∈ g.cyclicComponents ∧ v ∈ c) ∧
    (g.cyclicComponents = [] ↔ g.hasCycles = false) := by
  have hg := h.indexed
  have hmem : ∀ v, g.Reaches v v → g.classOf v ∈ g.cyclicComponents ∧ v ∈ g.classOf v :=
    fun v hv => ⟨hg.mem_cyclicComponents.2 ⟨v, hv, rfl⟩, hg.mem_classOf.2 ⟨hv, hv⟩⟩
  have hnonempty : ∀ c ∈ g.cyclicComponents, c ≠ [] := by
    intro c hc
    obtain ⟨v, hv, rfl⟩ := hg.mem_cyclicComponents.1 hc
    exact List.ne_nil_of_mem (hmem v hv).2
  refine ⟨hg.hasCycles_iff, fun c => ⟨fun hc => ?_, ?_⟩, g.pairwise_cyclicComponents, hnonempty,
    ?_, fun v hv => ?_, ?_⟩
  · obtain ⟨v, hv, rfl⟩ := hg.mem_cyclicComponents.1 hc
    exact ⟨g.pairwise_classOf v, v, hv, fun w => hg.mem_classOf⟩
  · rintro ⟨hsorted, v, hv, hc⟩
    -- Increasing lists with the same members are equal.
    obtain rfl : c = g.classOf v := hsorted.eq_of_mem_iff (g.pairwise_classOf v) fun w =>
      (hc w).trans hg.mem_classOf.symm
    exact (hmem v hv).1
  · refine g.pairwise_cyclicComponents.imp_of_mem fun {c c'} hc hc' hlt v hv hv' => ?_
    obtain rfl := hg.cyclicComponents_unique hc hc' hv hv'
    exact absurd hlt (List.lt_irrefl c)
  · exact ⟨g.classOf v, hmem v hv, fun c hc =>
      hg.cyclicComponents_unique hc.1 (hmem v hv).1 hc.2 (hmem v hv).2⟩
  · rw [← Bool.not_eq_true, hg.hasCycles_iff, not_exists, List.eq_nil_iff_forall_not_mem]
    constructor
    · exact fun hnone v hv => hnone _ (hmem v hv).1
    · rintro hnone c hc
      obtain ⟨v, hv, -⟩ := hg.mem_cyclicComponents.1 hc
      exact hnone v hv

/-- Two vertices that lead to each other by two edges side by side, one of them to a third, and one that
leads to itself. Only the first of them is a node. -/
def rings : GraphDocument where
  metadata := ⟨"g", "/a", "multi", 1, []⟩
  nodes := [⟨"b", .file, "B", {}, .empty, none⟩]
  edges := [⟨"e1", .calls, "b", "a", {}, none⟩, ⟨"e2", .calls, "a", "b", {}, none⟩,
    ⟨"e3", .calls, "b", "a", {}, none⟩, ⟨"e4", .calls, "a", "d", {}, none⟩,
    ⟨"e5", .calls, "c", "c", {}, none⟩]

theorem cyclicComponents_exact_rings : (ofDocument rings).Reachable ∧
    (ofDocument rings).cyclicComponents = [["a", "b"], ["c"]] ∧
    (∃ v, (ofDocument rings).Reaches v v) ∧ ¬ (ofDocument rings).Reaches "d" "d" ∧
    ∃! c, c ∈ (ofDocument rings).cyclicComponents ∧ "b" ∈ c := by
  have hreachable : (ofDocument rings).Reachable := .document rings
  have hgroups : (ofDocument rings).cyclicComponents = [["a", "b"], ["c"]] := by decide +kernel
  obtain ⟨hcycles, hmem, -, -, -, hone, -⟩ := cyclicComponents_exact hreachable
  have hfirst : ["a", "b"] ∈ (ofDocument rings).cyclicComponents := by simp [hgroups]
  obtain ⟨-, v, -, hv⟩ := (hmem _).1 hfirst
  obtain ⟨hvb, hbv⟩ := (hv "b").1 (by decide)
  refine ⟨hreachable, hgroups, hcycles.1 (by decide +kernel), fun hd => ?_, hone "b" (hbv.trans hvb)⟩
  obtain ⟨c, ⟨hc, hdc⟩, -⟩ := hone "d" hd
  rw [hgroups] at hc
  simp only [List.mem_cons, List.not_mem_nil, or_false] at hc
  rcases hc with rfl | rfl <;> exact absurd hdc (by decide)

end CodeGraph.PropertyGraph
