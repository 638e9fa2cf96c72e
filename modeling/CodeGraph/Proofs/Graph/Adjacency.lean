import Mathlib.Data.List.Basic
import CodeGraph.Proofs.Graph.Building

/-!
# Edges by their ends

Beside its edges a graph keeps the positions of those that leave an identifier and of those that
enter it. Each index gives for every identifier the positions of its edges in increasing order, and
none else (`IsIndex`). Adding an edge keeps this of both indices (`Indexed.pushEdge`) and nothing else
touches them, so it holds of every graph that a builder gives out or that is made from a document
(`Reachable.indexed`). What is looked up by an end is therefore what a pass over all edges would find
(`edgesFrom_edgesTo_exact`), whether or not the end is a node.
-/

namespace CodeGraph

/-! ## Graphs that there are -/

/-- The builders that calls lead to. A call that is refused changes nothing, and after a graph has been
given out another one may be started. -/
inductive GraphBuilder.Reached : GraphBuilder → Prop
  | new : Reached .new
  | perform {b b' : GraphBuilder} (step : BuilderStep) :
      Reached b → b.perform step = .ok b' → Reached b'
  | build {b b' : GraphBuilder} {g : PropertyGraph} :
      Reached b → b.build = .ok (g, b') → Reached b'

/-- The graphs that a builder gives out, and those that are made from documents. -/
inductive PropertyGraph.Reachable : PropertyGraph → Prop
  | built {b b' : GraphBuilder} {g : PropertyGraph} :
      b.Reached → b.build = .ok (g, b') → Reachable g
  | document (d : GraphDocument) : Reachable (ofDocument d)

theorem GraphBuilder.build_eq_ok {b b' : GraphBuilder} {g : PropertyGraph}
    (h : b.build = .ok (g, b')) : b.graph? = some g ∧ b' = .new := by
  rw [build] at h
  rcases hgraph : b.graph? with _ | g'
  all_goals
    rw [hgraph] at h
    cases h
  exact ⟨rfl, rfl⟩

theorem GraphBuilder.Reached.documented {b : GraphBuilder} (h : b.Reached) : b.Documented := by
  have hnew : GraphBuilder.new.Documented := by
    rintro _ ⟨⟩
  induction h with
  | new => exact hnew
  | perform _ _ hstep ih => exact ih.perform hstep
  | build _ hbuild _ => exact (build_eq_ok hbuild).2 ▸ hnew

theorem PropertyGraph.Reachable.exists_ofDocument {g : PropertyGraph} (h : g.Reachable) :
    ∃ d, g = ofDocument d := by
  cases h with
  | built hb hbuild => exact hb.documented g (GraphBuilder.build_eq_ok hbuild).1
  | document d => exact ⟨d, rfl⟩

namespace PropertyGraph

/-! ## Positions -/

/-- What is at the positions of the members that a test accepts. -/
theorem filterMap_findIdxs {α : Type} (p : α → Bool) (front l : List α) :
    ((l.findIdxs p front.length).filterMap fun i => (front ++ l)[i]?) = l.filter p := by
  induction l generalizing front with
  | nil => rfl
  | cons a l ih =>
    have hrest := ih (front ++ [a])
    rw [List.length_append, List.length_singleton, List.append_assoc] at hrest
    have ha : (front ++ a :: l)[front.length]? = some a := by simp
    rw [List.findIdxs_cons, List.filter_cons]
    split
    · rw [List.filterMap_cons, ha]
      exact congrArg (a :: ·) hrest
    · exact hrest

/-- An index gives for every name the positions of the edges that have it at one end. -/
def IsIndex (index : NameMap (Array Nat)) (endOf : Edge → String) (l : List Edge) : Prop :=
  ∀ id, ((index.get? id).getD #[]).toList = l.findIdxs (endOf · == id)

section

variable {index : NameMap (Array Nat)} {endOf : Edge → String} {l : List Edge}

theorem IsIndex.notePosition (h : IsIndex index endOf l) (e : Edge) :
    IsIndex (notePosition index (endOf e) l.length) endOf (l ++ [e]) := by
  intro id
  rw [PropertyGraph.notePosition, NameMap.get?_insert, List.findIdxs_append,
    List.findIdxs_singleton, Nat.zero_add, ← h id]
  by_cases hid : id = endOf e
  · simp [hid]
  · have hne : (endOf e == id) = false := by simpa using Ne.symm hid
    simp [hid, hne]

theorem IsIndex.position_lt (h : IsIndex index endOf l) {entry : String × Array Nat}
    (hentry : entry ∈ index.entries) {i : Nat} (hi : i ∈ entry.2) : i < l.length := by
  have hget := NameMap.get?_eq_some_iff.2 hentry
  have hpositions := h entry.1
  rw [hget, Option.getD_some] at hpositions
  have hmem : i ∈ l.findIdxs (endOf · == entry.1) := hpositions ▸ Array.mem_toList_iff.2 hi
  simpa using List.lt_add_of_mem_findIdxs i hmem

theorem IsIndex.edgesAt {g : PropertyGraph} (h : IsIndex index endOf g.edgeList) (id : String) :
    g.edgesAt index id = g.edgeList.filter (endOf · == id) := by
  rw [PropertyGraph.edgesAt, h id]
  have hlookup : ∀ i, g.edges[i]? = g.edgeList[i]? := fun i => (Array.getElem?_toList ..).symm
  simp only [hlookup]
  exact filterMap_findIdxs _ [] g.edgeList

end

/-! ## Graphs with their indices -/

/-- Both indices of a graph are those of its edges. -/
structure Indexed (g : PropertyGraph) : Prop where
  outgoing : IsIndex g.outgoing Edge.source g.edgeList
  incoming : IsIndex g.incoming Edge.target g.edgeList

theorem indexed_new (m : GraphMetadata) : (new m).Indexed :=
  ⟨fun _ => rfl, fun _ => rfl⟩

theorem Indexed.insertNodes {g : PropertyGraph} (h : g.Indexed) (l : List Node) :
    (g.insertNodes l).Indexed := by
  rw [insertNodes_eq]
  exact ⟨h.outgoing, h.incoming⟩

theorem Indexed.pushEdge {g : PropertyGraph} (h : g.Indexed) (e : Edge) :
    (g.pushEdge e).Indexed := by
  have hedges : (g.pushEdge e).edgeList = g.edgeList ++ [e] := by
    simp [edgeList, PropertyGraph.pushEdge]
  refine ⟨?_, ?_⟩
  all_goals rw [hedges]
  · exact h.outgoing.notePosition e
  · exact h.incoming.notePosition e

theorem Indexed.pushEdges {g : PropertyGraph} (h : g.Indexed) (l : List Edge) :
    (g.pushEdges l).Indexed := by
  induction l generalizing g with
  | nil => exact h
  | cons e l ih => exact ih (h.pushEdge e)

theorem indexed_ofDocument (d : GraphDocument) : (ofDocument d).Indexed :=
  ((indexed_new d.metadata).insertNodes d.nodes).pushEdges d.edges

theorem Reachable.indexed {g : PropertyGraph} (h : g.Reachable) : g.Indexed := by
  obtain ⟨d, rfl⟩ := h.exists_ofDocument
  exact indexed_ofDocument d

theorem Indexed.edgesFrom {g : PropertyGraph} (h : g.Indexed) (id : String) :
    g.edgesFrom id = g.edgeList.filter (·.source == id) :=
  h.outgoing.edgesAt id

theorem Indexed.edgesTo {g : PropertyGraph} (h : g.Indexed) (id : String) :
    g.edgesTo id = g.edgeList.filter (·.target == id) :=
  h.incoming.edgesAt id

/-! ## All edges, end by end -/

/-- The members of a list by their names, one name after the other, are those that have one of the
names. -/
theorem flatMap_filter_perm {α : Type} (nameOf : α → String) {names : List String}
    (hnames : names.Nodup) (l : List α) :
    (names.flatMap fun name => l.filter (nameOf · == name)).Perm
      (l.filter fun a => names.contains (nameOf a)) := by
  induction names with
  | nil => simp
  | cons name names ih =>
    obtain ⟨hname, hnames⟩ := List.nodup_cons.1 hnames
    let rest := l.filter fun a => (name :: names).contains (nameOf a)
    have hfirst : rest.filter (nameOf · == name) = l.filter (nameOf · == name) := by
      rw [List.filter_filter]
      refine List.filter_congr fun a _ => ?_
      by_cases ha : nameOf a = name <;> simp [ha]
    have hothers : rest.filter (fun a => !(nameOf a == name)) =
        l.filter fun a => names.contains (nameOf a) := by
      rw [List.filter_filter]
      refine List.filter_congr fun a _ => ?_
      by_cases ha : nameOf a = name <;> simp [ha, hname]
    have hsplit := List.filter_append_perm (nameOf · == name) rest
    rw [hfirst, hothers] at hsplit
    exact ((ih hnames).append_left _).trans hsplit

theorem flatMap_filter_perm_self {α : Type} (nameOf : α → String) {names : List String}
    (hnames : names.Nodup) {l : List α} (hl : ∀ a ∈ l, nameOf a ∈ names) :
    (names.flatMap fun name => l.filter (nameOf · == name)).Perm l := by
  have hall : (l.filter fun a => names.contains (nameOf a)) = l :=
    List.filter_eq_self.2 (by simpa using hl)
  have hperm := flatMap_filter_perm nameOf hnames l
  rwa [hall] at hperm

/-- **Adjacency.** The edges that leave an identifier, and those that enter it, are the edges of the
graph that have it at this end, in their order and as often as they were added. Taken together over
distinct identifiers among which are all ends, they are all edges, each once. No position in an index
is past the last edge. -/
theorem edgesFrom_edgesTo_exact {g : PropertyGraph} (h : g.Reachable) :
    (∀ id, g.edgesFrom id = g.edgeList.filter (·.source == id) ∧
      g.edgesTo id = g.edgeList.filter (·.target == id)) ∧
    (∀ ends : List String, ends.Nodup → (∀ e ∈ g.edgeList, e.source ∈ ends ∧ e.target ∈ ends) →
      (ends.flatMap g.edgesFrom).Perm g.edgeList ∧ (ends.flatMap g.edgesTo).Perm g.edgeList) ∧
    ∀ index ∈ [g.outgoing, g.incoming], ∀ entry ∈ index.entries, ∀ i ∈ entry.2,
      i < g.edges.size := by
  have hg := h.indexed
  refine ⟨fun id => ⟨hg.edgesFrom id, hg.edgesTo id⟩, fun ends hnodup hends => ?_, ?_⟩
  · rw [funext hg.edgesFrom, funext hg.edgesTo]
    exact ⟨flatMap_filter_perm_self Edge.source hnodup fun e he => (hends e he).1,
      flatMap_filter_perm_self Edge.target hnodup fun e he => (hends e he).2⟩
  · have hsize : g.edgeList.length = g.edges.size := Array.length_toList
    simp only [List.forall_mem_cons]
    refine ⟨fun entry hentry i hi => ?_, fun entry hentry i hi => ?_, by simp⟩
    · exact hsize ▸ hg.outgoing.position_lt hentry hi
    · exact hsize ▸ hg.incoming.position_lt hentry hi

/-- Nodes of which one replaces another, an edge from a node to itself, and two edges side by side to
an identifier that no node has. -/
def tangled : GraphDocument where
  metadata := ⟨"g", "/a", "multi", 1, []⟩
  nodes := [⟨"a", .file, "A", {}, .empty, none⟩, ⟨"a", .file, "A again", {}, .empty, none⟩]
  edges := [⟨"e1", .calls, "a", "a", {}, none⟩, ⟨"e2", .calls, "a", "z", {}, none⟩,
    ⟨"e3", .calls, "a", "z", {}, none⟩]

/-- A builder gives out the graph of these, after it has given out another one. -/
theorem reachable_tangled : (ofDocument tangled).Reachable := by
  have hagain : GraphBuilder.Reached .new :=
    .build (.perform (.start tangled.metadata) .new rfl) rfl
  have hnodes : GraphBuilder.Reached ⟨some (ofDocument { tangled with edges := [] })⟩ :=
    .perform (.addNodes tangled.nodes) (.perform (.start tangled.metadata) hagain rfl) rfl
  have hedges : GraphBuilder.Reached ⟨some (ofDocument tangled)⟩ :=
    .perform (.addEdges tangled.edges) hnodes rfl
  exact .built hedges rfl

theorem edgesFrom_edgesTo_exact_tangled : (ofDocument tangled).Reachable ∧
    ((ofDocument tangled).edgesFrom "a").map (·.id) = ["e1", "e2", "e3"] ∧
    ((ofDocument tangled).edgesTo "z").map (·.id) = ["e2", "e3"] ∧
    (ofDocument tangled).edgesFrom "z" = [] ∧
    (["a", "z"].flatMap (ofDocument tangled).edgesTo).Perm tangled.edges := by
  obtain ⟨hends, hall, -⟩ := edgesFrom_edgesTo_exact reachable_tangled
  have hedges : (ofDocument tangled).edgeList = tangled.edges := edges_ofDocument tangled
  simp only [hedges] at hends hall
  refine ⟨reachable_tangled, ?_, ?_, ?_, (hall ["a", "z"] (by decide) fun e he => ?_).2⟩
  · rw [(hends "a").1]
    rfl
  · rw [(hends "z").2]
    rfl
  · rw [(hends "z").1]
    rfl
  · simp only [tangled, List.mem_cons, List.not_mem_nil, or_false] at he
    rcases he with rfl | rfl | rfl <;> decide

end PropertyGraph

end CodeGraph
