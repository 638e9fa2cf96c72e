import CodeGraph.Graph.Builder
import CodeGraph.Proofs.NameMap

/-!
# What building adds to a graph

Nodes, edges and contributors are kept apart, so they may be added in any order among each other
(`grown_grown`): a graph that has grown by pieces is the graph that has grown at once.

* `recordAll_new`: of the names of contributors the first occurrences stay, in their order.
* `edges_pushEdges`: edges come in the order in which they are added.
* `nodes_insertNodes`: of the nodes of an identifier the last one stays.
* `ofDocument_toDocument`: a graph that is made from a document is made again from its own document.
* `GraphBuilder.exists_ofDocument`: whatever is built is made from a document.
-/

namespace CodeGraph

/-! ## Contributors -/

namespace GraphMetadata

/-- Notes contributors in turn. -/
def recordAll (m : GraphMetadata) (names : List String) : GraphMetadata :=
  names.foldl recordExtension m

theorem recordAll_append (m : GraphMetadata) (a b : List String) :
    m.recordAll (a ++ b) = (m.recordAll a).recordAll b :=
  List.foldl_append

theorem recordExtension_of_mem {m : GraphMetadata} {name : String}
    (h : name ∈ m.extensionNames) : m.recordExtension name = m := by
  simp [recordExtension, h]

/-- The contributors that were not noted before follow the others, each once and in the order of
their first occurrence. -/
theorem recordAll_eq (m : GraphMetadata) (names : List String) :
    m.recordAll names = { m with
      extensionNames := m.extensionNames ++ (names.removeAll m.extensionNames).eraseDups } := by
  induction names generalizing m with
  | nil => simp [recordAll, List.removeAll]
  | cons name names ih =>
    change (m.recordExtension name).recordAll names = _
    rw [ih]
    by_cases h : name ∈ m.extensionNames
    · rw [recordExtension_of_mem h]
      simp [List.removeAll, h]
    · simp only [recordExtension, List.contains_eq_mem, h, decide_false, Bool.false_eq_true,
        if_false]
      simp only [List.removeAll, List.elem_eq_mem, List.filter_cons, h, decide_false, Bool.not_false,
        if_true, List.eraseDups_cons, List.append_assoc, List.singleton_append, List.filter_filter,
        List.mem_append, List.mem_singleton]
      congr 4
      apply List.filter_congr
      intro a _
      by_cases ha : a = name <;> simp [ha]

theorem recordAll_new (codebase : String) (createdAt : UInt64) (names : List String) :
    (new codebase createdAt).recordAll names =
      { new codebase createdAt with extensionNames := names.eraseDups } := by
  have hnone : names.removeAll [] = names := List.filter_eq_self.2 (by simp)
  rw [recordAll_eq, show (new codebase createdAt).extensionNames = [] from rfl, hnone]
  rfl

end GraphMetadata

namespace PropertyGraph

/-! ## Nodes and edges -/

theorem insertNodes_append (g : PropertyGraph) (a b : List Node) :
    g.insertNodes (a ++ b) = (g.insertNodes a).insertNodes b :=
  List.foldl_append

theorem pushEdges_append (g : PropertyGraph) (a b : List Edge) :
    g.pushEdges (a ++ b) = (g.pushEdges a).pushEdges b :=
  List.foldl_append

@[simp] theorem metadata_insertNodes (g : PropertyGraph) (l : List Node) :
    (g.insertNodes l).metadata = g.metadata := by
  induction l generalizing g with
  | nil => rfl
  | cons n l ih => exact ih (g.insertNode n)

@[simp] theorem metadata_pushEdges (g : PropertyGraph) (l : List Edge) :
    (g.pushEdges l).metadata = g.metadata := by
  induction l generalizing g with
  | nil => rfl
  | cons e l ih => exact ih (g.pushEdge e)

@[simp] theorem nodes_pushEdges (g : PropertyGraph) (l : List Edge) :
    (g.pushEdges l).nodes = g.nodes := by
  induction l generalizing g with
  | nil => rfl
  | cons e l ih => exact ih (g.pushEdge e)

@[simp] theorem edges_insertNodes (g : PropertyGraph) (l : List Node) :
    (g.insertNodes l).edges = g.edges := by
  induction l generalizing g with
  | nil => rfl
  | cons n l ih => exact ih (g.insertNode n)

theorem edges_pushEdges (g : PropertyGraph) (l : List Edge) :
    (g.pushEdges l).edges.toList = g.edges.toList ++ l := by
  induction l generalizing g with
  | nil => simp [pushEdges]
  | cons e l ih =>
    change ((g.pushEdge e).pushEdges l).edges.toList = _
    rw [ih]
    simp [pushEdge]

theorem nodes_insertNodes (g : PropertyGraph) (l : List Node) :
    (g.insertNodes l).nodes = g.nodes.insertMany (l.map fun n => (n.id, n)) := by
  induction l generalizing g with
  | nil => rfl
  | cons n l ih => exact ih (g.insertNode n)

theorem insertNodes_pushEdges (g : PropertyGraph) (nodes : List Node) (edges : List Edge) :
    (g.pushEdges edges).insertNodes nodes = (g.insertNodes nodes).pushEdges edges := by
  have hone : ∀ (g : PropertyGraph) (n : Node),
      (g.pushEdges edges).insertNode n = (g.insertNode n).pushEdges edges := by
    intro g n
    induction edges generalizing g with
    | nil => rfl
    | cons e edges ih => exact ih (g.pushEdge e)
  induction nodes generalizing g with
  | nil => rfl
  | cons n nodes ih =>
    change ((g.pushEdges edges).insertNode n).insertNodes nodes = _
    rw [hone]
    exact ih (g.insertNode n)

/-! ## Growth -/

/-- Notes contributors. -/
def recordAll (g : PropertyGraph) (names : List String) : PropertyGraph :=
  { g with metadata := g.metadata.recordAll names }

theorem recordAll_insertNodes (g : PropertyGraph) (names : List String) (l : List Node) :
    (g.insertNodes l).recordAll names = (g.recordAll names).insertNodes l := by
  induction l generalizing g with
  | nil => rfl
  | cons n l ih => exact ih (g.insertNode n)

theorem recordAll_pushEdges (g : PropertyGraph) (names : List String) (l : List Edge) :
    (g.pushEdges l).recordAll names = (g.recordAll names).pushEdges l := by
  induction l generalizing g with
  | nil => rfl
  | cons e l ih => exact ih (g.pushEdge e)

/-- A graph with contributors, nodes and edges added. -/
def grown (g : PropertyGraph) (names : List String) (nodes : List Node) (edges : List Edge) :
    PropertyGraph :=
  ((g.recordAll names).insertNodes nodes).pushEdges edges

theorem grown_grown (g : PropertyGraph) (names names' : List String) (nodes nodes' : List Node)
    (edges edges' : List Edge) :
    (g.grown names nodes edges).grown names' nodes' edges' =
      g.grown (names ++ names') (nodes ++ nodes') (edges ++ edges') := by
  have hnames : (g.recordAll names).recordAll names' = g.recordAll (names ++ names') := by
    simp only [recordAll, GraphMetadata.recordAll_append]
  simp only [grown, recordAll_pushEdges, recordAll_insertNodes, hnames, insertNodes_pushEdges,
    ← insertNodes_append, ← pushEdges_append]

@[simp] theorem grown_nil (g : PropertyGraph) : g.grown [] [] [] = g := rfl

theorem metadata_grown (g : PropertyGraph) (names : List String) (nodes : List Node)
    (edges : List Edge) : (g.grown names nodes edges).metadata = g.metadata.recordAll names := by
  simp [grown, recordAll]

theorem nodes_grown (g : PropertyGraph) (names : List String) (nodes : List Node)
    (edges : List Edge) :
    (g.grown names nodes edges).nodes = g.nodes.insertMany (nodes.map fun n => (n.id, n)) := by
  rw [grown, nodes_pushEdges, nodes_insertNodes]
  rfl

theorem edges_grown (g : PropertyGraph) (names : List String) (nodes : List Node)
    (edges : List Edge) :
    (g.grown names nodes edges).edges.toList = g.edges.toList ++ edges := by
  rw [grown, edges_pushEdges, edges_insertNodes]
  rfl

/-! ## The document of a graph -/

theorem insertNodes_eq (g : PropertyGraph) (l : List Node) :
    g.insertNodes l = { g with nodes := g.nodes.insertMany (l.map fun n => (n.id, n)) } := by
  induction l generalizing g with
  | nil => rfl
  | cons n l ih => exact ih (g.insertNode n)

@[simp] theorem metadata_ofDocument (d : GraphDocument) :
    (ofDocument d).metadata = d.metadata := by
  rw [ofDocument, metadata_pushEdges, metadata_insertNodes]
  rfl

theorem nodes_ofDocument (d : GraphDocument) :
    (ofDocument d).nodes = NameMap.empty.insertMany (d.nodes.map fun n => (n.id, n)) := by
  rw [ofDocument, nodes_pushEdges, nodes_insertNodes]
  rfl

theorem edges_ofDocument (d : GraphDocument) : (ofDocument d).edges.toList = d.edges := by
  rw [ofDocument, edges_pushEdges, edges_insertNodes]
  rfl

/-- The nodes of a graph are nodes of the document it is made from, each under its identifier. -/
theorem mem_nodes_ofDocument {d : GraphDocument} {e : String × Node}
    (h : e ∈ (ofDocument d).nodes.entries) : e.2 ∈ d.nodes ∧ e.1 = e.2.id := by
  rw [nodes_ofDocument] at h
  rcases NameMap.mem_entries_insertMany h with h | h
  · obtain ⟨n, hn, rfl⟩ := List.mem_map.1 h
    exact ⟨hn, rfl⟩
  · cases h

/-- A graph is made again from its document. -/
theorem ofDocument_toDocument (d : GraphDocument) :
    ofDocument (ofDocument d).toDocument = ofDocument d := by
  have hentries : ((ofDocument d).toDocument.nodes.map fun n => (n.id, n)) =
      (ofDocument d).nodes.entries := by
    change ((ofDocument d).nodes.entries.map Prod.snd).map (fun n => (n.id, n)) = _
    rw [List.map_map]
    refine (List.map_congr_left fun e he => ?_).trans (List.map_id _)
    exact Prod.ext (mem_nodes_ofDocument he).2.symm rfl
  have hmetadata : (ofDocument d).toDocument.metadata = d.metadata := metadata_ofDocument d
  have hnodes : (new d.metadata).insertNodes (ofDocument d).toDocument.nodes =
      (new d.metadata).insertNodes d.nodes := by
    have hmade : NameMap.empty.insertMany (ofDocument d).nodes.entries =
        NameMap.empty.insertMany (d.nodes.map fun n => (n.id, n)) := by
      rw [NameMap.insertMany_entries, nodes_ofDocument]
    rw [insertNodes_eq, insertNodes_eq, hentries]
    exact congrArg (fun nodes => { new d.metadata with nodes := nodes }) hmade
  have hedges : (ofDocument d).toDocument.edges = d.edges := edges_ofDocument d
  rw [ofDocument, hmetadata, hnodes, hedges]
  rfl

end PropertyGraph

/-! ## Runs of a builder -/

/-- A call of a builder. -/
inductive BuilderStep where
  | start (m : GraphMetadata)
  | addNode (n : Node)
  | addNodes (l : List Node)
  | addEdge (e : Edge)
  | addEdges (l : List Edge)
  | recordExtension (name : String)

namespace GraphBuilder

def perform (b : GraphBuilder) : BuilderStep → Except BuilderError GraphBuilder
  | .start m => .ok (b.start m)
  | .addNode n => b.addNode n
  | .addNodes l => b.addNodes l
  | .addEdge e => b.addEdge e
  | .addEdges l => b.addEdges l
  | .recordExtension name => b.recordExtension name

/-- Makes calls one after the other as long as none is refused. -/
def run (b : GraphBuilder) (steps : List BuilderStep) : Except BuilderError GraphBuilder :=
  steps.foldlM perform b

/-- Whether a graph in progress is made from a document. -/
def Documented (b : GraphBuilder) : Prop :=
  ∀ g, b.graph? = some g → ∃ d, g = PropertyGraph.ofDocument d

theorem grown_ofDocument (d : GraphDocument) (names : List String) (nodes : List Node)
    (edges : List Edge) : (PropertyGraph.ofDocument d).grown names nodes edges =
      PropertyGraph.ofDocument
        ⟨d.metadata.recordAll names, d.nodes ++ nodes, d.edges ++ edges⟩ :=
  PropertyGraph.grown_grown (.new d.metadata) [] names d.nodes nodes d.edges edges

theorem Documented.modify {b b' : GraphBuilder} (hb : b.Documented) (names : List String)
    (nodes : List Node) (edges : List Edge) (h : b.modify (·.grown names nodes edges) = .ok b') :
    b'.Documented := by
  rw [GraphBuilder.modify] at h
  rcases hgraph : b.graph? with _ | g
  · rw [hgraph] at h
    cases h
  · rw [hgraph] at h
    cases h
    rintro _ ⟨⟩
    obtain ⟨d, rfl⟩ := hb g hgraph
    exact ⟨_, grown_ofDocument d names nodes edges⟩

theorem Documented.perform {b b' : GraphBuilder} (hb : b.Documented) {step : BuilderStep}
    (h : b.perform step = .ok b') : b'.Documented := by
  cases step with
  | start m =>
    cases h
    rintro _ ⟨⟩
    exact ⟨⟨m, [], []⟩, rfl⟩
  | addNode n => exact hb.modify [] [n] [] h
  | addNodes l => exact hb.modify [] l [] h
  | addEdge e => exact hb.modify [] [] [e] h
  | addEdges l => exact hb.modify [] [] l h
  | recordExtension name => exact hb.modify [name] [] [] h

theorem Documented.run {b b' : GraphBuilder} (hb : b.Documented) {steps : List BuilderStep}
    (h : b.run steps = .ok b') : b'.Documented := by
  induction steps generalizing b with
  | nil =>
    cases h
    exact hb
  | cons step steps ih =>
    rw [GraphBuilder.run, List.foldlM_cons] at h
    rcases hstep : b.perform step with e | b₁
    · rw [hstep] at h
      cases h
    · rw [hstep] at h
      exact ih (hb.perform hstep) h

/-- Whatever a builder builds is made from a document. -/
theorem exists_ofDocument {steps : List BuilderStep} {b b' : GraphBuilder} {g : PropertyGraph}
    (hrun : GraphBuilder.new.run steps = .ok b) (hbuild : b.build = .ok (g, b')) :
    ∃ d, g = PropertyGraph.ofDocument d := by
  have hnew : GraphBuilder.new.Documented := by
    rintro _ ⟨⟩
  refine (hnew.run hrun) g ?_
  rw [build] at hbuild
  rcases hgraph : b.graph? with _ | g'
  · rw [hgraph] at hbuild
    cases hbuild
  · rw [hgraph] at hbuild
    cases hbuild
    rfl

end GraphBuilder

end CodeGraph
