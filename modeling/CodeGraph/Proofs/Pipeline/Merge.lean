import CodeGraph.Proofs.Graph.Building
import CodeGraph.Proofs.Pipeline.Course

/-!
# The graph of a run

The graph of a run is made of what its visits hold: the nodes and edges of all successful parsing in
the order of the extensions, then the edges of all successful linking in that order.

* `graphOf_of_calls`: the calls of a run determine its graph and its report.
* `run_graph_merges_visits`: with a clock that stands still, the graph that a run gives is the merge
  of the outputs of its calls, and each linking was given the nodes of that graph.
-/

namespace CodeGraph

namespace Pipeline

variable {p : Pipeline} {root : String}

theorem stampNode_eq (i : ExtensionInfo) (now : UInt64) (n : Node) :
    stampNode i now n = n.attributedTo i now := by
  obtain ⟨id, type, name, metadata, labels, provenance⟩ := n
  cases provenance <;> rfl

theorem stampEdge_eq (i : ExtensionInfo) (now : UInt64) (e : Edge) :
    stampEdge i now e = e.attributedTo i now := by
  obtain ⟨id, type, source, target, metadata, provenance⟩ := e
  cases provenance <;> rfl

/-! ## Merging -/

/-- What has been parsed, and edges, in one graph. -/
def gathered (root : String) (started parsedAt : UInt64) (visits : List Visit)
    (edges : List Edge) : PropertyGraph :=
  (PropertyGraph.new (.new root started)).grown (visits.filterMap (·.contributor?))
    (visits.flatMap (·.parsedNodes parsedAt)) (visits.flatMap (·.parsedEdges parsedAt) ++ edges)

theorem addEdges_eq (i : ExtensionInfo) (now : UInt64) (g : PropertyGraph) (l : List Edge) :
    addEdges i now g l = g.grown [i.name] [] (l.map (·.attributedTo i now)) := by
  rw [addEdges, noteContributor, show stampEdge i now = (·.attributedTo i now) from
    funext (stampEdge_eq i now)]
  exact PropertyGraph.recordAll_pushEdges g [i.name] _

theorem mergeParsed_eq (now : UInt64) (g : PropertyGraph) (v : Visit) :
    mergeParsed now g v =
      g.grown v.contributor?.toList (v.parsedNodes now) (v.parsedEdges now) := by
  unfold mergeParsed Visit.contributor? Visit.parsedNodes Visit.parsedEdges
  cases v.parsed with
  | error f => rfl
  | ok o =>
    have hnodes : g.insertNodes (o.nodes.map (stampNode v.extension.info now)) =
        g.grown [] (o.nodes.map (·.attributedTo v.extension.info now)) [] := by
      rw [show stampNode v.extension.info now = (·.attributedTo v.extension.info now) from
        funext (stampNode_eq _ now)]
      rfl
    simp only [addOutput, addEdges_eq, hnodes, PropertyGraph.grown_grown]
    simp [Except.toOption]

theorem foldl_mergeParsed (now : UInt64) (g : PropertyGraph) (visits : List Visit) :
    visits.foldl (mergeParsed now) g =
      g.grown (visits.filterMap (·.contributor?)) (visits.flatMap (·.parsedNodes now))
        (visits.flatMap (·.parsedEdges now)) := by
  induction visits generalizing g with
  | nil => rfl
  | cons v visits ih =>
    rw [List.foldl_cons, ih, mergeParsed_eq, PropertyGraph.grown_grown]
    cases hv : v.contributor? <;> simp [hv]

theorem grown_of_mem {g : PropertyGraph} {name : String} (h : name ∈ g.metadata.extensionNames)
    (edges : List Edge) : g.grown [name] [] edges = g.grown [] [] edges := by
  have hsame : g.recordAll [name] = g.recordAll [] := by
    change ({ g with metadata := g.metadata.recordExtension name } : PropertyGraph) = g
    rw [GraphMetadata.recordExtension_of_mem h]
  rw [PropertyGraph.grown, hsame]
  rfl

/-- An extension whose parsing has failed is not called to link. -/
theorem run_linkOne_failed {nodes : GraphQuery} {v : Visit} {f : PhaseFailure} {s : Session}
    (g : PropertyGraph) (hparsed : v.parsed = .error f) (hlinked : v.linked = none) :
    (p.linkOne root nodes g v.unlinked).run s = ((g, v), s) := by
  obtain ⟨extension, parsed, linked⟩ := v
  cases hparsed
  cases hlinked
  rfl

/-- A call of linking adds its edges to a graph to which the extension has contributed. -/
theorem run_linkOne_called {nodes : GraphQuery} {v : Visit} {o : ExtensionOutput}
    {r : Except PhaseFailure (List Edge)} {s s₁ : Session} {g : PropertyGraph}
    (hparsed : v.parsed = .ok o) (hlinked : v.linked = some r)
    (hcall : (v.extension.link ⟨root, p.settingsOf v.extension, nodes⟩).run.run s = (r, s₁))
    (hnoted : v.extension.info.name ∈ g.metadata.extensionNames) :
    (p.linkOne root nodes g v.unlinked).run s =
      ((g.grown [] [] (v.linkedEdges s₁.clock), v), s₁) := by
  have hv : (⟨v.extension, .ok o, some r⟩ : Visit) = v := by
    obtain ⟨extension, parsed, linked⟩ := v
    cases hparsed
    cases hlinked
    rfl
  simp only [linkOne, Visit.unlinked, hparsed, StateT.run_bind, hcall]
  cases r with
  | ok l =>
    have hedges : addEdges v.extension.info s₁.clock g l =
        g.grown [] [] (v.linkedEdges s₁.clock) := by
      simp only [Visit.linkedEdges, hlinked, addEdges_eq]
      exact grown_of_mem hnoted _
    exact congrArg (fun a => (a, s₁)) (Prod.ext hedges hv)
  | error f =>
    have hedges : g = g.grown [] [] (v.linkedEdges s₁.clock) := by
      simp only [Visit.linkedEdges, hlinked, PropertyGraph.grown_nil]
    exact congrArg (fun a => (a, s₁)) (Prod.ext hedges hv)

/-- Linking adds the edges of the visits to a graph to which their extensions have contributed. -/
theorem linkAll_of_links {nodes : NameMap Node} {visits : List Visit} {edges : List Edge}
    {s s' : Session} (h : Links p root nodes s visits edges s') {g : PropertyGraph}
    (hnames : ∀ v ∈ visits, ∀ name ∈ v.contributor?, name ∈ g.metadata.extensionNames) :
    (p.linkAll root ⟨nodes⟩ g (visits.map Visit.unlinked)).run s =
      ((g.grown [] [] edges, visits), s') := by
  induction h generalizing g with
  | nil s => rfl
  | @skipped s s₁ v rest edges f hparsed hlinked _ ih =>
    have hrest := ih fun w hw => hnames w (List.mem_cons_of_mem _ hw)
    rw [List.map_cons, linkAll, StateT.run_bind, run_linkOne_failed g hparsed hlinked]
    exact congrArg (fun r => ((r.1.1, v :: r.1.2), r.2)) hrest
  | @called s s₁ s₂ v rest edges o r hparsed hlinked hcall _ ih =>
    -- The name has been noted since the parsing of the visit, so nothing but edges is added.
    have hnoted : v.extension.info.name ∈ g.metadata.extensionNames :=
      hnames v List.mem_cons_self _ (by simp [Visit.contributor?, hparsed, Except.toOption])
    have hrest := ih (g := g.grown [] [] (v.linkedEdges s₁.clock)) fun w hw => by
      rw [PropertyGraph.metadata_grown]
      exact hnames w (List.mem_cons_of_mem _ hw)
    rw [List.map_cons, linkAll, StateT.run_bind, run_linkOne_called hparsed hlinked hcall hnoted]
    refine (congrArg (fun r => ((r.1.1, v :: r.1.2), r.2)) hrest).trans ?_
    rw [PropertyGraph.grown_grown]
    rfl

/-! ## Runs -/

theorem nodes_gathered (root : String) (started parsedAt : UInt64) (visits : List Visit)
    (edges : List Edge) : (gathered root started parsedAt visits edges).nodes =
      mergedNodes parsedAt visits := by
  rw [gathered, PropertyGraph.nodes_grown]
  rfl

theorem edges_gathered (root : String) (started parsedAt : UInt64) (visits : List Visit)
    (edges : List Edge) : (gathered root started parsedAt visits edges).edges.toList =
      visits.flatMap (·.parsedEdges parsedAt) ++ edges := by
  rw [gathered, PropertyGraph.edges_grown]
  rfl

theorem metadata_gathered (root : String) (started parsedAt : UInt64) (visits : List Visit)
    (edges : List Edge) : (gathered root started parsedAt visits edges).metadata =
      { GraphMetadata.new root started with
        extensionNames := (visits.filterMap (·.contributor?)).eraseDups } := by
  rw [gathered, PropertyGraph.metadata_grown]
  exact GraphMetadata.recordAll_new root started _

theorem foldl_mergeParsed_unlinked (root : String) (started parsedAt : UInt64)
    (visits : List Visit) :
    (visits.map Visit.unlinked).foldl (mergeParsed parsedAt) (.new (.new root started)) =
      gathered root started parsedAt visits [] := by
  rw [foldl_mergeParsed, gathered, List.append_nil, List.filterMap_map, List.flatMap_map,
    List.flatMap_map]
  rfl

/-- Linking adds its edges to the graph that parsing has made. -/
theorem linkAll_gathered {visits : List Visit} {edges : List Edge} {parsedAt : UInt64}
    {s s' : Session} (started : UInt64)
    (hlinks : Links p root (mergedNodes parsedAt visits) s visits edges s') :
    (p.linkAll root ⟨(gathered root started parsedAt visits []).nodes⟩
        (gathered root started parsedAt visits []) (visits.map Visit.unlinked)).run s =
      ((gathered root started parsedAt visits edges, visits), s') := by
  -- The visits that are linked have parsed, so parsing has noted their names.
  have hnoted : ∀ v ∈ visits, ∀ name, v.contributor? = some name →
      name ∈ (gathered root started parsedAt visits []).metadata.extensionNames := by
    intro v hv name hname
    rw [metadata_gathered, List.mem_eraseDups]
    exact List.mem_filterMap.2 ⟨v, hv, hname⟩
  have hgrown : (gathered root started parsedAt visits []).grown [] [] edges =
      gathered root started parsedAt visits edges := by
    simp only [gathered, PropertyGraph.grown_grown, List.append_nil]
  rw [nodes_gathered, linkAll_of_links hlinks hnoted, hgrown]

/-- The calls of a run determine its graph and its report. -/
theorem graphOf_of_calls {visits : List Visit} {edges : List Edge} {s s₁ s' : Session}
    (hvisits : visits.map (·.extension) = p.extensions)
    (hparses : Parses p root s (p.inTurn visits) s₁)
    (hlinks : Links p root (mergedNodes s₁.clock visits) s₁ visits edges s') :
    (p.graphOf root).run s =
      (⟨gathered root s.clock s₁.clock visits edges, .ofVisits visits⟩, s') := by
  have hparse := parseAll_of_parses hvisits hparses
  have hmerge := foldl_mergeParsed_unlinked root s.clock s₁.clock visits
  have hlink := linkAll_gathered s.clock hlinks
  change (let r := (p.parseAll root).run s
    let g := r.1.foldl (mergeParsed r.2.clock) (.new (.new root s.clock))
    let r := (p.linkAll root ⟨g.nodes⟩ g r.1).run r.2
    ((⟨r.1.1, .ofVisits r.1.2⟩ : Run), r.2)) = _
  simp only [hparse, hmerge, hlink]

/-- How storing the graph of a run ends. -/
def stored (p : Pipeline) (root : String) (w : Workshop) : Except RepositoryError Repository :=
  let r := (p.graphOf root).run w.session
  ((w.repository.save r.1.graph).run.run r.2.drive).1

/-- A run answers with its graph and its report unless the repository refuses the graph. -/
theorem run_answer (p : Pipeline) (root : String) (w : Workshop) :
    ((p.run root).run w).1 = match p.stored root w with
      | .ok _ => .ok ((p.graphOf root).run w.session).1
      | .error e => .error (.repository e) := by
  change (let r := (p.graphOf root).run w.session
    let w₁ : Workshop := { w with session := r.2 }
    let saved := (w₁.repository.save r.1.graph).run.run w₁.session.drive
    (StateT.run (match saved.1 with
      | .ok repository => do
        modify fun w => { w with repository }
        return .ok r.1
      | .error e => return .error (.repository e) : StateM Workshop (Except PipelineError Run))
      { w₁ with session := { w₁.session with drive := saved.2 } }).1) = _
  unfold stored
  dsimp only
  split <;> rfl

theorem eq_of_run_eq_ok {w w' : Workshop} {r : Run} (h : (p.run root).run w = (.ok r, w')) :
    r = ((p.graphOf root).run w.session).1 := by
  have hanswer := run_answer p root w
  rw [h] at hanswer
  cases hstored : p.stored root w with
  | ok repository =>
    rw [hstored] at hanswer
    exact Except.ok.inj hanswer
  | error e =>
    rw [hstored] at hanswer
    cases hanswer

/-! ## A clock that stands still -/

/-- No phase of an extension that is called at `t` moves the clock. -/
def ClockStands (p : Pipeline) (root : String) (t : UInt64) : Prop :=
  ∀ e ∈ p.extensions, ∀ s : Session, s.clock = t →
    ((e.parse ⟨root, p.settingsOf e⟩).run.run s).2.clock = t ∧
    ∀ nodes : GraphQuery, ((e.link ⟨root, p.settingsOf e, nodes⟩).run.run s).2.clock = t

theorem Parses.clock_eq {t : UInt64} (hClock : p.ClockStands root t) {s s' : Session}
    {visits : List Visit} (h : Parses p root s visits s')
    (hmem : ∀ v ∈ visits, v.extension ∈ p.extensions) (ht : s.clock = t) : s'.clock = t := by
  induction h with
  | nil s => exact ht
  | @cons s s₁ s₂ v rest call _ ih =>
    refine ih (fun w hw => hmem w (List.mem_cons_of_mem _ hw)) ?_
    have := (hClock v.extension (hmem v List.mem_cons_self) s ht).1
    rwa [call] at this

theorem Links.edges_eq {t : UInt64} (hClock : p.ClockStands root t) {nodes : NameMap Node}
    {s s' : Session} {visits : List Visit} {edges : List Edge}
    (h : Links p root nodes s visits edges s')
    (hmem : ∀ v ∈ visits, v.extension ∈ p.extensions) (ht : s.clock = t) :
    edges = visits.flatMap (·.linkedEdges t) := by
  induction h with
  | nil s => rfl
  | @skipped s s₁ v rest edges f _ hlinked _ ih =>
    rw [ih (fun w hw => hmem w (List.mem_cons_of_mem _ hw)) ht, List.flatMap_cons]
    simp [Visit.linkedEdges, hlinked]
  | @called s s₁ s₂ v rest edges o r _ _ hcall _ ih =>
    have ht₁ : s₁.clock = t := by
      have := (hClock v.extension (hmem v List.mem_cons_self) s ht).2 ⟨nodes⟩
      rwa [hcall] at this
    rw [ih (fun w hw => hmem w (List.mem_cons_of_mem _ hw)) ht₁, ht₁, List.flatMap_cons]

theorem mem_extensions_of_inTurn {visits : List Visit}
    (hvisits : visits.map (·.extension) = p.extensions) :
    ∀ v ∈ p.inTurn visits, v.extension ∈ p.extensions := by
  intro v hv
  rw [← hvisits]
  apply List.mem_map_of_mem
  rcases List.mem_append.1 hv with h | h
  · exact (List.mem_filter.1 h).1
  · exact (List.mem_filter.1 h).1

/-- **The graph of a run.** While the clock stands still, the graph that a run gives has the nodes of
all successful parsing, the last one of each identifier; the edges of all successful parsing and
then those of all successful linking; and the names of the extensions whose parsing has succeeded,
each once. All are in the order of the extensions, and every linking was given the nodes of the
graph itself. -/
theorem run_graph_merges_visits {w w' : Workshop} {r : Run}
    (hClock : p.ClockStands root w.session.clock) (hRun : (p.run root).run w = (.ok r, w')) :
    ∃ (visits : List Visit) (s₁ s' : Session),
      visits.map (·.extension) = p.extensions ∧
      Parses p root w.session (p.inTurn visits) s₁ ∧
      Links p root r.graph.nodes s₁ visits
        (visits.flatMap (·.linkedEdges w.session.clock)) s' ∧
      r.graph.nodes = .ofList
        ((visits.flatMap (·.parsedNodes w.session.clock)).map fun n => (n.id, n)) ∧
      r.graph.edges.toList = visits.flatMap (·.parsedEdges w.session.clock) ++
        visits.flatMap (·.linkedEdges w.session.clock) ∧
      r.graph.metadata.extensionNames = (visits.filterMap (·.contributor?)).eraseDups ∧
      r.report = .ofVisits visits := by
  obtain ⟨visits, edges, s', hcourse⟩ := exists_course p root w.session
  obtain ⟨hvisits, s₁, hparses, hlinks⟩ := hcourse
  have hgraph := graphOf_of_calls hvisits hparses hlinks
  have hmem := mem_extensions_of_inTurn hvisits
  have ht : s₁.clock = w.session.clock := hparses.clock_eq hClock hmem rfl
  have hedges : edges = visits.flatMap (·.linkedEdges w.session.clock) :=
    hlinks.edges_eq hClock (fun v hv => hvisits ▸ List.mem_map_of_mem hv) ht
  rw [ht] at hlinks hgraph
  obtain rfl := eq_of_run_eq_ok hRun
  rw [hgraph]
  refine ⟨visits, s₁, s', hvisits, hparses, ?_, nodes_gathered .., ?_, ?_, rfl⟩
  · rw [← hedges, nodes_gathered]
    exact hlinks
  · rw [edges_gathered, ← hedges]
  · rw [metadata_gathered]

/-- An extension that gives the node `hub` under its own name and imports it from every node. -/
def hubExtension (name : String) : Extension where
  info := ⟨name, "1.0.0", "code"⟩
  parse _ := pure { nodes := [{ id := "hub", type := .file, name }] }
  link c := pure (c.nodes.nodes.names.map fun source =>
    { id := name ++ ":" ++ source, type := .imports, source, target := "hub" })

/-- An extension whose parsing fails after it has dropped the facts about files. -/
def brokenExtension (name : String) : Extension where
  info := ⟨name, "1.0.0", "code"⟩
  parse _ := do
    modify fun s => { s with facts := none }
    throw (.failed ["no sources"])

/-- A run in which two extensions give the same node and a third one fails between them. -/
theorem run_graph_merges_visits_hubs :
    let p : Pipeline :=
      { extensions := [hubExtension "first", brokenExtension "broken", hubExtension "second"] }
    let w : Workshop := ⟨{ ids := ⟨.sequential, 0, 0⟩, clock := 7 }, .memory {}⟩
    ∃ (r : Run) (w' : Workshop) (visits : List Visit),
      (p.run "/srv").run w = (.ok r, w') ∧ visits.map (·.extension) = p.extensions ∧
      r.graph.nodes = .ofList ((visits.flatMap (·.parsedNodes 7)).map fun n => (n.id, n)) ∧
      r.graph.edges.toList = visits.flatMap (·.parsedEdges 7) ++ visits.flatMap (·.linkedEdges 7) ∧
      r.report = .ofVisits visits := by
  intro p w
  have hClock : p.ClockStands "/srv" w.session.clock := by
    intro e he s hs
    simp only [p, List.mem_cons, List.not_mem_nil, or_false] at he
    rcases he with rfl | rfl | rfl <;> exact ⟨hs, fun _ => hs⟩
  obtain ⟨visits, s₁, s', hvisits, -, -, hnodes, hedges, -, hreport⟩ :=
    run_graph_merges_visits hClock (show (p.run "/srv").run w = (.ok _, _) from rfl)
  exact ⟨_, _, visits, rfl, hvisits, hnodes, hedges, hreport⟩

end Pipeline

end CodeGraph
