import Mathlib.Data.List.Induction
import CodeGraph.Proofs.Graph.Adjacency

/-!
# Graphs and their documents

A graph holds each node under the identifier of the node (`Reachable.id_of_mem`), and its indices are
those that its edges make. So the document of a graph says all that there is to say of it, and the graph
is made again from it, whatever it is asked. A document in turn comes back in a normal form: of the
nodes of an identifier the last one stays (`node?_insertNodes`), and nodes stand in the order of their
identifiers.
-/

namespace CodeGraph

/-- The entries of a name in an ordered list: what the name is bound to, or none. -/
theorem NameMap.filter_entries {β : Type} {l : List (String × β)}
    (hl : l.Pairwise (fun a b => a.1 < b.1)) (k : String) :
    l.filter (·.1 == k) = (l.lookup k).toList.map (k, ·) := by
  induction l with
  | nil => rfl
  | cons e l ih =>
    obtain ⟨k', v⟩ := e
    obtain ⟨hlt, hl⟩ := List.pairwise_cons.1 hl
    rw [List.filter_cons, List.lookup_cons]
    by_cases hk : k = k'
    · subst hk
      have hrest : l.filter (·.1 == k) = [] := by
        refine List.filter_eq_nil_iff.2 fun e he heq => ?_
        have hlt := hlt e he
        rw [beq_iff_eq.1 heq] at hlt
        exact String.lt_irrefl _ hlt
      simp [hrest]
    · have hk' : (k' == k) = false := beq_eq_false_iff_ne.2 (Ne.symm hk)
      simp [hk', beq_eq_false_iff_ne.2 hk, ih hl]

namespace PropertyGraph

/-! ## Nodes by their identifiers -/

/-- Of the nodes that are added under an identifier the last one stays. -/
theorem node?_insertNodes (g : PropertyGraph) (l : List Node) (id : String) :
    (g.insertNodes l).node? id = ((l.filter (·.id == id)).getLast?).or (g.node? id) := by
  induction l using List.reverseRecOn with
  | nil => rfl
  | append_singleton l n ih =>
    rw [insertNodes_append]
    change ((g.insertNodes l).nodes.insert n.id n).get? id = _
    rw [NameMap.get?_insert, List.filter_append]
    by_cases hid : id = n.id
    · simp [hid]
    · have hne : (n.id == id) = false := beq_eq_false_iff_ne.2 (Ne.symm hid)
      rw [if_neg hid, List.filter_cons, hne]
      simpa [node?] using ih

theorem node?_ofDocument (d : GraphDocument) (id : String) :
    (ofDocument d).node? id = (d.nodes.filter (·.id == id)).getLast? := by
  have hnode : (ofDocument d).node? id = ((new d.metadata).insertNodes d.nodes).node? id := by
    rw [node?, ofDocument, nodes_pushEdges]
    rfl
  rw [hnode, node?_insertNodes]
  exact Option.or_none

theorem Reachable.id_of_mem {g : PropertyGraph} (h : g.Reachable) {e : String × Node}
    (he : e ∈ g.nodes.entries) : e.1 = e.2.id := by
  obtain ⟨d, rfl⟩ := h.exists_ofDocument
  exact (mem_nodes_ofDocument he).2

/-- The nodes of an identifier in the list of all nodes. -/
theorem Reachable.filter_nodeList {g : PropertyGraph} (h : g.Reachable) (id : String) :
    g.nodeList.filter (·.id == id) = (g.node? id).toList := by
  have hnames : g.nodes.entries.filter (fun e => e.2.id == id) =
      g.nodes.entries.filter (·.1 == id) :=
    List.filter_congr fun e he => by rw [h.id_of_mem he]
  rw [nodeList, NameMap.values, List.filter_map]
  change (g.nodes.entries.filter fun e => e.2.id == id).map Prod.snd = _
  rw [hnames, NameMap.filter_entries g.nodes.sorted, List.map_map]
  exact List.map_id _

theorem Reachable.pairwise_nodeList {g : PropertyGraph} (h : g.Reachable) :
    g.nodeList.Pairwise (fun a b => a.id < b.id) := by
  refine List.pairwise_map.2 (g.nodes.sorted.imp_of_mem fun ha hb hlt => ?_)
  rwa [← h.id_of_mem ha, ← h.id_of_mem hb]

/-! ## Documents -/

/-- **A graph and its document tell the same.** A graph that there is holds each node under the
node's identifier, and the graph that is made from its document is the same graph, with the same answer
to whatever it is asked. A document comes back with its metadata and its edges as they are, and with the
last of its nodes of each identifier, in increasing order of identifier; and then once more without
change. -/
theorem documents_round_trip :
    (∀ g : PropertyGraph, g.Reachable →
      (∀ e ∈ g.nodes.entries, e.1 = e.2.id) ∧ ofDocument g.toDocument = g) ∧
    ∀ d : GraphDocument,
      (ofDocument d).toDocument.metadata = d.metadata ∧
      (ofDocument d).toDocument.edges = d.edges ∧
      (ofDocument d).toDocument.nodes.Pairwise (fun a b => a.id < b.id) ∧
      (∀ id, (ofDocument d).toDocument.nodes.filter (·.id == id) =
        (d.nodes.filter (·.id == id)).getLast?.toList) ∧
      (ofDocument (ofDocument d).toDocument).toDocument = (ofDocument d).toDocument := by
  refine ⟨fun g h => ⟨fun e => h.id_of_mem, ?_⟩, fun d => ?_⟩
  · obtain ⟨d, rfl⟩ := h.exists_ofDocument
    exact ofDocument_toDocument d
  · have h : (ofDocument d).Reachable := .document d
    refine ⟨metadata_ofDocument d, edges_ofDocument d, h.pairwise_nodeList, fun id => ?_, ?_⟩
    · rw [← node?_ofDocument]
      exact h.filter_nodeList id
    · rw [ofDocument_toDocument]

/-- A graph with a node that replaced another one is told by its document. -/
theorem documents_round_trip_tangled : (ofDocument tangled).Reachable ∧
    ofDocument (ofDocument tangled).toDocument = ofDocument tangled ∧
    (ofDocument tangled).toDocument.nodes.filter (·.id == "a") =
      [⟨"a", .file, "A again", {}, .empty, none⟩] := by
  obtain ⟨hgraphs, hdocuments⟩ := documents_round_trip
  refine ⟨reachable_tangled, (hgraphs _ reachable_tangled).2, ?_⟩
  rw [(hdocuments tangled).2.2.2.1]
  rfl

end PropertyGraph

end CodeGraph
