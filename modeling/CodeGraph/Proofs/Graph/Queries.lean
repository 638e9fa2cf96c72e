import CodeGraph.Proofs.Graph.Documents
import CodeGraph.Query

/-!
# Queries of a graph and of its view

A graph and the view of its nodes hold the same nodes (`GraphQuery.nodes_ofGraph`), so they answer the
same questions alike. Criteria hold of a node if each of them does on its own (`Criteria.holds_iff`):
what they select is what every single one selects, and one more of them selects no more
(`Criteria.Narrowed.holds`).

The types are counted node by node, each in its place among the types (`countOne`); every count is the
number of nodes of its type (`PropertyGraph.mem_typeCounts`).
-/

namespace CodeGraph

/-! ## Single criteria -/

namespace Criteria

variable {c c' s : Criteria} {n : Node}

theorem holds_type (t : NodeType) (n : Node) :
    ({ type := some t } : Criteria).holds n = (n.type == t) := by
  simp [holds, NameMap.empty, Bool.beq_comm]

theorem holds_name (s : String) (n : Node) :
    ({ name := some s } : Criteria).holds n = (n.name == s) := by
  simp [holds, NameMap.empty, Bool.beq_comm]

theorem holds_labels (ls : List String) (n : Node) :
    ({ labels := ls } : Criteria).holds n = ls.all n.hasLabel := by
  simp [holds, NameMap.empty]

theorem holds_domain (d : String) (n : Node) :
    ({ domain := some d } : Criteria).holds n = (n.domain? == some d) := by
  simp [holds, NameMap.empty]

theorem holds_member (key : String) (v : Json) (n : Node) :
    ({ metadata := .ofList [(key, v)] } : Criteria).holds n = fieldIs n key v := by
  have hentries : (NameMap.ofList [(key, v)]).entries = [(key, v)] := rfl
  simp [holds, hentries]

/-- The criteria that are set, each on its own. -/
inductive Sets (c : Criteria) : Criteria → Prop
  | type {t : NodeType} : c.type = some t → Sets c { type := some t }
  | name {s : String} : c.name = some s → Sets c { name := some s }
  | label {l : String} : l ∈ c.labels → Sets c { labels := [l] }
  | domain {d : String} : c.domain = some d → Sets c { domain := some d }
  | member {key : String} {v : Json} : c.metadata.get? key = some v →
      Sets c { metadata := .ofList [(key, v)] }

theorem holds_eq_true : c.holds n = true ↔ (∀ t, c.type = some t → t = n.type) ∧
    (∀ s, c.name = some s → s = n.name) ∧ (∀ l ∈ c.labels, n.hasLabel l = true) ∧
    (∀ d, c.domain = some d → n.domain? = some d) ∧
    ∀ e ∈ c.metadata.entries, fieldIs n e.1 e.2 = true := by
  simp only [holds, Bool.and_eq_true, Option.all_eq_true, List.all_eq_true, beq_iff_eq, and_assoc]

/-- Criteria hold of a node if each of them does on its own. -/
theorem holds_iff : c.holds n = true ↔ ∀ s, c.Sets s → s.holds n = true := by
  rw [holds_eq_true]
  constructor
  · rintro ⟨htype, hname, hlabels, hdomain, hmetadata⟩ s hs
    cases hs with
    | type ht => rw [holds_type, beq_iff_eq, htype _ ht]
    | name hs => rw [holds_name, beq_iff_eq, hname _ hs]
    | label hl => rw [holds_labels, List.all_cons, hlabels _ hl, List.all_nil, Bool.and_self]
    | domain hd => rw [holds_domain, beq_iff_eq, hdomain _ hd]
    | member hv => rw [holds_member, hmetadata _ (NameMap.get?_eq_some_iff.1 hv)]
  · intro h
    refine ⟨fun t ht => ?_, fun s hs => ?_, fun l hl => ?_, fun d hd => ?_, fun e he => ?_⟩
    · have htype := h _ (.type ht)
      rw [holds_type, beq_iff_eq] at htype
      exact htype.symm
    · have hname := h _ (.name hs)
      rw [holds_name, beq_iff_eq] at hname
      exact hname.symm
    · have hlabel := h _ (.label hl)
      rwa [holds_labels, List.all_cons, List.all_nil, Bool.and_true] at hlabel
    · have hdomain := h _ (.domain hd)
      rwa [holds_domain, beq_iff_eq] at hdomain
    · have hmember := h _ (.member (NameMap.get?_eq_some_iff.2 he))
      rwa [holds_member] at hmember

/-- Criteria with one more, of a kind that is not set or may be set more than once. -/
inductive Narrowed (c : Criteria) : Criteria → Prop
  | type (t : NodeType) : c.type = none → Narrowed c { c with type := some t }
  | name (s : String) : c.name = none → Narrowed c { c with name := some s }
  | label (l : String) : Narrowed c { c with labels := c.labels ++ [l] }
  | domain (d : String) : c.domain = none → Narrowed c { c with domain := some d }
  | member (key : String) (v : Json) : c.metadata.get? key = none →
      Narrowed c { c with metadata := c.metadata.insert key v }

/-- What was set stays set. -/
theorem Narrowed.sets (h : Narrowed c c') (hs : c.Sets s) : c'.Sets s := by
  cases hs with
  | type ht =>
    refine .type ?_
    cases h with
    | type t hnone => rw [hnone] at ht; cases ht
    | _ => exact ht
  | name hs =>
    refine .name ?_
    cases h with
    | name s hnone => rw [hnone] at hs; cases hs
    | _ => exact hs
  | label hl =>
    refine .label ?_
    cases h with
    | label l => exact List.mem_append_left _ hl
    | _ => exact hl
  | domain hd =>
    refine .domain ?_
    cases h with
    | domain d hnone => rw [hnone] at hd; cases hd
    | _ => exact hd
  | @member key v hv =>
    refine .member ?_
    cases h with
    | member key' v' hnone =>
      have hne : key ≠ key' := by
        rintro rfl
        rw [hnone] at hv
        cases hv
      rwa [NameMap.get?_insert_of_ne _ _ hne]
    | _ => exact hv

theorem Narrowed.holds (h : Narrowed c c') (hn : c'.holds n = true) : c.holds n = true :=
  holds_iff.2 fun s hs => holds_iff.1 hn s (h.sets hs)

end Criteria

/-! ## The view of a graph -/

namespace GraphQuery

variable {g : PropertyGraph}

/-- The view of a graph holds the nodes as the graph does. -/
theorem nodes_ofGraph (hg : g.Reachable) : (ofGraph g).nodes = g.nodes := by
  have hentries : (g.nodeList.map fun n => (n.id, n)) = g.nodes.entries := by
    rw [PropertyGraph.nodeList, NameMap.values, List.map_map]
    conv_rhs => rw [← List.map_id g.nodes.entries]
    refine List.map_congr_left fun e he => ?_
    rw [Function.comp_apply, ← hg.id_of_mem he]
    rfl
  change NameMap.ofList (g.nodeList.map fun n => (n.id, n)) = _
  rw [hentries]
  exact NameMap.insertMany_entries g.nodes

theorem values_ofGraph (hg : g.Reachable) : (ofGraph g).nodes.values = g.nodeList := by
  rw [nodes_ofGraph hg]
  rfl

theorem find_ofGraph (hg : g.Reachable) (c : Criteria) :
    (ofGraph g).find c = g.nodeList.filter c.holds := by
  rw [find, values_ofGraph hg]

theorem find_eq_filter (hg : g.Reachable) {c : Criteria} {p : Node → Bool}
    (h : ∀ n, c.holds n = p n) : (ofGraph g).find c = g.nodeList.filter p := by
  rw [find_ofGraph hg]
  exact List.filter_congr fun n _ => h n

/-- What criteria select is what each of them selects on its own. -/
theorem mem_find (hg : g.Reachable) {c : Criteria} {n : Node} :
    n ∈ (ofGraph g).find c ↔ n ∈ g.nodeList ∧ ∀ s, c.Sets s → n ∈ (ofGraph g).find s := by
  simp only [find_ofGraph hg, List.mem_filter]
  rw [Criteria.holds_iff]
  exact ⟨fun ⟨hn, hs⟩ => ⟨hn, fun s h => ⟨hn, hs s h⟩⟩, fun ⟨hn, hs⟩ => ⟨hn, fun s h => (hs s h).2⟩⟩

theorem find_sublist_of_narrowed (hg : g.Reachable) {c c' : Criteria} (h : c.Narrowed c') :
    ((ofGraph g).find c').Sublist ((ofGraph g).find c) := by
  rw [find_ofGraph hg, find_ofGraph hg]
  exact List.monotone_filter_right _ fun n hn => h.holds hn

theorem findOne?_eq_head? (q : GraphQuery) (c : Criteria) : q.findOne? c = (q.find c).head? := by
  rw [findOne?, find, List.head?_filter]

end GraphQuery

theorem NodeType.position_injective {t u : NodeType} (h : t.position = u.position) : t = u := by
  have hall : t ∈ all := by cases t <;> decide
  exact (List.idxOf_inj hall).1 h

namespace PropertyGraph

variable {g : PropertyGraph} {t u : NodeType} {counts : List (NodeType × Nat)} {l : List Node}

/-! ## Labels and domains -/

theorem mem_nodesWithAny {ls : List String} {n : Node} :
    n ∈ g.nodesWithAny ls ↔ ∃ l ∈ ls, n ∈ g.nodesWithLabel l := by
  simp only [nodesWithAny, nodesWithLabel, List.mem_filter, List.any_eq_true]
  exact ⟨fun ⟨hn, l, hl, h⟩ => ⟨l, hl, hn, h⟩, fun ⟨l, hl, hn, h⟩ => ⟨hn, l, hl, h⟩⟩

theorem mem_nodesWithAll {ls : List String} {n : Node} :
    n ∈ g.nodesWithAll ls ↔ n ∈ g.nodeList ∧ ∀ l ∈ ls, n ∈ g.nodesWithLabel l := by
  simp only [nodesWithAll, nodesWithLabel, List.mem_filter, List.all_eq_true]
  exact ⟨fun ⟨hn, h⟩ => ⟨hn, fun l hl => ⟨hn, h l hl⟩⟩, fun ⟨hn, h⟩ => ⟨hn, fun l hl => (h l hl).2⟩⟩

theorem mem_labels_iff {l : String} : l ∈ g.labels.names ↔ g.nodesWithLabel l ≠ [] := by
  have hnames : ∀ n : Node, l ∈ n.labels.names ↔ n.hasLabel l = true := fun n =>
    NameMap.mem_names_iff
  rw [labels, NameSet.mem_names_ofNames, List.mem_flatMap, nodesWithLabel, ne_eq,
    List.filter_eq_nil_iff]
  simp only [hnames, not_forall, not_not, exists_prop]

theorem mem_domains_iff {d : String} : d ∈ g.domains.names ↔ g.nodesOfDomain d ≠ [] := by
  rw [domains, NameSet.mem_names_ofNames, List.mem_filterMap, nodesOfDomain, ne_eq,
    List.filter_eq_nil_iff]
  simp only [beq_iff_eq, not_forall, not_not, exists_prop]

/-! ## Counts of types -/

/-- Counts of some nodes: each type that a node has, in order, with the number of nodes of it. -/
structure Counted (counts : List (NodeType × Nat)) (l : List Node) : Prop where
  sorted : (counts.map Prod.fst).Pairwise fun t u => t.position < u.position
  counts : ∀ t, counts.lookup t =
    if l.countP (·.type == t) = 0 then none else some (l.countP (·.type == t))

theorem mem_names_countOne (h : u ∈ (countOne t counts).map Prod.fst) :
    u = t ∨ u ∈ counts.map Prod.fst := by
  induction counts with
  | nil => exact .inl (List.mem_singleton.1 h)
  | cons e counts ih =>
    rw [countOne] at h
    split at h
    · exact .inr h
    split at h
    · exact List.mem_cons.1 h
    · rcases List.mem_cons.1 h with rfl | h
      · exact .inr List.mem_cons_self
      · exact (ih h).imp_right (List.mem_cons_of_mem _)

theorem pairwise_countOne (t : NodeType)
    (h : (counts.map Prod.fst).Pairwise fun t u => t.position < u.position) :
    ((countOne t counts).map Prod.fst).Pairwise fun t u => t.position < u.position := by
  induction counts with
  | nil => exact List.pairwise_singleton _ _
  | cons e counts ih =>
    obtain ⟨he, hrest⟩ := List.pairwise_cons.1 h
    rw [countOne]
    split
    · exact h
    next hne =>
    split
    · next hlt =>
      refine List.pairwise_cons.2 ⟨fun u hu => ?_, h⟩
      rcases List.mem_cons.1 hu with rfl | hu
      · exact hlt
      · exact Nat.lt_trans hlt (he u hu)
    · next hlt =>
      refine List.pairwise_cons.2 ⟨fun u hu => ?_, ih hrest⟩
      rcases mem_names_countOne hu with rfl | hu
      · exact Nat.lt_of_le_of_ne (Nat.le_of_not_lt hlt)
          fun heq => hne (NodeType.position_injective heq.symm)
      · exact he u hu

theorem lookup_cons (u t : NodeType) (n : Nat) (counts : List (NodeType × Nat)) :
    ((t, n) :: counts).lookup u = if u = t then some n else counts.lookup u := by
  rw [List.lookup_cons]
  by_cases h : u = t
  · rw [if_pos h, beq_iff_eq.2 h]
  · rw [if_neg h, beq_eq_false_iff_ne.2 h]

/-- A type that comes before all that are counted has no count. -/
theorem lookup_eq_none_of_lt (h : ∀ u ∈ counts.map Prod.fst, t.position < u.position) :
    counts.lookup t = none := by
  rw [List.lookup_eq_none_iff]
  intro e he
  have hlt := h e.1 (List.mem_map_of_mem he)
  rw [bne_iff_ne]
  rintro rfl
  exact Nat.lt_irrefl _ hlt

theorem mem_iff_lookup (h : (counts.map Prod.fst).Pairwise fun t u => t.position < u.position)
    {n : Nat} : (t, n) ∈ counts ↔ counts.lookup t = some n := by
  induction counts with
  | nil => simp
  | cons e counts ih =>
    obtain ⟨u, k⟩ := e
    obtain ⟨he, hrest⟩ := List.pairwise_cons.1 h
    have hmem := ih hrest
    rw [List.mem_cons, lookup_cons, hmem]
    split
    · next htu =>
      subst htu
      have hnone : counts.lookup t = none := lookup_eq_none_of_lt he
      simp [hnone, eq_comm]
    · next htu => simp [htu]

theorem lookup_countOne (t u : NodeType)
    (h : (counts.map Prod.fst).Pairwise fun t u => t.position < u.position) :
    (countOne t counts).lookup u =
      if u = t then some ((counts.lookup t).getD 0 + 1) else counts.lookup u := by
  induction counts with
  | nil => exact lookup_cons u t 1 []
  | cons e counts ih =>
    obtain ⟨v, n⟩ := e
    obtain ⟨he, hrest⟩ := List.pairwise_cons.1 h
    rw [countOne]
    split
    · next htv =>
      subst htv
      rw [lookup_cons, lookup_cons, lookup_cons, if_pos rfl]
      split <;> rfl
    next htv =>
    split
    · next hlt =>
      have hnone : ((v, n) :: counts).lookup t = none :=
        lookup_eq_none_of_lt (List.forall_mem_cons.2 ⟨hlt, fun w hw => Nat.lt_trans hlt (he w hw)⟩)
      rw [lookup_cons, hnone]
      rfl
    · rw [lookup_cons, ih hrest, lookup_cons, lookup_cons, if_neg htv]
      split
      · next huv => rw [if_neg (huv ▸ Ne.symm htv)]
      · rfl

theorem Counted.countOne (h : Counted counts l) (n : Node) :
    Counted (countOne n.type counts) (l ++ [n]) where
  sorted := pairwise_countOne n.type h.sorted
  counts t := by
    have hcount : ((counts.lookup t).getD 0) = l.countP (·.type == t) := by
      rw [h.counts]
      split
      · next hzero => exact hzero.symm
      · rfl
    rw [lookup_countOne _ _ h.sorted, List.countP_append, List.countP_singleton]
    by_cases ht : t = n.type
    · subst ht
      rw [if_pos rfl, hcount, if_pos (beq_self_eq_true _), if_neg (Nat.succ_ne_zero _)]
    · have hother : (n.type == t) = false := beq_eq_false_iff_ne.2 (Ne.symm ht)
      rw [if_neg ht, h.counts, hother]
      rfl

theorem Counted.foldl {before : List Node} (h : Counted counts before) (l : List Node) :
    Counted (l.foldl (fun counts n => PropertyGraph.countOne n.type counts) counts) (before ++ l) := by
  induction l generalizing counts before with
  | nil => rwa [List.append_nil]
  | cons n l ih =>
    rw [List.append_cons]
    exact ih (h.countOne n)

theorem Counted.mem_iff (h : Counted counts l) {n : Nat} :
    (t, n) ∈ counts ↔ n = l.countP (·.type == t) ∧ n ≠ 0 := by
  rw [mem_iff_lookup h.sorted, h.counts]
  split
  · next hzero => simp [hzero]
  · next hne =>
    constructor
    · rintro ⟨⟩
      exact ⟨rfl, hne⟩
    · rintro ⟨rfl, -⟩
      rfl

/-- Every node of a graph is counted once, under its type. -/
theorem counted_typeCounts (g : PropertyGraph) : Counted g.typeCounts g.nodeList := by
  have hnothing : Counted [] [] := ⟨.nil, fun _ => rfl⟩
  exact hnothing.foldl g.nodeList

theorem mem_typeCounts {n : Nat} :
    (t, n) ∈ g.typeCounts ↔ n = (g.nodesOfType t).length ∧ n ≠ 0 := by
  rw [(counted_typeCounts g).mem_iff, List.countP_eq_length_filter]
  rfl

/-! ## All queries -/

open GraphQuery (ofGraph find_ofGraph find_eq_filter)

/-- Every way to ask for nodes has the answer that the others lead to. -/
structure QueriesAgree (g : PropertyGraph) : Prop where
  /-- Asked for one thing, the view finds what the graph finds, in the same order. -/
  ofType : ∀ t, (ofGraph g).ofType t = g.nodesOfType t
  withLabel : ∀ l, (ofGraph g).withLabel l = g.nodesWithLabel l
  ofDomain : ∀ d, (ofGraph g).ofDomain d = g.nodesOfDomain d
  /-- Without criteria all nodes are found, and with one kind of them those that the graph finds. -/
  findAll : (ofGraph g).find {} = g.nodeList
  findType : ∀ t, (ofGraph g).find { type := some t } = g.nodesOfType t
  findName : ∀ s, (ofGraph g).find { name := some s } = g.nodeList.filter (·.name == s)
  findLabel : ∀ l, (ofGraph g).find { labels := [l] } = g.nodesWithLabel l
  findLabels : ∀ ls, (ofGraph g).find { labels := ls } = g.nodesWithAll ls
  findDomain : ∀ d, (ofGraph g).find { domain := some d } = g.nodesOfDomain d
  findMember : ∀ key v, (ofGraph g).find { metadata := .ofList [(key, v)] } =
    g.nodeList.filter (Criteria.fieldIs · key v)
  /-- Several criteria find what each of them finds, in increasing order of identifier. -/
  find : ∀ c n, n ∈ (ofGraph g).find c ↔
    n ∈ g.nodeList ∧ ∀ s, c.Sets s → n ∈ (ofGraph g).find s
  ordered : ∀ c, ((ofGraph g).find c).Pairwise fun a b => a.id < b.id
  findOne : ∀ c, (ofGraph g).findOne? c = ((ofGraph g).find c).head?
  /-- One more of them finds no more. -/
  narrowed : ∀ c c', c.Narrowed c' → ((ofGraph g).find c').Sublist ((ofGraph g).find c)
  /-- One of several labels is their union, and all of them are their intersection. -/
  withAny : ∀ ls, (g.nodesWithAny ls).Sublist g.nodeList ∧
    ∀ n, n ∈ g.nodesWithAny ls ↔ ∃ l ∈ ls, n ∈ g.nodesWithLabel l
  withAll : ∀ ls, (g.nodesWithAll ls).Sublist g.nodeList ∧
    ∀ n, n ∈ g.nodesWithAll ls ↔ n ∈ g.nodeList ∧ ∀ l ∈ ls, n ∈ g.nodesWithLabel l
  /-- The labels, domains and types of a graph are those that some node is found by. -/
  labels : ∀ l, l ∈ g.labels.names ↔ g.nodesWithLabel l ≠ []
  domains : ∀ d, d ∈ g.domains.names ↔ g.nodesOfDomain d ≠ []
  typeCounts : ∀ t n, (t, n) ∈ g.typeCounts ↔ n = (g.nodesOfType t).length ∧ n ≠ 0
  typesInOrder : (g.typeCounts.map Prod.fst).Pairwise fun t u => t.position < u.position

/-- **The queries of a graph agree with each other and with those of its view**, whatever the graph. -/
theorem queries_agree (hg : g.Reachable) : QueriesAgree g where
  ofType t := by rw [GraphQuery.ofType, GraphQuery.values_ofGraph hg, nodesOfType]
  withLabel l := by rw [GraphQuery.withLabel, GraphQuery.values_ofGraph hg, nodesWithLabel]
  ofDomain d := by rw [GraphQuery.ofDomain, GraphQuery.values_ofGraph hg, nodesOfDomain]
  findAll := by
    rw [find_ofGraph hg]
    exact List.filter_eq_self.2 fun _ _ => rfl
  findType t := find_eq_filter hg (Criteria.holds_type t)
  findName s := find_eq_filter hg (Criteria.holds_name s)
  findLabel l := find_eq_filter hg fun n => by
    rw [Criteria.holds_labels, List.all_cons, List.all_nil, Bool.and_true]
  findLabels ls := find_eq_filter hg (Criteria.holds_labels ls)
  findDomain d := find_eq_filter hg (Criteria.holds_domain d)
  findMember key v := find_eq_filter hg (Criteria.holds_member key v)
  find c n := GraphQuery.mem_find hg
  ordered c := by
    rw [find_ofGraph hg]
    exact hg.pairwise_nodeList.filter _
  findOne c := GraphQuery.findOne?_eq_head? _ c
  narrowed c c' h := GraphQuery.find_sublist_of_narrowed hg h
  withAny ls := ⟨List.filter_sublist, fun _ => mem_nodesWithAny⟩
  withAll ls := ⟨List.filter_sublist, fun _ => mem_nodesWithAll⟩
  labels l := mem_labels_iff
  domains d := mem_domains_iff
  typeCounts t n := mem_typeCounts
  typesInOrder := (counted_typeCounts g).sorted

/-- Two functions that share a name and a label, one of them from an extension, and a file. -/
def labelled : GraphDocument where
  metadata := .new "c" 1
  nodes := [⟨"b", .function, "run", {}, .ofNames ["api", "test"], some ⟨"code", "x", "1", 0⟩⟩,
    ⟨"a", .function, "run", { language := some "rust" }, .ofNames ["api"], none⟩,
    ⟨"c", .file, "main", {}, .empty, none⟩]
  edges := []

/-- A label that is given twice selects once, and nodes without provenance are in no domain. -/
theorem queries_agree_labelled : (ofDocument labelled).Reachable ∧
    ((ofGraph (ofDocument labelled)).find
      { type := some .function, labels := ["api", "api"] }).map (·.id) = ["a", "b"] ∧
    (ofGraph (ofDocument labelled)).findOne?
      { labels := ["api"], metadata := .ofList [("language", .string "rust")] } =
        (ofDocument labelled).node? "a" ∧
    (ofDocument labelled).typeCounts = [(.file, 1), (.function, 2)] ∧
    (ofGraph (ofDocument labelled)).find { labels := ["api", "api"] } =
      (ofDocument labelled).nodesWithAll ["api", "api"] ∧
    "code" ∈ (ofDocument labelled).domains.names ∧
    (ofDocument labelled).nodesOfDomain "code" ≠ [] := by
  have hg : (ofDocument labelled).Reachable := .document labelled
  have hagree := queries_agree hg
  have hdomain : "code" ∈ (ofDocument labelled).domains.names := by decide
  exact ⟨hg, rfl, rfl, rfl, hagree.findLabels _, hdomain, (hagree.domains "code").1 hdomain⟩

end PropertyGraph

end CodeGraph
