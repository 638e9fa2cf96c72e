import Mathlib.Algebra.Order.BigOperators.Group.List
import Mathlib.Algebra.Order.Ring.Nat
import Mathlib.Data.List.Dedup
import Mathlib.Data.List.Induction
import CodeGraph.Proofs.NameMap
import CodeGraph.Proofs.Pipeline.Isolation

/-!
# The report accounts for the graph

What a report says was counted before anything was merged, while the graph keeps one node of an
identifier. The visits of a run determine both, and so how they agree (`Accounted`).

* `size_ofList`: a map has as many entries as there are names in the list that makes it.
* `Links.length_edges`: linking gives as many edges as the report counts.
* `exists_positions`: failures of a kind stand in the order of the extensions, one for each.
* `run_report_accounts`: the report of a run accounts for its graph.
-/

namespace CodeGraph

/-! ## Counting names -/

namespace NameMap

variable {β : Type}

/-- A map has an entry for each name of the list that makes it. -/
theorem size_ofList (l : List (String × β)) : (ofList l).size = (l.map Prod.fst).dedup.length := by
  have hnodup : (ofList l).names.Nodup := (ofList l).nodup_names
  have hperm : (ofList l).names.Perm (l.map Prod.fst).dedup := by
    refine (List.perm_ext_iff_of_nodup hnodup (List.nodup_dedup _)).2 fun k => ?_
    rw [ofList, mem_names_insertMany, List.mem_dedup]
    exact or_iff_right List.not_mem_nil
  rw [← hperm.length_eq, names, List.length_map]
  rfl

theorem size_ofList_le (l : List (String × β)) : (ofList l).size ≤ l.length := by
  have hle := (List.dedup_sublist (l.map Prod.fst)).length_le
  rwa [List.length_map, ← size_ofList] at hle

theorem size_ofList_eq_iff (l : List (String × β)) :
    (ofList l).size = l.length ↔ (l.map Prod.fst).Nodup := by
  have hiff : (l.map Prod.fst).dedup.length = (l.map Prod.fst).length ↔ (l.map Prod.fst).Nodup :=
    ⟨fun h => List.dedup_eq_self.1 ((List.dedup_sublist _).eq_of_length h),
      fun h => congrArg List.length (List.dedup_eq_self.2 h)⟩
  rwa [List.length_map, ← size_ofList] at hiff

end NameMap

/-! ## What is counted -/

namespace Visit

/-- The identifiers of the nodes that parsing has given. -/
def givenIds (v : Visit) : List String :=
  match v.parsed with
  | .ok o => o.nodes.map (·.id)
  | .error _ => []

/-- Why parsing has failed, if it has. -/
def parseError? (v : Visit) : Option PhaseFailure :=
  match v.parsed with
  | .ok _ => none
  | .error f => some f

/-- Why linking has failed, if it has. -/
def linkError? (v : Visit) : Option PhaseFailure :=
  match v.linked with
  | some (.error f) => some f
  | _ => none

theorem ids_parsedNodes (v : Visit) (now : UInt64) :
    (v.parsedNodes now).map (·.id) = v.givenIds := by
  unfold parsedNodes givenIds
  cases v.parsed with
  | ok o =>
    rw [List.map_map]
    exact List.map_congr_left fun n _ => n.id_attributedTo v.extension.info now
  | error f => rfl

theorem length_parsedNodes (v : Visit) (now : UInt64) :
    (v.parsedNodes now).length = v.contribution.nodes := by
  unfold parsedNodes contribution
  cases v.parsed <;> simp [Except.toOption]

theorem length_parsedEdges (v : Visit) (now : UInt64) :
    (v.parsedEdges now).length = v.contribution.parseEdges := by
  unfold parsedEdges contribution
  cases v.parsed <;> simp [Except.toOption]

theorem length_linkedEdges (v : Visit) (now : UInt64) :
    (v.linkedEdges now).length = v.contribution.linkEdges := by
  unfold linkedEdges contribution
  rcases v.linked with _ | r
  · rfl
  · cases r <;> simp [Except.toOption]

theorem parseFailure?_eq (v : Visit) :
    v.parseFailure? = v.parseError?.map fun f => ⟨v.name, .parse, f.message⟩ := by
  unfold parseFailure? parseError?
  cases v.parsed <;> rfl

theorem linkFailure?_eq (v : Visit) :
    v.linkFailure? = v.linkError?.map fun f => ⟨v.name, .link, f.message⟩ := by
  unfold linkFailure? linkError?
  rcases v.linked with _ | r
  · rfl
  · cases r <;> rfl

/-- Where an extension links just when its parsing has succeeded, it has no failure just when both
phases have succeeded. -/
theorem succeeded_iff (v : Visit) (h : (∃ r, v.linked = some r) ↔ ∃ o, v.parsed = .ok o) :
    v.parseFailure? = none ∧ v.linkFailure? = none ↔
      (∃ o, v.parsed = .ok o) ∧ ∃ l, v.linked = some (.ok l) := by
  obtain ⟨e, parsed, linked⟩ := v
  cases parsed with
  | error f => simp [parseFailure?]
  | ok o =>
    obtain ⟨r, rfl⟩ : ∃ r, linked = some r := h.2 ⟨o, rfl⟩
    cases r <;> simp [parseFailure?, linkFailure?]

end Visit

/-! ## Accounts -/

/-- The failure of a phase at a position of visits. -/
def FailsAt (visits : List Visit) (phase : Phase) (error? : Visit → Option PhaseFailure)
    (i : Nat) (e : FailedPhase) : Prop :=
  ∃ v f, visits[i]? = some v ∧ error? v = some f ∧ e = ⟨v.name, phase, f.message⟩

/-- A list has the failures of a phase, one for each position where there is one, in order. -/
def ListsFailures (visits : List Visit) (phase : Phase) (error? : Visit → Option PhaseFailure)
    (l : List FailedPhase) : Prop :=
  ∃ positions : List Nat, positions.Pairwise (· < ·) ∧
    (∀ i, i ∈ positions ↔ ∃ e, FailsAt visits phase error? i e) ∧
    List.Forall₂ (FailsAt visits phase error?) positions l

/-- A run whose report accounts for its graph, given the visits of its extensions. -/
structure Accounted (visits : List Visit) (r : Run) : Prop where
  names : r.report.contributions.map (·.extensionName) = visits.map (·.name)
  edges : r.graph.edges.size = (r.report.contributions.map fun c => c.parseEdges + c.linkEdges).sum
  nodes_le : r.graph.nodes.size ≤ (r.report.contributions.map (·.nodes)).sum
  nodes_eq_iff : r.graph.nodes.size = (r.report.contributions.map (·.nodes)).sum ↔
    (visits.flatMap (·.givenIds)).Nodup
  /-- An extension that parses is said to have added all that it gave. -/
  parsed : ∀ (i : Nat) v o, visits[i]? = some v → v.parsed = .ok o →
    ∃ c, r.report.contributions[i]? = some c ∧ c.nodes = o.nodes.length ∧
      c.parseEdges = o.edges.length
  parseFailed : ∀ (i : Nat) v f, visits[i]? = some v → v.parsed = .error f →
    r.report.contributions[i]? = some ⟨v.name, 0, 0, 0⟩ ∧ v.linkError? = none
  linked : ∀ (i : Nat) v l, visits[i]? = some v → v.linked = some (.ok l) →
    ∃ c, r.report.contributions[i]? = some c ∧ c.linkEdges = l.length
  linkFailed : ∀ (i : Nat) v f, visits[i]? = some v → v.linked = some (.error f) →
    ∃ c, r.report.contributions[i]? = some c ∧ c.linkEdges = 0
  /-- The failures of parsing come first. -/
  failures : ∃ ofParsing ofLinking, r.report.failures = ofParsing ++ ofLinking ∧
    ListsFailures visits .parse Visit.parseError? ofParsing ∧
    ListsFailures visits .link Visit.linkError? ofLinking
  isClean_iff : r.report.isClean = true ↔
    ∀ v ∈ visits, (∃ o, v.parsed = .ok o) ∧ ∃ l, v.linked = some (.ok l)

namespace Pipeline

variable {p : Pipeline} {root : String}

/-- Linking gives as many edges as the report counts. -/
theorem Links.length_edges {nodes : NameMap Node} {s s' : Session} {visits : List Visit}
    {edges : List Edge} (h : Links p root nodes s visits edges s') :
    edges.length = (visits.map (·.contribution.linkEdges)).sum := by
  induction h with
  | nil s => rfl
  | @skipped s s₁ v rest edges f _ linked _ ih =>
    have hnone : v.contribution.linkEdges = 0 := by simp [Visit.contribution, linked]
    rw [List.map_cons, List.sum_cons, hnone, Nat.zero_add, ih]
  | @called s s₁ s₂ v rest edges o r _ _ _ _ ih =>
    rw [List.length_append, List.map_cons, List.sum_cons, Visit.length_linkedEdges, ih]

/-- Parsing and linking together give as many edges as the report counts. -/
theorem length_edges_eq_sum (visits : List Visit) (now : UInt64) :
    (visits.flatMap (·.parsedEdges now)).length + (visits.map (·.contribution.linkEdges)).sum =
      (visits.map fun v => v.contribution.parseEdges + v.contribution.linkEdges).sum := by
  induction visits with
  | nil => rfl
  | cons v visits ih =>
    rw [List.flatMap_cons, List.length_append, Visit.length_parsedEdges, List.map_cons,
      List.map_cons, List.sum_cons, List.sum_cons, ← ih]
    omega

/-- An extension links just when its parsing has succeeded. -/
theorem Links.linked_iff {nodes : NameMap Node} {s s' : Session} {visits : List Visit}
    {edges : List Edge} (h : Links p root nodes s visits edges s') :
    ∀ v ∈ visits, (∃ r, v.linked = some r) ↔ ∃ o, v.parsed = .ok o := by
  induction h with
  | nil s => exact fun v hv => absurd hv List.not_mem_nil
  | @skipped s s₁ v rest edges f parsed linked _ ih =>
    exact List.forall_mem_cons.2 ⟨by simp [parsed, linked], ih⟩
  | @called s s₁ s₂ v rest edges o r parsed linked _ _ ih =>
    exact List.forall_mem_cons.2 ⟨by simp [parsed, linked], ih⟩

theorem Links.linked_eq_none {nodes : NameMap Node} {s s' : Session} {visits : List Visit}
    {edges : List Edge} {v : Visit} {f : PhaseFailure} (h : Links p root nodes s visits edges s')
    (hv : v ∈ visits) (hf : v.parsed = .error f) : v.linked = none := by
  rw [Option.eq_none_iff_forall_not_mem]
  intro r hr
  obtain ⟨o, ho⟩ := (h.linked_iff v hv).1 ⟨r, hr⟩
  rw [hf] at ho
  cases ho

/-- The report is clean just when every call has succeeded. -/
theorem Links.isClean_iff {nodes : NameMap Node} {s s' : Session} {visits : List Visit}
    {edges : List Edge} (h : Links p root nodes s visits edges s') :
    (Report.ofVisits visits).isClean = true ↔
      ∀ v ∈ visits, (∃ o, v.parsed = .ok o) ∧ ∃ l, v.linked = some (.ok l) := by
  rw [Report.isClean, List.isEmpty_iff, Report.ofVisits, List.append_eq_nil_iff,
    List.filterMap_eq_nil_iff, List.filterMap_eq_nil_iff]
  constructor
  · rintro ⟨hparse, hlink⟩ v hv
    exact (v.succeeded_iff (h.linked_iff v hv)).1 ⟨hparse v hv, hlink v hv⟩
  · intro hall
    have hnone := fun (v : Visit) hv => (v.succeeded_iff (h.linked_iff v hv)).2 (hall v hv)
    exact ⟨fun v hv => (hnone v hv).1, fun v hv => (hnone v hv).2⟩

end Pipeline

theorem failsAt_concat {visits : List Visit} {v : Visit} {phase : Phase}
    {error? : Visit → Option PhaseFailure} {i : Nat} {e : FailedPhase} :
    FailsAt (visits ++ [v]) phase error? i e ↔ FailsAt visits phase error? i e ∨
      i = visits.length ∧ ∃ f, error? v = some f ∧ e = ⟨v.name, phase, f.message⟩ := by
  unfold FailsAt
  rcases Nat.lt_trichotomy i visits.length with hi | rfl | hi
  · rw [List.getElem?_append_left hi, or_iff_left (fun h => absurd h.1 (Nat.ne_of_lt hi))]
  · simp
  · have hconcat : (visits ++ [v])[i]? = none := List.getElem?_eq_none (by simpa using Nat.succ_le_of_lt hi)
    have hvisits : visits[i]? = none := List.getElem?_eq_none (Nat.le_of_lt hi)
    simp [hconcat, hvisits, Nat.ne_of_gt hi]

/-- Failures of a kind stand in the order of the visits, one for each that has failed. -/
theorem exists_positions (visits : List Visit) (phase : Phase)
    (error? : Visit → Option PhaseFailure) : ListsFailures visits phase error?
      (visits.filterMap fun v => (error? v).map fun f => ⟨v.name, phase, f.message⟩) := by
  induction visits using List.reverseRecOn with
  | nil => exact ⟨[], .nil, fun i => by simp [FailsAt], .nil⟩
  | append_singleton visits v ih =>
    obtain ⟨positions, hsorted, hmem, hlist⟩ := ih
    have hkept := hlist.imp fun i e (h : FailsAt visits phase error? i e) =>
      (failsAt_concat (v := v)).2 (.inl h)
    rw [List.filterMap_append]
    cases hv : error? v with
    | none =>
      refine ⟨positions, hsorted, fun i => ?_, by simpa [hv] using hkept⟩
      simp [hmem i, failsAt_concat, hv]
    | some f =>
      have hlt : ∀ i ∈ positions, i < visits.length := by
        intro i hi
        obtain ⟨e, u, f, hu, -⟩ := (hmem i).1 hi
        exact (List.getElem?_eq_some_iff.1 hu).1
      have hlast : FailsAt (visits ++ [v]) phase error? visits.length
          ⟨v.name, phase, f.message⟩ := failsAt_concat.2 (.inr ⟨rfl, f, hv, rfl⟩)
      refine ⟨positions ++ [visits.length], ?_, fun i => ?_, ?_⟩
      · exact List.pairwise_append.2 ⟨hsorted, List.pairwise_singleton .., by simpa using hlt⟩
      · simp [hmem i, failsAt_concat, hv, exists_or]
      · rw [List.filterMap_cons, hv]
        exact List.rel_append hkept (.cons hlast .nil)

namespace Pipeline

variable {p : Pipeline} {root : String}

/-- **The report accounts for the graph.** The report of a run that gives a graph has an entry for
each extension, in order. The graph has as many edges as all entries say together. It has at most as
many nodes as they say, and as many just when no two nodes of successful parsing have the same
identifier. A phase that failed is said to have added nothing, and each failed phase is listed once:
those of parsing before those of linking, both in the order of the extensions. Nothing is listed just
when every call has succeeded. -/
theorem run_report_accounts {w w' : Workshop} {r : Run}
    (hRun : (p.run root).run w = (.ok r, w')) :
    ∃ visits edges s', Course p root w.session visits edges s' ∧ Accounted visits r := by
  obtain ⟨visits, edges, s', hcourse⟩ := exists_course p root w.session
  have ⟨hvisits, s₁, hparses, hlinks⟩ := hcourse
  obtain rfl := eq_of_run_eq_ok hRun
  rw [graphOf_of_calls hvisits hparses hlinks]
  refine ⟨visits, edges, s', hcourse, ?_⟩
  have hcontribution : ∀ (i : Nat) v, visits[i]? = some v →
      (Report.ofVisits visits).contributions[i]? = some v.contribution := by
    intro i v hv
    rw [Report.ofVisits, List.getElem?_map, hv, Option.map_some]
  have hnodes : (gathered root w.session.clock s₁.clock visits edges).nodes =
      .ofList ((visits.flatMap (·.parsedNodes s₁.clock)).map fun n => (n.id, n)) :=
    nodes_gathered ..
  have hgiven : ((visits.flatMap (·.parsedNodes s₁.clock)).map fun n => (n.id, n)).length =
      ((Report.ofVisits visits).contributions.map (·.nodes)).sum := by
    rw [List.length_map, List.length_flatMap, Report.ofVisits, List.map_map]
    exact congrArg List.sum (List.map_congr_left fun v _ => v.length_parsedNodes s₁.clock)
  have hids : ((visits.flatMap (·.parsedNodes s₁.clock)).map fun n => (n.id, n)).map Prod.fst =
      visits.flatMap (·.givenIds) := by
    rw [List.map_map, List.map_flatMap]
    exact congrArg visits.flatMap (funext fun v => v.ids_parsedNodes s₁.clock)
  constructor
  case names =>
    rw [Report.ofVisits, List.map_map]
    rfl
  case edges =>
    rw [← Array.length_toList, edges_gathered, List.length_append, hlinks.length_edges,
      length_edges_eq_sum, Report.ofVisits, List.map_map]
    rfl
  case nodes_le =>
    rw [hnodes, ← hgiven]
    exact NameMap.size_ofList_le _
  case nodes_eq_iff =>
    rw [hnodes, ← hgiven, ← hids]
    exact NameMap.size_ofList_eq_iff _
  case parsed =>
    intro i v o hv ho
    exact ⟨_, hcontribution i v hv, by simp [Visit.contribution, ho, Except.toOption]⟩
  case parseFailed =>
    intro i v f hv hf
    have hnone := hlinks.linked_eq_none (List.mem_of_getElem? hv) hf
    rw [hcontribution i v hv]
    simp [Visit.contribution, Visit.linkError?, hf, hnone, Except.toOption]
  case linked =>
    intro i v l hv hl
    exact ⟨_, hcontribution i v hv, by simp [Visit.contribution, hl, Except.toOption]⟩
  case linkFailed =>
    intro i v f hv hf
    exact ⟨_, hcontribution i v hv, by simp [Visit.contribution, hf, Except.toOption]⟩
  case failures =>
    refine ⟨_, _, rfl, ?_, ?_⟩
    · simp only [Visit.parseFailure?_eq]
      exact exists_positions ..
    · simp only [Visit.linkFailure?_eq]
      exact exists_positions ..
  case isClean_iff => exact hlinks.isClean_iff

/-- The run of `hubsWithFailures`, in which two nodes are given under one identifier. -/
theorem run_report_accounts_hubs :
    let w : Workshop := ⟨{ ids := ⟨.sequential, 0, 0⟩, clock := 7 }, .memory {}⟩
    ∃ r w', (hubsWithFailures.run "/srv").run w = (.ok r, w') ∧
      ∃ visits edges s', Course hubsWithFailures "/srv" w.session visits edges s' ∧
        Accounted visits r :=
  ⟨_, _, rfl, run_report_accounts rfl⟩

end Pipeline

end CodeGraph
