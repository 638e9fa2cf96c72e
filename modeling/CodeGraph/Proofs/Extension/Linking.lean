import Mathlib.Data.List.TakeWhile
import Mathlib.Logic.Relation
import CodeGraph.Extension.TestLinks
import CodeGraph.Proofs.Pipeline.Merge
import CodeGraph.Proofs.Volume.Programs
import CodeGraph.Proofs.Volume.Spelling

/-!
# Which tests are linked to what

A link leads from a test to a file under test: the first pattern that takes something of the name of
the test takes the name of the file, which no pattern takes anything of, and both have the same
extension (`TestLinks.Tests`). Between two files there is one link or none, and the links come in
the order of the tests and, of one test, in that of the files (`TestLinks.link_exact`).

As what a link leads to is no test, no link leaves it: links do not follow each other.
-/

namespace CodeGraph

/-! ## Views of nodes -/

/-- A view of nodes, each under its own identifier; the last node of an identifier stays. -/
def GraphQuery.ofNodes (l : List Node) : GraphQuery :=
  ⟨.ofList (l.map fun n => (n.id, n))⟩

/-- Every node is held under its own identifier. -/
def GraphQuery.Filed (q : GraphQuery) : Prop :=
  ∀ e ∈ q.nodes.entries, e.1 = e.2.id

namespace GraphQuery

variable {q : GraphQuery} {n m : Node} {t : NodeType}

theorem Filed.mem_ofType_iff (h : q.Filed) :
    n ∈ q.ofType t ↔ q.get? n.id = some n ∧ n.type = t := by
  have hvalue : n ∈ q.nodes.values ↔ q.get? n.id = some n := by
    rw [get?, NameMap.get?_eq_some_iff, NameMap.values, List.mem_map]
    constructor
    · rintro ⟨e, he, rfl⟩
      rw [← h e he]
      exact he
    · intro he
      exact ⟨_, he, rfl⟩
  rw [ofType, List.mem_filter, hvalue, beq_iff_eq]

theorem Filed.eq_of_id_eq (h : q.Filed) (hn : n ∈ q.ofType t) (hm : m ∈ q.ofType t)
    (hid : n.id = m.id) : n = m := by
  have hn := (h.mem_ofType_iff.1 hn).1
  have hm := (h.mem_ofType_iff.1 hm).1
  rw [hid, hm] at hn
  exact (Option.some.inj hn).symm

/-- The nodes of a type come in increasing order of identifier. -/
theorem Filed.pairwise_ofType (h : q.Filed) (t : NodeType) :
    (q.ofType t).Pairwise fun n m => n.id < m.id := by
  refine List.Pairwise.filter _ (List.pairwise_map.2 ?_)
  refine q.nodes.sorted.imp_of_mem ?_
  intro e f he hf hlt
  rw [← h e he, ← h f hf]
  exact hlt

theorem filed_ofNodes (l : List Node) : (ofNodes l).Filed := by
  intro e he
  rcases NameMap.mem_entries_insertMany he with he | he
  · obtain ⟨n, -, rfl⟩ := List.mem_map.1 he
    rfl
  · cases he

/-- Every view that holds nodes under their own identifiers is a view of nodes. -/
theorem Filed.eq_ofNodes (h : q.Filed) : q = ofNodes q.nodes.values := by
  have hentries : (q.nodes.values.map fun n => (n.id, n)) = q.nodes.entries := by
    rw [NameMap.values, List.map_map]
    refine (List.map_congr_left fun e he => ?_).trans (List.map_id _)
    exact Prod.ext (h e he).symm rfl
  unfold ofNodes NameMap.ofList
  rw [hentries, NameMap.insertMany_entries]

end GraphQuery

/-- What a run gives to its extensions for linking is a view of nodes. -/
theorem Pipeline.mergedNodes_eq_ofNodes (parsedAt : UInt64) (visits : List Visit) :
    (⟨mergedNodes parsedAt visits⟩ : GraphQuery) =
      .ofNodes (visits.flatMap (·.parsedNodes parsedAt)) :=
  rfl

namespace TestLinks

variable {patterns : List Pattern} {q : GraphQuery} {tested? : String → Option String}
  {test file : Node} {stem : String} {files : List Node}

/-! ## Names of files -/

/-- The name of a file without its extension. -/
def stemOf (n : Node) : String :=
  (splitName n.name).1

def extensionOf (n : Node) : String :=
  (splitName n.name).2

theorem named_eq (tested? : String → Option String) (n : Node) :
    named tested? n = ⟨n, stemOf n, extensionOf n, tested? (stemOf n)⟩ :=
  rfl

/-- A name is parted at its last point, if there is something before it. -/
theorem splitName_point {ext : String} (hstem : stem ≠ "") (hext : '.' ∉ ext.toList) :
    splitName (stem ++ "." ++ ext) = (stem, ext) := by
  rw [splitName, Path.splitName_append hstem hext]
  rfl

/-- A name without a point behind its first character is a whole. -/
theorem splitName_whole {name : String}
    (h : ∀ stem ext, stem ≠ "" → '.' ∉ ext.toList → name ≠ stem ++ "." ++ ext) :
    splitName name = (name, "") := by
  have hparts : name.toList.reverse.takeWhile (· != '.') ++
      name.toList.reverse.dropWhile (· != '.') = name.toList.reverse :=
    List.takeWhile_append_dropWhile
  have hrest : name.toList.reverse.drop (name.toList.reverse.takeWhile (· != '.')).length =
      name.toList.reverse.dropWhile (· != '.') := by
    have hdrop := @List.drop_left _ (name.toList.reverse.takeWhile (· != '.'))
      (name.toList.reverse.dropWhile (· != '.'))
    rw [hparts] at hdrop
    exact hdrop
  have hpoint := List.head?_dropWhile_not (· != '.') name.toList.reverse
  unfold splitName Path.splitName
  simp only
  rw [hrest]
  rcases hdrop : name.toList.reverse.dropWhile (· != '.') with _ | ⟨c, before⟩
  · rfl
  · rw [hdrop] at hparts hpoint
    obtain rfl : c = '.' := by simpa using hpoint
    cases before with
    | nil => rfl
    | cons c before =>
      refine absurd ?_ (h (String.ofList (c :: before).reverse)
        (String.ofList (name.toList.reverse.takeWhile (· != '.')).reverse) ?_ ?_)
      · have hname := congrArg List.reverse hparts
        rw [List.reverse_reverse] at hname
        refine String.toList_injective (hname.symm.trans ?_)
        simp
      · intro hnil
        have hnil := congrArg String.toList hnil
        simp at hnil
      · rw [String.toList_ofList, List.mem_reverse]
        intro hmem
        have hno := List.mem_takeWhile_imp hmem
        simp at hno

/-! ## Tests -/

/-- What a pattern takes of the name of a test. -/
def takenBy? (p : Pattern) (stem : String) : Option String :=
  (p.capture? stem).bind fun groups => groups.get? group

theorem testedStem?_eq_none_iff :
    testedStem? patterns stem = none ↔ ∀ p ∈ patterns, takenBy? p stem = none :=
  List.findSome?_eq_none_iff

theorem testedStem?_eq_some_iff {taken : String} :
    testedStem? patterns stem = some taken ↔
      ∃ before p after, patterns = before ++ p :: after ∧ takenBy? p stem = some taken ∧
        ∀ p ∈ before, takenBy? p stem = none :=
  List.findSome?_eq_some_iff

/-- A file is a test of another one, whose name the first pattern that takes anything takes. -/
structure Tests (patterns : List Pattern) (q : GraphQuery) (test file : Node) (stem : String) :
    Prop where
  isTest : test ∈ q.ofType .fsFile
  taken : ∃ before p after, patterns = before ++ p :: after ∧
    takenBy? p (stemOf test) = some stem ∧ ∀ p ∈ before, takenBy? p (stemOf test) = none
  isFile : file ∈ q.ofType .fsFile
  untaken : ∀ p ∈ patterns, takenBy? p (stemOf file) = none
  sameStem : stemOf file = stem
  sameExtension : extensionOf file = extensionOf test

/-- The pairs of one test. -/
def pairsOf (tested? : String → Option String) (files : List Node) (test : Node) :
    List (Node × Node × String) :=
  match tested? (stemOf test) with
  | none => []
  | some target =>
    (files.filter fun f => (tested? (stemOf f)).isNone && stemOf f == target &&
      extensionOf f == extensionOf test).map fun f => (test, f, target)

theorem pairs_named (tested? : String → Option String) (files : List Node) :
    pairs (files.map (named tested?)) = files.flatMap (pairsOf tested? files) := by
  unfold pairs
  rw [List.flatMap_map]
  refine congrArg files.flatMap (funext fun test => ?_)
  rw [named_eq, pairsOf]
  cases tested? (stemOf test) with
  | none => rfl
  | some target =>
    simp only
    rw [List.filter_map, List.map_map]
    rfl

theorem mem_pairsOf_iff {pair : Node × Node × String} :
    pair ∈ pairsOf tested? files test ↔
      pair.1 = test ∧ tested? (stemOf test) = some pair.2.2 ∧ pair.2.1 ∈ files ∧
        tested? (stemOf pair.2.1) = none ∧ stemOf pair.2.1 = pair.2.2 ∧
        extensionOf pair.2.1 = extensionOf test := by
  obtain ⟨test', file, stem⟩ := pair
  unfold pairsOf
  cases tested? (stemOf test) with
  | none => simp
  | some target =>
    simp only [List.mem_map, List.mem_filter, Bool.and_eq_true, Option.isNone_iff_eq_none,
      beq_iff_eq, Prod.mk.injEq, Option.some.injEq]
    constructor
    · rintro ⟨f, ⟨hf, ⟨hnone, hstem⟩, hext⟩, rfl, rfl, rfl⟩
      exact ⟨rfl, rfl, hf, hnone, hstem, hext⟩
    · rintro ⟨rfl, rfl, hf, hnone, hstem, hext⟩
      exact ⟨file, ⟨hf, ⟨hnone, hstem⟩, hext⟩, rfl, rfl, rfl⟩

theorem mem_pairs_iff : (test, file, stem) ∈ pairs (files.map (named tested?)) ↔
    test ∈ files ∧ tested? (stemOf test) = some stem ∧ file ∈ files ∧
      tested? (stemOf file) = none ∧ stemOf file = stem ∧ extensionOf file = extensionOf test := by
  rw [pairs_named, List.mem_flatMap]
  constructor
  · rintro ⟨t, ht, hpair⟩
    obtain ⟨rfl, hrest⟩ := mem_pairsOf_iff.1 hpair
    exact ⟨ht, hrest⟩
  · rintro ⟨htest, hrest⟩
    exact ⟨test, htest, mem_pairsOf_iff.2 ⟨rfl, hrest⟩⟩

theorem mem_pairs_ofType_iff :
    (test, file, stem) ∈ pairs ((q.ofType .fsFile).map (named (testedStem? patterns))) ↔
      Tests patterns q test file stem := by
  rw [mem_pairs_iff, testedStem?_eq_none_iff, testedStem?_eq_some_iff]
  constructor
  · rintro ⟨htest, htaken, hfile, huntaken, hstem, hext⟩
    exact ⟨htest, htaken, hfile, huntaken, hstem, hext⟩
  · rintro ⟨htest, htaken, hfile, huntaken, hstem, hext⟩
    exact ⟨htest, htaken, hfile, huntaken, hstem, hext⟩

/-- A test whose name ends in `_t` is linked to the file of the rest; a test of that test is linked
to nothing. -/
example :
    let file (name : String) : Node := { id := name, type := .fsFile, name }
    let suffixed : Pattern := .sequence [.look .textStart,
      .group (some "stem") (.repeated 1 none true (.set (.compl (.single '\n')))),
      .set (.single '_'), .set (.single 't'), .look .textEnd]
    (pairs ([file "a.rs", file "a_t.rs", file "a_t_t.rs"].map (named (testedStem? [suffixed])))).map
      (fun pair => (pair.1.id, pair.2.1.id, pair.2.2)) = [("a_t.rs", "a.rs", "a")] := by cbv

/-- A link leads between two identifiers before another one if its test is the earlier one, or the
test is the same and its file is the earlier one. -/
def Earlier (a b : String × String) : Prop :=
  a.1 < b.1 ∨ a.1 = b.1 ∧ a.2 < b.2

/-- The pairs come in the order of the tests and, of one test, in that of the files. -/
theorem pairwise_pairs (hfiles : files.Pairwise fun n m => n.id < m.id) :
    (pairs (files.map (named tested?))).Pairwise fun a b =>
      Earlier (a.1.id, a.2.1.id) (b.1.id, b.2.1.id) := by
  rw [pairs_named]
  refine List.pairwise_flatMap.2 ⟨?_, ?_⟩
  · intro test _
    unfold pairsOf
    cases tested? (stemOf test) with
    | none => exact .nil
    | some target =>
      refine List.pairwise_map.2 ((hfiles.filter _).imp ?_)
      intro n m hlt
      exact .inr ⟨rfl, hlt⟩
  · refine hfiles.imp ?_
    intro n m hlt a ha b hb
    obtain ⟨hn, -⟩ := mem_pairsOf_iff.1 ha
    obtain ⟨hm, -⟩ := mem_pairsOf_iff.1 hb
    refine .inl ?_
    rw [hn, hm]
    exact hlt

/-! ## Links -/

/-- The link of a pair but for its identifier. -/
def linkOf (pair : Node × Node × String) (id : String) : Edge :=
  { id, type := .tests, source := pair.1.id, target := pair.2.1.id
    metadata := ({} : EdgeMetadata).withExtra "matched_stem" (.string pair.2.2) }

theorem run_edgeOf (pair : Node × Node × String) (s : Session) :
    (edgeOf pair).run.run s = (.ok (linkOf pair (s.ids.edgeId .tests pair.1.id pair.2.1.id).1),
      { s with ids := (s.ids.edgeId .tests pair.1.id pair.2.1.id).2 }) :=
  rfl

/-- An edge without its identifier. -/
def unnamed (e : Edge) : Edge :=
  { e with id := "" }

theorem unnamed_eq_iff {e : Edge} {pair : Node × Node × String} :
    unnamed e = linkOf pair "" ↔ e = linkOf pair e.id := by
  obtain ⟨id, type, source, target, metadata, provenance⟩ := e
  simp [unnamed, linkOf]

/-- The pairs are linked in order, and nothing but the identifiers changes. -/
theorem run_mapM_edgeOf (l : List (Node × Node × String)) (s : Session) :
    ∃ edges ids, (l.mapM edgeOf).run.run s = (.ok edges, { s with ids }) ∧
      edges.map unnamed = l.map (linkOf · "") := by
  induction l generalizing s with
  | nil => exact ⟨[], s.ids, rfl, rfl⟩
  | cons pair l ih =>
    obtain ⟨edges, ids, hrun, hlinks⟩ :=
      ih { s with ids := (s.ids.edgeId .tests pair.1.id pair.2.1.id).2 }
    refine ⟨linkOf pair (s.ids.edgeId .tests pair.1.id pair.2.1.id).1 :: edges, ids, ?_, ?_⟩
    · rw [List.mapM_cons, run_bind_ok (run_edgeOf pair s), run_bind_ok hrun]
      rfl
    · rw [List.map_cons, List.map_cons, hlinks]
      rfl

theorem run_patternsOf {settings : Json} (hpatterns : readPatterns settings = .ok patterns)
    (s : Session) : (patternsOf settings).run.run s = (.ok patterns, s) := by
  unfold patternsOf
  rw [hpatterns]
  rfl

theorem run_link_of_error {c : LinkContext} {e : SettingsError}
    (hpatterns : readPatterns c.settings = .error e) (s : Session) :
    (link c).run.run s = (.error (.failed e.reasons), s) := by
  have hread : (patternsOf c.settings).run.run s = (.error (.failed e.reasons), s) := by
    unfold patternsOf
    rw [hpatterns]
    rfl
  unfold link
  exact run_bind_error hread

theorem run_link {c : LinkContext} (hpatterns : readPatterns c.settings = .ok patterns)
    (s : Session) : ∃ edges ids, (link c).run.run s = (.ok edges, { s with ids }) ∧
      edges.map unnamed = (pairs ((c.nodes.ofType .fsFile).map
        (named (testedStem? patterns)))).map (linkOf · "") := by
  obtain ⟨edges, ids, hrun, hlinks⟩ := run_mapM_edgeOf
    (pairs ((c.nodes.ofType .fsFile).map (named (testedStem? patterns)))) s
  refine ⟨edges, ids, ?_, hlinks⟩
  unfold link
  rw [run_bind_ok (run_patternsOf hpatterns s)]
  exact hrun

section Ends

variable {edges : List Edge} {l : List (Node × Node × String)}
  (hlinks : edges.map unnamed = l.map (linkOf · ""))

include hlinks

theorem exists_pair {e : Edge} (he : e ∈ edges) : ∃ pair ∈ l, e = linkOf pair e.id := by
  have hmem : unnamed e ∈ l.map (linkOf · "") := hlinks ▸ List.mem_map_of_mem he
  obtain ⟨pair, hpair, heq⟩ := List.mem_map.1 hmem
  exact ⟨pair, hpair, unnamed_eq_iff.1 heq.symm⟩

theorem exists_link {pair : Node × Node × String} (hpair : pair ∈ l) :
    ∃ e ∈ edges, e = linkOf pair e.id := by
  have hmem : linkOf pair "" ∈ edges.map unnamed :=
    hlinks ▸ List.mem_map_of_mem (f := (linkOf · "")) hpair
  obtain ⟨e, he, heq⟩ := List.mem_map.1 hmem
  exact ⟨e, he, unnamed_eq_iff.1 heq⟩

theorem pairwise_links
    (hpairs : l.Pairwise fun a b => Earlier (a.1.id, a.2.1.id) (b.1.id, b.2.1.id)) :
    edges.Pairwise fun a b => Earlier (a.source, a.target) (b.source, b.target) := by
  have hmap : (l.map (linkOf · "")).Pairwise fun a b =>
      Earlier (a.source, a.target) (b.source, b.target) := List.pairwise_map.2 hpairs
  rw [← hlinks] at hmap
  exact (List.pairwise_map (f := unnamed)).1 hmap

end Ends

/-! ## All links -/

/-- A link leads from one identifier to another. -/
def Linked (edges : List Edge) (a b : String) : Prop :=
  ∃ e ∈ edges, e.source = a ∧ e.target = b

/-- What a test takes something of is no file under test. -/
theorem Tests.not_tests {test file test' file' : Node} {stem stem' : String}
    (h : Tests patterns q test file stem) (h' : Tests patterns q test' file' stem') :
    file ≠ test' := by
  rintro rfl
  obtain ⟨before, p, after, rfl, htaken, -⟩ := h'.taken
  have hnone := h.untaken p (List.mem_append_right _ (List.mem_cons_self ..))
  cases hnone.symm.trans htaken

/-- Links are exactly those from tests to what they test. -/
structure Exact (patterns : List Pattern) (q : GraphQuery) (edges : List Edge) : Prop where
  /-- They come in the order of the tests and, of one test, in that of the files, no two of the same
  ends. -/
  ordered : edges.Pairwise fun a b => Earlier (a.source, a.target) (b.source, b.target)
  /-- Each leads from a test to a file that it is a test of, with the name that they share. -/
  sound : ∀ e ∈ edges, ∃ test file stem, Tests patterns q test file stem ∧
    e = linkOf (test, file, stem) e.id
  /-- None is missing. -/
  complete : ∀ test file stem, Tests patterns q test file stem →
    ∃ e ∈ edges, e = linkOf (test, file, stem) e.id

theorem exists_link_exact {c : LinkContext} (hq : c.nodes.Filed)
    (hpatterns : readPatterns c.settings = .ok patterns) (s : Session) :
    ∃ edges ids, (link c).run.run s = (.ok edges, { s with ids }) ∧
      Exact patterns c.nodes edges := by
  obtain ⟨edges, ids, hrun, hlinks⟩ := run_link hpatterns s
  refine ⟨edges, ids, hrun, ?_, ?_, ?_⟩
  · exact pairwise_links hlinks (pairwise_pairs (hq.pairwise_ofType _))
  · intro e he
    obtain ⟨⟨test, file, stem⟩, hpair, heq⟩ := exists_pair hlinks he
    exact ⟨test, file, stem, mem_pairs_ofType_iff.1 hpair, heq⟩
  · intro test file stem h
    exact exists_link hlinks (mem_pairs_ofType_iff.2 h)

namespace Exact

variable {edges : List Edge} {e e' : Edge}

theorem target_ne_source (h : Exact patterns q edges) (hq : q.Filed) (he : e ∈ edges)
    (he' : e' ∈ edges) : e.target ≠ e'.source := by
  intro hid
  obtain ⟨test, file, stem, htests, heq⟩ := h.sound e he
  obtain ⟨test', file', stem', htests', heq'⟩ := h.sound e' he'
  rw [heq, heq'] at hid
  exact htests.not_tests htests' (hq.eq_of_id_eq htests.isFile htests'.isTest hid)

/-- No test is a file under test. -/
theorem untaken (h : Exact patterns q edges) (hq : q.Filed) (he : e ∈ edges)
    (hfile : file ∈ q.ofType .fsFile) (hid : file.id = e.target) :
    ∀ p ∈ patterns, takenBy? p (stemOf file) = none := by
  obtain ⟨test, file', stem, htests, heq⟩ := h.sound e he
  rw [heq] at hid
  rw [hq.eq_of_id_eq hfile htests.isFile hid]
  exact htests.untaken

/-- Links do not lead back to where they began. -/
theorem acyclic (h : Exact patterns q edges) (hq : q.Filed) (a : String) :
    ¬ Relation.TransGen (Linked edges) a a := by
  intro hback
  obtain ⟨b, ⟨e, he, hsource, -⟩, -⟩ := Relation.TransGen.head'_iff.1 hback
  obtain ⟨c, -, e', he', -, htarget⟩ := Relation.TransGen.tail'_iff.1 hback
  exact h.target_ne_source hq he' he (htarget.trans hsource.symm)

end Exact

/-- **Linking is exact.** If a pattern cannot be read, linking fails for that reason and changes
nothing. If all can be read it succeeds, changes nothing but the identifiers, and its links are
exactly those from tests to what they test. So no link leads to a test, from a file to itself or,
with others, back to where it began. -/
theorem link_exact (root : String) (settings : Json) (nodes : List Node) (s : Session) :
    match readPatterns settings with
    | .error e =>
      (link ⟨root, settings, .ofNodes nodes⟩).run.run s = (.error (.failed e.reasons), s)
    | .ok patterns =>
      ∃ edges ids, (link ⟨root, settings, .ofNodes nodes⟩).run.run s = (.ok edges, { s with ids }) ∧
        Exact patterns (.ofNodes nodes) edges ∧
        (∀ e ∈ edges, ∀ file ∈ (GraphQuery.ofNodes nodes).ofType .fsFile, file.id = e.target →
          ∀ p ∈ patterns, takenBy? p (stemOf file) = none) ∧
        (∀ e ∈ edges, e.source ≠ e.target) ∧
        ∀ a, ¬ Relation.TransGen (Linked edges) a a := by
  have hq := GraphQuery.filed_ofNodes nodes
  split
  · next e hpatterns => exact run_link_of_error hpatterns s
  · next patterns hpatterns =>
    obtain ⟨edges, ids, hrun, hexact⟩ := exists_link_exact
      (c := ⟨root, settings, .ofNodes nodes⟩) hq hpatterns s
    refine ⟨edges, ids, hrun, hexact, ?_, ?_, hexact.acyclic hq⟩
    · intro e he file hfile hid
      exact hexact.untaken hq he hfile hid
    · intro e he hself
      exact hexact.target_ne_source hq he he hself.symm

end TestLinks

end CodeGraph
