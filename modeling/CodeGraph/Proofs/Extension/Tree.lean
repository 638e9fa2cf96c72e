import Mathlib.Data.List.Induction
import Mathlib.Data.List.Nodup
import Mathlib.Logic.Relation
import CodeGraph.Proofs.Extension.Sharing
import CodeGraph.Proofs.Extension.Walks
import CodeGraph.Proofs.Identity

/-!
# The tree of files is a tree

What a parse gives is a tree with the directory of the walk as its root (`IsRootedTree`): every other
node has one edge from the node of the directory that it is in, and there are no more edges. An entry
is given after its directory, whose identifier is found by the path of the directory; so a step puts
a leaf to the tree (`IsRootedTree.grow`), as long as the identifiers of nodes are different.

A root that is a link to a directory is no entry of the walk, and a lone dash stands for no path: then
there is no node for the root, and what is given is no tree (`parse_rootless`).

Identifiers are numbers, which differ until 64 bits do not tell them apart, or digests
(`IdsApart`, `nodup_idAt`). The text of which a digest is taken tells the path of the entry
(`relative_of_preimage_eq`).

Whatever a file holds, and whatever goes wrong with it, its entry is given with its path
(`keeps_metadataOf`), so faults and other programs play no part (`Adds.exists_give`). Only a cache may
break off, when it cannot tell a time or a size.
-/

namespace CodeGraph

open CodeGraph.Path (IsPlain)
open FileTree (relativeOf)

/-! ## Trees -/

/-- A node stands at the path that is told by names from the root on. -/
def Node.StandsAt (n : Node) (names : List String) : Prop :=
  n.metadata.filePath = some (relativeOf names)

/-- What stands in a directory does not stand at the root. -/
theorem Node.StandsAt.not_root {n : Node} {names : List String} {name : String}
    (h : n.StandsAt (names ++ [name])) (hplain : ∀ m ∈ names ++ [name], IsPlain m) :
    ¬ n.StandsAt [] := fun hroot =>
  FileTree.relativeOf_ne_dot hplain (by simp) (Option.some.inj (h.symm.trans hroot))

namespace ExtensionOutput

/-- An edge leads from one identifier to another one. -/
def Leads (o : ExtensionOutput) (a b : String) : Prop :=
  ∃ e ∈ o.edges, e.source = a ∧ e.target = b

/-- A tree of directories and files. -/
structure IsRootedTree (o : ExtensionOutput) : Prop where
  stands : ∀ n ∈ o.nodes, ∃ names, (∀ m ∈ names, IsPlain m) ∧ n.StandsAt names
  paths : (o.nodes.map (·.metadata.filePath)).Nodup
  ids : (o.nodes.map (·.id)).Nodup
  root : ∃ n ∈ o.nodes, n.StandsAt []
  rootless : ∀ n ∈ o.nodes, n.StandsAt [] → ∀ e ∈ o.edges, e.target ≠ n.id
  /-- The directory that something is in is there, and only from it an edge leads to what is in it. -/
  inside : ∀ n ∈ o.nodes, ∀ names name, (∀ m ∈ names ++ [name], IsPlain m) →
    n.StandsAt (names ++ [name]) → ∃ d ∈ o.nodes, d.type = .fsDirectory ∧ d.StandsAt names ∧
      ∃ e, o.edges.filter (fun e => e.target == n.id) = [e] ∧ e.type = .contains ∧ e.source = d.id
  ends : ∀ e ∈ o.edges, ∃ n ∈ o.nodes, e.target = n.id
  size : o.edges.length + 1 = o.nodes.length
  reached : ∀ top ∈ o.nodes, top.StandsAt [] → ∀ n ∈ o.nodes,
    Relation.ReflTransGen o.Leads top.id n.id

namespace IsRootedTree

variable {o : ExtensionOutput} {n d : Node} {e : Edge}

/-- The root alone. -/
theorem single (hn : n.StandsAt []) : IsRootedTree ⟨[n], []⟩ where
  stands m hm := by
    obtain rfl := List.mem_singleton.1 hm
    exact ⟨[], by simp, hn⟩
  paths := by simp
  ids := by simp
  root := ⟨n, by simp, hn⟩
  rootless _ _ _ e he := absurd he List.not_mem_nil
  inside m hm names name hplain hstands := by
    obtain rfl := List.mem_singleton.1 hm
    exact absurd hn (hstands.not_root hplain)
  ends e he := absurd he List.not_mem_nil
  size := rfl
  reached top htop _ m hm := by
    rw [List.mem_singleton.1 htop, List.mem_singleton.1 hm]

/-- What is in a directory of the tree is put to it, with an edge from the directory. -/
theorem grow (h : o.IsRootedTree) {names : List String} {name : String}
    (hplain : ∀ m ∈ names ++ [name], IsPlain m) (hd : d ∈ o.nodes) (hkind : d.type = .fsDirectory)
    (hdirectory : d.StandsAt names) (hn : n.StandsAt (names ++ [name]))
    (hpath : ∀ m ∈ o.nodes, m.metadata.filePath ≠ n.metadata.filePath)
    (hid : ∀ m ∈ o.nodes, m.id ≠ n.id) (htype : e.type = .contains) (hsource : e.source = d.id)
    (htarget : e.target = n.id) : IsRootedTree ⟨o.nodes ++ [n], o.edges ++ [e]⟩ where
  stands m hm := by
    rcases List.mem_append.1 hm with hm | hm
    · exact h.stands m hm
    · obtain rfl := List.mem_singleton.1 hm
      exact ⟨_, hplain, hn⟩
  paths := by
    rw [List.map_append, List.nodup_append]
    refine ⟨h.paths, by simp, ?_⟩
    intro a ha b hb
    obtain ⟨m, hm, rfl⟩ := List.mem_map.1 ha
    obtain rfl : b = _ := by simpa using hb
    exact hpath m hm
  ids := by
    rw [List.map_append, List.nodup_append]
    refine ⟨h.ids, by simp, ?_⟩
    intro a ha b hb
    obtain ⟨m, hm, rfl⟩ := List.mem_map.1 ha
    obtain rfl : b = _ := by simpa using hb
    exact hid m hm
  root := by
    obtain ⟨top, htop, hstands⟩ := h.root
    exact ⟨top, List.mem_append_left _ htop, hstands⟩
  rootless m hm hstands e' he' := by
    rcases List.mem_append.1 hm with hm | hm
    · rcases List.mem_append.1 he' with he' | he'
      · exact h.rootless m hm hstands e' he'
      · rw [List.mem_singleton.1 he', htarget]
        exact (hid m hm).symm
    · obtain rfl := List.mem_singleton.1 hm
      exact absurd hstands (hn.not_root hplain)
  inside m hm names' name' hplain' hstands := by
    rcases List.mem_append.1 hm with hm | hm
    · obtain ⟨d', hd', hkind', hdirectory', e', hedges, htype', hsource'⟩ :=
        h.inside m hm names' name' hplain' hstands
      refine ⟨d', List.mem_append_left _ hd', hkind', hdirectory', e', ?_, htype', hsource'⟩
      have hother : [e].filter (fun e => e.target == m.id) = [] := by
        simpa [htarget] using (hid m hm).symm
      rw [List.filter_append, hedges, hother, List.append_nil]
    · obtain rfl := List.mem_singleton.1 hm
      have hnames := FileTree.relativeOf_inj hplain hplain'
        (Option.some.inj (hn.symm.trans hstands))
      obtain ⟨rfl, -⟩ := List.append_inj' hnames rfl
      refine ⟨d, List.mem_append_left _ hd, hkind, hdirectory, e, ?_, htype, hsource⟩
      have hnone : o.edges.filter (fun e => e.target == m.id) = [] := by
        rw [List.filter_eq_nil_iff]
        intro e' he'
        obtain ⟨m', hm', htarget'⟩ := h.ends e' he'
        rw [htarget', beq_iff_eq]
        exact hid m' hm'
      have hself : [e].filter (fun e => e.target == m.id) = [e] := by
        simpa using htarget
      rw [List.filter_append, hnone, hself, List.nil_append]
  ends e' he' := by
    rcases List.mem_append.1 he' with he' | he'
    · obtain ⟨m, hm, htarget'⟩ := h.ends e' he'
      exact ⟨m, List.mem_append_left _ hm, htarget'⟩
    · rw [List.mem_singleton.1 he']
      exact ⟨n, by simp, htarget⟩
  size := by
    simp only [List.length_append, List.length_singleton]
    rw [h.size]
  reached top htop hstands m hm := by
    have hmore : ∀ a b, Relation.ReflTransGen o.Leads a b →
        Relation.ReflTransGen (Leads ⟨o.nodes ++ [n], o.edges ++ [e]⟩) a b := by
      apply Relation.ReflTransGen.mono
      rintro a b ⟨e', he', hends⟩
      exact ⟨e', List.mem_append_left _ he', hends⟩
    rcases List.mem_append.1 htop with htop' | htop'
    · rcases List.mem_append.1 hm with hm | hm
      · exact hmore _ _ (h.reached top htop' hstands m hm)
      · obtain rfl := List.mem_singleton.1 hm
        exact (hmore _ _ (h.reached top htop' hstands d hd)).tail ⟨e, by simp, hsource, htarget⟩
    · obtain rfl := List.mem_singleton.1 htop'
      exact absurd hstands (hn.not_root hplain)

end IsRootedTree

end ExtensionOutput

namespace FileTree

/-! ## Identifiers -/

/-- The type of the node of an entry. -/
def typeOf (e : Entry) : NodeType :=
  if e.isDirectory then .fsDirectory else .fsFile

/-- What the digest of an entry is taken of. -/
def partsOf (root : String) (e : Entry) : List String :=
  IdGenerator.nodeParts (typeOf e) (nameOf root e) (some e.relative)

/-- The identifier of the entry at a position. -/
def idAt (root : String) (start : IdGenerator) (i : Nat) (e : Entry) : String :=
  match start.strategy with
  | .sequential => "node_" ++ toString (start.nodes + UInt64.ofNat i + 1).toNat
  | .contentHash => IdGenerator.hashed "node" (partsOf root e)

/-- Identifiers can differ: there are numbers for all entries, or no two different texts have one
digest. -/
def IdsApart (root : String) (start : IdGenerator) (es : List Entry) : Prop :=
  match start.strategy with
  | .sequential => es.length ≤ UInt64.size
  | .contentHash => ∀ a ∈ es, ∀ b ∈ es,
    IdGenerator.hashed "node" (partsOf root a) = IdGenerator.hashed "node" (partsOf root b) →
      IdGenerator.preimage "node" (partsOf root a) = IdGenerator.preimage "node" (partsOf root b)

theorem unended_relativeOf {names : List String} (hnames : ∀ m ∈ names, IsPlain m) :
    '\x00' ∉ (relativeOf names).toList := by
  by_cases hne : names = []
  · subst hne
    decide
  · rw [relativeOf_of_ne_nil hne, Path.ofParts, if_neg (by decide), String.empty_append,
      Path.mem_intercalate (by decide)]
    rintro ⟨m, hm, hend⟩
    exact (hnames m hm).unended hend

/-- The text of which a digest is taken tells the path of the entry. -/
theorem relative_of_preimage_eq {root : String} {a b : Entry} (ha : '\x00' ∉ a.relative.toList)
    (hb : '\x00' ∉ b.relative.toList)
    (h : IdGenerator.preimage "node" (partsOf root a) =
      IdGenerator.preimage "node" (partsOf root b)) : a.relative = b.relative := by
  obtain ⟨-, htype⟩ := IdGenerator.preimage_cons_inj (by decide) (by decide) h
  obtain ⟨-, hpath⟩ := IdGenerator.preimage_cons_inj (NodeType.zero_not_mem_name _)
    (NodeType.zero_not_mem_name _) htype
  -- The name may hold zero characters: it is the last part.
  exact (IdGenerator.preimage_cons_inj ha hb hpath).1

/-- The identifiers of entries with different paths are different. -/
theorem nodup_idAt {root : String} {start : IdGenerator} {es : List Entry}
    (hids : IdsApart root start es) (hpaths : (es.map (·.relative)).Nodup)
    (hend : ∀ e ∈ es, '\x00' ∉ e.relative.toList) : (es.mapIdx (idAt root start)).Nodup := by
  unfold IdsApart at hids
  cases hstrategy : start.strategy with
  | sequential =>
    simp only [hstrategy] at hids
    unfold List.Nodup
    rw [List.pairwise_iff_getElem]
    intro i j hi hj hij hid
    rw [List.length_mapIdx] at hi hj
    simp only [List.getElem_mapIdx, idAt, hstrategy] at hid
    have hchars := congrArg String.toList hid
    rw [String.toList_append, String.toList_append] at hchars
    have hnumber := toString_nat_inj (String.toList_injective (List.append_cancel_left hchars))
    have hword : UInt64.ofNat i = UInt64.ofNat j := by
      simpa using UInt64.toNat_inj.1 hnumber
    have hposition := congrArg UInt64.toNat hword
    rw [UInt64.toNat_ofNat', UInt64.toNat_ofNat', Nat.mod_eq_of_lt (Nat.lt_of_lt_of_le hi hids),
      Nat.mod_eq_of_lt (Nat.lt_of_lt_of_le hj hids)] at hposition
    omega
  | contentHash =>
    simp only [hstrategy] at hids
    have hmap : es.mapIdx (idAt root start) =
        es.map fun e => IdGenerator.hashed "node" (partsOf root e) := by
      apply List.ext_getElem
      · simp
      · intro i hi hi'
        simp only [List.getElem_mapIdx, List.getElem_map, idAt, hstrategy]
    rw [hmap]
    apply List.Nodup.map_on _ (List.Nodup.of_map _ hpaths)
    intro a ha b hb hid
    exact List.inj_on_of_nodup_map hpaths ha hb
      (relative_of_preimage_eq (hend a ha) (hend b hb) (hids a ha b hb hid))

/-! ## Entries that are given -/

variable {root : String} {settings : Settings} {e : Entry} {s t : Session} {p : Progress}
  {metadata : NodeMetadata} {ids start : IdGenerator}

/-- The node of an entry. -/
def nodeOf (root : String) (e : Entry) (metadata : NodeMetadata) (id : String) : Node :=
  { id, type := typeOf e, name := nameOf root e, metadata }

/-- Gives an entry with its metadata. -/
def give (root : String) (q : Progress × IdGenerator) (x : Entry × NodeMetadata) :
    Progress × IdGenerator :=
  placed root q.1 x.1 x.2 q.2

/-- The identifier that is made for an entry. -/
def madeId (root : String) (ids : IdGenerator) (e : Entry) : String × IdGenerator :=
  ids.nodeId (typeOf e) (nameOf root e) (some e.relative)

theorem placed_alone (h : (parentOf? e).bind p.ids.get? = none) :
    placed root p e metadata ids =
      (⟨p.ids.insert e.relative (madeId root ids e).1,
        nodeOf root e metadata (madeId root ids e).1 :: p.nodes, p.edges⟩,
        (madeId root ids e).2) := by
  unfold placed
  simp only [h]
  rfl

theorem placed_inside {parent : String} (h : (parentOf? e).bind p.ids.get? = some parent) :
    placed root p e metadata ids =
      let edge := (madeId root ids e).2.edgeId .contains parent (madeId root ids e).1
      (⟨p.ids.insert e.relative (madeId root ids e).1,
        nodeOf root e metadata (madeId root ids e).1 :: p.nodes,
        { id := edge.1, type := .contains, source := parent, target := (madeId root ids e).1 } ::
          p.edges⟩, edge.2) := by
  unfold placed
  simp only [h]
  rfl

theorem nodes_give (root : String) (q : Progress × IdGenerator) (x : Entry × NodeMetadata) :
    (give root q x).1.nodes = nodeOf root x.1 x.2 (madeId root q.2 x.1).1 :: q.1.nodes := by
  unfold give
  rcases hparent : (parentOf? x.1).bind q.1.ids.get? with _ | parent
  · rw [placed_alone hparent]
  · rw [placed_inside hparent]

/-- A node that is given has the metadata of an entry. -/
theorem exists_of_mem_nodes {l : List (Entry × NodeMetadata)} {n : Node}
    (h : n ∈ (l.foldl (give root) ({}, start)).1.nodes) : ∃ x ∈ l, n.metadata = x.2 := by
  induction l using List.reverseRecOn with
  | nil => cases h
  | append_singleton l x ih =>
    rw [List.foldl_append, List.foldl_cons, List.foldl_nil, nodes_give] at h
    rcases List.mem_cons.1 h with rfl | h
    · exact ⟨x, by simp, rfl⟩
    · obtain ⟨y, hy, hn⟩ := ih h
      exact ⟨y, List.mem_append_left _ hy, hn⟩

theorem madeId_eq {l : List (Entry × NodeMetadata)} (root : String) (e : Entry)
    (hstrategy : ids.strategy = start.strategy)
    (hnodes : start.strategy = .sequential → ids.nodes = start.nodes + UInt64.ofNat l.length) :
    (madeId root ids e).1 = idAt root start l.length e ∧
      (madeId root ids e).2.strategy = start.strategy ∧
      (start.strategy = .sequential →
        (madeId root ids e).2.nodes = start.nodes + UInt64.ofNat (l.length + 1)) := by
  unfold madeId IdGenerator.nodeId idAt
  rw [hstrategy]
  cases hkind : start.strategy with
  | sequential =>
    refine ⟨by simp [hnodes hkind], rfl, fun _ => ?_⟩
    rw [UInt64.ofNat_add, ← UInt64.add_assoc, ← hnodes hkind]
    rfl
  | contentHash => exact ⟨rfl, hstrategy.trans hkind, fun h => by cases h⟩

theorem strategy_edgeId (ids : IdGenerator) (t : EdgeType) (a b : String) :
    (ids.edgeId t a b).2.strategy = ids.strategy ∧ (ids.edgeId t a b).2.nodes = ids.nodes := by
  unfold IdGenerator.edgeId
  split <;> exact ⟨rfl, rfl⟩

/-- Identifiers are made for entries in turn. -/
theorem map_id_given (root : String) (start : IdGenerator) (l : List (Entry × NodeMetadata)) :
    let q := l.foldl (give root) ({}, start)
    (q.1.nodes.reverse.map (·.id)) = (l.map Prod.fst).mapIdx (idAt root start) ∧
      q.2.strategy = start.strategy ∧
      (start.strategy = .sequential → q.2.nodes = start.nodes + UInt64.ofNat l.length) := by
  induction l using List.reverseRecOn with
  | nil => exact ⟨rfl, rfl, fun _ => by simp⟩
  | append_singleton l x ih =>
    obtain ⟨hids, hstrategy, hnodes⟩ := ih
    simp only [List.foldl_append, List.foldl_cons, List.foldl_nil]
    generalize l.foldl (give root) ({}, start) = q at hids hstrategy hnodes ⊢
    obtain ⟨hid, hstrategy', hnodes'⟩ := madeId_eq root x.1 hstrategy hnodes
    rw [List.map_append, List.map_singleton, List.mapIdx_concat, ← hids, List.length_map,
      List.length_append, List.length_singleton, ← hid]
    unfold give
    rcases hparent : (parentOf? x.1).bind q.1.ids.get? with _ | parent
    · rw [placed_alone hparent]
      exact ⟨by simp [nodeOf], hstrategy', hnodes'⟩
    · rw [placed_inside hparent]
      obtain ⟨hsame, hsame'⟩ := strategy_edgeId (madeId root q.2 x.1).2 .contains parent
        (madeId root q.2 x.1).1
      refine ⟨by simp [nodeOf], hsame.trans hstrategy', fun hkind => hsame'.trans (hnodes' hkind)⟩

/-- What has been given for the entries of a walk up to some point. -/
structure Given (es : List Entry) (p : Progress) : Prop where
  tree : (outputOf p).IsRootedTree
  filed : ∀ n ∈ p.nodes, ∀ path, n.metadata.filePath = some path → p.ids.get? path = some n.id
  given : ∀ e ∈ es, ∃ n ∈ p.nodes, n.metadata.filePath = some e.relative ∧ n.type = typeOf e
  come : ∀ n ∈ p.nodes, ∃ e ∈ es, n.metadata.filePath = some e.relative

/-- The root is given first. -/
theorem given_root {path : String} (hmetadata : metadata.filePath = some ".") :
    Given [⟨".", path, true⟩] (placed root {} ⟨".", path, true⟩ metadata ids).1 := by
  rw [placed_alone rfl]
  refine ⟨.single hmetadata, ?_, ?_, ?_⟩
  · intro n hn path' hpath'
    obtain rfl := List.mem_singleton.1 hn
    obtain rfl := Option.some.inj (hmetadata.symm.trans hpath')
    exact NameMap.get?_insert_self ..
  · intro e he
    obtain rfl := List.mem_singleton.1 he
    exact ⟨_, List.mem_singleton_self _, hmetadata, rfl⟩
  · intro n hn
    obtain rfl := List.mem_singleton.1 hn
    exact ⟨_, List.mem_singleton_self _, hmetadata⟩

/-- What is in a directory is given after the directory. -/
theorem Given.into {es : List Entry} {names : List String} {n path path' : String}
    {isDirectory : Bool} (h : Given es p) (hdirectory : ⟨relativeOf names, path, true⟩ ∈ es)
    (hplain : ∀ m ∈ names ++ [n], IsPlain m)
    (hnew : ∀ e ∈ es, e.relative ≠ relativeOf (names ++ [n]))
    (hmetadata : metadata.filePath = some (relativeOf (names ++ [n])))
    (hid : ∀ m ∈ p.nodes,
      m.id ≠ (madeId root ids ⟨relativeOf (names ++ [n]), path', isDirectory⟩).1) :
    Given (es ++ [⟨relativeOf (names ++ [n]), path', isDirectory⟩])
      (placed root p ⟨relativeOf (names ++ [n]), path', isDirectory⟩ metadata ids).1 := by
  obtain ⟨d, hd, hpath, htype⟩ := h.given _ hdirectory
  have hparent : (parentOf? ⟨relativeOf (names ++ [n]), path', isDirectory⟩).bind p.ids.get? =
      some d.id := by
    rw [parentOf?_relativeOf hplain]
    exact h.filed d hd _ hpath
  have hfresh : ∀ m ∈ p.nodes, m.metadata.filePath ≠ some (relativeOf (names ++ [n])) := by
    intro m hm heq
    obtain ⟨e, he, hrelative⟩ := h.come m hm
    exact hnew e he (Option.some.inj (hrelative.symm.trans heq))
  rw [placed_inside hparent]
  refine ⟨?_, ?_, ?_, ?_⟩
  · simp only [outputOf, List.reverse_cons]
    have hreverse : ∀ {m : Node}, m ∈ (outputOf p).nodes → m ∈ p.nodes := List.mem_reverse.1
    exact h.tree.grow hplain (List.mem_reverse.2 hd) htype hpath hmetadata
      (fun m hm => by rw [nodeOf, hmetadata]; exact hfresh m (hreverse hm))
      (fun m hm => hid m (hreverse hm)) rfl rfl rfl
  · intro m hm path'' hpath''
    rcases List.mem_cons.1 hm with rfl | hm
    · obtain rfl := Option.some.inj (hmetadata.symm.trans hpath'')
      exact NameMap.get?_insert_self ..
    · refine (NameMap.get?_insert_of_ne _ _ fun heq => hfresh m hm ?_).trans (h.filed m hm _ hpath'')
      rw [hpath'', heq]
  · intro e he
    rcases List.mem_append.1 he with he | he
    · obtain ⟨m, hm, hm'⟩ := h.given e he
      exact ⟨m, List.mem_cons_of_mem _ hm, hm'⟩
    · obtain rfl := List.mem_singleton.1 he
      exact ⟨_, List.mem_cons_self, hmetadata, rfl⟩
  · intro m hm
    rcases List.mem_cons.1 hm with rfl | hm
    · exact ⟨_, List.mem_append_right _ (List.mem_singleton_self _), hmetadata⟩
    · obtain ⟨e, he, hrelative⟩ := h.come m hm
      exact ⟨e, List.mem_append_left _ he, hrelative⟩

/-- What is given for a walk is a tree if the identifiers are different. -/
theorem given_of_walked {w : Walk} {es : List Entry} (hwalk : Walked w root es)
    {l : List (Entry × NodeMetadata)} (hl : l.map Prod.fst = es)
    (hpaths : ∀ x ∈ l, x.2.filePath = some x.1.relative)
    (hids : ((l.foldl (give root) ({}, start)).1.nodes.map (·.id)).Nodup) :
    Given es (l.foldl (give root) ({}, start)).1 := by
  induction hwalk generalizing l with
  | root =>
    obtain ⟨x, rfl, hx⟩ := List.map_eq_singleton_iff.1 hl
    obtain ⟨e, metadata⟩ := x
    obtain rfl : e = _ := hx
    exact given_root (hpaths _ (List.mem_singleton_self _))
  | @into es names n path path' isDirectory _ directory plain new _ ih =>
    obtain ⟨l, tail, rfl, hfront, htail⟩ := List.map_eq_append_iff.1 hl
    obtain ⟨⟨e, metadata⟩, rfl, hx⟩ := List.map_eq_singleton_iff.1 htail
    obtain rfl : e = _ := hx
    obtain ⟨hpaths, hpath⟩ := List.forall_mem_append.1 hpaths
    have hmetadata := hpath _ (List.mem_singleton_self _)
    simp only [List.foldl_append, List.foldl_cons, List.foldl_nil] at hids ⊢
    rw [nodes_give, List.map_cons, List.nodup_cons] at hids
    obtain ⟨hnotmem, hids⟩ := hids
    refine (ih hfront hpaths hids).into directory plain new hmetadata ?_
    intro m hm heq
    exact hnotmem (List.mem_map.2 ⟨m, hm, heq⟩)

/-! ## Parsing -/

theorem run_onFiles {α : Type} (op : FileM α) (s : Session) : (PhaseM.onFiles op).run.run s =
    (.ok (op.run s.drive).1, { s with drive := (op.run s.drive).2 }) := rfl

/-- A program of a phase makes no identifiers, and nothing but a cache lets it break off. -/
def Keeps {α : Type} (P : α → Prop) (s : Session) (x : PhaseM α) : Prop :=
  (∃ a t, x.run.run s = (.ok a, t) ∧ P a ∧ t.ids = s.ids ∧ (s.facts = none → t.facts = none)) ∨
    s.facts ≠ none ∧ ∃ text t, x.run.run s = (.error (.brokeOff text), t)

namespace Keeps

variable {α β : Type} {P : α → Prop} {Q : β → Prop}

theorem pure {a : α} (h : P a) : Keeps P s (Pure.pure a) :=
  .inl ⟨a, s, rfl, h, rfl, id⟩

theorem onFiles (op : FileM α) : Keeps (fun _ => True) s (PhaseM.onFiles op) :=
  .inl ⟨_, _, run_onFiles op s, trivial, rfl, id⟩

theorem bind {x : PhaseM α} {f : α → PhaseM β} (h : Keeps P s x)
    (hf : ∀ a t, P a → (s.facts = none → t.facts = none) → Keeps Q t (f a)) :
    Keeps Q s (x >>= f) := by
  rcases h with ⟨a, t, hrun, ha, hids, hnone⟩ | ⟨hcache, text, t, hrun⟩
  · rcases hf a t ha hnone with ⟨b, u, hrun', hb, hids', hnone'⟩ | ⟨hcache, text, u, hrun'⟩
    · exact .inl ⟨b, u, by rw [run_bind_ok hrun, hrun'], hb, hids'.trans hids, hnone' ∘ hnone⟩
    · exact .inr ⟨mt hnone hcache, text, u, by rw [run_bind_ok hrun, hrun']⟩
  · exact .inr ⟨hcache, text, t, run_bind_error hrun⟩

theorem get_bind {f : Session → PhaseM β} (h : Keeps Q s (f s)) : Keeps Q s (get >>= f) := by
  unfold Keeps
  rw [run_bind_ok (run_get s)]
  exact h

end Keeps

theorem keeps_keptFacts (e : Entry) (content : ByteArray) {cache : Cache.LayeredCache FileFacts}
    (h : s.facts ≠ none) : Keeps (fun _ => True) s (keptFacts e content cache) := by
  refine .get_bind ?_
  simp only
  generalize StateT.run (ExceptT.run _) _ = answer
  obtain ⟨f | facts, after⟩ := answer
  · exact .inr ⟨h, _, _, rfl⟩
  · exact .inl ⟨facts, _, rfl, trivial, rfl, fun hnone => absurd hnone h⟩

theorem keeps_factsOf (settings : Settings) (e : Entry) (s : Session) :
    Keeps (fun _ => True) s (factsOf settings e) := by
  have hnothing : ∀ t, Keeps (fun _ => True) t (pure none : PhaseM (Option FileFacts)) :=
    fun _ => .pure trivial
  refine (Keeps.onFiles _).bind fun item t _ _ => ?_
  rcases item with error | item
  · exact hnothing t
  simp only
  cases settings.takes item.size with
  | false => exact hnothing t
  | true =>
    refine (Keeps.onFiles _).bind fun content t _ _ => ?_
    rcases content with error | content
    · exact hnothing t
    refine .get_bind ?_
    rcases hcache : t.facts with _ | cache
    · exact .pure trivial
    · exact (keeps_keptFacts e content (by simp [hcache])).bind fun facts u _ _ => .pure trivial

/-- The metadata of an entry has the path of the entry. -/
theorem keeps_metadataOf (settings : Settings) (e : Entry) (s : Session) :
    Keeps (fun m => m.filePath = some e.relative) s (metadataOf settings e) := by
  unfold metadataOf
  simp only
  cases e.isDirectory with
  | true => exact .pure rfl
  | false =>
    refine (keeps_factsOf settings e s).bind fun facts t _ _ => ?_
    cases facts <;> exact .pure rfl

theorem Meanwhile.ids_eq (h : Meanwhile s t) :
    t.ids = s.ids ∧ (s.facts = none → t.facts = none) := by
  cases h with
  | write hcache _ => exact ⟨rfl, fun hnone => by simp [hcache] at hnone⟩
  | lose hcache _ _ => exact ⟨rfl, fun hnone => by simp [hcache] at hnone⟩
  | tick _ => exact ⟨rfl, id⟩

theorem ids_eq_of_passes {es : List Entry} (h : Relation.ReflTransGen (Passes es) s t) :
    t.ids = s.ids ∧ (s.facts = none → t.facts = none) := by
  induction h with
  | refl => exact ⟨rfl, id⟩
  | tail _ hstep ih =>
    obtain ⟨hids, hnone⟩ := hstep.1.ids_eq
    exact ⟨hids.trans ih.1, hnone ∘ ih.2⟩

/-- Entries are given with metadata that has their paths. -/
theorem Adds.exists_give {es : List Entry} {r : Except PhaseFailure Progress}
    (h : Adds settings root es p s r t) :
    (∃ l : List (Entry × NodeMetadata), l.map Prod.fst = es ∧
        (∀ x ∈ l, x.2.filePath = some x.1.relative) ∧
        r = .ok (l.foldl (give root) (p, s.ids)).1) ∨
      s.facts ≠ none ∧ ∃ text, r = .error (.brokeOff text) := by
  induction h with
  | done => exact .inl ⟨[], rfl, by simp, rfl⟩
  | @step e es p p' s s₁ s₂ s' r hpasses hadd _ ih =>
    obtain ⟨hids, hnone⟩ := ids_eq_of_passes hpasses
    rcases keeps_metadataOf settings e s₁ with
      ⟨metadata, u, hrun, hpath, hsame, hnone'⟩ | ⟨-, text, u, hrun⟩
    · have hgiven := (run_add root p hrun).symm.trans hadd
      obtain ⟨hp', rfl⟩ := Prod.mk.inj hgiven
      obtain rfl := Except.ok.inj hp'
      rcases ih with ⟨l, hl, hpaths, hr⟩ | ⟨hcache, hbroken⟩
      · refine .inl ⟨(e, metadata) :: l, by rw [List.map_cons, hl],
          List.forall_mem_cons.2 ⟨hpath, hpaths⟩, ?_⟩
        rw [hr, List.foldl_cons, give, ← hids, ← hsame]
      · exact .inr ⟨mt (hnone' ∘ hnone) hcache, hbroken⟩
    · rw [add] at hadd
      simp only at hadd
      rw [run_bind_error hrun] at hadd
      cases hadd
  | @fail e es p s s₁ s₂ f hpasses hadd =>
    obtain ⟨hids, hnone⟩ := ids_eq_of_passes hpasses
    rcases keeps_metadataOf settings e s₁ with
      ⟨metadata, u, hrun, -⟩ | ⟨hcache, text, u, hrun⟩
    · cases (run_add root p hrun).symm.trans hadd
    · rw [add] at hadd
      simp only at hadd
      rw [run_bind_error hrun] at hadd
      cases hadd
      exact .inr ⟨mt hnone hcache, text, rfl⟩

theorem kept_of_not_isExcluded {w : Walk} {names : List String} (h : w.isExcluded names = false) :
    names.head? ≠ some dataDirectory ∧
      ∀ g ∈ w.exclude, g.isMatch (Path.ofParts false names) = false := by
  rw [Walk.isExcluded, Bool.or_eq_false_iff, List.any_eq_false] at h
  refine ⟨by simpa using h.1, ?_⟩
  intro g hg
  simpa using h.2 g hg

/-- A node of a walk stands at no path that is left out, nor below one. -/
theorem Given.kept_of_standsAt {w : Walk} {es : List Entry} (h : Given es p)
    (hwalk : Walked w root es) {n : Node} (hn : n ∈ p.nodes) {names above : List String}
    (hplain : ∀ m ∈ names, IsPlain m) (hstands : n.StandsAt names) (habove : above <+: names)
    (hne : above ≠ []) :
    above.head? ≠ some dataDirectory ∧
      ∀ g ∈ w.exclude, g.isMatch (Path.ofParts false above) = false := by
  obtain ⟨e, he, hpath⟩ := h.come n hn
  obtain ⟨names', hplain', hrelative, hkept⟩ := hwalk.kept_of_mem he
  obtain rfl : names = names' := by
    apply relativeOf_inj hplain hplain'
    rw [← hrelative]
    exact Option.some.inj (hstands.symm.trans hpath)
  exact kept_of_not_isExcluded (hkept above habove hne)

/-- A parse answers what has been given for the entries of its walk, or it breaks off in a cache. -/
theorem run_parse {c : ParseContext} {s : Session} {settings : Settings} {exclude : List Glob}
    (hsettings : readSettings c.settings = .ok (settings, exclude)) :
    (∃ (l : List (Entry × NodeMetadata)) (t : Session),
        l.map Prod.fst = (walkOf s settings exclude).entries c.root ∧
        (∀ x ∈ l, x.2.filePath = some x.1.relative) ∧
        (parse c).run.run s = (.ok (outputOf (l.foldl (give c.root) ({}, s.ids)).1), t)) ∨
      s.facts ≠ none ∧ ∃ text t, (parse c).run.run s = (.error (.brokeOff text), t) := by
  have hparses := parses_run c s
  generalize (parse c).run.run s = outcome at hparses
  obtain ⟨r, t⟩ := outcome
  cases hparses with
  | refused hrefused => cases hsettings.symm.trans hrefused
  | walked hsettings' hadds =>
    obtain ⟨rfl, rfl⟩ := Prod.mk.inj (Except.ok.inj (hsettings.symm.trans hsettings'))
    rcases hadds.exists_give with ⟨l, hl, hpaths, rfl⟩ | ⟨hcache, text, rfl⟩
    · exact .inl ⟨l, t, hl, hpaths, rfl⟩
    · exact .inr ⟨hcache, text, t, rfl⟩

/-- **What a parse gives is a rooted tree**, in which nothing appears at or below the directory of
this program's data or a path that a glob matches, if the root is a directory itself, not a link to
one, and no lone dash. A parse can break off only in a cache. -/
theorem parse_gives_tree {c : ParseContext} {s : Session} {settings : Settings}
    {exclude : List Glob} (hsettings : readSettings c.settings = .ok (settings, exclude))
    (hnames : s.drive.volume.PlainNames)
    (hroot : s.drive.volume.linkMetadata c.root = .ok .directory) (hdash : c.root ≠ "-")
    (hids : IdsApart c.root s.ids ((walkOf s settings exclude).entries c.root)) :
    (∃ o t, (parse c).run.run s = (.ok o, t) ∧ o.IsRootedTree ∧
      ∀ n ∈ o.nodes, ∀ names, (∀ m ∈ names, IsPlain m) → n.StandsAt names →
        ∀ above, above <+: names → above ≠ [] → above.head? ≠ some dataDirectory ∧
          ∀ g ∈ exclude, g.isMatch (Path.ofParts false above) = false) ∨
      s.facts ≠ none ∧ ∃ text t, (parse c).run.run s = (.error (.brokeOff text), t) := by
  have hwalk := walked_entries (w := walkOf s settings exclude) hnames hroot hdash
  rcases run_parse hsettings with ⟨l, t, hl, hpaths, hrun⟩ | hbroken
  · left
    obtain ⟨hmade, -⟩ := map_id_given c.root s.ids l
    have hends : ∀ e ∈ (walkOf s settings exclude).entries c.root,
        '\x00' ∉ e.relative.toList := by
      intro e he
      obtain ⟨names, hplain, hrelative, -⟩ := hwalk.kept_of_mem he
      rw [hrelative]
      exact unended_relativeOf hplain
    have hgiven : Given ((walkOf s settings exclude).entries c.root)
        (l.foldl (give c.root) ({}, s.ids)).1 := by
      apply given_of_walked hwalk hl hpaths
      rw [← List.nodup_reverse, ← List.map_reverse, hmade, hl]
      exact nodup_idAt hids hwalk.nodup_relative hends
    refine ⟨_, _, hrun, hgiven.tree, ?_⟩
    intro n hn names hplain hstands above habove hne
    exact hgiven.kept_of_standsAt hwalk (List.mem_reverse.1 hn) hplain hstands habove hne
  · exact .inr hbroken

/-- The project with a glob for what is left out. -/
def globContext : ParseContext :=
  ⟨"src", .object [("exclude", .array [.string "*.tmp"])]⟩

/-- The start of a parse whose identifiers are digests. -/
def digestStart : Session :=
  { projectStart with ids := { strategy := .contentHash } }

/-- A parse of a directory with a file. -/
theorem parse_gives_tree_src :
    ∃ settings exclude o t, exclude ≠ [] ∧
      readSettings globContext.settings = .ok (settings, exclude) ∧
      (parse globContext).run.run digestStart = (.ok o, t) ∧ o.IsRootedTree := by
  obtain ⟨settings, glob, hsettings⟩ : ∃ settings glob,
      readSettings globContext.settings = .ok (settings, [glob]) := ⟨_, _, rfl⟩
  have hlead := leadsTo_project projectBefore (n := "src") (by simp)
  have hlink : digestStart.drive.volume.linkMetadata "src" = .ok .directory := by
    rw [Volume.linkMetadata, digestStart, projectStart, find_project hlead]
    rfl
  have hdiffer : IdGenerator.hashed "node" (partsOf "src" ⟨".", "src", true⟩) ≠
      IdGenerator.hashed "node" (partsOf "src" ⟨"a.rs", "src/a.rs", false⟩) := by decide +kernel
  have hids : IdsApart "src" digestStart.ids
      ((walkOf digestStart settings [glob]).entries "src") := by
    intro a ha b hb hsame
    have ha := entries_project hlead (by decide) _ _ _ ha
    have hb := entries_project hlead (by decide) _ _ _ hb
    simp only [List.mem_cons, List.not_mem_nil, or_false] at ha hb
    rcases ha with rfl | rfl <;> rcases hb with rfl | rfl
    · rfl
    · exact absurd hsame hdiffer
    · exact absurd hsame.symm hdiffer
    · rfl
  rcases parse_gives_tree (s := digestStart) hsettings (plainNames_project _) hlink (by decide) hids with
    ⟨o, t, hrun, htree, -⟩ | ⟨hcache, -⟩
  · exact ⟨settings, [glob], o, t, by simp, hsettings, hrun, htree⟩
  · exact absurd rfl hcache

/-! ### Roots that are no entries -/

/-- **A root that is a link to a directory is no node, nor is a lone dash**: what is given stands below
the root, at no path that is left out. -/
theorem parse_rootless {c : ParseContext} {s t : Session} {settings : Settings}
    {exclude : List Glob} {o : ExtensionOutput}
    (hsettings : readSettings c.settings = .ok (settings, exclude))
    (hnames : s.drive.volume.PlainNames)
    (hroot : c.root = "-" ∨ ∃ target real,
      s.drive.volume.linkMetadata c.root = .ok (.link target) ∧
        s.drive.volume.find true c.root = .ok (real, .directory))
    (hrun : (parse c).run.run s = (.ok o, t)) :
    ∀ n ∈ o.nodes, ∃ names, names ≠ [] ∧ (∀ m ∈ names, IsPlain m) ∧ n.StandsAt names ∧
      ∀ above, above <+: names → above ≠ [] → above.head? ≠ some dataDirectory ∧
        ∀ g ∈ exclude, g.isMatch (Path.ofParts false above) = false := by
  intro n hn
  obtain ⟨l, t', hl, hpaths, hrun'⟩ := (run_parse hsettings).resolve_right <| by
    rintro ⟨-, text, t', hbroken⟩
    cases hrun.symm.trans hbroken
  cases hrun.symm.trans hrun'
  obtain ⟨x, hx, hmetadata⟩ := exists_of_mem_nodes (List.mem_reverse.1 hn)
  have hmem : x.1 ∈ (walkOf s settings exclude).entries c.root := hl ▸ List.mem_map_of_mem hx
  by_cases hdash : c.root = "-"
  · rw [Walk.entries, if_pos hdash] at hmem
    cases hmem
  obtain ⟨target, real, hlink, hfind⟩ := hroot.resolve_left hdash
  have hwalk := walked_entries_of_link (w := walkOf s settings exclude) hnames hlink hfind hdash
  obtain ⟨names, hplain, hrelative, hkept⟩ := hwalk.kept_of_mem (List.mem_cons_of_mem _ hmem)
  refine ⟨names, ?_, hplain, ?_, fun above habove hne =>
    kept_of_not_isExcluded (hkept above habove hne)⟩
  -- The path of the root is not come to again.
  · rintro rfl
    exact (List.nodup_cons.1 hwalk.nodup_relative).1 (List.mem_map.2 ⟨_, hmem, hrelative⟩)
  · rw [Node.StandsAt, hmetadata, hpaths x hx, hrelative]

/-- A directory with a file, a directory that is named by a dash, and a link to the first one. -/
def linkedVolume : Volume :=
  ⟨[(["src"], .directory), (["src", "a.rs"], .file projectBefore), (["-"], .directory),
    (["ln"], .link "src")], []⟩

def linkedStart : Session :=
  { ids := default, drive := ⟨linkedVolume, []⟩ }

theorem plainNames_linkedVolume : linkedVolume.PlainNames := by
  have hplain : ∀ names ∈ linkedVolume.entries.map Prod.fst, ∀ n ∈ names, IsPlain n := by decide
  intro q n hi
  obtain ⟨i, hi⟩ := Option.isSome_iff_exists.1 hi
  have hmem := Volume.mem_entries_of_item? (by simp) hi
  exact hplain _ (List.mem_map_of_mem hmem) n (by simp)

/-- The link leads to the directory, and the dash to the other one. -/
theorem find_linkedVolume :
    linkedVolume.find false "ln" = .ok (["ln"], .link "src") ∧
      linkedVolume.find true "ln" = .ok (["src"], .directory) ∧
      linkedVolume.find true "-" = .ok (["-"], .directory) := by
  obtain ⟨hstays, hfollowed⟩ :=
    Volume.resolve_name_link (v := linkedVolume) (n := "ln") rfl (by decide) rfl
  have hplain : IsPlain "src" := by decide
  have hsrc : linkedVolume.walk true 39 [] (Path.split "src") = .ok (["src"], some .directory) := by
    rw [Path.split_unslashed hplain.unslashed, Volume.walk_cons_directory rfl hplain.toIsName rfl,
      Volume.walk]
    rfl
  have hdash := Volume.leadsTo_name (v := linkedVolume) (n := "-") rfl (by decide) rfl
  refine ⟨?_, ?_, ?_⟩
  · rw [Volume.find, hstays]
    rfl
  · rw [Volume.find, hfollowed, hsrc]
    rfl
  · rw [Volume.find, hdash]
    rfl

theorem exists_rootless {root : String} (hroot : root = "-" ∨ ∃ target real,
      linkedVolume.linkMetadata root = .ok (.link target) ∧
        linkedVolume.find true root = .ok (real, .directory)) :
    ∃ o t, (parse ⟨root, .null⟩).run.run linkedStart = (.ok o, t) ∧ ¬ o.IsRootedTree := by
  have hsettings : readSettings .null = .ok ({}, []) := rfl
  rcases run_parse (c := ⟨root, .null⟩) (s := linkedStart) hsettings with
    ⟨l, t, -, -, hrun⟩ | ⟨hcache, -⟩
  · refine ⟨_, t, hrun, fun htree => ?_⟩
    obtain ⟨top, htop, hstands⟩ := htree.root
    obtain ⟨names, hne, hplain, hstands', -⟩ :=
      parse_rootless hsettings plainNames_linkedVolume hroot hrun top htop
    exact relativeOf_ne_dot hplain hne (Option.some.inj (hstands'.symm.trans hstands))
  · exact absurd rfl hcache

/-- Neither a link to a directory nor a directory that is named by a dash gives a tree. -/
theorem parse_rootless_linked :
    (linkedVolume.metadata "ln" = .ok .directory ∧
      ∃ o t, (parse ⟨"ln", .null⟩).run.run linkedStart = (.ok o, t) ∧ ¬ o.IsRootedTree) ∧
    (linkedVolume.metadata "-" = .ok .directory ∧
      ∃ o t, (parse ⟨"-", .null⟩).run.run linkedStart = (.ok o, t) ∧ ¬ o.IsRootedTree) := by
  obtain ⟨hstays, hfollowed, hdash⟩ := find_linkedVolume
  refine ⟨⟨by rw [Volume.metadata, hfollowed]; rfl, exists_rootless (.inr ⟨"src", ["src"], ?_, hfollowed⟩)⟩,
    by rw [Volume.metadata, hdash]; rfl, exists_rootless (.inl rfl)⟩
  rw [Volume.linkMetadata, hstays]
  rfl

end FileTree

end CodeGraph
