import CodeGraph.Proofs.Graph.Building
import CodeGraph.Proofs.Json.Records

/-!
# Graphs read from what was written

The types of a graph are written as values from which they are read again if what an extension
records has a name of its own, is read as itself, and if every weight is finite (`Durable`). Whatever
is read is so, which makes writing and reading stable from the first reading on (`stable_forms`).

Each type has two lemmas, one in each direction: `read_toJson` for a durable value and
`durable_of_read` for one that is read. `room` is the number of levels that may be opened inside of
what an extension records, and the levels of a type itself come on top of it.
-/

namespace CodeGraph

open Json Json.Record

variable {room : Nat}

namespace NameSet

/-- A set is what its names make. -/
theorem ofNames_names (s : NameSet) : ofNames s.names = s := by
  have hfold : ∀ (l : List (String × Unit)) (t : NameSet),
      (l.map Prod.fst).foldl add t = t.insertMany l := by
    intro l
    induction l with
    | nil => exact fun _ => rfl
    | cons e l ih => exact fun t => ih (t.insert e.1 ())
  exact (hfold s.entries .empty).trans (NameMap.insertMany_entries s)

end NameSet

/-! ## Metadata -/

theorem Provenance.written (o : Origin) (p : Provenance) :
    Written o record.fields record.start
      [("domain", .string p.domain), ("extension", .string p.extensionName),
        ("version", .string p.version), ("timestamp", .ofWord p.timestamp)] p :=
  .needed rfl (.needed rfl (.needed rfl (.needed (readWord_ofWord _ _) .nil)))

theorem Provenance.read_toJson (p : Provenance) :
    Provenance.read (.text (room + 2)) p.toJson.toOutline = .ok p :=
  read_written (by decide) rfl (p.written _)

theorem readOptional_provenance (p : Provenance) :
    readOptional Provenance.read (.text (room + 2)) p.toJson.toOutline = .ok (some p) :=
  readOptional_some p.read_toJson (by simp [Provenance.toJson, toOutline])

theorem readOptional_size (o : Origin) (n : UInt64) :
    readOptional readSize o (ofWord n).toOutline = .ok (some n) :=
  readOptional_some (readSize_ofWord o n) (by simp [ofWord, toOutline])

theorem readOptional_word (o : Origin) (n : UInt64) :
    readOptional readWord o (ofWord n).toOutline = .ok (some n) :=
  readOptional_some (readWord_ofWord o n) (by simp [ofWord, toOutline])

theorem NodeType.read_toJson (o : Origin) (t : NodeType) :
    NodeType.read o t.toJson.toOutline = .ok t := by
  have hlookup : NodeType.named.lookup t.name = some t := NodeType.ofName?_name t
  change readVariant NodeType.named o (.string t.name) = _
  rw [readVariant, chooseVariant, hlookup]

theorem EdgeType.read_toJson (o : Origin) (t : EdgeType) :
    EdgeType.read o t.toJson.toOutline = .ok t := by
  have hlookup : EdgeType.named.lookup t.name = some t := EdgeType.ofName?_name t
  change readVariant EdgeType.named o (.string t.name) = _
  rw [readVariant, chooseVariant, hlookup]

namespace NodeMetadata

/-- The members that are no typed fields have other names and are read as themselves. -/
def Durable (room : Nat) (m : NodeMetadata) : Prop :=
  record.Apart (.text (room + 1)) m.extra.entries

theorem typedMembers_eq (m : NodeMetadata) : m.typedMembers =
    (m.filePath.toList.map fun s => ("file_path", Json.string s)) ++
      ((m.startLine.toList.map fun n => ("start_line", Json.ofWord n)) ++
        ((m.endLine.toList.map fun n => ("end_line", Json.ofWord n)) ++
          ((m.size.toList.map fun n => ("size", Json.ofWord n)) ++
            ((m.language.toList.map fun s => ("language", Json.string s)) ++
              ((m.isExported.toList.map fun b => ("is_exported", Json.bool b)) ++ []))))) := by
  have hmember : ∀ {β : Type} (name : String) (x : Option β) (enc : β → Json),
      ((x.map enc).toList.map fun v => (name, v)) = x.toList.map fun b => (name, enc b) := by
    intro β name x enc
    cases x <;> rfl
  rw [← hmember "file_path", ← hmember "start_line", ← hmember "end_line", ← hmember "size",
    ← hmember "language", ← hmember "is_exported", List.append_nil]
  simp only [← List.append_assoc]
  rfl

theorem written_typedMembers (o : Origin) (m : NodeMetadata) :
    Written o record.fields record.start m.typedMembers { m with extra := .empty } := by
  rw [typedMembers_eq]
  exact .optional (fun _ _ => rfl) rfl
    (.optional (fun n _ => readOptional_size o n) rfl
    (.optional (fun n _ => readOptional_size o n) rfl
    (.optional (fun n _ => readOptional_word o n) rfl
    (.optional (fun _ _ => rfl) rfl
    (.optional (fun _ _ => rfl) rfl .nil)))))

theorem foldl_withExtra (m : NodeMetadata) (l : List (String × Json)) :
    l.foldl (fun m e => m.withExtra e.1 e.2) m = { m with extra := m.extra.insertMany l } := by
  induction l generalizing m with
  | nil => rfl
  | cons e l ih => exact ih (m.withExtra e.1 e.2)

theorem read_toJson {m : NodeMetadata} (hm : m.Durable room) :
    NodeMetadata.read (.text (room + 2)) m.toJson.toOutline = .ok m := by
  have hread := readOpen_written (fun k v m => m.withExtra k v) (by decide)
    (o := .text (room + 2)) rfl (written_typedMembers _ m) hm m.extra.nodup_names
  rw [foldl_withExtra, NameMap.insertMany_entries] at hread
  exact hread

theorem durable_of_read {w : Outline} (hw : w.IsFinite) {m : NodeMetadata}
    (h : NodeMetadata.read (.text (room + 2)) w = .ok m) : m.Durable room := by
  refine readOpen_induction (P := Durable room) (o := .text (room + 2)) rfl ?_ ?_ ?_ hw h
  · intro e he
    cases he
  · simp only [record, List.forall_mem_cons]
    refine ⟨?_, ?_, ?_, ?_, ?_, ?_, by simp⟩
    all_goals exact Field.keeps_defaulted fun _ _ _ _ _ hm => hm
  · intro k v m hk hv hm e he
    rcases NameMap.mem_entries_insert he with rfl | he
    · exact ⟨hk, hv⟩
    · exact hm e he

end NodeMetadata

namespace EdgeMetadata

/-- The weight has a text, and the members that are no typed fields have other names and are read as
themselves. -/
structure Durable (room : Nat) (m : EdgeMetadata) : Prop where
  weight : m.weight.isFinite = true
  extra : record.Apart (.text (room + 1)) m.extra.entries

theorem foldl_withExtra (m : EdgeMetadata) (l : List (String × Json)) :
    l.foldl (fun m e => m.withExtra e.1 e.2) m = { m with extra := m.extra.insertMany l } := by
  induction l generalizing m with
  | nil => rfl
  | cons e l ih => exact ih (m.withExtra e.1 e.2)

theorem readDouble_ofDouble (o : Origin) {x : Float} (hx : x.isFinite = true) :
    readDouble o (ofDouble x).toOutline = .ok x := by
  rw [ofDouble, if_pos hx]
  rfl

theorem read_toJson {m : EdgeMetadata} (hm : m.Durable room) :
    EdgeMetadata.read (.text (room + 2)) m.toJson.toOutline = .ok m := by
  have hwritten : Written (.text (room + 1)) record.fields record.start
      (("weight", .ofDouble m.weight) :: ((m.line.toList.map fun n => ("line", Json.ofWord n)) ++ []))
      { m with extra := .empty } :=
    .defaulted (readDouble_ofDouble _ hm.weight)
      (.optional (fun n _ => readOptional_size _ n) rfl .nil)
  have hread := readOpen_written (fun k v m => m.withExtra k v) (by decide)
    (o := .text (room + 2)) rfl hwritten hm.extra m.extra.nodup_names
  rw [foldl_withExtra, NameMap.insertMany_entries, List.append_nil] at hread
  exact hread

theorem isFinite_of_readDouble {o : Origin} {w : Outline} (hw : w.IsFinite) {x : Float}
    (h : readDouble o w = .ok x) : x.isFinite = true := by
  cases w with
  | number n =>
    cases n with
    | int i =>
      cases h
      exact isFinite_ofInt i
    | double y =>
      cases h
      exact hw
  | _ => exact absurd h (unexpected_ne_ok _ _ _)

theorem durable_of_read {w : Outline} (hw : w.IsFinite) {m : EdgeMetadata}
    (h : EdgeMetadata.read (.text (room + 2)) w = .ok m) : m.Durable room := by
  refine readOpen_induction (P := Durable room) (o := .text (room + 2)) rfl ?_ ?_ ?_ hw h
  · exact ⟨by decide, fun e he => nomatch he⟩
  · simp only [record, List.forall_mem_cons]
    refine ⟨?_, ?_, by simp⟩
    · exact Field.keeps_defaulted fun _ _ _ hv hx hm => ⟨isFinite_of_readDouble hv hx, hm.extra⟩
    · exact Field.keeps_defaulted fun _ _ _ _ _ hm => ⟨hm.weight, hm.extra⟩
  · intro k v m hk hv hm
    refine ⟨hm.weight, fun e he => ?_⟩
    rcases NameMap.mem_entries_insert he with rfl | he
    · exact ⟨hk, hv⟩
    · exact hm.extra e he

end EdgeMetadata

/-! ## Nodes and edges -/

namespace Node

def Durable (room : Nat) (n : Node) : Prop :=
  n.metadata.Durable room

/-- The members of a node, given those of its metadata and of a provenance. -/
def members (metadata : Json) (source : Provenance → Json) (n : Node) : List (String × Json) :=
  [("id", .string n.id), ("type", n.type.toJson), ("name", .string n.name), ("metadata", metadata)] ++
    (if n.labels.isEmpty then [] else [("labels", .ofStrings n.labels.names)]) ++
    (n.provenance.toList.map fun p => ("source", source p))

theorem written_members {o o' : Origin} (ho : o.enter = .ok o') {metadata : Json}
    {source : Provenance → Json} {n : Node}
    (hmetadata : NodeMetadata.read o metadata.toOutline = .ok n.metadata)
    (hsource : ∀ p, readOptional Provenance.read o (source p).toOutline = .ok (some p)) :
    Written o record.fields record.start (n.members metadata source) n := by
  have hlabels : n.labels.isEmpty = true → n.labels = .empty := fun h =>
    NameMap.ext_entries (List.isEmpty_iff.1 h)
  have hset : NameSet.ofNames n.labels.names = n.labels := NameSet.ofNames_names _
  have hwritten : Written o record.fields record.start
      (("id", .string n.id) :: ("type", n.type.toJson) :: ("name", .string n.name) ::
        ("metadata", metadata) ::
        ((if n.labels.isEmpty then [] else [("labels", Json.ofStrings n.labels.names)]) ++
        ((n.provenance.toList.map fun p => ("source", source p)) ++ []))) n := by
    refine .needed rfl (.needed (n.type.read_toJson _) (.needed rfl
      (.defaulted hmetadata
        (.unless (x := n.labels.names) (fun _ => readList_ofStrings ho _) ?_
          (.optional (fun p _ => hsource p) rfl ?_)))))
    · intro h
      rw [hset, hlabels h]
      rfl
    · rw [hset]
      exact .nil
  rw [List.append_nil] at hwritten
  rw [members, List.append_assoc]
  exact hwritten

theorem read_toJson {n : Node} (hn : n.Durable room) :
    Node.read (.text (room + 3)) n.toJson.toOutline = .ok n :=
  read_written (by decide) rfl
    (written_members rfl (NodeMetadata.read_toJson hn) readOptional_provenance)

theorem durable_of_read {w : Outline} (hw : w.IsFinite) {n : Node}
    (h : Node.read (.text (room + 3)) w = .ok n) : n.Durable room := by
  refine read_induction (P := Durable room) (o := .text (room + 3)) rfl ?_ ?_ hw h
  · exact fun e he => nomatch he
  · simp only [record, List.forall_mem_cons]
    refine ⟨?_, ?_, ?_, ?_, ?_, ?_, by simp⟩
    case refine_4 =>
      exact Field.keeps_defaulted fun _ _ _ hv hx _ => NodeMetadata.durable_of_read hv hx
    case refine_5 | refine_6 => exact Field.keeps_defaulted fun _ _ _ _ _ hn => hn
    all_goals exact Field.keeps_needed fun _ _ _ _ _ hn => hn

end Node

namespace Edge

def Durable (room : Nat) (e : Edge) : Prop :=
  e.metadata.Durable room

theorem read_toJson {e : Edge} (he : e.Durable room) :
    Edge.read (.text (room + 3)) e.toJson.toOutline = .ok e := by
  have hwritten : Written (.text (room + 2)) record.fields record.start
      (("id", .string e.id) :: ("type", e.type.toJson) :: ("from", .string e.source) ::
        ("to", .string e.target) :: ("metadata", e.metadata.toJson) ::
        ((e.provenance.toList.map fun p => ("source", p.toJson)) ++ [])) e :=
    .needed rfl (.needed (e.type.read_toJson _) (.needed rfl (.needed rfl
      (.defaulted (EdgeMetadata.read_toJson he)
        (.optional (fun p _ => readOptional_provenance p) rfl .nil)))))
  have hread := read_written (by decide) (o := .text (room + 3)) rfl hwritten
  rw [List.append_nil] at hread
  exact hread

theorem durable_of_read {w : Outline} (hw : w.IsFinite) {e : Edge}
    (h : Edge.read (.text (room + 3)) w = .ok e) : e.Durable room := by
  refine read_induction (P := Durable room) (o := .text (room + 3)) rfl ?_ ?_ hw h
  · exact ⟨by decide, fun e he => nomatch he⟩
  · simp only [record, List.forall_mem_cons]
    refine ⟨?_, ?_, ?_, ?_, ?_, ?_, by simp⟩
    case refine_5 =>
      exact Field.keeps_defaulted fun _ _ _ hv hx _ => EdgeMetadata.durable_of_read hv hx
    case refine_6 => exact Field.keeps_defaulted fun _ _ _ _ _ he => he
    all_goals exact Field.keeps_needed fun _ _ _ _ _ he => he

end Edge

/-! ## Graphs -/

theorem GraphMetadata.read_toJson (m : GraphMetadata) :
    GraphMetadata.read (.text (room + 3)) m.toJson.toOutline = .ok m := by
  have hwritten : Written (.text (room + 2)) record.fields record.start
      (("id", .string m.id) :: ("codebase_id", .string m.codebase) ::
        ("language", .string m.language) :: ("created_at", .ofWord m.createdAt) ::
        ((if m.extensionNames.isEmpty then [] else [("extensions", .ofStrings m.extensionNames)]) ++
          [])) m := by
    refine .needed rfl (.needed rfl (.needed rfl (.needed (readWord_ofWord _ _)
      (.unless (x := m.extensionNames) (fun _ => readList_ofStrings rfl _) ?_ .nil))))
    intro h
    rw [List.isEmpty_iff.1 h]
    rfl
  have hread := read_written (by decide) (o := .text (room + 3)) rfl hwritten
  rw [List.append_nil] at hread
  exact hread

namespace GraphDocument

structure Durable (room : Nat) (d : GraphDocument) : Prop where
  nodes : ∀ n ∈ d.nodes, n.Durable room
  edges : ∀ e ∈ d.edges, e.Durable room

theorem read_toJson {d : GraphDocument} (hd : d.Durable room) :
    GraphDocument.read (.text (room + 5)) d.toJson.toOutline = .ok d :=
  read_written (by decide) rfl
    (.needed d.metadata.read_toJson
      (.needed (readList_map rfl fun n hn => Node.read_toJson (hd.nodes n hn))
        (.needed (readList_map rfl fun e he => Edge.read_toJson (hd.edges e he)) .nil)))

theorem durable_of_read {w : Outline} (hw : w.IsFinite) {d : GraphDocument}
    (h : GraphDocument.read (.text (room + 5)) w = .ok d) : d.Durable room := by
  refine read_induction (P := Durable room) (o := .text (room + 5)) rfl ?_ ?_ hw h
  · exact ⟨fun n hn => (nomatch hn), fun e he => (nomatch he)⟩
  · simp only [record, List.forall_mem_cons]
    refine ⟨?_, ?_, ?_, by simp⟩
    · exact Field.keeps_needed fun _ _ _ _ _ hd => ⟨hd.nodes, hd.edges⟩
    · refine Field.keeps_needed fun _ _ _ hv hx hd => ⟨fun n hn => ?_, hd.edges⟩
      obtain ⟨u, hu, hread⟩ := exists_read_of_readList (o := .text (room + 4)) rfl hv hx n hn
      exact Node.durable_of_read hu hread
    · refine Field.keeps_needed fun _ _ _ hv hx hd => ⟨hd.nodes, fun e he => ?_⟩
      obtain ⟨u, hu, hread⟩ := exists_read_of_readList (o := .text (room + 4)) rfl hv hx e he
      exact Edge.durable_of_read hu hread

end GraphDocument

namespace PropertyGraph

def Durable (room : Nat) (g : PropertyGraph) : Prop :=
  g.toDocument.Durable room

theorem read_toJson {d : GraphDocument} (hg : (ofDocument d).Durable room) :
    PropertyGraph.read (.text (room + 5)) (ofDocument d).toJson.toOutline = .ok (ofDocument d) := by
  have hdocument := GraphDocument.read_toJson hg
  rw [PropertyGraph.read, PropertyGraph.toJson, hdocument, Except.map, ofDocument_toDocument]

theorem durable_of_read {w : Outline} (hw : w.IsFinite) {g : PropertyGraph}
    (h : PropertyGraph.read (.text (room + 5)) w = .ok g) :
    ∃ d, g = ofDocument d ∧ g.Durable room := by
  obtain ⟨d, hd, rfl⟩ := map_eq_ok.1 h
  have hdurable := GraphDocument.durable_of_read hw hd
  refine ⟨d, rfl, fun n hn => ?_, fun e he => ?_⟩
  · obtain ⟨entry, hentry, rfl⟩ := List.mem_map.1 hn
    exact hdurable.nodes _ (mem_nodes_ofDocument hentry).1
  · exact hdurable.edges e (edges_ofDocument d ▸ he)

end PropertyGraph

/-! ## Texts -/

/-- **Writing what was read.** The types of a graph and its parts are written as texts that are read
as what was written, whatever text they were first read from: with members in any order or items in
the place of members, nodes listed twice, fields left out or null, and members of other names. -/
theorem stable_forms : Stable PropertyGraph ∧ Stable Node ∧ Stable Edge ∧ Stable NodeMetadata ∧
    Stable EdgeMetadata ∧ Stable GraphDocument := by
  -- From its start a text leaves more room than any of the types takes up.
  refine ⟨stable_of_reread fun w g hw h => ?_, stable_of_reread fun w n hw h => ?_,
    stable_of_reread fun w e hw h => ?_, stable_of_reread fun w m hw h => ?_,
    stable_of_reread fun w m hw h => ?_, stable_of_reread fun w d hw h => ?_⟩
  · obtain ⟨d, rfl, hg⟩ := @PropertyGraph.durable_of_read 123 w hw g h
    exact PropertyGraph.read_toJson hg
  · exact Node.read_toJson (@Node.durable_of_read 125 w hw n h)
  · exact Edge.read_toJson (@Edge.durable_of_read 125 w hw e h)
  · exact NodeMetadata.read_toJson (@NodeMetadata.durable_of_read 126 w hw m h)
  · exact EdgeMetadata.read_toJson (@EdgeMetadata.durable_of_read 126 w hw m h)
  · exact GraphDocument.read_toJson (@GraphDocument.durable_of_read 123 w hw d h)

/-- A document in arrays, with a node listed twice. -/
def listedTwice : Json :=
  .array [.array [.string "g", .string "c", .string "multi", .ofNat 1],
    .array [.array [.string "n", .string "file", .string "first"],
      .object [("name", .string "last"), ("kind", .null), ("id", .string "n"),
        ("metadata", .object [("owner", .ofNat 7), ("size", .null)]), ("type", .string "file")]],
    .array [.array [.string "e", .string "calls", .string "n", .string "m"]]]

theorem stable_listedTwice : ∃ g : PropertyGraph,
    decodeText PropertyGraph.read listedTwice.compact = .ok g ∧ g.nodes.values.length = 1 ∧
      decodeText PropertyGraph.read g.toJson.compact = .ok g := by
  let n : Node := ⟨"n", .file, "last", { extra := .ofList [("owner", .ofNat 7)] }, .empty, none⟩
  let e : Edge := ⟨"e", .calls, "n", "m", {}, none⟩
  let g := PropertyGraph.ofDocument ⟨⟨"g", "c", "multi", 1, []⟩, [n], [e]⟩
  have hread : decodeText PropertyGraph.read listedTwice.compact = .ok g := by
    rw [decodeText_compact _ (by
      simp [listedTwice, Legible, LegibleItems, LegibleMembers, LegibleNumber, Json.ofNat,
        Json.ofWord])]
    rfl
  have hlegible : g.toJson.Legible := by
    have hjson : g.toJson = .object [
        ("metadata", .object [("id", .string "g"), ("codebase_id", .string "c"),
          ("language", .string "multi"), ("created_at", .ofNat 1)]),
        ("nodes", .array [.object [("id", .string "n"), ("type", .string "file"),
          ("name", .string "last"), ("metadata", .object [("owner", .ofNat 7)])]]),
        ("edges", .array [.object [("id", .string "e"), ("type", .string "calls"),
          ("from", .string "n"), ("to", .string "m"),
          ("metadata", .object [("weight", .ofDouble 1.0)])]])] := rfl
    have hweight : Json.ofDouble 1.0 = .number (.double 1.0) := if_pos (by decide)
    rw [hjson, hweight]
    simp only [Legible, LegibleItems, LegibleMembers, Json.ofNat, Json.ofWord, and_true, true_and]
    exact ⟨trivial, trivial, legibleNumber_one⟩
  obtain ⟨⟨_, hagain, rfl, -⟩, -⟩ := stable_forms.1 _ _ hread hlegible
  exact ⟨g, hread, rfl, hagain⟩

end CodeGraph
