import CodeGraph.Proofs.Graph.Building
import CodeGraph.Proofs.Json.Skipping
import CodeGraph.Repository.Files

/-!
# Metadata of documents

A listing reads of a document no more than the metadata. From a document that is read as a graph it
reads the metadata of the graph, but only if the document is an object: one that is an array of its
three parts is read as a graph, while more than the metadata stands in the array
(`decodeBytes_metadataRecord`). A graph is written as an object (`isObject_pretty`).
-/

namespace CodeGraph

open Json CodeGraph.Text

/-! ## Nodes and edges -/

theorem skippable_provenance : Skippable Provenance.read := by
  refine Record.skippable_read ?_
  simp only [Provenance.record, List.forall_mem_cons]
  exact ⟨.needed skippable_readString, .needed skippable_readString,
    .needed skippable_readString, .needed skippable_readWord, by simp⟩

theorem skippable_nodeMetadata : Skippable NodeMetadata.read := by
  refine Record.skippable_readOpen ?_
  simp only [NodeMetadata.record, List.forall_mem_cons]
  exact ⟨.defaulted (skippable_readOptional skippable_readString),
    .defaulted (skippable_readOptional skippable_readSize),
    .defaulted (skippable_readOptional skippable_readSize),
    .defaulted (skippable_readOptional skippable_readWord),
    .defaulted (skippable_readOptional skippable_readString),
    .defaulted (skippable_readOptional skippable_readBool), by simp⟩

theorem skippable_node : Skippable Node.read := by
  refine Record.skippable_read ?_
  simp only [Node.record, List.forall_mem_cons]
  exact ⟨.needed skippable_readString, .needed (skippable_readVariant _),
    .needed skippable_readString, .defaulted skippable_nodeMetadata,
    .defaulted (skippable_readList skippable_readString),
    .defaulted (skippable_readOptional skippable_provenance), by simp⟩

theorem skippable_edgeMetadata : Skippable EdgeMetadata.read := by
  refine Record.skippable_readOpen ?_
  simp only [EdgeMetadata.record, List.forall_mem_cons]
  exact ⟨.defaulted skippable_readDouble,
    .defaulted (skippable_readOptional skippable_readSize), by simp⟩

theorem skippable_edge : Skippable Edge.read := by
  refine Record.skippable_read ?_
  simp only [Edge.record, List.forall_mem_cons]
  exact ⟨.needed skippable_readString, .needed (skippable_readVariant _),
    .needed skippable_readString, .needed skippable_readString,
    .defaulted skippable_edgeMetadata,
    .defaulted (skippable_readOptional skippable_provenance), by simp⟩

/-! ## Documents -/

namespace FileRepository

/-- A field of a document is the metadata, or it leaves the metadata as it is. -/
theorem read_field_cases {f : Json.Field GraphDocument} (hf : f ∈ GraphDocument.record.fields)
    {o : Origin} {v : Outline} {d d' : GraphDocument} (h : f.read o v d = .ok d') :
    f.name = "metadata" ∧ GraphMetadata.read o v = .ok d'.metadata ∨
      f.name ≠ "metadata" ∧ skip v = .ok () ∧ d'.metadata = d.metadata := by
  simp only [GraphDocument.record, List.mem_cons, List.not_mem_nil, or_false] at hf
  rcases hf with rfl | rfl | rfl
  · obtain ⟨m, hread, rfl⟩ := map_eq_ok.1 h
    exact .inl ⟨rfl, hread⟩
  · obtain ⟨nodes, hread, rfl⟩ := map_eq_ok.1 h
    exact .inr ⟨by decide, skippable_readList skippable_node o v nodes hread, rfl⟩
  · obtain ⟨edges, hread, rfl⟩ := map_eq_ok.1 h
    exact .inr ⟨by decide, skippable_readList skippable_edge o v edges hread, rfl⟩

section

variable {o : Origin} {v : Outline} {rest : Members} {seen : List String} {m m' : GraphMetadata}

theorem readMembers_cons_metadata
    {other : String → Outline → GraphMetadata → Decoded GraphMetadata} (hseen : "metadata" ∉ seen)
    (h : GraphMetadata.read o v = .ok m') :
    metadataRecord.readMembers o other seen m (.cons (.ok "metadata") v rest) =
      metadataRecord.readMembers o other ("metadata" :: seen) m' rest := by
  have hfind : metadataRecord.fields.find? (fun f => f.name == "metadata") = some
      (.needed "metadata" GraphMetadata.read fun x _ => x) := rfl
  rw [Record.readMembers, hfind]
  dsimp only
  rw [if_neg (by simpa using hseen), Field.needed]
  dsimp only
  rw [h]
  rfl

theorem readMembers_cons_other {k : String} (hk : k ≠ "metadata") (h : skip v = .ok ()) :
    metadataRecord.readMembers o (fun _ v a => do skip v; return a) seen m (.cons (.ok k) v rest) =
      metadataRecord.readMembers o (fun _ v a => do skip v; return a) seen m rest := by
  have hfind : metadataRecord.fields.find? (fun f => f.name == k) = none := by
    simp [metadataRecord, Field.needed, Ne.symm hk]
  rw [Record.readMembers, hfind]
  dsimp only
  rw [h]
  rfl

end

/-- Of the members of a document a reader of the metadata reads one and walks over the others. -/
theorem readMembers_metadataRecord {o : Origin} (ms : Members) {seen seen' : List String}
    {d d' : GraphDocument}
    (h : GraphDocument.record.readMembers o (fun _ v a => do skip v; return a) seen d ms =
      .ok (seen', d')) :
    metadataRecord.readMembers o (fun _ v a => do skip v; return a)
      (seen.filter (· == "metadata")) d.metadata ms =
        .ok (seen'.filter (· == "metadata"), d'.metadata) := by
  cases ms with
  | done =>
    cases h
    rfl
  | misplaced | broken => cases h
  | cons name v rest =>
    obtain ⟨k, rfl, ⟨f, hf, rfl, hseen, d₁, hread, h⟩ | ⟨hnone, d₁, hother, h⟩⟩ :=
      Record.readMembers_cons_eq_ok h
    · have hrest := readMembers_metadataRecord rest h
      rcases read_field_cases hf hread with ⟨hname, hm⟩ | ⟨hname, hskip, hkept⟩
      · rw [hname] at hseen hrest ⊢
        rw [readMembers_cons_metadata (by simpa using hseen) hm]
        exact hrest
      · rw [hkept, List.filter_cons_of_neg (by simpa using hname)] at hrest
        rw [readMembers_cons_other hname hskip]
        exact hrest
    · have hname : k ≠ "metadata" := (hnone _ (List.mem_cons_self ..)).symm
      obtain ⟨⟨⟩, hskip, hother⟩ := bind_eq_ok.1 hother
      cases hother
      rw [readMembers_cons_other hname hskip]
      exact readMembers_metadataRecord rest h

/-- A text that is an object. -/
def IsObject (content : ByteArray) : Prop :=
  ∃ ms, (outline (Glyph.ofBytes content)).1 = .object ms

theorem read_metadataRecord {ms : Members} {g : PropertyGraph}
    (h : PropertyGraph.read .start (.object ms) = .ok g) :
    metadataRecord.read .start (.object ms) = .ok g.metadata := by
  obtain ⟨d, hd, rfl⟩ := map_eq_ok.1 h
  obtain ⟨o, ho, hd⟩ := bind_eq_ok.1 hd
  obtain ⟨⟨seen, d'⟩, hms, hd⟩ := bind_eq_ok.1 hd
  obtain rfl : d' = d := Record.complete_eq_ok hd
  have hseen : "metadata" ∈ seen := by
    by_contra hseen
    simp [Record.complete, GraphDocument.record, Field.needed, hseen] at hd
  have hcomplete : metadataRecord.complete (seen.filter (· == "metadata")) d'.metadata =
      .ok d'.metadata := by
    simp [Record.complete, metadataRecord, Field.needed, hseen]
  have hmetadata : metadataRecord.readMembers o (fun _ v a => do skip v; return a) []
      metadataRecord.start ms = .ok (seen.filter (· == "metadata"), d'.metadata) :=
    readMembers_metadataRecord ms hms
  rw [Record.read, ho]
  change metadataRecord.readMembers o _ [] metadataRecord.start ms >>= _ = _
  have hgraph : (PropertyGraph.ofDocument d').metadata = d'.metadata := by
    simp [PropertyGraph.ofDocument, PropertyGraph.new]
  rw [hmetadata, hgraph]
  exact hcomplete

/-- The metadata of a graph is listed if its document is an object. -/
theorem decodeBytes_metadataRecord {content : ByteArray} {g : PropertyGraph}
    (h : decodeBytes PropertyGraph.read content = .ok g) (hobject : IsObject content) :
    decodeBytes metadataRecord.read content = .ok g.metadata := by
  obtain ⟨ms, hms⟩ := hobject
  obtain ⟨hread, hend⟩ := decodeGlyphs_eq_ok.1 h
  rw [hms] at hread
  exact decodeGlyphs_eq_ok.2 ⟨hms ▸ read_metadataRecord hread, hend⟩

/-- The metadata of a graph whose document is an array is not listed: the nodes follow it. -/
theorem exists_error_metadataRecord {content : ByteArray} {g : PropertyGraph}
    (h : decodeBytes PropertyGraph.read content = .ok g) (hobject : ¬ IsObject content) :
    ∃ e, decodeBytes metadataRecord.read content = .error e := by
  rcases hmetadata : decodeBytes metadataRecord.read content with e | m
  · exact ⟨e, rfl⟩
  obtain ⟨hread, -⟩ := decodeGlyphs_eq_ok.1 h
  obtain ⟨hread', -⟩ := decodeGlyphs_eq_ok.1 hmetadata
  rcases houtline : (outline (Glyph.ofBytes content)).1 with _ | _ | _ | _ | _ | _ | items | ms | _
  case object => exact absurd ⟨ms, houtline⟩ hobject
  case array =>
    rw [houtline] at hread hread'
    obtain ⟨d, hd, -⟩ := map_eq_ok.1 hread
    obtain ⟨o, -, hd⟩ := bind_eq_ok.1 hd
    obtain ⟨o', -, hread'⟩ := bind_eq_ok.1 hread'
    cases items with
    | done | broken => cases hread'
    | cons v rest =>
      obtain ⟨m', -, hread'⟩ := bind_eq_ok.1 hread'
      obtain ⟨⟨⟩, hend, -⟩ := bind_eq_ok.1 hread'
      rw [Record.eq_done_of_endOfItems hend] at hd
      obtain ⟨d', -, hd⟩ := bind_eq_ok.1 hd
      cases hd
  all_goals
    rw [houtline] at hread
    obtain ⟨d, hd, -⟩ := map_eq_ok.1 hread
    exact absurd hd (unexpected_ne_ok _ _ _)

theorem isObject_pretty (g : PropertyGraph) : IsObject (g.toJson.pretty 0).toUTF8 := by
  obtain ⟨rest, hrest⟩ : ∃ rest, (g.toJson.pretty 0).toList = '\x7b' :: rest := by
    simp [PropertyGraph.toJson, GraphDocument.toJson, pretty]
  have hglyphs : Glyph.ofString (g.toJson.pretty 0) = .char '\x7b' :: rest.map .char := by
    rw [Glyph.ofString, hrest]
    rfl
  rw [IsObject, Glyph.ofBytes_toUTF8, hglyphs]
  exact ⟨_, rfl⟩

end FileRepository

end CodeGraph
