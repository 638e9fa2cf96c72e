import CodeGraph.Proofs.Graph.Rereading
import CodeGraph.Query

/-!
# Metadata, its object and its fields by name

The metadata of a node is written as an object, read from an object, and looked up by name when nodes
are selected. From its object in canonical form, where the typed fields stand among the members of
other names, it is read as it was (`NodeMetadata.Recorded.read_canonical`), and a name has the same
value in the object and in the metadata (`NodeMetadata.Recorded.member?_toJson`). So the three views
agree, and a node that was written and read again meets the criteria that it met before
(`NodeMetadata.views_agree`).
-/

namespace CodeGraph

open Json Json.Record

variable {o o' o'' : Origin}

/-! ## Objects in canonical form -/

theorem Provenance.separate (o : Origin) : Provenance.record.Separate o := by
  intro f hf g hg hne v w
  simp only [Provenance.record, List.mem_cons, List.not_mem_nil, or_false] at hf hg
  rcases hf with rfl | rfl | rfl | rfl <;> rcases hg with rfl | rfl | rfl | rfl <;>
    first
    | exact absurd rfl hne
    | exact interchange_of_map (fun _ => rfl) (fun _ => rfl) fun _ _ _ => rfl

theorem Provenance.read_canonical (ho : o.enter = .ok o') (p : Provenance) :
    Provenance.read o p.toJson.canonical.toOutline = .ok p := by
  have hwritten := p.written o'
  obtain ⟨ms, hms, hperm⟩ := exists_canonical_object
    ((by decide : Provenance.record.Distinct).sublist hwritten.names_sublist)
  rw [toJson, hms]
  exact read_reordered (by decide) (separate o') ho hwritten hperm

namespace NodeMetadata

variable {m : NodeMetadata}

/-- What an extension records has no name of a typed field, its values have their members in order as
maps do, and its numbers are finite. -/
structure Recorded (m : NodeMetadata) : Prop where
  names : ∀ e ∈ m.extra.entries,
    e.1 ∉ ["file_path", "start_line", "end_line", "size", "language", "is_exported"]
  canonical : ∀ e ∈ m.extra.entries, e.2.canonical = e.2
  finite : ∀ e ∈ m.extra.entries, e.2.toOutline.IsFinite

theorem Recorded.name_ne (hm : m.Recorded) :
    ∀ e ∈ m.extra.entries, ∀ f ∈ record.fields, f.name ≠ e.1 := by
  intro e he
  simpa [record, Field.defaulted, eq_comm] using hm.names e he

theorem Recorded.apart (hm : m.Recorded) (hdepth : ∀ e ∈ m.extra.entries, o.Allows e.2.depth) :
    record.Apart o m.extra.entries := by
  refine fun e he => ⟨hm.name_ne e he, ?_⟩
  rw [readJson_toOutline e.2 (hm.finite e he) (hdepth e he), hm.canonical e he]

theorem Recorded.nodup_names (hm : m.Recorded) :
    ((m.typedMembers ++ m.extra.entries).map Prod.fst).Nodup :=
  (written_typedMembers .value m).nodup_names (by decide) hm.name_ne m.extra.nodup_names

theorem canonical_typedMembers (m : NodeMetadata) : ∀ e ∈ m.typedMembers, e.2.canonical = e.2 := by
  rw [typedMembers_eq]
  simp only [List.forall_mem_append, List.forall_mem_map]
  refine ⟨?_, ?_, ?_, ?_, ?_, ?_, fun e he => nomatch he⟩ <;> exact fun _ _ => rfl

theorem Recorded.canonical_members (hm : m.Recorded) :
    ∀ e ∈ m.typedMembers ++ m.extra.entries, e.2.canonical = e.2 :=
  List.forall_mem_append.2 ⟨m.canonical_typedMembers, hm.canonical⟩

/-- The canonical object has the members of the object, in order of their names. -/
theorem Recorded.exists_canonical (hm : m.Recorded) : ∃ ms, m.toJson.canonical = .object ms ∧
    (m.typedMembers ++ m.extra.entries).Perm ms := by
  obtain ⟨ms, hms, hperm⟩ := exists_canonical_object hm.nodup_names
  rw [canonicalEach_eq_self hm.canonical_members] at hperm
  exact ⟨ms, hms, hperm⟩

theorem withExtra_comm (m : NodeMetadata) {k k' : String} (hne : k ≠ k') (v w : Json) :
    (m.withExtra k v).withExtra k' w = (m.withExtra k' w).withExtra k v := by
  rw [withExtra, withExtra, withExtra, withExtra, NameMap.insert_comm m.extra hne]

theorem independent (o : Origin) : record.Independent o fun k v a => do
    return (fun k v (m : NodeMetadata) => m.withExtra k v) k (← readJson o v) a := by
  have hkept : ∀ k w (m : NodeMetadata), (do return m.withExtra k (← readJson o w)) =
      (readJson o w).map (fun x => m.withExtra k x) := fun k w m => by
    cases readJson o w <;> rfl
  refine ⟨fun f hf g hg hne v w => ?_, fun f hf k v w => ?_, fun k k' hne v w => ?_⟩
  · simp only [record, List.mem_cons, List.not_mem_nil, or_false] at hf hg
    rcases hf with rfl | rfl | rfl | rfl | rfl | rfl <;>
      rcases hg with rfl | rfl | rfl | rfl | rfl | rfl <;>
      first
      | exact absurd rfl hne
      | exact interchange_of_map (fun _ => rfl) (fun _ => rfl) fun _ _ _ => rfl
  · simp only [record, List.mem_cons, List.not_mem_nil, or_false] at hf
    rcases hf with rfl | rfl | rfl | rfl | rfl | rfl <;>
      exact ⟨interchange_of_map (fun _ => rfl) (hkept k w) fun _ _ _ => rfl,
        interchange_of_map (hkept k w) (fun _ => rfl) fun _ _ _ => rfl⟩
  · exact interchange_of_map (hkept k v) (hkept k' w) fun x y m => m.withExtra_comm hne x y

/-- Metadata is read from the canonical form of its object. -/
theorem Recorded.read_canonical (hm : m.Recorded) (ho : o.enter = .ok o')
    (hdepth : ∀ e ∈ m.extra.entries, o'.Allows e.2.depth) :
    NodeMetadata.read o m.toJson.canonical.toOutline = .ok m := by
  obtain ⟨ms, hms, hperm⟩ := hm.exists_canonical
  have hread := readOpen_reordered (by decide) (independent o') ho (written_typedMembers o' m)
    (hm.apart hdepth) m.extra.nodup_names hperm
  rw [foldl_withExtra, NameMap.insertMany_entries] at hread
  rw [hms]
  exact hread

/-! ## Fields by name -/

theorem lookup_optional {β : Type} (name key : String) (x : Option β) (enc : β → Json) :
    (x.toList.map fun b => (name, enc b)).reverse.lookup key =
      if key = name then x.map enc else none := by
  cases x with
  | none => simp
  | some b =>
    by_cases hkey : key = name
    · simp [hkey]
    · have hbeq : (key == name) = false := by simpa using hkey
      simp [List.lookup_cons, hkey, hbeq]

theorem lookup_typedMembers (m : NodeMetadata) (key : String) :
    m.typedMembers.reverse.lookup key =
      if key = "file_path" then m.filePath.map .string
      else if key = "start_line" then m.startLine.map .ofWord
      else if key = "end_line" then m.endLine.map .ofWord
      else if key = "size" then m.size.map .ofWord
      else if key = "language" then m.language.map .string
      else if key = "is_exported" then m.isExported.map .bool
      else none := by
  rw [typedMembers_eq]
  simp only [List.reverse_append, List.lookup_append, lookup_optional, List.reverse_nil,
    List.lookup_nil, Option.none_or]
  split_ifs <;> simp_all

/-- A name has the same value in the object and in the metadata. -/
theorem Recorded.member?_toJson (hm : m.Recorded) (key : String) :
    m.toJson.member? key = m.get? key := by
  have hsplit : m.toJson.member? key =
      (m.extra.get? key).or (m.typedMembers.reverse.lookup key) := by
    rw [toJson, member?, List.reverse_append, List.lookup_append, NameMap.lookup_reverse_entries]
  have htyped : key ∈ ["file_path", "start_line", "end_line", "size", "language", "is_exported"] →
      m.extra.get? key = none := fun hkey =>
    NameMap.get?_eq_none_iff.2 fun e he heq => hm.names e he (heq ▸ hkey)
  rw [hsplit]
  unfold NodeMetadata.get?
  split
  case h_7 _ h₁ h₂ h₃ h₄ h₅ h₆ =>
    rw [lookup_typedMembers, if_neg h₁, if_neg h₂, if_neg h₃, if_neg h₄, if_neg h₅, if_neg h₆,
      Option.or_none]
  all_goals
    rw [htyped (by simp), lookup_typedMembers]
    rfl

theorem nested {e : String × Json} (he : e ∈ m.extra.entries) : Nested 1 e.2 m.toJson :=
  .member (List.mem_append_right _ he) (.self e.2)

theorem isEmpty_iff (m : NodeMetadata) :
    m.isEmpty = true ↔ m.typedMembers ++ m.extra.entries = [] := by
  rw [typedMembers_eq]
  simp [isEmpty, NameMap.isEmpty, and_assoc]

end NodeMetadata

/-! ## Nodes -/

namespace Node

theorem separate (o : Origin) : record.Separate o := by
  intro f hf g hg hne v w
  simp only [record, List.mem_cons, List.not_mem_nil, or_false] at hf hg
  rcases hf with rfl | rfl | rfl | rfl | rfl | rfl <;>
    rcases hg with rfl | rfl | rfl | rfl | rfl | rfl <;>
    first
    | exact absurd rfl hne
    | exact interchange_of_map (fun _ => rfl) (fun _ => rfl) fun _ _ _ => rfl

theorem canonicalItems_map_string (l : List String) :
    canonicalItems (l.map .string) = l.map .string := by
  induction l with
  | nil => rfl
  | cons s l ih =>
    rw [List.map_cons, canonicalItems, ih]
    rfl

theorem canonicalEach_members (metadata : Json) (source : Provenance → Json) (n : Node) :
    canonicalEach (n.members metadata source) =
      n.members metadata.canonical fun p => (source p).canonical := by
  have hlabels : (Json.ofStrings n.labels.names).canonical = .ofStrings n.labels.names := by
    rw [ofStrings, canonical, canonicalItems_map_string]
  rw [canonicalEach, members, members, List.map_append, List.map_append, List.map_map]
  congr 2
  split
  · rfl
  · rw [List.map_singleton, hlabels]

/-- A node is read from the canonical form of its object. -/
theorem read_canonical (ho : o.enter = .ok o') (ho' : o'.enter = .ok o'') {n : Node}
    (hn : n.metadata.Recorded) (hdepth : ∀ e ∈ n.metadata.extra.entries, o''.Allows e.2.depth) :
    Node.read o n.toJson.canonical.toOutline = .ok n := by
  have hsource : ∀ p : Provenance,
      readOptional Provenance.read o' p.toJson.canonical.toOutline = .ok (some p) := fun p =>
    readOptional_some (p.read_canonical ho') (by
      simp [Provenance.toJson, canonical, toOutline])
  have hwritten := written_members ho' (hn.read_canonical ho' hdepth) hsource
  have hnames : ((n.members n.metadata.toJson Provenance.toJson).map Prod.fst).Nodup := by
    have hsublist := hwritten.names_sublist
    rw [← canonicalEach_members, names_canonicalEach] at hsublist
    exact (by decide : record.Distinct).sublist hsublist
  obtain ⟨ms, hms, hperm⟩ := exists_canonical_object hnames
  rw [canonicalEach_members] at hperm
  have htoJson : n.toJson = .object (n.members n.metadata.toJson Provenance.toJson) := rfl
  rw [htoJson, hms]
  exact read_reordered (by decide) (separate o') ho hwritten hperm

end Node

namespace NodeMetadata

variable {m : NodeMetadata}

/-- **The views of metadata agree.** Metadata is read from its object, in canonical form or as a text,
as it was; a name has the same value in the object and in the metadata; and the metadata is empty
exactly if the object is. A node with this metadata that is written and read again meets the criteria
that it met before, and whether a field has a value is told by the object. -/
theorem views_agree (hm : m.Recorded) :
    decodeValue NodeMetadata.read m.toJson.canonical = .ok m ∧
      (m.toJson.Legible → m.toJson.depth < 128 →
        decodeText NodeMetadata.read m.toJson.compact = .ok m) ∧
      (∀ key, m.toJson.canonical.member? key = m.get? key) ∧
      (m.isEmpty = true ↔ m.toJson.canonical = .object []) ∧
      ∀ n : Node, n.metadata = m →
        (∃ n', decodeValue Node.read n.toJson.canonical = .ok n' ∧ n' = n ∧
          ∀ c : Criteria, c.holds n' = c.holds n) ∧
        (n.toJson.Legible → n.toJson.depth < 128 →
          ∃ n', decodeText Node.read n.toJson.compact = .ok n' ∧ n' = n ∧
            ∀ c : Criteria, c.holds n' = c.holds n) ∧
        ∀ key expected, Criteria.fieldIs n key expected =
          (m.toJson.canonical.member? key).any fun v => v.same expected := by
  have hmember : ∀ key, m.toJson.canonical.member? key = m.get? key := fun key =>
    (member?_canonical_of_forall hm.canonical_members key).trans (hm.member?_toJson key)
  refine ⟨hm.read_canonical rfl fun _ _ => trivial, fun hlegible hdepth => ?_, hmember, ?_,
    fun n hn => ⟨⟨n, ?_, rfl, fun _ => rfl⟩, fun hlegible hdepth => ⟨n, ?_, rfl, fun _ => rfl⟩,
      fun key expected => ?_⟩⟩
  · rw [decodeText_compact _ hlegible]
    refine @NodeMetadata.read_toJson 126 m (hm.apart fun e he => ?_)
    have hle := (nested he).depth_le
    exact show e.2.depth < 127 by omega
  · obtain ⟨ms, hms, hperm⟩ := hm.exists_canonical
    rw [isEmpty_iff, hms, object.injEq, ← List.length_eq_zero_iff, hperm.length_eq,
      List.length_eq_zero_iff]
  · exact Node.read_canonical (o := .value) rfl rfl (hn ▸ hm) fun _ _ => trivial
  · rw [decodeText_compact _ hlegible]
    subst hn
    refine @Node.read_toJson 125 n (hm.apart fun e he => ?_)
    have hnode : Nested 2 e.2 n.toJson :=
      @Nested.member 1 e.2 n.metadata.toJson "metadata" _ (by simp) (nested he)
    have hle := hnode.depth_le
    exact show e.2.depth < 126 by omega
  · rw [hmember, Criteria.fieldIs, hn]
    rcases m.get? key with _ | v <;> rfl

/-- Two typed fields and two others, one of them an object with a value that is null, mix in the order
of their names. -/
theorem views_agree_mixed : ∃ m : NodeMetadata, m.Recorded ∧
    m.toJson.canonical = .object [("complexity", .number (.double 1.0)), ("is_exported", .bool true),
      ("language", .string "rust"), ("tags", .object [("a", .null), ("b", .array [.ofNat 1])])] ∧
    decodeValue NodeMetadata.read m.toJson.canonical = .ok m ∧ m.isEmpty = false ∧
    m.get? "tags" = m.toJson.canonical.member? "tags" ∧
    ∀ n : Node, n.metadata = m → Criteria.fieldIs n "language" (.string "rust") = true ∧
      ∃ n', decodeValue Node.read n.toJson.canonical = .ok n' ∧
        Criteria.fieldIs n' "language" (.string "rust") = true := by
  let m : NodeMetadata :=
    { language := some "rust"
      isExported := some true
      extra := .ofList [("tags", .object [("a", .null), ("b", .array [.ofNat 1])]),
        ("complexity", .number (.double 1.0))] }
  have hentries : m.extra.entries = [("complexity", .number (.double 1.0)),
    ("tags", .object [("a", .null), ("b", .array [.ofNat 1])])] := rfl
  have hm : m.Recorded := by
    refine ⟨?_, ?_, ?_⟩
    · rw [hentries]
      simp
    · rw [hentries]
      simp only [List.forall_mem_cons]
      exact ⟨rfl, rfl, fun e he => nomatch he⟩
    · rw [hentries]
      simp only [List.forall_mem_cons]
      have hfinite : (1.0 : Float).isFinite = true := by decide
      exact ⟨hfinite, ⟨trivial, ⟨trivial, trivial⟩, trivial⟩, fun e he => nomatch he⟩
  obtain ⟨hread, -, hget, -, hnodes⟩ := views_agree hm
  refine ⟨m, hm, rfl, hread, rfl, (hget "tags").symm, fun n hn => ?_⟩
  obtain ⟨⟨n', hnode, rfl, -⟩, -, hfield⟩ := hnodes n hn
  have hlanguage : Criteria.fieldIs n' "language" (.string "rust") = true := by
    rw [hfield, hget]
    rfl
  exact ⟨hlanguage, n', hnode, hlanguage⟩

end NodeMetadata

end CodeGraph
