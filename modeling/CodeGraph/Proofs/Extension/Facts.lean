import CodeGraph.Extension.FileTree
import CodeGraph.Proofs.Cache.Entry
import CodeGraph.Proofs.Json.Records
import CodeGraph.Proofs.NameMap

/-!
# Facts and their keys

Facts are read back from what is written of them (`FileFacts.decodeBytes_bytesOf`). They depend on a
path only through its last name (`FileFacts.derive_congr`), and the key under which they are kept
tells the path from the root on and the digest of the content (`keyOfContent_inj`).
-/

namespace CodeGraph

namespace Path

variable {p n : String}

theorem fileName?_ofParts {names : List String} (hnames : ∀ m ∈ names, IsPlain m) (hn : IsPlain n) :
    fileName? (ofParts false (names ++ [n])) = some n := by
  refine fileName?_of_split (split_ofParts false (by simp) ?_) hn.isSegment
  intro m hm
  rcases List.mem_append.1 hm with hm | hm
  · exact (hnames m hm).unslashed
  · exact List.mem_singleton.1 hm ▸ hn.unslashed

end Path

namespace Cache

theorem keyOfContent_inj {p q : String} {a b : ByteArray}
    (h : keyOfContent p a = keyOfContent q b) : p = q ∧ contentHash a = contentHash b := by
  have hchars : (p ++ keySeparator).toList ++ (contentHash a).toList =
      (q ++ keySeparator).toList ++ (contentHash b).toList := by
    rw [← String.toList_append, ← String.toList_append]
    exact congrArg String.toList h
  -- All digests are of one length, so whatever the paths contain there is one place to part a key.
  have hlength : (contentHash a).toList.length = (contentHash b).toList.length := by
    rw [contentHash, contentHash, (isDigest_hex _).length, (isDigest_hex _).length]
  obtain ⟨hpath, hdigest⟩ := List.append_inj' hchars hlength
  rw [String.toList_append, String.toList_append] at hpath
  exact ⟨String.toList_injective (List.append_cancel_right hpath),
    String.toList_injective hdigest⟩

end Cache

namespace FileFacts

theorem derive_congr {p q : String} (h : Path.fileName? p = Path.fileName? q)
    (content : ByteArray) : derive p content = derive q content := by
  have hlanguage : language? p = language? q := by
    rw [language?, language?, Path.fileExtension?, Path.fileExtension?, h]
  rw [derive, derive, hlanguage]

/-! ## Facts read back -/

theorem legible_toJson (f : FileFacts) : f.toJson.Legible := by
  obtain ⟨size, lines, language, contentHash⟩ := f
  cases language <;>
    simp [toJson, Json.Legible, Json.LegibleMembers, Json.ofWord, Json.LegibleNumber]

theorem read_toJson (f : FileFacts) : record.read .start f.toJson.toOutline = .ok f := by
  obtain ⟨size, lines, language, contentHash⟩ := f
  have hlanguage : ∀ o, Json.readOptional Json.readString o
      ((language.map Json.string).getD .null).toOutline = .ok language := by
    intro o
    cases language <;> rfl
  exact Json.Record.read_written (by decide) rfl
    (.needed (Json.readWord_ofWord _ _) (.needed (Json.readSize_ofWord _ _)
      (.defaulted (hlanguage _) (.needed rfl .nil))))

theorem decodeBytes_bytesOf (f : FileFacts) :
    Json.decodeBytes Json.Form.read (Cache.bytesOf f) = .ok f :=
  (Json.decodeBytes_compact _ f.legible_toJson).trans f.read_toJson

end FileFacts

/-! ## The entries of a walk -/

/-- Every name in a volume stands for itself. -/
def Volume.PlainNames (v : Volume) : Prop :=
  ∀ q n, (v.item? (q ++ [n])).isSome → Path.IsPlain n

namespace FileTree.Walk

variable {w : Walk} {e : Entry}

/-- The two paths of an entry have one last name. -/
theorem fileName?_of_mem_below (hw : w.volume.PlainNames) {depth : Nat} {levels : Ignore.Levels}
    {names real : List String} {path : String} (hpath : path ≠ "")
    (hnames : ∀ n ∈ names, Path.IsPlain n) (he : e ∈ w.below depth levels names real path) :
    Path.fileName? e.path = Path.fileName? e.relative := by
  induction depth generalizing levels names real path with
  | zero => cases he
  | succ depth ih =>
    rw [below] at he
    obtain ⟨n, hn, he⟩ := List.mem_flatMap.1 he
    have hplain : Path.IsPlain n :=
      hw real n (Volume.mem_children.1 (NameSet.mem_names_ofNames.1 hn))
    have hentry : ∀ b, Path.fileName? (Entry.path ⟨Path.ofParts false (names ++ [n]),
        Path.join path n, b⟩) = Path.fileName? (Path.ofParts false (names ++ [n])) := by
      intro b
      rw [Path.fileName?_join path hplain.isSegment, Path.fileName?_ofParts hnames hplain]
    have hnames' : ∀ m ∈ names ++ [n], Path.IsPlain m := by
      intro m hm
      rcases List.mem_append.1 hm with hm | hm
      · exact hnames m hm
      · exact List.mem_singleton.1 hm ▸ hplain
    simp only at he
    split at he
    · split at he
      · rcases List.mem_cons.1 he with rfl | he
        · exact hentry true
        · exact ih (Path.join_ne_empty hpath hplain) hnames' he
      · cases he
    · split at he
      · obtain rfl := List.mem_singleton.1 he
        exact hentry false
      · cases he
    · cases he

theorem fileName?_of_mem_entries (hw : w.volume.PlainNames) {root : String}
    (hroot : ∀ q content, w.volume.find true root ≠ .ok (q, .file content))
    (he : e ∈ w.entries root) (hfile : e.isDirectory = false) :
    Path.fileName? e.path = Path.fileName? e.relative := by
  rw [entries] at he
  split at he
  · cases he
  split at he
  · next real item hlink hfind =>
    have hne : root ≠ "" := by
      rintro rfl
      cases hlink
    rcases List.mem_cons.1 he with rfl | he
    · cases hfile
    · exact fileName?_of_mem_below hw hne (by simp) he
  · next hfind => exact absurd hfind (hroot _ _)
  · next real hlink hfind =>
    have hne : root ≠ "" := by
      rintro rfl
      cases hlink
    exact fileName?_of_mem_below hw hne (by simp) he
  · cases he

end FileTree.Walk

end CodeGraph
