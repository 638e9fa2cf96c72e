import CodeGraph.Graph.Metadata
import CodeGraph.Identity
import CodeGraph.Proofs.Extension.Facts

/-!
# What digests are taken of

Keys of the cache, identifiers of graphs and those of nodes and edges are made of texts that are put
together from parts, and no part is escaped. Each text tells its parts, for a reason of its own:

* A key ends in a digest, and all digests are of one length, so the path may hold the separator
  (`Cache.keyOfContent_eq_iff`). The digits tell the digest (`Sha256.hex_eq_iff`).
* The text of a graph ends in decimal digits, so it is parted by its last zero character, and the
  codebase may hold others (`GraphMetadata.message_eq_iff`).
* The text of a node or an edge is a row of parts with a zero character in front of each. Parts
  without zero characters are told, however many they are (`IdGenerator.preimage_inj`), and they tell
  what the identifier is made for, but for an absent path, which counts as the empty one
  (`IdGenerator.Subject.message_eq_iff`).

So two graphs, nodes or edges have one identifier only where the digests of two messages begin alike
(`GraphMetadata.clash_of_id_eq`, `IdGenerator.clash_of_id_eq`).
-/

namespace CodeGraph

/-! ## Texts and lists -/

section Parted

variable {α : Type} {a b x y : List α} {c : α}

/-- The first one of an item parts a list in one way. -/
theorem append_cons_inj (ha : c ∉ a) (hb : c ∉ b) (h : a ++ c :: x = b ++ c :: y) :
    a = b ∧ x = y := by
  induction a generalizing b with
  | nil =>
    cases b with
    | nil => exact ⟨rfl, (List.cons_eq_cons.1 h).2⟩
    | cons d b => exact absurd (List.cons_eq_cons.1 h).1 fun heq => hb (heq ▸ List.mem_cons_self)
  | cons d a ih =>
    cases b with
    | nil => exact absurd (List.cons_eq_cons.1 h).1 fun heq => ha (heq ▸ List.mem_cons_self)
    | cons d' b =>
      rw [List.cons_append, List.cons_append] at h
      obtain ⟨rfl, htail⟩ := List.cons.inj h
      obtain ⟨rfl, rfl⟩ := ih (fun hmem => ha (List.mem_cons_of_mem _ hmem))
        (fun hmem => hb (List.mem_cons_of_mem _ hmem)) htail
      exact ⟨rfl, rfl⟩

/-- The last one of an item parts a list in one way. -/
theorem append_cons_inj_right (hx : c ∉ x) (hy : c ∉ y) (h : a ++ c :: x = b ++ c :: y) :
    a = b ∧ x = y := by
  have hreverse := congrArg List.reverse h
  simp only [List.reverse_append, List.reverse_cons, List.append_assoc, List.singleton_append]
    at hreverse
  obtain ⟨hright, hleft⟩ := append_cons_inj (mt List.mem_reverse.1 hx) (mt List.mem_reverse.1 hy)
    hreverse
  exact ⟨List.reverse_injective hleft, List.reverse_injective hright⟩

end Parted

theorem toUTF8_inj {s t : String} : s.toUTF8 = t.toUTF8 ↔ s = t :=
  String.toByteArray_inj

theorem toString_nat_inj {m n : Nat} (h : toString m = toString n) : m = n := by
  rw [Nat.toString_eq_ofList_toDigits, Nat.toString_eq_ofList_toDigits] at h
  have hread := congrArg (Nat.ofDigitChars 10 · 0) (String.ofList_injective h)
  simpa only [Nat.ofDigitChars_ten_toDigits] using hread

/-! ## Digits of digests -/

namespace Sha256

/-- Numbers of at most `k` digits with the same digits are the same. -/
theorem eq_of_digits_eq {b k m n : Nat} (hm : m < b ^ k) (hn : n < b ^ k)
    (h : ∀ i < k, m / b ^ i % b = n / b ^ i % b) : m = n := by
  induction k generalizing m n with
  | zero => rw [Nat.lt_one_iff.1 hm, Nat.lt_one_iff.1 hn]
  | succ k ih =>
    have hlast : m % b = n % b := by
      simpa using h 0 k.succ_pos
    have hrest : m / b = n / b := by
      rw [Nat.pow_succ'] at hm hn
      apply ih (Nat.div_lt_of_lt_mul hm) (Nat.div_lt_of_lt_mul hn)
      intro i hi
      rw [Nat.div_div_eq_div_mul, Nat.div_div_eq_div_mul, ← Nat.pow_succ']
      exact h (i + 1) (Nat.succ_lt_succ hi)
    rw [← Nat.div_add_mod m b, ← Nat.div_add_mod n b, hrest, hlast]

theorem hexWord_inj {v w : UInt32} (h : hexWord v = hexWord w) : v = w := by
  have hdigits : ∀ i < 8, v.toNat / 16 ^ (7 - i) % 16 = w.toNat / 16 ^ (7 - i) % 16 := by
    intro i hi
    have hchar := List.map_inj_left.1 h i (List.mem_range.2 hi)
    have hvalue := congrArg Text.hexValue? hchar
    rw [Json.hexValue?_hexDigit, Json.hexValue?_hexDigit] at hvalue
    exact Option.some.inj hvalue
  -- The digits are written from the highest on, and compared from the lowest on.
  apply UInt32.toNat_inj.1
  apply eq_of_digits_eq (b := 16) (k := 8) v.toNat_lt w.toNat_lt
  intro i hi
  have hdigit := hdigits (7 - i) (by omega)
  rwa [Nat.sub_sub_self (by omega)] at hdigit

theorem flatMap_hexWord_inj {vs ws : List UInt32} (h : vs.flatMap hexWord = ws.flatMap hexWord)
    (hlength : vs.length = ws.length) : vs = ws := by
  induction vs generalizing ws with
  | nil => exact (List.length_eq_zero_iff.1 hlength.symm).symm
  | cons v vs ih =>
    cases ws with
    | nil => simp at hlength
    | cons w ws =>
      rw [List.flatMap_cons, List.flatMap_cons] at h
      obtain ⟨hword, hrest⟩ := List.append_inj h
        ((Cache.length_hexWord v).trans (Cache.length_hexWord w).symm)
      rw [hexWord_inj hword, ih hrest (Nat.succ.inj hlength)]

/-- The digits tell the digest. -/
theorem hex_eq_iff {m n : List UInt8} : hex m = hex n ↔ digest m = digest n := by
  constructor
  · intro h
    rw [hex, hex, String.ofList_inj] at h
    have hwords := flatMap_hexWord_inj h rfl
    cases hm : digest m
    cases hn : digest n
    simpa only [hm, hn, List.cons.injEq, and_true, State.mk.injEq] using hwords
  · intro h
    rw [hex, hex, h]

/-- The first sixteen digits of the digest of a message. -/
def head (message : ByteArray) : String :=
  String.ofList ((hex message.toList).toList.take 16)

theorem length_head (message : ByteArray) : (head message).toList.length = 16 := by
  rw [head, String.toList_ofList, List.length_take, (Cache.isDigest_hex _).length]
  rfl

/-- The digests of two messages begin alike. -/
def Clash (m n : ByteArray) : Prop :=
  m ≠ n ∧ head m = head n

end Sha256

/-! ## Keys -/

/-- A key tells the path and the digest of the content, also where the path holds the separator. -/
theorem Cache.keyOfContent_eq_iff {p q : String} {a b : ByteArray} :
    keyOfContent p a = keyOfContent q b ↔
      p = q ∧ Sha256.digest a.toList = Sha256.digest b.toList := by
  constructor
  · intro h
    obtain ⟨hpath, hdigits⟩ := keyOfContent_inj h
    exact ⟨hpath, Sha256.hex_eq_iff.1 hdigits⟩
  · rintro ⟨rfl, hdigest⟩
    rw [keyOfContent, keyOfContent, contentHash, contentHash, Sha256.hex_eq_iff.2 hdigest]

/-! ## Graphs -/

namespace GraphMetadata

variable {c d : String} {t u : UInt64}

/-- The bytes whose digest identifies a graph. -/
def message (codebase : String) (createdAt : UInt64) : ByteArray :=
  (identity codebase createdAt).toUTF8

theorem new_id (codebase : String) (createdAt : UInt64) :
    (new codebase createdAt).id = "graph_" ++ Sha256.head (message codebase createdAt) :=
  rfl

theorem zero_not_mem_toString (n : Nat) : '\x00' ∉ (toString n).toList := by
  rw [Nat.toString_eq_ofList_toDigits, String.toList_ofList]
  intro hzero
  exact absurd (Json.isDigit_of_mem_toDigits_ten hzero) (by decide)

/-- The bytes tell the codebase and the time, also where the codebase holds zero characters. -/
theorem message_eq_iff : message c t = message d u ↔ c = d ∧ t = u := by
  constructor
  · intro h
    have hchars := congrArg String.toList (toUTF8_inj.1 h)
    simp only [identity, String.toList_append, List.append_assoc] at hchars
    obtain ⟨hcodebase, htime⟩ := append_cons_inj_right (zero_not_mem_toString t.toNat)
      (zero_not_mem_toString u.toNat) hchars
    exact ⟨String.toList_injective hcodebase,
      UInt64.toNat_inj.1 (toString_nat_inj (String.toList_injective htime))⟩
  · rintro ⟨rfl, rfl⟩
    rfl

/-- Different graphs have one identifier only where digests of different messages begin alike. -/
theorem clash_of_id_eq (h : (new c t).id = (new d u).id) (hne : ¬(c = d ∧ t = u)) :
    Sha256.Clash (message c t) (message d u) := by
  rw [new_id, new_id] at h
  exact ⟨mt message_eq_iff.1 hne, (String.append_right_inj _).1 h⟩

end GraphMetadata

/-! ## Nodes and edges -/

theorem NodeType.name_inj {t u : NodeType} : t.name = u.name ↔ t = u := by
  refine ⟨fun h => ?_, congrArg name⟩
  have hsome := congrArg ofName? h
  rw [ofName?_name, ofName?_name] at hsome
  exact Option.some.inj hsome

theorem NodeType.zero_not_mem_name (t : NodeType) : '\x00' ∉ t.name.toList := by
  cases t <;> decide

theorem EdgeType.name_inj {t u : EdgeType} : t.name = u.name ↔ t = u := by
  refine ⟨fun h => ?_, congrArg name⟩
  have hsome := congrArg ofName? h
  rw [ofName?_name, ofName?_name] at hsome
  exact Option.some.inj hsome

theorem EdgeType.zero_not_mem_name (t : EdgeType) : '\x00' ∉ t.name.toList := by
  cases t <;> decide

namespace IdGenerator

variable {k l p q : String} {ps qs : List String} {g g' : IdGenerator}

@[simp] theorem preimage_nil (k : String) : preimage k [] = k := by
  simp [preimage]

/-- The kind stands before the other parts as each part stands before those behind it. -/
theorem toList_preimage_cons (k p : String) (ps : List String) :
    (preimage k (p :: ps)).toList = k.toList ++ '\x00' :: (preimage p ps).toList := by
  simp [preimage, String.join_cons]

theorem preimage_cons_inj (hk : '\x00' ∉ k.toList) (hl : '\x00' ∉ l.toList)
    (h : preimage k (p :: ps) = preimage l (q :: qs)) : k = l ∧ preimage p ps = preimage q qs := by
  have hchars := congrArg String.toList h
  rw [toList_preimage_cons, toList_preimage_cons] at hchars
  obtain ⟨hfirst, hrest⟩ := append_cons_inj hk hl hchars
  exact ⟨String.toList_injective hfirst, String.toList_injective hrest⟩

/-- Parts without zero characters are told by the text that they are put together to, and so is how
many they are. -/
theorem preimage_inj (hk : '\x00' ∉ k.toList) (hl : '\x00' ∉ l.toList)
    (hps : ∀ p ∈ ps, '\x00' ∉ p.toList) (hqs : ∀ q ∈ qs, '\x00' ∉ q.toList)
    (h : preimage k ps = preimage l qs) : k = l ∧ ps = qs := by
  -- What is behind the kind is again a text of this form, with the first part for its kind.
  induction ps generalizing k l qs with
  | nil =>
    cases qs with
    | nil => exact ⟨by simpa using h, rfl⟩
    | cons q qs =>
      -- Where there are parts there is a zero character.
      refine absurd ?_ hk
      rw [← preimage_nil k, h, toList_preimage_cons]
      simp
  | cons p ps ih =>
    cases qs with
    | nil =>
      refine absurd ?_ hl
      rw [← preimage_nil l, ← h, toList_preimage_cons]
      simp
    | cons q qs =>
      rw [List.forall_mem_cons] at hps hqs
      obtain ⟨rfl, hrest⟩ := preimage_cons_inj hk hl h
      obtain ⟨rfl, rfl⟩ := ih hps.1 hqs.1 hps.2 hqs.2 hrest
      exact ⟨rfl, rfl⟩

/-- What an identifier is made for. -/
inductive Subject where
  | node (type : NodeType) (name : String) (filePath : Option String)
  | edge (type : EdgeType) (source target : String)
  deriving DecidableEq, Repr

/-- Makes the identifier of a node or an edge. -/
def identify (g : IdGenerator) : Subject → String × IdGenerator
  | .node t name filePath => g.nodeId t name filePath
  | .edge t source target => g.edgeId t source target

namespace Subject

variable {x y : Subject}

def kind : Subject → String
  | .node .. => "node"
  | .edge .. => "edge"

def parts : Subject → List String
  | .node t name filePath => nodeParts t name filePath
  | .edge t source target => edgeParts t source target

/-- The bytes whose digest identifies a node or an edge. -/
def message (x : Subject) : ByteArray :=
  (preimage x.kind x.parts).toUTF8

/-- With the empty path in place of an absent one. -/
def filled : Subject → Subject
  | .node t name filePath => .node t name (some (filePath.getD ""))
  | .edge t source target => .edge t source target

/-- The texts that a subject is told by beside its type. -/
def texts : Subject → List String
  | .node _ name filePath => name :: filePath.toList
  | .edge _ source target => [source, target]

/-- No text of the subject holds a zero character. -/
def Unended (x : Subject) : Prop :=
  ∀ s ∈ x.texts, '\x00' ∉ s.toList

instance (x : Subject) : Decidable x.Unended :=
  inferInstanceAs (Decidable (∀ s ∈ x.texts, '\x00' ∉ s.toList))

theorem zero_not_mem_kind (x : Subject) : '\x00' ∉ x.kind.toList := by
  cases x with
  | node => exact (by decide : '\x00' ∉ "node".toList)
  | edge => exact (by decide : '\x00' ∉ "edge".toList)

theorem Unended.parts (hx : x.Unended) : ∀ p ∈ x.parts, '\x00' ∉ p.toList := by
  cases x with
  | node t name filePath =>
    have hpath : '\x00' ∉ (filePath.getD "").toList := by
      cases filePath with
      | none => decide
      | some path => exact hx path (by simp [texts])
    have hname : '\x00' ∉ name.toList := hx name (by simp [texts])
    simpa [Subject.parts, nodeParts] using ⟨t.zero_not_mem_name, hpath, hname⟩
  | edge t source target =>
    have hsource : '\x00' ∉ source.toList := hx source (by simp [texts])
    have htarget : '\x00' ∉ target.toList := hx target (by simp [texts])
    simpa [Subject.parts, edgeParts] using ⟨t.zero_not_mem_name, hsource, htarget⟩

/-- Kind and parts are told by all that tells the subject, an absent path being the empty one. -/
theorem filled_eq_iff : x.filled = y.filled ↔ x.kind = y.kind ∧ x.parts = y.parts := by
  cases x with
  | node t name filePath =>
    cases y with
    | node => simp [filled, kind, parts, nodeParts, NodeType.name_inj, and_comm]
    | edge => simp [filled, kind]
  | edge t source target =>
    cases y with
    | node => simp [filled, kind]
    | edge => simp [filled, kind, parts, edgeParts, EdgeType.name_inj]

/-- The bytes tell whether it is a node or an edge, its type and its texts. -/
theorem message_eq_iff (hx : x.Unended) (hy : y.Unended) :
    x.message = y.message ↔ x.filled = y.filled := by
  rw [message, message, toUTF8_inj, filled_eq_iff]
  constructor
  · exact preimage_inj x.zero_not_mem_kind y.zero_not_mem_kind hx.parts hy.parts
  · rintro ⟨hkind, hparts⟩
    rw [hkind, hparts]

/-- Zero characters in the texts are taken for those between them. -/
example : (edge .calls "a\x00b" "c").message = (edge .calls "a" "b\x00c").message := by
  decide

end Subject

open Subject

theorem identify_eq (hg : g.strategy = .contentHash) (x : Subject) :
    g.identify x = (x.kind ++ "_" ++ Sha256.head x.message, g) := by
  cases x with
  | node => rw [identify, nodeId, hg]; rfl
  | edge => rw [identify, edgeId, hg]; rfl

/-- Different nodes and edges have one identifier only where digests of different messages begin
alike. -/
theorem clash_of_id_eq {x y : Subject} (hg : g.strategy = .contentHash)
    (hg' : g'.strategy = .contentHash) (hx : x.Unended) (hy : y.Unended)
    (hid : (g.identify x).1 = (g'.identify y).1) (hne : x.filled ≠ y.filled) :
    Sha256.Clash x.message y.message := by
  rw [identify_eq hg, identify_eq hg'] at hid
  have hchars := congrArg String.toList hid
  simp only [String.toList_append] at hchars
  obtain ⟨-, hheads⟩ := List.append_inj' hchars
    ((Sha256.length_head _).trans (Sha256.length_head _).symm)
  exact ⟨mt (message_eq_iff hx hy).1 hne, String.toList_injective hheads⟩

end IdGenerator

/-! ## All of them -/

open IdGenerator (Subject)

/-- What is digested tells what it is digested for: a key tells the path and the digest of the
content, the message of a graph its codebase and its time, and the message of a node or an edge its
type and its texts, an absent path being the empty one. -/
theorem identities_unambiguous :
    (∀ (p q : String) (a b : ByteArray), Cache.keyOfContent p a = Cache.keyOfContent q b ↔
      p = q ∧ Sha256.digest a.toList = Sha256.digest b.toList) ∧
    (∀ (c : String) (t : UInt64), (GraphMetadata.new c t).id =
      "graph_" ++ Sha256.head (GraphMetadata.message c t)) ∧
    (∀ (c d : String) (t u : UInt64), GraphMetadata.message c t = GraphMetadata.message d u ↔
      c = d ∧ t = u) ∧
    (∀ (g : IdGenerator) (x : Subject), g.strategy = .contentHash →
      g.identify x = (x.kind ++ "_" ++ Sha256.head x.message, g)) ∧
    ∀ x y : Subject, x.Unended → y.Unended → (x.message = y.message ↔ x.filled = y.filled) := by
  refine ⟨fun p q a b => Cache.keyOfContent_eq_iff, GraphMetadata.new_id,
    fun c d t u => GraphMetadata.message_eq_iff, fun g x hg => IdGenerator.identify_eq hg x,
    fun x y hx hy => IdGenerator.Subject.message_eq_iff hx hy⟩

/-- A path with a separator, a codebase with a zero character and edges whose ends in a row are the
same text. -/
theorem identities_unambiguous_borders :
    Cache.keyOfContent "src::a.rs" "b".toUTF8 ≠ Cache.keyOfContent "src" "a.rs::b".toUTF8 ∧
    GraphMetadata.message "app\x001" 2 ≠ GraphMetadata.message "app" 12 ∧
    (IdGenerator.mk .contentHash 0 0).strategy = .contentHash ∧
    (IdGenerator.mk .contentHash 0 0).identify (.edge .calls "ab" "c") =
      ("edge" ++ "_" ++ Sha256.head (Subject.edge .calls "ab" "c").message, ⟨.contentHash, 0, 0⟩) ∧
    (Subject.edge .calls "ab" "c").Unended ∧ (Subject.edge .calls "a" "bc").Unended ∧
    (Subject.edge .calls "ab" "c").message ≠ (Subject.edge .calls "a" "bc").message ∧
    (Subject.node .file "a" none).Unended ∧ (Subject.node .file "a" (some "")).Unended ∧
    (Subject.node .file "a" none).message = (Subject.node .file "a" (some "")).message := by
  obtain ⟨hkeys, -, hgraphs, hids, hsubjects⟩ := identities_unambiguous
  refine ⟨fun h => ?_, fun h => ?_, rfl, hids _ _ rfl, by decide, by decide, fun h => ?_,
    by decide, by decide, (hsubjects _ _ (by decide) (by decide)).2 rfl⟩
  · exact absurd ((hkeys _ _ _ _).1 h).1 (by decide)
  · exact absurd ((hgraphs _ _ _ _).1 h).2 (by decide)
  · exact absurd ((hsubjects _ _ (by decide) (by decide)).1 h) (by decide)

end CodeGraph
