import CodeGraph.Cache.Disk
import CodeGraph.Proofs.Json.RoundTrip
import CodeGraph.Proofs.Volume.Places

/-!
# The files of an entry

The digest of a key is sixty-four hexadecimal digits (`isDigest_keyDigest`), so it names a directory
and the files in it, which are plain names (`IsDigest.isPlain_append`) and those of no other digest
(`IsDigest.append_inj`). The sidecar that is written is the one that is read
(`Sidecar.decode?_encode`).
-/

namespace CodeGraph.Cache

open CodeGraph.Text
open CodeGraph.Path (IsPlain)

/-! ## Sidecars -/

theorem Sidecar.legible_toJson (m : Sidecar) : m.toJson.Legible := by
  simp [toJson, Json.Legible, Json.LegibleMembers, Json.ofWord, Json.LegibleNumber]

theorem Sidecar.decode?_encode (m : Sidecar) : Sidecar.decode? m.encode = some m := by
  have hread : record.read .start m.toJson.toOutline = .ok m := by
    obtain ⟨key, timestamp, size, version⟩ := m
    simp [record, toJson, Json.toOutline, Json.toMembers, Json.Record.read, Json.Record.readMembers,
      Json.Record.complete, Json.Origin.enter, Json.Origin.start, Json.Field.needed,
      Json.readString, Json.readStringAs, Except.map, bind, Except.bind]
    rfl
  rw [decode?, encode, Json.decodeBytes_compact _ m.legible_toJson, hread]
  rfl

/-! ## Digests -/

/-- The digits of digests. -/
def digits : List Char :=
  "0123456789abcdef".toList

theorem hexDigit_mem_digits (n : Nat) : hexDigit n ∈ digits := by
  have hall : ((List.range 16).all fun i => digits.contains (Nat.digitChar i)) = true := by decide
  have hi := List.all_eq_true.1 hall (n % 16) (List.mem_range.2 (Nat.mod_lt _ (by decide)))
  exact List.contains_iff_mem.1 hi

/-- The hexadecimal digits of either case. -/
def hexDigits : List Char :=
  "0123456789abcdefABCDEF".toList

theorem mem_hexDigits {c : Char} (hc : c ∈ digits) : c ∈ hexDigits := by
  have hall : digits.all hexDigits.contains = true := by decide
  exact List.contains_iff_mem.1 (List.all_eq_true.1 hall c hc)

theorem utf8Size_of_mem_hexDigits {c : Char} (hc : c ∈ hexDigits) : c.utf8Size = 1 := by
  have hall : (hexDigits.all fun c => c.utf8Size == 1) = true := by decide
  exact eq_of_beq (List.all_eq_true.1 hall c hc)

theorem utf8Size_of_mem_digits {c : Char} (hc : c ∈ digits) : c.utf8Size = 1 :=
  utf8Size_of_mem_hexDigits (mem_hexDigits hc)

/-- Sixty-four digits. -/
structure IsDigest (d : String) : Prop where
  length : d.toList.length = 64
  digit : ∀ c ∈ d.toList, c ∈ digits

/-- Sixty-four hexadecimal digits of either case, which are names of files just as digests are. -/
structure IsHex (d : String) : Prop where
  length : d.toList.length = 64
  digit : ∀ c ∈ d.toList, c ∈ hexDigits

theorem IsDigest.isHex {d : String} (hd : IsDigest d) : IsHex d :=
  ⟨hd.length, fun c hc => mem_hexDigits (hd.digit c hc)⟩

theorem length_hexWord (w : UInt32) : (Sha256.hexWord w).length = 8 := by
  simp [Sha256.hexWord]

theorem mem_hexWord {w : UInt32} {c : Char} (hc : c ∈ Sha256.hexWord w) : c ∈ digits := by
  obtain ⟨i, -, rfl⟩ := List.mem_map.1 hc
  exact hexDigit_mem_digits _

theorem isDigest_hex (message : List UInt8) : IsDigest (Sha256.hex message) := by
  constructor
  · simp [Sha256.hex, length_hexWord]
  · intro c hc
    rw [Sha256.hex, String.toList_ofList] at hc
    obtain ⟨w, -, hc⟩ := List.mem_flatMap.1 hc
    exact mem_hexWord hc

theorem isDigest_keyDigest (key : String) : IsDigest (keyDigest key) :=
  isDigest_hex _

theorem utf8ByteSize_ofList {l : List Char} (hl : ∀ c ∈ l, c.utf8Size = 1) :
    (String.ofList l).utf8ByteSize = l.length := by
  induction l with
  | nil => rfl
  | cons c l ih =>
    have happend : String.ofList (c :: l) = String.singleton c ++ String.ofList l := by
      apply String.toList_injective
      simp
    rw [happend, String.utf8ByteSize_append, String.utf8ByteSize_singleton,
      hl c (List.mem_cons_self ..), ih fun c hc => hl c (List.mem_cons_of_mem _ hc),
      List.length_cons, Nat.add_comm]

/-- The name of the directory of a digest. -/
def shardOf (d : String) : String :=
  String.ofList (d.toList.take 2)

/-- What the names of the files of an entry end in, finished or not. -/
def endings : List String :=
  [DiskCache.valueEnding, DiskCache.sidecarEnding,
    DiskCache.valueEnding ++ DiskCache.unfinishedEnding,
    DiskCache.sidecarEnding ++ DiskCache.unfinishedEnding]

theorem IsDigest.utf8ByteSize_ending_le {e : String} (he : e ∈ endings) : e.utf8ByteSize ≤ 14 := by
  have hall : ∀ e ∈ endings, e.utf8ByteSize ≤ 14 := by decide
  exact hall e he

/-- A name that starts with a digit is plain unless it is too long or has other signs in it. -/
theorem isPlain_of_head? {n : String} {a : Char} (hfirst : n.toList.head? = some a)
    (ha : a ∈ hexDigits) (hslash : '/' ∉ n.toList) (hend : '\x00' ∉ n.toList)
    (hsize : n.utf8ByteSize ≤ Volume.longestName) : IsPlain n := by
  have hdot : a ≠ '.' := by
    rintro rfl
    exact absurd ha (by decide)
  refine ⟨⟨?_, ?_, ?_, hsize⟩, hslash, hend⟩
  · rintro rfl
    simp at hfirst
  · rintro rfl
    exact hdot (by simpa using hfirst.symm)
  · rintro rfl
    exact hdot (by simpa using hfirst.symm)

namespace IsHex

variable {d : String} (hd : IsHex d)

include hd

theorem utf8ByteSize_eq : d.utf8ByteSize = 64 := by
  have h := utf8ByteSize_ofList fun c hc => utf8Size_of_mem_hexDigits (hd.digit c hc)
  rwa [String.ofList_toList, hd.length] at h

theorem exists_toList : ∃ a b rest, d.toList = a :: b :: rest ∧ a ∈ hexDigits ∧ b ∈ hexDigits := by
  have hlength := hd.length
  rcases hlist : d.toList with _ | ⟨a, _ | ⟨b, rest⟩⟩
  · simp [hlist] at hlength
  · simp [hlist] at hlength
  · exact ⟨a, b, rest, rfl, hd.digit a (by simp [hlist]), hd.digit b (by simp [hlist])⟩

theorem slash_not_mem : '/' ∉ d.toList :=
  fun h => absurd (hd.digit _ h) (by decide)

theorem end_not_mem : '\x00' ∉ d.toList :=
  fun h => absurd (hd.digit _ h) (by decide)

theorem dot_not_mem : '.' ∉ d.toList :=
  fun h => absurd (hd.digit _ h) (by decide)

theorem shard?_eq : DiskCache.shard? d = some (shardOf d) := by
  obtain ⟨a, b, rest, hlist, ha, hb⟩ := hd.exists_toList
  simp [DiskCache.shard?, shardOf, hlist, utf8Size_of_mem_hexDigits ha, utf8Size_of_mem_hexDigits hb]

theorem toList_shardOf : ∃ a b, (shardOf d).toList = [a, b] ∧ a ∈ hexDigits ∧ b ∈ hexDigits := by
  obtain ⟨a, b, rest, hlist, ha, hb⟩ := hd.exists_toList
  exact ⟨a, b, by simp [shardOf, hlist], ha, hb⟩

theorem utf8ByteSize_shardOf : (shardOf d).utf8ByteSize = 2 := by
  obtain ⟨a, b, hlist, ha, hb⟩ := hd.toList_shardOf
  rw [← String.ofList_toList (s := shardOf d), hlist,
    utf8ByteSize_ofList (by simp [utf8Size_of_mem_hexDigits ha, utf8Size_of_mem_hexDigits hb])]
  rfl

theorem isPlain_shardOf : IsPlain (shardOf d) := by
  obtain ⟨a, b, hlist, ha, hb⟩ := hd.toList_shardOf
  have hsub : ∀ c ∈ (shardOf d).toList, c ∈ d.toList := fun c hc => by
    rw [shardOf, String.toList_ofList] at hc
    exact List.mem_of_mem_take hc
  exact isPlain_of_head? (by rw [hlist]; rfl) ha (fun h => hd.slash_not_mem (hsub _ h))
    (fun h => hd.end_not_mem (hsub _ h)) (by rw [hd.utf8ByteSize_shardOf]; decide)

variable {e : String} (he : e ∈ endings)

include he

theorem isPlain_append : IsPlain (d ++ e) := by
  obtain ⟨a, b, rest, hlist, ha, hb⟩ := hd.exists_toList
  have hslash : ∀ e ∈ endings, '/' ∉ e.toList := by decide
  have hend : ∀ e ∈ endings, '\x00' ∉ e.toList := by decide
  refine isPlain_of_head? (a := a) (by simp [hlist]) ha ?_ ?_ ?_
  · simpa using ⟨hd.slash_not_mem, hslash e he⟩
  · simpa using ⟨hd.end_not_mem, hend e he⟩
  · have hsize := IsDigest.utf8ByteSize_ending_le he
    rw [String.utf8ByteSize_append, hd.utf8ByteSize_eq]
    exact Nat.le_trans (Nat.add_le_add_left hsize 64) (by decide)

omit he in
/-- No two entries, and no two files of one, have the same name. -/
theorem append_inj {d' e' : String} (hd' : IsHex d') (h : d ++ e = d' ++ e') :
    d = d' ∧ e = e' := by
  have hlist := congrArg String.toList h
  rw [String.toList_append, String.toList_append] at hlist
  obtain ⟨hfront, hback⟩ := List.append_inj hlist (hd.length.trans hd'.length.symm)
  exact ⟨String.toList_inj.1 hfront, String.toList_inj.1 hback⟩

end IsHex

/-! ## Names without their endings -/

theorem withoutEnding?_eq_some_iff {ending name d : String} :
    DiskCache.withoutEnding? ending name = some d ↔ name = d ++ ending := by
  rw [DiskCache.withoutEnding?]
  constructor
  · intro h
    simp only [Option.ite_none_right_eq_some, Option.some.injEq] at h
    obtain ⟨hsuffix, rfl⟩ := h
    obtain ⟨front, hfront⟩ := List.isSuffixOf_iff_suffix.1 hsuffix
    apply String.toList_injective
    simp [← hfront]
  · rintro rfl
    rw [if_pos (by simp)]
    simp

/-- A file of an entry that ends as a sidecar does is the sidecar. -/
theorem IsHex.eq_of_append_sidecarEnding {d e x : String} (hd : IsHex d) (he : e ∈ endings)
    (h : d ++ e = x ++ DiskCache.sidecarEnding) : d = x := by
  have hlist := congrArg String.toList h
  rw [String.toList_append, String.toList_append] at hlist
  have hsidecar : DiskCache.sidecarEnding.toList = ".meta".toList ++ ".json".toList := by decide
  have hlast := congrArg List.getLast? hlist
  rw [List.getLast?_append, List.getLast?_append] at hlast
  simp only [endings, List.mem_cons, List.not_mem_nil, or_false] at he
  rcases he with rfl | rfl | rfl | rfl
  · have hvalue : DiskCache.valueEnding.toList = ".json".toList := by decide
    rw [hsidecar, hvalue, ← List.append_assoc] at hlist
    have hdot : '.' ∈ d.toList := by
      rw [List.append_cancel_right hlist]
      exact List.mem_append_right _ (by decide)
    exact absurd hdot hd.dot_not_mem
  · exact String.toList_inj.1 (List.append_cancel_right hlist)
  · have hp : (DiskCache.valueEnding ++ DiskCache.unfinishedEnding).toList.getLast? = some 'p' := by
      decide
    have hn : DiskCache.sidecarEnding.toList.getLast? = some 'n' := by decide
    rw [hp, hn] at hlast
    simp at hlast
  · have hp : (DiskCache.sidecarEnding ++ DiskCache.unfinishedEnding).toList.getLast? = some 'p' :=
      by decide
    have hn : DiskCache.sidecarEnding.toList.getLast? = some 'n' := by decide
    rw [hp, hn] at hlast
    simp at hlast

theorem withoutEnding?_append (ending d : String) :
    DiskCache.withoutEnding? ending (d ++ ending) = some d :=
  withoutEnding?_eq_some_iff.2 rfl

theorem getLast?_append_ending {d e : String} {c : Char} (h : e.toList.getLast? = some c) :
    (d ++ e).toList.getLast? = some c := by
  rw [String.toList_append, List.getLast?_append, h, Option.some_or]

/-- A finished file of an entry does not end as an unfinished one. -/
theorem withoutEnding?_unfinished {d e : String}
    (he : e = DiskCache.valueEnding ∨ e = DiskCache.sidecarEnding) :
    DiskCache.withoutEnding? DiskCache.unfinishedEnding (d ++ e) = none := by
  rcases hending : DiskCache.withoutEnding? DiskCache.unfinishedEnding (d ++ e) with _ | x
  · rfl
  · have hn : e.toList.getLast? = some 'n' := by rcases he with rfl | rfl <;> decide
    have hp : DiskCache.unfinishedEnding.toList.getLast? = some 'p' := by decide
    have hlast := getLast?_append_ending (d := d) hn
    rw [withoutEnding?_eq_some_iff.1 hending, getLast?_append_ending hp] at hlast
    cases hlast

theorem IsHex.withoutEnding?_value {d : String} (hd : IsHex d) :
    DiskCache.withoutEnding? DiskCache.sidecarEnding (d ++ DiskCache.valueEnding) = none := by
  rcases hending : DiskCache.withoutEnding? DiskCache.sidecarEnding
    (d ++ DiskCache.valueEnding) with _ | x
  · rfl
  · have hname := withoutEnding?_eq_some_iff.1 hending
    obtain rfl := hd.eq_of_append_sidecarEnding (by decide) hname
    exact absurd (hd.append_inj hd hname).2 (by decide)

theorem isSome_withoutEnding?_unfinished {d e : String} (he : e ∈ endings)
    (hvalue : e ≠ DiskCache.valueEnding) (hsidecar : e ≠ DiskCache.sidecarEnding) :
    (DiskCache.withoutEnding? DiskCache.unfinishedEnding (d ++ e)).isSome := by
  obtain ⟨x, rfl⟩ : ∃ x, e = x ++ DiskCache.unfinishedEnding := by
    simp only [endings, List.mem_cons, List.not_mem_nil, or_false] at he
    rcases he with rfl | rfl | rfl | rfl
    · exact absurd rfl hvalue
    · exact absurd rfl hsidecar
    · exact ⟨_, rfl⟩
    · exact ⟨_, rfl⟩
  rw [← String.append_assoc, withoutEnding?_append]
  rfl

/-! ## How a scan looks at a name -/

section ScanName

variable (path : String) (all : List String) {d e : String}

theorem scanName_sidecar (d : String) :
    DiskCache.scanName path all (d ++ DiskCache.sidecarEnding) = (do
      match ← DiskCache.readSidecar (Path.join path (d ++ DiskCache.sidecarEnding)) with
      | .missing => return []
      | .found m =>
        if m.version = Sidecar.currentVersion then return [(d, m.indexed)]
        else
          DiskCache.removeFiles d
          return []
      | .corrupt =>
        DiskCache.removeFiles d
        return []) := by
  rw [DiskCache.scanName, withoutEnding?_unfinished (.inr rfl), withoutEnding?_append]
  rfl

theorem scanName_value
    (hd : DiskCache.withoutEnding? DiskCache.sidecarEnding (d ++ DiskCache.valueEnding) = none) :
    DiskCache.scanName path all (d ++ DiskCache.valueEnding) =
      if d ++ DiskCache.sidecarEnding ∈ all then return []
      else do
        DiskCache.removeIfPresent (Path.join path (d ++ DiskCache.valueEnding))
        return [] := by
  rw [DiskCache.scanName, withoutEnding?_unfinished (.inl rfl), hd, withoutEnding?_append]
  simp only [Option.isSome_none, Bool.false_eq_true, if_false, List.contains_iff_mem]

theorem scanName_unfinished (he : e ∈ endings) (hvalue : e ≠ DiskCache.valueEnding)
    (hsidecar : e ≠ DiskCache.sidecarEnding) :
    DiskCache.scanName path all (d ++ e) = do
      DiskCache.removeIfPresent (Path.join path (d ++ e))
      return [] := by
  rw [DiskCache.scanName, if_pos (isSome_withoutEnding?_unfinished he hvalue hsidecar)]

end ScanName

/-- What the name of a file stands for when it is known what the sidecars record. -/
def entryFor (g : String → Option IndexedEntry) (d e : String) : List (String × IndexedEntry) :=
  if e = DiskCache.sidecarEnding then ((g d).map fun i => (d, i)).toList else []

theorem mem_entryFor {g : String → Option IndexedEntry} {d e : String} (hd : IsHex d)
    (he : e ∈ endings) {p : String × IndexedEntry} :
    p ∈ entryFor g d e ↔ d ++ e = p.1 ++ DiskCache.sidecarEnding ∧ g p.1 = some p.2 := by
  rw [entryFor]
  constructor
  · intro hp
    split at hp
    · next hending =>
      rw [Option.mem_toList, Option.map_eq_some_iff] at hp
      obtain ⟨i, hi, rfl⟩ := hp
      exact ⟨by rw [hending], hi⟩
    · cases hp
  · rintro ⟨hname, hrecord⟩
    obtain rfl := hd.eq_of_append_sidecarEnding he hname
    rw [if_pos (hd.append_inj hd hname).2, Option.mem_toList, hrecord]
    rfl

/-! ## Digests of keys -/

namespace IsDigest

variable {d d' e e' x : String} (hd : IsDigest d)

include hd

theorem utf8ByteSize_eq : d.utf8ByteSize = 64 := hd.isHex.utf8ByteSize_eq

theorem slash_not_mem : '/' ∉ d.toList := hd.isHex.slash_not_mem

theorem shard?_eq : DiskCache.shard? d = some (shardOf d) := hd.isHex.shard?_eq

theorem utf8ByteSize_shardOf : (shardOf d).utf8ByteSize = 2 := hd.isHex.utf8ByteSize_shardOf

theorem isPlain_shardOf : IsPlain (shardOf d) := hd.isHex.isPlain_shardOf

theorem isPlain_append (he : e ∈ endings) : IsPlain (d ++ e) := hd.isHex.isPlain_append he

theorem append_inj (hd' : IsDigest d') (h : d ++ e = d' ++ e') : d = d' ∧ e = e' :=
  hd.isHex.append_inj hd'.isHex h

theorem eq_of_append_sidecarEnding (he : e ∈ endings) (h : d ++ e = x ++ DiskCache.sidecarEnding) :
    d = x :=
  hd.isHex.eq_of_append_sidecarEnding he h

theorem withoutEnding?_value :
    DiskCache.withoutEnding? DiskCache.sidecarEnding (d ++ DiskCache.valueEnding) = none :=
  hd.isHex.withoutEnding?_value

end IsDigest

end CodeGraph.Cache
