import CodeGraph.Proofs.Cache.Entry

/-!
# The directory of the disk layer

A `Shelf` is a directory that a cache may use. It holds nothing but files of entries, each in the
directory of its digest (`Shelf.Stocked`). What it holds is then told by the contents of these files
(`Shelf.fileAt`), and every operation on one of them changes the content of that file and no other
(`Shelf.Stocked.removeFile`, `Shelf.Stocked.writeFile`, `Shelf.Stocked.rename`).

A cache may find an empty directory or none at all (`Fresh`); the first write makes it.
-/

namespace CodeGraph.Cache

open Volume (LeadsTo Within)
open CodeGraph.Path (IsPlain)

/-- A directory for the files of entries: its path, which leaves room for their names, where that
leads, and a volume in which there is nothing in it yet. -/
structure Shelf where
  path : String
  base : List String
  ground : Volume
  leads : ground.LeadsTo path base
  bare : ∀ r, r ≠ [] → ground.item? (base ++ r) = none
  roomy : path.utf8ByteSize + 82 ≤ Volume.longestPath

/-- The path of a file of an entry. -/
def filePath (dir d e : String) : String :=
  Path.join (Path.join dir (shardOf d)) (d ++ e)

theorem utf8ByteSize_filePath_le {dir d e : String} (hdir : dir ≠ "") (hd : IsDigest d)
    (he : e ∈ endings) : (filePath dir d e).utf8ByteSize ≤ dir.utf8ByteSize + 82 := by
  have h := Path.utf8ByteSize_join_le hdir hd.isPlain_shardOf
  have h' := Path.utf8ByteSize_join_le (Path.join_ne_empty hdir hd.isPlain_shardOf)
    (hd.isPlain_append he)
  have hending := IsDigest.utf8ByteSize_ending_le he
  rw [hd.utf8ByteSize_shardOf] at h
  rw [String.utf8ByteSize_append, hd.utf8ByteSize_eq] at h'
  rw [filePath]
  omega

namespace Shelf

/-- Where a file of an entry is. -/
def place (S : Shelf) (d e : String) : List String :=
  S.base ++ [shardOf d, d ++ e]

/-- The content of a file of an entry. -/
def fileAt (S : Shelf) (v : Volume) (d e : String) : Option ByteArray :=
  match v.item? (S.place d e) with
  | some (.file content) => some content
  | _ => none

/-- Whether there is the directory of a digest. -/
def HasShard (S : Shelf) (v : Volume) (d : String) : Prop :=
  v.item? (S.base ++ [shardOf d]) = some .directory

/-- What there is in the directory of a cache. -/
inductive Known (S : Shelf) (v : Volume) : List String → Item → Prop
  | shard {d : String} : IsDigest d → Known S v [shardOf d] .directory
  | file {d e : String} {content : ByteArray} : IsDigest d → e ∈ endings → S.HasShard v d →
      Known S v [shardOf d, d ++ e] (.file content)

/-- The directory holds nothing but files of entries, and lists each name once. -/
structure Stocked (S : Shelf) (v : Volume) : Prop where
  within : S.ground.Within v
  known : ∀ r i, r ≠ [] → v.item? (S.base ++ r) = some i → S.Known v r i
  listed : (v.children S.base).Nodup

/-- There is no directory, but it can be made. -/
structure Makeable (S : Shelf) (v : Volume) : Prop where
  tree : v.IsTree
  readDir : v.readDir S.path = .error .notFound
  makeDirs : v.makeDirs S.path = .ok S.ground

theorem stocked_ground (S : Shelf) : S.Stocked S.ground := by
  refine ⟨.refl _, fun r i hr hi => (by rw [S.bare r hr] at hi; cases hi), ?_⟩
  have hnone : S.ground.children S.base = [] := by
    refine List.eq_nil_iff_forall_not_mem.2 fun n hn => ?_
    rw [Volume.mem_children, S.bare [n] (by simp)] at hn
    cases hn
  rw [hnone]
  exact List.nodup_nil

theorem ne_empty (S : Shelf) : S.path ≠ "" := S.leads.ne_empty

section Paths

variable {S : Shelf} {d e : String} (hd : IsDigest d)

include hd

theorem shard_short : (Path.join S.path (shardOf d)).utf8ByteSize ≤ Volume.longestPath := by
  have h := Path.utf8ByteSize_join_le S.ne_empty hd.isPlain_shardOf
  have hroomy := S.roomy
  rw [hd.utf8ByteSize_shardOf] at h
  omega

theorem file_short (he : e ∈ endings) :
    (filePath S.path d e).utf8ByteSize ≤ Volume.longestPath :=
  Nat.le_trans (utf8ByteSize_filePath_le S.ne_empty hd he) S.roomy

end Paths

theorem place_eq (S : Shelf) (d e : String) :
    S.place d e = S.base ++ [shardOf d] ++ [d ++ e] :=
  List.append_cons ..

theorem place_inj {S : Shelf} {d d' e e' : String} (hd : IsDigest d) (hd' : IsDigest d')
    (h : S.place d e = S.place d' e') : d = d' ∧ e = e' := by
  have hname : d ++ e = d' ++ e' := by
    have := List.append_cancel_left h
    simp only [List.cons.injEq, and_true] at this
    exact this.2
  exact hd.append_inj hd' hname

/-! ## Looking -/

section Looking

variable {S : Shelf} {v : Volume} {d e : String} {content : ByteArray}
  (h : S.Stocked v) (hd : IsDigest d)

include h

theorem Stocked.item?_place (hne : v.item? (S.place d e) ≠ none) :
    ∃ content, S.fileAt v d e = some content ∧ v.item? (S.place d e) = some (.file content) ∧
      S.HasShard v d := by
  obtain ⟨i, hi⟩ := Option.ne_none_iff_exists'.1 hne
  have hknown := h.known [shardOf d, d ++ e] i (by simp) hi
  generalize hr : [shardOf d, d ++ e] = r at hknown
  cases hknown with
  | shard => simp at hr
  | @file d' e' content hd' _ hshard =>
    simp only [List.cons.injEq, and_true] at hr
    refine ⟨content, by rw [fileAt, hi], hi, ?_⟩
    rw [HasShard, hr.1]
    exact hshard

theorem Stocked.item?_place_of_fileAt (hfile : S.fileAt v d e = some content) :
    v.item? (S.place d e) = some (.file content) ∧ S.HasShard v d := by
  have hne : v.item? (S.place d e) ≠ none := fun hnone => by
    rw [fileAt, hnone] at hfile
    cases hfile
  obtain ⟨content', hfile', hitem, hshard⟩ := h.item?_place hne
  rw [hfile] at hfile'
  cases hfile'
  exact ⟨hitem, hshard⟩

theorem Stocked.item?_place_of_fileAt_none (hfile : S.fileAt v d e = none) :
    v.item? (S.place d e) = none := by
  by_cases hne : v.item? (S.place d e) = none
  · exact hne
  · obtain ⟨content, hfile', -⟩ := h.item?_place hne
    rw [hfile] at hfile'
    cases hfile'

theorem Stocked.shard_none_or :
    v.item? (S.base ++ [shardOf d]) = none ∨ S.HasShard v d := by
  rcases hitem : v.item? (S.base ++ [shardOf d]) with _ | i
  · exact .inl rfl
  · have hknown := h.known [shardOf d] i (by simp) hitem
    generalize hr : [shardOf d] = r at hknown
    cases hknown with
    | shard => exact .inr hitem
    | file => simp at hr

/-- The directory lists the directories of digests in it. -/
theorem Stocked.mem_children {n : String} :
    n ∈ v.children S.base ↔ ∃ d, IsDigest d ∧ n = shardOf d ∧ S.HasShard v d := by
  rw [Volume.mem_children]
  constructor
  · intro hn
    obtain ⟨i, hi⟩ := Option.isSome_iff_exists.1 hn
    have hknown := h.known [n] i (by simp) hi
    generalize hr : [n] = r at hknown
    cases hknown with
    | @shard d hd =>
      obtain rfl : n = shardOf d := by simpa using hr
      exact ⟨d, hd, rfl, hi⟩
    | file => simp at hr
  · rintro ⟨d, -, rfl, hshard⟩
    rw [hshard]
    rfl

/-- The directory of a digest lists the files of the entries in it. -/
theorem Stocked.mem_children_shard {n : String} :
    n ∈ v.children (S.base ++ [shardOf d]) ↔
      ∃ d' e, IsDigest d' ∧ e ∈ endings ∧ n = d' ++ e ∧ shardOf d' = shardOf d ∧
        S.fileAt v d' e ≠ none := by
  rw [Volume.mem_children, ← List.append_cons]
  constructor
  · intro hn
    obtain ⟨i, hi⟩ := Option.isSome_iff_exists.1 hn
    have hknown := h.known [shardOf d, n] i (by simp) hi
    generalize hr : [shardOf d, n] = r at hknown
    cases hknown with
    | shard => simp at hr
    | @file d' e content hd' he =>
      simp only [List.cons.injEq, and_true] at hr
      refine ⟨d', e, hd', he, hr.2, hr.1.symm, ?_⟩
      rw [fileAt, place, ← hr.1, ← hr.2, hi]
      simp
  · rintro ⟨d', e, -, -, rfl, hshard, hfile⟩
    obtain ⟨content, hcontent⟩ := Option.ne_none_iff_exists'.1 hfile
    have hitem := (h.item?_place_of_fileAt hcontent).1
    rw [place, hshard] at hitem
    rw [hitem]
    rfl

theorem Stocked.leads : v.LeadsTo S.path S.base := S.leads.within h.within

include hd

theorem Stocked.leads_shard (hshard : S.HasShard v d) :
    v.LeadsTo (Path.join S.path (shardOf d)) (S.base ++ [shardOf d]) :=
  h.leads.join hd.isPlain_shardOf
    (shard_short hd) hshard

variable (he : e ∈ endings)

include he

theorem Stocked.resolve_filePath (follow : Bool) (hfile : S.fileAt v d e = none) :
    v.find follow (filePath S.path d e) = .error .notFound := by
  have hlen := file_short (S := S) hd he
  rcases h.shard_none_or (d := d) with hnone | hshard
  · rw [Volume.find, filePath, h.leads.resolve_join_join hd.isPlain_shardOf
      (hd.isPlain_append he) hlen hnone]
    rfl
  · have hplace := h.item?_place_of_fileAt_none hfile
    rw [place_eq] at hplace
    exact (h.leads_shard hd hshard).find_join_missing (hd.isPlain_append he) hlen hplace follow

theorem Stocked.readFile (hfile : S.fileAt v d e = some content) :
    v.readFile (filePath S.path d e) = .ok content := by
  obtain ⟨hitem, hshard⟩ := h.item?_place_of_fileAt hfile
  rw [place_eq] at hitem
  exact (h.leads_shard hd hshard).readFile_join (hd.isPlain_append he)
    (file_short hd he) hitem

theorem Stocked.readFile_none (hfile : S.fileAt v d e = none) :
    v.readFile (filePath S.path d e) = .error .notFound := by
  rw [Volume.readFile, h.resolve_filePath hd he true hfile]
  rfl

theorem Stocked.removeFile_none (hfile : S.fileAt v d e = none) :
    v.removeFile (filePath S.path d e) = .error .notFound := by
  rw [Volume.removeFile, h.resolve_filePath hd he false hfile]
  rfl

end Looking

/-! ## Changing -/

/-- The content of one file is another one, and all else is as it was. -/
structure Changed (S : Shelf) (v v' : Volume) (d e : String) (content : Option ByteArray) : Prop
    where
  stocked : S.Stocked v'
  file : ∀ d' e', IsDigest d' →
    S.fileAt v' d' e' = if d' = d ∧ e' = e then content else S.fileAt v d' e'
  shard : ∀ d', S.HasShard v d' → S.HasShard v' d'

theorem Known.mono {S : Shelf} {v v' : Volume} {r : List String} {i : Item} (h : S.Known v r i)
    (hshard : ∀ d, S.HasShard v d → S.HasShard v' d) : S.Known v' r i := by
  cases h with
  | shard hd => exact .shard hd
  | file hd he hs => exact .file hd he (hshard _ hs)

/-- What is not below the directory is as it was before anything was there. -/
theorem within_of_item? {S : Shelf} {v v' : Volume} (h : S.ground.Within v)
    (hcurrent : v'.current = v.current)
    (hitem : ∀ q, (∀ r, r ≠ [] → q ≠ S.base ++ r) → v'.item? q = v.item? q) :
    S.ground.Within v' := by
  refine ⟨hcurrent.trans h.current, fun q i hi => ?_⟩
  rw [hitem q]
  · exact h.item q i hi
  · rintro r hr rfl
    rw [S.bare r hr] at hi
    cases hi

theorem prefix_place {S : Shelf} {r : List String} {d e : String}
    (h : S.place d e <+: S.base ++ r) : [shardOf d, d ++ e] <+: r :=
  (List.prefix_append_right_inj S.base).1 h

section Changing

variable {S : Shelf} {v : Volume} {d e : String} {content : ByteArray}
  (h : S.Stocked v) (hd : IsDigest d) (he : e ∈ endings)

include h hd

theorem Stocked.remove : S.Changed v (v.remove (S.place d e)) d e none := by
  have hitem : ∀ q, ¬ S.place d e <+: q → (v.remove (S.place d e)).item? q = v.item? q :=
    fun q hq => by
      rw [Volume.item?_remove, if_neg]
      rintro ⟨-, hbelow⟩
      exact hq (List.isPrefixOf_iff_prefix.1 hbelow)
  have hshard : ∀ d', S.HasShard v d' → S.HasShard (v.remove (S.place d e)) d' :=
    fun d' hs => by
      rw [HasShard, hitem]
      · exact hs
      · intro hbelow
        have := (prefix_place hbelow).length_le
        simp at this
  refine ⟨⟨within_of_item? h.within (Volume.current_remove _ _) fun q hq => hitem q ?_, ?_,
    Volume.nodup_children_remove _ h.listed⟩, ?_, hshard⟩
  · rintro ⟨t, rfl⟩
    exact hq ([shardOf d, d ++ e] ++ t) (by simp) (List.append_assoc ..)
  · exact fun r i hr hi => (h.known r i hr (Volume.item?_of_remove hi)).mono hshard
  -- All files are as deep as this one, so none of them is below it.
  · intro d' e' hd'
    by_cases hsame : d' = d ∧ e' = e
    · obtain ⟨rfl, rfl⟩ := hsame
      rw [if_pos ⟨rfl, rfl⟩, fileAt, Volume.item?_remove, if_pos]
      exact ⟨by simp [place], by simp⟩
    · rw [if_neg hsame, fileAt, fileAt, hitem]
      intro hbelow
      have heq := (hbelow.eq_of_length (by simp [place])).symm
      exact hsame (place_inj hd' hd heq)

include he

theorem Stocked.put (content : ByteArray) (hshard : S.HasShard v d) :
    S.Changed v (v.put (S.place d e) (.file content)) d e (some content) := by
  have hne : S.place d e ≠ [] := by simp [place]
  have hshard' : ∀ d', S.HasShard v d' →
      S.HasShard (v.put (S.place d e) (.file content)) d' := fun d' hs => by
    rw [HasShard, Volume.item?_put v hne, if_neg]
    · exact hs
    · intro heq
      have := congrArg List.length heq
      simp [place] at this
  refine ⟨⟨within_of_item? h.within (Volume.current_put ..) fun q hq => ?_, ?_,
    Volume.nodup_children_put hne _ h.listed⟩, ?_, hshard'⟩
  · rw [Volume.item?_put v hne, if_neg]
    exact hq _ (by simp)
  · intro r i hr hi
    rw [Volume.item?_put v hne] at hi
    split at hi
    · next heq =>
      obtain rfl := List.append_cancel_left heq
      cases hi
      exact .file hd he (hshard' d hshard)
    · exact (h.known r i hr hi).mono hshard'
  · intro d' e' hd'
    rw [fileAt, Volume.item?_put v hne]
    by_cases hsame : d' = d ∧ e' = e
    · obtain ⟨rfl, rfl⟩ := hsame
      rw [if_pos rfl, if_pos ⟨rfl, rfl⟩]
    · rw [if_neg fun heq => hsame (place_inj hd' hd heq), if_neg hsame, fileAt]

omit he in
/-- A directory of a digest that is put in place changes no file. -/
theorem Stocked.putShard (hnone : v.item? (S.base ++ [shardOf d]) = none) :
    let v' := v.put (S.base ++ [shardOf d]) .directory
    S.Stocked v' ∧ S.HasShard v' d ∧
      (∀ d' e', S.fileAt v' d' e' = S.fileAt v d' e') ∧
      ∀ d', S.HasShard v d' → S.HasShard v' d' := by
  intro v'
  have hne : S.base ++ [shardOf d] ≠ [] := by simp
  have hitem : ∀ q, q ≠ S.base ++ [shardOf d] → v'.item? q = v.item? q := fun q hq => by
    rw [Volume.item?_put v hne, if_neg hq]
  have hnew : S.HasShard v' d := by
    rw [HasShard, Volume.item?_put v hne, if_pos rfl]
  have hshard : ∀ d', S.HasShard v d' → S.HasShard v' d' := fun d' hs => by
    rw [HasShard, hitem]
    · exact hs
    · intro heq
      rw [HasShard, heq, hnone] at hs
      cases hs
  refine ⟨⟨within_of_item? h.within (Volume.current_put ..) fun q hq => hitem q (hq _ (by simp)), ?_,
    Volume.nodup_children_put hne _ h.listed⟩, hnew, fun d' e' => ?_, hshard⟩
  · intro r i hr hi
    by_cases heq : S.base ++ r = S.base ++ [shardOf d]
    · obtain rfl := List.append_cancel_left heq
      rw [HasShard] at hnew
      rw [hnew] at hi
      cases hi
      exact .shard hd
    · rw [hitem _ heq] at hi
      exact (h.known r i hr hi).mono hshard
  · rw [fileAt, fileAt, hitem]
    intro heq
    have := congrArg List.length heq
    simp [place] at this

theorem Stocked.removeFile (hfile : S.fileAt v d e = some content) :
    ∃ v', v.removeFile (filePath S.path d e) = .ok v' ∧ S.Changed v v' d e none := by
  obtain ⟨hitem, hshard⟩ := h.item?_place_of_fileAt hfile
  rw [place_eq] at hitem
  refine ⟨_, (h.leads_shard hd hshard).removeFile_join (hd.isPlain_append he)
    (file_short hd he) hitem, ?_⟩
  have := h.remove (e := e) hd
  rwa [place_eq] at this

omit hd he in
theorem Stocked.file_of_item? (i : Item) (hi : v.item? (S.base ++ [shardOf d] ++ [d ++ e]) = some i) :
    ∃ old, i = .file old := by
  rw [← List.append_cons] at hi
  obtain ⟨old, -, hitem, -⟩ := h.item?_place (d := d) (e := e) (by simp [place, hi])
  rw [place, hi] at hitem
  exact ⟨old, by simpa using hitem⟩

theorem Stocked.writeFile (hshard : S.HasShard v d) (content : ByteArray) :
    ∃ v', v.writeFile (filePath S.path d e) content = .ok v' ∧
      S.Changed v v' d e (some content) := by
  refine ⟨_, (h.leads_shard hd hshard).writeFile_join (hd.isPlain_append he)
    (file_short hd he) fun i hi =>
      h.file_of_item? i hi, ?_⟩
  have := h.put hd he content hshard
  rwa [place_eq] at this

/-- A file of an entry can be moved to the place of another one of it. -/
theorem Stocked.rename {e' : String} (he' : e' ∈ endings) (hne : e ≠ e')
    (hfile : S.fileAt v d e = some content) :
    ∃ v₁ v', v.rename (filePath S.path d e) (filePath S.path d e') = .ok v' ∧
      S.Changed v v₁ d e none ∧ S.Changed v₁ v' d e' (some content) := by
  obtain ⟨hitem, hshard⟩ := h.item?_place_of_fileAt hfile
  have hname : d ++ e ≠ d ++ e' := fun heq => hne (hd.append_inj hd heq).2
  have hremove := h.remove (e := e) hd
  have hput := hremove.stocked.put hd he' content (hremove.shard d hshard)
  rw [place_eq] at hitem
  refine ⟨v.remove (S.place d e), _, (h.leads_shard hd hshard).rename_join (hd.isPlain_append he)
    (file_short hd he) (hd.isPlain_append he')
    (file_short hd he') hname hitem
    (fun i hi => h.file_of_item? i hi), hremove, ?_⟩
  rw [place_eq S d e, place_eq S d e'] at hput
  rw [place_eq S d e]
  exact hput

omit he in
theorem Stocked.makeDirs :
    ∃ v', v.makeDirs (Path.join S.path (shardOf d)) = .ok v' ∧ S.Stocked v' ∧
      S.HasShard v' d ∧ (∀ d' e', S.fileAt v' d' e' = S.fileAt v d' e') ∧
      ∀ d', S.HasShard v d' → S.HasShard v' d' := by
  have hlen := shard_short (S := S) hd
  rcases h.shard_none_or (d := d) with hnone | hshard
  · exact ⟨_, h.leads.makeDirs_join hd.isPlain_shardOf hlen hnone, h.putShard hd hnone⟩
  · exact ⟨v, h.leads.makeDirs_join_of_directory hd.isPlain_shardOf hlen hshard, h, hshard,
      fun _ _ => rfl, fun _ hs => hs⟩

end Changing

/-! ## A directory that is missing -/

/-- What a cache may find and leave: its directory, or none as long as it has not been made. -/
inductive Site (S : Shelf) (v : Volume) : Prop
  | missing (h : S.Makeable v)
  | stocked (h : S.Stocked v)

section Missing

variable {S : Shelf} {v : Volume} {d e : String} {content : ByteArray}
  (h : S.Makeable v) (hd : IsDigest d)

include h

theorem Makeable.fileAt : S.fileAt v d e = none := by
  have hnone : v.item? (S.place d e) = none := by
    rcases hitem : v.item? (S.place d e) with _ | i
    · rfl
    · have := (Volume.within_makeDirs h.makeDirs).item _ _ hitem
      rw [place, S.bare _ (by simp)] at this
      cases this
  rw [Shelf.fileAt, hnone]

include hd

/-- No file of an entry is found in a directory that is missing. -/
theorem Makeable.find (he : e ∈ endings) (follow : Bool) :
    v.find follow (filePath S.path d e) = .error .notFound := by
  rw [Volume.find, filePath, Volume.resolve_join_join_missing h.tree h.readDir S.leads.ne_empty
    S.leads.unended S.leads.short hd.isPlain_shardOf (hd.isPlain_append he) (file_short hd he)]
  rfl

/-- The directory of a digest can be made together with the directory itself. -/
theorem Makeable.makeDirs_shard :
    ∃ v', v.makeDirs (Path.join S.path (shardOf d)) = .ok v' ∧ S.Stocked v' ∧
      S.HasShard v' d ∧ ∀ d' e', S.fileAt v' d' e' = none := by
  have hnone : S.ground.item? (S.base ++ [shardOf d]) = none := S.bare _ (by simp)
  obtain ⟨hstocked, hshard, hfile, -⟩ := S.stocked_ground.putShard hd hnone
  refine ⟨_, Volume.makeDirs_join_missing hd.isPlain_shardOf h.tree h.readDir h.makeDirs S.leads
    (shard_short hd) hnone, hstocked, hshard, fun d' e' => ?_⟩
  rw [hfile, Shelf.fileAt, place, S.bare _ (by simp)]

end Missing

section Site

variable {S : Shelf} {v : Volume} {d e : String} (h : S.Site v) (hd : IsDigest d)

include h

/-- Nothing but directories of digests is listed in the directory. -/
theorem Site.readDir {names : List String} (hnames : v.readDir S.path = .ok names) {n : String}
    (hn : n ∈ names) : ∃ d, IsDigest d ∧ n = shardOf d := by
  cases h with
  | missing h =>
    rw [h.readDir] at hnames
    cases hnames
  | stocked h =>
    rw [h.leads.readDir] at hnames
    cases hnames
    obtain ⟨d, hd, hname, -⟩ := h.mem_children.1 hn
    exact ⟨d, hd, hname⟩

include hd

/-- Nothing but files of entries is listed in the directory of a digest. -/
theorem Site.readDir_shard {names : List String}
    (hnames : v.readDir (Path.join S.path (shardOf d)) = .ok names) {n : String} (hn : n ∈ names) :
    ∃ d' e, IsDigest d' ∧ e ∈ endings ∧ n = d' ++ e ∧ shardOf d' = shardOf d := by
  obtain ⟨q, hq⟩ : ∃ q, v.find true (Path.join S.path (shardOf d)) = .ok (q, .directory) := by
    rw [Volume.readDir] at hnames
    rcases hfind : v.find true (Path.join S.path (shardOf d)) with err | ⟨q, _ | _ | _⟩
    all_goals
      rw [hfind] at hnames
    · cases hnames
    · cases hnames
    · exact ⟨q, rfl⟩
    · cases hnames
  cases h with
  | missing h =>
    have hq' := Volume.find_within (Volume.within_makeDirs h.makeDirs) hq
    rw [S.leads.find_join_missing hd.isPlain_shardOf (shard_short hd) (S.bare _ (by simp))] at hq'
    cases hq'
  | stocked h =>
    have hshard : S.HasShard v d := by
      rcases h.shard_none_or (d := d) with hnone | hshard
      · rw [h.leads.find_join_missing hd.isPlain_shardOf (shard_short hd) hnone] at hq
        cases hq
      · exact hshard
    rw [(h.leads_shard hd hshard).readDir] at hnames
    cases hnames
    obtain ⟨d', e, hd', he, hname, hsame, -⟩ := h.mem_children_shard.1 hn
    exact ⟨d', e, hd', he, hname, hsame⟩

variable (he : e ∈ endings)

include he

theorem Site.removeFile {v' : Volume}
    (hremove : v.removeFile (filePath S.path d e) = .ok v') : S.Changed v v' d e none := by
  cases h with
  | missing h =>
    rw [Volume.removeFile, h.find hd he false] at hremove
    cases hremove
  | stocked h =>
    rcases hfile : S.fileAt v d e with _ | content
    · rw [h.removeFile_none hd he hfile] at hremove
      cases hremove
    · obtain ⟨v'', hremove', hchanged⟩ := h.removeFile hd he hfile
      rw [hremove] at hremove'
      cases hremove'
      exact hchanged

theorem Site.readFile {content : ByteArray}
    (hread : v.readFile (filePath S.path d e) = .ok content) :
    S.fileAt v d e = some content := by
  cases h with
  | missing h =>
    rw [Volume.readFile, h.find hd he true] at hread
    cases hread
  | stocked h =>
    rcases hfile : S.fileAt v d e with _ | content'
    · rw [h.readFile_none hd he hfile] at hread
      cases hread
    · rw [h.readFile hd he hfile] at hread
      cases hread
      rfl

theorem Site.readFile_none (hfile : S.fileAt v d e = none) :
    v.readFile (filePath S.path d e) = .error .notFound := by
  cases h with
  | missing h =>
    rw [Volume.readFile, h.find hd he true]
    rfl
  | stocked h => exact h.readFile_none hd he hfile

/-- A file of an entry is read if it is there. -/
theorem Site.readFile_eq :
    v.readFile (filePath S.path d e) =
      match S.fileAt v d e with
      | some bytes => .ok bytes
      | none => .error .notFound := by
  rcases hfile : S.fileAt v d e with _ | bytes
  · exact h.readFile_none hd he hfile
  · cases h with
    | missing h =>
      rw [h.fileAt] at hfile
      cases hfile
    | stocked h => exact h.readFile hd he hfile

theorem Site.removeFile_none (hfile : S.fileAt v d e = none) :
    v.removeFile (filePath S.path d e) = .error .notFound := by
  cases h with
  | missing h =>
    rw [Volume.removeFile, h.find hd he false]
    rfl
  | stocked h => exact h.removeFile_none hd he hfile

/-- A file of an entry can only be written where there is a directory for it. -/
theorem Site.writeFile {content : ByteArray} {v' : Volume}
    (hwrite : v.writeFile (filePath S.path d e) content = .ok v') :
    S.Changed v v' d e (some content) := by
  have hmissing : v.resolve true (filePath S.path d e) ≠ .error .notFound := by
    intro hresolve
    rw [Volume.writeFile, hresolve] at hwrite
    cases hwrite
  cases h with
  | missing h =>
    refine absurd ?_ hmissing
    exact Volume.resolve_join_join_missing h.tree h.readDir S.leads.ne_empty S.leads.unended
      S.leads.short hd.isPlain_shardOf (hd.isPlain_append he) (file_short hd he) true
  | stocked h =>
    rcases h.shard_none_or (d := d) with hnone | hshard
    · exact absurd (h.leads.resolve_join_join hd.isPlain_shardOf (hd.isPlain_append he)
        (file_short hd he) hnone true) hmissing
    · obtain ⟨v'', hwrite', hchanged⟩ := h.writeFile hd he hshard content
      rw [hwrite] at hwrite'
      cases hwrite'
      exact hchanged

/-- Only a file that is there is moved to the place of another one of its entry. -/
theorem Site.rename {e' : String} (he' : e' ∈ endings) (hne : e ≠ e') {v' : Volume}
    (hrename : v.rename (filePath S.path d e) (filePath S.path d e') = .ok v') :
    ∃ content v₁, S.fileAt v d e = some content ∧ S.Changed v v₁ d e none ∧
      S.Changed v₁ v' d e' (some content) := by
  have hmissing : v.find false (filePath S.path d e) ≠ .error .notFound := by
    intro hfind
    rw [Volume.rename, hfind] at hrename
    cases hrename
  cases h with
  | missing h => exact absurd (h.find hd he false) hmissing
  | stocked h =>
    rcases hfile : S.fileAt v d e with _ | content
    · exact absurd (h.resolve_filePath hd he false hfile) hmissing
    · obtain ⟨v₁, v'', hrename', hremoved, hput⟩ := h.rename hd he he' hne hfile
      rw [hrename] at hrename'
      cases hrename'
      exact ⟨content, v₁, rfl, hremoved, hput⟩

end Site

end Shelf

/-! ## A fresh directory -/

/-- A directory that is empty, or is missing and can be made, and whose path leaves room for the
names of files in it. -/
def Fresh (v : Volume) (dir : String) : Prop :=
  ∃ S : Shelf, S.path = dir ∧ (S.ground = v ∨ S.Makeable v)

/-- A fresh directory has no files of entries. -/
theorem Fresh.exists_shelf {v : Volume} {dir : String} (h : Fresh v dir) :
    ∃ S : Shelf, S.path = dir ∧ S.Site v ∧ ∀ d e, S.fileAt v d e = none := by
  obtain ⟨S, hpath, rfl | hmakeable⟩ := h
  · refine ⟨S, hpath, .stocked S.stocked_ground, fun d e => ?_⟩
    rw [Shelf.fileAt, Shelf.place, S.bare _ (by simp)]
  · exact ⟨S, hpath, .missing hmakeable, fun d e => hmakeable.fileAt⟩

/-- A volume with nothing in it but an empty directory. -/
def volumeOf (dir : String) : Volume :=
  ⟨[([dir], .directory)], []⟩

theorem DiskCache.isPlain_cache : IsPlain "cache" := by decide

/-- The only directory of a volume is fresh. -/
theorem fresh_volumeOf {dir : String} (hdir : IsPlain dir) : Fresh (volumeOf dir) dir := by
  have hitem : (volumeOf dir).item? [dir] = some .directory := by
    rw [Volume.item?_of_ne_nil _ (by simp)]
    simp [volumeOf]
  have hlong := hdir.short
  have hlength : dir.utf8ByteSize ≤ 255 := hlong
  have hleads : (volumeOf dir).LeadsTo dir [dir] := Volume.leadsTo_name rfl hdir hitem
  refine ⟨⟨dir, [dir], volumeOf dir, hleads, fun r hr => ?_, ?_⟩, rfl, .inl rfl⟩
  · rw [Volume.item?_of_ne_nil _ (by simp)]
    simp [volumeOf, hr]
  · exact Nat.le_trans (Nat.add_le_add_right hlength 82) (by decide)

end CodeGraph.Cache
