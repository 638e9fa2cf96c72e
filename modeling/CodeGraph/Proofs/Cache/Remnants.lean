import CodeGraph.Proofs.Cache.Interrupted
import CodeGraph.Proofs.Cache.Replacing

/-!
# What an interrupted store leaves

Where every entry has its value and a sidecar that gives its size (`Files.Whole`), an interrupted store
leaves the other entries alone, takes something of its victims, and changes the value of its key before
the sidecar (`Files.Left`, `Shelf.Interrupted.left`). Whatever it leaves can be counted, and the
disk layer that opens the directory anew counts what the sidecars say (`Shelf.Has.reopened`).
-/

namespace CodeGraph.Cache

open DiskCache (valueEnding sidecarEnding unfinishedEnding sidecarFor)

/-- The digests of the entries that go for a value, unless it is refused. -/
def DiskCache.victimsFor (c : DiskCache) (now : UInt64) (key : String) (content : ByteArray) :
    List String :=
  if c.maxSize < UInt64.ofNat content.size then []
  else ((c.reserveFor now key content).map fun p => p.1.map Prod.fst).getD []

theorem DiskCache.victimsFor_eq {c : DiskCache} {now : UInt64} {key : String} {content : ByteArray}
    {victims : List (String × IndexedEntry)} {index : DiskIndex}
    (hsize : ¬ c.maxSize < UInt64.ofNat content.size)
    (h : c.reserveFor now key content = some (victims, index)) :
    c.victimsFor now key content = victims.map Prod.fst := by
  rw [victimsFor, if_neg hsize, h]
  rfl

namespace Files

variable {F G H : Files} {d e : String} {now : UInt64} {key : String} {content : ByteArray}
  {victims : List String}

/-- Every entry has its value and a legible sidecar that gives its size. -/
def Whole (F : Files) : Prop :=
  ∀ d e, e = valueEnding ∨ e = sidecarEnding → F.content d e ≠ none →
    ∃ m value, F.legible d = some m ∧ F.content d valueEnding = some value ∧
      m.size.toNat = value.size

/-- What an interrupted store leaves: the others as they were, of its victims something or nothing, and
under its key the old value or the new one beside the old sidecar, or the new entry. -/
structure Left (F G : Files) (victims : List String) (now : UInt64) (key : String)
    (content : ByteArray) : Prop where
  others : ∀ d e, d ≠ keyDigest key → d ∉ victims → e = valueEnding ∨ e = sidecarEnding →
    G.content d e = F.content d e
  victim : ∀ d e, d ∈ victims → e = valueEnding ∨ e = sidecarEnding →
    G.content d e = F.content d e ∨ G.content d e = none
  entry : G.content (keyDigest key) sidecarEnding = F.content (keyDigest key) sidecarEnding ∧
      (G.content (keyDigest key) valueEnding = F.content (keyDigest key) valueEnding ∨
        G.content (keyDigest key) valueEnding = some content) ∨
    G.content (keyDigest key) sidecarEnding = some (sidecarFor now key content).encode ∧
      G.content (keyDigest key) valueEnding = some content

theorem Left.of_same (h : ∀ d e, e = valueEnding ∨ e = sidecarEnding → G.content d e = F.content d e) :
    F.Left G victims now key content :=
  ⟨fun d e _ _ he => h d e he, fun d e _ he => .inl (h d e he),
    .inl ⟨h _ _ (.inr rfl), .inl (h _ _ (.inl rfl))⟩⟩

theorem Left.congr (h : G.Left H victims now key content)
    (hsame : ∀ d e, e = valueEnding ∨ e = sidecarEnding → G.content d e = F.content d e) :
    F.Left H victims now key content := by
  refine ⟨fun d e hne hd he => ?_, fun d e hd he => ?_, ?_⟩
  · rw [← hsame d e he]
    exact h.others d e hne hd he
  · rw [← hsame d e he]
    exact h.victim d e hd he
  · rw [← hsame _ _ (.inr rfl), ← hsame _ _ (.inl rfl)]
    exact h.entry

section Left

variable (hkey : keyDigest key ∉ victims)

include hkey

theorem content_key_without {gone : List String} (hsubset : gone ⊆ victims) (e : String) :
    (F.without gone).content (keyDigest key) e = F.content (keyDigest key) e :=
  F.content_without_of_not_mem (fun hmem => hkey (hsubset hmem)) e

theorem left_without {gone : List String} (hsubset : gone ⊆ victims) :
    F.Left (F.without gone) victims now key content :=
  ⟨fun _ e _ hd _ => F.content_without_of_not_mem (fun hmem => hd (hsubset hmem)) e,
    fun d e _ _ => F.content_without_cases gone d e,
    .inl ⟨content_key_without hkey hsubset _, .inl (content_key_without hkey hsubset _)⟩⟩

theorem left_drop {gone : List String} (hsubset : gone ⊆ victims) (hd : d ∈ victims) :
    F.Left ((F.without gone).drop d valueEnding) victims now key content := by
  have hleft : F.Left (F.without gone) victims now key content := left_without hkey hsubset
  have hsame : ∀ d' e, d' ≠ d →
      ((F.without gone).drop d valueEnding).content d' e = (F.without gone).content d' e :=
    fun d' e hne => content_drop_of_ne _ (.inl hne)
  have hne : keyDigest key ≠ d := fun heq => hkey (heq ▸ hd)
  refine ⟨fun d' e hne' hd' he => ?_, fun d' e hd' he => ?_, ?_⟩
  · rw [hsame d' e fun heq => hd' (heq ▸ hd)]
    exact hleft.others d' e hne' hd' he
  · rcases content_drop_cases (F.without gone) d valueEnding d' e with hold | hnone
    · rw [hold]
      exact hleft.victim d' e hd' he
    · exact .inr hnone
  · rw [hsame _ _ hne, hsame _ _ hne]
    exact hleft.entry

theorem left_drafted (h : (F.without victims).Drafted G (keyDigest key) content) :
    F.Left G victims now key content := by
  refine ⟨fun d e hne hd _ => ?_, fun d e hd _ => ?_, .inl ⟨?_, ?_⟩⟩
  · rw [h.others d e hne, F.content_without_of_not_mem hd]
  · rw [h.others d e fun heq => hkey (heq ▸ hd)]
    exact F.content_without_cases victims d e
  · rw [h.sidecar, F.content_without_of_not_mem hkey]
  · rw [← F.content_without_of_not_mem hkey valueEnding]
    exact h.value

theorem left_stored (hd : IsDigest (keyDigest key)) :
    F.Left ((F.without victims).stored hd content (sidecarFor now key content)) victims now key
      content := by
  refine ⟨fun d e hne hd' _ => ?_, fun d e hd' _ => ?_, .inr ⟨stored_sidecar .., stored_value ..⟩⟩
  · rw [stored_others _ hd _ _ _ hne, F.content_without_of_not_mem hd']
  · rw [stored_others _ hd _ _ _ fun heq => hkey (heq ▸ hd')]
    exact F.content_without_cases victims d e

end Left

/-! ## Sidecars -/

theorem legible_congr (h : G.content d sidecarEnding = F.content d sidecarEnding) :
    G.legible d = F.legible d := by
  rw [legible, legible, sidecar, sidecar, h]

theorem legible_of_none (h : F.content d sidecarEnding = none) : F.legible d = none := by
  rw [legible, sidecar, h]

theorem legible_of_encode {m : Sidecar} (h : F.content d sidecarEnding = some m.encode)
    (hversion : m.version = Sidecar.currentVersion) : F.legible d = some m := by
  rw [legible, sidecar, h]
  simp only [Sidecar.decode?_encode, if_pos hversion]

/-- A sidecar that is as it was or gone says what it said. -/
theorem indexed_of_kept (h : G.content d sidecarEnding = F.content d sidecarEnding ∨
    G.content d sidecarEnding = none) {i : IndexedEntry} (hi : G.indexed d = some i) :
    F.indexed d = some i := by
  rcases h with hsame | hnone
  · rw [← hi, indexed, indexed, legible_congr hsame]
  · rw [indexed, legible_of_none hnone] at hi
    cases hi

theorem mended_legible (F : Files) (d : String) : F.mended.legible d = F.legible d := by
  rcases hlegible : F.legible d with _ | m
  · refine legible_of_none ?_
    simp [mended, hlegible]
  · rw [← hlegible]
    refine legible_congr ?_
    simp [mended, hlegible]

theorem mended_indexed (F : Files) (d : String) : F.mended.indexed d = F.indexed d := by
  rw [indexed, mended_legible, indexed]

theorem mended_content (F : Files) {m : Sidecar} (h : F.legible d = some m)
    (he : e = valueEnding ∨ e = sidecarEnding) : F.mended.content d e = F.content d e :=
  if_pos ⟨by rw [h]; rfl, he⟩

theorem mended_answer (F : Files) (key : String) : F.mended.answer key = F.answer key := by
  rw [answer, answer, mended_legible]
  rcases hlegible : F.legible (keyDigest key) with _ | m
  · rfl
  · simp only [F.mended_content hlegible (.inl rfl)]

theorem Whole.mended (h : F.Whole) (he : e = valueEnding ∨ e = sidecarEnding) :
    F.mended.content d e = F.content d e := by
  rcases hcontent : F.content d e with _ | content
  · simp only [Files.mended, hcontent, ite_self]
  · obtain ⟨m, -, hlegible, -⟩ := h d e he (by rw [hcontent]; exact Option.some_ne_none _)
    rw [F.mended_content hlegible he, hcontent]

theorem Whole.mending (h : F.Whole) (hmending : F.Mending G)
    (he : e = valueEnding ∨ e = sidecarEnding) : G.content d e = F.content d e := by
  rcases hmending.content d e with hsame | ⟨hgone, hstays⟩
  · exact hsame
  · rw [hgone]
    by_contra hsome
    obtain ⟨m, -, hlegible, -⟩ := h d e he (Ne.symm hsome)
    exact hstays ⟨by rw [hlegible]; exact Option.some_ne_none m, he⟩

/-! ## Answers -/

theorem answer_congr (h : ∀ e, e = valueEnding ∨ e = sidecarEnding →
    G.content (keyDigest key) e = F.content (keyDigest key) e) : G.answer key = F.answer key := by
  rw [answer, answer, legible_congr (h _ (.inr rfl)), h _ (.inl rfl)]

theorem answer_cases (F : Files) (key : String) :
    F.answer key = F.content (keyDigest key) valueEnding ∨ F.answer key = none := by
  rw [answer]
  split
  · split
    · exact .inl rfl
    · exact .inr rfl
  · exact .inr rfl

/-- What a key answers after an interrupted store. -/
theorem Left.answer (h : F.Left G victims now key content) (other : String) :
    G.answer other = F.answer other ∨
      keyDigest other = keyDigest key ∧ (G.answer other = some content ∨ G.answer other = none) ∨
      keyDigest other ∈ victims ∧ G.answer other = none := by
  by_cases hkey : keyDigest other = keyDigest key
  · have hnew : G.content (keyDigest key) valueEnding = some content →
        G.answer other = some content ∨ G.answer other = none := by
      intro hvalue
      rw [← hvalue, ← hkey]
      exact G.answer_cases other
    rcases h.entry with ⟨hsidecar, hvalue | hvalue⟩ | ⟨-, hvalue⟩
    · left
      refine answer_congr fun e he => ?_
      rw [hkey]
      rcases he with rfl | rfl
      · exact hvalue
      · exact hsidecar
    · exact .inr (.inl ⟨hkey, hnew hvalue⟩)
    · exact .inr (.inl ⟨hkey, hnew hvalue⟩)
  · by_cases hvictim : keyDigest other ∈ victims
    · rcases h.victim _ valueEnding hvictim (.inl rfl) with hvalue | hvalue
      · rcases h.victim _ sidecarEnding hvictim (.inr rfl) with hsidecar | hsidecar
        · left
          refine answer_congr ?_
          rintro e (rfl | rfl)
          · exact hvalue
          · exact hsidecar
        · refine .inr (.inr ⟨hvictim, ?_⟩)
          rw [Files.answer, legible_of_none hsidecar]
      · refine .inr (.inr ⟨hvictim, ?_⟩)
        rcases G.answer_cases other with hanswer | hanswer
        · exact hanswer.trans hvalue
        · exact hanswer
    · exact .inl (answer_congr fun e he => h.others _ e hkey hvictim he)

/-- What a sidecar says of its value after an interrupted store. -/
theorem Left.size (h : F.Left G victims now key content) (hwhole : F.Whole)
    (hlength : content.size < UInt64.size) {m : Sidecar} (hm : G.legible d = some m) :
    (∃ value, G.content d valueEnding = some value ∧ m.size.toNat = value.size) ∨
      (d = keyDigest key ∧ G.content d valueEnding = some content ∧ F.legible d = some m) ∨
      d ∈ victims ∧ G.content d valueEnding = none ∧ F.legible d = some m := by
  -- A sidecar that is the old one gives the size of the old value.
  have hold : G.content d sidecarEnding = F.content d sidecarEnding → F.legible d = some m ∧
      ∃ value, F.content d valueEnding = some value ∧ m.size.toNat = value.size := by
    intro hsame
    have hlegible := (legible_congr hsame).symm.trans hm
    obtain ⟨m', value, hm', hvalue, hsize⟩ := hwhole d _ (.inr rfl) (content_of_legible hlegible)
    obtain rfl := Option.some.inj (hlegible.symm.trans hm')
    exact ⟨hlegible, value, hvalue, hsize⟩
  by_cases hkey : d = keyDigest key
  · subst hkey
    rcases h.entry with ⟨hsidecar, hvalue⟩ | ⟨hsidecar, hvalue⟩
    · obtain ⟨hlegible, value, hthere, hsize⟩ := hold hsidecar
      rcases hvalue with hvalue | hvalue
      · exact .inl ⟨value, hvalue.trans hthere, hsize⟩
      · exact .inr (.inl ⟨rfl, hvalue, hlegible⟩)
    · have hnew : G.legible (keyDigest key) = some (sidecarFor now key content) :=
        legible_of_encode hsidecar rfl
      obtain rfl := Option.some.inj (hm.symm.trans hnew)
      exact .inl ⟨content, hvalue, UInt64.toNat_ofNat_of_lt' hlength⟩
  · by_cases hvictim : d ∈ victims
    · obtain ⟨hlegible, value, hthere, hsize⟩ :=
        hold ((h.victim d _ hvictim (.inr rfl)).resolve_right (content_of_legible hm))
      rcases h.victim d valueEnding hvictim (.inl rfl) with hvalue | hvalue
      · exact .inl ⟨value, hvalue.trans hthere, hsize⟩
      · exact .inr (.inr ⟨hvictim, hvalue, hlegible⟩)
    · obtain ⟨-, value, hthere, hsize⟩ := hold (h.others d _ hkey hvictim (.inr rfl))
      exact .inl ⟨value, (h.others d _ hkey hvictim (.inl rfl)).trans hthere, hsize⟩

end Files

namespace Shelf

variable {S : Shelf} {clean : Prop} {c : DiskCache} {F G : Files} {s s' : DiskState} {now : UInt64}
  {key : String} {content : ByteArray}

/-! ## Interrupted stores -/

theorem fits_of_left {victims : List String}
    (hfits : DiskIndex.Fits F.indexed (UInt64.size - 1))
    (hleft : F.Left G victims now key content)
    (hold : G.content (keyDigest key) sidecarEnding = F.content (keyDigest key) sidecarEnding) :
    DiskIndex.Fits G.indexed (UInt64.size - 1) := by
  refine hfits.fewer fun d i hi => Files.indexed_of_kept ?_ hi
  -- No sidecar is new, so no more is counted than before.
  by_cases hkey : d = keyDigest key
  · exact .inl (hkey ▸ hold)
  · by_cases hvictim : d ∈ victims
    · exact hleft.victim d _ hvictim (.inr rfl)
    · exact .inl (hleft.others d _ hkey hvictim (.inr rfl))

/-- The index that room has been made in is that of what is there when the entry has been written. -/
theorem fits_stored {victims : List (String × IndexedEntry)} {index : DiskIndex}
    (hexact : c.index.Exact) (hget : ∀ d, c.index.entries.get? d = F.indexed d)
    (hsize : ¬ c.maxSize < UInt64.ofNat content.size)
    (hreserve : c.reserveFor now key content = some (victims, index))
    (hd : IsDigest (keyDigest key)) :
    DiskIndex.Fits ((F.without (victims.map Prod.fst)).stored hd content
      (sidecarFor now key content)).indexed (UInt64.size - 1) := by
  rcases DiskIndex.reserve_cases (d := keyDigest key) (e := ⟨key, now, UInt64.ofNat content.size⟩)
    hexact (UInt64.not_lt.1 hsize) with ⟨-, hnone⟩ | ⟨_, x, hsome, -, hweight, -, -⟩
  · rw [DiskCache.reserveFor, hnone] at hreserve
    cases hreserve
  rw [DiskCache.reserveFor, hsome] at hreserve
  cases hreserve
  obtain ⟨-, -, hindex⟩ := DiskIndex.reserve_spec hsome
  have hbound := c.maxSize.toNat_lt
  have hword : UInt64.size = 2 ^ 64 := rfl
  refine (DiskIndex.fits_weight fun d => ?_).mono (by omega : index.weight ≤ UInt64.size - 1)
  rw [hindex]
  split
  · next hsame =>
    rw [hsame, Files.indexed, Files.legible_of_encode (Files.stored_sidecar ..) rfl]
    rfl
  next hne =>
  split
  · next hvictim =>
    rw [Files.indexed, Files.legible_of_none]
    · rfl
    · rw [Files.stored_others _ hd _ _ _ hne]
      exact F.content_without_of_mem hvictim (.inr rfl)
  · next hvictim =>
    rw [hget, Files.indexed, Files.indexed, Files.legible_congr]
    rw [Files.stored_others _ hd _ _ _ hne, F.content_without_of_not_mem hvictim]

/-- **What an interrupted store leaves can be counted.** -/
theorem Interrupted.left {r : Except CacheError Bool}
    (hset : S.Interrupted clean c F now key content r s') (hexact : c.index.Exact)
    (hget : ∀ d, c.index.entries.get? d = F.indexed d)
    (hfits : DiskIndex.Fits F.indexed (UInt64.size - 1))
    (hsize : ¬ c.maxSize < UInt64.ofNat content.size) :
    ∃ G c', S.Has clean c' G s' ∧ F.Left G (c.victimsFor now key content) now key content ∧
      DiskIndex.Fits G.indexed (UInt64.size - 1) := by
  cases hset with
  | overflow hnone h' => exact ⟨F, _, h', .of_same fun _ _ _ => rfl, hfits⟩
  | @evicting _ gone rest v index _ _ hreserve _ hevicted =>
    have hkey := DiskCache.key_not_mem hreserve
    have hgone : gone.map Prod.fst ⊆ (gone ++ v :: rest).map Prod.fst := by
      rw [List.map_append]
      exact List.subset_append_left _ _
    have hv : v.1 ∈ (gone ++ v :: rest).map Prod.fst := List.mem_map_of_mem (by simp)
    have hsame := fun e => Files.content_key_without (F := F) hkey hgone e
    rw [DiskCache.victimsFor_eq hsize hreserve]
    rcases hevicted with h' | h'
    · have hleft : F.Left (F.without (gone.map Prod.fst)) _ now key content :=
        Files.left_without hkey hgone
      exact ⟨_, _, h', hleft, fits_of_left hfits hleft (hsame _)⟩
    · have hleft : F.Left ((F.without (gone.map Prod.fst)).drop v.1 valueEnding) _ now key content :=
        Files.left_drop hkey hgone hv
      refine ⟨_, _, h', hleft, fits_of_left hfits hleft ?_⟩
      rw [Files.content_drop_of_ne _ (.inr (by decide)), hsame]
  | @writing _ victims index G _ hreserve hdrafted h' =>
    have hkey := DiskCache.key_not_mem hreserve
    rw [DiskCache.victimsFor_eq hsize hreserve]
    have hleft : F.Left G (victims.map Prod.fst) now key content := Files.left_drafted hkey hdrafted
    refine ⟨G, _, h', hleft, fits_of_left hfits hleft ?_⟩
    rw [hdrafted.sidecar, F.content_without_of_not_mem hkey]
  | stored hreserve h' =>
    rw [DiskCache.victimsFor_eq hsize hreserve]
    exact ⟨_, _, h', Files.left_stored (DiskCache.key_not_mem hreserve) _,
      fits_stored hexact hget hsize hreserve _⟩

/-! ## Opening the directory anew -/

/-- The disk layer that opens a directory anew counts what the sidecars in it say. -/
theorem Has.reopened (h : S.Has clean c G s) (hfits : DiskIndex.Fits G.indexed (UInt64.size - 1))
    (maxSize : UInt64) :
    ∃ s₂ c₂, DiskCache.ensureIndex.run.run
        ⟨DiskCache.new ⟨S.path, maxSize⟩, ⟨s.drive.volume, []⟩⟩ = (.ok (), s₂) ∧
      S.Has True c₂ G.mended s₂ ∧ ∀ d, s₂.counted? d = G.indexed d := by
  have hopened : S.Has True (DiskCache.new ⟨S.path, maxSize⟩)
      { G with shard := S.HasShard s.drive.volume }
      ⟨DiskCache.new ⟨S.path, maxSize⟩, ⟨s.drive.volume, []⟩⟩ :=
    ⟨rfl, rfl, truthful_nil, fun _ => rfl, h.site, h.content, fun _ hshard => hshard⟩
  have hunseeded : (DiskCache.new ⟨S.path, maxSize⟩).seeded = false := rfl
  rcases hrun : DiskCache.ensureIndex.run.run
    ⟨DiskCache.new ⟨S.path, maxSize⟩, ⟨s.drive.volume, []⟩⟩ with ⟨err | ⟨⟩, s₂⟩
  · rcases (ends_ensureIndex hunseeded).of_error ⟨hopened, fun _ hshard => hshard⟩ hrun with
      ⟨l, hl, hnone, -⟩ | ⟨hclean, -⟩
    · obtain ⟨x, hx, -⟩ := DiskIndex.exists_ofList? hfits (by decide) hl
      rw [hx] at hnone
      cases hnone
    · exact absurd trivial hclean
  · obtain ⟨l, index, hl, hindex, h₂⟩ :=
      (ends_ensureIndex hunseeded).of_ok ⟨hopened, fun _ hshard => hshard⟩ hrun
    obtain ⟨x, hx, -, hget⟩ := DiskIndex.exists_ofList? hfits (by decide) hl
    rw [hindex] at hx
    cases hx
    refine ⟨s₂, _, rfl, ⟨h₂.cache, h₂.directory, h₂.truthful, h₂.faultless, h₂.site, h₂.content,
      fun d hshard => h₂.shard d (h.shard d hshard)⟩, fun d => ?_⟩
    rw [DiskState.counted?, h₂.cache]
    exact hget d

end Shelf

end CodeGraph.Cache
