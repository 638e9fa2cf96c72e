import CodeGraph.Proofs.Cache.Files

/-!
# Making the index of a damaged directory

The directory may hold whatever writing and removing may have left: unfinished files, values without
sidecars, sidecars that cannot be read or are of another version. Making the index takes away exactly
these (`Files.mended`), in whatever order the names are listed, and finds an entry for each sidecar that
stays (`Shelf.ends_scan`, `Shelf.ends_ensureIndex`). What stays is not touched. A fault on the way leaves
some of the damage and no more than there was (`Files.Mending`).
-/

namespace CodeGraph.Cache

open DiskCache (valueEnding sidecarEnding unfinishedEnding)

namespace Files

/-- Whether a file stays when the index is made: a sidecar that can be read and is of the current
version does, and so does its value. -/
def Stays (F : Files) (d e : String) : Prop :=
  F.legible d ≠ none ∧ (e = valueEnding ∨ e = sidecarEnding)

/-- The files that stay. -/
def mended (F : Files) : Files where
  content d e :=
    if (F.legible d).isSome ∧ (e = valueEnding ∨ e = sidecarEnding) then F.content d e else none
  shard := F.shard
  digest d e h := F.digest d e fun hnone => h (by rw [hnone, ite_self])

/-- What the index says of the sidecars that stay. -/
def indexed (F : Files) (d : String) : Option IndexedEntry :=
  (F.legible d).map Sidecar.indexed

/-- The names are those of the files in the directory of a digest. -/
def Lists (F : Files) (d : String) (names : List String) : Prop :=
  ∀ n, n ∈ names ↔ ∃ d' e, IsDigest d' ∧ e ∈ endings ∧ n = d' ++ e ∧ shardOf d' = shardOf d ∧
    F.content d' e ≠ none

/-- The first files and what is left of them while the index is made. -/
structure Mending (F G : Files) : Prop where
  content : ∀ d e, G.content d e = F.content d e ∨ G.content d e = none ∧ ¬ F.Stays d e
  value : ∀ d, F.content d sidecarEnding ≠ none → G.content d sidecarEnding = none →
    G.content d valueEnding = none
  shard : G.shard = F.shard

variable {F G : Files} {d e : String}

theorem Mending.refl (F : Files) : F.Mending F :=
  ⟨fun _ _ => .inl rfl, fun _ hsome hnone => absurd hnone hsome, rfl⟩

theorem Mending.drop (h : F.Mending G) (hstays : ¬ F.Stays d e) (he : e ≠ sidecarEnding) :
    F.Mending (G.drop d e) := by
  refine ⟨?_, ?_, h.shard⟩
  · intro d' e'
    simp only [Files.drop]
    split
    · next hsame =>
      right
      rw [hsame.1, hsame.2]
      exact ⟨rfl, hstays⟩
    · exact h.content d' e'
  · intro d' hsome hnone
    simp only [Files.drop] at hnone ⊢
    rw [if_neg fun hsame => he hsame.2.symm] at hnone
    rw [h.value d' hsome hnone, ite_self]

theorem Mending.without (h : F.Mending G) (hlegible : F.legible d = none) :
    F.Mending (G.without [d]) := by
  refine ⟨?_, ?_, h.shard⟩
  · intro d' e'
    simp only [Files.without, List.mem_singleton]
    split
    · next hsame =>
      right
      rw [hsame.1]
      exact ⟨rfl, fun hstays => hstays.1 hlegible⟩
    · exact h.content d' e'
  · intro d' hsome hnone
    simp only [Files.without, List.mem_singleton] at hnone ⊢
    by_cases hd : d' = d
    · simp [hd]
    · rw [if_neg fun hsame => hd hsame.1] at hnone
      rw [h.value d' hsome hnone, ite_self]

theorem Mending.content_of_stays (h : F.Mending G) (hstays : F.Stays d e) :
    G.content d e = F.content d e :=
  (h.content d e).resolve_right fun hgone => hgone.2 hstays

/-- The sidecars that stay are the same all the while. -/
theorem Mending.legible (h : F.Mending G) (d : String) : G.legible d = F.legible d := by
  rcases hlegible : F.legible d with _ | m
  · rcases h.content d sidecarEnding with hsame | ⟨hgone, -⟩
    · rw [← hlegible, Files.legible, Files.legible, sidecar, sidecar, hsame]
    · rw [Files.legible, sidecar, hgone]
  · have hstays : F.Stays d sidecarEnding := ⟨by rw [hlegible]; exact Option.some_ne_none m, .inr rfl⟩
    rw [← hlegible, Files.legible, Files.legible, sidecar, sidecar, h.content_of_stays hstays]

/-- What a name of a file of an entry stands for. -/
def found (F : Files) (d e : String) : List (String × IndexedEntry) :=
  if e = sidecarEnding then ((F.indexed d).map fun i => (d, i)).toList else []

theorem found_sidecar (F : Files) (d : String) :
    F.found d sidecarEnding = ((F.indexed d).map fun i => (d, i)).toList :=
  if_pos rfl

theorem mem_found {p : String × IndexedEntry} (hd : IsDigest d) (he : e ∈ endings) :
    p ∈ F.found d e ↔ d ++ e = p.1 ++ sidecarEnding ∧ F.indexed p.1 = some p.2 :=
  mem_entryFor (g := F.indexed) hd.isHex he

end Files

namespace Shelf

variable {S : Shelf} {clean : Prop} {c : DiskCache} {F G : Files} {gone gone' : String → String → Prop}
  {d e : String}

/-- A disk layer that is making its index of some files, of which at least the given ones are gone. -/
def Amid (S : Shelf) (clean : Prop) (c : DiskCache) (F : Files) (gone : String → String → Prop)
    (s : DiskState) : Prop :=
  ∃ G, (F.Mending G ∧ ∀ d e, gone d e → G.content d e = none) ∧ S.Has clean c G s

theorem Amid.imp {s : DiskState} (h : S.Amid clean c F gone s)
    (hgone : ∀ d e, gone' d e → gone d e) : S.Amid clean c F gone' s := by
  obtain ⟨G, ⟨hmending, hnone⟩, hhas⟩ := h
  exact ⟨G, ⟨hmending, fun d e h => hnone d e (hgone d e h)⟩, hhas⟩

/-- What is gone after a name has been looked at: an unfinished file, a value that no sidecar is listed
for, or the sidecar and its value if they do not stay. -/
def Swept (F : Files) (all : List String) (d e d' e' : String) : Prop :=
  d' = d ∧ ¬ F.Stays d e' ∧
    (e' = e ∧ e ≠ valueEnding ∧ e ≠ sidecarEnding ∨
      e = sidecarEnding ∧ (e' = valueEnding ∨ e' = sidecarEnding) ∨
      e = valueEnding ∧ e' = valueEnding ∧ d ++ sidecarEnding ∉ all)

theorem Swept.of_sidecar {all : List String} {d' e' : String}
    (h : Swept F all d sidecarEnding d' e') :
    d' = d ∧ (e' = valueEnding ∨ e' = sidecarEnding) := by
  obtain ⟨hsame, -, ⟨-, -, hne⟩ | ⟨-, hending⟩ | ⟨heq, -⟩⟩ := h
  · exact absurd rfl hne
  · exact ⟨hsame, hending⟩
  · exact absurd heq (by decide)

/-- What does not stay is swept for the name of its sidecar if that is listed, else for its own. -/
theorem exists_swept {names : List String} (hd : IsDigest d) (he : e ∈ endings)
    (hmem : d ++ e ∈ names) (hstays : ¬ F.Stays d e) :
    ∃ d₁ e₁, IsDigest d₁ ∧ e₁ ∈ endings ∧ d₁ ++ e₁ ∈ names ∧ Swept F names d₁ e₁ d e := by
  by_cases hunfinished : e ≠ valueEnding ∧ e ≠ sidecarEnding
  · exact ⟨d, e, hd, he, hmem, rfl, hstays, .inl ⟨rfl, hunfinished.1, hunfinished.2⟩⟩
  have hfinished : e = valueEnding ∨ e = sidecarEnding := by
    by_contra hnot
    exact hunfinished (not_or.1 hnot)
  by_cases hsidecar : d ++ sidecarEnding ∈ names
  · exact ⟨d, sidecarEnding, hd, sidecarEnding_mem, hsidecar, rfl, hstays,
      .inr (.inl ⟨rfl, hfinished⟩)⟩
  · rcases hfinished with rfl | rfl
    · exact ⟨d, valueEnding, hd, he, hmem, rfl, hstays, .inr (.inr ⟨rfl, rfl, hsidecar⟩)⟩
    · exact absurd hmem hsidecar

/-- Nothing more need be known to be gone after a failure. -/
def Broken (S : Shelf) (clean : Prop) (c : DiskCache) (F : Files) (s : DiskState) : Prop :=
  ¬ clean ∧ ∃ G, S.Has clean c G s ∧ F.Mending G

section Name

variable (hd : IsDigest d)

include hd

/-- A file goes that does not stay. -/
theorem ends_removeStray (he : e ∈ endings) (hstays : ¬ F.Stays d e) (hsidecar : e ≠ sidecarEnding) :
    Ends (S.Amid clean c F gone) (DiskCache.removeIfPresent (filePath S.path d e))
      (fun _ => S.Amid clean c F fun d' e' => gone d' e' ∨ d' = d ∧ e' = e)
      (fun _ => S.Broken clean c F) := by
  refine .of_exists fun G => .assume fun ⟨hmending, hgone⟩ =>
    (ends_removeIfPresent hd he).imp (fun s h => h) ?_ ?_
  · intro _ s h
    refine ⟨_, ⟨hmending.drop hstays hsidecar, ?_⟩, h⟩
    rintro d' e' (hnone | hsame)
    · simp only [Files.drop, hgone d' e' hnone, ite_self]
    · exact if_pos hsame
  · rintro _ s ⟨hclean, h, -⟩
    exact ⟨hclean, G, h, hmending⟩

/-- Both files of an entry go whose sidecar does not stay. -/
theorem ends_removeDamaged (hlegible : F.legible d = none) :
    Ends (S.Amid clean c F gone) (DiskCache.removeFiles d)
      (fun _ => S.Amid clean c F fun d' e' =>
        gone d' e' ∨ d' = d ∧ (e' = valueEnding ∨ e' = sidecarEnding))
      (fun _ => S.Broken clean c F) := by
  have hstays : ¬ F.Stays d valueEnding := fun h => h.1 hlegible
  refine .of_exists fun G => .assume fun ⟨hmending, hgone⟩ =>
    (ends_removeFiles hd).imp (fun s h => h) ?_ ?_
  · intro _ s h
    refine ⟨_, ⟨hmending.without hlegible, ?_⟩, h⟩
    rintro d' e' (hnone | hsame)
    · simp only [Files.without, hgone d' e' hnone, ite_self]
    · simp only [Files.without, List.mem_singleton]
      exact if_pos hsame
  · rintro _ s ⟨hclean, h | h, -⟩
    · exact ⟨hclean, G, h, hmending⟩
    · exact ⟨hclean, _, h, hmending.drop hstays (by decide)⟩

/-- A sidecar that does not stay goes with its value. -/
theorem ends_dropDamaged (hlegible : F.legible d = none) (all : List String) :
    Ends (S.Amid clean c F gone) (do DiskCache.removeFiles d; return [])
      (fun l s => l = F.found d sidecarEnding ∧
        S.Amid clean c F (fun d' e' => gone d' e' ∨ Swept F all d sidecarEnding d' e') s)
      (fun _ => S.Broken clean c F) := by
  refine .bind (ends_removeDamaged hd hlegible) fun _ => .pure fun s h => ⟨?_, ?_⟩
  · rw [Files.found_sidecar, Files.indexed, hlegible]
    rfl
  · exact h.imp fun d' e' => Or.imp_right Swept.of_sidecar

/-- The sidecar of an entry is looked at. -/
theorem ends_scanSidecar (hthere : F.content d sidecarEnding ≠ none) (all : List String) :
    Ends (S.Amid clean c F gone)
      (DiskCache.scanName (Path.join S.path (shardOf d)) all (d ++ sidecarEnding))
      (fun l s => l = F.found d sidecarEnding ∧
        S.Amid clean c F (fun d' e' => gone d' e' ∨ Swept F all d sidecarEnding d' e') s)
      (fun _ => S.Broken clean c F) := by
  rw [scanName_sidecar]
  refine .of_exists fun G => .assume fun hkept => ?_
  obtain ⟨hmending, hgone⟩ := hkept
  refine .bind ((ends_readSidecar hd).imp_error
    fun _ s h => ⟨h.1, G, h.2, hmending⟩) fun r => .assume fun hr => ?_
  have hlegible := hmending.legible d
  rw [Files.legible, ← hr] at hlegible
  have hamid : ∀ s, S.Has clean c G s → S.Amid clean c F gone s :=
    fun s hhas => ⟨G, ⟨hmending, hgone⟩, hhas⟩
  split
  · refine .pure fun s hhas => ⟨?_, G, ⟨hmending, ?_⟩, hhas⟩
    · rw [Files.found_sidecar, Files.indexed, ← hlegible]
      rfl
    · rintro d' e' (hnone | hswept)
      · exact hgone d' e' hnone
      · have hmissing : G.content d sidecarEnding = none := by
          rw [Files.sidecar] at hr
          split at hr
          · next hnone => exact hnone
          · split at hr
            · cases hr
            · cases hr
        obtain ⟨rfl, rfl | rfl⟩ := hswept.of_sidecar
        · exact hmending.value _ hthere hmissing
        · exact hmissing
  · next m =>
    simp only at hlegible
    split
    · next hversion =>
      rw [if_pos hversion] at hlegible
      refine .pure fun s hhas => ⟨?_, (hamid s hhas).imp ?_⟩
      · rw [Files.found_sidecar, Files.indexed, ← hlegible]
        rfl
      · rintro d' e' (hnone | hswept)
        · exact hnone
        · obtain ⟨rfl, hstays⟩ := hswept.of_sidecar
          refine absurd ⟨?_, hstays⟩ hswept.2.1
          rw [← hlegible]
          exact Option.some_ne_none m
    · next hversion =>
      rw [if_neg hversion] at hlegible
      exact (ends_dropDamaged hd hlegible.symm all).imp_state hamid
  · exact (ends_dropDamaged hd hlegible.symm all).imp_state hamid

/-- A name is looked at. -/
theorem ends_scanName (he : e ∈ endings) (hthere : F.content d e ≠ none) {all : List String}
    (hall : F.legible d ≠ none → d ++ sidecarEnding ∈ all) :
    Ends (S.Amid clean c F gone)
      (DiskCache.scanName (Path.join S.path (shardOf d)) all (d ++ e))
      (fun l s => l = F.found d e ∧
        S.Amid clean c F (fun d' e' => gone d' e' ∨ Swept F all d e d' e') s)
      (fun _ => S.Broken clean c F) := by
  by_cases hsidecar : e = sidecarEnding
  · subst hsidecar
    exact ends_scanSidecar hd hthere all
  have hfound : F.found d e = [] := if_neg hsidecar
  by_cases hvalue : e = valueEnding
  · subst hvalue
    rw [scanName_value _ _ hd.withoutEnding?_value]
    split
    · next hlisted =>
      refine .pure fun s h => ⟨hfound.symm, h.imp ?_⟩
      rintro d' e' (hnone | ⟨-, -, ⟨-, hne, -⟩ | ⟨heq, -⟩ | ⟨-, -, hnot⟩⟩)
      · exact hnone
      · exact absurd rfl hne
      · exact absurd heq hsidecar
      · exact absurd hlisted hnot
    · next hlisted =>
      have hstays : ¬ F.Stays d valueEnding := fun h => hlisted (hall h.1)
      refine .bind (ends_removeStray hd he hstays hsidecar) fun _ => .pure fun s h =>
        ⟨hfound.symm, h.imp ?_⟩
      rintro d' e' (hnone | ⟨rfl, -, ⟨-, hne, -⟩ | ⟨heq, -⟩ | ⟨-, rfl, -⟩⟩)
      · exact .inl hnone
      · exact absurd rfl hne
      · exact absurd heq hsidecar
      · exact .inr ⟨rfl, rfl⟩
  -- What is left are the names of unfinished files.
  · have hstays : ¬ F.Stays d e := fun h => h.2.elim hvalue hsidecar
    rw [scanName_unfinished _ _ he hvalue hsidecar]
    refine .bind (ends_removeStray hd he hstays hsidecar) fun _ => .pure fun s h =>
      ⟨hfound.symm, h.imp ?_⟩
    rintro d' e' (hnone | ⟨rfl, -, ⟨rfl, -⟩ | ⟨heq, -⟩ | ⟨heq, -⟩⟩)
    · exact .inl hnone
    · exact .inr ⟨rfl, rfl⟩
    · exact absurd heq hsidecar
    · exact absurd heq hvalue

end Name

/-! ## Directories -/

/-- The names in the directory of a digest. -/
theorem ends_scanNames {all names : List String}
    (hnames : ∀ n ∈ names, ∃ d' e', IsDigest d' ∧ e' ∈ endings ∧ n = d' ++ e' ∧
      shardOf d' = shardOf d ∧ F.content d' e' ≠ none ∧
      (F.legible d' ≠ none → d' ++ sidecarEnding ∈ all)) :
    Ends (S.Amid clean c F gone)
      (DiskCache.scanNames (Path.join S.path (shardOf d)) all names)
      (fun l s => (∀ p, p ∈ l ↔ p.1 ++ sidecarEnding ∈ names ∧ F.indexed p.1 = some p.2) ∧
        S.Amid clean c F (fun d' e' => gone d' e' ∨
          ∃ d₁ e₁, IsDigest d₁ ∧ e₁ ∈ endings ∧ d₁ ++ e₁ ∈ names ∧ Swept F all d₁ e₁ d' e') s)
      (fun _ => S.Broken clean c F) := by
  induction names generalizing gone with
  | nil =>
    refine .pure fun s h => ⟨by simp, h.imp ?_⟩
    rintro d' e' (hnone | ⟨d₁, e₁, -, -, hmem, -⟩)
    · exact hnone
    · cases hmem
  | cons n names ih =>
    obtain ⟨d₁, e₁, hd₁, he₁, rfl, hshard, hthere, hall⟩ := hnames n (List.mem_cons_self ..)
    have hname := @ends_scanName S clean c F gone _ _ hd₁ he₁ hthere _ hall
    rw [hshard] at hname
    refine .bind hname fun here => .assume fun hhere =>
      .bind (ih fun m hm => hnames m (List.mem_cons_of_mem _ hm)) fun rest => .assume fun hrest =>
        .pure fun s h => ⟨?_, h.imp ?_⟩
    · intro p
      rw [List.mem_append, hhere, Files.mem_found hd₁ he₁, hrest, List.mem_cons, ← or_and_right,
        eq_comm]
    · rintro d' e' (hnone | ⟨d₂, e₂, hd₂, he₂, hmem, hswept⟩)
      · exact .inl (.inl hnone)
      · rcases List.mem_cons.1 hmem with heq | hmem
        · obtain ⟨rfl, rfl⟩ := hd₂.append_inj hd₁ heq
          exact .inl (.inr hswept)
        · exact .inr ⟨d₂, e₂, hd₂, he₂, hmem, hswept⟩

section Directory

variable (hd : IsDigest d)

include hd

/-- The directory of a digest is there. -/
theorem Has.leads_shard {s : DiskState} (h : S.Has clean c G s) (hshard : G.shard d) :
    S.Stocked s.drive.volume ∧ S.HasShard s.drive.volume d ∧
      s.drive.volume.LeadsTo (Path.join S.path (shardOf d)) (S.base ++ [shardOf d]) := by
  have hthere := h.shard d hshard
  cases h.site with
  | missing hmissing =>
    have hground := (Volume.within_makeDirs hmissing.makeDirs).item _ _ hthere
    rw [S.bare _ (by simp)] at hground
    cases hground
  | stocked hstocked => exact ⟨hstocked, hthere, hstocked.leads_shard hd hthere⟩

theorem Has.lists {s : DiskState} (h : S.Has clean c G s) (hshard : G.shard d)
    {names : List String}
    (hnames : s.drive.volume.readDir (Path.join S.path (shardOf d)) = .ok names) :
    G.Lists d names := by
  intro n
  obtain ⟨hstocked, -, hleads⟩ := h.leads_shard hd hshard
  rw [hleads.readDir] at hnames
  cases hnames
  rw [hstocked.mem_children_shard]
  constructor
  · rintro ⟨d', e, hd', he, hname, hsame, hfile⟩
    exact ⟨d', e, hd', he, hname, hsame, h.content d' e hd' ▸ hfile⟩
  · rintro ⟨d', e, hd', he, hname, hsame, hfile⟩
    exact ⟨d', e, hd', he, hname, hsame, h.content d' e hd' ▸ hfile⟩

omit hd in
/-- What has been listed is looked at. -/
theorem ends_scanListed (hmending : F.Mending G)
    (hgone : ∀ d' e', gone d' e' → G.content d' e' = none) {names : List String}
    (hnames : G.Lists d names) :
    Ends (S.Has clean c G) (DiskCache.scanNames (Path.join S.path (shardOf d)) names names)
      (fun l s => (∀ p, p ∈ l ↔ shardOf p.1 = shardOf d ∧ F.indexed p.1 = some p.2) ∧
        S.Amid clean c F (fun d' e' => gone d' e' ∨
          IsDigest d' ∧ e' ∈ endings ∧ shardOf d' = shardOf d ∧ ¬ F.Stays d' e') s)
      (fun _ => S.Broken clean c F) := by
  have hlisted : ∀ d', F.legible d' ≠ none → shardOf d' = shardOf d →
      d' ++ sidecarEnding ∈ names := by
    intro d' hlegible hsame
    obtain ⟨m, hm⟩ := Option.ne_none_iff_exists'.1 hlegible
    refine (hnames _).2
      ⟨d', sidecarEnding, Files.digest_of_legible hm, sidecarEnding_mem, rfl, hsame, ?_⟩
    exact Files.content_of_legible ((hmending.legible d').trans hm)
  refine Ends.imp (P := S.Amid clean c F fun d' e' => gone d' e' ∨
    IsDigest d' ∧ e' ∈ endings ∧ shardOf d' = shardOf d ∧ d' ++ e' ∉ names)
    (ends_scanNames ?_) ?_ ?_ fun _ _ h => h
  · intro n hn
    obtain ⟨d', e, hd', he, hname, hsame, hsome⟩ := (hnames n).1 hn
    refine ⟨d', e, hd', he, hname, hsame, ?_, fun hlegible => hlisted d' hlegible hsame⟩
    rcases hmending.content d' e with heq | ⟨hnone, -⟩
    · exact heq ▸ hsome
    · exact absurd hnone hsome
  -- A file whose name is not listed is gone already.
  · intro s h
    refine ⟨G, ⟨hmending, ?_⟩, h⟩
    rintro d' e' (hnone | ⟨hd', he', hsame, hnot⟩)
    · exact hgone d' e' hnone
    · by_contra hsome
      exact hnot ((hnames _).2 ⟨d', e', hd', he', rfl, hsame, hsome⟩)
  · rintro l s ⟨hl, h⟩
    refine ⟨?_, h.imp ?_⟩
    · intro p
      rw [hl]
      refine and_congr_left fun hindexed => ?_
      obtain ⟨m, hm, -⟩ := Option.map_eq_some_iff.1 hindexed
      constructor
      · intro hmem
        obtain ⟨d', e, hd', he, hname, hsame, -⟩ := (hnames _).1 hmem
        rw [← hd'.eq_of_append_sidecarEnding he hname.symm]
        exact hsame
      · exact hlisted p.1 (by rw [hm]; exact Option.some_ne_none m)
    · rintro d' e' (hnone | ⟨hd', he', hsame, hstays⟩)
      · exact .inl (.inl hnone)
      · by_cases hmem : d' ++ e' ∈ names
        · exact .inr (exists_swept hd' he' hmem hstays)
        · exact .inl (.inr ⟨hd', he', hsame, hmem⟩)

/-- What is at the directory of a digest is seen to be a directory, and its names are listed. -/
theorem ends_scanShard (hshard : F.shard d) :
    Ends (S.Amid clean c F gone) (DiskCache.scanShard (Path.join S.path (shardOf d)))
      (fun l s => (∀ p, p ∈ l ↔ shardOf p.1 = shardOf d ∧ F.indexed p.1 = some p.2) ∧
        S.Amid clean c F (fun d' e' => gone d' e' ∨
          IsDigest d' ∧ e' ∈ endings ∧ shardOf d' = shardOf d ∧ ¬ F.Stays d' e') s)
      (fun _ => S.Broken clean c F) := by
  refine .of_exists fun G => .assume fun hkept => ?_
  obtain ⟨hmending, hgone⟩ := hkept
  have hshard' : G.shard d := hmending.shard ▸ hshard
  have hbroken : ∀ (_ : CacheError) s, ¬ clean ∧ S.Has clean c G s → S.Broken clean c F s :=
    fun _ _ h => ⟨h.1, G, h.2, hmending⟩
  have hkind : ∀ s, S.Has clean c G s →
      s.drive.volume.linkMetadata (Path.join S.path (shardOf d)) = .ok .directory := by
    intro s h
    obtain ⟨hstocked, hthere, -⟩ := h.leads_shard hd hshard'
    exact hstocked.leads.linkMetadata_join hd.isPlain_shardOf (shard_short hd) hthere (by simp)
  have hlook := ends_look (·.linkMetadata (Path.join S.path (shardOf d)))
    (fun s h => ⟨_, hkind s h⟩) (Path.join S.path (shardOf d))
  have hlist := ends_look (·.readDir (Path.join S.path (shardOf d)))
    (fun s (h : S.Has clean c G s) => ⟨_, (h.leads_shard hd hshard').2.2.readDir⟩)
    (Path.join S.path (shardOf d))
  unfold DiskCache.scanShard
  refine .bind (hlook.imp_error hbroken) fun kind => ?_
  refine Ends.imp_state (P := fun s => kind = .directory ∧ S.Has clean c G s) (.assume ?_)
    fun s h => ⟨Except.ok.inj (h.1.symm.trans (hkind s h.2)), h.2⟩
  rintro rfl
  simp only [Item.isDirectory, if_true]
  refine .bind (hlist.imp_error hbroken) fun names => ?_
  refine Ends.imp_state (P := fun s => G.Lists d names ∧ S.Has clean c G s)
    (.assume fun hnames => ends_scanListed hmending hgone hnames)
    fun s h => ⟨h.2.lists hd hshard' h.1, h.2⟩

end Directory

/-! ## The whole directory -/

theorem ends_scanShards {names : List String}
    (hnames : ∀ n ∈ names, ∃ d, IsDigest d ∧ n = shardOf d ∧ F.shard d) :
    Ends (S.Amid clean c F gone) (DiskCache.scanShards S.path names)
      (fun l s => (∀ p, p ∈ l ↔ shardOf p.1 ∈ names ∧ F.indexed p.1 = some p.2) ∧
        S.Amid clean c F (fun d' e' => gone d' e' ∨
          IsDigest d' ∧ e' ∈ endings ∧ shardOf d' ∈ names ∧ ¬ F.Stays d' e') s)
      (fun _ => S.Broken clean c F) := by
  induction names generalizing gone with
  | nil =>
    refine .pure fun s h => ⟨by simp, h.imp ?_⟩
    rintro d' e' (hnone | ⟨-, -, hmem, -⟩)
    · exact hnone
    · cases hmem
  | cons n names ih =>
    obtain ⟨d, hd, rfl, hshard⟩ := hnames n (List.mem_cons_self ..)
    refine .bind (ends_scanShard hd hshard) fun here => .assume fun hhere =>
      .bind (ih fun m hm => hnames m (List.mem_cons_of_mem _ hm)) fun rest => .assume fun hrest =>
        .pure fun s h => ⟨?_, h.imp ?_⟩
    · intro p
      rw [List.mem_append, hhere, hrest, List.mem_cons, or_and_right]
    · rintro d' e' (hnone | ⟨hd', he', hmem, hstays⟩)
      · exact .inl (.inl hnone)
      · rcases List.mem_cons.1 hmem with heq | hmem
        · exact .inl (.inr ⟨hd', he', heq, hstays⟩)
        · exact .inr ⟨hd', he', hmem, hstays⟩

/-- No file of an entry is there but the four kinds. -/
theorem Stocked.fileAt_eq_none {v : Volume} (h : S.Stocked v) (hd : IsDigest d) (he : e ∉ endings) :
    S.fileAt v d e = none := by
  rcases hitem : v.item? (S.place d e) with _ | i
  · rw [fileAt, hitem]
  · have hknown := h.known [shardOf d, d ++ e] i (by simp) hitem
    generalize hr : [shardOf d, d ++ e] = r at hknown
    cases hknown with
    | shard => simp at hr
    | @file d' e' content hd' he' =>
      simp only [List.cons.injEq, and_true] at hr
      rw [(hd.append_inj hd' hr.2).2] at he
      exact absurd he' he

/-- What is left when everything is gone that does not stay. -/
theorem Amid.has {s : DiskState}
    (h : S.Amid clean c F (fun d e => IsDigest d ∧ e ∈ endings ∧ ¬ F.Stays d e) s) :
    S.Has clean c F.mended s := by
  obtain ⟨G, ⟨hmending, hgone⟩, hhas⟩ := h
  refine ⟨hhas.cache, hhas.directory, hhas.truthful, hhas.faultless, hhas.site, ?_, ?_⟩
  · intro d e hd
    rw [hhas.content d e hd]
    have hmended : F.mended.content d e = if (F.legible d).isSome ∧
      (e = valueEnding ∨ e = sidecarEnding) then F.content d e else none := rfl
    rw [hmended]
    split
    · next hstays =>
      exact hmending.content_of_stays ⟨Option.isSome_iff_ne_none.1 hstays.1, hstays.2⟩
    · next hstays =>
      by_cases he : e ∈ endings
      · exact hgone d e ⟨hd, he, fun h => hstays ⟨Option.isSome_iff_ne_none.2 h.1, h.2⟩⟩
      · rw [← hhas.content d e hd]
        cases hhas.site with
        | missing hmissing => exact hmissing.fileAt
        | stocked hstocked => exact hstocked.fileAt_eq_none hd he
  · intro d hshard
    exact hhas.shard d (hmending.shard ▸ hshard)

/-- The directory lists the directories of the files in it. -/
theorem Has.listed {s : DiskState} (h : S.Has clean c F s) {names : List String}
    (hnames : s.drive.volume.readDir S.path = .ok names) :
    (∀ n ∈ names, ∃ d, IsDigest d ∧ n = shardOf d ∧ S.HasShard s.drive.volume d) ∧
      ∀ d e, F.content d e ≠ none → shardOf d ∈ names := by
  cases h.site with
  | missing hmissing =>
    rw [hmissing.readDir] at hnames
    cases hnames
  | stocked hstocked =>
    rw [hstocked.leads.readDir] at hnames
    obtain rfl := Except.ok.inj hnames
    refine ⟨fun n hn => hstocked.mem_children.1 hn, fun d e hsome => ?_⟩
    have hd := F.digest d e hsome
    obtain ⟨content, hcontent⟩ := Option.ne_none_iff_exists'.1 hsome
    rw [← h.content d e hd] at hcontent
    exact hstocked.mem_children.2 ⟨d, hd, rfl, (hstocked.item?_place_of_fileAt hcontent).2⟩

/-- A directory that cannot be listed is missing, and has no files. -/
theorem Has.unlisted {s : DiskState} (h : S.Has clean c F s) {o : OsError}
    (herror : s.drive.volume.readDir S.path = .error o) :
    o = .notFound ∧ ∀ d e, F.content d e = none := by
  cases h.site with
  | missing hmissing =>
    rw [hmissing.readDir] at herror
    refine ⟨(Except.error.inj herror).symm, fun d e => ?_⟩
    by_contra hsome
    rw [← h.content d e (F.digest d e hsome), hmissing.fileAt] at hsome
    exact hsome rfl
  | stocked hstocked =>
    rw [hstocked.leads.readDir] at herror
    cases herror

theorem ends_scanAll {names : List String}
    (hnames : ∀ n ∈ names, ∃ d, IsDigest d ∧ n = shardOf d ∧ F.shard d)
    (hlisted : ∀ d e, F.content d e ≠ none → shardOf d ∈ names) :
    Ends (S.Has clean c F) (DiskCache.scanShards S.path names)
      (fun l s => (∀ p, p ∈ l ↔ F.indexed p.1 = some p.2) ∧ S.Has clean c F.mended s)
      (fun _ => S.Broken clean c F) := by
  refine Ends.imp (P := S.Amid clean c F fun d _ => shardOf d ∉ names) (ends_scanShards hnames)
    ?_ ?_ fun _ _ h => h
  · intro s h
    refine ⟨F, ⟨.refl F, ?_⟩, h⟩
    intro d e hnot
    by_contra hsome
    exact hnot (hlisted d e hsome)
  · rintro l s ⟨hl, h⟩
    refine ⟨?_, (h.imp ?_).has⟩
    · intro p
      rw [hl, and_iff_right_iff_imp]
      intro hindexed
      obtain ⟨m, hm, -⟩ := Option.map_eq_some_iff.1 hindexed
      exact hlisted p.1 _ (Files.content_of_legible hm)
    · rintro d e ⟨hd, he, hstays⟩
      by_cases hmem : shardOf d ∈ names
      · exact .inr ⟨hd, he, hmem, hstays⟩
      · exact .inl hmem

/-- The scan of the directory finds the sidecars that stay, and takes away what does not. -/
theorem ends_scan :
    Ends (fun s => S.Has clean c F s ∧ ∀ d, S.HasShard s.drive.volume d → F.shard d) DiskCache.scan
      (fun l s => (∀ p, p ∈ l ↔ F.indexed p.1 = some p.2) ∧ S.Has clean c F.mended s)
      (fun _ => S.Broken clean c F) := by
  refine .get_bind ?_
  rintro s ⟨hhas, hshards⟩
  have hdir : s.cache.directory = S.path := hhas.cache ▸ hhas.directory
  rw [hdir]
  refine .bind (Q := fun r s' => (r = s.drive.volume.readDir S.path ∨
      ¬ clean ∧ ∃ o, o ≠ .notFound ∧ r = .error o) ∧ S.Has clean c F s')
    (.files ?_) fun r => .assume fun hr => ?_
  · rintro s rfl
    obtain ⟨hsame, hanswer⟩ := hhas.reading (·.readDir S.path)
    exact ⟨hanswer, hsame⟩
  split
  · next names =>
    rcases hr with hr | ⟨-, o, -, hr⟩
    · obtain ⟨hnames, hlisted⟩ := hhas.listed hr.symm
      refine ends_scanAll (fun n hn => ?_) hlisted
      obtain ⟨d, hd, hname, hshard⟩ := hnames n hn
      exact ⟨d, hd, hname, hshards d hshard⟩
    · cases hr
  -- A directory that is missing has no files, and so none that must go.
  · have hnone : ∀ d e, F.content d e = none := by
      rcases hr with hr | ⟨-, o, ho, hr⟩
      · exact (hhas.unlisted hr.symm).2
      · exact absurd (Except.error.inj hr).symm ho
    refine .pure fun s' h => ⟨?_, Amid.has ⟨F, ⟨.refl F, fun d e _ => hnone d e⟩, h⟩⟩
    intro p
    refine ⟨fun hp => (by cases hp), fun hindexed => ?_⟩
    obtain ⟨m, hm, -⟩ := Option.map_eq_some_iff.1 hindexed
    exact absurd (hnone _ _) (Files.content_of_legible hm)
  · next o hne =>
    refine .throw fun s' h => ⟨?_, F, h, .refl F⟩
    rcases hr with hr | ⟨hclean, -⟩
    · exact absurd (hhas.unlisted hr.symm).1 hne
    · exact hclean

/-! ## The index -/

/-- **The index is made from the sidecars that stay, and what does not stay is taken away**, unless a
fault is met or the sizes add up to more than a 64-bit word. -/
theorem ends_ensureIndex (hunseeded : c.seeded = false) :
    Ends (fun s => S.Has clean c F s ∧ ∀ d, S.HasShard s.drive.volume d → F.shard d)
      DiskCache.ensureIndex
      (fun _ s => ∃ l index, (∀ p, p ∈ l ↔ F.indexed p.1 = some p.2) ∧
        DiskIndex.ofList? l = some index ∧
        S.Has clean { c with index, seeded := true } F.mended s)
      (fun _ s => (∃ l, (∀ p, p ∈ l ↔ F.indexed p.1 = some p.2) ∧ DiskIndex.ofList? l = none ∧
          S.Has clean c F.mended s) ∨
        S.Broken clean c F s) := by
  refine .get_bind ?_
  rintro s ⟨hhas, hshards⟩
  rw [hhas.cache, hunseeded]
  simp only [Bool.not_false, if_true]
  refine .bind ((ends_scan.imp_state ?_).imp_error fun _ _ h => .inr h)
    fun l => .assume fun hl => ?_
  · rintro s rfl
    exact ⟨hhas, hshards⟩
  split
  · next hnone => exact .throw fun s h => .inl ⟨l, hl, hnone, h⟩
  · next index hindex =>
    refine .modify fun s h => ⟨l, index, hl, hindex, ?_⟩
    exact ⟨by rw [← h.cache], h.directory, h.truthful, h.faultless, h.site, h.content, h.shard⟩

/-- An index that has been made is not made again. -/
theorem ends_ensureIndex_seeded (hseeded : c.seeded = true) :
    Ends (S.Has clean c F) DiskCache.ensureIndex (fun _ => S.Has clean c F) (fun _ _ => False) := by
  refine .get_bind fun s hhas => ?_
  rw [hhas.cache, hseeded]
  refine .pure ?_
  rintro s rfl
  exact hhas

end Shelf

end CodeGraph.Cache
