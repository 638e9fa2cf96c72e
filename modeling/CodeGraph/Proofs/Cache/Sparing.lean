import CodeGraph.Proofs.Cache.Elsewhere
import CodeGraph.Proofs.Cache.Foreign
import CodeGraph.Proofs.Volume.Spared

/-!
# What a cache spares

While a cache on disk is brought up to date everything is spared that is not in its directory
(`LayeredCache.Truthful.spared_drainOne`). What spares its directory leaves it untouched
(`LayeredCache.TruthfulDisk.untouched_of_spared`), also where the directory is missing still.
-/

namespace CodeGraph.Cache

open CodeGraph.Path (IsPlain)
open DiskCache (valueEnding sidecarEnding unfinishedEnding shard?)
open Volume (LeftAlone Straight Clears)

/-! ## Changes elsewhere -/

namespace Shelf

variable {S : Shelf} {v w : Volume} {root : List String}

/-- A directory that is missing can be made unless a file is in the way. -/
theorem fresh_of_missing {dir : String} (hv : v.Unlinked) (hp : v.Straight dir root)
    (hroomy : dir.utf8ByteSize + 82 ≤ Volume.longestPath)
    (hfree : ∀ r, r <+: root → v.contentAt? r = none) (hmissing : v.item? root = none) :
    Fresh v dir := by
  have hlen : dir.utf8ByteSize ≤ Volume.longestPath := Nat.le_trans (Nat.le_add_right _ _) hroomy
  obtain ⟨u, hu⟩ := hp.exists_makeDirs hv hlen hfree
  obtain ⟨hlead, hmade⟩ := hp.made_of_makeDirs hv hlen hu
  have hbare : ∀ r, r ≠ [] → u.item? (root ++ r) = none := by
    intro r hr
    have hnone : v.item? (root ++ r) = none := by
      rcases hitem : v.item? (root ++ r) with _ | i
      · rfl
      · rw [hv.above hr (by simp [hitem])] at hmissing
        cases hmissing
    rw [hmade, if_neg, hnone]
    rintro ⟨-, hlonger⟩
    have hlength := hlonger.length_le
    have hpos := List.length_pos_iff.2 hr
    rw [List.length_append] at hlength
    omega
  exact ⟨⟨dir, root, u, hlead, hbare, hroomy⟩, rfl, .inr
    ⟨hv.toIsTree, hp.readDir_missing hv hlen hfree hmissing, hu⟩⟩

/-- A directory that is missing is missing still, and can be made. -/
theorem Makeable.spared (h : S.Makeable v) (hv : v.Unlinked) (hp : v.Straight S.path root)
    (hw : LeftAlone (root <+: ·) (· <+: root) v w) : Fresh w S.path := by
  have hlen : S.path.utf8ByteSize ≤ Volume.longestPath :=
    Nat.le_trans (Nat.le_add_right _ _) S.roomy
  obtain ⟨hlead, hmade⟩ := hp.made_of_makeDirs hv hlen h.makeDirs
  have hmissing : v.item? root = none := by
    rcases hitem : v.item? root with _ | i
    · rfl
    · have hfind := hp.find hv hlen hitem true
      have hdirectory := hlead.item?
      rw [hmade, if_neg (by simp [hitem]), hitem] at hdirectory
      cases hdirectory
      have hmissing := h.readDir
      rw [Volume.readDir, hfind] at hmissing
      cases hmissing
  refine fresh_of_missing hw.unlinked (hw.straight hv hp) S.roomy (fun r hr => ?_)
    ((hw.same root (List.prefix_refl root)).trans hmissing)
  rw [hw.content r hr]
  have hdirectory := Volume.directory_above (h.tree.makeDirs h.makeDirs) hlead.item? hr
  rw [hmade] at hdirectory
  split at hdirectory
  · next hnone => exact Volume.contentAt?_of_none hnone.1
  · exact Volume.contentAt?_of_directory hdirectory

/-- What spares the directory leaves it untouched. -/
theorem Site.untouched_of_spared (h : S.Site v) (hv : v.Unlinked) (hp : v.Straight S.path root)
    (hw : LeftAlone (root <+: ·) (· <+: root) v w) : Untouched S.path v w := by
  cases h with
  | missing hmissing =>
    have hnone : ∀ q, ¬ v.LeadsTo S.path q := by
      intro q hlead
      have hreadDir := hmissing.readDir
      rw [hlead.readDir] at hreadDir
      cases hreadDir
    exact ⟨fun q hlead => absurd hlead (hnone q), fun q hlead => absurd hlead (hnone q),
      fun q hlead => absurd hlead (hnone q), fun _ => hmissing.spared hv hp hw⟩
  | stocked hstocked =>
    have hbase : S.base = root := hp.eq_of_leadsTo hv hstocked.leads
    subst hbase
    refine ⟨?_, ?_, ?_, ?_⟩
    · intro q hlead
      obtain rfl := hstocked.leads.unique hlead
      -- The path leads there without what is in the directory, so nothing in it is on the way.
      refine S.leads.kept (hw.current.trans hstocked.within.current) fun s i hi hfile => ?_
      have hitem := hstocked.within.item s i hi
      rw [Volume.item?_emptied, if_pos]
      · rcases i with content | _ | target
        · exact absurd rfl (hfile content)
        · exact hw.directory s hitem
        · exact absurd hitem (hv.unlinked s target)
      · by_cases hs : s = S.base
        · exact .inl hs
        · refine .inr fun hbelow => ?_
          obtain ⟨r, rfl⟩ := hbelow
          rw [S.bare r (by rintro rfl; exact hs (List.append_nil _))] at hi
          cases hi
    · intro q hlead r
      obtain rfl := hstocked.leads.unique hlead
      exact hw.same _ (List.prefix_append _ _)
    · intro q hlead
      obtain rfl := hstocked.leads.unique hlead
      exact hw.listed _ hstocked.listed
    · intro hmissing
      rw [hstocked.leads.readDir] at hmissing
      cases hmissing

end Shelf

theorem LayeredCache.TruthfulDisk.untouched_of_spared {V : Type} [Json.Form V] {k : Findings V}
    {dir : String} {s : DiskState} {w : Volume} {root : List String} (h : TruthfulDisk k dir s)
    (hv : s.drive.volume.Unlinked) (hp : s.drive.volume.Straight dir root)
    (hw : LeftAlone (root <+: ·) (· <+: root) s.drive.volume w) :
    Untouched dir s.drive.volume w := by
  obtain ⟨S, m, rfl, haccounted, -⟩ := h
  exact haccounted.settled.site.untouched_of_spared hv hp hw

/-! ## Writing -/

/-- All is spared from some time on, and no name in a sub-directory of a directory leads up. -/
structure Sparing (kind : List String → Prop) (before : Volume) (root : List String) (v : Volume) :
    Prop where
  spared : LeftAlone kind Untaken before v
  names : ∀ s n, (v.item? (root ++ [s, n])).isSome → shard? n ≠ some ".."

section Writing

variable {kind : List String → Prop} {before v w : Volume} {dir d e n : String}
  {root r : List String} {i : Item} {j : Option Item} {names : List String}

theorem not_untaken (he : e = valueEnding ∨ e = sidecarEnding ∨ e = unfinishedEnding)
    (q : List String) : ¬ Untaken (q ++ [d ++ e]) :=
  fun h => (untaken_concat.1 h).ne_append he rfl

/-- The place to which a path of two names in the directory leads. -/
theorem Sparing.place {s : String} (h : Sparing kind before root v) (hbefore : before.Unlinked)
    (hp : before.Straight dir root) (hs : '/' ∉ s.toList) (hs' : s ≠ "" ∧ s ≠ "." ∧ s ≠ "..")
    (hn : '/' ∉ n.toList) (hn' : n ≠ "" ∧ n ≠ "." ∧ n ≠ "..")
    (hr : v.resolve false (Path.join (Path.join dir s) n) = .ok (r, j)) :
    r = root ++ [s] ++ [n] ∧ IsPlain n ∧ v.item? (root ++ [s]) = some .directory := by
  have hpath := h.spared.straight hbefore hp
  obtain ⟨-, hend, -, -⟩ := Volume.walk_of_resolve hr
  rw [Path.join_join_unslashed hp.ne_empty hs hs'.1 hn] at hend
  simp only [String.toList_append, List.mem_append, not_or] at hend
  obtain ⟨front, hfront⟩ := Path.exists_join_eq dir s
  have hend' := hend.1.1
  rw [hfront, String.toList_append, List.mem_append, not_or] at hend'
  obtain ⟨hplain, -, q, hq⟩ := Volume.LeadsTo.of_resolve_join
    (Path.join_ne_empty_unslashed hp.ne_empty hs) ⟨hn'.1, hn'.2.1, hn'.2.2, hn, hend.2⟩ hr
  obtain ⟨hplain', -⟩ := Volume.LeadsTo.of_resolve_join hp.ne_empty
    ⟨hs'.1, hs'.2.1, hs'.2.2, hs, hend'.2⟩ hq
  have hshard := hpath.join hplain'
  obtain rfl := hshard.eq_of_leadsTo h.spared.unlinked hq
  exact ⟨(hshard.join hplain).of_resolve h.spared.unlinked hr, hplain, hq.item?⟩

/-- The names that a sub-directory has listed are in it, and the sub-directory has a name. -/
theorem Sparing.of_listed (hbefore : before.Unlinked) (hp : before.Straight dir root)
    (h : Listed (Sparing kind before root) dir n names) : IsPlain n ∧ ∀ name ∈ names,
      IsPlain name ∧ shard? name ≠ some ".." := by
  obtain ⟨⟨u, all, hu, hall, hn⟩, u', hu', hnames⟩ := h
  obtain ⟨q, hq, rfl⟩ := Volume.leadsTo_of_readDir hall
  have hn := hu.spared.unlinked.name _ _ (Volume.mem_children.1 hn)
  obtain ⟨q', hq', rfl⟩ := Volume.leadsTo_of_readDir hnames
  obtain rfl := ((hu'.spared.straight hbefore hp).join hn).eq_of_leadsTo hu'.spared.unlinked hq'
  refine ⟨hn, fun name hname => ?_⟩
  have hitem := Volume.mem_children.1 hname
  rw [List.append_assoc] at hitem
  exact ⟨hu'.spared.unlinked.name _ _ (Volume.mem_children.1 hname), hu'.names _ _ hitem⟩

theorem Sparing.remove (h : Sparing kind before root v) (hclears : before.Clears kind root)
    (hr : v.item? (root ++ [n] ++ [d ++ e]) ≠ some .directory)
    (he : e = valueEnding ∨ e = sidecarEnding ∨ e = unfinishedEnding) :
    Sparing kind before root (v.remove (root ++ [n] ++ [d ++ e])) := by
  refine ⟨h.spared.remove hr ?_ (not_untaken he _), fun s m hm => h.names s m ?_⟩
  · rw [List.append_assoc]
    exact hclears.below _
  · obtain ⟨i, hi⟩ := Option.isSome_iff_exists.1 hm
    rw [Volume.item?_of_remove hi]
    rfl

theorem Sparing.put (h : Sparing kind before root v) (hclears : before.Clears kind root)
    (hd : IsDigest d) (hfront : v.item? (root ++ [shardOf d]) = some .directory)
    (hn : IsPlain (d ++ n)) (hr : v.item? (root ++ [shardOf d] ++ [d ++ n]) ≠ some .directory)
    (hi : ∀ target, i ≠ .link target) (htaken : ¬ Untaken (root ++ [shardOf d] ++ [d ++ n])) :
    Sparing kind before root (v.put (root ++ [shardOf d] ++ [d ++ n]) i) := by
  refine ⟨h.spared.put hfront hn hr hi ?_ fun huntaken => absurd huntaken htaken, ?_⟩
  · rw [List.append_assoc]
    exact hclears.below _
  · intro s m hm
    rw [Volume.item?_put _ (by simp)] at hm
    split at hm
    · next heq =>
      have hsame : s = shardOf d ∧ m = d ++ n := by simpa using heq
      rw [hsame.2, shard?_append hd.shard?_eq]
      exact fun hup => hd.isPlain_shardOf.ne_up (Option.some.inj hup)
    · exact h.names s m hm

/-- The place of a file of a digest, finished or not. -/
theorem Sparing.place_of_resolve (h : Sparing kind before root v) (hbefore : before.Unlinked)
    (hp : before.Straight dir root) (hd : IsDigest d) (he : e ∈ endings)
    (hr : v.resolve false (filePath dir d e) = .ok (r, j)) :
    r = root ++ [shardOf d] ++ [d ++ e] ∧ IsPlain (d ++ e) ∧
      v.item? (root ++ [shardOf d]) = some .directory := by
  have hs := hd.isPlain_shardOf
  have hn := hd.isPlain_append he
  exact h.place hbefore hp hs.unslashed ⟨hs.ne_empty, hs.ne_dot, hs.ne_up⟩ hn.unslashed
    ⟨hn.ne_empty, hn.ne_dot, hn.ne_up⟩ hr

theorem Sparing.made {p : String} (h : Sparing kind before root v) (hclears : before.Clears kind root)
    (hp : v.Straight p r) (hr : r <+: root ++ [shardOf d])
    (hlen : p.utf8ByteSize ≤ Volume.longestPath) (hw : v.makeDirs p = .ok w) :
    Sparing kind before root w := by
  obtain ⟨-, hmade⟩ := hp.made_of_makeDirs h.spared.unlinked hlen hw
  refine ⟨h.spared.makeDirs hp hlen hw ?_, fun s n hn => h.names s n ?_⟩
  · intro s hs hkind
    rcases List.prefix_concat_iff.1 (hs.trans hr) with rfl | hs
    · exact absurd hkind (hclears.below _)
    · exact h.spared.directory s (hclears.above s hs hkind)
  · rw [hmade, if_neg] at hn
    · exact hn
    · rintro ⟨-, hlonger⟩
      have hlength := (hlonger.trans hr).length_le
      simp at hlength

section Make

variable (h : Sparing kind before root v) (hbefore : before.Unlinked)
  (hp : before.Straight dir root) (hclears : before.Clears kind root)
  (hlen : dir.utf8ByteSize + 3 ≤ Volume.longestPath) (hd : IsDigest d)

include h hbefore hp hlen hd

theorem Sparing.shard :
    v.Straight (Path.join dir (shardOf d)) (root ++ [shardOf d]) ∧
      (Path.join dir (shardOf d)).utf8ByteSize ≤ Volume.longestPath := by
  refine ⟨(h.spared.straight hbefore hp).join hd.isPlain_shardOf, ?_⟩
  have hjoin := Path.utf8ByteSize_join_le hp.ne_empty hd.isPlain_shardOf
  rw [hd.utf8ByteSize_shardOf] at hjoin
  omega

include hclears

theorem Sparing.make (hw : v.makeDirs (Path.join dir (shardOf d)) = .ok w) :
    Sparing kind before root w := by
  obtain ⟨hpath, hshort⟩ := h.shard hbefore hp hlen hd
  exact h.made hclears hpath (List.prefix_refl _) hshort hw

theorem Sparing.left : Sparing kind before root (v.dirsLeft (Path.join dir (shardOf d))) := by
  obtain ⟨hpath, hshort⟩ := h.shard hbefore hp hlen hd
  rcases hpath.dirsLeft_cases with heq | ⟨p', q', hp', hq', hle, hmake⟩
  · rwa [heq]
  · exact h.made hclears hp' hq' (Nat.le_trans hle hshort) hmake

end Make

theorem Sparing.write {content : ByteArray} (h : Sparing kind before root v)
    (hbefore : before.Unlinked) (hp : before.Straight dir root)
    (hclears : before.Clears kind root) (hd : IsDigest d) (he : e = valueEnding ∨ e = sidecarEnding)
    (hresolve : v.resolve true (filePath dir d e ++ unfinishedEnding) = .ok (r, j))
    (hj : j ≠ some .directory) : Sparing kind before root (v.put r (.file content)) := by
  obtain ⟨hfinished, hunfinished⟩ := endings_of_entry he
  rw [h.spared.unlinked.resolve_true, Shelf.filePath_append dir hd hfinished hunfinished] at hresolve
  obtain ⟨rfl, hn, hfront⟩ := h.place_of_resolve hbefore hp hd hunfinished hresolve
  refine h.put hclears hd hfront hn (Volume.resolve_eq_ok hresolve ▸ hj) (by simp) ?_
  rw [← String.append_assoc]
  exact not_untaken (.inr (.inr rfl)) _

theorem Sparing.move {q : List String} (h : Sparing kind before root v) (hbefore : before.Unlinked)
    (hp : before.Straight dir root) (hclears : before.Clears kind root) (hd : IsDigest d)
    (he : e = valueEnding ∨ e = sidecarEnding)
    (hfind : v.find false (filePath dir d e ++ unfinishedEnding) = .ok (q, i)) (hi : i ≠ .directory)
    (hresolve : v.resolve false (filePath dir d e) = .ok (r, j)) (hj : j ≠ some .directory) :
    Sparing kind before root ((v.remove q).put r i) := by
  obtain ⟨hfinished, hunfinished⟩ := endings_of_entry he
  have hitem := Volume.item?_of_find hfind
  have hfile := Volume.not_directory_of_find hfind hi
  have hsource := Volume.resolve_of_find hfind
  rw [Shelf.filePath_append dir hd hfinished hunfinished] at hsource
  obtain ⟨rfl, -⟩ := h.place_of_resolve hbefore hp hd hunfinished hsource
  obtain ⟨rfl, hn, hfront⟩ := h.place_of_resolve hbefore hp hd hfinished hresolve
  rw [← String.append_assoc] at hfile hitem ⊢
  refine (h.remove hclears hfile (.inr (.inr rfl))).put hclears hd
    (h.spared.unlinked.directory_remove hfile hfront) hn (fun hdirectory => ?_) ?_
    (not_untaken (he.imp_right .inl) _)
  · rw [Volume.resolve_eq_ok hresolve] at hj
    exact hj (Volume.item?_of_remove hdirectory)
  · rintro target rfl
    exact h.spared.unlinked.unlinked _ target hitem

/-- A cache in a directory that is cleared spares all. -/
theorem frame_sparing (hbefore : before.Unlinked) (hp : before.Straight dir root)
    (hclears : before.Clears kind root) (hlen : dir.utf8ByteSize + 3 ≤ Volume.longestPath) :
    Frame dir (Sparing kind before root) fun d => '/' ∉ d.toList ∧ shard? d ≠ some ".." := by
  refine ⟨?_, ?_, ?_, ?_, fun hv hd => hv.make hbefore hp hclears hlen hd,
    fun hv hd => hv.left hbefore hp hclears hlen hd, fun hv hd he => hv.write hbefore hp hclears hd he,
    fun hv hd he hfind hi hresolve hj _ => hv.move hbefore hp hclears hd he hfind hi hresolve hj⟩
  · intro d hd
    refine ⟨hd.slash_not_mem, ?_⟩
    rw [hd.shard?_eq]
    exact fun hup => hd.isPlain_shardOf.ne_up (Option.some.inj hup)
  · intro n names d hlisted hmem
    obtain ⟨hplain, hshard⟩ := (Sparing.of_listed hbefore hp hlisted).2 _ hmem
    refine ⟨fun hslash => hplain.unslashed ?_, fun hup => hshard (shard?_append hup _)⟩
    rw [String.toList_append]
    exact List.mem_append_left _ hslash
  · intro v d shard e r i hv ⟨hslash, hup⟩ hshard he hfind hi
    obtain ⟨hs, hs'⟩ := shard?_spec hshard hslash
    have hname : '/' ∉ (d ++ e).toList := by
      rw [String.toList_append, List.mem_append, not_or]
      exact ⟨hslash, (ending_spec (he.imp_right .inl)).1⟩
    obtain ⟨rfl, -⟩ := hv.place hbefore hp hs
      ⟨hs'.1, hs'.2, fun hdots => hup (hdots ▸ hshard)⟩ hname (ne_of_ending (he.imp_right .inl))
      (Volume.resolve_of_find hfind)
    exact hv.remove hclears (Volume.not_directory_of_find hfind hi) (he.imp_right .inl)
  · intro v n names name r i hv hlisted hname hswept hfind hi
    obtain ⟨hn, hnames⟩ := Sparing.of_listed hbefore hp hlisted
    have hplain := (hnames name hname).1
    obtain ⟨rfl, -⟩ := hv.place hbefore hp hn.unslashed ⟨hn.ne_empty, hn.ne_dot, hn.ne_up⟩
      hplain.unslashed ⟨hplain.ne_empty, hplain.ne_dot, hplain.ne_up⟩
      (Volume.resolve_of_find hfind)
    obtain ⟨d, e, he, rfl⟩ := exists_of_swept hswept
    exact hv.remove hclears (Volume.not_directory_of_find hfind hi) (he.imp_right .inr)

end Writing

/-! ## Bringing a cache to disk -/

/-- The files of entries are in directories of digests, which do not lead up. -/
theorem Shelf.Site.shard?_ne_up {S : Shelf} {v : Volume} {root : List String} (h : S.Site v)
    (hv : v.Unlinked) (hp : v.Straight S.path root) {s n : String}
    (hn : (v.item? (root ++ [s, n])).isSome) : shard? n ≠ some ".." := by
  have hlen : S.path.utf8ByteSize ≤ Volume.longestPath :=
    Nat.le_trans (Nat.le_add_right _ _) S.roomy
  cases h with
  | missing hmissing =>
    have hroot := hv.above (List.cons_ne_nil s [n]) hn
    have hreadDir := hmissing.readDir
    rw [(hp.leadsTo hv.toIsTree hlen hroot).readDir] at hreadDir
    cases hreadDir
  | stocked hstocked =>
    obtain rfl := hp.eq_of_leadsTo hv hstocked.leads
    obtain ⟨i, hi⟩ := Option.isSome_iff_exists.1 hn
    have hknown := hstocked.known [s, n] i (by simp) hi
    generalize hr : [s, n] = r at hknown
    cases hknown with
    | shard => simp at hr
    | @file d e content hd =>
      simp only [List.cons.injEq, and_true] at hr
      rw [hr.2, shard?_append hd.shard?_eq]
      exact fun hup => hd.isPlain_shardOf.ne_up (Option.some.inj hup)

namespace LayeredCache.Truthful

variable {V : Type} [Json.Form V] {k : Findings V} {place : Option String} {s : LayeredState V}
  {kind : List String → Prop} {before : Volume}

/-- A waiting write spares what is not in the directory of the cache. -/
theorem spared_drainOne (h : Truthful k place s) (now : UInt64) (hbefore : before.Unlinked)
    (hclears : ∀ dir, place = some dir →
      ∃ root, before.Straight dir root ∧ before.Clears kind root)
    (hspared : LeftAlone kind Untaken before s.drive.volume) :
    LeftAlone kind Untaken before ((drainOne now).run.run s).2.drive.volume := by
  rcases hdisk : s.cache.disk with _ | side
  · rw [run_drainOne_none hdisk]
    exact hspared
  rcases hqueue : side.queue with _ | ⟨w, rest⟩
  · rw [run_drainOne_nil hdisk hqueue]
    exact hspared
  obtain ⟨dir, hplace, S, m, rfl, haccounted, -⟩ := h.disk side hdisk
  obtain ⟨root, hp, hroot⟩ := hclears S.path hplace
  have hsettled := haccounted.settled
  have hroomy := S.roomy
  have F := frame_sparing hbefore hp hroot (by omega)
  have hstart : Framed S.path (Sparing kind before root)
      (fun d => '/' ∉ d.toList ∧ shard? d ≠ some "..") ⟨side.cache, s.drive⟩ := by
    refine ⟨hsettled.directory, ⟨hspared, fun s n => hsettled.site.shard?_ne_up hspared.unlinked
      (hspared.straight hbefore hp)⟩, fun hseeded p hmem => ?_⟩
    have hindexed := ((hsettled.index hseeded).2 p.1).symm.trans (NameMap.get?_eq_some_iff.2 hmem)
    obtain ⟨entry, hentry, -⟩ := Option.map_eq_some_iff.1 hindexed
    exact F.digest (hsettled.entry p.1 entry hentry).1
  rcases hrun : (DiskCache.set now w.key w.content).run.run ⟨side.cache, s.drive⟩ with ⟨r, ds⟩
  have hend : Framed S.path (Sparing kind before root)
      (fun d => '/' ∉ d.toList ∧ shard? d ≠ some "..") ds := by
    cases r with
    | ok kept => exact (F.keeps_set now w.key w.content).of_ok hstart hrun
    | error e => exact (F.keeps_set now w.key w.content).of_error hstart hrun
  rw [run_drainOne hdisk hqueue hrun]
  exact hend.volume.spared

end LayeredCache.Truthful

end CodeGraph.Cache
