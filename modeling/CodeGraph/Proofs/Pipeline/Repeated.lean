import CodeGraph.Extension.Builtin
import CodeGraph.Proofs.Cache.Sparing
import CodeGraph.Proofs.Extension.Linking
import CodeGraph.Proofs.Extension.Rewalking
import CodeGraph.Proofs.Pipeline.Merge
import CodeGraph.Proofs.Toml.Ordering

/-!
# Runs that are repeated

In sessions that see the same files, whatever their caches have kept, the extensions that come with
the program parse alike (`FileTree.Resembles.run_parse`). So runs give the same nodes but for the time
of their making (`Pipeline.exists_nodes`). Bringing the cache to disk afterwards spares what is seen
(`FileTree.Kept.flush`).
-/

namespace CodeGraph

namespace NameMap

variable {β γ : Type}

theorem map_place (f : String → β → γ) (k : String) (v : β) (l : List (String × β)) :
    (place k v l).map (fun e => (e.1, f e.1 e.2)) =
      place k (f k v) (l.map fun e => (e.1, f e.1 e.2)) := by
  induction l with
  | nil => rfl
  | cons e l ih =>
    simp only [place, List.map_cons]
    split
    · rfl
    split
    · rfl
    · rw [List.map_cons, ih]

theorem map_insertMany (f : String → β → γ) (m : NameMap β) (l : List (String × β)) :
    (m.insertMany l).map f = (m.map f).insertMany (l.map fun e => (e.1, f e.1 e.2)) := by
  induction l generalizing m with
  | nil => rfl
  | cons e l ih =>
    have hinsert : (m.insert e.1 e.2).map f = (m.map f).insert e.1 (f e.1 e.2) :=
      ext_entries (map_place f e.1 e.2 m.entries)
    exact (ih (m.insert e.1 e.2)).trans (congrArg (insertMany · _) hinsert)

end NameMap

/-! ## Nodes but for their producers -/

/-- The node without its producer. -/
def Node.bare (n : Node) : Node :=
  { n with provenance := none }

theorem Node.bare_attributedTo (i : ExtensionInfo) (now : UInt64) (n : Node) :
    (n.attributedTo i now).bare = n.bare := by
  obtain ⟨id, type, name, metadata, labels, provenance⟩ := n
  cases provenance <;> rfl

/-- When nodes were parsed is told by their producers alone. -/
theorem Pipeline.map_bare_mergedNodes (t u : UInt64) (visits : List Visit) :
    (mergedNodes t visits).map (fun _ => Node.bare) =
      (mergedNodes u visits).map fun _ => Node.bare := by
  have hbare : ∀ now : UInt64, (mergedNodes now visits).map (fun _ => Node.bare) =
      .ofList (visits.flatMap fun v =>
        ((v.parsed.toOption.map (·.nodes)).getD []).map fun n => (n.id, n.bare)) := by
    intro now
    refine (NameMap.map_insertMany _ _ _).trans (congrArg NameMap.ofList ?_)
    rw [List.map_map, List.map_flatMap]
    refine List.flatMap_congr fun v _ => ?_
    rw [Visit.parsedNodes]
    rcases v.parsed with f | o
    · rfl
    · rw [List.map_map]
      refine List.map_congr_left fun n _ => ?_
      simp only [Function.comp_apply, Node.bare_attributedTo, Node.id_attributedTo]
  rw [hbare, hbare]

/-! ## Parsing -/

namespace FileTree

open Cache (Findings Untaken)
open Volume (LeftAlone)

variable {k : Findings FileFacts} {place : Option String} {root : List String}
  {person : Ignore.Person} {v : Volume} {s : Session} {c : ParseContext}

/-- A session on a volume for a person, without a cache. -/
def sessionOn (v : Volume) (person : Ignore.Person) (ids : IdGenerator) : Session :=
  { ids, drive := ⟨v, []⟩, person }

/-- A session sees what there is below a root as it is on a volume, and what is kept in its cache has
been found out. -/
structure Resembles (k : Findings FileFacts) (place : Option String) (root : List String)
    (person : Ignore.Person) (v : Volume) (s : Session) : Prop where
  kept : Kept k place s
  timely : Timely s
  person : s.person = person
  spared : LeftAlone (Seen root) Untaken v s.drive.volume

theorem resembles_sessionOn (k : Findings FileFacts) (root : List String)
    (person : Ignore.Person) (hv : v.Unlinked) (ids : IdGenerator) : Resembles k none root person v (sessionOn v person ids) :=
  ⟨⟨rfl, by simp, by simp [sessionOn]⟩, by simp [Timely, sessionOn], rfl, .refl hv⟩

/-- **A parse gives what it gives on the volume**, and leaves all files as they are. -/
theorem Resembles.run_parse (h : Resembles k place root person v s) (hk : k.Sound)
    (hv : Walkable root person v) (hroot : c.root = Path.ofParts true root)
    (hfound : ∀ f ∈ sightings c (sessionOn v person s.ids), f.finding ∈ k) :
    ∃ t, (parse c).run.run s = ((answerOf c (sessionOn v person s.ids)).1, t) ∧
      t.ids = (answerOf c (sessionOn v person s.ids)).2 ∧ t.drive = s.drive ∧
      Resembles k place root person v t := by
  obtain ⟨hanswer, hsightings⟩ := answerOf_spared (s := sessionOn v person s.ids) hv h.spared rfl
    h.person hroot
  have hlead := h.spared.leadsTo hv.unlinked hv.leads
  have hproper : Proper c s := by
    refine ⟨?_, fun q n => h.spared.unlinked.name q n, h.timely⟩
    intro q content hfind
    have hresolve := Volume.resolve_of_find hfind
    rw [hroot, show s.drive.volume.resolve true (Path.ofParts true root) =
      .ok (root, some .directory) from hlead] at hresolve
    cases hresolve
  rw [← hsightings] at hfound
  obtain ⟨facts, hrun, htimely⟩ := h.kept.run_parse hk hproper hfound
  have hkept := ((parses_run c s).answer h.kept hk hproper hfound).2
  rw [hrun] at hkept
  rw [← hanswer]
  exact ⟨_, hrun, rfl, rfl, hkept, htimely, h.person, h.spared⟩

/-- **Bringing a cache to disk** leaves nothing in it but what has been found out, and spares what is
not in its directory. -/
theorem Kept.flush {kind : List String → Prop} {before : Volume}
    {cache : Cache.LayeredCache FileFacts} (h : Kept k place s) (hk : k.Sound)
    (hcache : s.facts = some cache) (now : UInt64) (hbefore : before.Unlinked)
    (hclears : ∀ dir, place = some dir → ∃ q, before.Straight dir q ∧ before.Clears kind q)
    (hspared : LeftAlone kind Untaken before s.drive.volume) :
    ∃ after, ((Cache.LayeredCache.flush now).run.run ⟨cache, s.drive⟩).2 = after ∧
      Kept k place { s with facts := some after.cache, drive := after.drive } ∧
      LeftAlone kind Untaken before after.drive.volume := by
  have hmany : ∀ n, ∃ after,
      (Cache.LayeredCache.drainMany now n).run.run ⟨cache, s.drive⟩ = (.ok (), after) ∧
        Kept k place { s with facts := some after.cache, drive := after.drive } ∧
        LeftAlone kind Untaken before after.drive.volume := by
    intro n
    induction n generalizing s cache with
    | zero => exact ⟨⟨cache, s.drive⟩, rfl, ⟨h.faultless, h.disk, by
        intro c hc
        cases hc
        exact h.cache cache hcache⟩, hspared⟩
    | succ n ih =>
      have hone := (h.cache cache hcache).spared_drainOne now hbefore hclears hspared
      obtain ⟨after, hrun, -⟩ := (h.cache cache hcache).write hk now
      rw [hrun] at hone
      have hkept := (h.meanwhile hk (.write hcache hrun)).1
      obtain ⟨last, hrest, hlast⟩ := ih hkept rfl hone
      exact ⟨last, (run_bind_ok hrun).trans hrest, hlast⟩
  obtain ⟨after, hrun, hafter⟩ := hmany ((cache.disk.map fun side => side.queue.length).getD 0)
  refine ⟨after, ?_, hafter⟩
  rw [Cache.LayeredCache.flush, run_bind_ok (run_get _), hrun]

end FileTree

theorem TestLinks.exists_parse (c : ParseContext) :
    ∃ r, ∀ s : Session, (TestLinks.parse c).run.run s = (r, s) := by
  rcases hpatterns : readPatterns c.settings with e | patterns
  · refine ⟨.error (.failed e.reasons), fun s => ?_⟩
    rw [parse, patternsOf, hpatterns]
    rfl
  · refine ⟨.ok {}, fun s => ?_⟩
    rw [parse, run_bind_ok (run_patternsOf hpatterns s)]
    rfl

theorem TestLinks.exists_run_link (c : LinkContext) (s : Session) :
    ∃ r ids, (TestLinks.link c).run.run s = (r, { s with ids }) := by
  rcases hpatterns : readPatterns c.settings with e | patterns
  · exact ⟨_, s.ids, run_link_of_error hpatterns s⟩
  · obtain ⟨edges, ids, hrun, -⟩ := run_link hpatterns s
    exact ⟨_, ids, hrun⟩

/-! ## Runs -/

namespace Pipeline

open Cache (Findings)
open FileTree (Kept Resembles Walkable sessionOn sightings)

variable {k : Findings FileFacts} {place place' : Option String} {root : List String}
  {person : Ignore.Person} {v : Volume} {p : Pipeline} {s s' t : Session} {e : Extension}

/-- What the tree of files is parsed with. -/
def treeContext (p : Pipeline) (root : List String) : ParseContext :=
  ⟨Path.ofParts true root, p.settingsOf FileTree.extension⟩

/-- What is read for the tree of files has been found out. -/
def Found (k : Findings FileFacts) (p : Pipeline) (root : List String) (person : Ignore.Person)
    (v : Volume) : Prop :=
  ∀ f ∈ sightings (p.treeContext root) (sessionOn v person default), f.finding ∈ k

/-- An extension parses alike in sessions that see the same. -/
theorem exists_parse_again (he : e ∈ Extension.builtin) (hk : k.Sound)
    (hv : Walkable root person v) (hfound : p.Found k root person v)
    (hs : Resembles k place root person v s) (ht : Resembles k place' root person v t)
    (hids : t.ids = s.ids) {r : Except PhaseFailure ExtensionOutput}
    (hrun : (e.parse ⟨Path.ofParts true root, p.settingsOf e⟩).run.run s = (r, s')) :
    ∃ t', (e.parse ⟨Path.ofParts true root, p.settingsOf e⟩).run.run t = (r, t') ∧
      t'.ids = s'.ids ∧ t'.drive = t.drive ∧ Resembles k place root person v s' ∧
      Resembles k place' root person v t' := by
  simp only [Extension.builtin, List.mem_cons, List.not_mem_nil, or_false] at he
  rcases he with rfl | rfl
  · obtain ⟨s₁, hrun₁, hids₁, -, hs₁⟩ := hs.run_parse (c := p.treeContext root) hk hv rfl hfound
    obtain ⟨t₁, hrun₂, hids₂, hdrive, ht₁⟩ :=
      ht.run_parse (c := p.treeContext root) hk hv rfl hfound
    cases hrun₁.symm.trans hrun
    rw [hids] at hrun₂ hids₂
    exact ⟨t₁, hrun₂, hids₂.trans hids₁.symm, hdrive, hs₁, ht₁⟩
  · obtain ⟨r', hparse⟩ :=
      TestLinks.exists_parse ⟨Path.ofParts true root, p.settingsOf TestLinks.extension⟩
    cases (hparse s).symm.trans hrun
    exact ⟨t, hparse t, hids, rfl, hs, ht⟩

theorem Parses.again {visits : List Visit}
    (h : Parses p (Path.ofParts true root) s visits s') (hk : k.Sound)
    (hv : Walkable root person v) (hfound : p.Found k root person v)
    (hbuiltin : ∀ v ∈ visits, v.extension ∈ Extension.builtin)
    (hs : Resembles k place root person v s) (ht : Resembles k place' root person v t)
    (hids : t.ids = s.ids) :
    ∃ t', Parses p (Path.ofParts true root) t visits t' ∧ t'.drive = t.drive ∧
      Resembles k place' root person v t' := by
  induction h generalizing t with
  | nil s => exact ⟨t, .nil t, rfl, ht⟩
  | @cons s s₁ s₂ w rest hcall _ ih =>
    obtain ⟨hw, hrest⟩ := List.forall_mem_cons.1 hbuiltin
    obtain ⟨t₁, hcall', hids₁, hdrive₁, hs₁, ht₁⟩ :=
      exists_parse_again hw hk hv hfound hs ht hids hcall
    obtain ⟨t₂, htail, hdrive₂, ht₂⟩ := ih hrest hs₁ ht₁ hids₁
    exact ⟨t₂, .cons hcall' htail, hdrive₂.trans hdrive₁, ht₂⟩

/-- Linking changes nothing but the generator. -/
theorem Links.exists_ids {ws : String} {nodes : NameMap Node} {visits : List Visit}
    {edges : List Edge} (h : Links p ws nodes s visits edges s')
    (hbuiltin : ∀ v ∈ visits, v.extension ∈ Extension.builtin) : ∃ ids, s' = { s with ids } := by
  induction h with
  | nil s => exact ⟨s.ids, rfl⟩
  | skipped _ _ _ ih => exact ih (List.forall_mem_cons.1 hbuiltin).2
  | @called s s₁ s₂ w rest edges o r _ _ hcall _ ih =>
    obtain ⟨hw, hrest⟩ := List.forall_mem_cons.1 hbuiltin
    obtain ⟨ids₂, hids₂⟩ := ih hrest
    obtain ⟨ids₁, hids₁⟩ : ∃ ids, s₁ = { s with ids } := by
      simp only [Extension.builtin, List.mem_cons, List.not_mem_nil, or_false] at hw
      rcases hw with hw | hw
      · rw [hw] at hcall
        cases hcall
        exact ⟨s.ids, rfl⟩
      · rw [hw] at hcall
        obtain ⟨r', ids, hlink⟩ := TestLinks.exists_run_link
          ⟨ws, p.settingsOf TestLinks.extension, ⟨nodes⟩⟩ s
        cases hlink.symm.trans hcall
        exact ⟨ids, rfl⟩
    exact ⟨ids₂, by rw [hids₂, hids₁]⟩

/-- **A run gives the nodes that the volume tells**, but for the time of their making, and leaves all
files as they are. -/
theorem exists_nodes (hk : k.Sound) (hv : Walkable root person v)
    (hfound : p.Found k root person v) (hbuiltin : ∀ e ∈ p.extensions, e ∈ Extension.builtin)
    (ids : IdGenerator) :
    ∃ nodes : NameMap Node, ∀ place s, Resembles k place root person v s → s.ids = ids →
      ∃ r s', (p.graphOf (Path.ofParts true root)).run s = (r, s') ∧
        r.graph.nodes.map (fun _ => Node.bare) = nodes ∧ Kept k place s' ∧ s'.drive = s.drive := by
  have hstart := FileTree.resembles_sessionOn k root person hv.unlinked ids
  obtain ⟨parsed, s₀, hparsed, hparses⟩ :=
    exists_parses p (Path.ofParts true root) (sessionOn v person ids)
  have hmem : ∀ {l : List Visit}, l.map (·.extension) = p.extensions →
      ∀ w ∈ l, w.extension ∈ Extension.builtin :=
    fun hl w hw => hbuiltin _ (hl ▸ List.mem_map_of_mem hw)
  refine ⟨(mergedNodes 0 parsed).map fun _ => Node.bare, fun place s hs hids => ?_⟩
  obtain ⟨s₁, hparses₁, hdrive, hs₁⟩ := hparses.again hk hv hfound
    (fun w hw => hbuiltin _ (mem_extensions_of_inTurn hparsed w hw)) hstart hs hids
  obtain ⟨visits, edges, s', hunlinked, hvisits, hparses', hlinks⟩ :=
    exists_links_of_parses hparsed hparses₁
  obtain ⟨ids', rfl⟩ := hlinks.exists_ids (hmem hvisits)
  refine ⟨_, _, graphOf_of_calls hvisits hparses' hlinks, ?_, ?_, hdrive⟩
  · rw [nodes_gathered, mergedNodes_unlinked hunlinked]
    exact map_bare_mergedNodes s₁.clock 0 parsed
  · exact ⟨hs₁.kept.faultless, hs₁.kept.disk, hs₁.kept.cache⟩

end Pipeline

end CodeGraph
