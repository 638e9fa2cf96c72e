import Mathlib.Data.List.Dedup
import Mathlib.Data.List.Perm.Subperm
import CodeGraph.Proofs.Cache.Elsewhere
import CodeGraph.Proofs.Extension.Facts

/-!
# What a parse makes of a file

The facts about a file are a function of its path from the root on and of its content, and both are
told by the key under which they are kept. So as long as the cache has been given nothing but facts
that were found out under their keys (`Kept`), the metadata of an entry is that of a parse without a
cache (`Kept.run_metadataOf`). The rest of a step sees nothing of the cache (`run_add`).
-/

namespace CodeGraph.FileTree

open Cache (Findings LayeredCache)
open Cache.LayeredCache (Truthful TruthfulDisk)

/-- A file that has been read: its path from the root on and what was in it. -/
structure Sighting where
  relative : String
  content : ByteArray

/-- What is found out about a file, with the key under which it is kept. -/
def Sighting.finding (f : Sighting) : String × FileFacts :=
  (Cache.keyOfContent f.relative f.content, .derive f.relative f.content)

/-- What is found out about files, the same only once. -/
def findings (l : List Sighting) : Findings FileFacts :=
  (l.map Sighting.finding).dedup

/-- No two contents have one digest. -/
def Distinct (l : List Sighting) : Prop :=
  ∀ f ∈ l, ∀ g ∈ l, Cache.contentHash f.content = Cache.contentHash g.content →
    f.content = g.content

variable {l l' : List Sighting}

theorem mem_findings {p : String × FileFacts} : p ∈ findings l ↔ ∃ f ∈ l, f.finding = p := by
  rw [findings, List.mem_dedup, List.mem_map]

theorem Distinct.of_subset (h : Distinct l') (hl : l ⊆ l') : Distinct l :=
  fun f hf g hg => h f (hl hf) g (hl hg)

theorem weight_findings_le (h : l ⊆ l') : (findings l).weight ≤ (findings l').weight := by
  have hsubset : findings l ⊆ findings l' := fun p hp => by
    obtain ⟨f, hf, hfp⟩ := mem_findings.1 hp
    exact mem_findings.2 ⟨f, h hf, hfp⟩
  have hnodup : (findings l).Nodup := List.nodup_dedup _
  obtain ⟨k, hperm, hsub⟩ := hnodup.subperm hsubset
  rw [Findings.weight, ← (hperm.map _).sum_eq]
  exact (hsub.map _).sum_le_sum fun _ _ => Nat.zero_le _

theorem sound_findings (hl : Distinct l)
    (hwords : (findings l).weight < UInt64.size) : (findings l).Sound := by
  refine ⟨?_, ?_, hwords⟩
  · intro key a b ha hb
    obtain ⟨f, hf, hfa⟩ := mem_findings.1 ha
    obtain ⟨g, hg, hgb⟩ := mem_findings.1 hb
    obtain ⟨hkey, rfl⟩ := Prod.mk.inj hfa
    obtain ⟨hkey', rfl⟩ := Prod.mk.inj hgb
    obtain ⟨hrelative, hdigest⟩ := Cache.keyOfContent_inj (hkey.trans hkey'.symm)
    rw [hrelative, hl f hf g hg hdigest]
  · intro key a ha
    exact a.decodeBytes_bytesOf

/-! ## What is read -/

/-- The content of a file that a parse looks into. -/
def contentIn? (settings : Settings) (v : Volume) (e : Entry) : Option ByteArray :=
  match v.metadata e.path with
  | .error _ => none
  | .ok item => if settings.takes item.size then (v.readFile e.path).toOption else none

/-- What a parse reads of an entry. -/
def sightingIn? (settings : Settings) (v : Volume) (e : Entry) : Option Sighting :=
  if e.isDirectory then none else (contentIn? settings v e).map fun content => ⟨e.relative, content⟩

/-- The metadata of an entry without a cache. -/
def metadataIn (settings : Settings) (v : Volume) (e : Entry) : NodeMetadata :=
  let m : NodeMetadata := { filePath := some e.relative }
  if e.isDirectory then m
  else ((contentIn? settings v e).map fun content => withFacts m (.derive e.path content)).getD m

/-! ## What is kept -/

/-- Whether a time to live leads to a time that can be told. -/
def Timely (s : Session) : Prop :=
  ∀ c, s.facts = some c → ∀ t, c.memory.ttl = some t → s.clock.toNat + t.toNat < UInt64.size

/-- The cache of a session, and the directory it may be opened on, hold nothing but what has been
found out. -/
structure Kept (k : Findings FileFacts) (place : Option String) (s : Session) : Prop where
  faultless : s.drive.faults = []
  disk : ∀ dir, place = some dir → TruthfulDisk k dir ⟨.new { directory := dir }, s.drive⟩
  cache : ∀ c, s.facts = some c → Truthful k place ⟨c, s.drive⟩

namespace Kept

variable {k : Findings FileFacts} {place : Option String} {s : Session} {settings : Settings}
  {e : Entry}

/-- Without a cache there is only the directory. -/
theorem without (h : Kept k place s) : Kept k place { s with facts := none } :=
  ⟨h.faultless, h.disk, fun c hc => by cases hc⟩

theorem run_onFiles {α : Type} (h : Kept k place s) (op : Volume → Except OsError α) :
    (PhaseM.onFiles (FileM.reading op)).run.run s = (.ok (op s.drive.volume), s) := by
  have hreading : (FileM.reading op).run s.drive = (op s.drive.volume, s.drive) :=
    FileM.reading_faultless h.faultless
  change (Except.ok ((FileM.reading op).run s.drive).1,
    { s with drive := ((FileM.reading op).run s.drive).2 }) = _
  rw [hreading]

/-- The facts that are kept or worked out are those of the path and the content. -/
theorem run_keptFacts (h : Kept k place s) (hk : k.Sound) (ht : Timely s)
    {c : LayeredCache FileFacts} (hc : s.facts = some c) {content : ByteArray}
    (hfound : (Cache.keyOfContent e.relative content, FileFacts.derive e.path content) ∈ k) :
    ∃ c', (keptFacts e content c).run.run s =
        (.ok (.derive e.path content), { s with facts := some c' }) ∧
      Kept k place { s with facts := some c' } ∧ Timely { s with facts := some c' } := by
  -- It is enough to give a run of the two layers that ends with the facts and changes no file.
  suffices hprogram : ∃ c', (keptFacts e content c).run.run s =
      (.ok (.derive e.path content), { s with facts := some c' }) ∧
        Truthful k place ⟨c', s.drive⟩ ∧ c'.memory.ttl = c.memory.ttl by
    obtain ⟨c', hrun, htruthful, httl⟩ := hprogram
    refine ⟨c', hrun, ⟨h.faultless, h.disk, ?_⟩, ?_⟩
    · intro _ hsome
      cases hsome
      exact htruthful
    · intro _ hsome t htime
      cases hsome
      exact ht c hc t (httl ▸ htime)
  have hexpiry := ht c hc
  obtain ⟨answer, ⟨c₁, drive₁⟩, hlookup, hanswer, h₁, hdrive₁, httl₁⟩ :=
    (h.cache c hc).lookup hk hfound s.clock hexpiry
  obtain rfl : drive₁ = s.drive := hdrive₁
  rw [keptFacts, run_bind_ok (run_get s)]
  simp only
  rw [run_bind_ok hlookup]
  rcases answer with _ | facts
  · obtain ⟨⟨c₂, drive₂⟩, hstore, h₂, hdrive₂, httl₂⟩ :=
      h₁.store hk hfound s.clock (by rw [httl₁]; exact hexpiry)
    obtain rfl : drive₂ = s.drive := hdrive₂
    simp only
    rw [run_bind_ok hstore]
    exact ⟨c₂, rfl, h₂, httl₂.trans httl₁⟩
  · obtain rfl := hanswer facts rfl
    exact ⟨c₁, rfl, h₁, httl₁⟩

/-- The facts about a file are those of what a parse looks into. -/
theorem run_factsOf (h : Kept k place s) (hk : k.Sound) (ht : Timely s)
    (hfound : ∀ content, contentIn? settings s.drive.volume e = some content →
      (Sighting.mk e.relative content).finding ∈ k)
    (hname : Path.fileName? e.path = Path.fileName? e.relative) :
    ∃ facts, (factsOf settings e).run.run s =
        (.ok ((contentIn? settings s.drive.volume e).map (FileFacts.derive e.path)),
          { s with facts }) ∧
      Kept k place { s with facts } ∧ Timely { s with facts } := by
  rw [factsOf, run_bind_ok (h.run_onFiles _)]
  rcases hmetadata : s.drive.volume.metadata e.path with _ | item
  · exact ⟨s.facts, by rw [contentIn?, hmetadata]; rfl, h, ht⟩
  cases htakes : settings.takes item.size with
  | false =>
    refine ⟨s.facts, ?_, h, ht⟩
    rw [contentIn?, hmetadata]
    simp only [htakes, Bool.not_false, if_true]
    rfl
  | true =>
    have hcontent : contentIn? settings s.drive.volume e =
        (s.drive.volume.readFile e.path).toOption := by
      rw [contentIn?, hmetadata]
      exact if_pos htakes
    simp only [htakes, Bool.not_true, Bool.false_eq_true, if_false]
    rw [FileM.readFile, run_bind_ok (h.run_onFiles _), hcontent]
    rcases hread : s.drive.volume.readFile e.path with _ | content
    · exact ⟨s.facts, rfl, h, ht⟩
    simp only
    rw [run_bind_ok (run_get s)]
    rcases hc : s.facts with _ | c
    · exact ⟨s.facts, rfl, h, ht⟩
    · have hderive : FileFacts.derive e.path content = .derive e.relative content :=
        FileFacts.derive_congr hname content
      have hmem := hfound content (by rw [hcontent, hread]; rfl)
      rw [Sighting.finding, ← hderive] at hmem
      obtain ⟨c', hrun, hkept, htimely⟩ := h.run_keptFacts hk ht hc hmem
      refine ⟨some c', ?_, hkept, htimely⟩
      simp only
      rw [run_bind_ok hrun]
      rfl

/-- The metadata of an entry is that of a parse without a cache. -/
theorem run_metadataOf (h : Kept k place s) (hk : k.Sound) (ht : Timely s)
    (hfound : ∀ f, sightingIn? settings s.drive.volume e = some f → f.finding ∈ k)
    (hname : e.isDirectory = false → Path.fileName? e.path = Path.fileName? e.relative) :
    ∃ facts, (metadataOf settings e).run.run s =
        (.ok (metadataIn settings s.drive.volume e), { s with facts }) ∧
      Kept k place { s with facts } ∧ Timely { s with facts } := by
  rw [metadataOf, metadataIn]
  cases hkind : e.isDirectory with
  | true => exact ⟨s.facts, rfl, h, ht⟩
  | false =>
    have hsighting : ∀ content, contentIn? settings s.drive.volume e = some content →
        (Sighting.mk e.relative content).finding ∈ k := by
      intro content hcontent
      refine hfound ⟨e.relative, content⟩ ?_
      rw [sightingIn?, hkind, hcontent]
      rfl
    obtain ⟨facts, hrun, hkept, htimely⟩ := h.run_factsOf hk ht hsighting (hname hkind)
    refine ⟨facts, ?_, hkept, htimely⟩
    simp only [Bool.false_eq_true, if_false]
    rw [run_bind_ok hrun]
    cases contentIn? settings s.drive.volume e <;> rfl

end Kept

/-! ## A step -/

/-- An entry given with its metadata, and the generator afterwards. -/
def placed (root : String) (p : Progress) (e : Entry) (metadata : NodeMetadata)
    (ids : IdGenerator) : Progress × IdGenerator :=
  let name := nameOf root e
  let type := if e.isDirectory then NodeType.fsDirectory else .fsFile
  let (id, ids) := ids.nodeId type name (some e.relative)
  let nodes := { id, type, name, metadata } :: p.nodes
  match (parentOf? e).bind p.ids.get? with
  | none => ({ p with nodes, ids := p.ids.insert e.relative id }, ids)
  | some parent =>
    let (edge, ids) := ids.edgeId .contains parent id
    let edges := { id := edge, type := .contains, source := parent, target := id } :: p.edges
    ({ nodes, edges, ids := p.ids.insert e.relative id }, ids)

variable {settings : Settings} {e : Entry} {s s' : Session}

/-- Once there is metadata, a step sees nothing of a session but the generator. -/
theorem run_add (root : String) (p : Progress) {metadata : NodeMetadata}
    (h : (metadataOf settings e).run.run s = (.ok metadata, s')) :
    (add settings root p e).run.run s =
      (.ok (placed root p e metadata s'.ids).1,
        { s' with ids := (placed root p e metadata s'.ids).2 }) := by
  rw [add]
  simp only
  rw [run_bind_ok h, placed]
  rcases (parentOf? e).bind p.ids.get? with _ | parent <;> rfl

/-- **A step gives what it gives without a cache**, and it changes no file. -/
theorem Kept.run_add {k : Findings FileFacts} {place : Option String} (h : Kept k place s)
    (hk : k.Sound) (ht : Timely s)
    (hfound : ∀ f, sightingIn? settings s.drive.volume e = some f → f.finding ∈ k)
    (hname : e.isDirectory = false → Path.fileName? e.path = Path.fileName? e.relative)
    (root : String) (p : Progress) :
    ∃ facts, let next := placed root p e (metadataIn settings s.drive.volume e) s.ids
      (add settings root p e).run.run s = (.ok next.1, { s with facts, ids := next.2 }) ∧
        Kept k place { s with facts, ids := next.2 } ∧ Timely { s with facts, ids := next.2 } := by
  obtain ⟨facts, hrun, hkept, htimely⟩ := h.run_metadataOf hk ht hfound hname
  exact ⟨facts, FileTree.run_add root p hrun, ⟨hkept.faultless, hkept.disk, hkept.cache⟩, htimely⟩

end CodeGraph.FileTree
