import CodeGraph.Proofs.Extension.Parsing

/-!
# Parsing with a cache

A parse gives the entries of its walk in turn. Between two of them waiting writes may be carried out
or lost and time may pass (`Meanwhile`), as long as the files that are still to be read are read alike
(`Adds`, `Parses`); a parse with nothing else happening is one of these (`parses_run`). When the
cache holds nothing but what has been found out, all of them give what a parse without a cache gives
(`Parses.answer`), and a parse with nothing else happening changes no file (`Kept.run_parse`).
-/

namespace CodeGraph.FileTree

open Cache (Findings LayeredCache)
open Cache.LayeredCache (Truthful)

/-! ## What goes on beside a parse -/

/-- What may happen while a parse goes on: a waiting write is carried out, waiting writes are lost,
or time passes. -/
inductive Meanwhile : Session → Session → Prop
  | write {s : Session} {c : LayeredCache FileFacts} {now : UInt64}
      {r : Except Cache.CacheError Unit} {after : Cache.LayeredState FileFacts} :
      s.facts = some c → (LayeredCache.drainOne now).run.run ⟨c, s.drive⟩ = (r, after) →
      Meanwhile s { s with facts := some after.cache, drive := after.drive }
  | lose {s : Session} {c : LayeredCache FileFacts} {side : Cache.DiskSide}
      {queue : List Cache.PendingWrite} :
      s.facts = some c → c.disk = some side → queue.Sublist side.queue →
      Meanwhile s { s with facts := some { c with disk := some { side with queue } } }
  | tick {s : Session} {now : UInt64} : Timely { s with clock := now } →
      Meanwhile s { s with clock := now }

/-- Files are read alike on two volumes. -/
def ReadAlike (es : List Entry) (v w : Volume) : Prop :=
  ∀ e ∈ es, w.metadata e.path = v.metadata e.path ∧ w.readFile e.path = v.readFile e.path

/-- Something happens that leaves some files alone. -/
def Passes (es : List Entry) (s t : Session) : Prop :=
  Meanwhile s t ∧ ReadAlike es s.drive.volume t.drive.volume

/-- Entries are given in turn. Before each of them something else may happen that leaves alone the
files that are still to be read. -/
inductive Adds (settings : Settings) (root : String) :
    List Entry → Progress → Session → Except PhaseFailure Progress → Session → Prop
  | done {p : Progress} {s : Session} : Adds settings root [] p s (.ok p) s
  | step {e : Entry} {es : List Entry} {p p' : Progress} {s s₁ s₂ s' : Session}
      {r : Except PhaseFailure Progress} : Relation.ReflTransGen (Passes (e :: es)) s s₁ →
      (add settings root p e).run.run s₁ = (.ok p', s₂) → Adds settings root es p' s₂ r s' →
      Adds settings root (e :: es) p s r s'
  | fail {e : Entry} {es : List Entry} {p : Progress} {s s₁ s₂ : Session} {f : PhaseFailure} :
      Relation.ReflTransGen (Passes (e :: es)) s s₁ →
      (add settings root p e).run.run s₁ = (.error f, s₂) →
      Adds settings root (e :: es) p s (.error f) s₂

/-- The walk of a parse. -/
abbrev walkOf (s : Session) (settings : Settings) (exclude : List Glob) : Walk :=
  ⟨s.drive.volume, s.person, settings.includeHidden, exclude⟩

/-- What a parse gives once all entries have been given. -/
def outputOf (p : Progress) : ExtensionOutput :=
  ⟨p.nodes.reverse, p.edges.reverse⟩

/-- A parse while other things happen. -/
inductive Parses (c : ParseContext) (s : Session) :
    Except PhaseFailure ExtensionOutput → Session → Prop
  | refused {e : SettingsError} : readSettings c.settings = .error e →
      Parses c s (.error (.failed e.reasons)) s
  | walked {settings : Settings} {exclude : List Glob} {r : Except PhaseFailure Progress}
      {s' : Session} : readSettings c.settings = .ok (settings, exclude) →
      Adds settings c.root ((walkOf s settings exclude).entries c.root) {} s r s' →
      Parses c s (r.map outputOf) s'

/-- What a parse reads. -/
def sightings (c : ParseContext) (s : Session) : List Sighting :=
  match readSettings c.settings with
  | .error _ => []
  | .ok (settings, exclude) =>
    ((walkOf s settings exclude).entries c.root).filterMap (sightingIn? settings s.drive.volume)

/-- The root is no file, names stand for themselves, and times of expiry can be told. -/
structure Proper (c : ParseContext) (s : Session) : Prop where
  root : ∀ q content, s.drive.volume.find true c.root ≠ .ok (q, .file content)
  names : s.drive.volume.PlainNames
  timely : Timely s

/-! ## Runs without anything else -/

variable {k : Findings FileFacts} {place : Option String} {root : String} {settings : Settings}

theorem adds_run (settings : Settings) (root : String) (es : List Entry) (p : Progress)
    (s : Session) : Adds settings root es p s ((es.foldlM (add settings root) p).run.run s).1
      ((es.foldlM (add settings root) p).run.run s).2 := by
  induction es generalizing p s with
  | nil => exact .done
  | cons e es ih =>
    rw [List.foldlM_cons]
    rcases hadd : (add settings root p e).run.run s with ⟨f | p', s₁⟩
    · rw [run_bind_error hadd]
      exact .fail .refl hadd
    · rw [run_bind_ok hadd]
      exact .step .refl hadd (ih p' s₁)

theorem parses_run (c : ParseContext) (s : Session) :
    Parses c s ((parse c).run.run s).1 ((parse c).run.run s).2 := by
  rw [parse]
  rcases hsettings : readSettings c.settings with e | ⟨settings, exclude⟩
  · exact .refused hsettings
  · have hadds := adds_run settings c.root ((walkOf s settings exclude).entries c.root) {} s
    simp only
    rw [run_bind_ok (run_get s), run_bind]
    rcases hrun : ((((walkOf s settings exclude).entries c.root).foldlM
      (add settings c.root) {}).run.run s) with ⟨f | p, s'⟩
    · rw [hrun] at hadds
      exact .walked hsettings hadds
    · rw [hrun] at hadds
      exact .walked hsettings hadds

/-! ## What goes on beside a parse does no harm -/

section Meanwhile

variable {s s' : Session} {es : List Entry} {v : Volume}

/-- A cache that holds nothing else takes the place of the one before. -/
theorem Kept.with_cache {after : Cache.LayeredState FileFacts} (h : Kept k place s)
    (hafter : Truthful k place after)
    (hdrive : after.drive = s.drive ∨ ∃ side, after.cache.disk = some side) :
    Kept k place { s with facts := some after.cache, drive := after.drive } := by
  rcases hdrive with hdrive | ⟨side, hside⟩
  · rw [hdrive]
    refine ⟨h.faultless, h.disk, ?_⟩
    intro c hc
    cases hc
    exact hdrive ▸ hafter
  · obtain ⟨dir, hplace, hdisk⟩ := hafter.disk side hside
    refine ⟨hdisk.faultless, ?_, ?_⟩
    · intro dir' hplace'
      obtain rfl : dir = dir' := Option.some.inj (hplace.symm.trans hplace')
      exact hdisk.reopen rfl
    · intro c hc
      cases hc
      exact hafter

theorem Kept.meanwhile (h : Kept k place s) (hk : k.Sound) (hstep : Meanwhile s s') :
    Kept k place s' ∧ (Timely s → Timely s') ∧ s'.ids = s.ids := by
  cases hstep with
  | @write c now r after hc hrun =>
    obtain ⟨after', hwrite, htruthful, hmemory, hdrive⟩ := (h.cache c hc).write hk now
    rw [hrun] at hwrite
    cases hwrite
    refine ⟨h.with_cache htruthful hdrive, ?_, rfl⟩
    intro ht c' hc' t htime
    cases hc'
    rw [hmemory] at htime
    exact ht c hc t htime
  | @lose c side queue hc hside hqueue =>
    refine ⟨h.with_cache ((h.cache c hc).lose hside hqueue) (.inl rfl), ?_, rfl⟩
    intro ht c' hc' t htime
    cases hc'
    exact ht c hc t htime
  | tick ht => exact ⟨⟨h.faultless, h.disk, h.cache⟩, fun _ => ht, rfl⟩

theorem Kept.passes (h : Kept k place s) (hk : k.Sound) (ht : Timely s)
    (hread : ReadAlike es v s.drive.volume) (hsteps : Relation.ReflTransGen (Passes es) s s') :
    Kept k place s' ∧ Timely s' ∧ s'.ids = s.ids ∧ ReadAlike es v s'.drive.volume := by
  induction hsteps with
  | refl => exact ⟨h, ht, rfl, hread⟩
  | tail _ hstep ih =>
    obtain ⟨hkept, htimely, hids, hread⟩ := ih
    obtain ⟨hkept', htimely', hids'⟩ := hkept.meanwhile hk hstep.1
    refine ⟨hkept', htimely' htimely, hids'.trans hids, ?_⟩
    intro e he
    obtain ⟨hmetadata, hfile⟩ := hread e he
    obtain ⟨hmetadata', hfile'⟩ := hstep.2 e he
    exact ⟨hmetadata'.trans hmetadata, hfile'.trans hfile⟩

theorem ReadAlike.contentIn? {e : Entry} {w : Volume} (h : ReadAlike es v w) (he : e ∈ es)
    (settings : Settings) : contentIn? settings w e = FileTree.contentIn? settings v e := by
  obtain ⟨hmetadata, hfile⟩ := h e he
  rw [FileTree.contentIn?, FileTree.contentIn?, hmetadata, hfile]

/-- A step after something else has happened. -/
theorem Kept.passes_add {e : Entry} (h : Kept k place s) (hk : k.Sound) (ht : Timely s)
    (hread : ReadAlike (e :: es) v s.drive.volume)
    (hsteps : Relation.ReflTransGen (Passes (e :: es)) s s')
    (hfound : ∀ f, sightingIn? settings v e = some f → f.finding ∈ k)
    (hname : e.isDirectory = false → Path.fileName? e.path = Path.fileName? e.relative)
    (root : String) (p : Progress) :
    ∃ t, (add settings root p e).run.run s' =
        (.ok (placed root p e (metadataIn settings v e) s.ids).1, t) ∧
      t.ids = (placed root p e (metadataIn settings v e) s.ids).2 ∧
      Kept k place t ∧ Timely t ∧ ReadAlike es v t.drive.volume := by
  obtain ⟨hkept, htimely, hids, hread'⟩ := h.passes hk ht hread hsteps
  have hcontent := hread'.contentIn? (List.mem_cons_self ..) settings
  have hsighting : sightingIn? settings s'.drive.volume e = sightingIn? settings v e := by
    rw [sightingIn?, sightingIn?, hcontent]
  have hmetadata : metadataIn settings s'.drive.volume e = metadataIn settings v e := by
    rw [metadataIn, metadataIn, hcontent]
  obtain ⟨facts, hadd, hkept', htimely'⟩ :=
    hkept.run_add hk htimely (by rw [hsighting]; exact hfound) hname root p
  rw [hmetadata, hids] at hadd hkept' htimely'
  exact ⟨_, hadd, rfl, hkept', htimely', fun e he => hread' e (List.mem_cons_of_mem _ he)⟩

end Meanwhile

/-! ## What is given -/

/-- What is given for entries in turn without a cache. -/
def given (settings : Settings) (root : String) (v : Volume) :
    List Entry → Progress → IdGenerator → Progress × IdGenerator
  | [], p, ids => (p, ids)
  | e :: es, p, ids =>
    let q := placed root p e (metadataIn settings v e) ids
    given settings root v es q.1 q.2

theorem Adds.given {es : List Entry} {p : Progress} {s s' : Session}
    {r : Except PhaseFailure Progress} {v : Volume} (h : Adds settings root es p s r s')
    (hkept : Kept k place s) (hk : k.Sound) (ht : Timely s) (hread : ReadAlike es v s.drive.volume)
    (hfound : ∀ e ∈ es, ∀ f, sightingIn? settings v e = some f → f.finding ∈ k)
    (hname : ∀ e ∈ es, e.isDirectory = false → Path.fileName? e.path = Path.fileName? e.relative) :
    r = .ok (given settings root v es p s.ids).1 ∧
      s'.ids = (given settings root v es p s.ids).2 ∧ Kept k place s' := by
  induction h with
  | done => exact ⟨rfl, rfl, hkept⟩
  | @step e es p p' s s₁ s₂ s' r hsteps hadd _ ih =>
    obtain ⟨hfound, hfound'⟩ := List.forall_mem_cons.1 hfound
    obtain ⟨hname, hname'⟩ := List.forall_mem_cons.1 hname
    obtain ⟨t, hrun, hids, hkept', htimely, hread'⟩ :=
      hkept.passes_add hk ht hread hsteps hfound hname root p
    rw [hadd] at hrun
    cases hrun
    rw [FileTree.given, ← hids]
    exact ih hkept' htimely hread' hfound' hname'
  | @fail e es p s s₁ s₂ f hsteps hadd =>
    obtain ⟨t, hrun, -⟩ := hkept.passes_add hk ht hread hsteps
      (List.forall_mem_cons.1 hfound).1 (List.forall_mem_cons.1 hname).1 root p
    rw [hadd] at hrun
    cases hrun

theorem Kept.run_adds {es : List Entry} {s : Session} (h : Kept k place s)
    (hk : k.Sound) (ht : Timely s)
    (hfound : ∀ e ∈ es, ∀ f, sightingIn? settings s.drive.volume e = some f → f.finding ∈ k)
    (hname : ∀ e ∈ es, e.isDirectory = false → Path.fileName? e.path = Path.fileName? e.relative)
    (root : String) (p : Progress) :
    ∃ facts, let last := given settings root s.drive.volume es p s.ids
      (es.foldlM (add settings root) p).run.run s = (.ok last.1, { s with facts, ids := last.2 }) ∧
        Timely { s with facts, ids := last.2 } := by
  induction es generalizing p s with
  | nil => exact ⟨s.facts, rfl, ht⟩
  | cons e es ih =>
    obtain ⟨hfound, hfound'⟩ := List.forall_mem_cons.1 hfound
    obtain ⟨hname, hname'⟩ := List.forall_mem_cons.1 hname
    obtain ⟨facts, hadd, hkept, htimely⟩ := h.run_add hk ht hfound hname root p
    obtain ⟨facts', hrest, htimely'⟩ := ih hkept htimely hfound' hname' _
    refine ⟨facts', ?_, htimely'⟩
    rw [List.foldlM_cons, run_bind_ok hadd, hrest]
    rfl

/-- What a parse gives without a cache, and the generator afterwards. -/
def answerOf (c : ParseContext) (s : Session) :
    Except PhaseFailure ExtensionOutput × IdGenerator :=
  match readSettings c.settings with
  | .error e => (.error (.failed e.reasons), s.ids)
  | .ok (settings, exclude) =>
    let (p, ids) := given settings c.root s.drive.volume
      ((walkOf s settings exclude).entries c.root) {} s.ids
    (.ok (outputOf p), ids)

variable {c : ParseContext} {s s' : Session} {r : Except PhaseFailure ExtensionOutput}

theorem Parses.answer (h : Parses c s r s') (hkept : Kept k place s) (hk : k.Sound)
    (hproper : Proper c s) (hfound : ∀ f ∈ sightings c s, f.finding ∈ k) :
    (r, s'.ids) = answerOf c s ∧ Kept k place s' := by
  cases h with
  | refused hsettings =>
    rw [answerOf, hsettings]
    exact ⟨rfl, hkept⟩
  | walked hsettings hadds =>
    rw [sightings, hsettings] at hfound
    obtain ⟨rfl, hids, hkept'⟩ := hadds.given hkept hk hproper.timely
      (fun e _ => ⟨rfl, rfl⟩)
      (fun e he f hf => hfound f (List.mem_filterMap.2 ⟨e, he, hf⟩))
      (fun e he => Walk.fileName?_of_mem_entries hproper.names hproper.root he)
    rw [answerOf, hsettings, hids]
    exact ⟨rfl, hkept'⟩

/-- A parse with nothing else happening changes nothing but the cache and the generator. -/
theorem Kept.run_parse (h : Kept k place s) (hk : k.Sound) (hproper : Proper c s)
    (hfound : ∀ f ∈ sightings c s, f.finding ∈ k) :
    ∃ facts, (parse c).run.run s =
        ((answerOf c s).1, { s with facts, ids := (answerOf c s).2 }) ∧
      Timely { s with facts, ids := (answerOf c s).2 } := by
  rw [parse, answerOf]
  rw [sightings] at hfound
  rcases hsettings : readSettings c.settings with e | ⟨settings, exclude⟩
  · exact ⟨s.facts, rfl, hproper.timely⟩
  · rw [hsettings] at hfound
    obtain ⟨facts, hrun, htimely⟩ := h.run_adds hk hproper.timely
      (fun e he f hf => hfound f (List.mem_filterMap.2 ⟨e, he, hf⟩))
      (fun e he => Walk.fileName?_of_mem_entries hproper.names hproper.root he) c.root {}
    refine ⟨facts, ?_, htimely⟩
    simp only
    rw [run_bind_ok (run_get s), run_bind_ok hrun]
    rfl

end CodeGraph.FileTree
