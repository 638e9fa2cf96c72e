import CodeGraph.Graph.Builder
import CodeGraph.Proofs.Pipeline.Merge

/-!
# Failures stay apart

A run in which phases fail gives the graph that it would give without those failures: without the
extensions whose parsing fails, and with no edges of those whose linking fails. Any choice of the
failures may be left out, and the rest of them may still happen.

That the failures may be left out assumes that the other extensions do not notice them. What an
extension can notice is a relation of sessions (`Unnoticed`); equality is one such relation if a
call that fails leaves the session as it found it.

* `graphOf_spared`: leaving out failures does not change the graph of a run.
* `builtGraph_eq`: a builder that is started makes the graph of the run and refuses no call.
* `run_isolates_failures`: the graph of a run without some of its failures is that of the run.
-/

namespace CodeGraph

/-- The extension with linking that gives no edges. -/
def Extension.muted (e : Extension) : Extension := { e with link := fun _ => pure [] }

/-- The visit of an extension whose linking gives no edges. -/
def Visit.muted (v : Visit) : Visit :=
  { v with extension := v.extension.muted, linked := some (.ok []) }

/-- Visits without some of their failures: an extension whose parsing has failed may be dropped, and
one whose linking has failed may have linked nothing. -/
inductive Spared : List Visit → List Visit → Prop
  | nil : Spared [] []
  | kept (v : Visit) {a b : List Visit} (rest : Spared a b) : Spared (v :: a) (v :: b)
  | dropped {v : Visit} {f : PhaseFailure} {a b : List Visit} (parsed : v.parsed = .error f)
      (rest : Spared a b) : Spared (v :: a) b
  | muted {v : Visit} {f : PhaseFailure} {a b : List Visit} (linked : v.linked = some (.error f))
      (rest : Spared a b) : Spared (v :: a) (v.muted :: b)

namespace Spared

theorem append {a b c d : List Visit} (hab : Spared a b) (hcd : Spared c d) :
    Spared (a ++ c) (b ++ d) := by
  induction hab with
  | nil => exact hcd
  | kept v _ ih => exact .kept v ih
  | dropped parsed _ ih => exact .dropped parsed ih
  | muted linked _ ih => exact .muted linked ih

/-- Sparing keeps the order among the visits of any kind that muting does not change. -/
theorem filter {kind : Visit → Bool} (hmuted : ∀ v, kind v.muted = kind v) {a b : List Visit}
    (hab : Spared a b) : Spared (a.filter kind) (b.filter kind) := by
  induction hab with
  | nil => exact .nil
  | @kept v a b _ ih =>
    by_cases hv : kind v
    · rw [List.filter_cons_of_pos hv, List.filter_cons_of_pos hv]
      exact .kept v ih
    · rw [List.filter_cons_of_neg hv, List.filter_cons_of_neg hv]
      exact ih
  | @dropped v f a b parsed _ ih =>
    by_cases hv : kind v
    · rw [List.filter_cons_of_pos hv]
      exact .dropped parsed ih
    · rw [List.filter_cons_of_neg hv]
      exact ih
  | @muted v f a b linked _ ih =>
    by_cases hv : kind v
    · rw [List.filter_cons_of_pos hv, List.filter_cons_of_pos ((hmuted v).trans hv)]
      exact .muted linked ih
    · rw [List.filter_cons_of_neg hv, List.filter_cons_of_neg (by rw [hmuted]; exact hv)]
      exact ih

variable {a b : List Visit}

/-- What visits give is the same without failures, if failed parsing gives nothing and failed linking
gives what it gives before it. -/
theorem flatMap_eq {α : Type} {given : Visit → List α} (hab : Spared a b)
    (hdropped : ∀ v f, v.parsed = .error f → given v = [])
    (hmuted : ∀ v : Visit, given v.muted = given v) : b.flatMap given = a.flatMap given := by
  induction hab with
  | nil => rfl
  | kept v _ ih => rw [List.flatMap_cons, List.flatMap_cons, ih]
  | @dropped v f a b parsed _ ih =>
    rw [List.flatMap_cons, ih, hdropped v f parsed, List.nil_append]
  | @muted v f a b _ _ ih => rw [List.flatMap_cons, List.flatMap_cons, ih, hmuted]

theorem parsedNodes_eq (hab : Spared a b) (now : UInt64) :
    b.flatMap (·.parsedNodes now) = a.flatMap (·.parsedNodes now) :=
  hab.flatMap_eq (fun v f parsed => by rw [Visit.parsedNodes, parsed]) fun _ => rfl

theorem parsedEdges_eq (hab : Spared a b) (now : UInt64) :
    b.flatMap (·.parsedEdges now) = a.flatMap (·.parsedEdges now) :=
  hab.flatMap_eq (fun v f parsed => by rw [Visit.parsedEdges, parsed]) fun _ => rfl

theorem contributors_eq (hab : Spared a b) :
    b.filterMap (·.contributor?) = a.filterMap (·.contributor?) := by
  induction hab with
  | nil => rfl
  | kept v _ ih => rw [List.filterMap_cons, List.filterMap_cons, ih]
  | @dropped v f a b parsed _ ih =>
    rw [List.filterMap_cons, ih]
    simp [Visit.contributor?, parsed, Except.toOption]
  | @muted v f a b _ _ ih =>
    rw [List.filterMap_cons, List.filterMap_cons, ih]
    rfl

end Spared

namespace Pipeline

variable {p q : Pipeline} {root : String} {R : Session → Session → Prop}

/-! ## What extensions notice -/

/-- Sessions in the relation are all the same to the extensions of a pipeline, which leave them in
the relation; and a call that fails leaves a session in the relation with the one it found. -/
structure Unnoticed (p : Pipeline) (root : String) (R : Session → Session → Prop) : Prop where
  refl : ∀ s, R s s
  trans : ∀ {s₁ s₂ s₃}, R s₁ s₂ → R s₂ s₃ → R s₁ s₃
  clock : ∀ {s₁ s₂}, R s₁ s₂ → s₁.clock = s₂.clock
  parse : ∀ e ∈ p.extensions, ∀ {s₁ s₂}, R s₁ s₂ →
    ((e.parse ⟨root, p.settingsOf e⟩).run.run s₁).1 =
      ((e.parse ⟨root, p.settingsOf e⟩).run.run s₂).1 ∧
    R ((e.parse ⟨root, p.settingsOf e⟩).run.run s₁).2
      ((e.parse ⟨root, p.settingsOf e⟩).run.run s₂).2
  link : ∀ e ∈ p.extensions, ∀ nodes {s₁ s₂}, R s₁ s₂ →
    ((e.link ⟨root, p.settingsOf e, nodes⟩).run.run s₁).1 =
      ((e.link ⟨root, p.settingsOf e, nodes⟩).run.run s₂).1 ∧
    R ((e.link ⟨root, p.settingsOf e, nodes⟩).run.run s₁).2
      ((e.link ⟨root, p.settingsOf e, nodes⟩).run.run s₂).2
  parseFailed : ∀ e ∈ p.extensions, ∀ s f s',
    (e.parse ⟨root, p.settingsOf e⟩).run.run s = (.error f, s') → R s s'
  linkFailed : ∀ e ∈ p.extensions, ∀ nodes s f s',
    (e.link ⟨root, p.settingsOf e, nodes⟩).run.run s = (.error f, s') → R s s'

theorem Unnoticed.exists_parse (hR : p.Unnoticed root R) {e : Extension} (he : e ∈ p.extensions)
    {r : Except PhaseFailure ExtensionOutput} {s s' t : Session}
    (hcall : (e.parse ⟨root, p.settingsOf e⟩).run.run s = (r, s')) (hts : R t s) :
    ∃ t', (e.parse ⟨root, p.settingsOf e⟩).run.run t = (r, t') ∧ R t' s' := by
  obtain ⟨hsame, hnext⟩ := hR.parse e he hts
  rw [hcall] at hsame hnext
  exact ⟨((e.parse ⟨root, p.settingsOf e⟩).run.run t).2, Prod.ext hsame rfl, hnext⟩

/-! ## Runs without some of their failures -/

/-- The same run with other extensions. -/
structure SameSetting (q p : Pipeline) : Prop where
  settings : q.settings = p.settings
  concurrent : q.concurrent = p.concurrent

theorem SameSetting.settingsOf (h : SameSetting q p) (e : Extension) :
    q.settingsOf e = p.settingsOf e := by
  rw [Pipeline.settingsOf, h.settings]
  rfl

theorem SameSetting.parsesFirst (h : SameSetting q p) : q.parsesFirst = p.parsesFirst := by
  funext e
  rw [Pipeline.parsesFirst, h.concurrent]
  rfl

theorem inTurn_spared {a b : List Visit} (hab : Spared a b) (hSame : SameSetting q p) :
    Spared (p.inTurn a) (q.inTurn b) := by
  rw [Pipeline.inTurn, Pipeline.inTurn, hSame.parsesFirst]
  exact (hab.filter fun _ => rfl).append (hab.filter fun _ => rfl)

/-- Parsing without some of the failures goes on as it does with them. -/
theorem Parses.spared {a b : List Visit} {s s' t : Session} (h : Parses p root s a s')
    (hab : Spared a b) (hSame : SameSetting q p) (hR : p.Unnoticed root R)
    (hmem : ∀ v ∈ a, v.extension ∈ p.extensions) (hts : R t s) :
    ∃ t', Parses q root t b t' ∧ R t' s' := by
  induction hab generalizing s t with
  | nil =>
    cases h
    exact ⟨t, .nil t, hts⟩
  | @kept v a b _ ih =>
    cases h with
    | cons call tail =>
      obtain ⟨t₁, hcall, hnext⟩ := hR.exists_parse (hmem v List.mem_cons_self) call hts
      obtain ⟨t', hb, ht'⟩ := ih tail (fun w hw => hmem w (List.mem_cons_of_mem _ hw)) hnext
      exact ⟨t', .cons (by rw [hSame.settingsOf]; exact hcall) hb, ht'⟩
  | @dropped v f a b parsed _ ih =>
    cases h with
    | cons call tail =>
      -- The failed call may have changed the session, but not for the calls that follow.
      rw [parsed] at call
      have hfailed := hR.parseFailed _ (hmem v List.mem_cons_self) _ _ _ call
      exact ih tail (fun w hw => hmem w (List.mem_cons_of_mem _ hw)) (hR.trans hts hfailed)
  | @muted v f a b _ _ ih =>
    cases h with
    | cons call tail =>
      obtain ⟨t₁, hcall, hnext⟩ := hR.exists_parse (hmem v List.mem_cons_self) call hts
      obtain ⟨t', hb, ht'⟩ := ih tail (fun w hw => hmem w (List.mem_cons_of_mem _ hw)) hnext
      refine ⟨t', .cons ?_ hb, ht'⟩
      rw [hSame.settingsOf]
      exact hcall

/-- Linking without some of the failures gives the edges that it gives with them. -/
theorem Links.spared {nodes : NameMap Node} {a b : List Visit} {edges : List Edge}
    {s s' t : Session} (h : Links p root nodes s a edges s') (hab : Spared a b)
    (hSame : SameSetting q p) (hR : p.Unnoticed root R)
    (hmem : ∀ v ∈ a, v.extension ∈ p.extensions) (hts : R t s) :
    ∃ t', Links q root nodes t b edges t' ∧ R t' s' := by
  induction hab generalizing s t edges with
  | nil =>
    cases h
    exact ⟨t, .nil t, hts⟩
  | @kept v a b _ ih =>
    have hrest := fun w hw => hmem w (List.mem_cons_of_mem v hw)
    cases h with
    | skipped parsed linked tail =>
      obtain ⟨t', hb, ht'⟩ := ih tail hrest hts
      exact ⟨t', .skipped parsed linked hb, ht'⟩
    | called parsed linked call tail =>
      obtain ⟨hsame, hnext⟩ := hR.link _ (hmem v List.mem_cons_self) ⟨nodes⟩ hts
      rw [call] at hsame hnext
      obtain ⟨t', hb, ht'⟩ := ih tail hrest hnext
      refine ⟨t', ?_, ht'⟩
      rw [← hR.clock hnext]
      exact .called parsed linked (by rw [hSame.settingsOf]; exact Prod.ext hsame rfl) hb
  | @dropped v f a b hparsed _ ih =>
    have hrest := fun w hw => hmem w (List.mem_cons_of_mem v hw)
    cases h with
    | skipped _ _ tail => exact ih tail hrest hts
    | called parsed _ _ _ =>
      rw [hparsed] at parsed
      cases parsed
  | @muted v f a b hlinked _ ih =>
    have hrest := fun w hw => hmem w (List.mem_cons_of_mem v hw)
    cases h with
    | skipped _ linked _ =>
      rw [hlinked] at linked
      cases linked
    | @called _ s₁ _ _ _ edges o r parsed linked call tail =>
      obtain rfl : Except.error f = r := Option.some.inj (hlinked.symm.trans linked)
      have hfailed := hR.linkFailed _ (hmem v List.mem_cons_self) _ _ _ _ call
      obtain ⟨t', hb, ht'⟩ := ih tail hrest (hR.trans hts hfailed)
      have hnone : v.linkedEdges s₁.clock = v.muted.linkedEdges t.clock := by
        simp [Visit.linkedEdges, Visit.muted, hlinked]
      refine ⟨t', ?_, ht'⟩
      rw [hnone]
      exact .called (v := v.muted) parsed rfl rfl hb

/-- Leaving out failures does not change the graph. -/
theorem graphOf_spared {visits spared : List Visit} {edges : List Edge} {s s' : Session}
    (h : Course p root s visits edges s') (hSpared : Spared visits spared)
    (hExtensions : q.extensions = spared.map (·.extension)) (hSame : SameSetting q p)
    (hR : p.Unnoticed root R) :
    ((q.graphOf root).run s).1.graph = ((p.graphOf root).run s).1.graph := by
  obtain ⟨hvisits, s₁, hparses, hlinks⟩ := h
  have hmem : ∀ v ∈ visits, v.extension ∈ p.extensions :=
    fun v hv => hvisits ▸ List.mem_map_of_mem hv
  obtain ⟨t₁, hparses', ht₁⟩ := hparses.spared (inTurn_spared hSpared hSame) hSame hR
    (mem_extensions_of_inTurn hvisits) (hR.refl s)
  obtain ⟨t', hlinks', -⟩ := hlinks.spared hSpared hSame hR hmem ht₁
  have hclock : t₁.clock = s₁.clock := hR.clock ht₁
  have hnodes : mergedNodes t₁.clock spared = mergedNodes s₁.clock visits := by
    rw [mergedNodes, hclock, hSpared.parsedNodes_eq]
    rfl
  have hgathered : gathered root s.clock t₁.clock spared edges =
      gathered root s.clock s₁.clock visits edges := by
    rw [gathered, hclock, hSpared.contributors_eq, hSpared.parsedNodes_eq,
      hSpared.parsedEdges_eq]
    rfl
  rw [graphOf_of_calls hvisits hparses hlinks,
    graphOf_of_calls hExtensions.symm hparses' (hnodes ▸ hlinks')]
  exact hgathered

/-! ## The calls of a builder -/

/-- Adds edges of an extension to the graph of a builder and notes the extension as a contributor. -/
def addEdgesTo (b : GraphBuilder) (i : ExtensionInfo) (now : UInt64) (l : List Edge) :
    Except BuilderError GraphBuilder := do
  let b ← b.addEdges (l.map (stampEdge i now))
  b.recordExtension i.name

/-- Adds what the parsing of a visit has given to the graph of a builder. -/
def mergeInto (now : UInt64) (b : GraphBuilder) (v : Visit) : Except BuilderError GraphBuilder :=
  match v.parsed with
  | .error _ => return b
  | .ok o => do
    let b ← b.addNodes (o.nodes.map (stampNode v.extension.info now))
    addEdgesTo b v.extension.info now o.edges

/-- Links with the extension of a visit into a builder, unless its parsing has failed. -/
def linkOneInto (p : Pipeline) (root : String) (nodes : GraphQuery) (b : GraphBuilder)
    (v : Visit) : ExceptT BuilderError (StateM Session) (GraphBuilder × Visit) := do
  match v.parsed with
  | .error _ => return (b, v)
  | .ok _ =>
    let r ← (v.extension.link ⟨root, p.settingsOf v.extension, nodes⟩).run
    let now := (← get).clock
    match r with
    | .ok l => return (← addEdgesTo b v.extension.info now l, { v with linked := some r })
    | .error _ => return (b, { v with linked := some r })

/-- Links with the extensions of visits in turn into a builder. -/
def linkAllInto (p : Pipeline) (root : String) (nodes : GraphQuery) (b : GraphBuilder) :
    List Visit → ExceptT BuilderError (StateM Session) (GraphBuilder × List Visit)
  | [] => return (b, [])
  | v :: rest => do
    let (b, v) ← p.linkOneInto root nodes b v
    let (b, rest) ← linkAllInto p root nodes b rest
    return (b, v :: rest)

/-- Makes the graph of a codebase with a builder. -/
def builtGraph (p : Pipeline) (root : String) : ExceptT BuilderError (StateM Session) Run := do
  let b := GraphBuilder.new.start (.new root (← get).clock)
  let visits ← p.parseAll root
  let now := (← get).clock
  let b ← (visits.foldlM (mergeInto now) b : Except BuilderError GraphBuilder)
  let (b, visits) ← p.linkAllInto root ⟨← b.snapshot⟩ b visits
  let (graph, _) ← b.build
  return ⟨graph, .ofVisits visits⟩

theorem mergeInto_some (now : UInt64) (g : PropertyGraph) (v : Visit) :
    mergeInto now ⟨some g⟩ v = .ok ⟨some (mergeParsed now g v)⟩ := by
  unfold mergeInto mergeParsed
  cases v.parsed <;> rfl

theorem foldlM_mergeInto (now : UInt64) (g : PropertyGraph) (visits : List Visit) :
    visits.foldlM (mergeInto now) ⟨some g⟩ = .ok ⟨some (visits.foldl (mergeParsed now) g)⟩ := by
  induction visits generalizing g with
  | nil => rfl
  | cons v visits ih =>
    rw [List.foldlM_cons, mergeInto_some]
    exact ih (mergeParsed now g v)

theorem linkOneInto_some (nodes : GraphQuery) (g : PropertyGraph) (v : Visit) (s : Session) :
    (p.linkOneInto root nodes ⟨some g⟩ v).run.run s =
      let r := (p.linkOne root nodes g v).run s
      (.ok (⟨some r.1.1⟩, r.1.2), r.2) := by
  obtain ⟨e, parsed, linked⟩ := v
  cases parsed with
  | error f => rfl
  | ok o =>
    change (let r := (e.link ⟨root, p.settingsOf e, nodes⟩).run.run s
      (ExceptT.run (match r.1 with
        | .ok l => do
          return (← addEdgesTo ⟨some g⟩ e.info r.2.clock l, ⟨e, .ok o, some r.1⟩)
        | .error _ => return (⟨some g⟩, ⟨e, .ok o, some r.1⟩) :
          ExceptT BuilderError (StateM Session) (GraphBuilder × Visit))).run r.2) =
      (let r := (e.link ⟨root, p.settingsOf e, nodes⟩).run.run s
      (.ok (⟨some (match r.1 with
        | .ok l => addEdges e.info r.2.clock g l
        | .error _ => g)⟩, ⟨e, .ok o, some r.1⟩), r.2))
    obtain ⟨r, s₁⟩ := (e.link ⟨root, p.settingsOf e, nodes⟩).run.run s
    cases r <;> rfl

theorem linkAllInto_some (nodes : GraphQuery) (g : PropertyGraph) (visits : List Visit)
    (s : Session) :
    (p.linkAllInto root nodes ⟨some g⟩ visits).run.run s =
      let r := (p.linkAll root nodes g visits).run s
      (.ok (⟨some r.1.1⟩, r.1.2), r.2) := by
  induction visits generalizing g s with
  | nil => rfl
  | cons v visits ih =>
    simp only [linkAllInto, linkAll, ExceptT.run_bind, StateT.run_bind, linkOneInto_some]
    change (let r := (p.linkOne root nodes g v).run s
      (ExceptT.run (do
        let (b, rest) ← p.linkAllInto root nodes ⟨some r.1.1⟩ visits
        return (b, r.1.2 :: rest) : ExceptT BuilderError (StateM Session) _)).run r.2) = _
    simp only [ExceptT.run_bind, StateT.run_bind, ih]
    rfl

/-- A builder that is started makes the graph of a run and refuses no call. -/
theorem builtGraph_eq (p : Pipeline) (root : String) (s : Session) :
    (p.builtGraph root).run.run s =
      let r := (p.graphOf root).run s
      (.ok r.1, r.2) := by
  change (let r := (p.parseAll root).run s
    (ExceptT.run (do
      let b ← (r.1.foldlM (mergeInto r.2.clock) ⟨some (.new (.new root s.clock))⟩ :
        Except BuilderError GraphBuilder)
      let (b, visits) ← p.linkAllInto root ⟨← b.snapshot⟩ b r.1
      let (graph, _) ← b.build
      return ⟨graph, .ofVisits visits⟩ : ExceptT BuilderError (StateM Session) Run)).run r.2) = _
  simp only [foldlM_mergeInto]
  change (let r := (p.parseAll root).run s
    let g := r.1.foldl (mergeParsed r.2.clock) (.new (.new root s.clock))
    (ExceptT.run (do
      let (b, visits) ← p.linkAllInto root ⟨g.nodes⟩ ⟨some g⟩ r.1
      let (graph, _) ← b.build
      return ⟨graph, .ofVisits visits⟩ : ExceptT BuilderError (StateM Session) Run)).run r.2) = _
  simp only [ExceptT.run_bind, StateT.run_bind, linkAllInto_some]
  rfl

/-! ## Isolation -/

/-- **Failures stay apart.** Leaving out any failures of a run does not change the graph that it
gives, be it that extensions whose parsing fails are dropped or that extensions whose linking fails
link nothing. A run fails only if the repository refuses the graph; the builder of the graph never
refuses anything. -/
theorem run_isolates_failures {w : Workshop} {visits spared : List Visit} {edges : List Edge}
    {s' : Session} (hUnnoticed : p.Unnoticed root R)
    (hCourse : Course p root w.session visits edges s') (hSpared : Spared visits spared)
    (hExtensions : q.extensions = spared.map (·.extension)) (hSame : SameSetting q p) :
    ((q.graphOf root).run w.session).1.graph = ((p.graphOf root).run w.session).1.graph ∧
    (∀ r r', ((p.run root).run w).1 = .ok r → ((q.run root).run w).1 = .ok r' →
      r'.graph = r.graph) ∧
    (∀ e, ((p.run root).run w).1 = .error e →
      ∃ cause, e = .repository cause ∧ p.stored root w = .error cause) ∧
    ((p.builtGraph root).run.run w.session).1 = .ok ((p.graphOf root).run w.session).1 := by
  have hgraph := graphOf_spared hCourse hSpared hExtensions hSame hUnnoticed
  refine ⟨hgraph, ?_, ?_, ?_⟩
  · intro r r' hr hr'
    rw [eq_of_run_eq_ok (Prod.ext hr rfl), eq_of_run_eq_ok (Prod.ext hr' rfl)]
    exact hgraph
  · intro e he
    rw [run_answer] at he
    cases hstored : p.stored root w with
    | ok repository =>
      rw [hstored] at he
      cases he
    | error cause =>
      rw [hstored] at he
      exact ⟨cause, (Except.error.inj he).symm, rfl⟩
  · rw [builtGraph_eq]

/-- An extension that gives nothing and whose linking breaks off. -/
def unlinkedExtension (name : String) : Extension where
  info := ⟨name, "1.0.0", "code"⟩
  parse _ := pure {}
  link _ := throw (.brokeOff none)

/-- The visit of `hubExtension` in a run without other nodes than `hub`. -/
def hubVisit (name : String) : Visit where
  extension := hubExtension name
  parsed := .ok { nodes := [{ id := "hub", type := .file, name }] }
  linked := some (.ok [
    { id := name ++ ":" ++ "hub", type := .imports, source := "hub", target := "hub" }])

theorem hubExtension_link (name : String) {c : LinkContext} (hNames : c.nodes.nodes.names = ["hub"])
    (s : Session) :
    ((hubExtension name).link c).run.run s = (.ok [
      { id := name ++ ":" ++ "hub", type := .imports, source := "hub", target := "hub" }], s) := by
  simp only [hubExtension, hNames]
  rfl

/-- Two extensions that go well, with a failure of each phase between them. -/
def hubsWithFailures : Pipeline where
  extensions := [hubExtension "first", brokenExtension "broken", unlinkedExtension "unlinked",
    hubExtension "second"]

/-- The visits of `hubsWithFailures`. -/
def hubVisits : List Visit :=
  [hubVisit "first", ⟨brokenExtension "broken", .error (.failed ["no sources"]), none⟩,
    ⟨unlinkedExtension "unlinked", .ok {}, some (.error (.brokeOff none))⟩, hubVisit "second"]

theorem mem_hubsWithFailures {e : Extension} : e ∈ hubsWithFailures.extensions ↔
    e = hubExtension "first" ∨ e = brokenExtension "broken" ∨ e = unlinkedExtension "unlinked" ∨
      e = hubExtension "second" := by
  simp [hubsWithFailures]

/-- The failures of `hubsWithFailures` are not noticed where nobody minds that facts are dropped. -/
theorem unnoticed_hubsWithFailures (hrefl : ∀ s, R s s)
    (htrans : ∀ {s₁ s₂ s₃}, R s₁ s₂ → R s₂ s₃ → R s₁ s₃)
    (hclock : ∀ {s₁ s₂}, R s₁ s₂ → s₁.clock = s₂.clock)
    (hdropped : ∀ s : Session, R s { s with facts := none })
    (hdrop : ∀ {s₁ s₂ : Session}, R s₁ s₂ → R { s₁ with facts := none } { s₂ with facts := none }) :
    hubsWithFailures.Unnoticed "/srv" R := by
  refine ⟨hrefl, htrans, hclock, ?_, ?_, ?_, ?_⟩
  · intro e he s₁ s₂ h
    rcases mem_hubsWithFailures.1 he with rfl | rfl | rfl | rfl
    · exact ⟨rfl, h⟩
    · exact ⟨rfl, hdrop h⟩
    · exact ⟨rfl, h⟩
    · exact ⟨rfl, h⟩
  · intro e he nodes s₁ s₂ h
    rcases mem_hubsWithFailures.1 he with rfl | rfl | rfl | rfl <;> exact ⟨rfl, h⟩
  · intro e he s f s' h
    rcases mem_hubsWithFailures.1 he with rfl | rfl | rfl | rfl <;> cases h
    exact hdropped s
  · intro e he nodes s f s' h
    rcases mem_hubsWithFailures.1 he with rfl | rfl | rfl | rfl <;> cases h
    exact hrefl s

/-- Sessions with the same numbers at the same time. -/
def SameNumbers (s t : Session) : Prop := s.ids = t.ids ∧ s.clock = t.clock

theorem links_hubVisits {s : Session} (hs : s.clock = 7) :
    Links hubsWithFailures "/srv" (mergedNodes s.clock hubVisits) s hubVisits
      (hubVisits.flatMap (·.linkedEdges s.clock)) s := by
  have hNames : (mergedNodes s.clock hubVisits).names = ["hub"] := by
    rw [hs]
    rfl
  refine .called rfl rfl (hubExtension_link "first" hNames s) ?_
  refine .skipped rfl rfl ?_
  refine .called rfl rfl rfl ?_
  exact .called rfl rfl (hubExtension_link "second" hNames _) (.nil _)

/-- A run with a failure in each phase, the first one unnoticed though it has changed the session,
gives the graph of the run without either. -/
theorem run_isolates_failures_hubs :
    let q : Pipeline := { extensions := [hubExtension "first",
      (unlinkedExtension "unlinked").muted, hubExtension "second"] }
    let w : Workshop := ⟨{ ids := ⟨.sequential, 0, 0⟩, clock := 7 }, .memory {}⟩
    ((q.graphOf "/srv").run w.session).1.graph =
      ((hubsWithFailures.graphOf "/srv").run w.session).1.graph := by
  intro q w
  have hSpared : Spared hubVisits [hubVisit "first", Visit.muted
      ⟨unlinkedExtension "unlinked", .ok {}, some (.error (.brokeOff none))⟩, hubVisit "second"] :=
    .kept _ (.dropped rfl (.muted rfl (.kept _ .nil)))
  have hParses : Parses hubsWithFailures "/srv" w.session hubVisits w.session :=
    .cons rfl (.cons rfl (.cons rfl (.cons rfl (.nil _))))
  have hCourse : Course hubsWithFailures "/srv" w.session hubVisits _ w.session :=
    ⟨rfl, w.session, hParses, links_hubVisits rfl⟩
  have hUnnoticed : hubsWithFailures.Unnoticed "/srv" SameNumbers :=
    unnoticed_hubsWithFailures (fun _ => ⟨rfl, rfl⟩) (fun h h' => ⟨h.1.trans h'.1, h.2.trans h'.2⟩)
      (fun h => h.2) (fun _ => ⟨rfl, rfl⟩) fun h => h
  exact (run_isolates_failures (q := q) (w := w) hUnnoticed hCourse hSpared rfl ⟨rfl, rfl⟩).1

end Pipeline

end CodeGraph
