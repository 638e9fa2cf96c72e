import Mathlib.Data.List.Induction
import CodeGraph.Proofs.Pipeline.Isolation
import CodeGraph.Proofs.Pipeline.Watching

/-!
# Parsing side by side

Extensions that parse side by side end in any order. If how each of them ends does not depend on the
others, the graph and the report are those of parsing in turn: outcomes are merged and counted by the
positions of the extensions, not by the order in which they end.

What linking can tell of the order is again a relation of sessions (`Independent`), since linking
may see what parsing has left in the session.

* `watch_in_any_order`: two orders of the calls of parsing give the same graph and the same report.
* `run_in_any_order`: this said of runs, with what is told of the progress in any case.
-/

namespace CodeGraph

namespace Pipeline

variable {p : Pipeline} {root : String} {R : Session → Session → Prop}

/-! ## Independence -/

/-- How parsing with an extension ends in a session. -/
def outcome (p : Pipeline) (root : String) (e : Extension) (s : Session) :
    Except PhaseFailure ExtensionOutput :=
  ((e.parse ⟨root, p.settingsOf e⟩).run.run s).1

/-- The session that parsing with an extension leaves. -/
def after (p : Pipeline) (root : String) (s : Session) (e : Extension) : Session :=
  ((e.parse ⟨root, p.settingsOf e⟩).run.run s).2

/-- The session that parsing with the extensions at the positions of a list leaves. -/
def afterAll (p : Pipeline) (root : String) (s : Session) (l : List Nat) : Session :=
  (l.filterMap (p.extensions[·]?)).foldl (p.after root) s

/-- From a session on, how parsing with an extension ends does not depend on which others have
parsed, and in which order. The order in which all of them parse is the same to linking: it leaves
sessions in a relation that linking does not tell apart. -/
structure Independent (p : Pipeline) (root : String) (s : Session)
    (R : Session → Session → Prop) : Prop where
  outcome : ∀ (i : Nat) e, p.extensions[i]? = some e → ∀ l l', (i :: l).Nodup → (i :: l').Nodup →
    p.outcome root e (p.afterAll root s l) = p.outcome root e (p.afterAll root s l')
  orders : ∀ l l', l.Perm (List.range p.extensions.length) →
    l'.Perm (List.range p.extensions.length) → R (p.afterAll root s l) (p.afterAll root s l')
  clock : ∀ {s t}, R s t → s.clock = t.clock
  link : ∀ e ∈ p.extensions, ∀ nodes {s t}, R s t →
    ((e.link ⟨root, p.settingsOf e, nodes⟩).run.run s).1 =
      ((e.link ⟨root, p.settingsOf e, nodes⟩).run.run t).1 ∧
    R ((e.link ⟨root, p.settingsOf e, nodes⟩).run.run s).2
      ((e.link ⟨root, p.settingsOf e, nodes⟩).run.run t).2

theorem afterAll_append (p : Pipeline) (root : String) (s : Session) (l l' : List Nat) :
    p.afterAll root s (l ++ l') = p.afterAll root (p.afterAll root s l) l' := by
  rw [afterAll, List.filterMap_append, List.foldl_append]
  rfl

/-- Extensions that leave sessions in a relation of sessions that are all the same to them are
independent. -/
theorem independent_of_unnoticed (s : Session) (hR : p.Unnoticed root R)
    (hAfter : ∀ e ∈ p.extensions, ∀ s, R s (p.after root s e))
    (hSymm : ∀ {s t}, R s t → R t s) : p.Independent root s R := by
  have hall : ∀ l, R s (p.afterAll root s l) := by
    intro l
    induction l using List.reverseRecOn with
    | nil => exact hR.refl s
    | append_singleton l i ih =>
      rw [afterAll_append]
      rcases hi : p.extensions[i]? with _ | e
      · simpa [afterAll, hi] using ih
      · have he := hAfter e (List.mem_of_getElem? hi) (p.afterAll root s l)
        simpa [afterAll, hi] using hR.trans ih he
  refine ⟨fun i e he l l' _ _ => ?_, fun l l' _ _ => hR.trans (hSymm (hall l)) (hall l'), hR.clock,
    hR.link⟩
  exact (hR.parse e (List.mem_of_getElem? he) (hR.trans (hSymm (hall l)) (hall l'))).1

/-! ## The calls of parsing in any order -/

/-- The visits of extensions that find a session as nothing has changed it yet. -/
def visitsFrom (p : Pipeline) (root : String) (s : Session) : List Visit :=
  p.extensions.map fun e => ⟨e, p.outcome root e s, none⟩

theorem Independent.parses {s : Session} (h : p.Independent root s R) {order : List Nat}
    (hnodup : order.Nodup) :
    Parses p root s (visitsAt (p.visitsFrom root s) order) (p.afterAll root s order) := by
  induction order using List.reverseRecOn with
  | nil => exact .nil s
  | append_singleton order i ih =>
    obtain ⟨hnodup, -, hdisjoint⟩ := List.nodup_append.1 hnodup
    have hi : (i :: order).Nodup := List.nodup_cons.2
      ⟨fun hmem => hdisjoint i hmem i List.mem_cons_self rfl, hnodup⟩
    rw [afterAll_append, visitsAt, List.filterMap_append]
    refine (ih hnodup).append ?_
    rcases he : p.extensions[i]? with _ | e
    · have hnone : (p.visitsFrom root s)[i]? = none := by rw [visitsFrom, List.getElem?_map, he]; rfl
      simpa [afterAll, he, hnone] using Parses.nil _
    · have hsome : (p.visitsFrom root s)[i]? = some ⟨e, p.outcome root e s, none⟩ := by
        rw [visitsFrom, List.getElem?_map, he]
        rfl
      have hcall : ((e.parse ⟨root, p.settingsOf e⟩).run.run (p.afterAll root s order)) =
          (p.outcome root e s, p.after root (p.afterAll root s order) e) :=
        Prod.ext (h.outcome i e he order [] hi (by simp)) rfl
      have hone : Parses p root (p.afterAll root s order) [⟨e, p.outcome root e s, none⟩]
          (p.after root (p.afterAll root s order) e) := .cons hcall (.nil _)
      simpa [afterAll, he, hsome] using hone

/-- Linking goes on alike in sessions that it does not tell apart. -/
theorem Links.related {u s s' t : Session} (hR : p.Independent root u R) {nodes : NameMap Node}
    {visits : List Visit} {edges : List Edge} (h : Links p root nodes s visits edges s')
    (hmem : ∀ v ∈ visits, v.extension ∈ p.extensions) (hst : R s t) :
    ∃ t', Links p root nodes t visits edges t' ∧ R s' t' := by
  induction h generalizing t with
  | nil s => exact ⟨t, .nil t, hst⟩
  | skipped parsed linked _ ih =>
    obtain ⟨t', h, ht'⟩ := ih (fun v hv => hmem v (List.mem_cons_of_mem _ hv)) hst
    exact ⟨t', .skipped parsed linked h, ht'⟩
  | @called s s₁ s₂ v rest edges o r parsed linked call _ ih =>
    obtain ⟨hsame, hnext⟩ := hR.link _ (hmem v List.mem_cons_self) ⟨nodes⟩ hst
    rw [call] at hsame hnext
    obtain ⟨t', h, ht'⟩ := ih (fun v hv => hmem v (List.mem_cons_of_mem _ hv)) hnext
    refine ⟨t', ?_, ht'⟩
    rw [hR.clock hnext]
    exact .called parsed linked (Prod.ext hsame.symm rfl) h

/-- Two orders of the calls of parsing give the same graph and the same report, and leave sessions
that linking does not tell apart. -/
theorem watch_in_any_order {s : Session} (h : p.Independent root s R) {order order' : List Nat}
    (horder : order.Perm (List.range p.extensions.length))
    (horder' : order'.Perm (List.range p.extensions.length)) :
    ((p.watch root order).run ⟨s, 0, []⟩).1 = ((p.watch root order').run ⟨s, 0, []⟩).1 ∧
    R ((p.watch root order).run ⟨s, 0, []⟩).2.session
      ((p.watch root order').run ⟨s, 0, []⟩).2.session := by
  let start := p.visitsFrom root s
  let s₁ := p.afterAll root s order
  let t₁ := p.afterAll root s order'
  obtain ⟨visits, edges, s', hunlinked, hlinks⟩ :=
    exists_links p root (mergedNodes s₁.clock start) start s₁
  have hextensions : visits.map (·.extension) = p.extensions := by
    rw [extensions_unlinked hunlinked]
    exact (List.map_map ..).trans (List.map_id _)
  have hparses : ∀ l : List Nat, l.Perm (List.range p.extensions.length) →
      Parses p root s (visitsAt visits l) (p.afterAll root s l) := by
    intro l hl
    exact (h.parses (hl.nodup_iff.2 List.nodup_range)).of_unlinked (visitsAt_unlinked hunlinked l)
  have hclock : s₁.clock = t₁.clock := h.clock (h.orders _ _ horder horder')
  rw [← mergedNodes_unlinked hunlinked] at hlinks
  obtain ⟨t', hlinks', hR⟩ := hlinks.related h
    (fun v hv => hextensions ▸ List.mem_map_of_mem hv) (h.orders _ _ horder horder')
  rw [run_watch_of_calls hextensions horder (hparses _ horder) hlinks,
    run_watch_of_calls hextensions horder' (hparses _ horder') (hclock ▸ hlinks')]
  exact ⟨by rw [hclock], hR⟩

/-! ## Runs -/

/-- Makes the graph of a codebase with the calls of parsing in an order of positions, and stores
it. -/
def runInOrder (p : Pipeline) (root : String) (order : List Nat) :
    StateM Workshop (Except PipelineError Run) := do
  let r ← modifyGet fun w =>
    let (r, watched) := (p.watch root order).run ⟨w.session, 0, []⟩
    (r, { w with session := watched.session })
  match ← Workshop.onFiles ((← get).repository.save r.graph).run with
  | .ok repository =>
    modify fun w => { w with repository }
    return .ok r
  | .error e => return .error (.repository e)

/-- A run with an order of its calls answers with its graph and its report unless the repository
refuses the graph. -/
theorem runInOrder_answer (p : Pipeline) (root : String) (order : List Nat) (w : Workshop) :
    ((p.runInOrder root order).run w).1 =
      let r := (p.watch root order).run ⟨w.session, 0, []⟩
      match ((w.repository.save r.1.graph).run.run r.2.session.drive).1 with
      | .ok _ => .ok r.1
      | .error e => .error (.repository e) := by
  change (let r := (p.watch root order).run ⟨w.session, 0, []⟩
    let w₁ : Workshop := { w with session := r.2.session }
    let saved := (w₁.repository.save r.1.graph).run.run w₁.session.drive
    (StateT.run (match saved.1 with
      | .ok repository => do
        modify fun w => { w with repository }
        return .ok r.1
      | .error e => return .error (.repository e) : StateM Workshop (Except PipelineError Run))
      { w₁ with session := { w₁.session with drive := saved.2 } }).1) = _
  dsimp only
  split <;> rfl

theorem eq_of_runInOrder_eq_ok {order : List Nat} {w : Workshop} {r : Run}
    (h : ((p.runInOrder root order).run w).1 = .ok r) :
    r = ((p.watch root order).run ⟨w.session, 0, []⟩).1 := by
  rw [runInOrder_answer] at h
  dsimp only at h
  split at h
  · exact (Except.ok.inj h).symm
  · cases h

/-- A run takes the calls of parsing in an order of its own. -/
theorem runInOrder_turnOrder (p : Pipeline) (root : String) :
    p.runInOrder root p.turnOrder = p.run root := by
  unfold runInOrder run
  congr 1
  refine congrArg modifyGet (funext fun w => ?_)
  obtain ⟨hrun, hsession⟩ := p.run_watch_turnOrder root w.session
  exact Prod.ext hrun (congrArg (fun session => { w with session }) hsession)

/-- What parses side by side makes no difference to a run with an order of its calls. -/
theorem watch_concurrent (p : Pipeline) (root : String) (b : Bool) (order : List Nat) :
    ({ p with concurrent := b } : Pipeline).watch root order = p.watch root order := by
  have hparse : ∀ turns, ({ p with concurrent := b } : Pipeline).parseInOrder root order turns =
      p.parseInOrder root order turns := by
    induction order with
    | nil => exact fun _ => rfl
    | cons i order ih =>
      intro turns
      rw [parseInOrder, parseInOrder]
      exact congrArg (p.parseAt root turns i >>= ·) (funext ih)
  have hlink : ∀ nodes visits i r,
      ({ p with concurrent := b } : Pipeline).linkInTurn root nodes i r visits =
        p.linkInTurn root nodes i r visits := by
    intro nodes visits
    induction visits with
    | nil => exact fun _ _ => rfl
    | cons v visits ih =>
      intro i r
      rw [linkInTurn, linkInTurn]
      exact congrArg (p.linkAt root nodes i r v >>= ·) (funext fun r => ih (i + 1) r)
  simp only [watch, hparse, hlink]

/-- **Parsing side by side changes nothing.** The calls of parsing may end in any order. What is told
of the progress is then the same as ever, `(1, 2n)` to `(2n, 2n)` for `n` extensions, and the first
`n` of these are told before any linking starts. If the extensions are independent, the graph and the
report are those of parsing in turn, and so is the answer of a run, at least where the repository
takes the graph. -/
theorem run_in_any_order {w : Workshop} {order : List Nat}
    (hOrder : order.Perm (List.range p.extensions.length)) :
    let inTurn : Pipeline := { p with concurrent := false }
    let sideBySide : Pipeline := { p with concurrent := true }
    let total := 2 * p.extensions.length
    (∃ before after, ((p.watch root order).run ⟨w.session, 0, []⟩).2.notices = before ++ after ∧
      (before ++ after).filterMap Notice.progress? = p.progress ∧
      p.progress = (List.range' 1 total).map (·, total) ∧
      before.filterMap Notice.progress? = p.progress.take p.extensions.length ∧
      ∀ n ∈ before, n.isLinking = false) ∧
    (p.Independent root w.session R →
      ((p.watch root order).run ⟨w.session, 0, []⟩).1 =
        ((inTurn.graphOf root).run w.session).1 ∧
      ((sideBySide.graphOf root).run w.session).1 = ((inTurn.graphOf root).run w.session).1 ∧
      (∀ r r', ((p.runInOrder root order).run w).1 = .ok r →
        ((inTurn.run root).run w).1 = .ok r' → r = r') ∧
      ((∀ s t, R s t → s.drive = t.drive) →
        ((p.runInOrder root order).run w).1 = ((inTurn.run root).run w).1)) := by
  intro inTurn sideBySide total
  refine ⟨?_, fun hIndependent => ?_⟩
  · obtain ⟨before, after, hnotices, hall, hfirst, hlinking⟩ :=
      p.progress_notices root w.session hOrder
    exact ⟨before, after, hnotices, hall, p.progress_eq, hfirst, hlinking⟩
  have hturn : ∀ b, ((({ p with concurrent := b } : Pipeline).graphOf root).run w.session).1 =
      ((p.watch root order).run ⟨w.session, 0, []⟩).1 := by
    intro b
    let q : Pipeline := { p with concurrent := b }
    calc ((q.graphOf root).run w.session).1
        = ((q.watch root q.turnOrder).run ⟨w.session, 0, []⟩).1 :=
          (q.run_watch_turnOrder root w.session).1.symm
      _ = ((p.watch root q.turnOrder).run ⟨w.session, 0, []⟩).1 := by
          rw [p.watch_concurrent root b]
      _ = ((p.watch root order).run ⟨w.session, 0, []⟩).1 :=
          (watch_in_any_order hIndependent q.turnOrder_perm hOrder).1
  have hanswer : inTurn.run root = p.runInOrder root inTurn.turnOrder := by
    rw [← runInOrder_turnOrder, runInOrder, runInOrder, p.watch_concurrent root false]
  obtain ⟨hsame, hR⟩ := watch_in_any_order hIndependent hOrder inTurn.turnOrder_perm
  refine ⟨(hturn false).symm, (hturn true).trans (hturn false).symm, fun r r' hr hr' => ?_,
    fun hdrive => ?_⟩
  · rw [hanswer] at hr'
    exact (eq_of_runInOrder_eq_ok hr).trans (hsame.trans (eq_of_runInOrder_eq_ok hr').symm)
  · rw [hanswer, runInOrder_answer, runInOrder_answer]
    simp only [hsame, hdrive _ _ hR]

/-- Sessions that differ in nothing but the facts that they keep. -/
def SameButFacts (s t : Session) : Prop := { s with facts := none } = { t with facts := none }

theorem independent_hubsWithFailures (s : Session) :
    hubsWithFailures.Independent "/srv" s SameButFacts := by
  have hUnnoticed : hubsWithFailures.Unnoticed "/srv" SameButFacts :=
    unnoticed_hubsWithFailures (fun _ => rfl) Eq.trans (fun h => congrArg (·.clock) h)
      (fun _ => rfl) fun h => h
  refine independent_of_unnoticed s hUnnoticed ?_ Eq.symm
  intro e he s
  rcases mem_hubsWithFailures.1 he with rfl | rfl | rfl | rfl <;> exact rfl

/-- `hubsWithFailures` answers the same when its second half parses first. -/
theorem run_in_any_order_hubs :
    let w : Workshop := ⟨{ ids := ⟨.sequential, 0, 0⟩, clock := 7 }, .memory {}⟩
    ((hubsWithFailures.runInOrder "/srv" [3, 1, 2, 0]).run w).1 =
      ((hubsWithFailures.run "/srv").run w).1 := by
  intro w
  have hOrder : [3, 1, 2, 0].Perm (List.range hubsWithFailures.extensions.length) := by decide
  have hRun := (run_in_any_order (w := w) hOrder).2 (independent_hubsWithFailures w.session)
  exact hRun.2.2.2 fun s t h => congrArg (·.drive) h

end Pipeline

end CodeGraph
