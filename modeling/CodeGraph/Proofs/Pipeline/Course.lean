import CodeGraph.Pipeline.Basic

/-!
# The course of a run

A run calls the parsing of every extension once and then the linking of every extension whose
parsing has succeeded. Each call finds the session that the call before it has left. `Parses` and
`Links` say of visits that the calls of one phase went as the visits hold; nothing is assumed of
what the extensions do.

* `exists_course`: a run has a course, whatever session it starts in.
* `parseAll_of_parses`: what parsing with all extensions gives is what such visits hold.
-/

namespace CodeGraph

/-! ## What a visit adds -/

/-- A node with its producer: the one that it names, or else the extension at a time. -/
def Node.attributedTo (i : ExtensionInfo) (now : UInt64) (n : Node) : Node :=
  match n.provenance with
  | some _ => n
  | none => { n with provenance := some ⟨i.domain, i.name, i.version, now⟩ }

theorem Node.id_attributedTo (i : ExtensionInfo) (now : UInt64) (n : Node) :
    (n.attributedTo i now).id = n.id := by
  unfold Node.attributedTo
  split <;> rfl

/-- An edge with its producer: the one that it names, or else the extension at a time. -/
def Edge.attributedTo (i : ExtensionInfo) (now : UInt64) (e : Edge) : Edge :=
  match e.provenance with
  | some _ => e
  | none => { e with provenance := some ⟨i.domain, i.name, i.version, now⟩ }

namespace Visit

/-- The name of the extension, if its parsing has succeeded. -/
def contributor? (v : Visit) : Option String :=
  v.parsed.toOption.map fun _ => v.extension.info.name

/-- The nodes that parsing has given. -/
def parsedNodes (now : UInt64) (v : Visit) : List Node :=
  match v.parsed with
  | .ok o => o.nodes.map (·.attributedTo v.extension.info now)
  | .error _ => []

/-- The edges that parsing has given. -/
def parsedEdges (now : UInt64) (v : Visit) : List Edge :=
  match v.parsed with
  | .ok o => o.edges.map (·.attributedTo v.extension.info now)
  | .error _ => []

/-- The edges that linking has given. -/
def linkedEdges (now : UInt64) (v : Visit) : List Edge :=
  match v.linked with
  | some (.ok l) => l.map (·.attributedTo v.extension.info now)
  | _ => []

/-- The visit as it stands before anything has been linked. -/
def unlinked (v : Visit) : Visit := { v with linked := none }

end Visit

namespace Pipeline

variable {p : Pipeline} {root : String}

/-! ## The calls of a run -/

/-- The extensions of visits parse in turn, from a session to another one. -/
inductive Parses (p : Pipeline) (root : String) : Session → List Visit → Session → Prop
  | nil (s : Session) : Parses p root s [] s
  | cons {s s₁ s₂ : Session} {v : Visit} {rest : List Visit}
      (call : (v.extension.parse ⟨root, p.settingsOf v.extension⟩).run.run s = (v.parsed, s₁))
      (tail : Parses p root s₁ rest s₂) : Parses p root s (v :: rest) s₂

/-- Whether an extension parses before those that wait for files. -/
def parsesFirst (p : Pipeline) (e : Extension) : Bool := !(p.concurrent && e.waits)

/-- Visits in the order in which their extensions parse. -/
def inTurn (p : Pipeline) (visits : List Visit) : List Visit :=
  visits.filter (fun v => p.parsesFirst v.extension) ++
    visits.filter (fun v => !p.parsesFirst v.extension)

/-- The extensions of visits link in turn, all of them given `nodes`; those whose parsing has failed
are left out. The edges are those of all visits, each with the time right after its call. -/
inductive Links (p : Pipeline) (root : String) (nodes : NameMap Node) :
    Session → List Visit → List Edge → Session → Prop
  | nil (s : Session) : Links p root nodes s [] [] s
  | skipped {s s₁ : Session} {v : Visit} {rest : List Visit} {edges : List Edge}
      {f : PhaseFailure} (parsed : v.parsed = .error f) (linked : v.linked = none)
      (tail : Links p root nodes s rest edges s₁) : Links p root nodes s (v :: rest) edges s₁
  | called {s s₁ s₂ : Session} {v : Visit} {rest : List Visit} {edges : List Edge}
      {o : ExtensionOutput} {r : Except PhaseFailure (List Edge)}
      (parsed : v.parsed = .ok o) (linked : v.linked = some r)
      (call : (v.extension.link ⟨root, p.settingsOf v.extension, ⟨nodes⟩⟩).run.run s = (r, s₁))
      (tail : Links p root nodes s₁ rest edges s₂) :
      Links p root nodes s (v :: rest) (v.linkedEdges s₁.clock ++ edges) s₂

/-- The nodes that parsing has given, the last one of each identifier. -/
def mergedNodes (now : UInt64) (visits : List Visit) : NameMap Node :=
  .ofList ((visits.flatMap (·.parsedNodes now)).map fun n => (n.id, n))

/-- The visits of a run from a session to another one, and the edges of its linking. All linking is
given the nodes of all parsing. -/
structure Course (p : Pipeline) (root : String) (s : Session) (visits : List Visit)
    (edges : List Edge) (s' : Session) : Prop where
  visited : visits.map (·.extension) = p.extensions
  called : ∃ s₁, Parses p root s (p.inTurn visits) s₁ ∧
    Links p root (mergedNodes s₁.clock visits) s₁ visits edges s'

/-! ## Every session has a course -/

theorem Parses.append {s s₁ s₂ : Session} {a b : List Visit} (ha : Parses p root s a s₁)
    (hb : Parses p root s₁ b s₂) : Parses p root s (a ++ b) s₂ := by
  induction ha with
  | nil => exact hb
  | cons call _ ih => exact .cons call (ih hb)

theorem Parses.split {s s₂ : Session} {a b : List Visit} (h : Parses p root s (a ++ b) s₂) :
    ∃ s₁, Parses p root s a s₁ ∧ Parses p root s₁ b s₂ := by
  induction a generalizing s with
  | nil => exact ⟨s, .nil s, h⟩
  | cons v a ih =>
    cases h with
    | cons call tail =>
      obtain ⟨s₁, ha, hb⟩ := ih tail
      exact ⟨s₁, .cons call ha, hb⟩

/-- How linking ended is no part of parsing. -/
theorem Parses.of_unlinked {s s' : Session} {a b : List Visit} (h : Parses p root s a s')
    (hab : b.map Visit.unlinked = a.map Visit.unlinked) : Parses p root s b s' := by
  induction h generalizing b with
  | nil s =>
    obtain rfl := List.map_eq_nil_iff.1 hab
    exact .nil s
  | @cons s s₁ s₂ v rest call _ ih =>
    obtain ⟨w, b, rfl, hw, hb⟩ := List.map_eq_cons_iff.1 hab
    have hext : w.extension = v.extension := congrArg (·.extension) hw
    have hparsed : w.parsed = v.parsed := congrArg (·.parsed) hw
    exact .cons (by rw [hext, hparsed]; exact call) (ih hb)

theorem exists_parses_of (p : Pipeline) (root : String) (l : List Extension) (s : Session) :
    ∃ visits s', visits.map (·.extension) = l ∧ Parses p root s visits s' := by
  induction l generalizing s with
  | nil => exact ⟨[], s, rfl, .nil s⟩
  | cons e l ih =>
    obtain ⟨visits, s', hl, h⟩ := ih ((e.parse ⟨root, p.settingsOf e⟩).run.run s).2
    exact ⟨⟨e, ((e.parse ⟨root, p.settingsOf e⟩).run.run s).1, none⟩ :: visits, s',
      by rw [List.map_cons, hl], .cons rfl h⟩

/-- Visits of the extensions that meet a condition and visits of the others are visits of all. -/
theorem exists_interleaved {first : Extension → Bool} {l : List Extension} {a b : List Visit}
    (ha : a.map (·.extension) = l.filter first) (hb : b.map (·.extension) = l.filter (!first ·)) :
    ∃ visits : List Visit, visits.map (·.extension) = l ∧
      visits.filter (fun v => first v.extension) = a ∧
      visits.filter (fun v => !first v.extension) = b := by
  induction l generalizing a b with
  | nil =>
    obtain rfl := List.map_eq_nil_iff.1 ha
    obtain rfl := List.map_eq_nil_iff.1 hb
    exact ⟨[], rfl, rfl, rfl⟩
  | cons e l ih =>
    cases hfirst : first e with
    | true =>
      rw [List.filter_cons_of_pos hfirst] at ha
      rw [List.filter_cons_of_neg (by simp [hfirst])] at hb
      obtain ⟨v, a, rfl, rfl, htail⟩ := List.map_eq_cons_iff.1 ha
      obtain ⟨visits, rfl, rfl, rfl⟩ := ih htail hb
      exact ⟨v :: visits, rfl, by simp [hfirst], by simp [hfirst]⟩
    | false =>
      rw [List.filter_cons_of_neg (by simp [hfirst])] at ha
      rw [List.filter_cons_of_pos (by simp [hfirst])] at hb
      obtain ⟨v, b, rfl, rfl, htail⟩ := List.map_eq_cons_iff.1 hb
      obtain ⟨visits, rfl, rfl, rfl⟩ := ih ha htail
      exact ⟨v :: visits, rfl, by simp [hfirst], by simp [hfirst]⟩

theorem exists_parses (p : Pipeline) (root : String) (s : Session) :
    ∃ visits s', visits.map (·.extension) = p.extensions ∧
      Parses p root s (p.inTurn visits) s' := by
  obtain ⟨a, s₁, ha, hparsesA⟩ := exists_parses_of p root (p.extensions.filter p.parsesFirst) s
  obtain ⟨b, s₂, hb, hparsesB⟩ :=
    exists_parses_of p root (p.extensions.filter (!p.parsesFirst ·)) s₁
  obtain ⟨visits, hvisits, rfl, rfl⟩ := exists_interleaved ha hb
  exact ⟨visits, s₂, hvisits, hparsesA.append hparsesB⟩

theorem exists_links (p : Pipeline) (root : String) (nodes : NameMap Node) (parsed : List Visit)
    (s : Session) : ∃ visits edges s', visits.map Visit.unlinked = parsed.map Visit.unlinked ∧
      Links p root nodes s visits edges s' := by
  induction parsed generalizing s with
  | nil => exact ⟨[], [], s, rfl, .nil s⟩
  | cons v parsed ih =>
    cases hv : v.parsed with
    | error f =>
      obtain ⟨visits, edges, s', hvisits, h⟩ := ih s
      exact ⟨v.unlinked :: visits, edges, s', by rw [List.map_cons, hvisits]; rfl,
        .skipped hv rfl h⟩
    | ok o =>
      let r := (v.extension.link ⟨root, p.settingsOf v.extension, ⟨nodes⟩⟩).run.run s
      obtain ⟨visits, edges, s', hvisits, h⟩ := ih r.2
      exact ⟨{ v with linked := some r.1 } :: visits, _, s', by rw [List.map_cons, hvisits]; rfl,
        .called hv rfl rfl h⟩

theorem inTurn_unlinked {a b : List Visit} (h : b.map Visit.unlinked = a.map Visit.unlinked) :
    (p.inTurn b).map Visit.unlinked = (p.inTurn a).map Visit.unlinked := by
  have hfilter : ∀ (f : Extension → Bool) (l : List Visit),
      (l.filter fun v => f v.extension).map Visit.unlinked =
        (l.map Visit.unlinked).filter fun v => f v.extension := by
    intro f l
    rw [List.filter_map]
    rfl
  simp only [inTurn, List.map_append]
  rw [hfilter p.parsesFirst, hfilter (!p.parsesFirst ·), h, ← hfilter p.parsesFirst,
    ← hfilter (!p.parsesFirst ·)]

theorem mergedNodes_unlinked {a b : List Visit} (h : b.map Visit.unlinked = a.map Visit.unlinked)
    (now : UInt64) : mergedNodes now b = mergedNodes now a := by
  have hnodes := congrArg (List.flatMap (·.parsedNodes now)) h
  rw [List.flatMap_map, List.flatMap_map] at hnodes
  exact congrArg (fun l => NameMap.ofList (l.map fun n => (n.id, n))) hnodes

theorem extensions_unlinked {a b : List Visit} (h : b.map Visit.unlinked = a.map Visit.unlinked) :
    b.map (·.extension) = a.map (·.extension) := by
  have hextensions := congrArg (List.map (·.extension)) h
  rwa [List.map_map, List.map_map] at hextensions

/-- Once all extensions have parsed, the run goes on. -/
theorem exists_links_of_parses {parsed : List Visit} {s s₁ : Session}
    (hparsed : parsed.map (·.extension) = p.extensions)
    (hparses : Parses p root s (p.inTurn parsed) s₁) :
    ∃ visits edges s', visits.map Visit.unlinked = parsed.map Visit.unlinked ∧
      visits.map (·.extension) = p.extensions ∧ Parses p root s (p.inTurn visits) s₁ ∧
      Links p root (mergedNodes s₁.clock visits) s₁ visits edges s' := by
  obtain ⟨visits, edges, s', hunlinked, hlinks⟩ :=
    exists_links p root (mergedNodes s₁.clock parsed) parsed s₁
  refine ⟨visits, edges, s', hunlinked, (extensions_unlinked hunlinked).trans hparsed,
    hparses.of_unlinked (inTurn_unlinked hunlinked), ?_⟩
  rw [mergedNodes_unlinked hunlinked]
  exact hlinks

theorem exists_course (p : Pipeline) (root : String) (s : Session) :
    ∃ visits edges s', Course p root s visits edges s' := by
  obtain ⟨parsed, s₁, hparsed, hparses⟩ := exists_parses p root s
  obtain ⟨visits, edges, s', -, hvisits, hparses', hlinks⟩ :=
    exists_links_of_parses hparsed hparses
  exact ⟨visits, edges, s', hvisits, s₁, hparses', hlinks⟩

/-! ## What the phases give -/

/-- The turn of a visit, which has ended if its extension is done. -/
def turn (done : Extension → Bool) (v : Visit) : Turn :=
  (v.extension, if done v.extension then some v.parsed else none)

theorem parseDue_of_parses {due done : Extension → Bool} {visits : List Visit} {s s' : Session}
    (h : Parses p root s (visits.filter fun v => !done v.extension && due v.extension) s') :
    (p.parseDue root due (visits.map (turn done))).run s =
      (visits.map (turn fun e => done e || due e), s') := by
  induction visits generalizing s with
  | nil =>
    cases h
    rfl
  | cons v visits ih =>
    by_cases hdone : done v.extension
    · rw [List.filter_cons_of_neg (by simp [hdone])] at h
      simp only [List.map_cons, turn, hdone, if_true, parseDue, Bool.true_or]
      exact congrArg (fun r => ((v.extension, some v.parsed) :: r.1, r.2)) (ih h)
    · by_cases hdue : due v.extension
      · rw [List.filter_cons_of_pos (by simp [hdone, hdue])] at h
        cases h with
        | cons call tail =>
          simp only [List.map_cons, turn, hdone, hdue, if_true, parseDue, Bool.or_true,
            Bool.false_eq_true, if_false, StateT.run_bind, call]
          exact congrArg (fun r => ((v.extension, some v.parsed) :: r.1, r.2)) (ih tail)
      · rw [List.filter_cons_of_neg (by simp [hdue])] at h
        simp only [List.map_cons, turn, hdone, hdue, parseDue, Bool.or_false, Bool.false_eq_true,
          if_false]
        exact congrArg (fun r => ((v.extension, none) :: r.1, r.2)) (ih h)

theorem parseAll_of_parses {visits : List Visit} {s s' : Session}
    (hvisits : visits.map (·.extension) = p.extensions)
    (h : Parses p root s (p.inTurn visits) s') :
    (p.parseAll root).run s = (visits.map Visit.unlinked, s') := by
  obtain ⟨s₁, hfirst, hrest⟩ := h.split
  have hturns : p.extensions.map (fun e => ((e, none) : Turn)) =
      visits.map (turn fun _ => false) := by
    rw [← hvisits, List.map_map]
    rfl
  have hpass : (p.parseDue root p.parsesFirst (visits.map (turn fun _ => false))).run s =
      (visits.map (turn p.parsesFirst), s₁) := parseDue_of_parses hfirst
  have hlast : (p.parseDue root (fun _ => true) (visits.map (turn p.parsesFirst))).run s₁ =
      (visits.map (turn fun _ => true), s') := by
    have hall : (p.parseDue root (fun _ => true) (visits.map (turn p.parsesFirst))).run s₁ =
        (visits.map (turn fun e => p.parsesFirst e || true), s') :=
      parseDue_of_parses (by simpa using hrest)
    simpa using hall
  have hvisitsOf : visitsOf (visits.map (turn fun _ => true)) = visits.map Visit.unlinked := by
    rw [visitsOf, List.filterMap_map, ← List.filterMap_eq_map]
    rfl
  simp only [parseAll, StateT.run_bind, hturns]
  change (let r := (p.parseDue root p.parsesFirst (visits.map (turn fun _ => false))).run s
    let r := (p.parseDue root (fun _ => true) r.1).run r.2
    (visitsOf r.1, r.2)) = _
  simp only [hpass, hlast, hvisitsOf]

end Pipeline

end CodeGraph
