import Mathlib.Data.List.Basic
import CodeGraph.Proofs.Pipeline.Merge

/-!
# A run that is watched

A run with its report and its progress as they come about. The calls of parsing end in some order,
and each outcome is kept at the position of its extension; then outputs are merged and links are made
in the order of the extensions, and each notes at once what it adds or that it has failed. After each
phase of each extension a watcher is told how many phases are done. `Pipeline.watch` goes through all
of this for any order in which the calls of parsing end.

* `run_watch_of_calls`: the calls of a run determine what it gives and what is told on the way.
* `run_watch_turnOrder`: a run is one that is watched, with the calls of parsing in an order of its
  own.
* `progress_notices`: what is told of the progress depends on the number of extensions alone.
-/

namespace CodeGraph

/-- What a watcher is told. -/
inductive Notice where
  /-- The extension at a position starts to link. -/
  | linking (position : Nat)
  /-- How many of all phases are done. -/
  | progress (done total : Nat)

namespace Notice

def isLinking : Notice → Bool
  | .linking _ => true
  | .progress .. => false

/-- The numbers of a notice of progress. -/
def progress? : Notice → Option (Nat × Nat)
  | .linking _ => none
  | .progress done total => some (done, total)

end Notice

/-- A session that is watched. -/
structure Watched where
  session : Session
  /-- How many phases are done. -/
  done : Nat := 0
  /-- What the watcher has been told. -/
  notices : List Notice := []

abbrev WatchM := StateM Watched

namespace WatchM

def onSession {α : Type} (op : StateM Session α) : WatchM α :=
  modifyGet fun w =>
    let (a, session) := op.run w.session
    (a, { w with session })

def tell (n : Notice) : WatchM Unit :=
  modify fun w => { w with notices := w.notices ++ [n] }

/-- Counts a phase as done and tells so. -/
def step (total : Nat) : WatchM Unit :=
  modify fun w => { w with
    done := w.done + 1
    notices := w.notices ++ [.progress (w.done + 1) total] }

end WatchM

namespace Pipeline

open WatchM

/-! ## The stages of a run -/

/-- The number of phases of a run. -/
def phases (p : Pipeline) : Nat := 2 * p.extensions.length

/-- Parses with the extension at a position, unless it has parsed. -/
def parseAt (p : Pipeline) (root : String) (turns : List Turn) (i : Nat) : WatchM (List Turn) := do
  match turns[i]? with
  | some (e, none) =>
    let r ← onSession (e.parse ⟨root, p.settingsOf e⟩).run
    step p.phases
    return turns.set i (e, some r)
  | _ => return turns

/-- Parses with the extensions at the positions of a list in turn. -/
def parseInOrder (p : Pipeline) (root : String) : List Nat → List Turn → WatchM (List Turn)
  | [], turns => return turns
  | i :: order, turns => do
    let turns ← p.parseAt root turns i
    parseInOrder p root order turns

/-- Adds what the parsing of the visit at a position has given and notes how much that is, or notes
that it has failed. -/
def mergeAt (now : UInt64) (i : Nat) (s : PropertyGraph × Report) (v : Visit) :
    PropertyGraph × Report :=
  match v.parsed with
  | .ok o => (addOutput v.extension.info now s.1 o, { s.2 with
      contributions := s.2.contributions.modify i fun c =>
        { c with nodes := o.nodes.length, parseEdges := o.edges.length } })
  | .error f => (s.1, { s.2 with failures := s.2.failures ++ [⟨v.name, .parse, f.message⟩] })

/-- Merges visits in turn, the first of them at the position `i`. -/
def mergeInTurn (now : UInt64) : Nat → PropertyGraph × Report → List Visit → PropertyGraph × Report
  | _, s, [] => s
  | i, s, v :: rest => mergeInTurn now (i + 1) (mergeAt now i s v) rest

/-- Adds the edges that the linking of the visit at a position has given and notes how many they
are, or notes that it has failed. -/
def addLinks (now : UInt64) (i : Nat) (s : PropertyGraph × Report) (v : Visit) :
    Except PhaseFailure (List Edge) → PropertyGraph × Report
  | .ok l => (addEdges v.extension.info now s.1 l, { s.2 with
      contributions := s.2.contributions.modify i fun c => { c with linkEdges := l.length } })
  | .error f => (s.1, { s.2 with failures := s.2.failures ++ [⟨v.name, .link, f.message⟩] })

/-- Links with the extension of the visit at a position, unless its parsing has failed. -/
def linkAt (p : Pipeline) (root : String) (nodes : GraphQuery) (i : Nat) (s : PropertyGraph × Report)
    (v : Visit) : WatchM (PropertyGraph × Report) := do
  match v.parsed with
  | .error _ =>
    step p.phases
    return s
  | .ok _ =>
    tell (.linking i)
    let r ← onSession (v.extension.link ⟨root, p.settingsOf v.extension, nodes⟩).run
    step p.phases
    return addLinks (← get).session.clock i s v r

/-- Links with the extensions of visits in turn, the first of them at the position `i`. -/
def linkInTurn (p : Pipeline) (root : String) (nodes : GraphQuery) :
    Nat → PropertyGraph × Report → List Visit → WatchM (PropertyGraph × Report)
  | _, s, [] => return s
  | i, s, v :: rest => do
    let s ← p.linkAt root nodes i s v
    linkInTurn p root nodes (i + 1) s rest

/-- Makes the graph and the report of a codebase, with the calls of parsing in an order of
positions. -/
def watch (p : Pipeline) (root : String) (order : List Nat) : WatchM Run := do
  let started := (← get).session.clock
  let turns ← p.parseInOrder root order (p.extensions.map fun e => (e, none))
  let visits := visitsOf turns
  let now := (← get).session.clock
  let report : Report := { contributions := p.extensions.map fun e => { extensionName := e.info.name } }
  let s := mergeInTurn now 0 (.new (.new root started), report) visits
  let (graph, report) ← p.linkInTurn root ⟨s.1.nodes⟩ 0 s visits
  return ⟨graph, report⟩

variable {p : Pipeline} {root : String}

/-! ## Parsing -/

/-- The notices of a number of phases after some that are done. -/
def ticks (total done count : Nat) : List Notice :=
  (List.range' (done + 1) count).map fun n => .progress n total

/-- The turns of visits, those at the positions of a list ended. -/
def endedTurns (ended : List Nat) (visits : List Visit) : List Turn :=
  visits.mapIdx fun i v => (v.extension, if i ∈ ended then some v.parsed else none)

/-- The visits at the positions of a list. -/
def visitsAt (visits : List Visit) (order : List Nat) : List Visit :=
  order.filterMap (visits[·]?)

theorem run_parseAt {ended : List Nat} {visits : List Visit} {i : Nat} {v : Visit} {w : Watched}
    {s : Session} (hv : visits[i]? = some v) (hi : i ∉ ended)
    (call : (v.extension.parse ⟨root, p.settingsOf v.extension⟩).run.run w.session =
      (v.parsed, s)) :
    (p.parseAt root (endedTurns ended visits) i).run w = (endedTurns (i :: ended) visits,
      ⟨s, w.done + 1, w.notices ++ [.progress (w.done + 1) p.phases]⟩) := by
  have hturn : (endedTurns ended visits)[i]? = some (v.extension, none) := by
    rw [endedTurns, List.getElem?_mapIdx, hv, Option.map_some, if_neg hi]
  have hset : (endedTurns ended visits).set i (v.extension, some v.parsed) =
      endedTurns (i :: ended) visits := by
    refine List.ext_getElem? fun j => ?_
    rw [List.getElem?_set, endedTurns, endedTurns, List.getElem?_mapIdx, List.getElem?_mapIdx,
      List.length_mapIdx]
    by_cases hj : i = j
    · obtain ⟨hlt, rfl⟩ := List.getElem?_eq_some_iff.1 hv
      subst hj
      simp [hlt]
    · rw [if_neg hj]
      simp [Ne.symm hj]
  rw [parseAt, hturn]
  change (let r := (v.extension.parse ⟨root, p.settingsOf v.extension⟩).run.run w.session
    ((endedTurns ended visits).set i (v.extension, some r.1), (⟨r.2, w.done + 1,
      w.notices ++ [.progress (w.done + 1) p.phases]⟩ : Watched))) = _
  simp only [call, hset]

theorem run_parseInOrder {ended order : List Nat} {visits : List Visit} {w : Watched} {s : Session}
    (hnodup : order.Nodup) (hended : ∀ i ∈ order, i ∉ ended)
    (hrange : ∀ i ∈ order, i < visits.length)
    (h : Parses p root w.session (visitsAt visits order) s) :
    (p.parseInOrder root order (endedTurns ended visits)).run w =
      (endedTurns (order.reverse ++ ended) visits,
        ⟨s, w.done + order.length, w.notices ++ ticks p.phases w.done order.length⟩) := by
  induction order generalizing ended w with
  | nil =>
    cases h
    simp [parseInOrder, ticks]
    rfl
  | cons i order ih =>
    obtain ⟨hfirst, hnodup⟩ := List.nodup_cons.1 hnodup
    obtain ⟨v, hv⟩ : ∃ v, visits[i]? = some v :=
      ⟨_, List.getElem?_eq_getElem (hrange i List.mem_cons_self)⟩
    rw [visitsAt, List.filterMap_cons, hv] at h
    cases h with
    | cons call tail =>
      have hone := run_parseAt hv (hended i List.mem_cons_self) call
      have hleft : ∀ j ∈ order, j ∉ i :: ended := by
        intro j hj hmem
        rcases List.mem_cons.1 hmem with rfl | hmem
        · exact hfirst hj
        · exact hended j (List.mem_cons_of_mem _ hj) hmem
      have hrest := ih (w := ⟨_, w.done + 1, w.notices ++ [.progress (w.done + 1) p.phases]⟩)
        hnodup hleft (fun j hj => hrange j (List.mem_cons_of_mem _ hj)) tail
      rw [parseInOrder, StateT.run_bind, hone]
      refine hrest.trans ?_
      simp [ticks, List.range'_succ, Nat.add_assoc, Nat.add_comm 1]

theorem visitsOf_endedTurns {ended : List Nat} {visits : List Visit}
    (hended : ∀ i < visits.length, i ∈ ended) :
    visitsOf (endedTurns ended visits) = visits.map Visit.unlinked := by
  have hall : endedTurns ended visits = visits.map fun v => (v.extension, some v.parsed) := by
    refine List.ext_getElem? fun i => ?_
    rw [endedTurns, List.getElem?_mapIdx, List.getElem?_map]
    rcases hv : visits[i]? with _ | v
    · rfl
    · obtain ⟨hlt, -⟩ := List.getElem?_eq_some_iff.1 hv
      rw [Option.map_some, Option.map_some, if_pos (hended i hlt)]
  rw [hall, visitsOf, List.filterMap_map, ← List.filterMap_eq_map]
  rfl

/-! ## Merging and linking -/

theorem modify_append_cons {α : Type} (front : List α) (a : α) (back : List α) (f : α → α) :
    (front ++ a :: back).modify front.length f = front ++ f a :: back := by
  induction front with
  | nil => rfl
  | cons b front ih => rw [List.cons_append, List.length_cons, List.modify_succ_cons, ih]; rfl

/-- Merging one visit changes the entry at its position in the report. -/
theorem mergeAt_eq (now : UInt64) (g : PropertyGraph) (v : Visit) (front back : List Contribution)
    (failures : List FailedPhase) :
    mergeAt now front.length (g, ⟨front ++ { extensionName := v.name } :: back, failures⟩) v =
      (mergeParsed now g v, ⟨(front ++ [v.unlinked.contribution]) ++ back,
        failures ++ v.parseFailure?.toList⟩) := by
  rw [mergeAt, mergeParsed, Visit.parseFailure?, Visit.contribution]
  cases hparsed : v.parsed with
  | ok o =>
    simp only [modify_append_cons, Visit.unlinked, hparsed, List.append_assoc]
    simp [Except.toOption, Visit.name]
  | error f => simp [Visit.unlinked, hparsed, Except.toOption, Visit.name]

/-- Merging notes the contributions of the visits, which stand at their positions in the report, and
the failures of their parsing. -/
theorem mergeInTurn_eq (now : UInt64) (visits : List Visit) (g : PropertyGraph)
    (front : List Contribution) (failures : List FailedPhase) :
    mergeInTurn now front.length
        (g, ⟨front ++ visits.map fun v => { extensionName := v.name }, failures⟩) visits =
      (visits.foldl (mergeParsed now) g,
        ⟨front ++ visits.map fun v => v.unlinked.contribution,
          failures ++ visits.filterMap (·.parseFailure?)⟩) := by
  induction visits generalizing g front failures with
  | nil => simp [mergeInTurn]
  | cons v visits ih =>
    have hlength : front.length + 1 = (front ++ [v.unlinked.contribution]).length := by simp
    rw [List.map_cons, mergeInTurn, mergeAt_eq, hlength, ih]
    cases hfailure : v.parseFailure? <;> simp [hfailure]

/-- The notices of linking with the extensions of visits, the first of them at the position `i`. -/
def linkNotices (total : Nat) : Nat → Nat → List Visit → List Notice
  | _, _, [] => []
  | i, done, v :: rest =>
    (if v.parsed.isOk then [.linking i] else []) ++
      .progress (done + 1) total :: linkNotices total (i + 1) (done + 1) rest

/-- One call of linking as it is watched is that call, and it changes the entry at the position of the
visit in the report. -/
theorem run_linkAt (nodes : GraphQuery) (g : PropertyGraph) (front back : List Contribution)
    (failures : List FailedPhase) (w : Watched) {v : Visit} (hv : v.linked = none) :
    (p.linkAt root nodes front.length (g, ⟨front ++ v.contribution :: back, failures⟩) v).run w =
      let r := (p.linkOne root nodes g v).run w.session
      ((r.1.1, ⟨(front ++ [r.1.2.contribution]) ++ back, failures ++ r.1.2.linkFailure?.toList⟩),
        ⟨r.2, w.done + 1, w.notices ++ ((if v.parsed.isOk then [.linking front.length] else []) ++
          [.progress (w.done + 1) p.phases])⟩) := by
  obtain ⟨e, parsed, linked⟩ := v
  cases hv
  cases parsed with
  | error f => simp [linkAt, linkOne, Visit.linkFailure?]; rfl
  | ok o =>
    change (let r := (e.link ⟨root, p.settingsOf e, nodes⟩).run.run w.session
      (addLinks r.2.clock front.length _ ⟨e, .ok o, none⟩ r.1, (⟨r.2, w.done + 1, (w.notices ++
        [.linking front.length]) ++ [.progress (w.done + 1) p.phases]⟩ : Watched))) =
      (let r := (e.link ⟨root, p.settingsOf e, nodes⟩).run.run w.session
      (((match r.1 with
        | .ok l => addEdges e.info r.2.clock g l
        | .error _ => g), ⟨(front ++ [(⟨e, .ok o, some r.1⟩ : Visit).contribution]) ++ back,
          failures ++ (⟨e, .ok o, some r.1⟩ : Visit).linkFailure?.toList⟩), ⟨r.2, w.done + 1,
            w.notices ++ ([.linking front.length] ++ [.progress (w.done + 1) p.phases])⟩))
    obtain ⟨r, s⟩ := (e.link ⟨root, p.settingsOf e, nodes⟩).run.run w.session
    cases r with
    | ok l =>
      simp only [addLinks, modify_append_cons]
      simp [Visit.contribution, Visit.linkFailure?, Except.toOption, Visit.name]
    | error f => simp [addLinks, Visit.contribution, Visit.linkFailure?, Except.toOption]; rfl

/-- Linking as it is watched is linking, and it notes the contributions and the failures. -/
theorem run_linkInTurn (nodes : GraphQuery) (visits : List Visit) (g : PropertyGraph)
    (front : List Contribution) (failures : List FailedPhase) (w : Watched)
    (hunlinked : ∀ v ∈ visits, v.linked = none) :
    (p.linkInTurn root nodes front.length
        (g, ⟨front ++ visits.map (·.contribution), failures⟩) visits).run w =
      let r := (p.linkAll root nodes g visits).run w.session
      ((r.1.1, ⟨front ++ r.1.2.map (·.contribution), failures ++ r.1.2.filterMap (·.linkFailure?)⟩),
        ⟨r.2, w.done + visits.length,
          w.notices ++ linkNotices p.phases front.length w.done visits⟩) := by
  induction visits generalizing g front failures w with
  | nil =>
    change ((g, (⟨front ++ [], failures⟩ : Report)), w) =
      ((g, (⟨front ++ [], failures ++ []⟩ : Report)), (⟨w.session, w.done, w.notices ++ []⟩ : Watched))
    rw [List.append_nil failures, List.append_nil w.notices]
  | cons v visits ih =>
    have hv := hunlinked v List.mem_cons_self
    rw [List.map_cons, linkInTurn, StateT.run_bind, run_linkAt _ _ _ _ _ _ hv, linkAll,
      StateT.run_bind]
    obtain ⟨⟨g₁, v₁⟩, s₁⟩ := (p.linkOne root nodes g v).run w.session
    have hlength : front.length + 1 = (front ++ [v₁.contribution]).length := by simp
    simp only
    rw [hlength]
    refine (ih g₁ (front ++ [v₁.contribution]) _ ⟨s₁, w.done + 1, _⟩
      fun v hv => hunlinked v (List.mem_cons_of_mem _ hv)).trans ?_
    change _ = (let r := (p.linkAll root nodes g₁ visits).run s₁
      ((r.1.1, (⟨front ++ (v₁ :: r.1.2).map (·.contribution),
        failures ++ (v₁ :: r.1.2).filterMap (·.linkFailure?)⟩ : Report)), (⟨r.2, _, _⟩ : Watched)))
    cases hfailure : v₁.linkFailure? <;>
      simp [hfailure, linkNotices, Nat.add_assoc, Nat.add_comm 1]

/-! ## Runs -/

/-- The calls of a run determine what it gives and what is told on the way. -/
theorem run_watch_of_calls {order : List Nat} {visits : List Visit} {edges : List Edge}
    {s s₁ s' : Session} (hvisits : visits.map (·.extension) = p.extensions)
    (horder : order.Perm (List.range p.extensions.length))
    (hparses : Parses p root s (visitsAt visits order) s₁)
    (hlinks : Links p root (mergedNodes s₁.clock visits) s₁ visits edges s') :
    (p.watch root order).run ⟨s, 0, []⟩ =
      (⟨gathered root s.clock s₁.clock visits edges, .ofVisits visits⟩,
        ⟨s', visits.length + visits.length, ticks p.phases 0 visits.length ++
          linkNotices p.phases 0 visits.length (visits.map Visit.unlinked)⟩) := by
  have hlength : p.extensions.length = visits.length := by rw [← hvisits, List.length_map]
  rw [hlength] at horder
  have hmem : ∀ i, i ∈ order ↔ i < visits.length := fun i => horder.mem_iff.trans List.mem_range
  have hturns : p.extensions.map (fun e => ((e, none) : Turn)) = endedTurns [] visits := by
    refine List.ext_getElem? fun i => ?_
    rw [← hvisits, endedTurns, List.getElem?_mapIdx, List.getElem?_map, List.getElem?_map,
      Option.map_map]
    rfl
  have hparse := run_parseInOrder (w := ⟨s, 0, []⟩) (horder.nodup_iff.2 List.nodup_range)
    (fun i _ => List.not_mem_nil (a := i)) (fun i hi => (hmem i).1 hi) hparses
  simp only [horder.length_eq, List.length_range, Nat.zero_add, List.nil_append] at hparse
  have hended : visitsOf (endedTurns (order.reverse ++ []) visits) = visits.map Visit.unlinked :=
    visitsOf_endedTurns fun i hi => by simpa using (hmem i).2 hi
  have hnames : p.extensions.map (fun e => ({ extensionName := e.info.name } : Contribution)) =
      (visits.map Visit.unlinked).map fun v => { extensionName := v.name } := by
    rw [← hvisits, List.map_map, List.map_map]
    rfl
  have hmerge : mergeInTurn s₁.clock 0 (.new (.new root s.clock),
      ⟨p.extensions.map fun e => { extensionName := e.info.name }, []⟩)
        (visits.map Visit.unlinked) = (gathered root s.clock s₁.clock visits [],
          ⟨(visits.map Visit.unlinked).map (·.contribution), visits.filterMap (·.parseFailure?)⟩) := by
    rw [hnames]
    refine (mergeInTurn_eq s₁.clock _ _ [] []).trans ?_
    rw [foldl_mergeParsed_unlinked, List.map_map, List.map_map, List.filterMap_map]
    rfl
  have hlink := linkAll_gathered s.clock hlinks
  have hrun := @run_linkInTurn p root
    ⟨(gathered root s.clock s₁.clock visits []).nodes⟩ (visits.map Visit.unlinked)
    (gathered root s.clock s₁.clock visits []) [] (visits.filterMap (·.parseFailure?))
    ⟨s₁, visits.length, ticks p.phases 0 visits.length⟩
    (fun v hv => by obtain ⟨v, -, rfl⟩ := List.mem_map.1 hv; rfl)
  rw [hlink] at hrun
  simp only [List.length_nil, List.length_map, List.nil_append] at hrun
  change (let r := (p.parseInOrder root order (p.extensions.map fun e => (e, none))).run ⟨s, 0, []⟩
    let m := mergeInTurn r.2.session.clock 0 (.new (.new root s.clock),
      ⟨p.extensions.map fun e => { extensionName := e.info.name }, []⟩) (visitsOf r.1)
    let l := (p.linkInTurn root ⟨m.1.nodes⟩ 0 m (visitsOf r.1)).run r.2
    ((⟨l.1.1, l.1.2⟩ : Run), l.2)) = _
  simp only [hturns, hparse, hended, hmerge]
  exact congrArg (fun r => ((⟨r.1.1, r.1.2⟩ : Run), r.2)) hrun

/-- Things that are listed in an order of their positions can be put in their positions. -/
theorem exists_placed {α : Type} {order : List Nat} {n : Nat} (horder : order.Perm (List.range n))
    {listed : List α} (hlength : listed.length = order.length) :
    ∃ l : List α, l.length = n ∧ order.map (l[·]?) = listed.map some := by
  have hidx : ∀ i : Fin n, order.idxOf i.1 < listed.length := fun i => by
    rw [hlength, List.idxOf_lt_length_iff, horder.mem_iff]
    exact List.mem_range.2 i.2
  refine ⟨.ofFn fun i => listed.get ⟨order.idxOf i.1, hidx i⟩, List.length_ofFn, ?_⟩
  refine List.ext_getElem (by rw [List.length_map, List.length_map, hlength]) fun k hk _ => ?_
  rw [List.length_map] at hk
  have hlt : order[k] < n := List.mem_range.1 (horder.mem_iff.1 (List.getElem_mem hk))
  have hat : order.idxOf order[k] = k :=
    (horder.nodup_iff.2 List.nodup_range).idxOf_getElem k hk
  simp [List.getElem?_ofFn, hlt, hat]

theorem map_getElem?_eq {α : Type} {l : List α} {order : List Nat} (h : ∀ i ∈ order, i < l.length) :
    order.map (l[·]?) = (order.filterMap (l[·]?)).map some := by
  induction order with
  | nil => rfl
  | cons i order ih =>
    have hi := List.getElem?_eq_getElem (h i List.mem_cons_self)
    rw [List.map_cons, List.filterMap_cons, hi, List.map_cons,
      ih fun j hj => h j (List.mem_cons_of_mem i hj)]

/-- Visits in an order come from visits in the order of the extensions. -/
theorem exists_visitsAt {l : List Extension} {order : List Nat}
    (horder : order.Perm (List.range l.length)) {called : List Visit}
    (hcalled : called.map (·.extension) = order.filterMap (l[·]?)) :
    ∃ visits : List Visit, visits.map (·.extension) = l ∧ visitsAt visits order = called := by
  have hrange : ∀ i ∈ order, i < l.length := fun i hi => List.mem_range.1 (horder.mem_iff.1 hi)
  have hl : order.map (l[·]?) = called.map fun v => some v.extension := by
    rw [map_getElem?_eq hrange, ← hcalled, List.map_map]
    rfl
  have hlength : called.length = order.length := by
    have := congrArg List.length hl
    rwa [List.length_map, List.length_map, eq_comm] at this
  obtain ⟨visits, hn, hvisits⟩ := exists_placed horder hlength
  refine ⟨visits, List.ext_getElem? fun i => ?_, ?_⟩
  · by_cases hi : i < l.length
    · have hsame : order.map ((visits.map (·.extension))[·]?) = order.map (l[·]?) := by
        have := congrArg (List.map (Option.map (·.extension))) hvisits
        rw [List.map_map, List.map_map] at this
        rw [hl]
        refine Eq.trans (List.map_congr_left fun i _ => ?_) this
        rw [List.getElem?_map]
        rfl
      exact List.map_inj_left.1 hsame i (horder.mem_iff.2 (List.mem_range.2 hi))
    · rw [Nat.not_lt] at hi
      rw [List.getElem?_eq_none (by rwa [List.length_map, hn]), List.getElem?_eq_none hi]
  · have := (map_getElem?_eq fun i hi => hn ▸ hrange i hi).symm.trans hvisits
    exact List.map_injective_iff.2 (fun _ _ => Option.some.inj) this

/-- How linking ended is no part of the calls of parsing. -/
theorem visitsAt_unlinked {a b : List Visit} (h : b.map Visit.unlinked = a.map Visit.unlinked)
    (order : List Nat) :
    (visitsAt b order).map Visit.unlinked = (visitsAt a order).map Visit.unlinked := by
  have hat : ∀ i : Nat, (b[i]?).map Visit.unlinked = (a[i]?).map Visit.unlinked := by
    intro i
    rw [← List.getElem?_map, h, List.getElem?_map]
  rw [visitsAt, visitsAt, List.map_filterMap, List.map_filterMap, funext hat]

/-- The calls of parsing and those of linking, whatever order the former come in. -/
theorem exists_watched (p : Pipeline) (root : String) (s : Session) {order : List Nat}
    (horder : order.Perm (List.range p.extensions.length)) :
    ∃ visits edges s₁ s', visits.map (·.extension) = p.extensions ∧
      Parses p root s (visitsAt visits order) s₁ ∧
      Links p root (mergedNodes s₁.clock visits) s₁ visits edges s' := by
  obtain ⟨called, s₁, hcalled, hparses⟩ :=
    exists_parses_of p root (order.filterMap (p.extensions[·]?)) s
  obtain ⟨parsed, hparsed, rfl⟩ := exists_visitsAt horder hcalled
  obtain ⟨visits, edges, s', hunlinked, hlinks⟩ :=
    exists_links p root (mergedNodes s₁.clock parsed) parsed s₁
  exact ⟨visits, edges, s₁, s', (extensions_unlinked hunlinked).trans hparsed,
    hparses.of_unlinked (visitsAt_unlinked hunlinked order),
    mergedNodes_unlinked hunlinked s₁.clock ▸ hlinks⟩

/-- The positions of the extensions in the order in which they parse. -/
def turnOrder (p : Pipeline) : List Nat :=
  let first : Nat → Bool := fun i => p.extensions[i]?.any p.parsesFirst
  (List.range p.extensions.length).filter first ++
    (List.range p.extensions.length).filter (!first ·)

theorem turnOrder_perm (p : Pipeline) :
    p.turnOrder.Perm (List.range p.extensions.length) :=
  List.filter_append_perm _ _

theorem visitsAt_range_filter {visits : List Visit} {first : Nat → Bool} {f : Visit → Bool}
    (h : ∀ i v, visits[i]? = some v → first i = f v) :
    visitsAt visits ((List.range visits.length).filter first) = visits.filter f := by
  have hall : (List.range visits.length).map (visits[·]?) = visits.map some := by
    refine List.ext_getElem? fun i => ?_
    rw [List.getElem?_map, List.getElem?_map]
    by_cases hi : i < visits.length
    · rw [List.getElem?_range hi, List.getElem?_eq_getElem hi]
      exact congrArg some (List.getElem?_eq_getElem hi)
    · rw [Nat.not_lt] at hi
      rw [List.getElem?_eq_none (by rwa [List.length_range]), List.getElem?_eq_none hi]
      rfl
  have hat : ∀ i ∈ List.range visits.length,
      (if first i then visits[i]? else none) = (visits[i]?).filter f := by
    intro i hi
    have hv := List.getElem?_eq_getElem (List.mem_range.1 hi)
    rw [hv, h i _ hv, Option.filter_some]
  calc visitsAt visits ((List.range visits.length).filter first)
      = ((List.range visits.length).map (visits[·]?)).filterMap (Option.filter f) := by
        rw [visitsAt, List.filterMap_filter, List.filterMap_congr hat, List.filterMap_map]
        rfl
    _ = visits.filter f := by
        rw [hall, List.filterMap_map, ← List.filterMap_eq_filter]
        rfl

theorem visitsAt_turnOrder {visits : List Visit}
    (hvisits : visits.map (·.extension) = p.extensions) :
    visitsAt visits p.turnOrder = p.inTurn visits := by
  have hat : ∀ (i : Nat) v, visits[i]? = some v →
      p.extensions[i]?.any p.parsesFirst = p.parsesFirst v.extension := by
    intro i v hv
    rw [← hvisits, List.getElem?_map, hv]
    rfl
  have hlength : p.extensions.length = visits.length := by rw [← hvisits, List.length_map]
  rw [turnOrder, hlength, visitsAt, List.filterMap_append]
  exact congrArg₂ (· ++ ·) (visitsAt_range_filter hat)
    (visitsAt_range_filter fun i v hv => congrArg (!·) (hat i v hv))

/-- A run is one that is watched, with the calls of parsing in an order of its own. -/
theorem run_watch_turnOrder (p : Pipeline) (root : String) (s : Session) :
    ((p.watch root p.turnOrder).run ⟨s, 0, []⟩).1 = ((p.graphOf root).run s).1 ∧
      ((p.watch root p.turnOrder).run ⟨s, 0, []⟩).2.session = ((p.graphOf root).run s).2 := by
  obtain ⟨visits, edges, s', hvisits, s₁, hparses, hlinks⟩ := exists_course p root s
  rw [graphOf_of_calls hvisits hparses hlinks, run_watch_of_calls hvisits p.turnOrder_perm
    ((visitsAt_turnOrder hvisits).symm ▸ hparses) hlinks]
  exact ⟨rfl, rfl⟩

/-! ## Progress -/

theorem filterMap_ticks (total done count : Nat) :
    (ticks total done count).filterMap Notice.progress? =
      (List.range' (done + 1) count).map fun n => (n, total) := by
  rw [ticks, List.filterMap_map, ← List.filterMap_eq_map]
  rfl

theorem filterMap_linkNotices (total i done : Nat) (visits : List Visit) :
    (linkNotices total i done visits).filterMap Notice.progress? =
      (List.range' (done + 1) visits.length).map fun n => (n, total) := by
  induction visits generalizing i done with
  | nil => rfl
  | cons v visits ih =>
    rw [linkNotices, List.filterMap_append, List.filterMap_cons, ih]
    split <;> rfl

theorem progress_eq (p : Pipeline) :
    p.progress = (List.range' 1 p.phases).map fun n => (n, p.phases) := by
  rw [progress, List.range'_eq_map_range, List.map_map]
  refine List.map_congr_left fun n _ => ?_
  rw [Function.comp_apply, Nat.add_comm]
  rfl

/-- What is told of the progress depends on the number of extensions alone, and the first half of it
is told before any linking starts. -/
theorem progress_notices (p : Pipeline) (root : String) (s : Session) {order : List Nat}
    (horder : order.Perm (List.range p.extensions.length)) :
    ∃ before after, ((p.watch root order).run ⟨s, 0, []⟩).2.notices = before ++ after ∧
      (before ++ after).filterMap Notice.progress? = p.progress ∧
      before.filterMap Notice.progress? = p.progress.take p.extensions.length ∧
      ∀ n ∈ before, n.isLinking = false := by
  obtain ⟨visits, edges, s₁, s', hvisits, hparses, hlinks⟩ := p.exists_watched root s horder
  have hlength : p.extensions.length = visits.length := by rw [← hvisits, List.length_map]
  have htotal : p.phases = visits.length + visits.length := by rw [phases, hlength, Nat.two_mul]
  refine ⟨ticks p.phases 0 visits.length,
    linkNotices p.phases 0 visits.length (visits.map Visit.unlinked), ?_, ?_, ?_, ?_⟩
  · rw [run_watch_of_calls hvisits horder hparses hlinks]
  · rw [List.filterMap_append, filterMap_ticks, filterMap_linkNotices, List.length_map,
      ← List.map_append, progress_eq, htotal, Nat.zero_add, Nat.add_comm visits.length 1,
      List.range'_append_1]
  · rw [filterMap_ticks, progress_eq, ← List.map_take, hlength, htotal, ← List.range'_append_1,
      List.take_left' List.length_range']
  · intro n hn
    obtain ⟨k, -, rfl⟩ := List.mem_map.1 hn
    rfl

end Pipeline

end CodeGraph
