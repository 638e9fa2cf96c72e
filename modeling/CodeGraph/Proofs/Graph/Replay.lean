import CodeGraph.Proofs.Graph.Building
import Mathlib.Data.List.Induction

/-!
# Replaying the calls of a builder

A builder may be called in any order: started again before anything has been built, asked for its
nodes in between, called while it is idle. What it builds is told by the calls alone. It is the graph
of a document with the metadata of the last start, the contributors noted since, and the nodes and
edges added since (`replayed`).

* `after_of_idle`, `after_of_openSince`: the state after any calls, told by the calls.
* `same_of_rearranged`: calls that are grouped differently, or in which edges are added later than nodes
  they were added before, have the same results.
* `replays_calls`: what a builder does after any calls.
-/

namespace CodeGraph

/-! ## Calls -/

/-- A call of a builder, one that asks for something included. -/
inductive BuilderCall where
  | change (step : BuilderStep)
  | snapshot
  | build

namespace BuilderCall

def isStart : BuilderCall → Bool
  | .change (.start _) => true
  | _ => false

def isBuild : BuilderCall → Bool
  | .build => true
  | _ => false

/-- Whether a call asks for something. -/
def asks : BuilderCall → Bool
  | .change _ => false
  | .snapshot | .build => true

/-- The nodes that a call adds. -/
def nodes : BuilderCall → List Node
  | .change (.addNode n) => [n]
  | .change (.addNodes l) => l
  | _ => []

/-- The edges that a call adds. -/
def edges : BuilderCall → List Edge
  | .change (.addEdge e) => [e]
  | .change (.addEdges l) => l
  | _ => []

/-- The contributors that a call notes. -/
def names : BuilderCall → List String
  | .change (.recordExtension name) => [name]
  | _ => []

/-- The document that starting with some metadata and then further calls tell. -/
def replayed (m : GraphMetadata) (since : List BuilderCall) : GraphDocument where
  metadata := { m with
    extensionNames :=
      m.extensionNames ++ ((since.flatMap names).removeAll m.extensionNames).eraseDups }
  nodes := since.flatMap nodes
  edges := since.flatMap edges

/-- The last start among some calls had this metadata; nothing has been built since, and `since` are
the calls that came after it. -/
def OpenSince (calls : List BuilderCall) (m : GraphMetadata) (since : List BuilderCall) : Prop :=
  (∃ before, calls = before ++ .change (.start m) :: since) ∧
    ∀ c ∈ since, c.isStart = false ∧ c.isBuild = false

/-- There is no start among some calls, or none after one that builds. -/
def Idle (calls : List BuilderCall) : Prop :=
  (∀ c ∈ calls, c.isStart = false) ∨
    ∃ before since, calls = before ++ .build :: since ∧ ∀ c ∈ since, c.isStart = false

theorem Idle.concat {calls : List BuilderCall} {c : BuilderCall} (h : Idle calls)
    (hc : c.isStart = false) : Idle (calls ++ [c]) := by
  have hadd : ∀ l : List BuilderCall, (∀ c ∈ l, c.isStart = false) →
      ∀ c' ∈ l ++ [c], c'.isStart = false := by
    intro l hl c' hc'
    rcases List.mem_append.1 hc' with hmem | hmem
    · exact hl c' hmem
    · rw [List.mem_singleton.1 hmem]
      exact hc
  rcases h with hnone | ⟨before, since, rfl, hsince⟩
  · exact .inl (hadd calls hnone)
  · exact .inr ⟨before, since ++ [c], by simp, hadd since hsince⟩

theorem OpenSince.concat {calls since : List BuilderCall} {m : GraphMetadata} {c : BuilderCall}
    (h : OpenSince calls m since) (hc : c.isStart = false) (hbuild : c.isBuild = false) :
    OpenSince (calls ++ [c]) m (since ++ [c]) := by
  obtain ⟨⟨before, rfl⟩, hsince⟩ := h
  refine ⟨⟨before, by simp⟩, fun c' hc' => ?_⟩
  rcases List.mem_append.1 hc' with hmem | hmem
  · exact hsince c' hmem
  · rw [List.mem_singleton.1 hmem]
    exact ⟨hc, hbuild⟩

/-- After any calls a builder is idle or open since its last start. -/
theorem idle_or_openSince (calls : List BuilderCall) :
    Idle calls ∨ ∃ m since, OpenSince calls m since := by
  -- The last call decides, unless it neither starts nor builds.
  induction calls using List.reverseRecOn with
  | nil => exact .inl (.inl (by simp))
  | append_singleton calls c ih =>
    cases hstart : c.isStart with
    | true =>
      obtain ⟨m, rfl⟩ : ∃ m, c = .change (.start m) := by
        cases c with
        | change step => cases step <;> first | exact ⟨_, rfl⟩ | cases hstart
        | snapshot => cases hstart
        | build => cases hstart
      exact .inr ⟨m, [], ⟨calls, rfl⟩, by simp⟩
    | false =>
      cases hbuild : c.isBuild with
      | true =>
        obtain rfl : c = .build := by
          cases c with
          | change step => cases hbuild
          | snapshot => cases hbuild
          | build => rfl
        exact .inl (.inr ⟨calls, [], rfl, by simp⟩)
      | false =>
        rcases ih with hidle | ⟨m, since, hopen⟩
        · exact .inl (hidle.concat hstart)
        · exact .inr ⟨m, since ++ [c], hopen.concat hstart hbuild⟩

/-- Calls that differ only in how nodes, and how edges, are grouped, and in that edges come later than
nodes they came before. -/
inductive Rearranged : List BuilderCall → List BuilderCall → Prop
  | refl (a : List BuilderCall) : Rearranged a a
  | symm {a b : List BuilderCall} : Rearranged a b → Rearranged b a
  | trans {a b c : List BuilderCall} : Rearranged a b → Rearranged b c → Rearranged a c
  | append {a a' b b' : List BuilderCall} : Rearranged a a' → Rearranged b b' →
      Rearranged (a ++ b) (a' ++ b')
  | node (n : Node) : Rearranged [.change (.addNode n)] [.change (.addNodes [n])]
  | noNodes : Rearranged [.change (.addNodes [])] []
  | nodes (l l' : List Node) :
      Rearranged [.change (.addNodes l), .change (.addNodes l')] [.change (.addNodes (l ++ l'))]
  | edge (e : Edge) : Rearranged [.change (.addEdge e)] [.change (.addEdges [e])]
  | noEdges : Rearranged [.change (.addEdges [])] []
  | edges (l l' : List Edge) :
      Rearranged [.change (.addEdges l), .change (.addEdges l')] [.change (.addEdges (l ++ l'))]
  | edgesPastNodes (l : List Edge) (l' : List Node) :
      Rearranged [.change (.addEdges l), .change (.addNodes l')]
        [.change (.addNodes l'), .change (.addEdges l)]

end BuilderCall

/-- What a builder answers to a call. -/
inductive BuilderReply where
  | done
  | nodes (m : NameMap Node)
  | built (g : PropertyGraph)
  | refused (e : BuilderError)

namespace GraphBuilder

open BuilderCall (Idle OpenSince Rearranged replayed)

/-- Answers a call. A call that is refused leaves the builder as it is. -/
def call (b : GraphBuilder) : BuilderCall → BuilderReply × GraphBuilder
  | .change step =>
    match b.perform step with
    | .ok b' => (.done, b')
    | .error e => (.refused e, b)
  | .snapshot =>
    match b.snapshot with
    | .ok m => (.nodes m, b)
    | .error e => (.refused e, b)
  | .build =>
    match b.build with
    | .ok (g, b') => (.built g, b')
    | .error e => (.refused e, b)

/-- The builder after calls. -/
def after (b : GraphBuilder) (calls : List BuilderCall) : GraphBuilder :=
  calls.foldl (fun b c => (b.call c).2) b

/-- The answers to those of some calls that ask for something. -/
def answers (b : GraphBuilder) : List BuilderCall → List BuilderReply
  | [] => []
  | c :: rest => (if c.asks then [(b.call c).1] else []) ++ answers (b.call c).2 rest

variable {b : GraphBuilder} {g : PropertyGraph} {calls since : List BuilderCall} {m : GraphMetadata}

theorem after_append (b : GraphBuilder) (calls calls' : List BuilderCall) :
    b.after (calls ++ calls') = (b.after calls).after calls' :=
  List.foldl_append

theorem answers_append (b : GraphBuilder) (calls calls' : List BuilderCall) :
    b.answers (calls ++ calls') = b.answers calls ++ (b.after calls).answers calls' := by
  induction calls generalizing b with
  | nil => rfl
  | cons c calls ih =>
    rw [List.cons_append, answers, answers, ih, List.append_assoc]
    rfl

/-! ## The state after calls -/

/-- An idle builder refuses whatever does not start it. -/
theorem call_new {c : BuilderCall} (hc : c.isStart = false) :
    new.call c = (.refused .idle, new) := by
  cases c with
  | change step =>
    cases step with
    | start m => cases hc
    | addNode | addNodes | addEdge | addEdges | recordExtension => rfl
  | snapshot => rfl
  | build => rfl

theorem after_new (hcalls : ∀ c ∈ calls, c.isStart = false) : new.after calls = new := by
  induction calls with
  | nil => rfl
  | cons c calls ih =>
    rw [after, List.foldl_cons, call_new (hcalls c List.mem_cons_self)]
    exact ih fun c' hc' => hcalls c' (List.mem_cons_of_mem _ hc')

/-- Building leaves an idle builder, whether or not it succeeds. -/
theorem call_build (b : GraphBuilder) : (b.call .build).2 = new := by
  obtain ⟨_ | g⟩ := b <;> rfl

theorem after_of_idle (h : Idle calls) : new.after calls = new := by
  rcases h with hnone | ⟨before, since, rfl, hsince⟩
  · exact after_new hnone
  · rw [after_append, after, List.foldl_cons, call_build]
    exact after_new hsince

/-- A builder with a graph in progress carries out every change to it. -/
theorem call_some (g : PropertyGraph) {c : BuilderCall} (hstart : c.isStart = false)
    (hbuild : c.isBuild = false) :
    (⟨some g⟩ : GraphBuilder).call c = (if c.asks then .nodes g.nodes else .done,
      ⟨some (g.grown c.names c.nodes c.edges)⟩) := by
  cases c with
  | change step =>
    cases step with
    | start m => cases hstart
    | addNode | addNodes | addEdge | addEdges | recordExtension => rfl
  | snapshot => rfl
  | build => cases hbuild

theorem after_some (g : PropertyGraph)
    (hsince : ∀ c ∈ since, c.isStart = false ∧ c.isBuild = false) :
    (⟨some g⟩ : GraphBuilder).after since = ⟨some (g.grown (since.flatMap (·.names))
      (since.flatMap (·.nodes)) (since.flatMap (·.edges)))⟩ := by
  induction since generalizing g with
  | nil => rfl
  | cons c since ih =>
    obtain ⟨hstart, hbuild⟩ := hsince c List.mem_cons_self
    rw [after, List.foldl_cons, call_some g hstart hbuild]
    refine (ih _ fun c' hc' => hsince c' (List.mem_cons_of_mem _ hc')).trans ?_
    rw [PropertyGraph.grown_grown]
    rfl

theorem after_of_openSince (h : OpenSince calls m since) (b : GraphBuilder) :
    b.after calls = ⟨some (.ofDocument (replayed m since))⟩ := by
  obtain ⟨⟨before, rfl⟩, hsince⟩ := h
  have hgrown : (PropertyGraph.new m).grown (since.flatMap (·.names)) (since.flatMap (·.nodes))
      (since.flatMap (·.edges)) = .ofDocument (replayed m since) := by
    refine (grown_ofDocument ⟨m, [], []⟩ _ _ _).trans ?_
    rw [GraphMetadata.recordAll_eq]
    rfl
  rw [after_append, after, List.foldl_cons, ← hgrown]
  exact after_some (.new m) hsince

/-! ## Rearranged calls -/

/-- Calls that change the graph in progress, if there is one, have no answers. -/
theorem answers_changes (b : GraphBuilder) (steps : List BuilderStep) :
    b.answers (steps.map .change) = [] := by
  induction steps generalizing b with
  | nil => rfl
  | cons step steps ih => exact ih (b.call (.change step)).2

/-- Changes that let a graph grow in the same way have the same result. -/
theorem changes_same (steps steps' : List BuilderStep) (b : GraphBuilder)
    (hstart : ∀ step ∈ steps ++ steps', (BuilderCall.change step).isStart = false)
    (hnames : (steps.map BuilderCall.change).flatMap (·.names) =
      (steps'.map BuilderCall.change).flatMap (·.names))
    (hnodes : (steps.map BuilderCall.change).flatMap (·.nodes) =
      (steps'.map BuilderCall.change).flatMap (·.nodes))
    (hedges : (steps.map BuilderCall.change).flatMap (·.edges) =
      (steps'.map BuilderCall.change).flatMap (·.edges)) :
    b.after (steps.map .change) = b.after (steps'.map .change) ∧
      b.answers (steps.map .change) = b.answers (steps'.map .change) := by
  refine ⟨?_, (answers_changes b _).trans (answers_changes b _).symm⟩
  have hkind : ∀ l : List BuilderStep, (∀ step ∈ l, step ∈ steps ++ steps') →
      ∀ c ∈ l.map BuilderCall.change, c.isStart = false ∧ c.isBuild = false := by
    intro l hl c hc
    obtain ⟨step, hstep, rfl⟩ := List.mem_map.1 hc
    exact ⟨hstart step (hl step hstep), rfl⟩
  have hfirst := hkind steps fun _ => List.mem_append_left _
  have hsecond := hkind steps' fun _ => List.mem_append_right _
  obtain ⟨_ | g⟩ := b
  · exact (after_new fun c hc => (hfirst c hc).1).trans
      (after_new fun c hc => (hsecond c hc).1).symm
  · rw [after_some g hfirst, after_some g hsecond, hnames, hnodes, hedges]

/-- Rearranged calls have the same answers and leave the same builder. -/
theorem same_of_rearranged {a a' : List BuilderCall} (h : Rearranged a a') (b : GraphBuilder) :
    b.after a = b.after a' ∧ b.answers a = b.answers a' := by
  induction h generalizing b with
  | refl => exact ⟨rfl, rfl⟩
  | symm _ ih => exact ⟨(ih b).1.symm, (ih b).2.symm⟩
  | trans _ _ ih ih' => exact ⟨(ih b).1.trans (ih' b).1, (ih b).2.trans (ih' b).2⟩
  | append _ _ ih ih' =>
    simp only [after_append, answers_append, (ih b).1, (ih b).2, (ih' _).1, (ih' _).2, and_self]
  | node n =>
    exact changes_same [.addNode n] [.addNodes [n]] b (by simp [BuilderCall.isStart]) rfl rfl rfl
  | noNodes => exact changes_same [.addNodes []] [] b (by simp [BuilderCall.isStart]) rfl rfl rfl
  | nodes l l' =>
    exact changes_same [.addNodes l, .addNodes l'] [.addNodes (l ++ l')] b
      (by simp [BuilderCall.isStart]) rfl (by simp [BuilderCall.nodes]) rfl
  | edge e =>
    exact changes_same [.addEdge e] [.addEdges [e]] b (by simp [BuilderCall.isStart]) rfl rfl rfl
  | noEdges => exact changes_same [.addEdges []] [] b (by simp [BuilderCall.isStart]) rfl rfl rfl
  | edges l l' =>
    exact changes_same [.addEdges l, .addEdges l'] [.addEdges (l ++ l')] b
      (by simp [BuilderCall.isStart]) rfl rfl (by simp [BuilderCall.edges])
  | edgesPastNodes l l' =>
    exact changes_same [.addEdges l, .addNodes l'] [.addNodes l', .addEdges l] b
      (by simp [BuilderCall.isStart]) rfl (by simp [BuilderCall.nodes])
      (by simp [BuilderCall.edges])

/-! ## Replaying -/

/-- **What a builder does is told by the calls.** After any calls it is idle or open since its last
start. While it is idle it refuses whatever does not start it and stays idle. While it is open it
builds the graph of the document that the calls since that start tell, and is idle then; asked for
its nodes it gives those of that document, the last one of each identifier; it carries out every
change. Calls that are arranged differently have the same answers and leave the same builder, and
later calls change no earlier answer. -/
theorem replays_calls (calls : List BuilderCall) :
    (Idle calls ∨ ∃ m since, OpenSince calls m since) ∧
    (Idle calls → new.after calls = new ∧
      ∀ c, c.isStart = false → (new.after calls).call c = (.refused .idle, new)) ∧
    (∀ m since, OpenSince calls m since →
      (new.after calls).call .build = (.built (.ofDocument (replayed m since)), new) ∧
      (new.after calls).call .snapshot =
        (.nodes (.ofList ((replayed m since).nodes.map fun n => (n.id, n))), new.after calls) ∧
      ∀ step, ((new.after calls).call (.change step)).1 = .done) ∧
    (∀ calls', Rearranged calls calls' →
      new.after calls = new.after calls' ∧ new.answers calls = new.answers calls') ∧
    ∀ later, new.answers calls <+: new.answers (calls ++ later) := by
  refine ⟨BuilderCall.idle_or_openSince calls, fun hidle => ?_, fun m since hopen => ?_,
    fun calls' h => same_of_rearranged h new, fun later => ?_⟩
  · rw [after_of_idle hidle]
    exact ⟨rfl, fun c hc => call_new hc⟩
  · rw [after_of_openSince hopen new]
    have hnodes := PropertyGraph.nodes_ofDocument (replayed m since)
    refine ⟨rfl, congrArg (fun nodes => (BuilderReply.nodes nodes, _)) hnodes, fun step => ?_⟩
    cases step <;> rfl
  · rw [answers_append]
    exact List.prefix_append ..

/-- Calls before the first start, a start that drops what came before, an edge before its nodes, a
node given twice, and contributors noted twice. -/
def restartedCalls : List BuilderCall :=
  [.change (.addNode { id := "early", type := .file, name := "early" }),
    .change (.start (.new "/srv" 1)),
    .change (.addNode { id := "dropped", type := .file, name := "dropped" }),
    .change (.start { GraphMetadata.new "/srv" 2 with extensionNames := ["files"] }),
    .change (.addEdge { id := "e", type := .imports, source := "a", target := "b" }),
    .change (.addNodes [{ id := "a", type := .file, name := "first" },
      { id := "b", type := .file, name := "b" }]),
    .snapshot,
    .change (.addNode { id := "a", type := .file, name := "second" }),
    .change (.recordExtension "links"), .change (.recordExtension "files"),
    .change (.recordExtension "links")]

/-- The document that the calls of `restartedCalls` after the second start tell. -/
def restartedDocument : GraphDocument where
  metadata := { GraphMetadata.new "/srv" 2 with extensionNames := ["files", "links"] }
  nodes := [{ id := "a", type := .file, name := "first" }, { id := "b", type := .file, name := "b" },
    { id := "a", type := .file, name := "second" }]
  edges := [{ id := "e", type := .imports, source := "a", target := "b" }]

theorem replays_calls_restarted :
    (new.after restartedCalls).call .build = (.built (.ofDocument restartedDocument), new) ∧
    new.call .build = (.refused .idle, new) ∧
    (new.after (restartedCalls ++ [.build])).call .snapshot = (.refused .idle, new) ∧
    new.answers (restartedCalls ++ [.change (.addNodes []), .build]) =
      new.answers (restartedCalls ++ [.build]) := by
  obtain ⟨m, hm⟩ : ∃ m, m = { GraphMetadata.new "/srv" 2 with extensionNames := ["files"] } :=
    ⟨_, rfl⟩
  have hopen : OpenSince restartedCalls m (restartedCalls.drop 4) := by
    refine ⟨⟨restartedCalls.take 3, by rw [hm]; rfl⟩, ?_⟩
    simp [restartedCalls, BuilderCall.isStart, BuilderCall.isBuild]
  have hdocument : replayed m (restartedCalls.drop 4) = restartedDocument := by
    rw [hm]
    rfl
  have hbuilt : Idle (restartedCalls ++ [.build]) := .inr ⟨restartedCalls, [], rfl, by simp⟩
  have hnone : Rearranged ([.change (.addNodes [])] ++ [.build]) ([] ++ [.build]) :=
    .append .noNodes (.refl _)
  have hgroup : Rearranged (restartedCalls ++ [.change (.addNodes []), .build])
      (restartedCalls ++ [.build]) := .append (.refl _) hnone
  refine ⟨?_, ((replays_calls []).2.1 (.inl (by simp))).2 _ rfl,
    ((replays_calls _).2.1 hbuilt).2 _ rfl, ((replays_calls _).2.2.2.1 _ hgroup).2⟩
  rw [← hdocument]
  exact ((replays_calls _).2.2.1 _ _ hopen).1

end GraphBuilder

end CodeGraph
