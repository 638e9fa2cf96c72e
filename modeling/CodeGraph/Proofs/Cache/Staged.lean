import CodeGraph.Proofs.Cache.Programs

/-!
# Programs that others may come between

An operation of the disk layer is carried out in steps, and another program on the same disk layer may
come between two of them. `Staged` is such a program, its next step ahead. A step is one operation on
files, or a change of the index that is made under its lock.

The lookup and the store are written once more with their steps (`Staged.get`, `Staged.set`). When
nothing comes between, they do what the operations do (`Staged.carries_get`, `Staged.carries_set`), and
a program that has been halted goes on to the same end (`Staged.run_advance`). What each step of two
programs keeps is kept whichever of them takes the next one (`Staged.Keeps`).
-/

namespace CodeGraph.Cache

/-- A program on a disk layer that others may come between the steps of. -/
inductive Staged (α : Type) where
  /-- The program has ended. -/
  | done (r : Except CacheError α)
  /-- What the next step makes of the disk layer, and what is left of the program after it. -/
  | step (change : DiskState → DiskState) (rest : DiskState → Staged α)

namespace Staged

variable {α β : Type}

def bind : Staged α → (α → Staged β) → Staged β
  | .done (.ok a), f => f a
  | .done (.error e), _ => .done (.error e)
  | .step change rest, f => .step change fun s => (rest s).bind f

instance : Monad Staged where
  pure a := .done (.ok a)
  bind := bind

/-- Goes on after an error. -/
def handle : Staged α → (CacheError → Staged α) → Staged α
  | .done (.ok a), _ => .done (.ok a)
  | .done (.error e), f => f e
  | .step change rest, f => .step change fun s => (rest s).handle f

/-- An operation that nothing comes into. -/
def piece (op : DiskM α) : Staged α :=
  .step (fun s => (op.run.run s).2) fun s => .done (op.run.run s).1

/-- Runs a program to its end, with nothing between its steps. -/
def run : Staged α → DiskState → Except CacheError α × DiskState
  | .done r, s => (r, s)
  | .step change rest, s => (rest s).run (change s)

/-- Takes the next step of a program. -/
def advance : Staged α → DiskState → Staged α × DiskState
  | .done r, s => (.done r, s)
  | .step change rest, s => (rest s, change s)

/-- A program that has been halted goes on to the end that it was on the way to. -/
theorem run_advance (p : Staged α) (s : DiskState) :
    (p.advance s).1.run (p.advance s).2 = p.run s := by
  cases p <;> rfl

theorem advance_piece_bind {op : DiskM α} {a : α} {s s' : DiskState}
    (hrun : op.run.run s = (.ok a, s')) (f : α → Staged β) :
    (piece op >>= f).advance s = (f a, s') := by
  change (Staged.bind (.done (op.run.run s).1) f, (op.run.run s).2) = _
  rw [hrun]
  rfl

theorem run_bind (p : Staged α) (f : α → Staged β) (s : DiskState) :
    (p >>= f).run s =
      match p.run s with
      | (.ok a, s') => (f a).run s'
      | (.error e, s') => (.error e, s') := by
  change (p.bind f).run s = _
  induction p generalizing s with
  | done r => cases r <;> rfl
  | step change rest ih => exact ih s (change s)

theorem run_handle (p : Staged α) (f : CacheError → Staged α) (s : DiskState) :
    (p.handle f).run s =
      match p.run s with
      | (.ok a, s') => (.ok a, s')
      | (.error e, s') => (f e).run s' := by
  induction p generalizing s with
  | done r => cases r <;> rfl
  | step change rest ih => exact ih s (change s)

/-! ## Programs and operations -/

/-- The steps of a program do what an operation does. -/
def Carries (p : Staged α) (op : DiskM α) : Prop :=
  ∀ s, p.run s = op.run.run s

theorem carries_piece (op : DiskM α) : Carries (piece op) op :=
  fun _ => rfl

theorem carries_pure (a : α) : Carries (pure a) (pure a) :=
  fun _ => rfl

theorem carries_throw (e : CacheError) : Carries (.done (.error e) : Staged α) (throw e) :=
  fun _ => rfl

theorem Carries.congr {p : Staged α} {op op' : DiskM α} (h : Carries p op) (hsame : op = op') :
    Carries p op' :=
  hsame ▸ h

theorem Carries.bind {p : Staged α} {op : DiskM α} {f : α → Staged β} {g : α → DiskM β}
    (hp : Carries p op) (hf : ∀ a, Carries (f a) (g a)) : Carries (p >>= f) (op >>= g) := by
  intro s
  rw [run_bind, hp s, CodeGraph.run_bind]
  rcases op.run.run s with ⟨_ | a, s'⟩
  · rfl
  · exact hf a s'

theorem Carries.handle {p : Staged α} {op : DiskM α} {f : CacheError → Staged α}
    {g : CacheError → DiskM α} (hp : Carries p op) (hf : ∀ e, Carries (f e) (g e)) :
    Carries (p.handle f) (tryCatch op g) := by
  intro s
  rw [run_handle, hp s, run_tryCatch]
  rcases op.run.run s with ⟨e | _, s'⟩
  · exact hf e s'
  · rfl

theorem Carries.ite {c : Prop} [Decidable c] {p q : Staged α} {op op' : DiskM α}
    (hp : Carries p op) (hq : Carries q op') :
    Carries (if c then p else q) (if c then op else op') := by
  split
  · exact hp
  · exact hq

/-! ## Programs that keep something -/

/-- Whether each step of a program leads from any state such as `I` says to another one, whatever others
have done of this kind before it, and the program answers such as `Q` says. -/
def Keeps (I : DiskState → Prop) (Q : α → Prop) : Staged α → Prop
  | .done (.ok a) => Q a
  | .done (.error _) => True
  | .step change rest => ∀ s, I s → I (change s) ∧ (rest s).Keeps I Q

section Keeps

variable {I : DiskState → Prop} {Q : α → Prop} {R : β → Prop} {p : Staged α} {s : DiskState}

theorem keeps_pure {a : α} (h : Q a) : Keeps I Q (pure a) :=
  h

theorem keeps_throw {e : CacheError} : Keeps I Q (.done (.error e)) :=
  trivial

theorem keeps_piece {op : DiskM α} (h : Ends I op (fun a s => Q a ∧ I s) fun _ => I) :
    Keeps I Q (piece op) := by
  intro s hs
  change I (op.run.run s).2 ∧ Keeps I Q (.done (op.run.run s).1)
  rcases hrun : op.run.run s with ⟨e | a, s'⟩
  · exact ⟨h.of_error hs hrun, trivial⟩
  · obtain ⟨ha, hs'⟩ := h.of_ok hs hrun
    exact ⟨hs', ha⟩

theorem Keeps.bind {f : α → Staged β} (hp : Keeps I Q p) (hf : ∀ a, Q a → Keeps I R (f a)) :
    Keeps I R (p >>= f) := by
  change Keeps I R (p.bind f)
  induction p with
  | done r =>
    cases r with
    | error e => exact trivial
    | ok a => exact hf a hp
  | step change rest ih => exact fun s hs => ⟨(hp s hs).1, ih s (hp s hs).2⟩

theorem Keeps.handle {f : CacheError → Staged α} (hp : Keeps I Q p) (hf : ∀ e, Keeps I Q (f e)) :
    Keeps I Q (p.handle f) := by
  induction p with
  | done r =>
    cases r with
    | error e => exact hf e
    | ok a => exact hp
  | step change rest ih => exact fun s hs => ⟨(hp s hs).1, ih s (hp s hs).2⟩

theorem Keeps.advance (h : Keeps I Q p) (hs : I s) :
    I (p.advance s).2 ∧ (p.advance s).1.Keeps I Q := by
  cases p with
  | done r => exact ⟨hs, h⟩
  | step change rest => exact h s hs

theorem Keeps.run (h : Keeps I Q p) (hs : I s) :
    I (p.run s).2 ∧ ∀ a, (p.run s).1 = .ok a → Q a := by
  induction p generalizing s with
  | done r =>
    refine ⟨hs, fun a ha => ?_⟩
    obtain rfl : r = .ok a := ha
    exact h
  | step change rest ih => exact ih s (h s hs).2 (h s hs).1

end Keeps

/-! ## Taking away -/

/-- Takes away a file of an entry if it is there. -/
def removeFile (digest ending : String) : Staged Unit :=
  piece (do DiskCache.removeIfPresent (← DiskCache.entryPathM digest ending))

def removeFiles (digest : String) : Staged Unit := do
  removeFile digest DiskCache.valueEnding
  removeFile digest DiskCache.sidecarEnding

def removeDigest (digest : String) : Staged Unit := do
  piece (DiskM.modifyIndex (·.remove digest))
  removeFiles digest

theorem carries_removeFiles (digest : String) :
    Carries (removeFiles digest) (DiskCache.removeFiles digest) := by
  rw [DiskCache.removeFiles, ← bind_assoc]
  exact (carries_piece _).bind fun _ => carries_piece _

theorem carries_removeDigest (digest : String) :
    Carries (removeDigest digest) (DiskCache.removeDigest digest) :=
  (carries_piece _).bind fun _ => carries_removeFiles digest

/-! ## Looking a value up -/

/-- The content of the value file of a digest; there is none if the file is missing. -/
def valueOf (digest : String) : DiskM (Option ByteArray) := do
  let path ← DiskCache.entryPathM digest DiskCache.valueEnding
  match ← DiskM.files (FileM.readFile path) with
  | .ok bytes => return some bytes
  | .error .notFound => return none
  | .error e => throw (.io path e)

/-- What is left of a lookup that has found the sidecar of its key: an entry without a value is taken
away. -/
def getValue (key : String) : Staged (Option ByteArray) := do
  match ← piece (valueOf (keyDigest key)) with
  | some bytes => return some bytes
  | none => do
    removeDigest (keyDigest key)
    return none

/-- The steps of a lookup. -/
def get (key : String) : Staged (Option ByteArray) := do
  match ← piece (do
    DiskCache.readSidecar (← DiskCache.entryPathM (keyDigest key) DiskCache.sidecarEnding)) with
  | .missing => return none
  | .corrupt => do
    removeDigest (keyDigest key)
    return none
  | .found m =>
    if m.version ≠ Sidecar.currentVersion then do
      removeDigest (keyDigest key)
      return none
    else if m.key ≠ key then return none
    else getValue key

/-- The end of a lookup that takes its entry away. -/
theorem carries_gone (digest : String) :
    Carries (do removeDigest digest; return none)
      (do DiskCache.removeDigest digest; return none : DiskM (Option ByteArray)) :=
  (carries_removeDigest digest).bind fun _ => carries_pure _

theorem carries_getValue (key : String) : Carries (getValue key) (do
    let path ← DiskCache.entryPathM (keyDigest key) DiskCache.valueEnding
    match ← DiskM.files (FileM.readFile path) with
    | .ok bytes => return some bytes
    | .error .notFound => do
      DiskCache.removeDigest (keyDigest key)
      return none
    | .error e => throw (.io path e)) := by
  have hvalue : Carries (getValue key) (do
      match ← valueOf (keyDigest key) with
      | some bytes => return some bytes
      | none => do
        DiskCache.removeDigest (keyDigest key)
        return none) := by
    refine (carries_piece _).bind fun found => ?_
    cases found with
    | none => exact carries_gone _
    | some bytes => exact carries_pure _
  refine hvalue.congr ?_
  simp only [valueOf, bind_assoc]
  refine bind_congr fun path => bind_congr fun found => ?_
  rcases found with e | bytes
  · cases e <;> rfl
  · rfl

theorem carries_get (key : String) : Carries (get key) (DiskCache.get key) := by
  rw [DiskCache.get, ← bind_assoc]
  refine (carries_piece _).bind fun found => ?_
  cases found with
  | missing => exact carries_pure _
  | corrupt => exact carries_gone _
  | found m =>
    exact .ite (carries_gone _) (.ite (carries_pure _) (carries_getValue key))

/-! ## The index -/

def scanName (path : String) (all : List String) (name : String) :
    Staged (List (String × IndexedEntry)) :=
  if (DiskCache.withoutEnding? DiskCache.unfinishedEnding name).isSome then do
    piece (DiskCache.removeIfPresent (Path.join path name))
    return []
  else
    match DiskCache.withoutEnding? DiskCache.sidecarEnding name with
    | some digest => do
      match ← piece (DiskCache.readSidecar (Path.join path name)) with
      | .missing => return []
      | .found m =>
        if m.version = Sidecar.currentVersion then return [(digest, m.indexed)]
        else do
          removeFiles digest
          return []
      | .corrupt => do
        removeFiles digest
        return []
    | none =>
      match DiskCache.withoutEnding? DiskCache.valueEnding name with
      | some digest =>
        if all.contains (digest ++ DiskCache.sidecarEnding) then return []
        else do
          piece (DiskCache.removeIfPresent (Path.join path name))
          return []
      | none => return []

def scanNames (path : String) (all : List String) :
    List String → Staged (List (String × IndexedEntry))
  | [] => return []
  | name :: rest => do
    let here ← scanName path all name
    return here ++ (← scanNames path all rest)

def scanShard (path : String) : Staged (List (String × IndexedEntry)) := do
  let kind ← piece (DiskM.file path (FileM.reading (·.linkMetadata path)))
  if kind.isDirectory then do
    let names ← piece (DiskM.file path (FileM.readDir path))
    scanNames path names names
  else return []

def scanShards (directory : String) : List String → Staged (List (String × IndexedEntry))
  | [] => return []
  | name :: rest => do
    let here ← scanShard (Path.join directory name)
    return here ++ (← scanShards directory rest)

def scan : Staged (List (String × IndexedEntry)) := do
  let directory := (← piece MonadState.get).cache.directory
  match ← piece (DiskM.files (FileM.readDir directory)) with
  | .ok names => scanShards directory names
  | .error .notFound => return []
  | .error e => .done (.error (.io directory e))

/-- The steps in which the index is made. -/
def ensureIndex : Staged Unit := do
  if !(← piece MonadState.get).cache.seeded then
    match DiskIndex.ofList? (← scan) with
    | none => .done (.error .overflow)
    | some index =>
      piece (modify fun s => { s with cache := { s.cache with index, seeded := true } })

theorem carries_scanName (path : String) (all : List String) (name : String) :
    Carries (scanName path all name) (DiskCache.scanName path all name) := by
  have hremove : ∀ path, Carries
      (do piece (DiskCache.removeIfPresent path); return ([] : List (String × IndexedEntry)))
      (do DiskCache.removeIfPresent path; return []) := fun path =>
    (carries_piece _).bind fun _ => carries_pure _
  have hgone : ∀ digest, Carries
      (do removeFiles digest; return ([] : List (String × IndexedEntry)))
      (do DiskCache.removeFiles digest; return []) := fun digest =>
    (carries_removeFiles digest).bind fun _ => carries_pure _
  rw [scanName, DiskCache.scanName]
  by_cases hunfinished : (DiskCache.withoutEnding? DiskCache.unfinishedEnding name).isSome
  · rw [if_pos hunfinished, if_pos hunfinished]
    exact hremove _
  rw [if_neg hunfinished, if_neg hunfinished]
  rcases DiskCache.withoutEnding? DiskCache.sidecarEnding name with _ | digest
  · rcases DiskCache.withoutEnding? DiskCache.valueEnding name with _ | digest
    · exact carries_pure _
    · exact .ite (carries_pure _) (hremove _)
  · refine (carries_piece _).bind fun found => ?_
    cases found with
    | missing => exact carries_pure _
    | corrupt => exact hgone _
    | found m => exact .ite (carries_pure _) (hgone _)

theorem carries_scanNames (path : String) (all names : List String) :
    Carries (scanNames path all names) (DiskCache.scanNames path all names) := by
  induction names with
  | nil => exact carries_pure _
  | cons name names ih =>
    exact (carries_scanName path all name).bind fun _ => ih.bind fun _ => carries_pure _

theorem carries_scanShard (path : String) :
    Carries (scanShard path) (DiskCache.scanShard path) := by
  exact (carries_piece _).bind fun kind =>
    .ite ((carries_piece _).bind fun names => carries_scanNames path names names) (carries_pure _)

theorem carries_scanShards (directory : String) (names : List String) :
    Carries (scanShards directory names) (DiskCache.scanShards directory names) := by
  induction names with
  | nil => exact carries_pure _
  | cons name names ih =>
    exact (carries_scanShard _).bind fun _ => ih.bind fun _ => carries_pure _

theorem carries_scan : Carries scan DiskCache.scan := by
  refine (carries_piece MonadState.get).bind fun s => ?_
  refine (carries_piece _).bind fun names => ?_
  rcases names with e | names
  · cases e <;> first | exact carries_pure _ | exact carries_throw _
  · exact carries_scanShards _ _

theorem carries_ensureIndex : Carries ensureIndex DiskCache.ensureIndex := by
  refine (carries_piece MonadState.get).bind fun s => .ite (carries_scan.bind fun entries => ?_)
    (carries_pure _)
  rcases DiskIndex.ofList? entries with _ | index
  · exact carries_throw _
  · exact carries_piece _

/-! ## Storing -/

def writeWhole (path : String) (content : ByteArray) : Staged Unit := do
  let unfinished := path ++ DiskCache.unfinishedEnding
  piece (DiskM.file unfinished (FileM.writeFile unfinished content))
  piece (DiskM.file path (FileM.rename unfinished path))

def writeEntry (digest : String) (content : ByteArray) (m : Sidecar) : Staged Unit := do
  piece (do
    let shard := Path.join (← MonadState.get).cache.directory ((DiskCache.shard? digest).getD "")
    DiskM.file shard (FileM.makeDirs shard))
  writeWhole (← piece (DiskCache.entryPathM digest DiskCache.valueEnding)) content
  writeWhole (← piece (DiskCache.entryPathM digest DiskCache.sidecarEnding)) m.encode

def removeVictims : List (String × IndexedEntry) → Staged Unit
  | [] => return
  | v :: rest => do
    removeFiles v.1
    removeVictims rest

/-- Makes room in the index, under its lock, and answers the entries that must go for it. -/
def reserve (now : UInt64) (key : String) (size : UInt64) : DiskM (List (String × IndexedEntry)) := do
  let s ← MonadState.get
  match s.cache.index.reserve (keyDigest key) ⟨key, now, size⟩ s.cache.maxSize with
  | none => do
    DiskM.modifyIndex (·.remove (keyDigest key))
    throw .overflow
  | some (victims, index) => do
    DiskM.modifyIndex fun _ => index
    return victims

/-- The steps of a store. -/
def set (now : UInt64) (key : String) (content : ByteArray) : Staged Bool := do
  let size := UInt64.ofNat content.size
  if (← piece MonadState.get).cache.maxSize < size then return false
  else do
    ensureIndex
    let victims ← piece (reserve now key size)
    removeVictims victims
    (writeEntry (keyDigest key) content ⟨key, now, size, Sidecar.currentVersion⟩).handle fun e => do
      piece (DiskM.modifyIndex (·.remove (keyDigest key)))
      .done (.error e)
    return true

theorem carries_writeWhole (path : String) (content : ByteArray) :
    Carries (writeWhole path content) (DiskCache.writeWhole path content) :=
  (carries_piece _).bind fun _ => carries_piece _

theorem carries_writeEntry (digest : String) (content : ByteArray) (m : Sidecar) :
    Carries (writeEntry digest content m) (DiskCache.writeEntry digest content m) := by
  rw [DiskCache.writeEntry, ← bind_assoc]
  exact (carries_piece _).bind fun _ => (carries_piece _).bind fun _ =>
    (carries_writeWhole _ _).bind fun _ => (carries_piece _).bind fun _ => carries_writeWhole _ _

theorem carries_removeVictims (victims : List (String × IndexedEntry)) :
    Carries (removeVictims victims) (DiskCache.removeVictims victims) := by
  induction victims with
  | nil => exact carries_pure _
  | cons v victims ih => exact (carries_removeFiles v.1).bind fun _ => ih

theorem carries_set (now : UInt64) (key : String) (content : ByteArray) :
    Carries (set now key content) (DiskCache.set now key content) := by
  have hwrite : ∀ victims : List (String × IndexedEntry), Carries (do
      removeVictims victims
      (writeEntry (keyDigest key) content
        ⟨key, now, UInt64.ofNat content.size, Sidecar.currentVersion⟩).handle fun e => do
          piece (DiskM.modifyIndex (·.remove (keyDigest key)))
          .done (.error e)
      return true) (do
      DiskCache.removeVictims victims
      tryCatch (DiskCache.writeEntry (keyDigest key) content
        ⟨key, now, UInt64.ofNat content.size, Sidecar.currentVersion⟩) fun e => do
          DiskM.modifyIndex (·.remove (keyDigest key))
          throw e
      return true) := fun victims =>
    (carries_removeVictims victims).bind fun _ =>
      ((carries_writeEntry _ _ _).handle fun _ =>
        (carries_piece _).bind fun _ => carries_throw _).bind fun _ => carries_pure _
  refine (carries_piece MonadState.get).bind fun s => .ite (carries_pure _)
    (carries_ensureIndex.bind fun _ => ?_)
  refine ((carries_piece (reserve now key (UInt64.ofNat content.size))).bind hwrite).congr ?_
  rw [reserve, bind_assoc]
  refine bind_congr fun s => ?_
  rcases s.cache.index.reserve (keyDigest key) ⟨key, now, UInt64.ofNat content.size⟩
    s.cache.maxSize with _ | ⟨victims, index⟩
  · rfl
  · rfl

end Staged

end CodeGraph.Cache
