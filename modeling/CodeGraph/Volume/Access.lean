import CodeGraph.Volume.Basic

/-!
# Access to a volume

A program that works on files is a state transformer of a `Drive`: a volume, and what is going to
go wrong. Each operation of the program takes the next entry of the list of faults; a fault makes
the operation fail without changing the volume, except that a failing write may leave the first
bytes behind. With no faults left every operation runs as the volume answers it.

A process that stops in the middle of its work is a drive on which every operation from some point
on fails: the volume stays as it was left.
-/

namespace CodeGraph

/-- How an operation is made to fail. -/
structure Fault where
  error : OsError
  /-- How many bytes a write leaves behind; without a number it leaves the volume as it is. -/
  written : Option Nat := none
  deriving DecidableEq, Repr

/-- A volume and the faults of the coming operations. -/
structure Drive where
  volume : Volume
  faults : List (Option Fault) := []
  deriving Inhabited

/-- Programs that work on files. -/
abbrev FileM := StateM Drive

namespace FileM

/-- The fault of the next operation. -/
def nextFault : FileM (Option Fault) := fun d =>
  (d.faults.head?.join, { d with faults := d.faults.tail })

def reading {α : Type} (op : Volume → Except OsError α) : FileM (Except OsError α) := do
  match ← nextFault with
  | some f => return .error f.error
  | none => return op (← get).volume

/-- An operation that changes the volume; `torn` is what it leaves behind when a fault leaves bytes
behind, and `short` when it fails by itself. -/
def writing (op : Volume → Except OsError Volume) (torn : Nat → Volume → Volume := fun _ v => v)
    (short : Volume → Volume := fun v => v) : FileM (Except OsError Unit) := do
  match ← nextFault with
  | some f =>
    modify fun d => { d with volume := (f.written.map fun n => torn n d.volume).getD d.volume }
    return .error f.error
  | none =>
    let d ← get
    match op d.volume with
    | .ok v =>
      set { d with volume := v }
      return .ok ()
    | .error e =>
      set { d with volume := short d.volume }
      return .error e

def readFile (p : String) : FileM (Except OsError ByteArray) :=
  reading (·.readFile p)

/-- The contents of a file of text. -/
def readText (p : String) : FileM (Except OsError String) :=
  reading (·.readText p)

def readDir (p : String) : FileM (Except OsError (List String)) :=
  reading (·.readDir p)

/-- Whether a path leads to something; only its absence means no. -/
def tryExists (p : String) : FileM (Except OsError Bool) :=
  reading (·.tryExists p)

/-- Creates a file or replaces its contents. -/
def writeFile (p : String) (content : ByteArray) : FileM (Except OsError Unit) :=
  writing (·.writeFile p content) fun n v =>
    (v.writeFile p (content.extract 0 n)).toOption.getD v

/-- Creates a directory and those above it that are missing. -/
def makeDirs (p : String) : FileM (Except OsError Unit) :=
  writing (·.makeDirs p) (fun _ v => v) (·.dirsLeft p)

/-- Takes away a file or a link. -/
def removeFile (p : String) : FileM (Except OsError Unit) :=
  writing (·.removeFile p)

/-- Takes away a directory and all below. -/
def removeTree (p : String) : FileM (Except OsError Unit) :=
  writing (·.removeTree p)

/-- Moves a file to another path. -/
def rename (source target : String) : FileM (Except OsError Unit) :=
  writing (·.rename source target)

end FileM

end CodeGraph
