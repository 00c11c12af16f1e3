import Milp.Capture
import Milp.FileTree
import Milp.Format
import Milp.Restore

/-! Models in files: a header for each model and a file for each of its groups, all in one folder. -/
namespace Milp

/-- What stands between the model and the group in the name of a group's file. -/
def Kind.fileMark : Kind → String
  | .var => "-VARG-"
  | .constraint => "-CONSTRG-"
  | .constant => "-CONSTANTG-"

/-- A folder for models. -/
structure Store where
  folder : String := "./models/json/"
  /-- How the numbers in the files are read. -/
  reader : Json.NumberReader := .scaling

/-- Why a model was not stored or read. -/
inductive StoreError
  | invalidFolder (path : String)
  | file (path : String) (cause : FileError)
  | decode (path : String) (cause : Json.DecodeError)
  | model (cause : ModelError Float)

namespace Store

variable {η κ β : Type} {A : Adapter Float η κ}

/-- A file name after a folder. A name that starts at the root stands for itself. -/
def join (folder name : String) : String :=
  if name.startsWith "/" then name
  else if folder.isEmpty || folder.endsWith "/" then folder ++ name
  else folder ++ "/" ++ name

def modelPath (s : Store) (model : String) : String := join s.folder (model ++ ".json")

def groupPath (s : Store) (k : Kind) (model group : String) : String :=
  join s.folder (model ++ k.fileMark ++ group ++ ".json")

/-- Work on files, with a journal. What was written before a failure stays. -/
abbrev Export (β : Type) := ExceptT StoreError (StateM (FileTree × List (Event Float))) β

/-- Makes sure that the folder is there. -/
def prepare (s : Store) : Export Unit := do
  let t := (← get).1
  if t.isPresent s.folder then
    unless t.isFolder s.folder do throw (.invalidFolder s.folder)
  else
    let (r, t) := t.makeFolders s.folder
    modify fun w => (t, w.2)
    liftExcept (r.mapError (StoreError.file s.folder))

/-- Writes a value to a file of its own. -/
def put (path : String) (c : Json.Codec β) (x : β) : Export Unit := do
  let t ← liftExcept (((← get).1.write path (c.encodePretty x).toUTF8).mapError (StoreError.file path))
  modify fun w => (t, w.2 ++ [.fileWritten path])

/-- Something of a model, or its error. -/
def ofModel (r : Except (ModelError Float) β) : Export β := liftExcept (r.mapError StoreError.model)

/-- Writes a group with its members. -/
def exportGroup (s : Store) (m : Model A) : (k : Kind) → Group k → Export Unit
  | .var, g => do
    s.prepare
    put (s.groupPath .var m.identifier g.identifier) Format.variableGroup (← ofModel (m.storeVariables g))
  | .constraint, g => do
    s.prepare
    put (s.groupPath .constraint m.identifier g.identifier) Format.constraintGroup (← ofModel (m.storeConstraints g))
  | .constant, g => do
    s.prepare
    put (s.groupPath .constant m.identifier g.identifier) Format.constantGroup (← ofModel (m.storeConstants g))

/-- Writes the groups of a kind in ascending order. -/
def exportGroups (s : Store) (m : Model A) (k : Kind) : Export Unit :=
  (m.groupIds k).forM fun id => do s.exportGroup m k (← ofModel (m.group k id))

/-- Writes a model: its header, and then its groups. -/
def exportModel (s : Store) (m : Model A) : Export Unit := do
  s.prepare
  put (s.modelPath m.identifier) Format.header m.storeHeader
  s.exportGroups m .constant
  s.exportGroups m .var
  s.exportGroups m .constraint
  modify fun w => (w.1, w.2 ++ [.modelExported m.identifier s.folder])

/-- Work on a model out of files. What was declared before a failure stays. -/
abbrev Import (A : Adapter Float η κ) (β : Type) :=
  ExceptT StoreError (StateM (Model A × List (Event Float))) β

def checkFolder (s : Store) (t : FileTree) : Except StoreError Unit :=
  if t.isFolder s.folder then .ok () else .error (.invalidFolder s.folder)

/-- Reads the value in a file. -/
def fetch (s : Store) (t : FileTree) (path : String) (c : Json.Codec β) : Except StoreError β := do
  let text ← (t.read path).mapError (StoreError.file path)
  (c.decodeBy s.reader text).mapError (StoreError.decode path)

/-- Work on the model alone. -/
def edit (e : Edit A β) : Import A β := ExceptT.adapt StoreError.model e

/-- Declares what is stored of a group. -/
def importGroup (s : Store) (t : FileTree) (k : Kind) (id : String) : Import A Unit := do
  liftExcept (s.checkFolder t)
  let path := s.groupPath k (← get).1.identifier id
  match k with
  | .var => edit (Edit.restoreVariables (← liftExcept (s.fetch t path Format.variableGroup)))
  | .constraint => edit (Edit.restoreConstraints (← liftExcept (s.fetch t path Format.constraintGroup)))
  | .constant => edit (Edit.restoreConstants (← liftExcept (s.fetch t path Format.constantGroup)))

/-- Declares what is stored under the model's identifier. -/
def importModel (s : Store) (t : FileTree) : Import A Unit := do
  liftExcept (s.checkFolder t)
  let model := (← get).1.identifier
  let header ← liftExcept (s.fetch t (s.modelPath model) Format.header)
  header.constantGroups.keys.forM (s.importGroup t .constant)
  header.variableGroups.keys.forM (s.importGroup t .var)
  header.constraintGroups.keys.forM (s.importGroup t .constraint)
  edit (Edit.restoreHeader header)
  modify fun w => (w.1, w.2 ++ [.modelImported model s.folder])

end Store

/-- The words for an error of a store; those of a file are the operating system's. -/
def StoreError.message? : StoreError → Option String
  | .invalidFolder path => some ("Invalid folder: " ++ path)
  | .file .. => none
  | .decode _ cause => cause.message?
  | .model cause => some cause.message

end Milp
