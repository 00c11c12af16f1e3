import Milp.Table

/-! Files and folders, found by the text of a path. -/
namespace Milp

/-- What stands at a place. -/
inductive FileNode
  | folder
  | file (content : ByteArray)

/-- Why a path could not be used. -/
inductive FileError
  | notFound
  | isFolder
  | notAFolder
  | notText
  /-- Of a name or of the path as a whole. -/
  | nameTooLong
deriving DecidableEq, Repr

/-- What stands where; a place is the list of names from the root on. The root itself is a folder. -/
structure FileTree where
  nodes : List (List String × FileNode) := []
  /-- The folder that relative paths start from. -/
  home : List String := []

namespace FileTree

def node? (t : FileTree) (place : List String) : Option FileNode :=
  if place.isEmpty then some .folder else t.nodes.lookup place

def put (t : FileTree) (place : List String) (n : FileNode) : FileTree :=
  { t with nodes := (place, n) :: t.nodes.filter (·.1 != place) }

/-- The names in a path; an empty one where two slashes meet, and at a slash that is first or last. -/
def names (path : String) : List String := (path.toList.splitOn '/').map String.ofList

/-- The path of the folder that a path is in. -/
def parent (path : String) : String := "/".intercalate (names path).dropLast

/-- The longest name, in bytes. -/
def nameLimit : Nat := 255

/-- Goes on from a place by one name. -/
def step (here : List String) (name : String) : Except FileError (List String) :=
  if name = "" || name = "." then .ok here
  else if name = ".." then .ok here.dropLast
  else if nameLimit < name.utf8ByteSize then .error .nameTooLong
  else .ok (here ++ [name])

def requireFolder (t : FileTree) (place : List String) : Except FileError Unit :=
  match t.node? place with
  | some .folder => .ok ()
  | some (.file _) => .error .notAFolder
  | none => .error .notFound

/-- The place that names lead to. Only folders can be gone through; the last place need not exist. -/
def follow (t : FileTree) (here : List String) : List String → Except FileError (List String)
  | [] => .ok here
  | name :: rest => do
    t.requireFolder here
    t.follow (← step here name) rest

/-- Where a path starts. -/
def start (t : FileTree) (path : String) : List String := if path.startsWith "/" then [] else t.home

/-- A path has fewer bytes than this. -/
def pathLimit : Nat := 4096

/-- Stops at a path that is too long, whatever it leads to. -/
def requireShort (path : String) : Except FileError Unit :=
  if pathLimit ≤ path.utf8ByteSize then .error .nameTooLong else .ok ()

/-- The place that a path leads to. An empty path leads nowhere. -/
def place (t : FileTree) (path : String) : Except FileError (List String) := do
  if path.isEmpty then throw .notFound
  requireShort path
  t.follow (t.start path) (names path)

/-- What stands at the end of a path, if it leads anywhere. -/
def find? (t : FileTree) (path : String) : Option FileNode := (t.place path).toOption.bind t.node?

def isPresent (t : FileTree) (path : String) : Bool := (t.find? path).isSome

def isFolder (t : FileTree) (path : String) : Bool :=
  match t.find? path with
  | some .folder => true
  | _ => false

/-- The text in a file. -/
def read (t : FileTree) (path : String) : Except FileError String := do
  match t.node? (← t.place path) with
  | none => throw .notFound
  | some .folder => throw .isFolder
  | some (.file content) => match String.fromUTF8? content with
    | some text => return text
    | none => throw .notText

/-- Writes a file into a folder that is there, in place of one of that name. -/
def write (t : FileTree) (path : String) (content : ByteArray) : Except FileError FileTree := do
  let place ← t.place path
  match t.node? place with
  | some .folder => throw .isFolder
  | _ => return t.put place (.file content)

/-- Creates the folders that are missing on a way; those before an error stay. -/
def makeFoldersFrom (t : FileTree) (here : List String) : List String → Except FileError Unit × FileTree
  | [] => (.ok (), t)
  | name :: rest => match step here name with
    | .error e => (.error e, t)
    | .ok next => match t.node? next with
      | some .folder => t.makeFoldersFrom next rest
      | some (.file _) => (.error .notAFolder, t)
      | none => (t.put next .folder).makeFoldersFrom next rest

/-- Creates the folders that are missing on the way of a path. -/
def makeFolders (t : FileTree) (path : String) : Except FileError Unit × FileTree :=
  match requireShort path with
  | .ok () => t.makeFoldersFrom (t.start path) (names path)
  | .error e => (.error e, t)

/-- Removes what is at a place, and everything below it. -/
def remove (t : FileTree) (place : List String) : FileTree :=
  { t with nodes := t.nodes.filter fun n => !place.isPrefixOf n.1 }

/-- The paths of everything below a place, ascending, those of folders with a slash at the end. -/
def listing (t : FileTree) (place : List String) : List String :=
  let below := t.nodes.filter fun n => place.isPrefixOf n.1 && n.1 != place
  let path (n : List String × FileNode) := "/".intercalate n.1 ++ match n.2 with
    | .folder => "/"
    | .file _ => ""
  (below.map path).mergeSort fun a b => !decide (b < a)

theorem lookup_filter_ne {β : Type} {p q : List String} (h : q ≠ p) (es : List (List String × β)) :
    (es.filter (·.1 != p)).lookup q = es.lookup q := by
  induction es with
  | nil => rfl
  | cons e rest ih =>
    by_cases he : e.1 = p
    · simp [he, Table.lookup_cons_ite, ih, h]
    · simp [he, Table.lookup_cons_ite, ih]

/-- What is put at a place stands there, and elsewhere everything is as before. -/
theorem node?_put (t : FileTree) {place : List String} (place' : List String) (n : FileNode) (h : place ≠ []) :
    (t.put place n).node? place' = if place' = place then some n else t.node? place' := by
  by_cases hp : place' = place
  · subst hp
    simp [node?, put, h, Table.lookup_cons_ite]
  · by_cases hr : place' = []
    · subst hr
      simp [node?, hp]
    · simp [node?, put, hp, hr, Table.lookup_cons_ite, lookup_filter_ne hp]

end FileTree
end Milp
