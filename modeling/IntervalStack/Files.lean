import IntervalStack.Path

/-! Access to files, and a tree of files held in memory. -/

namespace IntervalStack

inductive FileError
  | notFound
  | notDirectory
  | isDirectory
  | nameTooLong
  | nulInName
  | other (text : String)
deriving DecidableEq

def FileError.message : FileError → String
  | .notFound => "No such file or directory (os error 2)"
  | .notDirectory => "Not a directory (os error 20)"
  | .isDirectory => "Is a directory (os error 21)"
  | .nameTooLong => "File name too long (os error 36)"
  | .nulInName => "file name contained an unexpected NUL byte"
  | .other text => text

structure FileAccess (m : Type → Type) where
  read : String → m (Except FileError String)
  write : String → String → m (Except FileError Unit)
  isFile : String → m Bool

abbrev FileEntry := Option String

inductive Start
  | root
  | above (levels : Nat)
deriving DecidableEq

def Start.parent : Start → Start
  | .root => .root
  | .above levels => .above (levels + 1)

structure Place where
  start : Start
  names : List String
deriving DecidableEq

namespace Place

def workingDirectory : Place := ⟨.above 0, []⟩

def child (p : Place) (name : String) : Place := ⟨p.start, p.names ++ [name]⟩

def parent (p : Place) : Place :=
  if p.names.isEmpty then ⟨p.start.parent, []⟩ else ⟨p.start, p.names.dropLast⟩

def ancestors (p : Place) : List Place :=
  (List.range p.names.length).map fun n => ⟨p.start, p.names.take n⟩

def ofStart (path : String) : Place :=
  if Path.isAbsolute path then ⟨.root, []⟩ else workingDirectory

end Place

structure FileTree where
  entries : List (Place × FileEntry)

namespace FileTree

def get? (t : FileTree) (place : Place) : Option FileEntry :=
  if place.names.isEmpty then some none else t.entries.lookup place

def put (t : FileTree) (place : Place) (entry : FileEntry) : FileTree :=
  ⟨(place, entry) :: t.entries.filter (·.1 != place)⟩

def add (t : FileTree) (path : String) (entry : FileEntry) : FileTree :=
  let place := ((Path.parts path).filter (!Path.isIdle ·)).foldl Place.child (.ofStart path)
  let t := place.ancestors.foldl
    (fun t a => if (t.get? a).isSome then t else t.put a none) t
  if entry.isNone && (t.get? place).isSome then t else t.put place entry

def isDirectory (t : FileTree) (place : Place) : Bool := t.get? place == some none

def nameLimit : Nat := 255

def pathLimit : Nat := 4096

def walk (t : FileTree) (place : Place) : List String → Except FileError Place
  | [] => .ok place
  | part :: rest =>
    match t.get? place with
    | none => .error .notFound
    | some (some _) => .error .notDirectory
    | some none =>
      if Path.isIdle part then walk t place rest
      else if part == ".." then walk t place.parent rest
      else if nameLimit < part.utf8ByteSize then .error .nameTooLong
      else walk t (place.child part) rest

def checkPath (path : String) : Except FileError Unit :=
  if path.toList.contains '\x00' then .error .nulInName
  else if path == "" then .error .notFound
  else if pathLimit ≤ path.utf8ByteSize then .error .nameTooLong
  else .ok ()

def resolve (t : FileTree) (path : String) : Except FileError Place := do
  checkPath path
  t.walk (.ofStart path) (Path.parts path)

def read (t : FileTree) (path : String) : Except FileError String := do
  match t.get? (← t.resolve path) with
  | none => throw .notFound
  | some none => throw .isDirectory
  | some (some text) => return text

def holderParts (path : String) : List String :=
  ((Path.parts path).reverse.dropWhile (· == "")).tail.reverse ++ ["."]

def write (t : FileTree) (path text : String) : Except FileError FileTree := do
  checkPath path
  if path.toList.getLast? == some '/' then
    let _ ← t.walk (.ofStart path) (holderParts path)
    throw .isDirectory
  else
    let place ← t.walk (.ofStart path) (Path.parts path)
    if t.isDirectory place then throw .isDirectory
    else return t.put place (some text)

def isFile (t : FileTree) (path : String) : Bool :=
  match t.read path with
  | .ok _ => true
  | .error _ => false

def access : FileAccess (StateM FileTree) where
  read path := do return (← get).read path
  write path text := do
    match (← get).write path text with
    | .ok t => do
      set t
      return .ok ()
    | .error e => return .error e
  isFile path := do return (← get).isFile path

end FileTree
end IntervalStack
