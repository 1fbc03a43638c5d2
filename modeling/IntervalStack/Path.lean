import IntervalStack.Text.Blank

/-! Paths as texts with slashes. Empty parts count for nothing, and a dot counts only at the start
of a relative path. -/

namespace IntervalStack.Path

def isAbsolute (path : String) : Bool := path.toList.head? == some '/'

def parts (path : String) : List String := (Text.splitOn '/' path.toList).map String.ofList

def joinParts (ps : List String) : String := "/".intercalate ps

def isIdle (part : String) : Bool := part == "" || part == "."

def dropIdle (ps : List String) : List String := (ps.reverse.dropWhile isIdle).reverse

def split (path : String) : String × List String :=
  match parts path with
  | [] => ("", [])
  | p :: ps => (p, ps)

def parent? (path : String) : Option String :=
  let (first, rest) := split path
  match (dropIdle rest).reverse with
  | _ :: before =>
    let kept := dropIdle before.reverse
    if isAbsolute path && kept.isEmpty then some "/" else some (joinParts (first :: kept))
  | [] => if isAbsolute path || path == "" then none else some ""

def join (directory name : String) : String :=
  if directory == "" then name
  else if directory.toList.getLast? == some '/' then directory ++ name
  else directory ++ "/" ++ name

def stem (name : String) : String :=
  match name.toList with
  | [] => ""
  | first :: rest =>
    if rest.contains '.' then
      String.ofList (first :: ((rest.reverse.dropWhile (· != '.')).drop 1).reverse)
    else name

/-- The name with another extension. The dot behind the stem stays when the old extension goes; a
stem that is a dot itself then spells the parent directory, which takes no extension. -/
def renameExtension (name extension : String) : String :=
  if stem name == "." then ".." else stem name ++ "." ++ extension

def withExtension (path extension : String) : String :=
  let (first, rest) := split path
  match (dropIdle rest).reverse with
  | last :: before =>
    if last == ".." then path
    else joinParts (first :: before.reverse ++ [renameExtension last extension])
  | [] =>
    if isIdle first || first == ".." then path else renameExtension first extension

end IntervalStack.Path
