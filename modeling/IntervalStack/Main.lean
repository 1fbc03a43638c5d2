import IntervalStack.Command.Basic

/-! The command line program. -/

namespace IntervalStack.Command

def fileErrorOf (e : IO.Error) : FileError :=
  match e with
  | .noFileOrDirectory .. => .notFound
  | .inappropriateType _ _ "not a directory" => .notDirectory
  | .inappropriateType .. => .isDirectory
  | .invalidArgument _ _ "name too long" => .nameTooLong
  | e => .other (toString e)

def diskAccess : FileAccess IO where
  read path := do
    try
      return .ok (← IO.FS.readFile path)
    catch e => return .error (fileErrorOf e)
  write path text := do
    try
      IO.FS.writeFile path text
      return .ok ()
    catch e => return .error (fileErrorOf e)
  isFile path := do
    try
      let _ ← IO.FS.readBinFile path
      return true
    catch _ => return false

end IntervalStack.Command

def main (arguments : List String) : IO UInt32 := do
  let outcome ← IntervalStack.Command.perform IntervalStack.Command.diskAccess arguments
  IO.print outcome.stdout
  IO.eprint outcome.stderr
  return UInt32.ofNat outcome.exit
