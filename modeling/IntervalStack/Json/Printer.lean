import IntervalStack.Json.Basic

/-! Writing JSON text, on one line or with one member or item to a line. -/

namespace IntervalStack.Json

def escapeChar (c : Char) : List Char :=
  match c with
  | '"' => ['\\', '"']
  | '\\' => ['\\', '\\']
  | '\x08' => ['\\', 'b']
  | '\x0c' => ['\\', 'f']
  | '\n' => ['\\', 'n']
  | '\r' => ['\\', 'r']
  | '\t' => ['\\', 't']
  | c =>
    if c.toNat < 0x20 then
      ['\\', 'u', '0', '0', Nat.digitChar (c.toNat / 16), Nat.digitChar (c.toNat % 16)]
    else [c]

def quote (s : String) : String :=
  "\"" ++ String.ofList (s.toList.flatMap escapeChar) ++ "\""

def quoteAny (s : Option String) : String := quote (s.getD "")

mutual

def compact : Json → String
  | .null => "null"
  | .bool b => if b then "true" else "false"
  | .num n => n.text
  | .str s => quoteAny s
  | .arr [] => "[]"
  | .arr (v :: rest) => "[" ++ v.compact ++ compactItems rest ++ "]"
  | .obj [] => "\x7b\x7d"
  | .obj ((k, v) :: rest) =>
    "\x7b" ++ quoteAny k ++ ":" ++ v.compact ++ compactMembers rest ++ "\x7d"

def compactItems : List Json → String
  | [] => ""
  | v :: rest => "," ++ v.compact ++ compactItems rest

def compactMembers : List (Option String × Json) → String
  | [] => ""
  | (k, v) :: rest => "," ++ quoteAny k ++ ":" ++ v.compact ++ compactMembers rest

end

def newline (level : Nat) : String := "\n" ++ String.ofList (List.replicate (2 * level) ' ')

mutual

def pretty (level : Nat) : Json → String
  | .null => "null"
  | .bool b => if b then "true" else "false"
  | .num n => n.text
  | .str s => quoteAny s
  | .arr [] => "[]"
  | .arr (v :: rest) =>
    "[" ++ newline (level + 1) ++ v.pretty (level + 1) ++ prettyItems level rest
      ++ newline level ++ "]"
  | .obj [] => "\x7b\x7d"
  | .obj ((k, v) :: rest) =>
    "\x7b" ++ newline (level + 1) ++ quoteAny k ++ ": " ++ v.pretty (level + 1)
      ++ prettyMembers level rest ++ newline level ++ "\x7d"

def prettyItems (level : Nat) : List Json → String
  | [] => ""
  | v :: rest => "," ++ newline (level + 1) ++ v.pretty (level + 1) ++ prettyItems level rest

def prettyMembers (level : Nat) : List (Option String × Json) → String
  | [] => ""
  | (k, v) :: rest =>
    "," ++ newline (level + 1) ++ quoteAny k ++ ": " ++ v.pretty (level + 1)
      ++ prettyMembers level rest

end

end IntervalStack.Json
