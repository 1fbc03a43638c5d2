import IntervalStack.Json.Number
import IntervalStack.Json.Reader
import IntervalStack.Tree.Program

/-! Programs from JSON. A structure is an object, where unknown keys are passed over, or an array of
its fields in order. An alternative is an object with its name as the one key, or the name alone.
The number that the decoders take is how many levels of arrays and objects may still be opened. -/

namespace IntervalStack

namespace Decode

inductive FieldRule
  | required
  | nullable
  | defaulted

abbrev Schema := List (String × FieldRule)

def missing? : FieldRule → Option (Option Json)
  | .required => none
  | .nullable => some (some .null)
  | .defaulted => some none

def keyed? : List (Option String × Json) → Option (List (String × Json))
  | [] => some []
  | (k, v) :: ms => do
    let key ← k
    return (key, v) :: (← keyed? ms)

def named? (members : List (String × Json)) : Schema → Option (List (Option Json))
  | [] => some []
  | (name, rule) :: schema => do
    let value ← match members.filter (·.1 == name) with
      | [] => missing? rule
      | [m] => some (some m.2)
      | _ => none
    return value :: (← named? members schema)

def positional? : List Json → Schema → Option (List (Option Json))
  | [], [] => some []
  | _ :: _, [] => none
  | v :: vs, _ :: schema => do return some v :: (← positional? vs schema)
  | [], (_, .defaulted) :: schema => do return none :: (← positional? [] schema)
  | [], _ :: _ => none

def fields? (schema : Schema) : Json → Option (List (Option Json))
  | .obj members => do named? (← keyed? members) schema
  | .arr items => positional? items schema
  | _ => none

def text? : Json → Option String
  | .str s => s
  | _ => none

def bool? : Json → Option Bool
  | .bool b => some b
  | _ => none

def int? : Json → Option Int
  | .num n => n.toInt?
  | _ => none

def nat? (bound : Nat) (j : Json) : Option Nat :=
  match int? j with
  | some (.ofNat n) => if n < bound then some n else none
  | _ => none

def uint16? (j : Json) : Option UInt16 := (nat? UInt16.size j).map UInt16.ofNat

def uint32? (j : Json) : Option UInt32 := (nat? UInt32.size j).map UInt32.ofNat

def int32? (j : Json) : Option Int32 :=
  match int? j with
  | some n => if -0x80000000 ≤ n ∧ n < 0x80000000 then some (Int32.ofInt n) else none
  | none => none

def double? : Json → Option Double
  | .num n => n.toDouble?
  | _ => none

def char? (j : Json) : Option Char :=
  match (text? j).map String.toList with
  | some [c] => some c
  | _ => none

def optional? {α : Type} (decode : Json → Option α) : Json → Option (Option α)
  | .null => some none
  | j => (decode j).map some

def defaulted? {α : Type} (default : α) (decode : Json → Option α) : Option Json → Option α
  | none => some default
  | some j => decode j

def name? : Nat → Json → Option String
  | _, .str s => s
  | _ + 1, .obj [(k, .null)] => k
  | _, _ => none

def tagged? : Json → Option (String × Json)
  | .obj [(some k, v)] => some (k, v)
  | _ => none

def list? {α : Type} (decode : Nat → Json → Option α) : Nat → Json → Option (List α)
  | depth + 1, .arr items => items.mapM (decode depth)
  | _, _ => none

def span? : Nat → Json → Option Span
  | _ + 1, j => do
    let [file, start, stop] ←
      fields? [("file_id", .defaulted), ("start", .required), ("end", .required)] j | none
    return ⟨← defaulted? 0 uint16? file, ← uint32? (← start), ← uint32? (← stop)⟩
  | _, _ => none

def scalarTy? : String → Option Ty
  | "Bool" => some .bool
  | "Char" => some .char
  | "Int" => some .int
  | "Float" => some .float
  | "Void" => some .void
  | _ => none

def ty? : Nat → Json → Option Ty
  | _, .str s => s.bind scalarTy?
  | depth + 1, .obj [(some k, v)] =>
    match k with
    | "Interval" => (ty? depth v).map .interval
    | "Struct" => (uint32? v).map .struct
    | _ => if v.isNull then scalarTy? k else none
  | _, _ => none

def offset? : Nat → Json → Option Int32
  | _ + 1, j => do
    let [offset] ← fields? [("offset", .required)] j | none
    int32? (← offset)
  | _, _ => none

def storage? : Nat → Json → Option Storage
  | depth + 1, j => do
    let (k, v) ← tagged? j
    match k with
    | "Global" => (offset? depth v).map .global
    | "FramePositive" => (offset? depth v).map .aboveFrame
    | "FrameNegative" => (offset? depth v).map .belowFrame
    | "Member" => (offset? depth v).map .member
    | _ => none
  | _, _ => none

def binding? : Nat → Json → Option Binding
  | depth + 1, j => do
    let [name, ty, storage] ←
      fields? [("name", .required), ("ty", .required), ("storage", .required)] j | none
    return ⟨← text? (← name), ← ty? depth (← ty), ← storage? depth (← storage)⟩
  | _, _ => none

def scope? : Nat → Json → Option Scope
  | depth + 1, j => do
    let [size, bindings] ←
      fields? [("allocated_size", .required), ("bindings", .required)] j | none
    return ⟨← uint32? (← size), ← list? binding? depth (← bindings)⟩
  | _, _ => none

def binOp? (depth : Nat) (j : Json) : Option BinOp := (name? depth j).bind BinOp.ofName?

def unaryOp? (depth : Nat) (j : Json) : Option UnaryOp := (name? depth j).bind UnaryOp.ofName?

def bound? (depth : Nat) (j : Json) : Option Bound := (name? depth j).bind Bound.ofName?

mutual

def expr? : Nat → Json → Option Expr
  | depth + 1, j => do
    let [kind, ty, span] ←
      fields? [("kind", .required), ("ty", .required), ("span", .defaulted)] j | none
    return ⟨← exprKind? depth (← kind), ← ty? depth (← ty),
      ← defaulted? .none (span? depth) span⟩
  | _, _ => none

def exprs? : Nat → Json → Option (List Expr)
  | depth + 1, .arr items => items.mapM (expr? depth)
  | _, _ => none

def exprKind? : Nat → Json → Option ExprKind
  | _, .str (some "This") => some .self
  | depth + 1, .obj [(some k, v)] =>
    match k with
    | "This" => if v.isNull then some .self else none
    | "Bool" => (bool? v).map .bool
    | "Char" => (char? v).map .char
    | "Int" => (int32? v).map .int
    | "Float" => (double? v).map .float
    | "Identifier" => (binding? depth v).map .ident
    | "New" => (uint32? v).map .new
    | k => compound? depth k v
  | _, _ => none

def compound? : Nat → String → Json → Option ExprKind
  | depth + 1, "Binary", j => do
    let [op, lhs, rhs] ←
      fields? [("op", .required), ("lhs", .required), ("rhs", .required)] j | none
    return .binary (← binOp? depth (← op)) (← expr? depth (← lhs)) (← expr? depth (← rhs))
  | depth + 1, "Unary", j => do
    let [op, operand] ← fields? [("op", .required), ("operand", .required)] j | none
    return .unary (← unaryOp? depth (← op)) (← expr? depth (← operand))
  | depth + 1, "Interval", j => do
    let [low, high] ← fields? [("low", .required), ("high", .required)] j | none
    return .interval (← expr? depth (← low)) (← expr? depth (← high))
  | depth + 1, "Bound", j => do
    let [interval, bound] ← fields? [("interval", .required), ("bound", .required)] j | none
    return .bound (← expr? depth (← interval)) (← bound? depth (← bound))
  | depth + 1, "Field", j => do
    let [object, member] ← fields? [("object", .required), ("member", .required)] j | none
    return .field (← expr? depth (← object)) (← binding? depth (← member))
  | depth + 1, "MethodCall", j => do
    let [object, method, args] ←
      fields? [("object", .required), ("method", .required), ("args", .required)] j | none
    return .methodCall (← expr? depth (← object)) (← text? (← method)) (← exprs? depth (← args))
  | depth + 1, "Call", j => do
    let [function, args] ← fields? [("function", .required), ("args", .required)] j | none
    return .call (← text? (← function)) (← exprs? depth (← args))
  | _, _, _ => none

end

mutual

def block? : Nat → Json → Option Block
  | depth + 1, j => do
    let [scope, stmts] ← fields? [("scope", .required), ("stmts", .required)] j | none
    return ⟨← scope? depth (← scope), ← stmts? depth (← stmts)⟩
  | _, _ => none

def stmts? : Nat → Json → Option (List LocatedStmt)
  | depth + 1, .arr items => items.mapM (locatedStmt? depth)
  | _, _ => none

def locatedStmt? : Nat → Json → Option LocatedStmt
  | depth + 1, j => do
    let [node, span] ← fields? [("node", .required), ("span", .defaulted)] j | none
    return ⟨← stmt? depth (← node), ← defaulted? .none (span? depth) span⟩
  | _, _ => none

def stmt? : Nat → Json → Option Stmt
  | _, .str (some "Break") => some .leave
  | depth + 1, .obj [(some k, v)] =>
    match k with
    | "Break" => if v.isNull then some .leave else none
    | "Return" => (optional? (expr? depth) v).map .ret
    | "Call" => (expr? depth v).map .call
    | "Block" => (block? depth v).map .block
    | k => compoundStmt? depth k v
  | _, _ => none

def compoundStmt? : Nat → String → Json → Option Stmt
  | depth + 1, "Declaration", j => do
    let [target, value] ← fields? [("target", .required), ("value", .required)] j | none
    return .declaration (← binding? depth (← target)) (← expr? depth (← value))
  | depth + 1, "Update", j => do
    let [target, value] ← fields? [("target", .required), ("value", .required)] j | none
    return .update (← expr? depth (← target)) (← expr? depth (← value))
  | depth + 1, "Print", j => do
    let [items, spaces, newline] ←
      fields? [("items", .required), ("spaces", .required), ("newline", .required)] j | none
    return .print (← exprs? depth (← items)) (← bool? (← spaces)) (← bool? (← newline))
  | depth + 1, "If", j => do
    let [cond, thenBlock, elseBlock] ←
      fields? [("cond", .required), ("then_block", .required), ("else_block", .nullable)] j | none
    return .ifElse (← expr? depth (← cond)) (← block? depth (← thenBlock))
      (← optional? (block? depth) (← elseBlock))
  | depth + 1, "While", j => do
    let [cond, body] ← fields? [("cond", .required), ("body", .required)] j | none
    return .loop (← expr? depth (← cond)) (← block? depth (← body))
  | _, _, _ => none

end

def function? : Nat → Json → Option Function
  | depth + 1, j => do
    let [name, params, returnType, localsSize, body, span] ←
      fields? [("name", .required), ("params", .required), ("return_type", .required),
        ("locals_size", .required), ("body", .required), ("span", .defaulted)] j | none
    return ⟨← text? (← name), ← list? binding? depth (← params), ← ty? depth (← returnType),
      ← uint32? (← localsSize), ← block? depth (← body), ← defaulted? .none (span? depth) span⟩
  | _, _ => none

def structDef? : Nat → Json → Option StructDef
  | depth + 1, j => do
    let [id, name, members, memberArea, initializerLocals, initializer, methods, printer, span] ←
      fields? [("id", .required), ("name", .required), ("members", .required),
        ("member_area", .required), ("initializer_locals", .defaulted),
        ("initializer", .required), ("methods", .required), ("printer", .defaulted),
        ("span", .defaulted)] j | none
    return ⟨← uint32? (← id), ← text? (← name), ← list? binding? depth (← members),
      ← uint32? (← memberArea), ← defaulted? 0 uint32? initializerLocals,
      ← block? depth (← initializer), ← list? function? depth (← methods),
      ← defaulted? none (optional? text?) printer, ← defaulted? .none (span? depth) span⟩
  | _, _ => none

def program? : Nat → Json → Option Program
  | depth + 1, j => do
    let [globalSize, structs, functions, main] ←
      fields? [("global_size", .required), ("structs", .required), ("functions", .required),
        ("main", .required)] j | none
    return ⟨← uint32? (← globalSize), ← list? structDef? depth (← structs),
      ← list? function? depth (← functions), ← block? depth (← main)⟩
  | _, _ => none

def maxDepth : Nat := 127

end Decode

namespace Program

def ofJson? (j : Json) : Option Program := Decode.program? Decode.maxDepth j

def ofText? (text : String) : Option Program := (Json.read text).bind ofJson?

end Program
end IntervalStack
