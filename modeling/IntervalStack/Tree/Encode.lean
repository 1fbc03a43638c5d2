import IntervalStack.Json.Printer
import IntervalStack.Tree.Program

/-! Programs as JSON. An alternative is written as an object whose one key is its name, or as the
name alone when there is nothing to say besides. -/

namespace IntervalStack

open Json (record ofString ofInt)

def Json.ofUInt32 (n : UInt32) : Json := .ofNat n.toNat

def Json.tagged (name : String) (body : Json) : Json := record [(name, body)]

namespace Span

def toJson (s : Span) : Json :=
  record [("file_id", .ofNat s.file.toNat), ("start", .ofUInt32 s.start), ("end", .ofUInt32 s.stop)]

end Span

namespace Ty

def toJson : Ty → Json
  | .bool => ofString "Bool"
  | .char => ofString "Char"
  | .int => ofString "Int"
  | .float => ofString "Float"
  | .interval sub => .tagged "Interval" sub.toJson
  | .struct id => .tagged "Struct" (.ofUInt32 id)
  | .void => ofString "Void"

end Ty

namespace Storage

def toJson : Storage → Json
  | .global o => .tagged "Global" (record [("offset", ofInt o.toInt)])
  | .aboveFrame o => .tagged "FramePositive" (record [("offset", ofInt o.toInt)])
  | .belowFrame o => .tagged "FrameNegative" (record [("offset", ofInt o.toInt)])
  | .member o => .tagged "Member" (record [("offset", ofInt o.toInt)])

end Storage

namespace Binding

def toJson (b : Binding) : Json :=
  record [("name", ofString b.name), ("ty", b.ty.toJson), ("storage", b.storage.toJson)]

end Binding

namespace Scope

def toJson (s : Scope) : Json :=
  record [("allocated_size", .ofUInt32 s.allocatedSize),
    ("bindings", .arr (s.bindings.map Binding.toJson))]

end Scope

def Double.toJson (x : Double) : Json := if x.isFinite then .num (.ofDouble x) else .null

mutual

def Expr.toJson (float : Double → Json) : Expr → Json
  | ⟨kind, ty, span⟩ =>
    record [("kind", kind.toJson float), ("ty", ty.toJson), ("span", span.toJson)]

def ExprKind.toJson (float : Double → Json) : ExprKind → Json
  | .bool b => .tagged "Bool" (.bool b)
  | .char c => .tagged "Char" (ofString (String.singleton c))
  | .int n => .tagged "Int" (ofInt n.toInt)
  | .float x => .tagged "Float" (float x)
  | .ident b => .tagged "Identifier" b.toJson
  | .self => ofString "This"
  | .binary op lhs rhs =>
    .tagged "Binary" (record [("op", ofString op.name), ("lhs", lhs.toJson float),
      ("rhs", rhs.toJson float)])
  | .unary op operand =>
    .tagged "Unary" (record [("op", ofString op.name), ("operand", operand.toJson float)])
  | .interval low high =>
    .tagged "Interval" (record [("low", low.toJson float), ("high", high.toJson float)])
  | .bound interval b =>
    .tagged "Bound" (record [("interval", interval.toJson float), ("bound", ofString b.name)])
  | .field object member =>
    .tagged "Field" (record [("object", object.toJson float), ("member", member.toJson)])
  | .methodCall object method args =>
    .tagged "MethodCall" (record [("object", object.toJson float), ("method", ofString method),
      ("args", .arr (exprsToJson float args))])
  | .call function args =>
    .tagged "Call" (record [("function", ofString function),
      ("args", .arr (exprsToJson float args))])
  | .new id => .tagged "New" (.ofUInt32 id)

def exprsToJson (float : Double → Json) : List Expr → List Json
  | [] => []
  | e :: es => e.toJson float :: exprsToJson float es

end

mutual

def Block.toJson (float : Double → Json) : Block → Json
  | ⟨scope, stmts⟩ => record [("scope", scope.toJson), ("stmts", .arr (stmtsToJson float stmts))]

def stmtsToJson (float : Double → Json) : List LocatedStmt → List Json
  | [] => []
  | s :: ss => s.toJson float :: stmtsToJson float ss

def LocatedStmt.toJson (float : Double → Json) : LocatedStmt → Json
  | ⟨node, span⟩ => record [("node", node.toJson float), ("span", span.toJson)]

def Stmt.toJson (float : Double → Json) : Stmt → Json
  | .declaration target value =>
    .tagged "Declaration" (record [("target", target.toJson), ("value", value.toJson float)])
  | .update target value =>
    .tagged "Update" (record [("target", target.toJson float), ("value", value.toJson float)])
  | .print items spaces newline =>
    .tagged "Print" (record [("items", .arr (exprsToJson float items)), ("spaces", .bool spaces),
      ("newline", .bool newline)])
  | .ifElse cond thenBlock none =>
    .tagged "If" (record [("cond", cond.toJson float), ("then_block", thenBlock.toJson float),
      ("else_block", .null)])
  | .ifElse cond thenBlock (some elseBlock) =>
    .tagged "If" (record [("cond", cond.toJson float), ("then_block", thenBlock.toJson float),
      ("else_block", elseBlock.toJson float)])
  | .loop cond body =>
    .tagged "While" (record [("cond", cond.toJson float), ("body", body.toJson float)])
  | .leave => ofString "Break"
  | .ret none => .tagged "Return" .null
  | .ret (some value) => .tagged "Return" (value.toJson float)
  | .call e => .tagged "Call" (e.toJson float)
  | .block b => .tagged "Block" (b.toJson float)

end

def Function.toJson (float : Double → Json) (f : Function) : Json :=
  record [("name", ofString f.name), ("params", .arr (f.params.map Binding.toJson)),
    ("return_type", f.returnType.toJson), ("locals_size", .ofUInt32 f.localsSize),
    ("body", f.body.toJson float), ("span", f.span.toJson)]

def StructDef.toJson (float : Double → Json) (d : StructDef) : Json :=
  record [("id", .ofUInt32 d.id), ("name", ofString d.name),
    ("members", .arr (d.members.map Binding.toJson)), ("member_area", .ofUInt32 d.memberArea),
    ("initializer_locals", .ofUInt32 d.initializerLocals),
    ("initializer", d.initializer.toJson float),
    ("methods", .arr (d.methods.map (Function.toJson float))),
    ("printer", match d.printer with
      | some method => ofString method
      | none => .null),
    ("span", d.span.toJson)]

namespace Program

def toJson (float : Double → Json) (p : Program) : Json :=
  record [("global_size", .ofUInt32 p.globalSize),
    ("structs", .arr (p.structs.map (StructDef.toJson float))),
    ("functions", .arr (p.functions.map (Function.toJson float))),
    ("main", p.main.toJson float)]

def toText (p : Program) : String := (p.toJson Double.toJson).pretty 0

end Program
end IntervalStack
