import Quill.Tree.Basic

/-! # Trees with a place for a part

A frame is one layer of a tree with a place for one of its parts: a part of an expression, an
expression of a statement, or a body of a statement.  The way from the body of a function down to an
occurrence of an expression is a `Spot`: the statements around it, layer by layer, and at last the
parts of the one expression.  So the occurrences of `e` in a body are the spots `C` for which
`C.plug e` is the body, and `C.plug e'` is the body with that one occurrence replaced. -/

namespace Quill

/-- An expression with a place for one of its parts. -/
inductive ExprFrame where
  | arithLeft (note : Note) (op : ArithOp) (rhs : Expr)
  | arithRight (note : Note) (op : ArithOp) (lhs : Expr)
  | compareLeft (note : Note) (op : Comparison) (rhs : Expr)
  | compareRight (note : Note) (op : Comparison) (lhs : Expr)
  | logicLeft (note : Note) (op : LogicOp) (rhs : Expr)
  | logicRight (note : Note) (op : LogicOp) (lhs : Expr)
  | not (note : Note)
  | index (note : Note) (array : String) (before after : List Expr)
  | call (note : Note) (function : String) (before after : List Expr)
  | newArray (note : Note) (element : Element) (before after : List Expr)

/-- The expression with a part in its place. -/
def ExprFrame.plug (x : Expr) : ExprFrame → Expr
  | .arithLeft n op r => .arith n op x r
  | .arithRight n op l => .arith n op l x
  | .compareLeft n op r => .compare n op x r
  | .compareRight n op l => .compare n op l x
  | .logicLeft n op r => .logic n op x r
  | .logicRight n op l => .logic n op l x
  | .not n => .not n x
  | .index n a before after => .index n a (before ++ x :: after)
  | .call n f before after => .call n f (before ++ x :: after)
  | .newArray n e before after => .newArray n e (before ++ x :: after)

/-- The expression around a part, through a list of frames, the outermost first. -/
def plugParts (x : Expr) : List ExprFrame → Expr
  | [] => x
  | frame :: parts => frame.plug (plugParts x parts)

/-- A statement with a place for one of its expressions. -/
inductive StmtFrame where
  | expr (span : Span)
  | decl (span : Span) (name : String) (ty : Ty)
  | assign (span : Span) (name : String) (target : Span)
  | elementIndex (span : Span) (array : String) (before after : List Expr) (target : Span)
      (value : Expr)
  | elementValue (span : Span) (array : String) (indices : List Expr) (target : Span)
  | ifThen (span : Span) (body : List Stmt)
  | ifElse (span : Span) (body other : List Stmt)
  | while (span : Span) (body : List Stmt)
  | doWhile (span : Span) (body : List Stmt)
  | ret (span : Span)

/-- The statement with an expression in its place. -/
def StmtFrame.plug (x : Expr) : StmtFrame → Stmt
  | .expr span => .expr span x
  | .decl span name ty => .decl span name ty (some x)
  | .assign span name target => .assign span name target x
  | .elementIndex span a before after target value =>
    .assignElement span a (before ++ x :: after) target value
  | .elementValue span a indices target => .assignElement span a indices target x
  | .ifThen span body => .ifThen span x body
  | .ifElse span body other => .ifElse span x body other
  | .while span body => .while span x body
  | .doWhile span body => .doWhile span body x
  | .ret span => .ret span (some x)

/-- A statement with a place for one of its bodies. -/
inductive BlockFrame where
  | ifThen (span : Span) (cond : Expr)
  | first (span : Span) (cond : Expr) (other : List Stmt)
  | second (span : Span) (cond : Expr) (body : List Stmt)
  | while (span : Span) (cond : Expr)
  | doWhile (span : Span) (cond : Expr)
  | block (span : Span)

/-- The statement with a body in its place. -/
def BlockFrame.plug (inner : List Stmt) : BlockFrame → Stmt
  | .ifThen span cond => .ifThen span cond inner
  | .first span cond other => .ifElse span cond inner other
  | .second span cond body => .ifElse span cond body inner
  | .while span cond => .while span cond inner
  | .doWhile span cond => .doWhile span inner cond
  | .block span => .block span inner

/-- The number of the body among those of the statement. -/
def BlockFrame.index : BlockFrame → Nat
  | .second _ _ _ => 1
  | _ => 0

/-- A block with a place for a body of one of its statements. -/
structure Layer where
  before : List Stmt
  frame : BlockFrame
  after : List Stmt

/-- The block around an inner one, through a list of layers, the outermost first. -/
def plugLayers (inner : List Stmt) : List Layer → List Stmt
  | [] => inner
  | layer :: layers => layer.before ++ layer.frame.plug (plugLayers inner layers) :: layer.after

/-- A body with a place for an expression. -/
structure Spot where
  layers : List Layer
  before : List Stmt
  frame : StmtFrame
  after : List Stmt
  parts : List ExprFrame

/-- The body with an expression in its place. -/
def Spot.plug (C : Spot) (x : Expr) : List Stmt :=
  plugLayers (C.before ++ C.frame.plug (plugParts x C.parts) :: C.after) C.layers

end Quill
