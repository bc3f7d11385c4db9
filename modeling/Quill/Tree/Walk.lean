import Quill.Tree.Basic

/-! # Walks over trees

`annotations` lists the types noted on the expressions of a program, an expression before its
parts; `targets` lists what the statements of a function assign to.  Both follow the order of the
source text. -/

namespace Quill

/-! ### Annotations -/

mutual

/-- The annotations of an expression and its parts, after those already collected. -/
def Expr.annotations (acc : Array Ty) : Expr → Array Ty
  | .literal n _ | .name n _ => acc.push n.ty
  | .arith n _ l r | .compare n _ l r | .logic n _ l r =>
    r.annotations (l.annotations (acc.push n.ty))
  | .not n x => x.annotations (acc.push n.ty)
  | .index n _ es | .call n _ es | .newArray n _ es => exprsAnnotations (acc.push n.ty) es

/-- The annotations of a list of expressions. -/
def exprsAnnotations (acc : Array Ty) : List Expr → Array Ty
  | [] => acc
  | e :: es => exprsAnnotations (e.annotations acc) es

end

/-- The annotations of an expression that may be missing. -/
def Expr.annotationsOf? (acc : Array Ty) : Option Expr → Array Ty
  | none => acc
  | some e => e.annotations acc

mutual

/-- The annotations of the expressions of a statement. -/
def Stmt.annotations (acc : Array Ty) : Stmt → Array Ty
  | .expr _ e => e.annotations acc
  | .decl _ _ _ init => Expr.annotationsOf? acc init
  | .assign _ _ _ value => value.annotations acc
  | .assignElement _ _ indices _ value => value.annotations (exprsAnnotations acc indices)
  | .ifThen _ cond body => stmtsAnnotations (cond.annotations acc) body
  | .ifElse _ cond body other =>
    stmtsAnnotations (stmtsAnnotations (cond.annotations acc) body) other
  | .while _ cond body => stmtsAnnotations (cond.annotations acc) body
  | .doWhile _ body cond => cond.annotations (stmtsAnnotations acc body)
  | .ret _ value => Expr.annotationsOf? acc value
  | .block _ body => stmtsAnnotations acc body

/-- The annotations of the expressions of a list of statements. -/
def stmtsAnnotations (acc : Array Ty) : List Stmt → Array Ty
  | [] => acc
  | s :: rest => stmtsAnnotations (s.annotations acc) rest

end

/-- The annotations of every expression of a program. -/
def Program.annotations (p : Program) : Array Ty :=
  p.functions.foldl (fun acc f => stmtsAnnotations acc f.body) #[]

/-! ### Assignment targets -/

mutual

/-- The targets of the assignments of a statement: the variable and the span of the target. -/
def Stmt.targets (acc : Array (String × Span)) : Stmt → Array (String × Span)
  | .assign _ name target _ => acc.push (name, target)
  | .assignElement _ array _ target _ => acc.push (array, target)
  | .ifThen _ _ body | .while _ _ body | .doWhile _ body _ | .block _ body =>
    stmtsTargets acc body
  | .ifElse _ _ body other => stmtsTargets (stmtsTargets acc body) other
  | .expr _ _ | .decl _ _ _ _ | .ret _ _ => acc

/-- The targets of the assignments of a list of statements. -/
def stmtsTargets (acc : Array (String × Span)) : List Stmt → Array (String × Span)
  | [] => acc
  | s :: rest => stmtsTargets (s.targets acc) rest

end

/-- The targets of the assignments of a function. -/
def FunctionDecl.targets (f : FunctionDecl) : Array (String × Span) := stmtsTargets #[] f.body

end Quill
