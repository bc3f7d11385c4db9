import Quill.Operator
import Quill.Span

/-! # Program trees

A program is a list of functions; a function is external (its code is given by the host) or has
a body of statements.  Every expression carries a note: the type annotation, which checking fills
in, and the span of its source text.  An annotation that nobody has filled in is `Undefined`. -/

namespace Quill

/-- A literal.  A floating-point number is given by its 64 bits. -/
inductive Literal where
  | integer (value : Int64)
  | float (bits : UInt64)
  | string (value : String)
  | boolean (value : Bool)
  deriving DecidableEq, Repr, Inhabited

def Literal.ty : Literal → Ty
  | .integer _ => .integer
  | .float _ => .float
  | .string _ => .string
  | .boolean _ => .boolean

/-- What is known about an expression besides its shape. -/
structure Note where
  ty : Ty
  span : Span
  deriving DecidableEq, Repr

instance : Inhabited Note := ⟨⟨.undefined, .dummy⟩⟩

inductive Expr where
  | literal (note : Note) (value : Literal)
  | name (note : Note) (name : String)
  | arith (note : Note) (op : ArithOp) (lhs rhs : Expr)
  | compare (note : Note) (op : Comparison) (lhs rhs : Expr)
  | logic (note : Note) (op : LogicOp) (lhs rhs : Expr)
  | not (note : Note) (operand : Expr)
  | index (note : Note) (array : String) (indices : List Expr)
  | call (note : Note) (function : String) (args : List Expr)
  | newArray (note : Note) (element : Element) (dims : List Expr)
  deriving Repr, Inhabited

namespace Expr

def note : Expr → Note
  | .literal n _ | .name n _ | .arith n _ _ _ | .compare n _ _ _ | .logic n _ _ _ | .not n _
  | .index n _ _ | .call n _ _ | .newArray n _ _ => n

/-- The annotated type of an expression. -/
def ty (e : Expr) : Ty := e.note.ty

def span (e : Expr) : Span := e.note.span

/-- The expression with another note. -/
def withNote (n : Note) : Expr → Expr
  | .literal _ v => .literal n v
  | .name _ x => .name n x
  | .arith _ op l r => .arith n op l r
  | .compare _ op l r => .compare n op l r
  | .logic _ op l r => .logic n op l r
  | .not _ x => .not n x
  | .index _ a is => .index n a is
  | .call _ f args => .call n f args
  | .newArray _ e dims => .newArray n e dims

/-- The expression with another annotation. -/
def withTy (t : Ty) (e : Expr) : Expr := e.withNote { e.note with ty := t }

@[simp] theorem note_withNote (n : Note) (e : Expr) : (e.withNote n).note = n := by
  cases e <;> rfl

@[simp] theorem ty_withTy (t : Ty) (e : Expr) : (e.withTy t).ty = t := by
  simp [withTy, ty]

@[simp] theorem span_withTy (t : Ty) (e : Expr) : (e.withTy t).span = e.span := by
  simp [withTy, span]

end Expr

/-- The statements.  A block is a list of statements with a scope of its own. -/
inductive Stmt where
  | expr (span : Span) (value : Expr)
  | decl (span : Span) (name : String) (ty : Ty) (init : Option Expr)
  | assign (span : Span) (name : String) (target : Span) (value : Expr)
  | assignElement (span : Span) (array : String) (indices : List Expr) (target : Span)
      (value : Expr)
  | ifThen (span : Span) (cond : Expr) (body : List Stmt)
  | ifElse (span : Span) (cond : Expr) (body other : List Stmt)
  | while (span : Span) (cond : Expr) (body : List Stmt)
  | doWhile (span : Span) (body : List Stmt) (cond : Expr)
  | ret (span : Span) (value : Option Expr)
  | block (span : Span) (body : List Stmt)
  deriving Repr, Inhabited

structure Param where
  name : String
  ty : Ty
  span : Span
  deriving DecidableEq, Repr, Inhabited

/-- A function: external in a package of the host, or with a body. -/
structure FunctionDecl where
  name : String
  params : List Param
  returnType : Ty
  body : List Stmt
  external : Option String
  span : Span
  deriving Repr, Inhabited

namespace FunctionDecl

def arity (f : FunctionDecl) : Nat := f.params.length

/-- The function's code is given by the host. -/
def isExternal (f : FunctionDecl) : Bool := f.external.isSome

end FunctionDecl

/-- A program, with the path of its source text if it has one. -/
structure Program where
  functions : List FunctionDecl
  source : Option String
  deriving Repr, Inhabited

end Quill
