import Quill.Ty.Basic

/-! # Scopes and what they declare

A symbol table is a tree of scopes.  Each scope declares identifiers by name, and functions by
name and number of arguments.  Scopes, identifiers and functions are numbered in the order of
their creation, and a table keeps them in that order. -/

namespace Quill.Scope

/-- Where an identifier is known to have been assigned. -/
inductive Assigned where
  /-- From its declaration on, wherever it is visible. -/
  | everywhere
  /-- In the listed blocks, in the order in which that was recorded. -/
  | inBlocks (blocks : Array Nat)
  deriving DecidableEq, Repr, Inhabited

def Assigned.covers (a : Assigned) (block : Nat) : Bool :=
  match a with
  | .everywhere => true
  | .inBlocks blocks => blocks.contains block

structure Identifier where
  id : Nat
  name : String
  ty : Ty
  level : Nat
  scope : Nat
  assigned : Assigned
  deriving DecidableEq, Repr, Inhabited

/-- An argument of a function; positions count from one. -/
structure Argument where
  name : String
  ty : Ty
  position : Nat
  deriving DecidableEq, Repr, Inhabited

/-- A function of a scope, or a built-in function. -/
structure Function where
  id : Nat
  name : String
  returnType : Ty
  arguments : List Argument
  level : Nat
  isBuiltin : Bool
  deriving DecidableEq, Repr, Inhabited

def Function.arity (f : Function) : Nat := f.arguments.length

/-- The function is called with this name and number of arguments. -/
def Function.hasSignature (f : Function) (name : String) (arity : Nat) : Bool :=
  f.name = name ∧ f.arity = arity

/-- A scope: its place in the tree and the identifiers and functions that it declares. -/
structure Entry where
  parent : Option Nat
  children : Array Nat
  level : Nat
  /-- The identifiers by name, the newest first. -/
  identifiers : List (String × Nat)
  /-- The functions, in the order of their declaration. -/
  functions : Array Nat
  deriving DecidableEq, Repr, Inhabited

def Entry.fresh (parent : Option Nat) (level : Nat) : Entry :=
  { parent, children := #[], level, identifiers := [], functions := #[] }

/-- The arguments with their positions, counted from one. -/
def numbered (args : List (String × Ty)) : List Argument :=
  args.zipIdx.map fun ((name, ty), i) => { name, ty, position := i + 1 }

/-! ### Built-in functions -/

/-- The built-in functions: name, arguments and result.  An argument of type `Undefined` takes
values of several types. -/
def builtins : List (String × List (String × Ty) × Ty) :=
  [("print", [("value", .string)], .void),
   ("println", [("value", .string)], .void),
   ("readln", [], .string),
   ("tostr", [("value", .undefined)], .string),
   ("toint", [("value", .string)], .integer),
   ("tofloat", [("value", .string)], .float),
   ("length", [("value", .undefined)], .integer)]

/-- The built-in function takes an argument of this type, where its declaration leaves the type
open: every scalar has a text, and strings and arrays have a length. -/
def builtinAccepts (name : String) (arg : Ty) : Bool :=
  if name = "tostr" then arg.isScalar
  else if name = "length" then arg.hasLength
  else true

/-- The built-in functions as functions of a table. -/
def builtinFunctions : Array Function :=
  (builtins.zipIdx.map fun ((name, args, returnType), id) =>
    { id, name, returnType, arguments := numbered args, level := 1, isBuiltin := true }).toArray

def rootLevel : Nat := 1

end Quill.Scope
