import Quill.Scope.Basic

/-! # Symbol tables

`Table.child`, `Table.declareIdentifier?` and `Table.declareFunction?` let a table grow, and
`Table.resolveIdentifier?` and `Table.resolveFunction?` look a name up from a scope: the nearest
scope on the way to the root decides, and built-in functions come last.

A function cannot be declared where a built-in function, or a function visible from there, has
the same name and number of arguments; an identifier cannot be declared twice in one scope. -/

namespace Quill.Scope

/-- The scopes, identifiers and functions of a program.  Built-in functions come first and
belong to no scope. -/
structure Table where
  scopes : Array Entry
  identifiers : Array Identifier
  functions : Array Function
  deriving DecidableEq, Repr, Inhabited

namespace Table

/-- The table of the built-in functions and an empty root scope. -/
def initial : Table :=
  { scopes := #[.fresh none rootLevel], identifiers := #[], functions := builtinFunctions }

def root : Nat := 0

/-! ### The tree of scopes -/

def parent? (t : Table) (scope : Nat) : Option Nat := t.scopes[scope]?.bind (·.parent)

def children (t : Table) (scope : Nat) : Array Nat := (t.scopes[scope]?.map (·.children)).getD #[]

/-- The depth of a scope; the root has level one. -/
def level (t : Table) (scope : Nat) : Nat := (t.scopes[scope]?.map (·.level)).getD 0

/-- At most so many scopes on the way from a scope to the root. -/
def ancestorsUpTo (t : Table) : Nat → Nat → List Nat
  | 0, _ => []
  | fuel + 1, scope =>
    scope :: match t.parent? scope with
      | some p => t.ancestorsUpTo fuel p
      | none => []

/-- A scope and the scopes around it, up to the root.  A scope has a larger number than its
parent, so its own number bounds the length of the way. -/
def ancestors (t : Table) (scope : Nat) : List Nat := t.ancestorsUpTo (scope + 1) scope

/-- The table with a new scope inside a scope, and the new scope. -/
def child (t : Table) (parent : Nat) : Table × Nat :=
  let id := t.scopes.size
  let level := t.level parent + 1
  let linked := t.scopes.modify parent fun e => { e with children := e.children.push id }
  ({ t with scopes := linked.push (.fresh (some parent) level) }, id)

/-! ### Looking up -/

/-- The identifier that a scope itself declares under a name. -/
def declared? (t : Table) (scope : Nat) (name : String) : Option Nat :=
  t.scopes[scope]?.bind fun e => e.identifiers.lookup name

/-- The identifier that a name means in a scope. -/
def resolveIdentifier? (t : Table) (scope : Nat) (name : String) : Option Identifier :=
  ((t.ancestors scope).findSome? (t.declared? · name)).bind (t.identifiers[·]?)

def builtinList (t : Table) : List Function := t.functions.toList.filter (·.isBuiltin)

/-- The built-in function with a name and a number of arguments. -/
def builtin? (t : Table) (name : String) (arity : Nat) : Option Function :=
  t.builtinList.find? (·.hasSignature name arity)

/-- The functions that a scope itself declares. -/
def declaredFunctions (t : Table) (scope : Nat) : List Function :=
  ((t.scopes[scope]?.map (·.functions)).getD #[]).toList.filterMap (t.functions[·]?)

/-- The declared function that a name and a number of arguments mean in a scope. -/
def resolveDeclared? (t : Table) (scope : Nat) (name : String) (arity : Nat) : Option Function :=
  (t.ancestors scope).findSome? fun s => (t.declaredFunctions s).find? (·.hasSignature name arity)

/-- The function that a name and a number of arguments mean in a scope. -/
def resolveFunction? (t : Table) (scope : Nat) (name : String) (arity : Nat) :
    Option Function :=
  (t.resolveDeclared? scope name arity).or (t.builtin? name arity)

/-- Some function visible from a scope has this name. -/
def hasFunctionNamed (t : Table) (scope : Nat) (name : String) : Bool :=
  t.builtinList.any (·.name = name) ||
    (t.ancestors scope).any fun s => (t.declaredFunctions s).any (·.name = name)

/-! ### Declaring -/

/-- The table with a new identifier in a scope, and the identifier's number; `none` if the scope
already declares the name. -/
def declareIdentifier? (t : Table) (scope : Nat) (name : String) (ty : Ty) :
    Option (Table × Nat) :=
  match t.declared? scope name with
  | some _ => none
  | none =>
    let id := t.identifiers.size
    let entry : Identifier :=
      { id, name, ty, level := t.level scope, scope, assigned := .inBlocks #[] }
    some ({ t with
      identifiers := t.identifiers.push entry
      scopes := t.scopes.modify scope fun e =>
        { e with identifiers := (name, id) :: e.identifiers } }, id)

/-- The table with a new function in a scope, and the function's number; `none` if a built-in
function or a visible function has the same name and number of arguments. -/
def declareFunction? (t : Table) (scope : Nat) (name : String) (returnType : Ty)
    (arguments : List Argument) : Option (Table × Nat) :=
  let arity := arguments.length
  if (t.builtin? name arity).isSome || (t.resolveDeclared? scope name arity).isSome then none
  else
    let id := t.functions.size
    let function : Function :=
      { id, name, returnType, arguments, level := t.level scope, isBuiltin := false }
    some ({ t with
      functions := t.functions.push function
      scopes := t.scopes.modify scope fun e => { e with functions := e.functions.push id } }, id)

end Table

end Quill.Scope
