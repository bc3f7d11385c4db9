import Quill.Scope.Table

/-! # Assigned identifiers

A table records where each identifier has been assigned.  An assignment in the very scope that
declares the identifier holds from there on everywhere; an assignment in an inner block vouches
for that block and the blocks inside it. -/

namespace Quill.Scope.Table

/-- The record of an identifier as assigned everywhere. -/
def markEverywhere (t : Table) (id : Nat) : Table :=
  { t with identifiers := t.identifiers.modify id fun i => { i with assigned := .everywhere } }

/-- The record of an identifier as assigned in one more block. -/
def markInBlock (t : Table) (id block : Nat) : Table :=
  { t with identifiers := t.identifiers.modify id fun i =>
      { i with assigned := match i.assigned with
        | .everywhere => .everywhere
        | .inBlocks blocks =>
          .inBlocks (if blocks.contains block then blocks else blocks.push block) } }

/-- The record of an assignment in a block. -/
def markAssigned (t : Table) (id block : Nat) : Table :=
  if (t.identifiers[id]?.map (·.scope)) = some block then t.markEverywhere id
  else t.markInBlock id block

/-- The identifier's own record vouches for the block. -/
def isAssigned (t : Table) (id block : Nat) : Bool :=
  match t.identifiers[id]? with
  | some i => i.assigned.covers block
  | none => false

/-- The record vouches for one of the scopes, the search ending with the declaring scope. -/
def coveredUpTo (i : Identifier) : List Nat → Bool
  | [] => false
  | s :: rest => i.assigned.covers s || (s != i.scope && coveredUpTo i rest)

/-- The record vouches for the block or for a block around it, up to the declaring scope. -/
def isAssignedAlong (t : Table) (id block : Nat) : Bool :=
  match t.identifiers[id]? with
  | some i => i.assigned == .everywhere || coveredUpTo i (t.ancestors block)
  | none => false

/-- The record names the block itself. -/
def namesBlock (i : Identifier) (block : Nat) : Bool :=
  match i.assigned with
  | .everywhere => false
  | .inBlocks blocks => blocks.contains block

/-- The identifiers whose record names the block, in the order of their numbers. -/
def assignedIn (t : Table) (block : Nat) : List Nat :=
  (t.identifiers.toList.filter (namesBlock · block)).map (·.id)

/-- The records of the assignments of a list of identifiers in a block. -/
def markAllAssigned (t : Table) (ids : List Nat) (block : Nat) : Table :=
  ids.foldl (fun t id => t.markAssigned id block) t

/-- What was assigned in a block that is always run is assigned around it. -/
def promote (t : Table) (inner outer : Nat) : Table :=
  t.markAllAssigned (t.assignedIn inner) outer

/-- What was assigned in both branches is assigned around them. -/
def promoteBoth (t : Table) (one other outer : Nat) : Table :=
  let inOther := t.assignedIn other
  t.markAllAssigned ((t.assignedIn one).filter (inOther.contains ·)) outer

end Quill.Scope.Table
