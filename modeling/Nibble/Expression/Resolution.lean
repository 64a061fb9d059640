import Nibble.Expression.Script
import Nibble.Expression.Value
import Nibble.Table

set_option autoImplicit false

/-! Which names mean anything. Names are resolved before anything is computed, so that an unknown
name is reported even where it would not be reached. A name that a script assigns anywhere means the
script's own variable everywhere in it, and none may be assigned twice. -/

namespace Nibble.Expression

open Text (ascii)

def constants : List (Text × Value) :=
  [(ascii "None", .none), (ascii "True", .bool true), (ascii "False", .bool false)]

/-- The names that need no definition. -/
def universal? (name : Text) : Option Value :=
  match constants.lookup name with
  | some value => some value
  | none => (Builtin.table.lookup name).map .builtin

/-! ### Targets -/

mutual

/-- The names that a target of an assignment binds; not every tree is a target. -/
def Tree.targetNames? : Tree → Option (List Text)
  | .name name => some [name]
  | .list items => targetListNames? items
  | .tuple items => targetListNames? items
  | .index _ _ => some []
  | .attribute _ _ => some []
  | _ => none

def targetListNames? : List Tree → Option (List Text)
  | [] => some []
  | first :: rest =>
      match first.targetNames?, targetListNames? rest with
      | some names, some others => some (names ++ others)
      | _, _ => none

end

def Clauses.variables? : Clauses → Option (List Text)
  | .item _ => some []
  | .entry _ _ => some []
  | .each target _ rest =>
      match target.targetNames?, rest.variables? with
      | some names, some others => some (names ++ others)
      | _, _ => none
  | .filter _ rest => rest.variables?

/-! ### Calls -/

/-- A call has fewer arguments by position than this, and fewer by name. -/
def argumentLimit : Nat := 256

structure Seen where
  positional : Nat := 0
  names : List Text := []
  spread : Bool := false
  spreadNamed : Bool := false

/-- Whether arguments stand in order: those by position, those by name and without repetition, one
spread, and one spread of names. -/
def argumentOrder (seen : Seen) : List Argument → Bool
  | [] => seen.positional < argumentLimit && seen.names.length < argumentLimit
  | .positional _ :: rest =>
      seen.names.isEmpty && !seen.spread && !seen.spreadNamed &&
        argumentOrder { seen with positional := seen.positional + 1 } rest
  | .named name _ :: rest =>
      !seen.names.contains name && !seen.spread && !seen.spreadNamed &&
        argumentOrder { seen with names := name :: seen.names } rest
  | .spread _ :: rest =>
      !seen.spread && !seen.spreadNamed && argumentOrder { seen with spread := true } rest
  | .spreadNamed _ :: rest =>
      !seen.spreadNamed && argumentOrder { seen with spreadNamed := true } rest

/-! ### Trees -/

mutual

def Tree.resolves (known : Text → Bool) : Tree → Bool
  | .integer _ | .float _ | .string _ | .omitted => true
  | .name name => known name
  | .list items | .tuple items => resolveAll known items
  | .dict entries => resolveEntries known entries
  | .listOf _ clauses | .dictOf _ clauses =>
      match clauses.variables? with
      | none => false
      | some names => clauses.resolves known (fun name => names.contains name || known name)
  | .unary _ operand => operand.resolves known
  | .binary _ left right => left.resolves known && right.resolves known
  | .conditional condition yes no =>
      condition.resolves known && yes.resolves known && no.resolves known
  | .call callee arguments =>
      callee.resolves known && argumentOrder {} arguments && resolveArguments known arguments
  | .index subject position => subject.resolves known && position.resolves known
  | .slice subject low high step =>
      subject.resolves known && low.resolves known && high.resolves known && step.resolves known
  | .attribute subject _ => subject.resolves known

def resolveAll (known : Text → Bool) : List Tree → Bool
  | [] => true
  | first :: rest => first.resolves known && resolveAll known rest

def resolveEntries (known : Text → Bool) : List Entry → Bool
  | [] => true
  | .pair key value :: rest =>
      key.resolves known && value.resolves known && resolveEntries known rest

def resolveArguments (known : Text → Bool) : List Argument → Bool
  | [] => true
  | .positional value :: rest => value.resolves known && resolveArguments known rest
  | .named _ value :: rest => value.resolves known && resolveArguments known rest
  | .spread value :: rest => value.resolves known && resolveArguments known rest
  | .spreadNamed value :: rest => value.resolves known && resolveArguments known rest

/-- The first subject belongs to the surroundings of a comprehension, and all else to its inside. -/
def Clauses.resolves (outside inside : Text → Bool) : Clauses → Bool
  | .item value => value.resolves inside
  | .entry key value => key.resolves inside && value.resolves inside
  | .each target subject rest =>
      subject.resolves outside && target.resolvesTarget inside && rest.resolves inside inside
  | .filter condition rest => condition.resolves inside && rest.resolves inside inside

/-- Whether the names that a target uses without binding them are known. -/
def Tree.resolvesTarget (known : Text → Bool) : Tree → Bool
  | .list items | .tuple items => resolveTargets known items
  | .index subject position => subject.resolves known && position.resolves known
  | .attribute subject _ => subject.resolves known
  | _ => true

def resolveTargets (known : Text → Bool) : List Tree → Bool
  | [] => true
  | first :: rest => first.resolvesTarget known && resolveTargets known rest

end

/-! ### Scripts -/

structure Bound where
  assigned : List Text := []
  loaded : List Text := []

namespace Bound

/-- A name is assigned once, and not behind a load of it. -/
def assign (bound : Bound) : List Text → Option Bound
  | [] => some bound
  | name :: rest =>
      if bound.assigned.contains name || bound.loaded.contains name then none
      else assign { bound with assigned := name :: bound.assigned } rest

/-- A name is loaded once. Names that are private elsewhere cannot be loaded. -/
def load (bound : Bound) : List (Text × Text) → Option Bound
  | [] => some bound
  | (name, here) :: rest =>
      if name.isEmpty || name.head? == some 95 || bound.loaded.contains here then none
      else load { bound with loaded := here :: bound.loaded } rest

def after (bound : Bound) : Sentence → Option Bound
  | .bare _ | .pass => some bound
  | .assign target _ => target.targetNames?.bind bound.assign
  | .augment _ target _ =>
      match target with
      | .list _ | .tuple _ => none
      | target => target.targetNames?.bind bound.assign
  | .load names => bound.load names
  | .misplaced => none

def names (bound : Bound) : List Text :=
  bound.assigned ++ bound.loaded

end Bound

def Sentence.resolves (known : Text → Bool) : Sentence → Bool
  | .bare value => value.resolves known
  | .assign target value => target.resolvesTarget known && value.resolves known
  | .augment _ target value => target.resolvesTarget known && value.resolves known
  | .load _ | .pass => true
  | .misplaced => false

def resolve? (numbers : Table Nat) (script : List Sentence) : Option (List Text) := do
  let bound ← script.foldlM Bound.after {}
  let known := fun name =>
    bound.names.contains name || numbers.has name || (universal? name).isSome
  if script.all (Sentence.resolves known) then return bound.names else none

end Nibble.Expression
