import Nibble.Expression.Builtin
import Nibble.Expression.Resolution
import Nibble.Source.Evaluator

set_option autoImplicit false

/-! The values of expressions and the effect of scripts: an evaluator for the part of the expression
language that sources use. -/

namespace Nibble.Expression

open Text (ascii)

/-- What names mean: the loop variables of the surrounding comprehensions from the innermost one on,
the variables of the script, and given numbers. -/
structure Scope where
  loops : List (Nat × List Text) := []
  names : List Text := []
  numbers : Table Nat := []

namespace Scope

def loop? (scope : Scope) (name : Text) : Option Nat :=
  (scope.loops.find? fun entry => entry.2.contains name).map Prod.fst

/-- Loop variables hide those of the script, which hide the numbers, and those hide the universal
names. A variable has no value before it is assigned. -/
def find? (scope : Scope) (store : Store) (name : Text) : Option Value :=
  match scope.loop? name with
  | some place => store.local? place name
  | none =>
      if scope.names.contains name then store.globals.find? name
      else
        match scope.numbers.find? name with
        | some number => some (.int number)
        | none => universal? name

def assign (scope : Scope) (name : Text) (value : Value) : Run Unit :=
  match scope.loop? name with
  | some place => Store.setLocal place name value
  | none => Store.setGlobal name value

/-- The inside of a comprehension. All its loop variables belong together, so that each hides what
is outside already before the clause that binds it; they keep their values from one evaluation of
the comprehension to the next. -/
def inside (scope : Scope) (place : Nat) (clauses : Clauses) : Scope :=
  { scope with loops := (place, clauses.variables?.getD []) :: scope.loops }

end Scope

def namedEntries : List Dict.Entry → Option (List (Text × Value))
  | [] => some []
  | entry :: rest =>
      match entry.key with
      | .string name => (namedEntries rest).map ((name.toList, entry.value) :: ·)
      | _ => none

def Contents.add (key value : Value) : Contents → Option Contents
  | items found => some (items (found.push value))
  | entries dict => (dict.insert key value).map entries

mutual

def Tree.value (scope : Scope) : Tree → Run Value
  | .integer value => return .int value
  | .float value => return .float value
  | .string bytes => return .ofText bytes
  | .name name => do scope.find? (← get) name
  | .omitted => return .none
  | .list items => do
      let values ← valueAll scope items
      Store.newList values.toArray
  | .tuple items => return .tuple (← valueAll scope items)
  | .dict entries => do Store.newDict (← valueEntries scope {} entries)
  | .listOf place clauses => do
      let found ← clauses.collect scope (scope.inside place clauses) (.items #[])
      return .list (← Store.allocate found)
  | .dictOf place clauses => do
      let found ← clauses.collect scope (scope.inside place clauses) (.entries {})
      return .dict (← Store.allocate found)
  | .unary operator operand => do
      let found ← operand.value scope
      (← get).unary operator found
  | .binary .or left right => do
      let first ← left.value scope
      if (← get).truth first then return first else right.value scope
  | .binary .and left right => do
      let first ← left.value scope
      if (← get).truth first then right.value scope else return first
  | .binary operator left right => do
      let first ← left.value scope
      let second ← right.value scope
      Store.binary operator first second
  | .conditional condition yes no => do
      let found ← condition.value scope
      if (← get).truth found then yes.value scope else no.value scope
  | .call callee arguments => do
      let called ← callee.value scope
      let (positional, named) ← valueArguments scope arguments
      match called with
      | .builtin builtin => builtin.apply positional named
      | _ => failure
  | .index subject position => do
      let first ← subject.value scope
      let second ← position.value scope
      (← get).index first second
  | .slice subject low high step => do
      let first ← subject.value scope
      let second ← low.value scope
      let third ← high.value scope
      let fourth ← step.value scope
      Store.slice first second third fourth
  | .attribute _ _ => failure

def valueAll (scope : Scope) : List Tree → Run (List Value)
  | [] => return []
  | first :: rest => do
      let value ← first.value scope
      let values ← valueAll scope rest
      return value :: values

/-- The dictionary of entries, none of which repeats a key. -/
def valueEntries (scope : Scope) (dict : Dict) : List Entry → Run Dict
  | [] => return dict
  | .pair key value :: rest => do
      let first ← key.value scope
      let second ← value.value scope
      let larger ← dict.insert first second
      if larger.size = dict.size then failure else valueEntries scope larger rest

def valueArguments (scope : Scope) : List Argument → Run (List Value × List (Text × Value))
  | [] => return ([], [])
  | .positional tree :: rest => do
      let value ← tree.value scope
      let (positional, named) ← valueArguments scope rest
      return (value :: positional, named)
  | .named name tree :: rest => do
      let value ← tree.value scope
      let (positional, named) ← valueArguments scope rest
      return (positional, (name, value) :: named)
  | .spread tree :: rest => do
      let value ← tree.value scope
      let (positional, named) ← valueArguments scope rest
      let elements ← (← get).elements? value
      return (elements.toArray.toList ++ positional, named)
  | .spreadNamed tree :: rest => do
      let value ← tree.value scope
      let (positional, named) ← valueArguments scope rest
      match value with
      | .dict cell =>
          let others ← namedEntries ((← get).entries cell).entries.toList
          return (positional, others ++ named)
      | _ => failure

/-- Adds to found contents what a comprehension yields. The first subject is evaluated in its
surroundings, and all else inside it. -/
def Clauses.collect (outside inside : Scope) (found : Contents) : Clauses → Run Contents
  | .item value => do
      let item ← value.value inside
      found.add .none item
  | .entry key value => do
      let first ← key.value inside
      let second ← value.value inside
      found.add first second
  | .each target subject rest => do
      let value ← subject.value outside
      let elements ← (← get).elements? value
      Store.countLoops (· + 1) value
      let more ← elements.each found fun contents item => do
        target.assign inside item
        rest.collect inside inside contents
      Store.countLoops (· - 1) value
      return more
  | .filter condition rest => do
      let passed ← condition.value inside
      if (← get).truth passed then rest.collect inside inside found else return found

/-- Assigns a value to a target: a list of targets takes a value apart. -/
def Tree.assign (scope : Scope) (value : Value) : Tree → Run Unit
  | .name name => scope.assign name value
  | .list targets | .tuple targets => do
      let elements ← (← get).elements? value
      let values := elements.take (targets.length + 1)
      if values.length = targets.length then assignAll scope values targets else failure
  | .index subject position => do
      let first ← subject.value scope
      let second ← position.value scope
      Store.setIndex first second value
  | _ => failure

def assignAll (scope : Scope) (values : List Value) : List Tree → Run Unit
  | [] => return ()
  | target :: targets =>
      match values with
      | [] => failure
      | value :: others => do
          target.assign scope value
          assignAll scope others targets

end

/-! ### Scripts -/

def Sentence.run (scope : Scope) : Sentence → Run Unit
  | .bare value => do
      let _ ← value.value scope
  | .assign target value => do
      let found ← value.value scope
      target.assign scope found
  | .augment operator target value =>
      match target with
      | .index subject position => do
          let first ← subject.value scope
          let second ← position.value scope
          let old ← (← get).index first second
          let found ← value.value scope
          let new ← Store.inPlace operator old found
          Store.setIndex first second new
      | target => do
          let old ← target.value scope
          let found ← value.value scope
          let new ← Store.inPlace operator old found
          target.assign scope new
  | .pass => return ()
  | .load _ | .misplaced => failure

def complaint : ExpressionPhase → ExpressionError
  | .malformed => ⟨.malformed, ascii "expression malformed"⟩
  | .unresolved => ⟨.unresolved, ascii "expression names something unknown"⟩
  | .undefined => ⟨.undefined, ascii "expression has no value"⟩

def Value.seen : Value → Global
  | .int value => .integer value
  | _ => .other

def execute (script : Text) (numbers : Table Nat) : Except ExpressionError (Table Global) :=
  match Sentence.ofText script with
  | none => .error (complaint .malformed)
  | some sentences =>
      match resolve? numbers sentences with
      | none => .error (complaint .unresolved)
      | some names =>
          match (sentences.forM (Sentence.run { names, numbers })).run {} with
          | none => .error (complaint .undefined)
          | some ((), store) => .ok (store.globals.map fun entry => (entry.1, entry.2.seen))

end Nibble.Expression
