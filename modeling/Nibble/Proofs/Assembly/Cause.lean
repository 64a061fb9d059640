import Nibble.Assembly.Pass
import Nibble.Proofs.Assembly.Edits

set_option autoImplicit false

/-! The causes of failures. Whatever goes wrong on a line by itself is a cause that is seen from no
further out, and it is no recursion: that one arises where a macro is invoked, and nowhere else. A
repeated label arises where the labels of a line are taken, and nowhere else; the size of the
program is exceeded where a statement is added, and nowhere else. -/

namespace Nibble

namespace Failure

/-- The macros in whose expansions a failure arose, the outermost first. -/
def expansions : Failure → List Text
  | inMacro name _ cause => name :: cause.expansions
  | atLine _ _ cause => cause.expansions
  | executing _ _ cause => cause.expansions
  | running _ cause => cause.expansions
  | _ => []

/-- Whether a failure is seen from where it arose. -/
def isCause : Failure → Bool
  | atLine _ _ _ | inMacro _ _ _ | executing _ _ _ | running _ _ => false
  | _ => true

/-- A cause that is no recursion and not the size of the program. -/
structure Simple (failure : Failure) : Prop where
  cause : failure.isCause = true
  other : failure ≠ .plain .macroRecursion
  sized : failure ≠ .plain .programSize

/-- A cause that is neither of these nor a repeated label. -/
structure Ordinary (failure : Failure) : Prop extends Simple failure where
  unrepeated : failure ≠ .plain .labelDuplicate

theorem expansions_of_isCause {failure : Failure} (cause : failure.isCause = true) :
    failure.expansions = [] := by
  cases failure with
  | atLine number line inner | inMacro name number inner | executing address word inner
  | running number inner => cases cause
  | _ => rfl

theorem root_of_isCause {failure : Failure} (cause : failure.isCause = true) :
    failure.root = failure := by
  cases failure with
  | atLine number line inner | inMacro name number inner | executing address word inner
  | running number inner => cases cause
  | _ => rfl

theorem root_of_reason? {failure : Failure} {reason : Reason}
    (found : failure.reason? = some reason) : failure.root = .plain reason := by
  unfold reason? at found
  split at found
  · next root =>
    cases found
    exact root
  · cases found

theorem eq_plain_of_reason? {failure : Failure} {reason : Reason} (cause : failure.isCause = true)
    (found : failure.reason? = some reason) : failure = .plain reason := by
  rw [← root_of_reason? found, root_of_isCause cause]

theorem Simple.reason?_ne {failure : Failure} (simple : failure.Simple) :
    failure.reason? ≠ some .macroRecursion :=
  fun recursion => simple.other (eq_plain_of_reason? simple.cause recursion)

theorem Simple.reason?_ne_size {failure : Failure} (simple : failure.Simple) :
    failure.reason? ≠ some .programSize :=
  fun large => simple.sized (eq_plain_of_reason? simple.cause large)

theorem Ordinary.reason?_ne {failure : Failure} (ordinary : failure.Ordinary) :
    failure.reason? ≠ some .labelDuplicate :=
  fun repeated => ordinary.unrepeated (eq_plain_of_reason? ordinary.cause repeated)

end Failure

/-- A result that has no failure but one of a kind. -/
def FailsBy {α : Type} (kind : Failure → Prop) (result : Except Failure α) : Prop :=
  ∀ failure, result = .error failure → kind failure

namespace FailsBy

variable {α β : Type} {kind : Failure → Prop}

theorem ok (value : α) : FailsBy kind (.ok value : Except Failure α) := nofun

theorem error {failure : Failure} (meets : kind failure) :
    FailsBy kind (.error failure : Except Failure α) := by
  rintro _ ⟨⟩
  exact meets

theorem bind {first : Except Failure α} {second : α → Except Failure β}
    (start : FailsBy kind first) (rest : ∀ value, FailsBy kind (second value)) :
    FailsBy kind (first >>= second) := by
  intro failure failed
  cases first with
  | error cause =>
      cases failed
      exact start _ rfl
  | ok value => exact rest value failure failed

end FailsBy

/-! ### Directives -/

namespace Directive

open FailsBy
open Failure (Ordinary)

theorem ordinary_immediate (limit : Nat) (word : Text) :
    FailsBy Ordinary (immediate limit word) := by
  unfold immediate
  split
  · exact error ⟨⟨rfl, nofun, nofun⟩, nofun⟩
  · split
    · exact error ⟨⟨rfl, nofun, nofun⟩, nofun⟩
    · exact ok _

theorem ordinary_register (word : Text) : FailsBy Ordinary (register word) := by
  unfold register
  split
  · exact ok _
  · exact error ⟨⟨rfl, nofun, nofun⟩, nofun⟩

theorem ordinary_twoOperands (operands : List Text) : FailsBy Ordinary (twoOperands operands) := by
  unfold twoOperands
  split
  · exact ok _
  · exact error ⟨⟨rfl, nofun, nofun⟩, nofun⟩
  · exact error ⟨⟨rfl, nofun, nofun⟩, nofun⟩

theorem ordinary_wordPair (operation : Operation) (x y : UInt8) :
    FailsBy Ordinary (Word.pair operation x y) := by
  unfold Word.pair
  split
  · exact ok _
  · exact error ⟨⟨rfl, nofun, nofun⟩, nofun⟩

theorem ordinary_dataWords (operands : List Text) : FailsBy Ordinary (dataWords operands) := by
  induction operands with
  | nil => exact ok _
  | cons word rest ih =>
      refine bind (ordinary_immediate _ _) fun value => ?_
      exact bind ih fun others => ok _

theorem ordinary_call (operands : List Text) : FailsBy Ordinary (call operands) := by
  unfold call
  split
  · exact error ⟨⟨rfl, nofun, nofun⟩, nofun⟩
  · next target =>
    split
    · exact ok _
    · split
      · exact ok _
      · exact error ⟨⟨rfl, nofun, nofun⟩, nofun⟩
    · next failure _ failed => exact error (ordinary_immediate _ _ failure failed)
  · exact error ⟨⟨rfl, nofun, nofun⟩, nofun⟩

theorem ordinary_skip (encode : UInt8 → UInt8 → Word) (operands : List Text) :
    FailsBy Ordinary (skip encode operands) := by
  refine bind (ordinary_twoOperands _) fun pair => ?_
  refine bind (ordinary_register _) fun x => ?_
  exact bind (ordinary_immediate _ _) fun value => ok _

theorem ordinary_either (operation : Operation) (limit : Nat) (encode : UInt8 → UInt8 → Word)
    (operands : List Text) : FailsBy Ordinary (either operation limit encode operands) := by
  refine bind (ordinary_twoOperands _) fun pair => ?_
  refine bind (ordinary_register _) fun x => ?_
  split
  · exact bind (ordinary_wordPair _ _ _) fun word => ok _
  · exact bind (ordinary_immediate _ _) fun value => ok _

theorem ordinary_pair (operation : Operation) (operands : List Text) :
    FailsBy Ordinary (pair operation operands) := by
  refine bind (ordinary_twoOperands _) fun names => ?_
  refine bind (ordinary_register _) fun x => ?_
  refine bind (ordinary_register _) fun y => ?_
  exact bind (ordinary_wordPair _ _ _) fun word => ok _

theorem ordinary_bare (word : Word) (operands : List Text) :
    FailsBy Ordinary (bare word operands) := by
  cases operands with
  | nil => exact ok _
  | cons first rest => exact error ⟨⟨rfl, nofun, nofun⟩, nofun⟩

theorem ordinary_ofWords (first : Text) (operands : List Text) :
    FailsBy Ordinary (ofWords first operands) := by
  unfold ofWords
  split
  · unfold origin?
    split
    · exact bind (ordinary_immediate _ _) fun value => ok _
    · exact error ⟨⟨rfl, nofun, nofun⟩, nofun⟩
  · unfold data
    split
    · exact error ⟨⟨rfl, nofun, nofun⟩, nofun⟩
    · exact bind (ordinary_dataWords _) fun words => ok _
  · exact ordinary_bare _ _
  · exact ordinary_bare _ _
  · exact ordinary_call _
  · exact ordinary_skip _ _
  · exact ordinary_skip _ _
  · exact ordinary_either _ _ _ _
  · exact ordinary_either _ _ _ _
  · exact ordinary_pair _ _
  · exact ordinary_pair _ _
  · exact ordinary_pair _ _
  · exact error ⟨⟨rfl, nofun, nofun⟩, nofun⟩

end Directive

/-! ### Lines -/

namespace Substitution

theorem ordinary_expressionValue [Evaluator] (equates : Table Text) (text : Text) :
    FailsBy Failure.Ordinary (expressionValue equates text) := by
  unfold expressionValue
  split
  · exact .error ⟨⟨rfl, nofun, nofun⟩, nofun⟩
  · split
    · split
      · exact .ok _
      · exact .error ⟨⟨rfl, nofun, nofun⟩, nofun⟩
    · exact .error ⟨⟨rfl, nofun, nofun⟩, nofun⟩

theorem ordinary_expressions {valueOf : Text → Except Failure Nat}
    (each : ∀ inner, FailsBy Failure.Ordinary (valueOf inner)) (passed : Nat) (text : Text)
    {failure : Failure} (failed : (expressions valueOf passed text).2 = some failure) :
    failure.Ordinary := by
  induction text generalizing passed with
  | nil =>
      simp only [expressions] at failed
      cases failed
  | cons byte rest ih =>
      cases passed with
      | succ passed => exact ih passed failed
      | zero =>
          simp only [expressions] at failed
          split at failed
          · exact ih 0 failed
          · next inner _ =>
            split at failed
            · exact ih _ failed
            · next first cause =>
              rcases Option.or_eq_some_iff.mp failed with later | ⟨_, here⟩
              · exact ih _ later
              · cases here
                exact each inner _ cause

theorem ordinary_words [Evaluator] (equates : Table Text) (line : Text) :
    FailsBy Failure.Ordinary (words equates line) := by
  unfold words
  split
  · next failed =>
    have cause := congrArg Prod.snd failed
    exact .error (ordinary_expressions (ordinary_expressionValue equates) _ _ cause)
  · exact .ok _

end Substitution

namespace Assembly

theorem ordinary_define (assembly : Assembly) (operands : List Text) {failure : Failure}
    (failed : (assembly.define operands).failure = some failure) : failure.Ordinary := by
  unfold define at failed
  split at failed
  · split at failed
    · cases failed
      exact ⟨⟨rfl, nofun, nofun⟩, nofun⟩
    · cases failed
  · cases failed
    exact ⟨⟨rfl, nofun, nofun⟩, nofun⟩

theorem simple_takeLabels (assembly : Assembly) (words : List Text) :
    FailsBy Failure.Simple (assembly.takeLabels words).2 := by
  induction words generalizing assembly with
  | nil => exact .ok _
  | cons word rest ih =>
      unfold takeLabels
      split
      · exact .ok _
      · split
        · exact .error ⟨rfl, nofun, nofun⟩
        · exact ih _

/-- Everything that carrying out the words of a line can come to. -/
inductive Emits (assembly : Assembly) : Outcome → Prop where
  | idle : Emits assembly assembly.done
  | refused (failure : Failure) (ordinary : failure.Ordinary) :
      Emits assembly (assembly.fail failure)
  | moved (address : Nat) : Emits assembly ((Edit.origin address).apply assembly).done
  | added (statement : Statement) (place : statement.address = assembly.location)
      (fits : ((Edit.statement statement).apply assembly).location ≤ Memory.size) :
      Emits assembly ((Edit.statement statement).apply assembly).done
  | overflowed (statement : Statement) (place : statement.address = assembly.location)
      (beyond : Memory.size < ((Edit.statement statement).apply assembly).location) :
      Emits assembly (((Edit.statement statement).apply assembly).fail (.plain .programSize))

theorem emits (assembly : Assembly) (number : Nat) (words : List Text) :
    assembly.Emits (assembly.emit number words) := by
  cases words with
  | nil => exact .idle
  | cons first operands =>
      cases read : Directive.ofWords first operands with
      | error failure =>
          simp only [emit, read]
          exact .refused failure (Directive.ordinary_ofWords first operands failure read)
      | ok directive =>
          cases directive with
          | origin address =>
              by_cases backwards : address < assembly.location
              · simp only [emit, read, if_pos backwards]
                exact .refused _ ⟨⟨rfl, by rintro ⟨⟩, by rintro ⟨⟩⟩, by rintro ⟨⟩⟩
              · simp only [emit, read, if_neg backwards]
                exact .moved address
          | codes codes link =>
              simp only [emit, read]
              let statement : Statement :=
                { line := number, address := assembly.location, words := first :: operands, codes,
                  link }
              split
              · next beyond => exact .overflowed statement rfl beyond
              · next fits => exact .added statement rfl (Nat.le_of_not_lt fits)

theorem emit_failure_cases {assembly : Assembly} {number : Nat} {words : List Text}
    {failure : Failure} (failed : (assembly.emit number words).failure = some failure) :
    failure.Ordinary ∨ failure = .plain .programSize := by
  have result := assembly.emits number words
  generalize assembly.emit number words = outcome at result failed
  cases result with
  | idle | moved | added => cases failed
  | refused cause ordinary =>
      cases failed
      exact .inl ordinary
  | overflowed =>
      cases failed
      exact .inr rfl

end Assembly

end Nibble
