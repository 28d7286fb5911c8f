/-
Module: Puter.Kv.UpdateExpression
Purpose: The meaning of an update expression of the database that the KV store writes to: document paths
  of placeholders and list indexes, the table of attribute names that the placeholders stand for, the
  checks that refuse an expression, and the SET and REMOVE clauses. Right sides are computed on the item
  as it was; an expression changes the item as a whole or not at all.
Trusted boundary: the database itself; this is its documented behaviour
Main exports: DocumentPath, UpdateExpression.run
-/
import Puter.Library.Document
import Puter.Permission.PermissionUtil

namespace Puter

open Document

abbrev Json := Document Text ℚ

abbrev Attributes := List (Text × Json)

/-- One element of a document path as the text has it: a placeholder, `#` and a name of letters, digits
    and underscores, and what follows it before the next dot. -/
structure PathElement where
  placeholder : Text
  suffix : Text
deriving DecidableEq, Repr

abbrev DocumentPath := List PathElement

abbrev AttributeNames := List (Text × Text)

/-- A value in an expression: given with it, or what stands at a path with a value for its absence. -/
inductive Operand where
  | value (given : Json)
  | ifNotExists (path : DocumentPath) (given : Json)

inductive SetValue where
  | operand (one : Operand)
  | plus (one other : Operand)
  | listAppend (one other : Operand)

/-- An update expression: one SET or one REMOVE clause. -/
inductive UpdateExpression where
  | set (actions : List (DocumentPath × SetValue))
  | remove (paths : List DocumentPath)

/-- The refusals of the database, all of them a ValidationException. -/
inductive UpdateError where
  /-- `ExpressionAttributeNames contains invalid key` -/
  | invalidName
  /-- `Invalid UpdateExpression: Expression size has exceeded the maximum allowed size` -/
  | oversized
  /-- `Invalid UpdateExpression`: a syntax error, a placeholder that is not defined, two document paths
      that overlap or conflict -/
  | invalidExpression
  /-- `Value provided in ExpressionAttributeNames unused in expressions` -/
  | unusedName
  /-- `The document path provided in the update expression is invalid for update` -/
  | invalidPath
  /-- `An operand in the update expression has an incorrect data type` -/
  | operandType
deriving DecidableEq, Repr

/-- The characters of a placeholder after the `#`. -/
def wordChar (c : Char) : Bool := c.isAlphanum || c == '_'

def validPlaceholder : Text → Bool
  | '#' :: c :: rest => wordChar c && rest.all wordChar
  | _ => false

/-- Read the indexes `[0][12]` after a placeholder. `inside` holds the number read so far within
    brackets, if a digit of it was read. -/
def indexesFrom (inside : Option (Option ℕ)) : Text → Option (List ℕ)
  | [] => if inside.isNone then some [] else none
  | c :: rest =>
      match inside with
      | none => if c = '[' then indexesFrom (some none) rest else none
      | some digits =>
          if c.isDigit then
            indexesFrom (some (some (digits.getD 0 * 10 + (c.toNat - '0'.toNat)))) rest
          else if c = ']' then
            match digits with
            | some n => (indexesFrom none rest).map (n :: ·)
            | none => none
          else none

def indexes (suffix : Text) : Option (List ℕ) := indexesFrom none suffix

@[simp] theorem indexes_nil : indexes [] = some [] := rfl

def resolveElement (names : AttributeNames) (element : PathElement) :
    Except UpdateError (Location Text) :=
  match indexes element.suffix, names.lookup element.placeholder with
  | some numbers, some name => .ok (.key name :: numbers.map .index)
  | _, _ => .error .invalidExpression

def resolvePath (names : AttributeNames) : DocumentPath → Except UpdateError (Location Text)
  | [] => .ok []
  | element :: rest => do
      let first ← resolveElement names element
      let others ← resolvePath names rest
      pure (first ++ others)

/-- Two document paths overlap, or conflict: where they part, one goes on by a key and the other by an
    index. -/
def clashes : Location Text → Location Text → Bool
  | [], _ => true
  | _, [] => true
  | one :: rest, other :: rest' =>
      if one = other then clashes rest rest'
      else
        match one, other with
        | .key _, .index _ => true
        | .index _, .key _ => true
        | _, _ => false

def anyClash : List (Location Text) → Bool
  | [] => false
  | loc :: rest => rest.any (clashes loc) || anyClash rest

namespace Operand

def paths : Operand → List DocumentPath
  | .value _ => []
  | .ifNotExists path _ => [path]

def eval (names : AttributeNames) (item : Json) : Operand → Except UpdateError Json
  | .value given => .ok given
  | .ifNotExists path given => do
      let loc ← resolvePath names path
      pure ((lookup loc item).getD given)

end Operand

namespace SetValue

def paths : SetValue → List DocumentPath
  | .operand one => one.paths
  | .plus one other | .listAppend one other => one.paths ++ other.paths

def eval (names : AttributeNames) (item : Json) : SetValue → Except UpdateError Json
  | .operand one => one.eval names item
  | .plus one other => do
      match ← one.eval names item, ← other.eval names item with
      | .number m, .number n => pure (.number (m + n))
      | _, _ => throw .operandType
  | .listAppend one other => do
      match ← one.eval names item, ← other.eval names item with
      | .list items, .list more => pure (.list (items ++ more))
      | _, _ => throw .operandType

end SetValue

def removable (item : Json) (loc : Location Text) : Bool :=
  match loc.getLast?, lookup loc.dropLast item with
  | some (.key _), some (.map _) => true
  | some (.index _), some (.list _) => true
  | _, _ => false

namespace UpdateExpression

def targets : UpdateExpression → List DocumentPath
  | .set actions => actions.map Prod.fst
  | .remove paths => paths

def paths : UpdateExpression → List DocumentPath
  | .set actions => actions.flatMap fun action => action.1 :: action.2.paths
  | .remove paths => paths

def hasUnusedName (expression : UpdateExpression) (names : AttributeNames) : Bool :=
  names.any fun name => !expression.paths.any fun path =>
    path.any fun element => element.placeholder == name.1

def evalActions (names : AttributeNames) (item : Json) :
    List (DocumentPath × SetValue) → Except UpdateError (List (Location Text × Json))
  | [] => .ok []
  | action :: rest => do
      let loc ← resolvePath names action.1
      let value ← action.2.eval names item
      let others ← evalActions names item rest
      pure ((loc, value) :: others)

def resolvePaths (names : AttributeNames) : List DocumentPath → Except UpdateError (List (Location Text))
  | [] => .ok []
  | path :: rest => do
      let loc ← resolvePath names path
      let others ← resolvePaths names rest
      pure (loc :: others)

def attributesOf : Json → Attributes
  | .map fields => fields
  | _ => []

def apply (expression : UpdateExpression) (names : AttributeNames) (item : Attributes) :
    Except UpdateError Attributes :=
  match expression with
  | .set actions => do
      let puts ← evalActions names (.map item) actions
      match assignAll puts (.map item) with
      | some changed => pure (attributesOf changed)
      | none => throw .invalidPath
  | .remove paths => do
      let locs ← resolvePaths names paths
      if locs.all (removable (.map item)) then
        pure (attributesOf (prune (fun loc => locs.contains loc) (.map item)))
      else throw .invalidPath

def refuse (refused : Bool) (error : UpdateError) : Except UpdateError Unit :=
  if refused then .error error else .ok ()

/-- Run an update expression on an item. `tooLarge` says that its text exceeds the size limit. -/
def run (tooLarge : UpdateExpression → Bool) (names : AttributeNames) (expression : UpdateExpression)
    (item : Attributes) : Except UpdateError Attributes := do
  refuse (names.any fun name => !validPlaceholder name.1) .invalidName
  refuse (tooLarge expression) .oversized
  let _ ← resolvePaths names expression.paths
  let targets ← resolvePaths names expression.targets
  refuse (anyClash targets) .invalidExpression
  refuse (expression.hasUnusedName names) .unusedName
  expression.apply names item

end UpdateExpression

theorem except_bind_ok {ε α β : Type} {first : Except ε α} {next : α → Except ε β} {b : β} :
    (first >>= next) = .ok b ↔ ∃ a, first = .ok a ∧ next a = .ok b := by
  cases first with
  | error e => simp [bind, Except.bind]
  | ok a => simp [bind, Except.bind]

theorem except_bind_error {ε α β : Type} {first : Except ε α} {next : α → Except ε β} {e : ε} :
    (first >>= next) = .error e ↔ first = .error e ∨ ∃ a, first = .ok a ∧ next a = .error e := by
  cases first with
  | error e => simp [bind, Except.bind]
  | ok a => simp [bind, Except.bind]

theorem refuse_error {refused : Bool} {error e : UpdateError} :
    UpdateExpression.refuse refused error = .error e ↔ refused = true ∧ error = e := by
  cases refused <;> simp [UpdateExpression.refuse]

theorem refuse_ok {refused : Bool} {error : UpdateError} {u : Unit} :
    UpdateExpression.refuse refused error = .ok u ↔ refused = false := by
  cases refused <;> simp [UpdateExpression.refuse]

theorem UpdateExpression.run_ok {tooLarge : UpdateExpression → Bool} {names : AttributeNames}
    {expression : UpdateExpression} {item item' : Attributes}
    (ran : expression.run tooLarge names item = .ok item') :
    tooLarge expression = false ∧
      ∃ targets, resolvePaths names expression.targets = .ok targets ∧ anyClash targets = false ∧
        expression.apply names item = .ok item' := by
  unfold run at ran
  obtain ⟨_, -, ran⟩ := except_bind_ok.mp ran
  obtain ⟨_, size, ran⟩ := except_bind_ok.mp ran
  obtain ⟨_, -, ran⟩ := except_bind_ok.mp ran
  obtain ⟨targets, resolved, ran⟩ := except_bind_ok.mp ran
  obtain ⟨_, clash, ran⟩ := except_bind_ok.mp ran
  obtain ⟨_, -, ran⟩ := except_bind_ok.mp ran
  exact ⟨refuse_ok.mp size, targets, resolved, refuse_ok.mp clash, ran⟩

theorem clashes_of_overlap {one other : Location Text} (overlap : Overlap one other) :
    clashes one other = true := by
  induction one generalizing other with
  | nil => rfl
  | cons step rest ih =>
      cases other with
      | nil => rfl
      | cons step' rest' =>
          have same : step = step' := by
            rcases overlap with below | below
            · exact (List.cons_prefix_cons.mp below).1
            · exact (List.cons_prefix_cons.mp below).1.symm
          subst same
          simpa [clashes] using ih (Overlap.cons.mp overlap)

theorem pairwise_of_anyClash {locs : List (Location Text)} (clear : anyClash locs = false) :
    locs.Pairwise fun one other => ¬ Overlap one other := by
  induction locs with
  | nil => exact .nil
  | cons loc rest ih =>
      simp only [anyClash, Bool.or_eq_false_iff, List.any_eq_false] at clear
      refine List.pairwise_cons.mpr ⟨fun other member overlap => ?_, ih clear.2⟩
      exact clear.1 other member (clashes_of_overlap overlap)

end Puter
