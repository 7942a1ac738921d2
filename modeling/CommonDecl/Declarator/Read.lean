import CommonDecl.Declarator
import CommonDecl.Level
import CommonDecl.Scope

/-!
# Reading C declarators

`Declarator.read` reads one declarator from a level and adds what it finds to a given declarator,
which is empty unless something was read into it before. It takes the left qualifiers and the base
type, or both from a template, then the right qualifiers, the nests with the name and its dimensions
inside them, and what follows: dimensions after the nests, or an argument list.
-/

namespace CommonDecl.Declarator

/-! ### The type -/

/-- The type that the current word of a level names. -/
def typeAt? (scope : Scope) (level : Level) : Option TypeRef :=
  level.word? >>= scope.lookup

/-- The level after a base type, if it starts with one. -/
def afterType (scope : Scope) (level : Level) : Level :=
  if (typeAt? scope level).isSome then level.next else level

/-- The level after the part of the type: nothing is read for a declarator with a template, as the
template has the type. -/
def afterTypePart (scope : Scope) (template : Option Declarator) (level : Level) : Level :=
  let level :=
    match template with
    | some _ => level
    | none => afterType scope level.afterLeftQualifiers
  level.afterQualifiers

/-- The declarator with its qualifiers and its base type. -/
def readType (scope : Scope) (template : Option Declarator) (declarator : Declarator)
    (level : Level) : Declarator :=
  match template with
  | some shared =>
    { declarator with
      left := shared.left
      base := shared.base
      right := declarator.right ++ level.qualifiers }
  | none =>
    let level' := level.afterLeftQualifiers
    { declarator with
      left := declarator.left ++ level.leftQualifiers
      base := (typeAt? scope level').or declarator.base
      right := declarator.right ++ (afterType scope level').qualifiers }

/-! ### The name -/

/-- The current item is a name, or stands for one. -/
def atName (level : Level) : Bool :=
  level.isIdentifier || level.isToken "..."

/-- The level after a name, if it starts with one. -/
def afterName (level : Level) : Level :=
  if atName level then level.next else level

/-- The declarator with the name and the dimensions that a level starts with. -/
def readName (declarator : Declarator) (level : Level) : Declarator :=
  { declarator with
    name := if atName level then level.value? else declarator.name
    dimensions := declarator.dimensions ++ (afterName level).dimensions }

/-! ### The kind -/

/-- The level inside a nest after its `*` and the qualifiers there. -/
def insideNest (contents : Level) : Level :=
  contents.next.afterQualifiers

/-- The level inside a nest is no heavier than the contents of its brackets. -/
theorem insideNest_suffix (contents : Level) : insideNest contents <:+ contents :=
  (Level.afterQualifiers_suffix _).trans (Level.next_suffix _)

/-- The level after the nest inside a nest, empty where `depth` says that there is no nest inside.
-/
def outsideNest (depth : Nat) (contents : Level) : Level :=
  if depth = 0 then [] else (insideNest contents).next

/-- The number of groups inside each other that start with `*`. -/
def nestsAt (level : Level) : Nat :=
  match _h : level.groupContents? .parenthesis with
  | some contents => if contents.isToken "*" then nestsAt (insideNest contents) + 1 else 0
  | none => 0
termination_by level.weight
decreasing_by
  have := Level.weight_lt_of_groupContents? _h
  have := Level.weight_le_of_suffix (insideNest_suffix contents)
  omega

/-- The kind of the declarator whose name or outermost of `nests` nests a level starts with. -/
def kindAt (nests : Nat) (level : Level) : DeclaratorKind :=
  if 0 < nests then
    if level.next.isGroup .parenthesis then .functionPointer else .variable
  else if !(afterName level).isGroup .parenthesis then .variable
  else if (afterName level).next.isGroup .brace then .functionDefinition
  else .functionDeclaration

/-- The level after the name, the nests and the dimensions of a declarator, where the argument list
of a function stands. -/
def afterNests (nests : Nat) (kind : DeclaratorKind) (level : Level) : Level :=
  if nests = 0 then (afterName level).afterDimensions
  else if kind.isFunction then level.next
  else level.next.afterDimensions

/-- The dimensions that stand after the nests of a declarator. -/
def dimensionsAfterNests (nests : Nat) (kind : DeclaratorKind) (level : Level) : List String :=
  if nests = 0 ∨ kind.isFunction then [] else level.next.dimensions

/-! ### Rests -/

theorem afterType_suffix (scope : Scope) (level : Level) : afterType scope level <:+ level := by
  unfold afterType
  split
  · exact Level.next_suffix level
  · exact List.suffix_refl level

theorem afterTypePart_suffix (scope : Scope) (template : Option Declarator) (level : Level) :
    afterTypePart scope template level <:+ level := by
  refine (Level.afterQualifiers_suffix _).trans ?_
  cases template with
  | none => exact (afterType_suffix _ _).trans (Level.afterLeftQualifiers_suffix _)
  | some => exact List.suffix_refl level

theorem afterName_suffix (level : Level) : afterName level <:+ level := by
  unfold afterName
  split
  · exact Level.next_suffix level
  · exact List.suffix_refl level

theorem afterNests_suffix (nests : Nat) (kind : DeclaratorKind) (level : Level) :
    afterNests nests kind level <:+ level := by
  unfold afterNests
  split
  · exact (Level.afterDimensions_suffix _).trans (afterName_suffix _)
  · split
    · exact Level.next_suffix level
    · exact (Level.afterDimensions_suffix _).trans (Level.next_suffix _)

/-- What follows the name or the nests of a declarator is no heavier than the declarator. -/
theorem weight_afterNests_le (scope : Scope) (template : Option Declarator) (nests : Nat)
    (kind : DeclaratorKind) (level : Level) :
    (afterNests nests kind (afterTypePart scope template level)).weight ≤ level.weight :=
  Level.weight_le_of_suffix <|
    (afterNests_suffix _ _ _).trans (afterTypePart_suffix scope template level)

theorem outsideNest_suffix (depth : Nat) (contents : Level) :
    outsideNest depth contents <:+ contents := by
  unfold outsideNest
  split
  · exact List.nil_suffix
  · exact (Level.next_suffix _).trans (insideNest_suffix contents)

/-! ### Reading -/

/-- The nest whose `*` is followed by the qualifiers `right`, with what stands after the nest inside
it: an argument list, if there is one, and dimensions. -/
def nestOf (right : Qualifiers) (arguments : Option (List Declarator)) (level : Level) :
    Declarator :=
  match arguments with
  | some arguments =>
    { kind := .nestedFunction, right, arguments, dimensions := level.next.dimensions }
  | none => { right, dimensions := level.dimensions }

mutual

/-- Reads a declarator at the start of a level, and gives the rest of the level. -/
def read (scope : Scope) (template : Option Declarator) (declarator : Declarator) (level : Level) :
    Except Fault (Declarator × Level) := do
  let core := afterTypePart scope template level
  let depth := nestsAt core
  let kind := kindAt depth core
  let rest := afterNests depth kind core
  let (nests, innermost) ← readNests scope depth core
  let typed := readType scope template declarator level
  let named := readName { typed with kind, nests := typed.nests ++ nests } innermost
  let declarator :=
    { named with
      outerDimensions := named.outerDimensions ++ dimensionsAfterNests depth kind core }
  if kind.isFunction then
    match ← readArgumentList scope rest with
    | some arguments =>
      return ({ declarator with arguments := declarator.arguments ++ arguments }, rest.next)
    | none => throw (.missingArguments (declarator.name.getD ""))
  else return (declarator, rest)
termination_by 3 * level.weight + 1
decreasing_by
  · have := Level.weight_le_of_suffix (afterTypePart_suffix scope template level)
    omega
  · exact Nat.lt_succ_of_le (Nat.mul_le_mul_left 3 (weight_afterNests_le _ _ _ _ _))

/-- Reads `depth` nests inside each other, outermost first, and gives the level inside the
innermost one. -/
def readNests (scope : Scope) (depth : Nat) (level : Level) :
    Except Fault (List Declarator × Level) :=
  match depth with
  | 0 => return ([], level)
  | depth + 1 =>
    match _h : level.contents? with
    | none => throw (.nestExpected level.value?)
    | some contents => do
      let outside := outsideNest depth contents
      let arguments ← readArgumentList scope outside
      let (nests, innermost) ← readNests scope depth (insideNest contents)
      return (nestOf contents.next.qualifiers arguments outside :: nests, innermost)
termination_by 3 * level.weight
decreasing_by
  · have := Level.weight_lt_of_contents? _h
    have := Level.weight_le_of_suffix (outsideNest_suffix depth contents)
    omega
  · have := Level.weight_lt_of_contents? _h
    have := Level.weight_le_of_suffix (insideNest_suffix contents)
    omega

/-- Reads the argument list that a level starts with, if it starts with one. -/
def readArgumentList (scope : Scope) (level : Level) : Except Fault (Option (List Declarator)) :=
  match _h : level.groupContents? .parenthesis with
  | some contents => do return some (← readArguments scope contents)
  | none => return none
termination_by 3 * level.weight
decreasing_by
  have := Level.weight_lt_of_groupContents? _h
  omega

/-- Reads arguments up to the end of a level: declarators, each with what follows it up to the next
comma. The rest is always shorter than the level, which the condition says. -/
def readArguments (scope : Scope) (level : Level) : Except Fault (List Declarator) :=
  if level.atEnd then return []
  else do
    let (argument, rest) ← read scope none {} level
    if (rest.skipPast ",").weight < level.weight then
      let arguments ← readArguments scope (rest.skipPast ",")
      return argument :: arguments
    else return [argument]
termination_by 3 * level.weight + 2
decreasing_by all_goals omega

end

/-! ### Induction -/

/-- Induction along `nestsAt`: from a level to the level inside its nest. -/
@[elab_as_elim]
theorem nestsAt_induct {motive : Level → Prop}
    (nest : ∀ level contents, level.groupContents? .parenthesis = some contents →
      contents.isToken "*" = true → motive (insideNest contents) → motive level)
    (noStar : ∀ level contents, level.groupContents? .parenthesis = some contents →
      ¬ contents.isToken "*" = true → motive level)
    (noGroup : ∀ level, level.groupContents? .parenthesis = none → motive level) (level : Level) :
    motive level :=
  nestsAt.induct motive nest noStar noGroup level

/-- Induction along the readers of declarators: what is shown of `read` rests on its nests and its
argument list, what is shown of the nests and the lists on what is read inside them. -/
theorem read_induct (scope : Scope) {onRead : Option Declarator → Declarator → Level → Prop}
    {onList onArguments : Level → Prop} {onNests : Nat → Level → Prop}
    (declarator : ∀ template declarator level,
      let core := afterTypePart scope template level
      let depth := nestsAt core
      let kind := kindAt depth core
      let rest := afterNests depth kind core
      onNests depth core → onList rest → onRead template declarator level)
    (list : ∀ level contents, level.groupContents? .parenthesis = some contents →
      onArguments contents → onList level)
    (noList : ∀ level, level.groupContents? .parenthesis = none → onList level)
    (noArgument : ∀ level : Level, level.atEnd = true → onArguments level)
    (argument : ∀ level : Level, ¬ level.atEnd = true → onRead none {} level →
      (∀ rest : Level, (rest.skipPast ",").weight < level.weight →
        onArguments (rest.skipPast ",")) →
        onArguments level)
    (innermost : ∀ level, onNests 0 level)
    (noNest : ∀ level depth, level.contents? = none → onNests (depth + 1) level)
    (nest : ∀ level depth contents, level.contents? = some contents →
      onList (outsideNest depth contents) → onNests depth (insideNest contents) →
        onNests (depth + 1) level) :
    (∀ template declarator level, onRead template declarator level) ∧ (∀ level, onList level) ∧
      (∀ level, onArguments level) ∧ ∀ depth level, onNests depth level :=
  read.mutual_induct scope onRead onList onArguments onNests declarator list noList noArgument
    argument innermost noNest nest

/-! ### Equations -/

theorem nestsAt_of_none {level : Level} (h : level.groupContents? .parenthesis = none) :
    nestsAt level = 0 := by
  rw [nestsAt]
  split
  · rename_i other hother
    rw [h] at hother
    cases hother
  · rfl

theorem nestsAt_of_group {level contents : Level}
    (h : level.groupContents? .parenthesis = some contents) :
    nestsAt level = if contents.isToken "*" then nestsAt (insideNest contents) + 1 else 0 := by
  rw [nestsAt]
  split
  · rename_i other hother
    rw [h, Option.some.injEq] at hother
    rw [hother]
  · rename_i hother
    rw [h] at hother
    cases hother

theorem readArgumentList_of_group {scope : Scope} {level contents : Level}
    (h : level.groupContents? .parenthesis = some contents) :
    readArgumentList scope level = some <$> readArguments scope contents := by
  rw [readArgumentList]
  split
  · rename_i other hother
    rw [h, Option.some.injEq] at hother
    rw [hother]
    rfl
  · rename_i hother
    rw [h] at hother
    cases hother

theorem readArgumentList_of_none {scope : Scope} {level : Level}
    (h : level.groupContents? .parenthesis = none) : readArgumentList scope level = .ok none := by
  rw [readArgumentList]
  split
  · rename_i other hother
    rw [h] at hother
    cases hother
  · rfl

theorem readNests_of_none {scope : Scope} {level : Level} (depth : Nat)
    (h : level.contents? = none) :
    readNests scope (depth + 1) level = .error (.nestExpected level.value?) := by
  rw [readNests]
  split
  · rfl
  · rename_i other hother
    rw [h] at hother
    cases hother

theorem readNests_of_contents {scope : Scope} {level contents : Level} (depth : Nat)
    (h : level.contents? = some contents) :
    readNests scope (depth + 1) level = do
      let arguments ← readArgumentList scope (outsideNest depth contents)
      let (nests, innermost) ← readNests scope depth (insideNest contents)
      return (nestOf contents.next.qualifiers arguments (outsideNest depth contents) :: nests,
        innermost) := by
  rw [readNests]
  split
  · rename_i hother
    rw [h] at hother
    cases hother
  · rename_i other hother
    rw [h, Option.some.injEq] at hother
    rw [hother]

end CommonDecl.Declarator
