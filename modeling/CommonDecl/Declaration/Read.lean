import CommonDecl.Declaration
import CommonDecl.Declarator.Read

/-!
# Reading C declarations

`Declaration.read` reads one statement from a level, together with the `;` that ends it. A look at
the qualifiers and the word after them decides whether the statement declares a type. The types that
a statement declares are added to the scope while it is read, so the members of a body can use them.
-/

namespace CommonDecl

/-! ### Lists of declarators -/

namespace Level

/-- The statement is over: nothing is left, or its `;` is the current item. -/
def atStatementEnd (level : Level) : Bool :=
  level.atEnd || level.isToken ";"

/-- The level after what follows a declarator, an initialiser for instance: after the next comma, or
at the end of the statement. -/
def afterDeclarator (level : Level) : Level :=
  let rest := level.skipToAny [",", ";"]
  if rest.isToken "," then rest.next else rest

/-- The level after the `;` that it may start with. -/
def afterSemicolon (level : Level) : Level :=
  if level.isToken ";" then level.next else level

theorem afterDeclarator_suffix (level : Level) : level.afterDeclarator <:+ level := by
  unfold afterDeclarator
  dsimp only
  split
  · exact (next_suffix _).trans (skipToAny_suffix _ _)
  · exact skipToAny_suffix _ _

/-- Reads declarators up to the end of the statement, each with what follows it. The rest after a
declarator is always shorter, which the condition says. -/
def readSeparated {α : Type} (read : Level → Except Fault (α × Level)) (level : Level) :
    Except Fault (List α × Level) :=
  if level.atStatementEnd then return ([], level)
  else do
    let (declarator, rest) ← read level
    if rest.afterDeclarator.length < level.length then
      let (declarators, rest) ← readSeparated read rest.afterDeclarator
      return (declarator :: declarators, rest)
    else return ([declarator], rest.afterDeclarator)
termination_by level.length

end Level

/-! ### Which statements declare a type -/

namespace TypeDecl

/-- The qualifiers that introduce a type with a tag. -/
def introducers : List String :=
  ["struct", "union", "enum", "class"]

/-- A declarator can end before the level: at its end, before a `;`, `,` or `=`, or before
dimensions or arguments. -/
def endsDeclarator (level : Level) : Bool :=
  level.atEnd || level.isToken ";" || level.isToken "," || level.isToken "=" ||
    level.isGroup .square || level.isGroup .parenthesis

/-- A statement declares a type: it is a typedef or starts with a body, its first word is followed
by a body, or that word is not known. An unknown word that ends the declarator is a name and no
type, unless it is introduced as a type. -/
def isDeclaredAt (scope : Scope) (level : Level) : Bool :=
  let qualifiers := level.leftQualifiers
  let rest := level.afterLeftQualifiers
  qualifiers.has "typedef" || rest.isGroup .brace ||
    (rest.isUnresolved && rest.value?.any (fun name => !scope.knows name) &&
      (introducers.any qualifiers.has || !endsDeclarator rest.next)) ||
    (rest.word?.isSome && rest.next.isGroup .brace)

/-! ### Parts of a type -/

/-- The current item names a type. -/
def atTypeName (level : Level) : Bool :=
  level.isIdentifier || level.isTypeKeyword

/-- The name of a type that the level starts with. -/
def typeName? (level : Level) : Option String :=
  if atTypeName level then level.value? else none

/-- The level after the name of a type, if it starts with one. -/
def afterTypeName (level : Level) : Level :=
  if atTypeName level then level.next else level

theorem afterTypeName_suffix (level : Level) : afterTypeName level <:+ level := by
  unfold afterTypeName
  split
  · exact Level.next_suffix level
  · exact List.suffix_refl level

/-- The body of a type after its qualifiers and name is lighter than the statement. -/
theorem weight_body_lt {level contents : Level}
    (h : (afterTypeName level.afterLeftQualifiers).groupContents? .brace = some contents) :
    contents.weight < level.weight := by
  have := Level.weight_lt_of_groupContents? h
  have := Level.weight_le_of_suffix
    ((afterTypeName_suffix _).trans (Level.afterLeftQualifiers_suffix level))
  omega

/-- The entry of an enum: a name, with a value where at least one item follows `=`. -/
def enumerator? : List String → Option Member
  | [] => none
  | name :: "=" :: first :: rest => some (.enumerator name (some (Text.joinTokens (first :: rest))))
  | name :: _ => some (.enumerator name none)

/-- The entries of an enum, separated by commas. -/
def enumerators (body : Level) : List Member :=
  (body.split ",").filterMap enumerator?

/-! ### Typedefs -/

/-- The type that is found by a name. One that is not found gets a placeholder. -/
def findOrDeclare (name : Option String) : Reading TypeRef := do
  let scope ← get
  match name >>= scope.lookup with
  | some found => return found
  | none => Reading.declare (.ofName name) true

/-- Reads the declarator of a typedef, and gives it with its name. -/
def readNamedDeclarator (aliased : TypeRef) (unnamed : Fault) (level : Level) :
    Reading (String × Declarator × Level) := do
  let scope ← get
  let (declarator, rest) ←
    Reading.ofExcept (Declarator.read scope (some (Declarator.ofBase aliased)) {} level)
  match declarator.name with
  | some name => return (name, declarator, rest)
  | none => throw unnamed

/-- Reads the further names of a typedef, each after a comma, and adds each to the scope as a
synonym of the same type. -/
def readSiblings (qualifiers : Qualifiers) (aliased : TypeRef) (level : Level) :
    Reading (List Declarator × Level) :=
  if level.isToken "," then do
    let (name, declarator, rest) ←
      readNamedDeclarator aliased (.unnamedSibling aliased.name) level.next
    let _ ← Reading.register (.synonym qualifiers name ⟨aliased, none, declarator⟩)
    if rest.length < level.length then
      let (siblings, rest) ← readSiblings qualifiers aliased rest
      return (declarator :: siblings, rest)
    else return ([declarator], rest)
  else return ([], level)
termination_by level.length

end TypeDecl

namespace Declaration

/-! ### Variables -/

/-- Reads the further declarators of a statement, which share the type of the first one. The body of
a function ends the statement. The rest after a comma is always shorter, which the condition says.
-/
def readFurther (scope : Scope) (first last : Declarator) (level : Level) :
    Except Fault (List Declarator × Level) :=
  if last.kind = .functionDefinition ∧ level.isGroup .brace then return ([], level.next)
  else if (level.skipToAny [",", ";"]).isToken "," then do
    let (declarator, rest) ← Declarator.read scope (some first) {} level.afterDeclarator
    if rest.length < level.length then
      let (declarators, rest) ← readFurther scope first declarator rest
      return (declarator :: declarators, rest)
    else return ([declarator], rest)
  else return ([], level.skipToAny [",", ";"])
termination_by level.length

/-- Reads a statement that declares variables or functions, without the `;` that ends it. -/
def readVariables (scope : Scope) (level : Level) : Except Fault (Declaration × Level) := do
  let (first, rest) ← Declarator.read scope none {} level
  let (further, rest) ← readFurther scope first first rest
  return (.names (first :: further), rest)

/-- Reads the declarators of variables of a type. -/
def readInstances (ref : TypeRef) (level : Level) : Reading (List Declarator × Level) := do
  let scope ← get
  let template := some (Declarator.ofBase ref)
  Reading.ofExcept (level.readSeparated (Declarator.read scope template {}))

/-- Reads what a statement declares beside a type: the further names of a typedef, or variables of
the type. The type is added to the scope, unless nothing can refer to it. -/
def readBeside (declared : TypeDecl) (level : Level) : Reading (Declaration × Level) :=
  if declared.name?.isNone && level.atStatementEnd then return (.type declared [], level)
  else do
    let ref ← Reading.register declared
    match declared with
    | .synonym qualifiers _ typedef =>
      let (siblings, rest) ← TypeDecl.readSiblings qualifiers typedef.aliased level
      return (.type declared siblings, rest)
    | .tagged _ _ _ =>
      let (instances, rest) ← readInstances ref level
      return (.type declared instances, rest)

end Declaration

/-! ### Types and statements -/

mutual

/-- Reads a type at the start of a level: its qualifiers, its name and its body. -/
def TypeDecl.read (level : Level) : Reading (TypeDecl × Level) :=
  let qualifiers := level.leftQualifiers
  let rest := level.afterLeftQualifiers
  let name := TypeDecl.typeName? rest
  let afterName := TypeDecl.afterTypeName rest
  if qualifiers.has "typedef" then TypeDecl.readTypedef level
  else do
    match ← TypeDecl.readBody? level with
    | some members => return (.tagged qualifiers name (some members), afterName.next)
    | none => return (.tagged qualifiers name none, afterName)
termination_by 5 * level.weight + 2

/-- Reads a typedef from its qualifiers on. A type that is not known gets a placeholder, which is
filled in where the typedef has a body. -/
def TypeDecl.readTypedef (level : Level) : Reading (TypeDecl × Level) := do
  let qualifiers := level.leftQualifiers.remove "typedef"
  let name := TypeDecl.typeName? level.afterLeftQualifiers
  let afterName := TypeDecl.afterTypeName level.afterLeftQualifiers
  let named ← TypeDecl.findOrDeclare name
  match ← TypeDecl.readBody? level with
  | some members =>
    let definition := TypeDecl.tagged {} name (some members)
    let aliased ← Reading.define named.handle definition
    let (newName, declarator, rest) ←
      TypeDecl.readNamedDeclarator aliased (.unnamedTypedef qualifiers) afterName.next
    return (.synonym qualifiers newName ⟨aliased, some definition, declarator⟩, rest)
  | none =>
    let (newName, declarator, rest) ←
      TypeDecl.readNamedDeclarator named (.unnamedTypedef qualifiers) afterName
    return (.synonym qualifiers newName ⟨named, none, declarator⟩, rest)
termination_by 5 * level.weight + 1

/-- Reads the body after the qualifiers and the name that a level starts with, if there is one. -/
def TypeDecl.readBody? (level : Level) : Reading (Option (List Member)) :=
  match _h : (TypeDecl.afterTypeName level.afterLeftQualifiers).groupContents? .brace with
  | none => return none
  | some contents =>
    if level.leftQualifiers.has "enum" then return some (TypeDecl.enumerators contents)
    else do return some (← TypeDecl.readMembers contents)
termination_by 5 * level.weight
decreasing_by
  have := TypeDecl.weight_body_lt _h
  omega

/-- Reads the members of a body up to its end: statements, with any further `;` between them. A
statement never leaves as much to read as it found; the condition says so. -/
def TypeDecl.readMembers : Level → Reading (List Member)
  | [] => return []
  | item :: items =>
    if item.isToken ";" then TypeDecl.readMembers items
    else do
      let (declaration, rest) ← Declaration.read (item :: items)
      if rest.weight < Level.weight (item :: items) then
        let members ← TypeDecl.readMembers rest
        return .declaration declaration :: members
      else return [.declaration declaration]
termination_by body => 5 * Level.weight body + 4
decreasing_by
  · rw [Level.weight_cons, Nat.mul_add]
    have := item.weight_pos
    omega
  · omega
  · omega

/-- Reads one statement with the `;` that ends it. -/
def Declaration.read (level : Level) : Reading (Declaration × Level) := do
  let scope ← get
  if TypeDecl.isDeclaredAt scope level then
    let (declared, rest) ← TypeDecl.read level
    let (declaration, rest) ← Declaration.readBeside declared rest
    return (declaration, rest.afterSemicolon)
  else
    let (declaration, rest) ← Reading.ofExcept (Declaration.readVariables scope level)
    return (declaration, rest.afterSemicolon)
termination_by 5 * level.weight + 3

end

/-! ### Induction -/

/-- Induction along `readSeparated`: from a level to what is left after a declarator. -/
@[elab_as_elim]
theorem Level.readSeparated_induct {motive : Level → Prop}
    (ends : ∀ level : Level, level.atStatementEnd = true → motive level)
    (declarator : ∀ level : Level, ¬ level.atStatementEnd = true →
      (∀ rest : Level, rest.afterDeclarator.length < level.length → motive rest.afterDeclarator) →
        motive level) (level : Level) : motive level :=
  readSeparated.induct motive ends declarator level

/-- Induction along `readSiblings`: from a comma to what is left after the name behind it. -/
@[elab_as_elim]
theorem TypeDecl.readSiblings_induct {motive : Level → Prop}
    (comma : ∀ level : Level, level.isToken "," = true →
      (∀ rest : Level, rest.length < level.length → motive rest) → motive level)
    (ends : ∀ level : Level, ¬ level.isToken "," = true → motive level) (level : Level) :
    motive level :=
  readSiblings.induct motive comma ends level

/-- Induction along `readFurther`: from a comma to what is left after the declarator behind it. -/
@[elab_as_elim]
theorem Declaration.readFurther_induct {motive : Declarator → Level → Prop}
    (body : ∀ last (level : Level),
      last.kind = .functionDefinition ∧ level.isGroup .brace = true → motive last level)
    (comma : ∀ last (level : Level),
      ¬ (last.kind = .functionDefinition ∧ level.isGroup .brace = true) →
        (level.skipToAny [",", ";"]).isToken "," = true →
          (∀ declarator (rest : Level), rest.length < level.length → motive declarator rest) →
            motive last level)
    (ends : ∀ last (level : Level),
      ¬ (last.kind = .functionDefinition ∧ level.isGroup .brace = true) →
        ¬ (level.skipToAny [",", ";"]).isToken "," = true → motive last level)
    (last : Declarator) (level : Level) : motive last level :=
  readFurther.induct motive body comma ends last level

/-- Induction along the readers of types and statements: what is shown of a type rests on its body,
what is shown of a body on the statements in it, and what is shown of a statement on its type. -/
theorem TypeDecl.read_induct {onType onBody onMembers onStatement onTypedef : Level → Prop}
    (typedef : ∀ level : Level, level.leftQualifiers.has "typedef" = true → onTypedef level →
      onType level)
    (tagged : ∀ level : Level, ¬ level.leftQualifiers.has "typedef" = true → onBody level →
      onType level)
    (noBody : ∀ level : Level,
      (afterTypeName level.afterLeftQualifiers).groupContents? .brace = none → onBody level)
    (enumBody : ∀ level contents : Level,
      (afterTypeName level.afterLeftQualifiers).groupContents? .brace = some contents →
        level.leftQualifiers.has "enum" = true → onBody level)
    (body : ∀ level contents : Level,
      (afterTypeName level.afterLeftQualifiers).groupContents? .brace = some contents →
        ¬ level.leftQualifiers.has "enum" = true → onMembers contents → onBody level)
    (noMember : onMembers [])
    (emptyStatement : ∀ (item : Item) (items : Level), item.isToken ";" = true →
      onMembers items → onMembers (item :: items))
    (member : ∀ (item : Item) (items : Level), ¬ item.isToken ";" = true →
      onStatement (item :: items) →
        (∀ rest : Level, rest.weight < Level.weight (item :: items) → onMembers rest) →
          onMembers (item :: items))
    (statement : ∀ level, onType level → onStatement level)
    (synonym : ∀ level, onBody level → onTypedef level) :
    (∀ level, onType level) ∧ (∀ level, onBody level) ∧ (∀ level, onMembers level) ∧
      (∀ level, onStatement level) ∧ ∀ level, onTypedef level :=
  read.mutual_induct onType onBody onMembers onStatement onTypedef typedef tagged
    noBody enumBody body
    noMember emptyStatement member statement synonym

/-! ### Equations -/

namespace TypeDecl

theorem readBody?_of_none {level : Level}
    (h : (afterTypeName level.afterLeftQualifiers).groupContents? .brace = none) :
    readBody? level = pure none := by
  rw [readBody?]
  split
  · rfl
  · rename_i other hother
    rw [h] at hother
    cases hother

theorem readBody?_of_contents {level contents : Level}
    (h : (afterTypeName level.afterLeftQualifiers).groupContents? .brace = some contents) :
    readBody? level =
      if level.leftQualifiers.has "enum" then pure (some (enumerators contents))
      else do return some (← readMembers contents) := by
  rw [readBody?]
  split
  · rename_i hother
    rw [h] at hother
    cases hother
  · rename_i other hother
    rw [h, Option.some.injEq] at hother
    rw [hother]

end TypeDecl

end CommonDecl
