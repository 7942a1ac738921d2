import CommonDecl.Proofs.DeclaratorEnds
import CommonDecl.Proofs.Distribution

/-!
# Arguments of functions

Each argument of a list is read as if it stood alone (`Declarator.exists_read_argument`): what
separates it from the next one plays no role.  No argument is looked at ahead of its type, so a word
of which nothing is known is its name, even where a declarator follows
(`TypedArgument.recorded_by_knowledge`).
-/

namespace CommonDecl

open Level

variable {scope : Scope} {level stop : Level}

/-- A comma that only separates. -/
structure Item.IsPlainComma (item : Item) : Prop where
  isToken : item.isToken "," = true
  roles : item.roles = {}

namespace Declarator

/-! ### In front of what plays no role -/

section

variable (hstop : Stops stop) (htype : typeAt? scope stop = none)

include hstop in
theorem noBracket_of_stops : stop.NoBracket :=
  fun item hitem => (hstop item hitem).1

include htype in
theorem typeAt?_append (level : Level) : typeAt? scope (level ++ stop) = typeAt? scope level := by
  cases level with
  | nil => exact htype
  | cons item rest => rfl

include htype in
theorem afterType_append (level : Level) :
    afterType scope (level ++ stop) = afterType scope level ++ stop := by
  cases level with
  | nil =>
    rw [List.nil_append, afterType, htype]
    rfl
  | cons item rest =>
    rw [afterType, afterType, typeAt?_append htype, next_append (List.cons_ne_nil _ _)]
    split <;> rfl

include hstop in
theorem afterQualifiers_append_of_stops (level : Level) :
    (level ++ stop).qualifiers = level.qualifiers ∧
      (level ++ stop).afterQualifiers = level.afterQualifiers ++ stop := by
  rw [qualifiers, qualifiers, takeWhile_append_of_head hstop.noQualifier]
  exact ⟨rfl, dropWhile_append_of_head hstop.noQualifier⟩

include hstop in
theorem leftQualifiers_append_of_stops (level : Level) :
    (level ++ stop).leftQualifiers = level.leftQualifiers ∧
      (level ++ stop).afterLeftQualifiers = level.afterLeftQualifiers ++ stop := by
  rw [leftQualifiers, leftQualifiers, takeWhile_append_of_head hstop.noQualifier.isLeftQualifier]
  exact ⟨rfl, dropWhile_append_of_head hstop.noQualifier.isLeftQualifier⟩

include hstop htype

theorem afterTypePart_append_of_stops (template : Option Declarator) (level : Level) :
    afterTypePart scope template (level ++ stop) = afterTypePart scope template level ++ stop := by
  cases template with
  | some shared => exact (afterQualifiers_append_of_stops hstop level).2
  | none =>
    unfold afterTypePart
    dsimp only
    rw [(leftQualifiers_append_of_stops hstop level).2, afterType_append htype,
      (afterQualifiers_append_of_stops hstop _).2]

theorem readType_append_of_stops (template : Option Declarator) (declarator : Declarator)
    (level : Level) :
    readType scope template declarator (level ++ stop) =
      readType scope template declarator level := by
  obtain ⟨hleft, hafter⟩ := leftQualifiers_append_of_stops hstop level
  unfold readType
  cases template with
  | some shared =>
    dsimp only
    rw [(afterQualifiers_append_of_stops hstop level).1]
  | none =>
    dsimp only
    rw [hleft, hafter, typeAt?_append htype, afterType_append htype,
      (afterQualifiers_append_of_stops hstop _).1]

omit htype in
/-- What plays no role is neither a name nor the dimensions behind one. -/
theorem readName_of_stops (declarator : Declarator) :
    readName declarator stop = readName declarator [] := by
  have hat : atName stop = false := atName_of_noName (noName_of_stops hstop)
  have hdimensions : Level.dimensions ([] ++ stop) = Level.dimensions [] :=
    dimensions_append (noBracket_of_stops hstop)
  rw [List.nil_append] at hdimensions
  rw [readName, readName, afterName, afterName, hat]
  simp only [Bool.false_eq_true, if_false, hdimensions]
  rfl

omit htype in
theorem kindAt_of_stops :
    nestsAt stop = 0 ∧ kindAt 0 stop = .variable ∧ afterNests 0 .variable stop = stop := by
  have hnoGroup := noBracket_of_stops hstop
  have hafter : afterName stop = stop := by
    rw [afterName, atName_of_noName (noName_of_stops hstop)]
    rfl
  refine ⟨nestsAt_of_none (groupContents?_of_noGroup (hnoGroup.noGroup _)), ?_, ?_⟩
  · exact kindAt_of_noGroup (hafter.symm ▸ hnoGroup.noGroup _)
  · have hrest : Level.afterDimensions ([] ++ stop) = [] ++ stop := afterDimensions_append hnoGroup
    rw [afterNests, if_pos rfl, hafter]
    exact hrest

/-- A declarator is read the same in front of what plays no role, even where nothing of it stands
behind its qualifiers. -/
theorem read_append_of_stops {template : Option Declarator}
    {declarator result : Declarator} {rest : Level}
    (hread : read scope template declarator level = .ok (result, rest)) :
    read scope template declarator (level ++ stop) = .ok (result, rest ++ stop) := by
  have hafter := afterTypePart_append_of_stops hstop htype template level
  have hparts := readType_append_of_stops hstop htype template declarator level
  by_cases hcore : afterTypePart scope template level = []
  · -- Nothing stands behind the qualifiers, and what follows is no name.
    obtain ⟨hnests', hkind', hrest'⟩ := kindAt_of_stops hstop
    have hnothing : nestsAt [] = 0 := nestsAt_of_none rfl
    rw [read_eq_ok_iff] at hread ⊢
    rw [hcore, List.nil_append] at hafter
    obtain ⟨nests, innermost, arguments, hinside, rfl, hgiven⟩ := hread
    rw [hcore, hnothing] at hinside hgiven
    rw [readNests_zero] at hinside
    cases hinside
    obtain ⟨rfl, rfl⟩ : arguments = [] ∧ rest = [] := hgiven
    dsimp only
    rw [hafter, hnests', hkind', hrest']
    refine ⟨[], stop, [], readNests_zero scope stop, ?_, rfl, rfl⟩
    unfold assemble
    dsimp only
    rw [hafter, hcore, hnests', hkind', hparts, readName_of_stops hstop, hnothing]
    rfl
  · exact read_append_of_core hafter hparts hcore (noBracket_of_stops hstop) hread

end

/-! ### Lists of arguments -/

/-- A comma plays no role where it is not the name of a type. -/
theorem stops_plainComma (hknows : scope.knows "," = false) {comma : Item}
    (hcomma : comma.IsPlainComma) (rest : Level) :
    Stops (comma :: rest) ∧ typeAt? scope (comma :: rest) = none := by
  obtain ⟨hbracket, hvalue⟩ := Bool.and_eq_true_iff.mp hcomma.isToken
  rw [Option.isNone_iff_eq_none] at hbracket
  have hvalue : comma.value = "," := eq_of_beq hvalue
  constructor
  · rintro item ⟨⟩
    exact ⟨hbracket, by rw [hcomma.roles], by rw [hcomma.roles], by rw [hvalue]; decide⟩
  · have hword : Level.word? (comma :: rest) = some "," := by
      rw [Level.word?, Level.bracket?, Level.value?, List.head?_cons, Option.bind_some, hbracket,
        Option.map_some, hvalue]
      rfl
    rw [typeAt?, hword]
    exact Scope.lookup_of_not_knows hknows

/-- The items have no comma among them. -/
def NoComma (level : Level) : Prop :=
  ∀ item ∈ level, item.isToken "," = false

theorem NoComma.skipPast (h : NoComma level) {comma : Item} (hcomma : comma.isToken "," = true)
    (rest : Level) : (level ++ comma :: rest).skipPast "," = rest := by
  have hhead : ∀ item ∈ (comma :: rest : Level).head?, (!item.isToken ",") = false := by
    rintro item ⟨⟩
    rw [hcomma]
    rfl
  rw [Level.skipPast, dropWhile_append_eq (fun item hitem => by rw [h item hitem]; rfl) hhead]
  rfl

theorem NoComma.skipPast_end (h : NoComma level) : level.skipPast "," = [] := by
  have hall : level.dropWhile (fun item => !item.isToken ",") = [] :=
    List.dropWhile_eq_nil_iff.mpr fun item hitem => by rw [h item hitem]; rfl
  rw [Level.skipPast, hall]
  rfl

/-- What stands in front of a comma is read as one argument. -/
theorem readArguments_comma {argument : Declarator} {arguments : List Declarator}
    {rest others : Level} (hknows : scope.knows "," = false) {comma : Item}
    (hcomma : comma.IsPlainComma) (hpart : NoComma level)
    (hread : read scope none {} level = .ok (argument, rest))
    (hothers : readArguments scope others = .ok arguments) :
    readArguments scope (level ++ comma :: others) = .ok (argument :: arguments) := by
  obtain ⟨hstop, htype⟩ := stops_plainComma hknows hcomma others
  have hskip : (rest ++ comma :: others).skipPast "," = others :=
    NoComma.skipPast (fun item hitem => hpart item ((read_rest hread).subset hitem))
      hcomma.isToken others
  refine readArguments_of_read (read_append_of_stops hstop htype hread) (by simp) ?_
    (by rwa [hskip])
  rw [hskip]
  exact weight_lt_of_cons_suffix (List.suffix_append _ _)

/-- The last part is read as one argument, unless it is empty. -/
theorem readArguments_last {argument : Declarator} {rest : Level} (hne : level ≠ [])
    (hpart : NoComma level) (hread : read scope none {} level = .ok (argument, rest)) :
    readArguments scope level = .ok [argument] := by
  have hskip : rest.skipPast "," = [] :=
    NoComma.skipPast_end fun item hitem => hpart item ((read_rest hread).subset hitem)
  have hlighter :=
    weight_lt_of_suffix_next hne (skipPast_progress (read_rest hread) : rest.skipPast "," <:+ _)
  exact readArguments_of_read hread hne hlighter (hskip ▸ readArguments_nil scope)

/-- Each argument of a list is read as if it stood alone. -/
theorem exists_read_argument {before : List Level} {part rest : Level} {argument : Declarator}
    (hcomma : scope.knows "," = false) (hbefore : ∀ other ∈ before, NoComma other)
    (behind : List Level) (hpart : NoComma part) (hne : part ≠ [])
    (hread : read scope none {} part = .ok (argument, rest)) :
    ∃ arguments, readArguments scope ([.token "," {}].intercalate (before ++ part :: behind)) =
      .ok arguments ∧ arguments[before.length]? = some argument := by
  induction before with
  | nil =>
    rw [List.nil_append]
    by_cases hbehind : behind = []
    · rw [hbehind, List.intercalate_singleton]
      exact ⟨[argument], readArguments_last hne hpart hread, rfl⟩
    · obtain ⟨others, hothers⟩ :=
        (exists_read_all scope).2.2.1 ([.token "," {}].intercalate behind)
      rw [List.intercalate_cons_of_ne_nil hbehind, List.append_assoc]
      exact ⟨argument :: others, readArguments_comma hcomma ⟨rfl, rfl⟩ hpart hread hothers, rfl⟩
  | cons other before ih =>
    rw [List.forall_mem_cons] at hbefore
    obtain ⟨arguments, harguments, hargument⟩ := ih hbefore.2
    obtain ⟨⟨first, left⟩, hfirst⟩ := exists_read scope none {} other
    rw [List.cons_append, List.intercalate_cons_of_ne_nil (by simp), List.append_assoc]
    exact ⟨first :: arguments, readArguments_comma hcomma ⟨rfl, rfl⟩ hbefore.1 hfirst harguments,
      hargument⟩

/-! ### Argument lists of declarators -/

/-- The contents of the argument list behind the name of a declarator, or behind the nests around
it. -/
def argumentListAt? (scope : Scope) (template : Option Declarator) (level : Level) : Option Level :=
  let core := afterTypePart scope template level
  (behindName (nestsAt core) core).groupContents? .parenthesis

/-- The arguments of a declarator are what its argument list is read as. -/
theorem arguments_of_read {template : Option Declarator} {result : Declarator} {rest list : Level}
    {arguments : List Declarator} (hlist : argumentListAt? scope template level = some list)
    (harguments : readArguments scope list = .ok arguments)
    (hread : read scope template {} level = .ok (result, rest)) : result.arguments = arguments := by
  obtain ⟨nests, innermost, found, -, rfl, hfound⟩ := read_eq_ok_iff.mp hread
  rw [argumentListAt?] at hlist
  generalize afterTypePart scope template level = core at hlist hfound
  have hgroup := isGroup_of_groupContents? hlist
  rw [if_pos ((isFunction_kindAt _ _).trans hgroup), afterNests_kindAt,
    (dimensions_of_parenthesis hgroup).2, readArgumentList_of_group hlist, harguments] at hfound
  obtain ⟨hfound, -⟩ := hfound
  cases hfound
  cases template <;> rfl

/-- A word in front of anything but dimensions is a name, and nothing else is read of what follows
it but an argument list. -/
theorem read_word {word : String} {roles : Roles} {rest : Level}
    (hqualifier : roles.isQualifier = false) (hidentifier : roles.isIdentifier = true)
    (hdimensions : rest.dimensions = []) :
    ∃ result left, read scope (some {}) {} (.token word roles :: rest) = .ok (result, left) ∧
      result.name = some word ∧ result.nests = [] ∧ result.dimensions = [] ∧
        result.outerDimensions = [] := by
  obtain ⟨⟨result, left⟩, hread⟩ := exists_read scope (some {}) {} (.token word roles :: rest)
  have hcore : afterTypePart scope (some {}) (.token word roles :: rest) =
      .token word roles :: rest :=
    afterTypePart_of_noQualifier (by rintro item ⟨⟩; exact hqualifier)
  -- A word is no group, so it is the name itself.
  have hnests : nestsAt (.token word roles :: rest) = 0 := nestsAt_of_none rfl
  have hname : atName (.token word roles :: rest) = true := by
    rw [atName, Level.isIdentifier, List.head?_cons, Option.any_some]
    simp [Item.roles, hidentifier]
  have hafter : afterName (.token word roles :: rest) = rest := by
    rw [afterName, if_pos hname]
    rfl
  refine ⟨result, left, hread, ?_⟩
  obtain ⟨nests, innermost, arguments, hinside, rfl, -⟩ := read_eq_ok_iff.mp hread
  rw [hcore, hnests, readNests_zero] at hinside
  cases hinside
  unfold assemble
  dsimp only
  rw [hcore, hnests, readName, hname, hafter, hdimensions, dimensionsAfterNests_kindAt]
  exact ⟨rfl, rfl, rfl, rfl⟩

end Declarator

/-! ### Arguments with a type -/

/-- An argument that is written with a type: qualifiers, the word of the type and a declarator with
a name. -/
structure TypedArgument where
  qualifiers : Level
  type : String
  bare : BareDeclarator
  name : String
  qualifiers_isLeft : ∀ item ∈ qualifiers, isLeftQualifier item = true
  nameAt_bare : Declarator.nameAt? bare.core = some name
  noComma : ∀ item ∈ qualifiers ++ bare.right, item.isToken "," = false
  type_ne_comma : type ≠ ","

namespace BareDeclarator

/-- A declarator does not start with dimensions. -/
theorem dimensions_level (bare : BareDeclarator) : bare.level.dimensions = [] := by
  have hsquare : ∀ item ∈ bare.level.head?, ¬ item.isGroup .square = true := by
    refine forall_head_append (fun item hitem => ?_) ?_
    · rw [Item.isGroup, (bare.right_isQualifier item (List.mem_of_mem_head? hitem)).2]
      decide
    · rintro item ⟨⟩
      rw [Item.isGroup]
      rcases bare.head_isNameOrNest with ⟨hword, -⟩ | ⟨contents, hcontents, -⟩
      · rw [hword]
        decide
      · have hgroup : bare.head.bracket? = some .parenthesis :=
          eq_of_beq (isGroup_of_groupContents? hcontents)
        rw [hgroup]
        decide
  cases hlevel : bare.level with
  | nil => rfl
  | cons item rest =>
    rw [Level.dimensions, List.takeWhile_cons_of_neg (hsquare item (by rw [hlevel]; rfl)),
      List.map_nil]

end BareDeclarator

namespace TypedArgument

variable (argument : TypedArgument)

/-- The items of the argument, where the word of the type has these roles. -/
def items (roles : Roles) : Level :=
  argument.qualifiers ++ .token argument.type roles :: argument.bare.level

/-- The argument is recorded with its name, and as its declarator says. -/
structure RecordedTyped (scope : Scope) (recorded : Declarator) : Prop where
  name : recorded.name = some argument.name
  right : recorded.right = ⟨argument.bare.right.map Item.value⟩
  core : ∃ core, argument.bare.ReadsAs scope core ∧
    recorded =
      { core with
        left := recorded.left
        right := recorded.right
        base := scope.lookup argument.type }

/-- The word of the type is recorded as the name of the argument, which has nothing of its
declarator. -/
structure RecordedAsName (recorded : Declarator) : Prop where
  name : recorded.name = some argument.type
  base : recorded.base = none
  right : recorded.right = {}
  nests : recorded.nests = []
  dimensions : recorded.dimensions = []
  outerDimensions : recorded.outerDimensions = []

variable {argument} {roles : Roles}

theorem noComma_items (roles : Roles) : Declarator.NoComma (argument.items roles) := by
  obtain ⟨hqualifiers, hright⟩ := List.forall_mem_append.mp argument.noComma
  refine List.forall_mem_append.mpr ⟨hqualifiers, List.forall_mem_cons.mpr
    ⟨beq_eq_false_iff_ne.mpr argument.type_ne_comma,
      List.forall_mem_append.mpr ⟨hright, fun item hitem => ?_⟩⟩⟩
  have hseparator := argument.bare.core_noSeparator item hitem
  simp only [Item.isSeparator, List.any_cons, Bool.or_eq_false_iff] at hseparator
  exact hseparator.1

/-- Where its type is known, the argument is read as its declarator with that type. -/
theorem exists_read_typed (hqualifier : roles.isQualifier = false)
    (hknown : scope.knows argument.type = true) :
    ∃ recorded rest, Declarator.read scope none {} (argument.items roles) = .ok (recorded, rest) ∧
      recorded.left = ⟨argument.qualifiers.map Item.value⟩ ∧
        argument.RecordedTyped scope recorded := by
  obtain ⟨core, hcore⟩ := argument.bare.exists_readsAs scope
  obtain ⟨left, hread, -, -⟩ := id hcore
  have hfirst := hread [] (by simp [NoBracket])
  have hlevel := BareDeclarator.read_afterWord argument.qualifiers_isLeft hqualifier hknown hfirst
  have hname : core.name = some argument.name := by
    have hafter := afterQualifiers_of_noQualifier (argument.bare.noQualifier_core [])
    rw [List.append_nil] at hfirst hafter
    have hname := Declarator.read_name hfirst
    rw [Declarator.afterTypePart] at hname
    rw [hname, hafter, argument.nameAt_bare]
    rfl
  rw [List.append_nil] at hlevel
  exact ⟨_, _, hlevel, rfl, hname, rfl, core, hcore, rfl⟩

/-- Where its type is not known, the word of the type is read as the name. -/
theorem exists_read_asName (hqualifier : roles.isQualifier = false)
    (hidentifier : roles.isIdentifier = true) (hunknown : scope.knows argument.type = false) :
    ∃ recorded rest, Declarator.read scope none {} (argument.items roles) = .ok (recorded, rest) ∧
      recorded.left = ⟨argument.qualifiers.map Item.value⟩ ∧ argument.RecordedAsName recorded := by
  obtain ⟨hleft, hafter⟩ :=
    leftQualifiers_word argument.qualifiers_isLeft argument.type hqualifier argument.bare.level
  obtain ⟨core, rest, hread, hname, hnests, hdimensions, houter⟩ : ∃ core rest,
      Declarator.read scope (some {}) {} (.token argument.type roles :: argument.bare.level) =
        .ok (core, rest) ∧
        core.name = some argument.type ∧ core.nests = [] ∧ core.dimensions = [] ∧
            core.outerDimensions = [] :=
    Declarator.read_word hqualifier hidentifier argument.bare.dimensions_level
  -- No type of this name is found, so the word is where a name is looked for.
  have htype :
      Declarator.typeAt? scope (.token argument.type roles :: argument.bare.level) = none :=
    Scope.lookup_of_not_knows hunknown
  have hnext : Declarator.afterType scope (.token argument.type roles :: argument.bare.level) =
      .token argument.type roles :: argument.bare.level := by
    rw [Declarator.afterType, htype]
    rfl
  have hnoQualifier : NoQualifier (.token argument.type roles :: argument.bare.level) := by
    rintro item ⟨⟩
    exact hqualifier
  have hlevel := Declarator.read_of_core _ _ hleft
    (by rw [hafter, hnext, qualifiers_of_noQualifier hnoQualifier])
    (by rw [hafter, hnext, afterQualifiers_of_noQualifier hnoQualifier]) hread
  rw [hafter, htype] at hlevel
  exact ⟨_, rest, hlevel, rfl, hname, rfl, rfl, hnests, hdimensions, houter⟩

/-- An argument that is written with a type is recorded with its name and its declarator where the
type is known. Where it is not, the word of the type is recorded as the name, whatever declarator
follows it. -/
theorem recorded_by_knowledge (argument : TypedArgument) {scope : Scope}
    (hcomma : scope.knows "," = false) {roles : Roles} (hqualifier : roles.isQualifier = false)
    (hidentifier : scope.knows argument.type = false → roles.isIdentifier = true)
    {before behind : List Level} (hbefore : ∀ other ∈ before, Declarator.NoComma other)
    {template : Option Declarator} {level : Level}
    (hlist : Declarator.argumentListAt? scope template level =
      some ([.token "," {}].intercalate (before ++ argument.items roles :: behind))) :
    ∃ declarator rest recorded, Declarator.read scope template {} level = .ok (declarator, rest) ∧
      declarator.arguments[before.length]? = some recorded ∧
      recorded.left = ⟨argument.qualifiers.map Item.value⟩ ∧
      if scope.knows argument.type then argument.RecordedTyped scope recorded
      else argument.RecordedAsName recorded := by
  obtain ⟨recorded, rest, hread, hleft, hrecorded⟩ : ∃ recorded rest,
      Declarator.read scope none {} (argument.items roles) = .ok (recorded, rest) ∧
      recorded.left = ⟨argument.qualifiers.map Item.value⟩ ∧
      if scope.knows argument.type then argument.RecordedTyped scope recorded
      else argument.RecordedAsName recorded := by
    -- Whether the scope knows the word decides between a type and a name.
    by_cases hknown : scope.knows argument.type = true
    · simp only [hknown, if_true]
      exact exists_read_typed hqualifier hknown
    · rw [Bool.not_eq_true] at hknown
      simp only [hknown, Bool.false_eq_true, if_false]
      exact exists_read_asName hqualifier (hidentifier hknown) hknown
  obtain ⟨arguments, harguments, hargument⟩ :=
    Declarator.exists_read_argument hcomma hbefore behind (noComma_items roles)
      (by simp [items]) hread
  obtain ⟨⟨declarator, left⟩, hdeclarator⟩ := Declarator.exists_read scope template {} level
  exact ⟨declarator, left, recorded, hdeclarator,
    by rw [Declarator.arguments_of_read hlist harguments hdeclarator, hargument], hleft, hrecorded⟩

/-- The argument `Unknown *p`. -/
def unknownPointer : TypedArgument where
  qualifiers := []
  type := "Unknown"
  bare :=
    { right := [.token "*" { isQualifier := true }]
      head := .token "p" .unresolved
      after := []
      right_isQualifier := BareDeclarator.star_isQualifier
      head_not_isQualifier := rfl
      head_isNameOrNest := Or.inl (by decide)
      head_not_separator := by decide
      after_isGroup := BareDeclarator.nil_isGroup }
  name := "p"
  qualifiers_isLeft := by decide
  nameAt_bare := by cbv
  noComma := by decide
  type_ne_comma := by decide

/-- The scope after `struct Unknown;`. -/
def withUnknown : Scope :=
  { Scope.ofSettings {} with
    types :=
      ((Scope.ofSettings {}).types.declare (.tagged { toList := ["struct"] } (some "Unknown") none)
      false).2 }

/-- The items of `void f(int n, Unknown *p)`. -/
def voidWithUnknown : Level :=
  [.token "void" .typeName, .token "f" .unresolved, .group "(" {} ([.token "," {}].intercalate
    ([[.token "int" .typeName, .token "n" .unresolved]] ++ unknownPointer.items .unresolved :: []))]

theorem items_voidWithUnknown :
    (fun trees => (Node.ofTrees trees).items) <$>
        TokenTree.ofSource .c (Scope.ofSettings {}) "void f(int n, Unknown *p)" =
          .ok voidWithUnknown := by
  have htrees : TokenTree.ofSource .c (Scope.ofSettings {}) "void f(int n, Unknown *p)" =
      .ok [.leaf ⟨"void", .typeName⟩, .leaf ⟨"f", .unresolved⟩, .group .parenthesis
        [.leaf ⟨"int", .typeName⟩, .leaf ⟨"n", .unresolved⟩, .leaf ⟨",", .operator⟩,
          .leaf ⟨"Unknown", .unresolved⟩, .leaf ⟨"*", .qualifier⟩, .leaf ⟨"p", .unresolved⟩]] := by
    decide +kernel
  rw [htrees]
  rfl

/-- The second argument is recorded with its pointer after `struct Unknown;`, and as the name of a
type before. -/
theorem recorded_by_knowledge_unknownPointer :
    (fun trees => (Node.ofTrees trees).items) <$>
        TokenTree.ofSource .c (Scope.ofSettings {}) "void f(int n, Unknown *p)" =
          .ok voidWithUnknown ∧
    (∃ declarator rest recorded,
      Declarator.read (Scope.ofSettings {}) none {} voidWithUnknown = .ok (declarator, rest) ∧
        declarator.arguments[1]? = some recorded ∧ recorded.left = {} ∧
        unknownPointer.RecordedAsName recorded) ∧
    ∃ declarator rest recorded,
      Declarator.read withUnknown none {} voidWithUnknown = .ok (declarator, rest) ∧
        declarator.arguments[1]? = some recorded ∧ recorded.left = {} ∧
        unknownPointer.RecordedTyped withUnknown recorded := by
  have hbefore : ∀ other ∈ [[.token "int" .typeName, .token "n" .unresolved]],
      Declarator.NoComma other := by
    simp [Declarator.NoComma, Item.isToken, Item.value]
  refine ⟨items_voidWithUnknown, ?_, ?_⟩
  · have hlist : Declarator.argumentListAt? (Scope.ofSettings {}) none voidWithUnknown =
        some ([.token "," {}].intercalate ([[.token "int" .typeName, .token "n" .unresolved]] ++
          unknownPointer.items .unresolved :: [])) := by cbv
    exact unknownPointer.recorded_by_knowledge (by decide) rfl (fun _ => rfl) hbefore hlist
  · have hlist : Declarator.argumentListAt? withUnknown none voidWithUnknown =
        some ([.token "," {}].intercalate ([[.token "int" .typeName, .token "n" .unresolved]] ++
          unknownPointer.items .unresolved :: [])) := by cbv
    exact unknownPointer.recorded_by_knowledge (by decide) rfl (fun _ => rfl) hbefore hlist

/-- Only where the type of the second argument is known, `p` is its name. -/
theorem not_recorded_alike_unknownPointer :
    (fun trees => (Node.ofTrees trees).items) <$>
        TokenTree.ofSource .c (Scope.ofSettings {}) "void f(int n, Unknown *p)" =
          .ok voidWithUnknown ∧
    (fun result => result.1.arguments.map fun argument =>
      (argument.name, argument.right.toList)) <$>
        Declarator.read withUnknown none {} voidWithUnknown = .ok [(some "n", []),
          (some "p", ["*"])] ∧
    (fun result => result.1.arguments.map fun argument =>
      (argument.name, argument.right.toList)) <$>
        Declarator.read (Scope.ofSettings {}) none {} voidWithUnknown = .ok [(some "n", []),
          (some "Unknown", [])] := by
  exact ⟨items_voidWithUnknown, by cbv, by cbv⟩

end TypedArgument

end CommonDecl
