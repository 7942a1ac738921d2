import CommonDecl.Proofs.Levels
import Mathlib.Data.List.DropRight

/-!
# The part of a declarator after its type

A name or a nest, with what stands after it, is read to its end, and its text is cut into the same
tokens again: `ReadsCore` is proved for each form of the part, and `ReadsNest` for each form of a
nest, from what its own parts meet.
-/

namespace CommonDecl

open TokenTree (items)

variable {scope : Scope} {known : String → Bool} {rolesOf : Token → Roles}

namespace Declarator

/-! ### What levels start with -/

/-- A level does not start with a name. -/
def NoName (level : Level) : Prop :=
  ∀ item ∈ level.head?, item.roles.isIdentifier = false ∧ item.isToken "..." = false

theorem noName_nil : NoName [] := by
  simp [NoName]

/-- No name is read where none stands. -/
theorem atName_of_noName {level : Level} (h : NoName level) : atName level = false := by
  cases level with
  | nil => rfl
  | cons item rest =>
    obtain ⟨hidentifier, hellipsis⟩ := h item rfl
    simp [atName, Level.isIdentifier, Level.isToken, hidentifier, hellipsis]

theorem noName_of_stops {level : Level} (h : Stops level) : NoName level := by
  intro item hitem
  obtain ⟨-, -, hidentifier, hvalue⟩ := h item hitem
  refine ⟨hidentifier, ?_⟩
  rw [Item.isToken, beq_eq_false_iff_ne.mpr hvalue, Bool.and_false]

theorem noName_dimensions {trees : List TokenTree} (h : TokenTree.AreDimensions scope known trees) :
    NoName (items rolesOf trees) := by
  intro item hitem
  obtain ⟨contents, rfl⟩ := Level.head_dimensions h item hitem
  exact ⟨rfl, rfl⟩

/-- Dimensions are no qualifiers. -/
theorem noQualifier_dimensions {trees : List TokenTree}
    (h : TokenTree.AreDimensions scope known trees) : NoQualifier (items rolesOf trees) := by
  intro item hitem
  obtain ⟨contents, rfl⟩ := Level.head_dimensions h item hitem
  rfl

/-- Dimensions are square groups only. -/
theorem noGroup_dimensions {trees : List TokenTree} (h : TokenTree.AreDimensions scope known trees)
    {bracket : Bracket} (hbracket : bracket ≠ .square) :
    Level.NoGroup bracket (items rolesOf trees) := by
  intro item hitem
  obtain ⟨contents, rfl⟩ := Level.head_dimensions h item hitem
  cases bracket with
  | square => exact absurd rfl hbracket
  | parenthesis => rfl
  | brace => rfl

theorem items_singleton_append (tree : TokenTree) (rest : Level) :
    items rolesOf [tree] ++ rest = tree.item rolesOf :: rest := rfl

theorem head_group (rolesOf : Token → Roles) (bracket : Bracket) (contents : List TokenTree)
    (rest : Level) : ∀ item ∈ (TokenTree.item rolesOf (.group bracket contents) :: rest).head?,
      item = TokenTree.item rolesOf (.group bracket contents) := by
  intro item hitem
  simpa using hitem.symm

/-- What a name starts with is the name itself. -/
theorem head_name (hroles : Respects scope rolesOf) {name : Option String}
    (hname : ∀ text ∈ name, IsNameWord scope known text) :
    ∀ item ∈ (items rolesOf (TokenTree.nameTrees name)).head?,
      ∃ text, name = some text ∧
        item = .token text { isIdentifier := true, isUnresolved := true } := by
  cases name with
  | none => simp [TokenTree.nameTrees, items]
  | some text =>
    rw [TokenTree.items_name hroles (hname text rfl)]
    intro item hitem
    exact ⟨text, rfl, by simpa using hitem.symm⟩

/-- A name is no qualifier. -/
theorem noQualifier_name (hroles : Respects scope rolesOf) {name : Option String}
    (hname : ∀ text ∈ name, IsNameWord scope known text) :
    NoQualifier (items rolesOf (TokenTree.nameTrees name)) := by
  intro item hitem
  obtain ⟨text, -, rfl⟩ := head_name hroles hname item hitem
  rfl

/-- A name is no group. -/
theorem noGroup_name (hroles : Respects scope rolesOf) {name : Option String}
    (hname : ∀ text ∈ name, IsNameWord scope known text) (bracket : Bracket) :
    Level.NoGroup bracket (items rolesOf (TokenTree.nameTrees name)) := by
  intro item hitem
  obtain ⟨text, -, rfl⟩ := head_name hroles hname item hitem
  rfl

/-! ### Names -/

/-- The level after a name, if there is one. -/
theorem afterName_items (hroles : Respects scope rolesOf) {name : Option String}
    (hname : ∀ text ∈ name, IsNameWord scope known text) {rest : Level} (hrest : NoName rest) :
    afterName (items rolesOf (TokenTree.nameTrees name) ++ rest) = rest := by
  cases name with
  | none =>
    show afterName rest = rest
    rw [afterName, if_neg (by simp [atName_of_noName hrest])]
  | some name =>
    rw [TokenTree.items_name hroles (hname name rfl)]
    rfl

/-- A name and dimensions are read as such. -/
theorem readName_items (hroles : Respects scope rolesOf) {name : Option String}
    (hname : ∀ text ∈ name, IsNameWord scope known text) {dimensions : List TokenTree}
    (hdimensions : TokenTree.AreDimensions scope known dimensions) {rest : Level}
    (hrest : NoName rest) (hgroup : Level.NoGroup .square rest) (declarator : Declarator)
    (hnone : declarator.name = none) (hnil : declarator.dimensions = []) :
    readName declarator
        (items rolesOf (TokenTree.nameTrees name) ++ (items rolesOf dimensions ++ rest)) =
      { declarator with name, dimensions := dimensionTexts dimensions } := by
  have hafter : NoName (items rolesOf dimensions ++ rest) :=
    forall_head_append (noName_dimensions hdimensions) hrest
  rw [readName, afterName_items hroles hname hafter, (Level.dimensions_items hdimensions hgroup).1,
    hnil, List.nil_append]
  congr 1
  cases name with
  | none =>
    show (if atName (items rolesOf dimensions ++ rest) = true then _ else declarator.name) = none
    rw [if_neg (by simp [atName_of_noName hafter]), hnone]
  | some name =>
    rw [TokenTree.items_name hroles (hname name rfl)]
    rfl

/-- A name without dimensions is read as such. -/
theorem readName_name (hroles : Respects scope rolesOf) {name : Option String}
    (hname : ∀ text ∈ name, IsNameWord scope known text) {rest : Level} (hrest : NoName rest)
    (hgroup : Level.NoGroup .square rest) (declarator : Declarator)
    (hnone : declarator.name = none) (hnil : declarator.dimensions = []) :
    readName declarator (items rolesOf (TokenTree.nameTrees name) ++ rest) =
      { declarator with name, dimensions := [] } :=
  readName_items hroles hname areDimensions_nil hrest hgroup declarator hnone hnil

/-! ### The part after the type -/

/-- A declarator is read as its type and the part after it. -/
theorem read_eq_core (scope : Scope) (template : Option Declarator) (level : Level) :
    read scope template {} level =
      (fun result : Declarator × Level =>
        ({ result.1 with
            left := (readType scope template {} level).left
            right := (readType scope template {} level).right
            base := (readType scope template {} level).base }, result.2)) <$>
        read scope (some {}) {} (afterTypePart scope template level) := by
  -- Behind the type there are no more qualifiers, so they are passed only once.
  have hcore : afterTypePart scope (some {}) (afterTypePart scope template level) =
      afterTypePart scope template level := by
    unfold afterTypePart Level.afterQualifiers
    dsimp only
    exact List.dropWhile_idempotent _ _
  rw [read, read, hcore]
  dsimp only
  -- Both sides read the same nests and the same argument list, and differ in the type only.
  cases readNests scope (nestsAt (afterTypePart scope template level))
      (afterTypePart scope template level) with
  | error fault => rfl
  | ok result =>
    obtain ⟨nests, innermost⟩ := result
    show (_ : Except Fault (Declarator × Level)) = _ <$> _
    dsimp only [bind, Except.bind]
    split
    · cases readArgumentList scope (afterNests (nestsAt (afterTypePart scope template level))
        (kindAt (nestsAt (afterTypePart scope template level)) (afterTypePart scope template level))
        (afterTypePart scope template level)) with
      | error fault => rfl
      | ok arguments =>
        cases arguments with
        | none => cases template <;> rfl
        | some arguments => cases template <;> rfl
    · cases template <;> rfl

/-! ### What is read and written -/

variable (scope known rolesOf) in
/-- A nest is read to its end, with the name inside it, and its text writes it. -/
structure ReadsNest (name : Option String) (trees : List TokenTree) : Prop where
  exists_group : ∃ contents, trees = [.group .parenthesis contents]
  isWord : ∀ text ∈ name, IsWord text
  exists_nests : ∃ nests innermost dimensions, nests ≠ [] ∧
    (∀ rest, nestsAt (items rolesOf trees ++ rest) = nests.length ∧
      readNests scope nests.length (items rolesOf trees ++ rest) = .ok (nests, innermost)) ∧
    (∀ declarator : Declarator, declarator.name = none → declarator.dimensions = [] →
      readName declarator innermost = { declarator with name, dimensions }) ∧
    ∀ spaced,
      Writes (scope.keywords .c) known (nestText (innerText spaced name dimensions) nests) trees

variable (scope known rolesOf) in
/-- The part of a declarator after its type is read to its end, and its text writes it. -/
structure ReadsCore (name : Option String) (endsInArguments : Bool) (trees : List TokenTree) :
    Prop where
  noQualifier : NoQualifier (items rolesOf trees)
  noBrace : Level.NoGroup .brace (items rolesOf trees)
  eq_name_of_head : ∀ item ∈ (items rolesOf trees).head?, item.bracket? = none →
    name = some item.value
  isWord : ∀ text ∈ name, IsWord text
  exists_read : ∀ stop, Stops stop → ∃ declarator,
    read scope (some {}) {} (items rolesOf trees ++ stop) = .ok (declarator, stop) ∧
      declarator.name = name ∧ declarator.kind.isFunction = endsInArguments ∧
      ∀ spaced, Writes (scope.keywords .c) known (coreText spaced declarator) trees

variable (scope known rolesOf) in
/-- An entry of an argument list is read up to what follows it, and its text writes it. -/
structure ReadsEntry (isTyped : Bool) (trees : List TokenTree) : Prop where
  ne_nil : trees ≠ []
  not_star : Level.isToken (items rolesOf trees) "*" = false
  exists_read : ∀ stop, Stops stop →
    (isTyped = false → ∀ item ∈ stop.head?, scope.lookup item.value = none) → ∃ declarator,
      read scope none {} (items rolesOf trees ++ stop) = .ok (declarator, stop) ∧
        Writes (scope.keywords .c) known (declarator.render true) trees

variable (scope known rolesOf) in
/-- What is inside an argument list is read, and its text writes it. -/
structure ReadsArguments (trees : List TokenTree) : Prop where
  not_star : Level.isToken (items rolesOf trees) "*" = false
  exists_read : ∃ arguments, readArguments scope (items rolesOf trees) = .ok arguments ∧
    Writes (scope.keywords .c) known (", ".intercalate (renderAll arguments)) trees

variable (scope known rolesOf) in
/-- A part of a declarator is read to its end, and its text writes it. -/
def Meets : Symbol → List TokenTree → Prop
  | .declarator isTyped => ReadsEntry scope known rolesOf isTyped
  | .core name endsInArguments => ReadsCore scope known rolesOf name endsInArguments
  | .nest name => ReadsNest scope known rolesOf name
  | .argument => ReadsEntry scope known rolesOf false
  | .arguments => ReadsArguments scope known rolesOf

/-! ### Nests -/

/-- The level inside a nest, after its `*` and the qualifiers there. -/
theorem insideNest_items (hroles : Respects scope rolesOf) {right : List String}
    (hright : ∀ text ∈ right, (scope.keywords .c).isQualifier text = true) {trees : List TokenTree}
    (h : NoQualifier (items rolesOf trees)) :
    Level.isToken (items rolesOf (TokenTree.marks ("*" :: right) ++ trees)) "*" = true ∧
      insideNest (items rolesOf (TokenTree.marks ("*" :: right) ++ trees)) = items rolesOf trees ∧
      (items rolesOf (TokenTree.marks ("*" :: right) ++ trees)).next.qualifiers = ⟨right⟩ := by
  have hstar : IsMark scope "*" := Or.inl rfl
  have hmarks : ∀ text ∈ "*" :: right, (scope.keywords .c).isQualifier text = true := by
    rw [List.forall_mem_cons]
    exact ⟨hstar.isQualifier, hright⟩
  rw [TokenTree.items_append, TokenTree.items_qualifiers hroles hmarks]
  refine ⟨rfl, Level.afterQualifiers_ofMarks right h, Level.qualifiers_ofMarks right h⟩

/-- A nest is found and read with what is inside it. -/
theorem nest_step (hroles : Respects scope rolesOf) {right : List String}
    (hright : ∀ text ∈ right, (scope.keywords .c).isQualifier text = true) {inner : List TokenTree}
    (hinner : NoQualifier (items rolesOf inner)) (rest : Level) :
    nestsAt
      (items rolesOf [.group .parenthesis (TokenTree.marks ("*" :: right) ++ inner)] ++ rest) =
        nestsAt (items rolesOf inner) + 1 ∧
      ∀ depth outside, outside = (if depth = 0 then [] else (items rolesOf inner).next) →
        readNests scope (depth + 1)
            (items rolesOf [.group .parenthesis (TokenTree.marks ("*" :: right) ++ inner)] ++
              rest) =
          (do
            let arguments ← readArgumentList scope outside
            let (nests, innermost) ← readNests scope depth (items rolesOf inner)
            return (nestOf ⟨right⟩ arguments outside :: nests, innermost)) := by
  obtain ⟨hstar, hinside, hqualifiers⟩ := insideNest_items hroles hright hinner
  rw [items_singleton_append]
  constructor
  · rw [nestsAt_of_group (Level.groupContents?_group rolesOf .parenthesis _ rest), if_pos hstar,
      hinside]
  · rintro depth outside rfl
    rw [readNests_of_contents depth (Level.contents?_group rolesOf .parenthesis _ rest),
      hqualifiers, outsideNest, hinside]

theorem dimensions_eq {dimensions : List TokenTree}
    (h : TokenTree.AreDimensions scope known dimensions) :
    Level.dimensions (items rolesOf dimensions) = dimensionTexts dimensions := by
  rw [← List.append_nil (items rolesOf dimensions)]
  exact (Level.dimensions_items h Level.noGroup_nil).1

/-- A nest directly around the name. -/
theorem readsNest_ofName (hroles : Respects scope rolesOf) {right : List String}
    {name : Option String} {dimensions : List TokenTree} (hright : AreMarks scope right)
    (hname : ∀ text ∈ name, IsNameWord scope known text)
    (hdimensions : TokenTree.AreDimensions scope known dimensions) :
    ReadsNest scope known rolesOf name
      [.group .parenthesis
        (TokenTree.marks ("*" :: right) ++ (TokenTree.nameTrees name ++ dimensions))] := by
  have hword : ∀ text ∈ name, IsWord text := fun text htext => (hname text htext).isWord
  have hinner : NoQualifier (items rolesOf (TokenTree.nameTrees name ++ dimensions)) := by
    rw [TokenTree.items_append]
    exact forall_head_append (noQualifier_name hroles hname) (noQualifier_dimensions hdimensions)
  have hnone : nestsAt (items rolesOf (TokenTree.nameTrees name ++ dimensions)) = 0 := by
    refine nestsAt_of_none (Level.groupContents?_of_noGroup ?_)
    rw [TokenTree.items_append]
    exact forall_head_append (noGroup_name hroles hname _)
      (noGroup_dimensions hdimensions (by simp))
  refine ⟨⟨_, rfl⟩, hword, [nestOf ⟨right⟩ none []],
    items rolesOf (TokenTree.nameTrees name ++ dimensions), dimensionTexts dimensions, by simp, ?_,
    ?_,
    ?_⟩
  -- Three things: how it is read, what name and dimensions are inside, and what it writes.
  · intro rest
    obtain ⟨hnests, hread⟩ := nest_step hroles hright.isQualifier hinner rest
    refine ⟨by rw [hnests, hnone]; rfl, ?_⟩
    rw [show [nestOf ⟨right⟩ none []].length = 0 + 1 from rfl, hread 0 [] rfl,
      readArgumentList_of_none rfl, readNests]
    rfl
  · intro declarator hnone hnil
    have hread :=
      readName_items hroles hname hdimensions noName_nil Level.noGroup_nil declarator hnone hnil
    rwa [List.append_nil, ← TokenTree.items_append] at hread
  · intro spaced
    have hnest := writes_nest hright (writes_innerText spaced hname hdimensions)
      (unlinked_innerText spaced hword _)
    have htext :
        nestText (innerText spaced name (dimensionTexts dimensions)) [nestOf ⟨right⟩ none []] =
        "(*" ++ (⟨right⟩ : Qualifiers).leadingText ++
          innerText spaced name (dimensionTexts dimensions) ++ ")" := by
      simp [nestText, nestOf, Level.dimensions, dimensionsText]
    rwa [htext]

/-- A group of arguments is read as its arguments. -/
theorem readArgumentList_group {arguments : List TokenTree} {read : List Declarator}
    (h : readArguments scope (items rolesOf arguments) = .ok read) (rest : Level) :
    readArgumentList scope (TokenTree.item rolesOf (.group .parenthesis arguments) :: rest) =
      .ok (some read) := by
  rw [readArgumentList_of_group (Level.groupContents?_group rolesOf .parenthesis arguments rest), h]
  rfl

/-- A nest is a group, and so no qualifier. -/
theorem ReadsNest.noQualifier {name : Option String} {nest rest : List TokenTree}
    (h : ReadsNest scope known rolesOf name nest) : NoQualifier (items rolesOf (nest ++ rest)) := by
  obtain ⟨contents, rfl⟩ := h.exists_group
  intro item hitem
  obtain rfl := head_group rolesOf .parenthesis contents _ item hitem
  rfl

/-- A nest around a nest with dimensions after it. -/
theorem readsNest_ofVariable (hroles : Respects scope rolesOf) {right : List String}
    {name : Option String} {nest dimensions : List TokenTree} (hright : AreMarks scope right)
    (hnest : ReadsNest scope known rolesOf name nest)
    (hdimensions : TokenTree.AreDimensions scope known dimensions) :
    ReadsNest scope known rolesOf name
      [.group .parenthesis (TokenTree.marks ("*" :: right) ++ (nest ++ dimensions))] := by
  have hinner : NoQualifier (items rolesOf (nest ++ dimensions)) := hnest.noQualifier
  obtain ⟨⟨contents, rfl⟩, hword, nests, innermost, own, hne, hread, hname, hwrites⟩ := hnest
  have hlength : nests.length ≠ 0 := by simpa using hne
  refine ⟨⟨_, rfl⟩, hword, nestOf ⟨right⟩ none (items rolesOf dimensions) :: nests, innermost, own,
    by simp, ?_, hname, ?_⟩
  -- One nest outside, and behind it those that the inner part has.
  · intro rest
    obtain ⟨hnests, hstep⟩ := nest_step hroles hright.isQualifier hinner rest
    obtain ⟨hdepth, hinnermost⟩ := hread (items rolesOf dimensions)
    rw [← TokenTree.items_append] at hdepth hinnermost
    refine ⟨by rw [hnests, hdepth]; rfl, ?_⟩
    rw [List.length_cons,
      hstep nests.length (items rolesOf dimensions) (by rw [if_neg hlength]; rfl),
      readArgumentList_of_none
      (Level.groupContents?_of_noGroup (noGroup_dimensions hdimensions (by simp))),
      hinnermost]
    rfl
  -- The dimensions behind the inner nest are written inside the outer one.
  · intro spaced
    have hinnerText := (hwrites spaced).append (writes_dimensionsText hdimensions)
      (apart_dimensionsText _ _)
    have htext := writes_nest hright hinnerText
      ((free_nestText _ hne).append (free_dimensionsText _)).unlinked
    rw [nestText]
    simp only [nestOf, dimensions_eq hdimensions, reduceCtorEq, ↓reduceIte, String.append_empty]
    simpa only [String.append_assoc] using htext

/-- A nest around a nest with an argument list after it. -/
theorem readsNest_ofFunction (hroles : Respects scope rolesOf) {right : List String}
    {name : Option String} {nest arguments : List TokenTree} (hright : AreMarks scope right)
    (hnest : ReadsNest scope known rolesOf name nest)
    (harguments : ReadsArguments scope known rolesOf arguments) :
    ReadsNest scope known rolesOf name
      [.group .parenthesis
        (TokenTree.marks ("*" :: right) ++ (nest ++ [.group .parenthesis arguments]))] := by
  have hinner : NoQualifier (items rolesOf (nest ++ [.group .parenthesis arguments])) :=
    hnest.noQualifier
  obtain ⟨⟨contents, rfl⟩, hword, nests, innermost, own, hne, hread, hname, hwrites⟩ := hnest
  obtain ⟨-, read, hreadArguments, hargumentsText⟩ := harguments
  have hlength : nests.length ≠ 0 := by simpa using hne
  have houtside : readArgumentList scope (items rolesOf [.group .parenthesis arguments]) =
      .ok (some read) := readArgumentList_group hreadArguments []
  refine ⟨⟨_, rfl⟩, hword,
    nestOf ⟨right⟩ (some read) (items rolesOf [.group .parenthesis arguments]) :: nests, innermost,
    own,
    by simp, ?_, hname, ?_⟩
  -- As above, with an argument list behind the inner nest.
  · intro rest
    obtain ⟨hnests, hstep⟩ := nest_step hroles hright.isQualifier hinner rest
    obtain ⟨hdepth, hinnermost⟩ := hread (items rolesOf [.group .parenthesis arguments])
    rw [← TokenTree.items_append] at hdepth hinnermost
    refine ⟨by rw [hnests, hdepth]; rfl, ?_⟩
    rw [List.length_cons, hstep nests.length (items rolesOf [.group .parenthesis arguments])
      (by rw [if_neg hlength]; rfl), houtside, hinnermost]
    rfl
  · intro spaced
    have hinnerText := (hwrites spaced).append (writes_argumentsText hargumentsText)
      (apart_of_right (free_argumentsText _))
    have htext := writes_nest hright hinnerText
      ((free_nestText _ hne).append (free_argumentsText _)).unlinked
    rw [nestText]
    have hdimensions : dimensionsText (nestOf ⟨right⟩ (some read)
        (items rolesOf [.group .parenthesis arguments])).dimensions = "" := rfl
    rw [hdimensions, String.append_empty]
    simp only [nestOf, ↓reduceIte]
    simpa only [String.append_assoc] using htext

/-! ### Cores -/

/-- Without qualifiers in front there is nothing to pass. -/
theorem afterTypePart_of_noQualifier {level : Level} (h : NoQualifier level) :
    afterTypePart scope (some {}) level = level :=
  Level.afterQualifiers_of_noQualifier h

/-- Without a type and qualifiers, nothing is set. -/
theorem readType_of_noQualifier {level : Level} (h : NoQualifier level) :
    readType scope (some {}) {} level = {} := by
  unfold readType
  dsimp only
  rw [Level.qualifiers_of_noQualifier h]
  rfl

/-- The first token of a name is the name. -/
theorem eq_name_of_head_name (hroles : Respects scope rolesOf) {name : Option String}
    (hname : ∀ text ∈ name, IsNameWord scope known text) :
    ∀ item ∈ (items rolesOf (TokenTree.nameTrees name)).head?, item.bracket? = none →
      name = some item.value := by
  intro item hitem _
  obtain ⟨text, rfl, rfl⟩ := head_name hroles hname item hitem
  rfl

/-- Without nests the level is the innermost one. -/
theorem readNests_zero (scope : Scope) (level : Level) :
    readNests scope 0 level = .ok ([], level) := by
  rw [readNests]
  rfl

/-- The part after the type is read as its nests and its name, with dimensions after them. -/
theorem read_of_not_isFunction {level innermost : Level} {nests : List Declarator} {depth : Nat}
    (h : NoQualifier level) (hdepth : nestsAt level = depth)
    (hnests : readNests scope depth level = .ok (nests, innermost))
    (hkind : kindAt depth level = .variable) :
    read scope (some {}) {} level =
      .ok ({ readName { nests } innermost with
              outerDimensions := dimensionsAfterNests depth .variable level },
        afterNests depth .variable level) := by
  subst hdepth
  rw [read, afterTypePart_of_noQualifier h, readType_of_noQualifier h, hnests]
  dsimp only
  rw [hkind]
  rfl

/-- The part after the type is read as its nests and its name, with an argument list after them. -/
theorem read_of_isFunction {level innermost : Level}
    {nests arguments : List Declarator} {depth : Nat} {kind : DeclaratorKind}
    (h : NoQualifier level) (hdepth : nestsAt level = depth)
    (hnests : readNests scope depth level = .ok (nests, innermost))
    (hkind : kindAt depth level = kind) (hfunction : kind.isFunction = true)
    (harguments : readArgumentList scope (afterNests depth kind level) = .ok (some arguments)) :
    read scope (some {}) {} level =
      .ok ({ readName { kind, nests } innermost with arguments },
        (afterNests depth kind level).next) := by
  subst hdepth hkind
  rw [read, afterTypePart_of_noQualifier h, readType_of_noQualifier h, hnests]
  dsimp only [bind, Except.bind]
  rw [if_pos hfunction, harguments, dimensionsAfterNests, if_pos (Or.inr hfunction)]
  rfl

/-- Without a group behind the name, the declarator is a variable. -/
theorem kindAt_of_noGroup {level : Level} (h : Level.NoGroup .parenthesis (afterName level)) :
    kindAt 0 level = .variable := by
  rw [kindAt, if_neg (Nat.lt_irrefl 0), Level.isGroup_of_noGroup h]
  rfl

/-- A name with dimensions is read as such. -/
theorem read_variable (hroles : Respects scope rolesOf) {name : Option String}
    {dimensions : List TokenTree} (hname : ∀ text ∈ name, IsNameWord scope known text)
    (hdimensions : TokenTree.AreDimensions scope known dimensions) {stop : Level}
    (hstop : Stops stop) :
    read scope (some {}) {} (items rolesOf (TokenTree.nameTrees name ++ dimensions) ++ stop) =
      .ok ({ name, dimensions := dimensionTexts dimensions }, stop) := by
  -- What is behind the name and the dimensions is none of them, so each reader stops where it
  -- should.
  have hrest : NoName (items rolesOf dimensions ++ stop) :=
    forall_head_append (noName_dimensions hdimensions) (noName_of_stops hstop)
  have hgroup : Level.NoGroup .parenthesis (items rolesOf dimensions ++ stop) :=
    forall_head_append (noGroup_dimensions hdimensions (by simp)) (Level.noGroup_of_stops hstop _)
  have hqualifier : NoQualifier (items rolesOf (TokenTree.nameTrees name) ++
      (items rolesOf dimensions ++ stop)) :=
    forall_head_append (noQualifier_name hroles hname)
      (forall_head_append (noQualifier_dimensions hdimensions) hstop.noQualifier)
  have hafter := afterName_items hroles hname hrest
  have hdepth : nestsAt (items rolesOf (TokenTree.nameTrees name) ++
      (items rolesOf dimensions ++ stop)) = 0 :=
    nestsAt_of_none (Level.groupContents?_of_noGroup
      (forall_head_append (noGroup_name hroles hname _) hgroup))
  -- The parts of the declarator are read one after the other.
  rw [TokenTree.items_append, List.append_assoc,
    read_of_not_isFunction hqualifier hdepth (readNests_zero scope _)
      (kindAt_of_noGroup (by rw [hafter]; exact hgroup)),
    readName_items hroles hname hdimensions (noName_of_stops hstop)
      (Level.noGroup_of_stops hstop _) _ rfl rfl,
    afterNests, if_pos rfl, hafter,
    (Level.dimensions_items hdimensions (Level.noGroup_of_stops hstop _)).2,
    dimensionsAfterNests, if_pos (Or.inl rfl)]

/-- A name with dimensions. -/
theorem readsCore_variable (hroles : Respects scope rolesOf) {name : Option String}
    {dimensions : List TokenTree} (hname : ∀ text ∈ name, IsNameWord scope known text)
    (hdimensions : TokenTree.AreDimensions scope known dimensions) :
    ReadsCore scope known rolesOf name false (TokenTree.nameTrees name ++ dimensions) := by
  constructor
  case noQualifier =>
    rw [TokenTree.items_append]
    exact forall_head_append (noQualifier_name hroles hname) (noQualifier_dimensions hdimensions)
  case noBrace =>
    rw [TokenTree.items_append]
    exact forall_head_append (noGroup_name hroles hname _)
      (noGroup_dimensions hdimensions (by simp))
  case eq_name_of_head =>
    rw [TokenTree.items_append]
    exact forall_head_append (eq_name_of_head_name hroles hname) fun item hitem hbracket => by
      obtain ⟨contents, rfl⟩ := Level.head_dimensions hdimensions item hitem
      cases hbracket
  case isWord => exact fun text htext => (hname text htext).isWord
  case exists_read =>
    intro stop hstop
    refine ⟨_, read_variable hroles hname hdimensions hstop, rfl, rfl, fun spaced => ?_⟩
    have htext := writes_innerText spaced hname hdimensions
    simpa [coreText, nestText, dimensionsText, DeclaratorKind.isFunction] using htext

/-- The group of an argument list is no nest. -/
theorem nestsAt_arguments (rolesOf : Token → Roles) {arguments : List TokenTree}
    (h : Level.isToken (items rolesOf arguments) "*" = false) (rest : Level) :
    nestsAt (TokenTree.item rolesOf (.group .parenthesis arguments) :: rest) = 0 := by
  rw [nestsAt_of_group (Level.groupContents?_group rolesOf .parenthesis arguments rest), h]
  rfl

/-- A name before an argument list is no nest. -/
theorem nestsAt_function (hroles : Respects scope rolesOf) {name : Option String}
    {arguments : List TokenTree} (hname : ∀ text ∈ name, IsNameWord scope known text)
    (hstar : Level.isToken (items rolesOf arguments) "*" = false) (rest : Level) :
    nestsAt (items rolesOf (TokenTree.nameTrees name) ++
      TokenTree.item rolesOf (.group .parenthesis arguments) :: rest) = 0 := by
  cases name with
  | none => exact nestsAt_arguments rolesOf hstar rest
  | some text =>
    refine nestsAt_of_none (Level.groupContents?_of_noGroup ?_)
    rw [TokenTree.items_name hroles (hname text rfl)]
    rintro item ⟨⟩
    rfl

/-- A name with an argument list and no body declares a function. -/
theorem kindAt_function {level rest : Level} {arguments : List TokenTree}
    (h : afterName level = TokenTree.item rolesOf (.group .parenthesis arguments) :: rest)
    (hrest : Level.NoGroup .brace rest) : kindAt 0 level = .functionDeclaration := by
  rw [kindAt, if_neg (Nat.lt_irrefl 0), h]
  show (if Level.isGroup rest .brace = true then _ else _) = _
  rw [Level.isGroup_of_noGroup hrest]
  rfl

/-- A name with an argument list is read as such. -/
theorem read_function (hroles : Respects scope rolesOf) {name : Option String}
    {trees : List TokenTree} {arguments : List Declarator}
    (hname : ∀ text ∈ name, IsNameWord scope known text)
    (hstar : Level.isToken (items rolesOf trees) "*" = false)
    (harguments : readArguments scope (items rolesOf trees) = .ok arguments)
    {stop : Level} (hstop : Stops stop) :
    read scope (some {}) {}
        (items rolesOf (TokenTree.nameTrees name ++ [.group .parenthesis trees]) ++ stop) =
      .ok ({ kind := .functionDeclaration, name, arguments }, stop) := by
  -- The group of the arguments is neither a name nor a qualifier nor dimensions.
  have hgroup := head_group rolesOf .parenthesis trees stop
  have hnoName : NoName (TokenTree.item rolesOf (.group .parenthesis trees) :: stop) :=
    fun item hitem => by
      rw [hgroup item hitem]
      exact ⟨rfl, rfl⟩
  have hnoQualifier : NoQualifier (items rolesOf (TokenTree.nameTrees name) ++
      TokenTree.item rolesOf (.group .parenthesis trees) :: stop) :=
    forall_head_append (noQualifier_name hroles hname) fun item hitem => by
      rw [hgroup item hitem]
      rfl
  have hsquare : Level.NoGroup .square
      (TokenTree.item rolesOf (.group .parenthesis trees) :: stop) := fun item hitem => by
    rw [hgroup item hitem]
    rfl
  have hafter := afterName_items hroles hname hnoName
  have hafterNests : afterNests 0 .functionDeclaration
      (items rolesOf (TokenTree.nameTrees name) ++
        TokenTree.item rolesOf (.group .parenthesis trees) :: stop) =
      TokenTree.item rolesOf (.group .parenthesis trees) :: stop := by
    rw [afterNests, if_pos rfl, hafter, Level.afterDimensions_of_noGroup hsquare]
  have hread := read_of_isFunction hnoQualifier (nestsAt_function hroles hname hstar stop)
    (readNests_zero scope _) (kindAt_function hafter (Level.noGroup_of_stops hstop _)) rfl
    (by rw [hafterNests]; exact readArgumentList_group harguments stop)
  rw [hafterNests] at hread
  rw [TokenTree.items_append, List.append_assoc, items_singleton_append, hread,
    readName_name hroles hname hnoName hsquare _ rfl rfl]
  rfl

/-- A name with an argument list. -/
theorem readsCore_function (hroles : Respects scope rolesOf) {name : Option String}
    {arguments : List TokenTree} (hname : ∀ text ∈ name, IsNameWord scope known text)
    (harguments : ReadsArguments scope known rolesOf arguments) :
    ReadsCore scope known rolesOf name true
      (TokenTree.nameTrees name ++ [.group .parenthesis arguments]) := by
  obtain ⟨hstar, read, hreadArguments, hargumentsText⟩ := harguments
  have hgroup := head_group rolesOf .parenthesis arguments
  constructor
  case noQualifier =>
    rw [TokenTree.items_append]
    exact forall_head_append (noQualifier_name hroles hname) fun item hitem => by
      rw [hgroup [] item hitem]
      rfl
  case noBrace =>
    rw [TokenTree.items_append]
    exact forall_head_append (noGroup_name hroles hname _) fun item hitem => by
      rw [hgroup [] item hitem]
      rfl
  case eq_name_of_head =>
    rw [TokenTree.items_append]
    exact forall_head_append (eq_name_of_head_name hroles hname) fun item hitem hbracket => by
      rw [hgroup [] item hitem] at hbracket
      cases hbracket
  case isWord => exact fun text htext => (hname text htext).isWord
  -- What is read is the name and the arguments, and both are written again.
  case exists_read =>
    intro stop hstop
    refine ⟨_, read_function hroles hname hstar hreadArguments hstop, rfl, rfl, fun spaced => ?_⟩
    have htext := (writes_innerText spaced hname areDimensions_nil).append
      (writes_argumentsText hargumentsText) (apart_of_right (free_argumentsText _))
    simpa [coreText, nestText, dimensionTexts, dimensionsText,
      DeclaratorKind.isFunction] using htext

/-- What stands after a nest is no part of it. -/
theorem readsCore_nest {name : Option String} {endsInArguments : Bool} {nest after : List TokenTree}
    (hnest : ReadsNest scope known rolesOf name nest)
    (hread : ∀ stop, Stops stop → ∃ declarator,
      read scope (some {}) {} (items rolesOf (nest ++ after) ++ stop) = .ok (declarator, stop) ∧
        declarator.name = name ∧ declarator.kind.isFunction = endsInArguments ∧
        ∀ spaced, Writes (scope.keywords .c) known (coreText spaced declarator) (nest ++ after)) :
    ReadsCore scope known rolesOf name endsInArguments (nest ++ after) := by
  obtain ⟨contents, rfl⟩ := hnest.exists_group
  have hhead := head_group rolesOf .parenthesis contents (items rolesOf after)
  refine ⟨hnest.noQualifier, ?_, ?_, hnest.isWord, hread⟩
  · intro item hitem
    rw [hhead item hitem]
    rfl
  · intro item hitem hbracket
    rw [hhead item hitem] at hbracket
    cases hbracket

/-- Behind a nest stand its dimensions, unless it is a function. -/
theorem afterNests_cons {depth : Nat} (hdepth : depth ≠ 0) (kind : DeclaratorKind) (item : Item)
    (rest : Level) : afterNests depth kind (item :: rest) =
      if kind.isFunction then rest else rest.afterDimensions := by
  rw [afterNests, if_neg hdepth]
  rfl

/-- The dimensions behind a nest are those of the declarator. -/
theorem dimensionsAfterNests_cons {depth : Nat} (hdepth : depth ≠ 0) (item : Item) (rest : Level) :
    dimensionsAfterNests depth .variable (item :: rest) = rest.dimensions := by
  rw [dimensionsAfterNests, if_neg (by simp [hdepth, DeclaratorKind.isFunction])]
  rfl

/-- A nest is a pointer to a function if an argument list follows. -/
theorem kindAt_cons {depth : Nat} (hdepth : depth ≠ 0) (item : Item) (rest : Level) :
    kindAt depth (item :: rest) =
      if rest.isGroup .parenthesis then .functionPointer else .variable := by
  rw [kindAt, if_pos (Nat.pos_of_ne_zero hdepth)]
  rfl

/-- A nest with dimensions after it. -/
theorem readsCore_nestedVariable {name : Option String} {nest dimensions : List TokenTree}
    (hnest : ReadsNest scope known rolesOf name nest)
    (hdimensions : TokenTree.AreDimensions scope known dimensions) :
    ReadsCore scope known rolesOf name false (nest ++ dimensions) := by
  refine readsCore_nest hnest fun stop hstop => ?_
  obtain ⟨⟨contents, rfl⟩, -, nests, innermost, own, hne, hread, hname, hwrites⟩ := hnest
  have hlength : nests.length ≠ 0 := by simpa using hne
  obtain ⟨hdepth, hnests⟩ := hread (items rolesOf dimensions ++ stop)
  have hgroup : Level.NoGroup .parenthesis (items rolesOf dimensions ++ stop) :=
    forall_head_append (noGroup_dimensions hdimensions (by simp)) (Level.noGroup_of_stops hstop _)
  obtain ⟨htexts, hafter⟩ : Level.dimensions (items rolesOf dimensions ++ stop) =
    dimensionTexts dimensions ∧
      Level.afterDimensions (items rolesOf dimensions ++ stop) = stop :=
    Level.dimensions_items hdimensions (Level.noGroup_of_stops hstop _)
  rw [items_singleton_append] at hdepth hnests
  have hnoQualifier : NoQualifier (TokenTree.item rolesOf (.group .parenthesis contents) ::
      (items rolesOf dimensions ++ stop)) := by
    intro item hitem
    rw [head_group rolesOf .parenthesis contents _ item hitem]
    rfl
  have hkind : kindAt nests.length (TokenTree.item rolesOf (.group .parenthesis contents) ::
      (items rolesOf dimensions ++ stop)) = .variable := by
    rw [kindAt_cons hlength, Level.isGroup_of_noGroup hgroup]
    rfl
  -- The nests are read first, then the name inside of them, and the dimensions last.
  rw [TokenTree.items_append, List.append_assoc, items_singleton_append,
    read_of_not_isFunction hnoQualifier hdepth hnests hkind, hname _ rfl rfl,
    afterNests_cons hlength, dimensionsAfterNests_cons hlength, htexts, hafter]
  refine ⟨_, rfl, rfl, rfl, fun spaced => ?_⟩
  have htext :=
    (hwrites spaced).append (writes_dimensionsText hdimensions) (apart_dimensionsText _ _)
  simpa [coreText, DeclaratorKind.isFunction] using htext

/-- A nest with an argument list after it. -/
theorem readsCore_functionPointer {name : Option String} {nest arguments : List TokenTree}
    (hnest : ReadsNest scope known rolesOf name nest)
    (harguments : ReadsArguments scope known rolesOf arguments) :
    ReadsCore scope known rolesOf name true (nest ++ [.group .parenthesis arguments]) := by
  refine readsCore_nest hnest fun stop hstop => ?_
  obtain ⟨⟨contents, rfl⟩, -, nests, innermost, own, hne, hread, hname, hwrites⟩ := hnest
  obtain ⟨-, read, hreadArguments, hargumentsText⟩ := harguments
  have hlength : nests.length ≠ 0 := by simpa using hne
  obtain ⟨hdepth, hnests⟩ := hread (TokenTree.item rolesOf (.group .parenthesis arguments) :: stop)
  rw [items_singleton_append] at hdepth hnests
  have hnoQualifier : NoQualifier (TokenTree.item rolesOf (.group .parenthesis contents) ::
      TokenTree.item rolesOf (.group .parenthesis arguments) :: stop) := by
    intro item hitem
    rw [head_group rolesOf .parenthesis contents _ item hitem]
    rfl
  have hkind : kindAt nests.length (TokenTree.item rolesOf (.group .parenthesis contents) ::
      TokenTree.item rolesOf (.group .parenthesis arguments) :: stop) = .functionPointer := by
    rw [kindAt_cons hlength]
    rfl
  have hafter : afterNests nests.length .functionPointer
      (TokenTree.item rolesOf (.group .parenthesis contents) ::
        TokenTree.item rolesOf (.group .parenthesis arguments) :: stop) =
      TokenTree.item rolesOf (.group .parenthesis arguments) :: stop :=
    afterNests_cons hlength _ _ _
  have hargumentList := readArgumentList_group hreadArguments stop
  rw [← hafter] at hargumentList
  have hcore := read_of_isFunction hnoQualifier hdepth hnests hkind rfl hargumentList
  rw [hafter, hname _ rfl rfl] at hcore
  -- The nests are read first, then the argument list behind them.
  rw [TokenTree.items_append, List.append_assoc, items_singleton_append, items_singleton_append,
    hcore]
  refine ⟨_, rfl, rfl, rfl, fun spaced => ?_⟩
  have htext := (hwrites spaced).append (writes_argumentsText hargumentsText)
    (apart_of_right (free_argumentsText _))
  simpa [coreText, dimensionsText, DeclaratorKind.isFunction] using htext

end Declarator

end CommonDecl
