import CommonDecl.Proofs.Faults
import CommonDecl.Proofs.Rounds
import CommonDecl.Proofs.StatementRoundTrip

/-!
# Definitions of functions

The body of a function ends its statement where the return type is known: what follows is read as if
it stood alone (`FunctionDefinition.readAll_trees_append`).  A return type that is new makes the
statement the declaration of that type.  What is beside a type is read up to the next `;`, so the
statement then takes a part of what follows the body.
-/

namespace CommonDecl

open TokenTree (items)

variable {scope : Scope} {known : String → Bool} {rolesOf : Token → Roles}

/-- The parts of the definition of a function, cut into tokens when `known` was known. -/
structure FunctionDefinition (scope : Scope) (known : String → Bool) where
  /-- The qualifiers of the return type. -/
  left : List String
  /-- The return type. -/
  base : String
  right : List String
  name : String
  arguments : List TokenTree
  body : List TokenTree
  left_isQualifier : ∀ text ∈ left, IsQualifierWord scope text
  typedef_not_mem : "typedef" ∉ left
  base_isFree : IsFreeWord scope base
  /-- A type that was known when the text was cut into tokens is known still. -/
  base_known : known base = true → scope.knows base = true
  right_isMark : ∀ text ∈ right, IsMark scope text
  name_isName : IsNameWord scope known name

/-- Nothing is left of a statement at its end, so there is no further declarator to look for. -/
theorem Level.afterDeclarator_of_atStatementEnd {level : Level} (h : level.atStatementEnd = true) :
    level.afterDeclarator = level := by
  rcases Level.atStatementEnd_iff.mp h with rfl | hsemicolon
  · rfl
  · have hcomma : level.isToken "," = false := by
      cases level with
      | nil => rfl
      | cons item rest =>
        have hvalue : item.value = ";" := eq_of_beq ((Bool.and_eq_true _ _).mp hsemicolon).2
        have hne : item.value ≠ "," := by
          rw [hvalue]
          decide
        exact isToken_of_value_ne hne
    rw [Level.afterDeclarator, Level.skipToAny_of_isToken (by simp) hsemicolon, hcomma]
    rfl

namespace FunctionDefinition

variable (definition : FunctionDefinition scope known)

/-- The tokens from the name on. -/
def signature : List TokenTree :=
  TokenTree.nameTrees (some definition.name) ++
    [.group .parenthesis definition.arguments, .group .brace definition.body]

/-- The tokens of the definition. -/
def trees : List TokenTree :=
  TokenTree.marks definition.left ++ [TokenTree.word scope known definition.base] ++
    (TokenTree.marks definition.right ++ definition.signature)

/-- The function as it is declared with a type. -/
def declarator (left : Qualifiers) (base : Option TypeRef) (arguments : List Declarator) :
    Declarator where
  kind := .functionDefinition
  left := left
  right := ⟨definition.right⟩
  base := base
  name := some definition.name
  arguments := arguments

/-! ### The function -/

/-- The level of the body and of what follows the definition. -/
def atBody (rolesOf : Token → Roles) (rest : Level) : Level :=
  TokenTree.item rolesOf (.group .brace definition.body) :: rest

theorem items_signature (hroles : Respects scope rolesOf) (rest : Level) :
    items rolesOf definition.signature ++ rest =
      .token definition.name { isIdentifier := true, isUnresolved := true } ::
        TokenTree.item rolesOf (.group .parenthesis definition.arguments) ::
          definition.atBody rolesOf rest := by
  rw [signature, TokenTree.items_append, TokenTree.items_name hroles definition.name_isName]
  rfl

theorem noQualifier_signature (hroles : Respects scope rolesOf) (rest : Level) :
    NoQualifier (items rolesOf definition.signature ++ rest) := by
  rw [items_signature definition hroles]
  rintro item ⟨⟩
  rfl

/-- From the name on, the function is read up to its body, whatever its arguments are. -/
theorem read_signature (hroles : Respects scope rolesOf) (types : TypeTable)
    {read : List Declarator}
    (hread : Declarator.readArguments { scope with types } (items rolesOf definition.arguments) =
      .ok read) (rest : Level) :
    Declarator.read { scope with types } (some {}) {} (items rolesOf definition.signature ++ rest) =
      .ok ({ kind := .functionDefinition, name := some definition.name, arguments := read },
        definition.atBody rolesOf rest) := by
  have hnoQualifier := noQualifier_signature definition hroles rest
  rw [items_signature definition hroles] at hnoQualifier ⊢
  have hlist := Declarator.readArgumentList_group hread (definition.atBody rolesOf rest)
  exact Declarator.read_of_isFunction hnoQualifier (Declarator.nestsAt_of_none rfl)
    (Declarator.readNests_zero _ _) rfl rfl hlist

/-- After the return type, the function is read with the type of a template. -/
theorem read_template (hroles : Respects scope rolesOf) {types : TypeTable} {read : List Declarator}
    (hread : Declarator.readArguments { scope with types } (items rolesOf definition.arguments) =
      .ok read) (shared : Declarator) (rest : Level) :
    Declarator.read { scope with types } (some shared) {}
        (Level.ofMarks definition.right ++ (items rolesOf definition.signature ++ rest)) =
      .ok (definition.declarator shared.left shared.base read, definition.atBody rolesOf rest) := by
  have hnoQualifier := noQualifier_signature definition hroles rest
  have hafter : Declarator.afterTypePart { scope with types } (some shared)
      (Level.ofMarks definition.right ++ (items rolesOf definition.signature ++ rest)) =
        items rolesOf definition.signature ++ rest :=
    Level.afterQualifiers_ofMarks definition.right hnoQualifier
  rw [Declarator.read_eq_core, hafter, read_signature definition hroles types hread]
  unfold Declarator.readType
  dsimp only
  rw [Level.qualifiers_ofMarks definition.right hnoQualifier]
  rfl

/-! ### The statement -/

/-- The level of a definition: the qualifiers, the return type, and the function. -/
theorem items_trees (hroles : Respects scope rolesOf) (rest : Level) :
    items rolesOf definition.trees ++ rest =
      Level.ofMarks definition.left ++
        (items rolesOf (TokenTree.tagTrees scope known (some definition.base)) ++
          (Level.ofMarks definition.right ++ (items rolesOf definition.signature ++ rest))) := by
  have h := items_statement known hroles definition.left_isQualifier (some definition.base)
    (TokenTree.marks definition.right ++ definition.signature) rest
  rwa [TokenTree.items_append rolesOf (TokenTree.marks definition.right),
    TokenTree.items_marks hroles definition.right_isMark,
    List.append_assoc (Level.ofMarks definition.right)] at h

/-- After the return type stands a pointer marker or a word. -/
theorem head_function (hroles : Respects scope rolesOf) (rest : Level) :
    ∀ item ∈ (Level.ofMarks definition.right ++ (items rolesOf definition.signature ++ rest)).head?,
      item.bracket? = none ∧ (item.value = "*" ∨ item.value = "&" ∨ IsWord item.value) := by
  apply forall_head_append
  · intro item hitem
    obtain ⟨text, htext, rfl⟩ := List.mem_map.mp (List.mem_of_mem_head? hitem)
    exact ⟨rfl, (definition.right_isMark text htext).imp_right fun h =>
      h.imp_right IsQualifierWord.isWord⟩
  · rw [items_signature definition hroles]
    rintro item ⟨⟩
    exact ⟨rfl, Or.inr (Or.inr definition.name_isName.isWord)⟩

theorem not_isToken_function (hroles : Respects scope rolesOf) (rest : Level) (text : String)
    (htext : ¬(text = "*" ∨ text = "&" ∨ IsWord text)) :
    Level.isToken (Level.ofMarks definition.right ++
      (items rolesOf definition.signature ++ rest)) text =
      false := by
  refine isToken_of_head fun item hitem => isToken_of_value_ne ?_
  rintro rfl
  exact htext (head_function definition hroles rest item hitem).2

theorem noGroup_function (hroles : Respects scope rolesOf) (rest : Level) (bracket : Bracket) :
    Level.NoGroup bracket
      (Level.ofMarks definition.right ++ (items rolesOf definition.signature ++ rest)) := by
  intro item hitem
  rw [Item.isGroup, (head_function definition hroles rest item hitem).1]
  rfl

theorem function_ne_nil (hroles : Respects scope rolesOf) (rest : Level) :
    Level.ofMarks definition.right ++ (items rolesOf definition.signature ++ rest) ≠ [] := by
  rw [items_signature definition hroles]
  exact List.append_ne_nil_of_right_ne_nil _ (List.cons_ne_nil _ _)

/-- The declarator does not end with the return type. -/
theorem endsDeclarator_function (hroles : Respects scope rolesOf) (rest : Level) :
    TypeDecl.endsDeclarator
      (Level.ofMarks definition.right ++ (items rolesOf definition.signature ++ rest)) = false := by
  have hsemicolon := not_isToken_function definition hroles rest ";" (by decide)
  have hcomma := not_isToken_function definition hroles rest "," (by decide)
  have hequals := not_isToken_function definition hroles rest "=" (by decide)
  have hsquare := Level.isGroup_of_noGroup (noGroup_function definition hroles rest .square)
  have hlist := Level.isGroup_of_noGroup (noGroup_function definition hroles rest .parenthesis)
  have hend := List.isEmpty_eq_false_iff.mpr (function_ne_nil definition hroles rest)
  rw [TypeDecl.endsDeclarator, Level.atEnd, hend, hsemicolon, hcomma, hequals, hsquare, hlist]
  rfl

/-- What the definition declares by itself, with these items in its argument list, and the scope
that it leaves. -/
inductive Declares (definition : FunctionDefinition scope known) (list : Level) :
    Declaration → Scope → Prop where
  /-- A function of a type that is known. -/
  | function {arguments : List Declarator} (hknows : scope.knows definition.base = true)
    (harguments : Declarator.readArguments scope list = .ok arguments) :
    Declares definition list
      (.names [definition.declarator ⟨definition.left⟩ (scope.lookup definition.base) arguments])
        scope
  /-- A type that is new, with a function of that type beside it. -/
  | introduced {ref : TypeRef} {after : Scope} {arguments : List Declarator}
    (hnew : scope.knows definition.base = false)
    (hregister : Reading.register (.tagged ⟨definition.left⟩ (some definition.base) none) scope =
      .ok ref after)
    (harguments : Declarator.readArguments after list = .ok arguments) :
    Declares definition list
      (.type (.tagged ⟨definition.left⟩ (some definition.base) none)
        [definition.declarator {} (some ref) arguments]) after

/-! ### The return type is known -/

/-- With a return type that is known, the statement ends after the body. -/
theorem exists_read_of_knows (hroles : Respects scope rolesOf)
    (hknows : scope.knows definition.base = true) :
    ∃ declaration, Declares definition (items rolesOf definition.arguments) declaration
      scope ∧ ∀ rest, Declaration.read (items rolesOf definition.trees ++ rest) scope =
        .ok (declaration, rest.afterSemicolon) scope := by
  have hfree : ∀ text ∈ some definition.base, IsFreeWord scope text := by
    rintro text ⟨⟩
    exact definition.base_isFree
  obtain ⟨roles, -, -, hitem⟩ : ∃ roles : Roles, _ ∧ _ ∧
      TokenTree.item rolesOf (TokenTree.word scope known definition.base) =
        .token definition.base roles :=
    TokenTree.item_word hroles definition.base_isFree
  have hitems : items rolesOf (TokenTree.tagTrees scope known (some definition.base)) =
      [.token definition.base roles] := by
    show [TokenTree.item rolesOf (TokenTree.word scope known definition.base)] = _
    rw [hitem]
  obtain ⟨arguments, harguments⟩ :=
    (Declarator.exists_read_all scope).2.2.1 (items rolesOf definition.arguments)
  refine ⟨_, .function hknows harguments, fun rest => ?_⟩
  obtain ⟨hleft, hafter, -, -⟩ := TypeDecl.typeHead_items hroles definition.left_isQualifier hfree
    (by rintro ⟨⟩) (items_trees definition hroles rest)
  rw [hitems, List.singleton_append] at hafter
  have hvariables := TypeDecl.isDeclaredAt_of_known hleft definition.typedef_not_mem hafter hknows
    (noGroup_function definition hroles rest .brace)
  refine Declaration.read_of_variables hvariables ?_
  -- What is read of the part after the type is completed by the type.
  have hnext :
      Declarator.afterType scope (items rolesOf definition.trees ++ rest).afterLeftQualifiers =
      Level.ofMarks definition.right ++ (items rolesOf definition.signature ++ rest) := by
    have htype : (Declarator.typeAt? scope
        (items rolesOf definition.trees ++ rest).afterLeftQualifiers).isSome = true := by
      rw [hafter]
      exact hknows
    rw [Declarator.afterType, if_pos htype, hafter]
    rfl
  have hnoQualifier := noQualifier_signature definition hroles rest
  have hread := Declarator.read_of_core ⟨definition.left⟩ ⟨definition.right⟩ hleft
    (by rw [hnext, Level.qualifiers_ofMarks definition.right hnoQualifier])
    (by rw [hnext, Level.afterQualifiers_ofMarks definition.right hnoQualifier])
    (read_signature definition hroles scope.types harguments rest)
  rw [hafter] at hread
  rw [Declaration.readVariables, hread]
  dsimp only [bind, Except.bind]
  rw [Declaration.readFurther, if_pos ⟨rfl, rfl⟩]
  rfl

/-! ### The return type is new -/

/-- After the body, the next declarator is looked for in what follows. -/
theorem afterDeclarator_atBody (rest : Level) :
    (definition.atBody rolesOf rest).afterDeclarator = rest.afterDeclarator := by
  have hskip : (definition.atBody rolesOf rest).skipToAny [",", ";"] = rest.skipToAny [",", ";"] :=
    List.dropWhile_cons_of_pos rfl
  rw [Level.afterDeclarator, hskip]
  rfl

/-- With a return type that is new, what follows the body is searched for further variables of the
type. -/
theorem exists_read_of_new (hroles : Respects scope rolesOf)
    (hnew : scope.knows definition.base = false) :
    ∃ ref after function, Declares definition (items rolesOf definition.arguments)
        (.type (.tagged ⟨definition.left⟩ (some definition.base) none) [function]) after ∧
      ∀ rest others last,
        Level.readSeparated (Declarator.read after (some (Declarator.ofBase ref)) {})
          rest.afterDeclarator = .ok (others, last) →
        Declaration.read (items rolesOf definition.trees ++ rest) scope =
          .ok (.type (.tagged ⟨definition.left⟩ (some definition.base) none) (function :: others),
            last.afterSemicolon) after := by
  have hbase : IsNameWord scope known definition.base := by
    refine ⟨definition.base_isFree, ?_⟩
    rw [Bool.eq_false_iff]
    intro hknown
    rw [definition.base_known hknown] at hnew
    cases hnew
  have hfree : ∀ text ∈ some definition.base, IsFreeWord scope text := by
    rintro text ⟨⟩
    exact definition.base_isFree
  obtain ⟨ref, after, hregister⟩ : ∃ ref after,
      Reading.register (.tagged ⟨definition.left⟩ (some definition.base) none) scope =
          .ok ref after :=
    ⟨_, _, rfl⟩
  have htypes : after = { scope with types := after.types } := by
    cases hregister
    rfl
  obtain ⟨arguments, harguments⟩ :=
    (Declarator.exists_read_all after).2.2.1 (items rolesOf definition.arguments)
  refine ⟨ref, after, _, .introduced hnew hregister harguments, fun rest others last hothers => ?_⟩
  obtain ⟨hleft, hafter, hname, hafterName⟩ := TypeDecl.typeHead_items hroles
    definition.left_isQualifier hfree (by rintro ⟨⟩) (items_trees definition hroles rest)
  have hdeclares := TypeDecl.isDeclaredAt_of_introduced hroles hleft hafter
    (Or.inr (endsDeclarator_function definition hroles rest)) hbase hnew
  have hnoBody := readBody?_of_noGroup (by
    rw [hafterName]
    exact noGroup_function definition hroles rest .brace) scope
  have htype := TypeDecl.read_of_noBody (by
    rw [hleft]
    exact TypeDecl.has_typedef_of_not_mem definition.typedef_not_mem) hnoBody
  rw [hleft, hname, hafterName] at htype
  refine Declaration.read_of_type hdeclares htype ?_
  -- The function is the first variable of the type.
  have hfunction : Declarator.read after (some (Declarator.ofBase ref)) {}
      (Level.ofMarks definition.right ++ (items rolesOf definition.signature ++ rest)) =
        .ok (definition.declarator {} (some ref) arguments, definition.atBody rolesOf rest) := by
    rw [htypes] at harguments ⊢
    exact read_template definition hroles harguments (Declarator.ofBase ref) rest
  have hend : Level.atStatementEnd
      (Level.ofMarks definition.right ++ (items rolesOf definition.signature ++ rest)) = false := by
    have hsemicolon := not_isToken_function definition hroles rest ";" (by decide)
    have hne := List.isEmpty_eq_false_iff.mpr (function_ne_nil definition hroles rest)
    rw [Level.atStatementEnd, Level.atEnd, hne, hsemicolon]
    rfl
  have hlength : rest.afterDeclarator.length <
      (Level.ofMarks definition.right ++ (items rolesOf definition.signature ++ rest)).length := by
    have hle := (Level.afterDeclarator_suffix rest).length_le
    rw [items_signature definition hroles, List.length_append]
    simp only [List.length_cons, atBody]
    omega
  have hinstances : Level.readSeparated (Declarator.read after (some (Declarator.ofBase ref)) {})
      (Level.ofMarks definition.right ++ (items rolesOf definition.signature ++ rest)) =
        .ok (definition.declarator {} (some ref) arguments :: others, last) := by
    rw [Level.readSeparated, if_neg (by simp [hend]), hfunction]
    dsimp only [bind, Except.bind]
    rw [afterDeclarator_atBody, if_pos hlength, hothers]
    rfl
  rw [Declaration.readBeside, if_neg (by simp [TypeDecl.name?]), bind_of_ok hregister]
  dsimp only
  rw [bind_of_ok (Declaration.readInstances_of_readSeparated hinstances)]
  rfl

/-! ### What follows -/

/-- By itself, or before the end of a statement, a definition declares its function and takes
nothing of what follows but the `;`. -/
theorem exists_read (hroles : Respects scope rolesOf) :
    ∃ declaration after,
      Declares definition (items rolesOf definition.arguments) declaration after ∧ ∀ rest :
        Level, scope.knows definition.base = true ∨ rest.atStatementEnd = true →
          Declaration.read (items rolesOf definition.trees ++ rest) scope =
          .ok (declaration, rest.afterSemicolon) after := by
  by_cases hknows : scope.knows definition.base = true
  · obtain ⟨declaration, hdeclares, hread⟩ := exists_read_of_knows definition hroles hknows
    exact ⟨declaration, scope, hdeclares, fun rest _ => hread rest⟩
  · rw [Bool.not_eq_true] at hknows
    obtain ⟨ref, after, function, hdeclares, hread⟩ := exists_read_of_new definition hroles hknows
    refine ⟨_, after, hdeclares, fun rest hrest => hread rest [] rest ?_⟩
    have hend : rest.atStatementEnd = true := by
      rcases hrest with hrest | hrest
      · rw [hknows] at hrest
        cases hrest
      · exact hrest
    rw [Level.afterDeclarator_of_atStatementEnd hend, Level.readSeparated, if_pos hend]
    rfl

/-- A return type that is new takes a part of what follows, unless that is the end of a statement.
-/
theorem exists_read_swallows (hroles : Respects scope rolesOf)
    (hnew : scope.knows definition.base = false) {rest : Level}
    (hrest : rest.atStatementEnd = false) :
    ∃ function others last after,
      Declaration.read (items rolesOf definition.trees ++ rest) scope =
        .ok (.type (.tagged ⟨definition.left⟩ (some definition.base) none) (function :: others),
          last)
          after ∧
      last <:+ rest.next := by
  obtain ⟨ref, after, function, -, hread⟩ := exists_read_of_new definition hroles hnew
  obtain ⟨⟨others, last⟩, hothers⟩ := Level.exists_readSeparated
    (Declarator.exists_read after (some (Declarator.ofBase ref)) {}) rest.afterDeclarator
  refine ⟨function, others, _, after, hread rest others last hothers, ?_⟩
  have hlast : last <:+ rest.afterDeclarator :=
    Level.readSeparated_rest Declarator.read_rest hothers
  have hnext : rest.afterDeclarator <:+ rest.next :=
    Level.afterDeclarator_suffix_next (Level.isToken_semicolon_of_atStatementEnd hrest)
  exact (Level.afterSemicolon_suffix last).trans (hlast.trans hnext)

end FunctionDefinition

namespace Declaration

/-- A `;` in front of statements changes nothing. -/
theorem readAll_afterSemicolon (dialect : Dialect) (scope : Scope) (level : Level) :
    readAll dialect scope level.afterSemicolon = readAll dialect scope level := by
  rw [Level.afterSemicolon]
  split
  · rename_i hsemicolon
    refine readAll_congr ?_ dialect scope
    cases level with
    | nil => rfl
    | cons item rest =>
      have hitem : item.isToken ";" = true := hsemicolon
      rw [afterEmptyStatements, afterEmptyStatements, List.dropWhile_cons_of_pos hitem]
      rfl
  · rfl

end Declaration

namespace FunctionDefinition

variable (definition : FunctionDefinition scope known)

theorem next?_items_trees (hroles : Respects scope rolesOf) {rest last : Level} {after : Scope}
    {declaration : Declaration}
    (h : Declaration.read (items rolesOf definition.trees ++ rest) scope =
      .ok (declaration, last) after) :
    Declaration.next? .c (items rolesOf definition.trees ++ rest) scope =
      .ok (some (declaration, last)) after := by
  have hfree : ∀ text ∈ some definition.base, IsFreeWord scope text := by
    rintro text ⟨⟩
    exact definition.base_isFree
  obtain ⟨hne, hsemicolon⟩ : definition.trees ≠ [] ∧
      Level.isToken (items rolesOf definition.trees) ";" = false :=
    start_statement hroles definition.left_isQualifier hfree (by rintro ⟨⟩)
  obtain ⟨item, others, hitems⟩ := List.exists_cons_of_ne_nil (Declarator.items_ne_nil hne)
  rw [hitems] at hsemicolon h ⊢
  exact Declaration.next?_of_read (List.cons_ne_nil _ _) hsemicolon h

/-- The definition is followed by exactly the declarations that are read of what stands after it, in
the scope that the definition leaves by itself. -/
def EndsStatement (itemsOf : List TokenTree → Level) (following : List TokenTree) : Prop :=
  ∃ declaration after, definition.Declares (itemsOf definition.arguments) declaration after ∧
    Declaration.readAll .c scope (itemsOf definition.trees) = ⟨[declaration], none, after⟩ ∧
    Declaration.readAll .c scope (itemsOf (definition.trees ++ following)) =
      { Declaration.readAll .c after (itemsOf following) with
        declarations :=
          declaration :: (Declaration.readAll .c after (itemsOf following)).declarations }

theorem endsStatement_items (hroles : Respects scope rolesOf) {following : List TokenTree}
    (h : scope.knows definition.base = true ∨
      Level.atStatementEnd (items rolesOf following) = true) :
    definition.EndsStatement (items rolesOf) following := by
  obtain ⟨declaration, after, hdeclares, hread⟩ := exists_read definition hroles
  have hall (rest : Level) (hends : scope.knows definition.base = true ∨
    rest.atStatementEnd = true) :
      Declaration.readAll .c scope (items rolesOf definition.trees ++ rest) =
        { Declaration.readAll .c after rest with
          declarations := declaration :: (Declaration.readAll .c after rest).declarations } := by
    have hnext := next?_items_trees definition hroles (hread rest hends)
    rw [Declaration.readAll_of_next? hnext, Declaration.readAll_afterSemicolon]
  have halone := hall [] (Or.inr rfl)
  have hnil : Declaration.readAll .c after [] = ⟨[], none, after⟩ := by
    rw [Declaration.readAll]
    rfl
  rw [List.append_nil, hnil] at halone
  refine ⟨declaration, after, hdeclares, halone, ?_⟩
  rw [TokenTree.items_append]
  exact hall (items rolesOf following) h

/-- A body ends the statement of its function if the return type is known, or if a `;` or nothing
stands after it.  In any other case the return type is new, and its statement takes at least one
item of what stands after the body. -/
theorem endsStatement_or_swallows (following : List TokenTree) :
    ∀ itemsOf ∈ [fun trees => (Node.ofTrees trees).items,
        fun trees => (Chain.ofTrees trees).items (scope.keywords .c)],
      (scope.knows definition.base = true ∨ Level.atStatementEnd (itemsOf following) = true →
        definition.EndsStatement itemsOf following) ∧
      (scope.knows definition.base = false → Level.atStatementEnd (itemsOf following) = false →
        ∃ function others last after,
          Declaration.next? .c (itemsOf (definition.trees ++ following)) scope =
            .ok (some (.type (.tagged ⟨definition.left⟩ (some definition.base) none)
              (function :: others), last)) after ∧
          last <:+ Level.next (itemsOf following)) := by
  have hread (rolesOf : Token → Roles) (hroles : Respects scope rolesOf) :
      (scope.knows definition.base = true ∨ Level.atStatementEnd (items rolesOf following) = true →
        definition.EndsStatement (items rolesOf) following) ∧
      (scope.knows definition.base = false →
        Level.atStatementEnd (items rolesOf following) = false → ∃ function others last after,
          Declaration.next? .c (items rolesOf (definition.trees ++ following)) scope =
            .ok (some (.type (.tagged ⟨definition.left⟩ (some definition.base) none)
              (function :: others), last)) after ∧
          last <:+ Level.next (items rolesOf following)) := by
    refine ⟨endsStatement_items definition hroles, fun hnew hgoesOn => ?_⟩
    obtain ⟨function, others, last, after, hread, hlast⟩ :=
      exists_read_swallows definition hroles hnew hgoesOn
    rw [TokenTree.items_append]
    exact ⟨function, others, last, after, next?_items_trees definition hroles hread, hlast⟩
  rw [List.forall_mem_cons, List.forall_mem_singleton]
  simp only [Node.items_ofTrees, Chain.items_ofTrees]
  exact ⟨hread _ (respects_tree scope), hread _ (respects_list scope)⟩

/-- A function that returns a pointer to a type. -/
def pointerFunction (base : String) (hbase : IsFreeWord (Scope.ofSettings {}) base) :
    FunctionDefinition (Scope.ofSettings {}) (Scope.ofSettings {}).knows where
  left := ["const"]
  base := base
  right := ["*"]
  name := "f"
  arguments := [TokenTree.word (Scope.ofSettings {}) (Scope.ofSettings {}).knows "int",
    .leaf ⟨"a", .unresolved⟩]
  body := [.leaf ⟨"return", .unresolved⟩, .leaf ⟨"0", .constant⟩,
    TokenTree.symbol (Scope.ofSettings {}) (Scope.ofSettings {}).knows ";"]
  left_isQualifier := by
    rw [List.forall_mem_singleton]
    exact ⟨by decide, by decide⟩
  typedef_not_mem := by decide
  base_isFree := hbase
  base_known h := h
  right_isMark := by simp [IsMark]
  name_isName := ⟨⟨by decide, by decide⟩, by decide⟩

/-- The tokens of `char x; char y;`. -/
def twoVariables : List TokenTree :=
  ["x", "y"].flatMap fun name =>
    [TokenTree.word (Scope.ofSettings {}) (Scope.ofSettings {}).knows "char",
      .leaf ⟨name, .unresolved⟩,
      TokenTree.symbol (Scope.ofSettings {}) (Scope.ofSettings {}).knows ";"]

/-- Variables after the body of a function of a known type are not lost. -/
theorem endsStatement_pointerFunction :
    ∃ hint : IsFreeWord (Scope.ofSettings {}) "int",
      TokenTree.ofSource .c (Scope.ofSettings {})
          "const int *f(int a) { return 0; } char x; char y;" =
        .ok ((pointerFunction "int" hint).trees ++ twoVariables) ∧
      (Scope.ofSettings {}).knows "int" = true ∧
      (pointerFunction "int" hint).EndsStatement (fun trees =>
        (Node.ofTrees trees).items) twoVariables := by
  have hknows : (Scope.ofSettings {}).knows "int" = true := by decide
  refine ⟨⟨by decide, by decide⟩, ?_, hknows, ?_⟩
  · decide +kernel
  · exact (endsStatement_or_swallows (pointerFunction "int" _) twoVariables _ List.mem_cons_self).1
      (Or.inl hknows)

/-- With a type that is new, the first of the variables after the body is lost. -/
theorem not_endsStatement_pointerFunction :
    ∃ htype : IsFreeWord (Scope.ofSettings {}) "T",
      TokenTree.ofSource .c (Scope.ofSettings {})
          "const T *f(int a) { return 0; } char x; char y;" =
        .ok ((pointerFunction "T" htype).trees ++ twoVariables) ∧
      ¬ (pointerFunction "T" htype).EndsStatement (fun trees => (Node.ofTrees trees).items)
        twoVariables := by
  refine ⟨⟨by decide, by decide⟩, ?_, ?_⟩
  · decide +kernel
  · rintro ⟨declaration, after, -, halone, hall⟩
    have hafter : after = (Declaration.readAll .c (Scope.ofSettings {})
        (Node.ofTrees (pointerFunction "T" ⟨by decide, by decide⟩).trees).items).scope := by
      rw [halone]
    have hlength := congrArg (fun outcome => outcome.declarations.length) hall
    dsimp only at hlength
    rw [hafter, List.length_cons] at hlength
    exact absurd hlength (by decide +kernel)

end FunctionDefinition

end CommonDecl
