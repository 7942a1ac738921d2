import CommonDecl.Proofs.Lookahead
import CommonDecl.Proofs.RoundTrip
import CommonDecl.Proofs.Statements

/-!
# Functions inside nests

`void (*signal(int sig))(int)` declares a function that returns a pointer to a function: its own
argument list stands inside a nest, directly after the name.  The reader keeps the list after a nest
with the nest around it, and the list after the outermost nest with the declarator.  What stands
after the name inside the innermost nest is passed over, so the arguments of the function itself are
lost (`EnclosedFunction.read_without_arguments`).
-/

namespace CommonDecl

open TokenTree (items)

variable {scope : Scope} {known : String → Bool} {rolesOf : Token → Roles}

/-! ### The parts -/

/-- A nest around other tokens. -/
structure NestParts where
  /-- The qualifiers after its `*`. -/
  right : List String
  /-- What stands after the nest or the name inside it: an argument list, dimensions or nothing. -/
  after : List TokenTree

/-- Tokens with nests around them, outermost first. -/
def TokenTree.enclose (nests : List NestParts) (inner : List TokenTree) : List TokenTree :=
  nests.foldr (fun nest inner =>
    [.group .parenthesis (TokenTree.marks ("*" :: nest.right) ++ (inner ++ nest.after))]) inner

/-- The parts of a function inside nests, cut into tokens when `known` was known. -/
structure EnclosedFunction (scope : Scope) (known : String → Bool) where
  /-- The qualifiers of the type that the outermost argument list returns. -/
  left : List String
  /-- That type, which a qualifier such as `unsigned` can stand for. -/
  base : Option String
  right : List String
  /-- The nests around the innermost one. -/
  nests : List NestParts
  /-- The qualifiers of the innermost nest. -/
  innermost : List String
  name : String
  /-- What stands in the argument list of the function itself, if it has one. -/
  arguments : Option (List TokenTree)
  /-- What stands in the argument list after the outermost nest. -/
  outer : List TokenTree
  left_isQualifier : ∀ text ∈ left,
    (scope.keywords .c).isQualifier text = true ∧ isPointerMarker text = false
  base_isType : ∀ text ∈ base, IsTypeWord scope text
  /-- Without a base type, all qualifiers are left of it. -/
  right_of_noBase : base = none → right = []
  right_isQualifier : ∀ text ∈ right, (scope.keywords .c).isQualifier text = true
  nests_isQualifier : ∀ nest ∈ nests, ∀ text ∈ nest.right,
    (scope.keywords .c).isQualifier text = true
  innermost_isQualifier : ∀ text ∈ innermost, (scope.keywords .c).isQualifier text = true
  name_isName : IsNameWord scope known name

namespace EnclosedFunction

variable (function : EnclosedFunction scope known)

/-- The name and the argument list of the function itself. -/
def nameAndList : List TokenTree :=
  TokenTree.nameTrees (some function.name) ++ (function.arguments.map (.group .parenthesis)).toList

/-- The innermost nest. -/
def nest : List TokenTree :=
  [.group .parenthesis (TokenTree.marks ("*" :: function.innermost) ++ function.nameAndList)]

/-- The tokens of the declarator. -/
def trees : List TokenTree :=
  TokenTree.marks function.left ++ (TokenTree.tagTrees scope known function.base ++
    (TokenTree.marks function.right ++
      (TokenTree.enclose function.nests function.nest ++ [.group .parenthesis function.outer])))

/-- The declarator with these arguments after the outermost nest and these nests around the
innermost one. -/
def declarator (arguments nests : List Declarator) : Declarator where
  kind := .functionPointer
  left := ⟨function.left⟩
  right := ⟨function.right⟩
  base := function.base >>= scope.lookup
  name := some function.name
  arguments := arguments
  nests := nests ++ [{ right := ⟨function.innermost⟩ }]

/-- The nest is recorded with its qualifiers and with the argument list and the dimensions that
stand after the nest inside it. -/
def RecordsNest (scope : Scope) (itemsOf : List TokenTree → Level) (parts : NestParts)
    (nest : Declarator) : Prop :=
  ∃ list, Declarator.readArgumentList scope (itemsOf parts.after) = .ok list ∧
    nest = Declarator.nestOf ⟨parts.right⟩ list (itemsOf parts.after)

/-- The declarator has all parts of the function but its own argument list: each nest around another
one is recorded with what stands after that, and the innermost nest with nothing. -/
def RecordedAs (itemsOf : List TokenTree → Level) (declarator : Declarator) : Prop :=
  ∃ arguments nests, Declarator.readArguments scope (itemsOf function.outer) = .ok arguments ∧
    List.Forall₂ (RecordsNest scope itemsOf) function.nests nests ∧
      declarator = function.declarator arguments nests

/-! ### Nests around a nest -/

/-- Nests around a group are a group. -/
theorem exists_group (nests : List NestParts) (contents : List TokenTree) :
    ∃ contents', TokenTree.enclose nests [.group .parenthesis contents] =
      [.group .parenthesis contents'] := by
  cases nests with
  | nil => exact ⟨contents, rfl⟩
  | cons nest nests => exact ⟨_, rfl⟩

/-- The nests around a group that has one nest are read one after the other, each with what stands
after the nest inside it. -/
theorem exists_readNests_enclose (hroles : Respects scope rolesOf) {nests : List NestParts}
    (hnests : ∀ nest ∈ nests, ∀ text ∈ nest.right, (scope.keywords .c).isQualifier text = true) :
    ∃ recorded, List.Forall₂ (RecordsNest scope (items rolesOf)) nests recorded ∧
      ∀ contents last innermost,
        (∀ rest, Declarator.nestsAt (items rolesOf [.group .parenthesis contents] ++ rest) = 1 ∧
          Declarator.readNests scope 1 (items rolesOf [.group .parenthesis contents] ++ rest) =
            .ok ([last], innermost)) →
        ∀ rest, Declarator.nestsAt
            (items rolesOf (TokenTree.enclose nests [.group .parenthesis contents]) ++ rest) =
              nests.length + 1 ∧
          Declarator.readNests scope (nests.length + 1)
              (items rolesOf (TokenTree.enclose nests [.group .parenthesis contents]) ++ rest) =
            .ok (recorded ++ [last], innermost) := by
  induction nests with
  | nil => exact ⟨[], .nil, fun contents last innermost h => h⟩
  | cons nest nests ih =>
    rw [List.forall_mem_cons] at hnests
    obtain ⟨recorded, hrecorded, hread⟩ := ih hnests.2
    obtain ⟨list, hlist⟩ := (Declarator.exists_read_all scope).2.1 (items rolesOf nest.after)
    refine ⟨_ :: recorded, .cons ⟨list, hlist, rfl⟩ hrecorded, ?_⟩
    intro contents last innermost h rest
    obtain ⟨contents', hgroup⟩ := exists_group nests contents
    obtain ⟨hdepth, hinner⟩ := hread contents last innermost h (items rolesOf nest.after)
    rw [← TokenTree.items_append] at hdepth hinner
    have hnoQualifier : NoQualifier
        (items rolesOf (TokenTree.enclose nests [.group .parenthesis contents] ++ nest.after)) := by
      rw [hgroup]
      rintro item ⟨⟩
      rfl
    obtain ⟨hcount, hstep⟩ := Declarator.nest_step hroles hnests.1 hnoQualifier rest
    -- What stands after the nest inside this one is what follows its group.
    have houtside : items rolesOf nest.after =
        (items rolesOf (TokenTree.enclose nests [.group .parenthesis contents] ++
            nest.after)).next := by
      rw [hgroup]
      rfl
    refine ⟨hcount.trans (by rw [hdepth, List.length_cons]), ?_⟩
    have houter := hstep (nests.length + 1) (items rolesOf nest.after) houtside
    rw [hlist, hinner] at houter
    exact houter

/-! ### The innermost nest -/

theorem items_nameAndList (hroles : Respects scope rolesOf) :
    items rolesOf function.nameAndList =
      .token function.name { isIdentifier := true, isUnresolved := true } ::
        items rolesOf (function.arguments.map (.group .parenthesis)).toList := by
  rw [nameAndList, TokenTree.items_append, TokenTree.items_name hroles function.name_isName]
  rfl

/-- The innermost nest is read as its qualifiers. -/
theorem readNests_nest (hroles : Respects scope rolesOf) (rest : Level) :
    Declarator.nestsAt (items rolesOf function.nest ++ rest) = 1 ∧
      Declarator.readNests scope 1 (items rolesOf function.nest ++ rest) =
        .ok ([{ right := ⟨function.innermost⟩ }], items rolesOf function.nameAndList) := by
  have hitems := items_nameAndList function hroles
  have hnoQualifier : NoQualifier (items rolesOf function.nameAndList) := by
    rw [hitems]
    rintro item ⟨⟩
    rfl
  have hnone : Declarator.nestsAt (items rolesOf function.nameAndList) = 0 := by
    rw [hitems]
    exact Declarator.nestsAt_of_none rfl
  obtain ⟨hcount, hstep⟩ :=
    Declarator.nest_step hroles function.innermost_isQualifier hnoQualifier rest
  rw [hnone] at hcount
  refine ⟨hcount, ?_⟩
  have hread := hstep 0 [] rfl
  rw [Declarator.readArgumentList_of_none rfl, Declarator.readNests_zero] at hread
  exact hread

/-- The name is read without what stands after it. -/
theorem readName_nameAndList (hroles : Respects scope rolesOf) (declarator : Declarator)
    (hdimensions : declarator.dimensions = []) :
    Declarator.readName declarator (items rolesOf function.nameAndList) =
      { declarator with name := some function.name, dimensions := [] } := by
  rw [items_nameAndList function hroles, Declarator.readName, hdimensions]
  cases function.arguments with
  | none => rfl
  | some arguments => rfl

/-! ### The declarator -/

theorem items_trees (hroles : Respects scope rolesOf) (following : Level) :
    items rolesOf function.trees ++ following =
      Level.ofMarks function.left ++
        (items rolesOf (TokenTree.tagTrees scope known function.base) ++
          (Level.ofMarks function.right ++
            (items rolesOf (TokenTree.enclose function.nests function.nest) ++
              TokenTree.item rolesOf (.group .parenthesis function.outer) :: following))) := by
  have hleft : items rolesOf (TokenTree.marks function.left) = Level.ofMarks function.left :=
    TokenTree.items_qualifiers hroles fun text htext => (function.left_isQualifier text htext).1
  have hright : items rolesOf (TokenTree.marks function.right) = Level.ofMarks function.right :=
    TokenTree.items_qualifiers hroles function.right_isQualifier
  rw [trees, TokenTree.items_append, TokenTree.items_append, TokenTree.items_append,
    TokenTree.items_append, hleft, hright]
  simp only [List.append_assoc, Declarator.items_singleton_append]

/-- From the nests on, the declarator is read the same whatever the function's own arguments are. -/
theorem exists_read_nests (hroles : Respects scope rolesOf) (following : Level) :
    ∃ recorded list, List.Forall₂ (RecordsNest scope (items rolesOf)) function.nests recorded ∧
      Declarator.readArguments scope (items rolesOf function.outer) = .ok list ∧
      ∀ arguments, Declarator.read scope (some {}) {}
          (items rolesOf (TokenTree.enclose function.nests { function with arguments }.nest) ++
            TokenTree.item rolesOf (.group .parenthesis function.outer) :: following) =
        .ok ({ kind := .functionPointer, name := some function.name, arguments := list,
               nests := recorded ++ [{ right := ⟨function.innermost⟩ }] }, following) := by
  obtain ⟨recorded, hrecorded, hread⟩ :=
    exists_readNests_enclose hroles function.nests_isQualifier
  obtain ⟨list, hlist⟩ := (Declarator.exists_read_all scope).2.2.1 (items rolesOf function.outer)
  refine ⟨recorded, list, hrecorded, hlist, fun arguments => ?_⟩
  -- The innermost level is read without a look at the arguments behind the name.
  have hnest := readNests_nest { function with arguments } hroles
  obtain ⟨contents, hgroup⟩ := exists_group function.nests
    (TokenTree.marks ("*" :: function.innermost) ++ nameAndList { function with arguments })
  obtain ⟨hdepth, hnests⟩ := hread _ _ _ hnest
    (TokenTree.item rolesOf (.group .parenthesis function.outer) :: following)
  rw [hgroup, Declarator.items_singleton_append] at hdepth hnests
  rw [nest, hgroup, Declarator.items_singleton_append]
  have hlength : function.nests.length + 1 ≠ 0 := Nat.succ_ne_zero _
  have hnoQualifier : NoQualifier (TokenTree.item rolesOf (.group .parenthesis contents) ::
      TokenTree.item rolesOf (.group .parenthesis function.outer) :: following) := by
    rintro item ⟨⟩
    rfl
  -- The list behind the nests makes it a pointer to a function.
  have hkind : Declarator.kindAt (function.nests.length + 1)
      (TokenTree.item rolesOf (.group .parenthesis contents) ::
        TokenTree.item rolesOf (.group .parenthesis function.outer) :: following) =
            .functionPointer := by
    rw [Declarator.kindAt_cons hlength]
    rfl
  have hafter : Declarator.afterNests (function.nests.length + 1) .functionPointer
      (TokenTree.item rolesOf (.group .parenthesis contents) ::
        TokenTree.item rolesOf (.group .parenthesis function.outer) :: following) =
      TokenTree.item rolesOf (.group .parenthesis function.outer) :: following :=
    Declarator.afterNests_cons hlength _ _ _
  have hargumentList := Declarator.readArgumentList_group hlist following
  rw [← hafter] at hargumentList
  have hcore := Declarator.read_of_isFunction hnoQualifier hdepth hnests hkind rfl hargumentList
  rw [hafter, readName_nameAndList _ hroles _ rfl] at hcore
  exact hcore

/-- The base type is found, and what stands after it is left. -/
theorem typeAt?_base (hroles : Respects scope rolesOf) (contents : List TokenTree) (after : Level)
    {rest level : Level}
    (hrest : rest = TokenTree.item rolesOf (.group .parenthesis contents) :: after)
    (hlevel : level = items rolesOf (TokenTree.tagTrees scope known function.base) ++
      (Level.ofMarks function.right ++ rest)) :
    (∀ item ∈ level.head?, Level.isLeftQualifier item = false) ∧
      Declarator.typeAt? scope level = function.base >>= scope.lookup ∧
      (if (function.base >>= scope.lookup).isSome then level.next else level) =
        Level.ofMarks function.right ++ rest := by
  subst hlevel hrest
  cases hbase : function.base with
  | none =>
    -- Without a type there is nothing right of it either.
    rw [function.right_of_noBase hbase]
    refine ⟨?_, rfl, rfl⟩
    rintro item ⟨⟩
    rfl
  | some base =>
    have hword := function.base_isType base hbase
    obtain ⟨roles, hnotQualifier, -, hitem⟩ : ∃ roles : Roles, roles.isQualifier = false ∧
        (roles.isIdentifier || roles.isTypeKeyword) = true ∧
          TokenTree.item rolesOf (TokenTree.word scope known base) = .token base roles :=
      TokenTree.item_word hroles hword.toIsFreeWord
    have hitems : items rolesOf (TokenTree.tagTrees scope known (some base)) =
        [.token base roles] := by
      show [TokenTree.item rolesOf (TokenTree.word scope known base)] = _
      rw [hitem]
    rw [hitems]
    refine ⟨?_, rfl, ?_⟩
    · rintro item ⟨⟩
      rw [Level.isLeftQualifier, Item.roles, hnotQualifier]
      rfl
    · exact if_pos hword.knows

/-! ### What becomes of the argument lists -/

/-- A function inside nests is read as such, with the argument list after its outermost nest and
with all that stands after a nest inside another one, but without its own argument list: the
declarator is the same whatever arguments stand there, and whether any do. -/
theorem read_without_arguments (following : List TokenTree) :
    ∀ itemsOf ∈ [fun trees => (Node.ofTrees trees).items,
        fun trees => (Chain.ofTrees trees).items (scope.keywords .c)],
      ∃ declarator, function.RecordedAs itemsOf declarator ∧
        ∀ arguments, Declarator.read scope none {}
            (itemsOf (trees { function with arguments } ++ following)) =
          .ok (declarator, itemsOf following) := by
  -- The reader of the trees does not depend on the roles, as long as these respect the scope.
  have hread : ∀ rolesOf, Respects scope rolesOf →
      ∃ declarator, function.RecordedAs (items rolesOf) declarator ∧
        ∀ arguments, Declarator.read scope none {}
            (items rolesOf (trees { function with arguments } ++ following)) =
          .ok (declarator, items rolesOf following) := by
    intro rolesOf hroles
    obtain ⟨recorded, list, hrecorded, hlist, hread⟩ :=
      exists_read_nests function hroles (items rolesOf following)
    refine ⟨function.declarator list recorded, ⟨list, recorded, hlist, hrecorded, rfl⟩,
      fun arguments => ?_⟩
    obtain ⟨contents, hgroup⟩ := exists_group function.nests
      (TokenTree.marks ("*" :: function.innermost) ++ nameAndList { function with arguments })
    have hcore := hread arguments
    rw [TokenTree.items_append, items_trees { function with arguments } hroles]
    rw [nest, hgroup, Declarator.items_singleton_append] at hcore ⊢
    obtain ⟨hnoLeft, htype, hafter⟩ := typeAt?_base function hroles contents _ rfl rfl
    have hnoQualifier : NoQualifier (TokenTree.item rolesOf (.group .parenthesis contents) ::
        TokenTree.item rolesOf (.group .parenthesis function.outer) ::
            items rolesOf following) := by
      rintro item ⟨⟩
      rfl
    have hleft : ∀ item ∈ Level.ofMarks function.left, Level.isLeftQualifier item = true := by
      intro item hitem
      obtain ⟨text, htext, rfl⟩ := List.mem_map.mp hitem
      rw [Level.isLeftQualifier, Item.roles, Item.value, (function.left_isQualifier text htext).2]
      rfl
    exact Declarator.read_ofMarks function.right hleft hnoLeft htype hafter hnoQualifier hcore
  rw [List.forall_mem_cons, List.forall_mem_singleton]
  simp only [Node.items_ofTrees, Chain.items_ofTrees]
  exact ⟨hread _ (respects_tree scope), hread _ (respects_list scope)⟩

/-- The function `signal`, which takes a number. -/
def signal : EnclosedFunction (Scope.ofSettings {}) (Scope.ofSettings {}).knows where
  left := []
  base := some "void"
  right := []
  nests := []
  innermost := []
  name := "signal"
  arguments := some [TokenTree.word (Scope.ofSettings {}) (Scope.ofSettings {}).knows "int",
    .leaf ⟨"sig", .unresolved⟩]
  outer := [TokenTree.word (Scope.ofSettings {}) (Scope.ofSettings {}).knows "int"]
  left_isQualifier := by simp
  base_isType := by
    rintro text ⟨⟩
    exact ⟨⟨by decide, by decide⟩, by decide⟩
  right_of_noBase := by simp
  right_isQualifier := by simp
  nests_isQualifier := by simp
  innermost_isQualifier := by simp
  name_isName := ⟨⟨by decide, by decide⟩, by decide⟩

/-- Without its list, `signal` is read as the same declarator. -/
theorem read_without_arguments_signal :
    (fun trees => (Node.ofTrees trees).items) ∈
        [fun trees => (Node.ofTrees trees).items,
          fun trees => (Chain.ofTrees trees).items ((Scope.ofSettings {}).keywords .c)] ∧
      TokenTree.ofSource .c (Scope.ofSettings {}) "void (*signal(int sig))(int)" =
        .ok signal.trees ∧
      TokenTree.ofSource .c (Scope.ofSettings {}) "void (*signal)(int)" =
        .ok (trees { signal with arguments := none }) ∧
      ∃ declarator, signal.RecordedAs (fun trees => (Node.ofTrees trees).items) declarator ∧
        ∀ arguments, Declarator.read (Scope.ofSettings {}) none {}
            (Node.ofTrees (trees { signal with arguments } ++ [])).items =
          .ok (declarator, (Node.ofTrees []).items) :=
  ⟨List.mem_cons_self, by decide +kernel, by decide +kernel,
    read_without_arguments signal [] _ List.mem_cons_self⟩

/-- The declarator is what a text is read as. -/
def IsReadAs (source : String) (declarator : Declarator) : Prop :=
  ∃ trees, TokenTree.ofSource .c (Scope.ofSettings {}) source = .ok trees ∧
    Declarator.read (Scope.ofSettings {}) none {} (Node.ofTrees trees).items = .ok (declarator, [])

/-- Two functions whose own argument lists differ are read as one declarator, and its text has no
such list. -/
theorem signal_loses_arguments :
    ∃ declarator, IsReadAs "void (*signal(int sig))(int)" declarator ∧
      IsReadAs "void (*signal(char c))(int)" declarator ∧
      declarator.render true = "void (*signal)(int)" := by
  refine ⟨signal.declarator [{ base := some ⟨4, "int", false⟩ }] [], ⟨signal.trees, ?_, ?_⟩,
    ⟨trees { signal with
      arguments := some [TokenTree.word (Scope.ofSettings {}) (Scope.ofSettings {}).knows "char",
        .leaf ⟨"c", .unresolved⟩] }, ?_, ?_⟩, ?_⟩
  · decide +kernel
  · cbv
  · decide +kernel
  · cbv
  · decide +kernel

end EnclosedFunction

end CommonDecl
