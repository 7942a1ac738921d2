import CommonDecl.Proofs.LikeDeclarators
import CommonDecl.Proofs.TypeHeads

/-!
# Declarators that are written and read again

A declarator of a name, with dimensions or with the names of its arguments, is written as tokens
from which it is read as it was (`Declarator.Keeps`, `Declarator.IsSimple.exists_keeps`).  Where its
type is written in qualifiers of C, as `short` and `long long` are, these are read as such, and the
declarator is written in the same way again (`Declarator.IsSimple.exists_first`).
-/

namespace CommonDecl

open TokenTree (items)

variable {scope : Scope} {rolesOf : Token → Roles}

namespace Declarator

/-! ### The part after the type -/

variable (scope rolesOf) in
/-- The part of a declarator after its type is written as the trees, from which it is read as it
was. -/
structure Keeps (declarator : Declarator) (trees : List TokenTree) : Prop
    extends ReadsCore scope scope.knows rolesOf declarator.name
      declarator.kind.isFunction trees where
  not_knows : ∀ text ∈ declarator.name, scope.knows text = false
  noBraces : ∀ item ∈ items rolesOf trees, item.isGroup .brace = false
  endsDeclarator : ∀ stop, TypeDecl.endsDeclarator stop = true → stop.isUnresolved = false →
    Level.isUnresolved (items rolesOf trees ++ stop) = true →
      TypeDecl.endsDeclarator (Level.next (items rolesOf trees ++ stop)) = true
  read_eq : ∀ stop, Stops stop → read scope (some {}) {} (items rolesOf trees ++ stop) =
    .ok ({ declarator with left := {}, right := {}, base := none }, stop)

/-- The text of the part after the type is that of the trees. -/
theorem Keeps.writes {declarator : Declarator} {trees : List TokenTree}
    (h : Keeps scope rolesOf declarator trees) (spaced : Bool) :
    Writes (scope.keywords .c) scope.knows (coreText spaced declarator) trees := by
  have hstop : Stops [] := by simp [Stops]
  obtain ⟨found, hread, -, -, htext⟩ := h.exists_read [] hstop
  rw [h.read_eq [] hstop] at hread
  cases hread
  exact htext spaced

/-- Dimensions and argument lists are no bodies. -/
theorem noBraces_append {first second : Level}
    (hfirst : ∀ item ∈ first, item.isGroup .brace = false)
    (hsecond : ∀ item ∈ second, item.isGroup .brace = false) :
    ∀ item ∈ first ++ second, item.isGroup .brace = false :=
  List.forall_mem_append.mpr ⟨hfirst, hsecond⟩

/-- A name is no body. -/
theorem noBraces_name (hroles : Respects scope rolesOf) {name : Option String}
    (hname : ∀ text ∈ name, IsNameWord scope scope.knows text) :
    ∀ item ∈ items rolesOf (TokenTree.nameTrees name), item.isGroup .brace = false := by
  cases name with
  | none => exact List.forall_mem_nil _
  | some text =>
    rw [TokenTree.items_name hroles (hname text rfl)]
    exact List.forall_mem_singleton.mpr rfl

/-- A declarator can end after a name that dimensions or an argument list follow. -/
theorem endsDeclarator_name (hroles : Respects scope rolesOf) {name : Option String}
    (hname : ∀ text ∈ name, IsNameWord scope scope.knows text) {after : Level}
    (hends : TypeDecl.endsDeclarator after = true) (hafter : after.isUnresolved = false)
    (h : Level.isUnresolved (items rolesOf (TokenTree.nameTrees name) ++ after) = true) :
    TypeDecl.endsDeclarator (Level.next (items rolesOf (TokenTree.nameTrees name) ++ after)) =
      true := by
  cases name with
  | none =>
    have hunresolved : after.isUnresolved = true := h
    rw [hafter] at hunresolved
    cases hunresolved
  | some text =>
    rw [TokenTree.items_name hroles (hname text rfl)]
    exact hends

theorem endsDeclarator_group (rolesOf : Token → Roles) (bracket : Bracket)
    (hbracket : bracket ≠ .brace) (contents : List TokenTree) (rest : Level) :
    TypeDecl.endsDeclarator (TokenTree.item rolesOf (.group bracket contents) :: rest) = true ∧
      Level.isUnresolved (TokenTree.item rolesOf (.group bracket contents) :: rest) = false := by
  cases bracket with
  | brace => exact absurd rfl hbracket
  | _ => exact ⟨rfl, rfl⟩

/-- The part after the type of a variable. -/
theorem keeps_variable (hroles : Respects scope rolesOf) (left right : Qualifiers)
    (base : Option TypeRef) {name : Option String}
    (hname : ∀ text ∈ name, IsNameWord scope scope.knows text) {dimensions : List TokenTree}
    (hdimensions : TokenTree.AreDimensions scope scope.knows dimensions) :
    Keeps scope rolesOf { left, right, base, name, dimensions := dimensionTexts dimensions }
      (TokenTree.nameTrees name ++ dimensions) where
  toReadsCore := readsCore_variable hroles hname hdimensions
  not_knows text htext := (hname text htext).not_known
  noBraces := by
    rw [TokenTree.items_append, TokenTree.items_eq_map rolesOf dimensions]
    refine noBraces_append (noBraces_name hroles hname)
      (List.forall_mem_map.mpr fun tree htree => ?_)
    obtain ⟨contents, rfl, -⟩ := hdimensions tree htree
    rfl
  endsDeclarator stop hends hstop := by
    rw [TokenTree.items_append, List.append_assoc]
    -- A name that is followed by a dimension ends the declarator by that.
    cases dimensions with
    | nil => exact endsDeclarator_name hroles hname hends hstop
    | cons tree others =>
      obtain ⟨contents, rfl, -⟩ := hdimensions tree List.mem_cons_self
      obtain ⟨hgroup, hresolved⟩ := endsDeclarator_group rolesOf .square (by decide) contents
        (items rolesOf others ++ stop)
      exact endsDeclarator_name hroles hname hgroup hresolved
  read_eq stop hstop := read_variable hroles hname hdimensions hstop

/-- The part after the type of a function. -/
theorem keeps_function (hroles : Respects scope rolesOf) (left right : Qualifiers)
    (base : Option TypeRef) {name : Option String}
    (hname : ∀ text ∈ name, IsNameWord scope scope.knows text) {trees : List TokenTree}
    {arguments : List Declarator} (harguments : ReadsArguments scope scope.knows rolesOf trees)
    (hread : readArguments scope (items rolesOf trees) = .ok arguments) :
    Keeps scope rolesOf { kind := .functionDeclaration, left, right, base, name, arguments }
      (TokenTree.nameTrees name ++ [.group .parenthesis trees]) where
  toReadsCore := readsCore_function hroles hname harguments
  not_knows text htext := (hname text htext).not_known
  noBraces := by
    rw [TokenTree.items_append]
    exact noBraces_append (noBraces_name hroles hname) (List.forall_mem_singleton.mpr rfl)
  endsDeclarator stop _ _ := by
    rw [TokenTree.items_append, List.append_assoc]
    obtain ⟨hgroup, hresolved⟩ := endsDeclarator_group rolesOf .parenthesis (by decide) trees stop
    exact endsDeclarator_name hroles hname hgroup hresolved
  read_eq stop hstop := read_function hroles hname harguments.not_star hread hstop

/-! ### Arguments -/

/-- A bare name is read as an argument without a type. -/
theorem read_argument (hroles : Respects scope rolesOf) {name : String}
    (hname : IsNameWord scope scope.knows name) {stop : Level} (hstop : Stops stop) :
    read scope none {} (items rolesOf (TokenTree.nameTrees (some name)) ++ stop) =
      .ok ({ name := some name }, stop) := by
  have hsome : ∀ text ∈ some name, IsNameWord scope scope.knows text := by
    rintro text ⟨⟩
    exact hname
  have hnoQualifier : NoQualifier (items rolesOf (TokenTree.nameTrees (some name)) ++ stop) :=
    forall_head_append (noQualifier_name hroles hsome) hstop.noQualifier
  have htype : typeAt? scope (items rolesOf (TokenTree.nameTrees (some name)) ++ stop) = none := by
    rw [TokenTree.items_name hroles hname]
    exact Scope.lookup_of_not_knows hname.not_known
  have hread := read_variable hroles hsome areDimensions_nil hstop
  rw [List.append_nil] at hread
  have hnone : ∀ item ∈ Level.ofMarks [], Level.isLeftQualifier item = true := List.forall_mem_nil _
  exact read_ofMarks [] hnone hnoQualifier.isLeftQualifier htype rfl hnoQualifier hread

/-- A bare name can stand in an argument list. -/
theorem readsEntry_name (hroles : Respects scope rolesOf) {name : String}
    (hname : IsNameWord scope scope.knows name) :
    ReadsEntry scope scope.knows rolesOf false (TokenTree.nameTrees (some name)) where
  ne_nil := List.cons_ne_nil _ _
  not_star := by
    rw [TokenTree.items_name hroles hname]
    have hstar : Item.isToken "*" (.token name { isIdentifier := true, isUnresolved := true }) =
        false :=
      isToken_of_value_ne hname.isWord.ne_star
    exact hstar
  exists_read := by
    intro stop hstop _
    have hsome : ∀ text ∈ some name, IsNameWord scope scope.knows text := by
      rintro text ⟨⟩
      exact hname
    -- A bare name is a variable without a type and without dimensions.
    have hkeeps :
        Keeps scope rolesOf { name := some name } (TokenTree.nameTrees (some name) ++ []) :=
      keeps_variable hroles {} {} none hsome areDimensions_nil
    have htext :=
      writes_render_of_none (List.forall_mem_nil _) areMarks_nil hkeeps.isWord hkeeps.writes
    exact ⟨_, read_argument hroles hname hstop, htext⟩

/-- The declarators of bare names. -/
def ofNames (names : List String) : List Declarator :=
  names.map fun name => { name := some name }

/-- The tokens of bare names with commas between them. -/
def nameList (scope : Scope) (names : List String) : List TokenTree :=
  [TokenTree.symbol scope scope.knows ","].intercalate (names.map fun name =>
    TokenTree.nameTrees (some name))

theorem readsArguments_nameList (hroles : Respects scope rolesOf) (hcomma : scope.Plain ",")
    {names : List String} (h : ∀ name ∈ names, IsNameWord scope scope.knows name) :
    ReadsArguments scope scope.knows rolesOf (nameList scope names) :=
  readsArguments_intercalate hroles hcomma
    (List.forall_mem_map.mpr fun name hname => readsEntry_name hroles (h name hname))

/-- Bare names are read as such. -/
theorem readArguments_nameList (hroles : Respects scope rolesOf) (hcomma : scope.Plain ",")
    {names : List String} (h : ∀ name ∈ names, IsNameWord scope scope.knows name) :
    readArguments scope (items rolesOf (nameList scope names)) = .ok (ofNames names) := by
  -- Each entry has the declarator of its name, and different names are different entries.
  obtain ⟨arguments, hread, hall⟩ : ∃ arguments,
      readArguments scope (items rolesOf (nameList scope names)) = .ok arguments ∧
        List.Forall₂ (fun entry argument => ∀ name : String,
          entry = TokenTree.nameTrees (some name) → argument = { name := some name })
            (names.map fun name => TokenTree.nameTrees (some name)) arguments := by
    refine exists_arguments hroles hcomma (List.forall_mem_map.mpr fun name hname => ?_)
    refine ⟨List.cons_ne_nil _ _, fun stop hstop _ =>
      ⟨_, read_argument hroles (h name hname) hstop, ?_⟩⟩
    intro other hother
    simp only [TokenTree.nameTrees, Option.toList_some, List.map_cons, List.map_nil,
      List.cons.injEq, TokenTree.leaf.injEq, Token.mk.injEq, and_true] at hother
    rw [hother]
  rw [hread]
  have heq : List.Forall₂ (fun name argument => argument = { name := some name }) names arguments :=
    (List.forall₂_map_left_iff.mp hall).imp fun name argument h => h name rfl
  rw [ofNames]
  clear hread hall h
  induction heq with
  | nil => rfl
  | cons hfirst _ ih =>
    rw [List.map_cons, hfirst, Except.ok.inj ih]

/-! ### Simple declarators -/

/-- What follows the type of a declarator is a name with dimensions, or with the names of arguments.
-/
inductive IsBareCore (scope : Scope) (declarator : Declarator) : Prop where
  | variable (hkind : declarator.kind = .variable) (harguments : declarator.arguments = [])
    {trees : List TokenTree} (htrees : TokenTree.AreDimensions scope scope.knows trees)
    (hdimensions : declarator.dimensions = dimensionTexts trees)
  | function (hkind : declarator.kind = .functionDeclaration)
    (hdimensions : declarator.dimensions = [])
    {names : List String} (hnames : ∀ name ∈ names, IsNameWord scope scope.knows name)
    (harguments : declarator.arguments = ofNames names)

/-- A declarator without nests, with only pointers and references right of its type. -/
structure IsSimple (scope : Scope) (declarator : Declarator) : Prop where
  left : ∀ text ∈ declarator.left.toList, IsQualifierWord scope text
  right : ∀ text ∈ declarator.right.toList, text = "*" ∨ text = "&"
  apart : declarator.right.toList.IsChain fun before after => ¬(before = "&" ∧ after = "&")
  name : ∀ text ∈ declarator.name, IsNameWord scope scope.knows text
  core : IsBareCore scope declarator
  nests : declarator.nests = []
  outerDimensions : declarator.outerDimensions = []

variable {declarator : Declarator}

theorem IsSimple.areMarks (h : IsSimple scope declarator) :
    AreMarks scope declarator.right.toList :=
  ⟨fun text htext => (h.right text htext).imp_right Or.inl, h.apart⟩

/-- The part of a simple declarator after its type is written as tokens from which it is read as it
was. -/
theorem IsSimple.exists_keeps (hroles : Respects scope rolesOf) (hcomma : scope.Plain ",")
    (h : IsSimple scope declarator) : ∃ core, Keeps scope rolesOf declarator core := by
  obtain ⟨-, -, -, hname, hcore, hnests, houter⟩ := h
  -- The parts that a simple declarator does not have are empty.
  obtain ⟨kind, left, right, base, name, dimensions, outerDimensions, arguments, nests⟩ :=
    declarator
  obtain rfl : nests = [] := hnests
  obtain rfl : outerDimensions = [] := houter
  cases hcore with
  | «variable» hkind harguments htrees hdimensions =>
    obtain rfl : kind = .variable := hkind
    obtain rfl : arguments = [] := harguments
    obtain rfl : dimensions = _ := hdimensions
    exact ⟨_, keeps_variable hroles left right base hname htrees⟩
  | function hkind hdimensions hnames harguments =>
    obtain rfl : kind = .functionDeclaration := hkind
    obtain rfl : dimensions = [] := hdimensions
    obtain rfl : arguments = _ := harguments
    exact ⟨_,
      keeps_function hroles left right base hname (readsArguments_nameList hroles hcomma hnames)
      (readArguments_nameList hroles hcomma hnames)⟩

/-- Where nothing is written after the type, nothing but the type is declared. -/
theorem Keeps.eq_of_nil (h : Keeps scope rolesOf declarator []) :
    declarator =
      { left := declarator.left, right := declarator.right, base := declarator.base } := by
  have hstop : Stops [] := by simp [Stops]
  have hnone : ∀ text ∈ (none : Option String), IsNameWord scope scope.knows text := by simp
  have hread := h.read_eq [] hstop
  have hempty := read_variable (respects_tree scope) hnone areDimensions_nil hstop
  have hitems : items rolesOf [] ++ [] =
    items Node.rolesOf (TokenTree.nameTrees none ++ []) ++ [] := rfl
  rw [hitems, hempty] at hread
  obtain ⟨kind, left, right, base, name, dimensions, outerDimensions, arguments, nests⟩ :=
    declarator
  cases hread
  rfl

theorem Keeps.declaredNames_of_nil (h : Keeps scope rolesOf declarator []) :
    declarator.declaredNames = [] := by
  rw [h.eq_of_nil]
  rfl

/-! ### What follows a declarator in a statement -/

/-- A level goes on with a symbol that ends a declarator, and no body follows it. -/
structure Follows (level : Level) : Prop where
  stops : Stops level
  endsDeclarator : TypeDecl.endsDeclarator level = true
  not_isUnresolved : level.isUnresolved = false
  noBrace_next : level.next.NoGroup .brace

theorem noGroup_of_noBraces {level : Level}
    (h : ∀ item ∈ level, item.isGroup .brace = false) {rest : Level} (hrest : rest.NoGroup .brace) :
    Level.NoGroup .brace (level ++ rest) :=
  forall_head_append (fun item hitem => h item (List.mem_of_mem_head? hitem)) hrest

/-- No body stands after the first item, where none stands on the level and none follows it. -/
theorem Follows.noBrace_append {stop : Level} (h : Follows stop) {level : Level}
    (hlevel : ∀ item ∈ level, item.isGroup .brace = false) :
    Level.NoGroup .brace (level ++ stop) ∧ Level.NoGroup .brace (Level.next (level ++ stop)) := by
  have hstop : stop.NoGroup .brace := Level.noGroup_of_stops h.stops .brace
  refine ⟨noGroup_of_noBraces hlevel hstop, ?_⟩
  cases level with
  | nil => exact h.noBrace_next
  | cons item rest => exact noGroup_of_noBraces (List.forall_mem_cons.mp hlevel).2 hstop

theorem noBraces_ofMarks (texts : List String) :
    ∀ item ∈ Level.ofMarks texts, item.isGroup .brace = false :=
  List.forall_mem_map.mpr fun _ _ => rfl

/-! ### The first declarator of a statement -/

variable (scope rolesOf) in
/-- The first declarator of a statement is written as the trees, from which one is read that is
written in the same way. -/
structure ReadsFirst (declarator : Declarator) (trees : List TokenTree) : Prop where
  exists_core : ∃ core, core <:+ trees ∧ Keeps scope rolesOf declarator core
  noBraces : ∀ item ∈ items rolesOf trees, item.isGroup .brace = false
  not_semicolon : ∀ item ∈ (items rolesOf trees).head?, item.isToken ";" = false
  writes : Writes (scope.keywords .c) scope.knows (declarator.render true) trees
  not_isDeclaredAt : ∀ stop, Follows stop →
    TypeDecl.isDeclaredAt scope (items rolesOf trees ++ stop) = false
  exists_read : ∀ stop, Follows stop →
    (declarator.declaredNames = [] → ∀ item ∈ stop.head?, scope.lookup item.value = none) → ∃ first,
      read scope none {} (items rolesOf trees ++ stop) = .ok (first, stop) ∧
        first.render true = declarator.render true

theorem head_ofMarks {texts : List String} (h : ∀ text ∈ texts, IsMark scope text) :
    ∀ item ∈ (Level.ofMarks texts).head?, item.isToken ";" = false := by
  intro item hitem
  obtain ⟨text, htext, rfl⟩ := List.mem_map.mp (List.mem_of_mem_head? hitem)
  refine isToken_of_value_ne fun heq => ?_
  obtain rfl : text = ";" := heq
  rcases h _ htext with hstar | hampersand | hword
  · exact absurd hstar (by decide)
  · exact absurd hampersand (by decide)
  · exact absurd hword.isWord (by decide)

/-- The part after the type does not start with a `;`. -/
theorem Keeps.not_semicolon {core : List TokenTree} (h : Keeps scope rolesOf declarator core) :
    ∀ item ∈ (items rolesOf core).head?, item.isToken ";" = false := by
  intro item hitem
  cases hbracket : item.bracket? with
  | none =>
    refine isToken_of_value_ne fun heq => ?_
    have hword := h.isWord _ (h.eq_name_of_head item hitem hbracket)
    rw [heq] at hword
    exact absurd hword (by decide)
  | some bracket => rw [Item.isToken, hbracket, Option.isNone_some, Bool.false_and]

/-- Right of the type of a simple declarator stands nothing or a pointer first. -/
theorem IsSimple.pointer_head (h : IsSimple scope declarator) :
    declarator.right.toList = [] ∨ declarator.right.toList.head?.any isPointerMarker = true := by
  cases hright : declarator.right.toList with
  | nil => exact Or.inl rfl
  | cons first rest =>
    rcases h.right first (by rw [hright]; exact List.mem_cons_self) with rfl | rfl
    · exact Or.inr rfl
    · exact Or.inr rfl

/-- A declarator is the one that has its own type and qualifiers. -/
theorem retyped_eq {base : Option TypeRef} (hbase : declarator.base = base) :
    { declarator with
      left := ⟨declarator.left.toList⟩, right := ⟨declarator.right.toList⟩, base } =
        declarator := by
  subst hbase
  cases declarator
  rfl

/-- A first declarator whose type is one word is read as it was. -/
theorem IsSimple.readsFirst_word (hroles : Respects scope rolesOf) (h : IsSimple scope declarator)
    (hvariables : "typedef" ∉ declarator.left.toList) {core : List TokenTree}
    (hcore : Keeps scope rolesOf declarator core) {ref : TypeRef}
    (hbase : declarator.base = some ref) (hlookup : scope.lookup ref.name = some ref)
    (hword : IsTypeWord scope ref.name) :
    ReadsFirst scope rolesOf declarator
      (TokenTree.marks declarator.left.toList ++ ([TokenTree.word scope scope.knows ref.name] ++
        (TokenTree.marks declarator.right.toList ++ core))) := by
  obtain ⟨roles, hnotQualifier, -, hitem⟩ : ∃ roles : Roles, roles.isQualifier = false ∧
      (roles.isIdentifier || roles.isTypeKeyword) = true ∧
        TokenTree.item rolesOf (TokenTree.word scope scope.knows ref.name) =
            .token ref.name roles :=
    TokenTree.item_word hroles hword.toIsFreeWord
  have hitems : items rolesOf (TokenTree.marks declarator.left.toList ++
      ([TokenTree.word scope scope.knows ref.name] ++
        (TokenTree.marks declarator.right.toList ++ core))) =
      Level.ofMarks declarator.left.toList ++
        (.token ref.name roles ::
            (Level.ofMarks declarator.right.toList ++ items rolesOf core)) := by
    rw [TokenTree.items_append, TokenTree.items_append, TokenTree.items_append,
      items_leftMarks hroles h.left, TokenTree.items_marks hroles h.areMarks.each,
      items_singleton_append, hitem]
  -- The left qualifiers end at the word that names the type.
  have hnoLeft : ∀ rest : Level, ∀ item ∈ (.token ref.name roles :: rest : Level).head?,
      Level.isLeftQualifier item = false := by
    rintro rest item ⟨⟩
    rw [Level.isLeftQualifier, Item.roles, hnotQualifier]
    rfl
  have hrest := noBraces_append (noBraces_ofMarks declarator.right.toList) hcore.noBraces
  constructor
  case exists_core =>
    refine ⟨core, ?_, hcore⟩
    rw [← List.append_assoc, ← List.append_assoc]
    exact List.suffix_append _ core
  case noBraces =>
    rw [hitems]
    exact noBraces_append (noBraces_ofMarks declarator.left.toList)
      (List.forall_mem_cons.mpr ⟨rfl, hrest⟩)
  case not_semicolon =>
    rw [hitems]
    refine forall_head_append (head_leftMarks h.left (by decide)) ?_
    rintro item ⟨⟩
    refine isToken_of_value_ne fun heq => ?_
    have hisWord := hword.isWord
    rw [show ref.name = ";" from heq] at hisWord
    exact absurd hisWord (by decide)
  case writes =>
    have hrender :=
      writes_render_of_some h.left hword.isWord.writes h.areMarks hcore.isWord hcore.writes
      fun hne _ _ => hword.isWord.apart_leadingText h.areMarks (h.pointer_head.resolve_left hne)
    rwa [retyped_eq hbase] at hrender
  case not_isDeclaredAt =>
    intro stop hstop
    rw [hitems, List.append_assoc, List.cons_append]
    exact TypeDecl.isDeclaredAt_of_known
      (Level.leftQualifiers_ofMarks h.left (hnoLeft _)) hvariables
      (Level.afterLeftQualifiers_ofMarks h.left (hnoLeft _)) hword.knows
        (hstop.noBrace_append hrest).1
  case exists_read =>
    intro stop hstop _
    have hnoQualifier : NoQualifier (items rolesOf core ++ stop) :=
      forall_head_append hcore.noQualifier hstop.stops.noQualifier
    -- The word is looked up to the type that it names.
    have htype : typeAt? scope (.token ref.name roles ::
        (Level.ofMarks declarator.right.toList ++ (items rolesOf core ++ stop))) =
          some ref := hlookup
    have hread :=
      read_ofMarks declarator.right.toList (Level.items_leftQualifier h.left) (hnoLeft _) htype rfl
      hnoQualifier (hcore.read_eq stop hstop.stops)
    refine ⟨declarator, ?_, rfl⟩
    rw [hitems, List.append_assoc, List.cons_append, List.append_assoc, hread]
    exact congrArg (fun found => Except.ok (found, stop)) (retyped_eq hbase)

/-- A first declarator is read as one without a type, if it is written as one. -/
theorem IsSimple.readsFirst_untyped (hroles : Respects scope rolesOf)
    (h : IsSimple scope declarator) (hstar : scope.knows "*" = false)
    (hampersand : scope.knows "&" = false) {core : List TokenTree}
    (hcore : Keeps scope rolesOf declarator core) {left : List String}
    (hleft : ∀ text ∈ left, IsQualifierWord scope text) (hvariables : "typedef" ∉ left)
    (hintroducers : ∀ text ∈ TypeDecl.introducers, text ∉ left)
    (hrender : render true { declarator with left := ⟨left⟩, base := none } =
    render true declarator) :
    ReadsFirst scope rolesOf declarator
      (TokenTree.marks left ++ (TokenTree.marks declarator.right.toList ++ core)) := by
  have hitems :
      items rolesOf (TokenTree.marks left ++ (TokenTree.marks declarator.right.toList ++ core)) =
      Level.ofMarks left ++ (Level.ofMarks declarator.right.toList ++ items rolesOf core) := by
    rw [TokenTree.items_append, TokenTree.items_append, items_leftMarks hroles hleft,
      TokenTree.items_marks hroles h.areMarks.each]
  have hrest := noBraces_append (noBraces_ofMarks declarator.right.toList) hcore.noBraces
  have hnoQualifier {stop : Level} (hstop : Follows stop) :
      NoQualifier (items rolesOf core ++ stop) :=
    forall_head_append hcore.noQualifier hstop.stops.noQualifier
  -- The left qualifiers end at the pointers or, without any, at the core.
  have hnoLeft {stop : Level} (hstop : Follows stop) :
      ∀ item ∈ (Level.ofMarks declarator.right.toList ++ (items rolesOf core ++ stop)).head?,
        Level.isLeftQualifier item = false :=
    forall_head_append (head_pointer h.pointer_head) (hnoQualifier hstop).isLeftQualifier
  constructor
  case exists_core =>
    refine ⟨core, ?_, hcore⟩
    rw [← List.append_assoc]
    exact List.suffix_append _ core
  case noBraces =>
    rw [hitems]
    exact noBraces_append (noBraces_ofMarks left) hrest
  case not_semicolon =>
    rw [hitems]
    exact forall_head_append (head_leftMarks hleft (by decide))
      (forall_head_append (head_ofMarks h.areMarks.each) hcore.not_semicolon)
  case writes =>
    have htext := writes_render_of_none hleft h.areMarks hcore.isWord hcore.writes
    have hsame :
        { declarator with left := ⟨left⟩, right := ⟨declarator.right.toList⟩, base := none } =
          { declarator with left := ⟨left⟩, base := none } := rfl
    rwa [hsame, hrender] at htext
  case not_isDeclaredAt =>
    intro stop hstop
    have hafter := Level.afterLeftQualifiers_ofMarks hleft (hnoLeft hstop)
    obtain ⟨hbrace, hnext⟩ := hstop.noBrace_append hrest
    rw [List.append_assoc] at hbrace hnext
    rw [hitems, List.append_assoc, List.append_assoc]
    refine TypeDecl.isDeclaredAt_of_not_introduced
      (Level.leftQualifiers_ofMarks hleft (hnoLeft hstop)) hvariables
      (by rwa [hafter]) (by rwa [hafter]) ?_ scope
    rw [hafter]
    intro hunresolved
    refine ⟨hintroducers, ?_⟩
    -- A pointer has a meaning, so the level starts with the name.
    cases hright : declarator.right.toList with
    | nil =>
      rw [hright] at hunresolved
      exact hcore.endsDeclarator stop hstop.endsDeclarator hstop.not_isUnresolved hunresolved
    | cons first others =>
      rw [hright] at hunresolved
      cases hunresolved
  case exists_read =>
    intro stop hstop hlookup
    have htype :
        typeAt? scope (Level.ofMarks declarator.right.toList ++ (items rolesOf core ++ stop)) =
        none := by
      refine typeAt?_of_head (forall_head_append ?_ ?_)
      · intro item hitem _
        obtain ⟨text, htext, rfl⟩ := List.mem_map.mp (List.mem_of_mem_head? hitem)
        rcases h.right text htext with rfl | rfl
        · exact Scope.lookup_of_not_knows hstar
        · exact Scope.lookup_of_not_knows hampersand
      · -- What follows the declarator comes into view only where it declares nothing.
        cases core with
        | nil => exact fun item hitem _ => hlookup hcore.declaredNames_of_nil item hitem
        | cons tree trees =>
          exact fun item hitem hbracket =>
            Scope.lookup_of_not_knows
              (hcore.not_knows _ (hcore.eq_name_of_head item hitem hbracket))
    have hread :=
      read_ofMarks declarator.right.toList (Level.items_leftQualifier hleft)
      (hnoLeft hstop) htype rfl
      (hnoQualifier hstop) (hcore.read_eq stop hstop.stops)
    refine ⟨_, ?_, hrender⟩
    rw [hitems, List.append_assoc, List.append_assoc]
    exact hread

/-! ### Types that are written in qualifiers -/

theorem textAfter_words {first : String} {rest : List String}
    (h : ∀ text ∈ first :: rest, isPointerMarker text = false) :
    first ++ Qualifiers.textAfter first rest ++ " " =
      String.join ((first :: rest).map (· ++ " ")) := by
  induction rest generalizing first with
  | nil => simp [Qualifiers.textAfter]
  | cons next others ih =>
    obtain ⟨hfirst, hothers⟩ := List.forall_mem_cons.mp h
    have hothers := ih hothers
    rw [List.map_cons, String.join_cons, ← hothers, Qualifiers.textAfter, hfirst, Bool.false_and,
      if_neg Bool.false_ne_true]
    simp only [String.append_assoc]

/-- A space follows each of the words that stand in front of a type. -/
theorem leadingText_words {texts : List String} (h : ∀ text ∈ texts, isPointerMarker text = false) :
    (⟨texts⟩ : Qualifiers).leadingText = String.join (texts.map (· ++ " ")) := by
  cases texts with
  | nil => rfl
  | cons first rest =>
    rw [← textAfter_words h]
    obtain ⟨last, hlast⟩ : ∃ last, (first :: rest).getLast? = some last :=
      ⟨_, List.getLast?_eq_some_getLast (List.cons_ne_nil first rest)⟩
    have hmarker := h last (List.mem_of_getLast? hlast)
    unfold Qualifiers.leadingText Qualifiers.last?
    rw [hlast]
    dsimp only
    rw [hmarker, if_neg Bool.false_ne_true]
    rfl

/-- How the type of the first declarator of a statement is written: as one word, in qualifiers that
a space follows, or not at all.  In the last two cases the name would declare a type after `struct`
or the like. -/
inductive IsTyped (scope : Scope) (declarator : Declarator) : Prop where
  | word {ref : TypeRef} (hbase : declarator.base = some ref)
    (hlookup : scope.lookup ref.name = some ref)
    (hword : IsTypeWord scope ref.name)
  | qualifiers {ref : TypeRef} {words : List String} (hbase : declarator.base = some ref)
    (hwords : ∀ word ∈ words, IsQualifierWord scope word ∧ word ≠ "typedef" ∧
      word ∉ TypeDecl.introducers)
    (hname : ref.name ++ " " = String.join (words.map (· ++ " ")))
    (hspace : declarator.spaceBeforeName = false)
    (hintroducers : ∀ text ∈ TypeDecl.introducers, text ∉ declarator.left.toList)
  | absent (hbase : declarator.base = none)
    (hintroducers : ∀ text ∈ TypeDecl.introducers, text ∉ declarator.left.toList)

/-- A type that is written in qualifiers can be left out for the qualifiers. -/
theorem render_of_qualifiers {ref : TypeRef} {words : List String}
    (hbase : declarator.base = some ref)
    (hleft : ∀ text ∈ declarator.left.toList, IsQualifierWord scope text)
    (hwords : ∀ word ∈ words, IsQualifierWord scope word)
    (hname : ref.name ++ " " = String.join (words.map (· ++ " ")))
    (hspace : declarator.spaceBeforeName = false) :
    render true { declarator with left := ⟨declarator.left.toList ++ words⟩, base := none } =
      render true declarator := by
  have hmarker {texts : List String} (h : ∀ text ∈ texts, IsQualifierWord scope text) :
      ∀ text ∈ texts, isPointerMarker text = false :=
    fun text htext => (h text htext).isWord.isPointerMarker
  have hall := leadingText_words (hmarker (List.forall_mem_append.mpr ⟨hleft, hwords⟩))
  -- The words of the type are written as the qualifiers in front of it are, each with a space
  -- behind it.
  have htype :
      typeText { declarator with left := ⟨declarator.left.toList ++ words⟩, base := none } =
        typeText declarator := by
    unfold typeText
    rw [hbase, hspace]
    dsimp only
    rw [hall, List.map_append, String.join_append, ← leadingText_words (hmarker hleft), ← hname]
    simp
  rw [render_eq, render_eq, htype]
  rfl

/-- The first declarator of a statement is written as tokens from which one is read that is written
in the same way. -/
theorem IsSimple.exists_first (hroles : Respects scope rolesOf) (hcomma : scope.Plain ",")
    (hstar : scope.knows "*" = false) (hampersand : scope.knows "&" = false)
    (h : IsSimple scope declarator) (hvariables : "typedef" ∉ declarator.left.toList)
    (htyped : IsTyped scope declarator) :
    ∃ trees, ReadsFirst scope rolesOf declarator trees := by
  obtain ⟨core, hcore⟩ := h.exists_keeps hroles hcomma
  -- A type of one word is read as it was; one of qualifiers or none leaves a declarator without a
  -- type.
  cases htyped with
  | word hbase hlookup hword =>
    exact ⟨_, h.readsFirst_word hroles hvariables hcore hbase hlookup hword⟩
  | qualifiers hbase hwords hname hspace hintroducers =>
    have hwords' := fun word hword => (hwords word hword).1
    refine ⟨_, h.readsFirst_untyped hroles hstar hampersand hcore
      (List.forall_mem_append.mpr ⟨h.left, hwords'⟩) ?_ ?_
      (render_of_qualifiers hbase h.left hwords' hname hspace)⟩
    · rw [List.mem_append]
      rintro (hmem | hmem)
      · exact hvariables hmem
      · exact (hwords _ hmem).2.1 rfl
    · intro text htext
      rw [List.mem_append]
      rintro (hmem | hmem)
      · exact hintroducers text htext hmem
      · exact (hwords _ hmem).2.2 htext
  | absent hbase hintroducers =>
    have hsame : { declarator with left := ⟨declarator.left.toList⟩, base := none } = declarator :=
      retyped_eq hbase
    exact ⟨_, h.readsFirst_untyped hroles hstar hampersand hcore h.left hvariables hintroducers
      (by rw [hsame])⟩

/-! ### The further declarators of a statement -/

variable (scope rolesOf) in
/-- A further declarator of a statement is written as the trees, from which one is read that is
written in the same way. -/
structure ReadsFurther (declarator : Declarator) (trees : List TokenTree) : Prop where
  exists_core : ∃ core, core <:+ trees ∧ Keeps scope rolesOf declarator core
  noBraces : ∀ item ∈ items rolesOf trees, item.isGroup .brace = false
  writes : Writes (scope.keywords .c) scope.knows (declarator.render false) trees
  exists_read : ∀ first stop, Stops stop → ∃ further,
    read scope (some first) {} (items rolesOf trees ++ stop) = .ok (further, stop) ∧
      further.render false = declarator.render false

/-- A further declarator is written as tokens from which one is read that is written in the same
way. -/
theorem IsSimple.exists_further (hroles : Respects scope rolesOf) (hcomma : scope.Plain ",")
    (h : IsSimple scope declarator) : ∃ trees, ReadsFurther scope rolesOf declarator trees := by
  obtain ⟨core, hcore⟩ := h.exists_keeps hroles hcomma
  have hitems : items rolesOf (TokenTree.marks declarator.right.toList ++ core) =
      Level.ofMarks declarator.right.toList ++ items rolesOf core := by
    rw [TokenTree.items_append, TokenTree.items_marks hroles h.areMarks.each]
  refine ⟨TokenTree.marks declarator.right.toList ++ core, ⟨core, List.suffix_append _ core, hcore⟩,
    ?_, ?_, ?_⟩
  · rw [hitems]
    exact noBraces_append (noBraces_ofMarks declarator.right.toList) hcore.noBraces
  · have hrender :=
      writes_render_false h.areMarks hcore.isWord hcore.writes declarator.left declarator.base
    have hsame : ({ declarator with
        left := ⟨declarator.left.toList⟩
        right := ⟨declarator.right.toList⟩ } : Declarator) = declarator := retyped_eq rfl
    rwa [hsame] at hrender
  -- It takes the type of the first one, of which nothing is written.
  · intro first stop hstop
    have hnoQualifier : NoQualifier (items rolesOf core ++ stop) :=
      forall_head_append hcore.noQualifier hstop.noQualifier
    rw [hitems, List.append_assoc]
    refine ⟨_, read_of_template first _ hnoQualifier (hcore.read_eq stop hstop), ?_⟩
    rw [render_eq, render_eq]
    rfl

end Declarator

end CommonDecl
