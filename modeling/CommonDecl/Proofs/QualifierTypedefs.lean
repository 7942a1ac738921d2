import CommonDecl.Proofs.DeclaratorEnds
import CommonDecl.Proofs.Distribution
import CommonDecl.Proofs.LikeStatements
import CommonDecl.Proofs.StatementRoundTrip

/-!
# Typedefs of types that are qualifiers alone

`unsigned long` is no word that names a type, so what follows it in a typedef is the first new name.
The reader of typedefs does not look ahead for that: it takes a word there for the type that is
aliased.  So a typedef of qualifiers records its names where a pointer or a nest stands first
(`QualifierType.exists_read_statement`), each as the variable that it would be without the
`typedef`, and fails where a name does (`QualifierType.read_statement_fails`).
-/

namespace CommonDecl

open Level

variable {scope : Scope}

/-! ### Tables that grow -/

namespace Scope

/-- The scope with a further type at the end of its table. -/
def withEntry (scope : Scope) (entry : TypeEntry) : Scope :=
  { scope with types := ⟨scope.types.entries ++ [entry]⟩ }

/-- The scope with a type of which nothing but the name is known. -/
def withPlaceholder (scope : Scope) (name : Option String) : Scope :=
  scope.withEntry ⟨name, .ofName name, true⟩

/-- The scope with further synonyms of a type, one for each declarator. -/
def withSynonyms (scope : Scope) (qualifiers : Qualifiers) (aliased : TypeRef) :
    List Declarator → Scope
  | [] => scope
  | declarator :: rest =>
    (scope.withEntry ⟨declarator.name,
      .synonym qualifiers (declarator.name.getD "") ⟨aliased, none, declarator⟩,
      false⟩).withSynonyms
        qualifiers aliased rest

/-- The names of types with a further entry are those before it and its own. -/
theorem keys_withEntry (scope : Scope) (entry : TypeEntry) :
    (scope.withEntry entry).types.keys = scope.types.keys ++ [entry.key] := by
  rw [withEntry, TypeTable.keys, List.map_append]
  rfl

/-- A name that no entry has stays unknown beside an entry of another name. -/
theorem not_mem_keys_withEntry {entry : TypeEntry} {name : String}
    (h : some name ∉ scope.types.keys) (hentry : entry.key ≠ some name) :
    some name ∉ (scope.withEntry entry).types.keys := by
  rw [keys_withEntry, List.mem_append, List.mem_singleton]
  rintro (hmem | heq)
  · exact h hmem
  · exact hentry heq.symm

/-- A name that no entry has is not known. -/
theorem not_knows_of_not_mem {name : String} (h : some name ∉ scope.types.keys) :
    scope.knows name = false := by
  rw [Bool.eq_false_iff, Ne, knows_iff]
  exact fun hknows => h hknows.2

/-- A type with a name that is not there is added to the table. -/
theorem declare_of_not_mem {declared : TypeDecl} (isOpaque : Bool)
    (h : ∀ name, declared.name? = some name → some name ∉ scope.types.keys) :
    Reading.declare declared isOpaque scope =
      .ok ⟨scope.types.size, declared.name?.getD "", isOpaque⟩
        (scope.withEntry ⟨declared.name?, declared, isOpaque⟩) := by
  rcases TypeTable.declare_cases scope.types declared isOpaque with
    ⟨-, hadded⟩ | ⟨handle, old, hfound, hold, hkey, -⟩
  · unfold Reading.declare
    rw [hadded]
    rfl
  · -- An entry of this name would be found.
    obtain ⟨name, hname, -⟩ := Option.bind_eq_some_iff.mp hfound
    have hmem : some name ∈ scope.types.keys := by
      rw [← hname, hkey, TypeTable.keys]
      exact List.mem_map_of_mem (List.mem_of_getElem? hold)
    exact absurd hmem (h name hname)

end Scope

/-- The type of a typedef that is not there gets a placeholder. -/
theorem TypeDecl.findOrDeclare_new {name : Option String}
    (h : ∀ text, name = some text → some text ∉ scope.types.keys) :
    findOrDeclare name scope =
      .ok ⟨scope.types.size, name.getD "", true⟩ (scope.withPlaceholder name) := by
  have hget : (get : Reading Scope) scope = .ok scope scope := rfl
  have hlookup : (name >>= scope.lookup) = none := by
    cases name with
    | none => rfl
    | some text => exact Scope.lookup_of_not_knows (Scope.not_knows_of_not_mem (h text rfl))
  rw [findOrDeclare, bind_of_ok hget, hlookup]
  exact Scope.declare_of_not_mem true h

/-! ### Declarators of a typedef -/

/-- What is declared, with the type that a typedef aliases in place of its own. -/
def Declarator.ofAliased (declared : Declarator) (aliased : TypeRef) : Declarator :=
  { declared with left := {}, base := some aliased }

/-- A declarator with a new name as it is written: pointers, the name or a nest around it, and
dimensions or an argument list. -/
structure NamedDeclarator extends BareDeclarator where
  name : String
  named : Declarator.nameAt? toBareDeclarator.core = some name
  right_isMark : ∀ item ∈ right, item.roles = { isQualifier := true }
  right_startsWithMarker : ∀ item ∈ right.head?, isPointerMarker item.value = true
  head_isPlain : (head.bracket? = none ∧ head.roles = .unresolved) ∨
    (head.bracket? ≠ none ∧ head.roles = {})
  after_isPlain : ∀ item ∈ after, item.roles = {}
  after_isWhole : (∀ item ∈ after, item.isGroup .square = true) ∨
    ∃ list, after = [list] ∧ list.isGroup .parenthesis = true
  name_not_marker : isPointerMarker name = false

namespace NamedDeclarator

variable (named : NamedDeclarator)

/-- The declarator starts with its name. -/
def startsWithName : Bool :=
  named.right.isEmpty && named.head.bracket?.isNone

/-- Behind the name, or behind the nest around it, stand the dimensions or the argument list. -/
theorem behindName_core :
    Declarator.behindName (Declarator.nestsAt named.core) named.core = named.after := by
  rcases named.head_isNameOrNest with ⟨hword, hname⟩ | ⟨contents, hcontents, hstar⟩
  · have hnone : Level.groupContents? named.core .parenthesis = none := by
      rw [groupContents?, bracket?, BareDeclarator.core, List.head?_cons, Option.bind_some, hword]
      rfl
    have hat : Declarator.atName named.core = true := hname
    rw [Declarator.nestsAt_of_none hnone, Declarator.behindName, if_pos rfl, Declarator.afterName,
      if_pos hat]
    rfl
  · have hinside : Level.groupContents? named.core .parenthesis = some contents := hcontents
    rw [Declarator.nestsAt_of_group hinside, if_pos hstar, Declarator.behindName,
      if_neg (Nat.succ_ne_zero _)]
    rfl

theorem afterQualifiers_core : Level.afterQualifiers named.core = named.core := by
  have hcore := Level.afterQualifiers_of_noQualifier (named.noQualifier_core [])
  rwa [List.append_nil] at hcore

/-- Nothing of the declarator is left when it is read. -/
theorem exists_read_whole (scope : Scope) : ∃ core,
    Declarator.read scope (some {}) {} named.core = .ok (core, []) ∧
      core.name = some named.name := by
  obtain ⟨⟨core, rest⟩, hread⟩ := Declarator.exists_read scope (some {}) {} named.core
  have hpart : Declarator.afterTypePart scope (some {}) named.core = named.core :=
    named.afterQualifiers_core
  -- The name is the one that the declarator is named by.
  have hname : core.name = some named.name := by
    rw [Declarator.read_name hread, hpart, named.named]
    rfl
  obtain ⟨nests, innermost, arguments, -, -, hrest⟩ := Declarator.read_eq_ok_iff.mp hread
  rw [hpart, Declarator.afterNests_kindAt, Declarator.isFunction_kindAt, behindName_core] at hrest
  suffices hnil : rest = [] by
    subst hnil
    exact ⟨core, hread, hname⟩
  -- Behind the name stand dimensions, which are skipped, or one argument list, which is read.
  rcases named.after_isWhole with hsquares | ⟨list, hlist, hparenthesis⟩
  · have hnoList : ¬ Level.isGroup named.after .parenthesis = true := by
      cases hafter : named.after with
      | nil => rintro ⟨⟩
      | cons item others =>
        have hitem : item.bracket? = some .square :=
          eq_of_beq (hsquares item (hafter ▸ List.mem_cons_self))
        intro hgroup
        have hother : item.bracket? = some .parenthesis := eq_of_beq hgroup
        rw [hitem] at hother
        cases hother
    rw [if_neg hnoList] at hrest
    rw [hrest.2, afterDimensions]
    exact List.dropWhile_eq_nil_iff.mpr hsquares
  · have hgroup : Level.isGroup named.after .parenthesis = true := by
      rw [hlist]
      exact hparenthesis
    rw [if_pos hgroup, (dimensions_of_parenthesis hgroup).2] at hrest
    rw [hrest.2, hlist]
    rfl

/-- In front of anything that is no bracket, the declarator is read from its name on. -/
theorem exists_read (scope : Scope) : ∃ core, core.name = some named.name ∧
    ∀ stop : Level, stop.NoBracket →
      Declarator.read scope (some {}) {} (named.core ++ stop) = .ok (core, stop) := by
  obtain ⟨core, hread, hname⟩ := named.exists_read_whole scope
  have hne : Level.afterQualifiers named.core ≠ [] := by
    rw [afterQualifiers_core]
    exact List.cons_ne_nil _ _
  exact ⟨core, hname, fun stop hstop => Declarator.read_append hne hstop hread⟩

/-- The first item of the declarator is a pointer marker, its name or the nest around it. -/
theorem exists_head (stop : Level) : ∃ item rest, named.level ++ stop = item :: rest ∧
    ((item.roles = { isQualifier := true } ∧ item.bracket? = none ∧
      isPointerMarker item.value = true ∧
        named.startsWithName = false ∧ item ∈ named.right.head?) ∨
      (named.right = [] ∧ item = named.head ∧ rest = named.after ++ stop)) := by
  -- Without qualifiers the declarator starts with its head.
  cases hright : named.right with
  | nil =>
    refine ⟨named.head, named.after ++ stop, ?_, Or.inr ⟨rfl, rfl, rfl⟩⟩
    rw [BareDeclarator.level, hright]
    rfl
  | cons item others =>
    have hmem : item ∈ named.right := hright ▸ List.mem_cons_self
    refine ⟨item, others ++ named.core ++ stop, ?_, Or.inl ⟨named.right_isMark item hmem,
      (named.right_isQualifier item hmem).2, named.right_startsWithMarker item (hright ▸ rfl), ?_,
      rfl⟩⟩
    · rw [BareDeclarator.level, hright]
      rfl
    · rw [startsWithName, hright]
      rfl

/-- The qualifiers of the type end where the declarator starts. -/
theorem not_isLeftQualifier (stop : Level) :
    ∀ item ∈ (named.level ++ stop).head?, isLeftQualifier item = false := by
  obtain ⟨item, rest, hlevel, hitem⟩ := named.exists_head stop
  rw [hlevel]
  rintro _ ⟨⟩
  rcases hitem with ⟨-, -, hmarker, -⟩ | ⟨-, rfl, -⟩
  · rw [isLeftQualifier, hmarker, Bool.not_true, Bool.and_false]
  · rw [isLeftQualifier, named.head_not_isQualifier, Bool.false_and]

/-- Where the declarator starts with its name, the reader of typedefs is at the name of a type. -/
theorem atTypeName_level (stop : Level) :
    TypeDecl.atTypeName (named.level ++ stop) = named.startsWithName := by
  obtain ⟨item, rest, hlevel, hitem⟩ := named.exists_head stop
  rw [hlevel]
  show (item.roles.isIdentifier || item.roles.isTypeKeyword) = _
  rcases hitem with ⟨hroles, -, -, hstarts, -⟩ | ⟨hright, rfl, -⟩
  · rw [hroles, hstarts]
    rfl
  · rw [startsWithName, hright]
    rcases named.head_isPlain with ⟨hword, hroles⟩ | ⟨hgroup, hroles⟩
    · rw [hroles, hword]
      rfl
    · rw [hroles, Option.isNone_eq_false_iff.mpr (Option.isSome_iff_ne_none.mpr hgroup)]
      rfl

/-- The word that the declarator starts with is its name. -/
theorem head_value (h : named.head.bracket? = none) : named.head.value = named.name := by
  have hnone : Level.groupContents? named.core .parenthesis = none := by
    rw [groupContents?, bracket?, BareDeclarator.core, List.head?_cons, Option.bind_some, h]
    rfl
  have hat : Declarator.atName named.core = true := by
    rcases named.head_isNameOrNest with ⟨-, hname⟩ | ⟨contents, hcontents, -⟩
    · exact hname
    · have hinside : Level.groupContents? named.core .parenthesis = some contents := hcontents
      rw [hnone] at hinside
      cases hinside
  have hnamed := named.named
  rw [Declarator.nameAt?, Declarator.nestsAt_of_none hnone, Declarator.insideNests] at hnamed
  rw [if_pos hat] at hnamed
  exact Option.some.inj hnamed

theorem level_noBrace_all : ∀ item ∈ named.level, item.isGroup .brace = false := by
  refine List.forall_mem_append.mpr ⟨fun item hitem => ?_, named.core_noBrace⟩
  rw [Item.isGroup, (named.right_isQualifier item hitem).2]
  rfl

/-- A declarator can end behind its name. -/
theorem endsDeclarator_after {stop : Level} (hstop : stop.atStatementEnd = true) :
    TypeDecl.endsDeclarator (named.after ++ stop) = true := by
  cases hafter : named.after with
  | nil =>
    rcases atStatementEnd_iff.mp hstop with rfl | hsemicolon
    · rfl
    · simp [TypeDecl.endsDeclarator, hsemicolon]
  | cons item others =>
    rcases named.after_isGroup item (hafter ▸ List.mem_cons_self) with hsquare | hlist
    · have hgroup : Level.isGroup (item :: (others ++ stop)) .square = true := hsquare
      simp [TypeDecl.endsDeclarator, hgroup]
    · have hgroup : Level.isGroup (item :: (others ++ stop)) .parenthesis = true := hlist
      simp [TypeDecl.endsDeclarator, hgroup]

/-- The name is new, and no pointer marker names a type. -/
def IsNewIn (scope : Scope) : Prop :=
  some named.name ∉ scope.types.keys ∧ ∀ item ∈ named.right.head?,
    some item.value ∉ scope.types.keys

variable {named}

/-- A further entry of another name changes nothing about that. -/
theorem IsNewIn.withEntry (h : named.IsNewIn scope) {entry : TypeEntry}
    (hname : entry.key ≠ some named.name)
    (hmarker : ∀ text ∈ entry.key, isPointerMarker text = false) :
    named.IsNewIn (scope.withEntry entry) := by
  refine ⟨Scope.not_mem_keys_withEntry h.1 hname, fun item hitem => ?_⟩
  refine Scope.not_mem_keys_withEntry (h.2 item hitem) fun hkey => ?_
  have hitem' := named.right_startsWithMarker item hitem
  rw [hmarker item.value hkey] at hitem'
  cases hitem'

theorem IsNewIn.typeAt? (h : named.IsNewIn scope) (stop : Level) :
    Declarator.typeAt? scope (named.level ++ stop) = none := by
  obtain ⟨item, rest, hlevel, hitem⟩ := named.exists_head stop
  rw [hlevel, Declarator.typeAt?, word?, bracket?, value?, List.head?_cons, Option.bind_some,
    Option.map_some]
  by_cases hword : item.bracket? = none
  · have hvalue : some item.value ∉ scope.types.keys := by
      rcases hitem with ⟨-, -, -, -, hmem⟩ | ⟨-, rfl, -⟩
      · exact h.2 item hmem
      · rw [named.head_value hword]
        exact h.1
    rw [if_pos (by rw [hword]; rfl)]
    exact Scope.lookup_of_not_knows (Scope.not_knows_of_not_mem hvalue)
  · rw [if_neg (by simpa using hword)]
    rfl

end NamedDeclarator

/-! ### Declarators without a name -/

/-- Nothing but a word and a nest can be a name. -/
theorem Declarator.nameAt?_eq_none {level : Level}
    (hname : ∀ item ∈ level.head?, item.roles = {} ∧ item.isToken "..." = false)
    (hnest : ∀ contents, level.groupContents? .parenthesis = some contents →
      contents.isToken "*" = false) :
    nameAt? level.afterQualifiers = none := by
  have hqualifier : NoQualifier level := by
    intro item hitem
    rw [(hname item hitem).1]
  have hafter : level.afterQualifiers = level := Level.afterQualifiers_of_noQualifier hqualifier
  -- A group without a `*` in front is no nest.
  have hnests : nestsAt level = 0 := by
    cases hlist : level.groupContents? .parenthesis with
    | none => exact nestsAt_of_none hlist
    | some contents =>
      rw [nestsAt_of_group hlist, hnest contents hlist]
      rfl
  have hat : ¬ atName level = true := by
    cases level with
    | nil => rintro ⟨⟩
    | cons item rest =>
      obtain ⟨hroles, hdots⟩ := hname item rfl
      show ¬ (item.roles.isIdentifier || item.isToken "...") = true
      rw [hroles, hdots]
      exact Bool.false_ne_true
  rw [hafter, nameAt?, hnests, insideNests]
  exact if_neg hat

theorem TypeDecl.readNamedDeclarator_unnamed {level : Level} (aliased : TypeRef) (unnamed : Fault)
    (scope : Scope) (h : Declarator.nameAt? level.afterQualifiers = none) :
    readNamedDeclarator aliased unnamed level scope = .error unnamed scope := by
  have hget : (get : Reading Scope) scope = .ok scope scope := rfl
  obtain ⟨⟨declarator, rest⟩, hread⟩ :=
    Declarator.exists_read scope (some (Declarator.ofBase aliased)) {} level
  -- The template has no name, and the level offers none.
  have hname : declarator.name = none := by
    have hpart : Declarator.afterTypePart scope (some (Declarator.ofBase aliased)) level =
        level.afterQualifiers := rfl
    rw [Declarator.read_name hread, hpart, h]
    rfl
  have hlifted :
      Reading.ofExcept (Declarator.read scope (some (Declarator.ofBase aliased)) {} level) scope =
      .ok (declarator, rest) scope := by
    rw [hread]
    rfl
  rw [readNamedDeclarator, bind_of_ok hget, bind_of_ok hlifted]
  dsimp only
  rw [hname]
  rfl

/-! ### Types that are qualifiers alone -/

/-- A type that consists of qualifiers, such as `unsigned long`, with the `typedef` in front of it.
-/
structure QualifierType where
  keyword : Item
  qualifiers : Level
  keyword_isLeft : isLeftQualifier keyword = true
  keyword_isTypedef : keyword.value = "typedef"
  qualifiers_isLeft : ∀ item ∈ qualifiers, isLeftQualifier item = true
  not_introducer : ∀ item ∈ qualifiers, item.value ∉ "typedef" :: TypeDecl.introducers

namespace QualifierType

variable (type : QualifierType) {named : NamedDeclarator} {core : Declarator} {stop : Level}

/-- The qualifiers of the type. -/
def values : Qualifiers :=
  ⟨type.qualifiers.map Item.value⟩

/-- The items of a typedef of the type up to its first declarator. -/
def level : Level :=
  type.keyword :: type.qualifiers

theorem leftQualifiers_variable (named : NamedDeclarator) (stop : Level) :
    (type.qualifiers ++ (named.level ++ stop)).leftQualifiers = type.values ∧
      (type.qualifiers ++ (named.level ++ stop)).afterLeftQualifiers = named.level ++ stop := by
  have hstop := named.not_isLeftQualifier stop
  constructor
  · rw [leftQualifiers, takeWhile_append_eq type.qualifiers_isLeft hstop]
    rfl
  · exact dropWhile_append_eq type.qualifiers_isLeft hstop

/-- In a typedef all words up to the first declarator are qualifiers. -/
theorem leftQualifiers_typedef (named : NamedDeclarator) (stop : Level) :
    (type.level ++ (named.level ++ stop)).leftQualifiers = ⟨"typedef" :: type.values.toList⟩ ∧
      (type.level ++ (named.level ++ stop)).afterLeftQualifiers = named.level ++ stop := by
  have hleft : ∀ item ∈ type.level, isLeftQualifier item = true :=
    List.forall_mem_cons.mpr ⟨type.keyword_isLeft, type.qualifiers_isLeft⟩
  have hstop := named.not_isLeftQualifier stop
  constructor
  · rw [leftQualifiers, takeWhile_append_eq hleft hstop, level, List.map_cons,
      type.keyword_isTypedef]
    rfl
  · exact dropWhile_append_eq hleft hstop

/-- Without the `typedef`, a statement of the type declares no type. -/
theorem not_isDeclaredAt (named : NamedDeclarator) (hstop : stop.atStatementEnd = true)
    (scope : Scope) :
    TypeDecl.isDeclaredAt scope (type.qualifiers ++ (named.level ++ stop)) = false := by
  obtain ⟨hleft, hafter⟩ := type.leftQualifiers_variable named stop
  have hintroducers : ∀ text ∈ "typedef" :: TypeDecl.introducers,
      text ∉ type.qualifiers.map Item.value := by
    intro text htext hmem
    obtain ⟨item, hitem, rfl⟩ := List.mem_map.mp hmem
    exact type.not_introducer item hitem htext
  have hstopGroup : stop.NoGroup .brace :=
    (noBracket_of_separator (head_separator_of_atStatementEnd hstop)).noGroup .brace
  -- No qualifier introduces a type and no body follows, so a name would have to go on behind
  -- itself.
  refine TypeDecl.isDeclaredAt_of_not_introduced hleft
    (hintroducers _ List.mem_cons_self) ?_ ?_ ?_ scope
  · rw [hafter]
    exact named.level_noBrace stop
  · rw [hafter, next_append named.level_ne_nil]
    refine forall_head_append (fun item hitem => ?_) hstopGroup
    exact named.level_noBrace_all item (List.mem_of_mem_tail (List.mem_of_mem_head? hitem))
  · rw [hafter]
    intro hunresolved
    refine ⟨fun text htext => hintroducers text (List.mem_cons_of_mem _ htext), ?_⟩
    obtain ⟨item, rest, hlevel, hitem⟩ := named.exists_head stop
    rw [hlevel] at hunresolved ⊢
    rcases hitem with ⟨hroles, -⟩ | ⟨-, -, rfl⟩
    · -- A pointer marker is no name.
      have hitem : item.roles.isUnresolved = true := hunresolved
      rw [hroles] at hitem
      cases hitem
    · exact named.endsDeclarator_after hstop

/-- A declarator is declared as a variable of the type. -/
def variableOf (named : NamedDeclarator) (core : Declarator) : Declarator :=
  { core with left := type.values, right := ⟨named.right.map Item.value⟩, base := none }

/-- The name is declared as a variable where the type stands in front of it without the `typedef`.
-/
theorem read_variable (hnew : named.IsNewIn scope) (hstop : stop.atStatementEnd = true)
    (hread : Declarator.read scope (some {}) {} (named.core ++ stop) = .ok (core, stop)) :
    Declaration.read (type.qualifiers ++ (named.level ++ stop)) scope =
      .ok (.names [type.variableOf named core], stop.afterSemicolon) scope := by
  obtain ⟨hleft, hafter⟩ := type.leftQualifiers_variable named stop
  have htype := hnew.typeAt? stop
  have hnext : Declarator.afterType scope (named.level ++ stop) = named.level ++ stop := by
    rw [Declarator.afterType, htype]
    rfl
  -- No type is found behind the qualifiers, which stay the type of the variable.
  have hfirst : Declarator.read scope none {} (type.qualifiers ++ (named.level ++ stop)) =
      .ok (type.variableOf named core, stop) := by
    have hcore := Declarator.read_of_core _ _ hleft (by rw [hafter, hnext, named.qualifiers_level])
      (by rw [hafter, hnext, named.afterQualifiers_level]) hread
    rwa [hafter, htype] at hcore
  refine Declaration.read_of_variables (type.not_isDeclaredAt named hstop scope) ?_
  -- At the end of the statement there is no further declarator.
  have hfurther :
      Declaration.readFurther scope (type.variableOf named core) (type.variableOf named core)
      stop = .ok ([], stop) := by
    have hnothing : ∀ item ∈ ([] : Level), item.isSeparator = false := by simp
    exact Declaration.readFurther_stop hnothing (by simp [NoGroup]) hstop
  rw [Declaration.readVariables, hfirst]
  dsimp only [bind, Except.bind]
  rw [hfurther]
  rfl

/-- Each name is recorded as it is declared as a variable of the type, in the scope that the names
before it leave. -/
inductive RecordsEach (type : QualifierType) (aliased : TypeRef) :
    Scope → List NamedDeclarator → List Declarator → Prop where
  | nil (scope : Scope) : RecordsEach type aliased scope [] []
  | cons {scope : Scope} {named : NamedDeclarator} {names : List NamedDeclarator}
    {declared : Declarator}
      {declarators : List Declarator} (hname : declared.name = some named.name)
      (hread : ∀ stop : Level, stop.atStatementEnd = true →
        Declaration.read (type.qualifiers ++ (named.level ++ stop)) scope =
          .ok (.names [declared], stop.afterSemicolon) scope)
      (hfurther : RecordsEach type aliased
        (scope.withSynonyms type.values aliased [declared.ofAliased aliased])
        names declarators) :
    RecordsEach type aliased scope (named :: names)
      (declared.ofAliased aliased :: declarators)

/-- A name is read as a synonym, as it is read as a variable. -/
theorem exists_readNamedDeclarator (hnew : named.IsNewIn scope) (aliased : TypeRef)
    (unnamed : Fault) :
    ∃ declared, declared.name = some named.name ∧
      (∀ stop : Level, stop.atStatementEnd = true →
        Declaration.read (type.qualifiers ++ (named.level ++ stop)) scope =
          .ok (.names [declared], stop.afterSemicolon) scope) ∧
      ∀ stop : Level, stop.NoBracket →
        TypeDecl.readNamedDeclarator aliased unnamed (named.level ++ stop) scope =
          .ok (named.name, declared.ofAliased aliased, stop) scope := by
  obtain ⟨core, hname, hread⟩ := named.exists_read scope
  refine ⟨type.variableOf named core, hname, fun stop hstop => ?_, fun stop hstop => ?_⟩
  · exact type.read_variable hnew hstop
      (hread stop (noBracket_of_separator (head_separator_of_atStatementEnd hstop)))
  · have htemplate := BareDeclarator.read_template (Declarator.ofBase aliased) (hread stop hstop)
    exact TypeDecl.readNamedDeclarator_of_read unnamed htemplate hname

/-- A name that is registered as a synonym is a further entry of the table. -/
theorem register_synonym (declarator : Declarator) (hnew : named.IsNewIn scope)
    (hname : declarator.name = some named.name) (aliased : TypeRef) :
    ∃ ref, Reading.register (.synonym type.values named.name ⟨aliased, none, declarator⟩) scope =
        .ok ref (scope.withSynonyms type.values aliased [declarator]) := by
  have hadded : Reading.declare (.synonym type.values named.name ⟨aliased, none, declarator⟩)
      false scope = _ :=
    Scope.declare_of_not_mem false (by rintro name ⟨⟩; exact hnew.1)
  rw [Scope.withSynonyms, Scope.withSynonyms, hname]
  exact ⟨_, hadded⟩

theorem IsNewIn.withSynonym (declarator : Declarator) {other : NamedDeclarator}
    (hother : other.IsNewIn scope) (hname : declarator.name = some named.name)
    (hne : named.name ≠ other.name) (aliased : TypeRef) :
    other.IsNewIn (scope.withSynonyms type.values aliased [declarator]) := by
  refine hother.withEntry ?_ ?_
  · rw [hname]
    exact fun heq => hne (Option.some.inj heq)
  · rw [hname]
    rintro text ⟨⟩
    exact named.name_not_marker

/-- The further names of the typedef are read up to the end of the statement. -/
theorem exists_readSiblings (aliased : TypeRef) {names : List NamedDeclarator}
    (hnew : ∀ named ∈ names, named.IsNewIn scope)
    (hdistinct : (names.map NamedDeclarator.name).Nodup) {comma : Item}
    (hcomma : comma.isToken "," = true) (hstop : stop.atStatementEnd = true) :
    ∃ declarators, TypeDecl.readSiblings type.values aliased
        (afterCommas comma (names.map fun named => named.level) ++ stop) scope =
          .ok (declarators, stop) (scope.withSynonyms type.values aliased declarators) ∧
      RecordsEach type aliased scope names declarators := by
  -- By induction on the names, each in the scope that those before it leave.
  induction names generalizing scope with
  | nil =>
    refine ⟨[], ?_, .nil scope⟩
    show TypeDecl.readSiblings type.values aliased stop scope = _
    rw [TypeDecl.readSiblings, if_neg (by simp [isToken_comma_of_atStatementEnd hstop])]
    rfl
  | cons named names ih =>
    obtain ⟨hnamed, hothers⟩ := List.forall_mem_cons.mp hnew
    rw [List.map_cons, List.nodup_cons] at hdistinct
    obtain ⟨declared, hname, hvariable, hread⟩ := type.exists_readNamedDeclarator hnamed aliased
      (.unnamedSibling aliased.name)
    obtain ⟨ref, hregister⟩ :=
      type.register_synonym (declared.ofAliased aliased) hnamed hname aliased
    -- The names after it are new in the scope that has this one.
    have hothers' : ∀ other ∈ names, other.IsNewIn
        (scope.withSynonyms type.values aliased [declared.ofAliased aliased]) := by
      intro other hother
      refine IsNewIn.withSynonym type (declared.ofAliased aliased) (hothers other hother) hname
        (fun heq => hdistinct.1 ?_) aliased
      rw [heq]
      exact List.mem_map_of_mem hother
    obtain ⟨declarators, hsiblings, hrecords⟩ := ih hothers' hdistinct.2
    refine ⟨_ :: declarators, ?_, .cons hname hvariable hrecords⟩
    have hrest :=
      noBracket_of_separator (head_afterCommas hcomma (names.map fun named => named.level) hstop)
    have hlevel : afterCommas comma ((named :: names).map fun named => named.level) ++ stop =
        comma ::
            (named.level ++ (afterCommas comma (names.map fun named => named.level) ++ stop)) := by
      simp [afterCommas]
    -- A name and its comma leave a shorter level, so the reader goes on.
    have hshorter : (afterCommas comma (names.map fun named => named.level) ++ stop).length <
        (comma ::
            (named.level ++ (afterCommas comma (names.map fun named => named.level) ++
            stop))).length := by
      simp only [List.length_cons, List.length_append]
      omega
    rw [hlevel, TypeDecl.readSiblings, if_pos (by exact hcomma), next, List.tail_cons,
      bind_of_ok (hread _ hrest)]
    dsimp only
    rw [bind_of_ok hregister, if_pos hshorter, bind_of_ok hsiblings]
    rfl

/-- The items of a typedef of the type up to the end of a source. -/
def statement (names : List NamedDeclarator) (rest : Level) : Level :=
  type.level ++ ([.token "," {}].intercalate (names.map fun named => named.level) ++
    ofSemicolon rest)

/-- What follows the first name of the statement. -/
def afterFirst (further : List NamedDeclarator) (rest : Level) : Level :=
  afterCommas (.token "," {}) (further.map fun named => named.level) ++ ofSemicolon rest

theorem statement_cons (first : NamedDeclarator) (further : List NamedDeclarator) (rest : Level) :
    type.statement (first :: further) rest =
      type.level ++ (first.level ++ afterFirst further rest) := by
  rw [statement, List.map_cons, intercalate_cons_eq_flatMap, List.append_assoc]
  rfl

theorem head_afterFirst (further : List NamedDeclarator) (rest : Level) :
    ∀ item ∈ (afterFirst further rest).head?,
      item.isSeparator = true ∧ item.roles = {} ∧ item.isToken "..." = false := by
  cases further with
  | nil =>
    rintro item ⟨⟩
    exact ⟨by decide, rfl, by decide⟩
  | cons named others =>
    rintro item ⟨⟩
    exact ⟨by decide, rfl, by decide⟩

/-- The type that a typedef of qualifiers alone aliases has no name. -/
def anonymous (scope : Scope) : TypeRef :=
  ⟨scope.types.size, "", true⟩

/-- Where the first declarator does not start with its name, the typedef names no type that it
aliases. -/
theorem read_first {first : NamedDeclarator} {declarator : Declarator} {after : Scope}
    (hstart : first.startsWithName = false)
    (hplaceholder : TypeDecl.findOrDeclare none scope = .ok (anonymous scope) after)
    (hread : Declarator.read after (some (Declarator.ofBase (anonymous scope))) {}
      (first.level ++ stop) =
      .ok (declarator, stop)) (hname : declarator.name = some first.name) :
    TypeDecl.read (type.level ++ (first.level ++ stop)) scope =
      .ok (.synonym type.values first.name ⟨anonymous scope, none, declarator⟩, stop) after := by
  obtain ⟨hleft, hafter⟩ := type.leftQualifiers_typedef first stop
  -- A pointer or a nest is no name of a type.
  have hat : ¬ TypeDecl.atTypeName (first.level ++ stop) = true := by
    rw [first.atTypeName_level, hstart]
    exact Bool.false_ne_true
  have hafterName :
      TypeDecl.afterTypeName (type.level ++ (first.level ++ stop)).afterLeftQualifiers =
      first.level ++ stop := by
    rw [hafter, TypeDecl.afterTypeName, if_neg hat]
  have htag : TypeDecl.typeName? (type.level ++ (first.level ++ stop)).afterLeftQualifiers =
      none := by
    rw [hafter, TypeDecl.typeName?, if_neg hat]
  have hbody := readBody?_of_noGroup (by rw [hafterName]; exact first.level_noBrace stop) after
  rw [← hafterName] at hread
  exact TypeDecl.readTypedef_of_noBody hleft htag hplaceholder hbody hread hname

/-- Where the first declarator does not start with its name, each name of the typedef is recorded.
-/
theorem exists_read_statement {first : NamedDeclarator} {further : List NamedDeclarator}
    (hnew : ∀ named ∈ first :: further, named.IsNewIn scope)
    (hdistinct : ((first :: further).map NamedDeclarator.name).Nodup)
    (hstart : first.startsWithName = false) (rest : Level) : ∃ declarator siblings,
      Declaration.read (type.statement (first :: further) rest) scope =
        .ok (.type (.synonym type.values first.name ⟨anonymous scope, none, declarator⟩) siblings,
          rest)
          ((scope.withPlaceholder none).withSynonyms type.values (anonymous scope)
            (declarator :: siblings)) ∧
      RecordsEach type (anonymous scope) (scope.withPlaceholder none) (first :: further)
        (declarator :: siblings) := by
  obtain ⟨hfirst, hfurther⟩ := List.forall_mem_cons.mp hnew
  rw [List.map_cons, List.nodup_cons] at hdistinct
  have hstop := noBracket_of_separator fun item hitem => (head_afterFirst further rest item hitem).1
  -- The aliased type is added without a name.
  have hnew' : ∀ named ∈ first :: further, named.IsNewIn (scope.withPlaceholder none) :=
    fun named hnamed => (hnew named hnamed).withEntry (by rintro ⟨⟩) (by rintro text ⟨⟩)
  obtain ⟨hfirst', hfurther'⟩ := List.forall_mem_cons.mp hnew'
  have hplaceholder : TypeDecl.findOrDeclare none scope =
      .ok (anonymous scope) (scope.withPlaceholder none) :=
    TypeDecl.findOrDeclare_new (by rintro text ⟨⟩)
  obtain ⟨declared, hname, hvariable, hread⟩ :=
    type.exists_readNamedDeclarator hfirst' (anonymous scope) (.unnamedTypedef type.values)
  obtain ⟨hread, -, -⟩ := TypeDecl.readNamedDeclarator_eq_ok_iff.mp (hread _ hstop)
  have htype := type.read_first hstart hplaceholder hread hname
  -- The further names are read with the first one known.
  obtain ⟨ref, hregister⟩ :=
    type.register_synonym (declared.ofAliased (anonymous scope)) hfirst' hname
    (anonymous scope)
  have hothers : ∀ other ∈ further, other.IsNewIn ((scope.withPlaceholder none).withSynonyms
      type.values (anonymous scope) [declared.ofAliased (anonymous scope)]) := by
    intro other hother
    refine IsNewIn.withSynonym type (declared.ofAliased (anonymous scope))
      (hfurther' other hother) hname
      (fun heq => hdistinct.1 ?_) (anonymous scope)
    rw [heq]
    exact List.mem_map_of_mem hother
  obtain ⟨siblings, hsiblings, hrecords⟩ :=
    type.exists_readSiblings (anonymous scope) hothers hdistinct.2
    (show Item.isToken "," (.token "," {}) = true from rfl)
    (show Level.atStatementEnd (ofSemicolon rest) = true from rfl)
  refine ⟨_, siblings, ?_, .cons hname hvariable hrecords⟩
  rw [statement_cons]
  have htypedef : (type.level ++ (first.level ++ afterFirst further rest)).leftQualifiers.has
      "typedef" = true := by
    rw [(type.leftQualifiers_typedef first _).1]
    rfl
  -- Beside the typedef the names behind the first comma are read as siblings.
  have hbeside : Declaration.readBeside (.synonym type.values first.name
      ⟨anonymous scope, none, declared.ofAliased (anonymous scope)⟩) (afterFirst further rest)
      (scope.withPlaceholder none) = .ok (.type (.synonym type.values first.name
        ⟨anonymous scope, none, declared.ofAliased (anonymous scope)⟩) siblings, ofSemicolon rest)
        ((scope.withPlaceholder none).withSynonyms type.values (anonymous scope)
          (declared.ofAliased (anonymous scope) :: siblings)) := by
    rw [Declaration.readBeside, if_neg (by simp [TypeDecl.name?]), bind_of_ok hregister]
    dsimp only
    rw [afterFirst, bind_of_ok hsiblings]
    rfl
  have hstatement :=
    Declaration.read_of_type (TypeDecl.isDeclaredAt_of_typedef htypedef scope) htype hbeside
  rwa [afterSemicolon_semicolon] at hstatement

/-- Where the first declarator starts with its name, no name is left for the typedef. -/
theorem read_statement_fails {first : NamedDeclarator} {further : List NamedDeclarator}
    (hnew : first.IsNewIn scope) (hstart : first.startsWithName = true)
    (hlist : ∀ contents, Level.groupContents? first.after .parenthesis = some contents →
      contents.isToken "*" = false) (rest : Level) :
    Declaration.read (type.statement (first :: further) rest) scope =
      .error (.unnamedTypedef type.values)
        (scope.withPlaceholder (some first.name)) := by
  have hget : (get : Reading Scope) scope = .ok scope scope := rfl
  obtain ⟨hright, hword⟩ : first.right = [] ∧ first.head.bracket? = none := by
    simpa [NamedDeclarator.startsWithName] using hstart
  obtain ⟨hleft, hafter⟩ := type.leftQualifiers_typedef first (afterFirst further rest)
  have hlevel : first.level ++ afterFirst further rest =
      first.head :: (first.after ++ afterFirst further rest) := by
    rw [BareDeclarator.level, hright]
    rfl
  -- The name is a word behind the qualifiers, so it is taken for the type.
  have hat : TypeDecl.atTypeName (first.level ++ afterFirst further rest) = true := by
    rw [first.atTypeName_level, hstart]
  have hafterName : TypeDecl.afterTypeName
      (type.level ++ (first.level ++ afterFirst further rest)).afterLeftQualifiers =
        first.after ++ afterFirst further rest := by
    rw [hafter, TypeDecl.afterTypeName, if_pos hat, hlevel]
    rfl
  have htag :
      TypeDecl.typeName? (type.level ++
      (first.level ++ afterFirst further rest)).afterLeftQualifiers =
      some first.name := by
    rw [hafter, TypeDecl.typeName?, if_pos hat, hlevel, value?, List.head?_cons, Option.map_some,
      first.head_value hword]
  -- As nothing has this name, a placeholder is added for it.
  have hplaceholder : TypeDecl.findOrDeclare (some first.name) scope =
      .ok ⟨scope.types.size, first.name, true⟩ (scope.withPlaceholder (some first.name)) :=
    TypeDecl.findOrDeclare_new (by rintro text ⟨⟩; exact hnew.1)
  have hstop := noBracket_of_separator fun item hitem => (head_afterFirst further rest item hitem).1
  have hnoBody : Level.NoGroup .brace (first.after ++ afterFirst further rest) := by
    refine forall_head_append (fun item hitem => ?_) (hstop.noGroup .brace)
    exact first.core_noBrace item (List.mem_cons_of_mem _ (List.mem_of_mem_head? hitem))
  have hbody :=
    readBody?_of_noGroup (by rw [hafterName]; exact hnoBody)
    (scope.withPlaceholder (some first.name))
  -- Neither the dimensions nor the argument list of the declarator holds a name.
  have hunnamed : Declarator.nameAt? (first.after ++ afterFirst further rest).afterQualifiers =
      none := by
    refine Declarator.nameAt?_eq_none (forall_head_append (fun item hitem => ?_)
      fun item hitem => (head_afterFirst further rest item hitem).2) fun contents hcontents => ?_
    · have hmem := List.mem_of_mem_head? hitem
      refine ⟨first.after_isPlain item hmem, ?_⟩
      rcases first.after_isGroup item hmem with hsquare | hparenthesis
      · exact isToken_eq_false_of_bracket? (eq_of_beq hsquare)
      · exact isToken_eq_false_of_bracket? (eq_of_beq hparenthesis)
    · rw [groupContents?_append hstop] at hcontents
      exact hlist contents hcontents
  have htypedef : (type.level ++ (first.level ++ afterFirst further rest)).leftQualifiers.has
      "typedef" = true := by
    rw [hleft]
    rfl
  have hremove :
      (type.level ++ (first.level ++ afterFirst further rest)).leftQualifiers.remove "typedef" =
      type.values := by
    rw [hleft, Qualifiers.remove, List.erase_cons_head]
  have hread := TypeDecl.readNamedDeclarator_unnamed ⟨scope.types.size, first.name, true⟩
    (.unnamedTypedef type.values) (scope.withPlaceholder (some first.name)) hunnamed
  rw [statement_cons, Declaration.read, bind_of_ok hget,
    if_pos (TypeDecl.isDeclaredAt_of_typedef htypedef scope)]
  refine bind_of_error ?_
  rw [TypeDecl.read_of_typedef htypedef, TypeDecl.readTypedef, htag, bind_of_ok hplaceholder,
    bind_of_ok hbody]
  dsimp only
  rw [hafterName, hremove]
  exact bind_of_error hread

/-- **A typedef of qualifiers records its names, unless the first declarator starts with its name.**
Then it fails, and that name is left in the table as a type of which nothing is known. -/
theorem records_or_fails {first : NamedDeclarator} {further : List NamedDeclarator}
    (hnew : ∀ named ∈ first :: further, named.IsNewIn scope)
    (hdistinct : ((first :: further).map NamedDeclarator.name).Nodup) (rest : Level) :
    (first.startsWithName = false → ∃ declarator siblings,
      Declaration.read (type.statement (first :: further) rest) scope =
        .ok (.type (.synonym type.values first.name ⟨anonymous scope, none, declarator⟩) siblings,
          rest)
          ((scope.withPlaceholder none).withSynonyms type.values (anonymous scope)
            (declarator :: siblings)) ∧
      RecordsEach type (anonymous scope) (scope.withPlaceholder none) (first :: further)
        (declarator :: siblings)) ∧
    (first.startsWithName = true →
      (∀ contents, Level.groupContents? first.after .parenthesis = some contents →
        contents.isToken "*" = false) →
      Declaration.read (type.statement (first :: further) rest) scope =
        .error (.unnamedTypedef type.values) (scope.withPlaceholder (some first.name))) :=
  ⟨fun hstart => type.exists_read_statement hnew hdistinct hstart rest,
    fun hstart hlist => type.read_statement_fails (hnew first List.mem_cons_self) hstart hlist rest⟩

/-- `typedef unsigned long`. -/
def unsignedLong : QualifierType where
  keyword := .token "typedef" { isQualifier := true }
  qualifiers := [.token "unsigned" { isQualifier := true }, .token "long" { isQualifier := true }]
  keyword_isLeft := by decide
  keyword_isTypedef := rfl
  qualifiers_isLeft := by decide
  not_introducer := by decide

/-- `ulong`. -/
def ulong : NamedDeclarator where
  right := []
  head := .token "ulong" .unresolved
  after := []
  right_isQualifier := by simp
  head_not_isQualifier := rfl
  head_isNameOrNest := Or.inl ⟨rfl, rfl⟩
  head_not_separator := by decide
  after_isGroup := BareDeclarator.nil_isGroup
  name := "ulong"
  named := by cbv
  right_isMark := by simp
  right_startsWithMarker := by simp
  head_isPlain := Or.inl ⟨rfl, rfl⟩
  after_isPlain := by simp
  after_isWhole := Or.inl (by simp)
  name_not_marker := by decide

/-- `*row[3]`. -/
def row : NamedDeclarator where
  right := [.token "*" { isQualifier := true }]
  head := .token "row" .unresolved
  after := [.group "[" {} [.token "3" {}]]
  right_isQualifier := BareDeclarator.star_isQualifier
  head_not_isQualifier := rfl
  head_isNameOrNest := Or.inl ⟨rfl, rfl⟩
  head_not_separator := by decide
  after_isGroup := by decide
  name := "row"
  named := by cbv
  right_isMark := by decide
  right_startsWithMarker := by decide
  head_isPlain := Or.inl ⟨rfl, rfl⟩
  after_isPlain := by decide
  after_isWhole := Or.inl (by decide)
  name_not_marker := by decide

/-- The items of two typedefs of `unsigned long`, of which one starts with a name. -/
theorem items_ulong :
    (fun trees => (Node.ofTrees trees).items) <$>
        TokenTree.ofSource .c (Scope.ofSettings {}) "typedef unsigned long *row[3], ulong;" =
      .ok (unsignedLong.statement [row, ulong] []) ∧
    (fun trees => (Node.ofTrees trees).items) <$>
        TokenTree.ofSource .c (Scope.ofSettings {}) "typedef unsigned long ulong;" =
      .ok (unsignedLong.statement [ulong] []) := by
  have hfirst :
      TokenTree.ofSource .c (Scope.ofSettings {}) "typedef unsigned long *row[3], ulong;" =
      .ok [.leaf ⟨"typedef", .qualifier⟩, .leaf ⟨"unsigned", .qualifier⟩,
        .leaf ⟨"long", .qualifier⟩, .leaf ⟨"*", .qualifier⟩, .leaf ⟨"row", .unresolved⟩,
        .group .square [.leaf ⟨"3", .constant⟩],
        .leaf ⟨",", .operator⟩, .leaf ⟨"ulong", .unresolved⟩, .leaf ⟨";", .operator⟩] := by
    decide +kernel
  have hsecond : TokenTree.ofSource .c (Scope.ofSettings {}) "typedef unsigned long ulong;" =
      .ok [.leaf ⟨"typedef", .qualifier⟩, .leaf ⟨"unsigned", .qualifier⟩,
        .leaf ⟨"long", .qualifier⟩, .leaf ⟨"ulong", .unresolved⟩, .leaf ⟨";", .operator⟩] := by
    decide +kernel
  rw [hfirst, hsecond]
  exact ⟨rfl, rfl⟩

/-- Both names are recorded where a pointer stands first, and none where a name does. -/
theorem records_or_fails_ulong :
    (fun trees => (Node.ofTrees trees).items) <$>
        TokenTree.ofSource .c (Scope.ofSettings {}) "typedef unsigned long *row[3], ulong;" =
      .ok (unsignedLong.statement [row, ulong] []) ∧
    (fun trees => (Node.ofTrees trees).items) <$>
        TokenTree.ofSource .c (Scope.ofSettings {}) "typedef unsigned long ulong;" =
      .ok (unsignedLong.statement [ulong] []) ∧
    (∃ declarator siblings after,
      Declaration.read (unsignedLong.statement [row, ulong] []) (Scope.ofSettings {}) =
        .ok (.type (.synonym unsignedLong.values "row" ⟨anonymous (Scope.ofSettings {}), none,
          declarator⟩)
          siblings, []) after ∧
      RecordsEach unsignedLong (anonymous (Scope.ofSettings {}))
        ((Scope.ofSettings {}).withPlaceholder none) [row, ulong] (declarator :: siblings)) ∧
    Declaration.read (unsignedLong.statement [ulong] []) (Scope.ofSettings {}) =
      .error (.unnamedTypedef unsignedLong.values)
        ((Scope.ofSettings {}).withPlaceholder (some "ulong")) := by
  have hulong : ulong.IsNewIn (Scope.ofSettings {}) := ⟨by decide, by decide⟩
  have hrow : row.IsNewIn (Scope.ofSettings {}) := ⟨by decide, by decide⟩
  refine ⟨items_ulong.1, items_ulong.2, ?_, ?_⟩
  · obtain ⟨declarator, siblings, hread, hrecords⟩ := (records_or_fails unsignedLong
      (List.forall_mem_cons.mpr ⟨hrow, List.forall_mem_singleton.mpr hulong⟩) (by decide) []).1 rfl
    exact ⟨declarator, siblings, _, hread, hrecords⟩
  · exact (records_or_fails unsignedLong (List.forall_mem_singleton.mpr hulong)
      (by decide) []).2 rfl
      (by rintro contents ⟨⟩)

/-- Without the `typedef` it is a variable; with it, the name is taken for the type that is aliased,
and there is no declaration. -/
theorem not_records_ulong :
    (fun trees => (Node.ofTrees trees).items) <$>
        TokenTree.ofSource .c (Scope.ofSettings {}) "typedef unsigned long ulong;" =
      .ok (unsignedLong.statement [ulong] []) ∧
    Ends (Declaration.read (unsignedLong.qualifiers ++ (ulong.level ++ [.token ";" {}])))
      (Scope.ofSettings {})
      (fun result _ => result.1.declarators.map Declarator.name = [some "ulong"]) (fun _ => False) ∧
    ¬ ∃ declaration rest after,
      Declaration.read (unsignedLong.statement [ulong] []) (Scope.ofSettings {}) =
        .ok (declaration, rest) after := by
  refine ⟨items_ulong.2, by decide +kernel, ?_⟩
  rintro ⟨declaration, rest, after, hread⟩
  have hfails : Ends (Declaration.read (unsignedLong.statement [ulong] [])) (Scope.ofSettings {})
      (fun _ _ => False) (fun _ => True) := by
    decide +kernel
  exact hfails.of_ok hread

end QualifierType

end CommonDecl
