import CommonDecl.Proofs.Locality
import CommonDecl.Proofs.TypeHeads

/-!
# Lists of declarators distribute

A statement that declares several names reads each of them as if it stood alone after the type or
the attributes, and their initialisers are left out (`lists_distribute`).  In C the first declarator
is read with its type and the further ones with that of the first one; from the name on both are
read by the same steps, none of which looks at the separator (`Declarator.read_append`).  In Fortran
all of them have the attributes that were read once.
-/

namespace CommonDecl

open Level

variable {scope : Scope}

/-! ### Separators -/

/-- The item ends a declarator of a list, or the whole list. -/
def Item.isSeparator (item : Item) : Bool :=
  [",", ";"].any item.isToken

/-- What may stand between a declarator and its separator: nothing, or `=` with a value. -/
structure Initialiser where
  level : Level
  starts : level = [] ∨ level.isToken "=" = true
  noSeparator : ∀ item ∈ level, item.isSeparator = false

/-- No initialiser. -/
def Initialiser.none : Initialiser where
  level := []
  starts := Or.inl rfl
  noSeparator := by simp

/-- A group is no separator. -/
theorem Item.isSeparator_of_group {item : Item} {bracket : Bracket}
    (h : item.isGroup bracket = true) :
    item.isSeparator = false := by
  have hbracket : item.bracket? = some bracket := eq_of_beq h
  simp [Item.isSeparator, isToken_eq_false_of_bracket? hbracket]

theorem noBracket_of_isToken {level : Level} {text : String} (h : level.isToken text = true) :
    level.NoBracket := by
  cases level with
  | nil => simp [NoBracket]
  | cons item rest =>
    rintro _ ⟨⟩
    have hitem : (item.bracket?.isNone && item.value == text) = true := h
    exact Option.isNone_iff_eq_none.mp (Bool.and_eq_true_iff.mp hitem).1

/-- A separator is no bracket. -/
theorem Item.bracket?_of_isSeparator {item : Item} (h : item.isSeparator = true) :
    item.bracket? = none := by
  cases hbracket : item.bracket? with
  | none => rfl
  | some bracket => simp [Item.isSeparator, isToken_eq_false_of_bracket? hbracket] at h

namespace Level

/-- Parts of a list, each after a comma. -/
def afterCommas (comma : Item) (parts : List Level) : Level :=
  parts.flatMap fun part => comma :: part

/-- A statement does not end in a comma. -/
theorem isToken_comma_of_atStatementEnd {stop : Level} (hstop : stop.atStatementEnd = true) :
    stop.isToken "," = false := by
  rcases atStatementEnd_iff.mp hstop with rfl | hsemicolon
  · rfl
  · exact isToken_eq_false_of_isToken hsemicolon (by decide)

/-- What ends a statement is a separator. -/
theorem head_separator_of_atStatementEnd {stop : Level} (hstop : stop.atStatementEnd = true) :
    ∀ item ∈ stop.head?, item.isSeparator = true := by
  intro item hitem
  rcases atStatementEnd_iff.mp hstop with rfl | hsemicolon
  · cases hitem
  · rw [isToken, Option.mem_def.mp hitem, Option.any_some] at hsemicolon
    simp [Item.isSeparator, hsemicolon]

theorem noBracket_of_separator {rest : Level} (h : ∀ item ∈ rest.head?, item.isSeparator = true) :
    rest.NoBracket :=
  fun item hitem => Item.bracket?_of_isSeparator (h item hitem)

theorem head_comma {comma : Item} (hcomma : comma.isToken "," = true) (level : Level) :
    ∀ item ∈ (comma :: level : Level).head?, item.isSeparator = true := by
  rintro item ⟨⟩
  simp [Item.isSeparator, hcomma]

/-- Behind a part of a list stands a comma, or the list ends. -/
theorem head_afterCommas {comma : Item} (hcomma : comma.isToken "," = true)
    (parts : List Level) {stop : Level} (hstop : stop.atStatementEnd = true) :
    ∀ item ∈ (afterCommas comma parts ++ stop).head?, item.isSeparator = true := by
  cases parts with
  | nil => exact head_separator_of_atStatementEnd hstop
  | cons part parts => exact head_comma hcomma _

/-- What stands in front of a separator is left out. -/
theorem skipToAny_append {gap rest : Level} (hgap : ∀ item ∈ gap, item.isSeparator = false)
    (hrest : ∀ item ∈ rest.head?, item.isSeparator = true) :
    (gap ++ rest).skipToAny [",", ";"] = rest :=
  dropWhile_append_eq (fun item hitem => by rw [← Item.isSeparator, hgap item hitem]; rfl)
    fun item hitem => by rw [← Item.isSeparator, hrest item hitem]; rfl

/-- Behind the gap and its comma the next declarator starts. -/
theorem afterDeclarator_append_comma {gap : Level} (hgap : ∀ item ∈ gap, item.isSeparator = false)
    {comma : Item} (hcomma : comma.isToken "," = true) (level : Level) :
    (gap ++ comma :: level).afterDeclarator = level := by
  rw [afterDeclarator, skipToAny_append hgap (head_comma hcomma level)]
  exact if_pos hcomma

/-- After a part of a list comes the next one, or the end of the list. -/
theorem afterDeclarator_append {gap : Level}
    (hgap : ∀ item ∈ gap, item.isSeparator = false) {comma : Item}
    (hcomma : comma.isToken "," = true) (parts : List Level) {stop : Level}
    (hstop : stop.atStatementEnd = true) :
    (gap ++ (afterCommas comma parts ++ stop)).afterDeclarator =
    [comma].intercalate parts ++ stop := by
  cases parts with
  | nil =>
    show (gap ++ stop).afterDeclarator = stop
    rw [afterDeclarator, skipToAny_append hgap (head_separator_of_atStatementEnd hstop)]
    exact if_neg (by simp [isToken_comma_of_atStatementEnd hstop])
  | cons part parts =>
    rw [intercalate_cons_eq_flatMap]
    exact afterDeclarator_append_comma hgap hcomma _

end Level

namespace Initialiser

variable (initialiser : Initialiser)

/-- An initialiser starts with its `=`. -/
theorem noBracket : initialiser.level.NoBracket := by
  rcases initialiser.starts with hnil | hequals
  · simp [hnil, NoBracket]
  · exact noBracket_of_isToken hequals

/-- An initialiser in front of a separator ends a declarator as the separator does. -/
theorem noBracket_append {rest : Level} (hrest : ∀ item ∈ rest.head?, item.isSeparator = true) :
    (initialiser.level ++ rest).NoBracket :=
  forall_head_append initialiser.noBracket (noBracket_of_separator hrest)

theorem gap_append {gap : Level} (hgap : ∀ item ∈ gap, item.isSeparator = false) :
    ∀ item ∈ gap ++ initialiser.level, item.isSeparator = false :=
  List.forall_mem_append.mpr ⟨hgap, initialiser.noSeparator⟩

theorem noBrace_append {gap : Level} (hbody : gap.NoGroup .brace) :
    (gap ++ initialiser.level).NoGroup .brace :=
  forall_head_append hbody (initialiser.noBracket.noGroup .brace)

end Initialiser

/-! ### Statements of C -/

/-- The qualifiers of a type end at its word. -/
theorem Level.leftQualifiers_word {qualifiers : Level}
    (hleft : ∀ item ∈ qualifiers, isLeftQualifier item = true) (word : String) {roles : Roles}
    (hqualifier : roles.isQualifier = false) (rest : Level) :
    leftQualifiers (qualifiers ++ .token word roles :: rest) = ⟨qualifiers.map Item.value⟩ ∧
      afterLeftQualifiers (qualifiers ++ .token word roles :: rest) =
        .token word roles :: rest := by
  have hword : ∀ item ∈ (.token word roles :: rest : Level).head?,
      isLeftQualifier item = false := by
    rintro item ⟨⟩
    rw [isLeftQualifier, Item.roles, hqualifier]
    rfl
  rw [leftQualifiers, afterLeftQualifiers, takeWhile_append_eq hleft hword,
    dropWhile_append_eq hleft hword]
  exact ⟨rfl, rfl⟩

/-- What a statement that declares variables starts with: qualifiers and the name of a type. -/
structure TypeHead (scope : Scope) where
  qualifiers : Level
  base : String
  roles : Roles
  qualifiers_isLeft : ∀ item ∈ qualifiers, isLeftQualifier item = true
  not_typedef : ∀ item ∈ qualifiers, item.value ≠ "typedef"
  base_not_isQualifier : roles.isQualifier = false
  base_known : scope.knows base = true

namespace TypeHead

/-- The items of the qualifiers and the type. -/
def level (head : TypeHead scope) : Level :=
  head.qualifiers ++ [.token head.base head.roles]

end TypeHead

/-- A declarator that is written without its type. -/
structure BareDeclarator where
  /-- The qualifiers in front of the name, pointers among them. -/
  right : Level
  /-- The name, or a nest around it. -/
  head : Item
  /-- Dimensions and argument lists. -/
  after : Level
  right_isQualifier : ∀ item ∈ right, item.roles.isQualifier = true ∧ item.bracket? = none
  head_not_isQualifier : head.roles.isQualifier = false
  head_isNameOrNest : (head.bracket? = none ∧ Declarator.atName [head] = true) ∨
    ∃ contents, groupContents? [head] .parenthesis = some contents ∧ contents.isToken "*" = true
  head_not_separator : head.isSeparator = false
  after_isGroup : ∀ item ∈ after, item.isGroup .square = true ∨ item.isGroup .parenthesis = true

namespace BareDeclarator

/-- A pointer is a qualifier. -/
theorem star_isQualifier :
    ∀ item ∈ [Item.token "*" { isQualifier := true }], item.roles.isQualifier = true ∧
      item.bracket? = none := by
  decide

/-- Nothing has to stand after a name. -/
theorem nil_isGroup : ∀ item ∈ ([] : Level), item.isGroup .square = true ∨
    item.isGroup .parenthesis = true :=
  List.forall_mem_nil _

variable (bare : BareDeclarator)

/-- The items from the name on. -/
def core : Level :=
  bare.head :: bare.after

/-- The items of the declarator. -/
def level : Level :=
  bare.right ++ bare.core

theorem level_ne_nil : bare.level ≠ [] :=
  List.append_ne_nil_of_right_ne_nil _ (List.cons_ne_nil _ _)

/-- No separator stands inside a declarator. -/
theorem core_noSeparator : ∀ item ∈ bare.core, item.isSeparator = false := by
  refine List.forall_mem_cons.mpr ⟨bare.head_not_separator, fun item hitem => ?_⟩
  rcases bare.after_isGroup item hitem with hsquare | hlist
  · exact Item.isSeparator_of_group hsquare
  · exact Item.isSeparator_of_group hlist

/-- No body stands inside a declarator. -/
theorem core_noBrace : ∀ item ∈ bare.core, item.isGroup .brace = false := by
  have hother {item : Item} {bracket : Bracket} (h : item.isGroup bracket = true)
    (hne : bracket ≠ .brace) :
      item.isGroup .brace = false := by
    have hbracket : item.bracket? = some bracket := eq_of_beq h
    rw [Item.isGroup, hbracket]
    simpa using hne
  -- The head is a name or a nest, and what is behind it are dimensions and argument lists.
  refine List.forall_mem_cons.mpr ⟨?_, fun item hitem => ?_⟩
  · rcases bare.head_isNameOrNest with ⟨hword, -⟩ | ⟨contents, hcontents, -⟩
    · rw [Item.isGroup, hword]
      rfl
    · exact hother (isGroup_of_groupContents? hcontents) (by decide)
  · rcases bare.after_isGroup item hitem with hsquare | hlist
    · exact hother hsquare (by decide)
    · exact hother hlist (by decide)

/-- The qualifiers end before the name. -/
theorem noQualifier_core (stop : Level) : NoQualifier (bare.core ++ stop) := by
  rintro item ⟨⟩
  exact bare.head_not_isQualifier

/-- Behind its qualifiers stands the name of the declarator. -/
theorem afterQualifiers_level (stop : Level) :
    (bare.level ++ stop).afterQualifiers = bare.core ++ stop := by
  rw [level, List.append_assoc]
  exact dropWhile_append_eq (fun item hitem => (bare.right_isQualifier item hitem).1)
    (bare.noQualifier_core stop)

theorem qualifiers_level (stop : Level) :
    (bare.level ++ stop).qualifiers = ⟨bare.right.map Item.value⟩ := by
  rw [level, List.append_assoc, qualifiers,
    takeWhile_append_eq (fun item hitem => (bare.right_isQualifier item hitem).1)
      (bare.noQualifier_core stop)]

/-- No body follows a declarator directly. -/
theorem level_noBrace (stop : Level) : (bare.level ++ stop).NoGroup .brace := by
  rw [level, List.append_assoc]
  refine forall_head_append (fun item hitem => ?_) ?_
  · rw [Item.isGroup, (bare.right_isQualifier item (List.mem_of_mem_head? hitem)).2]
    rfl
  · rintro item ⟨⟩
    exact bare.core_noBrace _ List.mem_cons_self

/-- With the type of a template, a declarator is read with its own qualifiers, from its name on as
without them. -/
theorem read_template {bare : BareDeclarator} {core : Declarator} {rest stop : Level}
    (shared : Declarator)
    (hread : Declarator.read scope (some {}) {} (bare.core ++ stop) = .ok (core, rest)) :
    Declarator.read scope (some shared) {} (bare.level ++ stop) =
      .ok ({ core with
        left := shared.left
        right := ⟨bare.right.map Item.value⟩
        base := shared.base }, rest) := by
  have hafter : Declarator.afterTypePart scope (some shared) (bare.level ++ stop) =
      bare.core ++ stop :=
    bare.afterQualifiers_level stop
  rw [Declarator.read_eq_core, hafter, hread]
  unfold Declarator.readType
  dsimp only
  rw [bare.qualifiers_level]
  rfl

/-- After the word of a type, a declarator is read with its own qualifiers, from its name on as
without them. -/
theorem read_afterWord {bare : BareDeclarator} {qualifiers : Level} {word : String} {roles : Roles}
    {core : Declarator} {rest stop : Level}
    (hleft : ∀ item ∈ qualifiers, isLeftQualifier item = true)
    (hqualifier : roles.isQualifier = false) (hknown : scope.knows word = true)
    (hread : Declarator.read scope (some {}) {} (bare.core ++ stop) = .ok (core, rest)) :
    Declarator.read scope none {} (qualifiers ++ .token word roles :: (bare.level ++ stop)) =
      .ok ({ core with
        left := ⟨qualifiers.map Item.value⟩
        right := ⟨bare.right.map Item.value⟩
        base := scope.lookup word }, rest) := by
  -- The type is the word, so the declarator starts behind it.
  obtain ⟨hvalues, hafter⟩ := leftQualifiers_word hleft word hqualifier (bare.level ++ stop)
  have htype : Declarator.typeAt? scope (.token word roles :: (bare.level ++ stop)) =
    scope.lookup word := rfl
  have hfound : (scope.lookup word).isSome = true := hknown
  have hnext : Declarator.afterType scope (.token word roles :: (bare.level ++ stop)) =
      bare.level ++ stop := by
    rw [Declarator.afterType, htype, if_pos hfound]
    rfl
  have hlevel := Declarator.read_of_core _ _ hvalues
    (by rw [hafter, hnext, bare.qualifiers_level])
      (by rw [hafter, hnext, bare.afterQualifiers_level]) hread
  rwa [hafter, htype] at hlevel

/-- From its name on, the declarator is read as `core` whatever stands after it, and nothing that is
left of it separates it from that. -/
def ReadsAs (scope : Scope) (core : Declarator) : Prop :=
  ∃ left : Level, (∀ stop : Level, stop.NoBracket →
      Declarator.read scope (some {}) {} (bare.core ++ stop) = .ok (core, left ++ stop)) ∧
    (∀ item ∈ left, item.isSeparator = false) ∧ left.NoGroup .brace

/-- Each declarator is read in some way, which does not depend on what follows. -/
theorem exists_readsAs (scope : Scope) : ∃ core, bare.ReadsAs scope core := by
  obtain ⟨⟨core, left⟩, hread⟩ := Declarator.exists_read scope (some {}) {} bare.core
  have hcore : bare.core.afterQualifiers ≠ [] := by
    have hafter := Level.afterQualifiers_of_noQualifier (bare.noQualifier_core [])
    rw [List.append_nil] at hafter
    rw [hafter]
    exact List.cons_ne_nil _ _
  have hleft := (Declarator.read_rest hread).subset
  exact ⟨core, left, fun stop hstop => Declarator.read_append hcore hstop hread,
    fun item hitem => bare.core_noSeparator item (hleft hitem),
    fun item hitem => bare.core_noBrace item (hleft (List.mem_of_mem_head? hitem))⟩

end BareDeclarator

namespace TypeHead

variable (head : TypeHead scope)

/-- The declarator with the type of the statement. -/
def declarator (bare : BareDeclarator) (core : Declarator) : Declarator :=
  { core with
    left := ⟨head.qualifiers.map Item.value⟩
    right := ⟨bare.right.map Item.value⟩
    base := scope.lookup head.base }

/-- The statement starts with its qualifiers, and then the type follows. -/
theorem leftQualifiers_level (rest : Level) :
    (head.level ++ rest).leftQualifiers = ⟨head.qualifiers.map Item.value⟩ ∧
      (head.level ++ rest).afterLeftQualifiers = .token head.base head.roles :: rest := by
  rw [level, List.append_assoc, List.singleton_append]
  exact Level.leftQualifiers_word head.qualifiers_isLeft head.base head.base_not_isQualifier rest

variable {bare : BareDeclarator} {core : Declarator} {left stop : Level}

/-- After the type, a declarator is read with its qualifiers, from its name on as without them. -/
theorem read_first
    (hread : Declarator.read scope (some {}) {} (bare.core ++ stop) = .ok (core, left ++ stop)) :
    Declarator.read scope none {} (head.level ++ (bare.level ++ stop)) =
      .ok (head.declarator bare core, left ++ stop) := by
  rw [level, List.append_assoc, List.singleton_append]
  exact BareDeclarator.read_afterWord head.qualifiers_isLeft head.base_not_isQualifier
    head.base_known hread

/-- The same is read of it with the type of another declarator of the statement. -/
theorem read_further {first : Declarator} (hleft : first.left = ⟨head.qualifiers.map Item.value⟩)
    (hbase : first.base = scope.lookup head.base)
    (hread : Declarator.read scope (some {}) {} (bare.core ++ stop) = .ok (core, left ++ stop)) :
    Declarator.read scope (some first) {} (bare.level ++ stop) =
      .ok (head.declarator bare core, left ++ stop) := by
  rw [BareDeclarator.read_template first hread, hleft, hbase]
  rfl

/-- The declarator is what the statement declares under this name. -/
def Declares (bare : BareDeclarator) (declarator : Declarator) : Prop :=
  ∃ core, bare.ReadsAs scope core ∧ declarator = head.declarator bare core

end TypeHead

/-- The items of a declarator and of what stands between it and its separator. -/
def BareDeclarator.withInitialiser (entry : BareDeclarator × Initialiser) : Level :=
  entry.1.level ++ entry.2.level

open BareDeclarator (withInitialiser)

/-! ### Lists of C -/

namespace Declaration

variable {first last : Declarator} {gap stop : Level}
  (hgap : ∀ item ∈ gap, item.isSeparator = false) (hbody : gap.NoGroup .brace)
include hgap hbody

/-- After the last declarator the list ends, behind what was left of the declarator. -/
theorem readFurther_stop (hstop : stop.atStatementEnd = true) :
    readFurther scope first last (gap ++ stop) = .ok ([], stop) := by
  have hseparator := head_separator_of_atStatementEnd hstop
  have hskip := skipToAny_append hgap hseparator
  have hnoBody := forall_head_append hbody ((noBracket_of_separator hseparator).noGroup .brace)
  rw [readFurther, if_neg (by simp [isGroup_of_noGroup hnoBody]), hskip,
    if_neg (by simp [isToken_comma_of_atStatementEnd hstop])]
  rfl

/-- After a comma the next declarator is read, with the type of the first one. -/
theorem readFurther_comma {comma : Item} (hcomma : comma.isToken "," = true) {level rest : Level}
    {declarator : Declarator}
    (hread : Declarator.read scope (some first) {} level = .ok (declarator, rest)) :
    readFurther scope first last (gap ++ comma :: level) = do
      let (declarators, rest) ← readFurther scope first declarator rest
      return (declarator :: declarators, rest) := by
  have hseparator := head_comma hcomma level
  have hat : Level.isToken (comma :: level) "," = true := hcomma
  have hskip := skipToAny_append hgap hseparator
  have hnoBody := forall_head_append hbody ((noBracket_of_separator hseparator).noGroup .brace)
  have hafter := afterDeclarator_append_comma hgap hcomma level
  have hlength : rest.length < (gap ++ comma :: level).length := by
    have := (Declarator.read_rest hread).length_le
    rw [List.length_append, List.length_cons]
    omega
  rw [readFurther, if_neg (by simp [isGroup_of_noGroup hnoBody]), hskip, if_pos hat, hafter, hread]
  dsimp only [bind, Except.bind]
  rw [if_pos hlength]

end Declaration

namespace TypeHead

variable (head : TypeHead scope) {comma : Item} (hcomma : comma.isToken "," = true) {stop : Level}
  (hstop : stop.atStatementEnd = true) {entries : List (BareDeclarator × Initialiser)}
  {declarators : List Declarator}
include hcomma hstop

/-- The further declarators of a statement are read up to its end. -/
theorem readFurther_entries (first : Declarator)
    (hleft : first.left = ⟨head.qualifiers.map Item.value⟩)
    (hbase : first.base = scope.lookup head.base)
    (h : List.Forall₂ (fun entry declarator => head.Declares entry.1 declarator)
    entries declarators)
    {gap : Level} (hgap : ∀ item ∈ gap, item.isSeparator = false) (hbody : gap.NoGroup .brace)
    (last : Declarator) :
    Declaration.readFurther scope first last
        (gap ++ (afterCommas comma (entries.map withInitialiser) ++ stop)) =
      .ok (declarators, stop) := by
  -- Entry by entry; what is left of one is the gap in front of the next comma.
  induction h generalizing gap last with
  | nil => exact Declaration.readFurther_stop hgap hbody hstop
  | @cons entry declarator entries declarators hentry _ ih =>
    obtain ⟨bare, initialiser⟩ := entry
    obtain ⟨core, hreads, rfl⟩ := hentry
    obtain ⟨left, hread, hleftGap, hleftBody⟩ := hreads
    have hrest := head_afterCommas hcomma (entries.map withInitialiser) hstop
    have hfirst := head.read_further hleft hbase (hread _ (initialiser.noBracket_append hrest))
    have hothers := ih (initialiser.gap_append hleftGap) (initialiser.noBrace_append hleftBody)
      (head.declarator bare core)
    -- The level as `readFurther` meets it: a comma, the entry and its initialiser.
    have hlevel : afterCommas comma (((bare, initialiser) :: entries).map withInitialiser) ++ stop =
        comma :: (bare.level ++
          (initialiser.level ++ (afterCommas comma (entries.map withInitialiser) ++ stop))) := by
      simp [afterCommas, withInitialiser]
    rw [List.append_assoc] at hothers
    rw [hlevel, Declaration.readFurther_comma hgap hbody hcomma hfirst, hothers]
    rfl

/-- A statement is read up to its end, and declares what each of its entries declares. -/
theorem read_entries (hne : entries ≠ [])
    (h : List.Forall₂ (fun entry declarator => head.Declares entry.1 declarator)
      entries declarators) :
    Declaration.read (head.level ++ ([comma].intercalate (entries.map withInitialiser) ++ stop))
      scope =
      .ok (.names declarators, stop.afterSemicolon) scope := by
  cases h with
  | nil => exact absurd rfl hne
  | @cons entry declarator entries declarators hentry hentries =>
    obtain ⟨bare, initialiser⟩ := entry
    obtain ⟨core, ⟨left, hread, hleftGap, hleftBody⟩, rfl⟩ := hentry
    have hrest := head_afterCommas hcomma (entries.map withInitialiser) hstop
    -- The first entry stands behind the type, and the others are further ones.
    have hlevel :
        [comma].intercalate (((bare, initialiser) :: entries).map withInitialiser) ++ stop =
        bare.level ++
            (initialiser.level ++ (afterCommas comma (entries.map withInitialiser) ++ stop)) := by
      rw [List.map_cons, intercalate_cons_eq_flatMap]
      simp [afterCommas, withInitialiser]
    obtain ⟨hqualifiers, hafter⟩ := head.leftQualifiers_level
      (bare.level ++
        (initialiser.level ++ (afterCommas comma (entries.map withInitialiser) ++ stop)))
    have htypedef : "typedef" ∉ head.qualifiers.map Item.value := by
      rintro hmem
      obtain ⟨item, hitem, hvalue⟩ := List.mem_map.mp hmem
      exact head.not_typedef item hitem hvalue
    -- The type is known and no body follows, so the statement declares variables.
    have hvariables := TypeDecl.isDeclaredAt_of_known hqualifiers htypedef hafter head.base_known
      (bare.level_noBrace _)
    have hfirst := head.read_first (hread _ (initialiser.noBracket_append hrest))
    have hfurther :=
      head.readFurther_entries hcomma hstop (head.declarator bare core) rfl rfl hentries
      (initialiser.gap_append hleftGap) (initialiser.noBrace_append hleftBody)
        (head.declarator bare core)
    rw [List.append_assoc] at hfurther
    rw [hlevel]
    refine Declaration.read_of_variables hvariables ?_
    rw [Declaration.readVariables, hfirst]
    dsimp only [bind, Except.bind]
    rw [hfurther]
    rfl

end TypeHead

/-! ### Statements of Fortran -/

/-- A list of attributes that is read up to its `::`. -/
structure AttributeList (scope : Scope) where
  attributes : Level
  colons : Item
  /-- What the attributes say of every entity. -/
  shared : Declarator
  isColons : colons.isToken "::" = true
  reads : Fortran.readAttributes scope (attributes ++ [colons]) {} = .ok [] shared

/-- The items of the attributes and the `::`. -/
def AttributeList.level (list : AttributeList scope) : Level :=
  list.attributes ++ [list.colons]

/-- A name, or a name with dimensions. -/
structure Entity where
  name : Item
  dimensions : Option Item
  name_isIdentifier : name.roles.isIdentifier = true
  name_not_separator : name.isSeparator = false
  name_not_heading : name.isTokenAnyCase "SUBROUTINE" = false ∧
    name.isTokenAnyCase "FUNCTION" = false
  dimensions_isGroup : ∀ item ∈ dimensions, item.isGroup .parenthesis = true

namespace Entity

/-- The items of the entity. -/
def level (entity : Entity) : Level :=
  entity.name :: entity.dimensions.toList

/-- The items of an entity and of what stands between it and its separator. -/
def withInitialiser (entry : Entity × Initialiser) : Level :=
  entry.1.level ++ entry.2.level

variable (entity : Entity)

/-- The entity with attributes that are given before. -/
def declarator (scope : Scope) (shared : Declarator) : Declarator :=
  (Fortran.readEntity scope (Fortran.withAttributesOf shared {}) entity.level).1

/-- An entity has a name. -/
theorem level_ne_nil : entity.level ≠ [] :=
  List.cons_ne_nil _ _

/-- After the name of a variable, only its dimensions are read. -/
theorem readEntity_name (scope : Scope) (shared : Declarator) (rest : Level) :
    Fortran.readEntity scope (Fortran.withAttributesOf shared {}) (entity.name :: rest) =
      Fortran.readDimensions
        { Fortran.withAttributesOf shared {} with name := some entity.name.value } rest := by
  -- The name is none of the words that start a procedure.
  have hheading :
      Fortran.readHeading scope (Fortran.withAttributesOf shared {}) (entity.name :: rest) =
      (Fortran.withAttributesOf shared {}, entity.name :: rest) := by
    obtain ⟨hsubroutine, hfunction⟩ := entity.name_not_heading
    rw [Fortran.readHeading, isTokenAnyCase, isTokenAnyCase, List.head?_cons, Option.any_some,
      Option.any_some, if_neg (by simp [hsubroutine]), if_neg (by simp [hfunction])]
  have hname : Level.isIdentifier (entity.name :: rest) = true := entity.name_isIdentifier
  -- A list after the name of a function would be taken for its arguments.
  have harguments : ∀ declarator : Declarator, declarator.kind.isFunction = false →
      Fortran.readArguments declarator rest = (declarator, rest) := by
    intro declarator hkind
    unfold Fortran.readArguments
    split
    · rw [hkind]
      rfl
    · rfl
  rw [Fortran.readEntity, hheading]
  dsimp only
  rw [Fortran.readName, if_pos hname]
  dsimp only
  rw [show Level.next (entity.name :: rest) = rest from rfl, harguments _ rfl]
  rfl

/-- An entity is read to its end, without a look at what stands after it. -/
theorem readEntity_append (scope : Scope) (shared : Declarator) {stop : Level}
    (hstop : stop.NoBracket) :
    Fortran.readEntity scope (Fortran.withAttributesOf shared {}) (entity.level ++ stop) =
      (entity.declarator scope shared, stop) := by
  have hdimensions (declarator : Declarator) :
      Fortran.readDimensions declarator (entity.dimensions.toList ++ stop) =
        ((Fortran.readDimensions declarator entity.dimensions.toList).1, stop) := by
    unfold Fortran.readDimensions
    rw [Level.groupContents?_append hstop]
    -- With dimensions or without, nothing of the entity is left.
    cases hdimensions : entity.dimensions with
    | none => rfl
    | some item =>
      have hgroup : Level.isGroup [item] .parenthesis = true :=
        entity.dimensions_isGroup item hdimensions
      obtain ⟨list, hlist⟩ := exists_groupContents? hgroup
      rw [Option.toList_some, hlist]
      rfl
  rw [level, List.cons_append, readEntity_name, hdimensions, declarator, level, readEntity_name]

end Entity

section

variable {comma : Item} (hcomma : comma.isToken "," = true) {stop : Level}
  (hstop : stop.atStatementEnd = true)
include hcomma hstop

/-- The entities of a statement are read up to its end. -/
theorem readSeparated_entities (scope : Scope) (shared : Declarator)
    (entries : List (Entity × Initialiser)) :
    readSeparated (fun level =>
      .ok (Fortran.readEntity scope (Fortran.withAttributesOf shared {}) level))
        ([comma].intercalate (entries.map Entity.withInitialiser) ++ stop) =
      .ok (entries.map fun entry => entry.1.declarator scope shared, stop) := by
  -- Entry by entry, each of them up to its separator.
  induction entries with
  | nil =>
    show readSeparated _ stop = _
    rw [readSeparated, if_pos hstop]
    rfl
  | cons entry entries ih =>
    obtain ⟨entity, initialiser⟩ := entry
    have hrest := head_afterCommas hcomma (entries.map Entity.withInitialiser) hstop
    have hlevel :
        [comma].intercalate (((entity, initialiser) :: entries).map Entity.withInitialiser) ++
        stop =
        entity.level ++
          (initialiser.level ++
              (afterCommas comma (entries.map Entity.withInitialiser) ++ stop)) := by
      rw [List.map_cons, intercalate_cons_eq_flatMap]
      simp [afterCommas, Entity.withInitialiser]
    have hfirst := entity.readEntity_append scope shared (initialiser.noBracket_append hrest)
    have hafter := afterDeclarator_append initialiser.noSeparator hcomma
      (entries.map Entity.withInitialiser) hstop
    -- An entity starts with a name, which does not end the statement.
    have hend : ¬ Level.atStatementEnd (entity.level ++
        (initialiser.level ++ (afterCommas comma (entries.map Entity.withInitialiser) ++ stop))) =
            true := by
      have hname := entity.name_not_separator
      simp only [Item.isSeparator, List.any_cons, List.any_nil, Bool.or_false,
        Bool.or_eq_false_iff] at hname
      show ¬ (false || entity.name.isToken ";") = true
      simp [hname.2]
    have hlength := length_afterDeclarator_lt entity.level_ne_nil
      (initialiser.level ++ (afterCommas comma (entries.map Entity.withInitialiser) ++ stop))
    rw [hafter] at hlength
    rw [hlevel, readSeparated, if_neg hend, hfirst]
    dsimp only [bind, Except.bind]
    rw [hafter, if_pos hlength, ih]
    rfl

/-- A statement is read up to its end, and declares each of its entities with the attributes. -/
theorem AttributeList.readStatement_entries (list : AttributeList scope)
    (entries : List (Entity × Initialiser)) :
    Fortran.readStatement scope
        (list.level ++ ([comma].intercalate (entries.map Entity.withInitialiser) ++ stop)) =
      .ok (.names (entries.map fun entry => entry.1.declarator scope list.shared),
        stop.afterSemicolon) := by
  have hread := Fortran.readAttributes_append ⟨list.attributes, rfl⟩ list.isColons
    ([comma].intercalate (entries.map Entity.withInitialiser) ++ stop) list.reads
  rw [List.nil_append] at hread
  unfold Fortran.readStatement
  rw [AttributeList.level, hread]
  dsimp only
  rw [readSeparated_entities hcomma hstop]
  rfl

end

/-! ### Both dialects -/

/-- In both dialects a statement declares a list of names as if each of them stood alone after the
type or the attributes, whatever their initialisers are. -/
theorem lists_distribute (scope : Scope) {comma : Item} (hcomma : comma.isToken "," = true) :
    (∀ (head : TypeHead scope) (entries : List (BareDeclarator × Initialiser)), entries ≠ [] →
      ∃ declarators,
      (∀ stop : Level, stop.atStatementEnd = true →
        Declaration.read
            (head.level ++
              ([comma].intercalate (entries.map BareDeclarator.withInitialiser) ++ stop)) scope =
          .ok (.names declarators, stop.afterSemicolon) scope) ∧
      List.Forall₂ (fun entry declarator => ∀ stop : Level, stop.atStatementEnd = true →
        Declaration.read (head.level ++ (entry.1.level ++ stop)) scope =
          .ok (.names [declarator], stop.afterSemicolon) scope) entries declarators) ∧
    ∀ (list : AttributeList scope) (entries : List (Entity × Initialiser)), ∃ declarators,
      (∀ stop : Level, stop.atStatementEnd = true →
        Fortran.readStatement scope
            (list.level ++ ([comma].intercalate (entries.map Entity.withInitialiser) ++ stop)) =
          .ok (.names declarators, stop.afterSemicolon)) ∧
      List.Forall₂ (fun entry declarator => ∀ stop : Level, stop.atStatementEnd = true →
        Fortran.readStatement scope (list.level ++ (entry.1.level ++ stop)) =
          .ok (.names [declarator], stop.afterSemicolon)) entries declarators := by
  constructor
  · intro head entries hne
    -- What an entry declares depends on the type and on the entry alone.
    choose core hcore using fun bare : BareDeclarator => bare.exists_readsAs scope
    refine ⟨entries.map fun entry => head.declarator entry.1 (core entry.1), fun stop hstop => ?_,
      ?_⟩
    · refine head.read_entries hcomma hstop hne (List.forall₂_map_right_iff.mpr ?_)
      exact List.forall₂_same.mpr fun entry _ => ⟨_, hcore entry.1, rfl⟩
    · refine List.forall₂_map_right_iff.mpr (List.forall₂_same.mpr fun entry _ stop hstop => ?_)
      -- A statement of one entry is a list of one, without an initialiser.
      have halone :=
        head.read_entries hcomma hstop (List.cons_ne_nil (entry.1, Initialiser.none) [])
        (.cons ⟨_, hcore entry.1, rfl⟩ .nil)
      simpa [BareDeclarator.withInitialiser, Initialiser.none] using halone
  · intro list entries
    refine ⟨entries.map fun entry => entry.1.declarator scope list.shared,
      fun stop hstop => list.readStatement_entries hcomma hstop entries, ?_⟩
    refine List.forall₂_map_right_iff.mpr (List.forall₂_same.mpr fun entry _ stop hstop => ?_)
    have halone := list.readStatement_entries hcomma hstop [(entry.1, Initialiser.none)]
    simpa [Entity.withInitialiser, Initialiser.none] using halone

/-- The start of `const int *a = (1, 2), (*c)(char);`. -/
def constInt : TypeHead (Scope.ofSettings {}) where
  qualifiers := [.token "const" { isQualifier := true }]
  base := "int"
  roles := .typeName
  qualifiers_isLeft := by decide
  not_typedef := by decide
  base_not_isQualifier := rfl
  base_known := by decide

/-- The entries of `const int *a = (1, 2), (*c)(char);`. -/
def twoPointers : List (BareDeclarator × Initialiser) :=
  [({ right := [.token "*" { isQualifier := true }]
      head := .token "a" .unresolved
      after := []
      right_isQualifier := BareDeclarator.star_isQualifier
      head_not_isQualifier := rfl
      head_isNameOrNest := Or.inl (by decide)
      head_not_separator := by decide
      after_isGroup := BareDeclarator.nil_isGroup },
    { level := [.token "=" {}, .group "(" {} [.token "1" {}, .token "," {}, .token "2" {}]]
      starts := Or.inr rfl
      noSeparator := by decide }),
   ({ right := []
      head := .group "(" {} [.token "*" { isQualifier := true }, .token "c" .unresolved]
      after := [.group "(" {} [.token "char" .typeName]]
      right_isQualifier := by decide
      head_not_isQualifier := rfl
      head_isNameOrNest := Or.inr ⟨_, rfl, rfl⟩
      head_not_separator := by decide
      after_isGroup := by decide },
    .none)]

/-- The start of `REAL, DIMENSION(3) :: x, y(2) = 0`. -/
def realVector : AttributeList (Scope.ofSettings {}) where
  attributes := [.token "REAL" .typeName, .token "," {}, .token "DIMENSION" .unresolved,
    .group "(" {} [.token "3" {}]]
  colons := .token "::" {}
  shared := { base := some ⟨5, "float", false⟩, dimensions := ["3"] }
  isColons := rfl
  reads := by cbv

/-- The entries of `REAL, DIMENSION(3) :: x, y(2) = 0`. -/
def twoEntities : List (Entity × Initialiser) :=
  [({ name := .token "x" .unresolved
      dimensions := none
      name_isIdentifier := rfl
      name_not_separator := by decide
      name_not_heading := by decide +kernel
      dimensions_isGroup := by simp },
    .none),
   ({ name := .token "y" .unresolved
      dimensions := some (.group "(" {} [.token "2" {}])
      name_isIdentifier := rfl
      name_not_separator := by decide
      name_not_heading := by decide +kernel
      dimensions_isGroup := by decide },
    { level := [.token "=" {}, .token "0" {}]
      starts := Or.inr rfl
      noSeparator := by decide })]

/-- Two pointers and two entities with initialisers are declared as if each of them stood alone. -/
theorem lists_distribute_initialised :
    Item.isToken "," (.token "," {}) = true ∧ twoPointers ≠ [] ∧
      (fun trees => (Node.ofTrees trees).items) <$>
          TokenTree.ofSource .c (Scope.ofSettings {}) "const int *a = (1, 2), (*c)(char);" =
        .ok (constInt.level ++
          ([.token "," {}].intercalate (twoPointers.map BareDeclarator.withInitialiser) ++
            [.token ";" {}])) ∧
      (fun trees => (Node.ofTrees trees).items) <$>
          TokenTree.ofSource .fortran (Scope.ofSettings {}) "REAL, DIMENSION(3) :: x, y(2) = 0" =
        .ok (realVector.level ++
          ([.token "," {}].intercalate (twoEntities.map Entity.withInitialiser) ++ [])) ∧
      (∃ declarators, Declaration.read (constInt.level ++
          ([.token "," {}].intercalate (twoPointers.map BareDeclarator.withInitialiser) ++
            [.token ";" {}]))
            (Scope.ofSettings {}) = .ok (.names declarators, []) (Scope.ofSettings {}) ∧
        List.Forall₂ (fun entry declarator => Declaration.read
            (constInt.level ++ (entry.1.level ++ [.token ";" {}])) (Scope.ofSettings {}) =
          .ok (.names [declarator], []) (Scope.ofSettings {})) twoPointers declarators) ∧
      ∃ declarators, Fortran.readStatement (Scope.ofSettings {}) (realVector.level ++
          ([.token "," {}].intercalate (twoEntities.map Entity.withInitialiser) ++ [])) =
            .ok (.names declarators, []) ∧
        List.Forall₂ (fun entry declarator => Fortran.readStatement (Scope.ofSettings {})
            (realVector.level ++ (entry.1.level ++ [])) = .ok (.names [declarator], []))
          twoEntities declarators := by
  have hcomma : Item.isToken "," (.token "," {}) = true := rfl
  have hne : twoPointers ≠ [] := List.cons_ne_nil _ _
  refine ⟨hcomma, hne, by cbv, by cbv, ?_, ?_⟩
  · obtain ⟨declarators, hread, halone⟩ :=
      (lists_distribute (Scope.ofSettings {}) hcomma).1 constInt twoPointers hne
    exact ⟨declarators, hread _ rfl, halone.imp fun _ _ h => h _ rfl⟩
  · obtain ⟨declarators, hread, halone⟩ :=
      (lists_distribute (Scope.ofSettings {}) hcomma).2 realVector twoEntities
    exact ⟨declarators, hread _ rfl, halone.imp fun _ _ h => h _ rfl⟩

end CommonDecl
