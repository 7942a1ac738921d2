import CommonDecl.Proofs.AnyCase
import CommonDecl.Proofs.Intents
import CommonDecl.Proofs.Rounds

/-!
# The case of keywords

The keywords of Fortran are written in either case: two sources that are the same but for the case
of letters are read as the same declarations, in both shapes, unless a letter of another case stands
in a name, in the name of an argument or in a list of dimensions (`read_eqAnyCase`).  Where these
stand is said by following the readers on the first of the two sources: to its statements, its
DIMENSION attributes and its entities (`StatementAt`, `FrontOf`, `EntityAt`).
-/

namespace CommonDecl

namespace Fortran

open Level Declaration

variable {scope : Scope} {shared declarator : Declarator} {level level' rest : Level}

/-! ### Places -/

/-- The place of a level that has as much behind it as a place of another level. -/
structure Counterpart (level' place place' : Level) : Prop where
  suffix : place' <:+ level'
  length_eq : place'.length = place.length

/-- The start of a list of arguments, or what stands behind one of its commas. -/
inductive ArgumentAt : Level → Level → Prop where
  | here (list : Level) : ArgumentAt list list
  | behind {list argument : Level} (h : ArgumentAt (list.skipPast ",") argument) :
    ArgumentAt list argument

/-- Reading the entities that a level starts with comes to one of them. -/
inductive EntityAt (scope : Scope) (declarator : Declarator) : Level → Level → Prop where
  | here {entity : Level} (hend : entity.atStatementEnd = false) :
    EntityAt scope declarator entity entity
  | behind {level entity : Level} (hend : level.atStatementEnd = false)
    (h : EntityAt scope declarator (readEntity scope declarator level).2.afterDeclarator entity) :
    EntityAt scope declarator level entity

/-- Reading the statements of a level comes to one of them. -/
inductive StatementAt (scope : Scope) : Level → Level → Prop where
  | here {level : Level} (hend : (afterEmptyStatements level).atEnd = false) :
    StatementAt scope level (afterEmptyStatements level)
  | behind {level rest statement : Level} {declaration : Declaration}
    (hend : (afterEmptyStatements level).atEnd = false)
    (hread : readStatement scope (afterEmptyStatements level) = .ok (declaration, rest))
    (h : StatementAt scope rest statement) : StatementAt scope level statement

/-- On the way from an attribute to a place, the place is where the attribute is, or behind the
comma that follows it. -/
theorem FrontOf.eq_or_behind {place : Level} {front : List Attribute} {attr : Attribute}
    (h : FrontOf scope place front level) (hattr : attr.StartsAt scope level rest) :
    place = level ∨ rest.isToken "," = true ∧ ∃ front', FrontOf scope place front' rest.next := by
  cases h with
  | here => exact Or.inl rfl
  | @behind _ rest' _ front' hcolons hattr' hcomma hfront =>
    have hsame := (hattr.apply {}).symm.trans (hattr'.apply {})
    obtain rfl : rest = rest' := (Prod.mk.inj (Option.some.inj (EStateM.Result.ok.inj hsame).1)).2
    exact Or.inr ⟨hcomma, front', hfront⟩

theorem Counterpart.of_suffix {place place' : Level} (h : Counterpart rest place place')
    (hrest : rest <:+ level') :
    Counterpart level' place place' :=
  ⟨h.suffix.trans hrest, h.length_eq⟩

theorem Counterpart.of_eqAnyCase {place place' : Level} (h : place.EqAnyCase place')
    (hplace : place' <:+ level') :
    Counterpart level' place place' :=
  ⟨hplace, h.length_eq.symm⟩

theorem Counterpart.eq_drop {place place' : Level} (h : Counterpart level' place place') :
    place' = level'.drop (level'.length - place.length) := by
  rw [← h.length_eq]
  exact List.suffix_iff_eq_drop.mp h.suffix

/-! ### What is used as it is written -/

/-- What a declarator takes as it is written. -/
inductive Use where
  | name
  | arguments
  | dimensions

/-- The place where an entity may have its name, its arguments or its dimensions.  Without arguments
the last two are the same place. -/
def Use.placeIn (scope : Scope) (declarator : Declarator) (entity : Level) : Use → Level
  | name => (readHeading scope declarator entity).2
  | arguments =>
    let (declarator, level) := readHeading scope declarator entity
    (readName declarator level).2
  | dimensions =>
    let (declarator, level) := readHeading scope declarator entity
    let (declarator, level) := readName declarator level
    (readArguments declarator level).2

/-- What a place is used for is written alike at another place: a name, the names in a list of
arguments or a list of dimensions. -/
def Use.WrittenAlike : Use → Level → Level → Prop
  | name, place, place' => place.isIdentifier = true → place.head? = place'.head?
  | arguments, place, place' => ∀ list list', place.groupContents? .parenthesis = some list →
      place'.groupContents? .parenthesis = some list' → ∀ argument argument',
        ArgumentAt list argument → Counterpart list' argument argument' →
          argument.isIdentifier = true → argument.head? = argument'.head?
  | dimensions, place, place' => place.isGroup .parenthesis = true → place.head? = place'.head?

/-- A statement uses a place: for the list of a DIMENSION among its attributes, or for a part of one
of its entities. -/
inductive UsesPlace (scope : Scope) (statement : Level) : Use → Level → Prop where
  | inAttribute {front : List Attribute} {place : Level}
    (hplace : FrontOf scope place front statement)
    (hword : attributeWord? place = some "DIMENSION") :
      UsesPlace scope statement .dimensions place.next
  | inEntity {rest entity : Level} {shared : Declarator} (use : Use)
    (hattributes : readAttributes scope statement {} = .ok rest shared)
    (hentity : EntityAt scope (withAttributesOf shared {}) rest entity) :
    UsesPlace scope statement use (use.placeIn scope (withAttributesOf shared {}) entity)

/-- Every name, name of an argument and list of dimensions of a level is written in the same letters
in another level. -/
def WrittenAlike (scope : Scope) (level level' : Level) : Prop :=
  ∀ statement use place place', StatementAt scope level statement →
    UsesPlace scope statement use place →
    Counterpart level' place place' → use.WrittenAlike place place'

/-! ### Attributes -/

/-- Attributes do the same in either case, if each list of a DIMENSION among them is written alike.
-/
theorem applyAttributes_eqAnyCase (deferred : Bool) (h : level.EqAnyCase level')
    (hused : ∀ front place place', FrontOf scope place front level →
      attributeWord? place = some "DIMENSION" → Counterpart level' place.next place' →
        Use.dimensions.WrittenAlike place.next place')
    (declarator : Declarator) :
    EndAlike (fun result result' => result.1 = result'.1 ∧ EqAnyCase result.2 result'.2)
      (applyAttributes scope deferred level) (applyAttributes scope deferred level')
        declarator := by
  -- By induction along the entries of the list, whose keywords are known in either case.
  induction deferred, level using applyAttributes_induct generalizing level' declarator with
  | ends deferred level hend =>
    have hend' : level'.atEnd = true := by rwa [← h.atEnd_eq]
    rw [applyAttributes, if_pos hend, applyAttributes, if_pos hend']
    exact endAlike_pure ⟨rfl, h⟩
  | colons deferred level hend hcolons =>
    have hend' : ¬ level'.atEnd = true := by rwa [← h.atEnd_eq]
    have hcolons' : level'.isToken "::" = true := by rwa [← h.isToken_eq (by decide)]
    rw [applyAttributes, if_neg hend, if_pos hcolons, applyAttributes, if_neg hend',
      if_pos hcolons']
    exact endAlike_pure ⟨rfl, h.next⟩
  | entry deferred level hend hcolons ih =>
    have hend' : ¬ level'.atEnd = true := by rwa [← h.atEnd_eq]
    have hcolons' : ¬ level'.isToken "::" = true := by rwa [← h.isToken_eq (by decide)]
    rw [applyAttributes, if_neg hend, if_neg hcolons, applyAttributes, if_neg hend',
      if_neg hcolons']
    -- The entry in front is at its own place, where the list of a DIMENSION is written alike.
    have hdimension (hword : attributeWord? level = some "DIMENSION") :=
      hused [] level level'.next .here hword (.of_eqAnyCase h.next (next_suffix level'))
    refine (applyAttribute_eqAnyCase h hdimension scope declarator).bind ?_
    rintro result result' after hok hok' hresult
    cases hresult with
    | none => exact endAlike_pure ⟨rfl, h⟩
    | @some result result' hresult =>
      obtain ⟨deferredHere, rest⟩ := result
      obtain ⟨deferredHere', rest'⟩ := result'
      obtain ⟨rfl, hrest⟩ := hresult
      replace hrest : EqAnyCase rest rest' := hrest
      obtain ⟨attr, hattr⟩ := Attribute.exists_startsAt hok
      obtain ⟨attr', hattr'⟩ := Attribute.exists_startsAt hok'
      dsimp only
      rw [← hrest.isToken_eq (by decide), ← hrest.next.length_eq, ← h.length_eq]
      split
      · rename_i hcomma
        refine ih deferredHere rest hcomma hrest.next ?_ after
        intro front place place' hplace hword hplace'
        -- A place behind the comma is a place behind one more entry of the list.
        refine hused (attr :: front) place place'
          (.behind (Bool.eq_false_iff.mpr hcolons) hattr hcomma.1 hplace) hword ?_
        exact hplace'.of_suffix ((next_suffix rest').trans hattr'.suffix)
      · refine endAlike_pure ⟨rfl, ?_⟩
        rw [← hrest.isToken_eq (by decide)]
        split
        · exact hrest.next
        · exact hrest

/-- A statement shares the same declarator in either case, if each list of a DIMENSION is written
alike. -/
theorem readAttributes_eqAnyCase (h : level.EqAnyCase level')
    (hused : ∀ front place place', FrontOf scope place front level →
      attributeWord? place = some "DIMENSION" → Counterpart level' place.next place' →
        Use.dimensions.WrittenAlike place.next place')
    (declarator : Declarator) :
    EndAlike EqAnyCase (readAttributes scope level) (readAttributes scope level') declarator := by
  refine (applyAttributes_eqAnyCase false h hused declarator).bind ?_
  rintro ⟨deferred, rest⟩ ⟨_, rest'⟩ after - - ⟨rfl, hrest⟩
  dsimp only
  split
  · exact .modify (endAlike_pure hrest)
  · exact endAlike_pure hrest

/-! ### Entities -/

/-- The same is read from two levels, and what is left of them is the same but for the case of
letters. -/
def PartAlike (part part' : Declarator × Level) : Prop :=
  part.1 = part'.1 ∧ EqAnyCase part.2 part'.2

theorem PartAlike.exists_eq {part part' : Declarator × Level} (h : PartAlike part part') :
    ∃ declarator place place', part = (declarator, place) ∧ part' = (declarator, place') ∧
      EqAnyCase place place' := by
  obtain ⟨declarator, place⟩ := part
  obtain ⟨declarator', place'⟩ := part'
  obtain ⟨rfl, hplace⟩ := h
  exact ⟨declarator, place, place', rfl, rfl, hplace⟩

/-- No part of a heading shows in which case it is written. -/
theorem readHeading_eqAnyCase (h : level.EqAnyCase level') (scope : Scope)
    (declarator : Declarator) :
    PartAlike (readHeading scope declarator level) (readHeading scope declarator level') := by
  unfold readHeading
  rw [← h.isTokenAnyCase_eq, ← h.isTokenAnyCase_eq]
  split
  · exact ⟨rfl, h.next⟩
  · split
    · exact ⟨rfl, h.next⟩
    · exact ⟨rfl, h⟩

/-- The name is read alike where it is written alike. -/
theorem readName_eqAnyCase (h : level.EqAnyCase level') (hname : Use.name.WrittenAlike level level')
    (declarator : Declarator) :
    PartAlike (readName declarator level) (readName declarator level') := by
  unfold readName
  rw [← h.isIdentifier_eq]
  split
  · rename_i hidentifier
    rw [value?, value?, hname hidentifier]
    exact ⟨rfl, h.next⟩
  · exact ⟨rfl, h⟩

theorem argumentNames_of_ne_nil {list : Level} (hne : list ≠ []) : argumentNames list =
    (if list.isIdentifier then [{ name := list.value? }] else []) ++
      argumentNames (list.skipPast ",") := by
  rw [argumentNames, dif_neg hne]

/-- Arguments have the same names where these are written alike. -/
theorem argumentNames_eqAnyCase {list list' : Level} (h : list.EqAnyCase list')
    (hnames : ∀ argument argument', ArgumentAt list argument →
      Counterpart list' argument argument' → argument.isIdentifier = true →
        argument.head? = argument'.head?) :
    argumentNames list = argumentNames list' := by
  induction list using argumentNames_induct generalizing list' with
  | nil =>
    cases h
    rfl
  | argument list hne ih =>
    have hne' : list' ≠ [] := by
      rintro rfl
      cases h
      exact hne rfl
    -- No comma has another case, so both lists go on behind the same one.
    have hskip : (list.skipPast ",").EqAnyCase (list'.skipPast ",") := h.skipPast (by decide)
    have hrest : argumentNames (list.skipPast ",") = argumentNames (list'.skipPast ",") :=
      ih hskip fun argument argument' hargument hcounterpart =>
        hnames argument argument' (.behind hargument)
          (hcounterpart.of_suffix (skipPast_suffix list' ","))
    rw [argumentNames_of_ne_nil hne, argumentNames_of_ne_nil hne', hrest, ← h.isIdentifier_eq]
    split
    · rename_i hidentifier
      rw [value?, value?,
        hnames list list' (.here list) (.of_eqAnyCase h (List.suffix_refl list')) hidentifier]
    · rfl

/-- A list of arguments is read alike where the names in it are written alike. -/
theorem readArguments_eqAnyCase (h : level.EqAnyCase level')
    (hnames : Use.arguments.WrittenAlike level level') (declarator : Declarator) :
    PartAlike (readArguments declarator level) (readArguments declarator level') := by
  have hgroup := h.groupContents? .parenthesis
  have hnames (list list' : Level) := hnames list list'
  unfold readArguments
  generalize level.groupContents? .parenthesis = found at hgroup hnames ⊢
  generalize level'.groupContents? .parenthesis = found' at hgroup hnames ⊢
  cases hgroup with
  | none => exact ⟨rfl, h⟩
  | @some list list' hlist =>
    dsimp only
    split
    · rw [argumentNames_eqAnyCase hlist (hnames list list' rfl rfl)]
      exact ⟨rfl, h.next⟩
    · exact ⟨rfl, h⟩

/-- Dimensions are read alike where their list is written alike. -/
theorem readDimensions_eqAnyCase (h : level.EqAnyCase level')
    (hlist : Use.dimensions.WrittenAlike level level') (declarator : Declarator) :
    PartAlike (readDimensions declarator level) (readDimensions declarator level') := by
  unfold readDimensions
  rw [h.groupContents?_eq hlist]
  split
  · exact ⟨rfl, h.next⟩
  · exact ⟨rfl, h⟩

/-- An entity is the same in either case, if all that it uses is written alike. -/
theorem readEntity_eqAnyCase (h : level.EqAnyCase level')
    (hused : ∀ (use : Use) (place' : Level),
      Counterpart level' (use.placeIn scope declarator level) place' → use.WrittenAlike
      (use.placeIn scope declarator level) place') :
    PartAlike (readEntity scope declarator level) (readEntity scope declarator level') := by
  -- Each part is read into the same declarator, and the next one starts at places that are
  -- counterparts.
  obtain ⟨headed, start, start', hheading, hheading', hstart⟩ :=
    (readHeading_eqAnyCase h scope declarator).exists_eq
  have hsuffix := (readHeading_passes scope declarator (admits_true level')).suffix
  rw [hheading'] at hsuffix
  have hname := hused .name start'
  simp only [Use.placeIn, hheading] at hname
  obtain ⟨named, list, list', hnamed, hnamed', hlist⟩ :=
    (readName_eqAnyCase hstart (hname (.of_eqAnyCase hstart hsuffix)) headed).exists_eq
  replace hsuffix := (readName_passes headed (admits_true start')).suffix.trans hsuffix
  rw [hnamed'] at hsuffix
  have harguments := hused .arguments list'
  simp only [Use.placeIn, hheading, hnamed] at harguments
  obtain ⟨called, last, last', hcalled, hcalled', hlast⟩ :=
    (readArguments_eqAnyCase hlist (harguments (.of_eqAnyCase hlist hsuffix)) named).exists_eq
  replace hsuffix := (readArguments_passes named (admits_true list')).suffix.trans hsuffix
  rw [hcalled'] at hsuffix
  have hdimensions := hused .dimensions last'
  simp only [Use.placeIn, hheading, hnamed, hcalled] at hdimensions
  simp only [readEntity, hheading, hheading', hnamed, hnamed', hcalled, hcalled']
  exact readDimensions_eqAnyCase hlast (hdimensions (.of_eqAnyCase hlast hsuffix)) called

/-- Going on from an entity to the next one leaves less of a statement. -/
theorem length_afterDeclarator_readEntity_lt (hend : level.atStatementEnd = false) (scope : Scope)
    (declarator : Declarator) :
    (readEntity scope declarator level).2.afterDeclarator.length < level.length := by
  have hne : level ≠ [] :=
    fun hnil => Bool.eq_false_iff.mp hend (atStatementEnd_iff.mpr (Or.inl hnil))
  exact length_lt_of_suffix_next hne
    (afterDeclarator_progress (isToken_semicolon_of_atStatementEnd hend) (readEntity_rest rfl))

/-- The first entity of a statement, with those behind it. -/
theorem readSeparated_of_entities {others : List Declarator} (hend : level.atStatementEnd = false)
    (hothers : (readEntity scope declarator level).2.afterDeclarator.readSeparated
      (fun level => .ok (readEntity scope declarator level)) = .ok (others, rest)) :
    level.readSeparated (fun level => .ok (readEntity scope declarator level)) =
      .ok ((readEntity scope declarator level).1 :: others, rest) := by
  have hlt := length_afterDeclarator_readEntity_lt hend scope declarator
  rw [readSeparated, if_neg (Bool.eq_false_iff.mp hend)]
  generalize readEntity scope declarator level = entity at hothers hlt ⊢
  dsimp only [bind, Except.bind]
  rw [if_pos hlt, hothers]
  rfl

theorem readSeparated_eqAnyCase (h : level.EqAnyCase level')
    (hused : ∀ (entity : Level) (use : Use) (place' : Level),
      EntityAt scope declarator level entity → Counterpart level'
      (use.placeIn scope declarator entity) place' → use.WrittenAlike
      (use.placeIn scope declarator entity) place') :
    ∃ declarators rest rest', level.readSeparated
    (fun level => .ok (readEntity scope declarator level)) =
        .ok (declarators, rest) ∧
      level'.readSeparated (fun level => .ok (readEntity scope declarator level)) = .ok
      (declarators, rest') ∧ EqAnyCase rest rest' := by
  induction hlength : level.length using Nat.strong_induction_on generalizing level level' with
  | _ n ih =>
    subst hlength
    by_cases hend : level.atStatementEnd = true
    · have hend' : level'.atStatementEnd = true := by rwa [← h.atStatementEnd_eq]
      exact ⟨[], level, level', by rw [readSeparated, if_pos hend]; rfl,
        by rw [readSeparated, if_pos hend']; rfl, h⟩
    · rw [Bool.not_eq_true] at hend
      have hend' : level'.atStatementEnd = false := by rwa [← h.atStatementEnd_eq]
      obtain ⟨hentity, hrest⟩ := readEntity_eqAnyCase h fun use place' =>
        hused level use place' (.here hend)
      have hsuffix' : (readEntity scope declarator level').2.afterDeclarator <:+ level' :=
        (afterDeclarator_suffix _).trans
          (readEntity_passes scope declarator (admits_true level')).suffix
      obtain ⟨declarators, rest, rest', hread, hread', hlast⟩ :=
        ih _ (length_afterDeclarator_readEntity_lt hend scope declarator) hrest.afterDeclarator
          (fun entity use place' hat hplace' =>
            hused entity use place' (.behind hend hat) (hplace'.of_suffix hsuffix')) rfl
      refine ⟨(readEntity scope declarator level).1 :: declarators, rest, rest',
        readSeparated_of_entities hend hread, ?_, hlast⟩
      rw [hentity]
      exact readSeparated_of_entities hend' hread'

/-! ### Statements -/

/-- A statement is the same in either case, if all that it uses is written alike, or it has a fault
in either case. -/
theorem readStatement_eqAnyCase (h : level.EqAnyCase level')
    (hused : ∀ use place place', UsesPlace scope level use place → Counterpart level' place place' →
      use.WrittenAlike place place') :
    (∃ declaration rest rest', readStatement scope level = .ok (declaration, rest) ∧
      readStatement scope level' = .ok (declaration, rest') ∧ EqAnyCase rest rest') ∨
      ∃ fault fault', readStatement scope level = .error fault ∧ readStatement scope level' =
        .error fault' := by
  -- The attributes are read first, and the entities after them, at places of the same statement.
  have hattributes :
      EndAlike EqAnyCase (readAttributes scope level) (readAttributes scope level') {} :=
    readAttributes_eqAnyCase h (fun front place place' hplace hword =>
      hused .dimensions place.next place' (.inAttribute hplace hword)) {}
  unfold readStatement
  rcases hattributes with ⟨rest, rest', shared, hread, hread', hrest⟩ |
    ⟨fault, last, fault', last', hread, hread'⟩
  · have hsuffix' : rest' <:+ level' :=
      ((readAttributes_passes scope (admits_true level') {}).of_ok hread').suffix
    obtain ⟨declarators, last, last', hentities, hentities', hlast⟩ :=
      readSeparated_eqAnyCase hrest fun entity use place' hat hplace' =>
        hused use _ place' (.inEntity use hread hat) (hplace'.of_suffix hsuffix')
    rw [hread, hread']
    dsimp only
    rw [hentities, hentities']
    exact Or.inl ⟨_, _, _, rfl, rfl, hlast.afterSemicolon⟩
  · rw [hread, hread']
    exact Or.inr ⟨fault, fault', rfl, rfl⟩

/-- A statement behind the empty ones is the next declaration, in the scope as it was. -/
theorem next?_of_readStatement {declaration : Declaration} (hne : afterEmptyStatements level ≠ [])
    (h : readStatement scope (afterEmptyStatements level) = .ok (declaration, rest)) :
    next? .fortran level scope = .ok (some (declaration, rest)) scope :=
  next?_of_readIn .fortran hne (Reading.ofExcept_eq_ok_iff.mpr ⟨h, rfl⟩)

/-- A level ends at the first statement that is no declaration. -/
theorem readAll_of_error {fault : Fault} (hne : afterEmptyStatements level ≠ [])
    (h : readStatement scope (afterEmptyStatements level) = .error fault) :
    readAll .fortran scope level = ⟨[], some fault, scope⟩ := by
  have hend : ¬ (afterEmptyStatements level).atEnd = true :=
    fun hend => hne (List.isEmpty_iff.mp hend)
  have hread : readIn .fortran (afterEmptyStatements level) scope = .error fault scope := by
    show Reading.ofExcept (readStatement scope (afterEmptyStatements level)) scope = _
    rw [h]
    rfl
  have hnext : next? .fortran level scope = .error fault scope := by
    rw [next?, if_neg hend]
    exact bind_of_error hread
  rw [readAll, hnext]

/-- The declarations of two levels that are the same but for the case of letters are the same up to
their end or to a fault in both of them, if all that they use is written alike. -/
theorem readAll_eqAnyCase (h : level.EqAnyCase level') (hused : WrittenAlike scope level level') :
    (readAll .fortran scope level).declarations = (readAll .fortran scope level').declarations ∧
      (readAll .fortran scope level).fault?.isSome = (readAll .fortran scope level').fault?.isSome ∧
      (readAll .fortran scope level).scope = (readAll .fortran scope level').scope := by
  induction hlength : level.length using Nat.strong_induction_on generalizing level level' with
  | _ n ih =>
    subst hlength
    have hstart := h.afterEmptyStatements
    have hsuffix' := afterEmptyStatements_suffix level'
    -- Both levels have as many items behind their empty statements.
    have hempty_iff : afterEmptyStatements level = [] ↔ afterEmptyStatements level' = [] := by
      rw [← List.length_eq_zero_iff, hstart.length_eq, List.length_eq_zero_iff]
    by_cases hempty : afterEmptyStatements level = []
    · rw [readAll_of_atEnd hempty, readAll_of_atEnd (hempty_iff.mp hempty)]
      exact ⟨rfl, rfl, rfl⟩
    · have hempty' := mt hempty_iff.mpr hempty
      have hend : (afterEmptyStatements level).atEnd = false :=
        Bool.eq_false_iff.mpr fun hend => hempty (List.isEmpty_iff.mp hend)
      rcases readStatement_eqAnyCase hstart fun use place place' huses hplace' =>
          hused _ use place place' (.here hend) huses (hplace'.of_suffix hsuffix') with
        ⟨declaration, rest, rest', hread, hread', hrest⟩ | ⟨fault, fault', hread, hread'⟩
      · have hnext := next?_of_readStatement hempty hread
        have hnext' := next?_of_readStatement hempty' hread'
        have hshorter := (next?_shorter .fortran level scope).of_ok hnext declaration rest rfl
        have hrest' := (next?_rest .fortran level' scope).of_ok hnext' declaration rest' rfl
        -- The statements behind the first one are again statements of the whole level.
        obtain ⟨hdeclarations, hfault, hscope⟩ := ih rest.length hshorter hrest
          (fun statement use place place' hat huses hplace' =>
            hused statement use place place' (.behind hend hread hat) huses
              (hplace'.of_suffix hrest')) rfl
        rw [readAll_of_next? hnext, readAll_of_next? hnext']
        exact ⟨congrArg (List.cons declaration) hdeclarations, hfault, hscope⟩
      · rw [readAll_of_error hempty hread, readAll_of_error hempty' hread']
        exact ⟨rfl, rfl, rfl⟩

end Fortran

/-! ### Sources -/

/-- The two shapes of a source. -/
inductive Shape where
  | tree
  | list

theorem Declaration.Outcome.eq_iff {outcome : Outcome} {declarations : List Declaration}
    {scope : Scope} :
    outcome = ⟨declarations, none, scope⟩ ↔
      outcome.declarations = declarations ∧ outcome.fault?.isSome = false ∧
        outcome.scope = scope := by
  obtain ⟨found, fault?, last⟩ := outcome
  cases fault? <;> simp

namespace Shape

/-- The level of a source in a shape. -/
def levelOf (shape : Shape) (dialect : Dialect) (scope : Scope) (source : String) :
    Except Fault Level :=
  match shape with
  | tree => (Node.ofSource dialect scope source).map Node.items
  | list => (Chain.ofSource dialect scope source).map (Chain.items (scope.keywords dialect))

/-- The declarations of a source that is kept in a shape, all of them or none. -/
def read (shape : Shape) (dialect : Dialect) (source : String) :
    Reading (List Declaration) := fun scope =>
  match shape.levelOf dialect scope source with
  | .error fault => .error fault scope
  | .ok level =>
    match Declaration.readAll dialect scope level with
    | ⟨declarations, none, scope⟩ => .ok declarations scope
    | ⟨_, some fault, scope⟩ => .error fault scope

theorem read_eq_ok_iff {shape : Shape} {dialect : Dialect} {source : String} {scope after : Scope}
    {declarations : List Declaration} :
    shape.read dialect source scope = .ok declarations after ↔
      ∃ level, shape.levelOf dialect scope source = .ok level ∧
        Declaration.readAll dialect scope level = ⟨declarations, none, after⟩ := by
  unfold read
  cases shape.levelOf dialect scope source with
  | error fault => simp
  | ok level =>
    simp only [Except.ok.injEq, exists_eq_left']
    generalize Declaration.readAll dialect scope level = outcome
    obtain ⟨found, fault?, last⟩ := outcome
    cases fault? <;> simp

/-- The keywords of Fortran do not depend on the settings, so both shapes of a source are the same
items. -/
theorem levelOf_fortran (shape : Shape) (scope : Scope) (source : String) :
    shape.levelOf .fortran scope source =
      (TokenTree.ofSource .fortran scope source).map (TokenTree.items Node.rolesOf) := by
  cases htrees : TokenTree.ofSource .fortran scope source with
  | error fault => cases shape <;> simp [levelOf, Node.ofSource, Chain.ofSource, htrees, Except.map]
  | ok trees =>
    have huniform : TokenTree.All (Token.Uniform (scope.keywords .fortran)) trees := by
      refine TokenTree.all_of_groupFrom ?_ (by simp [TokenTree.All]) (by simp) htrees
      intro lexeme hlexeme hkind hopening hclosing
      exact Token.uniform_of_isLexeme (show Settings.ConstantFree {} by decide) .fortran scope.knows
        (Lexeme.isLexeme_of_mem_scan hlexeme hkind) hkind hopening hclosing
    cases shape with
    | tree =>
      simp only [levelOf, Node.ofSource, htrees, Except.map, Node.items_ofTrees]
    | list =>
      simp only [levelOf, Chain.ofSource, htrees, Except.map, ← items_ofTrees_eq huniform,
        Node.items_ofTrees]

end Shape

namespace Fortran

/-- The case of letters says nothing in a source of Fortran, as far as each name, each name of an
argument and each list of dimensions in it is written in the same letters: in any scope and in both
shapes, the two sources have the same declarations, or both have a fault. -/
theorem read_eqAnyCase (shape : Shape) (scope : Scope) {source source' : String}
    (hcase : upperCase source = upperCase source')
    (halike : ∀ level level', shape.levelOf .fortran scope source = .ok level →
      shape.levelOf .fortran scope source' = .ok level' → WrittenAlike scope level level')
    (declarations : List Declaration) (after : Scope) :
    shape.read .fortran source scope = .ok declarations after ↔
      shape.read .fortran source' scope = .ok declarations after := by
  have hrel := TokenTree.rel_ofSource hcase scope
  rw [Shape.read_eq_ok_iff, Shape.read_eq_ok_iff]
  rw [shape.levelOf_fortran, shape.levelOf_fortran] at halike ⊢
  rcases ok_or_error_of_rel hrel with ⟨trees, trees', hok, hok', htrees⟩ |
    ⟨fault, fault', herror, herror'⟩
  · rw [hok, hok'] at halike ⊢
    obtain ⟨hdeclarations, hfault, hscope⟩ :=
      readAll_eqAnyCase (TokenTree.EqAnyCase.items htrees) (halike _ _ rfl rfl)
    simp only [Except.map, Except.ok.injEq, exists_eq_left', Declaration.Outcome.eq_iff,
      hdeclarations, hfault, hscope]
  · rw [herror, herror']
    simp [Except.map]

/-- A statement of one entity, in which the keywords of its attributes are written in this way. -/
def keywordLevel (type kind intent direction dimension : String) : Level :=
  .token type .typeName :: .group "(" {} [.token kind .unresolved, .token "=" {}, .token "8" {}] ::
    .token "," {} ::
    (listPart intent (.token direction .unresolved) ++ .token "," {} ::
      (listPart dimension (.token "N" .unresolved) ++ .token "::" {} :: wordPart "LEN"))

theorem readStatement_keywordLevel :
    readStatement (Scope.ofSettings {}) (keywordLevel "REAL" "KIND" "INTENT" "IN" "DIMENSION") =
      .ok (.names [{ left := ⟨["const", "INTENTIN"]⟩
                     right := ⟨["&"]⟩
                     base := (Scope.ofSettings {}).lookup "double"
                     name := "LEN"
                     dimensions := ["N"] }], []) := by
  cbv

theorem writtenAlike_keywordLevel (type kind intent direction dimension : String) :
    WrittenAlike (Scope.ofSettings {}) (keywordLevel "REAL" "KIND" "INTENT" "IN" "DIMENSION")
      (keywordLevel type kind intent direction dimension) := by
  intro statement use place place' hat huses hplace'
  -- There is one statement, and nothing behind it.
  cases hat with
  | here hend =>
    cases huses with
    | inAttribute hfront hword =>
      -- The attributes start at the places 0, 3 and 6, and only the last one is a DIMENSION.
      let level : Level := keywordLevel "REAL" "KIND" "INTENT" "IN" "DIMENSION"
      have htype : (Attribute.type "double").StartsAt (Scope.ofSettings {}) level (level.drop 2) :=
        Attribute.startsAt_type (by cbv)
      have hintent :
          (Attribute.intent "IN").StartsAt (Scope.ofSettings {}) (level.drop 3) (level.drop 5) :=
        Attribute.startsAt_intent (by decide +kernel) (by decide +kernel)
      have hdimension : (Attribute.dimension [.token "N" .unresolved]).StartsAt
        (Scope.ofSettings {}) (level.drop 6)
          (level.drop 8) := Attribute.startsAt_dimension (by decide +kernel) rfl
      rcases hfront.eq_or_behind htype with rfl | ⟨-, _, hfront⟩
      · exact absurd hword (by decide +kernel)
      · rcases hfront.eq_or_behind hintent with rfl | ⟨-, _, hfront⟩
        · exact absurd hword (by decide +kernel)
        · rcases hfront.eq_or_behind hdimension with rfl | ⟨hcomma, -⟩
          · rw [hplace'.eq_drop]
            exact fun _ => rfl
          · exact absurd hcomma (by decide)
    | @inEntity rest entity shared use hattributes hentity =>
      -- One entity follows the `::`, with a name and nothing else.
      have hread : readAttributes (Scope.ofSettings {})
        (keywordLevel "REAL" "KIND" "INTENT" "IN" "DIMENSION") {} =
          .ok (wordPart "LEN")
            { left := ⟨["const", "INTENTIN"]⟩, right := ⟨["&"]⟩, dimensions := ["N"],
              base := (Scope.ofSettings {}).lookup "double" } := by cbv
      obtain rfl : wordPart "LEN" = rest := (EStateM.Result.ok.inj (hread.symm.trans hattributes)).1
      have hheading (declarator : Declarator) :
          readHeading (Scope.ofSettings {}) declarator (wordPart "LEN") =
              (declarator, wordPart "LEN") := by
        rw [readHeading, if_neg (by decide +kernel), if_neg (by decide +kernel)]
      cases hentity with
      | here hend =>
        cases use with
        | name =>
          unfold Use.placeIn at hplace' ⊢
          rw [hheading] at hplace' ⊢
          rw [hplace'.eq_drop]
          exact fun _ => rfl
        | arguments =>
          intro list list' hlist
          unfold Use.placeIn at hlist
          rw [hheading] at hlist
          cases hlist
        | dimensions =>
          intro hgroup
          unfold Use.placeIn at hgroup
          rw [hheading] at hgroup
          cases hgroup
      | behind hend hentity =>
        rw [readEntity, hheading] at hentity
        cases hentity with
        | here hend => cases hend
        | behind hend => cases hend
  | behind hend hread h =>
    obtain ⟨-, rfl⟩ := Prod.mk.inj (Except.ok.inj (readStatement_keywordLevel.symm.trans hread))
    cases h with
    | here hend => cases hend
    | behind hend => cases hend

/-- Keywords in another case, with one of them as the name that is declared. -/
theorem read_eqAnyCase_keywords :
    let scope := Scope.ofSettings {}
    let source := "REAL(KIND=8), INTENT(IN), DIMENSION(N) :: LEN"
    let source' := "real(Kind=8), Intent(in), dimension(N) :: LEN"
    upperCase source = upperCase source' ∧
      (∀ level level', Shape.list.levelOf .fortran scope source = .ok level →
        Shape.list.levelOf .fortran scope source' = .ok level' → WrittenAlike scope level level') ∧
      ∃ declarations, Shape.list.read .fortran source scope = .ok declarations scope ∧
        Shape.list.read .fortran source' scope = .ok declarations scope := by
  intro scope source source'
  have hcase : upperCase source = upperCase source' := upperCase_inj_iff.mpr (by decide +kernel)
  have htrees : TokenTree.ofSource .fortran scope source =
      .ok [.leaf ⟨"REAL", .typeName⟩,
        .group .parenthesis [.leaf ⟨"KIND", .unresolved⟩, .leaf ⟨"=", .operator⟩,
          .leaf ⟨"8", .constant⟩],
        .leaf ⟨",", .operator⟩, .leaf ⟨"INTENT", .unresolved⟩,
        .group .parenthesis [.leaf ⟨"IN", .unresolved⟩],
        .leaf ⟨",", .operator⟩, .leaf ⟨"DIMENSION", .unresolved⟩,
        .group .parenthesis [.leaf ⟨"N", .unresolved⟩],
        .leaf ⟨"::", .operator⟩, .leaf ⟨"LEN", .unresolved⟩] := by
    decide +kernel
  have htrees' : TokenTree.ofSource .fortran scope source' =
      .ok [.leaf ⟨"real", .typeName⟩,
        .group .parenthesis [.leaf ⟨"Kind", .unresolved⟩, .leaf ⟨"=", .operator⟩,
          .leaf ⟨"8", .constant⟩],
        .leaf ⟨",", .operator⟩, .leaf ⟨"Intent", .unresolved⟩,
        .group .parenthesis [.leaf ⟨"in", .unresolved⟩],
        .leaf ⟨",", .operator⟩, .leaf ⟨"dimension", .unresolved⟩,
        .group .parenthesis [.leaf ⟨"N", .unresolved⟩],
        .leaf ⟨"::", .operator⟩, .leaf ⟨"LEN", .unresolved⟩] := by
    decide +kernel
  have hlevel : Shape.list.levelOf .fortran scope source =
      .ok (keywordLevel "REAL" "KIND" "INTENT" "IN" "DIMENSION") := by
    rw [Shape.levelOf_fortran, htrees]
    rfl
  have hlevel' : Shape.list.levelOf .fortran scope source' =
      .ok (keywordLevel "real" "Kind" "Intent" "in" "dimension") := by
    rw [Shape.levelOf_fortran, htrees']
    rfl
  have halike : ∀ level level', Shape.list.levelOf .fortran scope source = .ok level →
      Shape.list.levelOf .fortran scope source' = .ok level' → WrittenAlike scope level level' := by
    intro level level' h h'
    obtain rfl := Except.ok.inj (hlevel.symm.trans h)
    obtain rfl := Except.ok.inj (hlevel'.symm.trans h')
    exact writtenAlike_keywordLevel _ _ _ _ _
  refine ⟨hcase, halike, ?_⟩
  have hnext :
      Declaration.next? .fortran (keywordLevel "REAL" "KIND" "INTENT" "IN" "DIMENSION") scope =
      .ok (some (_, [])) scope :=
        next?_of_readStatement (List.cons_ne_nil _ _) readStatement_keywordLevel
  have hread : ∃ declarations, Shape.list.read .fortran source scope = .ok declarations scope := by
    unfold Shape.read
    rw [hlevel]
    dsimp only
    rw [Declaration.readAll_of_next? hnext, Declaration.readAll_of_atEnd rfl]
    exact ⟨_, rfl⟩
  obtain ⟨declarations, hread⟩ := hread
  exact ⟨declarations, hread, (read_eqAnyCase .list scope hcase halike declarations scope).mp hread⟩

end Fortran

end CommonDecl
