import CommonDecl.Proofs.DeclaratorEnds
import CommonDecl.Proofs.Distribution
import CommonDecl.Proofs.FunctionBodies
import CommonDecl.Proofs.LikeStatements
import CommonDecl.Proofs.Typedefs

/-!
# Where a typedef ends

The names of a typedef are read for as long as a comma follows, and nothing is skipped behind the
last one. So a typedef is read the same whatever stands behind its last declarator
(`TypedefStatement.read_append`), but what stands there is left in front of the `;`: the statement
ends at its `;` exactly where nothing is left, and anything else is read as the start of a statement
of its own (`TypedefStatement.endsAtSemicolon_iff`).
-/

namespace CommonDecl

open Level

variable {scope : Scope} {level stop : Level}

namespace TypeDecl

/-! ### Readers in front of what stands behind a typedef -/

theorem typeName?_append (h : level ≠ []) (stop : Level) :
    typeName? (level ++ stop) = typeName? level ∧ afterTypeName (level ++ stop) =
      afterTypeName level ++ stop := by
  have hat : atTypeName (level ++ stop) = atTypeName level := by
    rw [atTypeName, atTypeName, isIdentifier, isIdentifier, isTypeKeyword, isTypeKeyword,
      head?_append h]
  constructor
  · rw [typeName?, typeName?, hat, Fortran.value?_append h]
  · rw [afterTypeName, afterTypeName, hat, next_append h]
    split <;> rfl

theorem readBody?_append (h : afterTypeName level.afterLeftQualifiers ≠ []) (stop : Level) :
    readBody? (level ++ stop) = readBody? level := by
  have hleft : level.afterLeftQualifiers ≠ [] := fun hnil => h (by rw [hnil]; rfl)
  obtain ⟨hqualifiers, hafter⟩ := leftQualifiers_append hleft stop
  have hcontents : (afterTypeName (level ++ stop).afterLeftQualifiers).groupContents? .brace =
      (afterTypeName level.afterLeftQualifiers).groupContents? .brace := by
    rw [hafter, (typeName?_append hleft stop).2, groupContents?_append_of_ne_nil h]
  cases hbody : (afterTypeName level.afterLeftQualifiers).groupContents? .brace with
  | none => rw [readBody?_of_none hbody, readBody?_of_none (hcontents.trans hbody)]
  | some contents =>
    rw [readBody?_of_contents hbody, readBody?_of_contents (hcontents.trans hbody), hqualifiers]

/-- A declarator with a name does not end in its qualifiers. -/
theorem afterQualifiers_ne_nil_of_name {shared declarator : Declarator} {rest : Level}
    {name : String} (hread : Declarator.read scope (some shared) {} level = .ok (declarator, rest))
    (hname : declarator.name = some name) : level.afterQualifiers ≠ [] := by
  intro hnil
  have hcore : Declarator.afterTypePart scope (some shared) level = [] := hnil
  have hnone : Declarator.nameAt? [] = none := by
    rw [Declarator.nameAt?, Declarator.nestsAt_of_none rfl]
    rfl
  rw [Declarator.read_name hread, hcore, hnone] at hname
  cases hname

theorem readNamedDeclarator_append {aliased : TypeRef} {unnamed : Fault} {name : String}
    {declarator : Declarator} {rest : Level} {after : Scope}
    (hread : readNamedDeclarator aliased unnamed level scope = .ok (name, declarator, rest) after)
    (hstop : rest = [] → declarator.EndsBefore stop) :
    level ≠ [] ∧
      readNamedDeclarator aliased unnamed (level ++ stop) scope =
        .ok (name, declarator, rest ++ stop) after := by
  obtain ⟨hread, hname, rfl⟩ := readNamedDeclarator_eq_ok_iff.mp hread
  have hcore := afterQualifiers_ne_nil_of_name hread hname
  refine ⟨fun hnil => hcore (by rw [hnil]; rfl), readNamedDeclarator_eq_ok_iff.mpr ⟨?_, hname, rfl⟩⟩
  exact Declarator.read_append_of_endsBefore hcore hread hstop

/-- The further names are read up to where no comma follows, whatever else does. -/
theorem readSiblings_append {qualifiers : Qualifiers} {aliased : TypeRef}
    {siblings : List Declarator} {after : Scope} (previous : Declarator)
    (hread : readSiblings qualifiers aliased level scope = .ok (siblings, []) after)
    (hcomma : stop.isToken "," = false)
    (hstop : level ≠ [] → (siblings.getLast?.getD previous).EndsBefore stop) :
    readSiblings qualifiers aliased (level ++ stop) scope = .ok (siblings, stop) after := by
  induction hlength : level.length using Nat.strong_induction_on
    generalizing level scope siblings previous with
  | _ n ih =>
    subst hlength
    rw [readSiblings] at hread
    by_cases hlevel : level.isToken "," = true
    · rw [if_pos hlevel] at hread
      obtain ⟨⟨name, declarator, rest⟩, middle, hnamed, hfurther⟩ := bind_apply_eq_ok_iff.mp hread
      obtain ⟨ref, later, hregister, hlast⟩ := bind_apply_eq_ok_iff.mp hfurther
      dsimp only at hregister hlast
      have hne : level ≠ [] := fun hnil => by rw [hnil] at hlevel; cases hlevel
      have hnext : (level ++ stop).next = level.next ++ stop := next_append hne stop
      have hrest : rest.length < level.length :=
        length_lt_of_suffix_next hne
          (Declarator.read_rest (readNamedDeclarator_eq_ok_iff.mp hnamed).1)
      rw [if_pos hrest] at hlast
      obtain ⟨⟨others, last⟩, final, hothers, hlast⟩ := bind_apply_eq_ok_iff.mp hlast
      cases hlast
      have hgetLast : (declarator :: others).getLast?.getD previous =
          others.getLast?.getD declarator := by
        rw [List.getLast?_cons, Option.getD_some]
      rw [hgetLast] at hstop
      have hothers' := ih _ hrest declarator hothers (fun _ => hstop hne) rfl
      have hends : rest = [] → declarator.EndsBefore stop := by
        rintro rfl
        rw [readSiblings, if_neg (by rintro ⟨⟩)] at hothers
        cases hothers
        exact hstop hne
      obtain ⟨-, hnamed'⟩ := readNamedDeclarator_append hnamed hends
      have hrest' : (rest ++ stop).length < (level ++ stop).length := by
        rw [List.length_append, List.length_append]
        omega
      rw [readSiblings, if_pos (by rwa [isToken_append hne]), hnext, bind_of_ok hnamed']
      dsimp only
      rw [bind_of_ok hregister, if_pos hrest', bind_of_ok hothers']
      rfl
    · rw [if_neg hlevel] at hread
      cases hread
      rw [List.nil_append, readSiblings, if_neg (by simp [hcomma])]
      rfl

/-- A typedef is read up to its first name, whatever follows. -/
theorem read_synonym_append {qualifiers : Qualifiers} {name : String}
    {typedef : Typedef} {rest : Level} {after : Scope}
    (hread : TypeDecl.read level scope = .ok (.synonym qualifiers name typedef, rest) after)
    (hstop : rest = [] → typedef.declarator.EndsBefore stop) :
    TypeDecl.read (level ++ stop) scope =
      .ok (.synonym qualifiers name typedef, rest ++ stop) after := by
  have htypedef := (read_isSynonym level scope).of_ok hread rfl
  rw [read_of_typedef htypedef, readTypedef] at hread
  obtain ⟨named, middle, hnamed, htail⟩ := bind_apply_eq_ok_iff.mp hread
  obtain ⟨members, later, hbody, hlast⟩ := bind_apply_eq_ok_iff.mp htail
  -- The name of the typedef stands behind its qualifiers, so all that is looked at is on the level.
  suffices h : afterTypeName level.afterLeftQualifiers ≠ [] ∧
      readTypedef (level ++ stop) scope =
          .ok (.synonym qualifiers name typedef, rest ++ stop) after by
    have hleft : level.afterLeftQualifiers ≠ [] := fun hnil => h.1 (by rw [hnil]; rfl)
    rw [read_of_typedef (by rw [(leftQualifiers_append hleft stop).1]; exact htypedef), h.2]
  have hparts (h : afterTypeName level.afterLeftQualifiers ≠ []) :
      (level ++ stop).leftQualifiers = level.leftQualifiers ∧
        typeName? (level ++ stop).afterLeftQualifiers = typeName? level.afterLeftQualifiers ∧
        afterTypeName (level ++ stop).afterLeftQualifiers =
          afterTypeName level.afterLeftQualifiers ++ stop ∧
        readBody? (level ++ stop) = readBody? level := by
    have hleft : level.afterLeftQualifiers ≠ [] := fun hnil => h (by rw [hnil]; rfl)
    obtain ⟨hqualifiers, hafter⟩ := leftQualifiers_append hleft stop
    obtain ⟨htag, hafterTag⟩ := typeName?_append hleft stop
    rw [hafter]
    exact ⟨hqualifiers, htag, hafterTag, readBody?_append h stop⟩
  cases members with
  | none =>
    obtain ⟨⟨newName, declarator, last⟩, final, hdeclarator, hresult⟩ :=
      bind_apply_eq_ok_iff.mp hlast
    cases hresult
    obtain ⟨hne, hdeclarator'⟩ := readNamedDeclarator_append hdeclarator hstop
    obtain ⟨hqualifiers, htag, hafter, hbody'⟩ := hparts hne
    refine ⟨hne, ?_⟩
    rw [readTypedef, hqualifiers, htag, hafter, hbody', bind_of_ok hnamed, bind_of_ok hbody]
    dsimp only
    rw [bind_of_ok hdeclarator']
    rfl
  | some members =>
    obtain ⟨aliased, defined, hdefine, hlast⟩ := bind_apply_eq_ok_iff.mp hlast
    obtain ⟨⟨newName, declarator, last⟩, final, hdeclarator, hresult⟩ :=
      bind_apply_eq_ok_iff.mp hlast
    cases hresult
    obtain ⟨hnext, hdeclarator'⟩ := readNamedDeclarator_append hdeclarator hstop
    have hne : afterTypeName level.afterLeftQualifiers ≠ [] := fun hnil => hnext (by rw [hnil]; rfl)
    obtain ⟨hqualifiers, htag, hafter, hbody'⟩ := hparts hne
    refine ⟨hne, ?_⟩
    rw [readTypedef, hqualifiers, htag, hafter, hbody', bind_of_ok hnamed, bind_of_ok hbody]
    dsimp only
    rw [bind_of_ok hdefine, next_append hne, bind_of_ok hdeclarator']
    rfl

end TypeDecl

/-- In front of anything but the end of a statement, the next statement takes at least one item,
unless it cannot be read. -/
theorem Declaration.next?_of_not_atStatementEnd (h : level.atStatementEnd = false) (scope : Scope) :
    Ends (next? .c level) scope
      (fun found _ => ∃ declaration rest, found = some (declaration, rest) ∧ rest <:+ level.next)
      (fun _ => True) := by
  have hsemicolon := isToken_semicolon_of_atStatementEnd h
  have hstart : afterEmptyStatements level = level := by
    cases level with
    | nil => rfl
    | cons item rest =>
      have hitem : item.isToken ";" = false := hsemicolon
      rw [afterEmptyStatements, List.dropWhile_cons_of_neg (by simp [hitem])]
  have hend : ¬ level.atEnd = true := fun hend => by rw [atStatementEnd, hend] at h; cases h
  rw [next?, hstart, if_neg hend]
  simp only [readIn, ends_bind, ends_pure]
  exact (read_progress h scope).mono (fun found _ hrest =>
    ⟨found.1, found.2, rfl, hrest⟩) fun _ h => h

/-- The items of a typedef up to its last declarator, all of which are read. -/
structure TypedefStatement (scope : Scope) where
  level : Level
  qualifiers : Qualifiers
  name : String
  typedef : Typedef
  siblings : List Declarator
  /-- The scope with the names of the typedef. -/
  after : Scope
  reads : Declaration.read level scope = .ok (.type (.synonym qualifiers name typedef) siblings,
    []) after
  /-- The `;` of the statement stands behind the items. -/
  noSemicolon : ∀ item ∈ level, item.isToken ";" = false

namespace TypedefStatement

variable (statement : TypedefStatement scope)

/-- What the statement declares. -/
def declaration : Declaration :=
  .type (.synonym statement.qualifiers statement.name statement.typedef) statement.siblings

/-- The last declarator of the statement. -/
def last : Declarator :=
  statement.siblings.getLast?.getD statement.typedef.declarator

/-- The first name of the typedef is read, and then the further ones up to the end of the level. -/
theorem exists_read : ∃ rest middle added ref,
    TypeDecl.isDeclaredAt scope statement.level = true ∧
    TypeDecl.read statement.level scope =
      .ok (.synonym statement.qualifiers statement.name statement.typedef, rest) middle ∧
    Reading.register (.synonym statement.qualifiers statement.name statement.typedef) middle =
      .ok ref added ∧
    TypeDecl.readSiblings statement.qualifiers statement.typedef.aliased rest added =
      .ok (statement.siblings, []) statement.after := by
  have hreads := statement.reads
  rw [Declaration.read] at hreads
  obtain ⟨_, _, hget, hreads⟩ := bind_apply_eq_ok_iff.mp hreads
  cases hget
  by_cases hdeclared : TypeDecl.isDeclaredAt scope statement.level = true
  · rw [if_pos hdeclared] at hreads
    obtain ⟨⟨declared, rest⟩, middle, htype, hreads⟩ := bind_apply_eq_ok_iff.mp hreads
    obtain ⟨⟨declaration, last⟩, final, hbeside, hresult⟩ := bind_apply_eq_ok_iff.mp hreads
    have hlevel : last <:+ statement.level :=
      ((Declaration.readBeside_rest declared rest middle).of_ok hbeside).trans
        ((TypeDecl.read_rest statement.level scope).of_ok htype)
    have hgiven : EStateM.Result.ok (declaration, last.afterSemicolon) final =
        .ok (.type (.synonym statement.qualifiers statement.name statement.typedef)
          statement.siblings, [])
          statement.after := hresult
    rw [EStateM.Result.ok.injEq, Prod.mk.injEq] at hgiven
    obtain ⟨⟨rfl, hend⟩, rfl⟩ := hgiven
    obtain rfl : last = [] := by
      cases last with
      | nil => rfl
      | cons item others =>
        by_cases hitem : item.isToken ";" = true
        · rw [statement.noSemicolon item (hlevel.subset List.mem_cons_self)] at hitem
          cases hitem
        · have hsemicolon : ¬ Level.isToken (item :: others) ";" = true := hitem
          rw [afterSemicolon, if_neg hsemicolon] at hend
          cases hend
    -- Only a synonym is declared as one.
    rw [Declaration.readBeside] at hbeside
    cases declared with
    | tagged qualifiers name members =>
      split at hbeside
      · cases hbeside
      · obtain ⟨ref, added, -, hbeside⟩ := bind_apply_eq_ok_iff.mp hbeside
        obtain ⟨⟨instances, others⟩, later, -, hbeside⟩ := bind_apply_eq_ok_iff.mp hbeside
        cases hbeside
    | synonym qualifiers name typedef =>
      obtain ⟨ref, added, hregister, hbeside⟩ := bind_apply_eq_ok_iff.mp hbeside
      obtain ⟨⟨siblings, last⟩, later, hsiblings, hbeside⟩ := bind_apply_eq_ok_iff.mp hbeside
      cases hbeside
      exact ⟨rest, middle, added, ref, hdeclared, htype, hregister, hsiblings⟩
  · rw [if_neg hdeclared] at hreads
    obtain ⟨⟨declaration, last⟩, _, hvariables, hresult⟩ := bind_apply_eq_ok_iff.mp hreads
    obtain ⟨hvariables, -⟩ := Reading.ofExcept_eq_ok_iff.mp hvariables
    obtain ⟨⟨first, others⟩, -, hfurther⟩ := bind_eq_ok_iff.mp hvariables
    obtain ⟨⟨further, others⟩, -, hnames⟩ := bind_eq_ok_iff.mp hfurther
    cases hnames
    cases hresult

/-- A typedef is read the same in front of anything that its last declarator does not go on with. -/
theorem read_append (hcomma : stop.isToken "," = false) (hstop : statement.last.EndsBefore stop) :
    Declaration.read (statement.level ++ stop) scope =
      .ok (statement.declaration, stop.afterSemicolon) statement.after := by
  obtain ⟨rest, middle, added, ref, hdeclared, htype, hregister, hsiblings⟩ := statement.exists_read
  have hsiblings' :=
    TypeDecl.readSiblings_append statement.typedef.declarator hsiblings hcomma fun _ => hstop
  have hends : rest = [] → statement.typedef.declarator.EndsBefore stop := by
    rintro rfl
    rw [TypeDecl.readSiblings, if_neg (by rintro ⟨⟩)] at hsiblings
    have hnone : statement.siblings = [] := by
      have hgiven : EStateM.Result.ok (([] : List Declarator), ([] : Level)) added =
          .ok (statement.siblings, []) statement.after := hsiblings
      rw [EStateM.Result.ok.injEq, Prod.mk.injEq] at hgiven
      exact hgiven.1.1.symm
    rwa [last, hnone] at hstop
  have htype' := TypeDecl.read_synonym_append htype hends
  have htypedef := (TypeDecl.read_isSynonym (statement.level ++ stop) scope).of_ok htype' rfl
  refine Declaration.read_of_type (TypeDecl.isDeclaredAt_of_typedef htypedef scope) htype' ?_
  · rw [Declaration.readBeside, if_neg (by simp [TypeDecl.name?]), bind_of_ok hregister]
    dsimp only
    rw [bind_of_ok hsiblings']
    rfl

/-- The statement takes everything through its `;`, and what is read after it is what is read of the
rest. -/
def EndsAtSemicolon (gap : Level) (semicolon : Item) (rest : Level) : Prop :=
  Declaration.read (statement.level ++ (gap ++ semicolon :: rest)) scope =
      .ok (statement.declaration, rest) statement.after ∧
    Declaration.readAll .c scope (statement.level ++ (gap ++ semicolon :: rest)) =
      { Declaration.readAll .c statement.after rest with
        declarations :=
          statement.declaration :: (Declaration.readAll .c statement.after rest).declarations }

/-- A typedef is followed by the statements of what is left behind its last declarator. -/
theorem readAll_append (hcomma : stop.isToken "," = false)
    (hstop : statement.last.EndsBefore stop) :
    Declaration.readAll .c scope (statement.level ++ stop) =
      { Declaration.readAll .c statement.after stop with
        declarations :=
          statement.declaration ::
          (Declaration.readAll .c statement.after stop).declarations } := by
  have hne : statement.level ≠ [] := by
    intro hnil
    obtain ⟨rest, middle, -, -, -, htype, -, -⟩ := statement.exists_read
    have htypedef := (TypeDecl.read_isSynonym statement.level scope).of_ok htype rfl
    rw [hnil] at htypedef
    cases htypedef
  have hsemicolon : (statement.level ++ stop).isToken ";" = false := by
    refine isToken_of_head fun item hitem => ?_
    rw [head?_append hne] at hitem
    exact statement.noSemicolon item (List.mem_of_mem_head? hitem)
  have hnext := Declaration.next?_of_read (List.append_ne_nil_of_left_ne_nil hne stop) hsemicolon
    (statement.read_append hcomma hstop)
  rw [Declaration.readAll_of_next? hnext, Declaration.readAll_afterSemicolon]

/-- **A typedef ends at its `;` exactly where its last declarator stands directly in front of it.**
Anything else is left in front of the `;` together with it, and the next statement is read from
there: it declares something, or it fails. -/
theorem endsAtSemicolon_iff {gap : Level} (hgap : ∀ item ∈ gap, item.isSeparator = false)
    (hlast : statement.last.EndsBefore gap) {semicolon : Item}
    (hsemicolon : semicolon.isToken ";" = true) (rest : Level) :
    (statement.EndsAtSemicolon gap semicolon rest ↔ gap = []) ∧
      (gap ≠ [] →
        Declaration.read (statement.level ++ (gap ++ semicolon :: rest)) scope =
          .ok (statement.declaration, gap ++ semicolon :: rest) statement.after ∧
        Declaration.readAll .c scope (statement.level ++ (gap ++ semicolon :: rest)) =
          { Declaration.readAll .c statement.after (gap ++ semicolon :: rest) with
            declarations := statement.declaration ::
              (Declaration.readAll .c statement.after (gap ++ semicolon :: rest)).declarations } ∧
        Ends (Declaration.next? .c (gap ++ semicolon :: rest)) statement.after
          (fun next _ => ∃ extra left, next = some (extra, left) ∧
            left <:+ (gap ++ semicolon :: rest).tail)
          (fun _ => True)) := by
  have hnoBracket : Level.NoBracket (semicolon :: rest) := noBracket_of_isToken hsemicolon
  have hstop : statement.last.EndsBefore (gap ++ semicolon :: rest) := by
    intro bracket hgroup
    rw [isGroup_append hnoBracket] at hgroup
    exact hlast bracket hgroup
  cases gap with
  | nil =>
    have hcomma : Level.isToken (semicolon :: rest) "," = false :=
      isToken_comma_of_atStatementEnd (atStatementEnd_iff.mpr (Or.inr hsemicolon))
    have hskip : Level.afterSemicolon (semicolon :: rest) = rest := if_pos hsemicolon
    have hread := statement.read_append hcomma hstop
    have hall := statement.readAll_append hcomma hstop
    rw [hskip] at hread
    rw [← Declaration.readAll_afterSemicolon _ _ (semicolon :: rest), hskip] at hall
    exact ⟨⟨fun _ => rfl, fun _ => ⟨hread, hall⟩⟩, fun hne => absurd rfl hne⟩
  | cons item others =>
    -- What is left starts with an item that ends no statement.
    have hitem := hgap item List.mem_cons_self
    simp only [Item.isSeparator, List.any_cons, List.any_nil, Bool.or_false,
      Bool.or_eq_false_iff] at hitem
    have hend : Level.atStatementEnd (item :: others ++ semicolon :: rest) = false := hitem.2
    have hcomma : Level.isToken (item :: others ++ semicolon :: rest) "," = false := hitem.1
    have hskip : Level.afterSemicolon (item :: others ++ semicolon :: rest) =
        item :: others ++ semicolon :: rest :=
          if_neg (by rw [isToken_semicolon_of_atStatementEnd hend]; simp)
    have hread := statement.read_append hcomma hstop
    have hall := statement.readAll_append hcomma hstop
    rw [hskip] at hread
    refine ⟨⟨?_, fun hnil => by cases hnil⟩, fun _ => ⟨hread, hall, ?_⟩⟩
    · rintro ⟨hread', -⟩
      rw [hread, EStateM.Result.ok.injEq, Prod.mk.injEq] at hread'
      have hlength := congrArg List.length hread'.1.2
      simp only [List.length_append, List.length_cons] at hlength
      omega
    · exact Declaration.next?_of_not_atStatementEnd hend statement.after

/-- What `typedef int A` says of `A`. -/
def aliasOfInt : Typedef :=
  ⟨⟨4, "int", false⟩, none, { base := some ⟨4, "int", false⟩, name := some "A" }⟩

/-- The items of `typedef int A`. -/
def typedefInt : TypedefStatement (Scope.ofSettings {}) where
  level :=
    [.token "typedef" { isQualifier := true }, .token "int" .typeName, .token "A" .unresolved]
  qualifiers := {}
  name := "A"
  typedef := aliasOfInt
  siblings := []
  after :=
    { Scope.ofSettings {} with
      types := ((Scope.ofSettings {}).types.declare (.synonym {} "A" aliasOfInt) false).2 }
  reads := by
    have hget : (get : Reading Scope) (Scope.ofSettings {}) =
      .ok (Scope.ofSettings {}) (Scope.ofSettings {}) := rfl
    have hlookup : (Scope.ofSettings {}).lookup "int" = some ⟨4, "int", false⟩ := by decide
    have hnamed : TypeDecl.findOrDeclare (some "int") (Scope.ofSettings {}) =
        .ok ⟨4, "int", false⟩ (Scope.ofSettings {}) := by
      rw [TypeDecl.findOrDeclare, bind_of_ok hget, Option.bind_eq_bind, Option.bind_some, hlookup]
      rfl
    have hread :
        Declarator.read (Scope.ofSettings {}) (some (Declarator.ofBase ⟨4, "int", false⟩)) {}
        [.token "A" .unresolved] = .ok (aliasOfInt.declarator, []) := by cbv
    have htype : TypeDecl.read
        [.token "typedef" { isQualifier := true }, .token "int" .typeName, .token "A" .unresolved]
        (Scope.ofSettings {}) = .ok (.synonym {} "A" aliasOfInt, []) (Scope.ofSettings {}) :=
      TypeDecl.readTypedef_of_noBody rfl rfl hnamed
        (by rw [TypeDecl.readBody?_of_none rfl]; rfl) hread rfl
    have hbeside (ref : TypeRef) (after : Scope)
        (h : Reading.register (.synonym {} "A" aliasOfInt) (Scope.ofSettings {}) = .ok ref after) :
        Declaration.readBeside (.synonym {} "A" aliasOfInt) [] (Scope.ofSettings {}) =
          .ok (.type (.synonym {} "A" aliasOfInt) [], []) after := by
      rw [Declaration.readBeside, if_neg (by decide), bind_of_ok h]
      dsimp only
      rw [TypeDecl.readSiblings, if_neg (by rintro ⟨⟩)]
      rfl
    exact Declaration.read_of_type (TypeDecl.isDeclaredAt_of_typedef rfl _) htype (hbeside _ _ rfl)
  noSemicolon := by decide

/-- The items of `__attribute__((aligned(8)))`. -/
def alignment : Level :=
  [.token "__attribute__" .unresolved, .group "(" {} [.group "(" {} [.token "aligned" .unresolved,
    .group "(" {} [.token "8" {}]]]]

/-- The items of `A x;`. -/
def variableOfA : Level :=
  [.token "A" .unresolved, .token "x" .unresolved, .token ";" {}]

theorem items_alignment :
    (fun trees => (Node.ofTrees trees).items) <$>
        TokenTree.ofSource .c (Scope.ofSettings {})
          "typedef int A __attribute__((aligned(8))); A x;" =
      .ok (typedefInt.level ++ (alignment ++ .token ";" {} :: variableOfA)) := by
  have htrees : TokenTree.ofSource .c (Scope.ofSettings {})
    "typedef int A __attribute__((aligned(8))); A x;" =
      .ok [.leaf ⟨"typedef", .qualifier⟩, .leaf ⟨"int", .typeName⟩, .leaf ⟨"A", .unresolved⟩,
        .leaf ⟨"__attribute__", .unresolved⟩,
        .group .parenthesis [.group .parenthesis [.leaf ⟨"aligned", .unresolved⟩,
          .group .parenthesis [.leaf ⟨"8", .constant⟩]]],
        .leaf ⟨";", .operator⟩, .leaf ⟨"A", .unresolved⟩, .leaf ⟨"x", .unresolved⟩,
        .leaf ⟨";", .operator⟩] := by
    decide +kernel
  rw [htrees]
  rfl

/-- The attribute is left in front of the `;`, and the three statements that follow are read of it
and of the rest. -/
theorem endsAtSemicolon_alignment :
    (fun trees => (Node.ofTrees trees).items) <$>
        TokenTree.ofSource .c (Scope.ofSettings {})
          "typedef int A __attribute__((aligned(8))); A x;" =
      .ok (typedefInt.level ++ (alignment ++ .token ";" {} :: variableOfA)) ∧
    (∀ item ∈ alignment, item.isSeparator = false) ∧ typedefInt.last.EndsBefore alignment ∧
    Item.isToken ";" (.token ";" {}) = true ∧
    Declaration.read (typedefInt.level ++ (alignment ++ .token ";" {} :: variableOfA))
      (Scope.ofSettings {}) =
      .ok (typedefInt.declaration, alignment ++ .token ";" {} :: variableOfA) typedefInt.after ∧
    typedefInt.EndsAtSemicolon [] (.token ";" {}) variableOfA := by
  have hgap : ∀ item ∈ alignment, item.isSeparator = false := by decide
  have hlast : typedefInt.last.EndsBefore alignment := by decide
  have hnothing : typedefInt.last.EndsBefore [] := by decide
  refine ⟨items_alignment, hgap, hlast, rfl, ?_, ?_⟩
  · exact ((typedefInt.endsAtSemicolon_iff hgap hlast rfl variableOfA).2 (by decide)).1
  · exact (typedefInt.endsAtSemicolon_iff (by simp) hnothing rfl variableOfA).1.mpr rfl

/-- The attribute is declared as a name of its own, so one more declaration is read than of the
rest. -/
theorem not_endsAtSemicolon_alignment :
    (fun trees => (Node.ofTrees trees).items) <$>
        TokenTree.ofSource .c (Scope.ofSettings {})
          "typedef int A __attribute__((aligned(8))); A x;" =
      .ok (typedefInt.level ++ (alignment ++ .token ";" {} :: variableOfA)) ∧
    (∀ item ∈ alignment, item.isSeparator = false) ∧ typedefInt.last.EndsBefore alignment ∧
    ¬ typedefInt.EndsAtSemicolon alignment (.token ";" {}) variableOfA := by
  refine ⟨items_alignment, by decide, by decide, ?_⟩
  rintro ⟨-, hall⟩
  have hlength := congrArg (fun outcome => outcome.declarations.length) hall
  dsimp only at hlength
  rw [List.length_cons] at hlength
  exact absurd hlength (by decide +kernel)

end TypedefStatement

end CommonDecl
