import CommonDecl.Proofs.Typedefs
import CommonDecl.Source

/-!
# Statements read and written

Every statement of the grammar is read up to its `;`, adds the names that the grammar says to the
table of types, and is written as a text that is cut into the same tokens again at any indentation
(`builds_meets`).  This is the case inside a body as it is on the outermost level, where statements
are read in either shape (`Declaration.ofText_render_statement`).
-/

namespace CommonDecl

open TokenTree (items tagTrees afterCommas commaSeparated IsBare)

variable {scope : Scope} {known : String → Bool} {rolesOf : Token → Roles}
  {names names' names'' : List String} {types : TypeTable}

/-! ### What is said of the parts -/

variable (scope known rolesOf) in
/-- A statement is read with its `;`, and its text writes it without that. -/
structure ReadsStatement (names : List String) (trees : List TokenTree) (names' : List String) :
    Prop where
  ne_nil : trees ≠ []
  not_semicolon : Level.isToken (items rolesOf trees) ";" = false
  exists_read : ∀ types, types.Sound → scope.Gains names types → ∀ rest, ∃ declaration types',
    Declaration.read (items rolesOf trees ++ Level.ofSemicolon rest) { scope with types } =
      .ok (declaration, rest) { scope with types := types' } ∧ scope.Gains names' types' ∧
    ∀ depth, Writes (scope.keywords .c) known (declaration.render depth) trees

variable (scope known rolesOf) in
/-- What is inside the braces of a type is read to its end by `read`, and its lines write it. -/
def ReadsMembers (read : Level → Reading (List Member)) (names : List String)
    (trees : List TokenTree) (names' : List String) : Prop :=
  ∀ types, types.Sound → scope.Gains names types → ∃ members types',
    read (items rolesOf trees) { scope with types } = .ok members { scope with types := types' } ∧
    scope.Gains names' types' ∧
    ∀ depth, Writes (scope.keywords .c) known (renderMembers depth members) trees

/-- Reads what is inside the braces of an enum or of another type. -/
def TypeDecl.readContents (isEnum : Bool) (contents : Level) : Reading (List Member) :=
  if isEnum then pure (enumerators contents) else readMembers contents

variable (scope known rolesOf) in
/-- The names of a typedef are a first one and the ones after it. -/
def ReadsSynonyms (names : List String) (trees : List TokenTree) (names' : List String) : Prop :=
  ∃ name part parts, trees = part ++ afterCommas scope known parts ∧
    IsBare (scope.adding names) known (some name) part ∧
    TypeDecl.ReadsSiblings scope known rolesOf (names ++ [name]) parts names'

variable (scope known rolesOf) in
/-- A part of a statement is read to its end, and its text writes it. -/
def Construct.Meets : Construct → List String → List TokenTree → List String → Prop
  | .statement => ReadsStatement scope known rolesOf
  | .fields => ReadsMembers scope known rolesOf TypeDecl.readMembers
  | .body isEnum => ReadsMembers scope known rolesOf (TypeDecl.readContents isEnum)
  | .synonyms => ReadsSynonyms scope known rolesOf

/-! ### Levels of statements -/

variable (known) in
/-- The level of a statement: its qualifiers, its tag and the rest. -/
theorem items_statement (hroles : Respects scope rolesOf) {left : List String}
    (hleft : ∀ text ∈ left, IsQualifierWord scope text) (tag : Option String)
    (trees : List TokenTree) (rest : Level) :
    items rolesOf (TokenTree.marks left ++ tagTrees scope known tag ++ trees) ++ rest =
      Level.ofMarks left ++ (items rolesOf (tagTrees scope known tag) ++
        (items rolesOf trees ++ rest)) := by
  have hmarks : ∀ text ∈ left, IsMark scope text :=
    fun text htext => Or.inr (Or.inr (hleft text htext))
  rw [TokenTree.items_append, TokenTree.items_append, TokenTree.items_marks hroles hmarks,
    List.append_assoc, List.append_assoc]

theorem items_terminated (hroles : Respects scope rolesOf)
    (hsemicolon : (scope.keywords .c).isQualifier ";" = false) (statement rest : List TokenTree) :
    items rolesOf (statement ++ TokenTree.symbol scope known ";" :: rest) =
      items rolesOf statement ++ Level.ofSemicolon (items rolesOf rest) := by
  rw [TokenTree.items_append, items, TokenTree.item_symbol hroles, hsemicolon]
  rfl

/-- A statement is not empty and does not start with a `;`. -/
theorem start_statement (hroles : Respects scope rolesOf) {left : List String}
    (hleft : ∀ text ∈ left, IsQualifierWord scope text) {tag : Option String}
    (htag : ∀ text ∈ tag, IsFreeWord scope text) {trees : List TokenTree}
    (hnone : tag = none → ∃ body rest, trees = .group .brace body :: rest) :
    TokenTree.marks left ++ tagTrees scope known tag ++ trees ≠ [] ∧
      Level.isToken (items rolesOf (TokenTree.marks left ++ tagTrees scope known tag ++ trees))
        ";" =
        false := by
  have hword {text : String} {roles : Roles} (h : IsWord text) :
      (Item.token text roles).isToken ";" = false := by
    refine isToken_of_value_ne ?_
    rintro rfl
    exact absurd h (by decide)
  -- Without a tag the body stands in front, and a body is no `;`.
  have hrest : tagTrees scope known tag ++ trees ≠ [] ∧
      ∀ item ∈ (items rolesOf (tagTrees scope known tag) ++ items rolesOf trees).head?,
        item.isToken ";" = false := by
    cases tag with
    | none =>
      obtain ⟨body, rest, rfl⟩ := hnone rfl
      refine ⟨by simp, ?_⟩
      rintro item ⟨⟩
      rfl
    | some tag =>
      obtain ⟨roles, -, -, hitem⟩ : ∃ roles : Roles, _ ∧ _ ∧
          TokenTree.item rolesOf (TokenTree.word scope known tag) = .token tag roles :=
        TokenTree.item_word hroles (htag tag rfl)
      refine ⟨by simp [tagTrees], ?_⟩
      rintro item ⟨⟩
      rw [hitem]
      exact hword (htag tag rfl).isWord
  have hlevel := items_statement known hroles hleft tag trees []
  rw [List.append_nil, List.append_nil] at hlevel
  refine ⟨by rw [List.append_assoc]; exact List.append_ne_nil_of_right_ne_nil _ hrest.1, ?_⟩
  rw [hlevel]
  refine isToken_of_head (forall_head_append ?_ hrest.2)
  intro item hitem
  obtain ⟨text, htext, rfl⟩ := List.mem_map.mp (List.mem_of_mem_head? hitem)
  exact hword (hleft text htext).isWord

/-! ### Bodies -/

theorem readsMembers_nil :
    ReadsMembers scope known rolesOf TypeDecl.readMembers names [] names := by
  intro types _ h
  refine ⟨[], types, ?_, h, fun _ => writes_empty⟩
  rw [items, TypeDecl.readMembers]
  rfl

/-- A statement in a body is read before the ones after it. -/
theorem readsMembers_cons (hroles : Respects scope rolesOf)
    (hsemicolon : (scope.keywords .c).isQualifier ";" = false) {statement rest : List TokenTree}
    (hstatement : ReadsStatement scope known rolesOf names statement names')
    (hrest : ReadsMembers scope known rolesOf TypeDecl.readMembers names' rest names'') :
    ReadsMembers scope known rolesOf TypeDecl.readMembers names
      (statement ++ TokenTree.symbol scope known ";" :: rest) names'' := by
  intro types hsound h
  obtain ⟨declaration, types₁, hread, hgains₁, hwrites⟩ :=
    hstatement.exists_read types hsound h (items rolesOf rest)
  have hsound₁ : types₁.Sound :=
    ((sustains_read.2.2.2.1 _ _ hsound TypeTable.resolves_nil).of_ok hread).2.1
  obtain ⟨members, types₂, hmembers, hgains₂, hwrites'⟩ := hrest types₁ hsound₁ hgains₁
  refine ⟨.declaration declaration :: members, types₂, ?_, hgains₂, fun depth =>
    writes_renderMembers_cons (hwrites depth) (hwrites' depth)⟩
  have hne : items rolesOf statement ≠ [] := Declarator.items_ne_nil hstatement.ne_nil
  have hnot := hstatement.not_semicolon
  rw [items_terminated hroles hsemicolon]
  obtain ⟨item, others, hitems⟩ := List.exists_cons_of_ne_nil hne
  rw [hitems] at hread hnot ⊢
  have hitem : item.isToken ";" = false := hnot
  -- The `;` behind the statement makes the rest lighter, so the reader goes on.
  have hlt : (items rolesOf rest).weight <
      Level.weight (item :: (others ++ Level.ofSemicolon (items rolesOf rest))) :=
    Declarator.weight_lt_of_cons_suffix
      ((List.suffix_append others _).trans (List.suffix_cons item _))
  rw [List.cons_append] at hread ⊢
  rw [TypeDecl.readMembers, if_neg (by simp [hitem]), bind_of_ok hread]
  dsimp only
  rw [if_pos hlt, bind_of_ok hmembers]
  rfl

theorem readsMembers_enum {entries : List (List TokenTree)}
    (hentries : ∀ entry ∈ entries, TokenTree.IsEnumerator scope known entry) :
    ReadsMembers scope known rolesOf (TypeDecl.readContents true) names
      (commaSeparated scope known entries) names := by
  intro types _ h
  exact ⟨_, types, rfl, h, fun depth =>
    writes_renderMembers_enum depth (exists_enumerators hentries)⟩

/-- A body is read after the qualifiers and the tag of its type. -/
theorem exists_readBody? {level rest : Level} {body : List TokenTree}
    (hafter : TypeDecl.afterTypeName level.afterLeftQualifiers =
      TokenTree.item rolesOf (.group .brace body) :: rest)
    (hbody : ReadsMembers scope known rolesOf
      (TypeDecl.readContents (level.leftQualifiers.has "enum")) names body names')
    (hsound : types.Sound) (h : scope.Gains names types) :
    ∃ members types', TypeDecl.readBody? level { scope with types } =
        .ok (some members) { scope with types := types' } ∧
      types.keys <+: types'.keys ∧ types'.Sound ∧ scope.Gains names' types' ∧
      ∀ depth, Writes (scope.keywords .c) known (renderMembers depth members) body := by
  obtain ⟨members, types', hread, hgains, hwrites⟩ := hbody types hsound h
  have hcontents : (TypeDecl.afterTypeName level.afterLeftQualifiers).groupContents? .brace =
      some (items rolesOf body) := by
    rw [hafter]
    exact TypeDecl.groupContents?_body rolesOf body rest
  -- The entries of an enum and the fields of the other types are read by different readers.
  have hread? : TypeDecl.readBody? level { scope with types } =
      .ok (some members) { scope with types := types' } := by
    rw [TypeDecl.readBody?_of_contents hcontents]
    rw [TypeDecl.readContents] at hread
    split at hread
    · rename_i henum
      rw [if_pos henum]
      cases hread
      rfl
    · rename_i henum
      rw [if_neg henum, bind_of_ok hread]
      rfl
  obtain ⟨hgrows, hsound', -⟩ :=
    (sustains_read.2.1 level _ hsound TypeTable.resolves_nil).of_ok hread?
  exact ⟨members, types', hread?, hgrows.keys_grow, hsound', hgains, hwrites⟩

/-- There is no body where no brace follows the tag. -/
theorem readBody?_of_noGroup {level : Level}
    (h : Level.NoGroup .brace (TypeDecl.afterTypeName level.afterLeftQualifiers))
    (reading : Scope) :
    TypeDecl.readBody? level reading = .ok none reading := by
  rw [TypeDecl.readBody?_of_none (Level.groupContents?_of_noGroup h)]
  rfl

/-! ### What stands beside a type -/

theorem Declaration.readInstances_of_readSeparated {reading : Scope} {ref : TypeRef} {level : Level}
    {result : List Declarator × Level}
    (h : level.readSeparated (Declarator.read reading (some (Declarator.ofBase ref)) {}) =
      .ok result) :
    readInstances ref level reading = .ok result reading := by
  have hget : (get : Reading Scope) reading = .ok reading reading := rfl
  have hlifted : Reading.ofExcept
      (level.readSeparated (Declarator.read reading (some (Declarator.ofBase ref)) {})) reading =
        .ok result reading := by
    rw [h]
    rfl
  rw [readInstances, bind_of_ok hget]
  exact hlifted

/-- The variables of a type are read once the type is known. -/
theorem exists_readBeside_tagged (hroles : Respects scope rolesOf) (hcomma : scope.Plain ",")
    {tag : Option String} (htag : ∀ text ∈ tag, IsWord text) (h : scope.Gains names types)
    {parts : List (List TokenTree)}
    (hparts : ∀ part ∈ parts, ∃ name, IsBare (scope.adding (names ++ tag.toList)) known name part)
    (qualifiers : Qualifiers) (members : Option (List Member)) (rest : Level) :
    ∃ instances types', Declaration.readBeside (.tagged qualifiers tag members)
        (items rolesOf (commaSeparated scope known parts) ++ Level.ofSemicolon rest)
          { scope with types } =
          .ok (.type (.tagged qualifiers tag members) instances, Level.ofSemicolon rest)
            { scope with types := types' } ∧
      scope.Gains (names ++ tag.toList) types' ∧ WriteEach scope known parts instances := by
  rw [Declaration.readBeside]
  split
  · -- A type that nothing can refer to is not added to the scope.
    rename_i hnothing
    obtain ⟨hnone, hend⟩ := (Bool.and_eq_true _ _).mp hnothing
    obtain rfl : tag = none := Option.isNone_iff_eq_none.mp hnone
    have hgains : scope.Gains (names ++ []) types := by rwa [List.append_nil]
    cases parts with
    | nil => exact ⟨[], types, rfl, hgains, .nil⟩
    | cons part parts =>
      obtain ⟨name, hpart⟩ := readsBare_each hroles hcomma hgains hparts part List.mem_cons_self
      rw [TokenTree.commaSeparated_cons, TokenTree.items_append, List.append_assoc] at hend
      exact absurd hend (not_atStatementEnd hpart _)
  · obtain ⟨ref, types₁, hregister, hgains⟩ :=
      h.exists_register (.tagged qualifiers tag members) htag
    have hgains : scope.Gains (names ++ tag.toList) types₁ := hgains
    have hroles' : Respects { scope with types := types₁ } rolesOf := hroles
    obtain ⟨instances, hread, hwrites⟩ : ∃ instances, Level.readSeparated
        (Declarator.read { scope with types := types₁ } (some (Declarator.ofBase ref)) {})
        (items rolesOf (commaSeparated scope known parts) ++ Level.ofSemicolon rest) =
          .ok (instances, Level.ofSemicolon rest) ∧ WriteEach scope known parts instances :=
      Level.readSeparated_items hroles' (hgains.plain hcomma (by decide))
        (readsBare_each hroles hcomma hgains hparts) _ rest
    refine ⟨instances, types₁, ?_, hgains, hwrites⟩
    rw [bind_of_ok hregister]
    dsimp only
    rw [bind_of_ok (Declaration.readInstances_of_readSeparated hread)]
    rfl

/-- The names of a typedef after the first one are read once the first one is known. -/
theorem exists_readBeside_synonym {name : String} {parts : List (List TokenTree)}
    (hparts : TypeDecl.ReadsSiblings scope known rolesOf (names ++ [name]) parts names')
    (hname : IsWord name) (h : scope.Gains names types) (qualifiers : Qualifiers)
    (typedef : Typedef) (rest : Level) :
    ∃ siblings types', Declaration.readBeside (.synonym qualifiers name typedef)
        (items rolesOf (afterCommas scope known parts) ++ Level.ofSemicolon rest)
          { scope with types } =
          .ok (.type (.synonym qualifiers name typedef) siblings, Level.ofSemicolon rest)
            { scope with types := types' } ∧
      scope.Gains names' types' ∧ WriteEach scope known parts siblings := by
  obtain ⟨ref, types₁, hregister, hgains⟩ := h.exists_register (.synonym qualifiers name typedef)
    (by rintro text ⟨⟩; exact hname)
  obtain ⟨siblings, types', hread, hgains', hwrites⟩ :=
    hparts typedef.aliased qualifiers types₁ rest hgains
  refine ⟨siblings, types', ?_, hgains', hwrites⟩
  rw [Declaration.readBeside, if_neg (by simp [TypeDecl.name?]), bind_of_ok hregister]
  dsimp only
  rw [bind_of_ok hread]
  rfl

/-! ### Statements -/

/-- No body follows the type of a variable. -/
theorem noBrace_afterType (hroles : Respects scope rolesOf) (hcomma : scope.Plain ",")
    (h : scope.Gains names types) {right : List String} {name : Option String}
    {endsInArguments : Bool} {core : List TokenTree} (hright : AreMarks scope right)
    (hcore : Derives (scope.adding names) known (.core name endsInArguments) core)
    (further : List (List TokenTree)) (rest : Level) :
    Level.NoGroup .brace (items rolesOf (TokenTree.marks right ++ core ++
      afterCommas scope known further) ++ Level.ofSemicolon rest) := by
  have hroles' : Respects { scope with types } rolesOf := hroles
  have hcore' : Derives { scope with types } known (.core name endsInArguments) core :=
    hcore.congr types h.knows_eq
  have hmeets : Declarator.ReadsCore { scope with types } known rolesOf name endsInArguments core :=
    Declarator.meets_of_derives hroles' (h.plain hcomma (by decide)) hcore'
  have hstops : Stops (items rolesOf (afterCommas scope known further) ++ Level.ofSemicolon rest) :=
    stops_afterCommas hroles hcomma further rest
  rw [TokenTree.items_append, TokenTree.items_append, TokenTree.items_marks hroles hright.each,
    List.append_assoc, List.append_assoc]
  refine forall_head_append ?_
    (forall_head_append hmeets.noBrace (Level.noGroup_of_stops hstops .brace))
  intro item hitem
  obtain ⟨text, -, rfl⟩ := List.mem_map.mp (List.mem_of_mem_head? hitem)
  rfl

/-- The declarators of a statement are read up to its end, and their text writes them. -/
theorem exists_readVariables (hroles : Respects scope rolesOf) (hcomma : scope.Plain ",")
    (h : scope.Gains names types) {first : List TokenTree} {further : List (List TokenTree)}
    (hfirst : Derives (scope.adding names) known (.declarator true) first)
    (hfurther : ∀ part ∈ further, ∃ name, IsBare (scope.adding names) known name part)
    (rest : Level) :
    ∃ declaration, Declaration.readVariables { scope with types }
        (items rolesOf (commaSeparated scope known (first :: further)) ++ Level.ofSemicolon rest) =
          .ok (declaration, Level.ofSemicolon rest) ∧
      ∀ depth, Writes (scope.keywords .c) known (declaration.render depth)
        (commaSeparated scope known (first :: further)) := by
  have hroles' : Respects { scope with types } rolesOf := hroles
  have hplain : { scope with types }.Plain "," := h.plain hcomma (by decide)
  have hderives : Derives { scope with types } known (.declarator true) first :=
    hfirst.congr types h.knows_eq
  have hentry : Declarator.ReadsEntry { scope with types } known rolesOf true first :=
    Declarator.meets_of_derives hroles' hplain hderives
  obtain ⟨declarator, hread, htext⟩ := hentry.exists_read
    (items rolesOf (afterCommas scope known further) ++ Level.ofSemicolon rest)
    (stops_afterCommas hroles hcomma further rest) (by simp)
  -- The further declarators are bare ones, which take the type of the first.
  obtain ⟨others, hothers, htexts⟩ : ∃ others,
    Declaration.readFurther { scope with types } declarator
      declarator (items rolesOf (afterCommas scope known further) ++ Level.ofSemicolon rest) =
        .ok (others, Level.ofSemicolon rest) ∧ WriteEach scope known further others := by
    refine Declaration.readFurther_items hroles' hplain (fun part hpart stop hstop =>
      ?_) declarator rest
    obtain ⟨name, hbare⟩ := readsBare_each hroles hcomma h hfurther part hpart
    obtain ⟨other, hother, -, htext⟩ := hbare.exists_read declarator stop hstop
    exact ⟨other, hother, htext⟩
  rw [TokenTree.commaSeparated_cons]
  refine ⟨.names (declarator :: others), ?_, fun depth => ?_⟩
  · rw [TokenTree.items_append, List.append_assoc, Declaration.readVariables, hread]
    dsimp only [bind, Except.bind]
    rw [hothers]
    rfl
  · rw [Declaration.render]
    exact Writes.append_further htext htexts

/-- Variables of a type that is known. -/
theorem readsStatement_variables (hroles : Respects scope rolesOf) (hcomma : scope.Plain ",")
    {left right : List String} {base : String} {name : Option String} {endsInArguments : Bool}
    {core : List TokenTree} {further : List (List TokenTree)}
    (hleft : ∀ text ∈ left, IsQualifierWord scope text) (hvariables : "typedef" ∉ left)
    (hbase : IsTypeWord (scope.adding names) base) (hright : AreMarks scope right)
    (hcore : Derives (scope.adding names) known (.core name endsInArguments) core)
    (harguments : endsInArguments = true → right = [] ∨ right.head?.any isPointerMarker = true ∨
      right.getLast?.any isPointerMarker = false)
    (hfurther : ∀ part ∈ further, ∃ name, IsBare (scope.adding names) known name part) :
    ReadsStatement scope known rolesOf names
      (commaSeparated scope known
        ((TokenTree.marks left ++ [TokenTree.word scope known base] ++
          TokenTree.marks right ++ core) ::
          further)) names := by
  have hfirst : Derives (scope.adding names) known (.declarator true)
      (TokenTree.marks left ++ [TokenTree.word scope known base] ++
          TokenTree.marks right ++ core) :=
    .typed (fun text htext => (hleft text htext).congr _) hbase (hright.congr _) hcore harguments
  have hfree : ∀ text ∈ some base, IsFreeWord scope text := by
    rintro text ⟨⟩
    exact hbase.toIsFreeWord.congr scope.types
  have htrees :
      commaSeparated scope known
        ((TokenTree.marks left ++ [TokenTree.word scope known base] ++ TokenTree.marks right ++
        core) :: further) = TokenTree.marks left ++ tagTrees scope known (some base) ++
        (TokenTree.marks right ++ core ++ afterCommas scope known further) := by
    simp [TokenTree.commaSeparated_cons, tagTrees]
  obtain ⟨hne, hsemicolon⟩ : commaSeparated scope known (_ :: further) ≠ [] ∧
      Level.isToken (items rolesOf (commaSeparated scope known (_ :: further))) ";" = false := by
    rw [htrees]
    exact start_statement hroles hleft hfree (by rintro ⟨⟩)
  refine ⟨hne, hsemicolon, fun types hsound h rest => ?_⟩
  obtain ⟨declaration, hread, hwrites⟩ := exists_readVariables hroles hcomma h hfirst hfurther rest
  have hlevel := items_statement known hroles hleft (some base)
    (TokenTree.marks right ++ core ++ afterCommas scope known further) (Level.ofSemicolon rest)
  rw [← htrees] at hlevel
  obtain ⟨hqualifiers, hafter, -, -⟩ :=
    TypeDecl.typeHead_items hroles hleft hfree (by rintro ⟨⟩) hlevel
  obtain ⟨roles, -, -, hitem⟩ : ∃ roles : Roles, _ ∧ _ ∧
      TokenTree.item rolesOf (TokenTree.word scope known base) = .token base roles :=
    TokenTree.item_word hroles (hfree base rfl)
  have hitems : items rolesOf (tagTrees scope known (some base)) = [.token base roles] := by
    show [TokenTree.item rolesOf (TokenTree.word scope known base)] = _
    rw [hitem]
  rw [hitems, List.singleton_append] at hafter
  -- Nothing says that the statement declares a type.
  have hknows : { scope with types }.knows base = true := by
    rw [h.knows_eq]
    exact hbase.knows
  have hbrace := noBrace_afterType hroles hcomma h hright hcore further rest
  have hvariable := TypeDecl.isDeclaredAt_of_known hqualifiers hvariables hafter hknows hbrace
  have hstatement := Declaration.read_of_variables hvariable hread
  rw [afterSemicolon_semicolon] at hstatement
  exact ⟨declaration, types, hstatement, h, hwrites⟩

/-- A type with a body. -/
theorem readsStatement_tagged (hroles : Respects scope rolesOf) (hcomma : scope.Plain ",")
    {left : List String} {tag : Option String} {body : List TokenTree}
    {instances : List (List TokenTree)} (hleft : ∀ text ∈ left, IsQualifierWord scope text)
    (htagged : "typedef" ∉ left) (htag : ∀ text ∈ tag, IsFreeWord scope text)
    (hbody : ReadsMembers scope known rolesOf
      (TypeDecl.readContents (left.contains "enum")) names body
      names')
    (hinstances : ∀ part ∈ instances,
      ∃ name, IsBare (scope.adding (names' ++ tag.toList)) known name part) :
    ReadsStatement scope known rolesOf names
      (TokenTree.marks left ++ tagTrees scope known tag ++ [.group .brace body] ++
        commaSeparated scope known instances) (names' ++ tag.toList) := by
  rw [List.append_assoc _ [TokenTree.group .brace body], List.singleton_append]
  obtain ⟨hne, hsemicolon⟩ := start_statement hroles hleft htag fun _ => ⟨body, _, rfl⟩
  refine ⟨hne, hsemicolon, fun types hsound h rest => ?_⟩
  rw [items_statement known hroles hleft]
  generalize hlevel : Level.ofMarks left ++ _ = level
  obtain ⟨hqualifiers, hafter, hname, hafterName⟩ :=
    TypeDecl.typeHead_items hroles hleft htag (fun _ =>
      TypeDecl.head_body rolesOf body _) hlevel.symm
  -- The members come first, then the tag is added, and the variables are read with it.
  obtain ⟨members, types₁, hread, -, -, hgains₁, hwrites⟩ :=
    exists_readBody? hafterName (by rw [hqualifiers]; exact hbody) hsound h
  have htypedef : level.leftQualifiers.has "typedef" = false := by
    rw [hqualifiers]
    exact TypeDecl.has_typedef_of_not_mem htagged
  have hdeclared := TypeDecl.read_of_body htypedef hread
  rw [hqualifiers, hname, hafterName] at hdeclared
  have hword : ∀ text ∈ tag, IsWord text := fun text htext => (htag text htext).isWord
  obtain ⟨declarators, types₂, hbeside, hgains₂, htexts⟩ :=
    exists_readBeside_tagged hroles hcomma hword hgains₁ hinstances ⟨left⟩ (some members) rest
  have hstatement :=
    Declaration.read_of_type (TypeDecl.isDeclaredAt_of_body hafter _) hdeclared hbeside
  rw [afterSemicolon_semicolon] at hstatement
  refine ⟨_, types₂, hstatement, hgains₂, fun depth => ?_⟩
  have htype := TypeDecl.writes_render_tagged hleft htag (hwrites (depth + 1))
  have hwhole := htype.append_instances htexts
  rw [Declaration.render_tagged]
  simpa using hwhole

/-- A type that is not known yet, without a body. -/
theorem readsStatement_introduced (hroles : Respects scope rolesOf) (hcomma : scope.Plain ",")
    {left : List String} {tag : String} {instances : List (List TokenTree)}
    (hleft : ∀ text ∈ left, IsQualifierWord scope text) (htagged : "typedef" ∉ left)
    (hintroduced : (∃ text ∈ TypeDecl.introducers, text ∈ left) ∨
      ∃ token first further, instances = (.leaf token :: first) :: further)
    (htag : IsNameWord scope known tag) (hnew : (scope.adding names).knows tag = false)
    (hinstances : ∀ part ∈ instances, ∃ name,
      IsBare (scope.adding (names ++ [tag])) known name part) :
    ReadsStatement scope known rolesOf names
      (TokenTree.marks left ++ tagTrees scope known (some tag) ++
        commaSeparated scope known instances)
      (names ++ [tag]) := by
  have hfree : ∀ text ∈ some tag, IsFreeWord scope text := by
    rintro text ⟨⟩
    exact htag.toIsFreeWord
  have hword : ∀ text ∈ some tag, IsWord text := fun text htext => (hfree text htext).isWord
  obtain ⟨hne, hsemicolon⟩ := start_statement hroles hleft hfree (by rintro ⟨⟩)
  refine ⟨hne, hsemicolon, fun types hsound h rest => ?_⟩
  -- What the instances start with does not depend on the place that the type takes in the table.
  obtain ⟨-, types₀, -, hgains₀⟩ := h.exists_register (.ofName (some tag)) hword
  have hbare := readsBare_each hroles hcomma hgains₀ hinstances
  have hroles₀ : Respects { scope with types := types₀ } rolesOf := hroles
  have hbrace : Level.NoGroup .brace
      (items rolesOf (commaSeparated scope known instances) ++ Level.ofSemicolon rest) :=
    noBrace_commaSeparated hroles₀ (hgains₀.plain hcomma (by decide)) hbare rest
  have hgoesOn : (∃ text ∈ TypeDecl.introducers, text ∈ left) ∨ TypeDecl.endsDeclarator
      (items rolesOf (commaSeparated scope known instances) ++ Level.ofSemicolon rest) = false := by
    refine hintroduced.imp_right ?_
    rintro ⟨token, first, further, rfl⟩
    obtain ⟨name, hfirst⟩ := hbare _ List.mem_cons_self
    rw [TokenTree.commaSeparated_cons, TokenTree.items_append, List.append_assoc]
    exact TypeDecl.endsDeclarator_of_leaf hfirst _
  rw [items_statement known hroles hleft]
  generalize hlevel : Level.ofMarks left ++ _ = level
  obtain ⟨hqualifiers, hafter, hname, hafterName⟩ :=
    TypeDecl.typeHead_items hroles hleft hfree (by rintro ⟨⟩) hlevel.symm
  have hbody := readBody?_of_noGroup (by rw [hafterName]; exact hbrace) { scope with types }
  have htypedef : level.leftQualifiers.has "typedef" = false := by
    rw [hqualifiers]
    exact TypeDecl.has_typedef_of_not_mem htagged
  have hdeclared := TypeDecl.read_of_noBody htypedef hbody
  rw [hqualifiers, hname, hafterName] at hdeclared
  obtain ⟨declarators, types₁, hbeside, hgains₁, htexts⟩ :=
    exists_readBeside_tagged hroles hcomma hword h hinstances ⟨left⟩ none rest
  have hunknown : { scope with types }.knows tag = false := by rw [h.knows_eq, hnew]
  have hstatement := Declaration.read_of_type
    (TypeDecl.isDeclaredAt_of_introduced hroles hqualifiers hafter hgoesOn htag hunknown)
      hdeclared hbeside
  rw [afterSemicolon_semicolon] at hstatement
  refine ⟨_, types₁, hstatement, hgains₁, fun depth => ?_⟩
  rw [Declaration.render_tagged]
  exact Writes.append_instances (TypeDecl.writes_render_untagged hleft hfree) htexts

/-- Further names of a type that is only named. -/
theorem readsStatement_typedef (hroles : Respects scope rolesOf) (hcomma : scope.Plain ",")
    {left : List String} {aliased : String} {synonyms : List TokenTree}
    (hleft : ∀ text ∈ left, IsQualifierWord scope text) (haliased : IsFreeWord scope aliased)
    (hsynonyms : ReadsSynonyms scope known rolesOf (names ++ [aliased]) synonyms names') :
    ReadsStatement scope known rolesOf names
      (TokenTree.marks ("typedef" :: left) ++ tagTrees scope known (some aliased) ++
        synonyms) names' := by
  obtain ⟨name, part, parts, rfl, hbare, hparts⟩ := hsynonyms
  have hleft' : ∀ text ∈ "typedef" :: left, IsQualifierWord scope text :=
    List.forall_mem_cons.mpr ⟨TypeDecl.isQualifierWord_typedef scope, hleft⟩
  have hfree : ∀ text ∈ some aliased, IsFreeWord scope text := by
    rintro text ⟨⟩
    exact haliased
  obtain ⟨hne, hsemicolon⟩ := start_statement hroles hleft' hfree (by rintro ⟨⟩)
  refine ⟨hne, hsemicolon, fun types hsound h rest => ?_⟩
  have hstops : Stops (items rolesOf (afterCommas scope known parts) ++ Level.ofSemicolon rest) :=
    stops_afterCommas hroles hcomma parts rest
  rw [items_statement known hroles hleft', TokenTree.items_append, List.append_assoc]
  generalize hlevel : Level.ofMarks ("typedef" :: left) ++ _ = level
  obtain ⟨hqualifiers, -, htag, hafterName⟩ :=
    TypeDecl.typeHead_items hroles hleft' hfree (by rintro ⟨⟩) hlevel.symm
  -- The aliased name is found or added before the first declarator is read.
  obtain ⟨ref, types₁, hnamed, hgains₁, -, hnames⟩ :=
    TypeDecl.exists_findOrDeclare h hsound fun text htext => (hfree text htext).isWord
  have hpart := readsBare_of_gains hroles hcomma hgains₁ hbare
  have hbrace := forall_head_append hpart.noBrace (Level.noGroup_of_stops hstops .brace)
  have hbody :=
    readBody?_of_noGroup (by rw [hafterName]; exact hbrace) { scope with types := types₁ }
  obtain ⟨declarator, hread, hname, htext⟩ := hpart.exists_read (Declarator.ofBase ref) _ hstops
  rw [← hafterName] at hread
  have hdeclared := TypeDecl.readTypedef_of_noBody hqualifiers htag hnamed hbody hread hname
  obtain ⟨siblings, types₂, hbeside, hgains₂, htexts⟩ := exists_readBeside_synonym hparts
    (hpart.isWord name rfl) hgains₁ ⟨left⟩ ⟨ref, none, declarator⟩ rest
  have hstatement := Declaration.read_of_type
    (TypeDecl.isDeclaredAt_of_typedef (by rw [hqualifiers]; rfl) _) hdeclared hbeside
  rw [afterSemicolon_semicolon] at hstatement
  refine ⟨_, types₂, hstatement, hgains₂, fun depth => ?_⟩
  have haliased' :
      Writes (scope.keywords .c) known ref.name (tagTrees scope known (some aliased)) := by
    rw [hnames.2]
    exact haliased.isWord.writes
  rw [Declaration.render_synonym, TypeDecl.render, ← List.append_assoc]
  exact (TypeDecl.writes_typedef hleft haliased' htext).append_further htexts

/-- Further names of a type with its body. -/
theorem readsStatement_typedefBody (hroles : Respects scope rolesOf) (hcomma : scope.Plain ",")
    {left : List String} {tag : Option String} {body synonyms : List TokenTree}
    (hleft : ∀ text ∈ left, IsQualifierWord scope text) (htag : ∀ text ∈ tag, IsFreeWord scope text)
    (hbody : ReadsMembers scope known rolesOf (TypeDecl.readContents (left.contains "enum"))
      (names ++ tag.toList) body names')
    (hsynonyms : ReadsSynonyms scope known rolesOf names' synonyms names'') :
    ReadsStatement scope known rolesOf names
      (TokenTree.marks ("typedef" :: left) ++ tagTrees scope known tag ++
        [.group .brace body] ++ synonyms)
      names'' := by
  obtain ⟨name, part, parts, rfl, hbare, hparts⟩ := hsynonyms
  have hleft' : ∀ text ∈ "typedef" :: left, IsQualifierWord scope text :=
    List.forall_mem_cons.mpr ⟨TypeDecl.isQualifierWord_typedef scope, hleft⟩
  rw [List.append_assoc _ [TokenTree.group .brace body], List.singleton_append]
  obtain ⟨hne, hsemicolon⟩ := start_statement hroles hleft' htag fun _ => ⟨body, _, rfl⟩
  refine ⟨hne, hsemicolon, fun types hsound h rest => ?_⟩
  have hstops : Stops (items rolesOf (afterCommas scope known parts) ++ Level.ofSemicolon rest) :=
    stops_afterCommas hroles hcomma parts rest
  rw [items_statement known hroles hleft', items, TokenTree.items_append, List.cons_append,
    List.append_assoc]
  generalize hlevel : Level.ofMarks ("typedef" :: left) ++ _ = level
  obtain ⟨hqualifiers, -, htag', hafterName⟩ :=
    TypeDecl.typeHead_items hroles hleft' htag (fun _ =>
      TypeDecl.head_body rolesOf body _) hlevel.symm
  obtain ⟨ref, types₁, hnamed, hgains₁, hsound₁, hnames⟩ :=
    TypeDecl.exists_findOrDeclare h hsound fun text htext => (htag text htext).isWord
  have henum : ("typedef" :: left).contains "enum" = left.contains "enum" := by simp
  obtain ⟨members, types₂, hmembers, hbegins, -, hgains₂, hwrites⟩ :=
    exists_readBody? hafterName (by rw [hqualifiers, Qualifiers.has, henum]; exact hbody)
      hsound₁ hgains₁
  -- The entry found or added under the tag is still there after the body, and is filled in.
  obtain ⟨filled, types₃, hdefine, hgains₃⟩ := hgains₂.exists_define (hnames.mono hbegins)
    (.tagged {} tag (some members))
  have hpart := readsBare_of_gains hroles hcomma hgains₃ hbare
  obtain ⟨declarator, hread, hname, htext⟩ := hpart.exists_read (Declarator.ofBase filled) _ hstops
  have hnext : (TypeDecl.afterTypeName level.afterLeftQualifiers).next = items rolesOf part ++
      (items rolesOf (afterCommas scope known parts) ++ Level.ofSemicolon rest) := by
    rw [hafterName]
    rfl
  rw [← hnext] at hread
  have hdeclared :=
    TypeDecl.readTypedef_of_body hqualifiers htag' hnamed hmembers hdefine hread hname
  obtain ⟨siblings, types₄, hbeside, hgains₄, htexts⟩ := exists_readBeside_synonym hparts
    (hpart.isWord name rfl) hgains₃ ⟨left⟩ ⟨filled, some (.tagged {} tag (some members)),
      declarator⟩ rest
  have hstatement := Declaration.read_of_type
    (TypeDecl.isDeclaredAt_of_typedef (by rw [hqualifiers]; rfl) _) hdeclared hbeside
  rw [afterSemicolon_semicolon] at hstatement
  refine ⟨_, types₄, hstatement, hgains₄, fun depth => ?_⟩
  have hdefinition :=
    TypeDecl.writes_render_tagged (List.forall_mem_nil _) htag (hwrites (depth + 1))
  have hwhole := (TypeDecl.writes_typedef hleft hdefinition htext).append_further htexts
  rw [Declaration.render_synonym, TypeDecl.render]
  simpa [TokenTree.marks] using hwhole

/-! ### Every statement -/

/-- Every part of a statement of the grammar is read to its end, and its text writes it. -/
theorem meets_of_builds (hroles : Respects scope rolesOf) (hcomma : scope.Plain ",")
    (hsemicolon : (scope.keywords .c).isQualifier ";" = false) {construct : Construct}
    {trees : List TokenTree} (h : Builds scope known construct names trees names') :
    construct.Meets scope known rolesOf names trees names' := by
  -- By induction on how the trees are built: each rule has the lemma about what it builds.
  induction h with
  | declarators hleft hvariables hbase hright hcore harguments hfurther =>
    exact readsStatement_variables hroles hcomma hleft hvariables hbase hright hcore
      harguments hfurther
  | introduced hleft htagged hintroduced htag hnew hinstances =>
    exact readsStatement_introduced hroles hcomma hleft htagged hintroduced htag hnew hinstances
  | tagged hleft htagged htag _ hinstances hbody =>
    exact readsStatement_tagged hroles hcomma hleft htagged htag hbody hinstances
  | typedef hleft haliased _ hsynonyms =>
    exact readsStatement_typedef hroles hcomma hleft haliased hsynonyms
  | typedefBody hleft htag _ _ hbody hsynonyms =>
    exact readsStatement_typedefBody hroles hcomma hleft htag hbody hsynonyms
  | noFields => exact readsMembers_nil
  | field _ _ hstatement hrest => exact readsMembers_cons hroles hsemicolon hstatement hrest
  | fieldsBody _ hfields => exact hfields
  | enumBody hentries => exact readsMembers_enum hentries
  | @lastSynonym names name trees hbare =>
    exact ⟨name, trees, [], by simp [afterCommas], hbare, TypeDecl.readsSiblings_nil⟩
  | @synonym names names' name trees rest hbare _ hrest =>
    obtain ⟨next, part, parts, rfl, hnext, hparts⟩ := hrest
    exact ⟨name, trees, part :: parts, rfl, hbare,
      TypeDecl.readsSiblings_cons hroles hcomma hnext hparts⟩

/-- A statement is the next one of a level that starts with it. -/
theorem Declaration.next?_of_read {level rest : Level} {before after : Scope}
    {declaration : Declaration} (hne : level ≠ []) (hsemicolon : level.isToken ";" = false)
    (h : Declaration.read level before = .ok (declaration, rest) after) :
    next? .c level before = .ok (some (declaration, rest)) after := by
  obtain ⟨item, others, rfl⟩ := List.exists_cons_of_ne_nil hne
  have hitem : item.isToken ";" = false := hsemicolon
  have hstart : afterEmptyStatements (item :: others) = item :: others := by
    rw [afterEmptyStatements, List.dropWhile_cons_of_neg (by simp [hitem])]
  rw [next?, hstart, if_neg (by rintro ⟨⟩), readIn, bind_of_ok h]
  rfl

/-- A statement of the grammar is read up to its `;` in either shape, whatever follows it, and the
types that it introduces are known then.  At any depth, what was read is written as a text that is
cut into the same tokens again, as long as a comma is neither a qualifier nor a type and a `;` is no
qualifier.  The table of types is sound, as every session leaves it. -/
theorem Declaration.ofText_render_statement (hsound : scope.types.Sound) (hcomma : scope.Plain ",")
    (hsemicolon : (scope.keywords .c).isQualifier ";" = false) {trees : List TokenTree}
    (h : Builds scope scope.knows .statement [] trees names) (following : List TokenTree) :
    ∀ itemsOf ∈ [fun trees => (Node.ofTrees trees).items,
        fun trees => (Chain.ofTrees trees).items (scope.keywords .c)],
      ∃ declaration types,
        next? .c (itemsOf (trees ++ TokenTree.symbol scope scope.knows ";" :: following)) scope =
          .ok (some (declaration, itemsOf following)) { scope with types } ∧
        { scope with types }.knows = (scope.adding names).knows ∧
        ∀ depth,
          TokenTree.ofText (scope.keywords .c) scope.knows (declaration.render depth ++ ";") =
          .ok (trees ++ [TokenTree.symbol scope scope.knows ";"]) := by
  have hread : ∀ rolesOf, Respects scope rolesOf → ∃ declaration types,
      next? .c (items rolesOf (trees ++ TokenTree.symbol scope scope.knows ";" :: following))
        scope =
        .ok (some (declaration, items rolesOf following)) { scope with types } ∧
      { scope with types }.knows = (scope.adding names).knows ∧
      ∀ depth, TokenTree.ofText (scope.keywords .c) scope.knows (declaration.render depth ++ ";") =
        .ok (trees ++ [TokenTree.symbol scope scope.knows ";"]) := by
    intro rolesOf hroles
    have hmeets : ReadsStatement scope scope.knows rolesOf [] trees names :=
      meets_of_builds hroles hcomma hsemicolon h
    obtain ⟨declaration, types, hread, hgains, hwrites⟩ :=
      hmeets.exists_read scope.types hsound scope.gains_nil (items rolesOf following)
    refine ⟨declaration, types, ?_, hgains.knows_eq, fun depth => ?_⟩
    · rw [items_terminated hroles hsemicolon]
      have hne : items rolesOf trees ≠ [] := Declarator.items_ne_nil hmeets.ne_nil
      refine next?_of_read (List.append_ne_nil_of_left_ne_nil hne _) ?_ hread
      obtain ⟨item, others, hitems⟩ := List.exists_cons_of_ne_nil hne
      have hstart := hmeets.not_semicolon
      rw [hitems] at hstart ⊢
      exact hstart
    · have hend :
          Writes (scope.keywords .c) scope.knows ";" [TokenTree.symbol scope scope.knows ";"] :=
        writes_symbol (by decide)
      exact writes_iff.mp ((hwrites depth).append hend (apart_of_right (by decide)))
  -- The items of both shapes are those of the trees, with one or the other roles.
  rw [List.forall_mem_cons, List.forall_mem_singleton]
  simp only [Node.items_ofTrees, Chain.items_ofTrees]
  exact ⟨hread _ (respects_tree scope), hread _ (respects_list scope)⟩

namespace Declaration

/-- A list type with a further name for pointers to it is read and written again. -/
theorem ofText_render_node :
    (Scope.ofSettings {}).types.Sound ∧ (Scope.ofSettings {}).Plain "," ∧
      ((Scope.ofSettings {}).keywords .c).isQualifier ";" = false ∧
      ∃ trees, TokenTree.ofText ((Scope.ofSettings {}).keywords .c) (Scope.ofSettings {}).knows
          "typedef struct Node { struct Node *next; enum { RED } color; } Node, *List;" =
            .ok (trees ++
              [TokenTree.symbol (Scope.ofSettings {}) (Scope.ofSettings {}).knows ";"]) ∧
        Builds (Scope.ofSettings {}) (Scope.ofSettings {}).knows .statement [] trees
          ["Node", "Node", "List"] ∧
        ∀ itemsOf ∈ [fun trees => (Node.ofTrees trees).items,
            fun trees => (Chain.ofTrees trees).items ((Scope.ofSettings {}).keywords .c)],
          ∃ declaration types,
            next? .c (itemsOf (trees ++
                [TokenTree.symbol (Scope.ofSettings {}) (Scope.ofSettings {}).knows ";"]))
                (Scope.ofSettings {}) =
              .ok (some (declaration, itemsOf [])) { Scope.ofSettings {} with types } ∧
            { Scope.ofSettings {} with types }.knows =
              ((Scope.ofSettings {}).adding ["Node", "Node", "List"]).knows ∧
            ∀ depth,
              TokenTree.ofText ((Scope.ofSettings {}).keywords .c) (Scope.ofSettings {}).knows
                (declaration.render depth ++ ";") =
              .ok (trees ++
                [TokenTree.symbol (Scope.ofSettings {}) (Scope.ofSettings {}).knows ";"]) := by
  have hsound := TypeTable.sound_ofSettings {}
  have hcomma : (Scope.ofSettings {}).Plain "," := ⟨by decide, by decide⟩
  have hsemicolon : ((Scope.ofSettings {}).keywords .c).isQualifier ";" = false := by decide
  have hstar : AreMarks (Scope.ofSettings {}) ["*"] := ⟨by simp, .singleton _⟩
  have hstruct : ∀ text ∈ ["struct"], IsQualifierWord (Scope.ofSettings {}) text := by
    rw [List.forall_mem_singleton]
    exact ⟨by decide, by decide⟩
  have henum : ∀ text ∈ ["enum"], IsQualifierWord (Scope.ofSettings {}) text := by
    rw [List.forall_mem_singleton]
    exact ⟨by decide, by decide⟩
  have hnode : IsTypeWord ((Scope.ofSettings {}).adding ["Node"]) "Node" :=
    ⟨⟨by decide, by decide⟩, by decide⟩
  have hbare (text : String) (names right : List String)
    (hright : AreMarks (Scope.ofSettings {}) right)
      (h : IsNameWord (Scope.ofSettings {}) (Scope.ofSettings {}).knows text) :
      IsBare ((Scope.ofSettings {}).adding names) (Scope.ofSettings {}).knows (some text)
        (TokenTree.marks right ++ TokenTree.nameTrees (some text)) :=
    isBare_name (hright.congr _) (h.congr _)
  -- The fields.
  have hnext : Derives ((Scope.ofSettings {}).adding ["Node"]) (Scope.ofSettings {}).knows
      (.core (some "next") false) (TokenTree.nameTrees (some "next") ++ []) :=
    .bareVariable (by rintro text ⟨⟩; exact ⟨⟨by decide, by decide⟩, by decide⟩) areDimensions_nil
  have hfirst :=
    Builds.declarators hstruct (by decide) hnode hstar hnext (by simp) (List.forall_mem_nil _)
  have hentries :
      ∀ entry ∈ [[TokenTree.word (Scope.ofSettings {}) (Scope.ofSettings {}).knows "RED"]],
      TokenTree.IsEnumerator (Scope.ofSettings {}) (Scope.ofSettings {}).knows entry := by
    rw [List.forall_mem_singleton]
    exact ⟨"RED", by decide, Or.inl rfl⟩
  have hcolor : ∀ part ∈ [TokenTree.marks [] ++ TokenTree.nameTrees (some "color")], ∃ name,
      IsBare ((Scope.ofSettings {}).adding (["Node"] ++ Option.toList none))
        (Scope.ofSettings {}).knows name part := by
    rw [List.forall_mem_singleton]
    exact ⟨_, hbare "color" _ [] areMarks_nil ⟨⟨by decide, by decide⟩, by decide⟩⟩
  have hnone : ∀ text ∈ (none : Option String), IsFreeWord (Scope.ofSettings {}) text := by simp
  have hsecond := Builds.tagged henum (by decide) hnone (.enumBody hentries) hcolor
  have hfields := Builds.fieldsBody (.field hfirst (.field hsecond .noFields))
  -- The names.
  have hlast := hbare "List" ["Node", "Node"] ["*"] hstar ⟨⟨by decide, by decide⟩, by decide⟩
  have hsynonyms := Builds.synonym
    (hbare "Node" ["Node"] [] areMarks_nil ⟨⟨by decide, by decide⟩, by decide⟩) (.lastSynonym hlast)
  have htag : ∀ text ∈ some "Node", IsFreeWord (Scope.ofSettings {}) text := by
    rintro text ⟨⟩
    exact ⟨by decide, by decide⟩
  have h : Builds (Scope.ofSettings {}) (Scope.ofSettings {}).knows .statement [] _
      ["Node", "Node", "List"] := .typedefBody hstruct htag hfields hsynonyms
  refine ⟨hsound, hcomma, hsemicolon, _, ?_, h,
    ofText_render_statement hsound hcomma hsemicolon h []⟩
  cbv

/-- The texts of the declarations of a source in a new session, if all of them can be read. -/
def rewritten? (settings : Settings) (source : String) : Option (List String) :=
  match ofSource .c source (Scope.ofSettings settings) with
  | .ok declarations _ => some (declarations.map (render 0))
  | .error _ _ => none

/-- The source is read as one declaration, and the text of it is cut into the same tokens. -/
def Rewrites (settings : Settings) (source : String) : Prop :=
  ∃ text, rewritten? settings source = some [text] ∧
    TokenTree.ofText ((Scope.ofSettings settings).keywords .c) (Scope.ofSettings settings).knows
        (text ++ ";") =
      TokenTree.ofText ((Scope.ofSettings settings).keywords .c)
        (Scope.ofSettings settings).knows source

theorem not_rewrites {settings : Settings} {source : String}
    (h : ∀ text ∈ (rewritten? settings source).getD [],
      (TokenTree.ofText ((Scope.ofSettings settings).keywords .c) (Scope.ofSettings settings).knows
        (text ++ ";")).toOption.map TokenTree.texts ≠
      (TokenTree.ofText ((Scope.ofSettings settings).keywords .c) (Scope.ofSettings settings).knows
        source).toOption.map TokenTree.texts) : ¬ Rewrites settings source := by
  rintro ⟨text, hrewrite, htrees⟩
  refine h text ?_ (by rw [htrees])
  rw [hrewrite, Option.getD_some]
  exact List.mem_singleton_self text

/-- The source is a statement of the grammar that declares one type. -/
def IsStatement (settings : Settings) (source name : String) : Prop :=
  ∃ trees, TokenTree.ofText ((Scope.ofSettings settings).keywords .c)
        (Scope.ofSettings settings).knows source =
      .ok (trees ++
        [TokenTree.symbol (Scope.ofSettings settings) (Scope.ofSettings settings).knows ";"]) ∧
    Builds (Scope.ofSettings settings) (Scope.ofSettings settings).knows .statement [] trees [name]

/-- The conditions on a comma and a `;` cannot be left out of the theorem above, and neither can
what the grammar asks for: no `typedef` among the qualifiers of an enum or of variables, a name of a
typedef that was no type before, and a tag that is introduced before it is used. -/
theorem ofText_render_limits :
    ((IsStatement { extraQualifiers := [","] } "struct A { int f(int, int); };" "A" ∧
        ¬ Rewrites { extraQualifiers := [","] } "struct A { int f(int, int); };") ∧
      (IsStatement { builtinTypes := [","] } "struct A { int f(const, int); };" "A" ∧
        ¬ Rewrites { builtinTypes := [","] } "struct A { int f(const, int); };") ∧
      IsStatement { extraQualifiers := [";"] } "struct A { int; };" "A" ∧
        ¬ Rewrites { extraQualifiers := [";"] } "struct A { int; };") ∧
    ¬ Rewrites {} "enum typedef { A } X;" ∧
    ¬ Rewrites {} "struct A { const typedef int x; };" ∧
    ¬ Rewrites { builtinTypes := ["Node"] } "typedef struct Node Node;" ∧
    ¬ Rewrites {} "struct Node { Node (*p)(int); };" := by
  refine ⟨⟨?_, ?_, ?_⟩, not_rewrites (by decide +kernel), not_rewrites (by decide +kernel),
    not_rewrites (by decide +kernel), not_rewrites (by decide +kernel)⟩
  · have hint : IsTypeWord ((Scope.ofSettings { extraQualifiers := [","] }).adding []) "int" :=
      ⟨⟨by decide, by decide⟩, by decide⟩
    have hf : ∀ text ∈ some "f",
      IsNameWord ((Scope.ofSettings { extraQualifiers := [","] }).adding [])
        (Scope.ofSettings { extraQualifiers := [","] }).knows text := by
      rintro text ⟨⟩
      exact ⟨⟨by decide, by decide⟩, by decide⟩
    refine ⟨⟨_, ?_, builds_struct ⟨by decide, by decide⟩ ⟨by decide, by decide⟩ hint
      (.bareFunction hf (derives_types _ hint))⟩, not_rewrites (by decide +kernel)⟩
    cbv
  · have hint : IsTypeWord ((Scope.ofSettings { builtinTypes := [","] }).adding []) "int" :=
      ⟨⟨by decide, by decide⟩, by decide⟩
    have hconst :
        IsQualifierWord ((Scope.ofSettings { builtinTypes := [","] }).adding []) "const" :=
      ⟨by decide, by decide⟩
    have hf : ∀ text ∈ some "f", IsNameWord ((Scope.ofSettings { builtinTypes := [","] }).adding [])
        (Scope.ofSettings { builtinTypes := [","] }).knows text := by
      rintro text ⟨⟩
      exact ⟨⟨by decide, by decide⟩, by decide⟩
    refine ⟨⟨_, ?_, builds_struct ⟨by decide, by decide⟩ ⟨by decide, by decide⟩ hint
      (.bareFunction hf (derives_qualifier_type _ hconst hint))⟩, not_rewrites (by decide +kernel)⟩
    cbv
  · have hint : IsTypeWord ((Scope.ofSettings { extraQualifiers := [";"] }).adding []) "int" :=
      ⟨⟨by decide, by decide⟩, by decide⟩
    refine ⟨⟨_, ?_, builds_struct ⟨by decide, by decide⟩ ⟨by decide, by decide⟩ hint derives_nil⟩,
      not_rewrites (by decide +kernel)⟩
    cbv

end Declaration

end CommonDecl
