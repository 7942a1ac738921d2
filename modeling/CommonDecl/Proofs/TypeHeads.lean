import CommonDecl.Proofs.Bodies
import CommonDecl.Proofs.Integrity

/-!
# The start of a statement

What the readers of a statement see of the qualifiers and the tag that it starts with
(`TypeDecl.typeHead_items`), and how they go on: whether the statement declares a type, and what is
read where it does.
-/

namespace CommonDecl

open TokenTree (items tagTrees)

variable {scope : Scope} {known : String → Bool} {rolesOf : Token → Roles}

/-! ### How readers go on -/

theorem afterSemicolon_semicolon (rest : Level) :
    (Level.ofSemicolon rest).afterSemicolon = rest := by
  rw [Level.afterSemicolon, Level.ofSemicolon, if_pos (isToken_cons ";" rest)]
  rfl

namespace Declaration

variable {before middle after : Scope} {level rest last : Level} {declaration : Declaration}

/-- A statement that declares a type is read as the type with what stands beside it. -/
theorem read_of_type {declared : TypeDecl} (h : TypeDecl.isDeclaredAt before level = true)
    (hread : TypeDecl.read level before = .ok (declared, rest) middle)
    (hbeside : readBeside declared rest middle = .ok (declaration, last) after) :
    Declaration.read level before = .ok (declaration, last.afterSemicolon) after := by
  have hget : (get : Reading Scope) before = .ok before before := rfl
  rw [Declaration.read, bind_of_ok hget, if_pos h, bind_of_ok hread]
  dsimp only
  rw [bind_of_ok hbeside]
  rfl

/-- Any other statement is read as variables. -/
theorem read_of_variables (h : TypeDecl.isDeclaredAt before level = false)
    (hread : readVariables before level = .ok (declaration, rest)) :
    Declaration.read level before = .ok (declaration, rest.afterSemicolon) before := by
  have hget : (get : Reading Scope) before = .ok before before := rfl
  rw [Declaration.read, bind_of_ok hget, if_neg (by simp [h]), hread]
  rfl

end Declaration

namespace TypeDecl

variable {before after : Scope} {level : Level}

theorem read_of_body (htypedef : level.leftQualifiers.has "typedef" = false) {members : List Member}
    (hbody : readBody? level before = .ok (some members) after) :
    TypeDecl.read level before =
      .ok (.tagged level.leftQualifiers (typeName? level.afterLeftQualifiers) (some members),
        (afterTypeName level.afterLeftQualifiers).next) after := by
  rw [TypeDecl.read, if_neg (by simp [htypedef]), bind_of_ok hbody]
  rfl

theorem read_of_noBody (htypedef : level.leftQualifiers.has "typedef" = false)
    (hbody : readBody? level before = .ok none after) :
    TypeDecl.read level before =
      .ok (.tagged level.leftQualifiers (typeName? level.afterLeftQualifiers) none,
        afterTypeName level.afterLeftQualifiers) after := by
  rw [TypeDecl.read, if_neg (by simp [htypedef]), bind_of_ok hbody]
  rfl

theorem read_of_typedef (htypedef : level.leftQualifiers.has "typedef" = true) :
    TypeDecl.read level before = readTypedef level before := by
  rw [TypeDecl.read, if_pos htypedef]

/-! ### Qualifiers and tags -/

theorem isQualifierWord_typedef (scope : Scope) : IsQualifierWord scope "typedef" :=
  ⟨by decide, isQualifier_of_mem scope (by decide)⟩

/-- The qualifiers and the tag of a statement are read as such. -/
theorem typeHead_items (hroles : Respects scope rolesOf) {left : List String}
    (hleft : ∀ text ∈ left, IsQualifierWord scope text) {tag : Option String}
    (htag : ∀ text ∈ tag, IsFreeWord scope text) {rest : Level}
    (hrest : tag = none → NoQualifier rest ∧ atTypeName rest = false) {level : Level}
    (hlevel : level = Level.ofMarks left ++ (items rolesOf (tagTrees scope known tag) ++ rest)) :
    level.leftQualifiers = ⟨left⟩ ∧
      level.afterLeftQualifiers = items rolesOf (tagTrees scope known tag) ++ rest ∧
      typeName? level.afterLeftQualifiers = tag ∧
        afterTypeName level.afterLeftQualifiers = rest := by
  subst hlevel
  cases tag with
  | none =>
    obtain ⟨hnoQualifier, hnoName⟩ := hrest rfl
    have hnoLeft := hnoQualifier.isLeftQualifier
    have hafter : Level.afterLeftQualifiers (Level.ofMarks left ++ rest) = rest :=
      Level.afterLeftQualifiers_ofMarks hleft hnoLeft
    show Level.leftQualifiers (Level.ofMarks left ++ rest) = _ ∧ _ = rest ∧
      typeName? (Level.afterLeftQualifiers (Level.ofMarks left ++ rest)) = _ ∧
        afterTypeName (Level.afterLeftQualifiers (Level.ofMarks left ++ rest)) = _
    rw [hafter, typeName?, afterTypeName, if_neg (by simp [hnoName]), if_neg (by simp [hnoName])]
    exact ⟨Level.leftQualifiers_ofMarks hleft hnoLeft, hafter, rfl, rfl⟩
  | some tag =>
    obtain ⟨roles, hnotQualifier, hname, hitem⟩ : ∃ roles : Roles, roles.isQualifier = false ∧
        (roles.isIdentifier || roles.isTypeKeyword) = true ∧
          TokenTree.item rolesOf (TokenTree.word scope known tag) = .token tag roles :=
      TokenTree.item_word hroles (htag tag rfl)
    have hitems : items rolesOf (tagTrees scope known (some tag)) ++ rest =
        .token tag roles :: rest := by
      show TokenTree.item rolesOf (TokenTree.word scope known tag) :: rest = _
      rw [hitem]
    have hnoLeft : ∀ item ∈ (.token tag roles :: rest : Level).head?,
        Level.isLeftQualifier item = false := by
      rintro item ⟨⟩
      rw [Level.isLeftQualifier, Item.roles, hnotQualifier]
      rfl
    have hat : atTypeName (.token tag roles :: rest) = true := hname
    rw [hitems, Level.afterLeftQualifiers_ofMarks hleft hnoLeft, typeName?, afterTypeName,
      if_pos hat, if_pos hat]
    exact ⟨Level.leftQualifiers_ofMarks hleft hnoLeft, rfl, rfl, rfl⟩

/-- The body of a type is entered. -/
theorem groupContents?_body (rolesOf : Token → Roles) (body : List TokenTree) (rest : Level) :
    Level.groupContents? (TokenTree.item rolesOf (.group .brace body) :: rest) .brace =
      some (items rolesOf body) :=
  Level.groupContents?_group rolesOf .brace body rest

theorem head_body (rolesOf : Token → Roles) (body : List TokenTree) (rest : Level) :
    NoQualifier (TokenTree.item rolesOf (.group .brace body) :: rest) ∧
      atTypeName (TokenTree.item rolesOf (.group .brace body) :: rest) = false := by
  refine ⟨?_, rfl⟩
  rintro item ⟨⟩
  rfl

theorem has_typedef_of_not_mem {left : List String} (h : "typedef" ∉ left) :
    (⟨left⟩ : Qualifiers).has "typedef" = false := by
  rw [Qualifiers.has, Bool.eq_false_iff, Ne, List.contains_iff_mem]
  exact h

/-! ### Which statements declare a type -/

theorem isDeclaredAt_of_typedef {level : Level} (h : level.leftQualifiers.has "typedef" = true)
    (scope : Scope) : isDeclaredAt scope level = true := by
  simp [isDeclaredAt, h]

/-- A statement with a body after its qualifiers and its tag declares a type. -/
theorem isDeclaredAt_of_body {level rest : Level} {tag : Option String} {body : List TokenTree}
    (hlevel : level.afterLeftQualifiers = items rolesOf (tagTrees scope known tag) ++
      TokenTree.item rolesOf (.group .brace body) :: rest) (reading : Scope) :
    isDeclaredAt reading level = true := by
  unfold isDeclaredAt
  rw [hlevel]
  cases tag with
  | none =>
    have hbrace :
        Level.isGroup (TokenTree.item rolesOf (.group .brace body) :: rest) .brace = true := rfl
    show (_ || Level.isGroup (TokenTree.item rolesOf (.group .brace body) :: rest) .brace || _ ||
      _) = true
    simp [hbrace]
  | some tag =>
    have hbrace : (Level.word? (items rolesOf (tagTrees scope known (some tag)) ++
        TokenTree.item rolesOf (.group .brace body) :: rest)).isSome = true ∧
        Level.isGroup (Level.next (items rolesOf (tagTrees scope known (some tag)) ++
          TokenTree.item rolesOf (.group .brace body) :: rest)) .brace = true := ⟨rfl, rfl⟩
    simp [hbrace.1, hbrace.2]

/-- A declarator cannot end where another one starts with a qualifier or a name. -/
theorem endsDeclarator_of_leaf {name : Option String} {token : Token} {first : List TokenTree}
    (h : ReadsBare scope known rolesOf name (.leaf token :: first)) (rest : Level) :
    endsDeclarator (items rolesOf (.leaf token :: first) ++ rest) = false := by
  have hsemicolon := h.not_isToken (show ¬(";" = "*" ∨ ";" = "&" ∨ IsWord ";") by decide)
  have hcomma := h.not_isToken (show ¬("," = "*" ∨ "," = "&" ∨ IsWord ",") by decide)
  have hequals := h.not_isToken (show ¬("=" = "*" ∨ "=" = "&" ∨ IsWord "=") by decide)
  show (false || Level.isToken (items rolesOf (.leaf token :: first)) ";" ||
    Level.isToken (items rolesOf (.leaf token :: first)) "," ||
    Level.isToken (items rolesOf (.leaf token :: first)) "=" || false || false) = false
  rw [hsemicolon, hcomma, hequals]
  rfl

/-- A new name declares a type after `struct` or the like, or where a declarator cannot end. -/
theorem isDeclaredAt_of_introduced (hroles : Respects scope rolesOf) {level rest : Level}
    {left : List String} {tag : String} (hleft : level.leftQualifiers = ⟨left⟩)
    (hlevel : level.afterLeftQualifiers = items rolesOf (tagTrees scope known (some tag)) ++ rest)
    (hintroduced : (∃ text ∈ introducers, text ∈ left) ∨ endsDeclarator rest = false)
    (htag : IsNameWord scope known tag) {reading : Scope} (hnew : reading.knows tag = false) :
    isDeclaredAt reading level = true := by
  have hitems : items rolesOf (tagTrees scope known (some tag)) =
      [.token tag { isIdentifier := true, isUnresolved := true }] := by
    show items rolesOf [TokenTree.word scope known tag] = _
    rw [htag.word_eq]
    exact TokenTree.items_name hroles htag
  have hgoesOn : (introducers.any (⟨left⟩ : Qualifiers).has || !endsDeclarator rest) = true := by
    rcases hintroduced with ⟨text, htext, hmem⟩ | hends
    · have hany : introducers.any (⟨left⟩ : Qualifiers).has = true :=
        List.any_eq_true.mpr ⟨text, htext, List.contains_iff_mem.mpr hmem⟩
      rw [hany, Bool.true_or]
    · rw [hends, Bool.not_false, Bool.or_true]
  unfold isDeclaredAt
  rw [hlevel, hleft, hitems]
  dsimp only
  rw [List.singleton_append, Level.next, List.tail_cons, hgoesOn]
  simp [Level.isUnresolved, Level.value?, Item.roles, Item.value, hnew]

/-- A known name without a body declares no type. -/
theorem isDeclaredAt_of_known {level rest : Level} {left : List String} {base : String}
    {roles : Roles} (hleft : level.leftQualifiers = ⟨left⟩) (hvariables : "typedef" ∉ left)
    (hlevel : level.afterLeftQualifiers = .token base roles :: rest)
    {reading : Scope} (hknows : reading.knows base = true) (hrest : Level.NoGroup .brace rest) :
    isDeclaredAt reading level = false := by
  have hbrace : Level.isGroup rest .brace = false := Level.isGroup_of_noGroup hrest
  have hvalue : (Level.value? (.token base roles :: rest)).any (fun name =>
    !reading.knows name) = false := by
    simp [Level.value?, Item.value, hknows]
  have hopen : Level.isGroup (.token base roles :: rest) .brace = false := rfl
  unfold isDeclaredAt
  rw [hlevel, hleft]
  dsimp only
  rw [has_typedef_of_not_mem hvariables, hopen, hvalue, Level.next, List.tail_cons, hbrace]
  simp

/-- Where no body follows, a statement declares no type that is a name at the end of a declarator,
unless it is introduced as one. -/
theorem isDeclaredAt_of_not_introduced {level : Level} {left : List String}
    (hleft : level.leftQualifiers = ⟨left⟩) (hvariables : "typedef" ∉ left)
    (hbrace : level.afterLeftQualifiers.NoGroup .brace)
    (hnext : level.afterLeftQualifiers.next.NoGroup .brace)
    (hname : level.afterLeftQualifiers.isUnresolved = true →
      (∀ text ∈ introducers, text ∉ left) ∧ endsDeclarator level.afterLeftQualifiers.next = true)
    (reading : Scope) : isDeclaredAt reading level = false := by
  unfold isDeclaredAt
  rw [hleft]
  dsimp only
  rw [has_typedef_of_not_mem hvariables, Level.isGroup_of_noGroup hbrace,
    Level.isGroup_of_noGroup hnext]
  cases hunresolved : level.afterLeftQualifiers.isUnresolved with
  | false => simp
  | true =>
    obtain ⟨hintroducers, hends⟩ := hname hunresolved
    have hnone : introducers.any (⟨left⟩ : Qualifiers).has = false := by
      rw [List.any_eq_false]
      intro text htext hhas
      exact hintroducers text htext (List.contains_iff_mem.mp hhas)
    simp [hnone, hends]

end TypeDecl

end CommonDecl
