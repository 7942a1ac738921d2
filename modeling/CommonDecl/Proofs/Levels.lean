import CommonDecl.Proofs.Reading
import CommonDecl.Proofs.Rendering
import CommonDecl.Proofs.Shapes

/-!
# Levels made of known tokens

How the readers of a level go on over the items of token trees: over qualifiers
(`Level.qualifiers_append`), over a name (`Declarator.readName_items`), over dimensions
(`Level.dimensions_items`).  What follows on the level only has to be no part of them (`Stops`).
-/

namespace CommonDecl

variable {scope : Scope} {known : String → Bool} {rolesOf : Token → Roles}

/-! ### What may follow -/

/-- A level ends, or goes on with a token that is no part of a declarator. -/
def Stops (level : Level) : Prop :=
  ∀ item ∈ level.head?, item.bracket? = none ∧ item.roles.isQualifier = false ∧
    item.roles.isIdentifier = false ∧ item.value ≠ "..."

/-- A level does not start with a qualifier. -/
def NoQualifier (level : Level) : Prop :=
  ∀ item ∈ level.head?, item.roles.isQualifier = false

/-- What may follow a declarator is no qualifier. -/
theorem Stops.noQualifier {level : Level} (h : Stops level) : NoQualifier level :=
  fun item hitem => (h item hitem).2.1

/-- What holds of the first item of each of two levels holds of the first item of both together. -/
theorem forall_head_append {P : Item → Prop} {first second : Level}
    (h : ∀ item ∈ first.head?, P item) (h' : ∀ item ∈ second.head?, P item) :
    ∀ item ∈ (first ++ second).head?, P item := by
  intro item hitem
  rw [List.head?_append, Option.mem_def, Option.or_eq_some_iff] at hitem
  rcases hitem with hitem | ⟨-, hitem⟩
  · exact h item hitem
  · exact h' item hitem

theorem isToken_of_head {level : Level} {text : String}
    (h : ∀ item ∈ level.head?, item.isToken text = false) : level.isToken text = false := by
  cases level with
  | nil => rfl
  | cons item rest => exact h item rfl

theorem isToken_of_value_ne {item : Item} {text : String} (h : item.value ≠ text) :
    item.isToken text = false := by
  rw [Item.isToken, beq_eq_false_iff_ne.mpr h, Bool.and_false]

/-- Where no qualifier stands, none stands to the left of a type. -/
theorem NoQualifier.isLeftQualifier {level : Level} (h : NoQualifier level) :
    ∀ item ∈ level.head?, Level.isLeftQualifier item = false := by
  intro item hitem
  rw [Level.isLeftQualifier, h item hitem]
  rfl

/-! ### Going over items -/

namespace Level

/-- The items with the property are taken up to where the rest starts. -/
theorem takeWhile_append_eq {p : Item → Bool} {items rest : Level} (hitems : ∀ item ∈ items, p item)
    (hrest : ∀ item ∈ rest.head?, p item = false) : (items ++ rest).takeWhile p = items := by
  rw [List.takeWhile_append_of_pos hitems]
  cases rest with
  | nil => simp
  | cons item rest => rw [List.takeWhile_cons_of_neg (by simpa using hrest item rfl),
    List.append_nil]

/-- The items with the property are dropped up to where the rest starts. -/
theorem dropWhile_append_eq {p : Item → Bool} {items rest : Level} (hitems : ∀ item ∈ items, p item)
    (hrest : ∀ item ∈ rest.head?, p item = false) : (items ++ rest).dropWhile p = rest := by
  rw [List.dropWhile_append_of_pos hitems]
  cases rest with
  | nil => simp
  | cons item rest => rw [List.dropWhile_cons_of_neg (by simpa using hrest item rfl)]

/-- The items of qualifiers. -/
def ofMarks (texts : List String) : Level :=
  texts.map fun text => .token text { isQualifier := true }

/-- The qualifiers at a level are the marks that it starts with. -/
theorem qualifiers_ofMarks (texts : List String) {rest : Level} (h : NoQualifier rest) :
    qualifiers (ofMarks texts ++ rest) = ⟨texts⟩ := by
  rw [qualifiers, takeWhile_append_eq (by simp [ofMarks, Item.roles]) h]
  simp [ofMarks, Item.value, Function.comp_def]

/-- Behind the marks that a level starts with, its rest follows. -/
theorem afterQualifiers_ofMarks (texts : List String) {rest : Level} (h : NoQualifier rest) :
    afterQualifiers (ofMarks texts ++ rest) = rest :=
  dropWhile_append_eq (by simp [ofMarks, Item.roles]) h

/-- A level without a qualifier in front has none to pass. -/
theorem afterQualifiers_of_noQualifier {level : Level} (h : NoQualifier level) :
    afterQualifiers level = level :=
  afterQualifiers_ofMarks [] h

theorem qualifiers_of_noQualifier {level : Level} (h : NoQualifier level) :
    qualifiers level = {} :=
  qualifiers_ofMarks [] h

/-- Words of qualifiers may stand to the left of a type, as `*` and `&` may not. -/
theorem items_leftQualifier {texts : List String} (h : ∀ text ∈ texts, IsQualifierWord scope text) :
    ∀ item ∈ ofMarks texts, isLeftQualifier item = true := by
  intro item hitem
  obtain ⟨text, htext, rfl⟩ := List.mem_map.mp hitem
  simp [isLeftQualifier, Item.roles, Item.value, (h text htext).isWord.isPointerMarker]

/-- The qualifiers to the left of a type are the words that the level starts with. -/
theorem leftQualifiers_ofMarks {texts : List String}
    (h : ∀ text ∈ texts, IsQualifierWord scope text) {rest : Level}
    (hrest : ∀ item ∈ rest.head?, isLeftQualifier item = false) :
    leftQualifiers (ofMarks texts ++ rest) = ⟨texts⟩ := by
  rw [leftQualifiers, takeWhile_append_eq (items_leftQualifier h) hrest]
  simp [ofMarks, Item.value, Function.comp_def]

theorem afterLeftQualifiers_ofMarks {texts : List String}
    (h : ∀ text ∈ texts, IsQualifierWord scope text) {rest : Level}
    (hrest : ∀ item ∈ rest.head?, isLeftQualifier item = false) :
    afterLeftQualifiers (ofMarks texts ++ rest) = rest :=
  dropWhile_append_eq (items_leftQualifier h) hrest

end Level

/-! ### Items of tokens -/

/-- The shape gives a token the roles that its class says, wherever the class agrees with the
keywords. -/
def Respects (scope : Scope) (rolesOf : Token → Roles) : Prop :=
  ∀ token : Token, token.Uniform (scope.keywords .c) → rolesOf token = Node.rolesOf token

/-- A tree keeps the roles of a token as its class says. -/
theorem respects_tree (scope : Scope) : Respects scope Node.rolesOf :=
  fun _ _ => rfl

/-- A flat list asks the keywords again, which agree with the class. -/
theorem respects_list (scope : Scope) : Respects scope (Chain.rolesOf (scope.keywords .c)) :=
  fun _ h => (rolesOf_eq h).symm

namespace TokenTree

/-- Tokens of qualifiers become items of qualifiers. -/
theorem items_qualifiers (hroles : Respects scope rolesOf) {texts : List String}
    (h : ∀ text ∈ texts, (scope.keywords .c).isQualifier text = true) :
    items rolesOf (marks texts) = Level.ofMarks texts := by
  induction texts with
  | nil => rfl
  | cons text texts ih =>
    rw [List.forall_mem_cons] at h
    have huniform : Token.Uniform (scope.keywords .c) ⟨text, .qualifier⟩ :=
      ⟨by simp [h.1], by simp⟩
    rw [marks, List.map_cons, items, ← marks, ih h.2, item, hroles _ huniform]
    rfl

theorem items_marks (hroles : Respects scope rolesOf) {texts : List String}
    (h : ∀ text ∈ texts, IsMark scope text) : items rolesOf (marks texts) = Level.ofMarks texts :=
  items_qualifiers hroles fun text htext => (h text htext).isQualifier

/-- A word for a name becomes an item that can be a name and had no meaning. -/
theorem items_name (hroles : Respects scope rolesOf) {name : String}
    (h : IsNameWord scope known name) :
    items rolesOf (nameTrees (some name)) =
      [.token name { isIdentifier := true, isUnresolved := true }] := by
  have huniform : Token.Uniform (scope.keywords .c) ⟨name, .unresolved⟩ :=
    ⟨by simp [h.not_isQualifier], by simp⟩
  show [item rolesOf (leaf ⟨name, .unresolved⟩)] = _
  rw [item, hroles _ huniform]
  rfl

/-- A word that is no qualifier can stand for a type, whatever it was when the text was cut into
tokens. -/
theorem item_word (hroles : Respects scope rolesOf) {text : String} (h : IsFreeWord scope text) :
    ∃ roles :
      Roles, roles.isQualifier = false ∧ (roles.isIdentifier || roles.isTypeKeyword) = true ∧
        item rolesOf (word scope known text) = .token text roles := by
  have hcls : TokenClass.ofLexeme (scope.keywords .c) known .word text = .typeName ∨
      TokenClass.ofLexeme (scope.keywords .c) known .word text = .unresolved := by
    simp only [TokenClass.ofLexeme, h.not_isQualifier, Bool.false_eq_true, ↓reduceIte]
    split_ifs <;> simp
  have huniform : Token.Uniform (scope.keywords .c)
      ⟨text, TokenClass.ofLexeme (scope.keywords .c) known .word text⟩ := by
    refine ⟨?_, fun _ => isWord_of_isLexeme h.isWord⟩
    rcases hcls with hcls | hcls <;> simp [h.not_isQualifier, hcls]
  refine ⟨_, ?_, ?_, by rw [word, item, hroles _ huniform]⟩
  · rcases hcls with hcls | hcls <;> rw [hcls] <;> rfl
  · rcases hcls with hcls | hcls <;> rw [hcls] <;> rfl

/-- A symbol becomes an item that is a qualifier if the keywords say so, and has no other role. -/
theorem item_symbol (hroles : Respects scope rolesOf) {text : String} :
    item rolesOf (symbol scope known text) =
      .token text { isQualifier := (scope.keywords .c).isQualifier text } := by
  have hcls : TokenClass.ofLexeme (scope.keywords .c) known .symbol text =
      if (scope.keywords .c).isQualifier text then .qualifier else .operator := rfl
  have huniform : Token.Uniform (scope.keywords .c)
      ⟨text, TokenClass.ofLexeme (scope.keywords .c) known .symbol text⟩ := by
    rw [hcls]
    cases hqualifier : (scope.keywords .c).isQualifier text with
    | true => exact ⟨by simp [hqualifier], by simp⟩
    | false => exact ⟨by simp [hqualifier], by simp⟩
  rw [symbol, item, hroles _ huniform, hcls]
  cases (scope.keywords .c).isQualifier text <;> rfl

end TokenTree

/-! ### Dimensions -/

namespace Level

/-- A level does not start with a group of this kind. -/
def NoGroup (bracket : Bracket) (level : Level) : Prop :=
  ∀ item ∈ level.head?, item.isGroup bracket = false

theorem noGroup_nil {bracket : Bracket} : NoGroup bracket [] := by
  simp [NoGroup]

/-- No group follows a declarator. -/
theorem noGroup_of_stops {level : Level} (h : Stops level) (bracket : Bracket) :
    NoGroup bracket level := by
  intro item hitem
  rw [Item.isGroup, (h item hitem).1]
  rfl

/-- The dimensions at a level are the texts of the square groups that it starts with. -/
theorem dimensions_items {trees : List TokenTree} (h : TokenTree.AreDimensions scope known trees)
    {rest : Level} (hrest : NoGroup .square rest) :
    dimensions (TokenTree.items rolesOf trees ++ rest) = dimensionTexts trees ∧
      afterDimensions (TokenTree.items rolesOf trees ++ rest) = rest := by
  -- All the trees are square groups, so the search goes over all of them and stops behind.
  have hitems : ∀ item ∈ TokenTree.items rolesOf trees, item.isGroup .square = true := by
    induction trees with
    | nil => simp [TokenTree.items]
    | cons tree trees ih =>
      obtain ⟨contents, rfl, -⟩ := h tree List.mem_cons_self
      rw [TokenTree.items, List.forall_mem_cons]
      exact ⟨rfl, ih fun tree htree => h tree (List.mem_cons_of_mem _ htree)⟩
  refine ⟨?_, dropWhile_append_eq hitems hrest⟩
  rw [dimensions, takeWhile_append_eq hitems hrest]
  clear hitems
  induction trees with
  | nil => rfl
  | cons tree trees ih =>
    obtain ⟨contents, rfl, -⟩ := h tree List.mem_cons_self
    rw [TokenTree.items, List.map_cons, ih fun tree htree => h tree (List.mem_cons_of_mem _ htree),
      TokenTree.item, Item.contentsText, TokenTree.texts_items]
    rfl

/-- Where no square group stands there are no dimensions. -/
theorem dimensions_of_noGroup {level : Level} (h : NoGroup .square level) :
    dimensions level = [] := by
  have hnil : ∀ item ∈ ([] : Level), item.isGroup .square = true := by simp
  have htake : level.takeWhile (Item.isGroup .square) = [] := takeWhile_append_eq hnil h
  rw [dimensions, htake, List.map_nil]

theorem afterDimensions_of_noGroup {level : Level} (h : NoGroup .square level) :
    afterDimensions level = level := by
  have hnil : ∀ item ∈ ([] : Level), item.isGroup .square = true := by simp
  exact dropWhile_append_eq hnil h

/-- Dimensions start with a square group, if there are any. -/
theorem head_dimensions {trees : List TokenTree} (h : TokenTree.AreDimensions scope known trees) :
    ∀ item ∈ (TokenTree.items rolesOf trees).head?,
      ∃ contents, item = TokenTree.item rolesOf (.group .square contents) := by
  cases trees with
  | nil => simp [TokenTree.items]
  | cons tree trees =>
    obtain ⟨contents, rfl, -⟩ := h tree List.mem_cons_self
    intro item hitem
    exact ⟨contents, by simpa [TokenTree.items] using hitem.symm⟩

/-! ### Groups -/

/-- A group of the trees is entered at the items of its contents. -/
theorem contents?_group (rolesOf : Token → Roles) (bracket : Bracket) (trees : List TokenTree)
    (rest : Level) :
    contents? (TokenTree.item rolesOf (.group bracket trees) :: rest) =
      some (TokenTree.items rolesOf trees) := by
  rw [TokenTree.item, contents?]
  simp [Item.contents?]

/-- A group of the trees is one of its own brackets. -/
theorem groupContents?_group (rolesOf : Token → Roles) (bracket : Bracket) (trees : List TokenTree)
    (rest : Level) :
    groupContents? (TokenTree.item rolesOf (.group bracket trees) :: rest) bracket =
      some (TokenTree.items rolesOf trees) := by
  have hbracket : bracket? (TokenTree.item rolesOf (.group bracket trees) :: rest) =
      some bracket := by
    rw [TokenTree.item, bracket?]
    simp [Item.bracket?]
  rw [groupContents?, if_pos hbracket, contents?_group]

/-- There are no contents where no such group stands. -/
theorem groupContents?_of_noGroup {level : Level} {bracket : Bracket} (h : NoGroup bracket level) :
    groupContents? level bracket = none := by
  rw [groupContents?, if_neg]
  intro hbracket
  cases level with
  | nil => cases hbracket
  | cons item rest =>
    have hgroup := h item rfl
    rw [Item.isGroup, show item.bracket? = some bracket from hbracket] at hgroup
    simp at hgroup

theorem isGroup_of_noGroup {level : Level} {bracket : Bracket} (h : NoGroup bracket level) :
    level.isGroup bracket = false := by
  cases level with
  | nil => rfl
  | cons item rest => exact h item rfl

end Level

end CommonDecl
