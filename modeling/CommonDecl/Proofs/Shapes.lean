import CommonDecl.Proofs.Grouping
import CommonDecl.Proofs.Rests

/-!
# The two shapes of a source

The tree and the chain of a source text are read alike (`shapes_read_alike`).  The tree keeps for
each token what it is, while the chain keeps a rough kind and asks the keywords; both give the same
items (`items_ofTrees_eq`), because a token is a qualifier exactly when the keywords say so.  The
one exception is a number or a quoted literal that the settings list as a qualifier, which
`ConstantFree` excludes.
-/

namespace CommonDecl

/-- No further qualifier and no marker of the settings is a number or a quoted literal. -/
def Settings.ConstantFree (settings : Settings) : Prop :=
  ∀ word ∈ settings.extraQualifiers ++ settings.markers.toList,
    ¬ Lexeme.IsLexeme .number word.toList ∧ ¬ Lexeme.IsLexeme .literal word.toList

instance (settings : Settings) : Decidable settings.ConstantFree :=
  inferInstanceAs (Decidable (∀ word ∈ settings.extraQualifiers ++ settings.markers.toList, _))

/-! ### Tokens -/

/-- Both shapes say the same of a token: what it is agrees with the keywords, and a type name is a
word. -/
structure Token.Uniform (keywords : Keywords) (token : Token) : Prop where
  qualifier_iff : keywords.isQualifier token.text = true ↔ token.cls = .qualifier
  isWord_of_typeName : token.cls = .typeName → Chain.isWord token.text = true

theorem Text.isAlphabetic_of_isAlpha {c : Char} (h : c.isAlpha = true) :
    Text.isAlphabetic c = true := by
  have hword : Lexeme.startsWord c = true := by
    rw [Lexeme.startsWord, h, Bool.true_or]
  have hsmall : c.toNat < 128 :=
    (Lexeme.toNat_of_isWordlike (Lexeme.isWordlike_of_startsWord hword)).2
  rw [Text.isAlphabetic, if_pos hsmall]
  exact h

/-- A constant is no qualifier of a dialect. -/
theorem Keywords.isQualifier_constant {settings : Settings} (hsettings : settings.ConstantFree)
    (dialect : Dialect) {text : String}
    (h : Lexeme.IsLexeme .number text.toList ∨ Lexeme.IsLexeme .literal text.toList) :
    (ofSettings dialect settings).isQualifier text = false := by
  cases dialect with
  | fortran => rfl
  | c =>
    rw [Bool.eq_false_iff]
    intro hqualifier
    have hmem : text ∈ cQualifiers ++ settings.extraQualifiers ++ settings.markers.toList :=
      List.contains_iff_mem.mp hqualifier
    rw [List.append_assoc, List.mem_append] at hmem
    -- The keywords of C are words and symbols; the others come from the settings.
    rcases hmem with hown | hfurther
    · have hnone : ∀ word ∈ cQualifiers, ¬ Lexeme.IsLexeme .number word.toList ∧
          ¬ Lexeme.IsLexeme .literal word.toList := by decide
      rcases h with h | h
      · exact (hnone text hown).1 h
      · exact (hnone text hown).2 h
    · rcases h with h | h
      · exact (hsettings text hfurther).1 h
      · exact (hsettings text hfurther).2 h

/-- A word starts with a letter or a low line, as the chain asks of a word. -/
theorem isWord_of_isLexeme {text : String} (h : Lexeme.IsLexeme .word text.toList) :
    Chain.isWord text = true := by
  cases htext : text.toList with
  | nil =>
    rw [htext] at h
    exact h.elim
  | cons first rest =>
    rw [htext] at h
    have hstarts := Lexeme.starts_of_isLexeme h
    simp only [Lexeme.starts, Lexeme.startsWord, Bool.or_eq_true] at hstarts
    simp only [Chain.isWord, htext, Bool.or_eq_true]
    rcases hstarts with halpha | hline
    · exact Or.inl (Text.isAlphabetic_of_isAlpha halpha)
    · exact Or.inr hline

/-- Both shapes say the same of a token that comes from a lexeme. -/
theorem Token.uniform_of_isLexeme {settings : Settings} (hsettings : settings.ConstantFree)
    (dialect : Dialect) (known : String → Bool) {kind : LexemeKind} {text : String}
    (h : Lexeme.IsLexeme kind text.toList) (hkind : kind ≠ .unrecognised)
    (hopening : Bracket.ofOpening? text = none) (hclosing : Bracket.ofClosing? text = none) :
    Token.Uniform (Keywords.ofSettings dialect settings)
      ⟨text, TokenClass.ofLexeme (Keywords.ofSettings dialect settings) known kind text⟩ := by
  have hconstant := @Keywords.isQualifier_constant settings hsettings dialect text
  generalize Keywords.ofSettings dialect settings = keywords at hconstant ⊢
  -- By the kind of the lexeme; brackets become groups and no tokens.
  cases kind with
  | word =>
    refine ⟨?_, fun _ => isWord_of_isLexeme h⟩
    cases hqualifier : keywords.isQualifier text with
    | true => simp [TokenClass.ofLexeme, hqualifier]
    | false =>
      simp only [TokenClass.ofLexeme, hqualifier, Bool.false_eq_true, ↓reduceIte, false_iff]
      split_ifs <;> simp
  | number =>
    exact ⟨by simp [TokenClass.ofLexeme, hconstant (Or.inl h)], by simp [TokenClass.ofLexeme]⟩
  | literal =>
    exact ⟨by simp [TokenClass.ofLexeme, hconstant (Or.inr h)], by simp [TokenClass.ofLexeme]⟩
  | opening =>
    obtain ⟨bracket, rfl⟩ := Lexeme.exists_opening h
    simp at hopening
  | closing =>
    obtain ⟨bracket, rfl⟩ := Lexeme.exists_closing h
    simp at hclosing
  | symbol =>
    cases hqualifier : keywords.isQualifier text with
    | true =>
      exact ⟨by simp [TokenClass.ofLexeme, hqualifier], by simp [TokenClass.ofLexeme, hqualifier]⟩
    | false =>
      exact ⟨by simp [TokenClass.ofLexeme, hqualifier], by simp [TokenClass.ofLexeme, hqualifier]⟩
  | unrecognised => exact absurd rfl hkind

/-- Both shapes say the same of every token of a source. -/
theorem TokenTree.uniform_of_ofSource {dialect : Dialect} {scope : Scope} {source : String}
    {trees : List TokenTree} (hsettings : scope.settings.ConstantFree)
    (h : TokenTree.ofSource dialect scope source = .ok trees) :
    TokenTree.All (Token.Uniform (scope.keywords dialect)) trees := by
  refine TokenTree.all_of_groupFrom ?_ (by simp [TokenTree.All]) (by simp) h
  intro lexeme hlexeme hkind hopening hclosing
  exact Token.uniform_of_isLexeme hsettings dialect scope.knows
    (Lexeme.isLexeme_of_mem_scan hlexeme hkind) hkind hopening hclosing

/-! ### Items -/

/-- The roles of a token in the tree shape. -/
def Node.rolesOf (token : Token) : Roles :=
  roles [markOf token.cls]

/-- The roles of a token in the list shape. -/
def Chain.rolesOf (keywords : Keywords) (token : Token) : Roles :=
  roles keywords token.text (kindOf token)

/-- The roles of a token are the same in both shapes. -/
theorem rolesOf_eq {keywords : Keywords} {token : Token} (h : token.Uniform keywords) :
    Node.rolesOf token = Chain.rolesOf keywords token := by
  obtain ⟨text, cls⟩ := token
  have hqualifier : keywords.isQualifier text = decide (cls = .qualifier) := by
    rw [Bool.eq_iff_iff, decide_eq_true_eq]
    exact h.qualifier_iff
  unfold Node.rolesOf Chain.rolesOf
  -- By the class of the token, which the chain finds out by asking the keywords.
  cases cls with
  | typeName =>
    have hword := h.isWord_of_typeName rfl
    dsimp only at hword
    simp [Node.roles, Node.markOf, Chain.roles, Chain.kindOf, hqualifier, hword]
  | qualifier =>
    simp [Node.roles, Node.markOf, Chain.roles, Chain.kindOf, hqualifier]
    split <;> simp
  | _ => simp [Node.roles, Node.markOf, Chain.roles, Chain.kindOf, hqualifier]

namespace TokenTree

mutual

/-- The item of a tree in a shape that gives its tokens these roles. -/
def item (rolesOf : Token → Roles) : TokenTree → Item
  | leaf token => .token token.text (rolesOf token)
  | group bracket contents => .group bracket.opening {} (items rolesOf contents)

/-- The items of trees in a shape that gives their tokens these roles. -/
def items (rolesOf : Token → Roles) : List TokenTree → Level
  | [] => []
  | tree :: rest => item rolesOf tree :: items rolesOf rest

end

mutual

/-- Trees give the same items to roles that agree on their tokens. -/
theorem item_congr {rolesOf rolesOf' : Token → Roles} :
    (tree : TokenTree) → AllIn (fun token => rolesOf token = rolesOf' token) tree →
      item rolesOf tree = item rolesOf' tree
  | leaf token, h => by
    rw [AllIn] at h
    rw [item, item, h]
  | group bracket contents, h => by
    rw [AllIn] at h
    rw [item, item, items_congr contents h]

theorem items_congr {rolesOf rolesOf' : Token → Roles} :
    (trees : List TokenTree) → All (fun token => rolesOf token = rolesOf' token) trees →
      items rolesOf trees = items rolesOf' trees
  | [], _ => rfl
  | tree :: rest, h => by
    rw [All] at h
    rw [items, items, item_congr tree h.1, items_congr rest h.2]

end

/-- The items of trees are those of the one and those of the other. -/
theorem items_append (rolesOf : Token → Roles) (first second : List TokenTree) :
    items rolesOf (first ++ second) = items rolesOf first ++ items rolesOf second := by
  induction first with
  | nil => rfl
  | cons tree first ih => rw [List.cons_append, items, items, ih, List.cons_append]

mutual

/-- Roles do not change the text of an item. -/
theorem text_item (rolesOf : Token → Roles) :
    (tree : TokenTree) → (item rolesOf tree).text = tree.text
  | leaf token => rfl
  | group bracket contents => by
    rw [item, Item.text, texts_items rolesOf contents, TokenTree.text, Bracket.ofOpening?_opening]
    rfl

/-- The items of trees have the texts of the trees. -/
theorem texts_items (rolesOf : Token → Roles) :
    (trees : List TokenTree) → Item.texts (items rolesOf trees) = texts trees
  | [] => rfl
  | tree :: rest => by
    rw [items, Item.texts, texts, text_item rolesOf tree, texts_items rolesOf rest]

end

/-- The item of a tree is written as the tree is. -/
theorem tokenText_item (rolesOf : Token → Roles) (tree : TokenTree) :
    (item rolesOf tree).tokenText = tree.text := by
  cases tree with
  | leaf token => rfl
  | group bracket contents =>
    simp [item, Item.tokenText, Item.bracket?, Item.contentsText, texts_items, TokenTree.text]

mutual

/-- What holds of all tokens holds in a weaker form as well. -/
theorem all_mono {p q : Token → Prop} (h : ∀ token, p token → q token) :
    (trees : List TokenTree) → All p trees → All q trees
  | [], _ => trivial
  | tree :: rest, htrees => by
    rw [All] at htrees ⊢
    exact ⟨allIn_mono h tree htrees.1, all_mono h rest htrees.2⟩

theorem allIn_mono {p q : Token → Prop} (h : ∀ token, p token → q token) :
    (tree : TokenTree) → AllIn p tree → AllIn q tree
  | leaf token, htree => by
    rw [AllIn] at htree ⊢
    exact h token htree
  | group _ contents, htree => by
    rw [AllIn] at htree ⊢
    exact all_mono h contents htree

end

end TokenTree

mutual

/-- The tree shape gives the items of the trees. -/
theorem Node.item_ofTree : (tree : TokenTree) → (ofTree tree).item = tree.item rolesOf
  | .leaf token => by
    have hgroup : ¬[markOf token.cls].contains .group = true := by
      cases token.cls <;> decide
    rw [ofTree, item, if_neg hgroup, TokenTree.item]
    rfl
  | .group bracket contents => by
    rw [ofTree, item, if_pos (by decide), TokenTree.item, itemsOf_ofTreeList contents]
    rfl

theorem Node.itemsOf_ofTreeList :
    (trees : List TokenTree) → itemsOf (ofTreeList trees) = TokenTree.items rolesOf trees
  | [] => rfl
  | tree :: rest => by
    rw [ofTreeList, itemsOf, TokenTree.items, item_ofTree tree, itemsOf_ofTreeList rest]

end

theorem Node.items_ofTrees (trees : List TokenTree) :
    (ofTrees trees).items = TokenTree.items rolesOf trees :=
  itemsOf_ofTreeList trees

/-- No token has the kind of a group. -/
theorem Chain.kindOf_ne_group (token : Token) (bracket : Bracket) :
    kindOf token ≠ .group bracket := by
  unfold kindOf
  split <;> try split
  all_goals simp

mutual

/-- The chain gives the items of the trees, one link after the other. -/
theorem Chain.items_ofTree (keywords : Keywords) (right : Chain) :
    (tree : TokenTree) →
      (ofTree right tree).items keywords = tree.item (rolesOf keywords) :: right.items keywords
  | .leaf token => by
    rw [ofTree, items, TokenTree.item]
    · rfl
    · exact fun bracket hkind => kindOf_ne_group token bracket hkind
  | .group bracket contents => by
    rw [ofTree, items, TokenTree.item, items_ofTrees keywords contents]

theorem Chain.items_ofTrees (keywords : Keywords) :
    (trees : List TokenTree) →
      (ofTrees trees).items keywords = TokenTree.items (rolesOf keywords) trees
  | [] => rfl
  | tree :: rest => by
    rw [ofTrees, items_ofTree keywords (ofTrees rest) tree, items_ofTrees keywords rest,
      TokenTree.items]

end

/-- Both shapes are the same items. -/
theorem items_ofTrees_eq {keywords : Keywords} {trees : List TokenTree}
    (h : TokenTree.All (Token.Uniform keywords) trees) :
    (Node.ofTrees trees).items = (Chain.ofTrees trees).items keywords := by
  rw [Node.items_ofTrees, Chain.items_ofTrees]
  exact TokenTree.items_congr trees (TokenTree.all_mono (fun _ => rolesOf_eq) trees h)

/-! ### Places -/

/-- The rest of a chain after its first links. -/
def Chain.after : Nat → Chain → Chain
  | 0, chain => chain
  | _ + 1, .stop => .stop
  | count + 1, .link _ _ _ right => right.after count

/-- The rest of a chain has the rest of its items. -/
theorem Chain.items_after (keywords : Keywords) (count : Nat) (chain : Chain) :
    (chain.after count).items keywords = (chain.items keywords).drop count := by
  induction count generalizing chain with
  | zero => rfl
  | succ count ih =>
    cases chain with
    | stop => simp [Chain.after, Chain.items]
    | link value kind down right =>
      rw [Chain.after, ih]
      cases kind <;> rfl

/-- A level of the tree and a level of the chain are the rest of the two shapes from the same place
on. -/
def SamePlace (keywords : Keywords) (root : Node) (chain : Chain) (place : Nat)
    (inTree inChain : Level) : Prop :=
  place ≤ root.leaves.length ∧ inTree = root.items.drop place ∧
    inChain = (chain.after place).items keywords

variable {σ α : Type}

/-- From each place on, a reader does the same in both shapes: it gives the same result and leaves
both in the same place, or it fails for the same cause, and in both cases it leaves the same state.
-/
def ReadAlike (keywords : Keywords) (root : Node) (chain : Chain)
    (read : Level → EStateM Fault σ (α × Level)) : Prop :=
  ∀ (s : σ) (place : Nat) (inTree inChain : Level),
    SamePlace keywords root chain place inTree inChain →
      match read inTree s, read inChain s with
      | .ok (a, restInTree) s', .ok (b, restInChain) t' =>
        a = b ∧ s' = t' ∧
          ∃ place', place ≤ place' ∧ SamePlace keywords root chain place' restInTree restInChain
      | .error fault s', .error fault' t' => fault = fault' ∧ s' = t'
      | _, _ => False

/-- Each node is one item. -/
theorem Node.length_itemsOf (nodes : List Node) : (itemsOf nodes).length = nodes.length := by
  induction nodes with
  | nil => rfl
  | cons node rest ih => rw [itemsOf, List.length_cons, List.length_cons, ih]

/-- A reader that leaves a rest of what it is given does the same in two shapes that are the same
items. -/
theorem readAlike_of_rest {keywords : Keywords} {root : Node} {chain : Chain}
    (hitems : root.items = chain.items keywords) {read : Level → EStateM Fault σ (α × Level)}
    (hrest : ∀ level s, Ends (read level) s (fun result _ => result.2 <:+ level) fun _ => True) :
    ReadAlike keywords root chain read := by
  rintro s place inTree inChain ⟨hplace, rfl, rfl⟩
  rw [Chain.items_after, ← hitems]
  have hrest := hrest (root.items.drop place) s
  unfold Ends at hrest
  -- Both levels are the same items, so the reader does one and the same.
  cases hread : read (root.items.drop place) s with
  | error fault s' => exact ⟨rfl, rfl⟩
  | ok result s' =>
    obtain ⟨a, rest⟩ := result
    rw [hread] at hrest
    have hsuffix : rest <:+ root.items.drop place := hrest
    have hlength : root.items.length = root.leaves.length := Node.length_itemsOf root.leaves
    -- The place after reading is where as many items are left as the rest has.
    have hle := hsuffix.length_le
    rw [List.length_drop] at hle
    refine ⟨rfl, rfl, root.items.length - rest.length, by omega, by omega, ?_, ?_⟩
    · have := List.suffix_iff_eq_drop.mp (hsuffix.trans (List.drop_suffix place _))
      exact this
    · rw [Chain.items_after, ← hitems]
      exact List.suffix_iff_eq_drop.mp (hsuffix.trans (List.drop_suffix place _))

/-! ### Reading both shapes -/

namespace Declaration

/-- Reads the next statements of a level, at most `count`. -/
def readFirst (dialect : Dialect) : Nat → Level → Reading (List Declaration × Level)
  | 0, level => return ([], level)
  | count + 1, level => do
    match ← next? dialect level with
    | none => return ([], level)
    | some (declaration, rest) => do
      let (declarations, rest) ← readFirst dialect count rest
      return (declaration :: declarations, rest)

/-- However many statements are read, what is left is a rest of the level. -/
theorem readFirst_rest (dialect : Dialect) (count : Nat) :
    ∀ (level : Level) (scope : Scope), Ends (readFirst dialect count level) scope
      (fun result _ => result.2 <:+ level) fun _ => True := by
  induction count with
  | zero =>
    intro level scope
    exact List.suffix_refl level
  | succ count ih =>
    intro level scope
    rw [readFirst]
    simp only [ends_bind]
    refine (next?_rest dialect level scope).mono ?_ fun _ h => h
    intro result scope' hresult
    cases result with
    | none => exact List.suffix_refl level
    | some result =>
      obtain ⟨declaration, rest⟩ := result
      simp only [ends_bind]
      refine (ih rest scope').mono ?_ fun _ h => h
      rintro ⟨declarations, last⟩ _ hlast
      exact hlast.trans (hresult _ _ rfl)

end Declaration

/-- Every reader of a dialect does the same in the tree and in the chain of a source. -/
structure ShapesAlike (dialect : Dialect) (keywords : Keywords) (root : Node) (chain : Chain) :
    Prop where
  /-- The statements up to the end or the first fault are the same, and so are the types added on
  the way. -/
  readAll_eq : ∀ scope, Declaration.readAll dialect scope root.items =
    Declaration.readAll dialect scope (chain.items keywords)
  /-- After each number of statements the two shapes are in the same place. -/
  statements : ∀ count, ReadAlike keywords root chain (Declaration.readFirst dialect count)
  declarator : ∀ template declarator, ReadAlike keywords root chain fun level => do
    let scope ← get
    Reading.ofExcept (Declarator.read scope template declarator level)
  fortranDeclarator : ∀ scope template, ReadAlike keywords root chain fun level => do
    let rest ← Fortran.readDeclarator scope template level
    return ((), rest)
  typeDecl : ReadAlike keywords root chain TypeDecl.read

/-- Where a source has a tree it has a chain, and every reader does the same in both: from the same
place on it gives the same result, leaves the same types and goes on to the same place, or it fails
for the same cause. -/
theorem shapes_read_alike {dialect : Dialect} {scope : Scope} {source : String} {root : Node}
    (hsettings : scope.settings.ConstantFree)
    (hroot : Node.ofSource dialect scope source = .ok root) :
    ∃ chain, Chain.ofSource dialect scope source = .ok chain ∧
      ShapesAlike dialect (scope.keywords dialect) root chain := by
  unfold Node.ofSource at hroot
  cases htrees : TokenTree.ofSource dialect scope source with
  | error fault =>
    rw [htrees] at hroot
    cases hroot
  | ok trees =>
    rw [htrees] at hroot
    cases hroot
    have hitems := items_ofTrees_eq (TokenTree.uniform_of_ofSource hsettings htrees)
    refine ⟨Chain.ofTrees trees, by rw [Chain.ofSource, htrees]; rfl, ?_⟩
    constructor
    case readAll_eq =>
      intro scope'
      rw [hitems]
    case statements =>
      exact fun count => readAlike_of_rest hitems (Declaration.readFirst_rest dialect count)
    case declarator =>
      intro template declarator
      refine readAlike_of_rest hitems fun level scope' => ?_
      simp only [ends_bind, ends_get, Reading.ends_ofExcept, implies_true, and_true]
      exact fun result hresult => Declarator.read_rest hresult
    case fortranDeclarator =>
      intro scope' template
      refine readAlike_of_rest hitems fun level declarator => ?_
      simp only [ends_bind]
      exact Fortran.readDeclarator_rest scope' template level declarator
    case typeDecl => exact readAlike_of_rest hitems TypeDecl.read_rest

/-- A structure with variables beside it, and a function that takes it. -/
theorem shapes_read_alike_point :
    (Scope.ofSettings {}).settings.ConstantFree ∧
      ∃ root, Node.ofSource .c (Scope.ofSettings {})
          "struct P \x7b int x[2]; \x7d a, *b; int f(const P &p, ...);" = .ok root ∧
        ∃ chain, Chain.ofSource .c (Scope.ofSettings {})
            "struct P \x7b int x[2]; \x7d a, *b; int f(const P &p, ...);" = .ok chain ∧
          ShapesAlike .c ((Scope.ofSettings {}).keywords .c) root chain := by
  have hsettings : (Scope.ofSettings {}).settings.ConstantFree := by decide
  have hok : (Node.ofSource .c (Scope.ofSettings {})
      "struct P \x7b int x[2]; \x7d a, *b; int f(const P &p, ...);").isOk = true := by
    decide +kernel
  refine ⟨hsettings, ?_⟩
  cases hroot : Node.ofSource .c (Scope.ofSettings {})
      "struct P \x7b int x[2]; \x7d a, *b; int f(const P &p, ...);" with
  | error fault =>
    rw [hroot] at hok
    cases hok
  | ok root => exact ⟨root, rfl, shapes_read_alike hsettings hroot⟩

end CommonDecl
