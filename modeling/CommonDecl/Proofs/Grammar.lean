import CommonDecl.Proofs.Writing
import CommonDecl.Scope
import Mathlib.Data.List.Chain

/-!
# The grammar of declarators

`Derives scope known symbol trees` says that `trees` are tokens of a declarator, or of a part of
one: `Left Base Right Core`, where the core is a name or a nest with dimensions or an argument list
after it. `scope` says what is a qualifier and what is a type, and `known` what was a type when the
text was cut into tokens, which decides the class of a word.
-/

namespace CommonDecl

/-! ### Words and tokens -/

/-- A text is one word. -/
def IsWord (text : String) : Prop :=
  Lexeme.IsLexeme .word text.toList

instance (text : String) : Decidable (IsWord text) :=
  inferInstanceAs (Decidable (Lexeme.IsLexeme .word text.toList))

/-- The word is a qualifier of C. -/
structure IsQualifierWord (scope : Scope) (text : String) : Prop where
  isWord : IsWord text
  isQualifier : (scope.keywords .c).isQualifier text = true

/-- The word is no qualifier of C. -/
structure IsFreeWord (scope : Scope) (text : String) : Prop where
  isWord : IsWord text
  not_isQualifier : (scope.keywords .c).isQualifier text = false

/-- The word is the name of a type and no qualifier. -/
structure IsTypeWord (scope : Scope) (text : String) : Prop extends IsFreeWord scope text where
  knows : scope.knows text = true

/-- The word had no meaning when the text was cut into tokens. -/
structure IsNameWord (scope : Scope) (known : String → Bool) (text : String) : Prop
    extends IsFreeWord scope text where
  not_known : known text = false

instance (scope : Scope) (text : String) : Decidable (IsQualifierWord scope text) :=
  decidable_of_iff (IsWord text ∧ (scope.keywords .c).isQualifier text = true)
    ⟨fun h => ⟨h.1, h.2⟩, fun h => ⟨h.isWord, h.isQualifier⟩⟩

instance (scope : Scope) (text : String) : Decidable (IsFreeWord scope text) :=
  decidable_of_iff (IsWord text ∧ (scope.keywords .c).isQualifier text = false)
    ⟨fun h => ⟨h.1, h.2⟩, fun h => ⟨h.isWord, h.not_isQualifier⟩⟩

instance (scope : Scope) (text : String) : Decidable (IsTypeWord scope text) :=
  decidable_of_iff (IsFreeWord scope text ∧ scope.knows text = true)
    ⟨fun h => ⟨h.1, h.2⟩, fun h => ⟨h.toIsFreeWord, h.knows⟩⟩

instance (scope : Scope) (known : String → Bool) (text : String) :
    Decidable (IsNameWord scope known text) :=
  decidable_of_iff (IsFreeWord scope text ∧ known text = false)
    ⟨fun h => ⟨h.1, h.2⟩, fun h => ⟨h.toIsFreeWord, h.not_known⟩⟩

/-- The symbol has no meaning of its own: it is no qualifier and no name of a type. -/
structure Scope.Plain (scope : Scope) (symbol : String) : Prop where
  not_isQualifier : (scope.keywords .c).isQualifier symbol = false
  not_known : scope.knows symbol = false

/-- The qualifiers of a declarator: words, `*` and `&`, where no `&` follows another one. -/
structure AreMarks (scope : Scope) (texts : List String) : Prop where
  each : ∀ text ∈ texts, text = "*" ∨ text = "&" ∨ IsQualifierWord scope text
  apart : texts.IsChain fun before after => ¬(before = "&" ∧ after = "&")

namespace TokenTree

variable (scope : Scope) (known : String → Bool)

/-- The token of a word. -/
def word (text : String) : TokenTree :=
  leaf ⟨text, TokenClass.ofLexeme (scope.keywords .c) known .word text⟩

/-- The token of a symbol. -/
def symbol (text : String) : TokenTree :=
  leaf ⟨text, TokenClass.ofLexeme (scope.keywords .c) known .symbol text⟩

/-- The tokens of qualifiers. -/
def marks (texts : List String) : List TokenTree :=
  texts.map fun text => leaf ⟨text, .qualifier⟩

/-- The token of a name, where there is one. -/
def nameTrees (name : Option String) : List TokenTree :=
  name.toList.map fun text => leaf ⟨text, .unresolved⟩

/-- The text of the trees as it is kept is cut into the same trees again. -/
def Restorable (trees : List TokenTree) : Prop :=
  ofText (scope.keywords .c) known (Text.joinTokens (texts trees)) = .ok trees

/-- The trees are square groups whose contents can be restored from their text. -/
def AreDimensions (trees : List TokenTree) : Prop :=
  ∀ tree ∈ trees, ∃ contents, tree = group .square contents ∧ Restorable scope known contents

end TokenTree

/-! ### Declarators -/

/-- The parts of a declarator. -/
inductive Symbol where
  /-- A whole declarator, with a base type or without. -/
  | declarator (isTyped : Bool)
  /-- The part after the qualifiers with its own name, which ends in an argument list or does not.
  -/
  | core (name : Option String) (endsInArguments : Bool)
  /-- A group that starts with `*`, with the name inside it. -/
  | nest (name : Option String)
  /-- An entry of an argument list. -/
  | argument
  /-- The contents of an argument list. -/
  | arguments

open TokenTree in
/-- The trees are the tokens of a part of a declarator. -/
inductive Derives (scope : Scope) (known : String → Bool) : Symbol → List TokenTree → Prop where
  /-- Where an argument list ends the declarator, the qualifiers after the base type are absent,
  start with a pointer or end in a word. -/
  | typed {left right : List String} {base : String} {name : Option String} {endsInArguments : Bool}
    {core : List TokenTree} (hleft : ∀ text ∈ left, IsQualifierWord scope text)
    (hbase : IsTypeWord scope base) (hright : AreMarks scope right)
    (hcore : Derives scope known (.core name endsInArguments) core)
    (harguments : endsInArguments = true → right = [] ∨ right.head?.any isPointerMarker = true ∨
      right.getLast?.any isPointerMarker = false) :
    Derives scope known (.declarator true)
      (marks left ++ [word scope known base] ++ marks right ++ core)
  /-- The base type can be left out after a qualifier, if the name is not the name of a type. -/
  | untyped {left right : List String} {name : Option String} {endsInArguments : Bool}
    {core : List TokenTree} (hleft : ∀ text ∈ left, IsQualifierWord scope text) (hne : left ≠ [])
    (hright : AreMarks scope right) (hstart : right = [] ∨ right.head?.any isPointerMarker = true)
    (hfresh : ∀ text ∈ name, scope.knows text = false)
    (hcore : Derives scope known (.core name endsInArguments) core) :
    Derives scope known (.declarator false) (marks left ++ marks right ++ core)
  | bareVariable {name : Option String} {dimensions : List TokenTree}
    (hname : ∀ text ∈ name, IsNameWord scope known text)
    (hdimensions : AreDimensions scope known dimensions) :
    Derives scope known (.core name false) (nameTrees name ++ dimensions)
  | bareFunction {name : Option String} {arguments : List TokenTree}
    (hname : ∀ text ∈ name, IsNameWord scope known text)
    (harguments : Derives scope known .arguments arguments) :
    Derives scope known (.core name true) (nameTrees name ++ [group .parenthesis arguments])
  | nestedVariable {name : Option String} {nest dimensions : List TokenTree}
    (hnest : Derives scope known (.nest name) nest)
    (hdimensions : AreDimensions scope known dimensions) :
    Derives scope known (.core name false) (nest ++ dimensions)
  | functionPointer {name : Option String} {nest arguments : List TokenTree}
    (hnest : Derives scope known (.nest name) nest)
    (harguments : Derives scope known .arguments arguments) :
    Derives scope known (.core name true) (nest ++ [group .parenthesis arguments])
  | nestOfName {right : List String} {name : Option String} {dimensions : List TokenTree}
    (hright : AreMarks scope right) (hname : ∀ text ∈ name, IsNameWord scope known text)
    (hdimensions : AreDimensions scope known dimensions) :
    Derives scope known (.nest name)
      [group .parenthesis (marks ("*" :: right) ++ (nameTrees name ++ dimensions))]
  | nestOfVariable {right : List String} {name : Option String} {nest dimensions : List TokenTree}
    (hright : AreMarks scope right) (hnest : Derives scope known (.nest name) nest)
    (hdimensions : AreDimensions scope known dimensions) :
    Derives scope known (.nest name)
      [group .parenthesis (marks ("*" :: right) ++ (nest ++ dimensions))]
  | nestOfFunction {right : List String} {name : Option String} {nest arguments : List TokenTree}
    (hright : AreMarks scope right) (hnest : Derives scope known (.nest name) nest)
    (harguments : Derives scope known .arguments arguments) :
    Derives scope known (.nest name)
      [group .parenthesis (marks ("*" :: right) ++ (nest ++ [group .parenthesis arguments]))]
  | argument {isTyped : Bool} {item : List TokenTree}
    (h : Derives scope known (.declarator isTyped) item) : Derives scope known .argument item
  | ellipsis : Derives scope known .argument [symbol scope known "..."]
  | arguments {items : List (List TokenTree)}
    (h : ∀ item ∈ items, Derives scope known .argument item) :
    Derives scope known .arguments ([symbol scope known ","].intercalate items)

/-! ### Small declarators -/

theorem areMarks_nil {scope : Scope} : AreMarks scope [] :=
  ⟨by simp, .nil⟩

theorem areDimensions_nil {scope : Scope} {known : String → Bool} :
    TokenTree.AreDimensions scope known [] := by
  simp [TokenTree.AreDimensions]

/-- Nothing has to stand after a type. -/
theorem derives_nil {scope : Scope} {known : String → Bool} :
    Derives scope known (.core none false) [] :=
  .bareVariable (by simp) areDimensions_nil

/-- A type alone is a declarator. -/
theorem derives_type {scope : Scope} (known : String → Bool) {base : String}
    (h : IsTypeWord scope base) :
    Derives scope known (.declarator true) [TokenTree.word scope known base] :=
  .typed (List.forall_mem_nil _) h areMarks_nil derives_nil (by simp)

/-- A function of a type. -/
theorem derives_function {scope : Scope} {known : String → Bool} {base name : String}
    {arguments : List TokenTree} (hbase : IsTypeWord scope base)
    (hname : IsNameWord scope known name) (h : Derives scope known .arguments arguments) :
    Derives scope known (.declarator true)
      [TokenTree.word scope known base, .leaf ⟨name, .unresolved⟩, .group .parenthesis arguments] :=
  by
  have hcore : Derives scope known (.core (some name) true)
      (TokenTree.nameTrees (some name) ++ [.group .parenthesis arguments]) :=
    .bareFunction (by simpa using hname) h
  exact .typed (List.forall_mem_nil _) hbase areMarks_nil hcore fun _ => Or.inl rfl

/-- Two arguments of which only the types are given. -/
theorem derives_types {scope : Scope} (known : String → Bool) {base : String}
    (h : IsTypeWord scope base) :
    Derives scope known .arguments ([TokenTree.symbol scope known ","].intercalate
      [[TokenTree.word scope known base], [TokenTree.word scope known base]]) := by
  have hargument := Derives.argument (derives_type known h)
  exact .arguments (List.forall_mem_cons.mpr ⟨hargument, List.forall_mem_singleton.mpr hargument⟩)

/-- Two arguments, the first one only a qualifier and the second one only a type. -/
theorem derives_qualifier_type {scope : Scope} (known : String → Bool) {qualifier base : String}
    (hqualifier : IsQualifierWord scope qualifier) (h : IsTypeWord scope base) :
    Derives scope known .arguments ([TokenTree.symbol scope known ","].intercalate
      [TokenTree.marks [qualifier], [TokenTree.word scope known base]]) := by
  have hleft : ∀ text ∈ [qualifier], IsQualifierWord scope text :=
    List.forall_mem_singleton.mpr hqualifier
  have hfirst :
      Derives scope known .argument (TokenTree.marks [qualifier] ++ TokenTree.marks [] ++ []) :=
    .argument (.untyped hleft (by simp) areMarks_nil (Or.inl rfl) (by simp) derives_nil)
  exact .arguments (List.forall_mem_cons.mpr
    ⟨hfirst, List.forall_mem_singleton.mpr (.argument (derives_type known h))⟩)

end CommonDecl
