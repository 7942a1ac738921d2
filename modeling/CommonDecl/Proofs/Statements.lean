import CommonDecl.Declaration.Read
import CommonDecl.Proofs.Grammar

/-!
# The grammar of statements

`Builds scope known construct names trees names'` says that `trees` are the tokens of a statement,
or of a part of one, that stands where the types `names` are known besides those of `scope`, and
after which the types `names'` are.  A type is known from where it is added to the scope on: the tag
of a body after the body, what a typedef aliases before the body, and the names of a typedef one
after the other.
-/

namespace CommonDecl

/-- The scope where further names are those of types. -/
def Scope.adding (scope : Scope) (names : List String) : Scope :=
  { scope with
    types := ⟨scope.types.entries ++ names.map fun name => ⟨some name, .ofName (some name), true⟩⟩ }

namespace TokenTree

variable (scope : Scope) (known : String → Bool)

/-- The token of a tag, where there is one. -/
def tagTrees (tag : Option String) : List TokenTree :=
  tag.toList.map (word scope known)

/-- Parts with commas between them. -/
def commaSeparated (parts : List (List TokenTree)) : List TokenTree :=
  [symbol scope known ","].intercalate parts

/-- The tokens of a bare declarator: one without its type, as it follows a comma or a body. -/
def IsBare (name : Option String) (trees : List TokenTree) : Prop :=
  trees ≠ [] ∧ ∃ right endsInArguments core, AreMarks scope right ∧
    Derives scope known (.core name endsInArguments) core ∧ trees = marks right ++ core

/-- The tokens of an entry of an enum: a name, with or without a value. -/
def IsEnumerator (trees : List TokenTree) : Prop :=
  ∃ name, IsWord name ∧ (trees = [word scope known name] ∨
    ∃ value, value ≠ [] ∧ Restorable scope known value ∧
      (∀ token, leaf token ∈ value → token.text ≠ ",") ∧
      trees = word scope known name :: symbol scope known "=" :: value)

end TokenTree

/-- The parts of a statement that declares a type. -/
inductive Construct where
  /-- A statement without the `;` that ends it. -/
  | statement
  /-- Statements, each with its `;`. -/
  | fields
  /-- What is inside the braces of a type. -/
  | body (isEnum : Bool)
  /-- The names of a typedef. -/
  | synonyms

open TokenTree in
/-- The trees are the tokens of a part of a statement. -/
inductive Builds (scope : Scope) (known : String → Bool) :
    Construct → List String → List TokenTree → List String → Prop where
  /-- Variables of a type that is known. -/
  | declarators {names left right : List String} {base : String} {name : Option String}
    {endsInArguments : Bool} {core : List TokenTree} {further : List (List TokenTree)}
    (hleft : ∀ text ∈ left, IsQualifierWord scope text) (hvariables : "typedef" ∉ left)
    (hbase : IsTypeWord (scope.adding names) base) (hright : AreMarks scope right)
    (hcore : Derives (scope.adding names) known (.core name endsInArguments) core)
    (harguments : endsInArguments = true → right = [] ∨ right.head?.any isPointerMarker = true ∨
      right.getLast?.any isPointerMarker = false)
    (hfurther : ∀ part ∈ further, ∃ name, IsBare (scope.adding names) known name part) :
    Builds scope known .statement names
      (commaSeparated scope known
        ((marks left ++ [word scope known base] ++ marks right ++ core) :: further)) names
  /-- A type that is not known yet, with variables of it.  It is introduced as a struct or the like,
  or is followed by a qualifier or a name. -/
  | introduced {names left : List String} {tag : String} {instances : List (List TokenTree)}
    (hleft : ∀ text ∈ left, IsQualifierWord scope text) (htagged : "typedef" ∉ left)
    (hintroduced : (∃ text ∈ TypeDecl.introducers, text ∈ left) ∨
      ∃ token first further, instances = (leaf token :: first) :: further)
    (htag : IsNameWord scope known tag)
    (hnew : (scope.adding names).knows tag = false)
    (hinstances : ∀ part ∈ instances, ∃ name,
      IsBare (scope.adding (names ++ [tag])) known name part) :
    Builds scope known .statement names
      (marks left ++ tagTrees scope known (some tag) ++ commaSeparated scope known instances)
      (names ++ [tag])
  /-- A type with a body, with variables of it. -/
  | tagged {names names' left : List String} {tag : Option String} {body : List TokenTree}
    {instances : List (List TokenTree)} (hleft : ∀ text ∈ left, IsQualifierWord scope text)
    (htagged : "typedef" ∉ left) (htag : ∀ text ∈ tag, IsFreeWord scope text)
    (hbody : Builds scope known (.body (left.contains "enum")) names body names')
    (hinstances : ∀ part ∈ instances,
      ∃ name, IsBare (scope.adding (names' ++ tag.toList)) known name part) :
    Builds scope known .statement names
      (marks left ++ tagTrees scope known tag ++ [group .brace body] ++
        commaSeparated scope known instances) (names' ++ tag.toList)
  /-- Further names of a type, which need not be known yet. -/
  | typedef {names names' left : List String} {aliased : String} {synonyms : List TokenTree}
    (hleft : ∀ text ∈ left, IsQualifierWord scope text) (haliased : IsFreeWord scope aliased)
    (hsynonyms : Builds scope known .synonyms (names ++ [aliased]) synonyms names') :
    Builds scope known .statement names
      (marks ("typedef" :: left) ++ [word scope known aliased] ++ synonyms) names'
  /-- Further names of a type with its body. -/
  | typedefBody {names names' names'' left : List String} {tag : Option String}
    {body synonyms : List TokenTree} (hleft : ∀ text ∈ left, IsQualifierWord scope text)
    (htag : ∀ text ∈ tag, IsFreeWord scope text)
    (hbody : Builds scope known (.body (left.contains "enum")) (names ++ tag.toList) body names')
    (hsynonyms : Builds scope known .synonyms names' synonyms names'') :
    Builds scope known .statement names
      (marks ("typedef" :: left) ++ tagTrees scope known tag ++ [group .brace body] ++
        synonyms) names''
  | noFields {names : List String} : Builds scope known .fields names [] names
  | field {names names' names'' : List String} {statement rest : List TokenTree}
    (hstatement : Builds scope known .statement names statement names')
    (hrest : Builds scope known .fields names' rest names'') :
    Builds scope known .fields names (statement ++ symbol scope known ";" :: rest) names''
  | fieldsBody {names names' : List String} {fields : List TokenTree}
    (hfields : Builds scope known .fields names fields names') :
    Builds scope known (.body false) names fields names'
  | enumBody {names : List String} {entries : List (List TokenTree)}
    (hentries : ∀ entry ∈ entries, IsEnumerator scope known entry) :
    Builds scope known (.body true) names (commaSeparated scope known entries) names
  | lastSynonym {names : List String} {name : String} {trees : List TokenTree}
    (h : IsBare (scope.adding names) known (some name) trees) :
    Builds scope known .synonyms names trees (names ++ [name])
  | synonym {names names' : List String} {name : String} {trees rest : List TokenTree}
    (h : IsBare (scope.adding names) known (some name) trees)
    (hrest : Builds scope known .synonyms (names ++ [name]) rest names') :
    Builds scope known .synonyms names (trees ++ symbol scope known "," :: rest) names'

/-! ### Small statements -/

section

variable {scope : Scope} {known : String → Bool}

/-- A name alone, or with qualifiers, is a bare declarator. -/
theorem isBare_name {right : List String} {name : String} (hright : AreMarks scope right)
    (h : IsNameWord scope known name) :
    TokenTree.IsBare scope known (some name)
      (TokenTree.marks right ++ TokenTree.nameTrees (some name)) := by
  have hname : ∀ text ∈ some name, IsNameWord scope known text := by
    rintro text ⟨⟩
    exact h
  have hcore :
      Derives scope known (.core (some name) false) (TokenTree.nameTrees (some name) ++ []) :=
    .bareVariable hname areDimensions_nil
  rw [List.append_nil] at hcore
  exact ⟨by simp [TokenTree.nameTrees], right, false, _, hright, hcore, rfl⟩

/-- A struct with one field. -/
theorem builds_struct {tag base : String} {name : Option String} {endsInArguments : Bool}
    {core : List TokenTree} (hstruct : IsQualifierWord scope "struct") (htag : IsFreeWord scope tag)
    (hbase : IsTypeWord (scope.adding []) base)
    (hcore : Derives (scope.adding []) known (.core name endsInArguments) core) :
    Builds scope known .statement []
      (TokenTree.marks ["struct"] ++ TokenTree.tagTrees scope known (some tag) ++
        [.group .brace (TokenTree.commaSeparated scope known [TokenTree.marks [] ++
          [TokenTree.word scope known base] ++ TokenTree.marks [] ++ core] ++
            [TokenTree.symbol scope known ";"])] ++ TokenTree.commaSeparated scope known [])
              [tag] := by
  have hleft : ∀ text ∈ ["struct"], IsQualifierWord scope text :=
    List.forall_mem_singleton.mpr hstruct
  have htag' : ∀ text ∈ some tag, IsFreeWord scope text := by
    rintro text ⟨⟩
    exact htag
  have hfield := Builds.declarators (List.forall_mem_nil _) (by simp) hbase areMarks_nil hcore
    (fun _ => Or.inl rfl) (List.forall_mem_nil _)
  exact .tagged hleft (by decide) htag' (.fieldsBody (.field hfield .noFields))
    (List.forall_mem_nil _)

end

end CommonDecl
