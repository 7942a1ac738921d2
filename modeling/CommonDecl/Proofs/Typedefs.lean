import CommonDecl.Proofs.TypeHeads

/-!
# Names of typedefs

The names of a typedef are read one after the other, and each is the name of a type from then on
(`TypeDecl.ReadsSiblings`).  A typedef is its qualifiers, the type that it aliases and its first
name (`writes_typedef`).
-/

namespace CommonDecl

open TokenTree (items afterCommas IsBare)

variable {scope : Scope} {known : String → Bool} {rolesOf : Token → Roles}
  {names names' : List String} {types : TypeTable}

/-- A bare declarator is read in a scope whose table has gained the names that it may use. -/
theorem readsBare_of_gains (hroles : Respects scope rolesOf) (hcomma : scope.Plain ",")
    (h : scope.Gains names types) {name : Option String} {trees : List TokenTree}
    (hbare : IsBare (scope.adding names) known name trees) :
    ReadsBare { scope with types } known rolesOf name trees := by
  have hroles' : Respects { scope with types } rolesOf := hroles
  exact readsBare_of_isBare hroles' (h.plain hcomma (by decide)) (hbare.congr types h.knows_eq)

theorem readsBare_each (hroles : Respects scope rolesOf) (hcomma : scope.Plain ",")
    (h : scope.Gains names types) {parts : List (List TokenTree)}
    (hparts : ∀ part ∈ parts, ∃ name, IsBare (scope.adding names) known name part) :
    ∀ part ∈ parts, ∃ name, ReadsBare { scope with types } known rolesOf name part := by
  intro part hpart
  obtain ⟨name, hbare⟩ := hparts part hpart
  exact ⟨name, readsBare_of_gains hroles hcomma h hbare⟩

namespace TypeDecl

/-! ### The aliased type -/

/-- The type that a typedef aliases is found or added, and is known then. -/
theorem exists_findOrDeclare (h : scope.Gains names types) (hsound : types.Sound)
    {name : Option String} (hname : ∀ text ∈ name, IsWord text) :
    ∃ ref types', findOrDeclare name { scope with types } = .ok ref { scope with types := types' } ∧
      scope.Gains (names ++ name.toList) types' ∧ types'.Sound ∧ types'.Names ref name := by
  have hsound₀ : ({ scope with types } : Scope).types.Sound := hsound
  have hspec := findOrDeclare_spec name hsound₀
  have hget : (get : Reading Scope) { scope with types } =
      .ok { scope with types } { scope with types } :=
    rfl
  cases hlookup : name >>= { scope with types }.lookup with
  | some found =>
    have hstep : findOrDeclare name { scope with types } = .ok found { scope with types } := by
      rw [findOrDeclare, bind_of_ok hget, hlookup]
      rfl
    obtain ⟨-, hsound', hnames⟩ := hspec.of_ok hstep
    refine ⟨found, types, hstep, ?_, hsound', hnames⟩
    obtain ⟨text, rfl, -⟩ := Option.bind_eq_some_iff.mp hlookup
    exact h.append_of_mem (List.mem_of_getElem? hnames.1) (hname text rfl)
  | none =>
    have hstep : findOrDeclare name { scope with types } =
        Reading.declare (.ofName name) true { scope with types } := by
      rw [findOrDeclare, bind_of_ok hget, hlookup]
    obtain ⟨-, hsound', hnames⟩ := hspec.of_ok hstep
    exact ⟨_, _, hstep, h.declare (.ofName name) true hname, hsound', hnames⟩

theorem readNamedDeclarator_of_read {level rest : Level} {aliased : TypeRef}
    {declarator : Declarator} {name : String} (unnamed : Fault)
    (hread : Declarator.read scope (some (Declarator.ofBase aliased)) {} level =
      .ok (declarator, rest))
    (hname : declarator.name = some name) :
    readNamedDeclarator aliased unnamed level scope = .ok (name, declarator, rest) scope := by
  have hget : (get : Reading Scope) scope = .ok scope scope := rfl
  have hlifted :
      Reading.ofExcept (Declarator.read scope (some (Declarator.ofBase aliased)) {} level)
      scope = .ok (declarator, rest) scope := by
    rw [hread]
    rfl
  rw [readNamedDeclarator, bind_of_ok hget, bind_of_ok hlifted]
  dsimp only
  rw [hname]
  rfl

/-- A typedef of a type that is only named. -/
theorem readTypedef_of_noBody {before middle : Scope} {level rest : Level} {left : List String}
    {tag : Option String} {ref : TypeRef} {name : String} {declarator : Declarator}
    (hleft : level.leftQualifiers = ⟨"typedef" :: left⟩)
    (htag : typeName? level.afterLeftQualifiers = tag)
    (hnamed : findOrDeclare tag before = .ok ref middle)
    (hbody : readBody? level middle = .ok none middle)
    (hread : Declarator.read middle (some (Declarator.ofBase ref)) {}
      (afterTypeName level.afterLeftQualifiers) = .ok (declarator, rest))
    (hname : declarator.name = some name) :
    TypeDecl.read level before = .ok (.synonym ⟨left⟩ name ⟨ref, none, declarator⟩,
      rest) middle := by
  have hremove : level.leftQualifiers.remove "typedef" = ⟨left⟩ := by
    rw [hleft, Qualifiers.remove, List.erase_cons_head]
  rw [read_of_typedef (by rw [hleft]; rfl), readTypedef, htag, bind_of_ok hnamed, bind_of_ok hbody]
  dsimp only
  rw [bind_of_ok (readNamedDeclarator_of_read _ hread hname), hremove]
  rfl

/-- A typedef of a type with its body, which fills in what was found or added under its tag. -/
theorem readTypedef_of_body {before middle after last : Scope} {level rest : Level}
    {left : List String} {tag : Option String} {ref aliased : TypeRef} {members : List Member}
    {name : String} {declarator : Declarator} (hleft : level.leftQualifiers = ⟨"typedef" :: left⟩)
    (htag : typeName? level.afterLeftQualifiers = tag)
    (hnamed : findOrDeclare tag before = .ok ref middle)
    (hbody : readBody? level middle = .ok (some members) after)
    (hdefine : Reading.define ref.handle (.tagged {} tag (some members)) after = .ok aliased last)
    (hread : Declarator.read last (some (Declarator.ofBase aliased)) {}
      (afterTypeName level.afterLeftQualifiers).next = .ok (declarator, rest))
    (hname : declarator.name = some name) :
    TypeDecl.read level before = .ok (.synonym ⟨left⟩ name
      ⟨aliased, some (.tagged {} tag (some members)), declarator⟩, rest) last := by
  have hremove : level.leftQualifiers.remove "typedef" = ⟨left⟩ := by
    rw [hleft, Qualifiers.remove, List.erase_cons_head]
  rw [read_of_typedef (by rw [hleft]; rfl), readTypedef, htag, bind_of_ok hnamed, bind_of_ok hbody]
  dsimp only
  rw [bind_of_ok hdefine, bind_of_ok (readNamedDeclarator_of_read _ hread hname), hremove]
  rfl

/-! ### Further names -/

variable (scope known rolesOf) in
/-- The names of a typedef after the first one are read up to the end of the statement, each with
the ones before it known, and their texts write them. -/
def ReadsSiblings (names : List String) (parts : List (List TokenTree))
    (names' : List String) : Prop :=
  ∀ aliased qualifiers types rest, scope.Gains names types → ∃ siblings types',
    readSiblings qualifiers aliased (items rolesOf (afterCommas scope known parts) ++
        Level.ofSemicolon rest) { scope with types } =
      .ok (siblings, Level.ofSemicolon rest) { scope with types := types' } ∧
    scope.Gains names' types' ∧ WriteEach scope known parts siblings

theorem readsSiblings_nil : ReadsSiblings scope known rolesOf names [] names := by
  intro aliased qualifiers types rest h
  refine ⟨[], types, ?_, h, .nil⟩
  show readSiblings qualifiers aliased (Level.ofSemicolon rest) _ = _
  rw [readSiblings, if_neg (by rintro ⟨⟩)]
  rfl

theorem readsSiblings_cons (hroles : Respects scope rolesOf) (hcomma : scope.Plain ",")
    {name : String} {part : List TokenTree} {parts : List (List TokenTree)}
    (hbare : IsBare (scope.adding names) known (some name) part)
    (hparts : ReadsSiblings scope known rolesOf (names ++ [name]) parts names') :
    ReadsSiblings scope known rolesOf names (part :: parts) names' := by
  intro aliased qualifiers types rest h
  have hpart := readsBare_of_gains hroles hcomma h hbare
  obtain ⟨declarator, hread, hname, htext⟩ := hpart.exists_read (Declarator.ofBase aliased)
    (items rolesOf (afterCommas scope known parts) ++ Level.ofSemicolon rest)
    (stops_afterCommas hroles hcomma parts rest)
  have hnamed := readNamedDeclarator_of_read (.unnamedSibling aliased.name) hread hname
  -- The name is registered before the names after it are read.
  obtain ⟨ref, types₁, hregister, hgains⟩ := h.exists_register
    (.synonym qualifiers name ⟨aliased, none, declarator⟩)
      (by rintro text ⟨⟩; exact hpart.isWord name rfl)
  obtain ⟨siblings, types₂, hsiblings, hgains', htexts⟩ :=
    hparts aliased qualifiers types₁ rest hgains
  refine ⟨declarator :: siblings, types₂, ?_, hgains', .cons htext htexts⟩
  rw [items_afterCommas_cons hroles hcomma, readSiblings, if_pos (isToken_cons "," _)]
  rw [Level.next, List.tail_cons, bind_of_ok hnamed]
  dsimp only
  rw [bind_of_ok hregister, if_pos length_lt_of_cons_append, bind_of_ok hsiblings]
  rfl

/-! ### The text -/

/-- A typedef writes its qualifiers, the type that it aliases and its first name. -/
theorem writes_typedef {left : List String} {aliased declarator : String}
    {inner first : List TokenTree} (hleft : ∀ text ∈ left, IsQualifierWord scope text)
    (haliased : Writes (scope.keywords .c) known aliased inner)
    (hdeclarator : Writes (scope.keywords .c) known declarator first) :
    Writes (scope.keywords .c) known
      (Text.trimEnd ("typedef " ++ (⟨left⟩ : Qualifiers).leadingText ++ aliased ++
        " " ++ declarator))
      (TokenTree.marks ("typedef" :: left) ++ inner ++ first) := by
  have htypedef : Writes (scope.keywords .c) known "typedef" (TokenTree.marks ["typedef"]) :=
    IsMark.writes (Or.inr (Or.inr (isQualifierWord_typedef scope)))
  have hhead :=
    (writes_leadingText (areMarks_of_words hleft)).append haliased (apart_leftText hleft _)
  have hwhole :=
    (htypedef.append hhead.space_append (apart_space _ _)).append hdeclarator.space_append
    (apart_space _ _)
  have htrees : TokenTree.marks ("typedef" :: left) ++ inner ++ first =
      TokenTree.marks ["typedef"] ++ (TokenTree.marks left ++ inner) ++ first := by
    simp [TokenTree.marks]
  rw [show "typedef " = "typedef" ++ " " by decide, htrees]
  refine Writes.trimEnd ?_
  simpa only [String.append_assoc] using hwhole

end TypeDecl

end CommonDecl
