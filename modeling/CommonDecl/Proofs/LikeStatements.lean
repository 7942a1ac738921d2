import CommonDecl.Proofs.ComparedStatements

/-!
# Statements on levels that are alike

Where one of two levels that are alike is read and no added word is declared as a name, the other
one is read to the same declarations and adds the same types (`Declaration.read_alike`,
`Declaration.readAll_alike`).  A scope suits the added words if it knows them all, and the `;` is no
type in it; this is kept on the way, which makes likeness a comparison of a scope with itself
(`likeness`).
-/

namespace CommonDecl

open Level

variable {added : String → Prop} {scope after : Scope} {tail tail' level level' rest : Level}

/-! ### Scopes that know the added words -/

/-- The added words are names of types in the scope, and the `;` is not. -/
structure Scope.Suits (added : String → Prop) (scope : Scope) : Prop where
  knows : ∀ word, added word → scope.knows word = true
  not_knows_semicolon : scope.knows ";" = false

theorem Scope.Suits.lookup (h : scope.Suits added) : scope.lookup ";" = none :=
  Scope.lookup_of_not_knows h.not_knows_semicolon

/-- A scope with further names suits as well, unless the `;` is one of them. -/
theorem Scope.Suits.of_keys {types : TypeTable} (h : scope.Suits added)
    (hkeep : ∀ name, some name ∈ scope.types.keys → some name ∈ types.keys)
    (hsemicolon : some ";" ∈ types.keys → some ";" ∈ scope.types.keys) :
    { scope with types }.Suits added := by
  constructor
  · intro word hword
    have hknown := h.knows word hword
    rw [knows_iff] at hknown ⊢
    exact ⟨hknown.1, hkeep word hknown.2⟩
  · have hunknown := h.not_knows_semicolon
    rw [Bool.eq_false_iff, Ne, knows_iff] at hunknown ⊢
    exact fun hknown => hunknown ⟨hknown.1, hsemicolon hknown.2⟩

/-- A scope still suits after a type is added to it, if the `;` is not its name. -/
theorem Scope.Suits.declare (h : scope.Suits added) {declared : TypeDecl} (isOpaque : Bool)
    (hname : declared.name? ≠ some ";") :
    { scope with types := (scope.types.declare declared isOpaque).2 }.Suits added := by
  refine h.of_keys (fun name hmem => ?_) fun hmem => ?_
  · rw [TypeTable.mem_keys_declare]
    exact Or.inl hmem
  · rw [TypeTable.mem_keys_declare] at hmem
    exact hmem.resolve_right hname

/-- A scope still suits after a type of it gets its members. -/
theorem Scope.Suits.define (h : scope.Suits added) {handle : Nat} {declared : TypeDecl}
    {ref : TypeRef} {types : TypeTable}
    (hdefine : scope.types.define handle declared = .ok (ref, types)) :
    { scope with types }.Suits added := by
  have hkeys := TypeTable.keys_define hdefine
  exact h.of_keys (fun name hmem => hkeys ▸ hmem) fun hmem => hkeys ▸ hmem

/-! ### Likeness as a comparison -/

/-- Levels that are alike are read in one and the same scope, which suits the added words. -/
def likeness (added : String → Prop) : Comparison id id where
  word := none
  added := added
  isPlain := True
  Scopes scope scope' := scope' = scope ∧ scope.Suits added
  Declares declared declared' := declared' = declared
  Fails failure failure' := failure' = failure
  lookup_eq := by
    rintro scope _ name ⟨rfl, -⟩ -
    rfl
  knows_of_added hscopes := hscopes.2.knows _
  lookup_semicolon hscopes _ := hscopes.2.lookup
  name_eq href := congrArg TypeRef.name href
  declares_of_sameBy hsame := by
    simpa only [TypeDecl.SameBy, TypeDecl.mapRefs_id] using hsame
  name?_eq := congrArg TypeDecl.name?
  declare := by
    rintro scope _ declared _ isOpaque ⟨rfl, hsuits⟩ rfl hname
    exact ⟨rfl, rfl, hsuits.declare isOpaque fun heq => (hname ";" heq).2 trivial rfl⟩
  define := by
    rintro scope _ declared _ ref _ ⟨rfl, hsuits⟩ rfl rfl hkey -
    obtain ⟨defined, types, hdefine⟩ := TypeTable.exists_define hkey _
    exact ⟨defined, types, defined, types, hdefine, hdefine, rfl, rfl, hsuits.define hdefine⟩
  fails := by
    rintro scope _ fault ⟨rfl, -⟩
    rfl

/-- Levels that are alike can be compared by likeness. -/
theorem likeness_levels (hplain : level.PlainSemicolons) (h : Alike added tail tail' level level')
    (hstop : StopAlike tail tail') : (likeness added).Levels tail tail' level level' where
  alike := h
  stop := hstop
  ends_or_plain := Or.inr trivial
  lacks := lacks_none level
  plain _ := hplain

namespace TypeDecl

/-- The declarator of a typedef is read where it has a name, and the scope stays as it was. -/
theorem readNamedDeclarator_eq_ok_iff {aliased : TypeRef} {unnamed : Fault} {name : String}
    {declarator : Declarator} :
    readNamedDeclarator aliased unnamed level scope = .ok (name, declarator, rest) after ↔
      Declarator.read scope (some (.ofBase aliased)) {} level = .ok (declarator, rest) ∧
        declarator.name = some name ∧ after = scope := by
  rw [readNamedDeclarator]
  constructor
  · intro h
    obtain ⟨scope₁, scope₂, hget, hbind⟩ := bind_apply_eq_ok_iff.mp h
    cases hget
    obtain ⟨⟨declarator', rest'⟩, scope₂, hread, hnamed⟩ := bind_apply_eq_ok_iff.mp hbind
    obtain ⟨hread, rfl⟩ := Reading.ofExcept_eq_ok_iff.mp hread
    dsimp only at hnamed
    cases hname : declarator'.name with
    | none =>
      rw [hname] at hnamed
      cases hnamed
    | some name' =>
      rw [hname] at hnamed
      cases hnamed
      exact ⟨hread, hname, rfl⟩
  · rintro ⟨hread, hname, rfl⟩
    refine bind_apply_eq_ok_iff.mpr ⟨after, after, rfl, bind_apply_eq_ok_iff.mpr
      ⟨(declarator, rest), after, Reading.ofExcept_eq_ok_iff.mpr ⟨hread, rfl⟩, ?_⟩⟩
    dsimp only
    rw [hname]
    rfl

end TypeDecl

namespace Declaration

/-- A statement on a level is read alike on a level that is alike, up to the `;` that ends it. -/
theorem read_alike (hplain : level.PlainSemicolons) (h : Alike added tail tail' level level')
    (hstop : StopAlike tail tail') (hsuits : scope.Suits added) {declaration : Declaration}
    (hread : Declaration.read level scope = .ok (declaration, rest) after)
    (hspares : Spares added declaration.declaredNames) :
    after.Suits added ∧ ∃ last last', Alike added tail tail' last last' ∧
      rest = last.afterSemicolon ∧
      Declaration.read level' scope = .ok (declaration, last'.afterSemicolon) after := by
  -- The simulation gives the same declaration up to a map of references, which is the identity.
  obtain ⟨⟨declaration', _⟩, _, hread', ⟨hsame, last, last', hlast, hrest, rfl⟩, rfl, hafter⟩ :=
    (simulates_read.2.2.2.1 level (likeness_levels hplain h hstop) ⟨rfl,
      hsuits⟩).of_ok hread hspares
  obtain rfl : declaration' = declaration := by
    simpa only [SameBy, mapRefs_id] using hsame
  exact ⟨hafter, last, last', hlast.alike, hrest, hread'⟩

/-- Statements on two levels that are alike are read to the same declarations and the same types,
unless one of them declares an added word as a name. -/
theorem readAll_alike (hplain : level.PlainSemicolons) (h : Alike added [] [] level level')
    (hsuits : scope.Suits added) (hfault : (readAll .c scope level).fault? = none)
    (hspares : Spares added (declaredNamesOf (readAll .c scope level).declarations)) :
    readAll .c scope level' = readAll .c scope level := by
  obtain ⟨hsame, hends⟩ := readAll_sameBy (likeness_levels hplain h .ends) ⟨rfl, hsuits⟩ hspares
    (Or.inl hfault)
  -- No reference is mapped, so the declarations are equal.
  rw [List.map_id'' mapRefs_id, List.map_id'' mapRefs_id] at hsame
  revert hfault hsame hends
  generalize readAll .c scope level' = outcome', readAll .c scope level = outcome
  obtain ⟨declarations, fault?, last⟩ := outcome
  obtain ⟨declarations', fault?', last'⟩ := outcome'
  rintro rfl rfl hends
  cases fault?' with
  | none => rw [show last' = last from hends.1]
  | some fault => exact hends.elim

end Declaration

end CommonDecl
