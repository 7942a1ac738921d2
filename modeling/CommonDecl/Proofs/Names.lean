import CommonDecl.Proofs.References
import CommonDecl.Proofs.Statements

/-!
# The names that are known on the way

While a statement is read, the table of types gains names, each the name of a type that was declared
(`Gains.declare`).  Which words are the names of types depends only on the names in the table, so a
declarator of the grammar is one in every scope whose table has the same names (`Derives.congr`).
-/

namespace CommonDecl

namespace Scope

/-! ### Names that a table gains -/

/-- The table has the names in the scope and the given ones, which are words, and no other names. -/
structure Gains (scope : Scope) (names : List String) (types : TypeTable) : Prop where
  mem_keys_iff : ∀ text, some text ∈ types.keys ↔ some text ∈ scope.types.keys ∨ text ∈ names
  isWord : ∀ text ∈ names, IsWord text

variable {scope : Scope} {names : List String} {types : TypeTable}

theorem gains_nil (scope : Scope) : scope.Gains [] scope.types :=
  ⟨by simp, by simp⟩

/-- In a table with the same names, the same words are the names of types. -/
theorem Gains.knows_eq (h : scope.Gains names types) :
    { scope with types }.knows = (scope.adding names).knows := by
  funext text
  have hadding : some text ∈ (scope.adding names).types.keys ↔
      some text ∈ scope.types.keys ∨ text ∈ names := by
    simp [adding, TypeTable.keys]
  rw [Bool.eq_iff_iff, knows_iff, knows_iff, hadding, h.mem_keys_iff]
  rfl

theorem Gains.plain (h : scope.Gains names types) {symbol : String} (hplain : scope.Plain symbol)
    (hword : ¬ IsWord symbol) : { scope with types }.Plain symbol := by
  refine ⟨hplain.not_isQualifier, ?_⟩
  have hknown := hplain.not_known
  rw [Bool.eq_false_iff, Ne, knows_iff] at hknown ⊢
  rintro ⟨hhidden, hkey⟩
  rcases (h.mem_keys_iff symbol).mp hkey with hkey | hname
  · exact hknown ⟨hhidden, hkey⟩
  · exact hword (h.isWord symbol hname)

/-- A type that is added adds its name. -/
theorem Gains.declare (h : scope.Gains names types) (declared : TypeDecl) (isOpaque : Bool)
    (hname : ∀ text ∈ declared.name?, IsWord text) :
    scope.Gains (names ++ declared.name?.toList) (types.declare declared isOpaque).2 := by
  constructor
  · intro text
    rw [TypeTable.mem_keys_declare, h.mem_keys_iff, List.mem_append, or_assoc, Option.mem_toList]
  · intro text htext
    rw [List.mem_append, Option.mem_toList] at htext
    rcases htext with htext | htext
    · exact h.isWord text htext
    · exact hname text htext

/-- A type that was read is added with its name. -/
theorem Gains.exists_register (h : scope.Gains names types) (declared : TypeDecl)
    (hname : ∀ text ∈ declared.name?, IsWord text) :
    ∃ ref types', Reading.register declared { scope with types } =
      .ok ref { scope with types := types' } ∧
        scope.Gains (names ++ declared.name?.toList) types' :=
  ⟨_, _, rfl, h.declare declared false hname⟩

/-- A name that the table has already is no further name. -/
theorem Gains.append_of_mem (h : scope.Gains names types) {name : String}
    (hkey : some name ∈ types.keys) (hname : IsWord name) :
    scope.Gains (names ++ [name]) types := by
  constructor
  · intro text
    rw [List.mem_append, List.mem_singleton, ← or_assoc, ← h.mem_keys_iff]
    refine ⟨Or.inl, ?_⟩
    rintro (htext | rfl)
    · exact htext
    · exact hkey
  · intro text htext
    rw [List.mem_append, List.mem_singleton] at htext
    rcases htext with htext | rfl
    · exact h.isWord text htext
    · exact hname

theorem Gains.of_keys_eq {types' : TypeTable} (h : scope.Gains names types)
    (hkeys : types'.keys = types.keys) : scope.Gains names types' :=
  ⟨by rw [hkeys]; exact h.mem_keys_iff, h.isWord⟩

/-- A type that is there is filled in under the name that it has. -/
theorem Gains.exists_define (h : scope.Gains names types) {ref : TypeRef} {key : Option String}
    (hnames : types.Names ref key) (declared : TypeDecl) :
    ∃ filled types', Reading.define ref.handle declared { scope with types } =
        .ok filled { scope with types := types' } ∧ scope.Gains names types' := by
  have hkey := hnames.1
  rw [TypeTable.getElem?_keys, Option.map_eq_some_iff] at hkey
  obtain ⟨old, hold, -⟩ := hkey
  obtain ⟨⟨filled, types'⟩, hdefine⟩ :
      ∃ result, types.define ref.handle declared = .ok result := by
    rw [TypeTable.define, hold]
    exact ⟨_, rfl⟩
  refine ⟨filled, types', ?_, h.of_keys_eq (TypeTable.keys_define hdefine)⟩
  unfold Reading.define
  dsimp only
  rw [hdefine]

end Scope

/-! ### Declarators in scopes with the same names -/

section

variable {scope : Scope} {known : String → Bool} {text : String} {texts : List String}
  (types : TypeTable)

theorem IsQualifierWord.congr (h : IsQualifierWord scope text) :
    IsQualifierWord { scope with types } text :=
  ⟨h.isWord, h.isQualifier⟩

theorem IsFreeWord.congr (h : IsFreeWord scope text) : IsFreeWord { scope with types } text :=
  ⟨h.isWord, h.not_isQualifier⟩

theorem IsNameWord.congr (h : IsNameWord scope known text) :
    IsNameWord { scope with types } known text :=
  ⟨h.toIsFreeWord.congr types, h.not_known⟩

theorem AreMarks.congr (h : AreMarks scope texts) : AreMarks { scope with types } texts := by
  refine ⟨fun text htext => ?_, h.apart⟩
  rcases h.each text htext with hstar | hamp | hword
  · exact Or.inl hstar
  · exact Or.inr (Or.inl hamp)
  · exact Or.inr (Or.inr (hword.congr types))

/-- A declarator of the grammar is one in every scope where the same words are the names of types.
-/
theorem Derives.congr (hknows : { scope with types }.knows = scope.knows) {symbol : Symbol}
    {trees : List TokenTree} (h : Derives scope known symbol trees) :
    Derives { scope with types } known symbol trees := by
  induction h with
  | typed hleft hbase hright _ harguments hcore =>
    have hbase' := hbase.toIsFreeWord.congr types
    exact .typed (fun text htext => (hleft text htext).congr types)
      ⟨hbase', by rw [hknows]; exact hbase.knows⟩ (hright.congr types) hcore harguments
  | untyped hleft hne hright hstart hfresh _ hcore =>
    exact .untyped (fun text htext => (hleft text htext).congr types) hne
      (hright.congr types) hstart
      (by rw [hknows]; exact hfresh) hcore
  | bareVariable hname hdimensions =>
    exact .bareVariable (fun text htext => (hname text htext).congr types) hdimensions
  | bareFunction hname _ harguments =>
    exact .bareFunction (fun text htext => (hname text htext).congr types) harguments
  | nestedVariable _ hdimensions hnest => exact .nestedVariable hnest hdimensions
  | functionPointer _ _ hnest harguments => exact .functionPointer hnest harguments
  | nestOfName hright hname hdimensions =>
    exact .nestOfName (hright.congr types) (fun text htext =>
      (hname text htext).congr types) hdimensions
  | nestOfVariable hright _ hdimensions hnest =>
    exact .nestOfVariable (hright.congr types) hnest hdimensions
  | nestOfFunction hright _ _ hnest harguments =>
    exact .nestOfFunction (hright.congr types) hnest harguments
  | argument _ hdeclarator => exact .argument hdeclarator
  | ellipsis => exact .ellipsis
  | arguments _ hitems => exact .arguments hitems

/-- A bare declarator is one in every scope where the same words are the names of types. -/
theorem TokenTree.IsBare.congr (hknows : { scope with types }.knows = scope.knows)
    {name : Option String} {trees : List TokenTree} (h : IsBare scope known name trees) :
    IsBare { scope with types } known name trees := by
  obtain ⟨hne, right, endsInArguments, core, hright, hcore, rfl⟩ := h
  exact ⟨hne, right, endsInArguments, core, hright.congr types, hcore.congr types hknows, rfl⟩

end

end CommonDecl
