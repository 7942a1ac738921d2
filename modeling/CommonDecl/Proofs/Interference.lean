import CommonDecl.Proofs.ComparedStatements
import CommonDecl.Proofs.Renumbering

/-!
# Unrelated types

A type that is registered before a source is read, and whose name is no token of the source, changes
nothing but the numbers of the types (`Session.ofSource_after_register`): the source is cut into the
same tokens (`TokenTree.ofSource_widen`), its statements are read alike
(`Declaration.readAll_widen`), and the table that is left is the same one with the entry at its
place.
-/

namespace CommonDecl

open Level

variable {place : Nat} {entry : TypeEntry} {scope : Scope} {level : Level} {source : String}

/-! ### Widening as a comparison -/

/-- A level is read in a scope and in the same scope with one type more, whose name the level
lacks.  The references of the first run count with the numbers of the second one. -/
def widening (place : Nat) (entry : TypeEntry) : Comparison (TypeRef.renumber place) id where
  word := entry.key
  added _ := False
  isPlain := False
  Scopes scope scope' := place ≤ scope.types.size ∧ scope' = scope.widen place entry
  Declares declared declared' := declared' = declared.renumber place
  Fails failure failure' := failure' = (failure.1, failure.2.widen place entry)
  lookup_eq := by
    rintro scope _ name ⟨hplace, rfl⟩ hname
    rw [Option.map_id, id_eq, Scope.lookup_widen hplace hname]
  knows_of_added _ hadded := hadded.elim
  lookup_semicolon _ hplain := hplain.elim
  name_eq := by
    rintro ref _ rfl
    rfl
  declares_of_sameBy hsame := by
    simpa only [TypeDecl.SameBy, TypeDecl.mapRefs_id] using hsame
  name?_eq := by
    rintro declared _ rfl
    exact declared.name?_mapRefs
  declare := by
    rintro scope _ declared _ isOpaque ⟨hplace, rfl⟩ rfl hname
    have hwider := TypeTable.declare_widen hplace (fun name hown => (hname name hown).1) isOpaque
    have hsize := TypeTable.size_le_of_keys (TypeTable.keys_declare scope.types declared isOpaque)
    exact ⟨congrArg Prod.fst hwider, hplace.trans hsize,
      congrArg (fun types => { scope with types := types.2 }) hwider⟩
  define := by
    rintro scope _ declared _ ref _ ⟨hplace, rfl⟩ rfl rfl hkey -
    obtain ⟨defined, types, hdefine⟩ := TypeTable.exists_define hkey declared
    have hhandle : ref.handle < scope.types.size := by
      rw [TypeTable.size_eq_length_keys]
      exact (List.getElem?_eq_some_iff.mp hkey).1
    have hwider := @TypeTable.define_widen place scope.types entry declared _ hhandle
    rw [hdefine] at hwider
    have hsize : types.size = scope.types.size := by
      rw [TypeTable.size_eq_length_keys, TypeTable.size_eq_length_keys,
        TypeTable.keys_define hdefine]
    exact ⟨defined, types, _, _, hdefine, hwider, rfl, hplace.trans hsize.ge, rfl⟩
  fails := by
    rintro scope _ fault ⟨-, rfl⟩
    rfl

/-! ### Tokens -/

namespace TokenTree

/-- Lexemes are grouped in the same way where the same ones of them are known. -/
theorem groupFrom_congr_known {keywords : Keywords} {known known' : String → Bool}
    {lexemes : List Lexeme} (h : ∀ lexeme ∈ lexemes, known' lexeme.text = known lexeme.text)
    (outer : List (Bracket × List TokenTree)) (level : List TokenTree) :
    groupFrom keywords known' outer level lexemes =
      groupFrom keywords known outer level lexemes := by
  induction lexemes generalizing outer level with
  | nil => rfl
  | cons lexeme lexemes ih =>
    rw [List.forall_mem_cons] at h
    have hcls : TokenClass.ofLexeme keywords known' lexeme.kind lexeme.text =
        TokenClass.ofLexeme keywords known lexeme.kind lexeme.text := by
      unfold TokenClass.ofLexeme
      rw [h.1]
    have ih := ih h.2
    rw [groupFrom, groupFrom, hcls]
    simp only [ih]

/-- A source is cut into the same trees where a type is added whose name is no token of it. -/
theorem ofSource_widen (hplace : place ≤ scope.types.size) (dialect : Dialect)
    (hforeign : ∀ lexeme ∈ Lexeme.scan (Comment.strip dialect source),
      entry.key ≠ some lexeme.text) :
    ofSource dialect (scope.widen place entry) source = ofSource dialect scope source :=
  groupFrom_congr_known (fun lexeme hlexeme =>
    Scope.knows_widen hplace (hforeign lexeme hlexeme)) [] []

/-- A level that is read from a source lacks every word that is no token of the source. -/
theorem lacks_of_ofSource {dialect : Dialect} {trees : List TokenTree} {word : Option String}
    (h : ofSource dialect scope source = .ok trees)
    (hforeign : ∀ lexeme ∈ Lexeme.scan (Comment.strip dialect source), word ≠ some lexeme.text) :
    Level.Lacks word (Node.ofTrees trees).items := by
  have hall : All (fun token => word ≠ some token.text) trees :=
    all_of_groupFrom (fun lexeme hlexeme _ _ _ =>
      hforeign lexeme hlexeme) (by simp [All]) (by simp) h
  rw [Node.items_ofTrees]
  intro item rest hreaches hvalue
  obtain ⟨inner, hinner, hall⟩ := exists_trees_of_reaches hreaches hall
  cases inner with
  | nil => cases hinner
  | cons tree others =>
    cases hinner
    cases tree with
    | group bracket contents =>
      cases bracket <;> exact ⟨rfl, rfl⟩
    | leaf token =>
      rw [All, AllIn] at hall
      exact absurd hvalue hall.1

end TokenTree

/-! ### Statements of a source -/

namespace Declaration

/-- The statements of a level that lacks the name of the new type are read alike in the wider scope.
-/
theorem readAll_widen (hplace : place ≤ scope.types.size) (hlacks : level.Lacks entry.key) :
    readAll .c (scope.widen place entry) level =
      ⟨(readAll .c scope level).declarations.map (renumber place),
        (readAll .c scope level).fault?, (readAll .c scope level).scope.widen place entry⟩ := by
  obtain ⟨hsame, hends⟩ := readAll_sameBy (C := widening place entry) (.refl hlacks False.elim)
    ⟨hplace, rfl⟩ (fun _ _ => id) (Or.inr fun _ => id)
  rw [List.map_id'' mapRefs_id] at hsame
  revert hsame hends
  generalize readAll .c (scope.widen place entry) level = outcome', readAll .c scope level = outcome
  obtain ⟨declarations, fault?, last⟩ := outcome
  obtain ⟨declarations', fault?', last'⟩ := outcome'
  rintro rfl hends
  match fault?, fault?', hends with
  | none, none, ⟨_, hlast⟩ => rw [show last' = _ from hlast]
  | some fault, some fault', hfails =>
    obtain ⟨rfl, rfl⟩ := Prod.mk.inj hfails
    rfl

/-- A source in which the name of the new type is no token is read alike in the wider scope. -/
theorem ofSource_widen (hplace : place ≤ scope.types.size)
    (hforeign : ∀ lexeme ∈ Lexeme.scan (Comment.strip .c source), entry.key ≠ some lexeme.text) :
    match ofSource .c source scope with
    | .ok declarations after => ofSource .c source (scope.widen place entry) =
        .ok (declarations.map (renumber place)) (after.widen place entry)
    | .error fault after => ofSource .c source (scope.widen place entry) =
        .error fault (after.widen place entry) := by
  unfold ofSource
  rw [Node.ofSource, Node.ofSource, TokenTree.ofSource_widen hplace .c hforeign]
  cases htrees : TokenTree.ofSource .c scope source with
  | error fault => rfl
  | ok trees =>
    have hall := readAll_widen hplace (TokenTree.lacks_of_ofSource htrees hforeign)
    dsimp only [Except.map]
    rw [hall]
    obtain ⟨declarations, _ | fault, after⟩ := readAll .c scope (Node.ofTrees trees).items
    · rfl
    · rfl

end Declaration

/-! ### A type that is registered -/

/-- The references in a sound table lead to entries of it, so an entry behind all others renumbers
nothing. -/
theorem TypeTable.Sound.widen_size {table : TypeTable} (h : table.Sound) (entry : TypeEntry) :
    table.widen table.size entry = ⟨table.entries ++ [entry]⟩ := by
  have hmap : table.entries.map (TypeEntry.renumber table.size) = table.entries := by
    refine (List.map_congr_left fun old hold => ?_).trans (List.map_id _)
    have hbelow : ∀ ref ∈ old.declared.refs, ref.handle < table.size := by
      intro ref href
      obtain ⟨target, htarget, -⟩ := h.resolves old hold ref href
      exact lt_size_of_getElem? htarget
    rw [TypeEntry.renumber, TypeDecl.renumber,
      old.declared.mapRefs_of_eq fun ref href => TypeRef.renumber_of_lt (hbelow ref href)]
    rfl
  rw [widen, hmap, size, List.insertIdx_length_self]

/-- A type with a new name goes to the end of a sound table. -/
theorem Reading.register_new (hsound : scope.types.Sound) {declared : TypeDecl} {name : String}
    (hname : declared.name? = some name) (hnew : scope.types.lookup name = none) :
    register declared scope =
      .ok ⟨scope.types.size, name, false⟩
        (scope.widen scope.types.size ⟨some name, declared, false⟩) := by
  have hfound : (declared.name? >>= scope.types.handle?) = none := by
    rw [hname]
    cases hhandle : scope.types.handle? name with
    | none => exact hhandle
    | some handle =>
      have hkey := List.mem_of_getElem? (TypeTable.getElem?_of_handle? hhandle)
      rw [← TypeTable.isSome_lookup, hnew] at hkey
      cases hkey
  rcases TypeTable.declare_cases scope.types declared false with ⟨-, hadded⟩ |
    ⟨handle, -, hhandle, -⟩
  · rw [register, declare, hadded, hname, Scope.widen, hsound.widen_size]
    rfl
  · rw [hfound] at hhandle
    cases hhandle

namespace Session

/-- **Unrelated types do not interfere**: where a type with a new name is registered before a source
of C that does not have this name among its tokens, the source is read to the same declarations or
fails alike, and the same types are left beside the registered one.  Only the numbers from that of
the registered type on are one more. -/
theorem ofSource_after_register (settings : Settings) (hidden : List String) (parses : List Parse)
    (source : String) {declared : TypeDecl} {name : String} (hname : declared.name? = some name)
    (hnew : ((start settings hidden).run parses).scope.types.lookup name = none)
    (hforeign : ∀ lexeme ∈ Lexeme.scan (Comment.strip .c source), lexeme.text ≠ name) :
    let scope := ((start settings hidden).run parses).scope
    let place := scope.types.size
    let entry : TypeEntry := ⟨some name, declared, false⟩
    ∃ wider, Reading.register declared scope = .ok ⟨place, name, false⟩ wider ∧
      match Declaration.ofSource .c source scope with
      | .ok declarations after => Declaration.ofSource .c source wider =
          .ok (declarations.map (Declaration.renumber place)) (after.widen place entry)
      | .error fault after =>
        Declaration.ofSource .c source wider = .error fault (after.widen place entry) := by
  intro scope place entry
  have hsound : scope.types.Sound := (sound_run (sound_start settings hidden) parses).1.types
  refine ⟨scope.widen place entry, Reading.register_new hsound hname hnew,
    Declaration.ofSource_widen (Nat.le_refl _) fun lexeme hlexeme hkey => ?_⟩
  exact hforeign lexeme hlexeme (Option.some.inj hkey).symm

/-- A shape is registered before a list of nodes is declared, whose types then have the next
numbers. -/
theorem ofSource_after_shape :
    let scope := ((start {} []).run [.source .c "struct Point;"]).scope
    let shape : TypeDecl := .tagged ⟨["struct"]⟩ (some "Shape") none
    let source :=
      "typedef struct Node \x7b struct Node *next; \x7d List; List *head; struct Point p;"
    ∃ wider declarations after, Reading.register shape scope = .ok ⟨9, "Shape", false⟩ wider ∧
      Declaration.ofSource .c source scope = .ok declarations after ∧
      Declaration.ofSource .c source wider =
        .ok (declarations.map (Declaration.renumber 9)) (after.widen 9 ⟨some "Shape", shape,
          false⟩) ∧
      (Declaration.refsOf declarations).map TypeRef.handle = [9, 9, 9, 10, 8] := by
  intro scope shape source
  have hsize : scope.types.size = 9 := by decide +kernel
  have hread : Ends (Declaration.ofSource .c source) scope
      (fun declarations _ => (Declaration.refsOf declarations).map TypeRef.handle =
        [9, 9, 9, 10, 8])
      fun _ => False := by
    decide +kernel
  obtain ⟨declarations, after, hread, hhandles⟩ := hread.exists_ok
  obtain ⟨wider, hregister, hwider⟩ :=
    ofSource_after_register {} [] [.source .c "struct Point;"] source
      (show shape.name? = some "Shape" from rfl) (by decide +kernel) (by decide +kernel)
  change Reading.register shape scope = .ok ⟨scope.types.size, "Shape", false⟩ wider at hregister
  change match Declaration.ofSource .c source scope with
    | .ok declarations after => Declaration.ofSource .c source wider =
      .ok (declarations.map (Declaration.renumber scope.types.size))
        (after.widen scope.types.size ⟨some "Shape", shape, false⟩)
    | .error fault after => _ at hwider
  rw [hsize] at hregister hwider
  rw [hread] at hwider
  exact ⟨wider, declarations, after, hregister, hread, hwider, hhandles⟩

end Session

end CommonDecl
