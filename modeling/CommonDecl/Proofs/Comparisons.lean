import CommonDecl.Proofs.LikeDeclarators
import CommonDecl.Proofs.MappedReferences

/-!
# Reading twice

Often two runs of a reader are compared: on two levels of which one was classified when more types
were known, or in two scopes whose types stand at other places.  A `Comparison` says in what the two
runs may differ and which laws its scopes obey; a dialect of it has to show no more than the laws.
The readers of declarators are gone through once, here: where the first run gives a declarator, the
second one gives the same one as far as the references count (`Declarator.read_sameBy`).
-/

namespace CommonDecl

open Level

/-! ### Comparisons -/

/-- What two runs of a reader may differ in.  References count as far as the map `first` keeps them
in the first run, and `second` in the second one. -/
structure Comparison (first second : TypeRef → TypeRef) where
  /-- The word that need not mean the same in both scopes.  The levels lack it. -/
  word : Option String
  /-- The words that had no meaning when the first level was classified and are names of types in
  the second one. -/
  added : String → Prop
  /-- A `;` is nothing but the end of a statement, so levels can go on differently behind one. -/
  isPlain : Prop
  /-- Both scopes can be read in. -/
  Scopes : Scope → Scope → Prop
  /-- Both types can be declared, each in its scope. -/
  Declares : TypeDecl → TypeDecl → Prop
  /-- Both runs can end in these faults and scopes. -/
  Fails : Fault × Scope → Fault × Scope → Prop
  lookup_eq : ∀ {scope scope' : Scope} {name : String}, Scopes scope scope' → word ≠ some name →
    (scope'.lookup name).map second = (scope.lookup name).map first
  knows_of_added : ∀ {scope scope' : Scope} {name : String}, Scopes scope scope' → added name →
    scope.knows name = true
  lookup_semicolon : ∀ {scope scope' : Scope}, Scopes scope scope' → isPlain →
    scope.lookup ";" = none
  name_eq : ∀ {ref ref' : TypeRef}, second ref' = first ref → ref'.name = ref.name
  declares_of_sameBy : ∀ {declared declared' : TypeDecl},
    TypeDecl.SameBy first second declared declared' → Declares declared declared'
  name?_eq : ∀ {declared declared' : TypeDecl}, Declares declared declared' →
    declared'.name? = declared.name?
  /-- A type is declared in both scopes, unless its name is the word, or a `;` where that is
  plain. -/
  declare : ∀ {scope scope' : Scope} {declared declared' : TypeDecl} (isOpaque : Bool),
    Scopes scope scope' → Declares declared declared' →
      (∀ name, declared.name? = some name → word ≠ some name ∧ (isPlain → name ≠ ";")) →
        second (scope'.types.declare declared' isOpaque).1 =
            first (scope.types.declare declared isOpaque).1 ∧
          Scopes { scope with types := (scope.types.declare declared isOpaque).2 }
            { scope' with types := (scope'.types.declare declared' isOpaque).2 }
  /-- The entries of a type are filled in, in both scopes, under the name by which they are
  found. -/
  define : ∀ {scope scope' : Scope} {declared declared' : TypeDecl} {ref ref' : TypeRef},
    Scopes scope scope' → Declares declared declared' → second ref' = first ref →
      scope.types.keys[ref.handle]? = some declared.name? →
        scope'.types.keys[ref'.handle]? = some declared.name? →
          ∃ defined types defined' types',
            scope.types.define ref.handle declared = .ok (defined, types) ∧
              scope'.types.define ref'.handle declared' = .ok (defined', types') ∧
                second defined' = first defined ∧
                  Scopes { scope with types } { scope' with types := types' }
  fails : ∀ {scope scope' : Scope} (fault : Fault), Scopes scope scope' →
    Fails (fault, scope) (fault, scope')

variable {first second : TypeRef → TypeRef}

namespace Comparison

variable (C : Comparison first second)

/-! ### Levels that are compared -/

/-- Two levels that can be read, up to where their tails start. -/
structure Levels (tail tail' level level' : Level) : Prop where
  alike : Alike C.added tail tail' level level'
  stop : StopAlike tail tail'
  ends_or_plain : tail = [] ∨ C.isPlain
  lacks : level.Lacks C.word
  plain : C.isPlain → level.PlainSemicolons

variable {C} {tail tail' level level' rest rest' contents contents' : Level}

namespace Levels

/-- One and the same level can be read twice. -/
theorem refl (hlacks : level.Lacks C.word) (hplain : C.isPlain → level.PlainSemicolons) :
    C.Levels [] [] level level where
  alike := alike_nil_iff.mpr (Item.Alike.refl_all level)
  stop := .ends
  ends_or_plain := Or.inl rfl
  lacks := hlacks
  plain := hplain

/-- What is left of both levels can be read as well. -/
theorem of_suffix (h : C.Levels tail tail' level level') (hrest : rest <:+ level)
    (halike : Alike C.added tail tail' rest rest') : C.Levels tail tail' rest rest' where
  alike := halike
  stop := h.stop
  ends_or_plain := h.ends_or_plain
  lacks := h.lacks.of_suffix hrest
  plain hplain := (h.plain hplain).of_reaches (reaches_of_suffix hrest)

/-- What stands inside a group on both levels can be read to its end. -/
theorem of_contents (h : C.Levels tail tail' level level') (hcontents : level.Reaches contents)
    (halike : List.Forall₂ (Item.Alike C.added) contents contents') :
    C.Levels [] [] contents contents' where
  alike := alike_nil_iff.mpr halike
  stop := .ends
  ends_or_plain := Or.inl rfl
  lacks := h.lacks.of_reaches hcontents
  plain hplain := (h.plain hplain).of_reaches hcontents

variable (h : C.Levels tail tail' level level')
include h

/-- The step past an item leads to levels that can be compared, unless it passes the `;` of the
tails. -/
theorem next (hsemicolon : C.isPlain → level.isToken ";" = false) :
    C.Levels tail tail' level.next level'.next := by
  refine h.of_suffix (next_suffix level) ?_
  rcases h.ends_or_plain with rfl | hplain
  · cases h.stop
    exact h.alike.next_nil
  · exact h.alike.next h.stop (hsemicolon hplain)

/-- A group is no `;`, so the step past it is allowed. -/
theorem next_of_isGroup {bracket : Bracket} (hgroup : level.isGroup bracket = true) :
    C.Levels tail tail' level.next level'.next :=
  h.next fun _ => isToken_eq_false_of_isGroup hgroup

/-- Qualifiers are passed on both levels, and no `;` is one. -/
theorem afterLeftQualifiers :
    C.Levels tail tail' level.afterLeftQualifiers level'.afterLeftQualifiers :=
  h.of_suffix (afterLeftQualifiers_suffix level) (h.alike.afterLeftQualifiers h.stop)

theorem afterQualifiers : C.Levels tail tail' level.afterQualifiers level'.afterQualifiers :=
  h.of_suffix (afterQualifiers_suffix level) (h.alike.afterQualifiers h.stop)

/-- What stands behind a declarator is passed on both levels, up to the same item. -/
theorem afterDeclarator : C.Levels tail tail' level.afterDeclarator level'.afterDeclarator :=
  h.of_suffix (afterDeclarator_suffix level) (h.alike.afterDeclarator h.stop)

theorem skipToAny :
    C.Levels tail tail' (level.skipToAny [",", ";"]) (level'.skipToAny [",", ";"]) :=
  h.of_suffix (skipToAny_suffix level _) (h.alike.skipToAny h.stop)

theorem afterTypeName :
    C.Levels tail tail' (TypeDecl.afterTypeName level) (TypeDecl.afterTypeName level') :=
  h.of_suffix (TypeDecl.afterTypeName_suffix level) (h.alike.afterTypeName h.stop)

omit h in
/-- Levels that go to their ends are compared behind the next delimiter as well. -/
theorem skipPast (h : C.Levels [] [] level level') (delimiter : String) :
    C.Levels [] [] (level.skipPast delimiter) (level'.skipPast delimiter) :=
  h.of_suffix (skipPast_suffix level delimiter) (h.alike.skipPast_nil delimiter)

omit h in
theorem afterSemicolon (h : C.Levels [] [] level level') :
    C.Levels [] [] level.afterSemicolon level'.afterSemicolon :=
  h.of_suffix (afterSemicolon_suffix level) h.alike.afterSemicolon_nil

/-- A group that is entered on the first level is entered on the second one. -/
theorem exists_contents? (hcontents : level.contents? = some contents) :
    ∃ contents', level'.contents? = some contents' ∧ C.Levels [] [] contents contents' := by
  rcases h.alike.contents?_eq h.stop with ⟨hnone, -⟩ | ⟨inner, inner', hinner, hinner', halike⟩
  · rw [hnone] at hcontents
    cases hcontents
  · rw [hinner] at hcontents
    cases hcontents
    exact ⟨inner', hinner', h.of_contents (.inside .start hinner) halike⟩

/-- A group that is entered on the first level is entered on the second one, to its end. -/
theorem exists_groupContents? {bracket : Bracket}
    (hcontents : level.groupContents? bracket = some contents) :
    ∃ contents', level'.groupContents? bracket = some contents' ∧
      C.Levels [] [] contents contents' := by
  obtain ⟨contents', hcontents', halike⟩ := h.alike.exists_groupContents? h.stop hcontents
  exact ⟨contents', hcontents', h.of_contents (reaches_of_groupContents? hcontents) halike⟩

theorem groupContents?_eq_none {bracket : Bracket} (hnone : level.groupContents? bracket = none) :
    level'.groupContents? bracket = none :=
  h.alike.groupContents?_eq_none h.stop hnone

end Levels

end Comparison

variable {C : Comparison first second} {scope scope' : Scope}
  {tail tail' level level' rest : Level} {template template' : Option Declarator}

namespace Declarator

/-! ### The type of a declarator -/

section

variable (hscopes : C.Scopes scope scope') (h : C.Levels tail tail' level level')
include hscopes h

/-- The type at the current item is the same one, as far as the references count. -/
theorem typeAt?_sameBy :
    (typeAt? scope' level').map second = (typeAt? scope level).map first := by
  rw [typeAt?, typeAt?, ← h.alike.word?_eq h.stop]
  cases hword : level.word? with
  | none => rfl
  | some name => exact C.lookup_eq hscopes (h.lacks.ne_of_word? hword)

/-- A type is passed on both levels, or on neither. -/
theorem afterType_levels :
    C.Levels tail tail' (afterType scope level) (afterType scope' level') := by
  have hsome : (typeAt? scope' level').isSome = (typeAt? scope level).isSome := by
    simpa only [Option.isSome_map] using congrArg Option.isSome (typeAt?_sameBy hscopes h)
  rw [afterType, afterType, hsome]
  split
  · rename_i htype
    exact h.next fun hplain =>
      isToken_semicolon_of_typeAt? (C.lookup_semicolon hscopes hplain) htype
  · exact h

/-- Behind the type both levels go on to be compared. -/
theorem afterTypePart_levels
    (htemplate : template'.map (mapRefs second) = template.map (mapRefs first)) :
    C.Levels tail tail' (afterTypePart scope template level)
      (afterTypePart scope' template' level') := by
  cases template with
  | some shared =>
    obtain ⟨shared', rfl, -⟩ := Option.map_eq_some_iff.mp htemplate
    exact h.afterQualifiers
  | none =>
    obtain rfl : template' = none := Option.map_eq_none_iff.mp htemplate
    exact (afterType_levels hscopes h.afterLeftQualifiers).afterQualifiers

variable {declarator declarator' : Declarator}
  (htemplate : template'.map (mapRefs second) = template.map (mapRefs first))
  (hdeclarator : SameBy first second declarator declarator')
include htemplate hdeclarator

/-- The type that a declarator starts with is the same in both scopes. -/
theorem readType_sameBy :
    SameBy first second (readType scope template declarator level)
      (readType scope' template' declarator' level') := by
  obtain ⟨hkind, hleft, hright, hbase, hname, hdimensions, houter, harguments, hnests⟩ :=
    mapRefs_eq_iff.mp hdeclarator
  -- The type comes from the template, which is the same, or it is read at the level.
  cases template with
  | some shared =>
    obtain ⟨shared', rfl, hshared⟩ := Option.map_eq_some_iff.mp htemplate
    obtain ⟨-, hleft', -, hbase', -⟩ := mapRefs_eq_iff.mp hshared
    refine mapRefs_eq_iff.mpr
      ⟨hkind, hleft', ?_, hbase', hname, hdimensions, houter, harguments, hnests⟩
    simp only [readType, hright, h.alike.qualifiers_eq h.stop]
  | none =>
    obtain rfl : template' = none := Option.map_eq_none_iff.mp htemplate
    have htype := afterType_levels hscopes h.afterLeftQualifiers
    refine mapRefs_eq_iff.mpr
      ⟨hkind, ?_, ?_, ?_, hname, hdimensions, houter, harguments, hnests⟩
    · simp only [readType, hleft, h.alike.leftQualifiers_eq h.stop]
    · simp only [readType, hright, htype.alike.qualifiers_eq htype.stop]
    · simp only [readType, Option.map_or, hbase, typeAt?_sameBy hscopes h.afterLeftQualifiers]

/-- What is put together from parts that are the same is the same. -/
theorem assemble_sameBy {nests nests' arguments arguments' : List Declarator}
    (hnests : SameAllBy first second nests nests')
    (harguments : SameAllBy first second arguments arguments')
    {stop stop' innermost innermost' : Level} (hinner : C.Levels stop stop' innermost innermost')
    (hname : atName innermost = atName innermost')
    (hcore : nestsAt (afterTypePart scope template level) = 0 →
      atName (afterTypePart scope template level) =
        atName (afterTypePart scope' template' level')) :
    SameBy first second (assemble scope template declarator level nests innermost arguments)
      (assemble scope' template' declarator' level' nests' innermost' arguments') := by
  obtain ⟨-, hleft, hright, hbase, hown, hdimensions, houter, hothers, haround⟩ :=
    mapRefs_eq_iff.mp (readType_sameBy hscopes h htemplate hdeclarator)
  have hpart := afterTypePart_levels hscopes h htemplate
  have hdepth := nestsAt_eq hpart.alike hpart.stop
  have hkind := kindAt_eq hpart.alike hpart.stop hcore
  have hafter := afterName_alike hinner.alike hinner.stop hname
  -- Part by part; what the parts are read from is alike on both levels.
  refine mapRefs_eq_iff.mpr ⟨?_, hleft, hright, hbase, ?_, ?_, ?_, ?_, ?_⟩
  · simp only [assemble, readName, ← hdepth, hkind]
  · simp only [assemble, readName, ← hname, hinner.alike.value?_eq hinner.stop, hown]
  · simp only [assemble, readName, hdimensions, hafter.dimensions_eq hinner.stop]
  · simp only [assemble, readName, houter, ← hdepth, hkind,
      dimensionsAfterNests_eq hpart.alike hpart.stop]
  · simp only [assemble, readName, mapRefsAll_append, hothers, harguments]
  · simp only [assemble, readName, mapRefsAll_append, haround, hnests]

end

/-- Nests with the same arguments are the same. -/
theorem nestOf_sameBy (right : Qualifiers) {arguments arguments' : Option (List Declarator)}
    (harguments : arguments'.map (mapRefsAll second) = arguments.map (mapRefsAll first))
    (h : C.Levels [] [] level level') :
    SameBy first second (nestOf right arguments level) (nestOf right arguments' level') := by
  cases arguments with
  | none =>
    obtain rfl : arguments' = none := Option.map_eq_none_iff.mp harguments
    exact mapRefs_eq_iff.mpr
      ⟨rfl, rfl, rfl, rfl, rfl, (h.alike.dimensions_eq .ends).symm, rfl, rfl, rfl⟩
  | some arguments =>
    obtain ⟨others, rfl, hothers⟩ := Option.map_eq_some_iff.mp harguments
    exact mapRefs_eq_iff.mpr
      ⟨rfl, rfl, rfl, rfl, rfl, (h.alike.next_nil.dimensions_eq .ends).symm, rfl, hothers, rfl⟩

/-! ### Readers of declarators -/

/-- Where the readers of declarators read the first level in the first scope, they read the second
one in the second scope to the same, unless an added word is declared as a name. -/
theorem read_sameBy_all (hscopes : C.Scopes scope scope') :
    (∀ template declarator level,
      ∀ {tail tail' level' rest : Level} {template' : Option Declarator}
        {declarator' result : Declarator}, C.Levels tail tail' level level' →
      template'.map (mapRefs second) = template.map (mapRefs first) →
      SameBy first second declarator declarator' →
      read scope template declarator level = .ok (result, rest) →
      Spares C.added result.declaredNames →
      ∃ result' rest', read scope' template' declarator' level' = .ok (result', rest') ∧
        SameBy first second result result' ∧ C.Levels tail tail' rest rest') ∧
    (∀ level, ∀ {tail tail' level' : Level} {arguments : Option (List Declarator)},
      C.Levels tail tail' level level' → readArgumentList scope level = .ok arguments →
      Spares C.added (declaredNamesOf (arguments.getD [])) →
      ∃ arguments', readArgumentList scope' level' = .ok arguments' ∧
        arguments'.map (mapRefsAll second) = arguments.map (mapRefsAll first)) ∧
    (∀ level, ∀ {level' : Level} {arguments : List Declarator}, C.Levels [] [] level level' →
      readArguments scope level = .ok arguments → Spares C.added (declaredNamesOf arguments) →
      ∃ arguments', readArguments scope' level' = .ok arguments' ∧
        SameAllBy first second arguments arguments') ∧
    ∀ depth level, ∀ {tail tail' level' innermost : Level} {nests : List Declarator},
      C.Levels tail tail' level level' → readNests scope depth level = .ok (nests, innermost) →
      Spares C.added (declaredNamesOf nests) →
      ∃ nests' innermost' stop stop', readNests scope' depth level' = .ok (nests', innermost') ∧
        SameAllBy first second nests nests' ∧ C.Levels stop stop' innermost innermost' ∧
        (depth = 0 → innermost = level ∧ innermost' = level') := by
  -- By the readers' own induction.  Groups are entered with nothing behind them, so the levels
  -- inside them are compared up to their ends.
  apply read_induct scope
  case declarator =>
    intro template declarator level core depth kind after hnests harguments
      tail tail' level' final template' declarator' result h htemplate hdeclarator hread hspares
    have hcore := afterTypePart_levels hscopes h htemplate
    -- The second run has the same parts: nests, a name, and an argument list if there is one.
    obtain ⟨nests, innermost, arguments, hinside, rfl, hlist⟩ := read_eq_ok_iff.mp hread
    simp only [declaredNames_assemble, spares_append] at hspares
    obtain ⟨⟨hown, -, hspares⟩, -, hspares'⟩ := hspares
    obtain ⟨nests', innermost', stop, stop', hinside', hsame, hinner, hzero⟩ :=
      hnests hcore hinside hspares'
    -- The name inside the nests is a name on both levels, as it is no added word.
    have hname : atName innermost = atName innermost' := by
      refine atName_eq hinner.alike hinner.stop fun hname name hvalue => hown name ?_
      rw [if_pos hname, hvalue]
      exact List.mem_singleton_self name
    have hname' : depth = 0 → atName core = atName (afterTypePart scope' template' level') := by
      intro hdepth
      obtain ⟨rfl, rfl⟩ := hzero hdepth
      exact hname
    have hdepth : depth = nestsAt (afterTypePart scope' template' level') :=
      nestsAt_eq hcore.alike hcore.stop
    have hkind : kind = kindAt depth (afterTypePart scope' template' level') :=
      kindAt_eq hcore.alike hcore.stop hname'
    have hafter := hcore.of_suffix (afterNests_suffix depth kind core)
      (afterNests_alike hcore.alike hcore.stop hname' kind)
    have hassemble {arguments' : List Declarator}
        (hothers : SameAllBy first second arguments arguments') :=
      assemble_sameBy hscopes h htemplate hdeclarator hsame hothers hinner hname hname'
    rw [hdepth] at hinside'
    -- A function has an argument list behind its nests; any other declarator ends there.
    by_cases hfunction : kind.isFunction = true
    · rw [if_pos hfunction] at hlist
      obtain ⟨hlist, rfl⟩ := hlist
      obtain ⟨_, hlist', hlists⟩ := harguments hafter hlist hspares
      obtain ⟨arguments', rfl, hothers⟩ := Option.map_eq_some_iff.mp hlists
      refine ⟨_, _, read_eq_ok_iff.mpr ⟨nests', innermost', arguments', hinside', rfl, ?_⟩,
        hassemble hothers, hafter.next_of_isGroup (isGroup_of_readArgumentList hlist)⟩
      rw [← hdepth, ← hkind, if_pos hfunction]
      exact ⟨hlist', rfl⟩
    · rw [if_neg hfunction] at hlist
      obtain ⟨rfl, rfl⟩ := hlist
      refine ⟨_, _, read_eq_ok_iff.mpr ⟨nests', innermost', [], hinside', rfl, ?_⟩,
        hassemble rfl, hafter⟩
      rw [← hdepth, ← hkind, if_neg hfunction]
      exact ⟨rfl, rfl⟩
  case list =>
    intro level contents hcontents ih tail tail' level' arguments h hread hspares
    obtain ⟨contents', hcontents', hinside⟩ := h.exists_groupContents? hcontents
    rw [readArgumentList_of_group hcontents] at hread
    obtain ⟨found, hfound, hread⟩ := bind_eq_ok_iff.mp hread
    cases hread
    obtain ⟨found', hfound', hsame⟩ := ih hinside hfound hspares
    rw [readArgumentList_of_group hcontents', hfound']
    exact ⟨some found', rfl, congrArg some hsame⟩
  case noList =>
    intro level hnone tail tail' level' arguments h hread _
    rw [readArgumentList_of_none hnone] at hread
    cases hread
    exact ⟨none, readArgumentList_of_none (h.groupContents?_eq_none hnone), rfl⟩
  case noArgument =>
    intro level hend level' arguments h hread _
    rw [readArguments, if_pos hend] at hread
    cases hread
    rw [readArguments, if_pos (by rw [← h.alike.atEnd_eq .ends, hend])]
    exact ⟨[], rfl, rfl⟩
  case argument =>
    intro level hend hargument ih level' arguments h hread hspares
    rw [readArguments, if_neg hend] at hread
    rw [readArguments, if_neg (by rwa [← h.alike.atEnd_eq .ends])]
    have htemplate : none.map (mapRefs second) = none.map (mapRefs first) := rfl
    obtain ⟨⟨argument, rest⟩, hfirst, hread⟩ := bind_eq_ok_iff.mp hread
    dsimp only at hread
    split at hread
    · rename_i hlt
      obtain ⟨others, hothers, hread⟩ := bind_eq_ok_iff.mp hread
      cases hread
      rw [declaredNamesOf, spares_append] at hspares
      obtain ⟨argument', rest', hfirst', hsame, hrest⟩ :=
        hargument h htemplate (sameBy_empty first second) hfirst hspares.1
      have hskip := hrest.skipPast ","
      obtain ⟨others', hothers', hall⟩ :=
        ih rest hlt (h.of_suffix ((skipPast_suffix rest ",").trans (read_rest hfirst)) hskip.alike)
          hothers hspares.2
      -- The second run goes on as well, since its rest is shorter too.
      refine ⟨argument' :: others', bind_eq_ok_iff.mpr ⟨(argument', rest'), hfirst', ?_⟩,
        by rw [SameAllBy, mapRefsAll, mapRefsAll, hsame, hall]⟩
      dsimp only
      rw [if_pos ((h.alike.size_lt_iff hskip.alike).2.mp hlt), hothers']
      rfl
    · rename_i hlt
      cases hread
      rw [declaredNamesOf, spares_append] at hspares
      obtain ⟨argument', rest', hfirst', hsame, hrest⟩ :=
        hargument h htemplate (sameBy_empty first second) hfirst hspares.1
      have hskip := hrest.skipPast ","
      refine ⟨[argument'], bind_eq_ok_iff.mpr ⟨(argument', rest'), hfirst', ?_⟩,
        by simp only [SameAllBy, mapRefsAll, hsame]⟩
      dsimp only
      rw [if_neg fun hlt' => hlt ((h.alike.size_lt_iff hskip.alike).2.mpr hlt')]
      rfl
  case innermost =>
    intro level tail tail' level' innermost nests h hread _
    rw [readNests] at hread ⊢
    cases hread
    exact ⟨[], level', tail, tail', rfl, rfl, h, fun _ => ⟨rfl, rfl⟩⟩
  case noNest =>
    intro level depth hnone tail tail' level' innermost nests h hread _
    rw [readNests_of_none depth hnone] at hread
    cases hread
  case nest =>
    intro level depth contents hcontents hlist hinner tail tail' level' innermost nests h hread
      hspares
    obtain ⟨contents', hcontents', hinside⟩ := h.exists_contents? hcontents
    rw [readNests_of_contents depth hcontents] at hread
    obtain ⟨arguments, harguments, hread⟩ := bind_eq_ok_iff.mp hread
    obtain ⟨⟨inner, last⟩, hnests, hread⟩ := bind_eq_ok_iff.mp hread
    cases hread
    rw [declaredNamesOf, declaredNames_nestOf, spares_append] at hspares
    -- What stands inside of the nest and what stands behind it in its group are compared on their
    -- own.
    have houtside := hinside.of_suffix (outsideNest_suffix depth contents)
      (outsideNest_alike depth hinside.alike)
    have hinsideNest :=
      hinside.of_suffix (insideNest_suffix contents) (insideNest_alike hinside.alike)
    obtain ⟨arguments', harguments', hothers⟩ := hlist houtside harguments hspares.1
    obtain ⟨inner', last', stop, stop', hnests', hsame, hlast, -⟩ :=
      hinner hinsideNest hnests hspares.2
    have hright : contents'.next.qualifiers = contents.next.qualifiers :=
      (hinside.alike.next_nil.qualifiers_eq .ends).symm
    have hnest := nestOf_sameBy contents.next.qualifiers hothers houtside
    refine ⟨nestOf contents.next.qualifiers arguments' (outsideNest depth contents') :: inner',
      last', stop, stop', ?_, ?_, hlast, fun hzero => absurd hzero (Nat.succ_ne_zero depth)⟩
    · rw [readNests_of_contents depth hcontents', harguments', ← hright]
      exact bind_eq_ok_iff.mpr ⟨_, rfl, bind_eq_ok_iff.mpr ⟨_, hnests', rfl⟩⟩
    · rw [SameAllBy, mapRefsAll, mapRefsAll, hsame, hnest]

/-- A declarator that is read in the first run is read in the second one. -/
theorem read_sameBy (hscopes : C.Scopes scope scope') (h : C.Levels tail tail' level level')
    (htemplate : template'.map (mapRefs second) = template.map (mapRefs first))
    {declarator : Declarator} (hread : read scope template {} level = .ok (declarator, rest))
    (hspares : Spares C.added declarator.declaredNames) :
    ∃ declarator' rest', read scope' template' {} level' = .ok (declarator', rest') ∧
      SameBy first second declarator declarator' ∧ C.Levels tail tail' rest rest' :=
  (read_sameBy_all hscopes).1 _ _ _ h htemplate rfl hread hspares

end Declarator

end CommonDecl
