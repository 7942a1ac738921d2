import CommonDecl.Proofs.Simulations

/-!
# Reading statements twice

What holds of declarators (`Declarator.read_sameBy`) holds of every reader of types and statements:
where the first run of a comparison gives a result, the second one gives the same one and leaves a
scope that can be compared again, and where the first run fails, so does the second one
(`simulates_read`, `Declaration.readAll_sameBy`).
-/

namespace CommonDecl

open Level

variable {first second : TypeRef → TypeRef} {C : Comparison first second}
  {scope scope' : Scope} {tail tail' level level' rest : Level}

open Comparison

/-! ### Types and statements -/

namespace TypeDecl

/-- There is a body where a group stands after the qualifiers and the name. -/
theorem isSome_of_readBody? {members : Option (List Member)} {after : Scope}
    (hread : readBody? level scope = .ok members after) :
    members.isSome = ((afterTypeName level.afterLeftQualifiers).groupContents? .brace).isSome := by
  cases hcontents : (afterTypeName level.afterLeftQualifiers).groupContents? .brace with
  | none =>
    rw [readBody?_of_none hcontents] at hread
    cases hread
    rfl
  | some contents =>
    rw [readBody?_of_contents hcontents] at hread
    split at hread
    · cases hread
      rfl
    · obtain ⟨list, middle, -, hread⟩ := bind_apply_eq_ok_iff.mp hread
      cases hread
      rfl

theorem isGroup_of_readBody? {members : List Member} {after : Scope}
    (hread : readBody? level scope = .ok (some members) after) :
    (afterTypeName level.afterLeftQualifiers).isGroup .brace = true :=
  (readBody?_isGroup level scope).of_ok hread

variable {related : Option (List Member) → Option (List Member) → Prop}
  (h : C.Levels tail tail' level level')
include h

/-- The last step of a typedef: its new name, after the aliased type and the body were read. -/
theorem simulates_readSynonym (hscopes : C.Scopes scope scope') {aliased aliased' : TypeRef}
    (haliased : second aliased' = first aliased) {members members' : Option (List Member)}
    (hmembers : related members members') (unnamed : Fault) (qualifiers : Qualifiers)
    (tag : Option String) :
    C.Simulates (fun result => result.1.declaredNames)
      (C.WithRest tail tail' (Follows first second related))
      (do
        let (newName, declarator, rest) ← readNamedDeclarator aliased unnamed level
        return (.synonym qualifiers newName
          ⟨aliased, members.map fun list => .tagged {} tag (some list), declarator⟩, rest))
      (do
        let (newName, declarator, rest) ← readNamedDeclarator aliased' unnamed level'
        return (.synonym qualifiers newName
          ⟨aliased', members'.map fun list => .tagged {} tag (some list), declarator⟩, rest))
      scope scope' := by
  refine (simulates_readNamedDeclarator hscopes h haliased unnamed).bind_names ?_ ?_
  · rintro ⟨newName, declarator, rest⟩ _ ⟨declared, _⟩ _ - hresult
    cases hresult
    cases members with
    | none => exact List.Subset.refl _
    | some list => exact List.subset_append_right _ _
  · rintro ⟨newName, declarator, rest⟩ ⟨newName', declarator', rest'⟩ after after' - -
      ⟨hname, hdeclarator, hrest⟩ hafter
    obtain rfl : newName' = newName := hname
    exact simulates_pure hafter ⟨.synonym hmembers haliased hdeclarator, hrest⟩

/-- There is a body on both levels or on none. -/
theorem isSome_eq_of_readBody? {members members' : Option (List Member)} {after after' : Scope}
    (hread : readBody? level scope = .ok members after)
    (hread' : readBody? level' scope' = .ok members' after') :
    members'.isSome = members.isSome := by
  have hafter := h.afterLeftQualifiers.afterTypeName
  rw [isSome_of_readBody? hread, isSome_of_readBody? hread']
  cases hcontents : (afterTypeName level.afterLeftQualifiers).groupContents? .brace with
  | none => rw [hafter.groupContents?_eq_none hcontents]
  | some contents =>
    obtain ⟨contents', hcontents', -⟩ := hafter.exists_groupContents? hcontents
    rw [hcontents']
    rfl

variable (hdeclares : ∀ {declared declared' : TypeDecl},
  declared.Follows first second related declared' → C.Declares declared declared')
include hdeclares

/-- A typedef is read alike apart from its body, once the type before the body was found. -/
theorem simulates_readTypedef {named named' : TypeRef} {after after' : Scope}
    (hnamed : findOrDeclare (typeName? level.afterLeftQualifiers) scope = .ok named after)
    (hnamed' : findOrDeclare (typeName? level.afterLeftQualifiers) scope' = .ok named' after')
    (hsame : second named' = first named)
    (hbody : C.Simulates (fun members => Member.declaredNamesOf (members.getD [])) related
      (readBody? level) (readBody? level') after after') :
    C.Simulates (fun result => result.1.declaredNames)
      (C.WithRest tail tail' (Follows first second related))
      (readTypedef level) (readTypedef level') scope scope' := by
  have hrest := h.afterLeftQualifiers.afterTypeName
  rw [readTypedef, readTypedef,
    typeName?_eq h.afterLeftQualifiers, ← h.alike.leftQualifiers_eq h.stop]
  refine .after_ok hnamed hnamed' (hbody.bind_names ?_ ?_)
  · rintro members middle ⟨declared, last⟩ final - hread
    cases members with
    | none => exact List.nil_subset _
    | some list =>
      obtain ⟨aliased, scope₁, -, hread⟩ := bind_apply_eq_ok_iff.mp hread
      obtain ⟨⟨newName, declarator, _⟩, scope₂, -, hresult⟩ := bind_apply_eq_ok_iff.mp hread
      cases hresult
      exact List.subset_append_left _ _
  intro members members' scope₂ scope₂' hmembers hmembers' hrelated h₂
  have hisSome := isSome_eq_of_readBody? h hmembers hmembers'
  cases members with
  | none =>
    obtain rfl : members' = none := by simpa using hisSome
    exact simulates_readSynonym hrest h₂ hsame hrelated _ _ none
  | some list =>
    obtain ⟨list', rfl⟩ : ∃ list', members' = some list' :=
      Option.isSome_iff_exists.mp (by simpa using hisSome)
    -- The entry that was found or declared has kept its name while the body was read.
    have hkey := TypeTable.key_mono ((evolves_read.2.1 level after).of_ok hmembers).1.keys
      (key_of_findOrDeclare hnamed)
    have hkey' := TypeTable.key_mono ((evolves_read.2.1 level' after').of_ok hmembers').1.keys
      (key_of_findOrDeclare hnamed')
    have hdefinition : C.Declares (.tagged {} (typeName? level.afterLeftQualifiers) (some list))
        (.tagged {} (typeName? level.afterLeftQualifiers) (some list')) :=
          hdeclares (.tagged hrelated)
    refine (simulates_define h₂ hdefinition hsame hkey hkey').bind
      fun aliased aliased' scope₃ scope₃' _ _ haliased h₃ => ?_
    exact simulates_readSynonym (hrest.next_of_isGroup (isGroup_of_readBody? hmembers)) h₃ haliased
      hrelated _ _ _

/-- A type is read alike apart from its body, if bodies are read alike in all scopes of `Invariant`
and the type that a typedef names is found in such scopes. -/
theorem simulates_read_of_body {Invariant : Scope → Scope → Prop} (hstart : Invariant scope scope')
    (hfound : ∃ named after named' after',
      findOrDeclare (typeName? level.afterLeftQualifiers) scope = .ok named after ∧
      findOrDeclare (typeName? level.afterLeftQualifiers) scope' = .ok named' after' ∧
      second named' = first named ∧ Invariant after after')
    (hbody : ∀ {scope scope' : Scope}, Invariant scope scope' →
      C.Simulates (fun members => Member.declaredNamesOf (members.getD [])) related
        (readBody? level) (readBody? level') scope scope') :
    C.Simulates (fun result => result.1.declaredNames)
      (C.WithRest tail tail' (Follows first second related))
      (TypeDecl.read level) (TypeDecl.read level') scope scope' := by
  have hrest := h.afterLeftQualifiers.afterTypeName
  -- Both levels have the same qualifiers and the same name in front of the body.
  rw [TypeDecl.read, TypeDecl.read, ← h.alike.leftQualifiers_eq h.stop,
    typeName?_eq h.afterLeftQualifiers]
  split
  · obtain ⟨named, after, named', after', hnamed, hnamed', hsame, hafter⟩ := hfound
    exact simulates_readTypedef h hdeclares hnamed hnamed' hsame (hbody hafter)
  · refine (hbody hstart).bind_names ?_ ?_
    · rintro members middle ⟨declared, last⟩ final - hresult
      cases members with
      | none => exact List.nil_subset _
      | some list =>
        cases hresult
        exact List.Subset.refl _
    · intro members members' scope₁ scope₁' hmembers hmembers' hrelated h₁
      -- Either both levels have a body or neither has.
      have hisSome := isSome_eq_of_readBody? h hmembers hmembers'
      cases members with
      | none =>
        obtain rfl : members' = none := by simpa using hisSome
        exact simulates_pure h₁ ⟨.tagged hrelated, hrest⟩
      | some list =>
        obtain ⟨list', rfl⟩ : ∃ list', members' = some list' :=
          Option.isSome_iff_exists.mp (by simpa using hisSome)
        exact simulates_pure h₁
          ⟨.tagged hrelated, hrest.next_of_isGroup (isGroup_of_readBody? hmembers)⟩

end TypeDecl

namespace Comparison

/-- What is left of both levels after a statement: the rests could be compared before the `;` was
taken. -/
def RestsPast (C : Comparison first second) (tail tail' rest rest' : Level) : Prop :=
  ∃ last last', C.Levels tail tail' last last' ∧ rest = last.afterSemicolon ∧
    rest' = last'.afterSemicolon

theorem RestsPast.levels {rest rest' : Level} (h : C.RestsPast [] [] rest rest') :
    C.Levels [] [] rest rest' := by
  obtain ⟨last, last', hlast, rfl, rfl⟩ := h
  exact hlast.afterSemicolon

end Comparison

namespace Declaration

variable {related : Option (List Member) → Option (List Member) → Prop}

/-- A statement that declares a type in both runs is read alike where the type is. -/
theorem simulates_read_of_type (h : C.Levels tail tail' level level')
    (hdeclares : ∀ {declared declared' : TypeDecl},
      declared.Follows first second related declared' → C.Declares declared declared')
    (hdeclared : TypeDecl.isDeclaredAt scope level = true)
    (hdeclared' : TypeDecl.isDeclaredAt scope' level' = true)
    (htype : C.Simulates (fun result => result.1.declaredNames)
      (C.WithRest tail tail' (TypeDecl.Follows first second related))
      (TypeDecl.read level) (TypeDecl.read level') scope scope') :
    C.Simulates (fun result => result.1.declaredNames)
      (fun result result' => result.1.Follows first second related result'.1 ∧
        C.RestsPast tail tail' result.2 result'.2)
      (Declaration.read level) (Declaration.read level') scope scope' := by
  rw [Declaration.read, Declaration.read, simulates_get_bind, if_pos hdeclared, if_pos hdeclared']
  refine htype.bind_names ?_ ?_
  · rintro ⟨declared, rest⟩ middle ⟨declaration, last⟩ final - hread
    obtain ⟨⟨found, _⟩, scope₁, hbeside, hresult⟩ := bind_apply_eq_ok_iff.mp hread
    obtain ⟨instances, rfl⟩ := exists_instances_of_readBeside hbeside
    cases hresult
    exact List.subset_append_left _ _
  · rintro ⟨declared, rest⟩ ⟨declared', rest'⟩ scope₁ scope₁' hread - ⟨hfollows, hrest⟩ h₁
    -- The type that was read has a name which the level offers.
    have hname := h.allows ((evolves_read.1 level scope).of_ok hread).2.offered
    refine (simulates_readBeside h₁ hrest hfollows (hdeclares hfollows) hname).bind_names ?_ ?_
    · rintro ⟨declaration, last⟩ _ ⟨_, _⟩ _ - hresult
      cases hresult
      exact List.Subset.refl _
    · rintro ⟨declaration, last⟩ ⟨declaration', last'⟩ scope₂ scope₂' - - ⟨hsame, hlast⟩ h₂
      exact simulates_pure h₂ ⟨hsame, last, last', hlast, rfl, rfl⟩

end Declaration

/-- Every reader of types and statements of C reads the second level in the second scope as it reads
the first one in the first scope. -/
theorem simulates_read :
    (∀ level : Level, ∀ {tail tail' level' : Level} {scope scope' : Scope},
      C.Levels tail tail' level level' → C.Scopes scope scope' →
      C.Simulates (fun result => result.1.declaredNames)
        (C.WithRest tail tail' (TypeDecl.Follows first second (Member.SameBodyBy first second)))
        (TypeDecl.read level) (TypeDecl.read level') scope scope') ∧
    (∀ level : Level, ∀ {tail tail' level' : Level} {scope scope' : Scope},
      C.Levels tail tail' level level' → C.Scopes scope scope' →
      C.Simulates (fun members => Member.declaredNamesOf (members.getD []))
        (Member.SameBodyBy first second)
        (TypeDecl.readBody? level) (TypeDecl.readBody? level') scope scope') ∧
    (∀ level : Level, ∀ {level' : Level} {scope scope' : Scope},
      C.Levels [] [] level level' → C.Scopes scope scope' →
      C.Simulates Member.declaredNamesOf (Member.SameAllBy first second)
        (TypeDecl.readMembers level) (TypeDecl.readMembers level') scope scope') ∧
    (∀ level : Level, ∀ {tail tail' level' : Level} {scope scope' : Scope},
      C.Levels tail tail' level level' → C.Scopes scope scope' →
      C.Simulates (fun result => result.1.declaredNames)
        (fun result result' => result.1.SameBy first second result'.1 ∧
          C.RestsPast tail tail' result.2 result'.2)
        (Declaration.read level) (Declaration.read level') scope scope') ∧
    ∀ level : Level, ∀ {tail tail' level' : Level} {scope scope' : Scope},
      C.Levels tail tail' level level' → C.Scopes scope scope' →
      C.Simulates (fun result => result.1.declaredNames)
        (C.WithRest tail tail' (TypeDecl.Follows first second (Member.SameBodyBy first second)))
        (TypeDecl.readTypedef level) (TypeDecl.readTypedef level') scope scope' := by
  -- By the readers' own induction.  What stands in a body or in a rest of the level stands in the
  -- level, so it can be compared as well.
  have hdeclares {declared declared' : TypeDecl}
      (hfollows : declared.Follows first second (Member.SameBodyBy first second) declared') :
      C.Declares declared declared' := C.declares_of_sameBy hfollows.sameBy
  have hfound {tail tail' level level' : Level} {scope scope' : Scope}
      (h : C.Levels tail tail' level level') (hscopes : C.Scopes scope scope') :=
    TypeDecl.findOrDeclare_sameBy hscopes (h.allows fun _ => TypeDecl.offers_of_name)
  apply TypeDecl.read_induct
  case typedef =>
    intro level htypedef ih tail tail' level' scope scope' h hscopes
    rw [TypeDecl.read, TypeDecl.read, ← h.alike.leftQualifiers_eq h.stop, if_pos htypedef,
      if_pos htypedef]
    exact ih h hscopes
  case tagged =>
    intro level _ ih tail tail' level' scope scope' h hscopes
    exact TypeDecl.simulates_read_of_body h hdeclares hscopes (hfound h hscopes) fun hafter =>
      ih h hafter
  case noBody =>
    intro level hnone tail tail' level' scope scope' h hscopes
    have hnone' := h.afterLeftQualifiers.afterTypeName.groupContents?_eq_none hnone
    rw [TypeDecl.readBody?_of_none hnone, TypeDecl.readBody?_of_none hnone']
    exact simulates_pure hscopes .none
  case enumBody =>
    intro level contents hcontents henum tail tail' level' scope scope' h hscopes
    obtain ⟨contents', hcontents', hinside⟩ :=
      h.afterLeftQualifiers.afterTypeName.exists_groupContents? hcontents
    rw [TypeDecl.readBody?_of_contents hcontents, TypeDecl.readBody?_of_contents hcontents',
      ← h.alike.leftQualifiers_eq h.stop, if_pos henum, if_pos henum,
      TypeDecl.enumerators_eq (alike_nil_iff.mp hinside.alike)]
    exact simulates_pure hscopes
      (.some (by simp only [Member.SameAllBy, TypeDecl.mapRefsAll_enumerators]))
  case body =>
    intro level contents hcontents henum ih tail tail' level' scope scope' h hscopes
    obtain ⟨contents', hcontents', hinside⟩ :=
      h.afterLeftQualifiers.afterTypeName.exists_groupContents? hcontents
    rw [TypeDecl.readBody?_of_contents hcontents, TypeDecl.readBody?_of_contents hcontents',
      ← h.alike.leftQualifiers_eq h.stop, if_neg henum, if_neg henum]
    refine (ih hinside hscopes).bind_names ?_ fun members members' _ _ _ _ hsame hafter =>
      simulates_pure hafter (.some hsame)
    rintro members _ result _ - hresult
    cases hresult
    exact List.Subset.refl _
  case noMember =>
    intro level' scope scope' h hscopes
    cases h.alike
    rw [TypeDecl.readMembers]
    exact simulates_pure hscopes rfl
  case emptyStatement =>
    intro item items hitem ih level' scope scope' h hscopes
    cases h.alike with
    | @cons _ item' _ items' halike hitems =>
      rw [TypeDecl.readMembers, TypeDecl.readMembers, if_pos hitem,
        if_pos (by rwa [← halike.isToken_eq])]
      exact ih (h.of_suffix (List.suffix_cons item items) hitems) hscopes
  case member =>
    intro item items hitem hfirst ih level' scope scope' h hscopes
    cases h.alike with
    | @cons _ item' _ items' halike hitems =>
      rw [TypeDecl.readMembers, TypeDecl.readMembers, if_neg hitem,
        if_neg (by rwa [← halike.isToken_eq])]
      refine (hfirst h hscopes).bind_names ?_ ?_
      · rintro ⟨declaration, rest⟩ middle members final - hothers
        dsimp only at hothers
        split at hothers
        · obtain ⟨others, _, -, hresult⟩ := bind_apply_eq_ok_iff.mp hothers
          cases hresult
          exact List.subset_append_left _ _
        · cases hothers
          exact List.subset_append_left _ _
      · rintro ⟨declaration, rest⟩ ⟨declaration', rest'⟩ scope₁ scope₁' - - ⟨hsame, hpast⟩ h₁
        have hrest := hpast.levels
        have hlt := (h.alike.size_lt_iff hrest.alike).2
        dsimp only at hsame hrest hlt ⊢
        by_cases hshorter : rest.weight < Level.weight (item :: items)
        · rw [if_pos hshorter, if_pos (hlt.mp hshorter)]
          refine (ih rest hshorter hrest h₁).bind_names ?_ ?_
          · rintro others _ members _ - hresult
            cases hresult
            exact List.subset_append_right _ _
          · intro others others' scope₂ scope₂' _ _ hall h₂
            refine simulates_pure h₂ ?_
            rw [Member.SameAllBy, Member.mapRefsAll, Member.mapRefsAll, hsame, hall]
        · rw [if_neg hshorter, if_neg fun hshorter' => hshorter (hlt.mpr hshorter')]
          refine simulates_pure h₁ ?_
          simp only [Member.SameAllBy, Member.mapRefsAll, hsame]
  case statement =>
    intro level ih tail tail' level' scope scope' h hscopes
    have hboth := TypeDecl.isDeclaredAt_eq hscopes h
    cases hdeclared : TypeDecl.isDeclaredAt scope level with
    | true =>
      have htype := Declaration.simulates_read_of_type h hdeclares hdeclared (hboth.trans hdeclared)
        (ih h hscopes)
      exact htype.mono fun _ _ hfollows => ⟨hfollows.1.sameBy, hfollows.2⟩
    | false =>
      have hvariables : C.Simulates (fun result => result.1.declaredNames)
          (C.WithRest tail tail' (Declaration.SameBy first second))
          (Reading.ofExcept (Declaration.readVariables scope level))
          (Reading.ofExcept (Declaration.readVariables scope' level')) scope scope' := by
        refine simulates_ofExcept hscopes (Declaration.exists_ok_readVariables scope level) ?_
        rintro ⟨declaration, rest⟩ hread hspares
        obtain ⟨declaration', rest', hread', hsame, hrest⟩ :=
          Declaration.readVariables_sameBy hscopes h hread hspares
        exact ⟨(declaration', rest'), hread', hsame, hrest⟩
      rw [Declaration.read, Declaration.read, simulates_get_bind, hboth, hdeclared]
      refine hvariables.bind_names ?_ ?_
      · rintro ⟨declaration, last⟩ _ ⟨_, _⟩ _ - hresult
        cases hresult
        exact List.Subset.refl _
      · rintro ⟨declaration, last⟩ ⟨declaration', last'⟩ scope₁ scope₁' - - ⟨hsame, hlast⟩ h₁
        exact simulates_pure h₁ ⟨hsame, last, last', hlast, rfl, rfl⟩
  case synonym =>
    intro level ih tail tail' level' scope scope' h hscopes
    obtain ⟨named, after, named', after', hnamed, hnamed', hsame, hafter⟩ := hfound h hscopes
    exact TypeDecl.simulates_readTypedef h hdeclares hnamed hnamed' hsame (ih h hafter)

/-! ### Levels that are read to their end -/

namespace Declaration

theorem afterEmptyStatements_levels (h : C.Levels [] [] level level') :
    C.Levels [] [] (afterEmptyStatements level) (afterEmptyStatements level') :=
  h.of_suffix (afterEmptyStatements_suffix level)
    (h.alike.dropWhile_nil fun hitem => hitem.isToken_eq ";")

theorem simulates_next? (h : C.Levels [] [] level level') (hscopes : C.Scopes scope scope') :
    C.Simulates (fun result => declaredNamesOf (result.map Prod.fst).toList)
      (Option.Rel (C.WithRest [] [] (SameBy first second)))
      (next? .c level) (next? .c level') scope scope' := by
  have hstart := afterEmptyStatements_levels h
  unfold next?
  rw [← hstart.alike.atEnd_eq .ends]
  split
  · exact simulates_pure hscopes .none
  · refine (simulates_read.2.2.2.1 _ hstart hscopes).bind_names ?_ ?_
    · rintro ⟨declaration, rest⟩ _ result _ - hresult
      cases hresult
      simp [declaredNamesOf]
    · rintro ⟨declaration, rest⟩ ⟨declaration', rest'⟩ after after' - - ⟨hsame, hrest⟩ hafter
      exact simulates_pure hafter (.some ⟨hsame, hrest.levels⟩)

/-- Both runs end without a fault, in scopes that can be compared, or both end in a fault. -/
def EndAlike (C : Comparison first second) (outcome outcome' : Outcome) : Prop :=
  match outcome.fault?, outcome'.fault? with
  | none, none => C.Scopes outcome.scope outcome'.scope
  | some fault, some fault' => C.Fails (fault, outcome.scope) (fault', outcome'.scope)
  | _, _ => False

/-- Two levels are read to the same statements and end alike, unless an added word is declared as a
name.  A fault is found in both runs where no words are added. -/
theorem readAll_sameBy (h : C.Levels [] [] level level') (hscopes : C.Scopes scope scope')
    (hspares : Spares C.added (declaredNamesOf (readAll .c scope level).declarations))
    (hfault : (readAll .c scope level).fault? = none ∨ ∀ name, ¬ C.added name) :
    (readAll .c scope' level').declarations.map (mapRefs second) =
        (readAll .c scope level).declarations.map (mapRefs first) ∧
      EndAlike C (readAll .c scope level) (readAll .c scope' level') := by
  -- One statement is simulated wherever both levels stand.
  have hstep {scope scope' : Scope} {level level' : Level} (h : C.Levels [] [] level level')
      (hscopes : C.Scopes scope scope') := simulates_next? h hscopes
  induction scope, level using readAll_induct .c generalizing scope' level' with
  | fault scope level fault after hnext =>
    rw [readAll, hnext] at hfault
    have hnone := hfault.resolve_left (Option.some_ne_none fault)
    obtain ⟨fault', after', hnext', hfails⟩ := (hstep h hscopes).of_error hnext hnone
    rw [readAll, readAll, hnext, hnext']
    exact ⟨rfl, hfails⟩
  | ends scope level after hnext =>
    obtain ⟨_, after', hnext', ⟨⟩, hafter⟩ := (hstep h hscopes).of_ok hnext spares_nil
    rw [readAll, readAll, hnext, hnext']
    exact ⟨rfl, hafter⟩
  | statement scope level declaration rest after hnext hlt ih =>
    rw [readAll, hnext] at hspares hfault
    dsimp only at hspares hfault
    rw [if_pos hlt] at hspares hfault
    -- No name of the first statement is an added one, and none of the others is.
    rw [declaredNamesOf, List.flatMap_cons, spares_append] at hspares
    obtain ⟨_, after', hnext', ⟨hsame, hrest⟩, hafter⟩ :=
      (hstep h hscopes).of_ok hnext (by simpa [declaredNamesOf] using hspares.1)
    obtain ⟨hall, hends⟩ := ih hrest hafter hspares.2 hfault
    -- Levels that are alike have as many items, so both go on or both stop.
    have hlt' := (h.alike.size_lt_iff hrest.alike).1.mp hlt
    rw [readAll, readAll, hnext, hnext']
    dsimp only at hsame hall hends hlt' ⊢
    rw [if_pos hlt, if_pos hlt']
    exact ⟨by rw [List.map_cons, List.map_cons, hsame, hall], hends⟩
  | stuck scope level declaration rest after hnext hlt =>
    rw [readAll, hnext] at hspares
    dsimp only at hspares
    rw [if_neg hlt] at hspares
    obtain ⟨_, after', hnext', ⟨hsame, hrest⟩, hafter⟩ := (hstep h hscopes).of_ok hnext hspares
    have hlt' := fun hlt' => hlt ((h.alike.size_lt_iff hrest.alike).1.mpr hlt')
    rw [readAll, readAll, hnext, hnext']
    dsimp only at hsame hlt' ⊢
    rw [if_neg hlt, if_neg hlt']
    exact ⟨by rw [List.map_singleton, List.map_singleton, hsame], hafter⟩

end Declaration

end CommonDecl
