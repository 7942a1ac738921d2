import CommonDecl.Proofs.Faults
import Mathlib.Tactic.ByContra

/-!
# Every statement takes an item

A reader of a part of a statement may take nothing: a declarator can be empty, and so can a type
without a name or a body.  A statement takes at least one item all the same, because what is skipped
after its declarators reaches a `,` or a `;`, or the end of the level.  That a reader takes an item
is written `rest <:+ level.next`: what it leaves is a rest of what follows the first item.

* `Declaration.read_progress` and `Fortran.readStatement_progress` are the statements of the two
  dialects, and `Declaration.next?_progress` either of them after empty statements.
* `Level.afterDeclarator_progress` is the step along a list of declarators, whatever was read of it.
-/

namespace CommonDecl

namespace Level

variable {level middle rest : Level}

/-! ### Steps that take an item -/

theorem ne_nil_of_isToken {text : String} (h : level.isToken text = true) : level ≠ [] := by
  rintro rfl
  cases h

/-- What is left after an item is shorter. -/
theorem length_lt_of_suffix_next (hne : level ≠ []) (h : rest <:+ level.next) :
    rest.length < level.length := by
  have hle := h.length_le
  have hpos : 0 < level.length := List.length_pos_iff.mpr hne
  rw [next, List.length_tail] at hle
  omega

/-- A reader that leaves a rest of a level has taken nothing or at least one item. -/
theorem eq_or_suffix_next (h : rest <:+ level) : rest = level ∨ rest <:+ level.next := by
  cases level with
  | nil => exact Or.inl (List.suffix_nil.mp h)
  | cons item items => exact List.suffix_cons_iff.mp h

theorem dropWhile_suffix_next {p : Item → Bool} (h : ∀ item ∈ level.head?, p item = true) :
    level.dropWhile p <:+ level.next := by
  cases level with
  | nil => exact List.suffix_refl _
  | cons item items =>
    rw [List.dropWhile_cons_of_pos (h item rfl)]
    exact List.dropWhile_suffix p

/-- What is skipped up to some tokens is at least one item where none of them stands in front. -/
theorem skipToAny_suffix_next {delimiters : List String}
    (h : ∀ delimiter ∈ delimiters, level.isToken delimiter = false) :
    level.skipToAny delimiters <:+ level.next := by
  refine dropWhile_suffix_next fun item hitem => ?_
  rw [Bool.not_eq_true', List.any_eq_false]
  intro delimiter hdelimiter
  -- The item in front is none of the tokens, so it is skipped.
  have hfront := h delimiter hdelimiter
  rw [isToken, show level.head? = some item from hitem, Option.any_some] at hfront
  exact Bool.eq_false_iff.mp hfront

/-- Nothing is skipped where one of the tokens stands in front. -/
theorem skipToAny_of_isToken {delimiter : String} {delimiters : List String}
    (hmem : delimiter ∈ delimiters) (h : level.isToken delimiter = true) :
    level.skipToAny delimiters = level := by
  cases level with
  | nil => rfl
  | cons item items =>
    have hfound : delimiters.any item.isToken = true := List.any_eq_true.mpr ⟨delimiter, hmem, h⟩
    exact List.dropWhile_cons_of_neg (by rw [hfound]; decide)

/-- In front of anything but a `;`, going on to the next declarator takes an item: the comma, or
what stands before it. -/
theorem afterDeclarator_suffix_next (hsemicolon : level.isToken ";" = false) :
    level.afterDeclarator <:+ level.next := by
  unfold afterDeclarator
  dsimp only
  -- At a comma nothing is skipped and the comma is taken; elsewhere the front item is skipped.
  by_cases hcomma : level.isToken "," = true
  · rw [skipToAny_of_isToken (by simp) hcomma, if_pos hcomma]
  · have hskip : level.skipToAny [",", ";"] <:+ level.next := by
      refine skipToAny_suffix_next fun delimiter hdelimiter => ?_
      simp only [List.mem_cons, List.not_mem_nil, or_false] at hdelimiter
      rcases hdelimiter with rfl | rfl
      · exact Bool.eq_false_iff.mpr hcomma
      · exact hsemicolon
    split
    · exact (next_suffix _).trans hskip
    · exact hskip

/-- A declarator and what follows it take an item, even where the declarator is empty. -/
theorem afterDeclarator_progress (hsemicolon : level.isToken ";" = false)
    (hmiddle : middle <:+ level) : middle.afterDeclarator <:+ level.next := by
  rcases eq_or_suffix_next hmiddle with rfl | hnext
  · exact afterDeclarator_suffix_next hsemicolon
  · exact (afterDeclarator_suffix middle).trans hnext

/-- What is left after an argument and the comma behind it is less than there was, even where the
argument is empty. -/
theorem skipPast_progress {delimiter : String} (hmiddle : middle <:+ level) :
    middle.skipPast delimiter <:+ level.next := by
  have hskip (level : Level) : level.skipPast delimiter <:+ level.next := by
    cases level with
    | nil => exact List.suffix_refl _
    | cons item items =>
      rw [skipPast, List.dropWhile_cons]
      split
      · exact skipPast_suffix items delimiter
      · exact List.suffix_refl _
  rcases eq_or_suffix_next hmiddle with rfl | hnext
  · exact hskip _
  · exact (skipPast_suffix middle delimiter).trans hnext

/-- What is left after an item weighs less. -/
theorem weight_lt_of_suffix_next (hne : level ≠ []) (h : rest <:+ level.next) :
    rest.weight < level.weight := by
  cases level with
  | nil => exact absurd rfl hne
  | cons item items =>
    have hle : rest.weight ≤ Level.weight items := weight_le_of_suffix h
    have hpos := item.weight_pos
    rw [weight_cons]
    omega

theorem atStatementEnd_iff :
    level.atStatementEnd = true ↔ level = [] ∨ level.isToken ";" = true := by
  rw [atStatementEnd, Bool.or_eq_true, atEnd, List.isEmpty_iff]

theorem isToken_semicolon_of_atStatementEnd (h : level.atStatementEnd = false) :
    level.isToken ";" = false := by
  rw [Bool.eq_false_iff] at h ⊢
  exact fun htoken => h (atStatementEnd_iff.mpr (Or.inr htoken))

/-- A list of declarators leaves a rest of its level, where each of them does. -/
theorem readSeparated_rest {α : Type} {read : Level → Except Fault (α × Level)}
    (hread : ∀ {level a rest}, read level = .ok (a, rest) → rest <:+ level) {level rest : Level}
    {declarators : List α} (h : readSeparated read level = .ok (declarators, rest)) :
    rest <:+ level := by
  have hpasses : level.Passes (fun _ => True) rest := by
    refine readSeparated_passes ?_ (admits_true level) h
    intro level a rest _ hok
    obtain ⟨before, hbefore⟩ := hread hok
    exact ⟨before, hbefore.symm, fun _ _ => trivial⟩
  exact hpasses.suffix

/-- A list of declarators takes an item, for a declarator and what follows it take one. -/
theorem readSeparated_progress {α : Type} {read : Level → Except Fault (α × Level)}
    (hread : ∀ {level a rest}, read level = .ok (a, rest) → rest <:+ level) {level rest : Level}
    {declarators : List α} (hend : level.atStatementEnd = false)
    (h : readSeparated read level = .ok (declarators, rest)) : rest <:+ level.next := by
  have hsemicolon := isToken_semicolon_of_atStatementEnd hend
  rw [readSeparated, if_neg (Bool.eq_false_iff.mp hend)] at h
  obtain ⟨⟨declarator, middle⟩, hfirst, h⟩ := bind_eq_ok_iff.mp h
  have hafter := afterDeclarator_progress hsemicolon (hread hfirst)
  dsimp only at h
  -- What remains is read only where it is shorter, and then leaves less still.
  split at h
  · obtain ⟨⟨others, last⟩, hothers, h⟩ := bind_eq_ok_iff.mp h
    cases h
    exact (readSeparated_rest hread hothers).trans hafter
  · cases h
    exact hafter

end Level

open Level

variable {scope : Scope} {level rest : Level}

/-! ### Statements of C -/

namespace Declaration

/-- Reading further declarators takes an item in front of anything but a `;`. -/
theorem readFurther_progress {first last : Declarator} {declarators : List Declarator}
    (hsemicolon : level.isToken ";" = false)
    (h : readFurther scope first last level = .ok (declarators, rest)) : rest <:+ level.next := by
  -- Three ways on: a body ends the statement, a comma is followed by a declarator, and anything
  -- else is skipped.
  rw [readFurther] at h
  split at h
  · cases h
    exact List.suffix_refl _
  · split at h
    · obtain ⟨⟨declarator, middle⟩, hread, h⟩ := bind_eq_ok_iff.mp h
      have hmiddle := (Declarator.read_rest hread).trans (afterDeclarator_suffix_next hsemicolon)
      dsimp only at h
      split at h
      · obtain ⟨⟨others, last⟩, hothers, h⟩ := bind_eq_ok_iff.mp h
        cases h
        exact (readFurther_passes (admits_true _) hothers).suffix.trans hmiddle
      · cases h
        exact hmiddle
    · rename_i hcomma
      cases h
      refine skipToAny_suffix_next fun delimiter hdelimiter => ?_
      simp only [List.mem_cons, List.not_mem_nil, or_false] at hdelimiter
      rcases hdelimiter with rfl | rfl
      · -- A comma at the front would have been the one that is looked for.
        rw [Bool.eq_false_iff]
        intro hfront
        exact hcomma (by rwa [skipToAny_of_isToken (by simp) hfront])
      · exact hsemicolon

/-- Reading variables takes an item: the first declarator does, or what follows it. -/
theorem readVariables_progress {declaration : Declaration} (hsemicolon : level.isToken ";" = false)
    (h : readVariables scope level = .ok (declaration, rest)) : rest <:+ level.next := by
  obtain ⟨⟨first, middle⟩, hfirst, h⟩ := bind_eq_ok_iff.mp h
  obtain ⟨⟨further, last⟩, hfurther, h⟩ := bind_eq_ok_iff.mp h
  cases h
  rcases eq_or_suffix_next (Declarator.read_rest hfirst) with rfl | hnext
  · exact readFurther_progress hsemicolon hfurther
  · exact (readFurther_passes (admits_true _) hfurther).suffix.trans hnext

end Declaration

/-- Where there is a qualifier of a type, going past the qualifiers takes an item. -/
theorem Level.afterLeftQualifiers_suffix_next {name : String}
    (h : level.leftQualifiers.has name = true) : level.afterLeftQualifiers <:+ level.next := by
  refine dropWhile_suffix_next fun item hitem => ?_
  cases level with
  | nil => cases hitem
  | cons first items =>
    obtain rfl : first = item := by simpa using hitem
    by_contra hqualifier
    rw [leftQualifiers, List.takeWhile_cons_of_neg hqualifier] at h
    cases h

/-- A type that took nothing is no synonym: a typedef takes at least its qualifiers. -/
theorem TypeDecl.read_takes_or_tagged (level : Level) (scope : Scope) :
    Ends (TypeDecl.read level) scope
      (fun result _ => result.2 <:+ level.next ∨
        (result.2 = level ∧ result.1.isSynonym = false)) (fun _ => True) := by
  refine ((read_rest_of_qualifiers level scope).and (read_isSynonym level scope)).mono ?_
    fun _ _ => trivial
  rintro ⟨declared, rest⟩ _ ⟨hqualified, htypedef⟩
  rcases eq_or_suffix_next (hqualified.trans (afterLeftQualifiers_suffix level)) with hrest | hnext
  · -- A synonym has a `typedef` in front, which is an item that its reader takes.
    by_cases hsynonym : declared.isSynonym = true
    · exact Or.inl (hqualified.trans (afterLeftQualifiers_suffix_next (htypedef hsynonym)))
    · exact Or.inr ⟨hrest, Bool.eq_false_iff.mpr hsynonym⟩
  · exact Or.inl hnext

namespace Declaration

theorem readBeside_rest (declared : TypeDecl) (level : Level) (scope : Scope) :
    Ends (readBeside declared level) scope (fun result _ => result.2 <:+ level) (fun _ => True) :=
  (readBeside_passes declared (admits_true level) scope).mono (fun _ _ h => h.suffix) fun _ h => h

/-- Beside a type that is no synonym there are variables, which take an item. -/
theorem readBeside_progress {declared : TypeDecl} (hend : level.atStatementEnd = false)
    (hsynonym : declared.isSynonym = false) :
    Ends (readBeside declared level) scope (fun result _ => result.2 <:+ level.next)
      (fun _ => True) := by
  unfold readBeside
  rw [hend, Bool.and_false, if_neg (by decide)]
  simp only [ends_bind]
  refine ends_of_forall _ (fun ref scope' => ?_) fun _ => trivial
  cases declared with
  | synonym => cases hsynonym
  | tagged qualifiers name members =>
    simp only [readInstances, ends_bind, ends_get, Reading.ends_ofExcept, implies_true, and_true]
    rintro ⟨instances, rest⟩ hread
    exact readSeparated_progress Declarator.read_rest hend hread

/-- Reading a statement takes at least one item, up to where it looks for its `;`, unless it starts
with that. -/
theorem read_progress (hend : level.atStatementEnd = false) (scope : Scope) :
    Ends (Declaration.read level) scope (fun result _ => result.2 <:+ level.next)
      (fun _ => True) := by
  have hsemicolon : level.isToken ";" = false := isToken_semicolon_of_atStatementEnd hend
  rw [Declaration.read]
  simp only [ends_bind, ends_get]
  split
  · simp only [ends_bind]
    refine (TypeDecl.read_takes_or_tagged level scope).mono ?_ fun _ h => h
    rintro ⟨declared, middle⟩ scope' (hnext | ⟨hsame, htagged⟩)
    · -- The type took an item.
      refine (readBeside_rest declared middle scope').mono ?_ fun _ h => h
      rintro ⟨declaration, rest⟩ _ hrest
      exact (afterSemicolon_suffix rest).trans (hrest.trans hnext)
    · -- The type took nothing, so the variables beside it stand where it stands.
      have hsame : middle = level := hsame
      subst hsame
      refine (readBeside_progress hend htagged).mono ?_ fun _ h => h
      rintro ⟨declaration, rest⟩ _ hrest
      exact (afterSemicolon_suffix rest).trans hrest
  · simp only [ends_bind, Reading.ends_ofExcept, implies_true, and_true]
    rintro ⟨declaration, rest⟩ hread
    exact (afterSemicolon_suffix rest).trans (readVariables_progress hsemicolon hread)

end Declaration

/-! ### Statements of Fortran -/

namespace Fortran

/-- A name of a list leaves a rest of its level. -/
theorem readEntity_rest {declarator result : Declarator}
    (h : (.ok (readEntity scope declarator level) : Except Fault _) = .ok (result, rest)) :
    rest <:+ level := by
  have hpasses := readEntity_passes scope declarator (admits_true level)
  rw [Except.ok.inj h] at hpasses
  exact hpasses.suffix

/-- Reading a statement of Fortran takes at least one item, for its attributes or for its names. -/
theorem readStatement_progress {declaration : Declaration} (hend : level.atStatementEnd = false)
    (h : readStatement scope level = .ok (declaration, rest)) : rest <:+ level.next := by
  have hattributes := readAttributes_passes scope (admits_true level) {}
  unfold readStatement at h
  split at h
  · cases h
  · rename_i middle shared hread
    have hmiddle : middle <:+ level := (hattributes.of_ok hread).suffix
    obtain ⟨⟨declarators, last⟩, hentities, h⟩ := bind_eq_ok_iff.mp h
    cases h
    refine (afterSemicolon_suffix last).trans ?_
    -- Attributes that took nothing leave the names in front of a level that is not at its end.
    rcases eq_or_suffix_next hmiddle with rfl | hnext
    · exact readSeparated_progress readEntity_rest hend hentities
    · exact (readSeparated_rest readEntity_rest hentities).trans hnext

end Fortran

/-! ### Statements of either dialect -/

namespace Declaration

/-- Reading a statement of either dialect takes at least one item. -/
theorem readIn_progress (dialect : Dialect) (hend : level.atStatementEnd = false) (scope : Scope) :
    Ends (readIn dialect level) scope (fun result _ => result.2 <:+ level.next)
      (fun _ => True) := by
  cases dialect with
  | c => exact read_progress hend scope
  | fortran =>
    simp only [readIn, ends_bind, ends_get, Reading.ends_ofExcept, implies_true, and_true]
    rintro ⟨declaration, rest⟩ hread
    exact Fortran.readStatement_progress hend hread

theorem atStatementEnd_afterEmptyStatements (h : afterEmptyStatements level ≠ []) :
    (afterEmptyStatements level).atStatementEnd = false := by
  have hfront := List.head?_dropWhile_not (Item.isToken ";") level
  rw [Bool.eq_false_iff]
  intro hend
  rcases atStatementEnd_iff.mp hend with hnil | hsemicolon
  · exact h hnil
  · rw [isToken, afterEmptyStatements, Option.any_eq_true] at hsemicolon
    obtain ⟨item, hitem, htoken⟩ := hsemicolon
    rw [hitem] at hfront
    rw [hfront] at htoken
    cases htoken

/-- Reading the next statement takes at least one item after the empty statements. -/
theorem next?_progress (dialect : Dialect) (level : Level) (scope : Scope) :
    Ends (next? dialect level) scope
      (fun result _ => ∀ declaration rest, result = some (declaration, rest) →
        afterEmptyStatements level ≠ [] ∧ rest <:+ (afterEmptyStatements level).next)
      (fun _ => afterEmptyStatements level ≠ []) := by
  unfold next?
  split
  · simp
  · rename_i hnonempty
    have hne : afterEmptyStatements level ≠ [] :=
      fun hnil => hnonempty (by rw [hnil]; rfl)
    simp only [ends_bind]
    refine (readIn_progress dialect (atStatementEnd_afterEmptyStatements hne) scope).mono ?_
      fun _ _ => hne
    rintro ⟨declaration, rest⟩ _ hrest _ _ h
    cases h
    exact ⟨hne, hrest⟩

end Declaration

end CommonDecl
