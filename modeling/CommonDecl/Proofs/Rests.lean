import CommonDecl.Proofs.Reading
import CommonDecl.Source
import Mathlib.Data.List.TakeWhile

/-!
# Readers go on along their level

Every reader of the grammar only ever goes on along its level, and only over items that it has a use
for: what it leaves is what remains after items that may be passed (`Declarator.read_passes`,
`Declaration.read_passes`, `Fortran.readStatement_passes`).  Where any item may be passed, this says
that the rest is a suffix of the level, so the place where a reader stops is determined by the
number of items that are left.
-/

namespace CommonDecl

namespace Level

/-! ### Items that may be passed -/

/-- `rest` is what is left of `level` after items that may be passed. -/
def Passes (may : Item → Prop) (level rest : Level) : Prop :=
  ∃ before, level = before ++ rest ∧ ∀ item ∈ before, may item

/-- What the readers of a level have a use for may be passed: any item that plays a role, and any
item that is no `;`. -/
structure Admits (may : Item → Prop) (level : Level) : Prop where
  of_role : ∀ item ∈ level, item.roles ≠ {} → may item
  of_not_semicolon : ∀ item ∈ level, item.isToken ";" = false → may item

/-- The names of types among the items of a level may be passed. -/
def AdmitsTypes (may : Item → Prop) (scope : Scope) (level : Level) : Prop :=
  ∀ item ∈ level, item.bracket? = none → scope.knows item.value = true → may item

variable {may : Item → Prop} {scope : Scope} {level middle rest : Level}

theorem admits_true (level : Level) : level.Admits fun _ => True :=
  ⟨fun _ _ _ => trivial, fun _ _ _ => trivial⟩

theorem admitsTypes_true (scope : Scope) (level : Level) :
    level.AdmitsTypes (fun _ => True) scope :=
  fun _ _ _ _ => trivial

theorem Admits.of_suffix (h : level.Admits may) (hrest : rest <:+ level) : rest.Admits may :=
  ⟨fun item hitem => h.of_role item (hrest.subset hitem),
    fun item hitem => h.of_not_semicolon item (hrest.subset hitem)⟩

theorem AdmitsTypes.of_suffix (h : level.AdmitsTypes may scope) (hrest : rest <:+ level) :
    rest.AdmitsTypes may scope :=
  fun item hitem => h item (hrest.subset hitem)

theorem Passes.refl (level : Level) : level.Passes may level :=
  ⟨[], rfl, by simp⟩

/-- Items that may be passed on the way to a rest and on from there may be passed altogether. -/
theorem Passes.trans (h : level.Passes may middle) (h' : middle.Passes may rest) :
    level.Passes may rest := by
  obtain ⟨before, rfl, hbefore⟩ := h
  obtain ⟨before', rfl, hbefore'⟩ := h'
  refine ⟨before ++ before', by rw [List.append_assoc], fun item hitem => ?_⟩
  rcases List.mem_append.mp hitem with hitem | hitem
  · exact hbefore item hitem
  · exact hbefore' item hitem

/-- What is left after items that may be passed is a suffix of the level. -/
theorem Passes.suffix (h : level.Passes may rest) : rest <:+ level := by
  obtain ⟨before, rfl, -⟩ := h
  exact List.suffix_append before rest

theorem Admits.passed (h : level.Admits may) (hrest : level.Passes may rest) : rest.Admits may :=
  h.of_suffix hrest.suffix

theorem AdmitsTypes.passed (h : level.AdmitsTypes may scope) (hrest : level.Passes may rest) :
    rest.AdmitsTypes may scope :=
  h.of_suffix hrest.suffix

/-- The step to the next item passes the current one only, and nothing at the end of the level. -/
theorem passes_next (h : ∀ item ∈ level.head?, may item) : level.Passes may level.next := by
  cases level with
  | nil => exact Passes.refl []
  | cons item rest => exact ⟨[item], rfl, by simpa using h⟩

theorem passes_dropWhile {p : Item → Bool} (h : ∀ item ∈ level, p item = true → may item) :
    level.Passes may (level.dropWhile p) := by
  refine ⟨level.takeWhile p, List.takeWhile_append_dropWhile.symm, fun item hitem => ?_⟩
  exact h item (List.takeWhile_subset _ hitem) (List.mem_takeWhile_imp hitem)

/-! ### The current item is no `;` -/

/-- The current item spells one token only, so what is another token is no `;`. -/
theorem isToken_eq_false_of_isToken {text other : String} (h : level.isToken text = true)
    (hne : text ≠ other) : level.isToken other = false := by
  cases level with
  | nil => rfl
  | cons item rest =>
    have h : item.isToken text = true := h
    show item.isToken other = false
    simp only [Item.isToken, Bool.and_eq_true, beq_iff_eq] at h
    simp [Item.isToken, h.2, hne]

theorem isToken_eq_false_of_value? {text : String} (h : level.value? ≠ some text) :
    level.isToken text = false := by
  cases level with
  | nil => rfl
  | cons item rest =>
    have hvalue : item.value ≠ text := fun heq => h (congrArg some heq)
    show item.isToken text = false
    simp [Item.isToken, hvalue]

/-- A bracket is no token, whatever its value is. -/
theorem isToken_eq_false_of_bracket? {item : Item} {bracket : Bracket} {text : String}
    (h : item.bracket? = some bracket) : item.isToken text = false := by
  rw [Item.isToken, h]
  rfl

theorem isToken_eq_false_of_isGroup {bracket : Bracket} {text : String}
    (h : level.isGroup bracket = true) : level.isToken text = false := by
  cases level with
  | nil => rfl
  | cons item rest => exact isToken_eq_false_of_bracket? (eq_of_beq h)

/-- A group that can be entered is a group with its bracket. -/
theorem isGroup_of_groupContents? {bracket : Bracket} {contents : Level}
    (h : level.groupContents? bracket = some contents) : level.isGroup bracket = true := by
  unfold groupContents? at h
  split at h
  · rename_i hbracket
    cases level with
    | nil => cases hbracket
    | cons item rest => exact beq_of_eq hbracket
  · cases h

/-- A group with a bracket can be entered. -/
theorem exists_groupContents? {bracket : Bracket} (h : level.isGroup bracket = true) :
    ∃ contents, level.groupContents? bracket = some contents := by
  cases level with
  | nil => cases h
  | cons item rest =>
    have hbracket : item.bracket? = some bracket := eq_of_beq h
    cases item with
    | token => cases hbracket
    | group opening roles contents =>
      have hopening : Bracket.ofOpening? opening = some bracket := hbracket
      have hcontents : (Item.group opening roles contents).contents? = some contents := by
        rw [Item.contents?, hopening]
        rfl
      exact ⟨contents, (if_pos hbracket).trans hcontents⟩

theorem isToken_eq_false_of_groupContents? {bracket : Bracket} {contents : Level} {text : String}
    (h : level.groupContents? bracket = some contents) : level.isToken text = false :=
  isToken_eq_false_of_isGroup (isGroup_of_groupContents? h)

theorem value?_of_isTokenAnyCase {text : String} (h : level.isTokenAnyCase text = true) :
    ∃ value, level.value? = some value ∧ eqAnyCase value text = true := by
  cases level with
  | nil => cases h
  | cons item rest =>
    have h : item.isTokenAnyCase text = true := h
    rw [Item.isTokenAnyCase, Bool.and_eq_true] at h
    exact ⟨item.value, rfl, h.2⟩

/-! ### Steps along a level -/

/-- An item that is no `;` may be passed. -/
theorem Admits.next (h : level.Admits may) (hsemicolon : level.isToken ";" = false) :
    level.Passes may level.next := by
  refine passes_next fun item hitem => ?_
  cases level with
  | nil => cases hitem
  | cons first rest =>
    obtain rfl : first = item := by simpa using hitem
    exact h.of_not_semicolon first List.mem_cons_self hsemicolon

theorem Admits.next_of_role (h : level.Admits may) (hrole : ∀ item ∈ level.head?, item.roles ≠ {}) :
    level.Passes may level.next :=
  passes_next fun item hitem =>
    h.of_role item (List.mem_of_head? hitem) (hrole item hitem)

theorem Admits.next_of_isIdentifier (h : level.Admits may) (hname : level.isIdentifier = true) :
    level.Passes may level.next := by
  refine h.next_of_role fun item hitem hroles => ?_
  rw [isIdentifier, show level.head? = some item from hitem, Option.any_some, hroles] at hname
  cases hname

theorem Admits.next_of_isTypeKeyword (h : level.Admits may)
    (hkeyword : level.isTypeKeyword = true) :
    level.Passes may level.next := by
  refine h.next_of_role fun item hitem hroles => ?_
  rw [isTypeKeyword, show level.head? = some item from hitem, Option.any_some, hroles] at hkeyword
  cases hkeyword

theorem Admits.afterQualifiers (h : level.Admits may) : level.Passes may level.afterQualifiers := by
  refine passes_dropWhile fun item hitem hqualifier => h.of_role item hitem fun hroles => ?_
  rw [hroles] at hqualifier
  cases hqualifier

theorem Admits.afterLeftQualifiers (h : level.Admits may) :
    level.Passes may level.afterLeftQualifiers := by
  refine passes_dropWhile fun item hitem hqualifier => h.of_role item hitem fun hroles => ?_
  rw [isLeftQualifier, hroles] at hqualifier
  cases hqualifier

theorem Admits.afterDimensions (h : level.Admits may) : level.Passes may level.afterDimensions :=
  passes_dropWhile fun item hitem hgroup =>
    h.of_not_semicolon item hitem (isToken_eq_false_of_bracket? (eq_of_beq hgroup))

/-- A search with `;` among its delimiters passes no `;`. -/
theorem Admits.skipToAny (h : level.Admits may) {delimiters : List String}
    (hsemicolon : ";" ∈ delimiters) : level.Passes may (level.skipToAny delimiters) := by
  refine passes_dropWhile fun item hitem hskipped => h.of_not_semicolon item hitem ?_
  rw [Bool.not_eq_true', List.any_eq_false] at hskipped
  exact Bool.eq_false_iff.mpr (hskipped ";" hsemicolon)

/-- The initialiser of a declarator goes on up to a `,` or a `;`, so it passes no `;`. -/
theorem Admits.afterDeclarator (h : level.Admits may) : level.Passes may level.afterDeclarator := by
  have hskip : level.Passes may (level.skipToAny [",", ";"]) := h.skipToAny (by simp)
  unfold Level.afterDeclarator
  dsimp only
  split
  · rename_i hcomma
    exact hskip.trans ((h.passed hskip).next (isToken_eq_false_of_isToken hcomma (by decide)))
  · exact hskip

theorem afterSemicolon_suffix (level : Level) : level.afterSemicolon <:+ level := by
  unfold afterSemicolon
  split
  · exact next_suffix level
  · exact List.suffix_refl level

/-- A list of declarators passes only such items if each of its declarators does. -/
theorem readSeparated_passes {α : Type} {read : Level → Except Fault (α × Level)}
    (hread : ∀ {level a rest}, level.Admits may → read level = .ok (a, rest) →
      level.Passes may rest) {level : Level} (h : level.Admits may) :
    ∀ {declarators : List α} {rest : Level},
      readSeparated read level = .ok (declarators, rest) → level.Passes may rest := by
  -- Along the recursion of the list: a declarator, what is behind it, and the rest of the list when
  -- that is shorter.
  induction level using readSeparated_induct with
  | ends level hend =>
    intro declarators rest hok
    rw [readSeparated, if_pos hend] at hok
    cases hok
    exact Passes.refl level
  | declarator level hend ih =>
    intro declarators rest hok
    rw [readSeparated, if_neg hend] at hok
    obtain ⟨⟨declarator, middle⟩, hfirst, hok⟩ := bind_eq_ok_iff.mp hok
    have hmiddle : level.Passes may middle := hread h hfirst
    have hafter := hmiddle.trans (h.passed hmiddle).afterDeclarator
    dsimp only at hok
    split at hok
    · rename_i hlt
      obtain ⟨⟨declarators, rest⟩, hrest, hok⟩ := bind_eq_ok_iff.mp hok
      cases hok
      exact hafter.trans (ih middle hlt (h.passed hafter) hrest)
    · cases hok
      exact hafter

end Level

open Level

variable {may : Item → Prop} {scope : Scope} {level rest : Level}

/-! ### Declarators -/

namespace Declarator

/-- The only item that a type takes is the name of that type, which the scope knows. -/
theorem afterType_passes (hlevel : level.AdmitsTypes may scope) :
    level.Passes may (afterType scope level) := by
  unfold afterType
  split
  · rename_i htype
    refine passes_next fun item hitem => ?_
    -- A type is found at the current item only, where the scope has its name.
    obtain ⟨ref, href⟩ := Option.isSome_iff_exists.mp htype
    rw [typeAt?, Option.bind_eq_bind, Option.bind_eq_some_iff] at href
    obtain ⟨name, hword, hlookup⟩ := href
    cases level with
    | nil => cases hitem
    | cons first rest =>
      obtain rfl : first = item := by simpa using hitem
      unfold word? at hword
      split at hword
      · rename_i hbracket
        cases hword
        refine hlevel first List.mem_cons_self (Option.isNone_iff_eq_none.mp hbracket) ?_
        rw [Scope.knows, hlookup, Option.isSome_some]
      · cases hword
  · exact Passes.refl level

/-- Behind a template there is no type to read, so the names of types need not be passable. -/
theorem afterTypePart_passes {template : Option Declarator} (h : level.Admits may)
    (htypes : template = none → level.AdmitsTypes may scope) :
    level.Passes may (afterTypePart scope template level) := by
  cases template with
  | some shared => exact h.afterQualifiers
  | none =>
    have hleft := h.afterLeftQualifiers
    have htype := hleft.trans (afterType_passes ((htypes rfl).passed hleft))
    exact htype.trans (h.passed htype).afterQualifiers

theorem afterName_passes (h : level.Admits may) : level.Passes may (afterName level) := by
  unfold afterName
  split
  · rename_i hname
    rw [atName, Bool.or_eq_true] at hname
    rcases hname with hname | hname
    · exact h.next_of_isIdentifier hname
    · exact h.next (isToken_eq_false_of_isToken hname (by decide))
  · exact Passes.refl level

theorem isGroup_of_nestsAt (h : nestsAt level ≠ 0) : level.isGroup .parenthesis = true := by
  rw [nestsAt] at h
  split at h
  · exact isGroup_of_groupContents? ‹_›
  · exact absurd rfl h

/-- The nests of a declarator are groups of parentheses, or none is passed. -/
theorem afterNests_passes (kind : DeclaratorKind) (h : level.Admits may) :
    level.Passes may (afterNests (nestsAt level) kind level) := by
  unfold afterNests
  split
  · have hname := afterName_passes h
    exact hname.trans (h.passed hname).afterDimensions
  · rename_i hnests
    have hnext := h.next (isToken_eq_false_of_isGroup (isGroup_of_nestsAt hnests))
    split
    · exact hnext
    · exact hnext.trans (h.passed hnext).afterDimensions

theorem isGroup_of_readArgumentList {arguments : List Declarator}
    (h : readArgumentList scope level = .ok (some arguments)) :
    level.isGroup .parenthesis = true := by
  cases hcontents : level.groupContents? .parenthesis with
  | none =>
    rw [readArgumentList_of_none hcontents] at h
    cases h
  | some contents => exact isGroup_of_groupContents? hcontents

/-- A declarator passes its type, its name, its nests and its argument list, and no `;`. -/
theorem read_passes {template : Option Declarator} {declarator result : Declarator}
    (hlevel : level.Admits may) (htypes : template = none → level.AdmitsTypes may scope)
    (h : read scope template declarator level = .ok (result, rest)) : level.Passes may rest := by
  rw [read] at h
  obtain ⟨⟨nests, innermost⟩, _, h⟩ := bind_eq_ok_iff.mp h
  have htype := afterTypePart_passes hlevel htypes
  have hnests (kind : DeclaratorKind) := htype.trans (afterNests_passes kind (hlevel.passed htype))
  dsimp only at h
  -- Only the argument list is still to be passed; a level without one ends at the nests.
  split at h
  · obtain ⟨arguments, hread, h⟩ := bind_eq_ok_iff.mp h
    cases arguments with
    | none => cases h
    | some arguments =>
      cases h
      have hgroup := isGroup_of_readArgumentList hread
      exact (hnests _).trans ((hlevel.passed (hnests _)).next (isToken_eq_false_of_isGroup hgroup))
  · cases h
    exact hnests _

/-- A declarator leaves a rest of its level. -/
theorem read_rest {template : Option Declarator} {declarator result : Declarator}
    (h : read scope template declarator level = .ok (result, rest)) : rest <:+ level :=
  (read_passes (admits_true level) (fun _ => admitsTypes_true scope level) h).suffix

end Declarator

/-! ### Types and statements of C -/

namespace TypeDecl

/-- The declarator that a typedef names passes no `;`, known or unknown as it is before. -/
theorem readNamedDeclarator_passes (aliased : TypeRef) (unnamed : Fault) (hlevel : level.Admits may)
    (scope : Scope) :
    Ends (readNamedDeclarator aliased unnamed level) scope
      (fun result _ => level.Passes may result.2.2) (fun _ => True) := by
  simp only [readNamedDeclarator, ends_bind, ends_get, Reading.ends_ofExcept,
    implies_true, and_true]
  rintro ⟨declarator, rest⟩ hread
  dsimp only
  cases declarator.name with
  | none => trivial
  | some name => exact Declarator.read_passes hlevel (by simp) hread

/-- The further names of a typedef pass the commas between them. -/
theorem readSiblings_passes (qualifiers : Qualifiers) (aliased : TypeRef)
    (hlevel : level.Admits may) :
    ∀ scope, Ends (readSiblings qualifiers aliased level) scope
      (fun result _ => level.Passes may result.2) (fun _ => True) := by
  induction level using readSiblings_induct with
  | comma level hcomma ih =>
    intro scope
    rw [readSiblings, if_pos hcomma]
    simp only [ends_bind]
    -- The `,` and the declarator behind it are passed before the induction hypothesis applies.
    have hnext := hlevel.next (isToken_eq_false_of_isToken hcomma (by decide))
    refine (readNamedDeclarator_passes _ _ (hlevel.passed hnext) _).mono ?_ fun _ _ => trivial
    rintro ⟨name, declarator, rest⟩ scope' hrest
    have hpassed : level.Passes may rest := hnext.trans hrest
    refine ends_of_forall _ (fun _ scope'' => ?_) fun _ => trivial
    split
    · rename_i hlt
      simp only [ends_bind]
      refine (ih rest hlt (hlevel.passed hpassed) scope'').mono ?_ fun _ h => h
      rintro ⟨siblings, last⟩ _ hlast
      exact hpassed.trans hlast
    · exact hpassed
  | ends level hcomma =>
    intro scope
    rw [readSiblings, if_neg hcomma]
    exact Passes.refl level

end TypeDecl

namespace Declaration

/-- The further declarators of a list pass the body of a function, or what is skipped between
them. -/
theorem readFurther_passes {first last : Declarator} (hlevel : level.Admits may) :
    ∀ {declarators : List Declarator} {rest : Level},
      readFurther scope first last level = .ok (declarators, rest) → level.Passes may rest := by
  induction last, level using readFurther_induct with
  | body last level hbody =>
    intro declarators rest h
    rw [readFurther, if_pos hbody] at h
    cases h
    -- The body of a function is a group, hence no `;`.
    exact hlevel.next (isToken_eq_false_of_isGroup hbody.2)
  | comma last level hbody hcomma ih =>
    intro declarators rest h
    rw [readFurther, if_neg hbody, if_pos hcomma] at h
    obtain ⟨⟨declarator, middle⟩, hfirst, h⟩ := bind_eq_ok_iff.mp h
    have hafter := hlevel.afterDeclarator
    have hmiddle := hafter.trans (Declarator.read_passes (hlevel.passed hafter) (by simp) hfirst)
    dsimp only at h
    split at h
    · rename_i hlt
      obtain ⟨⟨declarators, rest⟩, hrest, h⟩ := bind_eq_ok_iff.mp h
      cases h
      exact hmiddle.trans (ih declarator middle hlt (hlevel.passed hmiddle) hrest)
    · cases h
      exact hmiddle
  | ends last level hbody hcomma =>
    intro declarators rest h
    rw [readFurther, if_neg hbody, if_neg hcomma] at h
    cases h
    -- At its end the list skips to a `,` or a `;`, whichever is first.
    exact hlevel.skipToAny (by simp)

/-- A list of variables passes its first declarator and its further ones. -/
theorem readVariables_passes {declaration : Declaration} (hlevel : level.Admits may)
    (htypes : level.AdmitsTypes may scope)
    (h : readVariables scope level = .ok (declaration, rest)) :
    level.Passes may rest := by
  obtain ⟨⟨first, middle⟩, hfirst, h⟩ := bind_eq_ok_iff.mp h
  obtain ⟨⟨further, rest⟩, hfurther, h⟩ := bind_eq_ok_iff.mp h
  cases h
  have hmiddle := Declarator.read_passes hlevel (fun _ => htypes) hfirst
  exact hmiddle.trans (readFurther_passes (hlevel.passed hmiddle) hfurther)

theorem readInstances_passes (ref : TypeRef) (hlevel : level.Admits may) (scope : Scope) :
    Ends (readInstances ref level) scope
      (fun result _ => level.Passes may result.2) (fun _ => True) := by
  simp only [readInstances, ends_bind, ends_get, Reading.ends_ofExcept,
    implies_true, and_true]
  rintro ⟨declarators, rest⟩ hread
  exact readSeparated_passes (fun hlevel h =>
    Declarator.read_passes hlevel (by simp) h) hlevel hread

theorem readBeside_passes (declared : TypeDecl) (hlevel : level.Admits may) (scope : Scope) :
    Ends (readBeside declared level) scope
      (fun result _ => level.Passes may result.2) (fun _ => True) := by
  unfold readBeside
  split
  · exact Passes.refl level
  · simp only [ends_bind]
    refine ends_of_forall _ (fun ref scope' => ?_) fun _ => trivial
    cases declared with
    | synonym qualifiers name typedef =>
      simp only [ends_bind]
      exact (TypeDecl.readSiblings_passes _ _ hlevel _).mono (fun _ _ h => h) fun _ h => h
    | tagged qualifiers name members =>
      simp only [ends_bind]
      exact (readInstances_passes _ hlevel _).mono (fun _ _ h => h) fun _ h => h

end Declaration

/-- The item that is passed as the name of a type is a name or a keyword, and no `;`. -/
theorem TypeDecl.afterTypeName_passes (hlevel : level.Admits may) :
    level.Passes may (afterTypeName level) := by
  unfold afterTypeName
  split
  · rename_i hname
    rw [atTypeName, Bool.or_eq_true] at hname
    rcases hname with hname | hname
    · exact hlevel.next_of_isIdentifier hname
    · exact hlevel.next_of_isTypeKeyword hname
  · exact Passes.refl level

/-- A body is read exactly where there is a group with braces. -/
theorem TypeDecl.readBody?_isGroup (level : Level) (scope : Scope) :
    Ends (readBody? level) scope
      (fun members _ =>
        (afterTypeName level.afterLeftQualifiers).isGroup .brace = members.isSome)
      (fun _ => True) := by
  cases hcontents : (afterTypeName level.afterLeftQualifiers).groupContents? .brace with
  | none =>
    rw [readBody?_of_none hcontents, ends_pure, Option.isSome_none, Bool.eq_false_iff]
    intro hgroup
    obtain ⟨contents, hsome⟩ := exists_groupContents? hgroup
    rw [hcontents] at hsome
    cases hsome
  | some contents =>
    rw [readBody?_of_contents hcontents, isGroup_of_groupContents? hcontents]
    split
    · exact rfl
    · rw [ends_bind]
      exact ends_of_forall _ (fun _ _ => rfl) fun _ => trivial

/-- A typedef passes its name, its body when it has one, and the names it gives. -/
theorem TypeDecl.readTypedef_passes (hlevel : level.Admits may) (scope : Scope) :
    Ends (readTypedef level) scope
      (fun result _ => level.afterLeftQualifiers.Passes may result.2) (fun _ => True) := by
  have hleft := hlevel.passed hlevel.afterLeftQualifiers
  have hname := afterTypeName_passes hleft
  rw [readTypedef]
  simp only [ends_bind]
  refine ends_of_forall _ (fun named scope' => ?_) fun _ => trivial
  -- A body is read only where a group stands, which is no `;` to pass.
  refine (readBody?_isGroup level scope').mono (fun members scope' hbody => ?_) fun _ _ => trivial
  cases members with
  | none =>
    simp only [ends_bind]
    exact (readNamedDeclarator_passes _ _ (hleft.passed hname) _).mono
      (fun _ _ h => hname.trans h) fun _ h => h
  | some members =>
    simp only [ends_bind]
    refine ends_of_forall _ (fun aliased scope' => ?_) fun _ => trivial
    have hnext := hname.trans
      ((hleft.passed hname).next (isToken_eq_false_of_isGroup hbody))
    exact (readNamedDeclarator_passes _ _ (hleft.passed hnext) _).mono
      (fun _ _ h => hnext.trans h) fun _ h => h

/-- A type goes on from the end of its qualifiers. -/
theorem TypeDecl.read_passes (hlevel : level.Admits may) (scope : Scope) :
    Ends (TypeDecl.read level) scope
      (fun result _ => level.afterLeftQualifiers.Passes may result.2) (fun _ => True) := by
  have hleft := hlevel.passed hlevel.afterLeftQualifiers
  have hname := afterTypeName_passes hleft
  rw [TypeDecl.read]
  split
  · exact readTypedef_passes hlevel scope
  · simp only [ends_bind]
    refine (readBody?_isGroup level scope).mono (fun members scope' hbody => ?_) fun _ _ => trivial
    cases members with
    | none => exact hname
    | some members =>
      exact hname.trans ((hleft.passed hname).next (isToken_eq_false_of_isGroup hbody))

/-- A type leaves a rest of what follows its qualifiers. -/
theorem TypeDecl.read_rest_of_qualifiers (level : Level) (scope : Scope) :
    Ends (TypeDecl.read level) scope (fun result _ => result.2 <:+ level.afterLeftQualifiers)
      (fun _ => True) :=
  (read_passes (admits_true level) scope).mono (fun _ _ h => h.suffix) fun _ h => h

/-- A type leaves a rest of its level. -/
theorem TypeDecl.read_rest (level : Level) (scope : Scope) :
    Ends (TypeDecl.read level) scope (fun result _ => result.2 <:+ level) (fun _ => True) :=
  (read_rest_of_qualifiers level scope).mono
    (fun _ _ h => h.trans (afterLeftQualifiers_suffix level)) fun _ h => h

/-- A statement of C goes on up to where a `;` may end it. -/
theorem Declaration.read_passes (hlevel : level.Admits may) (htypes : level.AdmitsTypes may scope) :
    Ends (Declaration.read level) scope
      (fun result _ => ∃ last, level.Passes may last ∧ result.2 = last.afterSemicolon)
      (fun _ => True) := by
  rw [Declaration.read]
  simp only [ends_bind, ends_get]
  split
  · simp only [ends_bind]
    refine (TypeDecl.read_passes hlevel scope).mono ?_ fun _ h => h
    rintro ⟨declared, middle⟩ scope' hqualified
    have hmiddle : level.Passes may middle := hlevel.afterLeftQualifiers.trans hqualified
    refine (readBeside_passes declared (hlevel.passed hmiddle) scope').mono ?_ fun _ h => h
    rintro ⟨declaration, rest⟩ _ hrest
    exact ⟨rest, hmiddle.trans hrest, rfl⟩
  · simp only [ends_bind, Reading.ends_ofExcept, implies_true, and_true]
    rintro ⟨declaration, rest⟩ hread
    exact ⟨rest, readVariables_passes hlevel htypes hread, rfl⟩

/-- A statement of C leaves a rest of its level. -/
theorem Declaration.read_rest (level : Level) (scope : Scope) :
    Ends (Declaration.read level) scope (fun result _ => result.2 <:+ level) (fun _ => True) := by
  refine (read_passes (admits_true level) (admitsTypes_true scope level)).mono ?_ fun _ h => h
  rintro ⟨declaration, rest⟩ _ ⟨last, hlast, hrest⟩
  have hrest : rest = last.afterSemicolon := hrest
  rw [hrest]
  exact (Level.afterSemicolon_suffix last).trans hlast.suffix

/-! ### Statements of Fortran -/

namespace Fortran

theorem isToken_eq_false_of_word? {text word : String}
    (hword : level.word?.map upperCase = some word) (hne : upperCase text ≠ word) :
    level.isToken text = false := by
  refine isToken_eq_false_of_value? fun hvalue => hne ?_
  unfold word? at hword
  split at hword
  · rw [hvalue, Option.map_some, Option.some.injEq] at hword
    exact hword
  · cases hword

/-- A type of Fortran passes its keyword and the width behind it. -/
theorem readType_passes (hlevel : level.Admits may) : level.Passes may (readType level).2 := by
  -- The keyword comes first in every form of a type, with or without `PRECISION` behind it.
  have hkeyword (htype : level.isTypeKeyword = true) : level.Passes may (keywordAt level).2 := by
    have hnext := hlevel.next_of_isTypeKeyword htype
    unfold keywordAt
    dsimp only
    split
    · rename_i hprecision
      obtain ⟨value, hvalue, heq⟩ := value?_of_isTokenAnyCase hprecision.2
      refine hnext.trans ((hlevel.passed hnext).next (isToken_eq_false_of_value? ?_))
      rw [hvalue]
      rintro ⟨rfl⟩
      exact absurd heq (by decide +kernel)
    · exact hnext
  unfold readType
  split
  · rename_i htype
    -- Behind the keyword: a width after a star, a width in parentheses, or none.
    have hkeyword := hkeyword htype
    dsimp only
    split
    · rename_i hstar
      have hstar := hkeyword.trans
        ((hlevel.passed hkeyword).next (isToken_eq_false_of_isToken hstar (by decide)))
      split
      · rename_i width hwidth
        refine hstar.trans
          ((hlevel.passed hstar).next (isToken_eq_false_of_value? fun hvalue => ?_))
        rw [hvalue] at hwidth
        -- A width is a number, so the item that gives it is no `;`.
        exact absurd hwidth (by simp [widthOf, show number? ";" = none by decide])
      · exact hstar
    · split
      · rename_i list hlist
        split
        · exact hkeyword.trans
            ((hlevel.passed hkeyword).next (isToken_eq_false_of_groupContents? hlist))
        · exact hkeyword
      · exact hkeyword
  · exact Passes.refl level

/-- No attribute is spelt by a `;`. -/
theorem ne_of_wordAttribute? {markers : Markers} {word : String} {declarator changed : Declarator}
    (h : wordAttribute? markers word declarator = some changed) : upperCase ";" ≠ word := by
  have hsemicolon : upperCase ";" = ";" := by decide +kernel
  rintro rfl
  rw [hsemicolon] at h
  exact absurd h (by simp [wordAttribute?])

/-- An attribute passes its word and the list behind it, as far as it is accepted at all. -/
theorem applyAttribute_passes (scope : Scope) (hlevel : level.Admits may)
    (declarator : Declarator) :
    Ends (applyAttribute scope level) declarator
      (fun result _ => ∀ deferred rest, result = some (deferred, rest) → level.Passes may rest)
      (fun _ => True) := by
  have hword {word : String} (h : level.word?.map upperCase = some word)
    (hne : upperCase ";" ≠ word) :
      level.Passes may level.next := hlevel.next (isToken_eq_false_of_word? h hne)
  have htype := readType_passes hlevel
  unfold applyAttribute
  -- Along the branches of the definition: a type, an `INTENT` or a `DIMENSION` with its list, or an
  -- attribute that is a word alone.
  split
  · trivial
  · rename_i rest hread
    rw [hread] at htype
    simp only [ends_bind, ends_modify, ends_pure, Option.some.injEq, Prod.mk.injEq]
    rintro _ _ ⟨-, rfl⟩
    exact htype
  · split
    · simp
    · rename_i hintent
      have hnext := hword hintent (by decide +kernel)
      split
      · rename_i intent hlist
        simp only [ends_bind, ends_modify, ends_pure, Option.some.injEq, Prod.mk.injEq]
        rintro _ _ ⟨-, rfl⟩
        obtain ⟨_, hvalue, -⟩ := Option.map_eq_some_iff.mp hlist
        obtain ⟨contents, hcontents, -⟩ := Option.bind_eq_some_iff.mp hvalue
        exact hnext.trans
          ((hlevel.passed hnext).next (isToken_eq_false_of_groupContents? hcontents))
      · trivial
    · rename_i hdimension
      have hnext := hword hdimension (by decide +kernel)
      split
      · rename_i list hlist
        simp only [ends_bind, ends_modify, ends_pure, Option.some.injEq, Prod.mk.injEq]
        rintro _ _ ⟨-, rfl⟩
        exact hnext.trans ((hlevel.passed hnext).next (isToken_eq_false_of_groupContents? hlist))
      · trivial
    · rename_i word _ _ hattribute
      simp only [ends_bind, ends_get]
      split
      · rename_i changed hchanged
        simp only [ends_bind, ends_set, ends_pure, Option.some.injEq, Prod.mk.injEq]
        rintro _ _ ⟨-, rfl⟩
        exact hword hattribute (ne_of_wordAttribute? hchanged)
      · simp

/-- The attributes of a statement pass the commas between them and the `::` that ends them. -/
theorem applyAttributes_passes (scope : Scope) (deferred : Bool) (hlevel : level.Admits may) :
    ∀ declarator, Ends (applyAttributes scope deferred level) declarator
      (fun result _ => level.Passes may result.2) (fun _ => True) := by
  have hcolons {level : Level} (hlevel : level.Admits may) (h : level.isToken "::" = true) :
      level.Passes may level.next := hlevel.next (isToken_eq_false_of_isToken h (by decide))
  induction deferred, level using applyAttributes_induct with
  | ends deferred level hend =>
    intro declarator
    rw [applyAttributes, if_pos hend]
    exact Passes.refl level
  | colons deferred level hend hdone =>
    intro declarator
    rw [applyAttributes, if_neg hend, if_pos hdone]
    exact hcolons hlevel hdone
  | entry deferred level hend hdone ih =>
    intro declarator
    rw [applyAttributes, if_neg hend, if_neg hdone]
    simp only [ends_bind]
    -- The attribute at the level is passed first; what follows it decides how the loop goes on.
    refine (applyAttribute_passes scope hlevel declarator).mono ?_ fun _ h => h
    intro result declarator hresult
    cases result with
    | none => exact Passes.refl level
    | some found =>
      obtain ⟨deferredHere, rest⟩ := found
      have hrest : level.Passes may rest := hresult _ _ rfl
      dsimp only
      split
      · rename_i hcomma
        have hnext := hrest.trans
          ((hlevel.passed hrest).next (isToken_eq_false_of_isToken hcomma.1 (by decide)))
        refine (ih deferredHere rest hcomma (hlevel.passed hnext) declarator).mono ?_ fun _ h => h
        exact fun _ _ h => hnext.trans h
      · rw [ends_pure]
        dsimp only
        split
        · rename_i hdone
          exact hrest.trans (hcolons (hlevel.passed hrest) hdone)
        · exact hrest

theorem readAttributes_passes (scope : Scope) (hlevel : level.Admits may)
    (declarator : Declarator) :
    Ends (readAttributes scope level) declarator (fun rest _ => level.Passes may rest)
      (fun _ => True) := by
  unfold readAttributes
  simp only [ends_bind]
  refine (applyAttributes_passes scope false hlevel declarator).mono ?_ fun _ h => h
  rintro ⟨deferred, rest⟩ declarator hrest
  dsimp only
  split
  · simpa only [ends_bind, ends_modify, ends_pure] using hrest
  · exact hrest

/-- A word that is compared without regard to case may be passed unless `;` equals it. -/
theorem next_of_isTokenAnyCase_passes {word : String} (hlevel : level.Admits may)
    (h : level.isTokenAnyCase word = true) (hne : eqAnyCase ";" word = false) :
    level.Passes may level.next := by
  obtain ⟨value, hvalue, heq⟩ := value?_of_isTokenAnyCase h
  refine hlevel.next (isToken_eq_false_of_value? ?_)
  rw [hvalue]
  rintro ⟨rfl⟩
  rw [heq] at hne
  cases hne

/-- The words that start a procedure are passed before the name of an entity. -/
theorem readHeading_passes (scope : Scope) (declarator : Declarator) (hlevel : level.Admits may) :
    level.Passes may (readHeading scope declarator level).2 := by
  unfold readHeading
  split
  · exact next_of_isTokenAnyCase_passes hlevel ‹_› (by decide +kernel)
  · split
    · exact next_of_isTokenAnyCase_passes hlevel ‹_› (by decide +kernel)
    · exact Passes.refl level

theorem readName_passes (declarator : Declarator) (hlevel : level.Admits may) :
    level.Passes may (readName declarator level).2 := by
  unfold readName
  split
  · exact hlevel.next_of_isIdentifier ‹_›
  · exact Passes.refl level

theorem readArguments_passes (declarator : Declarator) (hlevel : level.Admits may) :
    level.Passes may (readArguments declarator level).2 := by
  unfold readArguments
  split
  · rename_i list hlist
    split
    · exact hlevel.next (isToken_eq_false_of_groupContents? hlist)
    · exact Passes.refl level
  · exact Passes.refl level

theorem readDimensions_passes (declarator : Declarator) (hlevel : level.Admits may) :
    level.Passes may (readDimensions declarator level).2 := by
  unfold readDimensions
  split
  · rename_i list hlist
    exact hlevel.next (isToken_eq_false_of_groupContents? hlist)
  · exact Passes.refl level

/-- An entity passes its heading, its name, its arguments and its dimensions. -/
theorem readEntity_passes (scope : Scope) (declarator : Declarator) (hlevel : level.Admits may) :
    level.Passes may (readEntity scope declarator level).2 := by
  rw [readEntity]
  generalize hheading : readHeading scope declarator level = headed
  obtain ⟨declarator₁, level₁⟩ := headed
  have h₁ : level.Passes may level₁ := by
    simpa only [hheading] using readHeading_passes scope declarator hlevel
  have h₂ := h₁.trans (readName_passes declarator₁ (hlevel.passed h₁))
  have h₃ := h₂.trans (readArguments_passes (readName declarator₁ level₁).1 (hlevel.passed h₂))
  exact h₃.trans (readDimensions_passes _ (hlevel.passed h₃))

/-- An entity leaves a rest of its level. -/
theorem readDeclarator_rest (scope : Scope) (template : Option Declarator) (level : Level)
    (declarator : Declarator) :
    Ends (readDeclarator scope template level) declarator (fun rest _ => rest <:+ level)
      (fun _ => True) := by
  cases template with
  | some shared => exact (readEntity_passes scope _ (admits_true level)).suffix
  | none =>
    simp only [readDeclarator, ends_bind]
    refine (readAttributes_passes scope (admits_true level) declarator).mono ?_ fun _ h => h
    intro rest declarator hrest
    exact (readEntity_passes scope declarator (admits_true rest)).suffix.trans hrest.suffix

/-- A statement of Fortran goes on up to where a `;` may end it. -/
theorem readStatement_passes {declaration : Declaration} (hlevel : level.Admits may)
    (h : readStatement scope level = .ok (declaration, rest)) :
    ∃ last, level.Passes may last ∧ rest = last.afterSemicolon := by
  have hattributes := readAttributes_passes scope hlevel {}
  unfold readStatement at h
  split at h
  · cases h
  · rename_i middle shared hread
    have hmiddle : level.Passes may middle := hattributes.of_ok hread
    -- The entities are a separated list, and each of them passes no `;`.
    obtain ⟨⟨declarators, last⟩, hentities, h⟩ := bind_eq_ok_iff.mp h
    cases h
    refine ⟨last, hmiddle.trans (readSeparated_passes ?_ (hlevel.passed hmiddle) hentities), rfl⟩
    intro level declarator rest hlevel h
    have hentity : (readEntity scope (withAttributesOf shared {}) level).2 = rest :=
      congrArg Prod.snd (Except.ok.inj h)
    rw [← hentity]
    exact readEntity_passes _ _ hlevel

end Fortran

/-! ### Statements of either dialect -/

namespace Declaration

theorem afterEmptyStatements_suffix (level : Level) : afterEmptyStatements level <:+ level :=
  List.dropWhile_suffix _

/-- A statement goes on up to where a `;` may end it. -/
theorem readIn_passes (dialect : Dialect) (hlevel : level.Admits may)
    (htypes : level.AdmitsTypes may scope) :
    Ends (readIn dialect level) scope
      (fun result _ => ∃ last, level.Passes may last ∧ result.2 = last.afterSemicolon)
      (fun _ => True) := by
  cases dialect with
  | c => exact read_passes hlevel htypes
  | fortran =>
    simp only [readIn, ends_bind, ends_get, Reading.ends_ofExcept, implies_true, and_true]
    rintro ⟨declaration, rest⟩ hread
    exact Fortran.readStatement_passes hlevel hread

/-- Reading the next statement leaves a rest of the level. -/
theorem next?_rest (dialect : Dialect) (level : Level) (scope : Scope) :
    Ends (next? dialect level) scope
      (fun result _ => ∀ declaration rest, result = some (declaration, rest) → rest <:+ level)
      (fun _ => True) := by
  unfold next?
  split
  · simp
  · simp only [ends_bind]
    refine (readIn_passes dialect (admits_true _) (admitsTypes_true scope _)).mono ?_ fun _ h => h
    rintro ⟨declaration, rest⟩ _ ⟨last, hlast, hrest⟩ _ _ h
    cases h
    have hrest : rest = last.afterSemicolon := hrest
    rw [hrest]
    exact (Level.afterSemicolon_suffix last).trans
      (hlast.suffix.trans (afterEmptyStatements_suffix level))

end Declaration

end CommonDecl
