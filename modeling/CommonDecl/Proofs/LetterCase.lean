import CommonDecl.Proofs.Comments
import CommonDecl.Proofs.Shapes
import Mathlib

/-!
# The letter case of sources

Upper-casing a text commutes with taking comments out of Fortran (`stripChars_map`) and with cutting
it into lexemes (`forms_map`), as neither looks for a letter of one case.  So two sources of Fortran
that differ in the case of letters are grouped into the same trees up to the case of letters, or
both have a fault (`rel_ofSource`).
-/

namespace CommonDecl

/-! ### Characters -/

section

variable {c d : Char}

/-- Only letters have capitals. -/
theorem toUpper_of_not_isAlpha (h : c.isAlpha = false) : c.toUpper = c := by
  refine Char.toUpper_eq_of_not_isLower fun hlower => ?_
  rw [Char.isAlpha, hlower, Bool.or_true] at h
  cases h

/-- A character that is no letter is the upper case of itself alone. -/
theorem toUpper_eq_iff (hd : d.isAlpha = false) : c.toUpper = d ↔ c = d := by
  constructor
  · rintro rfl
    rw [Char.isAlpha_toUpper_eq_isAlpha] at hd
    exact (toUpper_of_not_isAlpha hd).symm
  · rintro rfl
    exact toUpper_of_not_isAlpha hd

/-- A comparison with a character that is no letter does not depend on case. -/
theorem beq_toUpper (hd : d.isAlpha = false) : (c.toUpper == d) = (c == d) := by
  rw [Bool.eq_iff_iff, beq_iff_eq, beq_iff_eq, toUpper_eq_iff hd]

/-- A text without letters. -/
def isLetterless (text : List Char) : Bool :=
  text.all fun c => !c.isAlpha

theorem isLetterless_iff {text : List Char} :
    isLetterless text = true ↔ ∀ c ∈ text, c.isAlpha = false := by
  simp only [isLetterless, List.all_eq_true, Bool.not_eq_true']

/-- In a list without letters, a character is found whatever its case. -/
theorem contains_toUpper {list : List Char} (hlist : isLetterless list = true) :
    list.contains c.toUpper = list.contains c := by
  rw [isLetterless_iff] at hlist
  rw [Bool.eq_iff_iff, List.contains_iff_mem, List.contains_iff_mem]
  constructor
  · intro hc
    rwa [← (toUpper_eq_iff (hlist _ hc)).mp rfl] at hc
  · intro hc
    rwa [toUpper_of_not_isAlpha (hlist _ hc)]

@[simp]
theorem isDigit_toUpper (c : Char) : c.toUpper.isDigit = c.isDigit := by
  by_cases hlower : c.isLower = true
  · have hupper : c.toUpper.isUpper = true := by
      rw [Char.isUpper_toUpper_eq_isAlpha, Char.isAlpha, hlower, Bool.or_true]
    simp only [Char.isLower, Char.isUpper, Char.isDigit, UInt32.le_iff_toNat_le] at *
    grind
  · rw [Char.toUpper_eq_of_not_isLower hlower]

/-- A text is put in capitals character by character. -/
theorem toList_upperCase (text : String) : (upperCase text).toList = text.toList.map Char.toUpper :=
  String.toList_map

theorem upperCase_inj_iff {text text' : String} :
    upperCase text = upperCase text' ↔
      text.toList.map Char.toUpper = text'.toList.map Char.toUpper := by
  rw [← String.toList_inj, toList_upperCase, toList_upperCase]

theorem ofList_map (text : List Char) :
    String.ofList (text.map Char.toUpper) = upperCase (String.ofList text) := by
  rw [← String.ofList_toList (s := upperCase _), toList_upperCase, String.toList_ofList]

/-- A text without letters is the upper case of itself alone. -/
theorem upperCase_eq_iff {text word : String} (hword : isLetterless word.toList = true) :
    upperCase text = word ↔ text = word := by
  rw [← String.toList_inj, ← @String.toList_inj text, toList_upperCase]
  generalize text.toList = letters
  generalize word.toList = other at hword
  induction other generalizing letters with
  | nil => exact List.map_eq_nil_iff
  | cons d rest ih =>
    rw [isLetterless, List.all_cons, Bool.and_eq_true, Bool.not_eq_true'] at hword
    cases letters with
    | nil => simp
    | cons c letters => rw [List.map_cons, List.cons.injEq, List.cons.injEq, toUpper_eq_iff hword.1,
      ih _ hword.2]

/-- Two texts that differ in the case of letters are both a text without letters, or neither is. -/
theorem eq_iff_of_upperCase {text text' word : String} (h : upperCase text = upperCase text')
    (hword : isLetterless word.toList = true) : text = word ↔ text' = word := by
  rw [← upperCase_eq_iff hword, ← @upperCase_eq_iff text' word hword, h]

end

/-! ### Comments -/

namespace Comment

/-- A line break has no case. -/
theorem unifyLineEnds_map (text : List Char) :
    unifyLineEnds (text.map Char.toUpper) = (unifyLineEnds text).map Char.toUpper := by
  induction text using unifyLineEnds_induct with
  | lineEnd rest ih => exact congrArg (List.cons '\n') ih
  | char c rest hnot ih =>
    have hnot' : ∀ rest', c.toUpper = '\r' → rest.map Char.toUpper = '\n' :: rest' → False := by
      intro rest' hc hrest
      obtain ⟨d, after, rfl, hd, -⟩ := List.map_eq_cons_iff.mp hrest
      exact hnot after ((toUpper_eq_iff rfl).mp hc) (by rw [(toUpper_eq_iff rfl).mp hd])
    rw [List.map_cons, unifyLineEnds.eq_2 _ _ hnot', unifyLineEnds.eq_2 c rest hnot, ih,
      List.map_cons]
  | nil => rfl

theorem tabsToSpaces_map (text : List Char) :
    tabsToSpaces (text.map Char.toUpper) = (tabsToSpaces text).map Char.toUpper := by
  rw [tabsToSpaces, tabsToSpaces, List.map_map, List.map_map]
  refine List.map_congr_left fun c _ => ?_
  simp (disch := decide) only [Function.comp_apply, toUpper_eq_iff]
  split <;> rfl

theorem dropLine_map (text : List Char) :
    dropLine (text.map Char.toUpper) = (dropLine text).map Char.toUpper := by
  have hsame : (fun c : Char => decide (c ≠ '\n')) ∘ Char.toUpper = fun c => decide (c ≠ '\n') := by
    funext c
    simp (disch := decide) only [Function.comp_apply, ne_eq, toUpper_eq_iff]
  rw [dropLine, List.dropWhile_map, hsame, dropLine]

/-- The `!` of a comment and the end of its line have no case. -/
theorem dropBangLines_map (text : List Char) :
    dropBangLines (text.map Char.toUpper) = (dropBangLines text).map Char.toUpper := by
  induction text using dropBangLines_induct with
  | nil => rw [List.map_nil, dropBangLines, List.map_nil]
  | bang rest ih =>
    show dropBangLines ('!' :: rest.map Char.toUpper) = _
    rw [dropBangLines, dropLine_map, ih, dropBangLines]
    rfl
  | char c rest hnot ih =>
    rw [List.map_cons, dropBangLines_cons (mt (toUpper_eq_iff rfl).mp hnot),
      dropBangLines_cons hnot, ih, List.map_cons]

theorem dropSpaces_map (text : List Char) :
    dropSpaces (text.map Char.toUpper) = (dropSpaces text).map Char.toUpper := by
  have hsame : (fun c : Char => decide (c = ' ')) ∘ Char.toUpper = fun c => decide (c = ' ') := by
    funext c
    simp (disch := decide) only [Function.comp_apply, toUpper_eq_iff]
  rw [dropSpaces, List.dropWhile_map, hsame, dropSpaces]

/-- The `&` at the start of a line that is resumed has no case. -/
theorem dropAmpersand_map (text : List Char) :
    dropAmpersand (text.map Char.toUpper) = (dropAmpersand text).map Char.toUpper := by
  cases text with
  | nil => rfl
  | cons c rest =>
    by_cases hc : c = '&'
    · subst hc
      rfl
    · have hc' : c.toUpper ≠ '&' := mt (toUpper_eq_iff rfl).mp hc
      rw [List.map_cons, dropAmpersand, dropAmpersand, List.map_cons]
      all_goals simp_all

/-- What stands behind a continuation is found at the same place. -/
theorem afterContinuation?_map (text : List Char) :
    afterContinuation? (text.map Char.toUpper) =
      (afterContinuation? text).map (List.map Char.toUpper) := by
  rw [afterContinuation?, dropSpaces_map, afterContinuation?]
  cases dropSpaces text with
  | nil => rfl
  | cons c rest =>
    by_cases hc : c = '\n'
    · subst hc
      show some (dropAmpersand (dropSpaces (rest.map Char.toUpper))) = _
      rw [dropSpaces_map, dropAmpersand_map]
      rfl
    · have hc' : c.toUpper ≠ '\n' := mt (toUpper_eq_iff rfl).mp hc
      simp [hc, hc']

/-- Lines are joined at the same places. -/
theorem joinContinuedLines_map (text : List Char) :
    joinContinuedLines (text.map Char.toUpper) = (joinContinuedLines text).map Char.toUpper := by
  -- Along the search for `&`, which is no letter: a continuation, an `&` that is none, or another
  -- character.
  induction text using joinContinuedLines_induct with
  | nil => rw [List.map_nil, joinContinuedLines, List.map_nil]
  | continuation rest after hafter ih =>
    show joinContinuedLines ('&' :: rest.map Char.toUpper) = _
    rw [joinContinuedLines_of_some (by rw [afterContinuation?_map, hafter]; rfl), ih,
      joinContinuedLines_of_some hafter]
    rfl
  | ampersand rest hafter ih =>
    show joinContinuedLines ('&' :: rest.map Char.toUpper) = _
    rw [joinContinuedLines_of_none (by rw [afterContinuation?_map, hafter]; rfl), ih,
      joinContinuedLines_of_none hafter]
    rfl
  | char c rest hc ih =>
    rw [List.map_cons, joinContinuedLines_cons (mt (toUpper_eq_iff rfl).mp hc), ih,
      joinContinuedLines_cons hc, List.map_cons]

/-- Taking the comments out of Fortran does not depend on the case of letters. -/
theorem stripChars_map (text : List Char) :
    stripChars .fortran (text.map Char.toUpper) = (stripChars .fortran text).map Char.toUpper := by
  simp only [stripChars, unifyLineEnds_map, tabsToSpaces_map, dropBangLines_map,
    joinContinuedLines_map]

end Comment

/-! ### Lexemes -/

namespace Lexeme

/-- A blank is no letter. -/
@[simp]
theorem isGap_toUpper (c : Char) : isGap c.toUpper = isGap c := by
  simp (disch := decide) only [isGap, beq_toUpper]

/-- Words start with letters of either case. -/
@[simp]
theorem startsWord_toUpper (c : Char) : startsWord c.toUpper = startsWord c := by
  simp (disch := decide) only [startsWord, Char.isAlpha_toUpper_eq_isAlpha, beq_toUpper]

@[simp]
theorem continuesWord_toUpper (c : Char) : continuesWord c.toUpper = continuesWord c := by
  simp (disch := decide) only [continuesWord, Char.isAlphanum, Char.isAlpha_toUpper_eq_isAlpha,
    isDigit_toUpper, beq_toUpper]

/-- A symbol is no letter. -/
@[simp]
theorem isSymbol_toUpper (c : Char) : isSymbol c.toUpper = isSymbol c :=
  contains_toUpper (by decide)

@[simp]
theorem wordTail_map (text : List Char) : wordTail (text.map Char.toUpper) = wordTail text := by
  have hcontinues : continuesWord ∘ Char.toUpper = continuesWord := funext continuesWord_toUpper
  rw [wordTail, wordTail, List.takeWhile_map, hcontinues, List.length_map]

/-- The part of a number behind its point is as long in capitals. -/
theorem pointTail_map (text : List Char) : pointTail (text.map Char.toUpper) = pointTail text := by
  cases text with
  | nil => rfl
  | cons c rest =>
    by_cases hc : c = '.'
    · subst hc
      exact congrArg (· + 1) (wordTail_map rest)
    · rw [List.map_cons, pointTail_of_ne hc, pointTail_of_ne (mt (toUpper_eq_iff rfl).mp hc)]

@[simp]
theorem numberTail_map (text : List Char) :
    numberTail (text.map Char.toUpper) = numberTail text := by
  obtain ⟨word, after, rfl, hword, hafter⟩ := exists_word_append text
  have hword' : ∀ c ∈ word.map Char.toUpper, continuesWord c = true := by simpa using hword
  have hafter' : ∀ c ∈ (after.map Char.toUpper).head?, continuesWord c = false := by
    simpa using hafter
  rw [List.map_append, numberTail_word_append hword hafter, numberTail_word_append hword' hafter',
    List.length_map, pointTail_map]

/-- A quoted literal ends at the same place, as quotes and backslashes are no letters. -/
theorem literalTail_map {quote : Char} (hquote : quote.isAlpha = false) (text : List Char) :
    literalTail quote (text.map Char.toUpper) = literalTail quote text := by
  induction text using literalTail_induct quote with
  | nil => rfl
  | backslash => rfl
  | lineFeed rest => rfl
  | escaped c rest hc closed n hrest ih =>
    have hc' : c.toUpper ≠ '\n' := mt (toUpper_eq_iff rfl).mp hc
    show literalTail quote ('\\' :: c.toUpper :: rest.map Char.toUpper) = _
    rw [literalTail, if_neg hc', ih, literalTail, if_neg hc]
  | quoted rest hne =>
    rw [List.map_cons, toUpper_of_not_isAlpha hquote, literalTail_cons hne, literalTail_cons hne,
      if_pos rfl, if_pos rfl]
  | char c rest hne hc closed n hrest ih =>
    have hc' : c.toUpper ≠ quote := mt (toUpper_eq_iff hquote).mp hc
    rw [List.map_cons, literalTail_cons (mt (toUpper_eq_iff rfl).mp hne), literalTail_cons hne,
      if_neg hc', if_neg hc, ih]

/-- A symbol without letters begins a text in either case. -/
theorem isPrefixOf_map {symbol : List Char} (hsymbol : isLetterless symbol = true)
    (text : List Char) :
    symbol.isPrefixOf (text.map Char.toUpper) = symbol.isPrefixOf text := by
  induction symbol generalizing text with
  | nil => rfl
  | cons d symbol ih =>
    rw [isLetterless, List.all_cons, Bool.and_eq_true, Bool.not_eq_true'] at hsymbol
    cases text with
    | nil => rfl
    | cons c rest =>
      rw [List.map_cons, List.isPrefixOf, List.isPrefixOf, ih hsymbol.2, BEq.comm,
        beq_toUpper hsymbol.1, BEq.comm]

/-- The symbols of several characters have no letters. -/
@[simp]
theorem symbolTail_map (c : Char) (text : List Char) :
    symbolTail c.toUpper (text.map Char.toUpper) = symbolTail c text := by
  have hlong : longSymbols.all isLetterless = true := by decide
  have hfind :
      (longSymbols.find? fun symbol => symbol.isPrefixOf (c.toUpper :: text.map Char.toUpper)) =
      longSymbols.find? fun symbol => symbol.isPrefixOf (c :: text) :=
    List.find?_congr fun symbol hsymbol =>
      isPrefixOf_map (List.all_eq_true.mp hlong symbol hsymbol) (c :: text)
  rw [symbolTail, symbolTail, hfind]

/-- Lexemes of both cases are of one kind and of one length. -/
theorem shape_map (c : Char) (rest : List Char) :
    shape c.toUpper (rest.map Char.toUpper) = shape c rest := by
  unfold shape
  simp (disch := decide) only [startsWord_toUpper, isDigit_toUpper, isSymbol_toUpper, wordTail_map,
    numberTail_map, symbolTail_map, toUpper_eq_iff]
  -- Where a literal starts, its quote is no letter.
  by_cases hquote : c = '\"' ∨ c = '\''
  · have hletter : c.isAlpha = false := by rcases hquote with rfl | rfl <;> rfl
    rw [toUpper_of_not_isAlpha hletter, literalTail_map hletter]
  · have hnot : (decide (c = '\"') || decide (c = '\'')) = false := by simpa using hquote
    simp only [hnot, Bool.false_eq_true, ↓reduceIte]

/-- Upper-casing a text upper-cases its lexemes. -/
theorem forms_map (text : List Char) :
    forms (text.map Char.toUpper) = (forms text).map (Prod.map id upperCase) := by
  -- On the length of the text, since a lexeme may take in several characters.
  induction hlength : text.length using Nat.strong_induction_on generalizing text with
  | _ n ih =>
    subst hlength
    cases text with
    | nil => simp
    | cons c rest =>
      by_cases hgap : isGap c = true
      · rw [List.map_cons, forms_of_isGap hgap, forms_of_isGap ((isGap_toUpper c).trans hgap)]
        exact ih _ (Nat.lt_succ_self _) rest rfl
      · rw [Bool.not_eq_true] at hgap
        rw [List.map_cons, forms_cons hgap, forms_cons ((isGap_toUpper c).trans hgap),
          shape_map, ← List.map_take, ← List.map_cons, ofList_map, ← List.map_drop, ih _ ?_ _ rfl]
        · rfl
        · rw [List.length_drop, List.length_cons]
          omega

end Lexeme

/-! ### Token trees -/

section

variable {text text' : String}

/-- A bracket has no case. -/
theorem Bracket.ofOpening?_of_upperCase (h : upperCase text = upperCase text') :
    ofOpening? text = ofOpening? text' := by
  simp (disch := decide) only [ofOpening?, eq_iff_of_upperCase h]

theorem Bracket.ofClosing?_of_upperCase (h : upperCase text = upperCase text') :
    ofClosing? text = ofClosing? text' := by
  simp (disch := decide) only [ofClosing?, eq_iff_of_upperCase h]

/-- The keywords of Fortran are the same in either case. -/
theorem TokenClass.ofLexeme_of_upperCase (h : upperCase text = upperCase text')
    (settings : Settings) (known : String → Bool) (kind : LexemeKind) :
    ofLexeme (.ofSettings .fortran settings) known kind text =
      ofLexeme (.ofSettings .fortran settings) known kind text' := by
  have hnormalize : (Keywords.ofSettings .fortran settings).normalize text =
      (Keywords.ofSettings .fortran settings).normalize text' := h
  have hdialect : (Keywords.ofSettings .fortran settings).dialect ≠ .c := nofun
  cases kind <;> simp [ofLexeme, Keywords.isQualifier, Keywords.isTypeKeyword, hnormalize, hdialect]

end

namespace TokenTree

/-- Two trees are the same but for the case of letters. -/
inductive EqAnyCase : TokenTree → TokenTree → Prop where
  | leaf {text text' : String} (cls : TokenClass) (h : upperCase text = upperCase text') :
    EqAnyCase (.leaf ⟨text, cls⟩) (.leaf ⟨text', cls⟩)
  | group (bracket : Bracket) {contents contents' : List TokenTree}
    (h : List.Forall₂ EqAnyCase contents contents') :
    EqAnyCase (.group bracket contents) (.group bracket contents')

/-- Lexemes that are the same but for the case of letters are grouped into such trees, or have a
fault. -/
theorem rel_groupFrom {settings : Settings} {known : String → Bool} {lexemes lexemes' : List Lexeme}
    (h : List.Forall₂ (fun lexeme lexeme' => lexeme.kind = lexeme'.kind ∧
      upperCase lexeme.text = upperCase lexeme'.text) lexemes lexemes')
    {outer outer' : List (Bracket × List TokenTree)} (houter : List.Forall₂ (fun opened opened' =>
      opened.1 = opened'.1 ∧ List.Forall₂ EqAnyCase opened.2 opened'.2) outer outer')
    {level level' : List TokenTree} (hlevel : List.Forall₂ EqAnyCase level level') :
    Option.Rel (List.Forall₂ EqAnyCase)
      (groupFrom (.ofSettings .fortran settings) known outer level lexemes).toOption
      (groupFrom (.ofSettings .fortran settings) known outer' level' lexemes').toOption := by
  -- On the lexemes, with the groups that are open and the trees before them alike in both.
  induction h generalizing outer outer' level level' with
  | nil =>
    cases houter with
    | nil => exact .some hlevel
    | cons => exact .none
  | @cons lexeme lexeme' rest rest' hlexeme hrest ih =>
    obtain ⟨hkind, htext⟩ := hlexeme
    rw [groupFrom, groupFrom, hkind, Bracket.ofOpening?_of_upperCase htext,
      Bracket.ofClosing?_of_upperCase htext, TokenClass.ofLexeme_of_upperCase htext]
    -- By the kind of the lexeme: unrecognised, an opening bracket, a closing one, or a token.
    split
    · exact .none
    · split
      · refine ih ?_ .nil
        exact .cons ⟨rfl, hlevel⟩ houter
      -- A closing bracket closes in both the group that was opened last, or has a fault in both.
      · cases houter with
        | nil => exact .none
        | @cons opened opened' outer outer' hopened houter =>
          obtain ⟨opened, before⟩ := opened
          obtain ⟨opened', before'⟩ := opened'
          obtain ⟨rfl, hbefore⟩ := hopened
          dsimp only
          split
          · exact ih houter (List.rel_append hbefore (.cons (.group _ hlevel) .nil))
          · exact .none
      · exact ih houter (List.rel_append hlevel (.cons (.leaf _ htext) .nil))

/-- Sources of Fortran that are the same but for the case of letters are grouped into such trees, or
have a fault. -/
theorem rel_ofSource {source source' : String} (h : upperCase source = upperCase source')
    (scope : Scope) :
    Option.Rel (List.Forall₂ EqAnyCase) (ofSource .fortran scope source).toOption
      (ofSource .fortran scope source').toOption := by
  refine rel_groupFrom ?_ .nil .nil
  have hforms (source : String) :
      (Lexeme.scan (Comment.strip .fortran source)).map (fun lexeme =>
        (lexeme.kind, upperCase lexeme.text)) =
        Lexeme.forms (Comment.stripChars .fortran (upperCase source).toList) := by
    rw [toList_upperCase, Comment.stripChars_map, Lexeme.forms_map, Lexeme.forms, List.map_map,
      Lexeme.scan, Comment.strip, String.toList_ofList]
    rfl
  have hsame := (hforms source).trans ((congrArg _ (by rw [h])).trans (hforms source').symm)
  rw [← List.forall₂_eq_eq_eq, List.forall₂_map_left_iff, List.forall₂_map_right_iff] at hsame
  exact hsame.imp fun lexeme lexeme' => Prod.mk.inj

end TokenTree

end CommonDecl
