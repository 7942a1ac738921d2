import CommonDecl.Proofs.Grouping
import Mathlib.Data.List.Chain

/-!
# Where spaces stand in joined texts

A space in a text that is joined from tokens stands where two characters of words would meet, or
behind a comma.  `Continues` says this of a text character by character, with the brackets that are
open and without a word on where tokens end.  Joined tokens have it (`Nested.continues`), and a text
that has it is cut into tokens that join to it (`Continues.rejoins`), even where these are not the
tokens that it was joined from.
-/

namespace CommonDecl

open Lexeme Text

/-! ### Joining from the left -/

namespace Text

/-- A space stands between a text that ends in `p`, if in anything, and a token that starts with
`c`.  None stands before a closing bracket. -/
def spaced (p : Option Char) (c : Char) : Bool :=
  p.any (needsSpace · c) && !starts .closing c

/-- The space before a token. -/
def spaceBefore (p : Option Char) (token : String) : List Char :=
  if token.toList.head?.any (spaced p) then [' '] else []

/-- Tokens written behind a text that ends in `p`. -/
def joinAfter (p : Option Char) : List String → List Char
  | [] => []
  | token :: rest => spaceBefore p token ++ token.toList ++ joinAfter token.toList.getLast? rest

/-- The last character of tokens behind a text that ends in `p`. -/
def lastAfter (p : Option Char) : List String → Option Char
  | [] => p
  | token :: rest => lastAfter token.toList.getLast? rest

/-- Tokens are joined from the left, so the last token before the others is all that these depend
on. -/
theorem joinAfter_append (p : Option Char) (first second : List String) :
    joinAfter p (first ++ second) = joinAfter p first ++ joinAfter (lastAfter p first) second := by
  induction first generalizing p with
  | nil => rfl
  | cons token rest ih =>
    rw [List.cons_append, joinAfter, joinAfter, lastAfter, ih,
      List.append_assoc _ _ (joinAfter _ second)]

/-- The last character is that of the last token. -/
theorem lastAfter_append (p : Option Char) (first second : List String) :
    lastAfter p (first ++ second) = lastAfter (lastAfter p first) second := by
  induction first generalizing p with
  | nil => rfl
  | cons token rest ih => rw [List.cons_append, lastAfter, lastAfter, ih]

/-- Whether a space stands before a token depends on the first character of the token only. -/
theorem spaceBefore_ofList (p : Option Char) (c : Char) (rest : List Char) :
    spaceBefore p (String.ofList (c :: rest)) = if spaced p c then [' '] else [] := by
  rw [spaceBefore, String.toList_ofList]
  rfl

end Text

/-! ### Classes of characters -/

/-- A character of words, numbers and symbols. -/
def IsPlainChar (c : Char) : Prop :=
  continuesWord c = true ∨ isSymbol c = true

/-- Blanks, quotes and brackets. -/
def specialChars : List Char :=
  [' ', '\t', '\r', '\n', '\x0c', '\"', '\'', '(', '[', '\x7b', ')', ']', '\x7d']

/-- No character of words, numbers and symbols is a blank, a quote or a bracket. -/
theorem IsPlainChar.not_mem_specialChars {c : Char} (h : IsPlainChar c) : c ∉ specialChars := by
  have hspecial : specialChars.all (fun d => !continuesWord d && !isSymbol d) = true := by decide
  intro hc
  have hneither := List.all_eq_true.mp hspecial c hc
  rw [Bool.and_eq_true, Bool.not_eq_true', Bool.not_eq_true'] at hneither
  obtain ⟨hword, hsymbol⟩ := hneither
  rcases h with h | h
  · rw [hword] at h
    cases h
  · rw [hsymbol] at h
    cases h

theorem mem_specialChars_of_isGap {c : Char} (h : isGap c = true) : c ∈ specialChars := by
  simp only [isGap, Bool.or_eq_true, beq_iff_eq] at h
  rcases h with (((rfl | rfl) | rfl) | rfl) | rfl <;> decide

/-- Quoted literals start with a quote, and groups with a bracket. -/
theorem mem_specialChars_of_starts {kind : LexemeKind} {c : Char} (h : starts kind c = true)
    (hkind : kind = .literal ∨ kind = .opening ∨ kind = .closing) : c ∈ specialChars := by
  rcases hkind with rfl | rfl | rfl
  · simp only [starts, Bool.or_eq_true, decide_eq_true_eq] at h
    rcases h with rfl | rfl <;> decide
  · simp only [starts, Bool.or_eq_true, decide_eq_true_eq] at h
    rcases h with (rfl | rfl) | rfl <;> decide
  · simp only [starts, Bool.or_eq_true, decide_eq_true_eq] at h
    rcases h with (rfl | rfl) | rfl <;> decide

/-- A plain character is no blank. -/
theorem IsPlainChar.isGap_eq {c : Char} (h : IsPlainChar c) : isGap c = false := by
  rw [Bool.eq_false_iff]
  exact fun hgap => h.not_mem_specialChars (mem_specialChars_of_isGap hgap)

/-- Symbols are made of other characters than words, of any script. -/
theorem not_wordLike_of_isSymbol {c : Char} (h : isSymbol c = true) :
    continuesWord c = false ∧ isWordLike c = false := by
  have hall : "-+*/%<>=!&|^~?:;,.#".toList.all (fun d => !continuesWord d && !isWordLike d) =
      true := by
    decide
  have hneither := List.all_eq_true.mp hall c (List.contains_iff_mem.mp h)
  rwa [Bool.and_eq_true, Bool.not_eq_true', Bool.not_eq_true'] at hneither

/-- Of the letters of all scripts, a plain character is one of those that words are made of. -/
theorem IsPlainChar.continuesWord_of_isWordLike {c : Char} (h : IsPlainChar c)
    (hword : isWordLike c = true) : continuesWord c = true := by
  refine h.resolve_right fun hsymbol => ?_
  rw [(not_wordLike_of_isSymbol hsymbol).2] at hword
  cases hword

theorem isPlainChar_of_isWordlike {c : Char} (h : isWordlike c = true) : IsPlainChar c := by
  rw [isWordlike, Bool.or_eq_true, beq_iff_eq] at h
  rcases h with h | rfl
  · exact Or.inl h
  · exact Or.inr (by decide)

/-! ### Where characters meet -/

/-- The character may follow `p` without a space: none is needed, or both stand inside one word. -/
def Glued (p : Option Char) (c : Char) : Prop :=
  spaced p c = true → ∀ q ∈ p, continuesWord q = true ∧ continuesWord c = true

/-- Where no space is needed, characters may stand side by side. -/
theorem glued_of_not_spaced {p : Option Char} {c : Char} (h : spaced p c = false) : Glued p c := by
  intro hspaced
  rw [h] at hspaced
  cases hspaced

theorem glued_none (c : Char) : Glued none c :=
  glued_of_not_spaced rfl

/-- Inside a word or a number, characters stand side by side. -/
theorem glued_of_isWordlike {q c : Char} (hq : isWordlike q = true) (hc : isWordlike c = true) :
    Glued (some q) c := by
  rintro hspaced _ ⟨⟩
  simp only [spaced, Option.any_some, needsSpace, Bool.and_eq_true, Bool.or_eq_true,
    beq_iff_eq] at hspaced
  rcases hspaced.1 with ⟨hlike, hlike'⟩ | rfl
  · exact ⟨(isPlainChar_of_isWordlike hq).continuesWord_of_isWordLike hlike,
      (isPlainChar_of_isWordlike hc).continuesWord_of_isWordLike hlike'⟩
  · cases hq

/-- Behind a symbol other than a comma no space is needed. -/
theorem glued_of_isSymbol {q : Char} (hq : isSymbol q = true) (hcomma : q ≠ ',') (c : Char) :
    Glued (some q) c := by
  apply glued_of_not_spaced
  rw [spaced, Option.any_some, needsSpace, (not_wordLike_of_isSymbol hq).2, Bool.false_and,
    Bool.false_or, beq_false_of_ne hcomma, Bool.false_and]

/-- Plain characters that stand side by side. -/
structure IsRun (text : List Char) : Prop where
  isPlainChar : ∀ c ∈ text, IsPlainChar c
  glued : text.IsChain fun q c => Glued (some q) c

theorem isRun_of_isWordlike {text : List Char} (h : ∀ c ∈ text, isWordlike c = true) :
    IsRun text where
  isPlainChar c hc := isPlainChar_of_isWordlike (h c hc)
  glued := by
    refine List.Pairwise.isChain (List.pairwise_of_forall_mem_list ?_)
    exact fun q hq c hc => glued_of_isWordlike (h q hq) (h c hc)

theorem isRun_singleton {c : Char} (h : IsPlainChar c) : IsRun [c] :=
  ⟨by simpa using h, .singleton c⟩

/-! ### The shape of a lexeme -/

/-- The rest of a word goes up to the first character that is none of a word. -/
theorem continuesWord_wordTail (text : List Char) :
    (∀ c ∈ text.take (wordTail text), continuesWord c = true) ∧
      ∀ c ∈ (text.drop (wordTail text)).head?, continuesWord c = false := by
  obtain ⟨word, after, rfl, hword, hafter⟩ := exists_word_append text
  rw [wordTail_append hafter, wordTail_of_all hword, List.take_left, List.drop_left]
  exact ⟨hword, hafter⟩

/-- The rest of a number goes up to a character that is none of a word, over one point at most. -/
theorem isWordlike_numberTail (text : List Char) :
    (∀ c ∈ text.take (numberTail text), isWordlike c = true) ∧
      ∀ c ∈ (text.drop (numberTail text)).head?, continuesWord c = false := by
  obtain ⟨word, after, rfl, hword, hafter⟩ := exists_word_append text
  rw [numberTail_word_append hword hafter, List.take_length_add_append, List.drop_length_add_append]
  have hwordlike : ∀ c ∈ word, isWordlike c = true :=
    fun c hc => by rw [isWordlike, hword c hc, Bool.true_or]
  -- Either a point follows the digits, or the number ends with them.
  by_cases hpoint : after.head? = some '.'
  · -- A point continues the number, up to the next character that is none of a word.
    cases after with
    | nil => cases hpoint
    | cons c rest =>
      obtain rfl : c = '.' := by simpa using hpoint
      obtain ⟨htake, hdrop⟩ := continuesWord_wordTail rest
      rw [pointTail_point, List.take_succ_cons, List.drop_succ_cons]
      refine ⟨fun c hc => ?_, hdrop⟩
      rcases List.mem_append.mp hc with hc | hc
      · exact hwordlike c hc
      · rcases List.mem_cons.mp hc with rfl | hc
        · rfl
        · rw [isWordlike, htake c hc, Bool.true_or]
  · have hzero : pointTail after = 0 := by
      cases after with
      | nil => rfl
      | cons c rest => exact pointTail_of_ne (fun hc => hpoint (by rw [hc]; rfl)) rest
    rw [hzero, List.take_zero, List.append_nil, List.drop_zero]
    exact ⟨hwordlike, hafter⟩

/-- A symbol is made of characters of symbols, and a comma is a symbol of its own. -/
theorem isSymbol_symbolTail {c : Char} (h : isSymbol c = true) (rest : List Char) :
    ∀ d ∈ c :: rest.take (symbolTail c rest),
      isSymbol d = true ∧ (d = ',' → symbolTail c rest = 0) := by
  unfold symbolTail
  split
  · rename_i symbol hfind
    obtain ⟨-, hlong, hchars⟩ := forall_mem_longSymbols symbol (List.mem_of_find?_eq_some hfind)
    -- A symbol of several characters is one of the list; any other one is a single character.
    have hsome := List.find?_some hfind
    have hsymbol : c :: rest.take (symbol.length - 1) = symbol := by
      obtain ⟨after, happend⟩ := List.isPrefixOf_iff_prefix.mp hsome
      have htake := congrArg (List.take symbol.length) happend
      rw [List.take_left, show symbol.length = symbol.length - 1 + 1 by omega,
        List.take_succ_cons] at htake
      exact htake.symm
    rw [hsymbol]
    intro d hd
    rcases hchars with hpoint | hlink
    · rw [hpoint d hd]
      exact ⟨by decide, fun hcomma => absurd hcomma (by decide)⟩
    · have hall : [':', '-', '<', '>', '=', '!', '&', '|'].all (fun d =>
        isSymbol d && d != ',') = true := by
        decide
      have hlinkable := List.all_eq_true.mp hall d (List.contains_iff_mem.mp (hlink d hd))
      rw [Bool.and_eq_true, bne_iff_ne] at hlinkable
      exact ⟨hlinkable.1, fun h => absurd h hlinkable.2⟩
  · intro d hd
    obtain rfl : d = c := by simpa using hd
    exact ⟨h, fun _ => rfl⟩

/-- The characters of one symbol stand side by side without a space. -/
theorem isRun_symbolTail {c : Char} (h : isSymbol c = true) (rest : List Char) :
    IsRun (c :: rest.take (symbolTail c rest)) := by
  have hall := isSymbol_symbolTail h rest
  by_cases hzero : symbolTail c rest = 0
  · rw [hzero]
    exact isRun_singleton (Or.inr h)
  · refine ⟨fun d hd => Or.inr (hall d hd).1, ?_⟩
    refine List.Pairwise.isChain (List.pairwise_of_forall_mem_list ?_)
    exact fun q hq d _ => glued_of_isSymbol (hall q hq).1 (fun hcomma =>
      hzero ((hall q hq).2 hcomma)) d

/-- A text that starts with a plain character starts with a word, a number or a symbol, and the
lexeme goes as far as a word does. -/
theorem shape_of_isPlainChar {c : Char} (h : IsPlainChar c) (rest : List Char) :
    ((shape c rest).1 = .word ∨ (shape c rest).1 = .number ∨ (shape c rest).1 = .symbol) ∧
      IsRun (c :: rest.take (shape c rest).2) ∧
      ∀ q ∈ (c :: rest.take (shape c rest).2).getLast?, ∀ d ∈ (rest.drop (shape c rest).2).head?,
        ¬(continuesWord q = true ∧ continuesWord d = true) := by
  -- A letter or a low line starts a word, a digit a number, and what is left a symbol.
  by_cases hword : startsWord c = true
  · obtain ⟨htake, hdrop⟩ := continuesWord_wordTail rest
    have hshape : shape c rest = (.word, wordTail rest) := by rw [shape, if_pos hword]
    rw [hshape]
    refine ⟨Or.inl rfl, isRun_of_isWordlike ?_, fun _ _ d hd hcontra => ?_⟩
    · rintro d hd
      rcases List.mem_cons.mp hd with rfl | hd
      · exact isWordlike_of_startsWord hword
      · rw [isWordlike, htake d hd, Bool.true_or]
    · rw [hdrop d hd] at hcontra
      cases hcontra.2
  · by_cases hdigit : c.isDigit = true
    · obtain ⟨htake, hdrop⟩ := isWordlike_numberTail rest
      have hshape : shape c rest = (.number, numberTail rest) := by
        rw [shape, if_neg hword, if_pos hdigit]
      rw [hshape]
      refine ⟨Or.inr (Or.inl rfl), isRun_of_isWordlike ?_, fun _ _ d hd hcontra => ?_⟩
      · rintro d hd
        rcases List.mem_cons.mp hd with rfl | hd
        · exact isWordlike_of_isDigit hdigit
        · exact htake d hd
      · rw [hdrop d hd] at hcontra
        cases hcontra.2
    -- A plain character that starts neither a word nor a number is one of a symbol.
    · have hsymbol : isSymbol c = true := by
        refine h.resolve_left fun hcontinues => ?_
        simp only [continuesWord, Char.isAlphanum, Bool.or_eq_true] at hcontinues
        simp only [startsWord, Bool.or_eq_true] at hword
        rcases hcontinues with (halpha | hdigit') | hline
        · exact hword (Or.inl halpha)
        · exact hdigit hdigit'
        · exact hword (Or.inr hline)
      have hnot := h.not_mem_specialChars
      simp only [specialChars, List.mem_cons, List.not_mem_nil, or_false, not_or] at hnot
      have hshape : shape c rest = (.symbol, symbolTail c rest) := by
        simp only [shape, hword, hdigit, hnot, hsymbol, Bool.false_eq_true, decide_false,
          Bool.or_self, ↓reduceIte]
      rw [hshape]
      refine ⟨Or.inr (Or.inr rfl), isRun_symbolTail hsymbol rest, fun q hq d _ hcontra => ?_⟩
      have hlast := (isSymbol_symbolTail hsymbol rest q (List.mem_of_getLast? hq)).1
      rw [(not_wordLike_of_isSymbol hlast).1] at hcontra
      cases hcontra.1

/-! ### Brackets -/

namespace Bracket

/-- The character that opens a group. -/
def openingChar : Bracket → Char
  | parenthesis => '('
  | square => '['
  | brace => '\x7b'

/-- The character that closes a group. -/
def closingChar : Bracket → Char
  | parenthesis => ')'
  | square => ']'
  | brace => '\x7d'

theorem opening_eq (bracket : Bracket) : bracket.opening = String.ofList [bracket.openingChar] := by
  cases bracket <;> rfl

theorem closing_eq (bracket : Bracket) : bracket.closing = String.ofList [bracket.closingChar] := by
  cases bracket <;> rfl

/-- Brackets are no characters of words, numbers and symbols. -/
theorem mem_specialChars (bracket : Bracket) :
    bracket.openingChar ∈ specialChars ∧ bracket.closingChar ∈ specialChars := by
  cases bracket <;> decide

theorem isGap_openingChar (bracket : Bracket) : isGap bracket.openingChar = false := by
  cases bracket <;> rfl

/-- No space stands before a closing bracket. -/
theorem not_spaced_closingChar (bracket : Bracket) (p : Option Char) :
    spaced p bracket.closingChar = false := by
  have hclosing : starts .closing bracket.closingChar = true := by cases bracket <;> rfl
  rw [spaced, hclosing, Bool.not_true, Bool.and_false]

end Bracket

/-! ### Texts character by character -/

/-- The text may follow `p`, where the brackets `stack` are open, the innermost one first, and all
of them are closed in the text: each of its characters outside of quoted literals may follow the one
before, and each space is needed. -/
inductive Continues : List Bracket → Option Char → List Char → Prop where
  | nil {p : Option Char} : Continues [] p []
  | space {stack : List Bracket} {q c : Char} {rest : List Char}
    (hspaced : spaced (some q) c = true)
    (hgap : isGap c = false) (hrest : Continues stack none (c :: rest)) :
    Continues stack (some q) (' ' :: c :: rest)
  | plain {stack : List Bracket} {p : Option Char} {c : Char} {rest : List Char}
    (hc : IsPlainChar c)
    (hglued : Glued p c) (hrest : Continues stack (some c) rest) : Continues stack p (c :: rest)
  | literal {stack : List Bracket} {p : Option Char} {c : Char} {body rest : List Char}
    (hliteral : IsLexeme .literal (c :: body)) (hglued : Glued p c)
    (hrest : Continues stack (c :: body).getLast? rest) : Continues stack p (c :: (body ++ rest))
  | opening {stack : List Bracket} {p : Option Char} {bracket : Bracket} {rest : List Char}
    (hglued : Glued p bracket.openingChar)
    (hrest : Continues (bracket :: stack) (some bracket.openingChar) rest) :
    Continues stack p (bracket.openingChar :: rest)
  | closing {stack : List Bracket} {p : Option Char} {bracket : Bracket} {rest : List Char}
    (hrest : Continues stack (some bracket.closingChar) rest) :
    Continues (bracket :: stack) p (bracket.closingChar :: rest)

/-- A text that is a lexeme and no bracket. -/
def IsToken (text : String) : Prop :=
  ∃ kind, IsLexeme kind text.toList ∧ kind ≠ .unrecognised ∧ kind ≠ .opening ∧ kind ≠ .closing

/-- The tokens close all brackets that are open, the innermost one first, and those that they open.
-/
inductive Nested : List Bracket → List String → Prop where
  | nil : Nested [] []
  | token {stack : List Bracket} {text : String} {rest : List String} (htoken : IsToken text)
    (hrest : Nested stack rest) : Nested stack (text :: rest)
  | opening {stack : List Bracket} {rest : List String} (bracket : Bracket)
    (hrest : Nested (bracket :: stack) rest) : Nested stack (bracket.opening :: rest)
  | closing {stack : List Bracket} {rest : List String} (bracket : Bracket)
    (hrest : Nested stack rest) : Nested (bracket :: stack) (bracket.closing :: rest)

variable {stack : List Bracket} {p : Option Char}

/-! ### Joined tokens -/

/-- Where a text may stand behind `p` directly, it may stand behind a space that is needed. -/
theorem Continues.of_spaceBefore {c : Char} {rest : List Char} (hgap : isGap c = false)
    (h : ∀ p, Glued p c → Continues stack p (c :: rest)) :
    Continues stack p ((if spaced p c then [' '] else []) ++ c :: rest) := by
  by_cases hspaced : spaced p c = true
  · rw [if_pos hspaced]
    cases p with
    | none => cases hspaced
    | some q => exact .space hspaced hgap (h none (glued_none c))
  · rw [if_neg hspaced]
    exact h p (glued_of_not_spaced (by simpa using hspaced))

/-- Plain characters side by side stand behind `p` if the first one does. -/
theorem Continues.run {text rest : List Char} {c : Char} (hrun : IsRun (c :: text))
    (hglued : Glued p c) (hrest : Continues stack (c :: text).getLast? rest) :
    Continues stack p (c :: (text ++ rest)) := by
  induction text generalizing p c with
  | nil => exact .plain (hrun.isPlainChar c List.mem_cons_self) hglued hrest
  | cons d text ih =>
    refine .plain (hrun.isPlainChar c List.mem_cons_self) hglued ?_
    have htail : IsRun (d :: text) :=
      ⟨fun e he => hrun.isPlainChar e (List.mem_cons_of_mem _ he), hrun.glued.tail⟩
    refine ih htail ?_ ?_
    · exact hrun.glued.rel
    · rwa [List.getLast?_cons_cons] at hrest

/-- A token starts with a character that is no blank and no closing bracket. -/
theorem exists_cons_of_isToken {text : String} (h : IsToken text) :
    ∃ c rest, text.toList = c :: rest ∧ isGap c = false ∧ starts .closing c = false := by
  obtain ⟨kind, hlexeme, hkind, -, hclosing⟩ := h
  -- The first character decides the kind of the lexeme, so a blank or a bracket contradicts it.
  cases htext : text.toList with
  | nil =>
    rw [htext] at hlexeme
    exact hlexeme.elim
  | cons c rest =>
    rw [htext] at hlexeme
    have hshape : shape c rest = (kind, rest.length) := hlexeme
    refine ⟨c, rest, rfl, ?_, ?_⟩
    · rw [Bool.eq_false_iff]
      intro hgap
      have hnot := shape_of_isGap hgap rest
      rw [hshape] at hnot
      exact hkind hnot
    · rw [Bool.eq_false_iff]
      intro hstarts
      apply hclosing
      have hclose : (shape c rest).1 = .closing := by
        simp only [starts, Bool.or_eq_true, decide_eq_true_eq] at hstarts
        rcases hstarts with (rfl | rfl) | rfl <;> rfl
      rwa [hshape] at hclose

/-- A token is a quoted literal, or plain characters side by side. -/
theorem literal_or_isRun_of_isToken {c : Char} {body : List Char}
    (h : IsToken (String.ofList (c :: body))) :
    IsLexeme .literal (c :: body) ∨ IsRun (c :: body) := by
  obtain ⟨kind, hlexeme, hkind, hopening, hclosing⟩ := h
  rw [String.toList_ofList] at hlexeme
  have hshape : shape c body = (kind, body.length) := hlexeme
  have hstarts := starts_of_isLexeme hlexeme
  by_cases hliteral : kind = .literal
  · subst hliteral
    exact Or.inl hlexeme
  -- By the kind of the token; only words, numbers and symbols are left.
  · have hplain : IsPlainChar c := by
      cases kind with
      | word => exact isPlainChar_of_isWordlike (isWordlike_of_startsWord hstarts)
      | number => exact isPlainChar_of_isWordlike (isWordlike_of_isDigit hstarts)
      | symbol => exact Or.inr hstarts
      | literal => exact absurd rfl hliteral
      | opening => exact absurd rfl hopening
      | closing => exact absurd rfl hclosing
      | unrecognised => exact absurd rfl hkind
    have hrun := (shape_of_isPlainChar hplain body).2.1
    rw [hshape, List.take_length] at hrun
    exact Or.inr hrun

/-- A token stands behind `p` if its first character does. -/
theorem Continues.token {c : Char} {body rest : List Char} (h : IsToken (String.ofList (c :: body)))
    (hglued : Glued p c) (hrest : Continues stack (c :: body).getLast? rest) :
    Continues stack p (c :: (body ++ rest)) := by
  rcases literal_or_isRun_of_isToken h with hliteral | hrun
  · exact .literal hliteral hglued hrest
  · exact .run hrun hglued hrest

/-- Tokens that are written one after the other stand behind anything. -/
theorem Nested.continues {tokens : List String} (h : Nested stack tokens) :
    Continues stack p (joinAfter p tokens) := by
  -- On how the tokens are nested: a token is one lexeme, and a bracket one character.
  induction h generalizing p with
  | nil => exact .nil
  | @token stack text rest htoken hrest ih =>
    obtain ⟨c, body, htext, hgap, -⟩ := exists_cons_of_isToken htoken
    obtain rfl : text = String.ofList (c :: body) := by rw [← htext, String.ofList_toList]
    rw [joinAfter, spaceBefore_ofList, htext, List.append_assoc]
    exact .of_spaceBefore hgap fun p hglued => .token htoken hglued ih
  | @opening stack rest bracket hrest ih =>
    rw [joinAfter, bracket.opening_eq, spaceBefore_ofList, String.toList_ofList, List.append_assoc]
    exact .of_spaceBefore bracket.isGap_openingChar fun p hglued => .opening hglued ih
  | @closing stack rest bracket hrest ih =>
    rw [joinAfter, bracket.closing_eq, spaceBefore_ofList, String.toList_ofList,
      bracket.not_spaced_closingChar]
    exact .closing ih

/-! ### Cutting a text into tokens -/

/-- What a text behind `p` is cut into joins to the text. -/
structure Rejoins (stack : List Bracket) (p : Option Char) (text : List Char) : Prop where
  recognised : ∀ form ∈ forms text, form.1 ≠ .unrecognised
  nested : Nested stack ((forms text).map Prod.snd)
  joinAfter_eq : joinAfter p ((forms text).map Prod.snd) = text

/-- Behind a plain character, further plain characters are passed over one by one. -/
theorem Continues.drop {c : Char} {rest : List Char} {n : Nat} (h : Continues stack (some c) rest)
    (hplain : ∀ d ∈ rest.take n, IsPlainChar d) :
    Continues stack (c :: rest.take n).getLast? (rest.drop n) := by
  induction n generalizing c rest with
  | zero =>
    rw [List.take_zero, List.drop_zero]
    exact h
  | succ n ih =>
    cases rest with
    | nil => exact h
    | cons d rest =>
      rw [List.take_succ_cons] at hplain ⊢
      rw [List.drop_succ_cons, List.getLast?_cons_cons]
      -- Of all ways to continue, only that of a plain character starts with one.
      have hd := (hplain d List.mem_cons_self).not_mem_specialChars
      have hrest : Continues stack (some d) rest := by
        cases h with
        | space => exact absurd (by decide) hd
        | plain _ _ hrest => exact hrest
        | literal hliteral =>
          exact absurd (mem_specialChars_of_starts (starts_of_isLexeme hliteral) (Or.inl rfl)) hd
        | opening => exact absurd (Bracket.mem_specialChars _).1 hd
        | closing => exact absurd (Bracket.mem_specialChars _).2 hd
      exact ih hrest fun e he => hplain e (List.mem_cons_of_mem _ he)

/-- A quoted literal ends in the quote that it starts with. -/
theorem getLast?_of_literal {c : Char} {body : List Char} (h : IsLexeme .literal (c :: body)) :
    (c :: body).getLast? = some c ∧ isWordlike c = false ∧ isLinkable c = false := by
  have hstarts := starts_of_isLexeme h
  have hliteral : literalTail c body = (true, body.length) := tailOf_of_isLexeme h nofun
  obtain ⟨taken, after, hbody, htaken, hlast, -⟩ := exists_of_literalTail_eq hliteral
  have hafter : after = [] := by
    have hcount := congrArg List.length hbody
    rw [List.length_append] at hcount
    exact List.length_eq_zero_iff.mp (by omega)
  rw [hafter, List.append_nil] at hbody
  subst hbody
  refine ⟨by rw [List.getLast?_cons, hlast]; rfl, ?_⟩
  simp only [starts, Bool.or_eq_true, decide_eq_true_eq] at hstarts
  rcases hstarts with rfl | rfl <;> decide

/-- A quoted literal is the same lexeme in front of any text. -/
theorem shape_of_literal {c : Char} {body : List Char} (h : IsLexeme .literal (c :: body))
    (rest : List Char) : isGap c = false ∧ shape c (body ++ rest) = (.literal, body.length) := by
  obtain ⟨hlast, hwordlike, hlinkable⟩ := getLast?_of_literal h
  have hbody : shape c body = (.literal, body.length) := h
  constructor
  · rw [Bool.eq_false_iff]
    intro hgap
    have hnot := shape_of_isGap hgap body
    rw [hbody] at hnot
    cases hnot
  · rw [shape_append, hbody]
    · rw [hbody]
      exact nofun
    · intro q hq d _
      rw [hlast] at hq
      cases hq
      rw [joins, hwordlike, hlinkable, Bool.false_and, Bool.false_and, Bool.or_self]

/-- The lexeme that starts with a plain character is a token. -/
theorem isToken_of_isPlainChar {c : Char} (h : IsPlainChar c) (rest : List Char) :
    (shape c rest).1 ≠ .unrecognised ∧
      IsToken (String.ofList (c :: rest.take (shape c rest).2)) := by
  obtain ⟨hkind, -, -⟩ := shape_of_isPlainChar h rest
  have hrecognised : (shape c rest).1 ≠ .unrecognised := by
    rcases hkind with h | h | h <;> rw [h] <;> decide
  refine ⟨hrecognised, (shape c rest).1, ?_, hrecognised, ?_, ?_⟩
  · rw [String.toList_ofList]
    show shape c (rest.take (shape c rest).2) = _
    rw [shape_take hrecognised, List.length_take_of_le (shape_le hrecognised)]
  · rcases hkind with h | h | h <;> rw [h] <;> decide
  · rcases hkind with h | h | h <;> rw [h] <;> decide

/-- A text that starts with `c` is cut after `n` further characters, behind a token or a bracket
that leads from the open brackets `stack` to `stack'`. -/
structure FirstLexeme (stack stack' : List Bracket) (c : Char) (rest : List Char) (n : Nat) :
    Prop where
  isGap_eq : isGap c = false
  recognised : (shape c rest).1 ≠ .unrecognised
  length_eq : (shape c rest).2 = n
  nested : ∀ tokens, Nested stack' tokens →
    Nested stack (String.ofList (c :: rest.take n) :: tokens)

namespace FirstLexeme

variable {stack' : List Bracket} {c : Char} {rest : List Char} {n : Nat}

theorem forms_eq (h : FirstLexeme stack stack' c rest n) :
    forms (c :: rest) =
      ((shape c rest).1, String.ofList (c :: rest.take n)) :: forms (rest.drop n) := by
  rw [forms_cons h.isGap_eq, h.length_eq]

/-- A word, a number or a symbol. -/
theorem plain (hc : IsPlainChar c) (rest : List Char) :
    FirstLexeme stack stack c rest (shape c rest).2 := by
  obtain ⟨hrecognised, htoken⟩ := isToken_of_isPlainChar hc rest
  exact ⟨hc.isGap_eq, hrecognised, rfl, fun tokens => .token htoken⟩

/-- A quoted literal leaves the open brackets as they are. -/
theorem literal {body : List Char} (h : IsLexeme .literal (c :: body)) (rest : List Char) :
    FirstLexeme stack stack c (body ++ rest) body.length := by
  obtain ⟨hgap, hshape⟩ := shape_of_literal h rest
  refine ⟨hgap, by rw [hshape]; exact nofun, by rw [hshape], fun tokens => ?_⟩
  refine .token ⟨.literal, ?_, nofun, nofun, nofun⟩
  rwa [List.take_left, String.toList_ofList]

/-- An opening bracket adds itself to those that are open. -/
theorem opening (bracket : Bracket) (rest : List Char) :
    FirstLexeme stack (bracket :: stack) bracket.openingChar rest 0 := by
  have hshape : shape bracket.openingChar rest = (.opening, 0) := by cases bracket <;> rfl
  refine ⟨bracket.isGap_openingChar, by rw [hshape]; exact nofun, by rw [hshape],
    fun tokens htokens => ?_⟩
  rw [List.take_zero, ← bracket.opening_eq]
  exact .opening bracket htokens

/-- A closing bracket closes the innermost one that is open. -/
theorem closing (bracket : Bracket) (rest : List Char) :
    FirstLexeme (bracket :: stack) stack bracket.closingChar rest 0 := by
  have hshape : shape bracket.closingChar rest = (.closing, 0) := by cases bracket <;> rfl
  have hgap : isGap bracket.closingChar = false := by cases bracket <;> rfl
  refine ⟨hgap, by rw [hshape]; exact nofun, by rw [hshape], fun tokens htokens => ?_⟩
  rw [List.take_zero, ← bracket.closing_eq]
  exact .closing bracket htokens

end FirstLexeme

/-- One lexeme of a text, with what the rest of the text is cut into. -/
theorem Rejoins.cons {stack' : List Bracket} {c : Char} {rest : List Char} {n : Nat}
    (hfirst : FirstLexeme stack stack' c rest n) (hspaced : spaced p c = false)
    (hrest : Rejoins stack' (c :: rest.take n).getLast? (rest.drop n)) :
    Rejoins stack p (c :: rest) := by
  have hforms := hfirst.forms_eq
  refine ⟨?_, ?_, ?_⟩
  · rw [hforms, List.forall_mem_cons]
    exact ⟨hfirst.recognised, hrest.recognised⟩
  · rw [hforms, List.map_cons]
    exact hfirst.nested _ hrest.nested
  · rw [hforms, List.map_cons, joinAfter, spaceBefore_ofList, String.toList_ofList, hspaced,
      hrest.joinAfter_eq]
    show c :: (rest.take n ++ rest.drop n) = c :: rest
    rw [List.take_append_drop]

/-- A word goes on from `p` into the text. -/
def GoesOn (p : Option Char) (text : List Char) : Prop :=
  ∃ q ∈ p, ∃ c ∈ text.head?, continuesWord q = true ∧ continuesWord c = true

/-- No word goes on from a character that is none of a word. -/
theorem not_goesOn_of_left {q : Char} (h : continuesWord q = false) (text : List Char) :
    ¬ GoesOn (some q) text := by
  rintro ⟨_, ⟨⟩, c, -, hq, -⟩
  rw [h] at hq
  cases hq

/-- Characters that may stand side by side need no space, unless they are inside one word. -/
theorem not_spaced_of_glued {c : Char} {rest : List Char} (h : Glued p c)
    (happart : ¬ GoesOn p (c :: rest)) :
    spaced p c = false := by
  rw [Bool.eq_false_iff]
  intro hspaced
  cases p with
  | none => cases hspaced
  | some q => exact happart ⟨q, rfl, c, rfl, h hspaced q rfl⟩

/-- A text that may follow `p` is cut into tokens that join to it, unless a word goes on from `p`
into it. -/
theorem Continues.rejoins {text : List Char} (h : Continues stack p text)
    (happart : ¬ GoesOn p text) :
    Rejoins stack p text := by
  -- The induction is on the text and not on how it continues, as a lexeme may take in several
  -- characters.
  induction hlength : text.length using Nat.strong_induction_on generalizing stack p text with
  | _ n ih =>
    subst hlength
    cases h with
    | nil =>
      refine ⟨?_, ?_, ?_⟩
      · simp
      · rw [forms_nil]
        exact .nil
      · rw [forms_nil]
        rfl
    -- The space is needed by what follows, so it is the one that is put there when the tokens are
    -- joined.
    | @space _ q c rest hspaced hgap hrest =>
      have happart' : ¬ GoesOn none (c :: rest) := by
        rintro ⟨_, ⟨⟩, _⟩
      obtain ⟨hrecognised, hnested, hjoin⟩ := ih _ (by simp) hrest happart' rfl
      have hforms : forms (' ' :: c :: rest) = forms (c :: rest) := forms_of_isGap rfl _
      refine ⟨by rwa [hforms], by rwa [hforms], ?_⟩
      rw [hforms]
      rw [forms_cons hgap, List.map_cons, joinAfter, spaceBefore_ofList] at hjoin ⊢
      rw [if_pos hspaced]
      exact congrArg (List.cons ' ') hjoin
    -- The lexeme may take in more plain characters, after which the text still continues.
    | @plain _ _ c rest hc hglued hrest =>
      obtain ⟨-, hrun, hlast⟩ := shape_of_isPlainChar hc rest
      refine .cons (.plain hc rest) (not_spaced_of_glued hglued happart) (ih _ ?_ ?_ ?_ rfl)
      · rw [List.length_drop, List.length_cons]
        omega
      · exact hrest.drop fun d hd => hrun.isPlainChar d (List.mem_cons_of_mem _ hd)
      · rintro ⟨q, hq, d, hd, hcontra⟩
        exact hlast q hq d hd hcontra
    -- A literal is one lexeme whatever follows, and no word goes on from its quote.
    | @literal _ _ c body rest hliteral hglued hrest =>
      refine .cons (.literal hliteral rest) (not_spaced_of_glued hglued happart) ?_
      rw [List.take_left, List.drop_left]
      refine ih _ ?_ hrest ?_ rfl
      · rw [List.length_cons, List.length_append]
        omega
      · obtain ⟨hlast, hwordlike, -⟩ := getLast?_of_literal hliteral
        rw [hlast]
        exact not_goesOn_of_left (continuesWord_eq_false hwordlike) rest
    | @opening _ _ bracket rest hglued hrest =>
      have hcontinues : continuesWord bracket.openingChar = false := by cases bracket <;> rfl
      exact .cons (.opening bracket rest) (not_spaced_of_glued hglued happart)
        (ih _ (Nat.lt_succ_self _) hrest (not_goesOn_of_left hcontinues rest) rfl)
    | @closing _ _ bracket rest hrest =>
      have hcontinues : continuesWord bracket.closingChar = false := by cases bracket <;> rfl
      exact .cons (.closing bracket rest) (bracket.not_spaced_closingChar p)
        (ih _ (Nat.lt_succ_self _) hrest (not_goesOn_of_left hcontinues rest) rfl)

end CommonDecl
