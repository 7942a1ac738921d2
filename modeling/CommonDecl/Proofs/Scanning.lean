import CommonDecl.Proofs.Lexing
import Mathlib.Computability.Language

/-!
# The patterns of lexemes

Each kind of lexeme has a pattern, a regular language of its own (`pattern`), and a scan is lossless
and greedy: every character of the text is in one lexeme or is a blank between two, and each lexeme
is the longest text of any pattern that stands at its place (`isScan_scan`).

`shape` decides by the first character and counts the further ones, so the proof is in two halves: a
text of a pattern is one lexeme (`mem_pattern_iff`), and a lexeme is no shorter where more text
follows it (`shape_of_begins`).
-/

namespace CommonDecl.Lexeme

open scoped Computability

/-! ### Classes of characters

The patterns are made of classes of characters, which are spelled out here: `[ \t\r\n\f]` for
blanks, `[A-Za-z_]` and `[A-Za-z0-9_]` for words, `[0-9]` for digits, and the symbols one by one. -/

/-- Blanks are the space, the tab, the carriage return, the line feed and the form feed. -/
theorem isGap_iff {c : Char} :
    isGap c = true ↔ c = ' ' ∨ c = '\t' ∨ c = '\r' ∨ c = '\n' ∨ c = '\x0c' := by
  simp only [isGap, Bool.or_eq_true, beq_iff_eq, or_assoc]

/-- A word starts with a letter of ASCII or with the low line. -/
theorem startsWord_iff {c : Char} :
    startsWord c = true ↔ ('A' ≤ c ∧ c ≤ 'Z') ∨ ('a' ≤ c ∧ c ≤ 'z') ∨ c = '_' := by
  rw [startsWord, Bool.or_eq_true, beq_iff_eq, isAlpha_iff, or_assoc]
  rfl

/-- The digits are those of ASCII. -/
theorem isDigit_iff_le {c : Char} : c.isDigit = true ↔ '0' ≤ c ∧ c ≤ '9' :=
  isDigit_iff

/-- A word goes on with digits as well. -/
theorem continuesWord_iff {c : Char} :
    continuesWord c = true ↔ startsWord c = true ∨ ('0' ≤ c ∧ c ≤ '9') := by
  rw [← isDigit_iff_le, continuesWord, startsWord, Char.isAlphanum, ← Bool.or_eq_true,
    Bool.or_right_comm]

/-- The characters that are symbols of their own. -/
theorem isSymbol_iff {c : Char} :
    isSymbol c = true ↔ c ∈ ['-', '+', '*', '/', '%', '<', '>', '=', '!', '&', '|', '^', '~', '?',
      ':', ';', ',', '.', '#'] := by
  rw [isSymbol, List.contains_iff_mem]
  rfl

/-- The symbols of several characters. -/
theorem mem_longSymbols_iff {text : List Char} :
    text ∈ longSymbols ↔ String.ofList text ∈ ["::", "...", "->", "<<", ">>", "<=", ">=", "==",
      "!=", "&&", "||"] := by
  simp [longSymbols, String.ext_iff]

/-! ### Patterns -/

/-- The texts of one character of a class. -/
def one (p : Char → Bool) : Language Char :=
  {text | ∃ c, p c = true ∧ text = [c]}

/-- The texts of a list. -/
def anyOf (texts : List (List Char)) : Language Char :=
  {text | text ∈ texts}

/-- A character inside a literal that is neither its quote nor a backslash, or a backslash and the
character after it, which may be either but no line feed. -/
def literalItem (quote : Char) : Language Char :=
  one (fun c => c != quote && c != '\\') + one (· == '\\') * one (· != '\n')

/-- A literal in these quotes. -/
def quoted (quote : Char) : Language Char :=
  one (· == quote) * (literalItem quote)∗ * one (· == quote)

/-- The texts that are one lexeme of a kind. -/
def pattern : LexemeKind → Language Char
  | .word => one startsWord * (one continuesWord)∗
  | .number => one Char.isDigit * (one continuesWord)∗ * (1 + one (· == '.') * (one continuesWord)∗)
  | .literal => quoted '\"' + quoted '\''
  | .opening => one ['(', '[', '\x7b'].contains
  | .closing => one [')', ']', '\x7d'].contains
  | .symbol => anyOf longSymbols + one isSymbol
  | .unrecognised => 0

section

variable {p : Char → Bool} {quote c first : Char} {kind : LexemeKind}
  {text word inner rest more : List Char}

theorem mem_one_iff : text ∈ one p ↔ ∃ c, p c = true ∧ text = [c] :=
  Iff.rfl

theorem singleton_mem_one : [c] ∈ one p ↔ p c = true := by
  rw [mem_one_iff]
  simp

/-- A text of a class and a language is one character of the class and a text of the language. -/
theorem mem_one_mul {language : Language Char} :
    text ∈ one p * language ↔ ∃ c rest, text = c :: rest ∧ p c = true ∧ rest ∈ language := by
  rw [Language.mem_mul]
  constructor
  · rintro ⟨_, ⟨c, hc, rfl⟩, rest, hrest, rfl⟩
    exact ⟨c, rest, rfl, hc, hrest⟩
  · rintro ⟨c, rest, rfl, hc, hrest⟩
    exact ⟨[c], singleton_mem_one.mpr hc, rest, hrest, rfl⟩

/-- A repeated class of characters is a text of such characters. -/
theorem mem_kstar_one : text ∈ (one p)∗ ↔ ∀ c ∈ text, p c = true := by
  constructor
  · intro h
    obtain ⟨parts, rfl, hparts⟩ := Language.mem_kstar.mp h
    intro c hc
    obtain ⟨part, hpart, hc⟩ := List.mem_flatten.mp hc
    obtain ⟨d, hd, rfl⟩ := hparts part hpart
    rwa [List.mem_singleton.mp hc]
  · intro h
    refine Language.mem_kstar.mpr ⟨text.map fun c => [c], ?_, ?_⟩
    · rw [← List.flatMap_def, List.flatMap_singleton']
    · intro part hpart
      obtain ⟨c, hc, rfl⟩ := List.mem_map.mp hpart
      exact singleton_mem_one.mpr (h c hc)

/-! ### Each pattern is what `shape` looks for -/

/-- A word is a character that starts words, and characters that continue them. -/
theorem mem_pattern_word : text ∈ pattern .word ↔
    ∃ c rest, text = c :: rest ∧ startsWord c = true ∧ ∀ d ∈ rest, continuesWord d = true := by
  simp only [pattern, mem_one_mul, mem_kstar_one]

/-- The further characters are all of a text exactly where they are those of a word. -/
theorem wordTail_eq_length_iff :
    wordTail text = text.length ↔ ∀ c ∈ text, continuesWord c = true := by
  constructor
  · intro h
    rw [← List.takeWhile_eq_self_iff]
    exact (List.takeWhile_prefix _).eq_of_length h
  · exact wordTail_of_all

/-- A number goes on to the end of a text of word characters, over one point at most. -/
theorem numberTail_eq_length_iff : numberTail text = text.length ↔
    ∃ whole part, text = whole ++ part ∧ (∀ c ∈ whole, continuesWord c = true) ∧
      (part = [] ∨ ∃ rest, part = '.' :: rest ∧ ∀ c ∈ rest, continuesWord c = true) := by
  -- The count stops at the end of the word, or goes on behind the point.
  constructor
  · intro h
    obtain ⟨whole, part, rfl, hwhole, hpart⟩ := exists_word_append text
    rw [numberTail_word_append hwhole hpart, List.length_append] at h
    refine ⟨whole, part, rfl, hwhole, ?_⟩
    cases part with
    | nil => exact Or.inl rfl
    | cons c rest =>
      have hlength : pointTail (c :: rest) = rest.length + 1 := by
        rw [List.length_cons] at h
        omega
      by_cases hc : c = '.'
      · subst hc
        rw [pointTail_point] at hlength
        exact Or.inr ⟨rest, rfl, wordTail_eq_length_iff.mp (Nat.succ.inj hlength)⟩
      · rw [pointTail_of_ne hc] at hlength
        omega
  · rintro ⟨whole, part, rfl, hwhole, rfl | ⟨rest, rfl, hrest⟩⟩
    · rw [numberTail_word_append hwhole (by simp)]
      simp [pointTail]
    · have hpoint : ∀ c ∈ ('.' :: rest).head?, continuesWord c = false := by
        simp only [List.head?_cons, Option.mem_some_iff, forall_eq']
        decide
      rw [numberTail_word_append hwhole hpoint, pointTail_point, wordTail_of_all hrest]
      simp

/-- A number is a digit and what continues it. -/
theorem mem_pattern_number : text ∈ pattern .number ↔
    ∃ c rest, text = c :: rest ∧ c.isDigit = true ∧ numberTail rest = rest.length := by
  have hpart (part : List Char) :
      part ∈ (1 + one (· == '.') * (one continuesWord)∗ : Language Char) ↔
      part = [] ∨ ∃ rest, part = '.' :: rest ∧ ∀ c ∈ rest, continuesWord c = true := by
    rw [Language.mem_add, Language.mem_one, mem_one_mul]
    simp [mem_kstar_one]
  simp only [pattern, mul_assoc, mem_one_mul, numberTail_eq_length_iff]
  simp only [Language.mem_mul, mem_kstar_one, hpart]
  constructor
  · rintro ⟨c, rest, rfl, hc, whole, hwhole, part, hpart, rfl⟩
    exact ⟨c, _, rfl, hc, whole, part, rfl, hwhole, hpart⟩
  · rintro ⟨c, rest, rfl, hc, whole, part, rfl, hwhole, hpart⟩
    exact ⟨c, _, rfl, hc, whole, hwhole, part, hpart, rfl⟩

/-- A literal goes on behind each item that is inside of it. -/
theorem literalTail_item_append (h : word ∈ literalItem quote) (rest : List Char) :
    literalTail quote (word ++ rest) =
      ((literalTail quote rest).1, (literalTail quote rest).2 + word.length) := by
  rw [literalItem, Language.mem_add, mem_one_mul] at h
  rcases h with ⟨c, hc, rfl⟩ | ⟨c, _, rfl, hc, d, hd, rfl⟩
  · simp only [Bool.and_eq_true, bne_iff_ne] at hc
    rw [List.singleton_append, literalTail_cons hc.2, if_neg hc.1]
    rfl
  · simp only [beq_iff_eq, bne_iff_ne] at hc hd
    subst hc
    show literalTail quote ('\\' :: d :: rest) = _
    rw [literalTail, if_neg hd]
    rfl

/-- A literal is closed by its quote behind any items. -/
theorem literalTail_of_mem (h : word ∈ (literalItem quote)∗) (hquote : quote ≠ '\\')
    (rest : List Char) :
    literalTail quote (word ++ quote :: rest) = (true, word.length + 1) := by
  obtain ⟨items, rfl, hitems⟩ := Language.mem_kstar.mp h
  clear h
  induction items with
  | nil => rw [List.flatten_nil, List.nil_append, literalTail_cons hquote, if_pos rfl,
    List.length_nil]
  | cons item items ih =>
    rw [List.forall_mem_cons] at hitems
    rw [List.flatten_cons, List.append_assoc, literalTail_item_append hitems.1, ih hitems.2,
      List.length_append]
    congr 1
    omega

/-- What is in front of the quote that closes a literal is items. -/
theorem exists_mem_of_literalTail :
    ∀ {n : Nat}, literalTail quote text = (true, n) →
      ∃ word rest, text = word ++ quote :: rest ∧ word ∈ (literalItem quote)∗ ∧
        n = word.length + 1 := by
  have hcons {item word : List Char} (hitem : item ∈ literalItem quote) (hword : word ∈
    (literalItem quote)∗) :
      item ++ word ∈ (literalItem quote)∗ :=
    (mul_kstar_le_kstar : literalItem quote * (literalItem quote)∗ ≤ _)
      (Language.append_mem_mul hitem hword)
  -- Along the search for the quote: each step passes one item of the literal.
  induction text using literalTail_induct quote with
  | nil => intro n h; cases h
  | backslash => intro n h; cases h
  | lineFeed rest => intro n h; simp [literalTail] at h
  | escaped c rest hc closed m hrest ih =>
    intro n h
    simp only [literalTail, if_neg hc, hrest, Prod.mk.injEq] at h
    obtain ⟨rfl, rfl⟩ := h
    obtain ⟨word, after, rfl, hword, rfl⟩ := ih hrest
    have hitem : ['\\', c] ∈ literalItem quote := by
      rw [literalItem, Language.mem_add, mem_one_mul]
      exact Or.inr ⟨'\\', [c], rfl, rfl, c, by simpa using hc, rfl⟩
    refine ⟨'\\' :: c :: word, after, rfl, hcons hitem hword, ?_⟩
    simp only [List.length_cons]
  | quoted rest hne =>
    intro n h
    rw [literalTail_cons hne, if_pos rfl] at h
    cases h
    exact ⟨[], rest, rfl, Language.nil_mem_kstar _, rfl⟩
  | char c rest hne hc closed m hrest ih =>
    intro n h
    rw [literalTail_cons hne, if_neg hc, hrest] at h
    cases h
    obtain ⟨word, after, rfl, hword, rfl⟩ := ih hrest
    have hitem : [c] ∈ literalItem quote := by
      rw [literalItem, Language.mem_add, singleton_mem_one]
      exact Or.inl (by simp [hc, hne])
    exact ⟨c :: word, after, rfl, hcons hitem hword, by simp⟩

/-- A literal is its quote and a text that is searched through up to the same quote. -/
theorem mem_quoted (hquote : quote ≠ '\\') : text ∈ quoted quote ↔
    ∃ rest, text = quote :: rest ∧ literalTail quote rest = (true, rest.length) := by
  simp only [quoted, mul_assoc, mem_one_mul, beq_iff_eq]
  constructor
  · rintro ⟨c, rest, rfl, rfl, hrest⟩
    refine ⟨rest, rfl, ?_⟩
    obtain ⟨word, hword, _, ⟨d, hd, rfl⟩, rfl⟩ := Language.mem_mul.mp hrest
    obtain rfl : d = c := by simpa using hd
    rw [literalTail_of_mem hword hquote]
    simp
  · rintro ⟨rest, rfl, h⟩
    obtain ⟨word, after, rfl, hword, hlength⟩ := exists_mem_of_literalTail h
    -- The literal is the whole text, so nothing is behind its quote.
    obtain rfl : after = [] := by
      rw [List.length_append, List.length_cons] at hlength
      exact List.eq_nil_of_length_eq_zero (by omega)
    exact ⟨quote, _, rfl, rfl, Language.append_mem_mul hword (singleton_mem_one.mpr (by simp))⟩

/-- A literal is in double or in single quotes. -/
theorem mem_pattern_literal : text ∈ pattern .literal ↔
    ∃ c rest, text = c :: rest ∧ (c = '\"' ∨ c = '\'') ∧ literalTail c rest =
      (true, rest.length) := by
  rw [pattern, Language.mem_add, mem_quoted (by decide), mem_quoted (by decide)]
  constructor
  · rintro (⟨rest, rfl, h⟩ | ⟨rest, rfl, h⟩)
    · exact ⟨_, rest, rfl, Or.inl rfl, h⟩
    · exact ⟨_, rest, rfl, Or.inr rfl, h⟩
  · rintro ⟨c, rest, rfl, rfl | rfl, h⟩
    · exact Or.inl ⟨rest, rfl, h⟩
    · exact Or.inr ⟨rest, rfl, h⟩

/-- No symbol of several characters starts another one. -/
theorem eq_of_begins {symbol other : List Char} (hsymbol : symbol ∈ longSymbols)
    (hother : other ∈ longSymbols) (h : symbol <+: other) : symbol = other := by
  have hall : longSymbols.all (fun symbol => longSymbols.all fun other =>
      !symbol.isPrefixOf other || symbol == other) = true := by decide
  have hpair := List.all_eq_true.mp (List.all_eq_true.mp hall symbol hsymbol) other hother
  rw [List.isPrefixOf_iff_prefix.mpr h] at hpair
  simpa using hpair

/-- A symbol of several characters is what a text that starts with it is read as. -/
theorem symbolTail_of_begins {symbol : List Char} (hsymbol : symbol ∈ longSymbols)
    (h : symbol <+: first :: text) : symbolTail first text = symbol.length - 1 := by
  cases hfind : longSymbols.find? fun symbol => symbol.isPrefixOf (first :: text) with
  | none =>
    have hnot := List.find?_eq_none.mp hfind symbol hsymbol
    exact absurd (List.isPrefixOf_iff_prefix.mpr h) hnot
  | some found =>
    have hfound := List.mem_of_find?_eq_some hfind
    have hbegins := List.find?_some hfind
    rw [List.isPrefixOf_iff_prefix] at hbegins
    have heq : found = symbol := by
      rcases List.prefix_or_prefix_of_prefix hbegins h with hle | hle
      · exact eq_of_begins hfound hsymbol hle
      · exact (eq_of_begins hsymbol hfound hle).symm
    rw [symbolTail, hfind, heq]

/-- What a symbol takes in behind its first character makes one of the list. -/
theorem mem_longSymbols_of_symbolTail (h : symbolTail first text = text.length) (hne : text ≠ []) :
    first :: text ∈ longSymbols := by
  -- If nothing of the list was found, nothing was taken in.
  cases hfind : longSymbols.find? fun symbol => symbol.isPrefixOf (first :: text) with
  | none =>
    rw [symbolTail, hfind] at h
    exact absurd (List.eq_nil_of_length_eq_zero h.symm) hne
  | some symbol =>
    have hsymbol := List.mem_of_find?_eq_some hfind
    rw [symbolTail, hfind] at h
    have hlong := (forall_mem_longSymbols symbol hsymbol).2.1
    have hbegins := List.find?_some hfind
    rw [List.isPrefixOf_iff_prefix] at hbegins
    have heq : symbol = first :: text := by
      apply hbegins.eq_of_length
      rw [List.length_cons]
      dsimp only at h
      omega
    rwa [← heq]

/-- A symbol is one of the list, or a single character. -/
theorem mem_pattern_symbol : text ∈ pattern .symbol ↔
    ∃ c rest, text = c :: rest ∧ isSymbol c = true ∧ symbolTail c rest = rest.length := by
  have hstart : longSymbols.all (fun symbol => symbol.head?.any isSymbol) = true := by decide
  rw [pattern, Language.mem_add]
  constructor
  · rintro (h | ⟨c, hc, rfl⟩)
    · have hhead := List.all_eq_true.mp hstart text h
      cases text with
      | nil => cases hhead
      | cons c rest => exact ⟨c, rest, rfl, hhead, symbolTail_of_begins h (List.prefix_refl _)⟩
    · exact ⟨c, [], rfl, hc, Nat.le_zero.mp (symbolTail_le c [])⟩
  · rintro ⟨c, rest, rfl, hc, h⟩
    cases rest with
    | nil => exact Or.inr (singleton_mem_one.mpr hc)
    | cons d rest => exact Or.inl (mem_longSymbols_of_symbolTail h (by simp))

/-- The texts of a pattern are those that one lexeme of the kind takes as a whole. -/
theorem mem_pattern_iff : text ∈ pattern kind ↔
    ∃ c rest, text = c :: rest ∧ starts kind c = true ∧ tailOf kind c rest =
      (true, rest.length) := by
  -- A bracket is one character, with nothing behind it.
  have hsingle (p : Char → Bool) : text ∈ one p ↔
      ∃ c rest, text = c :: rest ∧ p c = true ∧ (true, 0) = (true, List.length rest) := by
    constructor
    · rintro ⟨c, hc, rfl⟩
      exact ⟨c, [], rfl, hc, rfl⟩
    · rintro ⟨c, rest, rfl, hc, h⟩
      obtain rfl : rest = [] := List.eq_nil_of_length_eq_zero (Prod.mk.inj h).2.symm
      exact singleton_mem_one.mpr hc
  have hopening : starts .opening = ['(', '[', '\x7b'].contains := by
    ext c
    rw [Bool.eq_iff_iff]
    simp [starts, or_assoc]
  have hclosing : starts .closing = [')', ']', '\x7d'].contains := by
    ext c
    rw [Bool.eq_iff_iff]
    simp [starts, or_assoc]
  -- Each kind counts the characters that its pattern continues with.
  cases kind with
  | word => simp only [mem_pattern_word, starts, tailOf, Prod.mk.injEq, true_and,
    wordTail_eq_length_iff]
  | number => simp only [mem_pattern_number, starts, tailOf, Prod.mk.injEq, true_and]
  | literal => simp only [mem_pattern_literal, starts, tailOf, Bool.or_eq_true, decide_eq_true_eq]
  | opening => rw [pattern, hopening, hsingle]; rfl
  | closing => rw [pattern, hclosing, hsingle]; rfl
  | symbol => simp only [mem_pattern_symbol, starts, tailOf, Prod.mk.injEq, true_and]
  | unrecognised => simp [pattern, tailOf, Language.notMem_zero]

/-! ### The longest text of any pattern -/

/-- A word takes in at least the word characters at its start, in front of any text. -/
theorem le_wordTail_append (h : ∀ c ∈ word, continuesWord c = true) (more : List Char) :
    word.length ≤ wordTail (word ++ more) := by
  rw [wordTail, List.takeWhile_append_of_pos h, List.length_append]
  exact Nat.le_add_right _ _

/-- A number takes in at least the word characters at its start, in front of any text. -/
theorem le_numberTail_append (h : ∀ c ∈ word, continuesWord c = true) (more : List Char) :
    word.length ≤ numberTail (word ++ more) := by
  obtain ⟨further, after, rfl, hfurther, hafter⟩ := exists_word_append more
  have hall : ∀ c ∈ word ++ further, continuesWord c = true := by
    rw [List.forall_mem_append]
    exact ⟨h, hfurther⟩
  rw [← List.append_assoc, numberTail_word_append hall hafter, List.length_append]
  omega

/-- What makes a lexeme is in it whatever more text follows. -/
theorem exists_tail_append (h : tailOf kind first inner = (true, inner.length)) (more : List Char) :
    ∃ n, tailOf kind first (inner ++ more) = (true, n) ∧ inner.length ≤ n := by
  -- A literal has its end where it is; any other lexeme can only take in more.
  cases kind with
  | word =>
    simp only [tailOf, Prod.mk.injEq, true_and, wordTail_eq_length_iff] at h
    exact ⟨_, rfl, le_wordTail_append h more⟩
  | number =>
    simp only [tailOf, Prod.mk.injEq, true_and, numberTail_eq_length_iff] at h
    refine ⟨_, rfl, ?_⟩
    obtain ⟨whole, part, rfl, hwhole, rfl | ⟨rest, rfl, hrest⟩⟩ := h
    · rw [List.append_nil]
      exact le_numberTail_append hwhole more
    -- The point is no word character, so the count gets to it.
    · have hpoint : ∀ c ∈ ('.' :: rest ++ more).head?, continuesWord c = false := by
        simp only [List.cons_append, List.head?_cons, Option.mem_some_iff, forall_eq']
        decide
      have hword := le_wordTail_append hrest more
      rw [List.append_assoc, numberTail_word_append hwhole hpoint, List.cons_append,
        pointTail_point, List.length_append, List.length_cons]
      omega
  | literal =>
    obtain ⟨body, after, rfl, hlength, -, hbody⟩ :=
      exists_of_literalTail_eq (show literalTail first inner = _ from h)
    obtain rfl : after = [] := by
      rw [List.length_append] at hlength
      exact List.eq_nil_of_length_eq_zero (by omega)
    rw [List.append_nil] at hbody ⊢
    exact ⟨_, hbody more, Nat.le_refl _⟩
  | opening => exact ⟨0, rfl, (Prod.mk.inj h).2.ge⟩
  | closing => exact ⟨0, rfl, (Prod.mk.inj h).2.ge⟩
  | symbol =>
    refine ⟨_, rfl, ?_⟩
    by_cases hinner : inner = []
    · simp [hinner]
    -- A symbol of the list is found again, as none of them starts with another one that comes
    -- before.
    · have hsymbol := mem_longSymbols_of_symbolTail (Prod.mk.inj h).2 hinner
      have hbegins : first :: inner <+: first :: (inner ++ more) :=
        List.prefix_append (first :: inner) more
      rw [symbolTail_of_begins hsymbol hbegins]
      simp
  | unrecognised => cases h

/-- What a pattern matches in front of a text is no longer than the first lexeme, which is of the
same kind. -/
theorem shape_of_begins (hword : word ∈ pattern kind) (hbegins : word <+: first :: rest) :
    ∃ n, shape first rest = (kind, n) ∧ word.length ≤ n + 1 := by
  obtain ⟨c, inner, rfl, hstarts, htail⟩ := mem_pattern_iff.mp hword
  obtain ⟨rfl, more, rfl⟩ := List.cons_prefix_cons.mp hbegins
  have hkind : kind ≠ .unrecognised := by
    rintro rfl
    cases htail
  obtain ⟨n, hn, hle⟩ := exists_tail_append htail more
  refine ⟨n, ?_, Nat.succ_le_succ hle⟩
  rw [shape_of_starts hkind hstarts, hn]
  rfl

/-- The first lexeme of a text is of its pattern. -/
theorem mem_pattern_shape (h : (shape first rest).1 ≠ .unrecognised) :
    first :: rest.take (shape first rest).2 ∈ pattern (shape first rest).1 := by
  have hlexeme : IsLexeme (shape first rest).1 (first :: rest.take (shape first rest).2) := by
    show shape first (rest.take (shape first rest).2) = _
    rw [shape_take h, List.length_take_of_le (shape_le h)]
  exact mem_pattern_iff.mpr ⟨first, _, rfl, starts_of_shape first rest,
    tailOf_of_isLexeme hlexeme h⟩

end

/-- What is taken from the front of a text as a lexeme of a kind, with `after` behind it. -/
inductive Greedy : LexemeKind → List Char → List Char → Prop where
  /-- It is of the pattern of its kind, and no pattern matches more. -/
  | longest {kind : LexemeKind} {word after : List Char} (hmatches : word ∈ pattern kind)
    (hlongest : ∀ other kind', other ∈ pattern kind' → other <+: word ++ after →
      other.length ≤ word.length) :
    Greedy kind word after
  /-- No pattern matches anything. -/
  | nothing {word after : List Char}
    (hnothing : ∀ other kind', other ∈ pattern kind' → other <+: word ++ after → other = []) :
    Greedy .unrecognised word after

/-- The first lexeme of a text is the longest text of any pattern that the text starts with. -/
theorem greedy_shape (first : Char) (rest : List Char) :
    Greedy (shape first rest).1 (first :: rest.take (shape first rest).2)
      (rest.drop (shape first rest).2) := by
  have happend : first :: rest.take (shape first rest).2 ++ rest.drop (shape first rest).2 =
      first :: rest := by
    rw [List.cons_append, List.take_append_drop]
  -- What is unrecognised is no text of a pattern; any other lexeme is, and no pattern goes further.
  by_cases h : (shape first rest).1 = .unrecognised
  · rw [h]
    refine .nothing fun other kind hother hbegins => ?_
    rw [happend] at hbegins
    -- A pattern that matches would have made a lexeme of its kind.
    obtain ⟨n, hn, -⟩ := shape_of_begins hother hbegins
    obtain rfl : kind = .unrecognised := by rw [← h, hn]
    cases hother
  · refine .longest (mem_pattern_shape h) fun other kind hother hbegins => ?_
    rw [happend] at hbegins
    obtain ⟨n, hn, hle⟩ := shape_of_begins hother hbegins
    rw [List.length_cons, List.length_take_of_le (shape_le h), hn]
    exact hle

/-! ### A scan -/

/-- The number of bytes of characters. -/
def bytes (text : List Char) : Nat :=
  (String.ofList text).utf8ByteSize

@[simp]
theorem bytes_nil : bytes [] = 0 := rfl

@[simp]
theorem bytes_cons (c : Char) (text : List Char) : bytes (c :: text) = c.utf8Size + bytes text := by
  rw [bytes, String.ofList_cons, String.utf8ByteSize_append, String.utf8ByteSize_singleton]
  rfl

@[simp]
theorem bytes_append (text more : List Char) : bytes (text ++ more) = bytes text + bytes more := by
  rw [bytes, String.ofList_append, String.utf8ByteSize_append]
  rfl

/-- The bytes of the characters of a text are those of the text. -/
theorem bytes_toList (text : String) : bytes text.toList = text.utf8ByteSize := by
  rw [bytes, String.ofList_toList]

/-- A lexeme ends as many bytes behind its start as its text has. -/
theorem stop_eq (lexeme : Lexeme) : lexeme.stop = lexeme.start + bytes lexeme.text.toList := by
  rw [bytes_toList]
  rfl

/-- A text from the place `start` on is cut into blanks and lexemes. -/
inductive Cut : Nat → List Char → List Lexeme → Prop where
  | nil (start : Nat) : Cut start [] []
  | gap {start : Nat} {c : Char} {rest : List Char} {lexemes : List Lexeme} (hc : isGap c = true)
    (hrest : Cut (start + c.utf8Size) rest lexemes) : Cut start (c :: rest) lexemes
  | lexeme {lexeme : Lexeme} {rest : List Char} {lexemes : List Lexeme} (hne : lexeme.text ≠ "")
    (hgreedy : Greedy lexeme.kind lexeme.text.toList rest) (hrest : Cut lexeme.stop rest lexemes) :
    Cut lexeme.start (lexeme.text.toList ++ rest) (lexeme :: lexemes)

/-- A scan cuts the text into blanks and lexemes. -/
theorem cut_scanFrom (start : Nat) (text : List Char) : Cut start text (scanFrom start text) := by
  -- On the length of the text, as a lexeme takes in as many characters as its pattern matches.
  induction hlength : text.length using Nat.strong_induction_on generalizing start text with
  | _ n ih =>
    subst hlength
    cases text with
    | nil =>
      rw [scanFrom]
      exact .nil start
    | cons c rest =>
      rw [scanFrom]
      split
      · rename_i hgap
        exact .gap hgap (ih rest.length (Nat.lt_succ_self _) _ rest rfl)
      · have hrest := ih (rest.drop (shape c rest).2).length (by
          rw [List.length_drop, List.length_cons]
          omega)
        let lexeme : Lexeme :=
          ⟨(shape c rest).1, String.ofList (c :: rest.take (shape c rest).2), start⟩
        have htext : lexeme.text.toList = c :: rest.take (shape c rest).2 := String.toList_ofList
        have hcut : Cut lexeme.start (lexeme.text.toList ++ rest.drop (shape c rest).2)
            (lexeme :: scanFrom lexeme.stop (rest.drop (shape c rest).2)) := by
          refine .lexeme ?_ ?_ (hrest _ _ rfl)
          · intro hempty
            rw [hempty] at htext
            cases htext
          · rw [htext]
            exact greedy_shape c rest
        rw [htext, List.cons_append, List.take_append_drop] at hcut
        exact hcut

namespace Cut

variable {start : Nat} {text : List Char} {lexemes : List Lexeme}

/-- No lexeme stands before the place where the text starts. -/
theorem start_le (h : Cut start text lexemes) : ∀ lexeme ∈ lexemes, start ≤ lexeme.start := by
  induction h with
  | nil => simp
  | gap _ _ ih =>
    intro lexeme hlexeme
    have := ih lexeme hlexeme
    omega
  | @lexeme first _ _ _ _ _ ih =>
    rw [List.forall_mem_cons]
    refine ⟨Nat.le_refl _, fun lexeme hlexeme => ?_⟩
    have hle := ih lexeme hlexeme
    rw [stop_eq] at hle
    omega

/-- The lexemes stand one behind the other. -/
theorem pairwise (h : Cut start text lexemes) :
    lexemes.Pairwise fun lexeme later => lexeme.stop ≤ later.start := by
  induction h with
  | nil => exact .nil
  | gap _ _ ih => exact ih
  | lexeme _ _ hrest ih => exact .cons hrest.start_le ih

/-- Each lexeme is what stands in the text at its place. -/
theorem exists_slice (h : Cut start text lexemes) : ∀ lexeme ∈ lexemes, ∃ before after,
    text = before ++ lexeme.text.toList ++ after ∧ start + bytes before = lexeme.start ∧
      lexeme.text ≠ "" ∧ Greedy lexeme.kind lexeme.text.toList after := by
  -- Along the cut: what is in front of a lexeme grows by each blank and each lexeme passed.
  induction h with
  | nil => simp
  | @gap start c _ _ _ _ ih =>
    intro lexeme hlexeme
    obtain ⟨before, after, rfl, hstart, hslice⟩ := ih lexeme hlexeme
    refine ⟨c :: before, after, rfl, ?_, hslice⟩
    rw [bytes_cons]
    omega
  | @lexeme first rest _ hne hgreedy _ ih =>
    rw [List.forall_mem_cons]
    refine ⟨⟨[], rest, rfl, rfl, hne, hgreedy⟩, fun lexeme hlexeme => ?_⟩
    obtain ⟨before, after, rfl, hstart, hslice⟩ := ih lexeme hlexeme
    refine ⟨first.text.toList ++ before, after, by simp, ?_, hslice⟩
    rw [stop_eq] at hstart
    rw [bytes_append]
    omega

/-- A character that is in no lexeme is a blank. -/
theorem isGap_of_outside (h : Cut start text lexemes) : ∀ (before after : List Char) (c : Char),
    text = before ++ c :: after →
      (∀ lexeme ∈ lexemes, start + bytes before < lexeme.start ∨
        lexeme.stop ≤ start + bytes before) → isGap c = true := by
  -- Along the cut; the place of the character is moved back by what was passed.
  induction h with
  | nil =>
    intro before after c htext
    simp at htext
  | @gap start d rest lexemes hd _ ih =>
    intro before after c htext houtside
    cases before with
    | nil =>
      obtain ⟨rfl, -⟩ := List.cons.inj htext
      exact hd
    | cons e before =>
      obtain ⟨rfl, rfl⟩ := List.cons.inj htext
      refine ih _ _ _ rfl fun lexeme hlexeme => ?_
      have := houtside lexeme hlexeme
      rw [bytes_cons] at this
      omega
  | @lexeme first rest lexemes _ _ _ ih =>
    intro before after c htext houtside
    rw [List.forall_mem_cons, stop_eq] at houtside
    -- The character is behind the first lexeme, or inside of it.
    rcases List.append_eq_append_iff.mp htext with ⟨inside, rfl, hinside⟩ | ⟨inside, hfirst, hafter⟩
    · refine ih _ _ _ hinside fun lexeme hlexeme => ?_
      have := houtside.2 lexeme hlexeme
      rw [bytes_append] at this
      rw [stop_eq]
      omega
    · cases inside with
      | nil =>
        rw [List.append_nil] at hfirst
        refine ih [] _ _ hafter.symm fun lexeme hlexeme => ?_
        have := houtside.2 lexeme hlexeme
        rwa [stop_eq, bytes_nil, hfirst]
      | cons d inside =>
        -- The character is in the first lexeme, before its end.
        have hsize := d.utf8Size_pos
        have hbytes : bytes first.text.toList = bytes before + (d.utf8Size + bytes inside) := by
          rw [hfirst, bytes_append, bytes_cons]
        have := houtside.1
        omega

end Cut

/-! ### Blanks inside lexemes -/

/-- No visible character of ASCII is a blank. -/
theorem isGap_eq_false {c : Char} (h : 33 ≤ c.toNat) : isGap c = false := by
  rw [Bool.eq_false_iff]
  intro hgap
  rcases isGap_iff.mp hgap with rfl | rfl | rfl | rfl | rfl <;> exact absurd h (by decide)

theorem isGap_of_isWordlike {c : Char} (h : isWordlike c = true) : isGap c = false :=
  isGap_eq_false (toNat_of_isWordlike h).1

theorem isGap_of_continuesWord {c : Char} (h : continuesWord c = true) : isGap c = false :=
  isGap_of_isWordlike (by rw [isWordlike, h, Bool.true_or])

/-- No blank is in a lexeme other than a literal. -/
theorem isGap_of_mem_pattern {kind : LexemeKind} {text : List Char} (h : text ∈ pattern kind)
    (hkind : kind ≠ .literal) : ∀ c ∈ text, isGap c = false := by
  -- A class without blanks, and a list that is searched for them.
  have hsingle {p : Char → Bool} {text : List Char} (hp : ∀ c, p c = true → isGap c = false)
      (h : text ∈ one p) : ∀ c ∈ text, isGap c = false := by
    obtain ⟨c, hc, rfl⟩ := h
    simpa using hp c hc
  have hlist {chars : List Char} (hall : chars.all (fun c => !isGap c) = true) (c : Char)
      (hc : chars.contains c = true) : isGap c = false := by
    simpa using List.all_eq_true.mp hall c (List.contains_iff_mem.mp hc)
  -- Only a literal may hold a blank.
  cases kind with
  | word =>
    obtain ⟨c, rest, rfl, hc, hrest⟩ := mem_pattern_word.mp h
    rw [List.forall_mem_cons]
    exact ⟨isGap_of_isWordlike (isWordlike_of_startsWord hc), fun d hd =>
      isGap_of_continuesWord (hrest d hd)⟩
  | number =>
    obtain ⟨c, rest, rfl, hc, htail⟩ := mem_pattern_number.mp h
    obtain ⟨whole, part, rfl, hwhole, hpart⟩ := numberTail_eq_length_iff.mp htail
    rw [List.forall_mem_cons, List.forall_mem_append]
    refine ⟨isGap_of_isWordlike (isWordlike_of_isDigit hc), fun d hd =>
      isGap_of_continuesWord (hwhole d hd), ?_⟩
    rcases hpart with rfl | ⟨rest, rfl, hrest⟩
    · simp
    · rw [List.forall_mem_cons]
      exact ⟨by decide, fun d hd => isGap_of_continuesWord (hrest d hd)⟩
  | literal => exact absurd rfl hkind
  | opening => exact hsingle (hlist (by decide)) h
  | closing => exact hsingle (hlist (by decide)) h
  | symbol =>
    -- A symbol is one of the list or a single character, all of them visible.
    rcases (Language.mem_add _ _ _).mp h with hlong | hone
    · have hall : longSymbols.all (fun symbol => symbol.all fun c => !isGap c) = true := by decide
      intro c hc
      simpa using List.all_eq_true.mp (List.all_eq_true.mp hall text hlong) c hc
    · exact hsingle (hlist (by decide)) hone
  | unrecognised => cases h

/-- A scan is lossless and greedy. -/
structure IsScan (text : String) (lexemes : List Lexeme) : Prop where
  /-- No lexeme is empty. -/
  start_lt_stop : ∀ lexeme ∈ lexemes, lexeme.start < lexeme.stop
  /-- The lexemes stand one behind the other. -/
  pairwise : lexemes.Pairwise fun lexeme later => lexeme.stop ≤ later.start
  /-- Each one is what is in the text at its place, and the longest that any pattern matches there;
  what is unrecognised stands where no pattern matches anything. -/
  slice : ∀ lexeme ∈ lexemes, ∃ before after : String, text = before ++ lexeme.text ++ after ∧
    before.utf8ByteSize = lexeme.start ∧ Greedy lexeme.kind lexeme.text.toList after.toList
  /-- What is in none of them is blank. -/
  isGap_of_outside : ∀ (before after : String) (c : Char),
    text = before ++ String.singleton c ++ after →
    (∀ lexeme ∈ lexemes, before.utf8ByteSize < lexeme.start ∨ lexeme.stop ≤ before.utf8ByteSize) →
      isGap c = true
  /-- No blank is in a lexeme other than a literal. -/
  isGap_inside : ∀ lexeme ∈ lexemes, lexeme.kind ≠ .literal → lexeme.kind ≠ .unrecognised →
    ∀ c ∈ lexeme.text.toList, isGap c = false

/-- **Scanning is lossless and greedy.** -/
theorem isScan_scan (text : String) : IsScan text (scan text) := by
  have hcut : Cut 0 text.toList (scan text) := cut_scanFrom 0 text.toList
  constructor
  -- The five parts are facts about the cut, which is the text itself.
  · intro lexeme hlexeme
    obtain ⟨-, -, -, -, hne, -⟩ := hcut.exists_slice lexeme hlexeme
    have hsize : lexeme.text.utf8ByteSize ≠ 0 := by
      rwa [Ne, String.utf8ByteSize_eq_zero_iff]
    show lexeme.start < lexeme.start + lexeme.text.utf8ByteSize
    omega
  · exact hcut.pairwise
  · intro lexeme hlexeme
    obtain ⟨before, after, htext, hstart, -, hgreedy⟩ := hcut.exists_slice lexeme hlexeme
    refine ⟨String.ofList before, String.ofList after, ?_, ?_, ?_⟩
    · rw [← String.toList_inj, htext]
      simp
    · rw [← hstart, Nat.zero_add]
      rfl
    · rwa [String.toList_ofList]
  · intro before after c htext houtside
    have hchars : text.toList = before.toList ++ c :: after.toList := by
      rw [htext]
      simp
    refine hcut.isGap_of_outside _ _ _ hchars fun lexeme hlexeme => ?_
    rw [Nat.zero_add, bytes_toList]
    exact houtside lexeme hlexeme
  · intro lexeme hlexeme hliteral hrecognised
    obtain ⟨before, after, -, -, -, hgreedy⟩ := hcut.exists_slice lexeme hlexeme
    have hmem : lexeme.text.toList ∈ pattern lexeme.kind := by
      generalize lexeme.kind = kind at *
      cases hgreedy with
      | longest hmatches _ => exact hmatches
      | nothing _ => exact absurd rfl hrecognised
    exact isGap_of_mem_pattern hmem hliteral

end CommonDecl.Lexeme
