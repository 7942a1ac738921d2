import CommonDecl.Lexeme
import CommonDecl.Text.Basic
import Mathlib.Data.List.Find
import Mathlib.Data.List.TakeWhile

/-!
# Lexemes and their boundaries

A lexeme that stands alone is the same lexeme (`shape_take`), and what follows a lexeme changes it
only where the two characters at the boundary may stand together inside one lexeme (`joins`).  So a
text that is put together from two texts has the lexemes of both, unless the boundary joins them
(`forms_append`).
-/

namespace CommonDecl.Lexeme

/-- A character that may stand inside a word or a number. -/
def isWordlike (c : Char) : Bool :=
  continuesWord c || c == '.'

/-- A character that may stand inside a symbol of several characters, a point apart. -/
def isLinkable (c : Char) : Bool :=
  [':', '-', '<', '>', '=', '!', '&', '|'].contains c

/-- A lexeme may go on from the first character to the second. -/
def joins (before after : Char) : Bool :=
  (isWordlike before && isWordlike after) || (isLinkable before && isLinkable after)

/-! ### Words -/

/-- A text is a word, or the rest of one, and a text that does not go on with it. -/
theorem exists_word_append (text : List Char) :
    ∃ word after, text = word ++ after ∧ (∀ c ∈ word, continuesWord c = true) ∧
      ∀ c ∈ after.head?, continuesWord c = false := by
  refine ⟨text.takeWhile continuesWord, text.dropWhile continuesWord,
    (List.takeWhile_append_dropWhile).symm, fun c hc => List.mem_takeWhile_imp hc, ?_⟩
  intro c hc
  cases hafter : text.dropWhile continuesWord with
  | nil => simp [hafter] at hc
  | cons first after =>
    obtain rfl : first = c := by simpa [hafter] using hc
    have hhead := List.head_dropWhile_not (p := continuesWord) (l := text) (by simp [hafter])
    simpa [hafter] using hhead

theorem wordTail_of_all {word : List Char} (h : ∀ c ∈ word, continuesWord c = true) :
    wordTail word = word.length := by
  rw [wordTail, List.takeWhile_eq_self_iff.mpr h]

/-- A word goes no further into a text that starts with no character of a word. -/
theorem wordTail_append {text after : List Char} (h : ∀ c ∈ after.head?, continuesWord c = false) :
    wordTail (text ++ after) = wordTail text := by
  unfold wordTail
  rw [List.takeWhile_append]
  split
  · rename_i hall
    cases after with
    | nil => simp [hall]
    | cons c after =>
      rw [List.takeWhile_cons_of_neg (by simp [h c rfl]), List.append_nil, hall]
  · rfl

/-- A word ends within its text. -/
theorem wordTail_le (text : List Char) : wordTail text ≤ text.length :=
  (List.takeWhile_prefix _).length_le

/-- The rest of a word is one on its own. -/
theorem wordTail_take (text : List Char) :
    wordTail (text.take (wordTail text)) = wordTail text := by
  obtain ⟨word, after, rfl, hword, hafter⟩ := exists_word_append text
  rw [wordTail_append hafter, wordTail_of_all hword, List.take_left, wordTail_of_all hword]

/-! ### Numbers -/

/-- The part of a number from its point on, in a text that starts with the point. -/
def pointTail : List Char → Nat
  | '.' :: rest => wordTail rest + 1
  | _ => 0

@[simp]
theorem pointTail_point (rest : List Char) : pointTail ('.' :: rest) = wordTail rest + 1 := rfl

/-- A number goes on from a point only. -/
theorem pointTail_of_ne {c : Char} (h : c ≠ '.') (rest : List Char) :
    pointTail (c :: rest) = 0 := by
  unfold pointTail
  split
  · rename_i heq
    cases heq
    exact absurd rfl h
  · rfl

theorem pointTail_le (text : List Char) : pointTail text ≤ text.length := by
  unfold pointTail
  split
  · rename_i rest
    exact Nat.succ_le_succ (wordTail_le rest)
  · exact Nat.zero_le _

/-- A number is digits, letters and low lines, with what goes on from a point after them. -/
theorem numberTail_word_append {word after : List Char}
    (hword : ∀ c ∈ word, continuesWord c = true)
    (hafter : ∀ c ∈ after.head?, continuesWord c = false) :
    numberTail (word ++ after) = word.length + pointTail after := by
  unfold numberTail
  dsimp only
  rw [wordTail_append hafter, wordTail_of_all hword, List.drop_left]
  cases after with
  | nil => rfl
  | cons c rest =>
    by_cases hc : c = '.'
    · subst hc
      rw [pointTail_point]
      show word.length + 1 + wordTail rest = word.length + (wordTail rest + 1)
      omega
    · rw [pointTail_of_ne hc]
      simp [hc]

/-- A number ends within its text. -/
theorem numberTail_le (text : List Char) : numberTail text ≤ text.length := by
  obtain ⟨word, after, rfl, hword, hafter⟩ := exists_word_append text
  have := pointTail_le after
  rw [numberTail_word_append hword hafter, List.length_append]
  omega

/-- The rest of a number is one on its own. -/
theorem numberTail_take (text : List Char) :
    numberTail (text.take (numberTail text)) = numberTail text := by
  obtain ⟨word, after, rfl, hword, hafter⟩ := exists_word_append text
  -- The number may be cut off at its point, behind which it does not go on either.
  have hpoint : ∀ c ∈ (after.take (pointTail after)).head?, continuesWord c = false := by
    intro c hc
    apply hafter c
    cases after with
    | nil => simp at hc
    | cons first rest =>
      rw [List.head?_take] at hc
      split at hc
      · simp at hc
      · exact hc
  have htake : pointTail (after.take (pointTail after)) = pointTail after := by
    cases after with
    | nil => rfl
    | cons c rest =>
      by_cases hc : c = '.'
      · subst hc
        rw [pointTail_point, List.take_succ_cons, pointTail_point, wordTail_take]
      · rw [pointTail_of_ne hc]
        rfl
  rw [numberTail_word_append hword hafter, List.take_length_add_append,
    numberTail_word_append hword hpoint, htake]

/-- A number goes no further into a text that starts with no character of a number. -/
theorem numberTail_append {text after : List Char} (h : ∀ c ∈ after.head?, isWordlike c = false) :
    numberTail (text ++ after) = numberTail text := by
  obtain ⟨word, middle, rfl, hword, hmiddle⟩ := exists_word_append text
  have hcontinues : ∀ c ∈ after.head?, continuesWord c = false := by
    intro c hc
    have := h c hc
    rw [isWordlike, Bool.or_eq_false_iff] at this
    exact this.1
  -- The word of the number reaches the end of the text, or stops at a character before it.
  cases middle with
  | nil =>
    rw [List.append_nil, numberTail_word_append hword hcontinues]
    have hpoint : pointTail after = 0 := by
      cases after with
      | nil => rfl
      | cons c after =>
        apply pointTail_of_ne
        rintro rfl
        exact absurd (h '.' rfl) (by decide)
    have hnumber : numberTail (word ++ []) = word.length + pointTail [] :=
      numberTail_word_append hword (by simp)
    rw [List.append_nil] at hnumber
    rw [hpoint, hnumber]
    rfl
  | cons c rest =>
    have hhead : ∀ d ∈ (c :: rest ++ after).head?, continuesWord d = false := hmiddle
    rw [List.append_assoc, numberTail_word_append hword hhead, numberTail_word_append hword hmiddle]
    by_cases hc : c = '.'
    · subst hc
      rw [List.cons_append, pointTail_point, pointTail_point, wordTail_append hcontinues]
    · rw [List.cons_append, pointTail_of_ne hc, pointTail_of_ne hc]

/-! ### Literals -/

/-- Outside of an escape only the quote ends a literal. -/
theorem literalTail_cons {quote c : Char} (h : c ≠ '\\') (rest : List Char) :
    literalTail quote (c :: rest) =
      if c = quote then (true, 1) else ((literalTail quote rest).1,
        (literalTail quote rest).2 + 1) := by
  rw [literalTail]
  · exact fun hc _ => h hc
  · exact fun _ _ hc _ => h hc

/-- Induction along `literalTail`: behind an escaped character or one that stands for itself, what
is shown rests on the text behind it. -/
@[elab_as_elim]
theorem literalTail_induct (quote : Char) {motive : List Char → Prop} (nil : motive [])
    (backslash : motive ['\\']) (lineFeed : ∀ rest, motive ('\\' :: '\n' :: rest))
    (escaped : ∀ c rest, ¬ c = '\n' → ∀ closed n, literalTail quote rest = (closed, n) →
      motive rest → motive ('\\' :: c :: rest))
    (quoted : ∀ rest, quote ≠ '\\' → motive (quote :: rest))
    (char : ∀ c rest, c ≠ '\\' → ¬ c = quote → ∀ closed n, literalTail quote rest = (closed, n) →
      motive rest → motive (c :: rest)) (text : List Char) : motive text := by
  -- Behind a backslash the text ends or goes on, so in the other cases stands another character.
  have hbackslash {c : Char} {rest : List Char} (h1 : c = '\\' → rest = [] → False)
      (h2 : ∀ d after, c = '\\' → rest = d :: after → False) : c ≠ '\\' := by
    intro hc
    cases rest with
    | nil => exact h1 hc rfl
    | cons d after => exact h2 d after hc rfl
  exact literalTail.induct quote motive nil backslash lineFeed escaped
    (fun rest h1 h2 => quoted rest (hbackslash h1 h2))
    (fun c rest h1 h2 => char c rest (hbackslash h1 h2)) text

/-- A literal that is closed ends in its quote, in the same place whatever follows it. -/
theorem exists_of_literalTail_eq {quote : Char} {text : List Char} :
    ∀ {n : Nat}, literalTail quote text = (true, n) →
      ∃ body after, text = body ++ after ∧ body.length = n ∧ body.getLast? = some quote ∧
        ∀ after', literalTail quote (body ++ after') = (true, n) := by
  -- Along the characters of the literal; an escape takes two of them, and only the quote closes it.
  induction text using literalTail_induct quote with
  | nil => intro n h; cases h
  | backslash => intro n h; cases h
  | lineFeed rest => intro n h; simp [literalTail] at h
  | escaped c rest hc closed m hrest ih =>
    intro n h
    simp only [literalTail, if_neg hc, hrest, Prod.mk.injEq] at h
    obtain ⟨rfl, rfl⟩ := h
    obtain ⟨body, after, rfl, hlength, hlast, hbody⟩ := ih hrest
    refine ⟨'\\' :: c :: body, after, rfl, by simp [hlength], by simp [List.getLast?_cons, hlast],
      fun after' => ?_⟩
    simp only [List.cons_append, literalTail, if_neg hc, hbody]
  | quoted rest hne =>
    intro n h
    rw [literalTail_cons hne, if_pos rfl] at h
    cases h
    refine ⟨[quote], rest, rfl, rfl, rfl, fun after' => ?_⟩
    rw [List.singleton_append, literalTail_cons hne, if_pos rfl]
  | char c rest hne hc closed m hrest ih =>
    intro n h
    rw [literalTail_cons hne, if_neg hc, hrest] at h
    cases h
    obtain ⟨body, after, rfl, hlength, hlast, hbody⟩ := ih hrest
    refine ⟨c :: body, after, rfl, by simp [hlength], by simp [List.getLast?_cons, hlast],
      fun after' => ?_⟩
    rw [List.cons_append, literalTail_cons hne, if_neg hc, hbody]

/-- A literal is not closed by a character other than its quote. -/
theorem literalTail_concat {quote c : Char} {text : List Char}
    (h : (literalTail quote (text ++ [c])).1 = true) (hc : c ≠ quote) :
    (literalTail quote text).1 = true := by
  cases hliteral : literalTail quote (text ++ [c]) with
  | mk closed n =>
    rw [hliteral] at h
    obtain rfl : closed = true := h
    obtain ⟨body, after, htext, -, hlast, hbody⟩ := exists_of_literalTail_eq hliteral
    rcases List.eq_nil_or_concat after with rfl | ⟨after, last, rfl⟩
    · rw [List.append_nil] at htext
      rw [← htext, List.getLast?_append, List.getLast?_singleton] at hlast
      exact absurd (Option.some.inj hlast) hc
    · rw [List.concat_eq_append, ← List.append_assoc] at htext
      rw [(List.append_inj' htext rfl).1, hbody]

/-! ### Symbols -/

/-- A symbol of several characters is made of points or of linkable characters only. -/
theorem forall_mem_longSymbols :
    ∀ symbol ∈ longSymbols, symbol.length ≤ 3 ∧ 2 ≤ symbol.length ∧
      ((∀ c ∈ symbol, c = '.') ∨ ∀ c ∈ symbol, isLinkable c = true) := by
  have hall : longSymbols.all (fun symbol => symbol.length ≤ 3 && 2 ≤ symbol.length &&
      (symbol.all (· == '.') || symbol.all isLinkable)) = true := by decide
  intro symbol hsymbol
  simpa [and_assoc] using List.all_eq_true.mp hall symbol hsymbol

/-- A symbol ends within its text. -/
theorem symbolTail_le (first : Char) (text : List Char) : symbolTail first text ≤ text.length := by
  unfold symbolTail
  split
  · rename_i symbol hfind
    have hbegins := List.find?_some hfind
    have := (List.isPrefixOf_iff_prefix.mp hbegins).length_le
    rw [List.length_cons] at this
    omega
  · exact Nat.zero_le _

/-- A symbol of several characters does not cross a boundary that joins nothing. -/
theorem isPrefixOf_append_iff {symbol : List Char} (hsymbol : symbol ∈ longSymbols) {first : Char}
    {text after : List Char}
    (h : ∀ p ∈ (first :: text).getLast?, ∀ c ∈ after.head?, joins p c = false) :
    symbol.isPrefixOf (first :: text ++ after) = symbol.isPrefixOf (first :: text) := by
  rw [Bool.eq_iff_iff, List.isPrefixOf_iff_prefix, List.isPrefixOf_iff_prefix]
  refine ⟨fun hbegins => ?_, fun hbegins => hbegins.trans (List.prefix_append _ _)⟩
  by_contra hnot
  -- The symbol goes on after the boundary, so it has both characters there.
  obtain ⟨inside, rfl⟩ : first :: text <+: symbol := by
    rcases List.prefix_or_prefix_of_prefix hbegins (List.prefix_append (first :: text) after)
      with hle | hle
    · exact absurd hle hnot
    · exact hle
  have hinside : inside <+: after := (List.prefix_append_right_inj _).mp hbegins
  cases inside with
  | nil => exact hnot (by simp)
  | cons c inside =>
    obtain ⟨rest, rfl⟩ := hinside
    have hlast := List.getLast?_eq_some_getLast (l := first :: text) (by simp)
    have hjoins := h _ hlast c rfl
    have hmem : (first :: text).getLast (by simp) ∈ first :: text ++ c :: inside :=
      List.mem_append_left _ (List.getLast_mem _)
    have hc : c ∈ first :: text ++ c :: inside := by simp
    rcases (forall_mem_longSymbols _ hsymbol).2.2 with hpoint | hlink
    · rw [hpoint _ hmem, hpoint _ hc] at hjoins
      exact absurd hjoins (by decide)
    · rw [joins, hlink _ hmem, hlink _ hc] at hjoins
      simp at hjoins

/-- A symbol goes no further over a boundary that joins nothing. -/
theorem symbolTail_append {first : Char} {text after : List Char}
    (h : ∀ p ∈ (first :: text).getLast?, ∀ c ∈ after.head?, joins p c = false) :
    symbolTail first (text ++ after) = symbolTail first text := by
  have hfind : (longSymbols.find? fun symbol => symbol.isPrefixOf (first :: (text ++ after))) =
      longSymbols.find? fun symbol => symbol.isPrefixOf (first :: text) :=
    List.find?_congr fun symbol hsymbol => isPrefixOf_append_iff hsymbol h
  rw [symbolTail, symbolTail, hfind]

/-- A symbol on its own is the same one: the first of the list that the text starts with. -/
theorem symbolTail_take (first : Char) (text : List Char) :
    symbolTail first (text.take (symbolTail first text)) = symbolTail first text := by
  cases hfind : longSymbols.find? fun symbol => symbol.isPrefixOf (first :: text) with
  | none =>
    have htail : symbolTail first text = 0 := by rw [symbolTail, hfind]
    have hnone : (longSymbols.find? fun symbol => symbol.isPrefixOf [first]) = none := by
      rw [List.find?_eq_none]
      -- No symbol of the list is a single character.
      intro symbol hsymbol hbegins
      have := (List.isPrefixOf_iff_prefix.mp hbegins).length_le
      have := (forall_mem_longSymbols symbol hsymbol).2.1
      simp only [List.length_singleton] at *
      omega
    rw [htail, List.take_zero, symbolTail, hnone]
  | some symbol =>
    have htail : symbolTail first text = symbol.length - 1 := by rw [symbolTail, hfind]
    obtain ⟨hbegins, before, after, hsymbols, hbefore⟩ := List.find?_eq_some_iff_append.mp hfind
    have hbegins := List.isPrefixOf_iff_prefix.mp hbegins
    have hsymbol : symbol ∈ longSymbols := by simp [hsymbols]
    have htake : first :: text.take (symbol.length - 1) = symbol := by
      have := (forall_mem_longSymbols symbol hsymbol).2.1
      rw [← List.take_succ_cons, show symbol.length - 1 + 1 = symbol.length by omega]
      exact (List.prefix_iff_eq_take.mp hbegins).symm
    -- A symbol before it in the list that the lexeme starts with, the whole text starts with too.
    have hagain : (longSymbols.find? fun other => other.isPrefixOf symbol) = some symbol := by
      refine List.find?_eq_some_iff_append.mpr
        ⟨List.isPrefixOf_iff_prefix.mpr (List.prefix_refl _), before, after, hsymbols, ?_⟩
      intro other hother
      have hnot := hbefore other hother
      rw [Bool.not_eq_true'] at hnot ⊢
      rw [Bool.eq_false_iff, ne_eq, List.isPrefixOf_iff_prefix] at hnot ⊢
      exact fun h => hnot (h.trans hbegins)
    rw [htail, symbolTail, htake, hagain]

/-! ### One lexeme -/

/-- Where the boundary after a word or a number joins nothing, the text after it starts with no
character of a word or a number, or the text before it ends in none. -/
theorem head_or_last_of_joins {first : Char} {text after : List Char}
    (hfirst : isWordlike first = true)
    (h : ∀ p ∈ (first :: text).getLast?, ∀ c ∈ after.head?, joins p c = false) :
    (∀ c ∈ after.head?, isWordlike c = false) ∨
      ∃ before last, text = before ++ [last] ∧ isWordlike last = false := by
  -- The boundary joins nothing, so not both characters at it are those of a word or a number.
  cases after with
  | nil => left; simp
  | cons c after =>
    by_cases hc : isWordlike c = true
    · right
      rcases List.eq_nil_or_concat text with rfl | ⟨before, last, rfl⟩
      · have := h first rfl c rfl
        simp [joins, hfirst, hc] at this
      · refine ⟨before, last, List.concat_eq_append, ?_⟩
        have := h last (by simp [List.getLast?_cons]) c rfl
        rw [joins, hc, Bool.and_true, Bool.or_eq_false_iff] at this
        exact this.1
    · left
      simpa using hc

/-- What is no character of a word or a number is none of a word. -/
theorem continuesWord_eq_false {c : Char} (h : isWordlike c = false) : continuesWord c = false := by
  rw [isWordlike, Bool.or_eq_false_iff] at h
  exact h.1

/-- A word goes no further over a boundary that joins nothing. -/
theorem wordTail_append_of_joins {first : Char} {text after : List Char}
    (hfirst : isWordlike first = true)
    (h : ∀ p ∈ (first :: text).getLast?, ∀ c ∈ after.head?, joins p c = false) :
    wordTail (text ++ after) = wordTail text := by
  rcases head_or_last_of_joins hfirst h with hafter | ⟨before, last, rfl, hlast⟩
  · exact wordTail_append fun c hc => continuesWord_eq_false (hafter c hc)
  · rw [List.append_assoc, wordTail_append (by simpa using continuesWord_eq_false hlast),
      wordTail_append (by simpa using continuesWord_eq_false hlast)]

/-- A number goes no further over a boundary that joins nothing. -/
theorem numberTail_append_of_joins {first : Char} {text after : List Char}
    (hfirst : isWordlike first = true)
    (h : ∀ p ∈ (first :: text).getLast?, ∀ c ∈ after.head?, joins p c = false) :
    numberTail (text ++ after) = numberTail text := by
  rcases head_or_last_of_joins hfirst h with hafter | ⟨before, last, rfl, hlast⟩
  · exact numberTail_append hafter
  · rw [List.append_assoc, numberTail_append (by simpa using hlast),
      numberTail_append (by simpa using hlast)]

/-- A word starts with a character of a word. -/
theorem isWordlike_of_startsWord {c : Char} (h : startsWord c = true) : isWordlike c = true := by
  simp only [startsWord, Bool.or_eq_true] at h
  rcases h with h | h <;> simp [isWordlike, continuesWord, Char.isAlphanum, h]

theorem isWordlike_of_isDigit {c : Char} (h : c.isDigit = true) : isWordlike c = true := by
  simp [isWordlike, continuesWord, Char.isAlphanum, h]

/-- A lexeme ends within its text. -/
theorem shape_le {first : Char} {text : List Char} (h : (shape first text).1 ≠ .unrecognised) :
    (shape first text).2 ≤ text.length := by
  unfold shape at h ⊢
  -- Along the patterns in the order in which they are tried, here and below.
  split_ifs at h ⊢ with hword hdigit hquote hopening hclosing hsymbol
  · exact wordTail_le text
  · exact numberTail_le text
  · cases hliteral : literalTail first text with
    | mk closed n =>
      cases closed with
      | false => simp [hliteral] at h
      | true =>
        obtain ⟨body, after, rfl, hlength, -, -⟩ := exists_of_literalTail_eq hliteral
        simp only [List.length_append]
        omega
  · exact Nat.zero_le _
  · exact Nat.zero_le _
  · exact symbolTail_le first text
  · exact absurd rfl h

/-- A lexeme on its own is the same lexeme. -/
theorem shape_take {first : Char} {text : List Char} (h : (shape first text).1 ≠ .unrecognised) :
    shape first (text.take (shape first text).2) = shape first text := by
  unfold shape at h ⊢
  split_ifs at h ⊢ with hword hdigit hquote hopening hclosing hsymbol
  · rw [wordTail_take]
  · rw [numberTail_take]
  · cases hliteral : literalTail first text with
    | mk closed n =>
      cases closed with
      | false => simp [hliteral] at h
      | true =>
        obtain ⟨body, after, rfl, rfl, -, hbody⟩ := exists_of_literalTail_eq hliteral
        have halone := hbody []
        rw [List.append_nil] at halone
        simp only [List.take_left, halone, ↓reduceIte]
  · rfl
  · rfl
  · rw [symbolTail_take]
  · exact absurd rfl h

/-- A lexeme is the same lexeme in front of a text, unless the boundary joins them. -/
theorem shape_append {first : Char} {text after : List Char}
    (h : (shape first text).1 ≠ .unrecognised)
    (hjoins : ∀ p ∈ (first :: text).getLast?, ∀ c ∈ after.head?, joins p c = false) :
    shape first (text ++ after) = shape first text := by
  unfold shape at h ⊢
  split_ifs at h ⊢ with hword hdigit hquote hopening hclosing hsymbol
  · rw [wordTail_append_of_joins (isWordlike_of_startsWord hword) hjoins]
  · rw [numberTail_append_of_joins (isWordlike_of_isDigit hdigit) hjoins]
  · cases hliteral : literalTail first text with
    | mk closed n =>
      cases closed with
      | false => simp [hliteral] at h
      | true =>
        obtain ⟨body, middle, rfl, rfl, -, hbody⟩ := exists_of_literalTail_eq hliteral
        simp only [List.append_assoc, hbody]
  · rfl
  · rfl
  · rw [symbolTail_append hjoins]
  · exact absurd rfl h

/-- The characters that a lexeme of a kind can start with. -/
def starts : LexemeKind → Char → Bool
  | .word, c => startsWord c
  | .number, c => c.isDigit
  | .literal, c => c = '\"' || c = '\''
  | .opening, c => c = '(' || c = '[' || c = '\x7b'
  | .closing, c => c = ')' || c = ']' || c = '\x7d'
  | .symbol, c => isSymbol c
  | .unrecognised, _ => true

/-- A lexeme starts as its kind does. -/
theorem starts_of_shape (first : Char) (text : List Char) :
    starts (shape first text).1 first = true := by
  unfold shape
  split_ifs with hword hdigit hquote hopening hclosing hsymbol
  · exact hword
  · exact hdigit
  · cases literalTail first text with
    | mk closed n =>
      cases closed with
      | false => rfl
      | true => exact hquote
  · exact hopening
  · exact hclosing
  · exact hsymbol
  · rfl

/-- The further characters of a lexeme of a kind that starts with `first`, and whether they make
one. -/
def tailOf : LexemeKind → Char → List Char → Bool × Nat
  | .word, _, text => (true, wordTail text)
  | .number, _, text => (true, numberTail text)
  | .literal, first, text => literalTail first text
  | .opening, _, _ => (true, 0)
  | .closing, _, _ => (true, 0)
  | .symbol, first, text => (true, symbolTail first text)
  | .unrecognised, _, _ => (false, 0)

theorem isAlpha_iff {c : Char} :
    c.isAlpha = true ↔ 65 ≤ c.toNat ∧ c.toNat ≤ 90 ∨ 97 ≤ c.toNat ∧ c.toNat ≤ 122 := by
  have h : c.isAlpha = (decide ('A'.val ≤ c.val ∧ c.val ≤ 'Z'.val) ||
      (decide ('a'.val ≤ c.val) && decide (c.val ≤ 'z'.val))) := rfl
  rw [h, Bool.or_eq_true, Bool.and_eq_true, decide_eq_true_eq, decide_eq_true_eq, decide_eq_true_eq]
  simp only [UInt32.le_iff_toNat_le]
  exact Iff.rfl

theorem isDigit_iff {c : Char} : c.isDigit = true ↔ 48 ≤ c.toNat ∧ c.toNat ≤ 57 := by
  simp [Char.isDigit, UInt32.le_iff_toNat_le]

/-- A digit starts no word. -/
theorem startsWord_of_isDigit {c : Char} (h : c.isDigit = true) : startsWord c = false := by
  rw [Bool.eq_false_iff]
  intro hword
  rw [isDigit_iff] at h
  rw [startsWord, Bool.or_eq_true, beq_iff_eq, isAlpha_iff] at hword
  rcases hword with hword | rfl
  · omega
  · exact absurd h (by decide)

/-- The first character decides on the pattern. -/
theorem shape_of_starts {kind : LexemeKind} {first : Char} (hkind : kind ≠ .unrecognised)
    (h : starts kind first = true) (text : List Char) :
    shape first text = (if (tailOf kind first text).1 then kind else .unrecognised,
      (tailOf kind first text).2) := by
  -- Each kind starts with characters of its own, so the patterns before its own do not apply.
  cases kind with
  | word =>
    have hword : startsWord first = true := h
    rw [shape, if_pos hword]
    rfl
  | number =>
    have hdigit : first.isDigit = true := h
    rw [shape, if_neg (by simp [startsWord_of_isDigit hdigit]), if_pos hdigit]
    rfl
  | literal =>
    simp only [starts, Bool.or_eq_true, decide_eq_true_eq] at h
    rcases h with rfl | rfl <;> rfl
  | opening =>
    simp only [starts, Bool.or_eq_true, decide_eq_true_eq] at h
    rcases h with (rfl | rfl) | rfl <;> rfl
  | closing =>
    simp only [starts, Bool.or_eq_true, decide_eq_true_eq] at h
    rcases h with (rfl | rfl) | rfl <;> rfl
  | symbol =>
    have hsymbol : isSymbol first = true := h
    -- No symbol starts anything else.
    have hall : "-+*/%<>=!&|^~?:;,.#".toList.all (fun c =>
      !(startsWord c || c.isDigit || starts .literal c ||
        starts .opening c || starts .closing c)) = true := by decide
    have hnot := List.all_eq_true.mp hall first (List.contains_iff_mem.mp hsymbol)
    simp only [Bool.not_eq_true', Bool.or_eq_false_iff] at hnot
    obtain ⟨⟨⟨⟨hword, hdigit⟩, hliteral⟩, hopening⟩, hclosing⟩ := hnot
    simp only [starts] at hliteral hopening hclosing
    rw [shape, hword, hdigit, hliteral, hopening, hclosing, hsymbol]
    rfl
  | unrecognised => exact absurd rfl hkind

/-- What is recognised is of the kind that its first character starts. -/
theorem kind_eq_of_starts {kind : LexemeKind} {first : Char} {text : List Char}
    (h : (shape first text).1 ≠ .unrecognised) (hkind : kind ≠ .unrecognised)
    (hstarts : starts kind first = true) : (shape first text).1 = kind := by
  rw [shape_of_starts hkind hstarts] at h ⊢
  dsimp only at h ⊢
  split at h
  · rename_i hclosed
    rw [if_pos hclosed]
  · exact absurd rfl h

/-- A blank starts no lexeme. -/
theorem shape_of_isGap {c : Char} (h : isGap c = true) (text : List Char) :
    (shape c text).1 = .unrecognised := by
  simp only [isGap, Bool.or_eq_true, beq_iff_eq] at h
  rcases h with (((rfl | rfl) | rfl) | rfl) | rfl <;> rfl

/-! ### The lexemes of a text -/

/-- A text is as a whole one lexeme of this kind. -/
def IsLexeme (kind : LexemeKind) : List Char → Prop
  | [] => False
  | first :: rest => shape first rest = (kind, rest.length)

instance (kind : LexemeKind) : (text : List Char) → Decidable (IsLexeme kind text)
  | [] => inferInstanceAs (Decidable False)
  | first :: rest => inferInstanceAs (Decidable (shape first rest = (kind, rest.length)))

/-- The further characters of a lexeme are all that its kind takes. -/
theorem tailOf_of_isLexeme {kind : LexemeKind} {first : Char} {rest : List Char}
    (h : IsLexeme kind (first :: rest)) (hkind : kind ≠ .unrecognised) :
    tailOf kind first rest = (true, rest.length) := by
  have hshape : shape first rest = (kind, rest.length) := h
  have hstarts := starts_of_shape first rest
  rw [hshape] at hstarts
  rw [shape_of_starts hkind hstarts, Prod.mk.injEq] at hshape
  obtain ⟨hclosed, hlength⟩ := hshape
  refine Prod.ext ?_ hlength
  by_contra hopen
  rw [if_neg hopen] at hclosed
  exact hkind hclosed.symm

/-- The lexemes of a text without their places. -/
def forms (text : List Char) : List (LexemeKind × String) :=
  (scanFrom 0 text).map fun lexeme => (lexeme.kind, lexeme.text)

/-- The texts of the lexemes do not depend on their places. -/
theorem map_text_scan (text : String) :
    (scan text).map Lexeme.text = (forms text.toList).map Prod.snd := by
  rw [forms, List.map_map]
  rfl

/-- The lexemes of a text do not depend on where it starts. -/
theorem map_scanFrom (start : Nat) (text : List Char) :
    (scanFrom start text).map (fun lexeme => (lexeme.kind, lexeme.text)) = forms text := by
  suffices ∀ start start', (scanFrom start text).map (fun lexeme => (lexeme.kind, lexeme.text)) =
      (scanFrom start' text).map fun lexeme => (lexeme.kind, lexeme.text) from this _ _
  clear start
  -- On the length of the text, as a lexeme may take in several characters.
  induction h : text.length using Nat.strong_induction_on generalizing text with
  | _ n ih =>
    intro start start'
    cases text with
    | nil => simp [scanFrom]
    | cons c rest =>
      subst h
      rw [scanFrom, scanFrom]
      split
      · exact ih rest.length (by simp) rest rfl _ _
      · simp only [List.map_cons]
        rw [ih _ ?_ _ rfl]
        simp only [List.length_drop, List.length_cons]
        omega

@[simp]
theorem forms_nil : forms [] = [] := by
  simp [forms, scanFrom]

/-- A blank in front of a text is no part of a lexeme. -/
theorem forms_of_isGap {c : Char} (h : isGap c = true) (rest : List Char) :
    forms (c :: rest) = forms rest := by
  rw [forms, scanFrom, if_pos h, map_scanFrom]

/-- The lexemes of a text are its first one and those of what is behind it. -/
theorem forms_cons {c : Char} (h : isGap c = false) (rest : List Char) :
    forms (c :: rest) =
      ((shape c rest).1, String.ofList (c :: rest.take (shape c rest).2)) ::
        forms (rest.drop (shape c rest).2) := by
  rw [forms, scanFrom, if_neg (by simp [h])]
  simp only [List.map_cons, map_scanFrom]

/-- A lexeme on its own is the only lexeme of its text. -/
theorem forms_of_isLexeme {kind : LexemeKind} {text : List Char} (h : IsLexeme kind text)
    (hkind : kind ≠ .unrecognised) : forms text = [(kind, String.ofList text)] := by
  cases text with
  | nil => exact h.elim
  | cons first rest =>
    have hshape : shape first rest = (kind, rest.length) := h
    have hgap : isGap first = false := by
      by_contra hgap
      have := shape_of_isGap (by simpa using hgap) rest
      rw [hshape] at this
      exact hkind this
    rw [forms_cons hgap, hshape]
    simp

/-- Each lexeme of a text is a lexeme on its own. -/
theorem isLexeme_of_mem_forms {kind : LexemeKind} {word : String} {text : List Char}
    (h : (kind, word) ∈ forms text) (hkind : kind ≠ .unrecognised) : IsLexeme kind word.toList := by
  -- On the length of the text: the lexeme is the first one, or one of what is behind it.
  induction hn : text.length using Nat.strong_induction_on generalizing text with
  | _ n ih =>
    cases text with
    | nil => simp at h
    | cons c rest =>
      subst hn
      by_cases hgap : isGap c = true
      · rw [forms_of_isGap hgap] at h
        exact ih rest.length (by simp) h rfl
      · rw [forms_cons (by simpa using hgap)] at h
        rcases List.mem_cons.mp h with heq | hmem
        · cases heq
          rw [String.toList_ofList]
          show shape c (rest.take (shape c rest).2) = _
          rw [shape_take hkind, List.length_take_of_le (shape_le hkind)]
        · refine ih _ ?_ hmem rfl
          simp only [List.length_drop, List.length_cons]
          omega

/-- A lexeme that was scanned is one on its own. -/
theorem isLexeme_of_mem_scan {lexeme : Lexeme} {text : String} (h : lexeme ∈ scan text)
    (hkind : lexeme.kind ≠ .unrecognised) : IsLexeme lexeme.kind lexeme.text.toList := by
  have hform : (lexeme.kind, lexeme.text) ∈ forms text.toList := List.mem_map.mpr ⟨lexeme, h, rfl⟩
  exact isLexeme_of_mem_forms hform hkind

/-- A text that is put together from two texts has the lexemes of both, unless the boundary joins
them. -/
theorem forms_append {text after : List Char} (h : ∀ form ∈ forms text, form.1 ≠ .unrecognised)
    (hjoins : ∀ p ∈ text.getLast?, ∀ c ∈ after.head?, joins p c = false) :
    forms (text ++ after) = forms text ++ forms after := by
  -- On the length of the text before the boundary, one lexeme at a time.
  induction hn : text.length using Nat.strong_induction_on generalizing text with
  | _ n ih =>
    cases text with
    | nil => simp
    | cons c rest =>
      subst hn
      -- What is left after a lexeme ends in the same character as the whole text.
      have hrest (count : Nat) :
          ∀ p ∈ (rest.drop count).getLast?, ∀ d ∈ after.head?, joins p d = false := by
        intro p hp
        refine hjoins p ?_
        rw [List.getLast?_drop] at hp
        split at hp
        · simp at hp
        · cases rest with
          | nil => simp at hp
          | cons d rest => simpa [List.getLast?_cons_cons] using hp
      by_cases hgap : isGap c = true
      · rw [forms_of_isGap hgap] at h
        rw [List.cons_append, forms_of_isGap hgap, forms_of_isGap hgap]
        exact ih rest.length (by simp) h (by simpa using hrest 0) rfl
      · have hgap : isGap c = false := by simpa using hgap
        rw [forms_cons hgap] at h
        have hkind := h _ List.mem_cons_self
        rw [List.cons_append, forms_cons hgap, forms_cons hgap, shape_append hkind hjoins,
          List.take_append_of_le_length (shape_le hkind),
          List.drop_append_of_le_length (shape_le hkind), List.cons_append]
        congr 1
        refine ih _ ?_ (fun form hform => h form (List.mem_cons_of_mem _ hform)) (hrest _) rfl
        simp only [List.length_drop, List.length_cons]
        omega

/-! ### Blanks at the end of a text -/

/-- The code points of a word or a number, and of everything that starts a lexeme. -/
theorem toNat_of_isWordlike {c : Char} (h : isWordlike c = true) :
    33 ≤ c.toNat ∧ c.toNat < 128 := by
  simp only [isWordlike, continuesWord, Char.isAlphanum, Bool.or_eq_true, beq_iff_eq, isAlpha_iff,
    isDigit_iff] at h
  rcases h with ((halpha | hdigit) | rfl) | rfl
  · omega
  · omega
  · decide
  · decide

/-- A lexeme that is recognised starts with a visible character of ASCII. -/
theorem toNat_of_starts {kind : LexemeKind} {c : Char} (h : starts kind c = true)
    (hkind : kind ≠ .unrecognised) : 33 ≤ c.toNat ∧ c.toNat < 128 := by
  -- The characters that each kind can start with are finitely many, apart from those of words and
  -- numbers.
  cases kind with
  | word => exact toNat_of_isWordlike (isWordlike_of_startsWord h)
  | number => exact toNat_of_isWordlike (isWordlike_of_isDigit h)
  | literal =>
    simp only [starts, Bool.or_eq_true, decide_eq_true_eq] at h
    rcases h with rfl | rfl <;> decide
  | opening =>
    simp only [starts, Bool.or_eq_true, decide_eq_true_eq] at h
    rcases h with (rfl | rfl) | rfl <;> decide
  | closing =>
    simp only [starts, Bool.or_eq_true, decide_eq_true_eq] at h
    rcases h with (rfl | rfl) | rfl <;> decide
  | symbol =>
    have hall : "-+*/%<>=!&|^~?:;,.#".toList.all
        (fun c => decide (33 ≤ c.toNat ∧ c.toNat < 128)) = true := by decide
    exact of_decide_eq_true (List.all_eq_true.mp hall c (List.contains_iff_mem.mp h))
  | unrecognised => exact absurd rfl hkind

/-- No visible character of ASCII is a blank. -/
theorem isBlank_eq_false {c : Char} (h : 33 ≤ c.toNat ∧ c.toNat < 128) :
    Text.isBlank c = false := by
  simp only [Text.isBlank, Bool.or_eq_false_iff, Bool.and_eq_false_iff, decide_eq_false_iff_not,
    beq_eq_false_iff_ne]
  omega

/-- A blank joins nothing that is before it. -/
theorem joins_of_isBlank {p c : Char} (h : Text.isBlank c = true) : joins p c = false := by
  have hword : isWordlike c = false := by
    rw [Bool.eq_false_iff]
    intro hword
    rw [isBlank_eq_false (toNat_of_isWordlike hword)] at h
    cases h
  have hlink : isLinkable c = false := by
    rw [Bool.eq_false_iff]
    intro hlink
    have hall : [':', '-', '<', '>', '=', '!', '&', '|'].all (fun c => !Text.isBlank c) = true := by
      decide
    have hblank := List.all_eq_true.mp hall c (List.contains_iff_mem.mp hlink)
    rw [h] at hblank
    cases hblank
  rw [joins, hword, hlink, Bool.and_false, Bool.and_false]
  rfl

/-- A lexeme that is recognised in front of a blank is recognised without it. -/
theorem shape_concat {first c : Char} {text : List Char} (hc : Text.isBlank c = true)
    (h : (shape first (text ++ [c])).1 ≠ .unrecognised) : (shape first text).1 ≠ .unrecognised := by
  unfold shape at h ⊢
  split_ifs at h ⊢ with hword hdigit hquote hopening hclosing hsymbol
  · exact h
  · exact h
  -- A blank is no quote, so a literal that is closed with it was closed before it.
  · have hclosed : (literalTail first (text ++ [c])).1 = true := by
      cases hliteral : literalTail first (text ++ [c]) with
      | mk closed n => cases closed <;> simp_all
    have hne : c ≠ first := by
      rintro rfl
      rw [isBlank_eq_false (@toNat_of_starts .literal c hquote (by simp))] at hc
      cases hc
    have := literalTail_concat hclosed hne
    cases hliteral : literalTail first text with
    | mk closed n =>
      rw [hliteral] at this
      obtain rfl : closed = true := this
      simp
  · exact h
  · exact h
  · exact h
  · exact h

/-- A blank at the end changes none of the lexemes before it, unless it is unrecognised. -/
theorem forms_concat {text : List Char} {c : Char} (hc : Text.isBlank c = true)
    (h : ∀ form ∈ forms (text ++ [c]), form.1 ≠ .unrecognised) :
    forms (text ++ [c]) = forms text := by
  -- On the length of the text, one lexeme at a time up to the blank.
  induction hn : text.length using Nat.strong_induction_on generalizing text with
  | _ n ih =>
    cases text with
    | nil =>
      rw [List.nil_append] at h ⊢
      by_cases hgap : isGap c = true
      · rw [forms_of_isGap hgap]
      · have hgap : isGap c = false := by simpa using hgap
        rw [forms_cons hgap] at h
        -- A blank that is no gap starts no lexeme that is recognised.
        have hkind := h _ List.mem_cons_self
        rw [isBlank_eq_false (toNat_of_starts (starts_of_shape c []) hkind)] at hc
        cases hc
    | cons first rest =>
      subst hn
      rw [List.cons_append] at h ⊢
      by_cases hgap : isGap first = true
      · rw [forms_of_isGap hgap] at h ⊢
        rw [forms_of_isGap hgap]
        exact ih rest.length (by simp) h rfl
      · have hgap : isGap first = false := by simpa using hgap
        rw [forms_cons hgap] at h ⊢
        have hkind := shape_concat hc (h _ List.mem_cons_self)
        have hshape : shape first (rest ++ [c]) = shape first rest :=
          shape_append hkind fun p _ d hd => by
            obtain rfl : c = d := by simpa using hd
            exact joins_of_isBlank hc
        rw [hshape, List.take_append_of_le_length (shape_le hkind),
          List.drop_append_of_le_length (shape_le hkind)] at h ⊢
        rw [forms_cons hgap, ih _ ?_ (fun form hform => h form (List.mem_cons_of_mem _ hform)) rfl]
        simp only [List.length_drop, List.length_cons]
        omega

/-- Blanks at the end of a text are no part of its lexemes. -/
theorem forms_trimEnd {text : String} (h : ∀ form ∈ forms text.toList, form.1 ≠ .unrecognised) :
    forms (Text.trimEnd text).toList = forms text.toList := by
  have hdrop (backwards : List Char)
      (h : ∀ form ∈ forms backwards.reverse, form.1 ≠ .unrecognised) :
      forms (backwards.dropWhile Text.isBlank).reverse = forms backwards.reverse := by
    -- From the end of the text, one blank at a time.
    induction backwards with
    | nil => rfl
    | cons c backwards ih =>
      by_cases hc : Text.isBlank c = true
      · rw [List.reverse_cons] at h ⊢
        rw [List.dropWhile_cons_of_pos hc, forms_concat hc h]
        rw [forms_concat hc h] at h
        exact ih h
      · rw [List.dropWhile_cons_of_neg hc]
  rw [Text.trimEnd, String.toList_ofList, hdrop, List.reverse_reverse]
  rwa [List.reverse_reverse]

end CommonDecl.Lexeme
