import CommonDecl.Declarator.Render
import CommonDecl.Proofs.Grammar
import Mathlib.Data.List.Forall2

/-!
# The text of a declarator

The parts of the text of a declarator write the tokens of the parts of the declarator
(`writes_leadingText`, `writes_dimensionsText`), and where two parts meet, nothing goes on from one
to the other.
-/

namespace CommonDecl

open Lexeme

variable {scope : Scope} {keywords : Keywords} {known : String → Bool}

/-! ### Words and marks -/

/-- A word starts with a letter or a low line and goes on with characters of words. -/
theorem IsWord.exists_cons {text : String} (h : IsWord text) :
    ∃ first rest, text.toList = first :: rest ∧ startsWord first = true ∧
      ∀ c ∈ rest, continuesWord c = true := by
  cases htext : text.toList with
  | nil =>
    rw [IsWord, htext] at h
    exact h.elim
  | cons first rest =>
    rw [IsWord, htext] at h
    have hfirst : startsWord first = true := starts_of_isLexeme h
    have hshape : shape first rest = (.word, rest.length) := h
    rw [shape, if_pos hfirst, Prod.mk.injEq] at hshape
    refine ⟨first, rest, rfl, hfirst, ?_⟩
    have hbegins : rest.takeWhile continuesWord <+: rest := List.takeWhile_prefix _
    rw [← List.takeWhile_eq_self_iff]
    exact hbegins.eq_of_length hshape.2

/-- Every character of a word is one of a word. -/
theorem IsWord.forall_isWordlike {text : String} (h : IsWord text) :
    ∀ c ∈ text.toList, isWordlike c = true := by
  obtain ⟨first, rest, htext, hfirst, hrest⟩ := h.exists_cons
  rw [htext, List.forall_mem_cons]
  refine ⟨isWordlike_of_startsWord hfirst, fun c hc => ?_⟩
  rw [isWordlike, hrest c hc, Bool.true_or]

/-- Two words without a space between them are one word. -/
theorem IsWord.append {first second : String} (h : IsWord first) (h' : IsWord second) :
    IsWord (first ++ second) := by
  obtain ⟨c, rest, htext, hc, hrest⟩ := h.exists_cons
  obtain ⟨d, rest', htext', hd, hrest'⟩ := h'.exists_cons
  have hall : ∀ e ∈ rest ++ d :: rest', continuesWord e = true := by
    intro e he
    rcases List.mem_append.mp he with he | he
    · exact hrest e he
    · rcases List.mem_cons.mp he with rfl | he
      · simp only [startsWord, continuesWord, Char.isAlphanum, Bool.or_eq_true] at hd ⊢
        exact hd.imp_left Or.inl
      · exact hrest' e he
  rw [IsWord, String.toList_append, htext, htext', List.cons_append]
  show shape c (rest ++ d :: rest') = (.word, (rest ++ d :: rest').length)
  rw [shape, if_pos hc, wordTail_of_all hall]

/-- A word is no `*` and no `&`. -/
theorem IsWord.isPointerMarker {text : String} (h : IsWord text) :
    CommonDecl.isPointerMarker text = false := by
  obtain ⟨first, rest, htext, hfirst, -⟩ := h.exists_cons
  rw [CommonDecl.isPointerMarker, htext]
  simp only [Bool.or_eq_false_iff, beq_eq_false_iff_ne]
  constructor
  · rintro rfl
    exact absurd hfirst (by decide)
  · rintro rfl
    exact absurd hfirst (by decide)

theorem IsWord.ne_star {text : String} (h : IsWord text) : text ≠ "*" := by
  rintro rfl
  exact absurd h.isPointerMarker (by decide)

/-- A pointer marker behind a word does not go on from it. -/
theorem IsWord.apart_pointer {before after : String} (h : IsWord before)
    (hafter : after = "*" ∨ after = "&") : Apart before after := by
  rw [apart_iff]
  intro p hp c hc
  have hword := h.forall_isWordlike p (List.mem_of_getLast? hp)
  refine ⟨fun _ => ?_, fun hlinkable => ?_⟩
  · rcases hafter with rfl | rfl
    · obtain rfl : '*' = c := by simpa using hc
      decide
    · obtain rfl : '&' = c := by simpa using hc
      decide
  · rw [isLinkable_of_isWordlike hword] at hlinkable
    cases hlinkable

theorem IsWord.writes {text : String} (h : IsWord text) :
    Writes (scope.keywords .c) known text [TokenTree.word scope known text] :=
  writes_lexeme h (by simp) (by simp) (by simp)

/-- A symbol writes itself, with the class that the keywords give to it. -/
theorem writes_symbol {text : String} (h : IsLexeme .symbol text.toList) :
    Writes (scope.keywords .c) known text [TokenTree.symbol scope known text] :=
  writes_lexeme h (by simp) (by simp) (by simp)

/-- A qualifier of a declarator: a pointer marker or a word. -/
def IsMark (scope : Scope) (text : String) : Prop :=
  text = "*" ∨ text = "&" ∨ IsQualifierWord scope text

theorem isQualifier_of_mem {text : String} (scope : Scope) (h : text ∈ Keywords.cQualifiers) :
    (scope.keywords .c).isQualifier text = true :=
  List.contains_iff_mem.mpr (List.mem_append_left _ (List.mem_append_left _ h))

/-- Pointer markers and words of qualifiers are qualifiers of C. -/
theorem IsMark.isQualifier {text : String} (h : IsMark scope text) :
    (scope.keywords .c).isQualifier text = true := by
  rcases h with rfl | rfl | h
  · exact isQualifier_of_mem scope (by decide)
  · exact isQualifier_of_mem scope (by decide)
  · exact h.isQualifier

theorem AreMarks.isQualifier {texts : List String} (h : AreMarks scope texts) :
    ∀ text ∈ texts, (scope.keywords .c).isQualifier text = true :=
  fun text htext => IsMark.isQualifier (h.each text htext)

theorem IsMark.ne_empty {text : String} (h : IsMark scope text) : text.toList ≠ [] := by
  rcases h with rfl | rfl | h
  · decide
  · decide
  · obtain ⟨first, rest, htext, -⟩ := h.isWord.exists_cons
    simp [htext]

/-- A mark is one lexeme, so it writes itself as one qualifier. -/
theorem IsMark.writes {text : String} (h : IsMark scope text) :
    Writes (scope.keywords .c) known text [.leaf ⟨text, .qualifier⟩] := by
  have hqualifier := h.isQualifier
  have hsymbol (hlexeme : IsLexeme .symbol text.toList) :
      Writes (scope.keywords .c) known text [.leaf ⟨text, .qualifier⟩] := by
    have hwrites : Writes (scope.keywords .c) known text [TokenTree.symbol scope known text] :=
      writes_symbol hlexeme
    rwa [TokenTree.symbol, TokenClass.ofLexeme, if_pos hqualifier] at hwrites
  rcases h with rfl | rfl | h
  · exact hsymbol (by decide)
  · exact hsymbol (by decide)
  · have hwrites : Writes (scope.keywords .c) known text [TokenTree.word scope known text] :=
      h.isWord.writes
    rwa [TokenTree.word, TokenClass.ofLexeme, if_pos hqualifier] at hwrites

/-- The pointer markers among the marks are `*` and `&`. -/
theorem IsMark.isPointerMarker_iff {text : String} (h : IsMark scope text) :
    isPointerMarker text = true ↔ text = "*" ∨ text = "&" := by
  constructor
  · intro hpointer
    rcases h with rfl | rfl | h
    · exact Or.inl rfl
    · exact Or.inr rfl
    · rw [h.isWord.isPointerMarker] at hpointer
      cases hpointer
  · rintro (rfl | rfl) <;> decide

/-- Nothing goes on from a pointer marker to another mark, unless both are `&`. -/
theorem IsMark.apart {before after : String} (hbefore : isPointerMarker before = true)
    (h : IsMark scope before) (hafter : IsMark scope after) (hne : ¬(before = "&" ∧ after = "&")) :
    Apart before after := by
  rcases h.isPointerMarker_iff.mp hbefore with rfl | rfl
  · exact apart_of_left (by decide)
  · rcases hafter with rfl | rfl | hword
    · exact apart_of_right (by decide)
    · exact absurd ⟨rfl, rfl⟩ hne
    · intro p hp c hc
      obtain rfl : '&' = p := by simpa using hp
      have hwordlike := hword.isWord.forall_isWordlike c (List.mem_of_mem_head? hc)
      rw [joins, hwordlike, isLinkable_of_isWordlike hwordlike]
      decide

/-! ### Qualifiers -/

/-- Qualifiers that follow another one. -/
theorem writes_textAfter {first : String} {rest : List String}
    (h : AreMarks scope (first :: rest)) :
    Writes (scope.keywords .c) known (first ++ Qualifiers.textAfter first rest)
      (TokenTree.marks (first :: rest)) := by
  -- On the qualifiers that follow; between two of them stands a space, or nothing where two pointer
  -- markers meet.
  induction rest generalizing first with
  | nil =>
    rw [Qualifiers.textAfter, String.append_empty]
    exact IsMark.writes (h.each first List.mem_cons_self)
  | cons next rest ih =>
    have hfirst : IsMark scope first := h.each first List.mem_cons_self
    have hnext : IsMark scope next := h.each next (by simp)
    have hmarks : AreMarks scope (next :: rest) :=
      ⟨fun text htext => h.each text (List.mem_cons_of_mem _ htext), h.apart.tail⟩
    rw [Qualifiers.textAfter, String.append_assoc]
    refine hfirst.writes.append ?_ ?_
    · split
      · rw [String.empty_append]
        exact ih hmarks
      · exact (ih hmarks).space_append
    · split
      · rename_i hpointers
        rw [Bool.and_eq_true] at hpointers
        rw [String.empty_append]
        refine apart_append_right ?_ hnext.ne_empty
        -- No `&` follows another one, so two markers side by side are not read as one symbol.
        exact hfirst.apart hpointers.1 hnext (List.IsChain.rel h.apart)
      · exact apart_space _ _

/-- The text of qualifiers ends as the last of them does. -/
theorem getLast?_textAfter {first : String} {rest : List String}
    (h : AreMarks scope (first :: rest)) {last : String}
    (hlast : (first :: rest).getLast? = some last) :
    (first ++ Qualifiers.textAfter first rest).toList.getLast? = last.toList.getLast? := by
  induction rest generalizing first with
  | nil =>
    obtain rfl : first = last := by simpa using hlast
    rw [Qualifiers.textAfter, String.append_empty]
  | cons next rest ih =>
    have hmarks : AreMarks scope (next :: rest) :=
      ⟨fun text htext => h.each text (List.mem_cons_of_mem _ htext), h.apart.tail⟩
    have hnext : IsMark scope next := h.each next (by simp)
    have hne : (next ++ Qualifiers.textAfter next rest).toList ≠ [] := by
      simp [String.toList_append, hnext.ne_empty]
    rw [List.getLast?_cons_cons] at hlast
    rw [← ih hmarks hlast, Qualifiers.textAfter, String.append_assoc, ← String.append_assoc,
      String.toList_append, List.getLast?_append, List.getLast?_eq_some_getLast hne, Option.some_or]

/-- Qualifiers in front of something are written with a space behind them, or with nothing. -/
theorem leadingText_cons (first : String) (rest : List String) :
    ∃ after, (⟨first :: rest⟩ : Qualifiers).leadingText =
      first ++ Qualifiers.textAfter first rest ++ after ∧ (after = "" ∨ after = " ") := by
  unfold Qualifiers.leadingText
  split
  · split
    · exact ⟨"", (String.append_empty).symm, Or.inl rfl⟩
    · exact ⟨" ", rfl, Or.inr rfl⟩
  · exact ⟨"", (String.append_empty).symm, Or.inl rfl⟩

/-- Qualifiers in front of something write their own tokens. -/
theorem writes_leadingText {texts : List String} (h : AreMarks scope texts) :
    Writes (scope.keywords .c) known (⟨texts⟩ : Qualifiers).leadingText
      (TokenTree.marks texts) := by
  cases texts with
  | nil => exact writes_empty
  | cons first rest =>
    obtain ⟨after, htext, rfl | rfl⟩ := leadingText_cons first rest
    · rw [htext, String.append_empty]
      exact writes_textAfter h
    · rw [htext]
      exact (writes_textAfter h).append_space

theorem leadingText_ne_nil {texts : List String} (h : AreMarks scope texts) (hne : texts ≠ []) :
    (⟨texts⟩ : Qualifiers).leadingText.toList ≠ [] := by
  obtain ⟨first, rest, rfl⟩ := List.exists_cons_of_ne_nil hne
  have hfirst : first.toList ≠ [] := IsMark.ne_empty (h.each first List.mem_cons_self)
  obtain ⟨after, htext, -⟩ := leadingText_cons first rest
  rw [htext, String.toList_append, String.toList_append]
  simp [hfirst]

/-- Nothing goes on to qualifiers from what is apart from the first of them. -/
theorem apart_leadingText_of_head {before first : String} {rest : List String}
    (h : Apart before first) (hne : first.toList ≠ []) :
    Apart before (⟨first :: rest⟩ : Qualifiers).leadingText := by
  obtain ⟨after, htext, -⟩ := leadingText_cons first rest
  rw [htext, String.append_assoc]
  exact apart_append_right h hne

/-- A word is apart from qualifiers that start with a pointer. -/
theorem IsWord.apart_leadingText {base : String} {texts : List String} (hbase : IsWord base)
    (h : AreMarks scope texts) (hhead : texts.head?.any CommonDecl.isPointerMarker = true) :
    Apart base (⟨texts⟩ : Qualifiers).leadingText := by
  cases texts with
  | nil => cases hhead
  | cons first rest =>
    have hfirst : IsMark scope first := h.each first List.mem_cons_self
    exact apart_leadingText_of_head
      (hbase.apart_pointer (hfirst.isPointerMarker_iff.mp hhead)) hfirst.ne_empty

/-- Qualifiers that stand in front of something do not end in a word. -/
theorem leadingText_last {texts : List String} (h : AreMarks scope texts) :
    ∀ p ∈ (⟨texts⟩ : Qualifiers).leadingText.toList.getLast?, isWordlike p = false := by
  cases texts with
  | nil => simp [Qualifiers.leadingText, Qualifiers.last?, Qualifiers.text]
  | cons first rest =>
    obtain ⟨last, hlast⟩ : ∃ last, (first :: rest).getLast? = some last :=
      ⟨_, List.getLast?_eq_some_getLast (by simp)⟩
    have hmark : IsMark scope last := h.each last (List.mem_of_getLast? hlast)
    intro p hp
    simp only [Qualifiers.leadingText, Qualifiers.last?, hlast] at hp
    split at hp
    · rename_i hpointer
      simp only [Qualifiers.text] at hp
      rw [getLast?_textAfter h hlast] at hp
      -- A pointer marker at the end is written without a space, anything else with one.
      rcases hmark.isPointerMarker_iff.mp hpointer with rfl | rfl
      · obtain rfl : '*' = p := by simpa using hp
        decide
      · obtain rfl : '&' = p := by simpa using hp
        decide
    · obtain rfl : ' ' = p := by simpa using hp
      decide

/-- The qualifiers of a type end in a space, if there are any. -/
theorem apart_leftText {texts : List String} (h : ∀ text ∈ texts, IsQualifierWord scope text)
    (after : String) : Apart (⟨texts⟩ : Qualifiers).leadingText after := by
  cases hlast : texts.getLast? with
  | none =>
    obtain rfl := List.getLast?_eq_none_iff.mp hlast
    exact apart_of_left (by simp [FreeAtEnd, Qualifiers.leadingText, Qualifiers.last?,
      Qualifiers.text])
  | some last =>
    have hword := (h last (List.mem_of_getLast? hlast)).isWord
    simp only [Qualifiers.leadingText, Qualifiers.last?, hlast, hword.isPointerMarker,
      Bool.false_eq_true, ↓reduceIte]
    exact apart_after_space _ _

/-- Words of qualifiers are marks: there is no `&` among them. -/
theorem areMarks_of_words {texts : List String} (h : ∀ text ∈ texts, IsQualifierWord scope text) :
    AreMarks scope texts := by
  refine ⟨fun text htext => Or.inr (Or.inr (h text htext)), List.Pairwise.isChain ?_⟩
  refine List.pairwise_of_forall_mem_list fun before hbefore after _ => ?_
  rintro ⟨rfl, -⟩
  exact absurd (h "&" hbefore).isWord (by decide)

/-! ### Dimensions -/

/-- The texts inside square groups. -/
def dimensionTexts (trees : List TokenTree) : List String :=
  trees.map fun
    | .leaf _ => ""
    | .group _ contents => Text.joinTokens (TokenTree.texts contents)

/-- The text of dimensions writes their square groups, as each of them can be restored from its
text. -/
theorem writes_dimensionsText {trees : List TokenTree}
    (h : TokenTree.AreDimensions scope known trees) :
    Writes (scope.keywords .c) known (Declarator.dimensionsText (dimensionTexts trees)) trees := by
  induction trees with
  | nil => exact writes_empty
  | cons tree trees ih =>
    obtain ⟨contents, rfl, hcontents⟩ := h tree List.mem_cons_self
    have htrees := ih fun tree htree => h tree (List.mem_cons_of_mem _ htree)
    have hgroup := (writes_iff.mpr hcontents).group .square
    rw [dimensionTexts, List.map_cons, Declarator.dimensionsText, List.map_cons, String.join_cons]
    exact hgroup.append htrees (apart_append_left (apart_of_left (by decide)) (by decide))

/-- Nothing goes on from or to the text of dimensions. -/
theorem apart_dimensionsText (before : String) (dimensions : List String) :
    Apart before (Declarator.dimensionsText dimensions) := by
  refine apart_of_right fun c hc => ?_
  cases dimensions with
  | nil => simp [Declarator.dimensionsText] at hc
  | cons dimension dimensions =>
    rw [Declarator.dimensionsText, List.map_cons, String.join_cons] at hc
    obtain rfl : '[' = c := by simpa [String.toList_append] using hc
    decide

/-! ### Arguments -/

/-- The text of an argument list with its brackets. -/
def argumentsText (arguments : List Declarator) : String :=
  "(" ++ ", ".intercalate (Declarator.renderAll arguments) ++ ")"

/-- The comma and the space between two arguments write a single comma. -/
theorem writes_comma :
    Writes (scope.keywords .c) known ", " [TokenTree.symbol scope known ","] := by
  rw [show ", " = "," ++ " " by decide]
  exact (writes_symbol (by decide)).append_space

/-- Texts with commas between them write the trees that each of them writes, with commas between
them. -/
theorem writes_intercalate {items : List (List TokenTree)} {texts : List String}
    (h : List.Forall₂ (fun item text => Writes (scope.keywords .c) known text item) items texts) :
    Writes (scope.keywords .c) known (", ".intercalate texts)
      ([TokenTree.symbol scope known ","].intercalate items) := by
  induction h with
  | nil => exact writes_empty
  | cons hitem hrest ih =>
    cases hrest with
    | nil =>
      rw [String.intercalate_singleton, List.intercalate_singleton]
      exact hitem
    | cons hnext hrest =>
      rw [String.intercalate_cons_of_ne_nil (by simp), List.intercalate_cons_of_ne_nil (by simp)]
      refine (hitem.append writes_comma (apart_of_right (by decide))).append ih ?_
      exact apart_append_left (apart_of_left (by decide)) (by decide)

/-- The brackets of an argument list make one group of what its arguments write. -/
theorem writes_argumentsText {trees : List TokenTree} {arguments : List Declarator}
    (h : Writes keywords known (", ".intercalate (Declarator.renderAll arguments)) trees) :
    Writes keywords known (argumentsText arguments) [.group .parenthesis trees] :=
  h.group .parenthesis

/-! ### Nests -/

/-- The text of nests around an inner text, the outermost nest first. -/
def nestText (inner : String) : List Declarator → String
  | [] => inner
  | nest :: rest =>
    "(*" ++ nest.right.leadingText ++ nestText inner rest ++
      Declarator.dimensionsText nest.dimensions ++
      (if nest.kind = .nestedFunction then argumentsText nest.arguments else "") ++ ")"

/-- What opens the nests and what closes them stand around the same inner text. -/
theorem nestOpenings_append_nestClosings (declarator : Declarator) (inner : String) :
    declarator.nestOpenings ++ inner ++ Declarator.nestClosings declarator.nests =
      nestText inner declarator.nests := by
  unfold Declarator.nestOpenings
  induction declarator.nests with
  | nil => simp [Declarator.nestClosings, nestText]
  | cons nest nests ih =>
    obtain ⟨kind, left, right, base, name, dimensions, outerDimensions, arguments, inner⟩ := nest
    rw [nestText, ← ih, Declarator.nestClosings, List.map_cons, String.join_cons]
    simp only [String.append_assoc, argumentsText]

/-- The text of a name and of the dimensions after it, perhaps with a space before the name. -/
def innerText (spaced : Bool) (name : Option String) (dimensions : List String) : String :=
  (match name with
    | some name => (if spaced then " " else "") ++ name
    | none => "") ++ Declarator.dimensionsText dimensions

/-- The text of a declarator after its qualifiers, perhaps with a space before the name. -/
def coreText (spaced : Bool) (declarator : Declarator) : String :=
  nestText (innerText spaced declarator.name declarator.dimensions) declarator.nests ++
    Declarator.dimensionsText declarator.outerDimensions ++
    if declarator.kind.isFunction then argumentsText declarator.arguments else ""

/-- The text of a declarator is that of its type, of its qualifiers and of what follows them. -/
theorem render_eq (withType : Bool) (declarator : Declarator) :
    declarator.render withType = Text.trimEnd
      ((if withType then declarator.typeText else "") ++ declarator.right.leadingText ++
        coreText (withType && declarator.spaceBeforeName) declarator) := by
  have hinner : innerText (withType && declarator.spaceBeforeName) declarator.name
      declarator.dimensions =
        declarator.nameText withType ++ Declarator.dimensionsText declarator.dimensions := by
    unfold innerText Declarator.nameText
    cases declarator.name <;> rfl
  rw [coreText, hinner, ← nestOpenings_append_nestClosings]
  obtain ⟨kind, left, right, base, name, dimensions, outerDimensions, arguments, nests⟩ :=
    declarator
  rw [Declarator.render]
  simp only [String.append_assoc, argumentsText]

/-! ### How a text starts -/

/-- The text does not start with a character of a symbol of several characters. -/
def Unlinked (text : String) : Prop :=
  ∀ c ∈ text.toList.head?, isLinkable c = false

/-- A character that joins no other one is in no symbol of several characters. -/
theorem Free.unlinked {text : String} (h : Free text) : Unlinked text := by
  intro c hc
  have := h c hc
  simp only [joinsNothing, Bool.and_eq_true, Bool.not_eq_true'] at this
  exact this.2

/-- A text starts with the first of its parts that is not empty. -/
theorem Free.append {before after : String} (h : Free before) (h' : Free after) :
    Free (before ++ after) := by
  intro c hc
  rw [String.toList_append, List.head?_append, Option.mem_def, Option.or_eq_some_iff] at hc
  rcases hc with hc | ⟨-, hc⟩
  · exact h c hc
  · exact h' c hc

theorem Unlinked.append {before after : String} (h : Unlinked before) (h' : Unlinked after) :
    Unlinked (before ++ after) := by
  intro c hc
  rw [String.toList_append, List.head?_append, Option.mem_def, Option.or_eq_some_iff] at hc
  rcases hc with hc | ⟨-, hc⟩
  · exact h c hc
  · exact h' c hc

theorem free_empty : Free "" := by
  simp [Free]

/-- What stands behind a text that is not empty does not change how it starts. -/
theorem free_append_of_left {before after : String} (h : Free before) (hne : before.toList ≠ []) :
    Free (before ++ after) := by
  obtain ⟨first, rest, hbefore⟩ := List.exists_cons_of_ne_nil hne
  intro c hc
  rw [String.toList_append, hbefore, List.cons_append, List.head?_cons] at hc
  refine h c ?_
  rwa [hbefore, List.head?_cons]

/-- Dimensions start with a bracket, if there are any. -/
theorem free_dimensionsText (dimensions : List String) :
    Free (Declarator.dimensionsText dimensions) := by
  cases dimensions with
  | nil => simp [Free, Declarator.dimensionsText]
  | cons dimension dimensions =>
    rw [Declarator.dimensionsText, List.map_cons, String.join_cons, String.append_assoc,
      String.append_assoc]
    exact free_append_of_left (by decide) (by decide)

theorem free_argumentsText (arguments : List Declarator) : Free (argumentsText arguments) := by
  rw [argumentsText, String.append_assoc]
  exact free_append_of_left (by decide) (by decide)

/-- Nests start with a bracket. -/
theorem free_nestText (inner : String) {nests : List Declarator} (h : nests ≠ []) :
    Free (nestText inner nests) := by
  cases nests with
  | nil => exact absurd rfl h
  | cons nest nests =>
    rw [nestText]
    simp only [String.append_assoc]
    exact free_append_of_left (by decide) (by decide)

/-- With a space before the name, or without a name, the text starts with a blank or a bracket. -/
theorem free_innerText {spaced : Bool} {name : Option String} (h : spaced = true ∨ name = none)
    (dimensions : List String) : Free (innerText spaced name dimensions) := by
  unfold innerText
  cases name with
  | none => exact free_empty.append (free_dimensionsText dimensions)
  | some name =>
    obtain rfl : spaced = true := by simpa using h
    simp only [String.append_assoc]
    exact free_append_of_left (by decide) (by decide)

/-- A name is a word, and no symbol of several characters starts like a word. -/
theorem unlinked_innerText (spaced : Bool) {name : Option String} (h : ∀ text ∈ name, IsWord text)
    (dimensions : List String) : Unlinked (innerText spaced name dimensions) := by
  cases name with
  | none => exact (free_innerText (Or.inr rfl) dimensions).unlinked
  | some name =>
    cases spaced with
    | true => exact (free_innerText (Or.inl rfl) dimensions).unlinked
    | false =>
      refine Unlinked.append (fun c hc => ?_) (free_dimensionsText dimensions).unlinked
      have hname : c ∈ name.toList := List.mem_of_mem_head? (by simpa using hc)
      exact isLinkable_of_isWordlike ((h name rfl).forall_isWordlike c hname)

/-- Inside nests or not, the text of a name does not start like a symbol of several characters. -/
theorem unlinked_nestText (spaced : Bool) {name : Option String} (h : ∀ text ∈ name, IsWord text)
    (dimensions : List String) (nests : List Declarator) :
    Unlinked (nestText (innerText spaced name dimensions) nests) := by
  cases nests with
  | nil => exact unlinked_innerText spaced h _
  | cons nest nests => exact (free_nestText _ (by simp)).unlinked

/-- The text of a declarator behind its qualifiers joins nothing before it, unless a name starts
it. -/
theorem free_coreText {spaced : Bool} {declarator : Declarator}
    (h : spaced = true ∨ declarator.name = none) : Free (coreText spaced declarator) := by
  unfold coreText
  refine (Free.append ?_ (free_dimensionsText _)).append ?_
  · cases hnests : declarator.nests with
    | nil => exact free_innerText h _
    | cons nest nests => exact free_nestText _ (by simp)
  · split
    · exact free_argumentsText _
    · exact free_empty

/-- Not even with a name in front does the text of a declarator join a symbol before it. -/
theorem unlinked_coreText (spaced : Bool) {declarator : Declarator}
    (h : ∀ text ∈ declarator.name, IsWord text) : Unlinked (coreText spaced declarator) := by
  unfold coreText
  refine ((unlinked_nestText spaced h _ _).append (free_dimensionsText _).unlinked).append ?_
  split
  · exact (free_argumentsText _).unlinked
  · exact free_empty.unlinked

/-! ### Names and nests -/

/-- A word for a name had no meaning when the text was cut into tokens. -/
theorem IsNameWord.word_eq {name : String} (h : IsNameWord scope known name) :
    TokenTree.word scope known name = .leaf ⟨name, .unresolved⟩ := by
  have htype : (scope.keywords .c).isTypeKeyword name = false := rfl
  rw [TokenTree.word, TokenClass.ofLexeme, if_neg (by simp [h.not_isQualifier]),
    if_neg (by simp [htype]), if_neg (by simp [h.not_known])]

/-- A name writes itself as a token without meaning. -/
theorem IsNameWord.writes {name : String} (h : IsNameWord scope known name) :
    Writes (scope.keywords .c) known name [.leaf ⟨name, .unresolved⟩] := by
  rw [← h.word_eq]
  exact h.isWord.writes

/-- A name and the dimensions behind it write their tokens, with or without the space in front. -/
theorem writes_innerText (spaced : Bool) {name : Option String}
    (hname : ∀ text ∈ name, IsNameWord scope known text) {dimensions : List TokenTree}
    (hdimensions : TokenTree.AreDimensions scope known dimensions) :
    Writes (scope.keywords .c) known (innerText spaced name (dimensionTexts dimensions))
      (TokenTree.nameTrees name ++ dimensions) := by
  refine Writes.append ?_ (writes_dimensionsText hdimensions) (apart_dimensionsText _ _)
  cases name with
  | none => exact writes_empty
  | some name =>
    have hwrites := (hname name rfl).writes
    cases spaced with
    | true => exact hwrites.space_append
    | false =>
      show Writes (scope.keywords .c) known ("" ++ name) [.leaf ⟨name, .unresolved⟩]
      rwa [String.empty_append]

/-- Nothing goes on from qualifiers to what they stand in front of. -/
theorem apart_leadingText {texts : List String} (h : AreMarks scope texts) {after : String}
    (hafter : Unlinked after) : Apart (⟨texts⟩ : Qualifiers).leadingText after := by
  rw [apart_iff]
  intro p hp c hc
  refine ⟨fun hword => ?_, fun _ => hafter c hc⟩
  rw [leadingText_last h p hp] at hword
  cases hword

/-- The text of one nest around an inner text. -/
theorem writes_nest {right : List String} (hright : AreMarks scope right) {inner : String}
    {trees : List TokenTree} (hinner : Writes (scope.keywords .c) known inner trees)
    (hunlinked : Unlinked inner) :
    Writes (scope.keywords .c) known ("(*" ++ (⟨right⟩ : Qualifiers).leadingText ++ inner ++ ")")
      [.group .parenthesis (TokenTree.marks ("*" :: right) ++ trees)] := by
  have hstar : Writes (scope.keywords .c) known ("*" ++ (⟨right⟩ : Qualifiers).leadingText)
      (TokenTree.marks ("*" :: right)) :=
    IsMark.writes (Or.inl rfl) |>.append (writes_leadingText hright) (apart_of_left (by decide))
  have hapart : Apart ("*" ++ (⟨right⟩ : Qualifiers).leadingText) inner :=
    Apart.append_left (apart_of_left (by decide)) (apart_leadingText hright hunlinked)
  have hgroup := (hstar.append hinner hapart).group .parenthesis
  rwa [show Bracket.parenthesis.opening = "(" from rfl,
    show Bracket.parenthesis.closing = ")" from rfl, ← String.append_assoc, ← String.append_assoc,
    show "(" ++ "*" = "(*" by decide] at hgroup

end CommonDecl
