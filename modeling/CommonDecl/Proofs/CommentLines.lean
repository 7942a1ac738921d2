import CommonDecl.Proofs.Comments
import Mathlib.Data.List.DropRight

/-!
# Comment lines in Fortran

Comments are taken out of Fortran before lines are joined, and a continuation reaches over one line
break. Said line by line (`isContinued`), a line is continued where its code ends in `&`, and the
line after it is resumed without the spaces and the `&` at its start.

A line of spaces, or with nothing but a comment, changes no lexeme between two lines, with one
exception: it takes the place of a line that was to be resumed, so an `&` at the start of that line
stays (`isTransparent_iff`).
-/

namespace CommonDecl

namespace Lexeme

/-! ### Lexemes of closed texts -/

/-- A text without quotes that ends in a blank, if in anything. -/
structure IsClosed (text : List Char) : Prop where
  noDouble : '\"' ∉ text
  noSingle : '\'' ∉ text
  blank : ∀ c ∈ text.getLast?, isGap c = true

theorem IsClosed.append {first second : List Char} (hfirst : IsClosed first)
    (hsecond : IsClosed second) :
    IsClosed (first ++ second) where
  noDouble h := (List.mem_append.mp h).elim hfirst.noDouble hsecond.noDouble
  noSingle h := (List.mem_append.mp h).elim hfirst.noSingle hsecond.noSingle
  blank c hc := by
    rw [List.getLast?_append] at hc
    cases hlast : second.getLast? with
    | none =>
      rw [hlast] at hc
      exact hfirst.blank c hc
    | some d =>
      rw [hlast] at hc
      exact hsecond.blank c (hlast ▸ hc)

/-- What is left at the end of a closed text is closed. -/
theorem IsClosed.of_suffix {first second : List Char} (h : IsClosed first)
    (hsuffix : second <:+ first) :
    IsClosed second where
  noDouble hmem := h.noDouble (hsuffix.subset hmem)
  noSingle hmem := h.noSingle (hsuffix.subset hmem)
  blank c hc := by
    obtain ⟨front, rfl⟩ := hsuffix
    refine h.blank c ?_
    rw [List.getLast?_append, Option.mem_def.mp hc]
    rfl

/-- A blank joins nothing. -/
theorem joins_of_isGap {p c : Char} (h : isGap p = true) : joins p c = false := by
  simp only [isGap, Bool.or_eq_true, beq_iff_eq] at h
  rcases h with (((rfl | rfl) | rfl) | rfl) | rfl <;> rfl

/-- What is unrecognised and no quote is a single character, whatever follows it. -/
theorem shape_of_unrecognised {first : Char} {text : List Char} (hdouble : first ≠ '\"')
    (hsingle : first ≠ '\'') (h : (shape first text).1 = .unrecognised) (after : List Char) :
    shape first after = (.unrecognised, 0) := by
  unfold shape at h ⊢
  split_ifs at h ⊢ with hword hdigit hquote hopening hclosing hsymbol
  · simp [hdouble, hsingle] at hquote
  · rfl

/-- A text that is closed has the same lexemes whatever follows it. -/
theorem IsClosed.forms_append {text : List Char} (h : IsClosed text) (after : List Char) :
    forms (text ++ after) = forms text ++ forms after := by
  -- On the length of the text, as the first lexeme may take in several characters.
  induction hn : text.length using Nat.strong_induction_on generalizing text with
  | _ n ih =>
    subst hn
    cases text with
    | nil => simp
    | cons c rest =>
      by_cases hgap : isGap c = true
      · rw [List.cons_append, forms_of_isGap hgap, forms_of_isGap hgap]
        exact ih rest.length (by simp) (h.of_suffix (List.suffix_cons c rest)) rfl
      · have hgap : isGap c = false := by simpa using hgap
        have hdouble : c ≠ '\"' := fun hc => h.noDouble (by simp [hc])
        have hsingle : c ≠ '\'' := fun hc => h.noSingle (by simp [hc])
        -- A blank at the end joins nothing, so the first lexeme is cut off alike and ends within
        -- the text.
        have hshape : shape c (rest ++ after) = shape c rest ∧ (shape c rest).2 ≤ rest.length := by
          by_cases hkind : (shape c rest).1 = .unrecognised
          · have hshape := shape_of_unrecognised hdouble hsingle hkind
            rw [hshape, hshape]
            exact ⟨rfl, Nat.zero_le _⟩
          · exact ⟨shape_append hkind fun p hp _ _ => joins_of_isGap (h.blank p hp), shape_le hkind⟩
        obtain ⟨hshape, hle⟩ := hshape
        rw [List.cons_append, forms_cons hgap, forms_cons hgap, hshape,
          List.take_append_of_le_length hle, List.drop_append_of_le_length hle, List.cons_append]
        congr 1
        refine ih _ ?_ (h.of_suffix ((List.drop_suffix _ _).trans (List.suffix_cons c rest))) rfl
        simp only [List.length_drop, List.length_cons]
        omega

/-- Spaces in front of a text are no part of a lexeme. -/
theorem forms_append_of_spaces {spaces : List Char} (hspaces : ∀ c ∈ spaces, c = ' ')
    (after : List Char) :
    forms (spaces ++ after) = forms after := by
  induction spaces with
  | nil => rfl
  | cons c rest ih =>
    rw [List.forall_mem_cons] at hspaces
    rw [List.cons_append, forms_of_isGap (by rw [hspaces.1]; rfl), ih hspaces.2]

/-- Each character of a text that is no blank is a character of one lexeme. -/
theorem count_forms {d : Char} (hd : isGap d = false) (text : List Char) :
    ((forms text).flatMap fun form => form.2.toList).count d = text.count d := by
  -- On the length of the text: a blank is none of the characters counted, and a lexeme takes its
  -- own away.
  induction hn : text.length using Nat.strong_induction_on generalizing text with
  | _ n ih =>
    subst hn
    cases text with
    | nil => simp
    | cons c rest =>
      by_cases hgap : isGap c = true
      · have hne : c ≠ d := by
          rintro rfl
          rw [hgap] at hd
          cases hd
        rw [forms_of_isGap hgap, ih rest.length (by simp) rest rfl, List.count_cons_of_ne hne]
      · rw [forms_cons (by simpa using hgap), List.flatMap_cons, String.toList_ofList,
          List.count_append, ih _ ?_ _ rfl, ← List.count_append, List.cons_append,
          List.take_append_drop]
        simp only [List.length_drop, List.length_cons]
        omega

end Lexeme

namespace Comment

open Lexeme

/-! ### Lines -/

/-- The text of lines, with a line feed between each two of them. -/
def ofLines (lines : List (List Char)) : List Char :=
  ['\n'].intercalate lines

/-- A line without quotes and tabs. -/
structure IsPlainLine (line : List Char) : Prop where
  noBreak : '\n' ∉ line
  noTab : '\t' ∉ line
  noDouble : '\"' ∉ line
  noSingle : '\'' ∉ line

/-- A line of spaces, or spaces and a comment. -/
structure IsCommentLine (line : List Char) : Prop where
  noBreak : '\n' ∉ line
  blank : ∀ c ∈ line.takeWhile (· ≠ '!'), c = ' '

/-- A line without the carriage return that belongs to its line break. -/
def withoutReturn (line : List Char) : List Char :=
  if line.getLast? = some '\r' then line.dropLast else line

/-- What stands on a line before its comment. -/
def code (line : List Char) : List Char :=
  (withoutReturn line).takeWhile (· ≠ '!')

/-- The first character is `&`, spaces apart. -/
def startsWithAmpersand (text : List Char) : Bool :=
  (dropSpaces text).head? = some '&'

/-- The last character is `&`, spaces apart. -/
def endsInAmpersand (text : List Char) : Bool :=
  (text.rdropWhile (· = ' ')).getLast? = some '&'

/-- A text that a continuation reaches, without what belongs to the continuation. -/
def resumed (text : List Char) : List Char :=
  dropAmpersand (dropSpaces text)

/-- A text as it is resumed, if a continuation reaches it. -/
def resumedIf (reached : Bool) (text : List Char) : List Char :=
  if reached then resumed text else text

/-- A continuation goes on behind the last of these lines; `reached` says whether one reaches the
first. -/
def isContinued (reached : Bool) : List (List Char) → Bool
  | [] => reached
  | line :: rest => isContinued (endsInAmpersand (resumedIf reached (code line))) rest

/-- The lines start with `&`. A line that holds a single `&` does not count where another line
follows, as it is a continuation itself. -/
def startAgain : List (List Char) → Bool
  | [] => false
  | [line] => startsWithAmpersand line
  | line :: second :: rest =>
    startsWithAmpersand line &&
      (!(resumed (code line)).all (· = ' ') || startAgain (second :: rest))

@[elab_as_elim]
theorem startAgain_induct {motive : List (List Char) → Prop} (nil : motive [])
    (last : ∀ line, motive [line])
    (line : ∀ line second rest, motive (second :: rest) → motive (line :: second :: rest))
    (lines : List (List Char)) : motive lines :=
  startAgain.induct motive nil last line lines

/-! ### Taking comments out line by line -/

/-- A text as it is before lines are joined. -/
def uncommented (text : List Char) : List Char :=
  dropBangLines (tabsToSpaces (unifyLineEnds text))

/-- A line as it is before lines are joined. -/
def uncommentedLine (line : List Char) : List Char :=
  dropBangLines (tabsToSpaces (withoutReturn line))

section

variable {line text after : List Char}

/-- Whether a line ends in a carriage return is seen at its last character only. -/
theorem withoutReturn_cons {c d : Char} {rest : List Char} :
    withoutReturn (c :: d :: rest) = c :: withoutReturn (d :: rest) := by
  rw [withoutReturn, withoutReturn, List.getLast?_cons_cons]
  split
  · rw [List.dropLast_cons_cons]
  · rfl

/-- A line without its carriage return is the line or the front of it. -/
theorem withoutReturn_begins (line : List Char) : withoutReturn line <+: line := by
  rw [withoutReturn]
  split
  · exact List.dropLast_prefix line
  · exact List.prefix_refl line

/-- A line break is made one character, with the carriage return before it if there is one. -/
theorem unifyLineEnds_line (hline : '\n' ∉ line) (after : List Char) :
    unifyLineEnds (line ++ '\n' :: after) = withoutReturn line ++ '\n' :: unifyLineEnds after := by
  have hkeep {c : Char} {rest : List Char} (h : c = '\r' → rest.head? ≠ some '\n') :
      unifyLineEnds (c :: rest) = c :: unifyLineEnds rest := by
    rw [unifyLineEnds.eq_2]
    rintro _ rfl rfl
    exact h rfl rfl
  have hbreak : unifyLineEnds ('\n' :: after) = '\n' :: unifyLineEnds after :=
    hkeep fun h => absurd h (by decide)
  -- On the characters of the line: only the last one can be the carriage return of its break.
  induction line with
  | nil => exact hbreak
  | cons c rest ih =>
    rw [List.mem_cons, not_or] at hline
    cases rest with
    | nil =>
      by_cases hc : c = '\r'
      · subst hc
        rfl
      · have hlast : withoutReturn [c] = [c] := by
          rw [withoutReturn, if_neg]
          exact fun h => hc (Option.some.inj h)
        rw [List.singleton_append, hkeep fun h => absurd h hc, hbreak, hlast, List.singleton_append]
    | cons d rest =>
      have hd : '\n' ≠ d := fun h => hline.2 (by rw [h]; exact List.mem_cons_self)
      rw [List.cons_append, hkeep, ih hline.2, withoutReturn_cons, List.cons_append]
      exact fun _ h => hd (Option.some.inj h).symm

/-- Within a line no line break is made one character. -/
theorem unifyLineEnds_of_line (hline : '\n' ∉ line) : unifyLineEnds line = line := by
  induction line using unifyLineEnds_induct with
  | lineEnd rest ih => exact absurd (by simp) hline
  | char c rest hnot ih =>
    rw [unifyLineEnds.eq_2 c rest hnot, ih fun h => hline (List.mem_cons_of_mem _ h)]
  | nil => rfl

/-- Nothing is left of a line from its end on. -/
theorem dropLine_of_line (hline : '\n' ∉ line) : dropLine line = [] := by
  have happend := @dropLine_append line [] hline
  rwa [List.append_nil] at happend

/-- Comments are taken out line by line, as a comment ends with its line. -/
theorem dropBangLines_line (hline : '\n' ∉ line) (after : List Char) :
    dropBangLines (line ++ '\n' :: after) = dropBangLines line ++ '\n' :: dropBangLines after := by
  induction line with
  | nil => rw [List.nil_append, dropBangLines_cons (by decide), dropBangLines, List.nil_append]
  | cons c rest ih =>
    rw [List.mem_cons, not_or] at hline
    by_cases hc : c = '!'
    · subst hc
      have hbreak : dropLine ('\n' :: after) = '\n' :: after :=
        List.dropWhile_cons_of_neg (by decide)
      rw [List.cons_append, dropBangLines, dropBangLines, dropLine_append hline.2,
        dropLine_of_line hline.2, hbreak, dropBangLines_cons (by decide), dropBangLines]
      rfl
    · rw [List.cons_append, dropBangLines_cons hc, dropBangLines_cons hc, ih hline.2,
        List.cons_append]

/-- The comment of a line becomes a space. -/
theorem exists_dropBangLines (hline : '\n' ∉ line) :
    ∃ pad, dropBangLines line = line.takeWhile (· ≠ '!') ++ pad ∧ ∀ c ∈ pad, c = ' ' := by
  induction line with
  | nil => exact ⟨[], by rw [dropBangLines]; rfl, by simp⟩
  | cons c rest ih =>
    rw [List.mem_cons, not_or] at hline
    by_cases hc : c = '!'
    · subst hc
      refine ⟨[' '], ?_, by simp⟩
      rw [dropBangLines, dropLine_of_line hline.2, dropBangLines,
        List.takeWhile_cons_of_neg (by decide), List.nil_append]
    · obtain ⟨pad, hrest, hpad⟩ := ih hline.2
      refine ⟨pad, ?_, hpad⟩
      rw [dropBangLines_cons hc, hrest, List.takeWhile_cons_of_pos (by simpa using hc),
        List.cons_append]

theorem not_mem_withoutReturn {c : Char} (hc : c ∉ line) : c ∉ withoutReturn line :=
  fun h => hc ((withoutReturn_begins line).subset h)

theorem not_mem_dropBangLines {c : Char} (hc : c ∉ text) (hspace : c ≠ ' ') :
    c ∉ dropBangLines text :=
  fun h => (mem_of_mem_dropBangLines h).elim hspace fun h => hc h.1

theorem not_mem_tabsToSpaces {c : Char} (hc : c ∉ text) (hspace : c ≠ ' ') :
    c ∉ tabsToSpaces text := by
  intro h
  obtain ⟨d, hd, hsame⟩ := List.mem_map.mp h
  split at hsame
  · exact hspace hsame.symm
  · exact hc (hsame ▸ hd)

/-- A text is prepared line by line. -/
theorem uncommented_line (hline : '\n' ∉ line) (after : List Char) :
    uncommented (line ++ '\n' :: after) = uncommentedLine line ++ '\n' :: uncommented after := by
  have htabs : tabsToSpaces (withoutReturn line ++ '\n' :: unifyLineEnds after) =
      tabsToSpaces (withoutReturn line) ++ '\n' :: tabsToSpaces (unifyLineEnds after) :=
    List.map_append
  have hbreak : '\n' ∉ tabsToSpaces (withoutReturn line) :=
    not_mem_tabsToSpaces (not_mem_withoutReturn hline) (by decide)
  rw [uncommented, unifyLineEnds_line hline, htabs, dropBangLines_line hbreak, uncommentedLine,
    uncommented]

/-- A line keeps its code, with at most spaces behind it. -/
theorem exists_uncommentedLine (hline : IsPlainLine line) :
    ∃ pad, uncommentedLine line = code line ++ pad ∧ ∀ c ∈ pad, c = ' ' := by
  rw [uncommentedLine, tabsToSpaces_eq (not_mem_withoutReturn hline.noTab)]
  exact exists_dropBangLines (not_mem_withoutReturn hline.noBreak)

/-! ### Ampersands at the ends of a line -/

/-- Spaces do not count in front of the `&`. -/
theorem startsWithAmpersand_cons (c : Char) (rest : List Char) :
    startsWithAmpersand (c :: rest) = if c = ' ' then startsWithAmpersand rest else c = '&' := by
  rw [startsWithAmpersand, dropSpaces]
  split
  · rename_i hc
    rw [List.dropWhile_cons_of_pos (by simpa using hc), startsWithAmpersand, dropSpaces]
  · rename_i hc
    rw [List.dropWhile_cons_of_neg (by simpa using hc), List.head?_cons]
    simp

/-- What follows a line break does not count. -/
theorem startsWithAmpersand_append (text after : List Char) :
    startsWithAmpersand (text ++ '\n' :: after) = startsWithAmpersand text := by
  induction text with
  | nil => rfl
  | cons c rest ih => rw [List.cons_append, startsWithAmpersand_cons, startsWithAmpersand_cons, ih]

/-- A carriage return at the end of a line does not change how the line starts. -/
theorem startsWithAmpersand_withoutReturn (line : List Char) :
    startsWithAmpersand (withoutReturn line) = startsWithAmpersand line := by
  induction line with
  | nil => rfl
  | cons c rest ih =>
    cases rest with
    | nil =>
      rw [withoutReturn]
      split
      · rename_i hc
        obtain rfl : c = '\r' := Option.some.inj hc
        rfl
      · rfl
    | cons d rest => rw [withoutReturn_cons, startsWithAmpersand_cons, startsWithAmpersand_cons, ih]

/-- A comment leaves a blank, so a line starts with `&` without its comment if it does with it. -/
theorem startsWithAmpersand_dropBangLines (hline : '\n' ∉ line) :
    startsWithAmpersand (dropBangLines line) = startsWithAmpersand line := by
  induction line with
  | nil => rw [dropBangLines]
  | cons c rest ih =>
    rw [List.mem_cons, not_or] at hline
    by_cases hc : c = '!'
    · subst hc
      rw [dropBangLines, dropLine_of_line hline.2, dropBangLines]
      rfl
    · rw [dropBangLines_cons hc, startsWithAmpersand_cons, startsWithAmpersand_cons, ih hline.2]

/-- A line that is prepared starts with `&` if the line does. -/
theorem startsWithAmpersand_uncommentedLine (hline : IsPlainLine line) :
    startsWithAmpersand (uncommentedLine line) = startsWithAmpersand line := by
  rw [uncommentedLine, tabsToSpaces_eq (not_mem_withoutReturn hline.noTab),
    startsWithAmpersand_dropBangLines (not_mem_withoutReturn hline.noBreak),
    startsWithAmpersand_withoutReturn]

/-- The last line of a text keeps its carriage return. -/
theorem uncommented_of_line (hline : IsPlainLine line) : uncommented line = dropBangLines line := by
  rw [uncommented, unifyLineEnds_of_line hline.noBreak, tabsToSpaces_eq hline.noTab]

/-- Spaces at the end of a text are dropped with those before them. -/
theorem rdropWhile_append_spaces {pad : List Char} (hpad : ∀ c ∈ pad, c = ' ') (text : List Char) :
    (text ++ pad).rdropWhile (· = ' ') = text.rdropWhile (· = ' ') := by
  induction pad using List.reverseRecOn with
  | nil => rw [List.append_nil]
  | append_singleton pad c ih =>
    rw [List.forall_mem_append] at hpad
    rw [← List.append_assoc, List.rdropWhile_concat_pos _ _ _ (by simpa using hpad.2), ih hpad.1]

/-- Spaces do not count behind the `&`. -/
theorem endsInAmpersand_append_spaces {pad : List Char} (hpad : ∀ c ∈ pad, c = ' ')
    (text : List Char) :
    endsInAmpersand (text ++ pad) = endsInAmpersand text := by
  rw [endsInAmpersand, rdropWhile_append_spaces hpad, endsInAmpersand]

/-- A line is blank, or it ends in a character other than a space and in spaces. -/
theorem exists_lastChar (line : List Char) :
    (∀ c ∈ line, c = ' ') ∧ endsInAmpersand line = false ∨
      ∃ body c spaces, line = body ++ c :: spaces ∧ c ≠ ' ' ∧ (∀ d ∈ spaces, d = ' ') ∧
        endsInAmpersand line = decide (c = '&') := by
  -- From the end of the line: a space is added to the spaces, and any other character is the last
  -- one.
  induction line using List.reverseRecOn with
  | nil => exact Or.inl ⟨by simp, rfl⟩
  | append_singleton line c ih =>
    by_cases hc : c = ' '
    · have hspace : ∀ d ∈ [c], d = ' ' := by simpa using hc
      rw [endsInAmpersand_append_spaces hspace]
      rcases ih with ⟨hspaces, hend⟩ | ⟨body, d, spaces, rfl, hd, hspaces, hend⟩
      · exact Or.inl ⟨List.forall_mem_append.mpr ⟨hspaces, hspace⟩, hend⟩
      · exact Or.inr ⟨body, d, spaces ++ [c], by simp, hd,
          List.forall_mem_append.mpr ⟨hspaces, hspace⟩, hend⟩
    · refine Or.inr ⟨line, c, [], rfl, hc, by simp, ?_⟩
      rw [endsInAmpersand, List.rdropWhile_concat_neg _ _ _ (by simpa using hc),
        List.getLast?_concat]
      simp

/-- Preparing a line leaves characters of it and puts in spaces. -/
theorem mem_of_mem_uncommentedLine (hline : IsPlainLine line) {c : Char}
    (hc : c ∈ uncommentedLine line) :
    c = ' ' ∨ c ∈ line := by
  rw [uncommentedLine, tabsToSpaces_eq (not_mem_withoutReturn hline.noTab)] at hc
  exact (mem_of_mem_dropBangLines hc).imp_right fun h => (withoutReturn_begins line).subset h.1

/-! ### Resumed texts -/

@[simp]
theorem resumedIf_true (text : List Char) : resumedIf true text = resumed text := rfl

@[simp]
theorem resumedIf_false (text : List Char) : resumedIf false text = text := rfl

/-- Spaces are dropped up to the end of their line. -/
theorem dropSpaces_append_newline (text after : List Char) :
    dropSpaces (text ++ '\n' :: after) = dropSpaces text ++ '\n' :: after := by
  induction text with
  | nil => rfl
  | cons c rest ih =>
    by_cases hc : c = ' '
    · subst hc
      exact ih
    · rw [List.cons_append, dropSpaces, dropSpaces, List.dropWhile_cons_of_neg (by simpa using hc),
        List.dropWhile_cons_of_neg (by simpa using hc), List.cons_append]

theorem dropSpaces_of_spaces {spaces : List Char} (hspaces : ∀ c ∈ spaces, c = ' ')
    (after : List Char) :
    dropSpaces (spaces ++ '\n' :: after) = '\n' :: after := by
  have hgone : dropSpaces spaces = [] := List.dropWhile_eq_nil_iff.mpr (by simpa using hspaces)
  rw [dropSpaces_append_newline, hgone, List.nil_append]

/-- An `&` is dropped at the start of a text only. -/
theorem dropAmpersand_append {text : List Char} (h : text ≠ []) (after : List Char) :
    dropAmpersand (text ++ after) = dropAmpersand text ++ after := by
  cases text with
  | nil => exact absurd rfl h
  | cons c rest =>
    by_cases hc : c = '&'
    · subst hc
      rfl
    · have hkeep {others : List Char} : dropAmpersand (c :: others) = c :: others := by
        rw [dropAmpersand]
        rintro _ ⟨⟩
        exact hc rfl
      rw [List.cons_append, hkeep, hkeep, List.cons_append]

theorem dropAmpersand_suffix (text : List Char) : dropAmpersand text <:+ text := by
  unfold dropAmpersand
  split
  · exact List.suffix_cons _ _
  · exact List.suffix_refl _

/-- What is resumed is the end of a text. -/
theorem mem_of_mem_resumed {c : Char} (hc : c ∈ resumed text) : c ∈ text :=
  ((dropAmpersand_suffix _).trans (List.dropWhile_suffix _)).subset hc

theorem mem_of_mem_resumedIf {reached : Bool} {c : Char} (hc : c ∈ resumedIf reached text) :
    c ∈ text := by
  cases reached with
  | false => exact hc
  | true => exact mem_of_mem_resumed hc

/-- A line is resumed by itself. -/
theorem resumedIf_append_newline (reached : Bool) (text after : List Char) :
    resumedIf reached (text ++ '\n' :: after) = resumedIf reached text ++ '\n' :: after := by
  cases reached with
  | false => rfl
  | true =>
    show dropAmpersand (dropSpaces (text ++ '\n' :: after)) =
      dropAmpersand (dropSpaces text) ++ '\n' :: after
    rw [dropSpaces_append_newline]
    cases hspaces : dropSpaces text with
    | nil => rfl
    | cons c rest => rw [dropAmpersand_append (List.cons_ne_nil c rest)]

/-- Spaces behind a line stay spaces, or go where the line is blank. -/
theorem exists_resumedIf_append {pad : List Char} (hpad : ∀ c ∈ pad, c = ' ') (reached : Bool)
    (text : List Char) :
    ∃ pad', resumedIf reached (text ++ pad) = resumedIf reached text ++ pad' ∧ ∀ c ∈ pad',
      c = ' ' := by
  cases reached with
  | false => exact ⟨pad, rfl, hpad⟩
  | true =>
    have hgone : pad.dropWhile (· = ' ') = [] := List.dropWhile_eq_nil_iff.mpr (by simpa using hpad)
    show ∃ pad', dropAmpersand (dropSpaces (text ++ pad)) =
      dropAmpersand (dropSpaces text) ++ pad' ∧ _
    rw [dropSpaces, List.dropWhile_append, hgone, ← dropSpaces]
    cases hspaces : dropSpaces text with
    | nil => exact ⟨[], rfl, by simp⟩
    | cons c rest => exact ⟨pad, dropAmpersand_append (List.cons_ne_nil c rest) pad, hpad⟩

/-- A line is resumed and continued as its code is. -/
theorem endsInAmpersand_resumedIf_uncommentedLine (hline : IsPlainLine line) (reached : Bool) :
    endsInAmpersand (resumedIf reached (uncommentedLine line)) =
      endsInAmpersand (resumedIf reached (code line)) := by
  obtain ⟨pad, hcode, hpad⟩ := exists_uncommentedLine hline
  obtain ⟨pad', hresumed, hpad'⟩ := exists_resumedIf_append hpad reached (code line)
  rw [hcode, hresumed, endsInAmpersand_append_spaces hpad']

/-- A line holds a single `&` where its code does. -/
theorem all_resumed_code (hline : IsPlainLine line) :
    (resumed (code line)).all (· = ' ') = true ↔ ∀ c ∈ resumed (uncommentedLine line), c = ' ' := by
  obtain ⟨pad, hcode, hpad⟩ := exists_uncommentedLine hline
  obtain ⟨pad', hresumed, hpad'⟩ := exists_resumedIf_append hpad true (code line)
  rw [resumedIf_true, resumedIf_true] at hresumed
  rw [hcode, hresumed, List.forall_mem_append, List.all_eq_true]
  simp only [decide_eq_true_eq]
  exact ⟨fun h => ⟨h, hpad'⟩, And.left⟩

/-! ### Joining lines -/

/-- A continuation is spaces and a line break, and what it goes on with is resumed. -/
theorem afterContinuation?_eq_some_iff {rest : List Char} :
    afterContinuation? text = some rest ↔ ∃ after, dropSpaces text = '\n' :: after ∧
      rest = resumed after := by
  rw [afterContinuation?]
  cases dropSpaces text with
  | nil => simp
  | cons c after =>
    by_cases hc : c = '\n'
    · subst hc
      simp [resumed, eq_comm]
    · simp [hc]

/-- There is no continuation where another character follows the spaces. -/
theorem afterContinuation?_eq_none (h : (dropSpaces text).head? ≠ some '\n') :
    afterContinuation? text = none := by
  rw [Option.eq_none_iff_forall_ne_some]
  intro rest hsome
  obtain ⟨after, hspaces, -⟩ := afterContinuation?_eq_some_iff.mp hsome
  exact h (congrArg List.head? hspaces)

/-- A continuation goes to the end of its line. -/
theorem afterContinuation?_spaces {spaces : List Char} (hspaces : ∀ c ∈ spaces, c = ' ')
    (after : List Char) :
    afterContinuation? (spaces ++ '\n' :: after) = some (resumed after) := by
  rw [afterContinuation?_eq_some_iff]
  exact ⟨after, dropSpaces_of_spaces hspaces after, rfl⟩

/-- An `&` with more of its line behind it continues nothing. -/
theorem afterContinuation?_line (hline : '\n' ∉ line) (hspaces : ¬ ∀ c ∈ line, c = ' ')
    (after : List Char) :
    afterContinuation? (line ++ '\n' :: after) = none := by
  refine afterContinuation?_eq_none ?_
  rw [dropSpaces_append_newline]
  cases hdrop : dropSpaces line with
  | nil => exact absurd (by simpa using List.dropWhile_eq_nil_iff.mp hdrop) hspaces
  | cons c rest =>
    have hmem : c ∈ dropSpaces line := by rw [hdrop]; exact List.mem_cons_self
    rw [List.cons_append, List.head?_cons]
    rintro ⟨⟩
    exact hline ((List.dropWhile_suffix _).subset hmem)

/-- No continuation starts within a line. -/
theorem head?_dropSpaces_append (hline : '\n' ∉ line)
    (hafter : (dropSpaces after).head? ≠ some '\n') :
    (dropSpaces (line ++ after)).head? ≠ some '\n' := by
  induction line with
  | nil => exact hafter
  | cons c rest ih =>
    rw [List.mem_cons, not_or] at hline
    by_cases hc : c = ' '
    · subst hc
      exact ih hline.2
    · rw [List.cons_append, dropSpaces, List.dropWhile_cons_of_neg (by simpa using hc),
        List.head?_cons]
      exact fun h => hline.1 (Option.some.inj h).symm

/-- An `&` with more of its line behind it joins nothing. -/
theorem joinContinuedLines_append (hline : '\n' ∉ line)
    (hafter : (dropSpaces after).head? ≠ some '\n') :
    joinContinuedLines (line ++ after) = line ++ joinContinuedLines after := by
  induction line with
  | nil => rfl
  | cons c rest ih =>
    rw [List.mem_cons, not_or] at hline
    rw [List.cons_append]
    by_cases hc : c = '&'
    · subst hc
      have hnone := afterContinuation?_eq_none (head?_dropSpaces_append hline.2 hafter)
      rw [joinContinuedLines_of_none hnone, ih hline.2, List.cons_append]
    · rw [joinContinuedLines_cons hc, ih hline.2, List.cons_append]

/-- Without `&`, a text has no continuation and is kept. -/
theorem joinContinuedLines_append_of_not_mem {text : List Char} (h : '&' ∉ text)
    (after : List Char) :
    joinContinuedLines (text ++ after) = text ++ joinContinuedLines after := by
  induction text with
  | nil => rfl
  | cons c rest ih =>
    rw [List.mem_cons, not_or] at h
    rw [List.cons_append, joinContinuedLines_cons (Ne.symm h.1), ih h.2, List.cons_append]

/-- A line keeps all but the `&` at its end, and with it the line break; what it keeps ends in a
blank. -/
theorem exists_joinContinuedLines_line (hline : '\n' ∉ line) :
    ∃ kept gap, (∀ c ∈ kept, c ∈ line) ∧ (gap = ' ' ∨ gap = '\n') ∧ ∀ after,
      joinContinuedLines (line ++ '\n' :: after) =
        kept ++ gap :: joinContinuedLines (resumedIf (endsInAmpersand line) after) := by
  have hkeeps {spaces : List Char} (hspaces : ∀ c ∈ spaces, c = ' ') (after : List Char) :
      joinContinuedLines (spaces ++ '\n' :: after) =
          spaces ++ '\n' :: joinContinuedLines after := by
    rw [joinContinuedLines_append_of_not_mem fun h => absurd (hspaces _ h) (by decide),
      joinContinuedLines_cons (by decide)]
  -- The line is blank, or the last character decides whether it is continued.
  rcases exists_lastChar line with ⟨hspaces, hend⟩ | ⟨body, c, spaces, rfl, hc, hspaces, hend⟩
  · exact ⟨line, '\n', fun _ => id, Or.inr rfl, fun after =>
      by rw [hkeeps hspaces, hend, resumedIf_false]⟩
  · rw [List.mem_append, List.mem_cons, not_or, not_or] at hline
    have hhead (after : List Char) : (dropSpaces (c :: after)).head? ≠ some '\n' := by
      rw [dropSpaces, List.dropWhile_cons_of_neg (by simpa using hc), List.head?_cons]
      exact fun h => hline.2.1 (Option.some.inj h).symm
    -- An `&` at the end goes away with its line break; any other character stays, and so does the
    -- break.
    by_cases hampersand : c = '&'
    · subst hampersand
      refine ⟨body, ' ', fun _ => List.mem_append_left _, Or.inl rfl, fun after => ?_⟩
      rw [List.append_assoc, List.cons_append, joinContinuedLines_append hline.1 (hhead _),
        joinContinuedLines_of_some (afterContinuation?_spaces hspaces after), hend,
        decide_eq_true rfl, resumedIf_true]
    · refine ⟨body ++ c :: spaces, '\n', fun _ => id, Or.inr rfl, fun after => ?_⟩
      rw [List.append_assoc, List.cons_append, joinContinuedLines_append hline.1 (hhead _),
        joinContinuedLines_cons hampersand, hkeeps hspaces, hend, decide_eq_false hampersand,
        resumedIf_false,
        List.append_assoc, List.cons_append]

/-- Lines are joined one after the other: what is left of them does not depend on what follows. -/
theorem exists_joinContinuedLines {lines : List (List Char)}
    (hlines : ∀ line ∈ lines, IsPlainLine line) (reached : Bool) :
    ∃ kept, IsClosed kept ∧ ∀ after,
      joinContinuedLines (resumedIf reached (uncommented (lines.flatMap (· ++ ['\n']) ++ after))) =
        kept ++ joinContinuedLines (resumedIf (isContinued reached lines) (uncommented after)) := by
  -- All that a line passes on to the next one is whether a continuation reaches it.
  induction lines generalizing reached with
  | nil => exact ⟨[], ⟨by simp, by simp, by simp⟩, fun _ => rfl⟩
  | cons line rest ih =>
    rw [List.forall_mem_cons] at hlines
    obtain ⟨hline, hrest⟩ := hlines
    have hmem {c : Char} (hc : c ∈ resumedIf reached (uncommentedLine line)) : c = ' ' ∨ c ∈ line :=
      mem_of_mem_uncommentedLine hline (mem_of_mem_resumedIf hc)
    have hbreak : '\n' ∉ resumedIf reached (uncommentedLine line) := fun h =>
      (hmem h).elim (by decide) hline.noBreak
    obtain ⟨kept, gap, hkept, hgap, hfirst⟩ := exists_joinContinuedLines_line hbreak
    rw [endsInAmpersand_resumedIf_uncommentedLine hline] at hfirst
    -- What a continuation does to the rest of the lines is the induction hypothesis for this line's
    -- end.
    obtain ⟨others, hothers, hafter⟩ := ih hrest (endsInAmpersand (resumedIf reached (code line)))
    have hkeeps {c : Char} (hc : c ∈ kept ++ [gap]) : c = ' ' ∨ c = '\n' ∨ c ∈ line := by
      rcases List.mem_append.mp hc with hc | hc
      · exact (hmem (hkept c hc)).imp_right Or.inr
      · rw [List.mem_singleton.mp hc]
        exact hgap.imp_right Or.inl
    refine ⟨kept ++ [gap] ++ others, .append ⟨?_, ?_, ?_⟩ hothers, fun after => ?_⟩
    · exact fun h => (hkeeps h).elim (by decide) fun h => h.elim (by decide) hline.noDouble
    · exact fun h => (hkeeps h).elim (by decide) fun h => h.elim (by decide) hline.noSingle
    · intro c hc
      obtain rfl : gap = c := by simpa using hc
      rcases hgap with rfl | rfl <;> rfl
    · have hlines : (line :: rest).flatMap (· ++ ['\n']) ++ after =
          line ++ '\n' :: (rest.flatMap (· ++ ['\n']) ++ after) := by simp
      rw [hlines, uncommented_line hline.noBreak, resumedIf_append_newline, hfirst, hafter,
        isContinued]
      simp

/-! ### Lines that start again -/

/-- Spaces that a text starts with change none of its lexemes. -/
theorem forms_joinContinuedLines_dropSpaces (text : List Char) :
    forms (joinContinuedLines (dropSpaces text)) = forms (joinContinuedLines text) := by
  induction text with
  | nil => rfl
  | cons c rest ih =>
    by_cases hc : c = ' '
    · subst hc
      rw [joinContinuedLines_cons (by decide), forms_of_isGap rfl, ← ih]
      rfl
    · rw [dropSpaces, List.dropWhile_cons_of_neg (by simpa using hc)]

/-- Behind the spaces of a line that starts with `&` stands what is resumed of it. -/
theorem dropSpaces_of_startsWithAmpersand (h : startsWithAmpersand text = true) :
    dropSpaces text = '&' :: resumed text := by
  rw [startsWithAmpersand, decide_eq_true_eq] at h
  obtain ⟨rest, hrest⟩ := List.head?_eq_some_iff.mp h
  rw [resumed, hrest]
  rfl

/-- Where a text starts with no `&`, it makes no difference whether a continuation reaches it. -/
theorem forms_resumed_of_not (h : startsWithAmpersand text = false) :
    forms (joinContinuedLines (resumed text)) = forms (joinContinuedLines text) := by
  have hresumed : resumed text = dropSpaces text := by
    rw [resumed, dropAmpersand]
    intro rest hrest
    rw [startsWithAmpersand, hrest] at h
    cases h
  rw [hresumed, forms_joinContinuedLines_dropSpaces]

/-- An `&` that continues nothing stays, unless a continuation reaches it. -/
theorem forms_resumed_ne (h : startsWithAmpersand text = true)
    (hnone : afterContinuation? (resumed text) = none) :
    forms (joinContinuedLines (resumed text)) ≠ forms (joinContinuedLines text) := by
  rw [← forms_joinContinuedLines_dropSpaces text, dropSpaces_of_startsWithAmpersand h,
    joinContinuedLines_of_none hnone]
  intro heq
  -- One text has one `&` more than the other, and lexemes lose none.
  have hcount := congrArg (fun forms => (forms.flatMap fun form => form.2.toList).count '&') heq
  rw [count_forms (by rfl), count_forms (by rfl), List.count_cons_self] at hcount
  omega

/-- A line with a single `&` continues the text behind it, unless a continuation reaches the line.
-/
theorem forms_resumed_of_single (h : startsWithAmpersand text = true)
    (hafter : dropSpaces (resumed text) = '\n' :: after) :
    forms (joinContinuedLines (resumed text)) = forms (joinContinuedLines after) ∧
      forms (joinContinuedLines text) = forms (joinContinuedLines (resumed after)) := by
  have hsome : afterContinuation? (resumed text) = some (resumed after) :=
    afterContinuation?_eq_some_iff.mpr ⟨after, hafter, rfl⟩
  constructor
  · rw [← forms_joinContinuedLines_dropSpaces, hafter, joinContinuedLines_cons (by decide),
      forms_of_isGap rfl]
  · rw [← forms_joinContinuedLines_dropSpaces text, dropSpaces_of_startsWithAmpersand h,
      joinContinuedLines_of_some hsome, forms_of_isGap rfl]

theorem ofLines_singleton (line : List Char) : ofLines [line] = line := by
  simp [ofLines, List.intercalate]

/-- Each line but the last one has a line break behind it. -/
theorem ofLines_cons (line : List Char) {rest : List (List Char)} (hrest : rest ≠ []) :
    ofLines (line :: rest) = line ++ '\n' :: ofLines rest := by
  obtain ⟨second, others, rfl⟩ := List.exists_cons_of_ne_nil hrest
  simp [ofLines, List.intercalate]

/-- It makes a difference whether a continuation reaches lines, if they start with `&`. -/
theorem forms_resumed_iff {lines : List (List Char)} (hlines : ∀ line ∈ lines, IsPlainLine line)
    (hne : lines ≠ []) :
    forms (joinContinuedLines (resumed (uncommented (ofLines lines)))) =
        forms (joinContinuedLines (uncommented (ofLines lines))) ↔
      startAgain lines = false := by
  -- On the lines; a single `&` on the first one hands the question on to the second.
  induction lines using startAgain_induct with
  | nil => exact absurd rfl hne
  | last line =>
    have hline := hlines line List.mem_cons_self
    have htext : uncommented (ofLines [line]) = dropBangLines line := by
      rw [ofLines_singleton, uncommented_of_line hline]
    have hstarts := startsWithAmpersand_dropBangLines hline.noBreak
    rw [htext, startAgain, ← hstarts]
    cases h : startsWithAmpersand (dropBangLines line) with
    | false => simp [forms_resumed_of_not h]
    | true =>
      -- There is no further line to continue with.
      have hnone : afterContinuation? (resumed (dropBangLines line)) = none := by
        refine afterContinuation?_eq_none fun hhead => ?_
        have hmem : '\n' ∈ resumed (dropBangLines line) :=
          (List.dropWhile_suffix _).subset (List.mem_of_mem_head? hhead)
        exact not_mem_dropBangLines hline.noBreak (by decide) (mem_of_mem_resumed hmem)
      simpa using forms_resumed_ne h hnone
  | line line second rest ih =>
    rw [List.forall_mem_cons] at hlines
    obtain ⟨hline, hothers⟩ := hlines
    have ih := ih hothers (List.cons_ne_nil second rest)
    rw [ofLines_cons line (List.cons_ne_nil second rest), uncommented_line hline.noBreak,
      startAgain]
    generalize uncommented (ofLines (second :: rest)) = after at ih ⊢
    have hstarts : startsWithAmpersand (uncommentedLine line ++ '\n' :: after) =
        startsWithAmpersand line := by
      rw [startsWithAmpersand_append, startsWithAmpersand_uncommentedLine hline]
    have hresumed : resumed (uncommentedLine line ++ '\n' :: after) =
        resumed (uncommentedLine line) ++ '\n' :: after :=
      resumedIf_append_newline true _ _
    rw [← hstarts]
    cases h : startsWithAmpersand (uncommentedLine line ++ '\n' :: after) with
    | false => simp [forms_resumed_of_not h]
    | true =>
      have hbreak : '\n' ∉ resumed (uncommentedLine line) := fun hmem =>
        (mem_of_mem_uncommentedLine hline (mem_of_mem_resumed hmem)).elim (by decide) hline.noBreak
      by_cases hblank : ∀ c ∈ resumed (uncommentedLine line), c = ' '
      · -- A single `&` is taken away and leaves the next line as it is, or stays and resumes that
        -- line.
        obtain ⟨hfirst, hsecond⟩ :=
          forms_resumed_of_single h (hresumed ▸ dropSpaces_of_spaces hblank after)
        rw [hfirst, hsecond, (all_resumed_code hline).mpr hblank, eq_comm, ih]
        simp
      · have hne := forms_resumed_ne h (hresumed ▸ afterContinuation?_line hbreak hblank after)
        rw [Bool.eq_false_iff.mpr (mt (all_resumed_code hline).mp hblank)]
        simpa using hne

/-! ### Comment lines -/

/-- Lines in front of others have each a line break behind it. -/
theorem ofLines_append {lines : List (List Char)} (hne : lines ≠ []) (front : List (List Char)) :
    ofLines (front ++ lines) = front.flatMap (· ++ ['\n']) ++ ofLines lines := by
  induction front with
  | nil => rfl
  | cons line rest ih =>
    rw [List.cons_append, ofLines_cons line (List.append_ne_nil_of_right_ne_nil rest hne), ih]
    simp

/-- The front of a comment line is one. -/
theorem IsCommentLine.of_begins {other : List Char} (hline : IsCommentLine line)
    (h : other <+: line) :
    IsCommentLine other := by
  refine ⟨fun hbreak => hline.noBreak (h.subset hbreak), fun c hc => hline.blank c ?_⟩
  obtain ⟨rest, rfl⟩ := h
  rw [List.takeWhile_append]
  split
  · exact List.mem_append_left _ ((List.takeWhile_prefix _).subset hc)
  · exact hc

/-- A tab on a comment line becomes spaces. -/
theorem IsCommentLine.tabsToSpaces (hline : IsCommentLine line) :
    IsCommentLine (tabsToSpaces line) := by
  refine ⟨not_mem_tabsToSpaces hline.noBreak (by decide), fun c hc => ?_⟩
  have hsame : (fun c => decide (c ≠ '!')) ∘ (fun c => if c = '\t' then ' ' else c) = fun c =>
    decide (c ≠ '!') := by
    funext c
    by_cases hc : c = '\t' <;> simp [hc]
  rw [Comment.tabsToSpaces, List.takeWhile_map, hsame] at hc
  obtain ⟨d, hd, rfl⟩ := List.mem_map.mp hc
  rw [hline.blank d hd]
  rfl

/-- Only spaces are left of a comment line. -/
theorem IsCommentLine.eq_space (hline : IsCommentLine line) :
    ∀ c ∈ uncommentedLine line, c = ' ' := by
  have hspaces := (hline.of_begins (withoutReturn_begins line)).tabsToSpaces
  obtain ⟨pad, htext, hpad⟩ := exists_dropBangLines hspaces.noBreak
  rw [uncommentedLine, htext, List.forall_mem_append]
  exact ⟨hspaces.blank, hpad⟩

/-- A comment line takes the place of the line that a continuation reaches. -/
theorem IsCommentLine.forms_joinContinuedLines (hline : IsCommentLine line) (reached : Bool)
    (after : List Char) :
    forms (joinContinuedLines (resumedIf reached (uncommented (line ++ '\n' :: after)))) =
      forms (joinContinuedLines (uncommented after)) := by
  have hspaces : ∀ c ∈ resumedIf reached (uncommentedLine line), c = ' ' :=
    fun c hc => hline.eq_space c (mem_of_mem_resumedIf hc)
  rw [uncommented_line hline.noBreak, resumedIf_append_newline,
    joinContinuedLines_append_of_not_mem fun h => absurd (hspaces _ h) (by decide),
    forms_append_of_spaces hspaces,
    joinContinuedLines_cons (by decide), forms_of_isGap rfl]

end

/-- A line between two parts of a text changes no lexeme of it. -/
def IsTransparent (front : List (List Char)) (line : List Char) (rest : List (List Char)) : Prop :=
  forms (strip .fortran (String.ofList (ofLines (front ++ line :: rest)))).toList =
    forms (strip .fortran (String.ofList (ofLines (front ++ rest)))).toList

instance (front : List (List Char)) (line : List Char) (rest : List (List Char)) :
    Decidable (IsTransparent front line rest) :=
  inferInstanceAs (Decidable (_ = _))

/-- A comment line changes no lexeme, unless it stands behind a line that is continued and before
lines that start with `&`. -/
theorem isTransparent_iff {front rest : List (List Char)} {line : List Char} (hrest : rest ≠ [])
    (hlines : ∀ other ∈ front ++ rest, IsPlainLine other) (hline : IsCommentLine line) :
    IsTransparent front line rest ↔
      ¬ (isContinued false front = true ∧ startAgain rest = true) := by
  have hfront : ∀ other ∈ front, IsPlainLine other :=
    fun other h => hlines other (List.mem_append_left _ h)
  have hothers : ∀ other ∈ rest, IsPlainLine other :=
    fun other h => hlines other (List.mem_append_right _ h)
  -- Up to the comment line both texts have the lexemes of `kept`.
  obtain ⟨kept, hkept, hjoin⟩ := exists_joinContinuedLines hfront false
  -- Taking comments out and joining lines are the two passes of Fortran.
  have hstrip (text : List Char) :
      (strip .fortran (String.ofList text)).toList = joinContinuedLines (uncommented text) := by
    rw [strip, String.toList_ofList, String.toList_ofList]
    rfl
  have hwith : forms (joinContinuedLines (uncommented (ofLines (front ++ line :: rest)))) =
      forms kept ++ forms (joinContinuedLines (uncommented (ofLines rest))) := by
    rw [ofLines_append (List.cons_ne_nil line rest), ofLines_cons line hrest]
    rw [← resumedIf_false (uncommented _), hjoin, hkept.forms_append,
      hline.forms_joinContinuedLines]
  have hwithout : forms (joinContinuedLines (uncommented (ofLines (front ++ rest)))) =
      forms kept ++
          forms (joinContinuedLines
          (resumedIf (isContinued false front) (uncommented (ofLines rest)))) := by
    rw [ofLines_append hrest, ← resumedIf_false (uncommented (_ ++ _)), hjoin, hkept.forms_append]
  rw [IsTransparent, hstrip, hstrip, hwith, hwithout, List.append_cancel_left_eq]
  cases isContinued false front with
  | false => simp
  | true => rw [resumedIf_true, eq_comm, forms_resumed_iff hothers hrest]; simp

instance (line : List Char) : Decidable (IsPlainLine line) :=
  decidable_of_iff ('\n' ∉ line ∧ '\t' ∉ line ∧ '\"' ∉ line ∧ '\'' ∉ line)
    ⟨fun h => ⟨h.1, h.2.1, h.2.2.1, h.2.2.2⟩, fun h => ⟨h.noBreak, h.noTab, h.noDouble, h.noSingle⟩⟩

instance (line : List Char) : Decidable (IsCommentLine line) :=
  decidable_of_iff ('\n' ∉ line ∧ (line.takeWhile (· ≠ '!')).all (· = ' ') = true)
    ⟨fun h => ⟨h.1, by simpa using h.2⟩, fun h => ⟨h.noBreak, by simpa using h.blank⟩⟩

/-- A comment line changes no lexeme between two lines of which the second one is resumed without an
`&`. -/
theorem isTransparent_resumed :
    let front := ["REAL, POINTER & ! shared".toList, " & , DIMENSION(10) & ".toList]
    let line := "  ! \"note\" &".toList
    let rest := [" :: x, & ! the vector".toList, "& y".toList]
    rest ≠ [] ∧ (∀ other ∈ front ++ rest, IsPlainLine other) ∧ IsCommentLine line ∧
      IsTransparent front line rest := by
  intro front line rest
  have hrest : rest ≠ [] := List.cons_ne_nil _ _
  have hlines : ∀ other ∈ front ++ rest, IsPlainLine other := by decide
  have hline : IsCommentLine line := by decide
  have hstart : ¬ (isContinued false front = true ∧ startAgain rest = true) := by decide
  exact ⟨hrest, hlines, hline, (isTransparent_iff hrest hlines hline).mpr hstart⟩

/-- Behind a comment line and behind an empty one, the `&` that the next line is resumed with stays.
-/
theorem not_isTransparent :
    (∀ other ∈ ["REAL, DIMENSION(10) &".toList, "& :: x".toList], IsPlainLine other) ∧
      (IsCommentLine "! note".toList ∧
        ¬ IsTransparent ["REAL, DIMENSION(10) &".toList] "! note".toList ["& :: x".toList]) ∧
      IsCommentLine [] ∧ ¬ IsTransparent ["REAL, DIMENSION(10) &".toList] [] ["& :: x".toList] := by
  decide +kernel

end Comment

end CommonDecl
