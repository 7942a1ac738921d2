import CommonDecl.Proofs.Rejoining
import CommonDecl.Proofs.Rendering

/-!
# Texts that can be cut into tokens

A text is legible if it is made of blanks, characters of words, numbers and symbols, quoted literals
and brackets that match, with nothing on which of these stand together.  Legible texts can be put
together in any way (`Legible.append`) and are always cut into tokens (`Legible.exists_writes`),
though not always into those that they were made from.
-/

namespace CommonDecl

open Lexeme Text

/-- The text closes the brackets `stack`, the innermost one first, and those that it opens, and has
nothing in it that no lexeme starts with. -/
inductive Legible : List Bracket → List Char → Prop where
  | nil : Legible [] []
  | gap {stack : List Bracket} {c : Char} {rest : List Char} (hgap : isGap c = true)
    (hrest : Legible stack rest) : Legible stack (c :: rest)
  | plain {stack : List Bracket} {c : Char} {rest : List Char} (hc : IsPlainChar c)
    (hrest : Legible stack rest) : Legible stack (c :: rest)
  | literal {stack : List Bracket} {c : Char} {body rest : List Char}
    (hliteral : IsLexeme .literal (c :: body)) (hrest : Legible stack rest) :
    Legible stack (c :: (body ++ rest))
  | opening {stack : List Bracket} {bracket : Bracket} {rest : List Char}
    (hrest : Legible (bracket :: stack) rest) : Legible stack (bracket.openingChar :: rest)
  | closing {stack : List Bracket} {bracket : Bracket} {rest : List Char}
    (hrest : Legible stack rest) : Legible (bracket :: stack) (bracket.closingChar :: rest)

/-- The text is legible on its own. -/
def IsLegible (text : String) : Prop :=
  Legible [] text.toList

namespace Legible

variable {stack : List Bracket} {text : List Char}

/-! ### Putting texts together -/

theorem append {stack' : List Bracket} {text' : List Char} (h : Legible stack text)
    (h' : Legible stack' text') : Legible (stack ++ stack') (text ++ text') := by
  induction h with
  | nil => exact h'
  | gap hgap _ ih => exact .gap hgap ih
  | plain hc _ ih => exact .plain hc ih
  | literal hliteral _ ih =>
    rw [List.cons_append, List.append_assoc]
    exact .literal hliteral ih
  | opening _ ih => exact .opening ih
  | closing _ ih => exact .closing ih

/-- Plain characters in front of a text. -/
theorem run {word : List Char} (hword : ∀ c ∈ word, IsPlainChar c) (h : Legible stack text) :
    Legible stack (word ++ text) := by
  induction word with
  | nil => exact h
  | cons c word ih =>
    rw [List.forall_mem_cons] at hword
    exact .plain hword.1 (ih hword.2)

theorem of_continues {p : Option Char} (h : Continues stack p text) : Legible stack text := by
  induction h with
  | nil => exact .nil
  | space _ _ _ ih => exact .gap rfl ih
  | plain hc _ _ ih => exact .plain hc ih
  | literal hliteral _ _ ih => exact .literal hliteral ih
  | opening _ _ ih => exact .opening ih
  | closing _ ih => exact .closing ih

/-! ### Taking a text apart -/

/-- After a plain character the text goes on. -/
theorem of_plain {c : Char} (h : Legible stack (c :: text)) (hc : IsPlainChar c) :
    Legible stack text := by
  have hspecial := hc.not_mem_specialChars
  cases h with
  | gap hgap => exact absurd (mem_specialChars_of_isGap hgap) hspecial
  | plain _ hrest => exact hrest
  | literal hliteral =>
    exact absurd (mem_specialChars_of_starts (starts_of_isLexeme hliteral) (Or.inl rfl)) hspecial
  | opening => exact absurd (Bracket.mem_specialChars _).1 hspecial
  | closing => exact absurd (Bracket.mem_specialChars _).2 hspecial

theorem drop {n : Nat} (h : Legible stack text) (hplain : ∀ c ∈ text.take n, IsPlainChar c) :
    Legible stack (text.drop n) := by
  induction n generalizing text with
  | zero => exact h
  | succ n ih =>
    cases text with
    | nil => exact h
    | cons c text =>
      rw [List.take_succ_cons, List.forall_mem_cons] at hplain
      exact ih (h.of_plain hplain.1) hplain.2

/-- A blank at the end can be taken away. -/
theorem of_concat {c : Char} (h : Legible stack (text ++ [c])) (hblank : isBlank c = true) :
    Legible stack text := by
  generalize hwhole : text ++ [c] = whole at h
  -- By induction on how the text is made: only a blank may be the last character of it all.
  induction h generalizing text with
  | nil => simp at hwhole
  | @gap stack d rest hgap hrest ih =>
    cases text with
    | nil =>
      obtain ⟨rfl, rfl⟩ : c = d ∧ rest = [] := by simpa [eq_comm] using hwhole
      exact hrest
    | cons e text =>
      obtain ⟨rfl, hrest'⟩ : e = d ∧ text ++ [c] = rest := by simpa using hwhole
      exact .gap hgap (ih hrest')
  | @plain stack d rest hd hrest ih =>
    cases text with
    | nil =>
      obtain ⟨rfl, rfl⟩ : c = d ∧ rest = [] := by simpa [eq_comm] using hwhole
      exact hrest
    | cons e text =>
      obtain ⟨rfl, hrest'⟩ : e = d ∧ text ++ [c] = rest := by simpa using hwhole
      exact .plain hd (ih hrest')
  | @literal stack d body rest hliteral hrest ih =>
    rcases List.eq_nil_or_concat rest with rfl | ⟨before, last, rfl⟩
    · -- The literal ends in its quote.
      obtain ⟨hlast, hnot, -⟩ := getLast?_of_literal hliteral
      rw [List.append_nil] at hwhole
      rw [← hwhole, List.getLast?_concat, Option.some.injEq] at hlast
      subst hlast
      have hstarts := starts_of_isLexeme hliteral
      simp only [starts, Bool.or_eq_true, decide_eq_true_eq] at hstarts
      rcases hstarts with rfl | rfl
      · cases hblank
      · cases hblank
    · rw [List.concat_eq_append, ← List.append_assoc, ← List.cons_append] at hwhole
      obtain ⟨rfl, hlast⟩ := List.append_inj' hwhole rfl
      obtain rfl : c = last := by simpa using hlast
      exact .literal hliteral (ih (List.concat_eq_append).symm)
  | @opening stack bracket rest hrest ih =>
    cases text with
    | nil =>
      obtain ⟨-, rfl⟩ : c = bracket.openingChar ∧ rest = [] := by simpa [eq_comm] using hwhole
      cases hrest
    | cons e text =>
      obtain ⟨rfl, hrest'⟩ : e = bracket.openingChar ∧ text ++ [c] = rest := by simpa using hwhole
      exact .opening (ih hrest')
  | @closing stack bracket rest hrest ih =>
    cases text with
    | nil =>
      obtain ⟨rfl, -⟩ : c = bracket.closingChar ∧ rest = [] := by simpa [eq_comm] using hwhole
      cases bracket <;> cases hblank
    | cons e text =>
      obtain ⟨rfl, hrest'⟩ : e = bracket.closingChar ∧ text ++ [c] = rest := by simpa using hwhole
      exact .closing (ih hrest')

/-! ### Cutting a text into tokens -/

/-- A text is cut into tokens whose brackets match. -/
structure Cuts (stack : List Bracket) (text : List Char) : Prop where
  recognised : ∀ form ∈ forms text, form.1 ≠ .unrecognised
  nested : Nested stack ((forms text).map Prod.snd)

/-- One lexeme, with what the rest of the text is cut into. -/
theorem Cuts.cons {stack' : List Bracket} {c : Char} {n : Nat}
    (hfirst : FirstLexeme stack stack' c text n) (hrest : Cuts stack' (text.drop n)) :
    Cuts stack (c :: text) := by
  have hforms := hfirst.forms_eq
  constructor
  · rw [hforms, List.forall_mem_cons]
    exact ⟨hfirst.recognised, hrest.recognised⟩
  · rw [hforms, List.map_cons]
    exact hfirst.nested _ hrest.nested

/-- A legible text is cut into tokens. -/
theorem cuts (h : Legible stack text) : Cuts stack text := by
  -- The induction is on the length, as a lexeme may take in several characters.
  induction hlength : text.length using Nat.strong_induction_on generalizing stack text with
  | _ n ih =>
    subst hlength
    cases h with
    | nil =>
      constructor
      · simp
      · rw [forms_nil]
        exact .nil
    | @gap _ c rest hgap hrest =>
      obtain ⟨hrecognised, hnested⟩ := ih _ (Nat.lt_succ_self _) hrest rfl
      have hforms : forms (c :: rest) = forms rest := forms_of_isGap hgap rest
      exact ⟨by rwa [hforms], by rwa [hforms]⟩
    | @plain _ c rest hc hrest =>
      obtain ⟨-, hrun, -⟩ := shape_of_isPlainChar hc rest
      refine .cons (.plain hc rest) (ih _ ?_ ?_ rfl)
      · rw [List.length_drop, List.length_cons]
        omega
      · exact hrest.drop fun d hd => hrun.isPlainChar d (List.mem_cons_of_mem _ hd)
    | @literal _ c body rest hliteral hrest =>
      refine .cons (.literal hliteral rest) ?_
      rw [List.drop_left]
      refine ih _ ?_ hrest rfl
      rw [List.length_cons, List.length_append]
      omega
    | @opening _ bracket rest hrest =>
      exact .cons (.opening bracket rest) (ih _ (Nat.lt_succ_self _) hrest rfl)
    | @closing _ bracket rest hrest =>
      exact .cons (.closing bracket rest) (ih _ (Nat.lt_succ_self _) hrest rfl)

end Legible

/-! ### Legible strings -/

namespace IsLegible

variable {text text' : String}

theorem empty : IsLegible "" :=
  .nil

theorem append (h : IsLegible text) (h' : IsLegible text') : IsLegible (text ++ text') := by
  rw [IsLegible, String.toList_append]
  exact Legible.append h h'

theorem space : IsLegible " " :=
  .gap rfl .nil

theorem group (bracket : Bracket) (h : IsLegible text) :
    IsLegible (bracket.opening ++ text ++ bracket.closing) := by
  have hclosed : Legible [bracket] (text.toList ++ [bracket.closingChar]) :=
    Legible.append h (.closing .nil)
  rw [IsLegible, String.toList_append, String.toList_append, bracket.opening_eq, bracket.closing_eq,
    String.toList_ofList, String.toList_ofList, List.append_assoc]
  exact .opening hclosed

theorem of_isToken (h : IsToken text) : IsLegible text := by
  obtain ⟨c, body, htext, -⟩ := exists_cons_of_isToken h
  obtain rfl : text = String.ofList (c :: body) := by rw [← htext, String.ofList_toList]
  have hcontinues : Continues [] none (c :: (body ++ [])) := .token h (glued_none c) .nil
  rw [List.append_nil, ← htext] at hcontinues
  exact .of_continues hcontinues

theorem trimEnd (h : IsLegible text) : IsLegible (Text.trimEnd text) := by
  have hdrop (backwards : List Char) (h : Legible [] backwards.reverse) :
      Legible [] (backwards.dropWhile isBlank).reverse := by
    induction backwards with
    | nil => exact h
    | cons c backwards ih =>
      by_cases hc : isBlank c = true
      · rw [List.reverse_cons] at h
        rw [List.dropWhile_cons_of_pos hc]
        exact ih (h.of_concat hc)
      · rwa [List.dropWhile_cons_of_neg hc]
  rw [IsLegible, Text.trimEnd, String.toList_ofList]
  exact hdrop _ (by rwa [List.reverse_reverse])

/-- A legible text is cut into tokens, whatever the keywords and the types that are known. -/
theorem exists_writes (keywords : Keywords) (known : String → Bool) (h : IsLegible text) :
    ∃ trees, Writes keywords known text trees := by
  obtain ⟨hrecognised, hnested⟩ := Legible.cuts h
  obtain ⟨trees, htrees⟩ : ∃ trees, TokenTree.ofText keywords known text = .ok trees := by
    refine TokenTree.exists_groupFrom hnested (map_text_scan text) (fun lexeme hlexeme => ?_) rfl []
    exact hrecognised (lexeme.kind, lexeme.text) (List.mem_map.mpr ⟨lexeme, hlexeme, rfl⟩)
  exact ⟨trees, writes_iff.mpr htrees⟩

end IsLegible

/-- The text of trees is legible. -/
theorem TokenTree.isLegible_joinTokens {trees : List TokenTree}
    (h : All (fun token => IsToken token.text) trees) : IsLegible (joinTokens (texts trees)) := by
  have hnested : Nested [] (tokens trees) := by
    have hnil := nested_tokens trees h Nested.nil
    rwa [List.append_nil] at hnil
  rw [IsLegible, toList_joinTokens h]
  exact .of_continues hnested.continues

end CommonDecl
