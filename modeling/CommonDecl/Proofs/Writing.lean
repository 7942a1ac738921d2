import CommonDecl.Proofs.Grouping

/-!
# Texts that write given tokens

`Writes keywords known text trees` says that `text` is cut into exactly the tokens of `trees`,
wherever it stands among other lexemes.  Texts are put together from texts that are apart
(`Writes.append`), from single lexemes (`writes_lexeme`) and by brackets (`Writes.group`); blanks do
not matter (`Writes.trimEnd`).  A text writes its own tokens (`writes_iff`).
-/

namespace CommonDecl

open Lexeme

variable {keywords : Keywords} {known : String → Bool}

/-! ### Grouping below open groups -/

namespace TokenTree

/-- Grouping depends only on what the lexemes are, not on where they stand. -/
theorem groupFrom_congr {lexemes lexemes' : List Lexeme}
    (h : lexemes.map (fun lexeme => (lexeme.kind, lexeme.text)) =
      lexemes'.map fun lexeme => (lexeme.kind, lexeme.text))
    (outer : List (Bracket × List TokenTree)) (level : List TokenTree) :
    groupFrom keywords known outer level lexemes =
      groupFrom keywords known outer level lexemes' := by
  induction lexemes generalizing lexemes' outer level with
  | nil => rw [List.map_eq_nil_iff.mp h.symm]
  | cons lexeme lexemes ih =>
    cases lexemes' with
    | nil => cases h
    | cons lexeme' lexemes' =>
      simp only [List.map_cons, List.cons.injEq, Prod.mk.injEq] at h
      obtain ⟨⟨hkind, htext⟩, hrest⟩ := h
      rw [groupFrom, groupFrom, hkind, htext]
      simp only [fun outer level => ih hrest outer level]

/-- The trees before a place in a text that itself stands after the trees `level`: these come first
where no group of the text is open. -/
def levelWithin (level : List TokenTree) (own : List (Bracket × List TokenTree))
    (inner : List TokenTree) : List TokenTree :=
  if own = [] then level ++ inner else inner

/-- The open groups at a place in a text that itself stands inside the open groups `outer` and after
the trees `level`. -/
def within (outer : List (Bracket × List TokenTree)) (level : List TokenTree) :
    List (Bracket × List TokenTree) → List (Bracket × List TokenTree)
  | [] => outer
  | (opened, before) :: own => (opened, levelWithin level own before) :: within outer level own

/-- Trees are added to the innermost open group, so it does not matter when the outer ones are put
in front. -/
theorem levelWithin_append (level : List TokenTree) (own : List (Bracket × List TokenTree))
    (inner trees : List TokenTree) :
    levelWithin level own inner ++ trees = levelWithin level own (inner ++ trees) := by
  unfold levelWithin
  split
  · rw [List.append_assoc]
  · rfl

/-- A text that is well nested is grouped in the same way inside open groups. -/
theorem groupFrom_within (outer : List (Bracket × List TokenTree)) (level : List TokenTree)
    {lexemes : List Lexeme} (rest : List Lexeme) :
    ∀ {own : List (Bracket × List TokenTree)} {inner trees : List TokenTree},
      groupFrom keywords known own inner lexemes = .ok trees →
        groupFrom keywords known (within outer level own) (levelWithin level own inner)
          (lexemes ++ rest) = groupFrom keywords known outer (level ++ trees) rest := by
  -- On the lexemes; an own group that is open is closed within the text, so the outer ones are not
  -- touched.
  induction lexemes with
  | nil =>
    intro own inner trees h
    cases own with
    | nil =>
      cases h
      rfl
    | cons opened own => cases h
  | cons lexeme lexemes ih =>
    intro own inner trees h
    rw [groupFrom] at h
    rw [List.cons_append, groupFrom]
    split at h
    · cases h
    · rename_i hkind
      rw [if_neg hkind]
      split at h
      · exact ih h
      -- The closing bracket closes a group of the text, as the text alone has no fault.
      · cases own with
        | nil => cases h
        | cons opened own =>
          obtain ⟨opened, before⟩ := opened
          dsimp only at h
          split at h
          · rename_i heq
            dsimp only [within]
            rw [if_pos heq, levelWithin_append]
            exact ih h
          · cases h
      · dsimp only
        rw [levelWithin_append]
        exact ih h

end TokenTree

/-! ### Texts -/

/-- A form as a lexeme, at no place in particular. -/
def Lexeme.ofForm (form : LexemeKind × String) : Lexeme :=
  ⟨form.1, form.2, 0⟩

/-- A text is cut into exactly the tokens of the given trees, wherever it stands. -/
structure Writes (keywords : Keywords) (known : String → Bool) (text : String)
    (trees : List TokenTree) : Prop where
  recognised : ∀ form ∈ forms text.toList, form.1 ≠ .unrecognised
  grouped : ∀ outer level rest,
    TokenTree.groupFrom keywords known outer level ((forms text.toList).map ofForm ++ rest) =
      TokenTree.groupFrom keywords known outer (level ++ trees) rest

/-- Grouping looks at the kinds and the texts of lexemes, not at where they stand. -/
theorem groupFrom_forms (outer : List (Bracket × List TokenTree)) (level : List TokenTree)
    (text : String) :
    TokenTree.groupFrom keywords known outer level ((forms text.toList).map ofForm) =
      TokenTree.groupFrom keywords known outer level (scan text) := by
  refine TokenTree.groupFrom_congr ?_ outer level
  rw [List.map_map, forms, List.map_map]
  rfl

/-- All lexemes of a text that is cut into tokens are recognised. -/
theorem recognised_of_groupFrom {lexemes : List Lexeme} :
    ∀ {outer : List (Bracket × List TokenTree)} {level trees : List TokenTree},
      TokenTree.groupFrom keywords known outer level lexemes = .ok trees →
        ∀ lexeme ∈ lexemes, lexeme.kind ≠ .unrecognised := by
  -- On the lexemes: an unrecognised one is a fault at once.
  induction lexemes with
  | nil => simp
  | cons lexeme lexemes ih =>
    intro outer level trees h
    rw [TokenTree.groupFrom] at h
    split at h
    · cases h
    · rename_i hkind
      rw [List.forall_mem_cons]
      refine ⟨hkind, ?_⟩
      split at h
      · exact ih h
      · split at h
        · cases h
        · split at h
          · exact ih h
          · cases h
      · exact ih h

/-- A text writes trees exactly if these are what it is cut into. -/
theorem writes_iff {text : String} {trees : List TokenTree} :
    Writes keywords known text trees ↔ TokenTree.ofText keywords known text = .ok trees := by
  constructor
  · intro h
    have hgrouped := h.grouped [] [] []
    rw [List.append_nil, groupFrom_forms, List.nil_append] at hgrouped
    exact hgrouped
  · intro h
    have hforms : TokenTree.groupFrom keywords known [] [] ((forms text.toList).map ofForm) =
        .ok trees := by
      rw [groupFrom_forms]
      exact h
    constructor
    case recognised =>
      intro form hform
      exact recognised_of_groupFrom hforms (ofForm form) (List.mem_map_of_mem hform)
    case grouped =>
      intro outer level rest
      have hwithin := TokenTree.groupFrom_within outer level rest hforms
      rwa [TokenTree.levelWithin, if_pos rfl, List.append_nil] at hwithin

/-- Nothing goes on from one text to the other where they meet. -/
def Apart (before after : String) : Prop :=
  ∀ p ∈ before.toList.getLast?, ∀ c ∈ after.toList.head?, joins p c = false

/-- The empty text has no tokens. -/
theorem writes_empty : Writes keywords known "" [] := by
  constructor
  · simp
  · simp

/-- Texts that are apart write the tokens of the one and then those of the other. -/
theorem Writes.append {before after : String} {trees trees' : List TokenTree}
    (h : Writes keywords known before trees) (h' : Writes keywords known after trees')
    (hapart : Apart before after) : Writes keywords known (before ++ after) (trees ++ trees') := by
  have hforms : forms (before ++ after).toList = forms before.toList ++ forms after.toList := by
    rw [String.toList_append]
    exact forms_append h.recognised hapart
  constructor
  case recognised =>
    intro form hform
    rw [hforms, List.mem_append] at hform
    rcases hform with hform | hform
    · exact h.recognised form hform
    · exact h'.recognised form hform
  case grouped =>
    intro outer level rest
    rw [hforms, List.map_append, List.append_assoc, h.grouped, h'.grouped, List.append_assoc]

/-- Blanks at the end of a text are no part of a token. -/
theorem Writes.trimEnd {text : String} {trees : List TokenTree}
    (h : Writes keywords known text trees) :
    Writes keywords known (Text.trimEnd text) trees := by
  constructor
  case recognised =>
    rw [forms_trimEnd h.recognised]
    exact h.recognised
  case grouped =>
    rw [forms_trimEnd h.recognised]
    exact h.grouped

/-- No character stands both inside words and inside symbols of several characters. -/
theorem isLinkable_of_isWordlike {c : Char} (h : isWordlike c = true) : isLinkable c = false := by
  rw [Bool.eq_false_iff]
  intro hlink
  have hall : [':', '-', '<', '>', '=', '!', '&', '|'].all (fun c => !isWordlike c) =
    true := by decide
  have hwordlike := List.all_eq_true.mp hall c (List.contains_iff_mem.mp hlink)
  rw [h] at hwordlike
  cases hwordlike

/-- Texts are apart where neither a word nor a symbol goes on from the one to the other. -/
theorem apart_iff {before after : String} :
    Apart before after ↔ ∀ p ∈ before.toList.getLast?, ∀ c ∈ after.toList.head?,
      (isWordlike p = true → isWordlike c = false) ∧
        (isLinkable p = true → isLinkable c = false) := by
  unfold Apart
  refine forall₂_congr fun p _ => forall₂_congr fun c _ => ?_
  rw [joins]
  cases isWordlike p <;> cases isWordlike c <;> cases isLinkable p <;> cases isLinkable c <;> simp

/-- The character joins no other one, on either side. -/
def joinsNothing (c : Char) : Bool :=
  !isWordlike c && !isLinkable c

/-- The text does not start with a character that joins another one. -/
def Free (text : String) : Prop :=
  ∀ c ∈ text.toList.head?, joinsNothing c = true

/-- The text does not end in a character that joins another one. -/
def FreeAtEnd (text : String) : Prop :=
  ∀ p ∈ text.toList.getLast?, joinsNothing p = true

instance (text : String) : Decidable (Free text) :=
  decidable_of_iff (text.toList.head?.all joinsNothing = true) (Option.all_eq_true _ _)

instance (text : String) : Decidable (FreeAtEnd text) :=
  decidable_of_iff (text.toList.getLast?.all joinsNothing = true) (Option.all_eq_true _ _)

/-- A text that ends in a bracket or a blank is apart from any other one. -/
theorem apart_of_left {before after : String} (h : FreeAtEnd before) : Apart before after := by
  intro p hp c _
  have := h p hp
  simp only [joinsNothing, Bool.and_eq_true, Bool.not_eq_true'] at this
  rw [joins, this.1, this.2]
  rfl

/-- Any text is apart from one that starts with a bracket or a blank. -/
theorem apart_of_right {before after : String} (h : Free after) : Apart before after := by
  intro p _ c hc
  have := h c hc
  simp only [joinsNothing, Bool.and_eq_true, Bool.not_eq_true'] at this
  rw [joins, this.1, this.2, Bool.and_false, Bool.and_false]
  rfl

/-- An opening bracket is one lexeme. -/
theorem forms_opening (bracket : Bracket) :
    forms bracket.opening.toList = [(.opening, bracket.opening)] := by
  have h : IsLexeme .opening bracket.opening.toList := by cases bracket <;> decide
  rw [forms_of_isLexeme h (by simp), String.ofList_toList]

/-- A closing bracket is one lexeme. -/
theorem forms_closing (bracket : Bracket) :
    forms bracket.closing.toList = [(.closing, bracket.closing)] := by
  have h : IsLexeme .closing bracket.closing.toList := by cases bracket <;> decide
  rw [forms_of_isLexeme h (by simp), String.ofList_toList]

theorem apart_opening (bracket : Bracket) (after : String) : Apart bracket.opening after :=
  apart_of_left (by cases bracket <;> decide)

theorem apart_closing (bracket : Bracket) (before : String) : Apart before bracket.closing :=
  apart_of_right (by cases bracket <;> decide)

/-- A text in brackets writes one group of what it writes. -/
theorem Writes.group {text : String} {trees : List TokenTree} (h : Writes keywords known text trees)
    (bracket : Bracket) :
    Writes keywords known (bracket.opening ++ text ++ bracket.closing)
      [.group bracket trees] := by
  -- Brackets join nothing, so the lexemes of the text stand between them as they are.
  have hforms : forms (bracket.opening ++ text ++ bracket.closing).toList =
      (.opening, bracket.opening) :: forms text.toList ++ [(.closing, bracket.closing)] := by
    have hopening : ∀ form ∈ forms bracket.opening.toList, form.1 ≠ .unrecognised := by
      simp [forms_opening]
    have hinner : ∀ form ∈ forms (bracket.opening ++ text).toList, form.1 ≠ .unrecognised := by
      rw [String.toList_append, forms_append hopening (apart_opening bracket text), forms_opening]
      simpa using h.recognised
    rw [String.toList_append, forms_append hinner (apart_closing bracket _), String.toList_append,
      forms_append hopening (apart_opening bracket text), forms_opening, forms_closing]
    rfl
  constructor
  case recognised =>
    intro form hform
    rw [hforms] at hform
    simp only [List.cons_append, List.mem_cons, List.mem_append, List.not_mem_nil,
      or_false] at hform
    rcases hform with rfl | hform | rfl
    · simp
    · exact h.recognised form hform
    · simp
  case grouped =>
    intro outer level rest
    rw [hforms, List.map_append, List.map_cons, List.map_singleton, List.append_assoc,
      List.cons_append, ofForm, TokenTree.groupFrom_opening, h.grouped, List.singleton_append,
      ofForm,
      TokenTree.groupFrom_closing, List.nil_append]

/-- A lexeme that is no bracket writes one token. -/
theorem writes_lexeme {kind : LexemeKind} {text : String} (h : IsLexeme kind text.toList)
    (hkind : kind ≠ .unrecognised) (hopening : kind ≠ .opening) (hclosing : kind ≠ .closing) :
    Writes keywords known text [.leaf ⟨text, TokenClass.ofLexeme keywords known kind text⟩] := by
  have hforms : forms text.toList = [(kind, text)] := by
    rw [forms_of_isLexeme h hkind, String.ofList_toList]
  constructor
  case recognised => simpa [hforms] using hkind
  case grouped =>
    intro outer level rest
    rw [hforms, List.map_singleton, List.singleton_append, ofForm,
      TokenTree.groupFrom_leaf hkind (ofOpening?_of_isLexeme h hopening)
        (ofClosing?_of_isLexeme h hclosing)]

/-! ### Boundaries -/

/-- Where a text is apart from another one depends on the start of that one only. -/
theorem apart_append_right {before middle after : String} (h : Apart before middle)
    (hne : middle.toList ≠ []) : Apart before (middle ++ after) := by
  obtain ⟨first, rest, hmiddle⟩ := List.exists_cons_of_ne_nil hne
  intro p hp c hc
  rw [String.toList_append, hmiddle, List.cons_append, List.head?_cons] at hc
  refine h p hp c ?_
  rwa [hmiddle, List.head?_cons]

/-- Where a text is apart from another one depends on its own end only. -/
theorem apart_append_left {before middle after : String} (h : Apart middle after)
    (hne : middle.toList ≠ []) : Apart (before ++ middle) after := by
  intro p hp c hc
  rw [String.toList_append, List.getLast?_append, List.getLast?_eq_some_getLast hne,
    Option.some_or] at hp
  refine h p ?_ c hc
  rwa [List.getLast?_eq_some_getLast hne]

/-- Two texts together are apart from a third one if each of them is; either may be empty. -/
theorem Apart.append_left {first second after : String} (h : Apart first after)
    (h' : Apart second after) : Apart (first ++ second) after := by
  intro p hp c hc
  rw [String.toList_append, List.getLast?_append, Option.mem_def, Option.or_eq_some_iff] at hp
  rcases hp with hp | ⟨-, hp⟩
  · exact h' p hp c hc
  · exact h p hp c hc

/-- A space keeps any two texts apart. -/
theorem apart_space (before after : String) : Apart before (" " ++ after) :=
  apart_append_right (apart_of_right (by decide)) (by decide)

theorem apart_after_space (before after : String) : Apart (before ++ " ") after :=
  apart_append_left (apart_of_left (by decide)) (by decide)

/-! ### Blanks -/

/-- Blanks alone are no lexemes. -/
theorem forms_of_forall_isGap {text : List Char} (h : ∀ c ∈ text, isGap c = true) :
    forms text = [] := by
  induction text with
  | nil => simp
  | cons c rest ih =>
    rw [List.forall_mem_cons] at h
    rw [forms_of_isGap h.1, ih h.2]

/-- The text is made of blanks. -/
def IsGaps (text : String) : Prop :=
  ∀ c ∈ text.toList, isGap c = true

instance (text : String) : Decidable (IsGaps text) :=
  decidable_of_iff (text.toList.all isGap = true) List.all_eq_true

theorem writes_gaps {text : String} (h : IsGaps text) : Writes keywords known text [] := by
  constructor <;> simp [forms_of_forall_isGap h]

theorem writes_space : Writes keywords known " " [] :=
  writes_gaps (by decide)

/-- A space in front of a text changes none of its tokens. -/
theorem Writes.space_append {text : String} {trees : List TokenTree}
    (h : Writes keywords known text trees) : Writes keywords known (" " ++ text) trees :=
  writes_space.append h (apart_of_left (by decide))

theorem Writes.append_space {text : String} {trees : List TokenTree}
    (h : Writes keywords known text trees) : Writes keywords known (text ++ " ") trees := by
  have hspace := h.append writes_space (apart_of_right (by decide))
  rwa [List.append_nil] at hspace

end CommonDecl
