import CommonDecl.Proofs.Lexing
import CommonDecl.TokenTree.Group

/-!
# Token trees and the lexemes they are made of

What holds of every lexeme of a text that is no bracket holds of every token in its trees
(`TokenTree.all_of_groupFrom`).  The brackets among the lexemes are exactly those that group
(`Lexeme.exists_opening`, `Lexeme.exists_closing`).
-/

namespace CommonDecl

namespace Bracket

/-! ### Brackets by their text -/

/-- A text that opens a bracket is its opening character. -/
theorem eq_opening_of_ofOpening? {text : String} {bracket : Bracket}
    (h : ofOpening? text = some bracket) : text = bracket.opening := by
  unfold ofOpening? at h
  split_ifs at h <;> cases h <;> assumption

/-- A text that closes a bracket is its closing character. -/
theorem eq_closing_of_ofClosing? {text : String} {bracket : Bracket}
    (h : ofClosing? text = some bracket) : text = bracket.closing := by
  unfold ofClosing? at h
  split_ifs at h <;> cases h <;> assumption

@[simp]
theorem ofOpening?_closing (bracket : Bracket) : ofOpening? bracket.closing = none := by
  cases bracket <;> rfl

end Bracket

namespace Lexeme

/-! ### Lexemes by their kind -/

/-- The first character of a lexeme is one that its kind starts with. -/
theorem starts_of_isLexeme {kind : LexemeKind} {first : Char} {rest : List Char}
    (h : IsLexeme kind (first :: rest)) : starts kind first = true := by
  have hstarts := starts_of_shape first rest
  rwa [show shape first rest = (kind, rest.length) from h] at hstarts

/-- Where all lexemes of a kind are one character, a lexeme of the kind is a character that the kind
starts with. -/
theorem exists_eq_singleton {kind : LexemeKind} {text : String} (h : IsLexeme kind text.toList)
    (hshape : ∀ first rest, starts kind first = true → shape first rest = (kind, 0)) :
    ∃ c, starts kind c = true ∧ text = String.ofList [c] := by
  cases htext : text.toList with
  | nil =>
    rw [htext] at h
    exact h.elim
  | cons first rest =>
    rw [htext] at h
    have hstarts := starts_of_isLexeme h
    have hlength : (kind, 0) = (kind, rest.length) := (hshape first rest hstarts).symm.trans h
    rw [Prod.mk.injEq] at hlength
    refine ⟨first, hstarts, ?_⟩
    rw [← String.ofList_toList (s := text), htext, List.length_eq_zero_iff.mp hlength.2.symm]

/-- A lexeme that opens a group is a bracket. -/
theorem exists_opening {text : String} (h : IsLexeme .opening text.toList) :
    ∃ bracket : Bracket, text = bracket.opening := by
  have hcases {c : Char} (hc : starts .opening c = true) : (c = '(' ∨ c = '[') ∨ c = '\x7b' := by
    simpa only [starts, Bool.or_eq_true, decide_eq_true_eq] using hc
  obtain ⟨c, hc, rfl⟩ := exists_eq_singleton h fun first rest hfirst => by
    rcases hcases hfirst with (rfl | rfl) | rfl <;> rfl
  rcases hcases hc with (rfl | rfl) | rfl
  · exact ⟨.parenthesis, rfl⟩
  · exact ⟨.square, rfl⟩
  · exact ⟨.brace, rfl⟩

/-- A lexeme that closes a group is a bracket. -/
theorem exists_closing {text : String} (h : IsLexeme .closing text.toList) :
    ∃ bracket : Bracket, text = bracket.closing := by
  have hcases {c : Char} (hc : starts .closing c = true) : (c = ')' ∨ c = ']') ∨ c = '\x7d' := by
    simpa only [starts, Bool.or_eq_true, decide_eq_true_eq] using hc
  obtain ⟨c, hc, rfl⟩ := exists_eq_singleton h fun first rest hfirst => by
    rcases hcases hfirst with (rfl | rfl) | rfl <;> rfl
  rcases hcases hc with (rfl | rfl) | rfl
  · exact ⟨.parenthesis, rfl⟩
  · exact ⟨.square, rfl⟩
  · exact ⟨.brace, rfl⟩

/-- A lexeme of another kind opens no group. -/
theorem ofOpening?_of_isLexeme {kind : LexemeKind} {text : String} (h : IsLexeme kind text.toList)
    (hkind : kind ≠ .opening) : Bracket.ofOpening? text = none := by
  refine Option.eq_none_iff_forall_ne_some.mpr fun bracket hopening => hkind ?_
  obtain rfl := Bracket.eq_opening_of_ofOpening? hopening
  -- Each bracket has the shape of an opening, whatever kind the text was cut as.
  cases bracket <;> exact (congrArg Prod.fst h).symm

/-- A lexeme of another kind closes no group. -/
theorem ofClosing?_of_isLexeme {kind : LexemeKind} {text : String} (h : IsLexeme kind text.toList)
    (hkind : kind ≠ .closing) : Bracket.ofClosing? text = none := by
  refine Option.eq_none_iff_forall_ne_some.mpr fun bracket hclosing => hkind ?_
  obtain rfl := Bracket.eq_closing_of_ofClosing? hclosing
  cases bracket <;> exact (congrArg Prod.fst h).symm

end Lexeme

namespace TokenTree

/-! ### One lexeme -/

section

variable {keywords : Keywords} {known : String → Bool} {outer : List (Bracket × List TokenTree)}
  {level : List TokenTree} {lexeme : Lexeme} {bracket : Bracket} {rest : List Lexeme}

/-- An opening bracket starts a new level. -/
theorem groupFrom_of_opening (hrecognised : lexeme.kind ≠ .unrecognised)
    (htext : lexeme.text = bracket.opening) :
    groupFrom keywords known outer level (lexeme :: rest) =
      groupFrom keywords known ((bracket, level) :: outer) [] rest := by
  rw [groupFrom, if_neg hrecognised, htext, Bracket.ofOpening?_opening]

/-- A closing bracket at the outermost level was never opened. -/
theorem groupFrom_of_unopened (hrecognised : lexeme.kind ≠ .unrecognised)
    (htext : lexeme.text = bracket.closing) :
    groupFrom keywords known [] level (lexeme :: rest) = .error (.unopened bracket) := by
  rw [groupFrom, if_neg hrecognised, htext, Bracket.ofOpening?_closing, Bracket.ofClosing?_closing]

/-- A closing bracket ends the level of the bracket that was opened last, if it is the same one. -/
theorem groupFrom_of_closing (hrecognised : lexeme.kind ≠ .unrecognised)
    (htext : lexeme.text = bracket.closing) (opened : Bracket) (front : List TokenTree) :
    groupFrom keywords known ((opened, front) :: outer) level (lexeme :: rest) =
      if opened = bracket then groupFrom keywords known outer (front ++ [group bracket level]) rest
      else .error (.mismatched opened bracket) := by
  rw [groupFrom, if_neg hrecognised, htext, Bracket.ofOpening?_closing, Bracket.ofClosing?_closing]

theorem groupFrom_opening (bracket : Bracket) (start : Nat) :
    groupFrom keywords known outer level (⟨.opening, bracket.opening, start⟩ :: rest) =
      groupFrom keywords known ((bracket, level) :: outer) [] rest :=
  groupFrom_of_opening (by simp) rfl

theorem groupFrom_closing (bracket : Bracket) (before : List TokenTree) (start : Nat) :
    groupFrom keywords known ((bracket, before) :: outer) level
        (⟨.closing, bracket.closing, start⟩ :: rest) =
      groupFrom keywords known outer (before ++ [group bracket level]) rest := by
  rw [groupFrom_of_closing (by simp) rfl, if_pos rfl]

/-- Any other lexeme is a token of the level. -/
theorem groupFrom_leaf (hkind : lexeme.kind ≠ .unrecognised)
    (hopening : Bracket.ofOpening? lexeme.text = none)
    (hclosing : Bracket.ofClosing? lexeme.text = none) :
    groupFrom keywords known outer level (lexeme :: rest) =
      groupFrom keywords known outer
        (level ++ [leaf ⟨lexeme.text, TokenClass.ofLexeme keywords known lexeme.kind lexeme.text⟩])
        rest := by
  rw [groupFrom, if_neg hkind, hopening, hclosing]

end

/-! ### Every token of trees -/

mutual

/-- Every token of a tree has a property. -/
def AllIn (p : Token → Prop) : TokenTree → Prop
  | leaf token => p token
  | group _ contents => All p contents

/-- Every token of the trees has a property. -/
def All (p : Token → Prop) : List TokenTree → Prop
  | [] => True
  | tree :: rest => AllIn p tree ∧ All p rest

end

/-- Every token of the trees has a property if every tree's tokens have it. -/
theorem all_iff_forall {p : Token → Prop} {trees : List TokenTree} :
    All p trees ↔ ∀ tree ∈ trees, AllIn p tree := by
  induction trees with
  | nil => simp [All]
  | cons tree rest ih => simp [All, ih]

theorem all_concat {p : Token → Prop} {trees : List TokenTree} {tree : TokenTree} :
    All p (trees ++ [tree]) ↔ All p trees ∧ AllIn p tree := by
  simp only [all_iff_forall, List.mem_append, List.mem_singleton, or_imp, forall_and, forall_eq]

/-- What holds of every lexeme that is no bracket holds of every token. -/
theorem all_of_groupFrom {keywords : Keywords} {known : String → Bool} {p : Token → Prop}
    {lexemes : List Lexeme}
    (h : ∀ lexeme ∈ lexemes, lexeme.kind ≠ .unrecognised →
      Bracket.ofOpening? lexeme.text = none → Bracket.ofClosing? lexeme.text = none →
        p ⟨lexeme.text, TokenClass.ofLexeme keywords known lexeme.kind lexeme.text⟩) :
    ∀ {outer : List (Bracket × List TokenTree)} {level trees : List TokenTree},
      All p level → (∀ opened ∈ outer, All p opened.2) →
        groupFrom keywords known outer level lexemes = .ok trees → All p trees := by
  -- By induction on the lexemes, for any level and any levels around it whose tokens have it.
  induction lexemes with
  | nil =>
    intro outer level trees hlevel houter hok
    cases outer with
    | nil =>
      cases hok
      exact hlevel
    | cons opened outer => cases hok
  | cons lexeme lexemes ih =>
    have ih := @ih fun other hother => h other (List.mem_cons_of_mem _ hother)
    intro outer level trees hlevel houter hok
    rw [groupFrom] at hok
    split at hok
    · cases hok
    · rename_i hkind
      split at hok
      · refine ih (by simp [All]) ?_ hok
        -- An opening bracket puts the level away with those around it.
        rintro opened hopened
        rcases List.mem_cons.mp hopened with rfl | hopened
        · exact hlevel
        · exact houter opened hopened
      · split at hok
        · cases hok
        · rename_i opened before outer
          split at hok
          -- The closed group stands behind what was read before it was opened.
          · have hbefore : All p before := houter _ List.mem_cons_self
            refine ih (all_concat.mpr ⟨hbefore, by rwa [AllIn]⟩) ?_ hok
            exact fun other hother => houter other (List.mem_cons_of_mem _ hother)
          · cases hok
      · rename_i hopening hclosing
        -- Any other lexeme is a token, which has it by `h`.
        refine ih (all_concat.mpr ⟨hlevel, ?_⟩) houter hok
        exact h lexeme List.mem_cons_self hkind hopening hclosing

end TokenTree

end CommonDecl
