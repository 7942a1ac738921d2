import CommonDecl.Proofs.Lists

/-!
# Bodies of types

The entries of an enum are split at the commas and written again (`exists_enumerators`).  The text
of a type with a body writes its qualifiers, its tag and the body, at any indentation
(`TypeDecl.writes_render_tagged`).
-/

namespace CommonDecl

open TokenTree (items texts commaSeparated IsEnumerator)

variable {scope : Scope} {known : String → Bool} {rolesOf : Token → Roles}

/-! ### Blanks -/

theorem joinsNothing_of_isGap {c : Char} (h : Lexeme.isGap c = true) : joinsNothing c = true := by
  simp only [Lexeme.isGap, Bool.or_eq_true, beq_iff_eq] at h
  rcases h with (((rfl | rfl) | rfl) | rfl) | rfl <;> decide

theorem Writes.gap_append {gap text : String} {trees : List TokenTree}
    (h : Writes (scope.keywords .c) known text trees) (hgap : IsGaps gap) :
    Writes (scope.keywords .c) known (gap ++ text) trees :=
  (writes_gaps hgap).append h
    (apart_of_left fun p hp => joinsNothing_of_isGap (hgap p (List.mem_of_getLast? hp)))

theorem Writes.append_gap {gap text : String} {trees : List TokenTree}
    (h : Writes (scope.keywords .c) known text trees) (hgap : IsGaps gap) :
    Writes (scope.keywords .c) known (text ++ gap) trees := by
  have hwrites := h.append (writes_gaps hgap)
    (apart_of_right fun c hc => joinsNothing_of_isGap (hgap c (List.mem_of_mem_head? hc)))
  rwa [List.append_nil] at hwrites

theorem isGaps_indentation (depth : Nat) : IsGaps (indentation depth) := by
  induction depth with
  | zero => simp [IsGaps, indentation]
  | succ depth ih =>
    rw [indentation, List.replicate_succ, String.join_cons, ← indentation]
    intro c hc
    rw [String.toList_append, List.mem_append] at hc
    rcases hc with hc | hc
    · obtain rfl : c = ' ' := by simpa using hc
      decide
    · exact ih c hc

/-! ### Entries of an enum -/

theorem not_isToken_comma {tree : TokenTree} (h : ∀ token, tree = .leaf token → token.text ≠ ",") :
    (TokenTree.item rolesOf tree).isToken "," = false := by
  cases tree with
  | leaf token => exact isToken_of_value_ne (h token rfl)
  | group bracket contents => simp [TokenTree.item, Item.isToken, Item.bracket?]

/-- An entry ends at a comma. -/
theorem split_items_append {entry : List TokenTree}
    (h : ∀ token, TokenTree.leaf token ∈ entry → token.text ≠ ",") (roles : Roles) (rest : Level) :
    Level.split "," (items rolesOf entry ++ .token "," roles :: rest) =
      texts entry :: Level.split "," rest := by
  induction entry with
  | nil => rfl
  | cons tree entry ih =>
    have htree : (TokenTree.item rolesOf tree).isToken "," = false :=
      not_isToken_comma fun token heq => h token (heq ▸ List.mem_cons_self)
    have hentry := ih fun token htoken => h token (List.mem_cons_of_mem _ htoken)
    rw [items, List.cons_append, Level.split, htree, if_neg Bool.false_ne_true, hentry]
    dsimp only
    rw [TokenTree.tokenText_item, texts]

/-- The last entry goes on to the end. -/
theorem split_items {entry : List TokenTree}
    (h : ∀ token, TokenTree.leaf token ∈ entry → token.text ≠ ",") :
    Level.split "," (items rolesOf entry) = [texts entry] := by
  induction entry with
  | nil => rfl
  | cons tree entry ih =>
    have htree : (TokenTree.item rolesOf tree).isToken "," = false :=
      not_isToken_comma fun token heq => h token (heq ▸ List.mem_cons_self)
    have hentry := ih fun token htoken => h token (List.mem_cons_of_mem _ htoken)
    rw [items, Level.split, htree, if_neg Bool.false_ne_true, hentry]
    dsimp only
    rw [TokenTree.tokenText_item, texts]

variable (scope known) in
/-- The member is an entry of an enum that writes the trees. -/
def WritesEntry (trees : List TokenTree) (member : Member) : Prop :=
  ∃ name value, member = .enumerator name value ∧
    ∀ depth, Writes (scope.keywords .c) known (Member.render depth member) trees

/-- An entry of the grammar is read as an entry, which writes it. -/
theorem exists_enumerator {trees : List TokenTree} (h : IsEnumerator scope known trees) :
    (∀ token, TokenTree.leaf token ∈ trees → token.text ≠ ",") ∧
      ∃ member, TypeDecl.enumerator? (texts trees) = some member ∧
        WritesEntry scope known trees member := by
  obtain ⟨name, hname, hform⟩ := h
  have hne : name ≠ "," := by
    rintro rfl
    exact absurd hname (by decide)
  have hwrites : Writes (scope.keywords .c) known name [TokenTree.word scope known name] :=
    hname.writes
  -- An entry is a name, or a name with a value behind `=`.
  rcases hform with rfl | ⟨value, hvalue, hrestorable, hcomma, rfl⟩
  · refine ⟨?_, .enumerator name none, rfl, name, none, rfl, fun depth => ?_⟩
    · intro token htoken
      obtain rfl : token = _ := by simpa [TokenTree.word] using htoken
      exact hne
    · rw [Member.render]
      exact hwrites
  · obtain ⟨first, rest, rfl⟩ := List.exists_cons_of_ne_nil hvalue
    refine ⟨?_, .enumerator name (some (Text.joinTokens (texts (first :: rest)))), rfl, name, _,
      rfl, fun depth => ?_⟩
    · intro token htoken
      rw [List.mem_cons, List.mem_cons] at htoken
      rcases htoken with htoken | htoken | htoken
      · obtain rfl : token = _ := by simpa [TokenTree.word] using htoken
        exact hne
      · obtain rfl : token = _ := by simpa [TokenTree.symbol] using htoken
        simp
      · exact hcomma token htoken
    · have hequals : Writes (scope.keywords .c) known " = " [TokenTree.symbol scope known "="] := by
        rw [show " = " = " " ++ ("=" ++ " ") by decide]
        exact (writes_symbol (by decide)).append_space.space_append
      rw [Member.render]
      exact (hwrites.append hequals (apart_of_right (by decide))).append
        (writes_iff.mpr hrestorable)
        (apart_append_left (apart_of_left (by decide)) (by decide))

/-- The level of entries is split into the texts of each entry. -/
theorem split_commaSeparated {first : List TokenTree} {rest : List (List TokenTree)}
    (h : ∀ entry ∈ first :: rest, IsEnumerator scope known entry) :
    Level.split "," (items rolesOf (commaSeparated scope known (first :: rest))) =
      (first :: rest).map texts := by
  induction rest generalizing first with
  | nil =>
    have hfirst := (exists_enumerator (h first List.mem_cons_self)).1
    rw [commaSeparated, List.intercalate_singleton, split_items hfirst]
    rfl
  | cons next rest ih =>
    have hfirst := (exists_enumerator (h first List.mem_cons_self)).1
    have hrest := ih fun entry hentry => h entry (List.mem_cons_of_mem _ hentry)
    rw [commaSeparated, List.intercalate_cons_of_ne_nil (by simp), ← commaSeparated,
      List.append_assoc, TokenTree.items_append]
    exact (split_items_append hfirst _ _).trans (congrArg (texts first :: ·) hrest)

/-- The entries of an enum are read one for one, and write the entries. -/
theorem exists_enumerators {entries : List (List TokenTree)}
    (h : ∀ entry ∈ entries, IsEnumerator scope known entry) :
    List.Forall₂ (WritesEntry scope known) entries
      (TypeDecl.enumerators (items rolesOf (commaSeparated scope known entries))) := by
  have hentries : List.Forall₂ (WritesEntry scope known) entries
      ((entries.map texts).filterMap TypeDecl.enumerator?) := by
    induction entries with
    | nil => exact .nil
    | cons entry entries ih =>
      rw [List.forall_mem_cons] at h
      obtain ⟨-, member, hmember, hwrites⟩ := exists_enumerator h.1
      rw [List.map_cons, List.filterMap_cons, hmember]
      exact .cons hwrites (ih h.2)
  cases entries with
  | nil => exact .nil
  | cons first rest =>
    rw [TypeDecl.enumerators, split_commaSeparated h]
    exact hentries

/-! ### The text of a body -/

/-- The lines of an enum write its entries. -/
theorem writes_renderMembers_enum (depth : Nat) {entries : List (List TokenTree)}
    {members : List Member} (h : List.Forall₂ (WritesEntry scope known) entries members) :
    Writes (scope.keywords .c) known (renderMembers depth members)
      (commaSeparated scope known entries) := by
  induction h with
  | nil => exact writes_empty
  | @cons entry member entries members hentry hrest ih =>
    obtain ⟨name, value, rfl, hwrites⟩ := hentry
    have hline := (hwrites depth).gap_append (isGaps_indentation depth)
    rw [renderMembers]
    cases hrest with
    | nil =>
      have hgap : IsGaps "\n" := by decide
      have hlast := hline.append_gap hgap
      simpa [renderMembers, commaSeparated] using hlast
    | cons hnext hrest =>
      have hcomma :
          Writes (scope.keywords .c) known ("," ++ "\n") [TokenTree.symbol scope known ","] :=
        (writes_symbol (by decide)).append_gap (by decide)
      rw [commaSeparated, List.intercalate_cons_of_ne_nil (by simp), ← commaSeparated,
        List.isEmpty_cons, if_neg Bool.false_ne_true]
      have hlines := (hline.append hcomma (apart_of_right (by decide))).append ih
        (apart_append_left (apart_of_left (by decide)) (by decide))
      simpa only [String.append_assoc] using hlines

/-- A line with a statement writes the statement and its `;`. -/
theorem writes_renderMembers_cons {depth : Nat} {declaration : Declaration} {members : List Member}
    {statement rest : List TokenTree}
    (hstatement : Writes (scope.keywords .c) known (declaration.render depth) statement)
    (hrest : Writes (scope.keywords .c) known (renderMembers depth members) rest) :
    Writes (scope.keywords .c) known (renderMembers depth (.declaration declaration :: members))
      (statement ++ TokenTree.symbol scope known ";" :: rest) := by
  have hsemicolon :
      Writes (scope.keywords .c) known (";" ++ "\n") [TokenTree.symbol scope known ";"] :=
    (writes_symbol (by decide)).append_gap (by decide)
  have hline := (hstatement.gap_append (isGaps_indentation depth)).append hsemicolon
    (apart_of_right (by decide))
  have hlines := hline.append hrest (apart_append_left (apart_of_left (by decide)) (by decide))
  rw [renderMembers, show ";\n" = ";" ++ "\n" by decide]
  simpa using hlines

/-- The qualifiers and the tag of a type. -/
theorem writes_tagHead {left : List String} (hleft : ∀ text ∈ left, IsQualifierWord scope text)
    {tag : Option String} (htag : ∀ text ∈ tag, IsFreeWord scope text) :
    Writes (scope.keywords .c) known ((⟨left⟩ : Qualifiers).leadingText ++ tag.getD "")
      (TokenTree.marks left ++ TokenTree.tagTrees scope known tag) := by
  refine (writes_leadingText (areMarks_of_words hleft)).append ?_ (apart_leftText hleft _)
  cases tag with
  | none => exact writes_empty
  | some tag => exact (htag tag rfl).isWord.writes

theorem writes_beforeBody {head : String} {trees : List TokenTree}
    (h : Writes (scope.keywords .c) known head trees) :
    Writes (scope.keywords .c) known (beforeBody head) trees := by
  unfold beforeBody
  split
  · exact h
  · exact h.append_space

namespace TypeDecl

/-- A type with a body writes its qualifiers, its tag and the body. -/
theorem writes_render_tagged {depth : Nat} {left : List String} {tag : Option String}
    {members : List Member} {body : List TokenTree}
    (hleft : ∀ text ∈ left, IsQualifierWord scope text) (htag : ∀ text ∈ tag, IsFreeWord scope text)
    (hbody : Writes (scope.keywords .c) known (renderMembers (depth + 1) members) body) :
    Writes (scope.keywords .c) known (render depth (.tagged ⟨left⟩ tag (some members)))
      (TokenTree.marks left ++ TokenTree.tagTrees scope known tag ++ [.group .brace body]) := by
  have hgap : IsGaps "\n" := by decide
  have hinner := (hbody.gap_append hgap).append_gap (isGaps_indentation depth)
  have hwhole := (writes_beforeBody (writes_tagHead hleft htag)).append (hinner.group .brace)
    (apart_append_right (apart_append_right (apart_of_right (by decide)) (by decide)) (by simp))
  rw [render, show "\x7b\n" = Bracket.brace.opening ++ "\n" by decide,
    show "\x7d" = Bracket.brace.closing from rfl]
  refine Writes.trimEnd ?_
  simpa only [String.append_assoc] using hwhole

/-- A type without a body writes its qualifiers and its tag. -/
theorem writes_render_untagged {depth : Nat} {left : List String} {tag : Option String}
    (hleft : ∀ text ∈ left, IsQualifierWord scope text)
    (htag : ∀ text ∈ tag, IsFreeWord scope text) :
    Writes (scope.keywords .c) known (render depth (.tagged ⟨left⟩ tag none))
      (TokenTree.marks left ++ TokenTree.tagTrees scope known tag) := by
  rw [render]
  exact (writes_tagHead hleft htag).trimEnd

end TypeDecl

namespace Declaration

/-- Variables of a type stand after a space. -/
theorem render_tagged (depth : Nat) (qualifiers : Qualifiers) (tag : Option String)
    (members : Option (List Member)) (instances : List Declarator) :
    render depth (.type (.tagged qualifiers tag members) instances) =
      TypeDecl.render depth (.tagged qualifiers tag members) ++ furtherText " " instances := by
  rw [render]
  rfl

/-- Further names of a typedef stand after a comma. -/
theorem render_synonym (depth : Nat) (qualifiers : Qualifiers) (name : String) (typedef : Typedef)
    (siblings : List Declarator) :
    render depth (.type (.synonym qualifiers name typedef) siblings) =
      TypeDecl.render depth (.synonym qualifiers name typedef) ++ furtherText ", " siblings := by
  rw [render]
  rfl

end Declaration

end CommonDecl
