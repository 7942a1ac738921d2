import CommonDecl.Proofs.Rejoining
import CommonDecl.Proofs.Shapes

/-!
# Rebuilt texts are normal forms

The text that is rebuilt from the trees of a source may have other symbols and numbers than the
source, where no space was kept between them.  What stays are its landmarks, the brackets and the
quoted literals: these are the same strings in the characters of a text, among its lexemes and among
the tokens that it was joined from (`filter_forms`, `filter_of_nested`), so the trees of both texts
have the same groups and literals (`TokenTree.landmarks_eq`).

The tree shape and the list shape of a source rebuild each tree of it alike, wherever it stands
(`TokenTree.rebuiltAlike`).
-/

namespace CommonDecl

open Lexeme Text

/-! ### Landmarks among characters -/

/-- The text starts with a quote. -/
def isQuoted (text : String) : Bool :=
  text.toList.head?.any (starts .literal)

/-- A quote or a bracket. -/
def isLandmarkChar (c : Char) : Bool :=
  starts .literal c || starts .opening c || starts .closing c

/-- The text is a quoted literal or a bracket, as its first character says. -/
def isLandmark (text : String) : Bool :=
  text.toList.head?.any isLandmarkChar

/-- The quoted literals and the brackets in a text, with no word on what is between them. -/
def landmarksOf : List Char → List String
  | [] => []
  | c :: rest =>
    if isLandmarkChar c then
      String.ofList (c :: rest.take (shape c rest).2) :: landmarksOf (rest.drop (shape c rest).2)
    else landmarksOf rest
termination_by text => text.length
decreasing_by all_goals simp only [List.length_cons, List.length_drop]; omega

section

variable {c : Char} {word rest body : List Char} {kind : LexemeKind} {text : String}
  {stack : List Bracket}

/-- Whether a text is a landmark shows in its first character. -/
theorem isLandmark_ofList (c : Char) (body : List Char) :
    isLandmark (String.ofList (c :: body)) = isLandmarkChar c := by
  rw [isLandmark, String.toList_ofList]
  rfl

/-- A landmark starts with a quote or with a bracket. -/
theorem isLandmarkChar_iff :
    isLandmarkChar c = true ↔ starts .literal c = true ∨ starts .opening c = true ∨
      starts .closing c = true := by
  rw [isLandmarkChar, Bool.or_eq_true, Bool.or_eq_true, or_assoc]

theorem IsPlainChar.isLandmarkChar_eq (h : IsPlainChar c) : isLandmarkChar c = false := by
  rw [Bool.eq_false_iff]
  intro hlandmark
  apply h.not_mem_specialChars
  rcases isLandmarkChar_iff.mp hlandmark with hstarts | hstarts | hstarts
  · exact mem_specialChars_of_starts hstarts (Or.inl rfl)
  · exact mem_specialChars_of_starts hstarts (Or.inr (Or.inl rfl))
  · exact mem_specialChars_of_starts hstarts (Or.inr (Or.inr rfl))

/-- What starts a lexeme and is no landmark is plain. -/
theorem isPlainChar_of_starts (h : starts kind c = true) (hkind : kind ≠ .unrecognised)
    (hnot : isLandmarkChar c = false) : IsPlainChar c := by
  have hlandmark (h : starts .literal c = true ∨ starts .opening c = true ∨
    starts .closing c = true) :
      IsPlainChar c := by
    rw [isLandmarkChar_iff.mpr h] at hnot
    cases hnot
  cases kind with
  | word => exact isPlainChar_of_isWordlike (isWordlike_of_startsWord h)
  | number => exact isPlainChar_of_isWordlike (isWordlike_of_isDigit h)
  | literal => exact hlandmark (Or.inl h)
  | opening => exact hlandmark (Or.inr (Or.inl h))
  | closing => exact hlandmark (Or.inr (Or.inr h))
  | symbol => exact Or.inr h
  | unrecognised => exact absurd rfl hkind

/-- A character that starts no landmark is passed over. -/
theorem landmarksOf_cons (h : isLandmarkChar c = false) (rest : List Char) :
    landmarksOf (c :: rest) = landmarksOf rest := by
  rw [landmarksOf, if_neg (by simp [h])]

/-- Plain characters are passed over. -/
theorem landmarksOf_run (h : ∀ c ∈ word, IsPlainChar c) (rest : List Char) :
    landmarksOf (word ++ rest) = landmarksOf rest := by
  induction word with
  | nil => rfl
  | cons c word ih =>
    rw [List.forall_mem_cons] at h
    rw [List.cons_append, landmarksOf_cons h.1.isLandmarkChar_eq, ih h.2]

/-- A landmark in front is the first one of the text. -/
theorem landmarksOf_landmark (h : isLandmarkChar c = true) (body : List Char)
    (hshape : shape c (body ++ rest) = (kind, body.length)) :
    landmarksOf (c :: (body ++ rest)) = String.ofList (c :: body) :: landmarksOf rest := by
  rw [landmarksOf, if_pos h, hshape, List.take_left, List.drop_left]

/-- The space between two tokens is no landmark. -/
theorem landmarksOf_spaceBefore (p : Option Char) (token : String) (rest : List Char) :
    landmarksOf (spaceBefore p token ++ rest) = landmarksOf rest := by
  unfold spaceBefore
  split
  · exact landmarksOf_cons (by decide) rest
  · rfl

/-- The landmarks among the lexemes of a text are those among its characters. -/
theorem filter_forms {text : List Char} (h : ∀ form ∈ forms text, form.1 ≠ .unrecognised) :
    ((forms text).map Prod.snd).filter isLandmark = landmarksOf text := by
  -- By induction on the length: a lexeme is taken off the front at a time.
  induction hlength : text.length using Nat.strong_induction_on generalizing text with
  | _ n ih =>
    subst hlength
    cases text with
    | nil => rw [forms_nil, landmarksOf, List.map_nil, List.filter_nil]
    | cons c rest =>
      -- Whitespace is passed over on both sides.
      by_cases hgap : isGap c = true
      · have hnot : isLandmarkChar c = false := by
          simp only [isGap, Bool.or_eq_true, beq_iff_eq] at hgap
          rcases hgap with (((rfl | rfl) | rfl) | rfl) | rfl <;> decide
        rw [forms_of_isGap hgap] at h ⊢
        rw [landmarksOf_cons hnot]
        exact ih _ (Nat.lt_succ_self _) h rfl
      · rw [Bool.not_eq_true] at hgap
        rw [forms_cons hgap, List.forall_mem_cons] at h
        obtain ⟨hkind, hrest⟩ := h
        have hshorter : (rest.drop (shape c rest).2).length < (c :: rest).length := by
          rw [List.length_drop, List.length_cons]
          omega
        have hdrop := ih _ hshorter hrest rfl
        rw [forms_cons hgap, List.map_cons]
        by_cases hlandmark : isLandmarkChar c = true
        -- A landmark is taken as a whole on both sides.
        · rw [landmarksOf, if_pos hlandmark, List.filter_cons_of_pos (by rwa [isLandmark_ofList]),
            hdrop]
        · -- The lexeme is plain characters, which are passed over one by one.
          rw [Bool.not_eq_true] at hlandmark
          have hplain := isPlainChar_of_starts (starts_of_shape c rest) hkind hlandmark
          have hrun := (shape_of_isPlainChar hplain rest).2.1
          rw [List.filter_cons_of_neg
            (by rw [isLandmark_ofList, hlandmark]; exact Bool.false_ne_true),
              hdrop, ← landmarksOf_run hrun.isPlainChar, List.cons_append, List.take_append_drop]

/-- The landmarks among tokens are those of the text that the tokens are joined to. -/
theorem filter_of_nested {tokens : List String} (h : Nested stack tokens) :
    ∀ {p : Option Char}, tokens.filter isLandmark = landmarksOf (joinAfter p tokens) := by
  -- By induction on the tokens: literals and brackets are kept, other tokens passed over.
  induction h with
  | nil =>
    intro p
    rw [joinAfter, landmarksOf, List.filter_nil]
  | @token stack text rest htoken _ ih =>
    intro p
    obtain ⟨c, body, htext, -⟩ := exists_cons_of_isToken htoken
    obtain rfl : text = String.ofList (c :: body) := by rw [← htext, String.ofList_toList]
    rw [joinAfter, List.append_assoc, landmarksOf_spaceBefore, htext]
    -- A token is a quoted literal or a run of plain characters.
    rcases literal_or_isRun_of_isToken htoken with hliteral | hrun
    · have hlandmark : isLandmarkChar c = true :=
        isLandmarkChar_iff.mpr (Or.inl (starts_of_isLexeme hliteral))
      rw [List.filter_cons_of_pos (by rwa [isLandmark_ofList]), ih, List.cons_append,
        landmarksOf_landmark hlandmark body (shape_of_literal hliteral _).2]
    · have hnot : isLandmarkChar c = false :=
        (hrun.isPlainChar c List.mem_cons_self).isLandmarkChar_eq
      rw [List.filter_cons_of_neg (by rw [isLandmark_ofList, hnot]; exact Bool.false_ne_true), ih,
        landmarksOf_run hrun.isPlainChar]
  | opening bracket _ ih =>
    intro p
    have hlandmark : isLandmarkChar bracket.openingChar = true := by cases bracket <;> decide
    rw [joinAfter, List.append_assoc, landmarksOf_spaceBefore, bracket.opening_eq,
      String.toList_ofList, List.filter_cons_of_pos (by rwa [isLandmark_ofList]), ih]
    exact (landmarksOf_landmark hlandmark [] (by cases bracket <;> rfl)).symm
  | closing bracket _ ih =>
    intro p
    have hlandmark : isLandmarkChar bracket.closingChar = true := by cases bracket <;> decide
    rw [joinAfter, List.append_assoc, landmarksOf_spaceBefore, bracket.closing_eq,
      String.toList_ofList, List.filter_cons_of_pos (by rwa [isLandmark_ofList]), ih]
    exact (landmarksOf_landmark hlandmark [] (by cases bracket <;> rfl)).symm

end

/-! ### Landmarks among pieces -/

/-- The piece is a bracket or a quoted literal. -/
def Piece.isLandmark : Piece → Bool
  | .bracket _ => true
  | .token ⟨text, _⟩ => isQuoted text

/-- The piece that a landmark is, whatever the keywords. -/
def landmarkPiece (text : String) : Piece :=
  if isQuoted text then .token ⟨text, .constant⟩ else .bracket text

section

variable {keywords : Keywords} {known : String → Bool} {lexeme : Lexeme} {lexemes : List Lexeme}

/-- A landmark is of the kind that its first character says. -/
theorem kind_of_isLandmark (hlexeme : IsLexeme lexeme.kind lexeme.text.toList)
    (hkind : lexeme.kind ≠ .unrecognised) (h : isLandmark lexeme.text = true) :
    lexeme.kind = .literal ∧ isQuoted lexeme.text = true ∨
      (lexeme.kind = .opening ∨ lexeme.kind = .closing) ∧ isQuoted lexeme.text = false := by
  unfold isLandmark isQuoted at *
  cases htext : lexeme.text.toList with
  | nil =>
    rw [htext] at h
    cases h
  | cons c rest =>
    rw [htext] at hlexeme h
    have hshape : (shape c rest).1 = lexeme.kind := congrArg Prod.fst hlexeme
    rw [← hshape] at hkind ⊢
    -- No bracket is a quote.
    have hquote (hbracket : starts .opening c = true ∨ starts .closing c = true) :
        starts .literal c = false := by
      simp only [starts, Bool.or_eq_true, decide_eq_true_eq] at hbracket
      rcases hbracket with ((rfl | rfl) | rfl) | ((rfl | rfl) | rfl) <;> rfl
    rcases isLandmarkChar_iff.mp h with hstarts | hstarts | hstarts
    · exact Or.inl ⟨kind_eq_of_starts hkind (by decide) hstarts, hstarts⟩
    · exact Or.inr ⟨Or.inl (kind_eq_of_starts hkind (by decide) hstarts), hquote (Or.inl hstarts)⟩
    · exact Or.inr ⟨Or.inr (kind_eq_of_starts hkind (by decide) hstarts), hquote (Or.inr hstarts)⟩

/-- The piece of a landmark does not depend on the keywords. -/
theorem piece_of_isLandmark (hlexeme : IsLexeme lexeme.kind lexeme.text.toList)
    (hkind : lexeme.kind ≠ .unrecognised) (h : isLandmark lexeme.text = true) :
    lexeme.piece keywords known = landmarkPiece lexeme.text := by
  rcases kind_of_isLandmark hlexeme hkind h with ⟨hliteral, hquoted⟩ | ⟨hbracket, hquoted⟩
  · rw [TokenTree.piece_of_token (by simp [hliteral]) (by simp [hliteral]), landmarkPiece,
      if_pos hquoted, hliteral]
    rfl
  · rw [TokenTree.piece_of_bracket hbracket, landmarkPiece, if_neg (by simp [hquoted])]

/-- The piece of a lexeme is a landmark where its text is one. -/
theorem isLandmark_piece (hlexeme : IsLexeme lexeme.kind lexeme.text.toList)
    (hkind : lexeme.kind ≠ .unrecognised) :
    (lexeme.piece keywords known).isLandmark = isLandmark lexeme.text := by
  cases h : isLandmark lexeme.text with
  | true =>
    rw [piece_of_isLandmark hlexeme hkind h, landmarkPiece]
    split
    · assumption
    · rfl
  | false =>
    unfold isLandmark at h
    cases htext : lexeme.text.toList with
    | nil =>
      rw [htext] at hlexeme
      exact hlexeme.elim
    | cons c rest =>
      rw [htext] at hlexeme h
      -- Neither a quote nor a bracket starts the lexeme, so its piece is a token without quotes.
      have hnot :
          ¬ (starts .literal c = true ∨ starts .opening c = true ∨ starts .closing c = true) := by
        rw [← isLandmarkChar_iff, show isLandmarkChar c = false from h]
        exact Bool.false_ne_true
      have hstarts := starts_of_isLexeme hlexeme
      have hopening : lexeme.kind ≠ .opening :=
        fun hkind => hnot (Or.inr (Or.inl (hkind ▸ hstarts)))
      have hclosing : lexeme.kind ≠ .closing :=
        fun hkind => hnot (Or.inr (Or.inr (hkind ▸ hstarts)))
      rw [TokenTree.piece_of_token hopening hclosing, Piece.isLandmark, isQuoted, htext,
        Bool.eq_false_iff]
      exact fun hquoted => hnot (Or.inl hquoted)

/-- The landmarks among the pieces of lexemes depend on the texts only. -/
theorem filter_piece (hlexemes : AreLexemes lexemes) (hrecognised : Recognised lexemes) :
    (lexemes.map (piece keywords known)).filter Piece.isLandmark =
      (lexemes.filter fun lexeme => isLandmark lexeme.text).map (piece keywords known) := by
  rw [List.filter_map]
  congr 1
  refine List.filter_congr fun lexeme hlexeme => ?_
  exact isLandmark_piece (hlexemes lexeme hlexeme (hrecognised lexeme hlexeme))
    (hrecognised lexeme hlexeme)

/-- The pieces of the landmarks among lexemes are told by the texts of the lexemes. -/
theorem map_piece_filter (hlexemes : AreLexemes lexemes) (hrecognised : Recognised lexemes) :
    (lexemes.filter fun lexeme => isLandmark lexeme.text).map (piece keywords known) =
      ((lexemes.map Lexeme.text).filter isLandmark).map landmarkPiece := by
  rw [List.filter_map, List.map_map]
  refine List.map_congr_left fun lexeme hlexeme => ?_
  obtain ⟨hmem, hlandmark⟩ := List.mem_filter.mp hlexeme
  exact piece_of_isLandmark (hlexemes lexeme hmem (hrecognised lexeme hmem))
    (hrecognised lexeme hmem) hlandmark

end

/-! ### Landmarks of trees -/

namespace TokenTree

mutual

/-- The groups and the quoted literals of a tree. -/
def landmarksIn : TokenTree → List TokenTree
  | leaf token => if isQuoted token.text then [leaf token] else []
  | group bracket contents => [group bracket (landmarks contents)]

/-- The groups and the quoted literals of trees, nested and in order as they are. -/
def landmarks : List TokenTree → List TokenTree
  | [] => []
  | tree :: rest => landmarksIn tree ++ landmarks rest

end

mutual

/-- The landmarks in a tree are the landmarks among its pieces. -/
theorem pieces_landmarksIn : (tree : TokenTree) →
    pieces (landmarksIn tree) = (piecesIn tree).filter Piece.isLandmark
  | leaf token => by
    rw [landmarksIn, piecesIn]
    have hlandmark : (Piece.token token).isLandmark = isQuoted token.text := rfl
    cases hquoted : isQuoted token.text with
    | true =>
      rw [List.filter_cons_of_pos (hlandmark.trans hquoted)]
      rfl
    | false =>
      rw [List.filter_cons_of_neg (by rw [hlandmark, hquoted]; exact Bool.false_ne_true)]
      rfl
  | group bracket contents => by
    rw [landmarksIn, pieces, pieces, List.append_nil, piecesIn, piecesIn, pieces_landmarks contents,
      List.filter_cons_of_pos rfl, List.filter_append]
    rfl

theorem pieces_landmarks : (trees : List TokenTree) →
    pieces (landmarks trees) = (pieces trees).filter Piece.isLandmark
  | [] => rfl
  | tree :: rest => by
    rw [landmarks, pieces_append, pieces_landmarksIn tree, pieces_landmarks rest, pieces,
      List.filter_append]

end

variable {keywords keywords' : Keywords} {known known' : String → Bool} {text text' : String}
  {trees trees' : List TokenTree}

/-- Texts whose lexemes have the same landmarks have trees with the same groups and literals. -/
theorem landmarks_eq (h : ofText keywords known text = .ok trees)
    (h' : ofText keywords' known' text' = .ok trees')
    (hsame : ((scan text').map Lexeme.text).filter isLandmark =
    ((scan text).map Lexeme.text).filter isLandmark) :
    landmarks trees' = landmarks trees := by
  obtain ⟨hrecognised, hpieces⟩ :=
    ((decides_groupFrom keywords known (areLexemes_scan text)).eq_ok_iff trees).mp h
  obtain ⟨hrecognised', hpieces'⟩ :=
    ((decides_groupFrom keywords' known' (areLexemes_scan text')).eq_ok_iff trees').mp h'
  have hsubset : (scan text).filter (fun lexeme => isLandmark lexeme.text) ⊆ scan text :=
    List.filter_subset_self _
  -- Both trees have the same landmark pieces, and pieces decide how they are grouped.
  have hfirst : pieces (landmarks trees) =
      ((scan text).filter fun lexeme => isLandmark lexeme.text).map (piece keywords known) := by
    rw [pieces_landmarks, hpieces, filter_piece (areLexemes_scan text) hrecognised]
  have hsecond : pieces (landmarks trees') =
      ((scan text).filter fun lexeme => isLandmark lexeme.text).map (piece keywords known) := by
    rw [pieces_landmarks, hpieces', filter_piece (areLexemes_scan text') hrecognised',
      map_piece_filter (areLexemes_scan text') hrecognised', hsame,
      map_piece_filter (areLexemes_scan text) hrecognised]
  have hlexemes := (areLexemes_scan text).of_subset hsubset
  have hkinds : Recognised ((scan text).filter fun lexeme => isLandmark lexeme.text) :=
    fun lexeme hlexeme => hrecognised lexeme (hsubset hlexeme)
  have hgrouped := groupFrom_eq_ok hlexemes hkinds hfirst
  rw [groupFrom_eq_ok hlexemes hkinds hsecond] at hgrouped
  exact Except.ok.inj hgrouped

/-- The text that is rebuilt from the trees of a text has the same landmarks. -/
theorem filter_scan_joinTokens (h : ofText keywords known text = .ok trees)
    (h' : ofText keywords' known' (joinTokens (texts trees)) = .ok trees') :
    ((scan (joinTokens (texts trees))).map Lexeme.text).filter isLandmark =
      ((scan text).map Lexeme.text).filter isLandmark := by
  have hall := all_isToken_of_ofText h
  have hnested := nested_tokens trees hall Nested.nil
  rw [List.append_nil] at hnested
  obtain ⟨hrecognised, -⟩ :=
    ((decides_groupFrom keywords' known' (areLexemes_scan _)).eq_ok_iff trees').mp h'
  have hforms : ∀ form ∈ forms (joinTokens (texts trees)).toList, form.1 ≠ .unrecognised := by
    intro form hform
    obtain ⟨lexeme, hlexeme, rfl⟩ := List.mem_map.mp hform
    exact hrecognised lexeme hlexeme
  rw [map_text_scan, filter_forms hforms, ← tokens_of_ofText h,
    filter_of_nested hnested (p := none), toList_joinTokens hall]

/-! ### Places in trees -/

/-- The tree at a place: at a position on the outermost level, or further inside the group that
stands there. -/
def at? (trees : List TokenTree) (position : Nat) : List Nat → Option TokenTree
  | [] => trees[position]?
  | next :: path =>
    match trees[position]? with
    | some (group _ contents) => at? contents next path
    | _ => none

/-- Among no trees there is no place. -/
theorem at?_nil (position : Nat) (path : List Nat) : at? [] position path = none := by
  cases path with
  | nil => rfl
  | cons next path => rfl

end TokenTree

/-- The node at a place below a node. -/
def Node.at? (node : Node) (position : Nat) : List Nat → Option Node
  | [] => node.leaves[position]?
  | next :: path =>
    match node.leaves[position]? with
    | some inner => inner.at? next path
    | none => none

/-- The chain from a place on: along the level, or along the level inside the group that stands
there. -/
def Chain.at? (chain : Chain) (position : Nat) : List Nat → Option Chain
  | [] =>
    match chain.after position with
    | .stop => none
    | rest => some rest
  | next :: path =>
    match chain.after position with
    | .link _ (.group _) down _ => down.at? next path
    | _ => none

/-- At every place of the trees, the tree shape and the list shape are written as the tree that
stands there. -/
structure RebuiltAlike (trees : List TokenTree) : Prop where
  node : ∀ position path, ((Node.ofTrees trees).at? position path).map Node.text =
    (TokenTree.at? trees position path).map TokenTree.text
  cursor : ∀ keywords position path,
    ((Chain.ofTrees trees).at? position path).map (fun rest =>
      Level.tokenText (rest.items keywords)) =
      (TokenTree.at? trees position path).map TokenTree.text

namespace Node

theorem ofTreeList_eq_map (trees : List TokenTree) : ofTreeList trees = trees.map ofTree := by
  induction trees with
  | nil => rfl
  | cons tree rest ih => rw [ofTreeList, List.map_cons, ih]

mutual

/-- A node is written as its tree. -/
theorem text_ofTree : (tree : TokenTree) → (ofTree tree).text = tree.text
  | .leaf token => by
    have hgroup : ¬[markOf token.cls].contains .group = true := by
      cases token.cls <;> decide
    rw [ofTree, text, if_neg hgroup, TokenTree.text]
  | .group bracket contents => by
    rw [ofTree, text, if_pos (by decide), TokenTree.text, texts_ofTreeList contents,
      Bracket.ofOpening?_opening]
    rfl

theorem texts_ofTreeList :
    (trees : List TokenTree) → texts (ofTreeList trees) = TokenTree.texts trees
  | [] => rfl
  | tree :: rest => by
    rw [ofTreeList, texts, TokenTree.texts, text_ofTree tree, texts_ofTreeList rest]

end

/-- The node at a place is the node of the tree there. -/
theorem at?_ofTrees (path : List Nat) :
    ∀ (trees : List TokenTree) (value : String) (marks : List NodeMark)
    (position : Nat), (Node.mk value marks (ofTreeList trees)).at? position path =
      (TokenTree.at? trees position path).map ofTree := by
  -- By induction on the path, for all trees at once: each step goes into one group.
  induction path with
  | nil =>
    intro trees value marks position
    rw [Node.at?, TokenTree.at?, ofTreeList_eq_map, List.getElem?_map]
  | cons next path ih =>
    intro trees value marks position
    rw [Node.at?, TokenTree.at?, ofTreeList_eq_map, List.getElem?_map]
    cases htree : trees[position]? with
    | none => rfl
    | some tree =>
      cases tree with
      | leaf token =>
        -- A leaf has nothing inside.
        have hnone := ih [] token.text [markOf token.cls] next
        rw [TokenTree.at?_nil] at hnone
        exact hnone
      | group bracket contents => exact ih contents bracket.opening [.group] next

end Node

namespace Chain

/-- Going along a chain drops trees. -/
theorem after_ofTrees (count : Nat) (trees : List TokenTree) :
    (ofTrees trees).after count = ofTrees (trees.drop count) := by
  induction count generalizing trees with
  | zero => rfl
  | succ count ih =>
    cases trees with
    | nil => rfl
    | cons tree rest =>
      rw [List.drop_succ_cons, ← ih rest, ofTrees]
      cases tree <;> rfl

/-- A cursor on a place is on the tree there. -/
theorem tokenText_at?_ofTrees (keywords : Keywords) (path : List Nat) : ∀ (trees : List TokenTree)
    (position : Nat), ((ofTrees trees).at? position path).map (fun rest =>
      Level.tokenText (rest.items keywords)) =
      (TokenTree.at? trees position path).map TokenTree.text := by
  -- By induction on the path, for all trees at once: each step goes down into one group.
  induction path with
  | nil =>
    intro trees position
    rw [Chain.at?, TokenTree.at?, after_ofTrees, ← List.head?_drop]
    cases trees.drop position with
    | nil => rfl
    | cons tree rest =>
      have htext : Level.tokenText ((ofTrees (tree :: rest)).items keywords) = tree.text := by
        rw [items_ofTrees, TokenTree.items]
        exact TokenTree.tokenText_item _ tree
      rw [List.head?_cons, Option.map_some, ← htext]
      cases tree <;> rfl
  | cons next path ih =>
    intro trees position
    rw [Chain.at?, TokenTree.at?, after_ofTrees, ← List.head?_drop]
    cases trees.drop position with
    | nil => rfl
    | cons tree rest =>
      cases tree with
      | leaf token =>
        rw [ofTrees, ofTree]
        cases hkind : kindOf token with
        | group bracket => exact absurd hkind (kindOf_ne_group token bracket)
        | _ => rfl
      | group bracket contents => exact ih contents next

end Chain

/-- The tree shape and the list shape of trees are written as the trees, at every depth. -/
theorem rebuiltAlike (trees : List TokenTree) : RebuiltAlike trees where
  node position path := by
    have hnode := Node.at?_ofTrees path trees "" [.root] position
    rw [Node.ofTrees, Node.root, hnode, Option.map_map]
    exact congrArg (Option.map · _) (funext Node.text_ofTree)
  cursor keywords position path := Chain.tokenText_at?_ofTrees keywords path trees position

namespace TokenTree

/-- **Rebuilt text is a normal form**, whatever the keywords and the types that are known: it is cut
into trees with the same groups and quoted literals, and these are written as the same text again.
Both shapes of the trees rebuild each of them as the tree itself. -/
theorem joinTokens_isNormalForm {keywords : Keywords} {known : String → Bool} {text : String}
    {trees : List TokenTree} (h : ofText keywords known text = .ok trees) :
    (∀ keywords' known', ∃ again, ofText keywords' known' (joinTokens (texts trees)) = .ok again ∧
      landmarks again = landmarks trees ∧ joinTokens (texts again) = joinTokens (texts trees)) ∧
    RebuiltAlike trees := by
  refine ⟨fun keywords' known' => ?_, rebuiltAlike trees⟩
  obtain ⟨again, hagain, htext⟩ :=
    exists_ofText_joinTokens keywords' known' (all_isToken_of_ofText h)
  exact ⟨again, hagain, landmarks_eq h hagain (filter_scan_joinTokens h hagain), htext⟩

/-- Symbols and numbers that fuse, around groups and a literal. -/
theorem joinTokens_isNormalForm_fused : ∃ trees,
    ofText ((Scope.ofSettings {}).keywords .c) (fun _ =>
      false) "a & &(1 .5, : ::[x \"& &\"]) < <= b" = .ok trees ∧
    (∀ keywords' known', ∃ again, ofText keywords' known' (joinTokens (texts trees)) = .ok again ∧
      landmarks again = landmarks trees ∧ joinTokens (texts again) = joinTokens (texts trees)) ∧
    RebuiltAlike trees := by
  have hok : (ofText ((Scope.ofSettings {}).keywords .c) (fun _ => false)
      "a & &(1 .5, : ::[x \"& &\"]) < <= b").isOk = true := by decide +kernel
  cases htrees : ofText ((Scope.ofSettings {}).keywords .c) (fun _ => false)
      "a & &(1 .5, : ::[x \"& &\"]) < <= b" with
  | error fault =>
    rw [htrees] at hok
    cases hok
  | ok trees => exact ⟨trees, rfl, joinTokens_isNormalForm htrees⟩

end TokenTree

end CommonDecl
