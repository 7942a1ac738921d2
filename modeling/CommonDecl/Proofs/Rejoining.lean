import CommonDecl.Proofs.Balance
import CommonDecl.Proofs.Grammar
import CommonDecl.Proofs.Spacing

/-!
# Texts that are joined from tokens

A text that is joined from tokens need not be cut into the same tokens again: two symbols may have
become one, or a number and a point.  But what it is cut into joins to the same text
(`TokenTree.exists_ofText_joinTokens`), in every dialect, so such a text stays as it is however
often it is read and written.
-/

namespace CommonDecl

open Lexeme Text

namespace TokenTree

/-! ### The tokens of trees -/

mutual

/-- The tokens of a tree, the brackets of groups among them. -/
def tokensIn : TokenTree → List String
  | leaf token => [token.text]
  | group bracket contents => bracket.opening :: (tokens contents ++ [bracket.closing])

/-- The tokens of trees, the brackets of groups among them. -/
def tokens : List TokenTree → List String
  | [] => []
  | tree :: rest => tokensIn tree ++ tokens rest

end

mutual

theorem tokensIn_eq_map : (tree : TokenTree) → tokensIn tree = (piecesIn tree).map Piece.text
  | leaf _ => rfl
  | group bracket contents => by
    rw [tokensIn, piecesIn, tokens_eq_map contents, List.map_cons, List.map_append]
    rfl

/-- The tokens are the texts of the pieces. -/
theorem tokens_eq_map : (trees : List TokenTree) → tokens trees = (pieces trees).map Piece.text
  | [] => rfl
  | tree :: rest => by rw [tokens, pieces, tokensIn_eq_map tree, tokens_eq_map rest,
    List.map_append]

end

/-- The trees of a text have the texts of its lexemes as their tokens. -/
theorem tokens_of_ofText {keywords : Keywords} {known : String → Bool} {text : String}
    {trees : List TokenTree} (h : ofText keywords known text = .ok trees) :
    tokens trees = (scan text).map Lexeme.text := by
  have hdecides := decides_groupFrom keywords known (areLexemes_scan text)
  obtain ⟨-, hpieces⟩ := (hdecides.eq_ok_iff trees).mp h
  rw [tokens_eq_map, hpieces, List.map_map]
  exact List.map_congr_left fun lexeme _ => text_piece keywords known lexeme

mutual

/-- Where each token is a lexeme, the brackets among the tokens of a tree match. -/
theorem nested_tokensIn : (tree : TokenTree) → AllIn (fun token => IsToken token.text) tree →
    ∀ {stack : List Bracket} {rest : List String}, Nested stack rest →
      Nested stack (tokensIn tree ++ rest)
  | leaf _, h, _, _, hrest => .token h hrest
  | group bracket contents, h, _, _, hrest => by
    rw [tokensIn, List.cons_append, List.append_assoc]
    exact .opening bracket (nested_tokens contents h (.closing bracket hrest))

theorem nested_tokens : (trees : List TokenTree) → All (fun token => IsToken token.text) trees →
    ∀ {stack : List Bracket} {rest : List String}, Nested stack rest →
      Nested stack (tokens trees ++ rest)
  | [], _, _, _, hrest => hrest
  | tree :: others, h, _, _, hrest => by
    rw [tokens, List.append_assoc]
    exact nested_tokensIn tree h.1 (nested_tokens others h.2 hrest)

end

/-- Lexemes whose brackets match are grouped to trees. -/
theorem exists_groupFrom {keywords : Keywords} {known : String → Bool} {stack : List Bracket}
    {tokens : List String} (h : Nested stack tokens) :
    ∀ {lexemes : List Lexeme}, lexemes.map Lexeme.text = tokens →
      (∀ lexeme ∈ lexemes, lexeme.kind ≠ .unrecognised) →
        ∀ {outer : List (Bracket × List TokenTree)}, outer.map Prod.fst = stack → ∀ level, ∃ trees,
          groupFrom keywords known outer level lexemes = .ok trees := by
  -- By induction on the nesting, whose stack is the brackets of the groups that are open.
  induction h with
  | nil =>
    intro lexemes htexts _ outer houter level
    obtain rfl : lexemes = [] := List.map_eq_nil_iff.mp htexts
    obtain rfl : outer = [] := List.map_eq_nil_iff.mp houter
    exact ⟨level, rfl⟩
  | token htoken _ ih =>
    intro lexemes htexts hrecognised outer houter level
    obtain ⟨lexeme, others, rfl, rfl, hothers⟩ := List.map_eq_cons_iff.mp htexts
    rw [List.forall_mem_cons] at hrecognised
    obtain ⟨kind, hlexeme, -, hopening, hclosing⟩ := htoken
    rw [groupFrom_leaf hrecognised.1 (ofOpening?_of_isLexeme hlexeme hopening)
      (ofClosing?_of_isLexeme hlexeme hclosing)]
    exact ih hothers hrecognised.2 houter _
  | opening bracket _ ih =>
    intro lexemes htexts hrecognised outer houter level
    obtain ⟨lexeme, others, rfl, htext, hothers⟩ := List.map_eq_cons_iff.mp htexts
    rw [List.forall_mem_cons] at hrecognised
    rw [groupFrom_of_opening hrecognised.1 htext]
    exact ih hothers hrecognised.2 (by rw [List.map_cons, houter]) _
  | closing bracket _ ih =>
    intro lexemes htexts hrecognised outer houter level
    obtain ⟨lexeme, others, rfl, htext, hothers⟩ := List.map_eq_cons_iff.mp htexts
    rw [List.forall_mem_cons] at hrecognised
    obtain ⟨⟨opened, before⟩, outer', rfl, rfl, houter'⟩ := List.map_eq_cons_iff.mp houter
    rw [groupFrom_of_closing hrecognised.1 htext, if_pos rfl]
    exact ih hothers hrecognised.2 houter' _

/-! ### Joining the texts of trees -/

theorem lastAfter_tokens_group (p : Option Char) (bracket : Bracket) (contents : List TokenTree) :
    lastAfter p (tokensIn (group bracket contents)) = some bracket.closingChar := by
  rw [tokensIn, ← List.cons_append, lastAfter_append, lastAfter, lastAfter, bracket.closing_eq,
    String.toList_ofList]
  rfl

theorem pushToken_eq {text token : String} {c : Char} {rest : List Char}
    (htoken : token.toList = c :: rest) (hclosing : starts .closing c = false) :
    (pushToken text token).toList =
      text.toList ++ ((if spaced text.toList.getLast? c then [' '] else []) ++ token.toList) := by
  have hspaced (last : Char) : spaced (some last) c = needsSpace last c := by
    rw [spaced, Option.any_some, hclosing, Bool.not_false, Bool.and_true]
  rw [pushToken, htoken, List.head?_cons]
  cases text.toList.getLast? with
  | none =>
    rw [String.toList_append, htoken]
    rfl
  | some last =>
    dsimp only
    rw [hspaced]
    split
    · rw [String.toList_append, String.toList_append, htoken, List.append_assoc]
      rfl
    · rw [String.toList_append, htoken]
      rfl

theorem joinAfter_openingChar (bracket : Bracket) (tokens : List String) :
    joinAfter (some bracket.openingChar) tokens = joinAfter none tokens := by
  have hspaced : ∀ c, spaced (some bracket.openingChar) c = false := by
    intro c
    have hword : isWordLike bracket.openingChar = false := by cases bracket <;> rfl
    have hcomma : (bracket.openingChar == ',') = false := by cases bracket <;> rfl
    rw [spaced, Option.any_some, needsSpace, hword, hcomma, Bool.false_and, Bool.false_or,
      Bool.false_and]
  cases tokens with
  | nil => rfl
  | cons token rest =>
    have hnone : spaceBefore none token = spaceBefore (some bracket.openingChar) token := by
      unfold spaceBefore
      cases token.toList with
      | nil => rfl
      | cons c others =>
        show (if spaced none c then [' '] else []) =
          if spaced (some bracket.openingChar) c then [' '] else []
        rw [hspaced]
        rfl
    rw [joinAfter, joinAfter, hnone]

mutual

/-- A tree behind a text is written as its tokens are. -/
theorem toList_pushToken : (tree : TokenTree) → AllIn (fun token => IsToken token.text) tree →
    ∀ text : String, (pushToken text tree.text).toList =
        text.toList ++ joinAfter text.toList.getLast? (tokensIn tree) ∧
      (pushToken text tree.text).toList.getLast? = lastAfter text.toList.getLast? (tokensIn tree)
  | leaf token, h, text => by
    obtain ⟨c, rest, htoken, -, hclosing⟩ := exists_cons_of_isToken h
    have hspace : spaceBefore text.toList.getLast? token.text =
        if spaced text.toList.getLast? c then [' '] else [] := by
      rw [spaceBefore, htoken]
      rfl
    rw [TokenTree.text, pushToken_eq htoken hclosing, tokensIn, joinAfter, joinAfter,
      List.append_nil, hspace]
    refine ⟨rfl, ?_⟩
    rw [lastAfter, lastAfter, ← List.append_assoc, List.getLast?_append, htoken, List.getLast?_cons]
    rfl
  | group bracket contents, h, text => by
    have hcontents := toList_foldl_pushToken contents h ""
    change (joinTokens (texts contents)).toList = joinAfter none (tokens contents) at hcontents
    -- A group is written as its brackets around what it holds.
    have hgroup : (group bracket contents).text.toList =
        bracket.openingChar :: (joinAfter none (tokens contents) ++ [bracket.closingChar]) := by
      rw [TokenTree.text, String.toList_append, String.toList_append, hcontents, bracket.opening_eq,
        bracket.closing_eq, String.toList_ofList, String.toList_ofList]
      rfl
    have hclosing : starts .closing bracket.openingChar = false := by cases bracket <;> rfl
    -- No space stands in front of a closing bracket.
    have hlast (p : Option Char) : joinAfter p [bracket.closing] = [bracket.closingChar] := by
      rw [joinAfter, joinAfter, bracket.closing_eq, spaceBefore_ofList,
        bracket.not_spaced_closingChar, String.toList_ofList]
      rfl
    rw [pushToken_eq hgroup hclosing, lastAfter_tokens_group]
    constructor
    · rw [hgroup, tokensIn, joinAfter, joinAfter_append, hlast, bracket.opening_eq,
        spaceBefore_ofList, String.toList_ofList, List.append_assoc]
      show _ = text.toList ++ (_ ++ ([bracket.openingChar] ++
        (joinAfter (some bracket.openingChar) (tokens contents) ++ [bracket.closingChar])))
      rw [joinAfter_openingChar]
      rfl
    · rw [hgroup, ← List.append_assoc, ← List.cons_append, ← List.append_assoc,
        List.getLast?_append]
      rfl

/-- Trees behind a text are written as their tokens are. -/
theorem toList_foldl_pushToken :
    (trees : List TokenTree) → All (fun token => IsToken token.text) trees → ∀ text :
    String, ((texts trees).foldl pushToken text).toList =
      text.toList ++ joinAfter text.toList.getLast? (tokens trees)
  | [], _, text => by
    rw [texts, tokens, joinAfter, List.append_nil]
    rfl
  | tree :: rest, h, text => by
    obtain ⟨hpush, hlast⟩ := toList_pushToken tree h.1 text
    rw [texts, List.foldl_cons, toList_foldl_pushToken rest h.2, hlast, hpush, tokens,
      joinAfter_append, List.append_assoc]

end

/-- The joined text of trees is that of their tokens. -/
theorem toList_joinTokens {trees : List TokenTree}
    (h : All (fun token => IsToken token.text) trees) :
    (joinTokens (texts trees)).toList = joinAfter none (tokens trees) :=
  toList_foldl_pushToken trees h ""

/-! ### Reading joined texts again -/

theorem isToken_of_lexeme {lexeme : Lexeme} {text : String} (h : lexeme ∈ scan text)
    (hkind : lexeme.kind ≠ .unrecognised) (hopening : Bracket.ofOpening? lexeme.text = none)
    (hclosing : Bracket.ofClosing? lexeme.text = none) : IsToken lexeme.text := by
  have hlexeme := isLexeme_of_mem_scan h hkind
  refine ⟨lexeme.kind, hlexeme, hkind, fun hopens => ?_, fun hcloses => ?_⟩
  · rw [hopens] at hlexeme
    obtain ⟨bracket, hbracket⟩ := exists_opening hlexeme
    rw [hbracket, Bracket.ofOpening?_opening] at hopening
    cases hopening
  · rw [hcloses] at hlexeme
    obtain ⟨bracket, hbracket⟩ := exists_closing hlexeme
    rw [hbracket, Bracket.ofClosing?_closing] at hclosing
    cases hclosing

/-- Each token of a text is a lexeme. -/
theorem all_isToken_of_ofText {keywords : Keywords} {known : String → Bool} {text : String}
    {trees : List TokenTree} (h : ofText keywords known text = .ok trees) :
    All (fun token => IsToken token.text) trees :=
  all_of_groupFrom (fun _ hlexeme hkind hopening hclosing =>
    isToken_of_lexeme hlexeme hkind hopening hclosing)
    (by rw [All]; trivial) (by simp) h

/-- **The text of trees is cut into tokens that join to the same text**, whatever the keywords and
the types that are known. -/
theorem exists_ofText_joinTokens (keywords : Keywords) (known : String → Bool)
    {trees : List TokenTree} (h : All (fun token => IsToken token.text) trees) :
    ∃ again, ofText keywords known (joinTokens (texts trees)) = .ok again ∧
      joinTokens (texts again) = joinTokens (texts trees) := by
  have hnested : Nested [] (tokens trees) := by
    have hnil := nested_tokens trees h Nested.nil
    rwa [List.append_nil] at hnil
  have hcontinues : Continues [] none (joinAfter none (tokens trees)) := hnested.continues
  obtain ⟨hrecognised, hagain, hjoin⟩ := hcontinues.rejoins fun ⟨_, hnone, _⟩ => nomatch hnone
  rw [← toList_joinTokens h] at hrecognised hagain hjoin
  obtain ⟨again, hofText⟩ : ∃ again, ofText keywords known (joinTokens (texts trees)) =
      .ok again := by
    refine exists_groupFrom hagain (map_text_scan _) (fun lexeme hlexeme => ?_) rfl []
    exact hrecognised (lexeme.kind, lexeme.text) (List.mem_map.mpr ⟨lexeme, hlexeme, rfl⟩)
  refine ⟨again, hofText, ?_⟩
  apply String.toList_inj.mp
  rw [toList_joinTokens (all_isToken_of_ofText hofText), tokens_of_ofText hofText, map_text_scan,
    hjoin]

/-- What the text of trees is cut into can be restored from its own text, which is the same. -/
theorem exists_restorable (scope : Scope) (known : String → Bool) {trees : List TokenTree}
    (h : All (fun token => IsToken token.text) trees) :
    ∃ contents, Restorable scope known contents ∧ joinTokens (texts contents) =
      joinTokens (texts trees) := by
  obtain ⟨contents, hcontents, htext⟩ := exists_ofText_joinTokens (scope.keywords .c) known h
  exact ⟨contents, by rwa [Restorable, htext], htext⟩

end TokenTree

end CommonDecl
