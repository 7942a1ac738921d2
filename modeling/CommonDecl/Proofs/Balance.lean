import CommonDecl.Proofs.Grouping
import Mathlib.Data.List.Induction

/-!
# Balanced brackets

Grouping accepts exactly the lexemes whose brackets are well nested, and keeps every one of them:
`pieces` flattens trees to the lexemes that they stand for (`TokenTree.pieces`), and
`ofText_decides` says when there are trees, what they flatten to, and which lexeme decides the fault
otherwise.

The brackets of a text are a word of marks, and the words that are well nested are given by a
grammar (`WellNested`).  What grouping keeps on its stack is `LeavesOpen`, the brackets that a word
leaves open.
-/

namespace CommonDecl

/-- A bracket where it stands in a text: it opens a group, or it closes one. -/
inductive BracketMark where
  | opening (bracket : Bracket)
  | closing (bracket : Bracket)
deriving DecidableEq

namespace BracketMark

/-! ### Words of brackets -/

/-- Each bracket is closed by one of its own kind, behind everything that is opened inside of it. -/
inductive WellNested : List BracketMark → Prop where
  | nil : WellNested []
  | group {inside rest : List BracketMark} (bracket : Bracket) (hinside : WellNested inside)
    (hrest : WellNested rest) : WellNested (opening bracket :: (inside ++ closing bracket :: rest))

/-- The word leaves these brackets open, the innermost one first: between them it is well nested. -/
inductive LeavesOpen : List BracketMark → List Bracket → Prop where
  | nothing {marks : List BracketMark} (h : WellNested marks) : LeavesOpen marks []
  | inside {before inner : List BracketMark} {outer : List Bracket}
    (houter : LeavesOpen before outer)
    (bracket : Bracket) (hinner : WellNested inner) :
    LeavesOpen (before ++ opening bracket :: inner) (bracket :: outer)

/-- The brackets that are open behind a word, where `stack` is open in front of it.  There are none
behind a bracket that closes nothing, or something of another kind. -/
def stackAfter (stack : List Bracket) : List BracketMark → Option (List Bracket)
  | [] => some stack
  | opening bracket :: rest => stackAfter (bracket :: stack) rest
  | closing bracket :: rest =>
    match stack with
    | [] => none
    | opened :: outer => if opened = bracket then stackAfter outer rest else none

/-- A bracket of its own kind closes the innermost one that is open. -/
theorem stackAfter_closing (bracket : Bracket) (outer : List Bracket) (rest : List BracketMark) :
    stackAfter (bracket :: outer) (closing bracket :: rest) = stackAfter outer rest := by
  simp [stackAfter]

/-- What a word leaves open is what the next one starts with. -/
theorem stackAfter_append (stack : List Bracket) (first second : List BracketMark) :
    stackAfter stack (first ++ second) =
      (stackAfter stack first).bind fun between => stackAfter between second := by
  induction first generalizing stack with
  | nil => rfl
  | cons mark rest ih =>
    cases mark with
    | opening bracket => exact ih (bracket :: stack)
    | closing bracket =>
      cases stack with
      | nil => rfl
      | cons opened outer =>
        simp only [List.cons_append, stackAfter]
        split
        · exact ih outer
        · rfl

/-- Words that are well nested stand side by side. -/
theorem WellNested.append {first second : List BracketMark} (hfirst : WellNested first)
    (hsecond : WellNested second) : WellNested (first ++ second) := by
  induction hfirst with
  | nil => exact hsecond
  | group bracket hinside _ _ ih =>
    simp only [List.cons_append, List.append_assoc]
    exact .group bracket hinside ih

/-- A word that is well nested leaves the stack as it is. -/
theorem WellNested.stackAfter_eq {marks : List BracketMark} (h : WellNested marks)
    (stack : List Bracket) : stackAfter stack marks = some stack := by
  induction h generalizing stack with
  | nil => rfl
  | group bracket _ _ ihinside ihrest =>
    rw [stackAfter, stackAfter_append, ihinside]
    show stackAfter (bracket :: stack) (closing bracket :: _) = some stack
    rw [stackAfter_closing, ihrest]

/-- A word that is well nested leaves nothing further open. -/
theorem LeavesOpen.append {marks inner : List BracketMark} {stack : List Bracket}
    (h : LeavesOpen marks stack) (hinner : WellNested inner) :
    LeavesOpen (marks ++ inner) stack := by
  cases h with
  | nothing h => exact .nothing (h.append hinner)
  | inside houter bracket h =>
    rw [List.append_assoc, List.cons_append]
    exact .inside houter bracket (h.append hinner)

/-- The brackets that are left open are those on the stack. -/
theorem LeavesOpen.stackAfter_eq {marks : List BracketMark} {stack : List Bracket}
    (h : LeavesOpen marks stack) : stackAfter [] marks = some stack := by
  induction h with
  | nothing h => exact h.stackAfter_eq []
  | @inside before inner outer houter bracket hinner ih =>
    rw [stackAfter_append, ih]
    exact hinner.stackAfter_eq (bracket :: outer)

/-- The brackets on the stack are left open: each of them was opened, and what is behind it is
well nested. -/
theorem leavesOpen_of_stackAfter {marks : List BracketMark} :
    ∀ {stack : List Bracket}, stackAfter [] marks = some stack → LeavesOpen marks stack := by
  -- From the right, as it is the last mark that changes what is open.
  induction marks using List.reverseRecOn with
  | nil =>
    rintro stack ⟨⟩
    exact .nothing .nil
  | append_singleton front last ih =>
    intro stack h
    rw [stackAfter_append] at h
    obtain ⟨between, hfront, hlast⟩ := Option.bind_eq_some_iff.mp h
    have hopen := ih hfront
    cases last with
    | opening bracket =>
      cases hlast
      exact .inside hopen bracket .nil
    | closing bracket =>
      cases between with
      | nil => cases hlast
      | cons opened outer =>
        simp only [stackAfter, Option.ite_none_right_eq_some, Option.some.injEq] at hlast
        obtain ⟨rfl, rfl⟩ := hlast
        cases hopen with
        | inside houter _ hinner =>
          rw [List.append_assoc, List.cons_append]
          exact houter.append (.group opened hinner .nil)

/-- The stack behind a word is what the word leaves open. -/
theorem leavesOpen_iff {marks : List BracketMark} {stack : List Bracket} :
    LeavesOpen marks stack ↔ stackAfter [] marks = some stack :=
  ⟨LeavesOpen.stackAfter_eq, leavesOpen_of_stackAfter⟩

/-- A word that leaves nothing open is well nested, and the other way round. -/
theorem leavesOpen_nil_iff {marks : List BracketMark} : LeavesOpen marks [] ↔ WellNested marks := by
  constructor
  · intro h
    cases h with
    | nothing h => exact h
  · exact .nothing

/-- A word goes on to a word that is well nested if and only if it leaves something open that can be
closed. -/
theorem exists_wellNested_append_iff {marks : List BracketMark} :
    (∃ further, WellNested (marks ++ further)) ↔ ∃ stack, LeavesOpen marks stack := by
  constructor
  · rintro ⟨further, h⟩
    have hall := h.stackAfter_eq []
    rw [stackAfter_append] at hall
    obtain ⟨stack, hstack, -⟩ := Option.bind_eq_some_iff.mp hall
    exact ⟨stack, leavesOpen_of_stackAfter hstack⟩
  · rintro ⟨stack, h⟩
    -- What closes the open brackets, the innermost one first.
    refine ⟨stack.map closing, ?_⟩
    rw [← leavesOpen_nil_iff, leavesOpen_iff, stackAfter_append, h.stackAfter_eq]
    show stackAfter stack (stack.map closing) = some []
    clear h
    induction stack with
    | nil => rfl
    | cons bracket outer ih => rw [List.map_cons, stackAfter_closing, ih]

end BracketMark

open BracketMark

/-! ### The brackets among lexemes -/

namespace Lexeme

/-- The bracket that a lexeme is. -/
def mark? (lexeme : Lexeme) : Option BracketMark :=
  match lexeme.kind with
  | .opening => (Bracket.ofOpening? lexeme.text).map .opening
  | .closing => (Bracket.ofClosing? lexeme.text).map .closing
  | _ => none

/-- The brackets among lexemes. -/
def marks (lexemes : List Lexeme) : List BracketMark :=
  lexemes.filterMap mark?

/-- None of the lexemes is unrecognised. -/
def Recognised (lexemes : List Lexeme) : Prop :=
  ∀ lexeme ∈ lexemes, lexeme.kind ≠ .unrecognised

/-- Each of the lexemes that is recognised is one on its own, as those of a text are. -/
def AreLexemes (lexemes : List Lexeme) : Prop :=
  ∀ lexeme ∈ lexemes, lexeme.kind ≠ .unrecognised → IsLexeme lexeme.kind lexeme.text.toList

/-- The lexemes are recognised, and their brackets go on to a word that is well nested. -/
def Extendable (lexemes : List Lexeme) : Prop :=
  Recognised lexemes ∧ ∃ further, WellNested (marks lexemes ++ further)

@[simp]
theorem marks_nil : marks [] = [] := rfl

@[simp]
theorem marks_append (first second : List Lexeme) :
    marks (first ++ second) = marks first ++ marks second :=
  List.filterMap_append

theorem marks_cons (lexeme : Lexeme) (rest : List Lexeme) :
    marks (lexeme :: rest) = lexeme.mark?.toList ++ marks rest := by
  unfold marks
  cases h : lexeme.mark? <;> simp [h]

/-- Lexemes are recognised one by one. -/
theorem recognised_cons {lexeme : Lexeme} {rest : List Lexeme} :
    Recognised (lexeme :: rest) ↔ lexeme.kind ≠ .unrecognised ∧ Recognised rest :=
  List.forall_mem_cons

theorem recognised_append {first second : List Lexeme} :
    Recognised (first ++ second) ↔ Recognised first ∧ Recognised second :=
  List.forall_mem_append

theorem AreLexemes.of_subset {some all : List Lexeme} (h : AreLexemes all) (hsubset : some ⊆ all) :
    AreLexemes some :=
  fun lexeme hlexeme => h lexeme (hsubset hlexeme)

/-- The lexemes of a text are lexemes on their own. -/
theorem areLexemes_scan (text : String) : AreLexemes (scan text) :=
  fun _ hlexeme hkind => isLexeme_of_mem_scan hlexeme hkind

/-- Lexemes go on to a word that is well nested if they leave something open that can be closed. -/
theorem extendable_iff {lexemes : List Lexeme} :
    Extendable lexemes ↔ Recognised lexemes ∧ ∃ stack, LeavesOpen (marks lexemes) stack := by
  rw [Extendable, exists_wellNested_append_iff]

/-- A place in lexemes is where they stop to be extendable, or there is none. -/
theorem extendable_or_exists_stop (lexemes : List Lexeme) :
    Extendable lexemes ∨ ∃ before lexeme after, lexemes = before ++ lexeme :: after ∧
      Extendable before ∧ ¬ Extendable (before ++ [lexeme]) := by
  induction lexemes using List.reverseRecOn with
  | nil => exact Or.inl ⟨by simp [Recognised], [], .nil⟩
  | append_singleton front last ih =>
    rcases ih with hfront | ⟨before, lexeme, after, rfl, hbefore, hstop⟩
    · by_cases hall : Extendable (front ++ [last])
      · exact Or.inl hall
      · exact Or.inr ⟨front, last, [], rfl, hfront, hall⟩
    · exact Or.inr ⟨before, lexeme, after ++ [last], by simp, hbefore, hstop⟩

/-- A lexeme is an opening bracket if it is of that kind and spelt like it. -/
theorem mark?_eq_opening_iff {lexeme : Lexeme} {bracket : Bracket} :
    lexeme.mark? = some (.opening bracket) ↔
      lexeme.kind = .opening ∧ lexeme.text = bracket.opening := by
  unfold mark?
  constructor
  · intro h
    cases hkind : lexeme.kind <;> simp [hkind] at h
    exact ⟨rfl, Bracket.eq_opening_of_ofOpening? h⟩
  · rintro ⟨hkind, htext⟩
    simp [hkind, htext]

/-- A lexeme is a closing bracket if it is of that kind and spelt like it. -/
theorem mark?_eq_closing_iff {lexeme : Lexeme} {bracket : Bracket} :
    lexeme.mark? = some (.closing bracket) ↔
      lexeme.kind = .closing ∧ lexeme.text = bracket.closing := by
  unfold mark?
  constructor
  · intro h
    cases hkind : lexeme.kind <;> simp [hkind] at h
    exact ⟨rfl, Bracket.eq_closing_of_ofClosing? h⟩
  · rintro ⟨hkind, htext⟩
    simp [hkind, htext]

/-- A lexeme that is no bracket is of no kind of bracket. -/
theorem kind_ne_of_mark?_eq_none {lexeme : Lexeme} (h : lexeme.mark? = none)
    (hlexeme : IsLexeme lexeme.kind lexeme.text.toList) :
    lexeme.kind ≠ .opening ∧ lexeme.kind ≠ .closing := by
  constructor
  · intro hkind
    rw [hkind] at hlexeme
    obtain ⟨bracket, htext⟩ := exists_opening hlexeme
    rw [mark?_eq_opening_iff.mpr ⟨hkind, htext⟩] at h
    cases h
  · intro hkind
    rw [hkind] at hlexeme
    obtain ⟨bracket, htext⟩ := exists_closing hlexeme
    rw [mark?_eq_closing_iff.mpr ⟨hkind, htext⟩] at h
    cases h

end Lexeme

open Lexeme

/-! ### Flat trees -/

/-- What a flat tree is made of: the brackets of groups, as they are written, and tokens. -/
inductive Piece where
  | bracket (text : String)
  | token (token : Token)
deriving DecidableEq

/-- What stands in the text. -/
def Piece.text : Piece → String
  | .bracket text => text
  | .token ⟨text, _⟩ => text

/-- A lexeme, with its class where it is no bracket. -/
def Lexeme.piece (keywords : Keywords) (known : String → Bool) (lexeme : Lexeme) : Piece :=
  match lexeme.kind with
  | .opening | .closing => .bracket lexeme.text
  | kind => .token ⟨lexeme.text, TokenClass.ofLexeme keywords known kind lexeme.text⟩

namespace TokenTree

mutual

/-- A tree without its nesting: a group is its opening bracket, its contents and its closing
bracket. -/
def piecesIn : TokenTree → List Piece
  | leaf token => [.token token]
  | group bracket contents =>
    .bracket bracket.opening :: (pieces contents ++ [.bracket bracket.closing])

/-- Trees without their nesting. -/
def pieces : List TokenTree → List Piece
  | [] => []
  | tree :: rest => piecesIn tree ++ pieces rest

end

/-- Trees are flattened one after the other. -/
theorem pieces_append (first second : List TokenTree) :
    pieces (first ++ second) = pieces first ++ pieces second := by
  induction first with
  | nil => rfl
  | cons tree rest ih => rw [List.cons_append, pieces, pieces, ih, List.append_assoc]

/-- The pieces of what is grouped so far: of the open groups, each behind the trees before it, and
of the trees inside the innermost one. -/
def openPieces (level : List TokenTree) : List (Bracket × List TokenTree) → List Piece
  | [] => pieces level
  | (opened, before) :: outer => openPieces before outer ++ .bracket opened.opening :: pieces level

/-- Trees that are added to the innermost level come last. -/
theorem openPieces_append (level trees : List TokenTree) (outer : List (Bracket × List TokenTree)) :
    openPieces (level ++ trees) outer = openPieces level outer ++ pieces trees := by
  cases outer with
  | nil => exact pieces_append level trees
  | cons opened outer => simp [openPieces, pieces_append]

section

variable {keywords : Keywords} {known : String → Bool} {outer : List (Bracket × List TokenTree)}
  {level : List TokenTree} {lexeme : Lexeme} {bracket : Bracket} {before lexemes rest : List Lexeme}

/-! ### One lexeme -/

/-- A lexeme that is no bracket is added to the innermost level. -/
theorem groupFrom_of_token (hrecognised : lexeme.kind ≠ .unrecognised)
    (hlexeme : IsLexeme lexeme.kind lexeme.text.toList) (hopening : lexeme.kind ≠ .opening)
    (hclosing : lexeme.kind ≠ .closing) :
    groupFrom keywords known outer level (lexeme :: rest) =
      groupFrom keywords known outer
        (level ++ [leaf ⟨lexeme.text, TokenClass.ofLexeme keywords known lexeme.kind lexeme.text⟩])
        rest :=
  groupFrom_leaf hrecognised (ofOpening?_of_isLexeme hlexeme hopening)
    (ofClosing?_of_isLexeme hlexeme hclosing)

/-- A bracket is a piece by its text alone. -/
theorem piece_of_bracket (h : lexeme.kind = .opening ∨ lexeme.kind = .closing) :
    lexeme.piece keywords known = .bracket lexeme.text := by
  unfold piece
  rcases h with h | h <;> rw [h]

/-- A token is a piece with its class. -/
theorem piece_of_token (hopening : lexeme.kind ≠ .opening) (hclosing : lexeme.kind ≠ .closing) :
    lexeme.piece keywords known =
      .token ⟨lexeme.text, TokenClass.ofLexeme keywords known lexeme.kind lexeme.text⟩ := by
  unfold piece
  cases hkind : lexeme.kind <;> simp_all

/-- The piece of a lexeme is a token just if the lexeme is no bracket. -/
theorem piece_eq_token_iff {token : Token} :
    lexeme.piece keywords known = .token token ↔ lexeme.kind ≠ .opening ∧ lexeme.kind ≠ .closing ∧
      token = ⟨lexeme.text, TokenClass.ofLexeme keywords known lexeme.kind lexeme.text⟩ := by
  by_cases h : lexeme.kind = .opening ∨ lexeme.kind = .closing
  · rw [piece_of_bracket h]
    rcases h with h | h <;> simp [h]
  · rw [not_or] at h
    rw [piece_of_token h.1 h.2]
    simp [h, eq_comm]

/-- A piece is spelt as its lexeme is. -/
@[simp]
theorem text_piece (keywords : Keywords) (known : String → Bool) (lexeme : Lexeme) :
    (lexeme.piece keywords known).text = lexeme.text := by
  by_cases h : lexeme.kind = .opening ∨ lexeme.kind = .closing
  · rw [piece_of_bracket h]
    rfl
  · rw [not_or] at h
    rw [piece_of_token h.1 h.2]
    rfl

/-- A lexeme that flattens to a bracket reads like it. -/
theorem text_of_piece_eq_bracket {text : String} (h : lexeme.piece keywords known = .bracket text) :
    lexeme.text = text := by
  rw [← text_piece keywords known lexeme, h]
  rfl

/-! ### A run over lexemes -/

/-- Grouping gets past lexemes, from one stack and level to others: the pieces of the lexemes are
those that come to the stack, and whatever is behind them is grouped from there on. -/
structure GetsPast (keywords : Keywords) (known : String → Bool)
    (outer : List (Bracket × List TokenTree)) (level : List TokenTree) (lexemes : List Lexeme)
    (outer' : List (Bracket × List TokenTree)) (level' : List TokenTree) : Prop where
  openPieces_eq : openPieces level' outer' = openPieces level outer ++
    lexemes.map (piece keywords known)
  groupFrom_append : ∀ rest, groupFrom keywords known outer level (lexemes ++ rest) =
    groupFrom keywords known outer' level' rest

/-- Grouping gets past lexemes in two steps. -/
theorem GetsPast.trans {between outer' : List (Bracket × List TokenTree)}
    {middle level' : List TokenTree}
    (hfirst : GetsPast keywords known outer level before between middle)
    (hsecond : GetsPast keywords known between middle lexemes outer' level') :
    GetsPast keywords known outer level (before ++ lexemes) outer' level' where
  openPieces_eq := by
    rw [hsecond.openPieces_eq, hfirst.openPieces_eq, List.map_append, List.append_assoc]
  groupFrom_append rest := by
    rw [List.append_assoc, hfirst.groupFrom_append, hsecond.groupFrom_append]

/-- A recognised lexeme goes onto the stack as its bracket does, unless this closes nothing. -/
theorem exists_getsPast_singleton (hrecognised : lexeme.kind ≠ .unrecognised)
    (hlexeme : IsLexeme lexeme.kind lexeme.text.toList) {stack : List Bracket}
    (hstack : stackAfter (outer.map Prod.fst) lexeme.mark?.toList = some stack) :
    ∃ outer' level', outer'.map Prod.fst = stack ∧
      GetsPast keywords known outer level [lexeme] outer' level' := by
  -- No bracket adds a tree, an opening one opens a level, and a closing one makes a group of the
  -- innermost level.
  cases hmark : lexeme.mark? with
  | none =>
    rw [hmark] at hstack
    cases hstack
    obtain ⟨hopening, hclosing⟩ := kind_ne_of_mark?_eq_none hmark hlexeme
    refine ⟨outer,
      level ++ [leaf ⟨lexeme.text, TokenClass.ofLexeme keywords known lexeme.kind lexeme.text⟩],
      rfl, ?_, fun rest => groupFrom_of_token hrecognised hlexeme hopening hclosing⟩
    rw [openPieces_append, List.map_singleton, piece_of_token hopening hclosing]
    rfl
  | some mark =>
    rw [hmark] at hstack
    cases mark with
    | opening bracket =>
      cases hstack
      obtain ⟨hopens, htext⟩ := mark?_eq_opening_iff.mp hmark
      refine ⟨(bracket, level) :: outer, [], rfl, ?_, fun rest =>
        groupFrom_of_opening hrecognised htext⟩
      rw [openPieces, List.map_singleton, piece_of_bracket (Or.inl hopens), htext]
      rfl
    | closing bracket =>
      obtain ⟨hcloses, htext⟩ := mark?_eq_closing_iff.mp hmark
      cases outer with
      | nil => cases hstack
      | cons opened outer =>
        obtain ⟨opened, front⟩ := opened
        change (if opened = bracket then some (outer.map Prod.fst) else none) = some stack at hstack
        rw [Option.ite_none_right_eq_some] at hstack
        obtain ⟨rfl, ⟨⟩⟩ := hstack
        refine ⟨outer, front ++ [group opened level], rfl, ?_, fun rest => ?_⟩
        · rw [openPieces_append, openPieces, List.map_singleton, piece_of_bracket (Or.inr hcloses),
            htext]
          simp [pieces, piecesIn]
        · rw [List.singleton_append, groupFrom_of_closing hrecognised htext, if_pos rfl]

/-- What stands in front of a place goes onto the stack, unless a bracket in it closes nothing. -/
theorem exists_getsPast (keywords : Keywords) (known : String → Bool) {stack : List Bracket}
    (hlexemes : AreLexemes before) (hrecognised : Recognised before) :
    ∀ (outer : List (Bracket × List TokenTree)) (level : List TokenTree),
      stackAfter (outer.map Prod.fst) (marks before) = some stack →
        ∃ outer' level', outer'.map Prod.fst = stack ∧
          GetsPast keywords known outer level before outer' level' := by
  -- On the lexemes in front of the place; the stack of brackets is that of the open groups.
  induction before with
  | nil =>
    rintro outer level ⟨⟩
    exact ⟨outer, level, rfl, by simp, fun _ => rfl⟩
  | cons lexeme before ih =>
    intro outer level hstack
    rw [recognised_cons] at hrecognised
    rw [marks_cons, stackAfter_append] at hstack
    obtain ⟨between, hfirst, hbefore⟩ := Option.bind_eq_some_iff.mp hstack
    obtain ⟨outer₁, level₁, rfl, hpast⟩ := exists_getsPast_singleton hrecognised.1
      (hlexemes lexeme List.mem_cons_self hrecognised.1) hfirst
    obtain ⟨outer', level', houter, hfurther⟩ :=
      ih (hlexemes.of_subset (List.subset_cons_self _ _)) hrecognised.2 outer₁ level₁ hbefore
    exact ⟨outer', level', houter, hpast.trans hfurther⟩

mutual

/-- The lexemes that a tree flattens to are grouped to the tree. -/
theorem groupFrom_piecesIn : (tree : TokenTree) → ∀ {lexemes : List Lexeme},
    AreLexemes lexemes → Recognised lexemes →
      lexemes.map (piece keywords known) = piecesIn tree → ∀ outer level rest,
        groupFrom keywords known outer level (lexemes ++ rest) =
          groupFrom keywords known outer (level ++ [tree]) rest
  | leaf token, lexemes, hlexemes, hrecognised, h, outer, level, rest => by
    obtain ⟨lexeme, rfl, hpiece⟩ := List.map_eq_singleton_iff.mp h
    have hkind := hrecognised lexeme List.mem_cons_self
    obtain ⟨hopening, hclosing, rfl⟩ := piece_eq_token_iff.mp hpiece
    exact groupFrom_of_token hkind (hlexemes lexeme List.mem_cons_self hkind) hopening hclosing
  | group bracket contents, lexemes, hlexemes, hrecognised, h, outer, level, rest => by
    rw [piecesIn, List.map_eq_cons_iff] at h
    obtain ⟨first, others, rfl, hfirst, hothers⟩ := h
    -- A group is its brackets and what is inside of them, which is grouped one level further in.
    obtain ⟨inner, ends, rfl, hinner, hends⟩ := List.map_eq_append_iff.mp hothers
    obtain ⟨last, rfl, hlast⟩ := List.map_eq_singleton_iff.mp hends
    rw [recognised_cons, recognised_append, recognised_cons] at hrecognised
    obtain ⟨hopens, hinside, hcloses, -⟩ := hrecognised
    rw [List.cons_append, List.append_assoc, List.singleton_append,
      groupFrom_of_opening hopens (text_of_piece_eq_bracket hfirst),
      groupFrom_pieces contents (hlexemes.of_subset (by simp)) hinside hinner,
      groupFrom_of_closing hcloses (text_of_piece_eq_bracket hlast)]
    simp

/-- The lexemes that trees flatten to are grouped to these trees. -/
theorem groupFrom_pieces : (trees : List TokenTree) → ∀ {lexemes : List Lexeme},
    AreLexemes lexemes → Recognised lexemes →
      lexemes.map (piece keywords known) = pieces trees → ∀ outer level rest,
        groupFrom keywords known outer level (lexemes ++ rest) =
          groupFrom keywords known outer (level ++ trees) rest
  | [], lexemes, _, _, h, outer, level, rest => by
    obtain rfl : lexemes = [] := List.map_eq_nil_iff.mp h
    simp
  | tree :: trees, lexemes, hlexemes, hrecognised, h, outer, level, rest => by
    obtain ⟨first, others, rfl, hfirst, hothers⟩ := List.map_eq_append_iff.mp h
    rw [recognised_append] at hrecognised
    rw [List.append_assoc,
      groupFrom_piecesIn tree (hlexemes.of_subset (by simp)) hrecognised.1 hfirst,
      groupFrom_pieces trees (hlexemes.of_subset (by simp)) hrecognised.2 hothers,
      List.append_assoc,
      List.singleton_append]

end

end

/-! ### What grouping decides -/

/-- What a lexeme is to blame for behind the lexemes `before`: it is no lexeme at all, it closes a
bracket where none is open, or another bracket than the innermost one that is open. -/
inductive Blames (before : List Lexeme) (lexeme : Lexeme) : Fault → Prop where
  | unrecognised (hkind : lexeme.kind = .unrecognised) :
    Blames before lexeme (.unrecognised lexeme.text)
  | unopened {bracket : Bracket} (hmark : lexeme.mark? = some (.closing bracket))
    (hopen : LeavesOpen (marks before) []) : Blames before lexeme (.unopened bracket)
  | mismatched {opened bracket : Bracket} {outer : List Bracket}
    (hmark : lexeme.mark? = some (.closing bracket))
      (hopen : LeavesOpen (marks before) (opened :: outer))
    (hne : opened ≠ bracket) : Blames before lexeme (.mismatched opened bracket)

/-- Why lexemes are not grouped: the first of them at which they stop to be extendable is to blame,
or there is no such one, and a bracket is still open at the end. -/
inductive Faulty (lexemes : List Lexeme) : Fault → Prop where
  | stop {before after : List Lexeme} {lexeme : Lexeme} {fault : Fault}
    (hlexemes : lexemes = before ++ lexeme :: after) (hbefore : Extendable before)
    (hstop : ¬ Extendable (before ++ [lexeme])) (hblames : Blames before lexeme fault) :
      Faulty lexemes fault
  | unclosed {opened : Bracket} {outer : List Bracket} (hlexemes : Extendable lexemes)
    (hopen : LeavesOpen (marks lexemes) (opened :: outer)) : Faulty lexemes (.unclosed opened)

/-- What lexemes are grouped to. -/
structure Decides (keywords : Keywords) (known : String → Bool) (lexemes : List Lexeme)
    (outcome : Except Fault (List TokenTree)) : Prop where
  /-- There are trees where every lexeme is recognised and the brackets are well nested. -/
  accepts_iff : (∃ trees, outcome = .ok trees) ↔
    Recognised lexemes ∧ WellNested (marks lexemes)
  /-- The trees are those that flatten to the lexemes. -/
  eq_ok_iff : ∀ trees, outcome = .ok trees ↔
    Recognised lexemes ∧ pieces trees = lexemes.map (piece keywords known)
  /-- Anything else is a fault of the lexemes. -/
  eq_error_iff : ∀ fault, outcome = .error fault ↔ Faulty lexemes fault

section

variable {keywords : Keywords} {known : String → Bool} {before lexemes : List Lexeme}
  {lexeme : Lexeme} {fault : Fault}

/-- Where lexemes stop to be extendable, the last one is to blame for it. -/
theorem exists_blames (hbefore : Extendable before) (hstop : ¬ Extendable (before ++ [lexeme])) :
    ∃ fault, Blames before lexeme fault := by
  obtain ⟨hrecognised, stack, hstack⟩ := extendable_iff.mp hbefore
  by_cases hkind : lexeme.kind = .unrecognised
  · exact ⟨_, .unrecognised hkind⟩
  have hall : Recognised (before ++ [lexeme]) := by
    rw [recognised_append]
    exact ⟨hrecognised, by simpa [Recognised] using hkind⟩
  -- The lexeme does not lead to a stack, or it could be gone on from.
  have hnot : ∀ {stack'}, stackAfter stack lexeme.mark?.toList ≠ some stack' := by
    intro stack' h
    refine hstop (extendable_iff.mpr ⟨hall, stack', leavesOpen_of_stackAfter ?_⟩)
    rw [marks_append, stackAfter_append, hstack.stackAfter_eq, marks_cons, marks_nil,
      List.append_nil]
    exact h
  -- Only a closing bracket can fail to lead to one, and it does so in two ways.
  cases hmark : lexeme.mark? with
  | none =>
    rw [hmark] at hnot
    exact absurd rfl hnot
  | some mark =>
    rw [hmark] at hnot
    cases mark with
    | opening bracket => exact absurd rfl hnot
    | closing bracket =>
      cases stack with
      | nil => exact ⟨_, .unopened hmark hstack⟩
      | cons opened outer =>
        refine ⟨_, .mismatched hmark hstack ?_⟩
        rintro rfl
        exact hnot (stackAfter_closing opened outer [])

/-- The lexeme that is to blame ends grouping with its fault. -/
theorem groupFrom_of_blames (hlexemes : AreLexemes before) (hbefore : Extendable before)
    (h : Blames before lexeme fault) (after : List Lexeme) :
    groupFrom keywords known [] [] (before ++ lexeme :: after) = .error fault := by
  obtain ⟨hrecognised, stack, hstack⟩ := extendable_iff.mp hbefore
  obtain ⟨outer, level, houter, -, hrest⟩ :=
    exists_getsPast keywords known hlexemes hrecognised [] [] hstack.stackAfter_eq
  rw [hrest]
  -- The open groups at the lexeme are those of the stack, which says what the lexeme closes.
  cases h with
  | unrecognised hkind => rw [groupFrom, if_pos hkind]
  | @unopened bracket hmark hopen =>
    obtain ⟨hkind, htext⟩ := mark?_eq_closing_iff.mp hmark
    have hstack' : some stack = some [] := hstack.stackAfter_eq.symm.trans hopen.stackAfter_eq
    cases hstack'
    obtain rfl : outer = [] := List.map_eq_nil_iff.mp houter
    exact groupFrom_of_unopened (by simp [hkind]) htext
  | @mismatched opened bracket further hmark hopen hne =>
    obtain ⟨hkind, htext⟩ := mark?_eq_closing_iff.mp hmark
    have hstack' : some stack = some (opened :: further) :=
      hstack.stackAfter_eq.symm.trans hopen.stackAfter_eq
    cases hstack'
    obtain ⟨⟨opened', front⟩, outer, rfl, rfl, -⟩ := List.map_eq_cons_iff.mp houter
    rw [groupFrom_of_closing (by simp [hkind]) htext]
    exact if_neg hne

/-- Lexemes whose brackets are well nested are grouped to trees that flatten to them. -/
theorem exists_groupFrom_of_wellNested (keywords : Keywords) (known : String → Bool)
    (hlexemes : AreLexemes lexemes) (hrecognised : Recognised lexemes)
    (hnested : WellNested (marks lexemes)) :
    ∃ trees, groupFrom keywords known [] [] lexemes = .ok trees ∧
      pieces trees = lexemes.map (piece keywords known) := by
  obtain ⟨outer, level, houter, hpieces, hrest⟩ :=
    exists_getsPast keywords known hlexemes hrecognised [] []
      (leavesOpen_nil_iff.mpr hnested).stackAfter_eq
  obtain rfl : outer = [] := List.map_eq_nil_iff.mp houter
  refine ⟨level, ?_, by simpa [openPieces, pieces] using hpieces⟩
  simpa [groupFrom] using hrest []

/-- Where a bracket is still open after the last lexeme, that bracket is the fault. -/
theorem groupFrom_of_leavesOpen (hlexemes : AreLexemes lexemes) (hrecognised : Recognised lexemes)
    {opened : Bracket} {stack : List Bracket}
    (hopen : LeavesOpen (marks lexemes) (opened :: stack)) :
    groupFrom keywords known [] [] lexemes = .error (.unclosed opened) := by
  obtain ⟨outer, level, houter, -, hrest⟩ :=
    exists_getsPast keywords known hlexemes hrecognised [] [] hopen.stackAfter_eq
  obtain ⟨⟨opened, front⟩, outer, rfl, rfl, -⟩ := List.map_eq_cons_iff.mp houter
  simpa [groupFrom] using hrest []

/-- What is said to be the fault of lexemes is what grouping ends with. -/
theorem groupFrom_of_faulty (hlexemes : AreLexemes lexemes) (h : Faulty lexemes fault) :
    groupFrom keywords known [] [] lexemes = .error fault := by
  cases h with
  | stop heq hbefore _ hblames =>
    subst heq
    exact groupFrom_of_blames (hlexemes.of_subset (by simp)) hbefore hblames _
  | unclosed hall hopen => exact groupFrom_of_leavesOpen hlexemes hall.1 hopen

/-- Lexemes are grouped, or they are faulty. -/
theorem grouped_or_faulty (keywords : Keywords) (known : String → Bool)
    (hlexemes : AreLexemes lexemes) : (Recognised lexemes ∧ WellNested (marks lexemes) ∧
        ∃ trees, groupFrom keywords known [] [] lexemes = .ok trees ∧
          pieces trees = lexemes.map (piece keywords known)) ∨
      ∃ fault, Faulty lexemes fault := by
  rcases extendable_or_exists_stop lexemes with hall | ⟨before, lexeme, after, heq, hbefore, hstop⟩
  · obtain ⟨hrecognised, stack, hstack⟩ := extendable_iff.mp hall
    cases stack with
    | nil =>
      have hnested : WellNested (marks lexemes) := leavesOpen_nil_iff.mp hstack
      exact Or.inl ⟨hrecognised, hnested,
        exists_groupFrom_of_wellNested keywords known hlexemes hrecognised hnested⟩
    | cons opened outer =>
      exact Or.inr ⟨_, .unclosed hall hstack⟩
  · obtain ⟨fault, hblames⟩ := exists_blames hbefore hstop
    exact Or.inr ⟨fault, .stop heq hbefore hstop hblames⟩

/-- Trees that flatten to lexemes are what these are grouped to. -/
theorem groupFrom_eq_ok {trees : List TokenTree} (hlexemes : AreLexemes lexemes)
    (hrecognised : Recognised lexemes)
    (hpieces : pieces trees = lexemes.map (piece keywords known)) :
    groupFrom keywords known [] [] lexemes = .ok trees := by
  have hall := groupFrom_pieces trees hlexemes hrecognised hpieces.symm [] [] []
  rw [List.append_nil] at hall
  exact hall

/-- Grouping decides on the lexemes of a text in one of two ways, and never in both. -/
theorem decides_groupFrom (keywords : Keywords) (known : String → Bool)
    (hlexemes : AreLexemes lexemes) :
    Decides keywords known lexemes (groupFrom keywords known [] [] lexemes) := by
  rcases grouped_or_faulty keywords known hlexemes with
    ⟨hrecognised, hnested, trees, htrees, hpieces⟩ | ⟨fault, hfaulty⟩
  · -- There are trees, so nothing is faulty.
    refine ⟨?_, fun trees' => ⟨fun h => ?_, fun h => ?_⟩, fun fault => ⟨fun h => ?_, fun h => ?_⟩⟩
    · exact iff_of_true ⟨trees, htrees⟩ ⟨hrecognised, hnested⟩
    · rw [htrees] at h
      cases h
      exact ⟨hrecognised, hpieces⟩
    · exact groupFrom_eq_ok hlexemes h.1 h.2
    · rw [htrees] at h
      cases h
    · exact groupFrom_of_faulty hlexemes h
  · -- Something is faulty, so there are no trees.
    have herror : groupFrom keywords known [] [] lexemes = .error fault :=
      groupFrom_of_faulty hlexemes hfaulty
    refine ⟨⟨?_, fun h => ?_⟩, fun trees => ⟨fun h => ?_, fun h => ?_⟩, fun fault' =>
      ⟨fun h => ?_, fun h => ?_⟩⟩
    · rintro ⟨trees, htrees⟩
      rw [herror] at htrees
      cases htrees
    · obtain ⟨trees, htrees, -⟩ := exists_groupFrom_of_wellNested keywords known hlexemes h.1 h.2
      exact ⟨trees, htrees⟩
    · rw [herror] at h
      cases h
    · exact groupFrom_eq_ok hlexemes h.1 h.2
    · rw [herror] at h
      cases h
      exact hfaulty
    · exact groupFrom_of_faulty hlexemes h

end

/-- **Grouping accepts exactly the balanced texts and keeps every lexeme**, whatever the keywords
and the types that are known. -/
theorem ofText_decides (keywords : Keywords) (known : String → Bool) (text : String) :
    Decides keywords known (scan text) (ofText keywords known text) :=
  decides_groupFrom keywords known (areLexemes_scan text)

end TokenTree

end CommonDecl
