import CommonDecl.Comment
import CommonDecl.Proofs.Lexing
import Mathlib.Data.List.Infix

/-!
# Comments and literals

One scan from left to right cuts a text into comments, closed literals and single characters
(`Comment.pieces`): a quote inside a comment opens no literal, and an opener inside a literal or a
comment opens no comment.  Comments are taken out in passes that know nothing of literals, block
comments before line comments.  The passes do what the scan says as long as no piece holds what a
pass takes for a comment of its own (`Comment.strip_eq_outside`).
-/

namespace CommonDecl.Comment

/-! ### One scan -/

/-- A part of a text. -/
inductive Piece where
  /-- A character outside comments and literals. -/
  | plain (c : Char)
  | literal (text : List Char)
  | comment (text : List Char)

/-- The characters of a piece. -/
def Piece.text : Piece → List Char
  | plain c => [c]
  | literal text => text
  | comment text => text

/-- What stays of a piece: a comment becomes a space. -/
def Piece.kept : Piece → List Char
  | plain c => [c]
  | literal text => text
  | comment _ => [' ']

/-- The number of characters of a line. -/
def lineLength (text : List Char) : Nat :=
  (text.takeWhile (· ≠ '\n')).length

/-- The number of characters of the comment of C that a text starts with. -/
def commentLengthInC? : List Char → Option Nat
  | '/' :: '*' :: rest => (blockLength? rest).map (· + 2)
  | '/' :: '/' :: rest => some (lineLength rest + 2)
  | _ => none

/-- The number of characters of the comment of Fortran that a text starts with. -/
def commentLengthInFortran? : List Char → Option Nat
  | '!' :: rest => some (lineLength rest + 1)
  | _ => none

/-- The number of characters of the comment that a text starts with. -/
def commentLength? : Dialect → List Char → Option Nat
  | .c => commentLengthInC?
  | .fortran => commentLengthInFortran?

/-- The number of characters of the closed literal that starts with `c`. -/
def literalLength? (c : Char) (rest : List Char) : Option Nat :=
  if c = '"' ∨ c = '\'' then
    match Lexeme.literalTail c rest with
    | (true, n) => some (n + 1)
    | (false, _) => none
  else none

/-- The first piece of the text `c :: rest`. -/
def firstPiece (dialect : Dialect) (c : Char) (rest : List Char) : Piece :=
  match commentLength? dialect (c :: rest) with
  | some n => .comment ((c :: rest).take n)
  | none =>
    match literalLength? c rest with
    | some n => .literal ((c :: rest).take n)
    | none => .plain c

/-- The pieces of a text. -/
def pieces (dialect : Dialect) : List Char → List Piece
  | [] => []
  | c :: rest =>
    firstPiece dialect c rest ::
      pieces dialect (rest.drop ((firstPiece dialect c rest).text.length - 1))
termination_by text => text.length
decreasing_by simp only [List.length_cons, List.length_drop]; omega

/-- Induction along `pieces`: from a piece to the text behind it. -/
@[elab_as_elim]
theorem pieces_induct (dialect : Dialect) {motive : List Char → Prop} (nil : motive [])
    (piece : ∀ c rest, motive (rest.drop ((firstPiece dialect c rest).text.length - 1)) →
      motive (c :: rest)) (text : List Char) : motive text :=
  pieces.induct dialect motive nil piece text

/-- The text outside comments, with a space for each comment. -/
def outside (dialect : Dialect) (text : String) : String :=
  String.ofList ((pieces dialect text.toList).flatMap Piece.kept)

/-! ### Pieces harmless to the passes -/

/-- What stands after each `/*` of a text. -/
def afterOpeners : List Char → List (List Char)
  | [] => []
  | '/' :: '*' :: rest => rest :: afterOpeners ('*' :: rest)
  | _ :: rest => afterOpeners rest

@[elab_as_elim]
theorem afterOpeners_induct {motive : List Char → Prop} (nil : motive [])
    (opener : ∀ rest, motive ('*' :: rest) → motive ('/' :: '*' :: rest))
    (char : ∀ c rest, (∀ after, c = '/' → rest = '*' :: after → False) → motive rest →
      motive (c :: rest)) (text : List Char) : motive text :=
  afterOpeners.induct motive nil opener char text

/-- What stands after the `//` that a comment starts with. -/
def afterSlashes? : List Char → Option (List Char)
  | '/' :: '/' :: line => some line
  | _ => none

/-- A piece of C with `after` behind it holds nothing that a pass takes for a comment of its own.  A
literal holds no `//`, and no `/*` with a `*/` somewhere after it.  In a line comment, no `/*`
overlaps the `//` if a `*/` stands somewhere after it, and no `/*` is closed on a later line only.
-/
def HarmlessInC (after : List Char) : Piece → Prop
  | .plain _ => True
  | .literal inside =>
    ¬ ['/', '/'] <:+: inside ∧ ∀ rest ∈ afterOpeners inside, blockLength? (rest ++ after) = none
  | .comment inside =>
    ∀ line ∈ afterSlashes? inside,
      (line.head? = some '*' → blockLength? (line.tail ++ after) = none) ∧
        ∀ rest ∈ afterOpeners line, blockLength? rest = none → blockLength? (rest ++ after) = none

instance (after : List Char) : (piece : Piece) → Decidable (HarmlessInC after piece)
  | .plain _ => inferInstanceAs (Decidable True)
  | .literal inside => inferInstanceAs (Decidable (_ ∧ ∀ rest ∈ afterOpeners inside, _))
  | .comment inside => inferInstanceAs (Decidable (∀ line ∈ afterSlashes? inside, _ ∧ _))

/-- A literal of Fortran holds no `!`. -/
def HarmlessInFortran : Piece → Prop
  | .plain _ => True
  | .literal inside => '!' ∉ inside
  | .comment _ => True

instance : (piece : Piece) → Decidable (HarmlessInFortran piece)
  | .plain _ => inferInstanceAs (Decidable True)
  | .literal inside => inferInstanceAs (Decidable ('!' ∉ inside))
  | .comment _ => inferInstanceAs (Decidable True)

/-- A piece with `after` behind it holds nothing that is taken for a comment of its own. -/
def Harmless : Dialect → List Char → Piece → Prop
  | .c, after, piece => HarmlessInC after piece
  | .fortran, _, piece => HarmlessInFortran piece

instance : (dialect : Dialect) → (after : List Char) → (piece : Piece) →
    Decidable (Harmless dialect after piece)
  | .c, after, piece => inferInstanceAs (Decidable (HarmlessInC after piece))
  | .fortran, _, piece => inferInstanceAs (Decidable (HarmlessInFortran piece))

/-- Each piece is harmless before those after it. -/
def AllHarmless (dialect : Dialect) : List Piece → Prop
  | [] => True
  | piece :: after => Harmless dialect (after.flatMap Piece.text) piece ∧ AllHarmless dialect after

instance (dialect : Dialect) : (pieces : List Piece) → Decidable (AllHarmless dialect pieces)
  | [] => inferInstanceAs (Decidable True)
  | piece :: after =>
    have : Decidable (AllHarmless dialect after) := instDecidableAllHarmless dialect after
    inferInstanceAs (Decidable (Harmless dialect (after.flatMap Piece.text) piece ∧
      AllHarmless dialect after))

/-- A text without tabs and carriage returns, in which no line continues another one. -/
structure IsPlainText (dialect : Dialect) (text : List Char) : Prop where
  noTab : '\t' ∉ text
  noReturn : '\r' ∉ text
  noContinuation : match dialect with
    | .c => ¬ ['\\', '\n'] <:+: text
    | .fortran => '&' ∉ text

/-! ### Pieces -/

/-- A text is its first line and what stands from the end of that line on. -/
theorem exists_line (text : List Char) :
    ∃ line, text = line ++ dropLine text ∧ text.take (lineLength text) = line ∧
      text.drop line.length = dropLine text ∧ '\n' ∉ line ∧ ∀ c ∈ (dropLine text).head?,
        c = '\n' := by
  have hsplit : text.takeWhile (· ≠ '\n') ++ dropLine text = text := List.takeWhile_append_dropWhile
  refine ⟨text.takeWhile (· ≠ '\n'), hsplit.symm, ?_, ?_, ?_, ?_⟩
  · exact (List.prefix_iff_eq_take.mp (List.takeWhile_prefix _)).symm
  · conv_lhs => rw [← hsplit]
    exact List.drop_left' (by rw [hsplit])
  · intro hmem
    exact absurd (List.mem_takeWhile_imp hmem) (by decide)
  · intro c hc
    by_contra hne
    have hnot := List.head?_dropWhile_not (fun c => decide (c ≠ '\n')) text
    rw [dropLine] at hc
    rw [hc] at hnot
    simp [hne] at hnot

/-- A comment has at least the character that opens it. -/
theorem commentLength?_pos {dialect : Dialect} {text : List Char} {n : Nat}
    (h : commentLength? dialect text = some n) : 0 < n := by
  cases dialect with
  | c =>
    rw [commentLength?] at h
    unfold commentLengthInC? at h
    split at h
    · obtain ⟨m, -, rfl⟩ := Option.map_eq_some_iff.mp h
      omega
    · cases h
      omega
    · cases h
  | fortran =>
    rw [commentLength?] at h
    unfold commentLengthInFortran? at h
    split at h
    · cases h
      omega
    · cases h

/-- A literal that is closed ends in the quote that it starts with. -/
theorem exists_of_literalLength? {c : Char} {rest : List Char} {n : Nat}
    (h : literalLength? c rest = some n) :
    (c = '"' ∨ c = '\'') ∧ ∃ body after, rest = body ++ after ∧ body.length + 1 = n ∧
      body.getLast? = some c := by
  rw [literalLength?] at h
  split at h
  · rename_i hquote
    refine ⟨hquote, ?_⟩
    cases hliteral : Lexeme.literalTail c rest with
    | mk closed m =>
      rw [hliteral] at h
      cases closed with
      | false => cases h
      | true =>
        cases h
        obtain ⟨body, after, hrest, hlength, hlast, -⟩ := Lexeme.exists_of_literalTail_eq hliteral
        exact ⟨body, after, hrest, by rw [hlength], hlast⟩
  · cases h

/-- The first piece of a text is its start. -/
theorem text_firstPiece_append (dialect : Dialect) (c : Char) (rest : List Char) :
    (firstPiece dialect c rest).text ++ rest.drop ((firstPiece dialect c rest).text.length - 1) =
      c :: rest := by
  have htake {n : Nat} (hn : 0 < n) :
      (c :: rest).take n ++ rest.drop (((c :: rest).take n).length - 1) = c :: rest := by
    obtain ⟨m, rfl⟩ : ∃ m, n = m + 1 := ⟨n - 1, by omega⟩
    rw [List.take_succ_cons, List.length_cons, Nat.add_sub_cancel, List.cons_append,
      List.prefix_iff_eq_append.mp (List.take_prefix m rest)]
  unfold firstPiece
  -- A comment or a literal takes its characters from the start, and so does a single character.
  split
  · rename_i n hcomment
    exact htake (commentLength?_pos hcomment)
  · split
    · rename_i n hliteral
      obtain ⟨-, body, after, -, hlength, -⟩ := exists_of_literalLength? hliteral
      exact htake (by omega)
    · rfl

/-- The pieces of a text make up the text. -/
theorem pieces_text (dialect : Dialect) (text : List Char) :
    (pieces dialect text).flatMap Piece.text = text := by
  induction text using pieces_induct dialect with
  | nil => rw [pieces, List.flatMap_nil]
  | piece c rest ih =>
    rw [pieces, List.flatMap_cons, ih]
    exact text_firstPiece_append dialect c rest

/-! ### Block comments -/

/-- A block comment is closed in the same place whatever follows. -/
theorem blockLength?_append {text : List Char} {n : Nat} (h : blockLength? text = some n)
    (after : List Char) : blockLength? (text ++ after) = some n ∧ n ≤ text.length := by
  -- Along the search for `*/`, which is found before anything that follows.
  induction text using blockLength?_induct generalizing n with
  | closed rest =>
    cases h
    refine ⟨rfl, ?_⟩
    simp only [List.length_cons]
    omega
  | char c rest hnot ih =>
    rw [blockLength?.eq_2 c rest hnot] at h
    obtain ⟨m, hm, rfl⟩ := Option.map_eq_some_iff.mp h
    obtain ⟨happend, hle⟩ := ih hm
    refine ⟨?_, Nat.succ_le_succ hle⟩
    rw [List.cons_append, blockLength?.eq_2, happend, Option.map_some]
    -- A `*/` that is not in the text could only be in it and the first character that follows.
    intro tail hc hrest
    cases rest with
    | nil => cases hm
    | cons d rest =>
      obtain ⟨rfl, -⟩ := List.cons_eq_cons.mp hrest
      exact hnot rest hc rfl
  | nil => cases h

/-- A block comment that is closed becomes a space. -/
theorem dropBlocks_open {rest : List Char} {n : Nat} (h : blockLength? rest = some n) :
    dropBlocks ('/' :: '*' :: rest) = ' ' :: dropBlocks (rest.drop n) := by
  rw [dropBlocks, h]

/-- Where no block comment starts, a character is kept. -/
theorem dropBlocks_cons {c : Char} {rest : List Char}
    (h : c = '/' → ∀ inside, rest = '*' :: inside → blockLength? inside = none) :
    dropBlocks (c :: rest) = c :: dropBlocks rest := by
  by_cases hopen : c = '/' ∧ rest.head? = some '*'
  · obtain ⟨rfl, hstar⟩ := hopen
    obtain ⟨inside, rfl⟩ := List.head?_eq_some_iff.mp hstar
    rw [dropBlocks, h rfl inside rfl]
  · rw [dropBlocks]
    rintro inside rfl rfl
    exact hopen ⟨rfl, rfl⟩

/-- What is left starts as the text does, or with the space of a comment. -/
theorem head?_dropBlocks (text : List Char) :
    (dropBlocks text).head? = text.head? ∨ (dropBlocks text).head? = some ' ' := by
  cases text with
  | nil =>
    rw [dropBlocks]
    exact Or.inl rfl
  | cons c rest =>
    -- The first character stays, unless it opens a block comment that is closed.
    by_cases hopen : ∃ inside n, c = '/' ∧ rest = '*' :: inside ∧ blockLength? inside = some n
    · obtain ⟨inside, n, rfl, rfl, hn⟩ := hopen
      rw [dropBlocks_open hn]
      exact Or.inr rfl
    · rw [dropBlocks_cons]
      · exact Or.inl rfl
      · intro hc inside hrest
        rw [Option.eq_none_iff_forall_ne_some]
        exact fun n hn => hopen ⟨inside, n, hc, hrest, hn⟩

/-- Nothing is taken out of a text without openers that are closed later. -/
theorem dropBlocks_append {inside after : List Char}
    (hopen : ∀ rest ∈ afterOpeners inside, blockLength? (rest ++ after) = none)
    (hend : inside.getLast? = some '/' → after.head? ≠ some '*') :
    dropBlocks (inside ++ after) = inside ++ dropBlocks after := by
  -- Along the openers of the text; none of them is closed, so each stays as it is.
  induction inside using afterOpeners_induct with
  | nil => rfl
  | opener rest ih =>
    rw [afterOpeners, List.forall_mem_cons] at hopen
    have hlast : ('*' :: rest).getLast? = some '/' → after.head? ≠ some '*' := by
      rwa [List.getLast?_cons_cons] at hend
    rw [List.cons_append, dropBlocks_cons, ih hopen.2 hlast]
    · rfl
    · rintro - inside heq
      cases heq
      exact hopen.1
  | char c rest hnot ih =>
    rw [afterOpeners.eq_3 c rest hnot] at hopen
    rw [List.cons_append, dropBlocks_cons, ih hopen]
    · rfl
    · intro hlast
      apply hend
      cases rest with
      | nil => cases hlast
      | cons d rest => rwa [List.getLast?_cons_cons]
    · intro hc inside heq
      cases rest with
      -- An opener over the end of the text is ruled out by the last assumption.
      | nil =>
        exact absurd (by rw [show after = '*' :: inside from heq]; rfl) (hend (by rw [hc]; rfl))
      | cons d rest =>
        obtain ⟨rfl, -⟩ := List.cons_eq_cons.mp heq
        exact (hnot rest hc rfl).elim

/-- The openers of a rest are openers of the whole text. -/
theorem afterOpeners_cons_subset (c : Char) (rest : List Char) :
    afterOpeners rest ⊆ afterOpeners (c :: rest) := by
  by_cases hopen : c = '/' ∧ rest.head? = some '*'
  · obtain ⟨rfl, hstar⟩ := hopen
    obtain ⟨inside, rfl⟩ := List.head?_eq_some_iff.mp hstar
    exact List.subset_cons_self _ _
  · rw [afterOpeners.eq_3]
    · exact List.Subset.refl _
    · rintro inside rfl rfl
      exact hopen ⟨rfl, rfl⟩

/-- The openers that are left when characters are dropped are openers of the whole text. -/
theorem afterOpeners_drop_subset (n : Nat) (text : List Char) :
    afterOpeners (text.drop n) ⊆ afterOpeners text := by
  induction n generalizing text with
  | zero => exact List.Subset.refl _
  | succ n ih =>
    cases text with
    | nil => exact List.Subset.refl _
    | cons c rest => exact List.Subset.trans (ih rest) (afterOpeners_cons_subset c rest)

/-- Blocks that are closed within a line leave a line. -/
theorem exists_dropBlocks_line {line after : List Char} (hline : '\n' ∉ line)
    (hafter : after.head? ≠ some '*')
    (hopen : ∀ rest ∈ afterOpeners line, blockLength? rest = none →
      blockLength? (rest ++ after) = none) :
    ∃ line', '\n' ∉ line' ∧ dropBlocks (line ++ after) = line' ++ dropBlocks after := by
  -- Along the pass over the line; a block is closed within the line or not at all.
  induction line using dropBlocks_induct with
  | nil => exact ⟨[], List.not_mem_nil, rfl⟩
  | block rest n hn ih =>
    obtain ⟨happend, hle⟩ := blockLength?_append hn after
    have hinside : afterOpeners (rest.drop n) ⊆ afterOpeners ('/' :: '*' :: rest) :=
      afterOpeners_drop_subset (n + 2) ('/' :: '*' :: rest)
    obtain ⟨line', hline', hread⟩ := ih (fun h => hline (by simp [List.mem_of_mem_drop h]))
      fun inside hmem => hopen inside (hinside hmem)
    refine ⟨' ' :: line', by simpa using hline', ?_⟩
    rw [List.cons_append, List.cons_append, dropBlocks_open happend,
      List.drop_append_of_le_length hle, hread]
    rfl
  | unclosed rest hn ih =>
    -- An opener that is not closed within the line is not closed by what follows either.
    have hnone : blockLength? (rest ++ after) = none := hopen rest List.mem_cons_self hn
    obtain ⟨line', hline', hread⟩ := ih (fun h => hline (List.mem_cons_of_mem _ h))
      fun inside hmem => hopen inside (List.mem_cons_of_mem _ hmem)
    refine ⟨'/' :: line', by simpa using hline', ?_⟩
    rw [List.cons_append, dropBlocks_cons, hread]
    · rfl
    · rintro - inside heq
      cases heq
      exact hnone
  | char c rest hnot ih =>
    obtain ⟨line', hline', hread⟩ := ih (fun h => hline (List.mem_cons_of_mem _ h))
      fun inside hmem => hopen inside (afterOpeners_cons_subset c rest hmem)
    refine ⟨c :: line', ?_, ?_⟩
    · rw [List.mem_cons, not_or] at hline ⊢
      exact ⟨hline.1, hline'⟩
    · rw [List.cons_append, dropBlocks_cons, hread]
      · rfl
      · intro hc inside heq
        cases rest with
        | nil => exact absurd (by rw [show after = '*' :: inside from heq]; rfl) hafter
        | cons d rest =>
          obtain ⟨rfl, -⟩ := List.cons_eq_cons.mp heq
          exact (hnot rest hc rfl).elim

/-! ### Line comments -/

/-- A character stays, unless it and the next one are slashes. -/
theorem dropSlashLines_cons {c : Char} {rest : List Char} (h : c = '/' → rest.head? ≠ some '/') :
    dropSlashLines (c :: rest) = c :: dropSlashLines rest := by
  rw [dropSlashLines]
  rintro inside rfl rfl
  exact h rfl rfl

/-- Nothing is taken out of a text without `//`. -/
theorem dropSlashLines_append {inside after : List Char} (hslashes : ¬ ['/', '/'] <:+: inside)
    (hend : inside.getLast? = some '/' → after.head? ≠ some '/') :
    dropSlashLines (inside ++ after) = inside ++ dropSlashLines after := by
  induction inside with
  | nil => rfl
  | cons c rest ih =>
    have hrest : ¬ ['/', '/'] <:+: rest :=
      fun h => hslashes (h.trans (List.suffix_cons c rest).isInfix)
    rw [List.cons_append, dropSlashLines_cons, ih hrest]
    · rfl
    · intro hlast
      apply hend
      cases rest with
      | nil => cases hlast
      | cons d rest => rwa [List.getLast?_cons_cons]
    -- A `//` over the end of the text is ruled out by the last assumption.
    · rintro rfl
      cases rest with
      | nil => exact hend rfl
      | cons d rest =>
        intro heq
        obtain rfl : d = '/' := Option.some.inj heq
        exact hslashes (List.prefix_append ['/', '/'] rest).isInfix

/-- What is left starts as the text does, or with the space of a comment. -/
theorem head?_dropSlashLines (text : List Char) :
    (dropSlashLines text).head? = text.head? ∨ (dropSlashLines text).head? = some ' ' := by
  unfold dropSlashLines
  split
  · exact Or.inl rfl
  · exact Or.inr rfl
  · exact Or.inl rfl

/-- No `//` is left. -/
theorem not_slashes_dropSlashLines (text : List Char) : ¬ ['/', '/'] <:+: dropSlashLines text := by
  induction text using dropSlashLines_induct with
  | nil =>
    rw [dropSlashLines]
    decide
  | slashes rest ih =>
    rw [dropSlashLines, List.infix_cons_iff, not_or]
    exact ⟨fun h => absurd (List.cons_prefix_cons.mp h).1 (by decide), ih⟩
  | char c rest hnot ih =>
    rw [dropSlashLines.eq_3 c rest hnot, List.infix_cons_iff, not_or]
    refine ⟨fun h => ?_, ih⟩
    obtain ⟨rfl, hrest⟩ := List.cons_prefix_cons.mp h
    have hhead : (dropSlashLines rest).head? = some '/' := by
      obtain ⟨after, hafter⟩ := hrest
      rw [← hafter]
      rfl
    -- A slash that comes from further on was there before.
    rcases head?_dropSlashLines rest with hsame | hspace
    · obtain ⟨line, rfl⟩ := List.head?_eq_some_iff.mp (hsame.symm.trans hhead)
      exact hnot line rfl rfl
    · rw [hspace] at hhead
      exact absurd hhead (by decide)

/-- The rest of a line is what is dropped of it. -/
theorem dropLine_append {line after : List Char} (hline : '\n' ∉ line) :
    dropLine (line ++ after) = dropLine after := by
  rw [dropLine, List.dropWhile_append_of_pos]
  · rfl
  · intro c hc
    rw [decide_eq_true_eq]
    rintro rfl
    exact hline hc

/-! ### The passes of C -/

/-- The first piece of a text with what stands after it. -/
theorem firstPiece_cases (dialect : Dialect) (c : Char) (rest : List Char) :
    (∃ n, commentLength? dialect (c :: rest) = some n ∧
      firstPiece dialect c rest = .comment ((c :: rest).take n)) ∨
    commentLength? dialect (c :: rest) = none ∧
      ((∃ body after, (c = '"' ∨ c = '\'') ∧ rest = body ++ after ∧ body.getLast? = some c ∧
        firstPiece dialect c rest = .literal (c :: body)) ∨
      firstPiece dialect c rest = .plain c) := by
  unfold firstPiece
  cases hcomment : commentLength? dialect (c :: rest) with
  | some n => exact Or.inl ⟨n, rfl, rfl⟩
  | none =>
    refine Or.inr ⟨rfl, ?_⟩
    cases hliteral : literalLength? c rest with
    | none => exact Or.inr rfl
    | some n =>
      obtain ⟨hquote, body, after, hrest, rfl, hlast⟩ := exists_of_literalLength? hliteral
      refine Or.inl ⟨body, after, hquote, hrest, hlast, ?_⟩
      dsimp only
      rw [List.take_succ_cons, hrest, List.take_left]

/-- A comment of C is a block that is closed, or a line. -/
theorem of_commentLengthInC? {c : Char} {rest : List Char} {n : Nat}
    (h : commentLengthInC? (c :: rest) = some n) : c = '/' ∧
      ((∃ inside m, rest = '*' :: inside ∧ blockLength? inside = some m ∧ n = m + 2) ∨
        ∃ line, rest = '/' :: line ∧ n = lineLength line + 2) := by
  unfold commentLengthInC? at h
  split at h
  · rename_i inside heq
    cases heq
    obtain ⟨m, hm, rfl⟩ := Option.map_eq_some_iff.mp h
    exact ⟨rfl, Or.inl ⟨inside, m, rfl, hm, rfl⟩⟩
  · rename_i line heq
    cases heq
    cases h
    exact ⟨rfl, Or.inr ⟨line, rfl, rfl⟩⟩
  · cases h

/-- A block comment becomes a space in the first pass, which stays in the second one. -/
theorem passes_block {inside : List Char} {n : Nat} (h : blockLength? inside = some n) :
    dropSlashLines (dropBlocks ('/' :: '*' :: inside)) =
      ' ' :: dropSlashLines (dropBlocks (inside.drop n)) := by
  rw [dropBlocks_open h, dropSlashLines_cons fun hspace => absurd hspace (by decide)]

/-- A line comment becomes a space, even if blocks are taken out of it first. -/
theorem passes_line {line after : List Char} (hline : '\n' ∉ line)
    (hafter : ∀ c ∈ after.head?, c = '\n')
    (h : HarmlessInC after (.comment ('/' :: '/' :: line))) :
    dropSlashLines (dropBlocks ('/' :: '/' :: (line ++ after))) =
      ' ' :: dropSlashLines (dropBlocks after) := by
  obtain ⟨hstar, hopen⟩ := h line rfl
  have hnotStar : after.head? ≠ some '*' := by
    intro hhead
    exact absurd (hafter '*' hhead) (by decide)
  obtain ⟨line', hline', hread⟩ := exists_dropBlocks_line hline hnotStar hopen
  have hslashes : dropBlocks ('/' :: '/' :: (line ++ after)) =
      '/' :: '/' :: (line' ++ dropBlocks after) := by
    rw [dropBlocks_cons (by rintro - inside ⟨⟩), dropBlocks_cons, hread]
    rintro - inside heq
    cases line with
    | nil => exact absurd (by rw [show after = '*' :: inside from heq]; rfl) hnotStar
    | cons c line =>
      obtain ⟨rfl, rfl⟩ := List.cons_eq_cons.mp heq
      exact hstar rfl
  -- The line ends behind the comment, with a line break or the text.
  have hstart : dropLine (dropBlocks after) = dropBlocks after := by
    cases after with
    | nil => rw [dropBlocks, dropLine, List.dropWhile_nil]
    | cons c after =>
      obtain rfl : c = '\n' := hafter c rfl
      rw [dropBlocks_cons (fun hc => absurd hc (by decide)), dropLine,
        List.dropWhile_cons_of_neg (by decide)]
  rw [hslashes, dropSlashLines, dropLine_append hline', hstart]

/-- A harmless literal stays as it is in both passes. -/
theorem passes_literal {quote : Char} {body after : List Char} (hquote : quote = '"' ∨ quote = '\'')
    (hlast : body.getLast? = some quote) (h : HarmlessInC after (.literal (quote :: body))) :
    dropSlashLines (dropBlocks (quote :: body ++ after)) =
      quote :: body ++ dropSlashLines (dropBlocks after) := by
  obtain ⟨hslashes, hopen⟩ := h
  have hend : (quote :: body).getLast? ≠ some '/' := by
    rw [List.getLast?_cons, hlast]
    rcases hquote with rfl | rfl <;> decide
  rw [dropBlocks_append hopen fun h => absurd h hend,
    dropSlashLines_append hslashes fun h => absurd h hend]

/-- A character that opens no comment stays as it is in both passes. -/
theorem passes_plain {c : Char} {rest : List Char} (h : commentLengthInC? (c :: rest) = none) :
    dropSlashLines (dropBlocks (c :: rest)) = c :: dropSlashLines (dropBlocks rest) := by
  rw [dropBlocks_cons, dropSlashLines_cons]
  · rintro rfl hhead
    -- No `/` comes to stand behind another one that did not stand there before.
    have hslash : rest.head? = some '/' := by
      rcases head?_dropBlocks rest with hsame | hspace
      · rw [← hsame, hhead]
      · rw [hspace] at hhead
        exact absurd hhead (by decide)
    obtain ⟨line, rfl⟩ := List.head?_eq_some_iff.mp hslash
    cases h
  · rintro rfl inside rfl
    exact Option.map_eq_none_iff.mp h

/-- Block comments before line comments are taken out of C as the scan does it. -/
theorem dropSlashLines_dropBlocks {text : List Char} (h : AllHarmless .c (pieces .c text)) :
    dropSlashLines (dropBlocks text) = (pieces .c text).flatMap Piece.kept := by
  -- Piece by piece; what is behind a piece is left to the induction.
  induction text using pieces_induct .c with
  | nil => rw [pieces, dropBlocks, dropSlashLines, List.flatMap_nil]
  | piece c rest ih =>
    rw [pieces] at h ⊢
    obtain ⟨hfirst, hothers⟩ := h
    rw [pieces_text] at hfirst
    have ih := ih hothers
    have htext := text_firstPiece_append .c c rest
    rw [List.flatMap_cons, ← ih]
    -- The piece is a comment, of one of two kinds, a literal or a single character.
    rcases firstPiece_cases .c c rest with ⟨n, hcomment, hpiece⟩ | ⟨hcomment, hpiece⟩
    · rw [hpiece] at hfirst ⊢
      obtain ⟨rfl, ⟨inside, m, rfl, hm, rfl⟩ | ⟨line, rfl, rfl⟩⟩ := of_commentLengthInC? hcomment
      · obtain ⟨-, hle⟩ := blockLength?_append hm []
        have hlength : (('/' :: '*' :: inside).take (m + 2)).length = m + 2 := by
          rw [List.length_take, List.length_cons, List.length_cons]
          omega
        rw [passes_block hm]
        show _ = ' ' :: dropSlashLines (dropBlocks (('*' :: inside).drop _))
        rw [Piece.text, hlength]
        rfl
      · obtain ⟨first, hline, htake, hdrop, hnoBreak, hafter⟩ := exists_line line
        have hpieceText : ('/' :: '/' :: line).take (lineLength line + 2) =
            '/' :: '/' :: first := by
          rw [List.take_succ_cons, List.take_succ_cons, htake]
        have hrest : ('/' :: line).drop ((Piece.comment ('/' :: '/' :: first)).text.length - 1) =
            dropLine line := hdrop
        rw [hpieceText, hrest] at hfirst ⊢
        calc dropSlashLines (dropBlocks ('/' :: '/' :: line))
            = dropSlashLines (dropBlocks ('/' :: '/' :: (first ++ dropLine line))) := by
              rw [← hline]
          _ = ' ' :: dropSlashLines (dropBlocks (dropLine line)) :=
            passes_line hnoBreak hafter hfirst
    · generalize rest.drop ((firstPiece .c c rest).text.length - 1) = after at hfirst htext ⊢
      rcases hpiece with ⟨body, after', hquote, hrest, hlast, hpiece⟩ | hpiece
      · rw [hpiece] at hfirst htext ⊢
        rw [← htext]
        exact passes_literal hquote hlast hfirst
      · rw [hpiece] at htext ⊢
        obtain rfl : after = rest := (List.cons_eq_cons.mp htext).2
        exact passes_plain hcomment

/-! ### The pass of Fortran -/

/-- A character other than `!` stays. -/
theorem dropBangLines_cons {c : Char} (hc : c ≠ '!') (rest : List Char) :
    dropBangLines (c :: rest) = c :: dropBangLines rest := by
  rw [dropBangLines]
  rintro rfl
  exact hc rfl

/-- Nothing is taken out of a text without `!`. -/
theorem dropBangLines_append {inside : List Char} (h : '!' ∉ inside) (after : List Char) :
    dropBangLines (inside ++ after) = inside ++ dropBangLines after := by
  induction inside with
  | nil => rfl
  | cons c rest ih =>
    rw [List.mem_cons, not_or] at h
    rw [List.cons_append, dropBangLines_cons (Ne.symm h.1), ih h.2, List.cons_append]

/-- Comments are taken out of Fortran as the scan does it. -/
theorem dropBangLines_eq {text : List Char} (h : AllHarmless .fortran (pieces .fortran text)) :
    dropBangLines text = (pieces .fortran text).flatMap Piece.kept := by
  induction text using pieces_induct .fortran with
  | nil => rw [pieces, dropBangLines, List.flatMap_nil]
  | piece c rest ih =>
    rw [pieces] at h ⊢
    obtain ⟨hfirst, hothers⟩ := h
    have ih := ih hothers
    have htext := text_firstPiece_append .fortran c rest
    rw [List.flatMap_cons, ← ih]
    -- The piece is a comment, a literal or a single character.
    rcases firstPiece_cases .fortran c rest with ⟨n, hcomment, hpiece⟩ | ⟨hcomment, hpiece⟩
    · rw [hpiece]
      obtain ⟨rfl, rfl⟩ : c = '!' ∧ lineLength rest + 1 = n := by
        rw [commentLength?] at hcomment
        unfold commentLengthInFortran? at hcomment
        split at hcomment
        · rename_i line heq
          cases heq
          exact ⟨rfl, Option.some.inj hcomment⟩
        · cases hcomment
      obtain ⟨first, -, htake, hdrop, -, -⟩ := exists_line rest
      have hpieceText : ('!' :: rest).take (lineLength rest + 1) = '!' :: first := by
        rw [List.take_succ_cons, htake]
      have hrest : rest.drop ((Piece.comment ('!' :: first)).text.length - 1) = dropLine rest :=
        hdrop
      rw [hpieceText, hrest, dropBangLines]
      rfl
    · generalize rest.drop ((firstPiece .fortran c rest).text.length - 1) = after at htext ⊢
      rcases hpiece with ⟨body, after', hquote, hrest, hlast, hpiece⟩ | hpiece
      · rw [hpiece] at hfirst htext ⊢
        rw [← htext]
        exact dropBangLines_append hfirst after
      · rw [hpiece] at htext ⊢
        obtain rfl : after = rest := (List.cons_eq_cons.mp htext).2
        refine dropBangLines_cons ?_ after
        rintro rfl
        cases hcomment

/-! ### Both dialects -/

/-- Without carriage returns no line break changes. -/
theorem unifyLineEnds_eq {text : List Char} (h : '\r' ∉ text) : unifyLineEnds text = text := by
  induction text using unifyLineEnds_induct with
  | lineEnd rest ih => exact absurd List.mem_cons_self h
  | char c rest hnot ih =>
    rw [unifyLineEnds.eq_2 c rest hnot, ih fun hmem => h (List.mem_cons_of_mem _ hmem)]
  | nil => rfl

theorem tabsToSpaces_eq {text : List Char} (h : '\t' ∉ text) : tabsToSpaces text = text := by
  refine (List.map_congr_left fun c hc => if_neg ?_).trans (List.map_id text)
  rintro rfl
  exact h hc

/-- Without a backslash at the end of a line no lines are joined. -/
theorem joinSplicedLines_eq {text : List Char} (h : ¬ ['\\', '\n'] <:+: text) :
    joinSplicedLines text = text := by
  induction text using joinSplicedLines_induct with
  | splice rest ih => exact absurd (List.prefix_append ['\\', '\n'] rest).isInfix h
  | char c rest hnot ih =>
    rw [joinSplicedLines.eq_2 c rest hnot, ih fun hmem =>
      h (hmem.trans (List.suffix_cons c rest).isInfix)]
  | nil => rfl

/-- A continuation becomes a space. -/
theorem joinContinuedLines_of_some {rest after : List Char}
    (h : afterContinuation? rest = some after) :
    joinContinuedLines ('&' :: rest) = ' ' :: joinContinuedLines after := by
  rw [joinContinuedLines, if_pos rfl]
  split
  · rename_i hafter
    rw [Option.some.inj (h.symm.trans hafter)]
  · rename_i hafter
    rw [hafter] at h
    cases h

/-- An `&` that is no continuation stays. -/
theorem joinContinuedLines_of_none {rest : List Char} (h : afterContinuation? rest = none) :
    joinContinuedLines ('&' :: rest) = '&' :: joinContinuedLines rest := by
  rw [joinContinuedLines, if_pos rfl]
  split
  · rename_i hafter
    rw [hafter] at h
    cases h
  · rfl

/-- A character other than `&` stays. -/
theorem joinContinuedLines_cons {c : Char} (hc : c ≠ '&') (rest : List Char) :
    joinContinuedLines (c :: rest) = c :: joinContinuedLines rest := by
  rw [joinContinuedLines, if_neg hc]

/-- Without `&` no lines are joined. -/
theorem joinContinuedLines_eq {text : List Char} (h : '&' ∉ text) :
    joinContinuedLines text = text := by
  induction text with
  | nil => rw [joinContinuedLines]
  | cons c rest ih =>
    rw [List.mem_cons, not_or] at h
    rw [joinContinuedLines_cons (Ne.symm h.1), ih h.2]

/-- Nothing but spaces comes to stand in a text, and no `!` is left. -/
theorem mem_of_mem_dropBangLines {text : List Char} {c : Char} (h : c ∈ dropBangLines text) :
    c = ' ' ∨ c ∈ text ∧ c ≠ '!' := by
  induction text using dropBangLines_induct with
  | nil =>
    rw [dropBangLines] at h
    cases h
  | bang rest ih =>
    rw [dropBangLines, List.mem_cons] at h
    rcases h with rfl | h
    · exact Or.inl rfl
    · have hrest : dropLine rest ⊆ rest := (List.dropWhile_suffix _).subset
      exact (ih h).imp_right (And.imp_left fun hmem => List.mem_cons_of_mem '!' (hrest hmem))
  | char d rest hnot ih =>
    rw [dropBangLines_cons hnot, List.mem_cons] at h
    rcases h with rfl | h
    · exact Or.inr ⟨List.mem_cons_self, hnot⟩
    · exact (ih h).imp_right (And.imp_left (List.mem_cons_of_mem d))

/-- In a plain text, the passes only take comments out. -/
theorem stripChars_eq {dialect : Dialect} {text : List Char} (h : IsPlainText dialect text) :
    stripChars dialect text = match dialect with
      | .c => dropSlashLines (dropBlocks text)
      | .fortran => dropBangLines text := by
  have hblanks : tabsToSpaces (unifyLineEnds text) = text := by
    rw [unifyLineEnds_eq h.noReturn, tabsToSpaces_eq h.noTab]
  unfold stripChars
  dsimp only
  rw [hblanks]
  cases dialect with
  | c =>
    show dropSlashLines (dropBlocks (joinSplicedLines text)) = _
    rw [joinSplicedLines_eq h.noContinuation]
  -- Lines are joined last, and the comments that were taken out have left no `&`.
  | fortran =>
    refine joinContinuedLines_eq fun hmem => ?_
    rcases mem_of_mem_dropBangLines hmem with hspace | ⟨htext, -⟩
    · exact absurd hspace (by decide)
    · exact h.noContinuation htext

/-- What starts a comment that ends with its line. -/
def lineOpener : Dialect → List Char
  | .c => ['/', '/']
  | .fortran => ['!']

/-- Nothing that opens a line comment is left behind the passes. -/
theorem not_lineOpener_stripChars {dialect : Dialect} {text : List Char}
    (h : IsPlainText dialect text) :
    ¬ lineOpener dialect <:+: stripChars dialect text := by
  rw [stripChars_eq h]
  cases dialect with
  | c => exact not_slashes_dropSlashLines _
  | fortran =>
    intro hinfix
    have hmem : '!' ∈ dropBangLines text := hinfix.subset List.mem_cons_self
    rcases mem_of_mem_dropBangLines hmem with hspace | ⟨-, hne⟩
    · exact absurd hspace (by decide)
    · exact hne rfl

/-- If every piece is harmless, the passes take comments out as the scan does it, and take nothing
else out.  A literal that holds what starts a line comment is always cut. -/
theorem strip_eq_outside {dialect : Dialect} {text : String}
    (htext : IsPlainText dialect text.toList) :
    (AllHarmless dialect (pieces dialect text.toList) → strip dialect text = outside dialect text) ∧
      ∀ inside, .literal inside ∈ pieces dialect text.toList → lineOpener dialect <:+: inside →
        strip dialect text ≠ outside dialect text := by
  constructor
  · intro h
    rw [strip, outside, stripChars_eq htext]
    cases dialect with
    | c => rw [dropSlashLines_dropBlocks h]
    | fortran => rw [dropBangLines_eq h]
  · intro inside hinside hopener heq
    have hkept : inside <:+: (pieces dialect text.toList).flatMap Piece.kept :=
      List.infix_of_mem_flatten (List.mem_map.mpr ⟨_, hinside, rfl⟩)
    apply not_lineOpener_stripChars htext
    rw [String.ofList_injective heq]
    exact hopener.trans hkept

instance (dialect : Dialect) (text : List Char) : Decidable (IsPlainText dialect text) :=
  have : Decidable (match dialect with
      | .c => ¬ ['\\', '\n'] <:+: text
      | .fortran => '&' ∉ text) :=
    match dialect with
    | .c => inferInstanceAs (Decidable (¬ ['\\', '\n'] <:+: text))
    | .fortran => inferInstanceAs (Decidable ('&' ∉ text))
  decidable_of_iff ('\t' ∉ text ∧ '\r' ∉ text ∧ _)
    ⟨fun h => ⟨h.1, h.2.1, h.2.2⟩, fun h => ⟨h.noTab, h.noReturn, h.noContinuation⟩⟩

/-- A path in a literal, a block in a line comment, and quotes and slashes in a block comment. -/
def pathsText : String :=
  "char *p = \"/usr/lib\"; // a /* b */ path\nint x; /* \"q\" // */ char c = '/';"

theorem strip_pathsText :
    IsPlainText .c pathsText.toList ∧ AllHarmless .c (pieces .c pathsText.toList) ∧
      strip .c pathsText = outside .c pathsText := by
  have htext : IsPlainText .c pathsText.toList := by decide +kernel
  have hpieces : AllHarmless .c (pieces .c pathsText.toList) := by decide +kernel
  exact ⟨htext, hpieces, (strip_eq_outside htext).1 hpieces⟩

/-- The texts of the lexemes are the same whether comments are taken out in passes or in one scan.
-/
def CutsAlike (dialect : Dialect) (text : String) : Prop :=
  (Lexeme.scan (strip dialect text)).map Lexeme.text =
    (Lexeme.scan (outside dialect text)).map Lexeme.text

instance (dialect : Dialect) (text : String) : Decidable (CutsAlike dialect text) :=
  inferInstanceAs (Decidable (_ = _))

/-- A literal is cut at its `//` or its `!`, and a `/*` in a line comment takes lines after it out.
-/
theorem not_cutsAlike :
    (IsPlainText .c "char *u = \"http://x\";".toList ∧ ¬ CutsAlike .c "char *u = \"http://x\";") ∧
    (IsPlainText .c "int a; // see /* here\nint b; /* x */ int c;".toList ∧
      ¬ CutsAlike .c "int a; // see /* here\nint b; /* x */ int c;") ∧
    IsPlainText .fortran "INTEGER :: n = '!'".toList ∧
      ¬ CutsAlike .fortran "INTEGER :: n = '!'" := by
  decide +kernel

end CommonDecl.Comment
