import CommonDecl.Keywords

/-!
# Taking comments out

Before a source is cut into lexemes its line ends and tabs are made uniform, its comments are
replaced by a space each, and lines that continue one another are joined.
-/

namespace CommonDecl.Comment

/-! ### Uniform blanks -/

/-- Every carriage return before a line feed is left out. -/
def unifyLineEnds : List Char → List Char
  | '\r' :: '\n' :: rest => '\n' :: unifyLineEnds rest
  | c :: rest => c :: unifyLineEnds rest
  | [] => []

/-- Every tab becomes a space. -/
def tabsToSpaces (text : List Char) : List Char :=
  text.map fun c => if c = '\t' then ' ' else c

/-! ### Comments that end with their line -/

/-- The text from the end of its first line on. -/
def dropLine (text : List Char) : List Char :=
  text.dropWhile (· ≠ '\n')

/-- The end of a line is no longer than the line. -/
theorem length_dropLine_le (text : List Char) : (dropLine text).length ≤ text.length :=
  (List.dropWhile_suffix _).length_le

/-! ### C -/

/-- A backslash at the end of a line joins the line to the next one. -/
def joinSplicedLines : List Char → List Char
  | '\\' :: '\n' :: rest => joinSplicedLines rest
  | c :: rest => c :: joinSplicedLines rest
  | [] => []

/-- The number of characters up to and including the first `*/`. -/
def blockLength? : List Char → Option Nat
  | '*' :: '/' :: _ => some 2
  | _ :: rest => (blockLength? rest).map (· + 1)
  | [] => none

/-- Each `/*` that is closed later becomes a space, together with everything up to the first `*/`
after it. A `/*` that is never closed stays. -/
def dropBlocks : List Char → List Char
  | [] => []
  | '/' :: '*' :: rest =>
    match blockLength? rest with
    | some n => ' ' :: dropBlocks (rest.drop n)
    | none => '/' :: dropBlocks ('*' :: rest)
  | c :: rest => c :: dropBlocks rest
termination_by text => text.length
decreasing_by all_goals simp only [List.length_cons, List.length_drop]; omega

/-- Each `//` becomes a space, together with the rest of its line. -/
def dropSlashLines : List Char → List Char
  | [] => []
  | '/' :: '/' :: rest => ' ' :: dropSlashLines (dropLine rest)
  | c :: rest => c :: dropSlashLines rest
termination_by text => text.length
decreasing_by
  · have := length_dropLine_le rest
    simp only [List.length_cons]; omega
  · simp only [List.length_cons]; omega

/-! ### Fortran -/

/-- Each `!` becomes a space, together with the rest of its line. -/
def dropBangLines : List Char → List Char
  | [] => []
  | '!' :: rest => ' ' :: dropBangLines (dropLine rest)
  | c :: rest => c :: dropBangLines rest
termination_by text => text.length
decreasing_by
  · have := length_dropLine_le rest
    simp only [List.length_cons]; omega
  · simp only [List.length_cons]; omega

/-- The text without the spaces at its start. -/
def dropSpaces (text : List Char) : List Char :=
  text.dropWhile (· = ' ')

/-- The text without the `&` at its start, if there is one. -/
def dropAmpersand : List Char → List Char
  | '&' :: rest => rest
  | text => text

/-- What follows a continuation, given the text after its `&`: only spaces may stand before the end
of the line, and spaces and one more `&` at the start of the next line belong to it. -/
def afterContinuation? (text : List Char) : Option (List Char) :=
  match dropSpaces text with
  | '\n' :: rest => some (dropAmpersand (dropSpaces rest))
  | _ => none

/-- Leaving out the spaces at its start makes a text no longer. -/
theorem length_dropSpaces_le (text : List Char) : (dropSpaces text).length ≤ text.length :=
  (List.dropWhile_suffix _).length_le

/-- Leaving out a `&` at its start makes a text no longer. -/
theorem length_dropAmpersand_le (text : List Char) : (dropAmpersand text).length ≤ text.length := by
  unfold dropAmpersand
  split <;> simp

/-- What follows a continuation is shorter than the text after its `&`. -/
theorem length_lt_of_afterContinuation? {text rest : List Char}
    (h : afterContinuation? text = some rest) : rest.length < text.length := by
  unfold afterContinuation? at h
  split at h
  · rename_i line eq
    have first := length_dropSpaces_le text
    have second := length_dropSpaces_le line
    have third := length_dropAmpersand_le (dropSpaces line)
    rw [eq, List.length_cons] at first
    simp only [Option.some.injEq] at h
    subst h
    omega
  · simp at h

/-- Each continuation becomes a space. -/
def joinContinuedLines : List Char → List Char
  | [] => []
  | c :: rest =>
    if c = '&' then
      match _h : afterContinuation? rest with
      | some rest => ' ' :: joinContinuedLines rest
      | none => c :: joinContinuedLines rest
    else c :: joinContinuedLines rest
termination_by text => text.length
decreasing_by
  · have := length_lt_of_afterContinuation? _h
    simp only [List.length_cons]; omega
  all_goals simp only [List.length_cons]; omega

/-! ### Induction -/

@[elab_as_elim]
theorem unifyLineEnds_induct {motive : List Char → Prop}
    (lineEnd : ∀ rest, motive rest → motive ('\r' :: '\n' :: rest))
    (char : ∀ c rest, (∀ after, c = '\r' → rest = '\n' :: after → False) → motive rest →
      motive (c :: rest))
    (nil : motive []) (text : List Char) : motive text :=
  unifyLineEnds.induct motive lineEnd char nil text

@[elab_as_elim]
theorem joinSplicedLines_induct {motive : List Char → Prop}
    (splice : ∀ rest, motive rest → motive ('\\' :: '\n' :: rest))
    (char : ∀ c rest, (∀ after, c = '\\' → rest = '\n' :: after → False) → motive rest →
      motive (c :: rest))
    (nil : motive []) (text : List Char) : motive text :=
  joinSplicedLines.induct motive splice char nil text

@[elab_as_elim]
theorem blockLength?_induct {motive : List Char → Prop}
    (closed : ∀ rest, motive ('*' :: '/' :: rest))
    (char : ∀ c rest, (∀ after, c = '*' → rest = '/' :: after → False) → motive rest →
      motive (c :: rest))
    (nil : motive []) (text : List Char) : motive text :=
  blockLength?.induct motive closed char nil text

/-- Induction along `dropBlocks`: behind a block comment that is closed, what is shown rests on the
text behind its end. -/
@[elab_as_elim]
theorem dropBlocks_induct {motive : List Char → Prop} (nil : motive [])
    (block : ∀ rest n, blockLength? rest = some n → motive (rest.drop n) →
      motive ('/' :: '*' :: rest))
    (unclosed : ∀ rest, blockLength? rest = none → motive ('*' :: rest) →
      motive ('/' :: '*' :: rest))
    (char : ∀ c rest, (∀ after, c = '/' → rest = '*' :: after → False) → motive rest →
      motive (c :: rest)) (text : List Char) : motive text :=
  dropBlocks.induct motive nil block unclosed char text

@[elab_as_elim]
theorem dropSlashLines_induct {motive : List Char → Prop} (nil : motive [])
    (slashes : ∀ rest, motive (dropLine rest) → motive ('/' :: '/' :: rest))
    (char : ∀ c rest, (∀ after, c = '/' → rest = '/' :: after → False) → motive rest →
      motive (c :: rest)) (text : List Char) : motive text :=
  dropSlashLines.induct motive nil slashes char text

@[elab_as_elim]
theorem dropBangLines_induct {motive : List Char → Prop} (nil : motive [])
    (bang : ∀ rest, motive (dropLine rest) → motive ('!' :: rest))
    (char : ∀ c rest, (c = '!' → False) → motive rest → motive (c :: rest)) (text : List Char) :
    motive text :=
  dropBangLines.induct motive nil bang char text

/-- Induction along `joinContinuedLines`: from a `&` to what follows its continuation, if there is
one. -/
@[elab_as_elim]
theorem joinContinuedLines_induct {motive : List Char → Prop} (nil : motive [])
    (continuation : ∀ rest after, afterContinuation? rest = some after → motive after →
      motive ('&' :: rest))
    (ampersand : ∀ rest, afterContinuation? rest = none → motive rest → motive ('&' :: rest))
    (char : ∀ c rest, ¬ c = '&' → motive rest → motive (c :: rest)) (text : List Char) :
    motive text :=
  joinContinuedLines.induct motive nil continuation ampersand char text

/-! ### Both dialects -/

/-- The text without comments. C takes out block comments before line comments; Fortran takes out
comments before it joins lines, so a comment that ends in `&` continues nothing. -/
def stripChars (dialect : Dialect) (text : List Char) : List Char :=
  let text := tabsToSpaces (unifyLineEnds text)
  match dialect with
  | .c => dropSlashLines (dropBlocks (joinSplicedLines text))
  | .fortran => joinContinuedLines (dropBangLines text)

/-- The source text without its comments. -/
def strip (dialect : Dialect) (text : String) : String :=
  String.ofList (stripChars dialect text.toList)

end CommonDecl.Comment
