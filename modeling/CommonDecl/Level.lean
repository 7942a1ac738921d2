import CommonDecl.Item
import CommonDecl.Qualifiers

/-!
# Levels

A level is what is left to read between a pair of brackets, or outside of all brackets: a list of
items, of which the first is the current one. Reading an item goes on to the rest of the list, and
entering a group goes on to its contents.
-/

namespace CommonDecl

/-- The items that are left to read. -/
abbrev Level := List Item

namespace Level

/-! ### The current item -/

/-- Nothing is left to read. -/
def atEnd (level : Level) : Bool :=
  level.isEmpty

/-- The text of the current item, the opening bracket for a group. -/
def value? (level : Level) : Option String :=
  level.head?.map Item.value

/-- The bracket of the current item. -/
def bracket? (level : Level) : Option Bracket :=
  level.head?.bind Item.bracket?

/-- The contents of the current item, where it has a bracket. -/
def contents? (level : Level) : Option Level :=
  level.head?.bind Item.contents?

/-- The contents of the current item, where it is a group with this bracket. -/
def groupContents? (level : Level) (bracket : Bracket) : Option Level :=
  if level.bracket? = some bracket then level.contents? else none

/-- The current item is a group with this bracket. -/
def isGroup (level : Level) (bracket : Bracket) : Bool :=
  level.head?.any (Item.isGroup bracket)

/-- The current item is the token `text`. -/
def isToken (level : Level) (text : String) : Bool :=
  level.head?.any (Item.isToken text)

/-- The current item is the token `text`, its letters in either case. -/
def isTokenAnyCase (level : Level) (text : String) : Bool :=
  level.head?.any (Item.isTokenAnyCase text)

/-- The text of the current item, where it has no bracket. -/
def word? (level : Level) : Option String :=
  if level.bracket?.isNone then level.value? else none

/-- The current item is a qualifier. -/
def isQualifier (level : Level) : Bool :=
  level.head?.any fun item => item.roles.isQualifier

/-- The current item is the keyword of a type. -/
def isTypeKeyword (level : Level) : Bool :=
  level.head?.any fun item => item.roles.isTypeKeyword

/-- The current item can be used as a name. -/
def isIdentifier (level : Level) : Bool :=
  level.head?.any fun item => item.roles.isIdentifier

/-- The current item had no meaning when it was classified. -/
def isUnresolved (level : Level) : Bool :=
  level.head?.any fun item => item.roles.isUnresolved

/-- The text between the brackets of the current item. -/
def contentsText (level : Level) : String :=
  (level.head?.map Item.contentsText).getD ""

/-- The current item as source text. -/
def tokenText (level : Level) : String :=
  (level.head?.map Item.tokenText).getD ""

/-- Each item that is left, as source text. -/
def tokenTexts (level : Level) : List String :=
  level.map Item.tokenText

/-! ### Going on -/

/-- The level after its current item. -/
def next (level : Level) : Level :=
  level.tail

/-- The level after the first token `delimiter` on it, or its end where there is none. -/
def skipPast (level : Level) (delimiter : String) : Level :=
  (level.dropWhile fun item => !item.isToken delimiter).tail

/-- The level from the first of the tokens `delimiters` on. -/
def skipToAny (level : Level) (delimiters : List String) : Level :=
  level.dropWhile fun item => !delimiters.any item.isToken

/-- The items of a level between the tokens `delimiter`, each as source text. There is one segment
more than there are delimiters. -/
def split (delimiter : String) : Level → List (List String)
  | [] => [[]]
  | item :: rest =>
    if item.isToken delimiter then [] :: split delimiter rest
    else
      match split delimiter rest with
      | segment :: segments => (item.tokenText :: segment) :: segments
      | [] => [[item.tokenText]]

/-! ### Qualifiers -/

/-- The qualifiers that the level starts with. -/
def qualifiers (level : Level) : Qualifiers :=
  ⟨(level.takeWhile fun item => item.roles.isQualifier).map Item.value⟩

/-- The level after the qualifiers that it starts with. -/
def afterQualifiers (level : Level) : Level :=
  level.dropWhile fun item => item.roles.isQualifier

/-- A qualifier that belongs to a type and not to a declarator: any but `*` and `&`. -/
def isLeftQualifier (item : Item) : Bool :=
  item.roles.isQualifier && !isPointerMarker item.value

/-- The qualifiers of a type that the level starts with. -/
def leftQualifiers (level : Level) : Qualifiers :=
  ⟨(level.takeWhile isLeftQualifier).map Item.value⟩

/-- The level after the qualifiers of a type that it starts with. -/
def afterLeftQualifiers (level : Level) : Level :=
  level.dropWhile isLeftQualifier

/-! ### Square groups -/

/-- The contents of the square groups that the level starts with. -/
def dimensions (level : Level) : List String :=
  (level.takeWhile (Item.isGroup .square)).map Item.contentsText

/-- The level after the square groups that it starts with. -/
def afterDimensions (level : Level) : Level :=
  level.dropWhile (Item.isGroup .square)

/-! ### Weight -/

/-- The number of tokens that are left, those inside groups included. -/
def weight (level : Level) : Nat :=
  Item.weights level

@[simp]
theorem weight_nil : weight [] = 0 := rfl

@[simp]
theorem weight_cons (item : Item) (rest : Level) :
    weight (item :: rest) = item.weight + weight rest := rfl

/-- The end of a level is no heavier than the level. -/
theorem weight_le_of_suffix {inner level : Level} (h : inner <:+ level) :
    weight inner ≤ weight level := by
  obtain ⟨before, rfl⟩ := h
  induction before with
  | nil => exact Nat.le_refl _
  | cons item before ih => rw [List.cons_append, weight_cons]; omega

/-! ### Going on leaves a rest of the level -/

theorem next_suffix (level : Level) : level.next <:+ level :=
  List.tail_suffix level

theorem skipPast_suffix (level : Level) (delimiter : String) : level.skipPast delimiter <:+ level :=
  (List.tail_suffix _).trans (List.dropWhile_suffix _)

theorem skipToAny_suffix (level : Level) (delimiters : List String) :
    level.skipToAny delimiters <:+ level :=
  List.dropWhile_suffix _

theorem afterQualifiers_suffix (level : Level) : level.afterQualifiers <:+ level :=
  List.dropWhile_suffix _

theorem afterLeftQualifiers_suffix (level : Level) : level.afterLeftQualifiers <:+ level :=
  List.dropWhile_suffix _

theorem afterDimensions_suffix (level : Level) : level.afterDimensions <:+ level :=
  List.dropWhile_suffix _

/-! ### What is left is less -/

/-- Going past a delimiter leaves less to read. -/
theorem length_skipPast_lt {level : Level} (h : level ≠ []) (delimiter : String) :
    (level.skipPast delimiter).length < level.length := by
  have rest : (level.dropWhile fun item => !item.isToken delimiter).length ≤ level.length :=
    (List.dropWhile_suffix _).length_le
  have : 0 < level.length := List.length_pos_iff.mpr h
  rw [skipPast, List.length_tail]
  omega

/-- The contents of the current item are lighter than the level. -/
theorem weight_lt_of_contents? {level contents : Level} (h : level.contents? = some contents) :
    weight contents < weight level := by
  cases level with
  | nil => simp [contents?] at h
  | cons item rest =>
    have : Item.weights contents < item.weight := Item.weights_lt_of_contents? h
    simp only [weight, Item.weights]
    omega

/-- The contents of a group at the front are lighter than the level. -/
theorem weight_lt_of_groupContents? {level contents : Level} {bracket : Bracket}
    (h : level.groupContents? bracket = some contents) : weight contents < weight level := by
  unfold groupContents? at h
  split at h
  · exact weight_lt_of_contents? h
  · simp at h

end Level

end CommonDecl
