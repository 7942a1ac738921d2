import CommonDecl.Bracket
import CommonDecl.Text.Basic
import CommonDecl.Text.Join

/-!
# Items

What the grammar reads: an item is a token, or a bracket group that stands as one item on its level.
Every shape in which tokens are kept is read through its items, so that each rule of the grammar is
written once. An item says itself which roles it can play.
-/

namespace CommonDecl

/-- The roles that an item can play in a declaration. -/
structure Roles where
  isQualifier : Bool := false
  /-- The keyword of a type, such as REAL in Fortran. -/
  isTypeKeyword : Bool := false
  /-- It can be used as a name. -/
  isIdentifier : Bool := false
  /-- It had no meaning when the tokens were classified. -/
  isUnresolved : Bool := false
deriving DecidableEq

/-- A token, or a group with the text that opens it. -/
inductive Item where
  | token (value : String) (roles : Roles)
  | group (opening : String) (roles : Roles) (contents : List Item)

namespace Item

/-- The text of a token, or the text that opens a group. -/
def value : Item → String
  | token value _ => value
  | group opening _ _ => opening

/-- The roles of an item. -/
def roles : Item → Roles
  | token _ roles => roles
  | group _ roles _ => roles

/-- The bracket that opens a group. A group that is opened by any other text has none, and cannot be
entered. -/
def bracket? : Item → Option Bracket
  | token _ _ => none
  | group opening _ _ => Bracket.ofOpening? opening

/-- The items of a group with a bracket. -/
def contents? : Item → Option (List Item)
  | token _ _ => none
  | group opening _ contents => (Bracket.ofOpening? opening).map fun _ => contents

/-- The item reads `text` and is not a group with a bracket. -/
def isToken (text : String) (item : Item) : Bool :=
  item.bracket?.isNone && item.value == text

/-- The item reads `text`, its letters in either case, and is not a group with a bracket. -/
def isTokenAnyCase (text : String) (item : Item) : Bool :=
  item.bracket?.isNone && eqAnyCase item.value text

/-- The item is a group with this bracket. -/
def isGroup (bracket : Bracket) (item : Item) : Bool :=
  item.bracket? == some bracket

mutual

/-- The text of an item inside a group: brackets included, and with its contents for a group of any
kind. -/
def text : Item → String
  | token value _ => value
  | group opening _ contents =>
    opening ++ Text.joinTokens (texts contents) ++
      ((Bracket.ofOpening? opening).map Bracket.closing).getD ""

/-- The text of each item inside a group. -/
def texts : List Item → List String
  | [] => []
  | item :: rest => item.text :: texts rest

end

/-- The text between the brackets of a group. -/
def contentsText : Item → String
  | token _ _ => ""
  | group _ _ contents => Text.joinTokens (texts contents)

/-- The item as source text, with its brackets and contents where it has a bracket. -/
def tokenText (item : Item) : String :=
  match item.bracket? with
  | some bracket => bracket.opening ++ item.contentsText ++ bracket.closing
  | none => item.value

mutual

/-- The number of tokens of an item, the brackets of a group counted once. -/
def weight : Item → Nat
  | token _ _ => 1
  | group _ _ contents => weights contents + 1

/-- The number of tokens of a list of items. -/
def weights : List Item → Nat
  | [] => 0
  | item :: rest => item.weight + weights rest

end

/-- The texts are the text of each item. -/
theorem texts_eq_map (items : List Item) : texts items = items.map text := by
  induction items with
  | nil => rfl
  | cons item rest ih => rw [texts, List.map_cons, ih]

/-- An item has at least one token. -/
theorem weight_pos (item : Item) : 0 < item.weight := by
  cases item <;> simp [weight]

/-- The contents of a group are lighter than the group. -/
theorem weights_lt_of_contents? {item : Item} {contents : List Item}
    (h : item.contents? = some contents) : weights contents < item.weight := by
  cases item with
  | token => simp [contents?] at h
  | group opening roles inner =>
    simp only [contents?, Option.map_eq_some_iff, exists_and_right] at h
    rw [weight, ← h.2]
    omega

end Item

end CommonDecl
