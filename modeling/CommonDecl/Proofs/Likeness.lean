import CommonDecl.Proofs.Progress
import Mathlib.Data.List.Forall2

/-!
# Levels that are alike

Two levels that start with the same items are alike up to what stands after the next `;`, and two
levels are alike up to words that had no meaning when the one was classified and were names of types
when the other one was (`Item.Alike`, `Level.Alike`).  What the readers ask of the current item, and
how they go on along a level, is the same for both.  The one question with another answer is whether
a word can be a name.
-/

namespace CommonDecl

/-! ### Items -/

/-- The roles of a word that had no meaning when it was classified. -/
def Roles.unresolved : Roles :=
  { isIdentifier := true, isUnresolved := true }

/-- The roles of a word that was the name of a type when it was classified. -/
def Roles.typeName : Roles :=
  { isTypeKeyword := true }

/-- Two items are the same, up to words of `added`, which are names of types in the second one. -/
inductive Item.Alike (added : String → Prop) : Item → Item → Prop where
  | token (value : String) (roles : Roles) : Alike added (.token value roles) (.token value roles)
  | added {value : String} (h : added value) :
    Alike added (.token value .unresolved) (.token value .typeName)
  | group (opening : String) (roles : Roles) {contents contents' : List Item}
    (h : List.Forall₂ (Item.Alike added) contents contents') :
    Alike added (.group opening roles contents) (.group opening roles contents')

variable {added : String → Prop}

namespace Item.Alike

variable {item item' : Item}

/-- Items that are alike are spelt alike; only their roles can differ. -/
theorem value_eq (h : Item.Alike added item item') : item.value = item'.value := by
  cases h <;> rfl

/-- Both items are groups of the same brackets, or neither is a group. -/
theorem bracket?_eq (h : Item.Alike added item item') : item.bracket? = item'.bracket? := by
  cases h <;> rfl

/-- A word of `added` is a qualifier in neither item. -/
theorem isQualifier_eq (h : Item.Alike added item item') :
    item.roles.isQualifier = item'.roles.isQualifier := by
  cases h <;> rfl

theorem isToken_eq (h : Item.Alike added item item') (text : String) :
    item.isToken text = item'.isToken text := by
  rw [Item.isToken, Item.isToken, h.bracket?_eq, h.value_eq]

theorem isGroup_eq (h : Item.Alike added item item') (bracket : Bracket) :
    item.isGroup bracket = item'.isGroup bracket := by
  rw [Item.isGroup, Item.isGroup, h.bracket?_eq]

/-- Nothing that may stand to the left of a type is a word of `added`. -/
theorem isLeftQualifier_eq (h : Item.Alike added item item') :
    Level.isLeftQualifier item = Level.isLeftQualifier item' := by
  rw [Level.isLeftQualifier, Level.isLeftQualifier, h.isQualifier_eq, h.value_eq]

/-- A word can name a type whether it was one when it was classified or not. -/
theorem namesType_eq (h : Item.Alike added item item') :
    (item.roles.isIdentifier || item.roles.isTypeKeyword) =
      (item'.roles.isIdentifier || item'.roles.isTypeKeyword) := by
  cases h <;> rfl

mutual

/-- Items that are alike have the same text, whatever stands in their groups. -/
theorem text_eq : {item item' : Item} → Item.Alike added item item' → item.text = item'.text
  | .token _ _, _, h => by cases h <;> rfl
  | .group opening roles contents, _, h => by
    cases h with
    | group _ _ hcontents => rw [Item.text, Item.text, texts_eq hcontents]

theorem texts_eq : {items items' : List Item} → List.Forall₂ (Item.Alike added) items items' →
    Item.texts items = Item.texts items'
  | [], _, h => by
    cases h
    rfl
  | item :: rest, _, h => by
    cases h with
    | cons hitem hrest => rw [Item.texts, Item.texts, text_eq hitem, texts_eq hrest]

end

mutual

/-- Items that are alike have the same weight, so both recursions of the readers shrink alike. -/
theorem weight_eq : {item item' : Item} → Item.Alike added item item' → item.weight = item'.weight
  | .token _ _, _, h => by cases h <;> rfl
  | .group opening roles contents, _, h => by
    cases h with
    | group _ _ hcontents => rw [Item.weight, Item.weight, weights_eq hcontents]

theorem weights_eq : {items items' : List Item} → List.Forall₂ (Item.Alike added) items items' →
    Item.weights items = Item.weights items'
  | [], _, h => by
    cases h
    rfl
  | item :: rest, _, h => by
    cases h with
    | cons hitem hrest => rw [Item.weights, Item.weights, weight_eq hitem, weights_eq hrest]

end

theorem contentsText_eq (h : Item.Alike added item item') :
    item.contentsText = item'.contentsText := by
  cases h with
  | group _ _ hcontents => rw [Item.contentsText, Item.contentsText, texts_eq hcontents]
  | _ => rfl

/-- What an item adds to a text that is put together is the same for both. -/
theorem tokenText_eq (h : Item.Alike added item item') : item.tokenText = item'.tokenText := by
  rw [Item.tokenText, Item.tokenText, h.bracket?_eq, h.contentsText_eq, h.value_eq]

mutual

/-- An item is like itself, whichever words are added. -/
theorem refl : (item : Item) → Item.Alike added item item
  | .token value roles => .token value roles
  | .group opening roles contents => .group opening roles (refl_all contents)

theorem refl_all : (items : List Item) → List.Forall₂ (Item.Alike added) items items
  | [] => .nil
  | item :: rest => .cons (refl item) (refl_all rest)

end

mutual

/-- Items that are alike up to no words at all are the same. -/
theorem eq_of_none : {item item' : Item} → Item.Alike (fun _ => False) item item' → item = item'
  | .token _ _, _, h => by
    cases h with
    | token => rfl
    | added h => exact h.elim
  | .group opening roles contents, _, h => by
    cases h with
    | group _ _ hcontents => rw [eq_of_none_all hcontents]

theorem eq_of_none_all : {items items' : List Item} →
    List.Forall₂ (Item.Alike fun _ => False) items items' → items = items'
  | [], _, h => by
    cases h
    rfl
  | item :: rest, _, h => by
    cases h with
    | cons hitem hrest => rw [eq_of_none hitem, eq_of_none_all hrest]

end

end Item.Alike

namespace Level

/-! ### Levels -/

/-- Both levels end, or both go on with a `;` that plays no role.  A look ahead goes one item beyond
that, to see whether a body follows. -/
inductive StopAlike : Level → Level → Prop where
  | ends : StopAlike [] []
  | semicolon {rest rest' : Level} (hbody : rest.isGroup .brace = rest'.isGroup .brace) :
    StopAlike (.token ";" {} :: rest) (.token ";" {} :: rest')

/-- Two levels are alike up to where `tail` and `tail'` start. -/
inductive Alike (added : String → Prop) (tail tail' : Level) : Level → Level → Prop where
  | tail : Alike added tail tail' tail tail'
  | cons {item item' : Item} {rest rest' : Level} (hitem : Item.Alike added item item')
    (hrest : Alike added tail tail' rest rest') :
    Alike added tail tail' (item :: rest) (item' :: rest')

variable {tail tail' level level' rest rest' : Level}

/-- Without tails, two levels are alike if they are alike item for item. -/
theorem alike_nil_iff :
    Alike added [] [] level level' ↔ List.Forall₂ (Item.Alike added) level level' := by
  constructor
  · intro h
    induction h with
    | tail => exact .nil
    | cons hitem _ ih => exact .cons hitem ih
  · intro h
    induction h with
    | nil => exact .tail
    | cons hitem _ ih => exact .cons hitem ih

/-- Levels with the same front are alike up to what stands behind it. -/
theorem alike_append (front : Level) (tail tail' : Level) :
    Alike added tail tail' (front ++ tail) (front ++ tail') := by
  induction front with
  | nil => exact .tail
  | cons item front ih => exact .cons (.refl item) ih

/-- Levels that are alike up to no words at all are the same up to their tails. -/
theorem Alike.exists_front (h : Alike (fun _ => False) tail tail' level level') :
    ∃ front, level = front ++ tail ∧ level' = front ++ tail' := by
  induction h with
  | tail => exact ⟨[], rfl, rfl⟩
  | @cons item item' rest rest' hitem _ ih =>
    obtain ⟨front, rfl, rfl⟩ := ih
    exact ⟨item :: front, rfl, by rw [hitem.eq_of_none]; rfl⟩

/-- Without added words and without tails, only a level is like itself. -/
theorem Alike.eq_of_none (h : Alike (fun _ => False) [] [] level level') : level' = level :=
  (Item.Alike.eq_of_none_all (alike_nil_iff.mp h)).symm

/-- Both levels end, or both start with items that are alike. -/
theorem Alike.head (h : Alike added tail tail' level level') (hstop : StopAlike tail tail') :
    (level = [] ∧ level' = []) ∨ ∃ item item' others others', level = item :: others ∧
      level' = item' :: others' ∧ Item.Alike added item item' ∧
      (item.isToken ";" = false → Alike added tail tail' others others') := by
  cases h with
  | tail =>
    cases hstop with
    | ends => exact Or.inl ⟨rfl, rfl⟩
    | semicolon =>
      refine Or.inr ⟨_, _, _, _, rfl, rfl, .token _ _, fun h => ?_⟩
      exact absurd h (by decide)
  | cons hitem hrest => exact Or.inr ⟨_, _, _, _, rfl, rfl, hitem, fun _ => hrest⟩

/-! ### The current item -/

/-- A question about the current item has the same answer in both levels. -/
theorem Alike.head?_map_eq (h : Alike added tail tail' level level') (hstop : StopAlike tail tail')
    {α : Type} {f : Item → α}
    (hf : ∀ {item item'}, Item.Alike added item item' → f item = f item') :
    -- At the tails the current item is a `;` in both, or there is none.
    level.head?.map f = level'.head?.map f := by
  rcases h.head hstop with ⟨rfl, rfl⟩ | ⟨item, item', others, others', rfl, rfl, hitem, -⟩
  · rfl
  · exact congrArg some (hf hitem)

theorem Alike.head?_any_eq (h : Alike added tail tail' level level') (hstop : StopAlike tail tail')
    {p : Item → Bool} (hp : ∀ {item item'}, Item.Alike added item item' → p item = p item') :
    level.head?.any p = level'.head?.any p := by
  rcases h.head hstop with ⟨rfl, rfl⟩ | ⟨item, item', others, others', rfl, rfl, hitem, -⟩
  · rfl
  · exact hp hitem

variable (h : Alike added tail tail' level level') (hstop : StopAlike tail tail')
include h hstop

/-- The one level ends where the other one does. -/
theorem Alike.atEnd_eq : level.atEnd = level'.atEnd := by
  rcases h.head hstop with ⟨rfl, rfl⟩ | ⟨item, item', others, others', rfl, rfl, -, -⟩ <;> rfl

theorem Alike.value?_eq : level.value? = level'.value? :=
  h.head?_map_eq hstop Item.Alike.value_eq

theorem Alike.bracket?_eq : level.bracket? = level'.bracket? := by
  rcases h.head hstop with ⟨rfl, rfl⟩ | ⟨item, item', others, others', rfl, rfl, hitem, -⟩
  · rfl
  · exact hitem.bracket?_eq

/-- The current word is the same in both, whether it is known or not. -/
theorem Alike.word?_eq : level.word? = level'.word? := by
  rw [word?, word?, h.bracket?_eq hstop, h.value?_eq hstop]

theorem Alike.isToken_eq (text : String) : level.isToken text = level'.isToken text :=
  h.head?_any_eq hstop fun hitem => hitem.isToken_eq text

theorem Alike.isGroup_eq (bracket : Bracket) : level.isGroup bracket = level'.isGroup bracket :=
  h.head?_any_eq hstop fun hitem => hitem.isGroup_eq bracket

/-- Both levels stand at the name of a type, or neither does, as a group or a `;` is no name. -/
theorem Alike.atTypeName_eq : TypeDecl.atTypeName level = TypeDecl.atTypeName level' := by
  rcases h.head hstop with ⟨rfl, rfl⟩ | ⟨item, item', others, others', rfl, rfl, hitem, -⟩
  · rfl
  · exact hitem.namesType_eq

/-- A statement ends in both levels at the same item. -/
theorem Alike.atStatementEnd_eq : level.atStatementEnd = level'.atStatementEnd := by
  rw [atStatementEnd, atStatementEnd, h.atEnd_eq hstop, h.isToken_eq hstop]

/-- A group that is entered in the one level is entered in the other one. -/
theorem Alike.contents?_eq :
    (level.contents? = none ∧ level'.contents? = none) ∨ ∃ contents contents',
      level.contents? = some contents ∧ level'.contents? = some contents' ∧
        List.Forall₂ (Item.Alike added) contents contents' := by
  -- Only a group can be entered, and at the tails there is no group.
  rcases h.head hstop with ⟨rfl, rfl⟩ | ⟨item, item', others, others', rfl, rfl, hitem, -⟩
  · exact Or.inl ⟨rfl, rfl⟩
  · cases hitem with
    | token => exact Or.inl ⟨rfl, rfl⟩
    | added => exact Or.inl ⟨rfl, rfl⟩
    | @group opening roles contents contents' hcontents =>
      -- The roles of a group do not matter here: its opening bracket decides whether it is entered.
      cases hbracket : Bracket.ofOpening? opening with
      | none =>
        refine Or.inl ⟨?_, ?_⟩
        · show (Bracket.ofOpening? opening).map (fun _ => contents) = none
          rw [hbracket]
          rfl
        · show (Bracket.ofOpening? opening).map (fun _ => contents') = none
          rw [hbracket]
          rfl
      | some bracket =>
        refine Or.inr ⟨contents, contents', ?_, ?_, hcontents⟩
        · show (Bracket.ofOpening? opening).map (fun _ => contents) = some contents
          rw [hbracket]
          rfl
        · show (Bracket.ofOpening? opening).map (fun _ => contents') = some contents'
          rw [hbracket]
          rfl

/-- What stands in a group of the given brackets is alike item for item. -/
theorem Alike.groupContents?_eq (bracket : Bracket) :
    (level.groupContents? bracket = none ∧ level'.groupContents? bracket = none) ∨
      ∃ contents contents', level.groupContents? bracket = some contents ∧
        level'.groupContents? bracket = some contents' ∧
        List.Forall₂ (Item.Alike added) contents contents' := by
  unfold groupContents?
  rw [h.bracket?_eq hstop]
  split
  · exact h.contents?_eq hstop
  · exact Or.inl ⟨rfl, rfl⟩

/-- A group of the one level has a counterpart of the same brackets in the other one. -/
theorem Alike.exists_groupContents? {bracket : Bracket} {contents : Level}
    (hcontents : level.groupContents? bracket = some contents) :
    ∃ contents', level'.groupContents? bracket = some contents' ∧
      List.Forall₂ (Item.Alike added) contents contents' := by
  rcases h.groupContents?_eq hstop bracket with
    ⟨hnone, -⟩ | ⟨inner, inner', hinner, hinner', halike⟩
  · rw [hnone] at hcontents
    cases hcontents
  · rw [hinner] at hcontents
    cases hcontents
    exact ⟨inner', hinner', halike⟩

theorem Alike.groupContents?_eq_none {bracket : Bracket}
    (hnone : level.groupContents? bracket = none) : level'.groupContents? bracket = none := by
  rcases h.groupContents?_eq hstop bracket with ⟨-, hnone'⟩ | ⟨inner, inner', hinner, -, -⟩
  · exact hnone'
  · rw [hnone] at hinner
    cases hinner

/-! ### Going on -/

/-- The levels stay alike when the current item is passed, as long as it is not the `;` of the
tails. -/
theorem Alike.next (hsemicolon : level.isToken ";" = false) :
    Alike added tail tail' level.next level'.next := by
  rcases h.head hstop with ⟨rfl, rfl⟩ | ⟨item, item', others, others', rfl, rfl, -, hothers⟩
  · exact h
  · exact hothers hsemicolon

omit h hstop in
/-- On levels that end there is no `;` to look out for. -/
theorem Alike.next_nil (h : Alike added [] [] level level') :
    Alike added [] [] level.next level'.next := by
  cases h with
  | tail => exact .tail
  | cons hitem hrest => exact hrest

/-- Items are left out up to the same place, which is not behind the `;`. -/
theorem Alike.dropWhile {p : Item → Bool}
    (hp : ∀ {item item'}, Item.Alike added item item' → p item = p item')
    (hsemicolon : p (.token ";" {}) = false) :
    Alike added tail tail' (level.dropWhile p) (level'.dropWhile p) := by
  induction h with
  | tail =>
    cases hstop with
    | ends => exact .tail
    | semicolon =>
      rw [List.dropWhile_cons_of_neg (by simp [hsemicolon]),
        List.dropWhile_cons_of_neg (by simp [hsemicolon])]
      exact .tail
  | @cons item item' rest rest' hitem hrest ih =>
    rw [List.dropWhile_cons, List.dropWhile_cons, hp hitem]
    split
    · exact ih
    · exact .cons hitem hrest

omit h hstop in
/-- Levels that are alike to their ends are so behind the next `;` as well. -/
theorem Alike.afterSemicolon_nil (h : Alike added [] [] level level') :
    Alike added [] [] level.afterSemicolon level'.afterSemicolon := by
  rw [afterSemicolon, afterSemicolon, ← h.isToken_eq .ends]
  split
  · exact h.next_nil
  · exact h

omit h hstop in
/-- Levels that are alike to their ends are so behind the items that a question about them drops. -/
theorem Alike.dropWhile_nil {p : Item → Bool}
    (hp : ∀ {item item'}, Item.Alike added item item' → p item = p item')
    (h : Alike added [] [] level level') :
    Alike added [] [] (level.dropWhile p) (level'.dropWhile p) := by
  induction h with
  | tail => exact .tail
  | cons hitem hrest ih =>
    rw [List.dropWhile_cons, List.dropWhile_cons, hp hitem]
    split
    · exact ih
    · exact .cons hitem hrest

omit h hstop in
/-- Levels that are alike to their ends are so behind the next delimiter. -/
theorem Alike.skipPast_nil (h : Alike added [] [] level level') (delimiter : String) :
    Alike added [] [] (level.skipPast delimiter) (level'.skipPast delimiter) := by
  refine Alike.next_nil (h.dropWhile_nil fun hitem => ?_)
  rw [hitem.isToken_eq]

/-- The items up to that place show the same. -/
theorem Alike.map_takeWhile_eq {p : Item → Bool} {α : Type} {f : Item → α}
    (hp : ∀ {item item'}, Item.Alike added item item' → p item = p item')
    (hsemicolon : p (.token ";" {}) = false)
    (hf : ∀ {item item'}, Item.Alike added item item' → f item = f item') :
    (level.takeWhile p).map f = (level'.takeWhile p).map f := by
  induction h with
  | tail =>
    cases hstop with
    | ends => rfl
    | semicolon =>
      rw [List.takeWhile_cons_of_neg (by simp [hsemicolon]),
        List.takeWhile_cons_of_neg (by simp [hsemicolon])]
  | @cons item item' rest rest' hitem hrest ih =>
    rw [List.takeWhile_cons, List.takeWhile_cons, hp hitem]
    split
    · rw [List.map_cons, List.map_cons, hf hitem, ih]
    · rfl

/-- The same qualifiers stand at the current item of both levels. -/
theorem Alike.qualifiers_eq : level.qualifiers = level'.qualifiers :=
  congrArg Qualifiers.mk (h.map_takeWhile_eq hstop Item.Alike.isQualifier_eq rfl
    Item.Alike.value_eq)

/-- The levels are alike behind the qualifiers, which never reach into the tails. -/
theorem Alike.afterQualifiers :
    Alike added tail tail' level.afterQualifiers level'.afterQualifiers :=
  h.dropWhile hstop Item.Alike.isQualifier_eq rfl

theorem Alike.leftQualifiers_eq : level.leftQualifiers = level'.leftQualifiers :=
  congrArg Qualifiers.mk (h.map_takeWhile_eq hstop Item.Alike.isLeftQualifier_eq rfl
    Item.Alike.value_eq)

theorem Alike.afterLeftQualifiers :
    Alike added tail tail' level.afterLeftQualifiers level'.afterLeftQualifiers :=
  h.dropWhile hstop Item.Alike.isLeftQualifier_eq rfl

/-- The same dimensions stand at the current item of both levels. -/
theorem Alike.dimensions_eq : level.dimensions = level'.dimensions :=
  h.map_takeWhile_eq hstop (fun hitem => hitem.isGroup_eq .square) rfl Item.Alike.contentsText_eq

theorem Alike.afterDimensions :
    Alike added tail tail' level.afterDimensions level'.afterDimensions :=
  h.dropWhile hstop (fun hitem => hitem.isGroup_eq .square) rfl

/-- A search for the end of a declarator stops in both levels at the same place. -/
theorem Alike.skipToAny :
    Alike added tail tail' (level.skipToAny [",", ";"]) (level'.skipToAny [",", ";"]) := by
  refine h.dropWhile hstop (fun hitem => ?_) rfl
  simp only [List.any_cons, List.any_nil, hitem.isToken_eq]

/-- What stands behind a declarator up to the next `,` or `;` is passed in both levels. -/
theorem Alike.afterDeclarator :
    Alike added tail tail' level.afterDeclarator level'.afterDeclarator := by
  have hskip := h.skipToAny hstop
  unfold Level.afterDeclarator
  dsimp only
  rw [← hskip.isToken_eq hstop]
  split
  · rename_i hcomma
    exact hskip.next hstop (isToken_eq_false_of_isToken hcomma (by decide))
  · exact hskip

/-- The name of a type is passed in both levels, or in neither. -/
theorem Alike.afterTypeName :
    Alike added tail tail' (TypeDecl.afterTypeName level) (TypeDecl.afterTypeName level') := by
  rw [TypeDecl.afterTypeName, TypeDecl.afterTypeName, ← h.atTypeName_eq hstop]
  split
  · rename_i hname
    cases h with
    | tail =>
      cases hstop with
      | ends => exact .tail
      | semicolon => cases hname
    | cons hitem hrest => exact hrest
  · exact h

omit hstop in
/-- What was taken of both levels is as much. -/
theorem Alike.size_lt_iff (hrest : Alike added tail tail' rest rest') :
    (rest.length < level.length ↔ rest'.length < level'.length) ∧
      (rest.weight < level.weight ↔ rest'.weight < level'.weight) := by
  have hsize : ∀ {level level'}, Alike added tail tail' level level' →
      level.length + tail'.length = level'.length + tail.length ∧
        level.weight + tail'.weight = level'.weight + tail.weight := by
    intro level level' h
    induction h with
    | tail => exact ⟨Nat.add_comm _ _, Nat.add_comm _ _⟩
    | cons hitem hrest ih =>
      have := hitem.weight_eq
      simp only [List.length_cons, weight_cons]
      omega
  have := hsize h
  have := hsize hrest
  omega

end Level

end CommonDecl
