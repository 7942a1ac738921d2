import CommonDecl.Level

/-!
# Places in a level

A reader of a level comes to stand at places in it: at the level itself, further along it, and
inside the groups on it.  `Level.Reaches` says which places there are, and `Level.Offers` which
texts stand there as names.  Both pass from a place to the places in it (`Reaches.trans`,
`Offers.of_reaches`), so what is known of a whole level is known wherever a reader stands.  A level
lacks a word (`Level.Lacks`) if the word can nowhere in it be the name of anything.
-/

namespace CommonDecl.Level

/-- A reader of the level `root` can come to stand at `place`: `place` is `root` itself, what is
left of another place, or the contents of the group that another place starts with. -/
inductive Reaches (root : Level) : Level → Prop
  | start : Reaches root root
  | rest {level rest : Level} : Reaches root level → rest <:+ level → Reaches root rest
  | inside {level contents : Level} :
      Reaches root level → level.contents? = some contents → Reaches root contents

variable {root level place : Level} {name : String}

/-- What a place of a level reaches, the level reaches. -/
theorem Reaches.trans (h : root.Reaches level) (h' : level.Reaches place) : root.Reaches place := by
  induction h' with
  | start => exact h
  | rest _ hrest ih => exact .rest ih hrest
  | inside _ hcontents ih => exact .inside ih hcontents

theorem reaches_of_suffix (h : place <:+ level) : level.Reaches place :=
  .rest .start h

/-- What a level reaches in front of something, it reaches with something behind. -/
theorem Reaches.append {first place : Level} (h : first.Reaches place) (second : Level) :
    ∃ behind, (first ++ second).Reaches (place ++ behind) := by
  induction h with
  | start => exact ⟨second, .start⟩
  | rest _ hrest ih =>
    obtain ⟨behind, hreaches⟩ := ih
    obtain ⟨taken, rfl⟩ := hrest
    exact ⟨behind, .rest hreaches ⟨taken, (List.append_assoc _ _ _).symm⟩⟩
  | @inside level contents _ hcontents ih =>
    obtain ⟨behind, hreaches⟩ := ih
    refine ⟨[], .inside hreaches ?_⟩
    -- The contents of a group do not depend on what stands behind it.
    cases level with
    | nil => cases hcontents
    | cons item rest =>
      rw [List.append_nil]
      exact hcontents

theorem contents?_of_groupContents? {bracket : Bracket}
    (h : level.groupContents? bracket = some place) : level.contents? = some place := by
  unfold groupContents? at h
  split at h
  · exact h
  · cases h

theorem reaches_of_groupContents? {bracket : Bracket}
    (h : level.groupContents? bracket = some place) : level.Reaches place :=
  .inside .start (contents?_of_groupContents? h)

/-- At some place in the level an item stands that can be a name: a word in the role of one, the
keyword of a type, or the dots that stand for the last argument. -/
def Offers (root : Level) (name : String) : Prop :=
  ∃ place, root.Reaches place ∧ place.value? = some name ∧
    (place.isIdentifier = true ∨ place.isTypeKeyword = true ∨ place.isToken "..." = true)

/-- A name at a place inside a place is a name at a place of the level. -/
theorem Offers.of_reaches (h : root.Reaches level) (hname : level.Offers name) :
    root.Offers name := by
  obtain ⟨place, hplace, hvalue, hrole⟩ := hname
  exact ⟨place, h.trans hplace, hvalue, hrole⟩

/-! ### Levels without a word -/

/-- At no place in the level an item with the text is anything but the opening of a group. -/
def Lacks (word : Option String) (root : Level) : Prop :=
  ∀ item rest, root.Reaches (item :: rest) → word = some item.value →
    item.bracket?.isSome = true ∧ item.roles = {}

variable {word : Option String}

/-- Every level lacks no word at all. -/
theorem lacks_none (level : Level) : level.Lacks none := by
  rintro item rest - ⟨⟩

/-- Where a level lacks a word, every place in it does. -/
theorem Lacks.of_reaches (h : root.Lacks word) (hreaches : root.Reaches level) : level.Lacks word :=
  fun item rest hitem => h item rest (hreaches.trans hitem)

theorem Lacks.of_suffix (h : root.Lacks word) (hsuffix : level <:+ root) : level.Lacks word :=
  h.of_reaches (reaches_of_suffix hsuffix)

/-- The word in front of a level is not one that it lacks. -/
theorem Lacks.ne_of_word? (h : level.Lacks word) (hname : level.word? = some name) :
    word ≠ some name := by
  cases level with
  | nil => cases hname
  | cons item rest =>
    rintro rfl
    unfold word? at hname
    split at hname
    · rename_i hbracket
      have hvalue : item.value = name := Option.some.inj hname
      -- The item would have to open a group, and a group has no word.
      have hopening := (h item rest .start (congrArg some hvalue.symm)).1
      rw [bracket?, List.head?_cons, Option.bind_some, ← Option.not_isSome, hopening] at hbracket
      cases hbracket
    · cases hname

/-- No name that a level offers is a word that it lacks. -/
theorem Lacks.ne_of_offers (h : level.Lacks word) (hname : level.Offers name) :
    word ≠ some name := by
  rintro rfl
  obtain ⟨place, hplace, hvalue, hrole⟩ := hname
  cases place with
  | nil => cases hvalue
  | cons item rest =>
    have hvalue : item.value = name := Option.some.inj hvalue
    obtain ⟨hopening, hroles⟩ := h item rest hplace (congrArg some hvalue.symm)
    -- An item that only opens a group has no role of a name, and its text is no token.
    rcases hrole with hrole | hrole | hdots
    · rw [isIdentifier, List.head?_cons, Option.any_some, hroles] at hrole
      cases hrole
    · rw [isTypeKeyword, List.head?_cons, Option.any_some, hroles] at hrole
      cases hrole
    · rw [isToken, List.head?_cons, Option.any_some, Item.isToken, ← Option.not_isSome,
        hopening] at hdots
      cases hdots

/-- A word without a meaning is another one. -/
theorem Lacks.ne_of_isUnresolved (h : level.Lacks word) (hunresolved : level.isUnresolved = true)
    (hvalue : level.value? = some name) : word ≠ some name := by
  cases level with
  | nil => cases hvalue
  | cons item rest =>
    rintro rfl
    have hvalue : item.value = name := Option.some.inj hvalue
    have hroles := (h item rest .start (congrArg some hvalue.symm)).2
    rw [isUnresolved, List.head?_cons, Option.any_some, hroles] at hunresolved
    cases hunresolved

end CommonDecl.Level
