import CommonDecl.Proofs.Locality

/-!
# Lists of attributes

A list of attributes is cut at its commas, and each part is one attribute: `Attribute` says what it
does to a declarator, and `Attribute.IsWritten` which part says so.  The list is read up to its `::`
exactly where every part is an attribute, and then the declarator is changed by one after the other
(`readAttributes_attributeList_iff`).
-/

namespace CommonDecl.Fortran

open Level

variable {scope : Scope} {part stop rest : Level}

/-! ### Attributes -/

/-- The words that give a declarator a qualifier of its type. -/
inductive Mark where
  | volatile
  | kernel
  | device
  | shared
  | exclusive

/-- The word in upper case. -/
def Mark.keyword : Mark → String
  | .volatile => "VOLATILE"
  | .kernel => "KERNEL"
  | .device => "DEVICE"
  | .shared => "SHARED"
  | .exclusive => "EXCLUSIVE"

/-- The qualifier that the word stands for. -/
def Mark.qualifier (markers : Markers) : Mark → String
  | .volatile => "volatile"
  | .kernel => markers.kernel
  | .device => markers.device
  | .shared => markers.shared
  | .exclusive => markers.exclusive

/-- What one attribute says. -/
inductive Attribute where
  /-- A type, by the name of the primitive type it stands for. -/
  | type (name : String)
  | pointer
  | parameter
  | mark (word : Mark)
  | intent (word : String)
  | dimension (list : Level)

namespace Attribute

/-- The word that the attribute starts with, in upper case.  A type starts with its own keyword. -/
def word? : Attribute → Option String
  | type _ => none
  | pointer => some "POINTER"
  | parameter => some "PARAMETER"
  | mark word => some word.keyword
  | intent _ => some "INTENT"
  | dimension _ => some "DIMENSION"

/-- The attribute gives a rank of pointers. -/
def isDeferred : Attribute → Bool
  | dimension list => Fortran.isDeferred list
  | _ => false

/-- The declarator with the attribute. -/
def apply (scope : Scope) (attr : Attribute) (declarator : Declarator) : Declarator :=
  match attr with
  | type name => { declarator with base := (scope.lookup name).or declarator.base }
  | pointer => { declarator with right := declarator.right.add "*" }
  | parameter => { declarator with left := declarator.left.pushFront "const" }
  | mark word =>
    { declarator with left := declarator.left.add (word.qualifier scope.settings.markers) }
  | intent word => withIntent word declarator
  | dimension list => withDimensions list declarator

end Attribute

/-- The word of an attribute that a level starts with, in upper case, unless it is the keyword of a
type. -/
def attributeWord? (level : Level) : Option String :=
  if level.isTypeKeyword then none else level.word?.map upperCase

/-- A level starts with an attribute and goes on with the rest behind it. -/
structure Attribute.StartsAt (scope : Scope) (attr : Attribute) (level rest : Level) : Prop where
  apply : ∀ declarator, applyAttribute scope level declarator =
    .ok (some (attr.isDeferred, rest)) (attr.apply scope declarator)
  word : attr.word? = attributeWord? level

/-- All of the part is the attribute. -/
def Attribute.IsWritten (scope : Scope) (attr : Attribute) (part : Level) : Prop :=
  attr.StartsAt scope part []

/-! ### One attribute -/

/-- Where an attribute is a single word, it does the same to every declarator. -/
theorem exists_attribute_of_wordAttribute? {word : String} {declarator changed : Declarator}
    (h : wordAttribute? scope.settings.markers word declarator = some changed) :
    ∃ attr : Attribute, attr.word? = some word ∧ attr.isDeferred = false ∧
      ∀ other, wordAttribute? scope.settings.markers word other =
        some (attr.apply scope other) := by
  unfold wordAttribute? at h
  dsimp only at h
  split_ifs at h with hpointer hvolatile hparameter hkernel hdevice hshared hexclusive
  case pos => exact ⟨.pointer, by rw [hpointer]; rfl, rfl, fun _ => by rw [hpointer]; rfl⟩
  case pos => exact ⟨.mark .volatile, by rw [hvolatile]; rfl, rfl, fun _ => by rw [hvolatile]; rfl⟩
  case pos => exact ⟨.parameter, by rw [hparameter]; rfl, rfl, fun _ => by rw [hparameter]; rfl⟩
  case pos => exact ⟨.mark .kernel, by rw [hkernel]; rfl, rfl, fun _ => by rw [hkernel]; rfl⟩
  case pos => exact ⟨.mark .device, by rw [hdevice]; rfl, rfl, fun _ => by rw [hdevice]; rfl⟩
  case pos => exact ⟨.mark .shared, by rw [hshared]; rfl, rfl, fun _ => by rw [hshared]; rfl⟩
  case pos => exact ⟨.mark .exclusive, by rw [hexclusive]; rfl, rfl, fun _ =>
    by rw [hexclusive]; rfl⟩

/-- A type is read where the keyword of one stands. -/
theorem isTypeKeyword_of_readType {level : Level} {type : Option String}
    (h : readType level = (.ok type, rest)) : level.isTypeKeyword = type.isSome := by
  have hsome {result : Except Fault String} {after : Level}
      (h : (result.map some, after) = ((.ok type : Except Fault (Option String)), rest)) :
          type.isSome = true := by
    cases result with
    | error fault => cases h
    | ok name =>
      cases h
      rfl
  unfold readType at h
  split at h
  · rename_i hkeyword
    rw [hkeyword]
    dsimp only at h
    -- Where a keyword stands, a type or a fault is the result in every branch.
    repeat' split at h
    all_goals first | exact (hsome h).symm | cases h
  · rename_i hkeyword
    cases h
    exact Bool.eq_false_iff.mpr hkeyword

/-- The word of an attribute is the current word in capitals, where no type stands. -/
theorem attributeWord?_eq_some_iff {level : Level} {word : String} :
    attributeWord? level = some word ↔ level.isTypeKeyword = false ∧ level.word?.map upperCase =
      some word := by
  unfold attributeWord?
  cases level.isTypeKeyword <;> simp

/-- Where the word of an attribute stands, no type is read. -/
theorem readType_of_attributeWord? {level : Level} {word : String}
    (h : attributeWord? level = some word) :
    readType level = (.ok none, level) := by
  rw [readType, (attributeWord?_eq_some_iff.mp h).1]
  rfl

namespace Attribute

variable {level : Level}

/-- A type is an attribute with what is behind it as its rest. -/
theorem startsAt_type {name : String} (hread : readType level = (.ok (some name), rest)) :
    (type name).StartsAt scope level rest := by
  refine ⟨fun declarator => ?_, by rw [attributeWord?, isTypeKeyword_of_readType hread]; rfl⟩
  unfold applyAttribute
  rw [hread]
  rfl

/-- An INTENT is its word and a list. -/
theorem startsAt_intent {word : String} (hword : attributeWord? level = some "INTENT")
    (hintent : intentAt? level.next = some word) :
    (intent word).StartsAt scope level level.next.next := by
  refine ⟨fun declarator => ?_, hword.symm⟩
  unfold applyAttribute
  rw [readType_of_attributeWord? hword]
  dsimp only
  rw [(attributeWord?_eq_some_iff.mp hword).2, hintent]
  rfl

/-- A DIMENSION is its word and a list. -/
theorem startsAt_dimension {list : Level} (hword : attributeWord? level = some "DIMENSION")
    (hlist : level.next.groupContents? .parenthesis = some list) :
    (dimension list).StartsAt scope level level.next.next := by
  refine ⟨fun declarator => ?_, hword.symm⟩
  unfold applyAttribute
  rw [readType_of_attributeWord? hword]
  dsimp only
  rw [(attributeWord?_eq_some_iff.mp hword).2, hlist]
  rfl

/-- Any other attribute is a word alone. -/
theorem startsAt_word {word : String} {attr : Attribute} (hword : attributeWord? level = some word)
    (hintent : word ≠ "INTENT") (hdimension : word ≠ "DIMENSION") (hattr : attr.word? = some word)
    (hdeferred : attr.isDeferred = false)
    (happly : ∀ declarator, wordAttribute? scope.settings.markers word declarator =
      some (attr.apply scope declarator)) : attr.StartsAt scope level level.next := by
  refine ⟨fun declarator => ?_, hattr.trans hword.symm⟩
  unfold applyAttribute
  rw [readType_of_attributeWord? hword]
  dsimp only
  have hfound := (attributeWord?_eq_some_iff.mp hword).2
  -- The word decides on the branch of the definition: it is neither of the two with a list.
  generalize level.word?.map upperCase = found at hfound
  split
  · cases hfound
  · exact absurd (Option.some.inj hfound).symm hintent
  · exact absurd (Option.some.inj hfound).symm hdimension
  · cases hfound
    rw [bind_of_ok (show (get : Attributing Declarator) declarator = .ok declarator declarator
      from rfl), happly, hdeferred]
    rfl

/-- What is applied is an attribute, and does the same to every declarator. -/
theorem exists_startsAt {declarator changed : Declarator} {deferred : Bool}
    (h : applyAttribute scope level declarator = .ok (some (deferred, rest)) changed) :
    ∃ attr : Attribute, attr.StartsAt scope level rest := by
  unfold applyAttribute at h
  generalize hread : readType level = read at h
  obtain ⟨type, after⟩ := read
  -- A type, or the attribute of the word that stands there, each with what it needs behind it.
  cases type with
  | error fault => cases h
  | ok type =>
    have hkeyword := isTypeKeyword_of_readType hread
    cases type with
    | some name =>
      cases h
      exact ⟨type name, startsAt_type hread⟩
    | none =>
      dsimp only at h
      have hword (word : String) (h : level.word?.map upperCase = some word) :
          attributeWord? level = some word :=
        attributeWord?_eq_some_iff.mpr ⟨hkeyword, h⟩
      generalize level.word?.map upperCase = found at h hword
      split at h
      · cases h
      · cases hintent : intentAt? level.next with
        | none =>
          rw [hintent] at h
          cases h
        | some word =>
          rw [hintent] at h
          cases h
          exact ⟨_, startsAt_intent (hword _ rfl) hintent⟩
      · cases hlist : level.next.groupContents? .parenthesis with
        | none =>
          rw [hlist] at h
          cases h
        | some list =>
          rw [hlist] at h
          cases h
          exact ⟨_, startsAt_dimension (hword _ rfl) hlist⟩
      -- A word alone; what it does to this declarator it does to every one.
      · rename_i word hintent hdimension
        obtain ⟨current, _, hget, h⟩ := bind_apply_eq_ok_iff.mp h
        cases hget
        cases hchanged : wordAttribute? scope.settings.markers word declarator with
        | none =>
          rw [hchanged] at h
          cases h
        | some other =>
          rw [hchanged] at h
          cases h
          obtain ⟨attr, hattr, hdeferred, happly⟩ := exists_attribute_of_wordAttribute? hchanged
          exact ⟨attr, startsAt_word (hword _ rfl) hintent hdimension hattr hdeferred happly⟩

end Attribute

/-! ### Attributes in front of a separator -/

/-- The level starts with what stands behind an attribute: a comma, or the `::` at the end of the
list. -/
def Separates (stop : Level) : Prop :=
  stop.isToken "," = true ∨ stop.isToken "::" = true

namespace Separates

variable (hstop : Separates stop)

include hstop

/-- A separator has no bracket, and no text but its own. -/
theorem exists_cons : ∃ item tail, stop = item :: tail ∧ item.bracket? = none ∧
    (item.value = "," ∨ item.value = "::") := by
  cases stop with
  | nil => exact absurd hstop (by simp [Separates, Level.isToken])
  | cons item tail =>
    refine ⟨item, tail, rfl, ?_⟩
    simp only [Separates, Level.isToken, List.head?_cons, Option.any_some, Item.isToken,
      Bool.and_eq_true, Option.isNone_iff_eq_none, beq_iff_eq] at hstop
    tauto

/-- No bracket stands at a separator. -/
theorem noBracket : stop.NoBracket := by
  obtain ⟨item, tail, rfl, hbracket, -⟩ := hstop.exists_cons
  rintro item ⟨⟩
  exact hbracket

/-- A separator is no `*`. -/
theorem isToken_star (level : Level) : (level ++ stop).isToken "*" = level.isToken "*" := by
  cases level with
  | nil =>
    obtain ⟨item, tail, rfl, hbracket, hvalue⟩ := hstop.exists_cons
    show Item.isToken "*" item = false
    rw [Item.isToken, hbracket]
    rcases hvalue with hvalue | hvalue <;> rw [hvalue] <;> decide
  | cons item rest => rfl

/-- A separator is no word of a type. -/
theorem isTokenAnyCase_precision (level : Level) :
    (level ++ stop).isTokenAnyCase "PRECISION" = level.isTokenAnyCase "PRECISION" := by
  cases level with
  | nil =>
    obtain ⟨item, tail, rfl, hbracket, hvalue⟩ := hstop.exists_cons
    show Item.isTokenAnyCase "PRECISION" item = false
    rw [Item.isTokenAnyCase, hbracket]
    rcases hvalue with hvalue | hvalue <;> rw [hvalue] <;> decide +kernel
  | cons item rest => rfl

/-- A separator is no width. -/
theorem widthOf_value? (keyword : String) (level : Level) :
    (∃ width, widthOf keyword level.value? = .ok width ∧
      widthOf keyword (level ++ stop).value? = .ok width ∧
        level ≠ []) ∨
      ∃ fault fault', widthOf keyword level.value? = .error fault ∧
        widthOf keyword (level ++ stop).value? = .error fault' := by
  cases level with
  | nil =>
    obtain ⟨item, tail, rfl, -, hvalue⟩ := hstop.exists_cons
    have hfault : ∃ fault, widthOf keyword (some item.value) = .error fault := by
      rcases hvalue with hvalue | hvalue <;> exact ⟨_, by rw [hvalue]; rfl⟩
    obtain ⟨fault, hfault⟩ := hfault
    exact .inr ⟨_, fault, rfl, hfault⟩
  | cons item rest =>
    rw [value?_append (List.cons_ne_nil _ _)]
    cases widthOf keyword (Level.value? (item :: rest)) with
    | ok width => exact .inl ⟨width, rfl, rfl, List.cons_ne_nil _ _⟩
    | error fault => exact .inr ⟨fault, fault, rfl, rfl⟩

end Separates

/-- The keyword of a type is read without a look at what is behind the part. -/
theorem keywordAt_append_separator (hstop : Separates stop) (hne : part ≠ []) :
    keywordAt (part ++ stop) = ((keywordAt part).1, (keywordAt part).2 ++ stop) := by
  unfold keywordAt
  dsimp only
  rw [value?_append hne, next_append hne, hstop.isTokenAnyCase_precision]
  split
  · rename_i hdouble
    have hnext : part.next ≠ [] := by
      rintro hnil
      rw [hnil] at hdouble
      cases hdouble.2
    rw [next_append hnext]
  · rfl

/-- The first result is the second one, where more is left, or both are faults. -/
def SameBefore {α : Type} (stop : Level) (first second : Except Fault α × Level) : Prop :=
  match first with
  | (.ok a, rest) => second = (.ok a, rest ++ stop)
  | (.error _, _) => ∃ fault rest, second = (.error fault, rest)

/-- The same result with more behind it. -/
theorem sameBefore_refl {α : Type} (result : Except Fault α) (rest : Level) :
    SameBefore stop (result, rest) (result, rest ++ stop) := by
  cases result with
  | ok a => rfl
  | error fault => exact ⟨fault, rest ++ stop, rfl⟩

/-- A type is read without a look at what separates it from the next attribute. -/
theorem readType_append_separator (hstop : Separates stop) (hne : part ≠ []) :
    SameBefore stop (readType part) (readType (part ++ stop)) := by
  have hkeyword : (part ++ stop).isTypeKeyword = part.isTypeKeyword := by
    rw [isTypeKeyword, isTypeKeyword, head?_append hne]
  unfold readType
  rw [hkeyword, keywordAt_append_separator hstop hne]
  generalize keywordAt part = found
  obtain ⟨keyword, after⟩ := found
  dsimp only
  rw [hstop.isToken_star, Level.groupContents?_append hstop.noBracket]
  -- Along the forms of a type; where something stands behind the keyword, the part goes on there.
  split
  · split
    · rename_i hstar
      have hafter : after ≠ [] := by
        rintro rfl
        cases hstar
      rw [next_append hafter]
      rcases hstop.widthOf_value? keyword after.next with ⟨width, hwidth, hwidth', hnext⟩ |
        ⟨fault, fault', h, h'⟩
      · rw [hwidth, hwidth', next_append hnext]
        exact sameBefore_refl _ _
      · rw [h, h']
        exact ⟨fault', _, rfl⟩
    · split
      · rename_i list hlist
        have hafter : after ≠ [] := by
          rintro rfl
          cases hlist
        rw [next_append hafter]
        split <;> exact sameBefore_refl _ _
      · exact sameBefore_refl _ _
  · exact sameBefore_refl _ _

/-- An attribute is applied without a look at what separates it from the next one. -/
theorem applyAttribute_append_separator (scope : Scope) (hstop : Separates stop) (hne : part ≠ [])
    (declarator : Declarator) :
    Ends (applyAttribute scope part) declarator
      (fun result changed => applyAttribute scope (part ++ stop) declarator =
        .ok (result.map fun found => (found.1, found.2 ++ stop)) changed)
      fun changed => ∃ fault, applyAttribute scope (part ++ stop) declarator =
        .error fault changed := by
  have hread := readType_append_separator hstop hne
  have hword : (part ++ stop).word? = part.word? := by
    rw [word?, word?, bracket?, bracket?, head?_append hne, value?_append hne]
  have hlist : (part ++ stop).next.groupContents? .parenthesis =
      part.next.groupContents? .parenthesis := by
    rw [next_append hne, Level.groupContents?_append hstop.noBracket]
  -- The list of an attribute is the second item of the part, so two steps stay inside of it.
  have hafter {list : Level} (h : part.next.groupContents? .parenthesis = some list) :
      (part ++ stop).next.next = part.next.next ++ stop := by
    rw [next_append hne, next_append]
    rintro hnil
    rw [hnil] at h
    cases h
  unfold applyAttribute
  generalize readType part = found at hread
  obtain ⟨type, rest⟩ := found
  -- Along the branches of the definition, with the same branch taken on both sides.
  cases type with
  -- The fault of a type may quote what follows, so the two faults need not be equal.
  | error fault =>
    obtain ⟨fault', rest', hread⟩ := hread
    rw [hread]
    exact ⟨fault', rfl⟩
  | ok type =>
    have hread : readType (part ++ stop) = (.ok type, rest ++ stop) := hread
    rw [hread]
    cases type with
    | some name => rfl
    | none =>
      dsimp only
      rw [hword, intentAt?, intentAt?, hlist]
      generalize part.word?.map upperCase = word
      split
      · rfl
      · cases hgroup : part.next.groupContents? .parenthesis with
        | none => exact ⟨_, rfl⟩
        | some list =>
          rw [hafter hgroup, Option.bind_eq_bind, Option.bind_some]
          cases list.value?.map upperCase with
          | none => exact ⟨_, rfl⟩
          | some word => rfl
      · cases hgroup : part.next.groupContents? .parenthesis with
        | none => exact ⟨_, rfl⟩
        | some list =>
          rw [hafter hgroup]
          rfl
      · rename_i word _ _
        simp only [ends_bind, ends_get]
        rw [bind_of_ok (show (get : Attributing Declarator) declarator =
          .ok declarator declarator from rfl), next_append hne]
        cases wordAttribute? scope.settings.markers word declarator <;> rfl

/-- The word of an attribute is in its part. -/
theorem attributeWord?_append (hne : part ≠ []) (stop : Level) :
    attributeWord? (part ++ stop) = attributeWord? part := by
  rw [attributeWord?, attributeWord?, isTypeKeyword, isTypeKeyword, word?, word?, bracket?,
    bracket?, head?_append hne, value?_append hne]

namespace Attribute

theorem StartsAt.append {attr : Attribute} (h : attr.StartsAt scope part rest)
    (hstop : Separates stop) (hne : part ≠ []) :
    attr.StartsAt scope (part ++ stop) (rest ++ stop) where
  apply declarator :=
    (ends_of_ok (h.apply declarator)).mp
      (applyAttribute_append_separator scope hstop hne declarator)
  word := h.word.trans (attributeWord?_append hne stop).symm

/-- What is applied in front of a separator is an attribute of the part. -/
theorem exists_startsAt_of_append (hstop : Separates stop) (hne : part ≠ [])
    {declarator changed : Declarator} {deferred : Bool} {after : Level}
    (h : applyAttribute scope (part ++ stop) declarator = .ok (some (deferred, after)) changed) :
    ∃ (attr : Attribute) (rest : Level), attr.StartsAt scope part rest ∧ after = rest ++ stop := by
  have happend := applyAttribute_append_separator scope hstop hne declarator
  unfold Ends at happend
  rw [h] at happend
  -- The part alone gives the same result, so it is an attribute.
  cases hpart : applyAttribute scope part declarator with
  | error fault other =>
    rw [hpart] at happend
    obtain ⟨fault', happend⟩ := happend
    cases happend
  | ok result other =>
    rw [hpart] at happend
    cases result with
    | none => cases happend
    | some found =>
      cases happend
      obtain ⟨attr, hattr⟩ := exists_startsAt hpart
      exact ⟨attr, found.2, hattr, rfl⟩

theorem StartsAt.suffix {attr : Attribute} {level : Level} (h : attr.StartsAt scope level rest) :
    rest <:+ level :=
  ((applyAttribute_passes scope (admits_true level) {}).of_ok (h.apply {}) _ _ rfl).suffix

end Attribute

/-! ### Lists -/

/-- A part of a list of attributes: something without a separator in it. -/
structure IsPart (part : Level) : Prop where
  ne_nil : part ≠ []
  not_separator : ∀ item ∈ part, item.isToken "," = false ∧ item.isToken "::" = false

/-- What stands between the parts of a list of attributes, and at its end, in whatever roles. -/
structure Separators where
  comma : Item := .token "," {}
  colons : Item := .token "::" {}
  isToken_comma : comma.isToken "," = true := by decide
  isToken_colons : colons.isToken "::" = true := by decide

variable (separators : Separators)

/-- A comma separates. -/
theorem Separators.isToken_comma_cons (rest : Level) :
    isToken (separators.comma :: rest) "," = true :=
  separators.isToken_comma

theorem Separators.isToken_colons_cons (rest : Level) :
    isToken (separators.colons :: rest) "::" = true ∧
      ¬ isToken (separators.colons :: rest) "," = true :=
  have hcolons : isToken (separators.colons :: rest) "::" = true := separators.isToken_colons
  ⟨hcolons, Bool.eq_false_iff.mp (isToken_eq_false_of_isToken hcolons (by decide))⟩

/-- The parts with commas between them, and what stands behind their `::`. -/
def attributeList (parts : List Level) (rest : Level) : Level :=
  [separators.comma].intercalate parts ++ separators.colons :: rest

/-- The declarator with one attribute after the other. -/
def applyAll (scope : Scope) (attributes : List Attribute) (declarator : Declarator) : Declarator :=
  attributes.foldl (fun declarator attr => attr.apply scope declarator) declarator

/-- The declarator with a list of attributes, in which a rank of pointers takes the place of a
reference. -/
def withAttributes (scope : Scope) (attributes : List Attribute) (declarator : Declarator) :
    Declarator :=
  let changed := applyAll scope attributes declarator
  if attributes.any Attribute.isDeferred then
    { changed with right := changed.right.remove "&" } else changed

/-- A list of one part is the part and the `::`. -/
theorem attributeList_singleton (part rest : Level) :
    attributeList separators [part] rest = part ++ separators.colons :: rest := by
  rw [attributeList, List.intercalate_singleton]

/-- A list of more parts has a comma behind the first one. -/
theorem attributeList_cons (part : Level) {parts : List Level} (h : parts ≠ []) (rest : Level) :
    attributeList separators (part :: parts) rest =
      part ++ separators.comma :: attributeList separators parts rest := by
  rw [attributeList, List.intercalate_cons_of_ne_nil h, List.append_assoc, List.append_assoc]
  rfl

/-- What is behind the `::` is shorter than the list. -/
theorem length_lt_attributeList (parts : List Level) (rest : Level) :
    rest.length < (attributeList separators parts rest).length := by
  rw [attributeList, List.length_append, List.length_cons]
  omega

/-- The parts of a list in front of what separates the first one from the others. -/
theorem exists_attributeList_cons (part : Level) (parts : List Level) (rest : Level) :
    ∃ stop, Separates stop ∧ attributeList separators (part :: parts) rest = part ++ stop ∧
      rest.length < stop.length ∧
      (stop.isToken "," = true → stop.next = attributeList separators parts rest) ∧
      (stop.isToken "," = false → parts = []) := by
  by_cases h : parts = []
  · subst h
    obtain ⟨hcolons, hcomma⟩ := separators.isToken_colons_cons rest
    exact ⟨separators.colons :: rest, .inr hcolons, attributeList_singleton separators part rest,
      Nat.lt_succ_self _, fun h => absurd h hcomma, fun _ => rfl⟩
  · have hcomma := separators.isToken_comma_cons (attributeList separators parts rest)
    exact ⟨separators.comma :: attributeList separators parts rest, .inl hcomma,
      attributeList_cons separators part h rest,
      Nat.lt_succ_of_lt (length_lt_attributeList separators parts rest),
      fun _ => rfl, fun h => absurd hcomma (Bool.eq_false_iff.mp h)⟩

variable {separators}

/-- The loop does not end in front of a part. -/
theorem IsPart.goesOn (h : IsPart part) (stop : Level) :
    ¬ (part ++ stop).atEnd = true ∧ ¬ (part ++ stop).isToken "::" = true := by
  rw [isToken_append h.ne_nil]
  obtain ⟨item, rest, rfl⟩ := List.exists_cons_of_ne_nil h.ne_nil
  exact ⟨Bool.false_ne_true, Bool.eq_false_iff.mp (h.not_separator item List.mem_cons_self).2⟩

/-- After an attribute the loop goes on behind a comma, and ends at anything else. -/
theorem applyAttributes_of_startsAt {attr : Attribute} (hpart : IsPart part)
    (h : attr.StartsAt scope part rest) (hstop : Separates stop) (deferred : Bool)
    (declarator : Declarator) :
    applyAttributes scope deferred (part ++ stop) declarator =
      (if (rest ++ stop).isToken "," then
        applyAttributes scope (deferred || attr.isDeferred) (rest ++ stop).next
      else
        pure (deferred || attr.isDeferred,
          if (rest ++ stop).isToken "::" then (rest ++ stop).next else rest ++ stop))
        (attr.apply scope declarator) := by
  obtain ⟨hend, hcolons⟩ := hpart.goesOn stop
  have hshorter : (rest ++ stop).next.length < (part ++ stop).length := by
    have hsuffix := h.suffix.length_le
    obtain ⟨item, tail, rfl, -⟩ := hstop.exists_cons
    simp only [Level.next, List.length_tail, List.length_append, List.length_cons] at hsuffix ⊢
    omega
  rw [applyAttributes, if_neg hend, if_neg hcolons,
    bind_of_ok ((h.append hstop hpart.ne_nil).apply declarator)]
  dsimp only
  by_cases hcomma : (rest ++ stop).isToken "," = true
  · rw [if_pos ⟨hcomma, hshorter⟩, if_pos hcomma]
  · rw [if_neg fun h => hcomma h.1, if_neg hcomma]

/-- A list that consists of attributes is read up to its `::`. -/
theorem applyAttributes_attributeList {attributes : List Attribute} {parts : List Level}
    (h : List.Forall₂ (Attribute.IsWritten scope) attributes parts)
    (hparts : ∀ part ∈ parts, IsPart part) (rest : Level) (deferred : Bool)
    (declarator : Declarator) :
    applyAttributes scope deferred (attributeList separators parts rest) declarator =
      .ok (deferred || attributes.any Attribute.isDeferred, rest)
        (applyAll scope attributes declarator) := by
  -- Part by part; the flag of a deferred list and the declarator are handed on.
  induction h generalizing deferred declarator with
  | nil =>
    have hend : ¬ Level.atEnd (separators.colons :: rest) = true := Bool.false_ne_true
    rw [List.any_nil, Bool.or_false, attributeList, List.intercalate_nil, List.nil_append,
      applyAttributes, if_neg hend, if_pos (separators.isToken_colons_cons rest).1]
    rfl
  | @cons attr part attributes parts hattr hall ih =>
    rw [List.forall_mem_cons] at hparts
    rw [List.any_cons, ← Bool.or_assoc]
    -- Behind the last part stands the `::`, behind any other one a comma.
    cases parts with
    | nil =>
      cases hall
      obtain ⟨hcolons, hcomma⟩ := separators.isToken_colons_cons rest
      rw [attributeList_singleton, applyAttributes_of_startsAt hparts.1 hattr (.inr hcolons),
        List.nil_append, if_neg hcomma, if_pos hcolons, List.any_nil, Bool.or_false]
      rfl
    | cons next parts =>
      have hcomma := separators.isToken_comma_cons (attributeList separators (next :: parts) rest)
      rw [attributeList_cons separators part (List.cons_ne_nil _ _),
        applyAttributes_of_startsAt hparts.1 hattr (.inl hcomma), List.nil_append, if_pos hcomma]
      exact ih hparts.2 (deferred || attr.isDeferred) (attr.apply scope declarator)

/-- What is read up to its `::` consists of attributes. -/
theorem exists_isWritten_of_applyAttributes {parts : List Level}
    (hparts : ∀ part ∈ parts, IsPart part) {deferred deferred' : Bool}
    {declarator changed : Declarator}
    (h : applyAttributes scope deferred (attributeList separators parts rest) declarator =
      .ok (deferred', rest) changed) :
    ∃ attributes, List.Forall₂ (Attribute.IsWritten scope) attributes parts := by
  -- Part by part; a part that is no attribute would end the loop before the `::`.
  induction parts generalizing deferred declarator with
  | nil => exact ⟨[], .nil⟩
  | cons part parts ih =>
    rw [List.forall_mem_cons] at hparts
    obtain ⟨stop, hstop, hlist, hlength, hnext, hlast⟩ :=
      exists_attributeList_cons separators part parts rest
    obtain ⟨hend, hcolons⟩ := hparts.1.goesOn stop
    -- What is left in front of a separator is longer than what is behind the `::`.
    have hne (front : Level) : front ++ stop ≠ rest := by
      intro h
      have := congrArg List.length h
      rw [List.length_append] at this
      omega
    rw [hlist] at h
    have hstep := h
    rw [applyAttributes, if_neg hend, if_neg hcolons] at hstep
    obtain ⟨result, middle, happly, hstep⟩ := bind_apply_eq_ok_iff.mp hstep
    cases result with
    | none =>
      cases hstep
      exact absurd rfl (hne part)
    | some found =>
      obtain ⟨attr, left, hattr, -⟩ :=
        Attribute.exists_startsAt_of_append hstop hparts.1.ne_nil happly
      rw [applyAttributes_of_startsAt hparts.1 hattr hstop] at h
      cases left with
      | nil =>
        -- The attribute is all of the part.
        rw [List.nil_append] at h
        split at h
        · rename_i hcomma
          rw [hnext hcomma] at h
          obtain ⟨attributes, hattributes⟩ := ih hparts.2 h
          exact ⟨attr :: attributes, .cons hattr hattributes⟩
        · rename_i hcomma
          rw [hlast (Bool.eq_false_iff.mpr hcomma)]
          exact ⟨[attr], .cons hattr .nil⟩
      | cons item left =>
        -- The loop ends within the part.
        have hitem := hparts.1.not_separator item (hattr.suffix.subset List.mem_cons_self)
        have hcomma : ¬ isToken (item :: left) "," = true := Bool.eq_false_iff.mp hitem.1
        have hcolons : ¬ isToken (item :: left) "::" = true := Bool.eq_false_iff.mp hitem.2
        rw [isToken_append (List.cons_ne_nil _ _), isToken_append (List.cons_ne_nil _ _),
          if_neg hcomma, if_neg hcolons] at h
        cases h
        exact absurd rfl (hne (item :: left))

/-- A list of attributes is read up to its `::` where each part is an attribute, and then the
declarator has one after the other. -/
theorem readAttributes_attributeList_iff {parts : List Level} (hparts : ∀ part ∈ parts, IsPart part)
    {declarator changed : Declarator} :
    readAttributes scope (attributeList separators parts rest) declarator = .ok rest changed ↔
      ∃ attributes, List.Forall₂ (Attribute.IsWritten scope) attributes parts ∧
        changed = withAttributes scope attributes declarator := by
  -- A list of attributes has one result, so the other direction follows from it.
  have hread (attributes : List Attribute)
    (h : List.Forall₂ (Attribute.IsWritten scope) attributes parts) :
      readAttributes scope (attributeList separators parts rest) declarator =
        .ok rest (withAttributes scope attributes declarator) := by
    unfold readAttributes withAttributes
    rw [bind_of_ok (applyAttributes_attributeList h hparts rest false declarator), Bool.false_or]
    dsimp only
    split <;> rfl
  constructor
  · intro h
    have happly := h
    unfold readAttributes at happly
    obtain ⟨⟨deferred, after⟩, middle, happly, hafter⟩ := bind_apply_eq_ok_iff.mp happly
    obtain rfl : after = rest := by cases deferred <;> cases hafter <;> rfl
    obtain ⟨attributes, hattributes⟩ := exists_isWritten_of_applyAttributes hparts happly
    rw [hread attributes hattributes] at h
    cases h
    exact ⟨attributes, hattributes, rfl⟩
  · rintro ⟨attributes, hattributes, rfl⟩
    exact hread attributes hattributes

/-- A list of attributes is accepted where each part is an attribute. -/
theorem exists_readAttributes_iff {parts : List Level} (hparts : ∀ part ∈ parts, IsPart part)
    (declarator : Declarator) :
    (∃ changed, readAttributes scope (attributeList separators parts rest) declarator =
      .ok rest changed) ↔ ∀ part ∈ parts, ∃ attr : Attribute, attr.IsWritten scope part := by
  have hall : (∃ attributes, List.Forall₂ (Attribute.IsWritten scope) attributes parts) ↔
      ∀ part ∈ parts, ∃ attr : Attribute, attr.IsWritten scope part := by
    clear hparts
    -- An attribute for each part is the same as a list of attributes.
    induction parts with
    | nil => exact ⟨fun _ => List.forall_mem_nil _, fun _ => ⟨[], .nil⟩⟩
    | cons part parts ih =>
      rw [List.forall_mem_cons, ← ih]
      constructor
      · rintro ⟨_, h⟩
        obtain ⟨attr, attributes, hattr, hattributes, rfl⟩ := List.forall₂_cons_right_iff.mp h
        exact ⟨⟨attr, hattr⟩, attributes, hattributes⟩
      · rintro ⟨⟨attr, hattr⟩, attributes, hattributes⟩
        exact ⟨attr :: attributes, .cons hattr hattributes⟩
  rw [← hall]
  constructor
  · rintro ⟨changed, h⟩
    obtain ⟨attributes, hattributes, -⟩ := (readAttributes_attributeList_iff hparts).mp h
    exact ⟨attributes, hattributes⟩
  · rintro ⟨attributes, hattributes⟩
    exact ⟨_, (readAttributes_attributeList_iff hparts).mpr ⟨attributes, hattributes, rfl⟩⟩

end CommonDecl.Fortran
