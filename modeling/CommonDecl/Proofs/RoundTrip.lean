import CommonDecl.Proofs.Cores
import CommonDecl.Proofs.References
import Mathlib

/-!
# Declarators that are read and written again

A declarator of the grammar is read to its end, and its text is cut into the tokens that it was read
from (`Declarator.ofText_render`).
-/

namespace CommonDecl

open TokenTree (items)

variable {scope : Scope} {known : String → Bool} {rolesOf : Token → Roles}

namespace Declarator

/-! ### The type -/

/-- A declarator is its type, its qualifiers and what is read of the part after them. -/
theorem read_of_core {level core rest : Level} {declarator : Declarator} (left right : Qualifiers)
    (hleft : level.leftQualifiers = left)
    (hright : (afterType scope level.afterLeftQualifiers).qualifiers = right)
    (hafter : (afterType scope level.afterLeftQualifiers).afterQualifiers = core)
    (hcore : read scope (some {}) {} core = .ok (declarator, rest)) :
    read scope none {} level =
      .ok ({ declarator with left, right, base := typeAt? scope level.afterLeftQualifiers },
        rest) := by
  subst hleft hright hafter
  rw [read_eq_core]
  show _ <$> read scope (some {}) {} (afterType scope level.afterLeftQualifiers).afterQualifiers = _
  rw [hcore]
  show Except.ok _ = _
  unfold readType
  dsimp only
  rw [Option.or_none]
  rfl

/-- A level is read as the qualifiers it starts with, the type where one stands after them, the
qualifiers of that and the part after those. -/
theorem read_ofMarks {left : List String} (right : List String) {type : Option TypeRef}
    {rest core stop : Level} {declarator : Declarator}
    (hleft : ∀ item ∈ Level.ofMarks left, Level.isLeftQualifier item = true)
    (hrest : ∀ item ∈ rest.head?, Level.isLeftQualifier item = false)
    (htype : typeAt? scope rest = type)
    (hafter : (if type.isSome then rest.next else rest) = Level.ofMarks right ++ core)
    (hcore : NoQualifier core) (hread : read scope (some {}) {} core = .ok (declarator, stop)) :
    read scope none {} (Level.ofMarks left ++ rest) =
      .ok ({ declarator with left := ⟨left⟩, right := ⟨right⟩, base := type }, stop) := by
  have hafterLeft : Level.afterLeftQualifiers (Level.ofMarks left ++ rest) = rest :=
    Level.dropWhile_append_eq hleft hrest
  have hqualifiers : Level.leftQualifiers (Level.ofMarks left ++ rest) = ⟨left⟩ := by
    rw [Level.leftQualifiers, Level.takeWhile_append_eq hleft hrest]
    simp [Level.ofMarks, Item.value, Function.comp_def]
  have hafterType : afterType scope rest = Level.ofMarks right ++ core := by
    rw [← hafter, afterType, htype]
  have hlevel := read_of_core ⟨left⟩ ⟨right⟩ hqualifiers
    (by rw [hafterLeft, hafterType, Level.qualifiers_ofMarks right hcore])
    (by rw [hafterLeft, hafterType, Level.afterQualifiers_ofMarks right hcore]) hread
  rwa [hafterLeft, htype] at hlevel

/-! ### The text -/

/-- Qualifiers and the part after them. -/
theorem writes_afterType {declarator : Declarator} {right : List String} {core : List TokenTree}
    (hright : AreMarks scope right) (hname : ∀ text ∈ declarator.name, IsWord text)
    (hcore : ∀ spaced, Writes (scope.keywords .c) known (coreText spaced declarator) core)
    (spaced : Bool) :
    Writes (scope.keywords .c) known
      ((⟨right⟩ : Qualifiers).leadingText ++ coreText spaced declarator)
      (TokenTree.marks right ++ core) :=
  (writes_leadingText hright).append (hcore spaced)
    (apart_leadingText hright (unlinked_coreText spaced hname))

/-- A declarator without a base type writes its qualifiers and the part after them. -/
theorem writes_render_of_none {declarator : Declarator} {left right : List String}
    {core : List TokenTree} (hleft : ∀ text ∈ left, IsQualifierWord scope text)
    (hright : AreMarks scope right) (hname : ∀ text ∈ declarator.name, IsWord text)
    (hcore : ∀ spaced, Writes (scope.keywords .c) known (coreText spaced declarator) core) :
    Writes (scope.keywords .c) known
      (render true { declarator with left := ⟨left⟩, right := ⟨right⟩, base := none })
      (TokenTree.marks left ++ (TokenTree.marks right ++ core)) := by
  rw [render_eq, if_pos rfl]
  refine Writes.trimEnd ?_
  unfold typeText
  dsimp only
  rw [String.append_empty, String.append_assoc]
  exact (writes_leadingText (areMarks_of_words hleft)).append
    (writes_afterType hright hname hcore _) (apart_leftText hleft _)

/-- A declarator with a base type writes its qualifiers, the type and the part after them. -/
theorem writes_render_of_some {declarator : Declarator} {left right : List String} {ref : TypeRef}
    {base core : List TokenTree} (hleft : ∀ text ∈ left, IsQualifierWord scope text)
    (hbase : Writes (scope.keywords .c) known ref.name base) (hright : AreMarks scope right)
    (hname : ∀ text ∈ declarator.name, IsWord text)
    (hcore : ∀ spaced, Writes (scope.keywords .c) known (coreText spaced declarator) core)
    (hapart : right ≠ [] → declarator.kind.isFunction = true →
      (⟨right⟩ : Qualifiers).endsInPointer = true →
        Apart ref.name (⟨right⟩ : Qualifiers).leadingText) :
    Writes (scope.keywords .c) known
      (render true { declarator with left := ⟨left⟩, right := ⟨right⟩, base := some ref })
      (TokenTree.marks left ++ (base ++ (TokenTree.marks right ++ core))) := by
  rw [render_eq, if_pos rfl]
  refine Writes.trimEnd ?_
  have hrest := writes_afterType hright hname hcore
  unfold typeText
  dsimp only
  rw [String.append_assoc, String.append_assoc, Bool.true_and]
  refine (writes_leadingText (areMarks_of_words hleft)).append ?_ (apart_leftText hleft _)
  -- A space stands behind the type, or the qualifiers follow it at once.
  split
  · rename_i hspaced
    rw [hspaced, String.append_empty]
    refine hbase.append (hrest true) ?_
    simp only [spaceBeforeName, Bool.or_eq_true, Bool.and_eq_true] at hspaced
    -- Without a space the type is followed by the core of a declarator without a name, or by a
    -- pointer of a function.
    by_cases hempty : right = []
    · subst hempty
      have hnone : declarator.name = none := by
        simpa [Qualifiers.endsInPointer, Qualifiers.last?, Qualifiers.isEmpty] using hspaced
      have hfree : Free (coreText true declarator) := free_coreText (Or.inr hnone)
      refine apart_of_right ?_
      rwa [show (⟨[]⟩ : Qualifiers).leadingText = "" from rfl, String.empty_append]
    · have hpointer : declarator.kind.isFunction = true ∧
          (⟨right⟩ : Qualifiers).endsInPointer = true := by
        simpa [Qualifiers.isEmpty, hempty] using hspaced
      refine apart_append_right (hapart hempty hpointer.1 hpointer.2) ?_
      exact leadingText_ne_nil hright hempty
  · exact hbase.append_space.append (hrest _) (apart_after_space _ _)

/-! ### Entries -/

/-- Left qualifiers are read as the marks that they are. -/
theorem items_leftMarks (hroles : Respects scope rolesOf) {left : List String}
    (hleft : ∀ text ∈ left, IsQualifierWord scope text) :
    items rolesOf (TokenTree.marks left) = Level.ofMarks left :=
  TokenTree.items_marks hroles fun text htext => Or.inr (Or.inr (hleft text htext))

theorem head_leftMarks {left : List String} (hleft : ∀ text ∈ left, IsQualifierWord scope text)
    {symbol : String} (hsymbol : ¬ IsWord symbol) :
    ∀ item ∈ (Level.ofMarks left).head?, item.isToken symbol = false := by
  intro item hitem
  obtain ⟨text, htext, rfl⟩ := List.mem_map.mp (List.mem_of_mem_head? hitem)
  exact isToken_of_value_ne fun heq => hsymbol (heq ▸ (hleft text htext).isWord)

/-- A pointer is no left qualifier. -/
theorem head_pointer {right : List String}
    (h : right = [] ∨ right.head?.any isPointerMarker = true) :
    ∀ item ∈ (Level.ofMarks right).head?, Level.isLeftQualifier item = false := by
  intro item hitem
  cases right with
  | nil => cases hitem
  | cons first rest =>
    obtain rfl : Item.token first { isQualifier := true } = item := by
      simpa [Level.ofMarks] using hitem
    have hpointer : isPointerMarker first = true := by simpa using h
    simp [Level.isLeftQualifier, Item.value, hpointer]

/-- No type stands where the first token does not name one. -/
theorem typeAt?_of_head {level : Level}
    (h : ∀ item ∈ level.head?, item.bracket? = none → scope.lookup item.value = none) :
    typeAt? scope level = none := by
  cases level with
  | nil => rfl
  | cons item rest =>
    show (if item.bracket?.isNone then some item.value else none) >>= scope.lookup = none
    split
    · rename_i hbracket
      exact h item rfl (Option.isNone_iff_eq_none.mp hbracket)
    · rfl

/-- A declarator with a base type. -/
theorem readsEntry_typed (hroles : Respects scope rolesOf) {left right : List String}
    {base : String} {name : Option String} {endsInArguments : Bool} {core : List TokenTree}
    (hleft : ∀ text ∈ left, IsQualifierWord scope text) (hbase : IsTypeWord scope base)
    (hright : AreMarks scope right)
    (hcore : ReadsCore scope known rolesOf name endsInArguments core)
    (harguments : endsInArguments = true → right = [] ∨ right.head?.any isPointerMarker = true ∨
      right.getLast?.any isPointerMarker = false) :
    ReadsEntry scope known rolesOf true
      (TokenTree.marks left ++ [TokenTree.word scope known base] ++
        TokenTree.marks right ++ core) := by
  obtain ⟨roles, hnotQualifier, -, hitem⟩ : ∃ roles : Roles, roles.isQualifier = false ∧
      (roles.isIdentifier || roles.isTypeKeyword) = true ∧
        TokenTree.item rolesOf (TokenTree.word scope known base) = .token base roles :=
    TokenTree.item_word hroles hbase.toIsFreeWord
  have hitems : items rolesOf (TokenTree.marks left ++ [TokenTree.word scope known base] ++
      TokenTree.marks right ++ core) =
      Level.ofMarks left ++ (.token base roles :: (Level.ofMarks right ++ items rolesOf core)) := by
    rw [TokenTree.items_append, TokenTree.items_append, TokenTree.items_append,
      items_leftMarks hroles hleft, TokenTree.items_marks hroles hright.each,
      ← List.append_nil (items rolesOf [_]), items_singleton_append, hitem]
    simp
  constructor
  case ne_nil => simp
  case not_star =>
    rw [hitems]
    refine isToken_of_head (forall_head_append (head_leftMarks hleft (by decide)) ?_)
    rintro item ⟨⟩
    exact isToken_of_value_ne hbase.isWord.ne_star
  case exists_read =>
    intro stop hstop _
    obtain ⟨declarator, hread, hname, hkind, htext⟩ := hcore.exists_read stop hstop
    obtain ⟨ref, href⟩ := Option.isSome_iff_exists.mp hbase.knows
    have hnoQualifier : NoQualifier (items rolesOf core ++ stop) :=
      forall_head_append hcore.noQualifier hstop.noQualifier
    -- The left qualifiers end at the base type, and the right ones at the core.
    have hnoLeft : ∀ item ∈ (.token base roles ::
        (Level.ofMarks right ++ (items rolesOf core ++ stop)) : Level).head?,
        Level.isLeftQualifier item = false := by
      rintro item ⟨⟩
      rw [Level.isLeftQualifier, Item.roles, hnotQualifier]
      rfl
    have htype : typeAt? scope (.token base roles ::
        (Level.ofMarks right ++ (items rolesOf core ++ stop))) = some ref := href
    have hlevel :=
      read_ofMarks right (Level.items_leftQualifier hleft) hnoLeft htype rfl hnoQualifier hread
    obtain rfl : base = ref.name := (Scope.names_of_lookup href).2.symm
    have hword : ∀ text ∈ declarator.name, IsWord text := by
      rw [hname]
      exact hcore.isWord
    -- The text of a function has no space behind the type, so its first qualifier must not be a
    -- word.
    have hapart : right ≠ [] → declarator.kind.isFunction = true →
        (⟨right⟩ : Qualifiers).endsInPointer = true →
          Apart ref.name (⟨right⟩ : Qualifiers).leadingText := by
      intro hne hfunction hends
      refine hbase.isWord.apart_leadingText hright ?_
      rcases harguments (hkind.symm.trans hfunction) with hnil | hpointer | hlast
      · exact absurd hnil hne
      · exact hpointer
      · rw [Qualifiers.endsInPointer, Qualifiers.last?, hlast] at hends
        cases hends
    have hrender := writes_render_of_some hleft hbase.isWord.writes hright hword htext hapart
    refine ⟨_, by rw [hitems]; simpa using hlevel, ?_⟩
    simpa only [List.append_assoc] using hrender

/-- A declarator that leaves its base type out. Where `*` or `&` names a type, the first pointer is
read as the base type, which is written in the same place. -/
theorem readsEntry_untyped (hroles : Respects scope rolesOf) {left right : List String}
    {name : Option String} {endsInArguments : Bool} {core : List TokenTree}
    (hleft : ∀ text ∈ left, IsQualifierWord scope text) (hne : left ≠ [])
    (hright : AreMarks scope right) (hstart : right = [] ∨ right.head?.any isPointerMarker = true)
    (hfresh : ∀ text ∈ name, scope.knows text = false)
    (hcore : ReadsCore scope known rolesOf name endsInArguments core) :
    ReadsEntry scope known rolesOf false
      (TokenTree.marks left ++ TokenTree.marks right ++ core) := by
  have hitems : items rolesOf (TokenTree.marks left ++ TokenTree.marks right ++ core) =
      Level.ofMarks left ++ (Level.ofMarks right ++ items rolesOf core) := by
    rw [TokenTree.items_append, TokenTree.items_append, items_leftMarks hroles hleft,
      TokenTree.items_marks hroles hright.each, List.append_assoc]
  constructor
  case ne_nil => simp [TokenTree.marks, hne]
  case not_star =>
    rw [hitems]
    obtain ⟨first, rest, rfl⟩ := List.exists_cons_of_ne_nil hne
    refine isToken_of_head ?_
    rintro item ⟨⟩
    exact isToken_of_value_ne (hleft first List.mem_cons_self).isWord.ne_star
  case exists_read =>
    intro stop hstop hlookup
    obtain ⟨declarator, hread, hname, -, htext⟩ := hcore.exists_read stop hstop
    have hnoQualifier : NoQualifier (items rolesOf core ++ stop) :=
      forall_head_append hcore.noQualifier hstop.noQualifier
    have hword : ∀ text ∈ declarator.name, IsWord text := by
      rw [hname]
      exact hcore.isWord
    have hnoLeft : ∀ item ∈ (Level.ofMarks right ++ (items rolesOf core ++ stop) : Level).head?,
        Level.isLeftQualifier item = false :=
      forall_head_append (head_pointer hstart) hnoQualifier.isLeftQualifier
    have hmarks := Level.items_leftQualifier hleft
    rw [hitems, List.append_assoc, List.append_assoc]
    -- Where no type is named the qualifiers are all there is; otherwise it is named by a pointer or
    -- by the core.
    cases htype : typeAt? scope (Level.ofMarks right ++ (items rolesOf core ++ stop)) with
    | none =>
      have hlevel := read_ofMarks right hmarks hnoLeft htype rfl hnoQualifier hread
      refine ⟨_, hlevel, ?_⟩
      rw [List.append_assoc]
      exact writes_render_of_none hleft hright hword htext
    | some ref =>
      cases right with
      | nil =>
        -- The core starts with a name that is fresh, or with a group.
        have hnone : typeAt? scope (items rolesOf core ++ stop) = none := by
          refine typeAt?_of_head (forall_head_append ?_ fun item hitem _ => hlookup rfl item hitem)
          intro item hitem hbracket
          exact Scope.lookup_of_not_knows (hfresh _ (hcore.eq_name_of_head item hitem hbracket))
        rw [show Level.ofMarks [] ++ (items rolesOf core ++ stop) =
          items rolesOf core ++ stop from rfl, hnone] at htype
        cases htype
      | cons first rest =>
        have hfirst : IsMark scope first := hright.each first List.mem_cons_self
        have hrest : AreMarks scope rest :=
          ⟨fun text h => hright.each text (List.mem_cons_of_mem _ h), hright.apart.tail⟩
        have hpointer : isPointerMarker first = true := by simpa using hstart
        have hlookupFirst : scope.lookup first = some ref := htype
        obtain rfl : first = ref.name := (Scope.names_of_lookup hlookupFirst).2.symm
        -- The first pointer is the base type, and the others are the qualifiers behind it.
        have hlevel := read_ofMarks rest hmarks hnoLeft htype rfl hnoQualifier hread
        refine ⟨_, hlevel, ?_⟩
        have hrender := writes_render_of_some hleft hfirst.writes hrest hword htext
          fun hne _ _ => by
            obtain ⟨next, rest, rfl⟩ := List.exists_cons_of_ne_nil hne
            have hnext : IsMark scope next := hrest.each next List.mem_cons_self
            exact apart_leadingText_of_head
              (hfirst.apart hpointer hnext (List.IsChain.rel hright.apart)) hnext.ne_empty
        rw [List.append_assoc]
        exact hrender

/-- Where only a name or nothing stands before the end, nothing else is read. -/
theorem read_of_name {level stop : Level} (hnoQualifier : NoQualifier level)
    (hgroup : Level.NoGroup .parenthesis level) (hafter : afterName level = stop)
    (hstop : Stops stop) :
    read scope (some {}) {} level =
      .ok ({ name := if atName level then level.value? else none }, stop) := by
  have hdepth : nestsAt level = 0 := nestsAt_of_none (Level.groupContents?_of_noGroup hgroup)
  have hkind : kindAt 0 level = .variable := by
    refine kindAt_of_noGroup ?_
    rw [hafter]
    exact Level.noGroup_of_stops hstop _
  have hsquare := Level.noGroup_of_stops hstop .square
  rw [read_of_not_isFunction hnoQualifier hdepth (readNests_zero scope level) hkind, readName,
    afterNests, if_pos rfl, hafter, Level.dimensions_of_noGroup hsquare,
    Level.afterDimensions_of_noGroup hsquare]
  rfl

theorem render_ofBase (ref : TypeRef) : render true (ofBase ref) = Text.trimEnd ref.name := by
  rw [render_eq]
  simp [ofBase, typeText, spaceBeforeName, Qualifiers.isEmpty, Qualifiers.leadingText,
    Qualifiers.last?, Qualifiers.text, coreText, nestText, innerText, dimensionsText,
    DeclaratorKind.isFunction]

/-- An ellipsis is read as a qualifier, as a type or as a name, whichever it is in the scope. -/
theorem readsEntry_ellipsis (hroles : Respects scope rolesOf) :
    ReadsEntry scope known rolesOf false [TokenTree.symbol scope known "..."] := by
  have hwrites : Writes (scope.keywords .c) known "..." [TokenTree.symbol scope known "..."] :=
    writes_symbol (by decide)
  have hitems : items rolesOf [TokenTree.symbol scope known "..."] =
      [.token "..." { isQualifier := (scope.keywords .c).isQualifier "..." }] := by
    rw [← List.append_nil (items rolesOf [_]), items_singleton_append, TokenTree.item_symbol hroles]
  constructor
  case ne_nil => simp
  case not_star =>
    rw [hitems]
    rfl
  case exists_read =>
    intro stop hstop hlookup
    rw [hitems, List.singleton_append]
    have hstopType : typeAt? scope stop = none := typeAt?_of_head fun item hitem _ =>
      hlookup rfl item hitem
    have hafterStop : afterName stop = stop := by
      rw [afterName, if_neg (by simp [atName_of_noName (noName_of_stops hstop)])]
    have hread : read scope (some {}) {} stop =
        .ok ({ name := if atName stop then Level.value? stop else none }, stop) :=
      read_of_name hstop.noQualifier (Level.noGroup_of_stops hstop _) hafterStop hstop
    rw [if_neg (by simp [atName_of_noName (noName_of_stops hstop)])] at hread
    -- As a qualifier it stands left of a declarator without a type.
    cases hqualifier : (scope.keywords .c).isQualifier "..." with
    | true =>
      have hmark : ∀ item ∈ Level.ofMarks ["..."], Level.isLeftQualifier item = true := by
        rintro item (_ | ⟨_, ⟨⟩⟩)
        decide
      have hlevel := read_ofMarks [] hmark hstop.noQualifier.isLeftQualifier hstopType rfl
        hstop.noQualifier hread
      exact ⟨_, hlevel, hwrites⟩
    | false =>
      have hnoQualifier : NoQualifier (.token "..." { isQualifier := false } :: stop) := by
        rintro item ⟨⟩
        rfl
      have hgroup : Level.NoGroup .parenthesis (.token "..." { isQualifier := false } :: stop) := by
        rintro item ⟨⟩
        rfl
      have hnone : ∀ item ∈ Level.ofMarks [], Level.isLeftQualifier item = true :=
        List.forall_mem_nil _
      -- Otherwise it is the name of the argument, or its type if there is one of that name.
      cases hlookup : scope.lookup "..." with
      | none =>
        have hname : read scope (some {}) {} (.token "..." { isQualifier := false } :: stop) =
            .ok ({ name := some "..." }, stop) := read_of_name hnoQualifier hgroup rfl hstop
        have hlevel :=
          read_ofMarks [] hnone hnoQualifier.isLeftQualifier hlookup rfl hnoQualifier hname
        exact ⟨_, hlevel, hwrites⟩
      | some ref =>
        have hlevel :=
          read_ofMarks [] hnone hnoQualifier.isLeftQualifier hlookup rfl hstop.noQualifier hread
        refine ⟨ofBase ref, hlevel, ?_⟩
        rw [render_ofBase, (Scope.names_of_lookup hlookup).2]
        exact hwrites.trimEnd

/-! ### Arguments -/

theorem readArguments_nil (scope : Scope) : readArguments scope [] = .ok [] := by
  rw [readArguments]
  rfl

/-- Arguments are read one after the other. -/
theorem readArguments_of_read {level rest : Level} {argument : Declarator}
    {arguments : List Declarator} (hread : read scope none {} level = .ok (argument, rest))
    (hne : level ≠ []) (hweight : (rest.skipPast ",").weight < level.weight)
    (hrest : readArguments scope (rest.skipPast ",") = .ok arguments) :
    readArguments scope level = .ok (argument :: arguments) := by
  rw [readArguments, if_neg (by simpa [Level.atEnd] using hne), hread]
  dsimp only [bind, Except.bind]
  rw [if_pos hweight, hrest]
  rfl

/-- What follows an item is lighter than a level that ends in both. -/
theorem weight_lt_of_cons_suffix {item : Item} {rest level : Level} (h : item :: rest <:+ level) :
    rest.weight < level.weight := by
  have hle := Level.weight_le_of_suffix h
  have hpos := Item.weight_pos item
  rw [Level.weight_cons] at hle
  omega

/-- Nothing of a declarator goes on at a comma. -/
theorem stops_comma (hcomma : scope.Plain ",") (rest : Level) :
    Stops (.token "," { isQualifier := (scope.keywords .c).isQualifier "," } :: rest) := by
  rintro item ⟨⟩
  exact ⟨rfl, hcomma.not_isQualifier, rfl, by simp [Item.value]⟩

theorem items_ne_nil {trees : List TokenTree} (h : trees ≠ []) : items rolesOf trees ≠ [] := by
  obtain ⟨tree, rest, rfl⟩ := List.exists_cons_of_ne_nil h
  simp [items]

/-- Entries with commas between them are read as arguments, of which each has what reading its entry
gives. -/
theorem exists_arguments (hroles : Respects scope rolesOf) (hcomma : scope.Plain ",")
    {P : List TokenTree → Declarator → Prop} {entries : List (List TokenTree)}
    (h : ∀ entry ∈ entries, entry ≠ [] ∧ ∀ stop, Stops stop →
      (∀ item ∈ stop.head?, scope.lookup item.value = none) → ∃ argument,
        read scope none {} (items rolesOf entry ++ stop) = .ok
        (argument, stop) ∧ P entry argument) :
    ∃ arguments,
      readArguments scope
          (items rolesOf ([TokenTree.symbol scope known ","].intercalate entries)) = .ok arguments ∧
        List.Forall₂ P entries arguments := by
  -- By induction on the entries; the last one has no comma behind it.
  induction entries with
  | nil => exact ⟨[], readArguments_nil scope, .nil⟩
  | cons entry entries ih =>
    rw [List.forall_mem_cons] at h
    obtain ⟨⟨hnonempty, hentry⟩, hentries⟩ := h
    obtain ⟨arguments, hread, hall⟩ := ih hentries
    have hne : items rolesOf entry ≠ [] := items_ne_nil hnonempty
    cases hempty : entries with
    | nil =>
      subst hempty
      obtain ⟨argument, hargument, hP⟩ := hentry [] (by simp [Stops]) (by simp)
      rw [List.append_nil] at hargument
      refine ⟨argument :: arguments, ?_, .cons hP hall⟩
      rw [List.intercalate_singleton]
      obtain ⟨item, rest, hlevel⟩ := List.exists_cons_of_ne_nil hne
      have hpos := Item.weight_pos item
      refine readArguments_of_read hargument hne ?_ hread
      rw [hlevel, Level.weight_cons]
      exact Nat.add_pos_left hpos _
    | cons next others =>
      rw [← hempty]
      have hmore : entries ≠ [] := by simp [hempty]
      obtain ⟨argument, hargument, hP⟩ := hentry
        (.token "," { isQualifier := (scope.keywords .c).isQualifier "," } ::
          items rolesOf ([TokenTree.symbol scope known ","].intercalate entries))
        (stops_comma hcomma _) (by
          rintro item ⟨⟩
          exact Scope.lookup_of_not_knows hcomma.not_known)
      refine ⟨argument :: arguments, ?_, .cons hP hall⟩
      rw [List.intercalate_cons_of_ne_nil hmore, TokenTree.items_append, TokenTree.items_append,
        List.append_assoc, items_singleton_append, TokenTree.item_symbol hroles]
      refine readArguments_of_read hargument (by simp [hne]) ?_ hread
      exact weight_lt_of_cons_suffix (List.suffix_append _ _)

/-- Entries with commas between them. -/
theorem readsArguments_intercalate (hroles : Respects scope rolesOf) (hcomma : scope.Plain ",")
    {entries : List (List TokenTree)}
    (h : ∀ entry ∈ entries, ReadsEntry scope known rolesOf false entry) :
    ReadsArguments scope known rolesOf
      ([TokenTree.symbol scope known ","].intercalate entries) := by
  obtain ⟨arguments, hread, hwrites⟩ : ∃ arguments,
      readArguments scope
          (items rolesOf ([TokenTree.symbol scope known ","].intercalate entries)) = .ok arguments ∧
        List.Forall₂ (fun entry argument =>
          Writes (scope.keywords .c) known (render true argument) entry) entries arguments :=
    exists_arguments hroles hcomma fun entry hentry =>
      ⟨(h entry hentry).ne_nil, fun stop hstop hlookup =>
        (h entry hentry).exists_read stop hstop fun _ => hlookup⟩
  have htexts : Writes (scope.keywords .c) known (", ".intercalate (renderAll arguments))
      ([TokenTree.symbol scope known ","].intercalate entries) := by
    rw [renderAll_eq_map]
    exact writes_intercalate (List.forall₂_map_right_iff.mpr hwrites)
  refine ⟨?_, arguments, hread, htexts⟩
  cases entries with
  | nil => rfl
  | cons entry entries =>
    have hentry := h entry List.mem_cons_self
    -- No entry starts with a `*`, so the list is not taken for a nest.
    have hhead : ∀ rest, Level.isToken (items rolesOf entry ++ rest) "*" = false := by
      obtain ⟨item, others, hlevel⟩ := List.exists_cons_of_ne_nil (items_ne_nil hentry.ne_nil)
      intro rest
      have hstar := hentry.not_star
      rw [hlevel] at hstar ⊢
      exact hstar
    obtain ⟨rest, hrest⟩ : ∃ rest,
      [TokenTree.symbol scope known ","].intercalate (entry :: entries) =
        entry ++ rest := by
      cases entries with
      | nil => exact ⟨[], by simp⟩
      | cons next others =>
        exact ⟨_, by rw [List.intercalate_cons_of_ne_nil (by simp), List.append_assoc]⟩
    rw [hrest, TokenTree.items_append]
    exact hhead _

/-! ### Declarators -/

/-- A declarator without its type can be read where one with it can. -/
theorem ReadsEntry.untyped {isTyped : Bool} {trees : List TokenTree}
    (h : ReadsEntry scope known rolesOf isTyped trees) :
    ReadsEntry scope known rolesOf false trees := by
  refine ⟨h.ne_nil, h.not_star, fun stop hstop hlookup => h.exists_read stop hstop fun _ => ?_⟩
  exact hlookup rfl

/-- Every part of a declarator of the grammar is read to its end, and its text writes it. -/
theorem meets_of_derives (hroles : Respects scope rolesOf) (hcomma : scope.Plain ",")
    {symbol : Symbol} {trees : List TokenTree} (h : Derives scope known symbol trees) :
    Meets scope known rolesOf symbol trees := by
  -- By induction on the derivation: each rule has the lemma about what it builds.
  induction h with
  | typed hleft hbase hright _ harguments hcore =>
    exact readsEntry_typed hroles hleft hbase hright hcore harguments
  | untyped hleft hne hright hstart hfresh _ hcore =>
    exact readsEntry_untyped hroles hleft hne hright hstart hfresh hcore
  | bareVariable hname hdimensions => exact readsCore_variable hroles hname hdimensions
  | bareFunction hname _ harguments => exact readsCore_function hroles hname harguments
  | nestedVariable _ hdimensions hnest => exact readsCore_nestedVariable hnest hdimensions
  | functionPointer _ _ hnest harguments => exact readsCore_functionPointer hnest harguments
  | nestOfName hright hname hdimensions => exact readsNest_ofName hroles hright hname hdimensions
  | nestOfVariable hright _ hdimensions hnest =>
    exact readsNest_ofVariable hroles hright hnest hdimensions
  | nestOfFunction hright _ _ hnest harguments =>
    exact readsNest_ofFunction hroles hright hnest harguments
  | argument _ hdeclarator => exact ReadsEntry.untyped hdeclarator
  | ellipsis => exact readsEntry_ellipsis hroles
  | arguments _ hentries => exact readsArguments_intercalate hroles hcomma hentries

/-- A declarator of the grammar is read to its end in either shape, and what was read is written as
a text that is cut into the same tokens again, as long as a comma is neither a qualifier nor a type.
-/
theorem ofText_render (hcomma : scope.Plain ",") {isTyped : Bool} {trees : List TokenTree}
    (h : Derives scope scope.knows (.declarator isTyped) trees) :
    ∀ level ∈ [(Node.ofTrees trees).items, (Chain.ofTrees trees).items (scope.keywords .c)],
      ∃ declarator, read scope none {} level = .ok (declarator, []) ∧
        TokenTree.ofText (scope.keywords .c) scope.knows (declarator.render true) = .ok trees := by
  have hread : ∀ rolesOf, Respects scope rolesOf → ∃ declarator,
      read scope none {} (items rolesOf trees) = .ok (declarator, []) ∧
        TokenTree.ofText (scope.keywords .c) scope.knows (declarator.render true) = .ok trees := by
    intro rolesOf hroles
    have hmeets : ReadsEntry scope scope.knows rolesOf isTyped trees :=
      meets_of_derives hroles hcomma h
    obtain ⟨declarator, hread, hwrites⟩ := hmeets.exists_read [] (by simp [Stops]) (by simp)
    rw [List.append_nil] at hread
    exact ⟨declarator, hread, writes_iff.mp hwrites⟩
  rw [List.forall_mem_cons, List.forall_mem_singleton, Node.items_ofTrees, Chain.items_ofTrees]
  exact ⟨hread _ (respects_tree scope), hread _ (respects_list scope)⟩

/-- An array of two pointers to functions is read and written again. -/
theorem ofText_render_table :
    (Scope.ofSettings {}).Plain "," ∧
      ∃ trees, TokenTree.ofText ((Scope.ofSettings {}).keywords .c) (Scope.ofSettings {}).knows
          "int (*table[2])(char, ...)" = .ok trees ∧
        Derives (Scope.ofSettings {}) (Scope.ofSettings {}).knows (.declarator true) trees ∧
        ∀ level ∈ [(Node.ofTrees trees).items,
            (Chain.ofTrees trees).items ((Scope.ofSettings {}).keywords .c)],
          ∃ declarator, read (Scope.ofSettings {}) none {} level = .ok (declarator, []) ∧
            TokenTree.ofText ((Scope.ofSettings {}).keywords .c) (Scope.ofSettings {}).knows
              (declarator.render true) = .ok trees := by
  have hcomma : (Scope.ofSettings {}).Plain "," := ⟨by decide, by decide⟩
  have hint : IsTypeWord (Scope.ofSettings {}) "int" := ⟨⟨by decide, by decide⟩, by decide⟩
  have hchar : IsTypeWord (Scope.ofSettings {}) "char" :=
    ⟨⟨by decide, by decide⟩, by decide⟩
  have hname : ∀ text ∈ some "table",
      IsNameWord (Scope.ofSettings {}) (Scope.ofSettings {}).knows text := by
    rintro text ⟨⟩
    exact ⟨⟨by decide, by decide⟩, by decide⟩
  have hdimensions : TokenTree.AreDimensions (Scope.ofSettings {}) (Scope.ofSettings {}).knows
      [.group .square [.leaf ⟨"2", .constant⟩]] := by
    intro tree htree
    obtain rfl := List.mem_singleton.mp htree
    refine ⟨_, rfl, ?_⟩
    rw [TokenTree.Restorable]
    cbv
  have hnest := Derives.nestOfName areMarks_nil hname hdimensions
  have hfirst := Derives.argument (derives_type (Scope.ofSettings {}).knows hchar)
  have harguments := Derives.arguments (List.forall_mem_cons.mpr
    ⟨hfirst, List.forall_mem_singleton.mpr .ellipsis⟩)
  have h := Derives.typed (List.forall_mem_nil _) hint areMarks_nil
    (.functionPointer hnest harguments) fun _ => Or.inl rfl
  exact ⟨hcomma, _, by cbv, h, ofText_render hcomma h⟩

/-- The text is a declarator of the grammar that is read to its end and written with other tokens.
-/
def IsMiswritten (settings : Settings) (text : String) : Prop :=
  ∃ trees, TokenTree.ofText ((Scope.ofSettings settings).keywords .c)
        (Scope.ofSettings settings).knows text = .ok trees ∧
      Derives (Scope.ofSettings settings) (Scope.ofSettings settings).knows
        (.declarator true) trees ∧
      ∃ declarator, read (Scope.ofSettings settings) none {} (Node.ofTrees trees).items =
          .ok (declarator, []) ∧
        TokenTree.ofText ((Scope.ofSettings settings).keywords .c)
          (Scope.ofSettings settings).knows (declarator.render true) ≠ .ok trees

/-- A comma that is a qualifier or a type is read as part of the argument before it, and the
argument after it is passed over. -/
theorem ofText_render_comma :
    IsMiswritten { extraQualifiers := [","] } "int f(int, int)" ∧
      IsMiswritten { builtinTypes := [","] } "int f(const, int)" := by
  constructor
  · have hf : IsNameWord (Scope.ofSettings { extraQualifiers := [","] })
        (Scope.ofSettings { extraQualifiers := [","] }).knows "f" :=
          ⟨⟨by decide, by decide⟩, by decide⟩
    have hint : IsTypeWord (Scope.ofSettings { extraQualifiers := [","] }) "int" :=
      ⟨⟨by decide, by decide⟩, by decide⟩
    refine ⟨_, ?_, derives_function hint hf (derives_types _ hint),
      { kind := .functionDeclaration, base := some ⟨4, "int", false⟩, name := some "f",
        arguments := [{ base := some ⟨4, "int", false⟩, right := ⟨[","]⟩ }] }, ?_, ?_⟩
    · cbv
    · cbv
    · cbv
      simp
  · have hf : IsNameWord (Scope.ofSettings { builtinTypes := [","] })
        (Scope.ofSettings { builtinTypes := [","] }).knows "f" :=
          ⟨⟨by decide, by decide⟩, by decide⟩
    have hint : IsTypeWord (Scope.ofSettings { builtinTypes := [","] }) "int" :=
      ⟨⟨by decide, by decide⟩, by decide⟩
    have hconst : IsQualifierWord (Scope.ofSettings { builtinTypes := [","] }) "const" :=
      ⟨by decide, by decide⟩
    refine ⟨_, ?_, derives_function hint hf (derives_qualifier_type _ hconst hint),
      { kind := .functionDeclaration, base := some ⟨4, "int", false⟩, name := some "f",
        arguments := [{ left := ⟨["const"]⟩, base := some ⟨8, ",", false⟩ }] }, ?_, ?_⟩
    · cbv
    · cbv
    · cbv
      simp

end Declarator

end CommonDecl
