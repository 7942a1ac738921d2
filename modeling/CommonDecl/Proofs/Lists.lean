import CommonDecl.Declaration.Render
import CommonDecl.Proofs.Names
import CommonDecl.Proofs.RoundTrip

/-!
# Lists of declarators

Declarators with commas between them are read one after the other up to the `;` that ends the
statement, after a first declarator (`Declaration.readFurther_items`) or after a body
(`Level.readSeparated_items`), and their texts write them again (`writes_bareTexts`).
-/

namespace CommonDecl

open TokenTree (items commaSeparated IsBare)

variable {scope : Scope} {known : String → Bool} {rolesOf : Token → Roles}

/-! ### Bare declarators -/

variable (scope known rolesOf) in
/-- A bare declarator is read up to what follows it, with whatever type, and its text writes it. -/
structure ReadsBare (name : Option String) (trees : List TokenTree) : Prop where
  ne_nil : trees ≠ []
  value_of_head : ∀ item ∈ (items rolesOf trees).head?, item.bracket? = none →
    item.value = "*" ∨ item.value = "&" ∨ IsWord item.value
  noBrace : Level.NoGroup .brace (items rolesOf trees)
  isWord : ∀ text ∈ name, IsWord text
  exists_read : ∀ shared stop, Stops stop → ∃ declarator,
    Declarator.read scope (some shared) {} (items rolesOf trees ++ stop) = .ok (declarator, stop) ∧
      declarator.name = name ∧ Writes (scope.keywords .c) known (declarator.render false) trees

namespace Declarator

theorem writes_render_false {declarator : Declarator} {right : List String} {core : List TokenTree}
    (hright : AreMarks scope right) (hname : ∀ text ∈ declarator.name, IsWord text)
    (hcore : ∀ spaced, Writes (scope.keywords .c) known (coreText spaced declarator) core)
    (left : Qualifiers) (base : Option TypeRef) :
    Writes (scope.keywords .c) known
      (render false { declarator with left, right := ⟨right⟩, base })
      (TokenTree.marks right ++ core) := by
  rw [render_eq, if_neg Bool.false_ne_true, String.empty_append]
  exact (writes_afterType hright hname hcore false).trimEnd

/-- A declarator without its type is read with that of another one. -/
theorem read_of_template (shared : Declarator) (right : List String) {core stop : Level}
    {declarator : Declarator} (hcore : NoQualifier core)
    (hread : read scope (some {}) {} core = .ok (declarator, stop)) :
    read scope (some shared) {} (Level.ofMarks right ++ core) =
      .ok ({ declarator with left := shared.left, right := ⟨right⟩, base := shared.base },
        stop) := by
  have hafter : afterTypePart scope (some shared) (Level.ofMarks right ++ core) = core :=
    Level.afterQualifiers_ofMarks right hcore
  rw [read_eq_core, hafter, hread]
  unfold readType
  dsimp only
  rw [Level.qualifiers_ofMarks right hcore]
  rfl

end Declarator

/-- A bare declarator starts with a group, a pointer marker or a word. -/
theorem ReadsBare.not_isToken {name : Option String} {trees : List TokenTree}
    (h : ReadsBare scope known rolesOf name trees) {text : String}
    (htext : ¬(text = "*" ∨ text = "&" ∨ IsWord text)) :
    Level.isToken (items rolesOf trees) text = false := by
  refine isToken_of_head fun item hitem => ?_
  cases hbracket : item.bracket? with
  | none =>
    refine isToken_of_value_ne fun heq => htext ?_
    rw [← heq]
    exact h.value_of_head item hitem hbracket
  -- A group is no token at all.
  | some bracket => rw [Item.isToken, hbracket, Option.isNone_some, Bool.false_and]

theorem readsBare_of_isBare (hroles : Respects scope rolesOf) (hcomma : scope.Plain ",")
    {name : Option String} {trees : List TokenTree} (h : IsBare scope known name trees) :
    ReadsBare scope known rolesOf name trees := by
  obtain ⟨hne, right, endsInArguments, core, hright, hderives, rfl⟩ := h
  have hcore : Declarator.ReadsCore scope known rolesOf name endsInArguments core :=
    Declarator.meets_of_derives hroles hcomma hderives
  -- The marks in front of the core are read as its qualifiers, the core as the declarator itself.
  have hitems : items rolesOf (TokenTree.marks right ++ core) =
      Level.ofMarks right ++ items rolesOf core := by
    rw [TokenTree.items_append, TokenTree.items_marks hroles hright.each]
  refine ⟨hne, ?_, ?_, hcore.isWord, ?_⟩
  -- Either a mark stands in front or, without marks, the head of the core.
  · rw [hitems]
    refine forall_head_append ?_ ?_
    · intro item hitem _
      obtain ⟨text, htext, rfl⟩ := List.mem_map.mp (List.mem_of_mem_head? hitem)
      exact (hright.each text htext).imp_right fun h => h.imp_right IsQualifierWord.isWord
    · intro item hitem hbracket
      exact Or.inr (Or.inr (hcore.isWord _ (hcore.eq_name_of_head item hitem hbracket)))
  -- Marks are no groups, and the core starts with no body.
  · rw [hitems]
    refine forall_head_append ?_ hcore.noBrace
    intro item hitem
    obtain ⟨text, -, rfl⟩ := List.mem_map.mp (List.mem_of_mem_head? hitem)
    rfl
  -- The core is read without a type, and then again with the type of the one it stands beside.
  · intro shared stop hstop
    obtain ⟨declarator, hread, hname, -, htext⟩ := hcore.exists_read stop hstop
    have hnoQualifier : NoQualifier (items rolesOf core ++ stop) :=
      forall_head_append hcore.noQualifier hstop.noQualifier
    have hword : ∀ text ∈ declarator.name, IsWord text := by
      rw [hname]
      exact hcore.isWord
    rw [hitems, List.append_assoc]
    exact ⟨_, Declarator.read_of_template shared right hnoQualifier hread, hname,
      Declarator.writes_render_false hright hword htext _ _⟩

/-! ### What follows a declarator -/

/-- Parts that follow another one, each after a comma. -/
def TokenTree.afterCommas (scope : Scope) (known : String → Bool) (parts : List (List TokenTree)) :
    List TokenTree :=
  parts.flatMap fun part => symbol scope known "," :: part

open TokenTree (afterCommas)

/-- Every part of a list but the first one stands after a separator. -/
theorem intercalate_cons_eq_flatMap {α : Type} (separator : α) (part : List α)
    (parts : List (List α)) : [separator].intercalate (part :: parts) =
      part ++ parts.flatMap fun part => separator :: part := by
  induction parts generalizing part with
  | nil => simp
  | cons next parts ih =>
    rw [List.intercalate_cons_of_ne_nil (by simp), ih]
    simp

theorem TokenTree.commaSeparated_cons (scope : Scope) (known : String → Bool)
    (part : List TokenTree) (parts : List (List TokenTree)) :
    commaSeparated scope known (part :: parts) = part ++ afterCommas scope known parts :=
  intercalate_cons_eq_flatMap _ part parts

/-- The level from the `;` of a statement on. -/
def Level.ofSemicolon (rest : Level) : Level :=
  .token ";" {} :: rest

/-- Nothing of a declarator goes on at the `;` of its statement. -/
theorem stops_semicolon (rest : Level) : Stops (Level.ofSemicolon rest) := by
  rintro item ⟨⟩
  exact ⟨rfl, rfl, rfl, by simp [Item.value]⟩

theorem items_afterCommas_cons (hroles : Respects scope rolesOf) (hcomma : scope.Plain ",")
    (part : List TokenTree) (parts : List (List TokenTree)) (rest : Level) :
    items rolesOf (afterCommas scope known (part :: parts)) ++ rest =
      .token "," {} ::
        (items rolesOf part ++ (items rolesOf (afterCommas scope known parts) ++ rest)) := by
  show items rolesOf (TokenTree.symbol scope known "," :: part ++ afterCommas scope known parts) ++
    rest = _
  rw [TokenTree.items_append, items, TokenTree.item_symbol hroles, hcomma.not_isQualifier]
  simp

/-- What follows a declarator in a list ends it. -/
theorem stops_afterCommas (hroles : Respects scope rolesOf) (hcomma : scope.Plain ",")
    (parts : List (List TokenTree)) (rest : Level) :
    Stops (items rolesOf (afterCommas scope known parts) ++ Level.ofSemicolon rest) := by
  cases parts with
  | nil => exact stops_semicolon rest
  | cons part parts =>
    rw [items_afterCommas_cons hroles hcomma]
    rintro item ⟨⟩
    exact ⟨rfl, rfl, rfl, by simp [Item.value]⟩

variable (scope known) in
/-- Bare declarators write parts, one each. -/
def WriteEach (parts : List (List TokenTree)) (declarators : List Declarator) : Prop :=
  List.Forall₂ (fun part declarator =>
    Writes (scope.keywords .c) known (Declarator.render false declarator) part) parts declarators

/-! ### Reading lists -/

theorem isToken_cons (text : String) (rest : Level) :
    Level.isToken (.token text {} :: rest) text = true := by
  show (true && text == text) = true
  simp

theorem atStatementEnd_semicolon (rest : Level) : (Level.ofSemicolon rest).atStatementEnd = true :=
  isToken_cons ";" rest

theorem skipToAny_comma (rest : Level) :
    Level.skipToAny (.token "," {} :: rest) [",", ";"] = .token "," {} :: rest := by
  rw [Level.skipToAny, List.dropWhile_cons_of_neg (by decide)]

theorem skipToAny_semicolon (rest : Level) :
    (Level.ofSemicolon rest).skipToAny [",", ";"] = Level.ofSemicolon rest := by
  rw [Level.skipToAny, Level.ofSemicolon, List.dropWhile_cons_of_neg (by decide)]

theorem afterDeclarator_comma (rest : Level) :
    Level.afterDeclarator (.token "," {} :: rest) = rest := by
  rw [Level.afterDeclarator, skipToAny_comma]
  rfl

theorem afterDeclarator_semicolon (rest : Level) :
    (Level.ofSemicolon rest).afterDeclarator = Level.ofSemicolon rest := by
  rw [Level.afterDeclarator, skipToAny_semicolon]
  rfl

theorem length_lt_of_cons_append {item : Item} {middle rest : Level} :
    rest.length < (item :: (middle ++ rest)).length := by
  rw [List.length_cons, List.length_append]
  omega

/-- The further declarators of a statement are read up to its end, and each has what reading its
part gives. -/
theorem Declaration.readFurther_items (hroles : Respects scope rolesOf) (hcomma : scope.Plain ",")
    {P : List TokenTree → Declarator → Prop} {parts : List (List TokenTree)} {first : Declarator}
    (h : ∀ part ∈ parts, ∀ stop, Stops stop → ∃ declarator,
      Declarator.read scope (some first) {} (items rolesOf part ++ stop) = .ok (declarator, stop) ∧
        P part declarator) (last : Declarator) (rest : Level) :
    ∃ further, readFurther scope first last
        (items rolesOf (afterCommas scope known parts) ++ Level.ofSemicolon rest) =
          .ok (further, Level.ofSemicolon rest) ∧ List.Forall₂ P parts further := by
  -- By induction on the parts; `last` is whatever was read before them.
  induction parts generalizing last with
  | nil =>
    refine ⟨[], ?_, .nil⟩
    show readFurther scope first last (Level.ofSemicolon rest) = _
    rw [readFurther, skipToAny_semicolon, if_neg (by rintro ⟨-, ⟨⟩⟩), if_neg (by rintro ⟨⟩)]
    rfl
  | cons part parts ih =>
    rw [List.forall_mem_cons] at h
    obtain ⟨hpart, hparts⟩ := h
    obtain ⟨declarator, hread, hP⟩ := hpart
      (items rolesOf (afterCommas scope known parts) ++ Level.ofSemicolon rest)
      (stops_afterCommas hroles hcomma parts rest)
    obtain ⟨further, hfurther, hall⟩ := ih hparts declarator
    refine ⟨declarator :: further, ?_, .cons hP hall⟩
    -- At the comma the reader goes on, and the part is read up to the next one.
    rw [items_afterCommas_cons hroles hcomma, readFurther, skipToAny_comma, afterDeclarator_comma,
      if_neg (by rintro ⟨-, ⟨⟩⟩), if_pos (isToken_cons "," _), hread]
    dsimp only [bind, Except.bind]
    rw [if_pos length_lt_of_cons_append, hfurther]
    rfl

/-- After a declarator in a list comes the rest of the list. -/
theorem afterDeclarator_afterCommas (hroles : Respects scope rolesOf) (hcomma : scope.Plain ",")
    (parts : List (List TokenTree)) (rest : Level) :
    Level.afterDeclarator (items rolesOf (afterCommas scope known parts) ++
      Level.ofSemicolon rest) =
      items rolesOf (commaSeparated scope known parts) ++ Level.ofSemicolon rest := by
  cases parts with
  | nil => exact afterDeclarator_semicolon rest
  | cons part parts =>
    rw [items_afterCommas_cons hroles hcomma, afterDeclarator_comma, TokenTree.commaSeparated_cons,
      TokenTree.items_append, List.append_assoc]

/-- Going on behind a declarator leaves less than there was, for the declarator is not empty. -/
theorem length_afterDeclarator_lt {level : Level} (h : level ≠ []) (rest : Level) :
    rest.afterDeclarator.length < (level ++ rest).length := by
  have hle := (Level.afterDeclarator_suffix rest).length_le
  have hpos := List.length_pos_iff.mpr h
  rw [List.length_append]
  omega

/-- A bare declarator is not the end of its statement. -/
theorem not_atStatementEnd {name : Option String} {part : List TokenTree}
    (h : ReadsBare scope known rolesOf name part) (rest : Level) :
    ¬ Level.atStatementEnd (items rolesOf part ++ rest) = true := by
  have hne : items rolesOf part ≠ [] := Declarator.items_ne_nil h.ne_nil
  obtain ⟨item, others, hlevel⟩ := List.exists_cons_of_ne_nil hne
  have hsemicolon := h.not_isToken (show ¬(";" = "*" ∨ ";" = "&" ∨ IsWord ";") by decide)
  rw [hlevel] at hsemicolon ⊢
  have hitem : item.isToken ";" = false := hsemicolon
  show ¬ (false || item.isToken ";") = true
  simp [hitem]

/-- The declarators after a body are read up to the end of the statement. -/
theorem Level.readSeparated_items (hroles : Respects scope rolesOf) (hcomma : scope.Plain ",")
    {parts : List (List TokenTree)}
    (h : ∀ part ∈ parts, ∃ name, ReadsBare scope known rolesOf name part) (shared : Declarator)
    (rest : Level) :
    ∃ declarators, readSeparated (Declarator.read scope (some shared) {})
        (items rolesOf (commaSeparated scope known parts) ++ Level.ofSemicolon rest) =
          .ok (declarators, Level.ofSemicolon rest) ∧ WriteEach scope known parts declarators := by
  induction parts with
  | nil =>
    refine ⟨[], ?_, .nil⟩
    show readSeparated _ (Level.ofSemicolon rest) = _
    rw [readSeparated, if_pos (atStatementEnd_semicolon rest)]
    rfl
  | cons part parts ih =>
    rw [List.forall_mem_cons] at h
    obtain ⟨⟨name, hpart⟩, hparts⟩ := h
    obtain ⟨declarator, hread, -, htext⟩ := hpart.exists_read shared
      (items rolesOf (afterCommas scope known parts) ++ Level.ofSemicolon rest)
      (stops_afterCommas hroles hcomma parts rest)
    obtain ⟨declarators, hdeclarators, hwrites⟩ := ih hparts
    refine ⟨declarator :: declarators, ?_, .cons htext hwrites⟩
    -- The list of the remaining parts is shorter, which is what the reader asks before it goes on.
    have hlength : (items rolesOf (commaSeparated scope known parts) ++ ofSemicolon rest).length <
        (items rolesOf part ++
          (items rolesOf (afterCommas scope known parts) ++ ofSemicolon rest)).length := by
      rw [← afterDeclarator_afterCommas hroles hcomma]
      exact length_afterDeclarator_lt (Declarator.items_ne_nil hpart.ne_nil) _
    rw [TokenTree.commaSeparated_cons, TokenTree.items_append, List.append_assoc, readSeparated,
      if_neg (not_atStatementEnd hpart _), hread]
    dsimp only [bind, Except.bind]
    rw [afterDeclarator_afterCommas hroles hcomma, if_pos hlength, hdeclarators]
    rfl

/-- No body follows where declarators stand. -/
theorem noBrace_commaSeparated (hroles : Respects scope rolesOf) (hcomma : scope.Plain ",")
    {parts : List (List TokenTree)}
    (h : ∀ part ∈ parts, ∃ name, ReadsBare scope known rolesOf name part) (rest : Level) :
    Level.NoGroup .brace (items rolesOf (commaSeparated scope known parts) ++
      Level.ofSemicolon rest) := by
  cases parts with
  | nil => exact Level.noGroup_of_stops (stops_semicolon rest) .brace
  | cons part parts =>
    obtain ⟨name, hpart⟩ := h part List.mem_cons_self
    rw [TokenTree.commaSeparated_cons, TokenTree.items_append, List.append_assoc]
    exact forall_head_append hpart.noBrace
      (Level.noGroup_of_stops (stops_afterCommas hroles hcomma parts rest) .brace)

/-! ### Writing lists -/

/-- The texts of the declarators with `, ` between them write the list of their parts. -/
theorem writes_bareTexts {parts : List (List TokenTree)} {declarators : List Declarator}
    (h : WriteEach scope known parts declarators) :
    Writes (scope.keywords .c) known (", ".intercalate (declarators.map (Declarator.render false)))
      (commaSeparated scope known parts) :=
  writes_intercalate (List.forall₂_map_right_iff.mpr h)

/-- Declarators after a body. -/
theorem Writes.append_instances {before : String} {trees : List TokenTree}
    (hbefore : Writes (scope.keywords .c) known before trees) {parts : List (List TokenTree)}
    {declarators : List Declarator} (h : WriteEach scope known parts declarators) :
    Writes (scope.keywords .c) known (before ++ furtherText " " declarators)
      (trees ++ commaSeparated scope known parts) := by
  have htexts := writes_bareTexts h
  cases h with
  | nil =>
    simpa [furtherText, commaSeparated] using hbefore
  | cons hpart hparts =>
    exact hbefore.append htexts.space_append (apart_space _ _)

theorem TokenTree.afterCommas_cons (scope : Scope) (known : String → Bool) (part : List TokenTree)
    (parts : List (List TokenTree)) : afterCommas scope known (part :: parts) =
      [symbol scope known ","] ++ commaSeparated scope known (part :: parts) := by
  rw [commaSeparated_cons]
  rfl

/-- Declarators after another one. -/
theorem Writes.append_further {before : String} {trees : List TokenTree}
    (hbefore : Writes (scope.keywords .c) known before trees) {parts : List (List TokenTree)}
    {declarators : List Declarator} (h : WriteEach scope known parts declarators) :
    Writes (scope.keywords .c) known (before ++ furtherText ", " declarators)
      (trees ++ afterCommas scope known parts) := by
  have htexts := writes_bareTexts h
  cases h with
  | nil =>
    simpa [furtherText, afterCommas] using hbefore
  | cons hpart hparts =>
    rw [TokenTree.afterCommas_cons]
    refine hbefore.append (writes_comma.append htexts ?_) ?_
    · exact apart_of_left (by decide)
    · exact apart_append_right (apart_of_right (by decide)) (by decide)

end CommonDecl
