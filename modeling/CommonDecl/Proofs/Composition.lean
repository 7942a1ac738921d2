import CommonDecl.Declaration.Render
import CommonDecl.Proofs.Grammar
import CommonDecl.Proofs.Joining
import CommonDecl.Proofs.LikeStatements
import CommonDecl.Proofs.Rounds

/-!
# Sources read one after the other

Two sources of C that are joined by a line feed are read as if the second one were read after the
first one (`Declaration.ofSource_append`), if the first one ends with a `;` and the second one
declares no name that is the name of a type since the first one.  A statement of the first source
sees nothing of the second one but whether that starts with a body (`Declaration.readAll_append`);
the second one is classified with fewer words known when it is joined to the first one
(`Declaration.readAll_alike`).
-/

namespace CommonDecl

open Level

variable {added : String → Prop} {scope : Scope} {level level' : Level}

/-! ### Levels that go on behind a `;` -/

namespace Level

/-- The level is empty or ends with a `;` that plays no role. -/
def EndsInSemicolon (level : Level) : Prop :=
  level = [] ∨ ∃ front, level = front ++ [.token ";" {}]

theorem EndsInSemicolon.of_suffix {rest : Level} (h : level.EndsInSemicolon)
    (hrest : rest <:+ level) :
    rest.EndsInSemicolon := by
  rcases List.eq_nil_or_concat rest with hnil | ⟨front, last, hfront⟩
  · exact Or.inl hnil
  · obtain ⟨taken, rfl⟩ := hrest
    rw [List.concat_eq_append] at hfront
    rcases h with hnil | ⟨before, hbefore⟩
    · rw [hfront] at hnil
      simp at hnil
    · refine Or.inr ⟨front, ?_⟩
      rw [hfront, ← List.append_assoc] at hbefore
      rw [hfront, List.append_inj_right' hbefore rfl]

theorem afterSemicolon_append (front second : Level) :
    afterSemicolon (front ++ .token ";" {} :: second) =
      afterSemicolon (front ++ [.token ";" {}]) ++ second := by
  cases front with
  | nil => rfl
  | cons item front =>
    show (if item.isToken ";" then front ++ _ else item :: front ++ _) =
      (if item.isToken ";" then front ++ _ else item :: front ++ _) ++ second
    split
    · rw [List.append_assoc]
      rfl
    · rw [List.append_assoc]
      rfl

theorem PlainSemicolons.of_append {first second : Level} (h : (first ++ second).PlainSemicolons) :
    first.PlainSemicolons :=
  Plain.of_append h

end Level

namespace Declaration

/-! ### The first source -/

/-- A statement that stands in front of a `;` is read without what follows the `;`, unless this is a
body. -/
theorem read_of_append {front second rest : Level} {after : Scope} {declaration : Declaration}
    (hsemicolon : scope.knows ";" = false)
    (hplain : Level.PlainSemicolons (front ++ .token ";" {} :: second))
    (hbody : second.isGroup .brace = false)
    (hread : Declaration.read (front ++ .token ";" {} :: second) scope =
      .ok (declaration, rest) after) :
    after.knows ";" = false ∧ ∃ rest', rest = rest' ++ second ∧
      Declaration.read (front ++ [.token ";" {}]) scope = .ok (declaration, rest') after := by
  have hsuits : scope.Suits fun _ => False := ⟨fun _ h => h.elim, hsemicolon⟩
  have halike : Alike (fun _ => False) (.token ";" {} :: second) [.token ";" {}]
      (front ++ .token ";" {} :: second) (front ++ [.token ";" {}]) := alike_append _ _ _
  obtain ⟨hafter, last, last', hlast, rfl, hread'⟩ :=
    read_alike hplain halike (.semicolon hbody) hsuits hread fun _ _ h => h
  obtain ⟨left, rfl, rfl⟩ := hlast.exists_front
  exact ⟨hafter.not_knows_semicolon, _, afterSemicolon_append left second, hread'⟩

/-- A statement that can be read in front of a `;` is read alike with anything but a body behind the
`;`. -/
theorem read_append {front second rest : Level} {after : Scope} {declaration : Declaration}
    (hsemicolon : scope.knows ";" = false)
    (hplain : Level.PlainSemicolons (front ++ [.token ";" {}]))
    (hbody : second.isGroup .brace = false)
    (hread : Declaration.read (front ++ [.token ";" {}]) scope = .ok (declaration, rest) after) :
    Declaration.read (front ++ .token ";" {} :: second) scope =
      .ok (declaration, rest ++ second) after := by
  have hsuits : scope.Suits fun _ => False := ⟨fun _ h => h.elim, hsemicolon⟩
  have halike : Alike (fun _ => False) [.token ";" {}] (.token ";" {} :: second)
      (front ++ [.token ";" {}]) (front ++ .token ";" {} :: second) := alike_append _ _ _
  obtain ⟨-, last, last', hlast, rfl, hread'⟩ :=
    read_alike hplain halike (.semicolon hbody.symm) hsuits hread fun _ _ h => h
  obtain ⟨left, rfl, rfl⟩ := hlast.exists_front
  rw [← afterSemicolon_append]
  exact hread'

/-- Reading a statement makes no `;` the name of a type. -/
theorem not_knows_semicolon_of_read {rest : Level} {after : Scope} {declaration : Declaration}
    (hsemicolon : scope.knows ";" = false) (hplain : level.PlainSemicolons)
    (hread : Declaration.read level scope = .ok (declaration, rest) after) :
    after.knows ";" = false := by
  have hsuits : scope.Suits fun _ => False := ⟨fun _ h => h.elim, hsemicolon⟩
  have halike : Alike (fun _ => False) [] [] level level :=
    alike_nil_iff.mpr (Item.Alike.refl_all level)
  exact (read_alike hplain halike .ends hsuits hread fun _ _ h => h).1.not_knows_semicolon

/-- A statement of a level that ends in a `;` is read without what follows the level, unless this is
a body. -/
theorem read_append_eq_ok_iff {first second rest : Level} {after : Scope}
    {declaration : Declaration} (hsemicolon : scope.knows ";" = false)
    (hplain : (first ++ second).PlainSemicolons) (hfirst : first.EndsInSemicolon) (hne : first ≠ [])
    (hbody : second.isGroup .brace = false) :
    Declaration.read (first ++ second) scope = .ok (declaration, rest) after ↔
      ∃ rest', rest = rest' ++ second ∧ Declaration.read first scope =
        .ok (declaration, rest') after := by
  obtain ⟨front, rfl⟩ := hfirst.resolve_left hne
  have hplain' : Level.PlainSemicolons (front ++ [.token ";" {}]) := hplain.of_append
  rw [List.append_assoc, List.singleton_append] at hplain ⊢
  constructor
  · intro hread
    exact (read_of_append hsemicolon hplain hbody hread).2
  · rintro ⟨rest', rfl, hread⟩
    exact read_append hsemicolon hplain' hbody hread

theorem afterEmptyStatements_append (first second : Level) :
    afterEmptyStatements (first ++ second) =
      if afterEmptyStatements first = [] then afterEmptyStatements second
      else afterEmptyStatements first ++ second := by
  unfold afterEmptyStatements
  rw [List.dropWhile_append]
  simp only [List.isEmpty_iff]

/-- Statements that end in a `;` are read without what follows it, unless this is a body, and what
follows is read after them. -/
theorem readAll_append {first second : Level} (hsemicolon : scope.knows ";" = false)
    (hplain : Level.PlainSemicolons (first ++ second)) (hfirst : first.EndsInSemicolon)
    (hbody : second.isGroup .brace = false)
    (hfault : (readAll .c scope (first ++ second)).fault? = none) :
    (readAll .c scope first).fault? = none ∧
      readAll .c scope (first ++ second) =
        { readAll .c (readAll .c scope first).scope second with
          declarations := (readAll .c scope first).declarations ++
            (readAll .c (readAll .c scope first).scope second).declarations } := by
  induction hlength : first.length using Nat.strong_induction_on generalizing first scope with
  | _ n ih =>
    subst hlength
    by_cases hempty : afterEmptyStatements first = []
    · have hsame : afterEmptyStatements (first ++ second) = afterEmptyStatements second := by
        rw [afterEmptyStatements_append, if_pos hempty]
      rw [readAll_of_atEnd hempty scope, readAll_congr hsame]
      exact ⟨rfl, rfl⟩
    · -- The first statement is read from what stands in front of the last `;`.
      have hsame : afterEmptyStatements (first ++ second) =
          afterEmptyStatements first ++ second := by
        rw [afterEmptyStatements_append, if_neg hempty]
      obtain ⟨front, hfront⟩ :=
        (hfirst.of_suffix (afterEmptyStatements_suffix first)).resolve_left hempty
      have hline : afterEmptyStatements (first ++ second) = front ++ .token ";" {} :: second := by
        rw [hsame, hfront, List.append_assoc]
        rfl
      have hplain' :=
        hplain.of_reaches (reaches_of_suffix (afterEmptyStatements_suffix (first ++ second)))
      obtain ⟨declaration, rest, after, hread, hnext, hfault'⟩ :=
        exists_next_of_readAll (by rw [hline]; simp) hfault
      rw [hline] at hread hplain'
      obtain ⟨hafter, rest', rfl, hread'⟩ := read_of_append hsemicolon hplain' hbody hread
      rw [← hfront] at hread'
      have hnext' := next?_of_readIn .c hempty hread'
      have hshorter : rest'.length < first.length :=
        (next?_shorter .c first scope).of_ok hnext' declaration rest' rfl
      -- What is left of the first level ends in a `;` again.
      have hrest' : rest' <:+ first :=
        (next?_rest .c first scope).of_ok hnext' declaration rest' rfl
      have hplain'' := hplain.of_reaches (reaches_of_suffix
        ((next?_rest .c (first ++ second) scope).of_ok hnext declaration (rest' ++ second) rfl))
      obtain ⟨hfirst', hall⟩ :=
        ih rest'.length hshorter hafter hplain'' (hfirst.of_suffix hrest') hfault' rfl
      rw [readAll_of_next? hnext, readAll_of_next? hnext', hall]
      exact ⟨hfirst', rfl⟩

end Declaration

/-! ### Bodies -/

namespace TypeDecl

theorem readMembers_semicolon {item : Item} (hitem : item.isToken ";" = true) (items : Level) :
    readMembers (item :: items) = readMembers items := by
  rw [readMembers, if_pos hitem]

theorem atStatementEnd_cons {item : Item} (hitem : item.isToken ";" = false) (items : Level) :
    Level.atStatementEnd (item :: items) = false := by
  rw [Level.atStatementEnd, Level.isToken, List.head?_cons, Option.any_some, hitem]
  rfl

/-- The members of a body are its first statement and the members behind it. -/
theorem readMembers_of_statement {level : Level} (hend : level.atStatementEnd = false) :
    readMembers level = do
      let (declaration, rest) ← Declaration.read level
      return .declaration declaration :: (← readMembers rest) := by
  cases level with
  | nil => cases hend
  | cons item items =>
    have hitem : ¬ item.isToken ";" = true := by
      rw [Level.atStatementEnd, Bool.or_eq_false_iff] at hend
      exact Bool.eq_false_iff.mp hend.2
    funext scope
    rw [readMembers, if_neg hitem]
    -- A statement takes something in, so the guard of the recursion holds.
    cases hread : Declaration.read (item :: items) scope with
    | error fault after => rw [bind_of_error hread, bind_of_error hread]
    | ok result after =>
      have hshorter := weight_lt_of_suffix_next (List.cons_ne_nil item items)
        ((Declaration.read_progress hend scope).of_ok hread)
      rw [bind_of_ok hread, bind_of_ok hread]
      dsimp only
      rw [if_pos hshorter]

theorem readMembers_eq_ok_iff {level : Level} (hend : level.atStatementEnd = false)
    {members : List Member} {last : Scope} : readMembers level scope = .ok members last ↔
      ∃ declaration rest after others,
        Declaration.read level scope = .ok (declaration, rest) after ∧ readMembers rest after =
          .ok others last ∧ members = .declaration declaration :: others := by
  rw [readMembers_of_statement hend]
  constructor
  · intro h
    obtain ⟨⟨declaration, rest⟩, after, hread, h⟩ := bind_apply_eq_ok_iff.mp h
    obtain ⟨others, middle, hothers, h⟩ := bind_apply_eq_ok_iff.mp h
    cases h
    exact ⟨declaration, rest, after, others, hread, hothers, rfl⟩
  · rintro ⟨declaration, rest, after, others, hread, hothers, rfl⟩
    rw [bind_of_ok hread]
    dsimp only
    rw [bind_of_ok hothers]
    rfl

/-- Members that end in a `;` are read without what stands behind them, unless this is a body, and
what stands behind them is read after them. -/
theorem readMembers_append {first second : Level} (hsemicolon : scope.knows ";" = false)
    (hplain : (first ++ second).PlainSemicolons) (hfirst : first.EndsInSemicolon)
    (hbody : second.isGroup .brace = false) {members : List Member} {last : Scope} :
    readMembers (first ++ second) scope = .ok members last ↔
      ∃ before middle behind, readMembers first scope = .ok before middle ∧
        readMembers second middle = .ok behind last ∧ members = before ++ behind := by
  induction hlength : first.length using Nat.strong_induction_on generalizing
    first scope members with
  | _ n ih =>
    subst hlength
    cases first with
    | nil =>
      rw [readMembers]
      constructor
      · intro h
        exact ⟨[], scope, members, rfl, h, rfl⟩
      · rintro ⟨_, _, _, ⟨⟩, h, rfl⟩
        exact h
    | cons item items =>
      cases hitem : item.isToken ";" with
      | true =>
        rw [List.cons_append, readMembers_semicolon hitem, readMembers_semicolon hitem]
        exact ih items.length (Nat.lt_succ_self _) hsemicolon
          (hplain.of_reaches (reaches_of_suffix ⟨[item], rfl⟩))
          (hfirst.of_suffix (List.suffix_cons item items)) rfl
      | false =>
        have hne := List.cons_ne_nil item items
        have hend := atStatementEnd_cons hitem items
        -- What a statement leaves of the first members ends in a `;` again.
        have hgoesOn {declaration : Declaration} {rest : Level} {after : Scope}
          {others : List Member}
            (hread : Declaration.read (item :: items) scope = .ok (declaration, rest) after) :
            readMembers (rest ++ second) after = .ok others last ↔
              ∃ before middle behind, readMembers rest after = .ok before middle ∧
                readMembers second middle = .ok behind last ∧ others = before ++ behind := by
          have hrest : rest <:+ item :: items :=
            (Declaration.read_rest (item :: items) scope).of_ok hread
          have hafter := Declaration.not_knows_semicolon_of_read hsemicolon hplain.of_append hread
          have hlength : rest.length < (item :: items).length := length_lt_of_suffix_next hne
            ((Declaration.read_progress hend scope).of_ok hread)
          refine ih rest.length hlength hafter (hplain.of_reaches (reaches_of_suffix ?_))
            (hfirst.of_suffix hrest) rfl
          obtain ⟨taken, htaken⟩ := hrest
          exact ⟨taken, by rw [← List.append_assoc, htaken]⟩
        have hstatement {declaration : Declaration} {rest : Level} {after : Scope} :
            Declaration.read (item :: (items ++ second)) scope = .ok (declaration, rest) after ↔
              ∃ rest', rest = rest' ++ second ∧
                Declaration.read (item :: items) scope = .ok (declaration, rest') after :=
          Declaration.read_append_eq_ok_iff hsemicolon hplain hfirst hne hbody
        rw [List.cons_append, readMembers_eq_ok_iff (atStatementEnd_cons hitem _)]
        constructor
        · rintro ⟨declaration, rest, after, others, hread, hothers, rfl⟩
          obtain ⟨rest', rfl, hfirstRead⟩ := hstatement.mp hread
          obtain ⟨before, middle, behind, hbefore, hbehind, rfl⟩ := (hgoesOn hfirstRead).mp hothers
          exact ⟨_, middle, behind, (readMembers_eq_ok_iff hend).mpr
            ⟨declaration, rest', after, before, hfirstRead, hbefore, rfl⟩, hbehind, rfl⟩
        · rintro ⟨front, middle, behind, hfront, hbehind, rfl⟩
          obtain ⟨declaration, rest, after, before, hread, hbefore, rfl⟩ :=
            (readMembers_eq_ok_iff hend).mp hfront
          exact ⟨declaration, rest ++ second, after, before ++ behind,
            hstatement.mpr ⟨rest, rfl, hread⟩,
            (hgoesOn hread).mpr ⟨before, middle, behind, hbefore, hbehind, rfl⟩, rfl⟩

end TypeDecl

namespace Declaration

/-! ### Both sources -/

/-- Where no `;` on a level plays a role, reading the level makes it no name of a type. -/
theorem not_knows_semicolon_readAll (dialect : Dialect) (hsound : scope.types.Sound)
    (hplain : level.PlainSemicolons) (h : scope.knows ";" = false) :
    (readAll dialect scope level).scope.knows ";" = false := by
  have hgrows := (sound_readAll dialect scope level hsound).1
  have hevolves := evolves_readAll dialect scope level
  rw [Bool.eq_false_iff, Ne, Scope.knows_iff] at h ⊢
  rintro ⟨hhidden, hkey⟩
  rw [hgrows.hidden_eq] at hhidden
  rcases hevolves.of_mem_keys hkey with hbefore | hoffers
  · exact h ⟨hhidden, hbefore⟩
  · exact hplain.ne_of_offers hoffers rfl

theorem plainSemicolons_of_ofSource (hsemicolon : scope.Plain ";") {source : String}
    {trees : List TokenTree} (h : TokenTree.ofSource .c scope source = .ok trees) :
    (TokenTree.items Node.rolesOf trees).PlainSemicolons := by
  refine TokenTree.plain_items (TokenTree.all_semicolon hsemicolon.not_isQualifier h)
    fun token _ hcls => ?_
  rw [Node.rolesOf, hcls]
  rfl

theorem isGroup_brace_items {trees : List TokenTree}
    (h : ∀ contents rest, trees ≠ .group .brace contents :: rest) :
    Level.isGroup (TokenTree.items Node.rolesOf trees) .brace = false := by
  cases trees with
  | nil => rfl
  | cons tree rest =>
    cases tree with
    | leaf token => rfl
    | group bracket contents =>
      cases bracket with
      | parenthesis => rfl
      | square => rfl
      | brace => exact absurd rfl (h contents rest)

theorem knows_of_grows {later : Scope} (h : scope.Grows later) {word : String}
    (hword : scope.knows word = true) : later.knows word = true := by
  rw [Scope.knows_iff] at hword ⊢
  rw [h.hidden_eq]
  exact ⟨hword.1, h.keys_grow.subset hword.2⟩

/-- **Sources are read one after the other as they are read when they are joined.**  The first one
ends in a `;`, the second one does not start with a body, and the joined source can be read.  What
is read of the first one is the same in any case; what is read of the second one is, if no name that
it declares is the name of a type since the first one was read. -/
theorem ofSource_append (hsound : scope.types.Sound) (hsemicolon : scope.Plain ";")
    {first second : String} (happart : Comment.EndsApart first) {front : List TokenTree}
    (hfirst : TokenTree.ofSource .c scope first = .ok (front ++ [.leaf ⟨";", .operator⟩]))
    (hbody : ∀ contents rest, TokenTree.ofSource .c scope second ≠
      .ok (.group .brace contents :: rest))
    {declarations : List Declaration} {after : Scope}
    (hjoined : ofSource .c (first ++ "\n" ++ second) scope = .ok declarations after) :
    ∃ before middle behind, declarations = before ++ behind ∧
      ofSource .c first scope = .ok before middle ∧
      ((∀ name ∈ declaredNamesOf behind, middle.knows name = true → scope.knows name = true) →
        ofSource .c second middle = .ok behind after) := by
  obtain ⟨trees, htrees, hread⟩ := ofSource_eq_ok_iff.mp hjoined
  have hplain := plainSemicolons_of_ofSource hsemicolon htrees
  -- The trees of the second source stand behind those of the first one.
  rw [TokenTree.ofSource_newline hfirst happart] at htrees
  cases hsecond : TokenTree.ofSource .c scope second with
  | error fault =>
    rw [hsecond] at htrees
    cases htrees
  | ok others =>
    rw [hsecond] at htrees
    cases htrees
    have hends : Level.EndsInSemicolon
        (TokenTree.items Node.rolesOf (front ++ [.leaf ⟨";", .operator⟩])) :=
      Or.inr ⟨TokenTree.items Node.rolesOf front, by rw [TokenTree.items_append]; rfl⟩
    have hbody' := isGroup_brace_items fun contents rest heq => hbody contents rest (heq ▸ hsecond)
    rw [TokenTree.items_append] at hread hplain
    obtain ⟨hfault, happend⟩ :=
      readAll_append hsemicolon.not_known hplain hends hbody' (by rw [hread])
    have hgrows := (sound_readAll .c scope
      (TokenTree.items Node.rolesOf (front ++ [.leaf ⟨";", .operator⟩])) hsound).1
    have hstays := not_knows_semicolon_readAll .c hsound
      (plainSemicolons_of_ofSource hsemicolon hfirst) hsemicolon.not_known
    cases hbefore :
      readAll .c scope (TokenTree.items Node.rolesOf (front ++ [.leaf ⟨";", .operator⟩])) with
    | mk before fault? middle =>
      rw [hbefore] at hfault happend hstays hgrows
      have hgrows : scope.Grows middle := hgrows
      obtain rfl : fault? = none := hfault
      rw [hread] at happend
      cases hbehind : readAll .c middle (TokenTree.items Node.rolesOf others) with
      | mk behind fault?' last =>
        dsimp only at happend
        rw [hbehind, Outcome.mk.injEq] at happend
        obtain ⟨rfl, rfl, rfl⟩ := happend
        refine ⟨before, middle, behind, rfl, ofSource_eq_ok_iff.mpr ⟨_, hfirst, hbefore⟩,
          fun hnames => ?_⟩
        -- The second source is cut into the same trees, up to words that name types by now.
        obtain ⟨others', hothers', halike⟩ :=
          TokenTree.ofSource_alike hgrows.settings_eq (fun _ => knows_of_grows hgrows) hsecond
        have hsuits : middle.Suits fun word =>
          middle.knows word = true ∧ scope.knows word = false :=
          ⟨fun _ hword => hword.1, hstays⟩
        have hspares : Spares (fun word => middle.knows word = true ∧ scope.knows word = false)
            (declaredNamesOf behind) := by
          rintro name hname ⟨hlater, hearlier⟩
          rw [hnames name hname hlater] at hearlier
          cases hearlier
        refine ofSource_eq_ok_iff.mpr ⟨others', hothers', ?_⟩
        rw [readAll_alike (plainSemicolons_of_ofSource hsemicolon hsecond)
          (alike_nil_iff.mpr halike) hsuits
          (by rw [hbehind]) (by rwa [hbehind]), hbehind]

/-- The first source declares a list type, the second one pointers to it and a function of it. -/
theorem ofSource_append_node :
    ∃ before middle behind after,
      ofSource .c ("struct Node \x7b int v; \x7d;" ++ "\n" ++ "struct Node *next; Node f(Node);")
          (Scope.ofSettings {}) = .ok (before ++ behind) after ∧
      ofSource .c "struct Node \x7b int v; \x7d;" (Scope.ofSettings {}) = .ok before middle ∧
      ofSource .c "struct Node *next; Node f(Node);" middle = .ok behind after ∧
      declaredNamesOf before = ["v"] ∧ declaredNamesOf behind = ["next", "f"] ∧
      middle.knows "Node" = true := by
  have hsemicolon : (Scope.ofSettings {}).Plain ";" := ⟨by decide, by decide⟩
  have hfirst : TokenTree.ofSource .c (Scope.ofSettings {}) "struct Node \x7b int v; \x7d;" =
      .ok ([.leaf ⟨"struct", .qualifier⟩, .leaf ⟨"Node", .unresolved⟩, .group .brace
        [.leaf ⟨"int", .typeName⟩, .leaf ⟨"v", .unresolved⟩, .leaf ⟨";", .operator⟩]] ++
        [.leaf ⟨";", .operator⟩]) := by
    decide +kernel
  -- The second source starts with a word and not with a body.
  have hbody : ∀ contents rest,
      TokenTree.ofSource .c (Scope.ofSettings {}) "struct Node *next; Node f(Node);" ≠
        .ok (.group .brace contents :: rest) := by
    have hstart : (TokenTree.ofSource .c (Scope.ofSettings {})
        "struct Node *next; Node f(Node);").toOption.bind List.head? =
          some (.leaf ⟨"struct", .qualifier⟩) := by
      decide +kernel
    intro contents rest h
    rw [h] at hstart
    cases hstart
  have hread : Ends (ofSource .c ("struct Node \x7b int v; \x7d;" ++ "\n" ++
      "struct Node *next; Node f(Node);")) (Scope.ofSettings {})
      (fun declarations _ => declaredNamesOf declarations = ["v", "next", "f"]) fun _ => False := by
    decide +kernel
  have hreadFirst : Ends (ofSource .c "struct Node \x7b int v; \x7d;") (Scope.ofSettings {})
      (fun before middle => declaredNamesOf before = ["v"] ∧ middle.knows "Node" = true ∧
        ∀ name ∈ ["next", "f"], ¬ middle.knows name = true) fun _ => False := by
    decide +kernel
  obtain ⟨declarations, after, hjoined, hnames⟩ := hread.exists_ok
  obtain ⟨before, middle, behind, rfl, hbefore, hbehind⟩ :=
    ofSource_append (TypeTable.sound_ofSettings {}) hsemicolon (by decide +kernel)
      hfirst hbody hjoined
  obtain ⟨hv, hnode, hunknown⟩ := hreadFirst.of_ok hbefore
  rw [declaredNamesOf, List.flatMap_append] at hnames
  change declaredNamesOf before ++ declaredNamesOf behind = ["v"] ++ ["next", "f"] at hnames
  rw [hv, List.append_cancel_left_eq] at hnames
  refine ⟨before, middle, behind, after, hjoined, hbefore, hbehind ?_, hv, hnames, hnode⟩
  rw [hnames]
  exact fun name hname hknown => (hunknown name hname hknown).elim

/-- Two sources of C, the second one read in the scope that the first one leaves. -/
def ofSources (first second : String) : Reading (List Declaration) := do
  return (← ofSource .c first) ++ (← ofSource .c second)

/-- What declarations read in a new session declare, types or other names, and how they are written.
-/
def shown? (settings : Settings) (reading : Reading (List Declaration)) :
    Option (List (Bool × String)) :=
  match reading (Scope.ofSettings settings) with
  | .ok declarations _ =>
    some (declarations.map fun declaration =>
      (match declaration with | .type _ _ => true | .names _ => false, declaration.render 0))
  | .error _ _ => none

/-- Two sources of which the first one ends in a `;` show the same declarations when they are
joined. -/
def Composes (settings : Settings) (first second : String) : Prop :=
  ((TokenTree.ofSource .c (Scope.ofSettings settings) first).toOption.bind List.getLast?).map
      TokenTree.text = some ";" →
    shown? settings (ofSources first second) =
      shown? settings (ofSource .c (first ++ "\n" ++ second))

instance (settings : Settings) (first second : String) :
    Decidable (Composes settings first second) :=
  inferInstanceAs (Decidable (_ → _))

/-- None of the conditions above can be left out: a name that the second source declares may be no
type since the first one, whether it is the name of a variable or of a typedef; a `;` may be neither
a qualifier nor a type; nothing of the first source may go on in the second one; and the second one
may not start with a body, which counts as the body of qualifiers without a type. -/
theorem ofSource_append_limits :
    ¬ Composes {} "struct Node \x7b int v; \x7d;" "int Node;" ∧
    ¬ Composes {} "typedef struct Node Node;" "typedef struct Node Node;" ∧
    ¬ Composes { extraQualifiers := [";"] } "int *;" "x;" ∧
    ¬ Composes { builtinTypes := [";"] } "const;" "x;" ∧
    ¬ Composes {} "char s = \"/*\";" "char t = \"*/\";" ∧
    ¬ Composes {} "const;" "\x7b int x; \x7d;" := by
  decide +kernel

end Declaration

end CommonDecl
