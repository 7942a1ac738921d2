import CommonDecl.Proofs.Arguments
import CommonDecl.Proofs.Boundaries
import CommonDecl.Proofs.WellFormed

/-!
# Lists of arguments

An argument list is cut at its commas, and each part is read as if nothing else stood in the list
(`Declarator.exists_readArguments_apart`).  A declarator has at most one list behind its name or its
nests, and each of its nests has at most one behind the nest inside it (`Declarator.argumentLists`).
In a source whose settings leave the comma alone, all these lists are read in this way, and so are
those of every argument (`Declarator.exists_read_apart`).
-/

namespace CommonDecl.Declarator

open Level

variable {scope : Scope} {level root list : Level} {template : Option Declarator}

/-! ### Parts -/

/-- The parts of a list between its commas.  Where nothing stands behind the last comma, there is no
part. -/
def argumentParts (list : Level) : List Level :=
  let parts := list.splitOnP (Item.isToken ",")
  if parts.getLast?.any List.isEmpty then parts.dropLast else parts

theorem argumentParts_of_noComma (h : NoComma list) :
    argumentParts list = if list.isEmpty then [] else [list] := by
  rw [argumentParts, List.splitOnP_eq_singleton h]
  rfl

theorem argumentParts_comma {part : Level} (h : NoComma part) {comma : Item}
    (hcomma : comma.isToken "," = true) (others : Level) :
    argumentParts (part ++ comma :: others) = part :: argumentParts others := by
  have hne := List.splitOnP_ne_nil (Item.isToken ",") others
  rw [argumentParts, argumentParts, List.splitOnP_append_cons_of_forall_mem h comma hcomma,
    List.getLast?_cons_of_ne_nil hne, List.dropLast_cons_of_ne_nil hne]
  split <;> rfl

/-- A list has no comma, or a first one. -/
theorem noComma_or_exists_comma (list : Level) :
    NoComma list ∨
      ∃ part comma others, NoComma part ∧ comma.isToken "," = true ∧
        list = part ++ comma :: others := by
  induction list with
  | nil => exact .inl (by simp [NoComma])
  | cons item rest ih =>
    cases hitem : item.isToken "," with
    | true => exact .inr ⟨[], item, rest, by simp [NoComma], hitem, rfl⟩
    | false =>
      rcases ih with h | ⟨part, comma, others, hpart, hcomma, rfl⟩
      · exact .inl (List.forall_mem_cons.mpr ⟨hitem, h⟩)
      · exact .inr ⟨item :: part, comma, others, List.forall_mem_cons.mpr ⟨hitem, hpart⟩, hcomma,
          rfl⟩

/-- What holds of the last part of any list, and of a first part if it holds of the others, holds of
all lists. -/
theorem induction_parts {p : Level → Prop} (hlast : ∀ list, NoComma list → p list)
    (hcomma : ∀ part comma others, NoComma part → comma.isToken "," = true → p others →
      p (part ++ comma :: others))
    (list : Level) : p list := by
  induction hlength : list.length using Nat.strong_induction_on generalizing list with
  | _ length ih =>
  rcases noComma_or_exists_comma list with h | ⟨part, comma, others, hpart, htoken, rfl⟩
  · exact hlast list h
  · exact hcomma part comma others hpart htoken
      (ih others.length (by simp [← hlength]; omega) others rfl)

/-- Each part of a list stands in it. -/
theorem infix_of_mem_argumentParts {part : Level} (h : part ∈ argumentParts list) :
    part <:+: list := by
  induction list using induction_parts with
  | hlast list hlist =>
    rw [argumentParts_of_noComma hlist] at h
    split at h
    · cases h
    · rw [List.mem_singleton.mp h]
  | hcomma first comma others hfirst htoken ih =>
    rw [argumentParts_comma hfirst htoken] at h
    rcases List.mem_cons.mp h with rfl | h
    · exact (List.prefix_append part _).isInfix
    · exact (ih h).trans ((List.suffix_cons comma others).trans (List.suffix_append _ _)).isInfix

/-- Each of the arguments is what the part at its place is read as where it stands alone. -/
def ReadApart (scope : Scope) (list : Level) (arguments : List Declarator) : Prop :=
  List.Forall₂ (fun part argument => ∃ rest, read scope none {} part = .ok (argument, rest))
    (argumentParts list) arguments

/-- A list is read part by part. -/
theorem exists_readArguments_apart (hknows : scope.knows "," = false) (list : Level)
    (hplain : ∀ item ∈ list, item.isToken "," = true → item.roles = {}) :
    ∃ arguments, readArguments scope list = .ok arguments ∧ ReadApart scope list arguments := by
  induction list using induction_parts with
  | hlast list hlist =>
    unfold ReadApart
    rw [argumentParts_of_noComma hlist]
    cases list with
    | nil => exact ⟨[], readArguments_nil scope, .nil⟩
    | cons item rest =>
      obtain ⟨⟨argument, left⟩, hread⟩ := exists_read scope none {} (item :: rest)
      exact ⟨[argument], readArguments_last (List.cons_ne_nil _ _) hlist hread,
        .cons ⟨left, hread⟩ .nil⟩
  | hcomma part comma others hpart htoken ih =>
    rw [List.forall_mem_append, List.forall_mem_cons] at hplain
    obtain ⟨⟨argument, left⟩, hread⟩ := exists_read scope none {} part
    obtain ⟨arguments, harguments, hparts⟩ := ih hplain.2.2
    have hlist := readArguments_comma hknows ⟨htoken, hplain.2.1 htoken⟩ hpart hread harguments
    refine ⟨argument :: arguments, hlist, ?_⟩
    rw [ReadApart, argumentParts_comma hpart htoken]
    exact .cons ⟨left, hread⟩ hparts

/-! ### The lists of a declarator -/

/-- The list behind the nest inside each of so many nests, where one stands there. -/
def nestLists : Nat → Level → List (Option Level)
  | 0, _ => []
  | depth + 1, level =>
    match level.contents? with
    | none => []
    | some contents =>
      (outsideNest depth contents).groupContents? .parenthesis ::
        nestLists depth (insideNest contents)

/-- The argument list of a declarator and those of its nests, outermost first. -/
def argumentLists (scope : Scope) (template : Option Declarator) (level : Level) :
    List (Option Level) :=
  let core := afterTypePart scope template level
  argumentListAt? scope template level :: nestLists (nestsAt core) core

/-- What stands behind a name or a nest is recorded as arguments: the list that is there, part by
part, or no arguments where there is none. -/
def HoldsArguments (scope : Scope) (list? : Option Level) (holder : Declarator) : Prop :=
  match list? with
  | some list => holder.kind ≠ .variable ∧ ReadApart scope list holder.arguments
  | none => holder.kind = .variable ∧ holder.arguments = []

/-- Reading the root reads a declarator from this level: the root itself, or the part of a list in
such a level. -/
inductive Reads (scope : Scope) (template : Option Declarator) (root : Level) :
    Option Declarator → Level → Prop
  | root : Reads scope template root template root
  | part {shared : Option Declarator} {level list part : Level} :
    Reads scope template root shared level →
      some list ∈ argumentLists scope shared level → part ∈ argumentParts list →
        Reads scope template root none part

/-- A list of a nest stands in the level. -/
theorem reaches_of_mem_nestLists {depth : Nat} (hlist : some list ∈ nestLists depth level) :
    level.Reaches list := by
  induction depth generalizing level with
  | zero => cases hlist
  | succ depth ih =>
    rw [nestLists] at hlist
    split at hlist
    · cases hlist
    · rename_i contents hcontents
      have hinside : level.Reaches contents := .inside .start hcontents
      rcases List.mem_cons.mp hlist with hhere | hdeeper
      · exact (hinside.rest (outsideNest_suffix depth contents)).trans
          (reaches_of_groupContents? hhere.symm)
      · exact (hinside.rest (insideNest_suffix contents)).trans (ih hdeeper)

theorem behindName_suffix (nests : Nat) (core : Level) : behindName nests core <:+ core := by
  rw [behindName]
  split
  · exact afterName_suffix core
  · exact next_suffix core

/-- A list of a declarator or of its nests stands in the level. -/
theorem reaches_of_mem_argumentLists (hlist : some list ∈ argumentLists scope template level) :
    level.Reaches list := by
  have hcore := reaches_of_suffix (afterTypePart_suffix scope template level)
  rcases List.mem_cons.mp hlist with hown | hnest
  · exact (hcore.rest (behindName_suffix _ _)).trans (reaches_of_groupContents? hown.symm)
  · exact hcore.trans (reaches_of_mem_nestLists hnest)

/-- Where the comma plays no role in the root, it plays none in what is read. -/
theorem Reads.plain {shared : Option Declarator} (hreads : Reads scope template root shared level)
    (hplain : root.Plain ",") : level.Plain "," := by
  induction hreads with
  | root => exact hplain
  | part _ hlist hpart ih =>
    obtain ⟨before, behind, hinfix⟩ := infix_of_mem_argumentParts hpart
    have hlist := ih.of_reaches (reaches_of_mem_argumentLists hlist)
    rw [← hinfix, List.append_assoc] at hlist
    exact (hlist.of_reaches (reaches_of_suffix (List.suffix_append _ _))).of_append

/-! ### Reading the lists -/

/-- The arguments of a declarator are read from what stands behind its name or its nests. -/
theorem exists_readArgumentList_behindName {nests : Nat} {core rest : Level}
    {arguments : List Declarator} (h : if (kindAt nests core).isFunction then
        readArgumentList scope (afterNests nests (kindAt nests core) core) = .ok (some arguments) ∧
          rest = (afterNests nests (kindAt nests core) core).next
      else arguments = [] ∧ rest = afterNests nests (kindAt nests core) core) :
    ∃ found, readArgumentList scope (behindName nests core) = .ok found ∧
      (kindAt nests core = .variable ↔ found = none) ∧ arguments = found.getD [] := by
  rw [isFunction_kindAt, afterNests_kindAt] at h
  split at h
  · rename_i hgroup
    rw [(dimensions_of_parenthesis hgroup).2] at h
    refine ⟨some arguments, h.1, ?_, rfl⟩
    rw [kindAt_behindName, if_pos hgroup]
    split_ifs <;> simp
  · rename_i hgroup
    have hnone : (behindName nests core).groupContents? .parenthesis = none :=
      Option.eq_none_iff_forall_ne_some.mpr fun _ hlist => hgroup (isGroup_of_groupContents? hlist)
    exact ⟨none, readArgumentList_of_none hnone, by rw [kindAt_behindName, if_neg hgroup]; simp,
      h.1⟩

section

variable (hknows : scope.knows "," = false)

include hknows

/-- Whoever gets what is read behind a name or a nest holds the arguments there. -/
theorem holdsArguments_of_readArgumentList (hplain : level.Plain ",")
    {arguments : Option (List Declarator)} (hread : readArgumentList scope level = .ok arguments)
    {holder : Declarator} (hkind : holder.kind = .variable ↔ arguments = none)
    (harguments : holder.arguments = arguments.getD []) :
    HoldsArguments scope (level.groupContents? .parenthesis) holder := by
  cases hlist : level.groupContents? .parenthesis with
  | none =>
    rw [readArgumentList_of_none hlist] at hread
    cases hread
    exact ⟨hkind.mpr rfl, harguments⟩
  | some list =>
    have hplain := hplain.of_reaches (reaches_of_groupContents? hlist)
    obtain ⟨found, hfound, hapart⟩ := exists_readArguments_apart hknows list fun item =>
      hplain.roles_eq
    rw [readArgumentList_of_group hlist, hfound] at hread
    cases hread
    rw [Option.getD_some] at harguments
    exact ⟨fun h => Option.some_ne_none _ (hkind.mp h), harguments ▸ hapart⟩

/-- Each nest holds the arguments behind the nest inside it. -/
theorem holdsArguments_of_readNests {depth : Nat} {nests : List Declarator} {innermost : Level}
    (hplain : level.Plain ",") (hread : readNests scope depth level = .ok (nests, innermost)) :
    List.Forall₂ (HoldsArguments scope) (nestLists depth level) nests := by
  induction depth generalizing level nests with
  | zero =>
    rw [readNests_zero] at hread
    cases hread
    exact .nil
  | succ depth ih =>
    obtain ⟨contents, arguments, inner, hcontents, hlist, hinner, rfl⟩ :=
      exists_of_readNests_succ hread
    have hinside := hplain.of_reaches (.inside .start hcontents)
    have houtside := hinside.of_reaches (reaches_of_suffix (outsideNest_suffix depth contents))
    rw [nestLists, hcontents]
    refine .cons (holdsArguments_of_readArgumentList hknows houtside hlist ?_
      (arguments_nestOf _ _ _)) ?_
    · cases arguments <;> simp [nestOf]
    · exact ih (hinside.of_reaches (reaches_of_suffix (insideNest_suffix contents))) hinner

/-- Where the comma plays no role, a declarator and its nests hold the arguments that stand in their
lists. -/
theorem exists_read_holdsArguments (template : Option Declarator) (hplain : level.Plain ",") :
    ∃ declarator rest, read scope template {} level = .ok (declarator, rest) ∧
      List.Forall₂ (HoldsArguments scope) (argumentLists scope template level)
        (declarator :: declarator.nests) := by
  obtain ⟨⟨declarator, rest⟩, hread⟩ := exists_read scope template {} level
  refine ⟨declarator, rest, hread, ?_⟩
  obtain ⟨nests, innermost, arguments, hnests, rfl, hrest⟩ := read_eq_ok_iff.mp hread
  have hcore := hplain.of_reaches (reaches_of_suffix (afterTypePart_suffix scope template level))
  rw [nests_assemble]
  refine .cons ?_ (holdsArguments_of_readNests hknows hcore hnests)
  have hbehind := hcore.of_reaches
    (reaches_of_suffix (behindName_suffix (nestsAt (afterTypePart scope template level)) _))
  obtain ⟨found, hfound, hkind, harguments⟩ := exists_readArgumentList_behindName hrest
  exact holdsArguments_of_readArgumentList hknows hbehind hfound (by rwa [kind_assemble])
    (by rwa [arguments_assemble])

end

/-- In a source whose settings leave the comma alone, each list of arguments is read part by part:
those of the declarator that is read, those of its nests, and so on for every argument. -/
theorem exists_read_apart (hcomma : scope.Plain ",") (hroot : SourceLevel scope.settings root)
    {shared : Option Declarator} (hreads : Reads scope template root shared level) :
    ∃ declarator rest, read scope shared {} level = .ok (declarator, rest) ∧
      List.Forall₂ (HoldsArguments scope) (argumentLists scope shared level)
        (declarator :: declarator.nests) := by
  have hplain : root.Plain "," :=
    hroot.plain (fun _ hshape => (congrArg Prod.fst hshape).symm) hcomma.not_isQualifier
  exact exists_read_holdsArguments hcomma.not_known shared (hreads.plain hplain)

/-- The items of `float (*g)(int)`. -/
def pointerArgument : Level :=
  [.token "float" .typeName,
    .group "(" {} [.token "*" { isQualifier := true }, .token "g" .unresolved],
    .group "(" {} [.token "int" .typeName]]

/-- The items of `int (*(*f)(char *, ))(float (*g)(int), x)`. -/
def returnsPointer : Level :=
  [.token "int" .typeName,
    .group "(" {} [.token "*" { isQualifier := true },
      .group "(" {} [.token "*" { isQualifier := true }, .token "f" .unresolved],
      .group "(" {} [.token "char" .typeName, .token "*" { isQualifier := true }, .token "," {}]],
    .group "(" {} (pointerArgument ++ [.token "," {}, .token "x" .unresolved])]

theorem sourceLevel_returnsPointer : SourceLevel {} returnsPointer := by
  have htrees :
      TokenTree.ofSource .c (Scope.ofSettings {}) "int (*(*f)(char *, ))(float (*g)(int), x)" =
      .ok [.leaf ⟨"int", .typeName⟩,
        .group .parenthesis [.leaf ⟨"*", .qualifier⟩,
          .group .parenthesis [.leaf ⟨"*", .qualifier⟩, .leaf ⟨"f", .unresolved⟩],
          .group .parenthesis [.leaf ⟨"char", .typeName⟩, .leaf ⟨"*", .qualifier⟩,
            .leaf ⟨",", .operator⟩]],
        .group .parenthesis [.leaf ⟨"float", .typeName⟩,
          .group .parenthesis [.leaf ⟨"*", .qualifier⟩, .leaf ⟨"g", .unresolved⟩],
          .group .parenthesis [.leaf ⟨"int", .typeName⟩], .leaf ⟨",", .operator⟩,
          .leaf ⟨"x", .unresolved⟩]] := by
    decide +kernel
  exact ⟨.c, Scope.ofSettings {}, _, _, rfl, htrees, .inl .start⟩

/-- A pointer to a function that returns one has two lists, and an argument that is one has its own.
-/
theorem exists_read_apart_pointerArgument :
    (Scope.ofSettings {}).Plain "," ∧ SourceLevel {} returnsPointer ∧
      Reads (Scope.ofSettings {}) none returnsPointer none pointerArgument ∧
      ∃ declarator rest, read (Scope.ofSettings {}) none {} pointerArgument =
        .ok (declarator, rest) ∧ List.Forall₂ (HoldsArguments (Scope.ofSettings {}))
          (argumentLists (Scope.ofSettings {}) none pointerArgument)
            (declarator :: declarator.nests) := by
  have hplain : (Scope.ofSettings {}).Plain "," := ⟨by decide, by decide⟩
  have hlists : argumentLists (Scope.ofSettings {}) none returnsPointer =
      [some (pointerArgument ++ [.token "," {}, .token "x" .unresolved]),
        some [.token "char" .typeName, .token "*" { isQualifier := true }, .token "," {}],
        none] := by
    cbv
  have hreads : Reads (Scope.ofSettings {}) none returnsPointer none pointerArgument := by
    refine .part .root (hlists ▸ List.mem_cons_self) ?_
    exact List.mem_cons_self
  exact ⟨hplain, sourceLevel_returnsPointer, hreads,
    exists_read_apart hplain sourceLevel_returnsPointer hreads⟩

end CommonDecl.Declarator
