import CommonDecl.Proofs.Comparisons
import CommonDecl.Proofs.Faults

/-!
# Steps in two scopes

The readers of statements are steps that change the scope.  A step simulates another one
(`Comparison.Simulates`) if it gives a related result where the other one gives one, and fails where
that fails, and the scopes that both leave can be compared again.  The parts of statements are
compared here: lists of declarators, what makes a statement declare a type, and what stands beside a
type.  The types themselves may have bodies that are not read alike (`TypeDecl.Follows`).
-/

namespace CommonDecl

open Level

variable {first second : TypeRef → TypeRef} {C : Comparison first second}
  {scope scope' : Scope} {tail tail' level level' rest : Level}

/-! ### Steps in two scopes -/

/-- Where the one step gives a result that declares no added name, the other step gives one that is
related, and both leave scopes that can be compared again.  Where the one step fails and no names
are added, the other one fails as well. -/
def Comparison.Simulates {α β : Type} (C : Comparison first second) (names : α → List String)
    (related : α → β → Prop) (step : Reading α) (step' : Reading β) (scope scope' : Scope) : Prop :=
  match step scope with
  | .ok a after => Spares C.added (names a) →
    ∃ a' after', step' scope' = .ok a' after' ∧ related a a' ∧ C.Scopes after after'
  | .error fault after => (∀ name, ¬ C.added name) →
    ∃ fault' after', step' scope' = .error fault' after' ∧ C.Fails (fault, after) (fault', after')

namespace Comparison

/-- The results are related, and what is left to read can be compared again. -/
abbrev WithRest {α β : Type} (C : Comparison first second) (tail tail' : Level)
    (related : α → β → Prop) (result : α × Level) (result' : β × Level) : Prop :=
  related result.1 result'.1 ∧ C.Levels tail tail' result.2 result'.2

section

variable {α β γ δ : Type} {names : α → List String} {names' : γ → List String}
  {related : α → β → Prop} {related' : γ → δ → Prop} {step : Reading α} {step' : Reading β}

/-- A step that simulates one with a result gives a related result. -/
theorem Simulates.of_ok (h : C.Simulates names related step step' scope scope') {a : α}
    {after : Scope} (hok : step scope = .ok a after) (hspares : Spares C.added (names a)) :
    ∃ a' after', step' scope' = .ok a' after' ∧ related a a' ∧ C.Scopes after after' := by
  unfold Simulates at h
  rw [hok] at h
  exact h hspares

/-- A step that simulates one with a fault has a fault, where no names are added. -/
theorem Simulates.of_error (h : C.Simulates names related step step' scope scope') {fault : Fault}
    {after : Scope} (herror : step scope = .error fault after) (hnone : ∀ name, ¬ C.added name) :
    ∃ fault' after', step' scope' = .error fault' after' ∧
      C.Fails (fault, after) (fault', after') := by
  unfold Simulates at h
  rw [herror] at h
  exact h hnone

/-- Sequences of steps are compared step by step.  The names that the first step declares are among
those that the whole sequence does. -/
theorem Simulates.bind_names {k : α → Reading γ} {k' : β → Reading δ}
    (h : C.Simulates names related step step' scope scope')
    (hnames : ∀ a after c last, step scope = .ok a after → k a after = .ok c last →
      names a ⊆ names' c)
    (hk : ∀ a a' after after', step scope = .ok a after → step' scope' = .ok a' after' →
      related a a' → C.Scopes after after' → C.Simulates names' related' (k a)
      (k' a') after after') :
    C.Simulates names' related' (step >>= k) (step' >>= k') scope scope' := by
  unfold Simulates
  -- The other sequence fails at the same step, or gives its result at the last one.
  cases hstep : step scope with
  | error fault after =>
    rw [bind_of_error hstep]
    intro hnone
    obtain ⟨fault', after', hstep', hfails⟩ := h.of_error hstep hnone
    exact ⟨fault', after', bind_of_error hstep', hfails⟩
  | ok a after =>
    rw [bind_of_ok hstep]
    cases hrest : k a after with
    | ok c last =>
      intro hspares
      have hfirst : Spares C.added (names a) :=
        fun name hname => hspares name (hnames a after c last hstep hrest hname)
      obtain ⟨a', after', hstep', ha, hafter⟩ := h.of_ok hstep hfirst
      obtain ⟨c', last', hrest', hc, hlast⟩ :=
        (hk a a' after after' hstep hstep' ha hafter).of_ok hrest hspares
      exact ⟨c', last', (bind_of_ok hstep').trans hrest', hc, hlast⟩
    | error fault last =>
      intro hnone
      obtain ⟨a', after', hstep', ha, hafter⟩ := h.of_ok hstep fun name _ => hnone name
      obtain ⟨fault', last', hrest', hfails⟩ :=
        (hk a a' after after' hstep hstep' ha hafter).of_error hrest hnone
      exact ⟨fault', last', (bind_of_ok hstep').trans hrest', hfails⟩

/-- A first step that declares no names. -/
theorem Simulates.bind {k : α → Reading γ} {k' : β → Reading δ}
    (h : C.Simulates (fun _ => []) related step step' scope scope')
    (hk : ∀ a a' after after', step scope = .ok a after → step' scope' = .ok a' after' →
      related a a' → C.Scopes after after' → C.Simulates names' related' (k a)
      (k' a') after after') :
    C.Simulates names' related' (step >>= k) (step' >>= k') scope scope' :=
  h.bind_names (fun _ _ _ _ _ _ => List.nil_subset _) hk

/-- A first step that gives a result in both runs. -/
theorem Simulates.after_ok {k : α → Reading γ} {k' : β → Reading δ} {a : α} {a' : β}
    {after after' : Scope} (hstep : step scope = .ok a after)
    (hstep' : step' scope' = .ok a' after')
    (h : C.Simulates names' related' (k a) (k' a') after after') :
    C.Simulates names' related' (step >>= k) (step' >>= k') scope scope' := by
  unfold Simulates
  rwa [bind_of_ok hstep, bind_of_ok hstep']

/-- What is related stays related in a wider sense. -/
theorem Simulates.mono {related₂ : α → β → Prop}
    (h : C.Simulates names related step step' scope scope')
    (hrelated : ∀ a a', related a a' → related₂ a a') :
    C.Simulates names related₂ step step' scope scope' := by
  unfold Simulates at h ⊢
  split at h
  · intro hspares
    obtain ⟨a', after', hstep', ha, hafter⟩ := h hspares
    exact ⟨a', after', hstep', hrelated _ _ ha, hafter⟩
  · exact h

theorem simulates_get_bind {k : Scope → Reading α} {k' : Scope → Reading β} :
    C.Simulates names related (get >>= k) (get >>= k') scope scope' ↔
      C.Simulates names related (k scope) (k' scope') scope scope' := Iff.rfl

variable (hscopes : C.Scopes scope scope')
include hscopes

/-- Related results are given in scopes that can be compared. -/
theorem simulates_pure {a : α} {a' : β} (ha : related a a') :
    C.Simulates names related (pure a) (pure a') scope scope' :=
  fun _ => ⟨a', scope', rfl, ha, hscopes⟩

theorem simulates_throw (fault : Fault) :
    C.Simulates names related (throw fault) (throw fault) scope scope' :=
  fun _ => ⟨fault, scope', rfl, C.fails fault hscopes⟩

/-- What is read without a change of the scope is compared by its results alone. -/
theorem simulates_ofExcept {read : Except Fault α} {read' : Except Fault β}
    (hok : ∃ a, read = .ok a)
    (hread : ∀ a, read = .ok a → Spares C.added (names a) → ∃ a', read' = .ok a' ∧ related a a') :
    C.Simulates names related (Reading.ofExcept read) (Reading.ofExcept read') scope scope' := by
  obtain ⟨a, rfl⟩ := hok
  intro hspares
  obtain ⟨a', rfl, ha⟩ := hread a rfl hspares
  exact ⟨a', scope', rfl, ha, hscopes⟩

variable {declared declared' : TypeDecl} (hdeclares : C.Declares declared declared')
include hdeclares

/-- Types that can be compared are declared in both scopes, under a name that the comparison
allows. -/
theorem simulates_declare (isOpaque : Bool)
    (hname : ∀ name, declared.name? = some name → C.word ≠ some name ∧ (C.isPlain → name ≠ ";")) :
    C.Simulates (fun _ => []) (fun ref ref' => second ref' = first ref)
      (Reading.declare declared isOpaque) (Reading.declare declared' isOpaque) scope scope' :=
  fun _ => ⟨_, _, rfl, C.declare isOpaque hscopes hdeclares hname⟩

/-- Entries of one name are filled in for both scopes, if their references are the same. -/
theorem simulates_define {ref ref' : TypeRef} (href : second ref' = first ref)
    (hkey : scope.types.keys[ref.handle]? = some declared.name?)
    (hkey' : scope'.types.keys[ref'.handle]? = some declared.name?) :
    C.Simulates (fun _ => []) (fun ref ref' => second ref' = first ref)
      (Reading.define ref.handle declared) (Reading.define ref'.handle declared') scope scope' := by
  obtain ⟨defined, types, defined', types', hdefine, hdefine', hsame, hafter⟩ :=
    C.define hscopes hdeclares href hkey hkey'
  have hstep : Reading.define ref.handle declared scope = .ok defined { scope with types } := by
    rw [Reading.define, hdefine]
  have hstep' : Reading.define ref'.handle declared' scope' =
      .ok defined' { scope' with types := types' } := by
    rw [Reading.define, hdefine']
  unfold Simulates
  rw [hstep]
  exact fun _ => ⟨defined', _, hstep', hsame, hafter⟩

end

end Comparison

open Comparison

/-! ### Lists of declarators -/

section

variable (hscopes : C.Scopes scope scope') (h : C.Levels tail tail' level level')
include hscopes h

namespace Declarator

/-- Lists of declarators are read to the same declarators, and to rests that can be compared. -/
theorem readSeparated_sameBy {template template' : Option Declarator}
    {declarators : List Declarator}
    (htemplate : template'.map (mapRefs second) = template.map (mapRefs first))
    (hread : readSeparated (read scope template {}) level = .ok (declarators, rest))
    (hspares : Spares C.added (declaredNamesOf declarators)) :
    ∃ declarators' rest', readSeparated (read scope' template' {}) level' =
      .ok (declarators', rest') ∧ SameAllBy first second declarators declarators' ∧
        C.Levels tail tail' rest rest' := by
  -- Along the list of the first level; the second one ends, and goes on, at the same items.
  induction level using readSeparated_induct generalizing level' declarators with
  | ends level hend =>
    rw [readSeparated, if_pos hend] at hread
    cases hread
    rw [readSeparated, if_pos (by rwa [← h.alike.atStatementEnd_eq h.stop])]
    exact ⟨[], level', rfl, rfl, h⟩
  | declarator level hend ih =>
    rw [readSeparated, if_neg hend] at hread
    rw [readSeparated, if_neg (by rwa [← h.alike.atStatementEnd_eq h.stop])]
    obtain ⟨⟨declarator, middle⟩, hfirst, hread⟩ := bind_eq_ok_iff.mp hread
    dsimp only at hread
    split at hread
    · rename_i hlt
      obtain ⟨⟨others, last⟩, hothers, hread⟩ := bind_eq_ok_iff.mp hread
      cases hread
      rw [declaredNamesOf, spares_append] at hspares
      obtain ⟨declarator', middle', hfirst', hsame, hmiddle⟩ :=
        read_sameBy hscopes h htemplate hfirst hspares.1
      have hafter := hmiddle.afterDeclarator
      obtain ⟨others', last', hothers', hall, hlast⟩ := ih middle hlt hafter hothers hspares.2
      refine ⟨declarator' :: others', last', bind_eq_ok_iff.mpr ⟨_, hfirst', ?_⟩, ?_, hlast⟩
      · dsimp only
        rw [if_pos ((h.alike.size_lt_iff hafter.alike).1.mp hlt), hothers']
        rfl
      · rw [SameAllBy, mapRefsAll, mapRefsAll, hsame, hall]
    -- A declarator that takes no items ends both lists, as the rests are equally long.
    · rename_i hlt
      cases hread
      rw [declaredNamesOf, spares_append] at hspares
      obtain ⟨declarator', middle', hfirst', hsame, hmiddle⟩ :=
        read_sameBy hscopes h htemplate hfirst hspares.1
      have hafter := hmiddle.afterDeclarator
      refine ⟨[declarator'], _, bind_eq_ok_iff.mpr ⟨_, hfirst', ?_⟩, ?_, hafter⟩
      · dsimp only
        rw [if_neg fun hlt' => hlt ((h.alike.size_lt_iff hafter.alike).1.mpr hlt')]
        rfl
      · simp only [SameAllBy, mapRefsAll, hsame]

end Declarator

namespace Declaration

/-- The further declarators of a list are the same in both scopes. -/
theorem readFurther_sameBy {shared shared' last last' : Declarator} {declarators : List Declarator}
    (hshared : shared.SameBy first second shared') (hlast : last.SameBy first second last')
    (hread : readFurther scope shared last level = .ok (declarators, rest))
    (hspares : Spares C.added (Declarator.declaredNamesOf declarators)) :
    ∃ declarators' rest', readFurther scope' shared' last' level' = .ok (declarators', rest') ∧
      Declarator.SameAllBy first second declarators declarators' ∧
        C.Levels tail tail' rest rest' := by
  have htemplate : (some shared').map (Declarator.mapRefs second) =
      (some shared).map (Declarator.mapRefs first) := congrArg some hshared
  -- Along the first list; that the last declarators are the same says that a body is passed in
  -- both.
  induction last, level using readFurther_induct generalizing last' level' declarators with
  | body last level hbody =>
    have hkind : last.kind = last'.kind := (Declarator.mapRefs_eq_iff.mp hlast).1.symm
    rw [readFurther, if_pos hbody] at hread
    cases hread
    rw [readFurther,
      if_pos ⟨hkind.symm.trans hbody.1, by rw [← h.alike.isGroup_eq h.stop, hbody.2]⟩]
    exact ⟨[], level'.next, rfl, rfl, h.next_of_isGroup hbody.2⟩
  | comma last level hbody hcomma ih =>
    have hkind : last.kind = last'.kind := (Declarator.mapRefs_eq_iff.mp hlast).1.symm
    rw [readFurther, if_neg hbody, if_pos hcomma] at hread
    rw [hkind, h.alike.isGroup_eq h.stop] at hbody
    rw [(h.alike.skipToAny h.stop).isToken_eq h.stop] at hcomma
    rw [readFurther, if_neg hbody, if_pos hcomma]
    obtain ⟨⟨declarator, middle⟩, hfirst, hread⟩ := bind_eq_ok_iff.mp hread
    dsimp only at hread
    split at hread
    · rename_i hlt
      obtain ⟨⟨others, final⟩, hothers, hread⟩ := bind_eq_ok_iff.mp hread
      cases hread
      rw [Declarator.declaredNamesOf, spares_append] at hspares
      obtain ⟨declarator', middle', hfirst', hsame, hmiddle⟩ :=
        Declarator.read_sameBy hscopes h.afterDeclarator htemplate hfirst hspares.1
      obtain ⟨others', final', hothers', hall, hfinal⟩ :=
        ih declarator middle hlt hmiddle hsame hothers hspares.2
      refine ⟨declarator' :: others', final', bind_eq_ok_iff.mpr ⟨_, hfirst', ?_⟩, ?_, hfinal⟩
      · dsimp only
        rw [if_pos ((h.alike.size_lt_iff hmiddle.alike).1.mp hlt), hothers']
        rfl
      · rw [Declarator.SameAllBy, Declarator.mapRefsAll, Declarator.mapRefsAll, hsame, hall]
    · rename_i hlt
      cases hread
      rw [Declarator.declaredNamesOf, spares_append] at hspares
      obtain ⟨declarator', middle', hfirst', hsame, hmiddle⟩ :=
        Declarator.read_sameBy hscopes h.afterDeclarator htemplate hfirst hspares.1
      refine ⟨[declarator'], middle', bind_eq_ok_iff.mpr ⟨_, hfirst', ?_⟩, ?_, hmiddle⟩
      · dsimp only
        rw [if_neg fun hlt' => hlt ((h.alike.size_lt_iff hmiddle.alike).1.mpr hlt')]
        rfl
      · simp only [Declarator.SameAllBy, Declarator.mapRefsAll, hsame]
  | ends last level hbody hcomma =>
    -- The second list ends for the same reasons.
    have hkind : last.kind = last'.kind := (Declarator.mapRefs_eq_iff.mp hlast).1.symm
    rw [readFurther, if_neg hbody, if_neg hcomma] at hread
    cases hread
    rw [hkind, h.alike.isGroup_eq h.stop] at hbody
    rw [(h.alike.skipToAny h.stop).isToken_eq h.stop] at hcomma
    rw [readFurther, if_neg hbody, if_neg hcomma]
    exact ⟨[], _, rfl, rfl, h.skipToAny⟩

/-- A list of variables is read to the same declarators, the first one without a template. -/
theorem readVariables_sameBy {declaration : Declaration}
    (hread : readVariables scope level = .ok (declaration, rest))
    (hspares : Spares C.added declaration.declaredNames) :
    ∃ declaration' rest', readVariables scope' level' = .ok (declaration', rest') ∧
      declaration.SameBy first second declaration' ∧ C.Levels tail tail' rest rest' := by
  have htemplate : none.map (Declarator.mapRefs second) = none.map (Declarator.mapRefs first) := rfl
  unfold readVariables at hread ⊢
  obtain ⟨⟨shared, middle⟩, hfirst, hread⟩ := bind_eq_ok_iff.mp hread
  obtain ⟨⟨further, last⟩, hfurther, hread⟩ := bind_eq_ok_iff.mp hread
  cases hread
  rw [declaredNames, Declarator.declaredNamesOf, spares_append] at hspares
  obtain ⟨shared', middle', hfirst', hsame, hmiddle⟩ :=
    Declarator.read_sameBy hscopes h htemplate hfirst hspares.1
  obtain ⟨further', last', hfurther', hall, hlast⟩ :=
    readFurther_sameBy hscopes hmiddle hsame hsame hfurther hspares.2
  refine ⟨.names (shared' :: further'), last', bind_eq_ok_iff.mpr ⟨_, hfirst', ?_⟩, ?_, hlast⟩
  · exact bind_eq_ok_iff.mpr ⟨_, hfurther', rfl⟩
  · rw [SameBy, mapRefs, mapRefs, Declarator.mapRefsAll, Declarator.mapRefsAll, hsame, hall]

end Declaration

/-! ### Which statements declare a type -/

namespace TypeDecl

omit hscopes in
/-- A word ends a declarator on both levels, or on neither. -/
theorem endsDeclarator_eq : endsDeclarator level' = endsDeclarator level := by
  simp only [endsDeclarator, h.alike.atEnd_eq h.stop, h.alike.isToken_eq h.stop,
    h.alike.isGroup_eq h.stop]

omit hscopes in
/-- A body follows a word on both levels, or on neither. -/
theorem isFollowedByBody_eq :
    (level'.word?.isSome && level'.next.isGroup .brace) =
      (level.word?.isSome && level.next.isGroup .brace) := by
  rw [h.alike.word?_eq h.stop]
  cases h.alike with
  | tail =>
    cases h.stop with
    | ends => rfl
    | semicolon hbody => exact congrArg _ hbody.symm
  | cons hitem hothers => exact congrArg _ (hothers.isGroup_eq h.stop .brace).symm

omit h in
/-- A name that the levels do not lack is known in both scopes or in none. -/
theorem knows_eq {name : String} (hname : C.word ≠ some name) :
    scope'.knows name = scope.knows name := by
  have hsame := congrArg Option.isSome (C.lookup_eq hscopes hname)
  rwa [Option.isSome_map, Option.isSome_map] at hsame

/-- A word is new on both levels or on none: an added one is known to the scope. -/
theorem isNewWord_eq (isIntroduced : Bool) :
    (level'.isUnresolved && level'.value?.any (fun name => !scope'.knows name) &&
        (isIntroduced || !endsDeclarator level'.next)) =
      (level.isUnresolved && level.value?.any (fun name => !scope.knows name) &&
        (isIntroduced || !endsDeclarator level.next)) := by
  -- The tails end or start with a `;`, which is no word.
  cases h.alike with
  | tail =>
    cases h.stop with
    | ends => rfl
    | semicolon => rfl
  | @cons item item' others others' hitem hothers =>
    have hends : endsDeclarator (next (item' :: others')) =
        endsDeclarator (next (item :: others)) :=
      endsDeclarator_eq (h.of_suffix ⟨[item], rfl⟩ hothers)
    -- A word without a meaning is not the word that the scopes need not agree on.
    have hnew : (item.roles.isUnresolved && !scope'.knows item.value) =
        (item.roles.isUnresolved && !scope.knows item.value) := by
      cases hunresolved : item.roles.isUnresolved with
      | false => rfl
      | true => rw [knows_eq hscopes (h.lacks.ne_of_isUnresolved hunresolved rfl)]
    rw [hends]
    cases hitem with
    | @added value hadded =>
      show false = (true && !scope.knows value && _)
      rw [C.knows_of_added hscopes hadded]
      rfl
    | token => exact congrArg (fun isNew => isNew && _) hnew
    | group => exact congrArg (fun isNew => isNew && _) hnew

/-- Both levels start with a statement that declares a type, or none does. -/
theorem isDeclaredAt_eq : isDeclaredAt scope' level' = isDeclaredAt scope level := by
  have hrest := h.afterLeftQualifiers
  unfold isDeclaredAt
  dsimp only
  rw [h.alike.leftQualifiers_eq h.stop, hrest.alike.isGroup_eq h.stop, isNewWord_eq hscopes hrest,
    isFollowedByBody_eq hrest]

omit hscopes in
/-- Types are named alike. -/
theorem typeName?_eq : typeName? level' = typeName? level := by
  rw [typeName?, typeName?, h.alike.atTypeName_eq h.stop, h.alike.value?_eq h.stop]

end TypeDecl

end

namespace TypeDecl

variable {added : String → Prop} {contents contents' : Level}

/-- Lists that are alike are cut into the same entries. -/
theorem split_eq (h : List.Forall₂ (Item.Alike added) contents contents') (delimiter : String) :
    split delimiter contents = split delimiter contents' := by
  induction h with
  | nil => rfl
  | cons hitem _ ih => rw [split, split, hitem.isToken_eq, hitem.tokenText_eq, ih]

/-- The entries of an enum refer to no type. -/
theorem mapRefsAll_enumerators (f : TypeRef → TypeRef) (body : Level) :
    Member.mapRefsAll f (enumerators body) = enumerators body :=
  Member.mapRefsAll_of_eq _ (by rw [refsOf_enumerators]; simp)

theorem enumerators_eq (h : List.Forall₂ (Item.Alike added) contents contents') :
    enumerators contents = enumerators contents' := by
  rw [enumerators, enumerators, split_eq h]

end TypeDecl

/-! ### Types that follow each other -/

/-- The types are the same as far as the references count, apart from their bodies, which are
related. -/
inductive TypeDecl.Follows (first second : TypeRef → TypeRef)
    (related : Option (List Member) → Option (List Member) → Prop) : TypeDecl → TypeDecl → Prop
  | tagged {qualifiers : Qualifiers} {name : Option String}
    {members members' : Option (List Member)}
    (hmembers : related members members') :
    Follows first second related (.tagged qualifiers name members)
      (.tagged qualifiers name members')
  | synonym {qualifiers : Qualifiers} {name : String} {tag : Option String}
    {members members' : Option (List Member)} {aliased aliased' : TypeRef}
    {declarator declarator' : Declarator} (hmembers : related members members')
    (haliased : second aliased' = first aliased)
    (hdeclarator : declarator.SameBy first second declarator') :
    Follows first second related
      (.synonym qualifiers name
        ⟨aliased, members.map fun list => .tagged {} tag (some list), declarator⟩)
      (.synonym qualifiers name
        ⟨aliased', members'.map fun list => .tagged {} tag (some list), declarator'⟩)

/-- The statements declare types that follow each other, and the same beside them. -/
inductive Declaration.Follows (first second : TypeRef → TypeRef)
    (related : Option (List Member) → Option (List Member) → Prop) :
    Declaration → Declaration → Prop
  | type {declared declared' : TypeDecl} {instances instances' : List Declarator}
    (hdeclared : declared.Follows first second related declared')
    (hinstances : Declarator.SameAllBy first second instances instances') :
    Follows first second related (.type declared instances) (.type declared' instances')

/-- The bodies are the same as far as the references count. -/
abbrev Member.SameBodyBy (first second : TypeRef → TypeRef) :
    Option (List Member) → Option (List Member) → Prop :=
  Option.Rel (SameAllBy first second)

section

variable {related : Option (List Member) → Option (List Member) → Prop}

/-- Types that follow each other have one name. -/
theorem TypeDecl.Follows.name?_eq {declared declared' : TypeDecl}
    (h : declared.Follows first second related declared') : declared'.name? = declared.name? := by
  cases h <;> rfl

/-- Types that follow each other with the same bodies are the same. -/
theorem TypeDecl.Follows.sameBy {declared declared' : TypeDecl}
    (h : declared.Follows first second (Member.SameBodyBy first second) declared') :
    declared.SameBy first second declared' := by
  cases h with
  | tagged hmembers =>
    cases hmembers with
    | none => rfl
    | some hsame => rw [SameBy, mapRefs, mapRefs, hsame]
  | synonym hmembers haliased hdeclarator =>
    cases hmembers with
    | none => simp only [SameBy, Option.map_none, mapRefs, haliased, hdeclarator]
    | some hsame => simp only [SameBy, Option.map_some, mapRefs, haliased, hdeclarator, hsame]

/-- Statements that follow each other with the same bodies are the same. -/
theorem Declaration.Follows.sameBy {declaration declaration' : Declaration}
    (h : declaration.Follows first second (Member.SameBodyBy first second) declaration') :
    declaration.SameBy first second declaration' := by
  obtain ⟨hdeclared, hinstances⟩ := h
  rw [SameBy, mapRefs, mapRefs, hdeclared.sameBy, hinstances]

end

/-! ### Names of types -/

namespace Comparison

/-- A type of this name can be declared. -/
def Allows (C : Comparison first second) (name : Option String) : Prop :=
  ∀ text, name = some text → C.word ≠ some text ∧ (C.isPlain → text ≠ ";")

/-- A name that the level offers is neither the word that it lacks nor a `;` that plays no role. -/
theorem Levels.allows (h : C.Levels tail tail' level level') {name : Option String}
    (hname : ∀ text, name = some text → level.Offers text) : C.Allows name :=
  fun text htext =>
    ⟨h.lacks.ne_of_offers (hname text htext), fun hplain =>
      (h.plain hplain).ne_of_offers (hname text htext)⟩

end Comparison

namespace TypeDecl

/-- The type that is found or declared under a name has the name as its key. -/
theorem key_of_findOrDeclare {name : Option String} {ref : TypeRef} {after : Scope}
    (h : findOrDeclare name scope = .ok ref after) : after.types.keys[ref.handle]? = some name := by
  have hget : (get : Reading Scope) scope = .ok scope scope := rfl
  rw [findOrDeclare, bind_of_ok hget] at h
  cases hknown : name >>= scope.lookup with
  | some found =>
    rw [hknown] at h
    cases h
    obtain ⟨text, rfl, hlookup⟩ := Option.bind_eq_some_iff.mp hknown
    exact (Scope.names_of_lookup hlookup).1
  | none =>
    rw [hknown] at h
    cases h
    exact scope.types.key_declare (ofName name) true

/-- A type is found under a name in both scopes, or gets a placeholder in both. -/
theorem findOrDeclare_sameBy (hscopes : C.Scopes scope scope') {name : Option String}
    (hname : C.Allows name) :
    ∃ ref after ref' after', findOrDeclare name scope = .ok ref after ∧
      findOrDeclare name scope' = .ok ref' after' ∧ second ref' = first ref ∧
      C.Scopes after after' := by
  have hfound : (name >>= scope'.lookup).map second = (name >>= scope.lookup).map first := by
    -- Without a name nothing is looked up, in either scope.
    cases name with
    | none => rfl
    | some text => exact C.lookup_eq hscopes (hname text rfl).1
  have hget (scope : Scope) : (get : Reading Scope) scope = .ok scope scope := rfl
  rw [findOrDeclare, bind_of_ok (hget scope), bind_of_ok (hget scope')]
  cases hlookup : name >>= scope.lookup with
  | some found =>
    rw [hlookup] at hfound
    obtain ⟨found', hlookup', hsame⟩ := Option.map_eq_some_iff.mp hfound
    rw [hlookup']
    exact ⟨found, scope, found', scope', rfl, rfl, hsame, hscopes⟩
  | none =>
    rw [hlookup] at hfound
    rw [Option.map_eq_none_iff.mp hfound]
    have hplaceholder : C.Declares (ofName name) (ofName name) := C.declares_of_sameBy rfl
    exact ⟨_, _, _, _, rfl, rfl, C.declare true hscopes hplaceholder hname⟩

section

variable (hscopes : C.Scopes scope scope') (h : C.Levels tail tail' level level')
  {aliased aliased' : TypeRef} (haliased : second aliased' = first aliased)
include hscopes h haliased

/-- The declarator that a typedef names is the same in both scopes, and so is its name. -/
theorem simulates_readNamedDeclarator (unnamed : Fault) :
    C.Simulates (fun result => result.2.1.declaredNames)
      (fun result result' => result'.1 = result.1 ∧ result.2.1.SameBy first second result'.2.1 ∧
        C.Levels tail tail' result.2.2 result'.2.2)
      (readNamedDeclarator aliased unnamed level) (readNamedDeclarator aliased' unnamed level')
      scope scope' := by
  have htemplate : (some (Declarator.ofBase aliased')).map (Declarator.mapRefs second) =
      (some (Declarator.ofBase aliased)).map (Declarator.mapRefs first) :=
    congrArg some (Declarator.sameBy_ofBase haliased)
  have hread : C.Simulates (fun result => result.1.declaredNames)
      (C.WithRest tail tail' (Declarator.SameBy first second))
      (Reading.ofExcept (Declarator.read scope (some (.ofBase aliased)) {} level))
      (Reading.ofExcept (Declarator.read scope' (some (.ofBase aliased')) {} level'))
      scope scope' := by
    refine simulates_ofExcept hscopes (Declarator.exists_read _ _ _ _) ?_
    rintro ⟨declarator, rest⟩ hread hspares
    obtain ⟨declarator', rest', hread', hsame, hrest⟩ :=
      Declarator.read_sameBy hscopes h htemplate hread hspares
    exact ⟨(declarator', rest'), hread', hsame, hrest⟩
  rw [readNamedDeclarator, readNamedDeclarator, simulates_get_bind]
  refine hread.bind_names ?_ ?_
  -- The names of the sequence are those of its only declarator.
  · rintro ⟨declarator, rest⟩ after ⟨name, named, last⟩ final - hnamed
    dsimp only at hnamed
    cases hname : declarator.name with
    | none =>
      rw [hname] at hnamed
      cases hnamed
    | some text =>
      rw [hname] at hnamed
      cases hnamed
      exact List.Subset.refl _
  · rintro ⟨declarator, rest⟩ ⟨declarator', rest'⟩ after after' - - ⟨hsame, hrest⟩ hafter
    have hname : declarator'.name = declarator.name :=
      (Declarator.mapRefs_eq_iff.mp hsame).2.2.2.2.1
    dsimp only
    rw [hname]
    -- Without a name both have the fault of the typedef.
    cases declarator.name with
    | none => exact simulates_throw hafter unnamed
    | some name => exact simulates_pure hafter ⟨rfl, hsame, hrest⟩

/-- The further names of a typedef. -/
theorem simulates_readSiblings (qualifiers : Qualifiers) :
    C.Simulates (fun result => Declarator.declaredNamesOf result.1)
      (C.WithRest tail tail' (Declarator.SameAllBy first second))
      (readSiblings qualifiers aliased level) (readSiblings qualifiers aliased' level')
      scope scope' := by
  -- Along the further names of the first typedef, with both scopes as the last name has left them.
  induction level using readSiblings_induct generalizing level' scope scope' with
  | comma level hcomma ih =>
    have hnext := h.next fun _ => isToken_eq_false_of_isToken hcomma (by decide)
    rw [readSiblings, readSiblings, if_pos hcomma, if_pos (by rwa [← h.alike.isToken_eq h.stop]),
      C.name_eq haliased]
    refine (simulates_readNamedDeclarator hscopes hnext haliased _).bind_names ?_ ?_
    · rintro ⟨name, declarator, rest⟩ after ⟨siblings, last⟩ final - hothers
      obtain ⟨ref, scope₁, -, hothers⟩ := bind_apply_eq_ok_iff.mp hothers
      dsimp only at hothers
      split at hothers
      · obtain ⟨⟨others, last⟩, scope₂, -, hresult⟩ := bind_apply_eq_ok_iff.mp hothers
        cases hresult
        exact List.subset_append_left _ _
      · cases hothers
        exact List.subset_append_left _ _
    · rintro ⟨name, declarator, rest⟩ ⟨name', declarator', rest'⟩ scope₁ scope₁' hnamed -
        ⟨hname, hsame, hrest⟩ h₁
      obtain rfl : name' = name := hname
      -- The name stands on the level, so a type can be declared under it.
      obtain ⟨-, hoffers, -⟩ :=
        (evolving_readNamedDeclarator level.next.Offers _ _ _ _).of_ok hnamed
      have hallows : C.Allows (some name') := hnext.allows (by rintro text ⟨rfl⟩; exact hoffers)
      have hdeclares : C.Declares (.synonym qualifiers name' ⟨aliased, none, declarator⟩)
          (.synonym qualifiers name' ⟨aliased', none, declarator'⟩) :=
        C.declares_of_sameBy (by rw [SameBy, mapRefs, mapRefs, haliased, hsame])
      refine (simulates_declare h₁ hdeclares false hallows).bind fun ref ref' scope₂
        scope₂' _ _ _ h₂ => ?_
      -- Both go on, or neither does, as the rests are equally long.
      have hlt := (h.alike.size_lt_iff hrest.alike).1
      dsimp only at hrest ⊢
      by_cases hshorter : rest.length < level.length
      · rw [if_pos hshorter, if_pos (hlt.mp hshorter)]
        refine (ih rest hshorter h₂ hrest).bind_names ?_ ?_
        · rintro ⟨others, last⟩ after ⟨siblings, _⟩ final - hresult
          cases hresult
          exact List.subset_append_right _ _
        · rintro ⟨others, last⟩ ⟨others', last'⟩ scope₃ scope₃' - - ⟨hall, hlast⟩ h₃
          refine simulates_pure h₃ ⟨?_, hlast⟩
          rw [Declarator.SameAllBy, Declarator.mapRefsAll, Declarator.mapRefsAll, hsame, hall]
      · rw [if_neg hshorter, if_neg fun hshorter' => hshorter (hlt.mpr hshorter')]
        refine simulates_pure h₂ ⟨?_, hrest⟩
        simp only [Declarator.SameAllBy, Declarator.mapRefsAll, hsame]
  | ends level hcomma =>
    rw [readSiblings, readSiblings, if_neg hcomma, if_neg (by rwa [← h.alike.isToken_eq h.stop])]
    exact simulates_pure hscopes ⟨rfl, h⟩

end

end TypeDecl

namespace Declaration

section

variable (hscopes : C.Scopes scope scope') (h : C.Levels tail tail' level level')
include hscopes h

/-- The instances beside a type are the same in both scopes. -/
theorem simulates_readInstances {ref ref' : TypeRef} (href : second ref' = first ref) :
    C.Simulates (fun result => Declarator.declaredNamesOf result.1)
      (C.WithRest tail tail' (Declarator.SameAllBy first second))
      (readInstances ref level) (readInstances ref' level') scope scope' := by
  have htemplate : (some (Declarator.ofBase ref')).map (Declarator.mapRefs second) =
      (some (Declarator.ofBase ref)).map (Declarator.mapRefs first) :=
    congrArg some (Declarator.sameBy_ofBase href)
  rw [readInstances, readInstances, simulates_get_bind]
  refine simulates_ofExcept hscopes (exists_readSeparated (Declarator.exists_read _ _ _) level) ?_
  rintro ⟨declarators, rest⟩ hread hspares
  obtain ⟨declarators', rest', hread', hsame, hrest⟩ :=
    Declarator.readSeparated_sameBy hscopes h htemplate hread hspares
  exact ⟨(declarators', rest'), hread', hsame, hrest⟩

variable {related : Option (List Member) → Option (List Member) → Prop}
  {declared declared' : TypeDecl} (hfollows : declared.Follows first second related declared')
include hfollows

omit hscopes h in
/-- Beside types that follow each other, the same declarators make statements that do. -/
theorem simulates_beside {others others' : Reading (List Declarator × Level)}
    (hothers : C.Simulates (fun result => Declarator.declaredNamesOf result.1)
      (C.WithRest tail tail' (Declarator.SameAllBy first second)) others others' scope scope') :
    C.Simulates (fun result => result.1.declaredNames)
      (C.WithRest tail tail' (Follows first second related))
      (do let (instances, rest) ← others; return (Declaration.type declared instances, rest))
      (do let (instances, rest) ← others'; return (Declaration.type declared' instances, rest))
      scope scope' := by
  refine hothers.bind_names ?_ ?_
  · rintro ⟨instances, last⟩ _ ⟨declaration, _⟩ _ - hresult
    cases hresult
    exact List.subset_append_right _ _
  · rintro ⟨instances, last⟩ ⟨instances', last'⟩ scope₁ scope₁' - - ⟨hsame, hlast⟩ h₁
    exact simulates_pure h₁ ⟨.type hfollows hsame, hlast⟩

/-- What a statement declares beside a type does not depend on the body of the type. -/
theorem simulates_readBeside (hdeclares : C.Declares declared declared')
    (hname : C.Allows declared.name?) :
    C.Simulates (fun result => result.1.declaredNames)
      (C.WithRest tail tail' (Follows first second related))
      (readBeside declared level) (readBeside declared' level') scope scope' := by
  rw [readBeside, readBeside, hfollows.name?_eq, ← h.alike.atStatementEnd_eq h.stop]
  split
  · exact simulates_pure hscopes ⟨.type hfollows rfl, h⟩
  · refine (simulates_declare hscopes hdeclares false hname).bind
      fun ref ref' scope₁ scope₁' _ _ href h₁ => ?_
    cases hfollows with
    | tagged hmembers =>
      exact simulates_beside (.tagged hmembers) (simulates_readInstances h₁ h href)
    | synonym hmembers haliased hdeclarator =>
      exact simulates_beside (.synonym hmembers haliased hdeclarator)
        (TypeDecl.simulates_readSiblings h₁ h haliased _)

end

/-- What is declared beside a type is kept with the type. -/
theorem exists_instances_of_readBeside {declared : TypeDecl} {declaration : Declaration}
    {after : Scope} (h : readBeside declared level scope = .ok (declaration, rest) after) :
    ∃ instances, declaration = .type declared instances := by
  unfold readBeside at h
  split at h
  · cases h
    exact ⟨[], rfl⟩
  · obtain ⟨ref, scope₁, -, hbeside⟩ := bind_apply_eq_ok_iff.mp h
    -- Beside a typedef stand further names, and beside a tagged type its instances.
    cases declared with
    | synonym qualifiers name typedef =>
      obtain ⟨⟨siblings, last⟩, scope₂, -, hresult⟩ := bind_apply_eq_ok_iff.mp hbeside
      cases hresult
      exact ⟨siblings, rfl⟩
    | tagged qualifiers name members =>
      obtain ⟨⟨instances, last⟩, scope₂, -, hresult⟩ := bind_apply_eq_ok_iff.mp hbeside
      cases hresult
      exact ⟨instances, rfl⟩

end Declaration

end CommonDecl
