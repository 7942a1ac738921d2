import CommonDecl.Proofs.Composition
import CommonDecl.Proofs.Interference
import CommonDecl.Proofs.Resolutions
import CommonDecl.Proofs.StructForms

/-!
# Types that refer to themselves

A body may refer to the type that it belongs to.  In a typedef the name of the type is known by
then, as it has a placeholder; in the plain form it is not, and the first reference is read as a
declaration of the type without a body, with the fields for its variables.  From then on the name is
known in both forms.  So the members of both forms are the same where the body does not refer to its
type, and differ in the first reference where it does (`BodyHead.recorded_alike_or_resolved`).
-/

namespace CommonDecl

open Level

open BareDeclarator (withInitialiser)

variable {tag : String} {scope scope' after after' : Scope} {level rest : Level}

/-! ### Scopes that know the type or do not -/

/-- The scope has gained types whose names are on offer, and its table is sound. -/
structure Scope.Gained (offers : String → Prop) (before after : Scope) : Prop where
  grows : before.Grows after
  sound : after.types.Sound
  evolves : TypeTable.Evolves offers before.types after.types

namespace Scope

variable {offers : String → Prop} {name : String}

theorem Gained.not_mem_keys (h : scope.Gained offers after) (hnew : some name ∉ scope.types.keys)
    (hoffers : ¬ offers name) : some name ∉ after.types.keys :=
  fun hmem => (h.evolves.of_mem_keys hmem).elim hnew hoffers

theorem Gained.not_knows (h : scope.Gained offers after) (hunknown : scope.knows name = false)
    (hoffers : ¬ offers name) : after.knows name = false := by
  rw [Bool.eq_false_iff, Ne, knows_iff] at hunknown ⊢
  rintro ⟨hhidden, hkey⟩
  rw [h.grows.hidden_eq] at hhidden
  exact hunknown ⟨hhidden, (h.evolves.of_mem_keys hkey).resolve_right hoffers⟩

theorem gained_readMembers (hsound : scope.types.Sound) {members : List Member}
    (hread : TypeDecl.readMembers level scope = .ok members after) :
    scope.Gained level.Offers after := by
  obtain ⟨hgrows, hsound', -⟩ :=
    (sustains_read.2.2.1 level scope hsound TypeTable.resolves_nil).of_ok hread
  exact ⟨hgrows, hsound', ((evolves_read.2.2.1 level scope).of_ok hread).1⟩

theorem gained_findOrDeclare (hsound : scope.types.Sound) {key : Option String} {ref : TypeRef}
    (hfound : TypeDecl.findOrDeclare key scope = .ok ref after) :
    scope.Gained (fun text => key = some text) after := by
  obtain ⟨hgrows, hsound', -⟩ := (TypeDecl.findOrDeclare_spec key hsound).of_ok hfound
  exact ⟨hgrows, hsound', ((TypeDecl.evolving_findOrDeclare fun _ hkey => hkey).of_ok hfound).1⟩

/-- The scopes agree apart from the tag, which is the name of a type in the second one only, and no
`;` is the name of a type in either of them. -/
structure Apart (tag : String) (scope scope' : Scope) :
    Prop extends Agree (some tag) scope scope' where
  sound : scope.types.Sound
  sound' : scope'.types.Sound
  new : some tag ∉ scope.types.keys
  known : scope'.knows tag = true
  not_knows_semicolon : scope.knows ";" = false
  not_knows_semicolon' : scope'.knows ";" = false

/-- The scopes stay apart while neither the tag nor a `;` is on offer. -/
theorem Apart.gained (h : scope.Apart tag scope') (hagree : after.Agree (some tag) after')
    (hgained : scope.Gained offers after) (hgained' : scope'.Gained offers after')
    (htag : ¬ offers tag) (hsemicolon : ¬ offers ";") : after.Apart tag after' where
  toAgree := hagree
  sound := hgained.sound
  sound' := hgained'.sound
  new := hgained.not_mem_keys h.new htag
  known := Declaration.knows_of_grows hgained'.grows h.known
  not_knows_semicolon := hgained.not_knows h.not_knows_semicolon hsemicolon
  not_knows_semicolon' := hgained'.not_knows h.not_knows_semicolon' hsemicolon

/-- Once the tag is declared in the first scope, the scopes agree. -/
theorem Apart.agree_withEntry (h : scope.Apart tag scope') {declared : TypeDecl}
    (hname : declared.name? = some tag) (isOpaque : Bool) :
    (scope.withEntry ⟨some tag, declared, isOpaque⟩).Agree none scope' where
  hidden_eq := h.hidden_eq
  knows_eq := by
    intro name _
    have hknown := (knows_iff scope' tag).mp h.known
    have hkey : some name ∈ (scope.withEntry ⟨some tag, declared, isOpaque⟩).types.keys ↔
        some name ∈ scope.types.keys ∨ name = tag := by
      rw [keys_withEntry, List.mem_append, List.mem_singleton, Option.some.injEq]
    rw [Bool.eq_iff_iff, knows_iff (scope.withEntry _), hkey]
    -- The tag itself was the only name on which the scopes did not agree.
    by_cases heq : name = tag
    · subst heq
      exact ⟨fun _ => ⟨fun hmem => hknown.1 (h.hidden_eq ▸ hmem), Or.inr rfl⟩, fun _ => h.known⟩
    · have hother := h.knows_eq name (by rintro ⟨⟩; exact heq rfl)
      rw [hother, knows_iff]
      simp [withEntry, heq]
  labelled := by
    intro entry hentry
    rcases List.mem_append.mp hentry with hbefore | hnew
    · exact h.labelled entry hbefore
    · rw [List.mem_singleton.mp hnew, hname]
  labelled' := h.labelled'

end Scope

/-! ### Declarators of a list -/

theorem Level.PlainSemicolons.not_isToken {item : Item} (h : Level.PlainSemicolons (item :: rest))
    (hroles : item.roles ≠ {}) : item.isToken ";" = false := by
  rw [Bool.eq_false_iff]
  intro hsemicolon
  have hvalue : item.value = ";" := eq_of_beq (Bool.and_eq_true_iff.mp hsemicolon).2
  exact hroles (h item rest .start hvalue)

namespace BareDeclarator

variable (bare : BareDeclarator)

/-- The declarator with the type of another one. -/
def withType (shared core : Declarator) : Declarator :=
  { core with left := shared.left, right := ⟨bare.right.map Item.value⟩, base := shared.base }

/-- A declarator starts with a qualifier or with its name. -/
theorem not_atStatementEnd_level {stop : Level} (hplain : (bare.level ++ stop).PlainSemicolons) :
    (bare.level ++ stop).atStatementEnd = false := by
  -- Neither the name nor a qualifier in front of it is a `;`.
  cases hright : bare.right with
  | nil =>
    have hhead := bare.head_not_separator
    simp only [Item.isSeparator, List.any_cons, List.any_nil, Bool.or_false,
      Bool.or_eq_false_iff] at hhead
    rw [level, hright]
    exact TypeDecl.atStatementEnd_cons hhead.2 (bare.after ++ stop)
  | cons item right =>
    have hitem := (bare.right_isQualifier item (by rw [hright]; exact List.mem_cons_self)).1
    have hlevel : bare.level ++ stop = item :: (right ++ bare.core ++ stop) := by
      rw [level, hright]
      rfl
    rw [hlevel] at hplain ⊢
    refine TypeDecl.atStatementEnd_cons (hplain.not_isToken fun hroles => ?_) _
    rw [hroles] at hitem
    cases hitem

/-- The declarator is read alike in scopes that agree. -/
theorem readsAs_agree {bare : BareDeclarator} (h : scope.Agree none scope')
    {core core' : Declarator} (hreads : bare.ReadsAs scope core)
    (hreads' : bare.ReadsAs scope' core') : core'.unplaced = core.unplaced := by
  obtain ⟨left, hread, -⟩ := hreads
  obtain ⟨left', hread', -⟩ := hreads'
  have hnothing : Level.NoBracket [] := by simp [Level.NoBracket]
  obtain ⟨declarator, hagree, hsame⟩ :=
    Declarator.read_agree h (lacks_none _) rfl (hread [] hnothing)
  rw [hread' [] hnothing] at hagree
  rw [(Prod.mk.inj (Except.ok.inj hagree)).1, hsame]

/-- The declarators of a list are read up to its end, each with the shared type. -/
theorem readSeparated_entries {core : BareDeclarator → Declarator}
    (hcore : ∀ bare : BareDeclarator, bare.ReadsAs scope (core bare))
    (shared : Declarator) {comma : Item} (hcomma : comma.isToken "," = true) {stop : Level}
    (hstop : stop.atStatementEnd = true) (entries : List (BareDeclarator × Initialiser))
    (hplain : Level.PlainSemicolons ([comma].intercalate (entries.map withInitialiser) ++ stop)) :
    readSeparated (Declarator.read scope (some shared) {})
        ([comma].intercalate (entries.map withInitialiser) ++ stop) =
      .ok (entries.map fun entry => entry.1.withType shared (core entry.1), stop) := by
  -- By induction on the entries, each with its initialiser and the comma behind it.
  induction entries with
  | nil =>
    show readSeparated _ stop = _
    rw [readSeparated, if_pos hstop]
    rfl
  | cons entry entries ih =>
    obtain ⟨bare, initialiser⟩ := entry
    obtain ⟨left, hread, hleft, -⟩ := hcore bare
    have hrest := head_afterCommas hcomma (entries.map withInitialiser) hstop
    have hlevel :
        [comma].intercalate (((bare, initialiser) :: entries).map withInitialiser) ++ stop =
        bare.level ++
            (initialiser.level ++ (afterCommas comma (entries.map withInitialiser) ++ stop)) := by
      rw [List.map_cons, intercalate_cons_eq_flatMap]
      simp [afterCommas, withInitialiser]
    rw [hlevel] at hplain ⊢
    have hfirst := read_template shared (hread _ (initialiser.noBracket_append hrest))
    -- Behind a declarator the reader skips what is left of it and its initialiser, up to the comma.
    have hafter : (left ++ (initialiser.level ++ (afterCommas comma (entries.map withInitialiser) ++
        stop))).afterDeclarator = [comma].intercalate (entries.map withInitialiser) ++ stop := by
      rw [← List.append_assoc left]
      exact afterDeclarator_append (initialiser.gap_append hleft) hcomma _ hstop
    have hsuffix : [comma].intercalate (entries.map withInitialiser) ++ stop <:+ _ :=
      hafter ▸ (afterDeclarator_suffix _).trans (Declarator.read_rest hfirst)
    have hlength := length_afterDeclarator_lt bare.level_ne_nil
      (initialiser.level ++ (afterCommas comma (entries.map withInitialiser) ++ stop))
    rw [afterDeclarator_append initialiser.noSeparator hcomma _ hstop] at hlength
    have hend := bare.not_atStatementEnd_level hplain
    rw [readSeparated, if_neg (by rw [hend]; exact Bool.false_ne_true), hfirst]
    dsimp only [bind, Except.bind]
    rw [hafter, if_pos hlength, ih (hplain.of_reaches (reaches_of_suffix hsuffix))]
    rfl

end BareDeclarator

/-- The tag is resolved in one of the members. -/
abbrev Member.ResolvedSomewhere (tag : String) (members members' : List Member) : Prop :=
  ∃ field, Member.Resolved tag field members members'

/-- The tag is resolved in the statement that is read, and the same is left. -/
abbrev Declaration.ReadsResolved (tag : String) (result result' : Declaration × Level) : Prop :=
  (∃ field, Declaration.Resolved tag field result.1 result'.1) ∧ result'.2 = result.2

/-! ### References to the type -/

/-- What is written for variables or fields of a type apart from the name of the type: the
qualifiers in front of it, which introduce a type unless a declarator cannot end behind the name,
and the declarators. -/
structure SelfReference where
  qualifiers : Level
  first : BareDeclarator × Initialiser
  further : List (BareDeclarator × Initialiser)
  qualifiers_isLeft : ∀ item ∈ qualifiers, isLeftQualifier item = true
  qualifiers_isWord : ∀ item ∈ qualifiers, item.bracket? = none
  not_typedef : ∀ item ∈ qualifiers, item.value ≠ "typedef"
  introduced : (∃ item ∈ qualifiers, item.value ∈ TypeDecl.introducers) ∨
    TypeDecl.endsDeclarator first.1.level = false

namespace SelfReference

variable (reference : SelfReference) {behind : Level}

/-- The declarators and the `;` behind them. -/
def list (behind : Level) : Level :=
  [.token "," {}].intercalate ((reference.first :: reference.further).map withInitialiser) ++
    ofSemicolon behind

/-- The statement that refers to the type. -/
def statement (tag : String) (behind : Level) : Level :=
  reference.qualifiers ++ .token tag .unresolved :: reference.list behind

/-- The qualifiers of the type. -/
def values : Qualifiers :=
  ⟨reference.qualifiers.map Item.value⟩

theorem leftQualifiers_statement (tag : String) (behind : Level) :
    (reference.statement tag behind).leftQualifiers = reference.values ∧
      (reference.statement tag behind).afterLeftQualifiers = .token tag .unresolved ::
        reference.list behind :=
  leftQualifiers_word reference.qualifiers_isLeft tag rfl _

theorem has_typedef_statement (tag : String) (behind : Level) :
    (reference.statement tag behind).leftQualifiers.has "typedef" = false := by
  rw [(reference.leftQualifiers_statement tag behind).1]
  refine TypeDecl.has_typedef_of_not_mem fun hmem => ?_
  obtain ⟨item, hitem, hvalue⟩ := List.mem_map.mp hmem
  exact reference.not_typedef item hitem hvalue

theorem exists_list (behind : Level) :
    ∃ stop, reference.list behind = reference.first.1.level ++ stop := by
  rw [list, List.map_cons, intercalate_cons_eq_flatMap]
  exact ⟨_, by rw [withInitialiser, List.append_assoc, List.append_assoc]⟩

/-- Where the tag is not known, the statement declares a type of the name. -/
theorem isDeclaredAt_statement (hnew : scope.knows tag = false) (behind : Level) :
    TypeDecl.isDeclaredAt scope (reference.statement tag behind) = true := by
  obtain ⟨hleft, hafter⟩ := reference.leftQualifiers_statement tag behind
  have hgoesOn : (TypeDecl.introducers.any reference.values.has ||
      !TypeDecl.endsDeclarator (reference.list behind)) = true := by
    -- A qualifier that introduces types makes it a type, and so does a name that goes on.
    rcases reference.introduced with ⟨item, hitem, hmem⟩ | hends
    · have hhas : reference.values.has item.value = true :=
        List.contains_iff_mem.mpr (List.mem_map_of_mem hitem)
      rw [List.any_eq_true.mpr ⟨item.value, hmem, hhas⟩, Bool.true_or]
    · -- Whether a declarator can end is seen from the first item of the list.
      obtain ⟨stop, hlist⟩ := reference.exists_list behind
      have hsame : TypeDecl.endsDeclarator (reference.first.1.level ++ stop) =
          TypeDecl.endsDeclarator reference.first.1.level := by
        cases hlevel : reference.first.1.level with
        | nil => exact absurd hlevel reference.first.1.level_ne_nil
        | cons item rest => rfl
      rw [hlist, hsame, hends, Bool.not_false, Bool.or_true]
  unfold TypeDecl.isDeclaredAt
  rw [hleft, hafter]
  dsimp only
  rw [Level.next, List.tail_cons, hgoesOn]
  simp [Level.isUnresolved, Level.value?, Item.roles, Item.value, Roles.unresolved, hnew]

section

variable {core : BareDeclarator → Declarator}

/-- Where the tag is not known, the statement declares a type of the name, and its variables. -/
theorem read_statement_new (hnew : some tag ∉ scope.types.keys)
    (hplain : (reference.statement tag behind).PlainSemicolons)
    (hcore : ∀ bare : BareDeclarator, bare.ReadsAs
      (scope.withEntry ⟨some tag, .tagged reference.values (some tag) none, false⟩) (core bare)) :
    Declaration.read (reference.statement tag behind) scope =
      .ok (.type (.tagged reference.values (some tag) none)
        ((reference.first :: reference.further).map fun entry =>
          entry.1.withType (.ofBase ⟨scope.types.size, tag, false⟩) (core entry.1)), behind)
        (scope.withEntry ⟨some tag, .tagged reference.values (some tag) none, false⟩) := by
  obtain ⟨hleft, hafter⟩ := reference.leftQualifiers_statement tag behind
  -- The type ends behind its name, and no body follows it.
  have htypeName : TypeDecl.afterTypeName (reference.statement tag behind).afterLeftQualifiers =
      reference.list behind := by
    rw [hafter]
    rfl
  have hnoBody :
      (TypeDecl.afterTypeName (reference.statement tag behind).afterLeftQualifiers).NoGroup
      .brace := by
    obtain ⟨stop, hlist⟩ := reference.exists_list behind
    rw [htypeName, hlist]
    exact reference.first.1.level_noBrace stop
  have hread : TypeDecl.read (reference.statement tag behind) scope =
      .ok (.tagged reference.values (some tag) none, reference.list behind) scope := by
    rw [TypeDecl.read_of_noBody (reference.has_typedef_statement tag behind)
      (readBody?_of_noGroup hnoBody scope), hleft, htypeName, hafter]
    rfl
  have hregister : Reading.register (.tagged reference.values (some tag) none) scope =
      .ok ⟨scope.types.size, tag, false⟩
        (scope.withEntry ⟨some tag, .tagged reference.values (some tag) none, false⟩) :=
    Scope.declare_of_not_mem false fun name hname => by cases hname; exact hnew
  have hlist : Level.PlainSemicolons (reference.list behind) :=
    hplain.of_reaches (reaches_of_suffix (htypeName ▸ (TypeDecl.afterTypeName_suffix _).trans
      (afterLeftQualifiers_suffix _)))
  -- The declarators are read with the entry that was just added.
  have hinstances :=
    Declaration.readInstances_of_readSeparated (BareDeclarator.readSeparated_entries hcore
    (.ofBase ⟨scope.types.size, tag, false⟩) (by rfl : Item.isToken "," (.token "," {}) = true)
    (by rfl : (ofSemicolon behind).atStatementEnd = true)
      (reference.first :: reference.further) hlist)
  have hbeside : Declaration.readBeside (.tagged reference.values (some tag) none)
      (reference.list behind) scope = _ :=
    bind_of_ok hregister |>.trans (bind_of_ok hinstances)
  rw [Declaration.read_of_type
    (reference.isDeclaredAt_statement (Scope.not_knows_of_not_mem hnew) behind) hread
    hbeside]
  rfl

/-- What the statement starts with, where the tag is known. -/
def typeHead (hknown : scope.knows tag = true) : TypeHead scope where
  qualifiers := reference.qualifiers
  base := tag
  roles := .unresolved
  qualifiers_isLeft := reference.qualifiers_isLeft
  not_typedef := reference.not_typedef
  base_not_isQualifier := rfl
  base_known := hknown

/-- The fields that the statement declares, where the tag is known. -/
def fields (hknown : scope.knows tag = true) (core : BareDeclarator → Declarator) :
    List Declarator :=
  (reference.first :: reference.further).map fun entry =>
    (reference.typeHead hknown).declarator entry.1 (core entry.1)

/-- Where the tag is known, the statement declares fields of the type. -/
theorem read_statement_known (hknown : scope.knows tag = true)
    (hcore : ∀ bare : BareDeclarator, bare.ReadsAs scope (core bare)) (behind : Level) :
    Declaration.read (reference.statement tag behind) scope =
      .ok (.names (reference.fields hknown core), behind) scope := by
  have hentries : List.Forall₂ (fun entry declarator =>
    (reference.typeHead hknown).Declares entry.1 declarator)
      (reference.first :: reference.further) (reference.fields hknown core) :=
    List.forall₂_map_right_iff.mpr (List.forall₂_same.mpr fun entry _ => ⟨_, hcore entry.1, rfl⟩)
  have hread :=
    (reference.typeHead hknown).read_entries (by rfl : Item.isToken "," (.token "," {}) = true)
    (by rfl : (ofSemicolon behind).atStatementEnd = true) (List.cons_ne_nil _ _) hentries
  rw [afterSemicolon_semicolon, TypeHead.level, List.append_assoc, List.singleton_append] at hread
  exact hread

end

/-- Where one scope does not know the tag and the other one does, the statement is resolved in the
other one. -/
theorem coincide_read_statement (h : scope.Apart tag scope')
    (hplain : (reference.statement tag behind).PlainSemicolons) :
    Coincide none (Declaration.ReadsResolved tag)
      (Declaration.read (reference.statement tag behind))
        (Declaration.read (reference.statement tag behind))
      scope scope' := by
  have hagree :=
    h.agree_withEntry (by rfl : (TypeDecl.tagged reference.values (some tag) none).name? =
    some tag) false
  choose core hcore using fun bare : BareDeclarator =>
    bare.exists_readsAs (scope.withEntry ⟨some tag, .tagged reference.values (some tag) none,
      false⟩)
  choose core' hcore' using fun bare : BareDeclarator => bare.exists_readsAs scope'
  obtain ⟨ref, href⟩ := Option.isSome_iff_exists.mp h.known
  have hrefName : ref.name = tag := (Scope.names_of_lookup href).2
  refine Or.inl ⟨_, _, _, _, reference.read_statement_new h.new hplain hcore,
    reference.read_statement_known h.known hcore' behind, ⟨⟨_, .fields ?_ ?_⟩, rfl⟩, hagree⟩
  -- The fields are the variables, whose type has the same name but another place.
  · show Declarator.unplacedAll (reference.fields h.known core') = _
    rw [Declarator.unplacedAll, Declarator.unplacedAll, Declarator.mapRefsAll_eq_map,
      Declarator.mapRefsAll_eq_map, fields, List.map_map, List.map_map, List.map_map]
    refine List.map_congr_left fun entry _ => ?_
    obtain ⟨hkind, -, -, -, hname, hdimensions, houter, harguments, hnests⟩ :=
      Declarator.mapRefs_eq_iff.mp
        (BareDeclarator.readsAs_agree hagree (hcore entry.1) (hcore' entry.1))
    refine Declarator.mapRefs_eq_iff.mpr
      ⟨hkind, rfl, rfl, ?_, hname, hdimensions, houter, harguments, hnests⟩
    show (scope'.lookup tag).map TypeRef.unplaced =
      some (TypeRef.unplaced ⟨scope.types.size, tag, false⟩)
    rw [href, Option.map_some]
    exact congrArg some (TypeRef.unplaced_inj.mpr hrefName)
  -- Their type is the one that the second scope has for the tag.
  · intro field hfield
    have hfield : field ∈ reference.fields h.known core' := hfield
    obtain ⟨entry, -, rfl⟩ := List.mem_map.mp hfield
    exact ⟨ref, href, hrefName⟩

end SelfReference

/-! ### Bodies that refer to their type -/

/-- The body refers to the type of the tag.  Up to the statement that does so first it lacks the
tag, behind this statement stands anything. -/
inductive SelfReferring (tag : String) : Level → Prop
  | field {before behind : Level} (hbefore : before.EndsInSemicolon)
    (hlacks : before.Lacks (some tag))
    (reference : SelfReference) : SelfReferring tag (before ++ reference.statement tag behind)
  | inside {before inner behind : Level} (hbefore : before.EndsInSemicolon)
    (hlacks : before.Lacks (some tag))
    (head : BodyHead) (hname : head.name? ≠ some tag) (hinner : SelfReferring tag inner) :
    SelfReferring tag (before ++ head.withBody inner behind)

namespace TypeDecl

/-- Members that end in a `;` are read before those behind them. -/
theorem readMembers_append_eq_ok_iff {first second : Level} (hsemicolon : scope.knows ";" = false)
    (hplain : (first ++ second).PlainSemicolons) (hfirst : first.EndsInSemicolon)
    (hbody : second.isGroup .brace = false) (members : List Member) (last : Scope) :
    readMembers (first ++ second) scope = .ok members last ↔
      (do return (← readMembers first) ++ (← readMembers second) : Reading (List Member)) scope =
        .ok members last := by
  rw [readMembers_append hsemicolon hplain hfirst hbody]
  constructor
  · rintro ⟨before, middle, behind, hbefore, hbehind, rfl⟩
    rw [bind_of_ok hbefore, bind_of_ok hbehind]
    rfl
  · intro h
    obtain ⟨before, middle, hbefore, h⟩ := bind_apply_eq_ok_iff.mp h
    obtain ⟨behind, end', hbehind, h⟩ := bind_apply_eq_ok_iff.mp h
    cases h
    exact ⟨before, middle, behind, hbefore, hbehind, rfl⟩

end TypeDecl

/-- The level starts with a statement that is no body. -/
structure Level.StartsStatement (level : Level) : Prop where
  not_atStatementEnd : level.atStatementEnd = false
  not_isBrace : level.isGroup .brace = false

/-- The members around a statement in which the tag is resolved are the same, if those before it
lack the tag. -/
theorem coincide_readMembers_around {before statement : Level} (h : scope.Apart tag scope')
    (hplain : (before ++ statement).PlainSemicolons) (hbefore : before.EndsInSemicolon)
    (hlacks : before.Lacks (some tag)) (hstarts : statement.StartsStatement)
    (hstatement : ∀ {scope scope' : Scope}, scope.Apart tag scope' →
      Coincide none (Declaration.ReadsResolved tag)
      (Declaration.read statement) (Declaration.read statement) scope scope') :
    Coincide none (Member.ResolvedSomewhere tag) (TypeDecl.readMembers (before ++ statement))
      (TypeDecl.readMembers (before ++ statement)) scope scope' := by
  refine Coincide.of_ok_iff ((TypeDecl.coincide_readMembers h.toAgree hlacks).bind ?_)
    (TypeDecl.readMembers_append_eq_ok_iff h.not_knows_semicolon hplain hbefore hstarts.not_isBrace)
    (TypeDecl.readMembers_append_eq_ok_iff h.not_knows_semicolon' hplain hbefore
      hstarts.not_isBrace)
  intro front front' middle middle' hfront hfront' hsame hagree
  -- The members in front cannot declare the tag, which they lack.
  have hapart : middle.Apart tag middle' :=
    h.gained hagree (Scope.gained_readMembers h.sound hfront)
    (Scope.gained_readMembers h.sound' hfront') (fun hoffers => hlacks.ne_of_offers hoffers rfl)
    (fun hoffers => hplain.of_append.ne_of_offers hoffers rfl)
  -- Behind the statement both scopes know the tag, so the rest is read alike whatever it is.
  have hrest : Coincide none
      (fun members members' =>
        ∃ field, Member.Resolved tag field (front ++ members) (front' ++ members'))
      (TypeDecl.readMembers statement) (TypeDecl.readMembers statement) middle middle' := by
    rw [TypeDecl.readMembers_of_statement hstarts.not_atStatementEnd]
    refine (hstatement hapart).bind ?_
    rintro ⟨declaration, rest⟩ ⟨declaration', rest'⟩ after after' - - ⟨⟨field, hresolved⟩,
      hleft⟩ hafter
    obtain rfl : rest' = rest := hleft
    refine (TypeDecl.coincide_readMembers hafter (lacks_none _)).bind fun behind behind' _ _ _ _
      hbehind hlast => ?_
    exact coincide_pure hlast ⟨field, .statement hsame hresolved hbehind⟩
  exact hrest.bind fun members members' _ _ _ _ hresolved hlast => coincide_pure hlast hresolved

/-- A qualifier or a word in the role of a name starts a statement. -/
theorem Level.PlainSemicolons.startsStatement {item : Item} {items : Level}
    (h : Level.PlainSemicolons (item :: items)) (hroles : item.roles ≠ {})
    (hword : item.bracket? = none) :
    Level.StartsStatement (item :: items) where
  not_atStatementEnd := TypeDecl.atStatementEnd_cons (h.not_isToken hroles) items
  not_isBrace := by
    show item.isGroup .brace = false
    rw [Item.isGroup, hword]
    rfl

theorem roles_ne_of_isLeft {item : Item} (h : isLeftQualifier item = true) : item.roles ≠ {} := by
  intro hroles
  rw [isLeftQualifier, hroles] at h
  cases h

theorem Level.PlainSemicolons.startsStatement_append {qualifiers stop : Level}
    (h : (qualifiers ++ stop).PlainSemicolons) (hne : qualifiers ≠ [])
    (hleft : ∀ item ∈ qualifiers, isLeftQualifier item = true)
    (hword : ∀ item ∈ qualifiers, item.bracket? = none) : (qualifiers ++ stop).StartsStatement := by
  cases qualifiers with
  | nil => exact absurd rfl hne
  | cons item items =>
    exact h.startsStatement (roles_ne_of_isLeft (hleft item List.mem_cons_self))
      (hword item List.mem_cons_self)

theorem SelfReference.startsStatement (reference : SelfReference) {behind : Level}
    (hplain : (reference.statement tag behind).PlainSemicolons) :
    (reference.statement tag behind).StartsStatement := by
  by_cases hqualifiers : reference.qualifiers = []
  · unfold SelfReference.statement at hplain ⊢
    rw [hqualifiers] at hplain ⊢
    exact hplain.startsStatement (by rintro ⟨⟩) rfl
  · exact hplain.startsStatement_append hqualifiers reference.qualifiers_isLeft
      reference.qualifiers_isWord

namespace BodyHead

variable (head : BodyHead) {inner behind : Level}

/-- Where the members of a body are resolved, the type with the body is. -/
theorem coincide_read_withBody (h : scope.Apart tag scope')
    (hplain : (head.withBody inner behind).PlainSemicolons) (hname : head.name? ≠ some tag)
    (hinner : ∀ {scope scope' : Scope}, scope.Apart tag scope' →
      Coincide none (Member.ResolvedSomewhere tag)
      (TypeDecl.readMembers inner) (TypeDecl.readMembers inner) scope scope') :
    Coincide none (Declaration.ReadsResolved tag)
      (Declaration.read (head.withBody inner behind))
      (Declaration.read (head.withBody inner behind))
      scope scope' := by
  have htypeName :
      TypeDecl.typeName? (head.withBody inner behind).afterLeftQualifiers ≠ some tag := by
    rwa [head.typeName?_withBody.1]
  -- The type may get a placeholder before its body is read, which has another name than the tag.
  obtain ⟨named, after, named', after', hnamed, hnamed', hsame, hagree⟩ :=
    TypeDecl.findOrDeclare_sameBy (C := agreement (some tag)) h.toAgree
      (fun text htext => ⟨fun hword => htypeName (htext.trans hword.symm), False.elim⟩)
  have hplaceholder : after.Apart tag after' := h.gained hagree
    (Scope.gained_findOrDeclare h.sound hnamed)
      (Scope.gained_findOrDeclare h.sound' hnamed') htypeName
    fun hsemicolon => hplain.ne_of_offers (TypeDecl.offers_of_name hsemicolon) rfl
  -- The body has members in both scopes, and they are related as those of `inner`.
  have hbody : ∀ {scope scope' : Scope}, scope.Apart tag scope' → Coincide none
      (fun members members' => ∃ list list', members = some list ∧ members' = some list' ∧
        Member.ResolvedSomewhere tag list list')
      (TypeDecl.readBody? (head.withBody inner behind))
        (TypeDecl.readBody? (head.withBody inner behind))
      scope scope' := by
    intro scope scope' hapart
    rw [head.readBody?_withBody]
    exact (hinner hapart).bind fun list list' _ _ _ _ hresolved hagree =>
      coincide_pure hagree ⟨list, list', rfl, rfl, hresolved⟩
  have hlevels :
      (agreement none).Levels [] [] (head.withBody inner behind) (head.withBody inner behind) :=
    .refl (lacks_none _) False.elim
  -- With related bodies the types are related, and with related types the statements.
  have htype := TypeDecl.simulates_read_of_body hlevels TypeDecl.Follows.name?_eq h
    ⟨named, after, named', after', hnamed, hnamed', hsame, hplaceholder⟩
    fun hapart => simulates_agreement_iff.mpr (hbody hapart)
  have hstatement := Declaration.simulates_read_of_type hlevels TypeDecl.Follows.name?_eq
    (head.isDeclaredAt_withBody scope) (head.isDeclaredAt_withBody scope') htype
  refine (simulates_agreement_iff.mp hstatement).mono ?_
  rintro ⟨declaration, rest⟩ ⟨declaration', rest'⟩ ⟨⟨hdeclared, hinstances⟩, hrest⟩
  refine ⟨?_, hrest.levels.eq_of_agreement⟩
  cases hdeclared with
  | tagged hmembers =>
    obtain ⟨list, list', rfl, rfl, field, hresolved⟩ := hmembers
    exact ⟨field, .tagged hresolved hinstances⟩
  | synonym hmembers haliased hdeclarator =>
    obtain ⟨list, list', rfl, rfl, field, hresolved⟩ := hmembers
    exact ⟨field, .synonym hresolved (TypeRef.unplaced_inj.mp haliased) hdeclarator hinstances⟩

end BodyHead

/-- A body that refers to its type is read alike but for the first reference, which is resolved
where the type is known. -/
theorem SelfReferring.coincide_readMembers {body : Level} (hbody : SelfReferring tag body)
    (h : scope.Apart tag scope') (hplain : body.PlainSemicolons) :
    Coincide none (Member.ResolvedSomewhere tag) (TypeDecl.readMembers body)
      (TypeDecl.readMembers body)
      scope scope' := by
  -- By induction on how deep in the body the reference stands.
  induction hbody generalizing scope scope' with
  | @field before behind hbefore hlacks reference =>
    have hplain' : (reference.statement tag behind).PlainSemicolons :=
      hplain.of_reaches (reaches_of_suffix (List.suffix_append _ _))
    exact coincide_readMembers_around h hplain hbefore hlacks (reference.startsStatement hplain')
      fun hapart => reference.coincide_read_statement hapart hplain'
  | @inside before inner behind hbefore hlacks head hname hinner ih =>
    have hplain' : (head.withBody inner behind).PlainSemicolons :=
      hplain.of_reaches (reaches_of_suffix (List.suffix_append _ _))
    -- What is inside the body is a part of the level, so a `;` has no other role in it.
    have hcontents : inner.PlainSemicolons := by
      refine hplain'.of_reaches ((TypeDecl.reaches_afterTypeName _).trans ?_)
      rw [head.typeName?_withBody.2]
      exact .inside .start rfl
    exact coincide_readMembers_around h hplain hbefore hlacks
      (hplain'.startsStatement_append head.qualifiers_ne_nil head.qualifiers_isLeft
        head.qualifiers_isWord)
      fun hapart => head.coincide_read_withBody hapart hplain' hname fun hinnerApart =>
        ih hinnerApart hcontents

/-! ### The two forms -/

namespace Scope

variable (hsound : scope.types.Sound) (hnew : some tag ∉ scope.types.keys)
include hsound hnew

/-- A placeholder makes its name known and no other one. -/
theorem agree_withPlaceholder {word : Option String}
    (hword : tag ∈ scope.hidden ∨ word = some tag) :
    scope.Agree word (scope.withPlaceholder (some tag)) where
  hidden_eq := rfl
  knows_eq := by
    intro name hname
    rw [Bool.eq_iff_iff, knows_iff, knows_iff, keys_withPlaceholder, List.mem_append,
      List.mem_singleton]
    refine and_congr_right fun hhidden => or_iff_left ?_
    rintro ⟨⟩
    exact hword.elim hhidden hname
  labelled := hsound.labelled
  labelled' :=
    ((TypeDecl.findOrDeclare_spec (some tag) hsound).of_ok
      (BodyHead.findOrDeclare_tag hnew)).2.1.labelled

/-- A placeholder for a name that is not hidden sets the scopes apart. -/
theorem apart_withPlaceholder (hhidden : tag ∉ scope.hidden) (hsemicolon : scope.knows ";" = false)
    (htag : tag ≠ ";") :
    scope.Apart tag (scope.withPlaceholder (some tag)) where
  toAgree := agree_withPlaceholder hsound hnew (Or.inr rfl)
  sound := hsound
  sound' :=
    ((TypeDecl.findOrDeclare_spec (some tag) hsound).of_ok (BodyHead.findOrDeclare_tag hnew)).2.1
  new := hnew
  known := by
    rw [knows_iff]
    exact ⟨hhidden, (scope.keys_withPlaceholder _).symm ▸
      List.mem_append_right _ List.mem_cons_self⟩
  not_knows_semicolon := hsemicolon
  not_knows_semicolon' := by
    rwa [(agree_withPlaceholder hsound hnew (Or.inr rfl)).knows_eq ";" fun h =>
      htag (Option.some.inj h)]

end Scope

namespace BodyHead

variable (head : BodyHead) {body : Level} {newName : String}

/-- Both forms of the type fail, or both are read and their members are related. -/
def FormsFollow (tag newName : String) (body rest : Level) (scope : Scope)
    (related : List Member → List Member → Prop) : Prop :=
  (∃ fault after fault' after', Declaration.read (head.plain body rest) scope = .error fault after ∧
      Declaration.read (head.synonym newName body rest) scope = .error fault' after') ∨
    ∃ members members', head.ReadsPlain tag body rest scope members ∧
      head.ReadsSynonym tag newName body rest scope members' ∧ related members members'

section

variable (hname : head.name? = some tag)
  (htypedef : ∀ item ∈ head.qualifiers, item.value ≠ "typedef") (hsound : scope.types.Sound)
  (hnew : some tag ∉ scope.types.keys)
include hname htypedef hsound hnew

/-- The forms follow each other where their bodies do, of which one is read beside a placeholder. -/
theorem formsFollow_of_coincide (htag : tag ≠ "") {word : Option String}
    {related : List Member → List Member → Prop}
    (hbody : Coincide word related (TypeDecl.readMembers body) (TypeDecl.readMembers body) scope
      (scope.withPlaceholder (some tag))) :
    head.FormsFollow tag newName body rest scope related := by
  rcases hbody with ⟨members, middle, members', middle', hread, hread', hrelated, -⟩ |
    ⟨fault, middle, fault', middle', hread, hread'⟩
  · exact Or.inr ⟨members, members',
      head.readsPlain_of_members htypedef hname hsound htag hnew rest hread,
      head.readsSynonym_of_members hname newName hnew hsound htag rest hread', hrelated⟩
  · exact Or.inl ⟨fault, middle, fault', middle', head.read_plain_of_error htypedef hread,
      head.read_synonym_of_error hname newName hnew hread'⟩

variable (hsemicolon : scope.knows ";" = false) (htag : IsWord tag) (hplain : body.PlainSemicolons)
  (newName : String) (rest : Level)
include hsemicolon htag hplain

/-- Both forms of a new type with a body are read and recorded with members, or both fail.  Where
the body does not refer to its type, the members of both forms are the same and are written alike,
but for the places of types.  Where it does, the first reference is read as a type and its variables
in the plain form, and as fields of the type in a typedef: the members are the same apart from this
statement.  They are written alike unless the first of its fields is a function that returns a
pointer.  In both forms what refers to the tag refers to the entry of the type. -/
theorem recorded_alike_or_resolved :
    (tag ∈ scope.hidden ∨ body.Lacks (some tag) →
      head.FormsFollow tag newName body rest scope (List.Forall₂ Member.LooksLike)) ∧
    (tag ∉ scope.hidden → SelfReferring tag body →
      head.FormsFollow tag newName body rest scope fun members members' =>
        ∃ field, Member.Resolved tag field members members' ∧
          (field.spaceBeforeName = false → field.render false ≠ "" →
            ∀ depth, renderMembers depth members' = renderMembers depth members)) := by
  have hne : tag ≠ "" := Text.ne_empty_of_isWord htag
  constructor
  case left =>
    intro halike
    -- Either the tag is never seen as a type, or the body does not say it.
    have hbody : ∃ word,
      Coincide word Member.SameAll (TypeDecl.readMembers body) (TypeDecl.readMembers body) scope
        (scope.withPlaceholder (some tag)) := by
      rcases halike with hhidden | hlacks
      · exact ⟨none, TypeDecl.coincide_readMembers
          (Scope.agree_withPlaceholder hsound hnew (Or.inl hhidden)) (lacks_none _)⟩
      · exact ⟨some tag, TypeDecl.coincide_readMembers
          (Scope.agree_withPlaceholder hsound hnew (Or.inr rfl)) hlacks⟩
    obtain ⟨word, hbody⟩ := hbody
    exact head.formsFollow_of_coincide hname htypedef hsound hnew hne
      (hbody.mono fun members members' hsame => Member.looksLike_of_unplaced hsame.symm)
  case right =>
    intro hhidden hself
    -- The plain form is read in a scope without the tag, the typedef with its placeholder.
    have hapart :=
      Scope.apart_withPlaceholder hsound hnew hhidden hsemicolon
      (by rintro rfl; revert htag; decide)
    refine head.formsFollow_of_coincide hname htypedef hsound hnew hne
      ((hself.coincide_readMembers hapart hplain).mono ?_)
    rintro members members' ⟨field, hresolved⟩
    exact ⟨field, hresolved, fun hspace hfield => hresolved.renderMembers_eq htag hspace hfield⟩

end

/-! ### A list type -/

/-- A type `struct Node` with a body. -/
def node : BodyHead where
  qualifiers := [.token "struct" { isQualifier := true }]
  word? := some (.token "Node" .unresolved)
  qualifiers_ne_nil := by decide
  qualifiers_isLeft := by decide
  qualifiers_isWord := by decide
  not_enum := by decide
  word_isName := by
    rintro item ⟨⟩
    exact ⟨rfl, rfl, rfl⟩

/-- A pointer `struct … *next`. -/
def toNext : SelfReference where
  qualifiers := [.token "struct" { isQualifier := true }]
  first := ({
    right := [.token "*" { isQualifier := true }]
    head := .token "next" .unresolved
    after := []
    right_isQualifier := BareDeclarator.star_isQualifier
    head_not_isQualifier := rfl
    head_isNameOrNest := Or.inl ⟨rfl, rfl⟩
    head_not_separator := rfl
    after_isGroup := BareDeclarator.nil_isGroup }, .none)
  further := []
  qualifiers_isLeft := by decide
  qualifiers_isWord := by decide
  not_typedef := by decide
  introduced := Or.inl (by decide)

/-- The items of `int v;`. -/
def value : Level :=
  [.token "int" .typeName, .token "v" .unresolved, .token ";" {}]

/-- The items of `int v; struct Node *next; struct Node *last;`. -/
def links : Level :=
  value ++ toNext.statement "Node" [.token "struct" { isQualifier := true },
    .token "Node" .unresolved, .token "*" { isQualifier := true }, .token "last" .unresolved,
    .token ";" {}]

/-- The trees of `int v; struct Node *next; struct Node *last;`. -/
def linkTrees : List TokenTree :=
  [.leaf ⟨"int", .typeName⟩, .leaf ⟨"v", .unresolved⟩, .leaf ⟨";", .operator⟩,
    .leaf ⟨"struct", .qualifier⟩, .leaf ⟨"Node", .unresolved⟩, .leaf ⟨"*", .qualifier⟩,
    .leaf ⟨"next", .unresolved⟩, .leaf ⟨";", .operator⟩,
    .leaf ⟨"struct", .qualifier⟩, .leaf ⟨"Node", .unresolved⟩, .leaf ⟨"*", .qualifier⟩,
    .leaf ⟨"last", .unresolved⟩,
    .leaf ⟨";", .operator⟩]

/-- The items of both forms of a list type. -/
theorem items_links :
    (fun trees => (Node.ofTrees trees).items) <$> TokenTree.ofSource .c (Scope.ofSettings {})
        "struct Node \x7b int v; struct Node *next; struct Node *last; \x7d;" =
          .ok (node.plain links []) ∧
    (fun trees => (Node.ofTrees trees).items) <$> TokenTree.ofSource .c (Scope.ofSettings {})
        "typedef struct Node \x7b int v; struct Node *next; struct Node *last; \x7d List;" =
      .ok (node.synonym "List" links []) := by
  have hplain : TokenTree.ofSource .c (Scope.ofSettings {})
      "struct Node \x7b int v; struct Node *next; struct Node *last; \x7d;" =
        .ok [.leaf ⟨"struct", .qualifier⟩, .leaf ⟨"Node", .unresolved⟩, .group .brace linkTrees,
          .leaf ⟨";", .operator⟩] := by
    decide +kernel
  have hsynonym : TokenTree.ofSource .c (Scope.ofSettings {})
      "typedef struct Node \x7b int v; struct Node *next; struct Node *last; \x7d List;" =
        .ok [.leaf ⟨"typedef", .qualifier⟩, .leaf ⟨"struct", .qualifier⟩,
          .leaf ⟨"Node", .unresolved⟩, .group .brace linkTrees, .leaf ⟨"List", .unresolved⟩,
          .leaf ⟨";", .operator⟩] := by
    decide +kernel
  rw [hplain, hsynonym]
  exact ⟨rfl, rfl⟩

/-- The member declares fields, and the first one is written like a variable. -/
def IsWrittenAsVariable : Member → Prop
  | .declaration (.names (field :: _)) => field.spaceBeforeName = false ∧ field.render false ≠ ""
  | _ => False

instance : DecidablePred IsWrittenAsVariable
  | .declaration (.names (_ :: _)) => inferInstanceAs (Decidable (_ ∧ _))
  | .declaration (.names []) | .declaration (.type _ _) | .enumerator _ _ =>
    inferInstanceAs (Decidable False)

theorem ofSource_links :
    TokenTree.ofSource .c (Scope.ofSettings {}) "int v; struct Node *next; struct Node *last;" =
      .ok linkTrees ∧
    TokenTree.ofSource .c (Scope.ofSettings {}) "int v;" = .ok (linkTrees.take 3) := by
  constructor <;> decide +kernel

theorem lacks_value : value.Lacks (some "Node") :=
  TokenTree.lacks_of_ofSource ofSource_links.2 (by decide +kernel)

theorem selfReferring_links : SelfReferring "Node" links := by
  have hends : value.EndsInSemicolon :=
    Or.inr ⟨[.token "int" .typeName, .token "v" .unresolved], rfl⟩
  exact .field hends lacks_value toNext

/-- The members of both forms of a list type are the same but for the first pointer to the type. -/
theorem recorded_alike_or_resolved_links :
    (∃ members members', node.ReadsPlain "Node" value [] (Scope.ofSettings {}) members ∧
      node.ReadsSynonym "Node" "List" value [] (Scope.ofSettings {}) members' ∧
      List.Forall₂ Member.LooksLike members members') ∧
    ∃ members members' field, node.ReadsPlain "Node" links [] (Scope.ofSettings {}) members ∧
      node.ReadsSynonym "Node" "List" links [] (Scope.ofSettings {}) members' ∧
      Member.Resolved "Node" field members members' ∧
      ∀ depth, renderMembers depth members' = renderMembers depth members := by
  have hsound : (Scope.ofSettings {}).types.Sound := TypeTable.sound_ofSettings {}
  have hsemicolon : (Scope.ofSettings {}).Plain ";" := ⟨by decide, by decide⟩
  have hforms {body : Level} (hplain : body.PlainSemicolons) :=
    recorded_alike_or_resolved node (by rfl : node.name? = some "Node") (by decide)
      hsound (by decide)
      hsemicolon.not_known (by decide) hplain "List" []
  have hvalue :
      Ends (Declaration.read (node.plain value [])) (Scope.ofSettings {}) (fun _ _ => True)
      fun _ => False := by
    decide +kernel
  have hlinks : Ends (Declaration.read (node.synonym "List" links [])) (Scope.ofSettings {})
      (fun _ after => ∀ members ∈ after.types.membersOf? "Node", ∀ member ∈ members,
        member.isType = false ∧ IsWrittenAsVariable member) fun _ => False := by
    decide +kernel
  constructor
  · have hplain : value.PlainSemicolons :=
      Declaration.plainSemicolons_of_ofSource hsemicolon ofSource_links.2
    rcases (hforms hplain).1 (Or.inr lacks_value) with ⟨fault, after, -, -, hfails, -⟩ | hfollow
    · obtain ⟨result, last, hread, -⟩ := hvalue.exists_ok
      rw [hread] at hfails
      cases hfails
    · exact hfollow
  · have hplain : links.PlainSemicolons :=
      Declaration.plainSemicolons_of_ofSource hsemicolon ofSource_links.1
    obtain ⟨result, last, hread, hwritten⟩ := hlinks.exists_ok
    rcases (hforms hplain).2 (by decide) selfReferring_links with ⟨-, -, fault', after', -,
      hfails⟩ | hfollow
    · rw [hread] at hfails
      cases hfails
    · obtain ⟨members, members', hreadsPlain, hreadsSynonym, field, hresolved, hrender⟩ := hfollow
      refine ⟨members, members', field, hreadsPlain, hreadsSynonym, hresolved, ?_⟩
      obtain ⟨aliased, declarator, after, hform, hrecorded, -⟩ := hreadsSynonym
      rw [hread] at hform
      cases hform
      have hmembers := hwritten members' hrecorded
      obtain ⟨further, hmem⟩ := hresolved.exists_fields fun member hmember =>
        (hmembers member hmember).1
      exact hrender (hmembers _ hmem).2.1 (hmembers _ hmem).2.2

/-- They are not all the same: by itself the list type has a type where it has a field in a typedef.
-/
theorem not_recorded_alike_links :
    (fun trees => (Node.ofTrees trees).items) <$> TokenTree.ofSource .c (Scope.ofSettings {})
        "struct Node \x7b int v; struct Node *next; struct Node *last; \x7d;" =
          .ok (node.plain links []) ∧
    (fun trees => (Node.ofTrees trees).items) <$> TokenTree.ofSource .c (Scope.ofSettings {})
        "typedef struct Node \x7b int v; struct Node *next; struct Node *last; \x7d List;" =
      .ok (node.synonym "List" links []) ∧
    ¬ node.FormsFollow "Node" "List" links [] (Scope.ofSettings {})
      (List.Forall₂ Member.LooksLike) := by
  refine ⟨items_links.1, items_links.2, ?_⟩
  have hplain : Ends (TypeDecl.readMembers links) (Scope.ofSettings {})
      (fun members _ => members.map Member.isType = [false, true, false]) fun _ => False := by
    decide +kernel
  have hsynonym : Ends (Declaration.read (node.synonym "List" links [])) (Scope.ofSettings {})
      (fun _ after => (after.types.membersOf? "Node").map (List.map Member.isType) =
        some [false, false, false])
      fun _ => False := by
    decide +kernel
  rintro (⟨-, -, fault', after', -, hfails⟩ | ⟨members, members', hreadsPlain, hreadsSynonym,
    hlike⟩)
  · obtain ⟨result, last, hread, -⟩ := hsynonym.exists_ok
    rw [hread] at hfails
    cases hfails
  · obtain ⟨middle, -, hmembers, -⟩ := hreadsPlain
    obtain ⟨aliased, declarator, after, hread, hrecorded, -⟩ := hreadsSynonym
    have htypes : members.map Member.isType = [false, true, false] := hplain.of_ok hmembers
    have htypes' := hsynonym.of_ok hread
    rw [hrecorded, Option.map_some, Option.some.injEq] at htypes'
    have hsame : List.Forall₂ Eq (members.map Member.isType) (members'.map Member.isType) :=
      List.forall₂_map_left_iff.mpr (List.forall₂_map_right_iff.mpr (hlike.imp fun _ _ hlooks =>
        hlooks.isType_eq))
    rw [htypes, htypes', List.forall₂_eq_eq_eq] at hsame
    exact absurd hsame (by decide)

end BodyHead

end CommonDecl
