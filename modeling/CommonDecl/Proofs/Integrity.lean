import CommonDecl.Proofs.Reading
import CommonDecl.Proofs.References
import CommonDecl.Source

/-!
# Referential integrity

Whatever is read, in either dialect and also where reading fails midway, every reference in the
table of types and in the declarations that were given back leads to an entry and carries its name,
and a name that was found once stays where it is (`Session.integrity`).  The invariant of one reader
is `Sustains`; it is proved for each reader in turn from those of the readers it calls.
-/

namespace CommonDecl

/-! ### Scopes that grow -/

/-- The later scope has all names of the earlier one, each in the same place. -/
structure Scope.Grows (before after : Scope) : Prop where
  settings_eq : after.settings = before.settings
  hidden_eq : after.hidden = before.hidden
  keys_grow : before.types.keys <+: after.types.keys

theorem Scope.Grows.refl (scope : Scope) : scope.Grows scope :=
  ⟨rfl, rfl, List.prefix_refl _⟩

/-- A scope that grows twice has grown: the names are kept in place both times. -/
theorem Scope.Grows.trans {first second third : Scope} (h : first.Grows second)
    (h' : second.Grows third) : first.Grows third :=
  ⟨h'.settings_eq.trans h.settings_eq, h'.hidden_eq.trans h.hidden_eq,
    h.keys_grow.trans h'.keys_grow⟩

/-- A name that is found is found in the same place later. -/
theorem Scope.Grows.lookup {before after : Scope} (h : before.Grows after) {name : String}
    {ref : TypeRef} (hlookup : before.lookup name = some ref) :
    ∃ ref', after.lookup name = some ref' ∧ ref'.handle = ref.handle := by
  unfold Scope.lookup at hlookup ⊢
  rw [h.hidden_eq]
  split at hlookup
  · cases hlookup
  · rename_i hhidden
    rw [if_neg hhidden]
    exact TypeTable.lookup_mono h.keys_grow hlookup

/-- What a scope gives for a name leads to an entry that carries the name. -/
theorem Scope.resolves_lookup (scope : Scope) (name : String) :
    scope.types.Resolves (scope.lookup name).toList := by
  cases h : scope.lookup name with
  | none => simp
  | some ref => exact (Scope.names_of_lookup h).resolves

/-! ### Declarators of C -/

namespace Declarator

/-- The type at the current item is one of the scope. -/
theorem resolves_typeAt? (scope : Scope) (level : Level) :
    scope.types.Resolves (typeAt? scope level).toList := by
  unfold typeAt?
  cases level.word? with
  | none => simp
  | some name => exact scope.resolves_lookup name

/-- The type of a declarator is that of its template, or one that the scope finds at the level. -/
theorem resolves_readType {scope : Scope} {template : Option Declarator} {declarator : Declarator}
    (level : Level) (htemplate : ∀ shared ∈ template, scope.types.Resolves shared.refs)
    (h : scope.types.Resolves declarator.refs) :
    scope.types.Resolves (readType scope template declarator level).refs := by
  rw [refs_eq] at h ⊢
  simp only [TypeTable.resolves_append] at h ⊢
  obtain ⟨⟨hbase, harguments⟩, hnests⟩ := h
  cases template with
  -- Behind a template no type is read: the base is the one that all declarators of a list share.
  | some shared =>
    have hshared := htemplate shared rfl
    rw [refs_eq] at hshared
    simp only [TypeTable.resolves_append] at hshared
    exact ⟨⟨hshared.1.1, harguments⟩, hnests⟩
  | none =>
    refine ⟨⟨?_, harguments⟩, hnests⟩
    show scope.types.Resolves ((typeAt? scope level.afterLeftQualifiers).or declarator.base).toList
    -- A word that is no type leaves the base that the declarator had before.
    cases hfound : typeAt? scope level.afterLeftQualifiers with
    | none => exact hbase
    | some ref =>
      have := resolves_typeAt? scope level.afterLeftQualifiers
      rwa [hfound] at this

/-- The references in a nest are those in its argument list. -/
theorem refs_nestOf (right : Qualifiers) (arguments : Option (List Declarator)) (level : Level) :
    (nestOf right arguments level).refs = refsOf (arguments.getD []) := by
  cases arguments with
  | none => rfl
  | some arguments => simp [nestOf, refs, refsOf]

/-- The references in a declarator that was read are those of its template, those that it had before
and references to types that the scope finds. -/
theorem resolves_read (scope : Scope) :
    (∀ template declarator level,
      (∀ shared ∈ template, scope.types.Resolves shared.refs) →
      scope.types.Resolves declarator.refs → ∀ result rest,
        read scope template declarator level = .ok (result, rest) →
          scope.types.Resolves result.refs) ∧
    (∀ level arguments, readArgumentList scope level = .ok arguments →
      scope.types.Resolves (refsOf (arguments.getD []))) ∧
    (∀ level arguments, readArguments scope level = .ok arguments →
      scope.types.Resolves (refsOf arguments)) ∧
    ∀ depth level nests innermost, readNests scope depth level = .ok (nests, innermost) →
      scope.types.Resolves (refsOf nests) := by
  -- The readers of a declarator call each other, so the four statements go by one induction.
  apply read_induct scope
  case declarator =>
    intro template declarator level core depth kind rest hnests harguments htemplate hdeclarator
      result rest' h
    rw [read] at h
    obtain ⟨⟨nests, innermost⟩, hreadNests, h⟩ := bind_eq_ok_iff.mp h
    -- The nests were read from the contents of a group and resolve by the induction hypothesis.
    have hnests := hnests nests innermost hreadNests
    have htyped := resolves_readType level htemplate hdeclarator
    rw [refs_eq] at htyped
    simp only [TypeTable.resolves_append] at htyped
    obtain ⟨⟨hbase, hown⟩, hownNests⟩ := htyped
    have hallNests : scope.types.Resolves
        (refsOf ((readType scope template declarator level).nests ++ nests)) := by
      rw [refsOf_append, TypeTable.resolves_append]
      exact ⟨hownNests, hnests⟩
    dsimp only at h
    split at h
    · obtain ⟨arguments, hread, h⟩ := bind_eq_ok_iff.mp h
      have harguments := harguments arguments hread
      cases arguments with
      | none => cases h
      | some arguments =>
        cases h
        rw [refs_eq]
        simp only [readName, refsOf_append, TypeTable.resolves_append]
        exact ⟨⟨hbase, hown, harguments⟩,
          by rwa [refsOf_append, TypeTable.resolves_append] at hallNests⟩
    · cases h
      rw [refs_eq]
      simp only [readName, refsOf_append, TypeTable.resolves_append]
      exact ⟨⟨hbase, hown⟩, by rwa [refsOf_append, TypeTable.resolves_append] at hallNests⟩
  case list =>
    intro level contents hcontents ih arguments h
    rw [readArgumentList_of_group hcontents] at h
    obtain ⟨found, hfound, h⟩ := bind_eq_ok_iff.mp h
    cases h
    exact ih found hfound
  case noList =>
    intro level hnone arguments h
    rw [readArgumentList_of_none hnone] at h
    cases h
    exact TypeTable.resolves_nil
  case noArgument =>
    intro level hend arguments h
    rw [readArguments, if_pos hend] at h
    cases h
    exact TypeTable.resolves_nil
  case argument =>
    intro level hend hread ih arguments h
    rw [readArguments, if_neg hend] at h
    obtain ⟨⟨argument, rest⟩, hfirst, h⟩ := bind_eq_ok_iff.mp h
    -- An argument starts without a template and from a declarator that has no references.
    have hargument := hread (by simp) (by simp) argument rest hfirst
    dsimp only at h
    split at h
    · rename_i hlt
      obtain ⟨others, hothers, h⟩ := bind_eq_ok_iff.mp h
      cases h
      rw [refsOf, TypeTable.resolves_append]
      exact ⟨hargument, ih rest hlt others hothers⟩
    · cases h
      simpa [refsOf] using hargument
  case innermost =>
    intro level nests innermost h
    rw [readNests] at h
    cases h
    exact TypeTable.resolves_nil
  case noNest =>
    intro level depth hnone nests innermost h
    rw [readNests_of_none depth hnone] at h
    cases h
  case nest =>
    intro level depth contents hcontents harguments ih nests innermost h
    rw [readNests_of_contents depth hcontents] at h
    obtain ⟨arguments, hread, h⟩ := bind_eq_ok_iff.mp h
    obtain ⟨⟨inner, level'⟩, hinner, h⟩ := bind_eq_ok_iff.mp h
    cases h
    rw [refsOf, refs_nestOf, TypeTable.resolves_append]
    exact ⟨harguments arguments hread, ih inner _ hinner⟩

end Declarator

/-! ### The invariant of a reader -/

section

variable {α β : Type}

/-- Started in a sound scope where the given references lead to entries, the step leaves a sound
scope that has grown, and so it does where it fails; the references in what it gives lead to
entries. -/
def Sustains (given : List TypeRef) (step : Reading α) (refs : α → List TypeRef) : Prop :=
  ∀ scope, scope.types.Sound → scope.types.Resolves given →
    Ends step scope
      (fun a scope' => scope.Grows scope' ∧ scope'.types.Sound ∧ scope'.types.Resolves (refs a))
      fun scope' => scope.Grows scope' ∧ scope'.types.Sound

variable {given : List TypeRef} {step : Reading α} {refs : α → List TypeRef}
  {refs' : β → List TypeRef}

/-- A reader that is built from two may use, in the second one, what the first one gave. -/
theorem Sustains.bind (h : Sustains given step refs) {f : α → Reading β}
    (hf : ∀ a, Sustains (given ++ refs a) (f a) refs') : Sustains given (step >>= f) refs' := by
  intro scope hsound hgiven
  rw [ends_bind]
  refine (h scope hsound hgiven).mono ?_ fun _ h => h
  rintro a scope' ⟨hgrows, hsound', hrefs⟩
  have hgiven' : scope'.types.Resolves (given ++ refs a) := by
    rw [TypeTable.resolves_append]
    exact ⟨hgiven.mono hgrows.keys_grow, hrefs⟩
  refine (hf a scope' hsound' hgiven').mono ?_ ?_
  · rintro b scope'' ⟨hgrows', hsound'', hrefs'⟩
    exact ⟨hgrows.trans hgrows', hsound'', hrefs'⟩
  · rintro scope'' ⟨hgrows', hsound''⟩
    exact ⟨hgrows.trans hgrows', hsound''⟩

/-- A result without new references keeps the invariant. -/
theorem Sustains.pure {a : α} (h : refs a ⊆ given) : Sustains given (pure a) refs := by
  intro scope hsound hgiven
  rw [ends_pure]
  exact ⟨Scope.Grows.refl scope, hsound, fun ref href => hgiven ref (h href)⟩

/-- Further references that lead to entries can be left out of use. -/
theorem Sustains.mono {given' : List TypeRef} (h : Sustains given step refs)
    (hgiven : given ⊆ given') : Sustains given' step refs :=
  fun scope hsound hgiven' => h scope hsound fun ref href => hgiven' ref (hgiven href)

/-- A fault leaves the scope as it is. -/
theorem Sustains.throw {fault : Fault} : Sustains given (throw fault) refs := by
  intro scope hsound _
  rw [ends_throw]
  exact ⟨Scope.Grows.refl scope, hsound⟩

/-- A step that adds no types, such as reading a declarator. -/
theorem Sustains.ofExcept {read : Scope → Except Fault α}
    (h : ∀ scope a, scope.types.Resolves given → read scope = .ok a →
      scope.types.Resolves (refs a)) :
    Sustains given (do let scope ← get; Reading.ofExcept (read scope)) refs := by
  intro scope hsound hgiven
  simp only [ends_bind, ends_get, Reading.ends_ofExcept]
  exact ⟨fun a ha => ⟨Scope.Grows.refl scope, hsound, h scope a hgiven ha⟩,
    fun _ _ => ⟨Scope.Grows.refl scope, hsound⟩⟩

/-- What is registered in a sound table leads to an entry from then on. -/
theorem sustains_register (declared : TypeDecl) :
    Sustains declared.refs (Reading.register declared) fun ref => [ref] := by
  intro scope hsound hrefs
  rw [Reading.register, Reading.ends_declare]
  obtain ⟨hkeys, hsound', hnames⟩ :=
    TypeTable.declare_spec hsound declared false hrefs (by simp)
  exact ⟨⟨rfl, rfl, hkeys⟩, hsound', hnames.resolves⟩

end

/-! ### Parts of types and statements of C -/

namespace TypeDecl

/-- The type that is found or declared under a name has the name. -/
theorem findOrDeclare_spec (name : Option String) {scope : Scope} (hsound : scope.types.Sound) :
    Ends (findOrDeclare name) scope
      (fun ref scope' => scope.Grows scope' ∧ scope'.types.Sound ∧ scope'.types.Names ref name)
      fun scope' => scope.Grows scope' ∧ scope'.types.Sound := by
  rw [findOrDeclare, ends_bind, ends_get]
  split
  · rename_i found hfound
    rw [Option.bind_eq_bind, Option.bind_eq_some_iff] at hfound
    obtain ⟨known, rfl, hlookup⟩ := hfound
    exact ⟨Scope.Grows.refl scope, hsound, Scope.names_of_lookup hlookup⟩
  · rw [Reading.ends_declare]
    obtain ⟨hkeys, hsound', hnames⟩ := TypeTable.declare_spec hsound
      (ofName name) true (by simp [ofName, refs]) (by simp [ofName, members?, typedef?])
    exact ⟨⟨rfl, rfl, hkeys⟩, hsound', hnames⟩

/-- The declarator that a typedef names has the aliased type as its template. -/
theorem sustains_readNamedDeclarator (aliased : TypeRef) (unnamed : Fault) (level : Level) :
    Sustains [aliased] (readNamedDeclarator aliased unnamed level)
      fun result => result.2.1.refs := by
  intro scope hsound haliased
  simp only [readNamedDeclarator, ends_bind, ends_get, Reading.ends_ofExcept]
  refine ⟨?_, fun _ _ => ⟨Scope.Grows.refl scope, hsound⟩⟩
  rintro ⟨declarator, rest⟩ hread
  dsimp only
  -- Without a name there is a fault, and no entry was made.
  cases declarator.name with
  | none => exact ⟨Scope.Grows.refl scope, hsound⟩
  | some name =>
    refine ⟨Scope.Grows.refl scope, hsound, ?_⟩
    refine (Declarator.resolves_read scope).1 _ _ _ ?_ (by simp)
      _ _ hread
    intro shared hshared
    obtain rfl : Declarator.ofBase aliased = shared := by simpa using hshared
    rwa [Declarator.refs_ofBase]

/-- The further names of a typedef refer to the same aliased type. -/
theorem sustains_readSiblings (qualifiers : Qualifiers) (aliased : TypeRef) (level : Level) :
    Sustains [aliased] (readSiblings qualifiers aliased level)
      fun result => Declarator.refsOf result.1 := by
  induction level using readSiblings_induct with
  | comma level hcomma ih =>
    rw [readSiblings, if_pos hcomma]
    refine (sustains_readNamedDeclarator _ _ _).bind ?_
    rintro ⟨name, declarator, rest⟩
    -- Each name is registered as a synonym, which refers to what its declarator refers to.
    have hsynonym : (synonym qualifiers name ⟨aliased, none, declarator⟩).refs =
        [aliased] ++ declarator.refs := by
      rw [TypeDecl.refs]
      rfl
    have hregister := sustains_register (synonym qualifiers name ⟨aliased, none, declarator⟩)
    rw [hsynonym] at hregister
    refine hregister.bind fun ref => ?_
    dsimp only
    split
    · rename_i hlt
      -- The further names need the aliased type only, so what the first one gave is dropped.
      refine ((ih rest hlt).mono (by simp)).bind ?_
      rintro ⟨siblings, last⟩
      refine Sustains.pure ?_
      rw [Declarator.refsOf]
      intro other hother
      rw [List.mem_append] at hother
      rcases hother with hother | hother <;> simp [hother]
    · refine Sustains.pure ?_
      simp [Declarator.refsOf]
  | ends level hcomma =>
    rw [readSiblings, if_neg hcomma]
    exact Sustains.pure (by simp [Declarator.refsOf])

end TypeDecl

namespace Declaration

/-- The further declarators of a list have the first one as their template. -/
theorem resolves_readFurther {scope : Scope} {first last : Declarator} {level : Level}
    (hfirst : scope.types.Resolves first.refs) :
    ∀ {declarators : List Declarator} {rest : Level},
      readFurther scope first last level = .ok (declarators, rest) →
        scope.types.Resolves (Declarator.refsOf declarators) := by
  induction last, level using readFurther_induct with
  | body last level hbody =>
    intro declarators rest h
    rw [readFurther, if_pos hbody] at h
    cases h
    -- A body of a function ends the list, without a declarator of its own.
    exact TypeTable.resolves_nil
  | comma last level hbody hcomma ih =>
    intro declarators rest h
    rw [readFurther, if_neg hbody, if_pos hcomma] at h
    obtain ⟨⟨declarator, middle⟩, hread, h⟩ := bind_eq_ok_iff.mp h
    have hdeclarator : scope.types.Resolves declarator.refs :=
      (Declarator.resolves_read scope).1 _ _ _ (by simpa using hfirst)
        (by simp) _ _ hread
    dsimp only at h
    split at h
    · rename_i hlt
      obtain ⟨⟨others, rest'⟩, hothers, h⟩ := bind_eq_ok_iff.mp h
      cases h
      rw [Declarator.refsOf, TypeTable.resolves_append]
      exact ⟨hdeclarator, ih declarator middle hlt hothers⟩
    · cases h
      simpa [Declarator.refsOf] using hdeclarator
  | ends last level hbody hcomma =>
    intro declarators rest h
    rw [readFurther, if_neg hbody, if_neg hcomma] at h
    cases h
    exact TypeTable.resolves_nil

/-- The first declarator of a list has no template, and the further ones have the first one. -/
theorem resolves_readVariables {scope : Scope} {level rest : Level} {declaration : Declaration}
    (h : readVariables scope level = .ok (declaration, rest)) :
    scope.types.Resolves declaration.refs := by
  obtain ⟨⟨first, middle⟩, hfirst, h⟩ := bind_eq_ok_iff.mp h
  obtain ⟨⟨further, rest'⟩, hfurther, h⟩ := bind_eq_ok_iff.mp h
  cases h
  have hdeclarator : scope.types.Resolves first.refs :=
    (Declarator.resolves_read scope).1 _ _ _ (by simp) (by simp)
      _ _ hfirst
  rw [Declaration.refs, Declarator.refsOf, TypeTable.resolves_append]
  exact ⟨hdeclarator, resolves_readFurther hdeclarator hfurther⟩

end Declaration

/-- The references in declarators that are read one after the other lead to entries if those in each
of them do. -/
theorem Level.resolves_readSeparated {table : TypeTable}
    {read : Level → Except Fault (Declarator × Level)}
    (hread : ∀ level declarator rest, read level = .ok (declarator, rest) →
      table.Resolves declarator.refs) {level : Level} :
    ∀ {declarators : List Declarator} {rest : Level},
      readSeparated read level = .ok (declarators, rest) →
        table.Resolves (Declarator.refsOf declarators) := by
  -- On the recursion of the list, with the fault of a declarator ruled out by the assumption.
  induction level using readSeparated_induct with
  | ends level hend =>
    intro declarators rest h
    rw [readSeparated, if_pos hend] at h
    cases h
    exact TypeTable.resolves_nil
  | declarator level hend ih =>
    intro declarators rest h
    rw [readSeparated, if_neg hend] at h
    obtain ⟨⟨declarator, middle⟩, hfirst, h⟩ := bind_eq_ok_iff.mp h
    have hdeclarator := hread level declarator middle hfirst
    dsimp only at h
    split at h
    · rename_i hlt
      obtain ⟨⟨others, rest'⟩, hothers, h⟩ := bind_eq_ok_iff.mp h
      cases h
      rw [Declarator.refsOf, TypeTable.resolves_append]
      exact ⟨hdeclarator, ih middle hlt hothers⟩
    · cases h
      simpa [Declarator.refsOf] using hdeclarator

namespace Declaration

/-- The instances beside a type have a reference to it as their template. -/
theorem sustains_readInstances (ref : TypeRef) (level : Level) :
    Sustains [ref] (readInstances ref level) fun result => Declarator.refsOf result.1 := by
  refine Sustains.ofExcept ?_
  rintro scope ⟨declarators, rest⟩ href h
  refine Level.resolves_readSeparated ?_ h
  intro level' declarator rest' hread
  refine (Declarator.resolves_read scope).1 _ _ _ ?_ (by simp)
    _ _ hread
  intro shared hshared
  obtain rfl : Declarator.ofBase ref = shared := by simpa using hshared
  rwa [Declarator.refs_ofBase]

/-- What is declared beside a type is read once the type has its entry. -/
theorem sustains_readBeside (declared : TypeDecl) (level : Level) :
    Sustains declared.refs (readBeside declared level) fun result => result.1.refs := by
  rw [readBeside]
  split
  · exact Sustains.pure (by simp [Declaration.refs, Declarator.refsOf])
  · refine (sustains_register declared).bind fun ref => ?_
    -- Beside a typedef stand further names for the same type; beside a tagged type, its instances.
    cases declared with
    | synonym qualifiers name typedef =>
      have haliased : typedef.aliased ∈ (TypeDecl.synonym qualifiers name typedef).refs := by
        obtain ⟨aliased, definition, declarator⟩ := typedef
        cases definition <;> simp [TypeDecl.refs]
      refine ((TypeDecl.sustains_readSiblings qualifiers typedef.aliased level).mono ?_).bind ?_
      · simp [haliased]
      · rintro ⟨siblings, rest⟩
        refine Sustains.pure ?_
        rw [Declaration.refs]
        simp
    | tagged qualifiers name members =>
      refine ((sustains_readInstances ref level).mono (by simp)).bind ?_
      rintro ⟨instances, rest⟩
      refine Sustains.pure ?_
      rw [Declaration.refs]
      simp

end Declaration

/-! ### Types and statements of C -/

namespace TypeDecl

/-- The references in a tagged type are those in its members. -/
theorem refs_tagged (qualifiers : Qualifiers) (name : Option String)
    (members : Option (List Member)) :
    (tagged qualifiers name members).refs = Member.refsOf (members.getD []) := by
  cases members <;> rfl

/-- The entries of an enum have no references. -/
theorem refsOf_enumerators (body : Level) : Member.refsOf (enumerators body) = [] := by
  unfold enumerators
  induction body.split "," with
  | nil => rfl
  | cons segment segments ih =>
    rw [List.filterMap_cons]
    split
    · exact ih
    · rename_i member hmember
      unfold enumerator? at hmember
      split at hmember
      all_goals
        cases hmember
        try exact ih

/-- A typedef keeps the invariant if the body in it does. -/
theorem sustains_readTypedef {level : Level}
    (hbody : Sustains [] (readBody? level) fun members => Member.refsOf (members.getD [])) :
    Sustains [] (readTypedef level) fun result => result.1.refs := by
  intro scope hsound _
  rw [readTypedef]
  simp only [ends_bind]
  -- The scope changes in three steps: the aliased type gets an entry, its body is read, and the
  -- entry is filled in.
  refine (findOrDeclare_spec _ hsound).mono ?_ fun _ h => h
  rintro named scope₁ ⟨hgrows₁, hsound₁, hnamed⟩
  refine (hbody scope₁ hsound₁ TypeTable.resolves_nil).mono ?_ ?_
  · rintro members scope₂ ⟨hgrows₂, hsound₂, hmembers⟩
    have hgrows₂ := hgrows₁.trans hgrows₂
    -- The entry that the tag had before the body was read still has its place.
    have hnamed := hnamed.mono ‹scope₁.Grows scope₂›.keys_grow
    cases members with
    | none =>
      simp only [ends_bind]
      refine (sustains_readNamedDeclarator named _ _ scope₂ hsound₂ hnamed.resolves).mono ?_ ?_
      · rintro ⟨newName, declarator, rest⟩ scope₃ ⟨hgrows₃, hsound₃, hdeclarator⟩
        refine ⟨hgrows₂.trans hgrows₃, hsound₃, ?_⟩
        show scope₃.types.Resolves ([named] ++ declarator.refs)
        rw [TypeTable.resolves_append]
        exact ⟨hnamed.resolves.mono hgrows₃.keys_grow, hdeclarator⟩
      · rintro scope₃ ⟨hgrows₃, hsound₃⟩
        exact ⟨hgrows₂.trans hgrows₃, hsound₃⟩
    | some members =>
      simp only [ends_bind, Reading.ends_define]
      refine ⟨fun aliased types hdefine => ?_, fun _ _ => ⟨hgrows₂, hsound₂⟩⟩
      -- The entry that is filled in still has the name under which it was found.
      obtain ⟨hkeys, hsound₃, haliased⟩ := TypeTable.define_spec hsound₂ hdefine hnamed.1 hmembers
      have hbegins : scope₂.types.keys <+: types.keys :=
        ⟨[], by rw [List.append_nil, hkeys]⟩
      have hgrows₃ : scope.Grows { scope₂ with types } := hgrows₂.trans ⟨rfl, rfl, hbegins⟩
      refine (sustains_readNamedDeclarator aliased _ _ _ hsound₃ haliased.resolves).mono ?_ ?_
      · rintro ⟨newName, declarator, rest⟩ scope₄ ⟨hgrows₄, hsound₄, hdeclarator⟩
        refine ⟨hgrows₃.trans hgrows₄, hsound₄, ?_⟩
        show scope₄.types.Resolves ([aliased] ++ (Member.refsOf members ++ declarator.refs))
        rw [TypeTable.resolves_append, TypeTable.resolves_append]
        refine ⟨haliased.resolves.mono hgrows₄.keys_grow, ?_, hdeclarator⟩
        have hmembers : scope₂.types.Resolves (Member.refsOf members) := hmembers
        exact (hmembers.mono hbegins).mono hgrows₄.keys_grow
      · rintro scope₄ ⟨hgrows₄, hsound₄⟩
        exact ⟨hgrows₃.trans hgrows₄, hsound₄⟩
  · rintro scope₂ ⟨hgrows₂, hsound₂⟩
    exact ⟨hgrows₁.trans hgrows₂, hsound₂⟩

end TypeDecl

/-- Every reader of types and statements of C keeps the invariant. -/
theorem sustains_read :
    (∀ level, Sustains [] (TypeDecl.read level) fun result => result.1.refs) ∧
    (∀ level, Sustains [] (TypeDecl.readBody? level) fun members =>
      Member.refsOf (members.getD [])) ∧
    (∀ level, Sustains [] (TypeDecl.readMembers level) Member.refsOf) ∧
    (∀ level, Sustains [] (Declaration.read level) fun result => result.1.refs) ∧
    ∀ level, Sustains [] (TypeDecl.readTypedef level) fun result => result.1.refs := by
  -- Types, bodies and statements hold each other, so the invariant is proved of all readers at
  -- once.
  apply TypeDecl.read_induct
  case typedef =>
    intro level htypedef ih
    rw [TypeDecl.read, if_pos htypedef]
    exact ih
  case tagged =>
    intro level htypedef ih
    rw [TypeDecl.read, if_neg htypedef]
    refine ih.bind fun members => ?_
    cases members with
    | none => exact Sustains.pure (by simp [TypeDecl.refs_tagged, Member.refsOf])
    | some members => exact Sustains.pure (by simp [TypeDecl.refs_tagged])
  case noBody =>
    intro level hnone
    rw [TypeDecl.readBody?_of_none hnone]
    exact Sustains.pure (by simp [Member.refsOf])
  case enumBody =>
    intro level contents hcontents henum
    rw [TypeDecl.readBody?_of_contents hcontents, if_pos henum]
    exact Sustains.pure (by simp [TypeDecl.refsOf_enumerators])
  case body =>
    intro level contents hcontents henum ih
    rw [TypeDecl.readBody?_of_contents hcontents, if_neg henum]
    exact ih.bind fun members => Sustains.pure (by simp)
  case noMember =>
    rw [TypeDecl.readMembers]
    exact Sustains.pure (by simp [Member.refsOf])
  case emptyStatement =>
    intro item items hitem ih
    rw [TypeDecl.readMembers, if_pos hitem]
    exact ih
  case member =>
    intro item items hitem hread ih
    rw [TypeDecl.readMembers, if_neg hitem]
    refine hread.bind ?_
    rintro ⟨declaration, rest⟩
    dsimp only
    split
    · rename_i hlt
      refine ((ih rest hlt).mono (by simp)).bind fun members => ?_
      exact Sustains.pure (by simp [Member.refsOf])
    · exact Sustains.pure (by simp [Member.refsOf])
  case statement =>
    intro level ih scope hsound hgiven
    -- A statement is a type with what stands beside it, or a list of variables.
    rw [Declaration.read]
    simp only [ends_bind, ends_get]
    split
    · have htype := ih.bind fun result =>
        (Declaration.sustains_readBeside result.1 result.2).mono (List.subset_append_right _ _)
      simp only [ends_bind]
      have htype := htype scope hsound hgiven
      rw [ends_bind] at htype
      exact htype
    · simp only [ends_bind, Reading.ends_ofExcept]
      refine ⟨?_, fun _ _ => ⟨Scope.Grows.refl scope, hsound⟩⟩
      rintro ⟨declaration, rest⟩ hread
      exact ⟨Scope.Grows.refl scope, hsound, Declaration.resolves_readVariables hread⟩
  case synonym => exact fun level ih => TypeDecl.sustains_readTypedef ih

/-! ### Statements of Fortran -/

namespace Fortran

/-- An `INTENT` changes qualifiers only. -/
theorem refs_withIntent (intent : String) (declarator : Declarator) :
    (withIntent intent declarator).refs = declarator.refs := by
  rw [Declarator.refs_eq, Declarator.refs_eq]
  rfl

/-- Dimensions change the pointers as well, but no reference to a type. -/
theorem refs_withDimensions (list : Level) (declarator : Declarator) :
    (withDimensions list declarator).refs = declarator.refs := by
  unfold withDimensions
  dsimp only
  split
  · rfl
  · split <;> rw [Declarator.refs_eq, Declarator.refs_eq declarator]

/-- The attributes that are a word alone change no reference. -/
theorem refs_of_wordAttribute? {markers : Markers} {word : String} {declarator changed : Declarator}
    (h : wordAttribute? markers word declarator = some changed) :
    changed.refs = declarator.refs := by
  unfold wordAttribute? at h
  dsimp only at h
  split_ifs at h
  all_goals
    cases h
    rw [Declarator.refs_eq, Declarator.refs_eq declarator]

variable {scope : Scope}

/-- Of all attributes, only a type changes the references: it puts one that the scope finds in the
place of the base. -/
theorem resolves_applyAttribute (level : Level) {declarator : Declarator}
    (h : scope.types.Resolves declarator.refs) :
    Ends (applyAttribute scope level) declarator
      (fun _ changed => scope.types.Resolves changed.refs) fun _ => True := by
  unfold applyAttribute
  split
  · simp
  · rename_i typeName rest _
    simp only [ends_bind, ends_modify, ends_pure]
    rw [Declarator.refs_eq] at h ⊢
    simp only [TypeTable.resolves_append] at h ⊢
    refine ⟨⟨?_, h.1.2⟩, h.2⟩
    have htype := scope.resolves_lookup typeName
    -- A type that the scope does not know leaves the base as it is.
    cases hfound : scope.lookup typeName with
    | none => exact h.1.1
    | some ref => rwa [hfound] at htype
  · split
    · simpa using h
    · split
      · simp only [ends_bind, ends_modify, ends_pure]
        rwa [refs_withIntent]
      · simp
    · split
      · simp only [ends_bind, ends_modify, ends_pure]
        rwa [refs_withDimensions]
      · simp
    · simp only [ends_bind, ends_get]
      split
      · rename_i changed hchanged
        simp only [ends_bind, ends_set, ends_pure]
        rwa [refs_of_wordAttribute? hchanged]
      · exact h

/-- The attributes of a statement refer to types that the scope finds, however many there are. -/
theorem resolves_applyAttributes (deferred : Bool) (level : Level) :
    ∀ declarator : Declarator, scope.types.Resolves declarator.refs →
      Ends (applyAttributes scope deferred level) declarator
        (fun _ changed => scope.types.Resolves changed.refs) fun _ => True := by
  -- On the recursion of the loop; what the entries so far have left behind is the induction's
  -- invariant.
  induction deferred, level using applyAttributes_induct with
  | ends deferred level hend =>
    intro declarator h
    rw [applyAttributes, if_pos hend]
    exact h
  | colons deferred level hend hcolons =>
    intro declarator h
    rw [applyAttributes, if_neg hend, if_pos hcolons]
    exact h
  | entry deferred level hend hcolons ih =>
    intro declarator h
    rw [applyAttributes, if_neg hend, if_neg hcolons, ends_bind]
    refine (resolves_applyAttribute level h).mono ?_ fun _ h => h
    intro result changed hchanged
    cases result with
    | none => exact hchanged
    | some result =>
      obtain ⟨deferredHere, rest⟩ := result
      dsimp only
      split
      · rename_i hcomma
        exact ih deferredHere rest hcomma changed hchanged
      · exact hchanged

/-- The attributes of a statement refer to types that the scope finds. -/
theorem resolves_readAttributes (level : Level) {declarator : Declarator}
    (h : scope.types.Resolves declarator.refs) :
    Ends (readAttributes scope level) declarator
      (fun _ changed => scope.types.Resolves changed.refs) fun _ => True := by
  unfold readAttributes
  rw [ends_bind]
  refine (resolves_applyAttributes false level declarator h).mono ?_ fun _ h => h
  rintro ⟨deferred, rest⟩ changed hchanged
  cases deferred with
  | false => exact hchanged
  | true =>
    simp only [↓reduceIte, ends_bind, ends_modify, ends_pure]
    rw [Declarator.refs_eq] at hchanged ⊢
    exact hchanged

/-- The arguments of a Fortran procedure are names without a type. -/
theorem refsOf_argumentNames (list : Level) : Declarator.refsOf (argumentNames list) = [] := by
  induction list using argumentNames_induct with
  | nil =>
    rw [argumentNames]
    rfl
  | argument list hlist ih =>
    rw [argumentNames, dif_neg hlist, Declarator.refsOf_append, ih]
    split <;> rfl

/-- An entity refers to what its template refers to, or to `void` where it is a `SUBROUTINE`. -/
theorem resolves_readEntity (level : Level) {declarator : Declarator}
    (h : scope.types.Resolves declarator.refs) :
    scope.types.Resolves (readEntity scope declarator level).1.refs := by
  -- Of the four steps of an entity, only the heading can put in a reference.
  have hheading (level : Level) {declarator : Declarator}
      (h : scope.types.Resolves declarator.refs) :
      scope.types.Resolves (readHeading scope declarator level).1.refs := by
    rw [Declarator.refs_eq] at h ⊢
    simp only [TypeTable.resolves_append] at h ⊢
    unfold readHeading
    split
    · exact ⟨⟨scope.resolves_lookup "void", h.1.2⟩, h.2⟩
    · split <;> exact h
  have hname (level : Level) (declarator : Declarator) :
      (readName declarator level).1.refs = declarator.refs := by
    unfold readName
    split
    · rw [Declarator.refs_eq, Declarator.refs_eq declarator]
    · rfl
  have harguments (level : Level) (declarator : Declarator) :
      (readArguments declarator level).1.refs = declarator.refs := by
    unfold readArguments
    split
    · split
      · rw [Declarator.refs_eq, Declarator.refs_eq declarator]
        simp only [Declarator.refsOf_append, refsOf_argumentNames, List.append_nil]
      · rfl
    · rfl
  have hdimensions (level : Level) (declarator : Declarator) :
      (readDimensions declarator level).1.refs = declarator.refs := by
    unfold readDimensions
    split
    · rw [refs_withDimensions]
    · rfl
  unfold readEntity
  dsimp only
  rw [hdimensions, harguments, hname]
  exact hheading level h

/-- The declarations of a Fortran statement refer to types that the scope finds. -/
theorem resolves_readStatement {level rest : Level} {declaration : Declaration}
    (h : readStatement scope level = .ok (declaration, rest)) :
    scope.types.Resolves declaration.refs := by
  unfold readStatement at h
  split at h
  · cases h
  · rename_i middle shared hshared
    have hempty : scope.types.Resolves ({} : Declarator).refs := by simp
    have hattributes := (resolves_readAttributes level hempty).of_ok hshared
    obtain ⟨⟨declarators, rest'⟩, hread, h⟩ := bind_eq_ok_iff.mp h
    cases h
    refine Level.resolves_readSeparated ?_ hread
    intro level' declarator rest'' hentity
    have hdeclarator : (readEntity scope (withAttributesOf shared {}) level').1 = declarator :=
      congrArg Prod.fst (Except.ok.inj hentity)
    rw [← hdeclarator]
    refine resolves_readEntity level' ?_
    -- Of the attributes, an entity takes the base over, which resolves as it stands.
    rw [Declarator.refs_eq] at hattributes ⊢
    simp only [TypeTable.resolves_append] at hattributes
    simpa [withAttributesOf, Declarator.refsOf] using hattributes.1.1

end Fortran

/-! ### Sessions -/

namespace Declaration

/-- A statement keeps the invariant in either dialect. -/
theorem sustains_readIn (dialect : Dialect) (level : Level) :
    Sustains [] (readIn dialect level) fun result => result.1.refs := by
  cases dialect with
  | c => exact sustains_read.2.2.2.1 level
  | fortran =>
    refine Sustains.ofExcept ?_
    rintro scope ⟨declaration, rest⟩ _ h
    exact Fortran.resolves_readStatement h

/-- So does the next statement of a level, or its end. -/
theorem sustains_next? (dialect : Dialect) (level : Level) :
    Sustains [] (next? dialect level) fun result =>
      (result.map fun read => read.1.refs).getD [] := by
  unfold next?
  split
  · exact Sustains.pure (by simp)
  · exact (sustains_readIn dialect _).bind fun result => Sustains.pure (by simp)

/-- What is read up to the end of a level, or up to a fault, keeps the invariant. -/
theorem sound_readAll (dialect : Dialect) (scope : Scope) (level : Level)
    (hsound : scope.types.Sound) :
    scope.Grows (readAll dialect scope level).scope ∧
      (readAll dialect scope level).scope.types.Sound ∧
      (readAll dialect scope level).scope.types.Resolves
        (refsOf (readAll dialect scope level).declarations) := by
  have hstep (scope : Scope) (level : Level) (hsound : scope.types.Sound) :=
    sustains_next? dialect level scope hsound TypeTable.resolves_nil
  -- Each round starts where the last one has left the scope, which is sound by the invariant.
  induction scope, level using readAll_induct dialect with
  | fault scope level fault scope' hnext =>
    obtain ⟨hgrows, hsound'⟩ := (ends_of_error hnext).mp (hstep scope level hsound)
    rw [readAll, hnext]
    exact ⟨hgrows, hsound', TypeTable.resolves_nil⟩
  | ends scope level scope' hnext =>
    obtain ⟨hgrows, hsound', -⟩ := (ends_of_ok hnext).mp (hstep scope level hsound)
    rw [readAll, hnext]
    exact ⟨hgrows, hsound', TypeTable.resolves_nil⟩
  | statement scope level declaration rest scope' hnext hlt ih =>
    obtain ⟨hgrows, hsound', hrefs⟩ := (ends_of_ok hnext).mp (hstep scope level hsound)
    obtain ⟨hgrows', hsound'', hrefs'⟩ := ih hsound'
    rw [readAll, hnext]
    dsimp only
    rw [if_pos hlt]
    -- What was declared before resolves in the later scope, as names stay in their places.
    refine ⟨hgrows.trans hgrows', hsound'', ?_⟩
    rw [refsOf, TypeTable.resolves_append]
    exact ⟨TypeTable.Resolves.mono hgrows'.keys_grow hrefs, hrefs'⟩
  | stuck scope level declaration rest scope' hnext hlt =>
    obtain ⟨hgrows, hsound', hrefs⟩ := (ends_of_ok hnext).mp (hstep scope level hsound)
    rw [readAll, hnext]
    dsimp only
    rw [if_neg hlt]
    refine ⟨hgrows, hsound', ?_⟩
    rw [refsOf, refsOf, List.append_nil]
    exact hrefs

/-- A source that is refused by the lexer changes no scope; any other one is read to its end or up
to a fault. -/
theorem sustains_ofSource (dialect : Dialect) (source : String) :
    Sustains [] (ofSource dialect source) refsOf := by
  intro scope hsound _
  unfold Ends ofSource
  cases Node.ofSource dialect scope source with
  | error fault => exact ⟨Scope.Grows.refl scope, hsound⟩
  | ok root =>
    have hall := sound_readAll dialect scope root.items hsound
    dsimp only
    cases hread : readAll dialect scope root.items with
    | mk declarations fault? scope' =>
      rw [hread] at hall
      cases fault? with
      | none => exact hall
      | some fault => exact ⟨hall.1, hall.2.1⟩

end Declaration

/-- One thing that is read in a session. -/
inductive Parse where
  /-- The next statement of a level. -/
  | statement (dialect : Dialect) (level : Level)
  /-- A type without what is declared beside it. -/
  | type (level : Level)
  /-- All statements of a source text. -/
  | source (dialect : Dialect) (text : String)

/-- Reads what is to be read, and gives the declarations found. -/
def Parse.read : Parse → Reading (List Declaration)
  | statement dialect level => do
    match ← Declaration.next? dialect level with
    | some (declaration, _) => return [declaration]
    | none => return []
  | type level => do
    let (declared, _) ← TypeDecl.read level
    return [.type declared []]
  | source dialect text => Declaration.ofSource dialect text

/-- Whatever is read in a session keeps the invariant. -/
theorem Parse.sustains_read (parse : Parse) : Sustains [] parse.read Declaration.refsOf := by
  cases parse with
  | statement dialect level =>
    refine (Declaration.sustains_next? dialect level).bind fun result => ?_
    cases result with
    | none => exact Sustains.pure (by simp [Declaration.refsOf])
    | some result => exact Sustains.pure (by simp [Declaration.refsOf])
  | type level =>
    refine (CommonDecl.sustains_read.1 level).bind fun result => Sustains.pure ?_
    simp [Declaration.refsOf, Declaration.refs, Declarator.refsOf]
  | source dialect text => exact Declaration.sustains_ofSource dialect text

/-- A scope with the declarations that were given back so far. -/
structure Session where
  scope : Scope
  declarations : List Declaration

namespace Session

/-- A new session, in which some names can be hidden. -/
def start (settings : Settings) (hidden : List String) : Session :=
  ⟨{ Scope.ofSettings settings with hidden }, []⟩

/-- The session after one more reading. One that fails gives no declarations, but the types that
were added before it failed stay. -/
def after (session : Session) (parse : Parse) : Session :=
  match parse.read session.scope with
  | .ok declarations scope => ⟨scope, session.declarations ++ declarations⟩
  | .error _ scope => { session with scope }

/-- The session after readings in the given order. -/
def run (session : Session) (parses : List Parse) : Session :=
  parses.foldl after session

/-- What holds of a session at all times: its table is sound, and the references in what was given
back lead to entries and carry their names. -/
structure Sound (session : Session) : Prop where
  types : session.scope.types.Sound
  resolves : session.scope.types.Resolves (Declaration.refsOf session.declarations)

/-- A new session has no types and no declarations. -/
theorem sound_start (settings : Settings) (hidden : List String) : (start settings hidden).Sound :=
  ⟨TypeTable.sound_ofSettings settings, TypeTable.resolves_nil⟩

/-- One more reading keeps a session sound, also when it fails. -/
theorem sound_after {session : Session} (h : session.Sound) (parse : Parse) :
    (session.after parse).Sound ∧ session.scope.Grows (session.after parse).scope := by
  have hread := parse.sustains_read session.scope h.types TypeTable.resolves_nil
  unfold Ends at hread
  unfold after
  -- A reading that fails gives no declarations, but its scope is the one that it left.
  cases hresult : parse.read session.scope with
  | error fault scope =>
    rw [hresult] at hread
    obtain ⟨hgrows, hsound⟩ := hread
    exact ⟨⟨hsound, h.resolves.mono hgrows.keys_grow⟩, hgrows⟩
  | ok declarations scope =>
    rw [hresult] at hread
    obtain ⟨hgrows, hsound, hrefs⟩ := hread
    refine ⟨⟨hsound, ?_⟩, hgrows⟩
    rw [Declaration.refsOf_append, TypeTable.resolves_append]
    exact ⟨h.resolves.mono hgrows.keys_grow, hrefs⟩

/-- A session stays sound through any number of readings, and its scope only grows. -/
theorem sound_run {session : Session} (h : session.Sound) (parses : List Parse) :
    (session.run parses).Sound ∧ session.scope.Grows (session.run parses).scope := by
  induction parses generalizing session with
  | nil => exact ⟨h, Scope.Grows.refl _⟩
  | cons parse parses ih =>
    obtain ⟨hsound, hgrows⟩ := sound_after h parse
    obtain ⟨hsound', hgrows'⟩ := ih hsound
    exact ⟨hsound', hgrows.trans hgrows'⟩

/-- Every state of a session is sound, no later state has fewer types, and a name that is found once
is found in the same place in every later state. -/
theorem integrity (settings : Settings) (hidden : List String) (parses further : List Parse) :
    let session := (start settings hidden).run parses
    let later := session.run further
    session.Sound ∧ session.scope.types.size ≤ later.scope.types.size ∧
      ∀ name ref, session.scope.lookup name = some ref →
        ∃ ref', later.scope.lookup name = some ref' ∧ ref'.handle = ref.handle := by
  intro session later
  have hsession : session.Sound := (sound_run (sound_start settings hidden) parses).1
  have hgrows : session.scope.Grows later.scope := (sound_run hsession further).2
  refine ⟨hsession, ?_, fun name ref hlookup => hgrows.lookup hlookup⟩
  have := hgrows.keys_grow.length_le
  simpa [TypeTable.keys, TypeTable.size] using this

end Session

end CommonDecl
