import CommonDecl.Proofs.Bodies
import CommonDecl.Proofs.Rejoining
import CommonDecl.Proofs.Rounds

/-!
# What statements of Fortran are translated to

Each attribute of a statement of Fortran changes the declarator that the names share, and each
entity adds to it.  `Fortran.IsTranslated` says what such a declarator can hold; no attribute and no
part of an entity adds anything else (`Fortran.applyAttribute_translates`,
`Fortran.readEntity_translates`), so every declarator of a source has it
(`Fortran.isTranslated_of_readStatement`).
-/

namespace CommonDecl.Fortran

open Level

/-- The types of C that the types of Fortran stand for, and that of a subroutine. -/
def translatedTypes : List String :=
  ["void", "char", "short", "int", "float", "double", "long long"]

/-- The text is that of an entry in a list that a reader of the level can come to. -/
def IsExtent (root : Level) (text : String) : Prop :=
  ∃ list entry, root.Reaches list ∧ entry ∈ entries list ∧ text = Text.joinTokens entry

/-- What a declarator can hold that is made of a statement on the level `root`. -/
structure IsTranslated (scope : Scope) (root : Level) (declarator : Declarator) : Prop where
  left : ∀ text ∈ declarator.left.toList, text = "const" ∨ text = "volatile" ∨
    text ∈ scope.settings.markers.toList ∨ ∃ intent, text = "INTENT" ++ intent
  right : ∀ text ∈ declarator.right.toList, text = "*" ∨ text = "&"
  base : ∀ ref ∈ declarator.base, ∃ name ∈ translatedTypes, scope.lookup name = some ref
  dimensions : ∀ text ∈ declarator.dimensions, IsExtent root text
  arguments : ∀ argument ∈ declarator.arguments, ∃ name : String, argument = { name := some name }
  kind : declarator.kind = .functionDeclaration ∨ declarator.kind = .variable ∧
    declarator.arguments = []
  nests : declarator.nests = []
  outerDimensions : declarator.outerDimensions = []

variable {scope : Scope} {root level : Level} {declarator : Declarator}

theorem isTranslated_empty (scope : Scope) (root : Level) : IsTranslated scope root {} where
  left := List.forall_mem_nil _
  right := List.forall_mem_nil _
  base := nofun
  dimensions := List.forall_mem_nil _
  arguments := List.forall_mem_nil _
  kind := Or.inr ⟨rfl, rfl⟩
  nests := rfl
  outerDimensions := rfl

/-! ### One attribute -/

theorem IsTranslated.withIntent (h : IsTranslated scope root declarator) (intent : String) :
    IsTranslated scope root (withIntent intent declarator) := by
  have hleft : ∀ text ∈ (declarator.left.add ("INTENT" ++ intent)).toList, text = "const" ∨
      text = "volatile" ∨ text ∈ scope.settings.markers.toList ∨ ∃ intent,
          text = "INTENT" ++ intent := by
    intro text htext
    rcases List.mem_append.mp htext with hmem | hlast
    · exact h.left text hmem
    · exact Or.inr (Or.inr (Or.inr ⟨intent, List.mem_singleton.mp hlast⟩))
  refine { h with left := ?_, right := ?_ }
  · unfold Fortran.withIntent
    dsimp only
    split
    · exact List.forall_mem_cons.mpr ⟨Or.inl rfl, hleft⟩
    · exact hleft
  · exact List.forall_mem_cons.mpr ⟨Or.inr rfl, h.right⟩

theorem IsTranslated.withDimensions (h : IsTranslated scope root declarator) {list : Level}
    (hlist : root.Reaches list) : IsTranslated scope root (withDimensions list declarator) := by
  have hright : ∀ text ∈ (declarator.right.removeAll "*").toList, text = "*" ∨ text = "&" :=
    fun text htext => h.right text (List.mem_filter.mp htext).1
  unfold Fortran.withDimensions
  dsimp only
  split
  · exact h
  · split
    · refine { h with right := ?_, dimensions := List.forall_mem_nil _ }
      intro text htext
      rcases List.mem_append.mp (List.mem_of_mem_erase htext) with hstar | hmem
      · exact Or.inl (List.eq_of_mem_replicate hstar)
      · exact hright text hmem
    · refine { h with right := hright, dimensions := ?_ }
      intro text htext
      obtain ⟨entry, hentry, rfl⟩ := List.mem_map.mp htext
      exact ⟨list, entry, hlist, hentry, rfl⟩

theorem IsTranslated.of_wordAttribute? (h : IsTranslated scope root declarator) {word : String}
    {changed : Declarator}
    (hchanged : wordAttribute? scope.settings.markers word declarator = some changed) :
    IsTranslated scope root changed := by
  -- Most words add one word on the left, as VOLATILE and the markers of the settings do.
  have hmark {marker : String} (hmarker : marker = "volatile" ∨
    marker ∈ scope.settings.markers.toList) :
      IsTranslated scope root { declarator with left := declarator.left.add marker } := by
    refine { h with left := ?_ }
    intro text htext
    rcases List.mem_append.mp htext with hmem | hlast
    · exact h.left text hmem
    · rw [List.mem_singleton.mp hlast]
      exact Or.inr (hmarker.imp_right Or.inl)
  unfold wordAttribute? at hchanged
  dsimp only at hchanged
  split_ifs at hchanged <;> cases hchanged
  · refine { h with right := ?_ }
    intro text htext
    rcases List.mem_append.mp htext with hmem | hlast
    · exact h.right text hmem
    · exact Or.inl (List.mem_singleton.mp hlast)
  · exact hmark (Or.inl rfl)
  · exact { h with left := List.forall_mem_cons.mpr ⟨Or.inl rfl, h.left⟩ }
  · exact hmark (Or.inr (by simp [Markers.toList]))
  · exact hmark (Or.inr (by simp [Markers.toList]))
  · exact hmark (Or.inr (by simp [Markers.toList]))
  · exact hmark (Or.inr (by simp [Markers.toList]))

theorem mem_translatedTypes_of_primitive {keyword name : String} {width : Option Nat}
    (h : primitive keyword width = .ok name) : name ∈ translatedTypes := by
  unfold primitive at h
  dsimp only at h
  split at h
  · cases h
    decide
  · cases h
    decide
  · cases h
    split <;> decide
  · cases h
    split <;> decide
  · cases h

/-- A type of Fortran stands for one of C. -/
theorem mem_translatedTypes_of_readType {name : String} {rest : Level}
    (h : readType level = (.ok (some name), rest)) : name ∈ translatedTypes := by
  have hprimitive {keyword : String} {width : Option Nat} {level : Level}
      (h : ((primitive keyword width).map some, level) = (.ok (some name), rest)) :
      name ∈ translatedTypes := by
    have hmap := congrArg Prod.fst h
    cases hname : primitive keyword width with
    | error fault =>
      rw [hname] at hmap
      cases hmap
    | ok found =>
      rw [hname] at hmap
      cases hmap
      exact mem_translatedTypes_of_primitive hname
  unfold readType at h
  split at h
  · dsimp only at h
    split at h
    · split at h
      · exact hprimitive h
      · cases h
    · split at h
      · split at h
        · exact hprimitive h
        · cases h
      · exact hprimitive h
  · cases h

/-- An attribute adds nothing else to a declarator. -/
theorem applyAttribute_translates (hlevel : root.Reaches level)
    (h : IsTranslated scope root declarator) :
    Ends (applyAttribute scope level) declarator
      (fun _ changed => IsTranslated scope root changed) fun _ => True := by
  unfold applyAttribute
  split
  · trivial
  · rename_i typeName rest hread
    simp only [ends_bind, ends_modify, ends_pure]
    -- A type that is not found leaves the one before it.
    refine { h with base := ?_ }
    intro ref href
    cases hfound : scope.lookup typeName with
    | none =>
      rw [hfound] at href
      exact h.base ref href
    | some found =>
      rw [hfound] at href
      cases href
      exact ⟨typeName, mem_translatedTypes_of_readType hread, hfound⟩
  · split
    · exact h
    · split
      · simp only [ends_bind, ends_modify, ends_pure]
        exact h.withIntent _
      · trivial
    · split
      · rename_i list hlist
        simp only [ends_bind, ends_modify, ends_pure]
        have hnext : root.Reaches level.next := .rest hlevel (next_suffix level)
        exact h.withDimensions (hnext.trans (reaches_of_groupContents? hlist))
      · trivial
    · simp only [ends_bind, ends_get]
      split
      · rename_i changed hchanged
        simp only [ends_bind, ends_set, ends_pure]
        exact h.of_wordAttribute? hchanged
      · exact h

/-! ### All attributes -/

theorem applyAttributes_translates (deferred : Bool) (hlevel : root.Reaches level) :
    ∀ declarator, IsTranslated scope root declarator →
      Ends (applyAttributes scope deferred level) declarator
        (fun result changed => IsTranslated scope root changed ∧ root.Reaches result.2)
        fun _ => True := by
  -- By induction along the entries of the list, each at a place of the level.
  induction deferred, level using applyAttributes_induct with
  | ends deferred level hend =>
    intro declarator h
    rw [applyAttributes, if_pos hend]
    exact ⟨h, hlevel⟩
  | colons deferred level hend hcolons =>
    intro declarator h
    rw [applyAttributes, if_neg hend, if_pos hcolons]
    exact ⟨h, .rest hlevel (next_suffix level)⟩
  | entry deferred level hend hcolons ih =>
    intro declarator h
    rw [applyAttributes, if_neg hend, if_neg hcolons, ends_bind]
    have hpasses := applyAttribute_passes scope (admits_true level) declarator
    refine ((applyAttribute_translates hlevel h).and hpasses).mono ?_ fun _ h => h.1
    rintro result changed ⟨hchanged, hrest⟩
    cases result with
    | none => exact ⟨hchanged, hlevel⟩
    | some result =>
      obtain ⟨deferredHere, rest⟩ := result
      have hrest : root.Reaches rest := .rest hlevel (hrest _ _ rfl).suffix
      dsimp only
      split
      · rename_i hcomma
        exact ih deferredHere rest hcomma (.rest hrest (next_suffix rest)) changed hchanged
      · rw [ends_pure]
        refine ⟨hchanged, ?_⟩
        dsimp only
        split
        · exact .rest hrest (next_suffix rest)
        · exact hrest

theorem readAttributes_translates (hlevel : root.Reaches level)
    (h : IsTranslated scope root declarator) :
    Ends (readAttributes scope level) declarator
      (fun rest changed => IsTranslated scope root changed ∧ root.Reaches rest) fun _ => True := by
  unfold readAttributes
  rw [ends_bind]
  refine (applyAttributes_translates false hlevel declarator h).mono ?_ fun _ h => h
  rintro ⟨deferred, rest⟩ changed ⟨hchanged, hrest⟩
  cases deferred with
  | false => exact ⟨hchanged, hrest⟩
  | true =>
    simp only [↓reduceIte, ends_bind, ends_modify, ends_pure]
    refine ⟨{ hchanged with right := fun text htext => ?_ }, hrest⟩
    exact hchanged.right text (List.mem_of_mem_erase htext)

/-! ### One entity -/

/-- Each entity starts with the attributes of its statement. -/
theorem IsTranslated.withAttributesOf (h : IsTranslated scope root declarator) :
    IsTranslated scope root (withAttributesOf declarator {}) where
  left := h.left
  right := h.right
  base := h.base
  dimensions := h.dimensions
  arguments := List.forall_mem_nil _
  kind := Or.inr ⟨rfl, rfl⟩
  nests := rfl
  outerDimensions := rfl

theorem readHeading_translates (h : IsTranslated scope root declarator) (level : Level) :
    IsTranslated scope root (readHeading scope declarator level).1 := by
  unfold readHeading
  split
  · exact { h with base := fun ref href => ⟨"void", by decide, href⟩, kind := Or.inl rfl }
  · split
    · exact { h with kind := Or.inl rfl }
    · exact h

theorem readName_translates (h : IsTranslated scope root declarator) (level : Level) :
    IsTranslated scope root (readName declarator level).1 := by
  unfold readName
  split
  · exact { h with }
  · exact h

/-- An argument is a name and nothing else. -/
theorem exists_name_of_mem_argumentNames (list : Level) :
    ∀ argument ∈ argumentNames list, ∃ name : String, argument = { name := some name } := by
  induction list using argumentNames_induct with
  | nil =>
    rw [argumentNames, dif_pos rfl]
    exact List.forall_mem_nil _
  | argument list hne ih =>
    rw [argumentNames, dif_neg hne]
    refine List.forall_mem_append.mpr ⟨?_, ih⟩
    obtain ⟨item, rest, rfl⟩ := List.exists_cons_of_ne_nil hne
    split
    · exact List.forall_mem_singleton.mpr ⟨item.value, rfl⟩
    · exact List.forall_mem_nil _

theorem readArguments_translates (h : IsTranslated scope root declarator) (level : Level) :
    IsTranslated scope root (readArguments declarator level).1 := by
  unfold readArguments
  split
  · split
    · rename_i list _ hfunction
      refine { h with arguments := ?_, kind := Or.inl ?_ }
      · exact List.forall_mem_append.mpr ⟨h.arguments, exists_name_of_mem_argumentNames list⟩
      · rcases h.kind with hkind | ⟨hkind, -⟩
        · exact hkind
        · rw [hkind] at hfunction
          cases hfunction
    · exact h
  · exact h

theorem readDimensions_translates (hlevel : root.Reaches level)
    (h : IsTranslated scope root declarator) :
    IsTranslated scope root (readDimensions declarator level).1 := by
  unfold readDimensions
  split
  · rename_i list hlist
    exact h.withDimensions (hlevel.trans (reaches_of_groupContents? hlist))
  · exact h

/-- The part of an entity after its attributes adds nothing else to a declarator. -/
theorem readEntity_translates (hlevel : root.Reaches level)
    (h : IsTranslated scope root declarator) :
    IsTranslated scope root (readEntity scope declarator level).1 := by
  have hheading := readHeading_translates h level
  have hheaded := (readHeading_passes scope declarator (admits_true level)).suffix
  rw [readEntity]
  generalize readHeading scope declarator level = headed at hheading hheaded
  have hname := readName_translates hheading headed.2
  have hnamed := (readName_passes headed.1 (admits_true headed.2)).suffix
  dsimp only
  generalize readName headed.1 headed.2 = named at hname hnamed
  have harguments := readArguments_translates hname named.2
  have hlisted := (readArguments_passes named.1 (admits_true named.2)).suffix
  exact readDimensions_translates (.rest hlevel (hlisted.trans (hnamed.trans hheaded))) harguments

/-! ### Statements -/

/-- What holds of each of the declarators that are read one after the other. -/
theorem forall_readSeparated {α : Type} {P : α → Prop} {read : Level → Except Fault (α × Level)}
    (hread : ∀ level declarator rest, root.Reaches level → read level = .ok (declarator, rest) →
      P declarator ∧ root.Reaches rest) (hlevel : root.Reaches level) :
    ∀ {declarators : List α} {rest : Level}, level.readSeparated read = .ok (declarators, rest) →
      ∀ declarator ∈ declarators, P declarator := by
  induction level using readSeparated_induct with
  | ends level hend =>
    intro declarators rest h
    rw [readSeparated, if_pos hend] at h
    cases h
    exact List.forall_mem_nil _
  | declarator level hend ih =>
    intro declarators rest h
    rw [readSeparated, if_neg hend] at h
    obtain ⟨⟨declarator, middle⟩, hfirst, h⟩ := bind_eq_ok_iff.mp h
    obtain ⟨hdeclarator, hmiddle⟩ := hread level declarator middle hlevel hfirst
    dsimp only at h
    split at h
    · rename_i hlt
      obtain ⟨⟨others, rest'⟩, hothers, h⟩ := bind_eq_ok_iff.mp h
      cases h
      exact List.forall_mem_cons.mpr
        ⟨hdeclarator, ih middle hlt (.rest hmiddle (afterDeclarator_suffix middle)) hothers⟩
    · cases h
      exact List.forall_mem_singleton.mpr hdeclarator

/-- A statement declares variables and functions, each of them translated. -/
def IsTranslatedStatement (scope : Scope) (root : Level) (declaration : Declaration) : Prop :=
  ∃ declarators, declaration = .names declarators ∧
    ∀ declarator ∈ declarators, IsTranslated scope root declarator

theorem isTranslated_of_readStatement {declaration : Declaration} {rest : Level}
    (hlevel : root.Reaches level) (h : readStatement scope level = .ok (declaration, rest)) :
    IsTranslatedStatement scope root declaration := by
  have hattributes := readAttributes_translates hlevel (isTranslated_empty scope root)
  unfold readStatement at h
  split at h
  · cases h
  · rename_i middle shared hread
    obtain ⟨hshared, hmiddle⟩ := hattributes.of_ok hread
    obtain ⟨⟨declarators, last⟩, hentities, h⟩ := bind_eq_ok_iff.mp h
    cases h
    refine ⟨declarators, rfl, forall_readSeparated ?_ hmiddle hentities⟩
    intro level declarator rest hlevel h
    have hentity := readEntity_translates hlevel hshared.withAttributesOf
    have hrest := (readEntity_passes scope (withAttributesOf shared {}) (admits_true level)).suffix
    rw [Except.ok.inj h] at hentity hrest
    exact ⟨hentity, .rest hlevel hrest⟩

/-! ### Sources -/

/-- The statements of a level are translated one after the other, and declare no types. -/
theorem isTranslated_of_readAll (hlevel : root.Reaches level)
    (hfault : (Declaration.readAll .fortran scope level).fault? = none) :
    (Declaration.readAll .fortran scope level).scope = scope ∧
      ∀ declaration ∈ (Declaration.readAll .fortran scope level).declarations,
        IsTranslatedStatement scope root declaration := by
  -- By induction on the items that are left, of which every statement takes one.
  induction hlength : level.length using Nat.strong_induction_on generalizing level with
  | _ n ih =>
    subst hlength
    by_cases hempty : Declaration.afterEmptyStatements level = []
    · rw [Declaration.readAll_of_atEnd hempty]
      exact ⟨rfl, List.forall_mem_nil _⟩
    · obtain ⟨declaration, rest, after, hread, hnext, hfault'⟩ :=
        Declaration.exists_next_of_readAll hempty hfault
      obtain ⟨hstatement, hafter⟩ := Reading.ofExcept_eq_ok_iff.mp hread
      rw [hafter] at hnext hfault'
      have hstart : root.Reaches (Declaration.afterEmptyStatements level) :=
        .rest hlevel (Declaration.afterEmptyStatements_suffix level)
      have hrest : root.Reaches rest :=
        .rest hlevel ((Declaration.next?_rest .fortran level scope).of_ok hnext
          declaration rest rfl)
      have hshorter :=
        (Declaration.next?_shorter .fortran level scope).of_ok hnext declaration rest rfl
      obtain ⟨hscope, hall⟩ := ih rest.length hshorter hrest hfault' rfl
      rw [Declaration.readAll_of_next? hnext]
      exact ⟨hscope, List.forall_mem_cons.mpr ⟨isTranslated_of_readStatement hstart hstatement,
        hall⟩⟩

/-! ### Extents -/

/-- An entry of a list of trees is the texts of some of them. -/
theorem exists_sublist_of_mem_split {rolesOf : Token → Roles} {delimiter : String}
    {trees : List TokenTree} :
    ∀ {entry : List String}, entry ∈ Level.split delimiter (TokenTree.items rolesOf trees) →
      ∃ segment, segment.Sublist trees ∧ entry = TokenTree.texts segment := by
  induction trees with
  | nil =>
    intro entry hentry
    exact ⟨[], List.Sublist.refl [], List.mem_singleton.mp hentry⟩
  | cons tree rest ih =>
    intro entry hentry
    rw [TokenTree.items, Level.split] at hentry
    split at hentry
    · rcases List.mem_cons.mp hentry with rfl | hmem
      · exact ⟨[], List.nil_sublist _, rfl⟩
      · obtain ⟨segment, hsegment, rfl⟩ := ih hmem
        exact ⟨segment, hsegment.cons tree, rfl⟩
    · split at hentry
      · rename_i first others hsplit
        -- At a delimiter a new entry starts, which is empty so far.
        rcases List.mem_cons.mp hentry with rfl | hmem
        · obtain ⟨segment, hsegment, rfl⟩ := ih (hsplit ▸ List.mem_cons_self)
          exact ⟨tree :: segment, hsegment.cons_cons tree,
            by rw [TokenTree.tokenText_item, TokenTree.texts]⟩
        · obtain ⟨segment, hsegment, rfl⟩ := ih (hsplit ▸ List.mem_cons_of_mem _ hmem)
          exact ⟨segment, hsegment.cons tree, rfl⟩
      · rw [TokenTree.tokenText_item] at hentry
        exact ⟨[tree], (List.nil_sublist rest).cons_cons tree, List.mem_singleton.mp hentry⟩

/-- An extent is cut into tokens of C that join to the same text. -/
theorem exists_restorable_of_isExtent (scope : Scope) (known : String → Bool)
    {rolesOf : Token → Roles} {trees : List TokenTree}
    (htrees : TokenTree.All (fun token => IsToken token.text) trees) {text : String}
    (h : IsExtent (TokenTree.items rolesOf trees) text) :
    ∃ contents, TokenTree.Restorable scope known contents ∧
      Text.joinTokens (TokenTree.texts contents) = text := by
  obtain ⟨list, entry, hlist, hentry, rfl⟩ := h
  obtain ⟨inner, rfl, hinner⟩ := TokenTree.exists_trees_of_reaches hlist htrees
  obtain ⟨segment, hsegment, rfl⟩ := exists_sublist_of_mem_split hentry
  refine TokenTree.exists_restorable scope known ?_
  rw [TokenTree.all_iff_forall] at hinner ⊢
  exact fun tree htree => hinner tree (hsegment.subset htree)

end CommonDecl.Fortran
