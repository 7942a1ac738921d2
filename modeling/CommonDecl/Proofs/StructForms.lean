import CommonDecl.Proofs.Knowledge
import CommonDecl.Proofs.QualifierTypedefs

/-!
# Two forms of a type with a body

A type with a body is declared by itself or in a typedef (`BodyHead.plain`, `BodyHead.synonym`).
Both forms are read where the body can be read: the first one reads the body before the type is
added to the scope, the second one beside a placeholder for the type
(`BodyHead.readsPlain_of_members`, `BodyHead.readsSynonym_of_members`).  A new type has one entry in
the table from then on, and whatever refers to it by its name refers to this entry
(`Declaration.handle?_of_read`).
-/

namespace CommonDecl

open Level

variable {scope middle after : Scope} {tag : String}

/-! ### The one entry of a name -/

namespace TypeTable

variable {table newer : TypeTable} {offers : String → Prop}

/-- No two entries are found by the name. -/
def HasOnce (table : TypeTable) (name : String) : Prop :=
  ∀ first second : Nat, table.keys[first]? = some (some name) →
    table.keys[second]? = some (some name) → first = second

/-- A name that no entry has is found once at most. -/
theorem hasOnce_of_not_mem (h : some tag ∉ table.keys) : table.HasOnce tag :=
  fun _ _ hfirst _ => absurd (List.mem_of_getElem? hfirst) h

theorem HasOnce.of_keys_eq (h : table.HasOnce tag) (hkeys : newer.keys = table.keys) :
    newer.HasOnce tag := by
  rwa [HasOnce, hkeys]

/-- One more entry leaves a name once, if it has another name or the first with it. -/
theorem HasOnce.append (h : table.HasOnce tag) {key : Option String}
    (hkey : key = some tag → some tag ∉ table.keys) (hkeys : newer.keys = table.keys ++ [key]) :
    newer.HasOnce tag := by
  -- An entry with the name is the new one only if no other one has the name.
  have hplace {place : Nat} (hname : newer.keys[place]? = some (some tag)) :
      table.keys[place]? = some (some tag) ∨ (place = table.keys.length ∧ key = some tag) := by
    rw [hkeys, List.getElem?_append] at hname
    split at hname
    · exact Or.inl hname
    · rename_i hle
      obtain ⟨hlast, heq⟩ := List.getElem?_eq_some_iff.mp hname
      rw [List.length_singleton] at hlast
      rw [List.getElem_singleton] at heq
      exact Or.inr ⟨by omega, heq⟩
  intro first second hfirst hsecond
  rcases hplace hfirst with hfirst | ⟨rfl, hname⟩ <;>
    rcases hplace hsecond with hsecond | ⟨rfl, hname'⟩
  · exact h first second hfirst hsecond
  · exact absurd (List.mem_of_getElem? hfirst) (hkey hname')
  · exact absurd (List.mem_of_getElem? hsecond) (hkey hname)
  · rfl

/-- To declare a type leaves a name once: an entry that has it is found, not doubled. -/
theorem HasOnce.declare (h : table.HasOnce tag) (declared : TypeDecl) (isOpaque : Bool) :
    (table.declare declared isOpaque).2.HasOnce tag := by
  rcases declare_cases table declared isOpaque with
    ⟨hnone, hadded⟩ | ⟨handle, old, -, hold, hkey, ⟨-, -, hput⟩ | ⟨-, hsame⟩⟩
  · rw [hadded]
    have hkeys : TypeTable.keys ⟨table.entries ++ [⟨declared.name?, declared, isOpaque⟩]⟩ =
        table.keys ++ [declared.name?] := by
      rw [keys, List.map_append]
      rfl
    refine h.append (fun hname hmem => ?_) hkeys
    -- A name that an entry has is found.
    obtain ⟨ref, href⟩ := Option.isSome_iff_exists.mp ((isSome_lookup table tag).mpr hmem)
    rw [lookup, Option.bind_eq_bind, Option.bind_eq_some_iff] at href
    obtain ⟨handle, hhandle, -⟩ := href
    rw [hname, Option.bind_eq_bind, Option.bind_some, hhandle] at hnone
    cases hnone
  · rw [hput]
    exact h.of_keys_eq (keys_put ⟨declared.name?, declared, isOpaque⟩ hold hkey)
  · rwa [hsame]

/-- However a table changes, a name that is there once stays so. -/
theorem HasOnce.evolves (h : table.HasOnce tag) (hevolves : Evolves offers table newer) :
    newer.HasOnce tag := by
  have hkept (table newer : TypeTable) (hchange : Change offers table newer)
    (hkept : table.HasOnce tag) :
      newer.HasOnce tag := by
    cases hchange with
    | declare declared isOpaque _ => exact hkept.declare declared isOpaque
    | define _ hdefine => exact hkept.of_keys_eq (keys_define hdefine)
  exact hevolves.induct hkept h

/-- The only entry with a name is the one that is found. -/
theorem HasOnce.handle?_eq (h : table.HasOnce tag) {handle : Nat}
    (hkey : table.keys[handle]? = some (some tag)) :
    table.handle? tag = some handle := by
  obtain ⟨ref, href⟩ :=
    Option.isSome_iff_exists.mp ((isSome_lookup table tag).mpr (List.mem_of_getElem? hkey))
  rw [lookup, Option.bind_eq_bind, Option.bind_eq_some_iff] at href
  obtain ⟨place, hplace, -⟩ := href
  rw [hplace, h place handle (getElem?_of_handle? hplace) hkey]

end TypeTable

/-- A name that was new has one entry once a statement is read, and all that is read and named so
refers to it. -/
theorem Declaration.handle?_of_read (hsound : scope.types.Sound)
    (hnew : some tag ∉ scope.types.keys) (htag : tag ≠ "") {level rest : Level}
    {declaration : Declaration}
    (hread : Declaration.read level scope = .ok (declaration, rest) after) :
    ∀ ref ∈ declaration.refs, ref.name = tag → after.types.handle? tag = some ref.handle := by
  obtain ⟨-, -, hresolves⟩ :=
    (sustains_read.2.2.2.1 level scope hsound TypeTable.resolves_nil).of_ok hread
  have honce :=
    (TypeTable.hasOnce_of_not_mem hnew).evolves ((evolves_read.2.2.2.1 level scope).of_ok hread).1
  intro ref href hname
  obtain ⟨key, hkey, hkeyName⟩ := TypeTable.resolves_iff.mp hresolves ref href
  refine honce.handle?_eq ?_
  rw [hkey]
  cases key with
  | none => exact absurd (hname.symm.trans hkeyName) htag
  | some text => rw [← hname, hkeyName, Option.getD_some]

/-! ### Placeholders -/

namespace Scope

/-- A placeholder is added at the end of a table. -/
theorem keys_withPlaceholder (scope : Scope) (name : Option String) :
    (scope.withPlaceholder name).types.keys = scope.types.keys ++ [name] :=
  scope.keys_withEntry _

/-- A placeholder is found by its name. -/
theorem handle?_withPlaceholder (hnew : some tag ∉ scope.types.keys) :
    (scope.withPlaceholder (some tag)).types.handle? tag = some scope.types.size := by
  have hkeys := scope.keys_withPlaceholder (some tag)
  refine ((TypeTable.hasOnce_of_not_mem hnew).append (fun _ => hnew) hkeys).handle?_eq ?_
  rw [hkeys, TypeTable.size_eq_length_keys]
  exact List.getElem?_concat_length

end Scope

/-! ### The members that are recorded -/

/-- The members of the type that is found by a name. -/
def TypeTable.membersOf? (table : TypeTable) (name : String) : Option (List Member) :=
  (table.handle? name >>= table.get?) >>= TypeDecl.members?

namespace TypeTable

variable {table newer : TypeTable}

/-- The members that are recorded are those of the entry that is found. -/
theorem membersOf?_of_entry {handle : Nat} {entry : TypeEntry}
    (hhandle : table.handle? tag = some handle) (hentry : table.entries[handle]? = some entry) :
    table.membersOf? tag = entry.declared.members? := by
  have hget : table.get? handle = some entry.declared := by
    rw [get?, hentry]
    rfl
  rw [membersOf?, hhandle]
  exact congrArg (· >>= TypeDecl.members?) hget

/-- Tables with the same names find the same entries. -/
theorem handle?_of_keys_eq (hkeys : newer.keys = table.keys) (name : String) :
    newer.handle? name = table.handle? name := by
  rw [handle?_eq, handle?_eq, hkeys]

/-- Without an entry nothing is recorded. -/
theorem membersOf?_of_not_mem (h : some tag ∉ table.keys) : table.membersOf? tag = none := by
  have hnone : table.handle? tag = none := by
    cases hhandle : table.handle? tag with
    | none => rfl
    | some handle => exact absurd (List.mem_of_getElem? (getElem?_of_handle? hhandle)) h
  rw [membersOf?, hnone]
  rfl

/-- A type whose name has no members by then is recorded with its members. -/
theorem membersOf?_declare (hnone : table.membersOf? tag = none) (qualifiers : Qualifiers)
    (members : List Member) (isOpaque : Bool) :
    (table.declare (.tagged qualifiers (some tag) (some members)) isOpaque).2.membersOf? tag =
      some members := by
  -- The type is a new entry, or says more than the one that had no members.
  rcases declare_cases table (.tagged qualifiers (some tag) (some members)) isOpaque with
    ⟨hnew, hadded⟩ | ⟨handle, old, hfound, hold, hkey, ⟨-, -, hput⟩ | ⟨hless, -⟩⟩
  · rw [hadded]
    have hnew : table.handle? tag = none := hnew
    have hhandle :
        TypeTable.handle? ⟨table.entries ++
        [⟨some tag, .tagged qualifiers (some tag) (some members), isOpaque⟩]⟩ tag =
            some table.size := by
      unfold handle? at hnew ⊢
      rw [List.findIdx?_append, hnew]
      simp [List.findIdx?_cons, size]
    exact membersOf?_of_entry hhandle List.getElem?_concat_length
  · rw [hput]
    have hfound : table.handle? tag = some handle := hfound
    have hkeys :=
      keys_put ⟨some tag, .tagged qualifiers (some tag) (some members), isOpaque⟩ hold hkey
    exact membersOf?_of_entry ((handle?_of_keys_eq hkeys tag).trans hfound)
      (List.getElem?_set_self (List.getElem?_eq_some_iff.mp hold).1)
  · -- An entry without members says less than a type with members.
    have hfound : table.handle? tag = some handle := hfound
    rw [membersOf?_of_entry hfound hold] at hnone
    rcases hless with haliases | hmore
    · cases haliases
    · rw [TypeDecl.saysMoreThan, hnone] at hmore
      cases hmore

/-- Filling in an entry records the members. -/
theorem membersOf?_define {handle : Nat} (hhandle : table.handle? tag = some handle) {ref : TypeRef}
    {declared : TypeDecl} (hdefine : table.define handle declared = .ok (ref, newer)) :
    newer.membersOf? tag = declared.members? := by
  obtain ⟨old, hold, -, rfl⟩ := exists_old_of_define hdefine
  have hkeys := keys_put ⟨old.key, declared, false⟩ hold rfl
  exact membersOf?_of_entry ((handle?_of_keys_eq hkeys tag).trans hhandle)
    (List.getElem?_set_self (List.getElem?_eq_some_iff.mp hold).1)

/-- A synonym of a type leaves the members of the type as they are. -/
theorem membersOf?_declare_synonym {handle : Nat} (hhandle : table.handle? tag = some handle)
    {qualifiers : Qualifiers} {name : String} {typedef : Typedef}
    (haliased : typedef.aliased.handle = handle) (isOpaque : Bool) :
    (table.declare (.synonym qualifiers name typedef) isOpaque).2.membersOf? tag =
      table.membersOf? tag := by
  obtain ⟨entry, hentry, -⟩ : ∃ entry, table.entries[handle]? = some entry ∧
      entry.key = some tag := by
    have hkey := getElem?_of_handle? hhandle
    rwa [getElem?_keys, Option.map_eq_some_iff] at hkey
  have hhandle' :=
    handle?_mono (keys_declare table (.synonym qualifiers name typedef) isOpaque) hhandle
  rw [membersOf?_of_entry hhandle hentry]
  refine membersOf?_of_entry hhandle' ?_
  -- The new name gets an entry behind the type, or one in another place.
  rcases declare_cases table (.synonym qualifiers name typedef) isOpaque with
    ⟨-, hadded⟩ | ⟨place, old, -, -, -, ⟨hother, -, hput⟩ | ⟨-, hsame⟩⟩
  · rw [hadded]
    exact (List.getElem?_append_left (List.getElem?_eq_some_iff.mp hentry).1).trans hentry
  · -- The synonym does not take the place of the type that it aliases.
    have hne : place ≠ handle := by
      rintro rfl
      simp [TypeDecl.aliases, TypeDecl.typedef?, haliased] at hother
    rw [hput, put]
    exact (List.getElem?_set_ne hne).trans hentry
  · rw [hsame]
    exact hentry

end TypeTable

/-! ### Types with bodies -/

/-- A word in the role of a name is read as the name of a declarator. -/
theorem Declarator.exists_read_word (scope : Scope) (shared : Declarator)
    (word : String) {stop : Level} (hstop : stop.NoBracket) :
    ∃ declarator, Declarator.read scope (some shared) {} (.token word .unresolved :: stop) =
      .ok (declarator, stop) ∧ declarator.name = some word := by
  have hpart : afterTypePart scope (some shared) (.token word .unresolved :: stop) =
      .token word .unresolved :: stop :=
    Level.afterQualifiers_of_noQualifier (by rintro item ⟨⟩; rfl)
  have hnests : nestsAt (.token word .unresolved :: stop) = 0 := nestsAt_of_none rfl
  have hafter : afterName (.token word .unresolved :: stop) = stop := rfl
  have hkind : kindAt 0 (.token word .unresolved :: stop) = .variable := by
    have hlist := Level.isGroup_of_noGroup (hstop.noGroup .parenthesis)
    rw [kindAt, if_neg (Nat.lt_irrefl 0), hafter, hlist]
    rfl
  have hdimensions : Level.afterDimensions ([] ++ stop) = stop := Level.afterDimensions_append hstop
  -- A name without anything around it: no qualifiers, no nests, no dimensions and no arguments.
  have hread : Declarator.read scope (some shared) {} (.token word .unresolved :: stop) =
      .ok (assemble scope (some shared) {} (.token word .unresolved :: stop) []
        (.token word .unresolved :: stop) [], stop) := by
    refine read_eq_ok_iff.mpr ⟨[], .token word .unresolved :: stop, [], ?_, rfl, ?_⟩
    · rw [hpart, hnests, readNests]
      rfl
    · rw [hpart, hnests, hkind, afterNests, if_pos rfl, hafter, ← List.nil_append stop, hdimensions]
      exact ⟨rfl, rfl⟩
  exact ⟨_, hread, rfl⟩

/-- Where the statement ends behind a type with a name, the type is added to the scope and nothing
is read. -/
theorem Declaration.readBeside_nothing {declared : TypeDecl}
    (hname : declared.name?.isSome = true) (rest : Level) (scope : Scope) :
    readBeside declared (ofSemicolon rest) scope = .ok (.type declared [], ofSemicolon rest)
      { scope with types := (scope.types.declare declared false).2 } := by
  have hregister : Reading.register declared scope = .ok (scope.types.declare declared false).1
      { scope with types := (scope.types.declare declared false).2 } := rfl
  have hnamed : ¬ (declared.name?.isNone && (ofSemicolon rest).atStatementEnd) = true := by
    rw [← Option.not_isSome, hname]
    exact Bool.false_ne_true
  rw [readBeside, if_neg hnamed, bind_of_ok hregister]
  generalize (scope.types.declare declared false).1 = ref
  generalize (scope.types.declare declared false).2 = types
  -- At the `;` there are neither further names nor instances.
  cases declared with
  | tagged qualifiers name members =>
    have hinstances :
        Level.readSeparated (Declarator.read { scope with types } (some (Declarator.ofBase ref)) {})
        (ofSemicolon rest) = .ok ([], ofSemicolon rest) := by
      rw [Level.readSeparated, if_pos (by rfl)]
      rfl
    exact bind_of_ok (readInstances_of_readSeparated hinstances)
  | synonym qualifiers name typedef =>
    have hsiblings :
        TypeDecl.readSiblings qualifiers typedef.aliased (ofSemicolon rest) { scope with types } =
        .ok ([], ofSemicolon rest) { scope with types } := by
      rw [TypeDecl.readSiblings, if_neg (by rintro ⟨⟩)]
      rfl
    exact bind_of_ok hsiblings

/-- What a type with a body starts with: qualifiers, and its name if it has one. -/
structure BodyHead where
  qualifiers : Level
  word? : Option Item
  qualifiers_ne_nil : qualifiers ≠ []
  qualifiers_isLeft : ∀ item ∈ qualifiers, isLeftQualifier item = true
  qualifiers_isWord : ∀ item ∈ qualifiers, item.bracket? = none
  not_enum : ∀ item ∈ qualifiers, item.value ≠ "enum"
  word_isName : ∀ item ∈ word?, item.bracket? = none ∧ item.roles.isQualifier = false ∧
    (item.roles.isIdentifier || item.roles.isTypeKeyword) = true

namespace BodyHead

variable (head : BodyHead) {contents rest : Level}

/-- The qualifiers of the type. -/
def values : Qualifiers :=
  ⟨head.qualifiers.map Item.value⟩

/-- The name of the type. -/
def name? : Option String :=
  head.word?.map Item.value

/-- The type with its body, and what stands behind it. -/
def withBody (contents rest : Level) : Level :=
  head.qualifiers ++ (head.word?.toList ++ .group "\x7b" {} contents :: rest)

/-- The type starts with its qualifiers, and its name and its body follow. -/
theorem leftQualifiers_withBody :
    (head.withBody contents rest).leftQualifiers = head.values ∧
      (head.withBody contents rest).afterLeftQualifiers =
        head.word?.toList ++ .group "\x7b" {} contents :: rest := by
  -- The qualifiers end at a word that is none, or at the body.
  have hstop : ∀ item ∈ (head.word?.toList ++ .group "\x7b" {} contents :: rest : Level).head?,
      isLeftQualifier item = false := by
    cases hword : head.word? with
    | none =>
      rintro item ⟨⟩
      rfl
    | some word =>
      rintro item ⟨⟩
      rw [isLeftQualifier, (head.word_isName word hword).2.1]
      rfl
  rw [withBody, leftQualifiers, afterLeftQualifiers,
    takeWhile_append_eq head.qualifiers_isLeft hstop,
    dropWhile_append_eq head.qualifiers_isLeft hstop]
  exact ⟨rfl, rfl⟩

/-- The name of the type stands in front of the body. -/
theorem typeName?_withBody :
    TypeDecl.typeName? (head.withBody contents rest).afterLeftQualifiers = head.name? ∧
      TypeDecl.afterTypeName (head.withBody contents rest).afterLeftQualifiers =
        .group "\x7b" {} contents :: rest := by
  rw [head.leftQualifiers_withBody.2, name?, TypeDecl.typeName?, TypeDecl.afterTypeName]
  cases hword : head.word? with
  | none => exact ⟨rfl, rfl⟩
  | some word =>
    have hname : TypeDecl.atTypeName (word :: .group "\x7b" {} contents :: rest) = true :=
      (head.word_isName word hword).2.2
    rw [Option.toList_some, List.singleton_append, if_pos hname, if_pos hname]
    exact ⟨rfl, rfl⟩

/-- Whatever is known, a type with a body is declared. -/
theorem isDeclaredAt_withBody (scope : Scope) :
    TypeDecl.isDeclaredAt scope (head.withBody contents rest) = true := by
  unfold TypeDecl.isDeclaredAt
  rw [head.leftQualifiers_withBody.2]
  -- The body follows the qualifiers, or the word behind them.
  cases hword : head.word? with
  | none =>
    have hbrace : Level.isGroup (.group "\x7b" {} contents :: rest) .brace = true := rfl
    rw [Option.toList_none, List.nil_append]
    simp [hbrace]
  | some word =>
    have hwordAt : (Level.word? (word :: .group "\x7b" {} contents :: rest)).isSome = true := by
      rw [Level.word?, Level.bracket?, List.head?_cons, Option.bind_some,
        (head.word_isName word hword).1]
      rfl
    have hbrace : Level.isGroup (Level.next (word :: .group "\x7b" {} contents :: rest)) .brace =
      true := rfl
    rw [Option.toList_some, List.singleton_append]
    simp [hwordAt, hbrace]

/-- The body of the type is read as members, as it is no enum. -/
theorem readBody?_withBody :
    TypeDecl.readBody? (head.withBody contents rest) =
      do return some (← TypeDecl.readMembers contents) := by
  have hcontents :
      (TypeDecl.afterTypeName (head.withBody contents rest).afterLeftQualifiers).groupContents?
      .brace =
      some contents := by
    rw [head.typeName?_withBody.2]
    rfl
  have henum : ¬ (head.withBody contents rest).leftQualifiers.has "enum" = true := by
    rw [head.leftQualifiers_withBody.1, values, Qualifiers.has, List.contains_iff_mem, List.mem_map]
    rintro ⟨item, hitem, hvalue⟩
    exact head.not_enum item hitem hvalue
  rw [TypeDecl.readBody?_of_contents hcontents, if_neg henum]

/-! ### The plain form -/

/-- The type is declared by itself. -/
def plain (contents rest : Level) : Level :=
  head.withBody contents (ofSemicolon rest)

/-- The plain form declares the type with the members, which are recorded unless the body gave
members to the type before.  What refers to the type refers to its entry. -/
def ReadsPlain (tag : String) (contents rest : Level) (scope : Scope)
    (members : List Member) : Prop :=
  ∃ middle after, TypeDecl.readMembers contents scope = .ok members middle ∧
    Declaration.read (head.plain contents rest) scope =
      .ok (.type (.tagged head.values (some tag) (some members)) [], rest) after ∧
    (contents.Lacks (some tag) ∨ middle.types.membersOf? tag = none →
      after.types.membersOf? tag = some members) ∧
    ∀ ref ∈ Member.refsOf members, ref.name = tag → after.types.handle? tag = some ref.handle

section

variable (htypedef : ∀ item ∈ head.qualifiers, item.value ≠ "typedef")
include htypedef

/-- The plain form is no typedef. -/
theorem leftQualifiers_plain : (head.plain contents rest).leftQualifiers.has "typedef" = false := by
  rw [plain, head.leftQualifiers_withBody.1, values]
  refine TypeDecl.has_typedef_of_not_mem fun hmem => ?_
  obtain ⟨item, hitem, hvalue⟩ := List.mem_map.mp hmem
  exact htypedef item hitem hvalue

/-- Where the body has a fault, so has the plain form. -/
theorem read_plain_of_error {fault : Fault}
    (hmembers : TypeDecl.readMembers contents scope = .error fault middle) :
    Declaration.read (head.plain contents rest) scope = .error fault middle := by
  have hget : (get : Reading Scope) scope = .ok scope scope := rfl
  have hbody : TypeDecl.readBody? (head.plain contents rest) scope = .error fault middle := by
    rw [plain, head.readBody?_withBody, bind_of_error hmembers]
  have hdeclared : TypeDecl.isDeclaredAt scope (head.plain contents rest) = true :=
    head.isDeclaredAt_withBody scope
  have hread : TypeDecl.read (head.plain contents rest) scope = .error fault middle := by
    rw [TypeDecl.read,
      if_neg (by rw [head.leftQualifiers_plain htypedef]; exact Bool.false_ne_true)]
    exact bind_of_error hbody
  rw [Declaration.read, bind_of_ok hget, if_pos hdeclared, bind_of_error hread]

/-- Where its body is read, the plain form is. -/
theorem readsPlain_of_members (hname : head.name? = some tag) (hsound : scope.types.Sound)
    (htag : tag ≠ "") (hnew : some tag ∉ scope.types.keys) (rest : Level) {members : List Member}
    (hmembers : TypeDecl.readMembers contents scope = .ok members middle) :
    head.ReadsPlain tag contents rest scope members := by
  have hbody : TypeDecl.readBody? (head.plain contents rest) scope = .ok (some members) middle := by
    rw [plain, head.readBody?_withBody, bind_of_ok hmembers]
    rfl
  have hdeclared : TypeDecl.isDeclaredAt scope (head.plain contents rest) = true :=
    head.isDeclaredAt_withBody scope
  have hread : TypeDecl.read (head.plain contents rest) scope =
      .ok (.tagged head.values (some tag) (some members), ofSemicolon rest) middle := by
    rw [TypeDecl.read_of_body (head.leftQualifiers_plain htypedef) hbody, plain,
      head.leftQualifiers_withBody.1, head.typeName?_withBody.1, head.typeName?_withBody.2, hname]
    rfl
  have hbeside := Declaration.readBeside_nothing (by rfl : (TypeDecl.tagged head.values (some tag)
    (some members)).name?.isSome = true) rest middle
  have hform := Declaration.read_of_type hdeclared hread hbeside
  rw [afterSemicolon_semicolon] at hform
  -- The three parts: the declaration, the members that are recorded, and the references to the
  -- type.
  refine ⟨middle, _, hmembers, hform, fun hnone => ?_, fun ref href => ?_⟩
  · refine TypeTable.membersOf?_declare (hnone.elim (fun hlacks => ?_) id) head.values members false
    -- A body that does not offer the tag leaves it without an entry, or the entry has no members.
    have hevolves := ((evolves_read.2.2.1 contents scope).of_ok hmembers).1
    exact TypeTable.membersOf?_of_not_mem fun hmem =>
      (hevolves.of_mem_keys hmem).elim hnew fun hoffers => hlacks.ne_of_offers hoffers rfl
  · refine Declaration.handle?_of_read hsound hnew htag hform ref ?_
    rw [Declaration.refs, TypeDecl.refs]
    exact List.mem_append_left _ href

end

/-! ### The form of a typedef -/

/-- A new tag gets a placeholder at the end of the table. -/
theorem findOrDeclare_tag (hnew : some tag ∉ scope.types.keys) :
    TypeDecl.findOrDeclare (some tag) scope =
      .ok ⟨scope.types.size, tag, true⟩ (scope.withPlaceholder (some tag)) :=
  TypeDecl.findOrDeclare_new fun text htext => by rwa [← htext]

/-- The head with a `typedef` in front of it. -/
def withTypedef : BodyHead where
  qualifiers := .token "typedef" { isQualifier := true } :: head.qualifiers
  word? := head.word?
  qualifiers_ne_nil := List.cons_ne_nil _ _
  qualifiers_isLeft := List.forall_mem_cons.mpr ⟨by decide, head.qualifiers_isLeft⟩
  qualifiers_isWord := List.forall_mem_cons.mpr ⟨rfl, head.qualifiers_isWord⟩
  not_enum := List.forall_mem_cons.mpr ⟨by decide, head.not_enum⟩
  word_isName := head.word_isName

/-- The type is declared in a typedef, under a new name. -/
def synonym (newName : String) (contents rest : Level) : Level :=
  head.withTypedef.withBody contents (.token newName .unresolved :: ofSemicolon rest)

/-- The form of a typedef declares a synonym of the type with the members, which are recorded.  What
refers to the type refers to its entry. -/
def ReadsSynonym (tag newName : String) (contents rest : Level) (scope : Scope)
    (members : List Member) : Prop :=
  ∃ aliased declarator after, Declaration.read (head.synonym newName contents rest) scope =
      .ok (.type (.synonym head.values newName ⟨aliased,
        some (.tagged {} (some tag) (some members)), declarator⟩) [], rest) after ∧
    after.types.membersOf? tag = some members ∧
    ∀ ref ∈ Member.refsOf members, ref.name = tag → after.types.handle? tag = some ref.handle

section

variable (hname : head.name? = some tag) (newName : String)
include hname

/-- The name of the type is the same in both forms. -/
theorem typeName?_synonym :
    TypeDecl.typeName? (head.synonym newName contents rest).afterLeftQualifiers = some tag := by
  rw [synonym, head.withTypedef.typeName?_withBody.1]
  exact hname

variable (hnew : some tag ∉ scope.types.keys)
include hnew

/-- Where the body has a fault beside the placeholder, so has the form of a typedef. -/
theorem read_synonym_of_error {fault : Fault}
    (hmembers : TypeDecl.readMembers contents (scope.withPlaceholder (some tag)) =
      .error fault middle) :
    Declaration.read (head.synonym newName contents rest) scope = .error fault middle := by
  have hget : (get : Reading Scope) scope = .ok scope scope := rfl
  have hbody :
      TypeDecl.readBody? (head.synonym newName contents rest) (scope.withPlaceholder (some tag)) =
      .error fault middle := by
    rw [synonym, head.withTypedef.readBody?_withBody, bind_of_error hmembers]
  have hdeclared : TypeDecl.isDeclaredAt scope (head.synonym newName contents rest) = true :=
    head.withTypedef.isDeclaredAt_withBody scope
  have htypedef : (head.synonym newName contents rest).leftQualifiers.has "typedef" = true := by
    rw [synonym, head.withTypedef.leftQualifiers_withBody.1]
    rfl
  have hread : TypeDecl.read (head.synonym newName contents rest) scope = .error fault middle := by
    rw [TypeDecl.read_of_typedef htypedef, TypeDecl.readTypedef, head.typeName?_synonym hname,
      bind_of_ok (findOrDeclare_tag hnew)]
    exact bind_of_error hbody
  rw [Declaration.read, bind_of_ok hget, if_pos hdeclared, bind_of_error hread]

/-- Where its body is read beside a placeholder for the type, the form of a typedef is read. -/
theorem readsSynonym_of_members (hsound : scope.types.Sound) (htag : tag ≠ "") (rest : Level)
    {members : List Member}
    (hmembers : TypeDecl.readMembers contents (scope.withPlaceholder (some tag)) =
    .ok members middle) :
    head.ReadsSynonym tag newName contents rest scope members := by
  have hbody :
      TypeDecl.readBody? (head.synonym newName contents rest) (scope.withPlaceholder (some tag)) =
      .ok (some members) middle := by
    rw [synonym, head.withTypedef.readBody?_withBody, bind_of_ok hmembers]
    rfl
  have hdeclared : TypeDecl.isDeclaredAt scope (head.synonym newName contents rest) = true :=
    head.withTypedef.isDeclaredAt_withBody scope
  have hleft : (head.synonym newName contents rest).leftQualifiers =
      ⟨"typedef" :: head.qualifiers.map Item.value⟩ := by
    rw [synonym, head.withTypedef.leftQualifiers_withBody.1]
    rfl
  -- The placeholder is still the entry of the tag when the body is read.
  have hkeys := ((evolves_read.2.2.1 contents _).of_ok hmembers).1.keys
  have hplace := TypeTable.handle?_mono hkeys (Scope.handle?_withPlaceholder hnew)
  -- The placeholder is filled in with the body, and the new name is read behind it.
  obtain ⟨aliased, types, hdefine⟩ :=
    TypeTable.exists_define (TypeTable.getElem?_of_handle? hplace)
      (.tagged {} (some tag) (some members))
  have hstep : Reading.define scope.types.size (.tagged {} (some tag) (some members)) middle =
      .ok aliased { middle with types } := by
    rw [Reading.define, hdefine]
  have hstop : (ofSemicolon rest).NoBracket := by
    rintro item ⟨⟩
    rfl
  obtain ⟨declarator, hword, hwordName⟩ :=
    Declarator.exists_read_word { middle with types } (Declarator.ofBase aliased) newName hstop
  have hread : TypeDecl.read (head.synonym newName contents rest) scope = _ :=
    TypeDecl.readTypedef_of_body hleft (head.typeName?_synonym hname newName)
      (findOrDeclare_tag hnew) hbody hstep
      (by rw [synonym, head.withTypedef.typeName?_withBody.2]; exact hword) hwordName
  have hbeside := Declaration.readBeside_nothing (by rfl : (TypeDecl.synonym head.values newName
    ⟨aliased, some (.tagged {} (some tag) (some members)), declarator⟩).name?.isSome = true) rest
    { middle with types }
  have hform := Declaration.read_of_type hdeclared hread hbeside
  rw [afterSemicolon_semicolon] at hform
  refine ⟨aliased, declarator, _, hform, ?_, fun ref href => ?_⟩
  -- The synonym is declared last, which leaves the members of the type alone.
  · have hhandle : types.handle? tag = some scope.types.size :=
      (TypeTable.handle?_of_keys_eq (TypeTable.keys_define hdefine) tag).trans hplace
    obtain ⟨-, -, haliased, -⟩ := TypeTable.exists_old_of_define hdefine
    exact (TypeTable.membersOf?_declare_synonym hhandle haliased false).trans
      (TypeTable.membersOf?_define hplace hdefine)
  · refine Declaration.handle?_of_read hsound hnew htag hform ref ?_
    rw [Declaration.refs, TypeDecl.refs, TypeDecl.refs]
    exact List.mem_append_left _ (List.mem_cons_of_mem _ (List.mem_append_left _ href))

end

end BodyHead

end CommonDecl
