import CommonDecl.Declaration.Render
import CommonDecl.Proofs.DeclaratorTexts
import Mathlib.Data.List.DropRight

/-!
# Indentation

A type that stands further right is written as the same text, with spaces after every line break
(`Text.indented`).  Only the bodies of types have lines, and each of these starts with the
indentation of its own depth, so the text of a body is moved right as a whole (`renderMembers_add`)
and so is what stands around it.
-/

namespace CommonDecl

namespace Text

/-- The text moved right by levels of two spaces, all but its first line. -/
def indented (levels : Nat) (text : String) : String :=
  String.ofList (text.toList.flatMap fun c =>
    if c = '\n' then c :: List.replicate (2 * levels) ' ' else [c])

/-- The text is on one line. -/
def OneLine (text : String) : Prop :=
  '\n' ∉ text.toList

instance (text : String) : Decidable (OneLine text) :=
  inferInstanceAs (Decidable ('\n' ∉ text.toList))

/-- The text up to its first line break. -/
def firstLine (text : String) : List Char :=
  text.toList.takeWhile (· != '\n')

/-! ### Moving a text to the right -/

theorem toList_indented (levels : Nat) (text : String) : (indented levels text).toList =
    text.toList.flatMap fun c => if c = '\n' then c :: List.replicate (2 * levels) ' ' else [c] :=
  String.toList_ofList

@[simp]
theorem indented_append (levels : Nat) (first second : String) :
    indented levels (first ++ second) = indented levels first ++ indented levels second := by
  rw [← String.toList_inj, String.toList_append]
  simp only [toList_indented, String.toList_append, List.flatMap_append]

theorem indented_of_oneLine {text : String} (h : OneLine text) (levels : Nat) :
    indented levels text = text := by
  have hsame : (text.toList.flatMap fun c =>
    if c = '\n' then c :: List.replicate (2 * levels) ' ' else [c]) =
      text.toList.flatMap fun c => [c] := by
    refine List.flatMap_congr fun c hc => if_neg ?_
    rintro rfl
    exact h hc
  rw [indented, hsame, List.flatMap_singleton', String.ofList_toList]

theorem toList_indentation (depth : Nat) :
    (indentation depth).toList = List.replicate (2 * depth) ' ' := by
  unfold indentation
  induction depth with
  | zero => rfl
  | succ depth ih =>
    rw [List.replicate_succ, String.join_cons, String.toList_append, ih, Nat.mul_succ, Nat.add_comm,
      List.replicate_add]
    rfl

theorem indentation_add (depth levels : Nat) :
    indentation (depth + levels) = indentation levels ++ indentation depth := by
  rw [← String.toList_inj, String.toList_append]
  simp only [toList_indentation]
  rw [List.replicate_append_replicate]
  congr 1
  omega

theorem oneLine_indentation (depth : Nat) : OneLine (indentation depth) := by
  rw [OneLine, toList_indentation, List.mem_replicate]
  simp

theorem indented_newline (levels : Nat) : indented levels "\n" = "\n" ++ indentation levels := by
  rw [← String.toList_inj, toList_indented, String.toList_append, toList_indentation]
  simp

/-- Cutting the end of a text commutes with writing something for each character, where what is cut
stands for what is cut and everything else for itself. -/
theorem rdropWhile_flatMap {p : Char → Bool} {written : Char → List Char}
    (hcut : ∀ c, p c = true → ∀ d ∈ written c, p d = true)
    (hkept : ∀ c, p c = false → written c = [c]) (chars : List Char) :
    (chars.flatMap written).rdropWhile p = (chars.rdropWhile p).flatMap written := by
  induction chars using List.reverseRecOn with
  | nil => rfl
  | append_singleton front c ih =>
    rw [List.flatMap_append, List.flatMap_singleton]
    cases hc : p c with
    | true =>
      rw [List.rdropWhile_concat_pos _ _ _ hc, ← ih, List.rdropWhile, List.rdropWhile,
        List.reverse_append, List.dropWhile_append_of_pos fun d hd =>
          hcut c hc d (List.mem_reverse.mp hd)]
    | false =>
      have hnot : ¬ p c = true := Bool.not_eq_true _ ▸ hc
      rw [hkept c hc, List.rdropWhile_concat_neg _ _ _ hnot, List.rdropWhile_concat_neg _ _ _ hnot,
        List.flatMap_append, List.flatMap_singleton, hkept c hc]

/-- Cutting the blanks at the end of a text commutes with moving it right, as only blanks are put
in. -/
theorem trimEnd_indented (levels : Nat) (text : String) :
    trimEnd (indented levels text) = indented levels (trimEnd text) := by
  have htrim (text : String) : (trimEnd text).toList = text.toList.rdropWhile isBlank :=
    String.toList_ofList
  rw [← String.toList_inj, toList_indented, htrim, htrim, toList_indented]
  refine rdropWhile_flatMap (fun c hblank d hd => ?_) (fun c hblank => ?_) text.toList
  · split at hd
    · rcases List.mem_cons.mp hd with rfl | hd
      · exact hblank
      · rw [List.eq_of_mem_replicate hd]
        decide
    · rwa [List.mem_singleton.mp hd]
  · refine if_neg ?_
    rintro rfl
    exact absurd hblank (by decide)

theorem firstLine_indented (levels : Nat) (text : String) :
    firstLine (indented levels text) = firstLine text := by
  rw [firstLine, firstLine, toList_indented]
  induction text.toList with
  | nil => rfl
  | cons c rest ih =>
    by_cases hc : c = '\n'
    · subst hc
      rfl
    · rw [List.flatMap_cons, if_neg hc, List.singleton_append,
        List.takeWhile_cons_of_pos (by simpa using hc),
        List.takeWhile_cons_of_pos (by simpa using hc), ih]

/-- What is written of a declarator of texts on one line is on one line. -/
theorem closed_oneLine : Closed OneLine where
  empty := by decide
  space := by decide
  comma := by decide
  star := by decide
  append hfirst hsecond := by
    rw [OneLine, String.toList_append, List.mem_append]
    exact not_or.mpr ⟨hfirst, hsecond⟩
  group bracket {text} h := by
    have hbrackets : OneLine bracket.opening ∧ OneLine bracket.closing := by
      cases bracket <;> decide
    rw [OneLine, String.toList_append, String.toList_append, List.mem_append, List.mem_append]
    exact not_or.mpr ⟨not_or.mpr ⟨hbrackets.1, h⟩, hbrackets.2⟩
  trimEnd {text} h := by
    rw [OneLine, trimEnd, String.toList_ofList, List.mem_reverse]
    intro hmem
    exact h (List.mem_reverse.mp ((List.dropWhile_suffix _).subset hmem))

end Text

/-! ### The texts of a declaration -/

mutual

/-- The texts that a type is declared with. -/
def TypeDecl.texts : TypeDecl → List String
  | .tagged qualifiers name none => qualifiers.toList ++ name.toList
  | .tagged qualifiers name (some members) =>
    qualifiers.toList ++ name.toList ++ Member.textsOf members
  | .synonym qualifiers name ⟨aliased, none, declarator⟩ =>
    qualifiers.toList ++ [name, aliased.name] ++ declarator.texts
  | .synonym qualifiers name ⟨aliased, some definition, declarator⟩ =>
    qualifiers.toList ++ [name, aliased.name] ++ declarator.texts ++ definition.texts

/-- The texts of the members of a type. -/
def Member.textsOf : List Member → List String
  | [] => []
  | .declaration declaration :: rest => declaration.texts ++ Member.textsOf rest
  | .enumerator name value :: rest => name :: value.toList ++ Member.textsOf rest

/-- The texts of a statement. -/
def Declaration.texts : Declaration → List String
  | .type declared instances => declared.texts ++ Declarator.textsOf instances
  | .names declarators => Declarator.textsOf declarators

end

open Text

/-! ### Moving a declaration to the right -/

theorem oneLine_of_mem_textsOf {declarators : List Declarator}
    (h : ∀ text ∈ Declarator.textsOf declarators, OneLine text) (withType : Bool) :
    ∀ declarator ∈ declarators, OneLine (declarator.render withType) := by
  induction declarators with
  | nil => simp
  | cons first rest ih =>
    rw [Declarator.textsOf, List.forall_mem_append] at h
    rw [List.forall_mem_cons]
    exact ⟨closed_oneLine.render withType first h.1, ih h.2⟩

theorem oneLine_furtherText {separator : String} (hseparator : OneLine separator)
    {declarators : List Declarator} (h : ∀ text ∈ Declarator.textsOf declarators, OneLine text) :
    OneLine (furtherText separator declarators) := by
  unfold furtherText
  split
  · decide
  · refine closed_oneLine.append hseparator (closed_oneLine.intercalate fun text htext => ?_)
    obtain ⟨declarator, hdeclarator, rfl⟩ := List.mem_map.mp htext
    exact oneLine_of_mem_textsOf h false declarator hdeclarator

theorem oneLine_head {qualifiers : Qualifiers} {name : Option String}
    (hqualifiers : ∀ text ∈ qualifiers.toList, OneLine text)
    (hname : ∀ text ∈ name.toList, OneLine text) :
    OneLine (qualifiers.leadingText ++ name.getD "") := by
  refine closed_oneLine.append (closed_oneLine.leadingText hqualifiers) ?_
  cases name with
  | none => decide
  | some name => exact hname name (by simp)

/-- An enumerator is written alike at every depth. -/
theorem render_enumerator (depth depth' : Nat) (name : String) (value : Option String) :
    Member.render depth (.enumerator name value) =
      Member.render depth' (.enumerator name value) := by
  cases value with
  | none => rw [Member.render, Member.render]
  | some value => rw [Member.render, Member.render]

theorem oneLine_enumerator (depth : Nat) {name : String} {value : Option String}
    (h : ∀ text ∈ name :: value.toList, OneLine text) :
    OneLine (Member.render depth (.enumerator name value)) := by
  rw [List.forall_mem_cons] at h
  cases value with
  | none =>
    rw [Member.render]
    exact h.1
  | some value =>
    rw [Member.render]
    exact closed_oneLine.append (closed_oneLine.append h.1 (by decide)) (h.2 value (by simp))

theorem oneLine_beforeBody {head : String} (h : OneLine head) : OneLine (beforeBody head) := by
  unfold beforeBody
  split
  · exact h
  · exact closed_oneLine.append h closed_oneLine.space

/-- A line of a body, with its line break, in front of other lines that are moved right. -/
theorem line_add (depth levels : Nat) (line : String) {rest moved : String}
    (h : moved ++ indentation levels = indentation levels ++ indented levels rest) :
    indentation (depth + levels) ++ indented levels line ++ "\n" ++ moved ++ indentation levels =
      indentation levels ++ indented levels (indentation depth ++ line ++ "\n" ++ rest) := by
  simp only [indented_append, indented_newline, indented_of_oneLine (oneLine_indentation depth),
    indentation_add, String.append_assoc, h]

/-- The lines of a body between its head and its closing brace. -/
theorem body_add (depth levels : Nat) {head lines moved : String} (hhead : OneLine head)
    (h : moved ++ indentation levels = indentation levels ++ indented levels lines) :
    head ++ "\x7b\n" ++ moved ++ indentation (depth + levels) ++ "\x7d" =
      indented levels (head ++ "\x7b\n" ++ lines ++ indentation depth ++ "\x7d") := by
  have hopening : indented levels "\x7b\n" = "\x7b\n" ++ indentation levels := by
    rw [show "\x7b\n" = "\x7b" ++ "\n" by decide, indented_append, indented_of_oneLine (by decide),
      indented_newline, String.append_assoc]
  have hclosing : indented levels "\x7d" = "\x7d" := indented_of_oneLine (by decide) levels
  have hlines (after : String) :
      moved ++ (indentation levels ++ after) =
          indentation levels ++ (indented levels lines ++ after) := by
    rw [← String.append_assoc, h, String.append_assoc]
  simp only [indented_append, indented_of_oneLine hhead,
    indented_of_oneLine (oneLine_indentation depth), hopening, hclosing, indentation_add,
    String.append_assoc, hlines]

mutual

/-- A type that stands further right is the same text, moved right. -/
theorem TypeDecl.render_add (depth levels : Nat) : (declared : TypeDecl) →
    (∀ text ∈ declared.texts, OneLine text) →
      declared.render (depth + levels) = indented levels (declared.render depth)
  | .tagged qualifiers name none, h => by
    rw [TypeDecl.texts, List.forall_mem_append] at h
    have hhead := oneLine_head h.1 h.2
    rw [TypeDecl.render, TypeDecl.render, indented_of_oneLine (closed_oneLine.trimEnd hhead)]
  | .tagged qualifiers name (some members), h => by
    rw [TypeDecl.texts, List.forall_mem_append, List.forall_mem_append] at h
    -- Only what is inside the body starts new lines.
    have hhead := oneLine_beforeBody (oneLine_head h.1.1 h.1.2)
    have hmembers := renderMembers_add (depth + 1) levels members h.2
    rw [TypeDecl.render,
      TypeDecl.render, ← trimEnd_indented, ← body_add depth levels hhead hmembers,
      Nat.add_right_comm]
  | .synonym qualifiers name ⟨aliased, none, declarator⟩, h => by
    rw [TypeDecl.texts, List.forall_mem_append, List.forall_mem_append] at h
    obtain ⟨⟨hqualifiers, hnames⟩, hdeclarator⟩ := h
    have hline : OneLine ("typedef " ++ qualifiers.leadingText ++ aliased.name ++ " " ++
        declarator.render false) := by
      refine closed_oneLine.append
        (closed_oneLine.append (closed_oneLine.append (closed_oneLine.append ?_
        (closed_oneLine.leadingText hqualifiers)) ?_) closed_oneLine.space)
        (closed_oneLine.render false declarator hdeclarator)
      · decide
      · exact hnames _ (by simp)
    rw [TypeDecl.render, TypeDecl.render, indented_of_oneLine (closed_oneLine.trimEnd hline)]
  | .synonym qualifiers name ⟨aliased, some definition, declarator⟩, h => by
    rw [TypeDecl.texts, List.forall_mem_append, List.forall_mem_append, List.forall_mem_append] at h
    obtain ⟨⟨⟨hqualifiers, -⟩, hdeclarator⟩, hdefinition⟩ := h
    have htypedef : OneLine "typedef " := by decide
    rw [TypeDecl.render, TypeDecl.render, TypeDecl.render_add depth levels definition hdefinition,
      ← trimEnd_indented]
    simp only [indented_append, indented_of_oneLine htypedef,
      indented_of_oneLine closed_oneLine.space,
      indented_of_oneLine (closed_oneLine.leadingText hqualifiers),
      indented_of_oneLine (closed_oneLine.render false declarator hdeclarator)]

/-- The lines of a body are moved right, with the indentation in front of the next line counted to
them. -/
theorem renderMembers_add (depth levels : Nat) : (members : List Member) →
    (∀ text ∈ Member.textsOf members, OneLine text) →
      renderMembers (depth + levels) members ++ indentation levels =
        indentation levels ++ indented levels (renderMembers depth members)
  | [], _ => by
    simp [renderMembers, indented]
  | .declaration declaration :: rest, h => by
    rw [Member.textsOf, List.forall_mem_append] at h
    have hline :=
      line_add depth levels (declaration.render depth ++ ";")
      (renderMembers_add depth levels rest h.2)
    have hsemicolon : indented levels ";" = ";" := indented_of_oneLine (by decide) levels
    rw [indented_append, hsemicolon, ← Declaration.render_add depth levels declaration h.1] at hline
    rw [renderMembers, renderMembers, show ";\n" = ";" ++ "\n" by decide]
    simp only [String.append_assoc] at hline ⊢
    exact hline
  | .enumerator name value :: rest, h => by
    rw [Member.textsOf, List.forall_mem_append] at h
    have hentry :
        OneLine (Member.render depth (.enumerator name value) ++
        if rest.isEmpty then "" else ",") := by
      refine closed_oneLine.append (oneLine_enumerator depth h.1) ?_
      split <;> decide
    have hline := line_add depth levels
      (Member.render depth (.enumerator name value) ++ if rest.isEmpty then "" else ",")
      (renderMembers_add depth levels rest h.2)
    rw [indented_of_oneLine hentry] at hline
    rw [renderMembers, renderMembers, render_enumerator (depth + levels) depth]
    simp only [String.append_assoc] at hline ⊢
    exact hline

/-- A statement that stands further right is the same text, moved right. -/
theorem Declaration.render_add (depth levels : Nat) : (declaration : Declaration) →
    (∀ text ∈ declaration.texts, OneLine text) →
      declaration.render (depth + levels) = indented levels (declaration.render depth)
  | .type declared instances, h => by
    rw [Declaration.texts, List.forall_mem_append] at h
    have hseparator : OneLine (if declared.isSynonym then ", " else " ") := by
      split <;> decide
    rw [Declaration.render, Declaration.render, TypeDecl.render_add depth levels declared h.1,
      indented_append, indented_of_oneLine (oneLine_furtherText hseparator h.2)]
  | .names [], _ => rfl
  | .names (first :: rest), h => by
    rw [Declaration.texts, Declarator.textsOf, List.forall_mem_append] at h
    have hline : OneLine (first.render true ++ furtherText ", " rest) :=
      closed_oneLine.append (closed_oneLine.render true first h.1)
        (oneLine_furtherText (by decide) h.2)
    rw [Declaration.render, Declaration.render, indented_of_oneLine hline]

end

/-- A text that is written at different depths: further right it is the same, moved right, and its
first line is the same everywhere. -/
structure IndentsUniformly (render : Nat → String) : Prop where
  add : ∀ depth levels, render (depth + levels) = indented levels (render depth)
  firstLine_eq : ∀ depth, firstLine (render depth) = firstLine (render 0)

theorem indentsUniformly_of_add {render : Nat → String}
    (h : ∀ depth levels, render (depth + levels) = indented levels (render depth)) :
    IndentsUniformly render := by
  refine ⟨h, fun depth => ?_⟩
  have hdepth := h 0 depth
  rw [Nat.zero_add] at hdepth
  rw [hdepth, firstLine_indented]

/-- **Indentation is uniform**, for types and for statements whose texts are on one line each. -/
theorem indentsUniformly_render :
    (∀ declared : TypeDecl, (∀ text ∈ declared.texts, OneLine text) →
      IndentsUniformly fun depth => declared.render depth) ∧
    ∀ declaration : Declaration, (∀ text ∈ declaration.texts, OneLine text) →
      IndentsUniformly fun depth => declaration.render depth :=
  ⟨fun declared h => indentsUniformly_of_add fun depth levels => declared.render_add depth levels h,
    fun declaration h => indentsUniformly_of_add fun depth levels =>
      declaration.render_add depth levels h⟩

/-- A struct with an enumeration inside, and a typedef of a struct that is defined in it. -/
theorem indentsUniformly_render_nested :
    IndentsUniformly (fun depth => TypeDecl.render depth (.tagged ⟨["struct"]⟩ (some "Outer") (some
      [.declaration (.type (.tagged ⟨["enum"]⟩ (some "Color") (some [.enumerator "RED" none,
        .enumerator "BLUE" (some "1<<3")])) [{ name := some "color" }])]))) ∧
    IndentsUniformly (fun depth => Declaration.render depth (.type (.synonym {} "Point"
      ⟨⟨1, "", false⟩, some (.tagged ⟨["struct"]⟩ none (some
        [.declaration (.names [{ base := some ⟨0, "int", false⟩, name := some "x" }])])),
        { name := some "Point" }⟩) [{ right := ⟨["*"]⟩, name := some "PointPtr" }])) :=
  ⟨indentsUniformly_render.1 _ (by decide), indentsUniformly_render.2 _ (by decide)⟩

end CommonDecl
