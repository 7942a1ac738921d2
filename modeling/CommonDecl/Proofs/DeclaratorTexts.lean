import CommonDecl.Proofs.Rendering

/-!
# The texts of a declarator

A declarator is written with the texts that stand in it (`Declarator.texts`), and with spaces,
stars, commas and brackets around them.  So a property of texts that these have, and that is kept
where texts are put together (`Text.Closed`), holds of everything that is written of a declarator if
it holds of its texts (`Text.Closed.render`).
-/

namespace CommonDecl

/-! ### The texts of a declarator -/

mutual

/-- The texts that a declarator is written with. -/
def Declarator.texts : Declarator → List String
  | ⟨_, left, right, base, name, dimensions, outerDimensions, arguments, nests⟩ =>
    (left.toList ++ (base.map TypeRef.name).toList) ++
      (right.toList ++ name.toList ++ dimensions ++ outerDimensions ++
        textsOf arguments ++ textsOf nests)

/-- The texts that declarators are written with. -/
def Declarator.textsOf : List Declarator → List String
  | [] => []
  | declarator :: rest => declarator.texts ++ textsOf rest

end

namespace Declarator

/-- The texts of the type of a declarator. -/
def typeTexts (declarator : Declarator) : List String :=
  declarator.left.toList ++ (declarator.base.map TypeRef.name).toList

/-- The texts of a declarator after its base type. -/
def ownTexts (declarator : Declarator) : List String :=
  declarator.right.toList ++ declarator.name.toList ++ declarator.dimensions ++
    declarator.outerDimensions ++ textsOf declarator.arguments ++ textsOf declarator.nests

/-- The texts of a declarator are those of its type and its own, which follow the base type. -/
theorem texts_eq (declarator : Declarator) :
    declarator.texts = declarator.typeTexts ++ declarator.ownTexts := by
  cases declarator
  rw [texts]
  rfl

/-- The texts of a list of declarators are those of its parts. -/
theorem textsOf_append (first second : List Declarator) :
    textsOf (first ++ second) = textsOf first ++ textsOf second := by
  induction first with
  | nil => rfl
  | cons declarator rest ih => rw [List.cons_append, textsOf, textsOf, ih, List.append_assoc]

end Declarator

/-! ### Properties of what is written -/

/-- A property of texts that holds of what stands between the texts of a declarator, and that is
kept where texts are put together, put in brackets and cut at the end. -/
structure Text.Closed (P : String → Prop) : Prop where
  empty : P ""
  space : P " "
  comma : P ","
  star : P "*"
  append {first second : String} (hfirst : P first) (hsecond : P second) : P (first ++ second)
  group (bracket : Bracket) {text : String} (h : P text) :
    P (bracket.opening ++ text ++ bracket.closing)
  trimEnd {text : String} (h : P text) : P (Text.trimEnd text)

namespace Text.Closed

variable {P : String → Prop}

/-- Texts that are joined keep the property. -/
theorem join (hP : Closed P) {texts : List String} (h : ∀ text ∈ texts, P text) :
    P (String.join texts) := by
  induction texts with
  | nil => exact hP.empty
  | cons text rest ih =>
    rw [List.forall_mem_cons] at h
    rw [String.join_cons]
    exact hP.append h.1 (ih h.2)

/-- Texts that are joined by commas keep the property. -/
theorem intercalate (hP : Closed P) {texts : List String} (h : ∀ text ∈ texts, P text) :
    P (", ".intercalate texts) := by
  have hcomma : P ", " := hP.append hP.comma hP.space
  induction texts with
  | nil => exact hP.empty
  | cons text rest ih =>
    rw [List.forall_mem_cons] at h
    cases rest with
    | nil =>
      rw [String.intercalate_singleton]
      exact h.1
    | cons next rest =>
      rw [String.intercalate_cons_of_ne_nil (List.cons_ne_nil next rest)]
      exact hP.append (hP.append h.1 hcomma) (ih h.2)

/-- Qualifiers that follow another one are joined by spaces, or by nothing. -/
theorem textAfter (hP : Closed P) (previous : String) {rest : List String}
    (h : ∀ text ∈ rest, P text) :
    P (Qualifiers.textAfter previous rest) := by
  induction rest generalizing previous with
  | nil => exact hP.empty
  | cons next rest ih =>
    rw [List.forall_mem_cons] at h
    refine hP.append (hP.append ?_ h.1) (ih next h.2)
    split
    · exact hP.empty
    · exact hP.space

/-- So are qualifiers in front of something, with a space behind them or nothing. -/
theorem leadingText (hP : Closed P) {qualifiers : Qualifiers}
    (h : ∀ text ∈ qualifiers.toList, P text) :
    P qualifiers.leadingText := by
  have htext : P qualifiers.text := by
    rw [Qualifiers.text]
    cases hlist : qualifiers.toList with
    | nil => exact hP.empty
    | cons first rest =>
      rw [hlist, List.forall_mem_cons] at h
      exact hP.append h.1 (hP.textAfter first h.2)
  unfold Qualifiers.leadingText
  split
  · split
    · exact htext
    · exact hP.append htext hP.space
  · exact htext

/-- A dimension is its text in square brackets. -/
theorem dimensionsText (hP : Closed P) {dimensions : List String}
    (h : ∀ text ∈ dimensions, P text) :
    P (Declarator.dimensionsText dimensions) := by
  refine hP.join fun text htext => ?_
  obtain ⟨dimension, hdimension, rfl⟩ := List.mem_map.mp htext
  exact hP.group .square (h dimension hdimension)

/-- The type of a declarator is its qualifiers and its base, a space between them. -/
theorem typeText (hP : Closed P) {declarator : Declarator}
    (h : ∀ text ∈ declarator.typeTexts, P text) :
    P declarator.typeText := by
  rw [Declarator.typeTexts, List.forall_mem_append] at h
  refine hP.append (hP.leadingText h.1) ?_
  cases hbase : declarator.base with
  | none => exact hP.empty
  | some base =>
    have hname : P base.name := h.2 _ (by simp [hbase])
    refine hP.append hname ?_
    split
    · exact hP.empty
    · exact hP.space

/-- A name and its dimensions keep the property, with a space before the name or without. -/
theorem innerText (hP : Closed P) (spaced : Bool) {name : Option String} {dimensions : List String}
    (hname : ∀ text ∈ name.toList, P text) (hdimensions : ∀ text ∈ dimensions, P text) :
    P (CommonDecl.innerText spaced name dimensions) := by
  refine hP.append ?_ (hP.dimensionsText hdimensions)
  cases name with
  | none => exact hP.empty
  | some name =>
    refine hP.append ?_ (hname name (by simp))
    split
    · exact hP.space
    · exact hP.empty

mutual

/-- What is written of a declarator has the property if its texts have it. -/
theorem render (hP : Closed P) (withType : Bool) : (declarator : Declarator) →
    (∀ text ∈ declarator.texts, P text) → P (declarator.render withType)
  | ⟨kind, left, right, base, name, dimensions, outerDimensions, arguments, nests⟩, h => by
    rw [Declarator.texts] at h
    simp only [List.forall_mem_append] at h
    obtain ⟨⟨hleft, hbase⟩, ⟨⟨⟨⟨hright, hname⟩, hdimensions⟩, houter⟩, harguments⟩, hnests⟩ := h
    rw [render_eq]
    refine hP.trimEnd (hP.append (hP.append ?_ (hP.leadingText hright)) (hP.append (hP.append
      (nestText hP nests hnests (hP.innerText _ hname hdimensions)) (hP.dimensionsText houter)) ?_))
    · split
      · exact hP.typeText (List.forall_mem_append.mpr ⟨hleft, hbase⟩)
      · exact hP.empty
    · split
      · exact hP.group .parenthesis (hP.intercalate (renderAll hP arguments harguments))
      · exact hP.empty

/-- What is written of each of several declarators keeps the property. -/
theorem renderAll (hP : Closed P) : (declarators : List Declarator) →
    (∀ text ∈ Declarator.textsOf declarators, P text) → ∀ text ∈ Declarator.renderAll declarators,
      P text
  | [], _ => by simp [Declarator.renderAll]
  | declarator :: rest, h => by
    rw [Declarator.textsOf, List.forall_mem_append] at h
    rw [Declarator.renderAll, List.forall_mem_cons]
    exact ⟨render hP true declarator h.1, renderAll hP rest h.2⟩

/-- What is written of nests around an inner text keeps the property. -/
theorem nestText (hP : Closed P) : (nests : List Declarator) →
    (∀ text ∈ Declarator.textsOf nests, P text) → ∀ {inner : String}, P inner →
      P (CommonDecl.nestText inner nests)
  | [], _, _, hinner => hinner
  | ⟨kind, left, right, base, name, dimensions, outerDimensions, arguments, nests⟩ :: rest, h,
      inner, hinner => by
    rw [Declarator.textsOf, Declarator.texts] at h
    simp only [List.forall_mem_append] at h
    obtain ⟨⟨-, ⟨⟨⟨⟨hright, -⟩, hdimensions⟩, -⟩, harguments⟩, -⟩, hrest⟩ := h
    have hafter :
        P (if kind = .nestedFunction then CommonDecl.argumentsText arguments else "") := by
      split
      · exact hP.group .parenthesis (hP.intercalate (renderAll hP arguments harguments))
      · exact hP.empty
    have hgroup := hP.group .parenthesis (hP.append (hP.append (hP.append (hP.append hP.star
      (hP.leadingText hright)) (nestText hP rest hrest hinner)) (hP.dimensionsText hdimensions))
        hafter)
    rw [CommonDecl.nestText]
    simp only [String.append_assoc] at hgroup ⊢
    exact hgroup

end

/-- An argument list is what is written of its arguments, commas between them and brackets around.
-/
theorem argumentsText (hP : Closed P) {arguments : List Declarator}
    (h : ∀ text ∈ Declarator.textsOf arguments, P text) : P (CommonDecl.argumentsText arguments) :=
  hP.group .parenthesis (hP.intercalate (hP.renderAll arguments h))

/-- What is written behind the qualifiers of a declarator keeps the property. -/
theorem coreText (hP : Closed P) (spaced : Bool) {declarator : Declarator}
    (h : ∀ text ∈ declarator.ownTexts, P text) : P (CommonDecl.coreText spaced declarator) := by
  rw [Declarator.ownTexts] at h
  simp only [List.forall_mem_append] at h
  obtain ⟨⟨⟨⟨⟨-, hname⟩, hdimensions⟩, houter⟩, harguments⟩, hnests⟩ := h
  have hinner := hP.nestText declarator.nests hnests (hP.innerText spaced hname hdimensions)
  refine hP.append (hP.append hinner (hP.dimensionsText houter)) ?_
  split
  · exact hP.argumentsText harguments
  · exact hP.empty

end Text.Closed

end CommonDecl
