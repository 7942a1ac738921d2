import CommonDecl.Proofs.Comments
import CommonDecl.Proofs.Likeness
import CommonDecl.Proofs.Shapes
import CommonDecl.Proofs.Writing
import CommonDecl.Source

/-!
# Sources that are joined

Where two sources of C are joined by a line feed, the tokens of the second one follow those of the
first one (`TokenTree.ofSource_newline`), as long as nothing of the first one goes on into the
second one: no `/*` is left open, and the last line is not continued (`Comment.EndsApart`).  What a
scope knows matters only for the classes of words (`TokenTree.ofText_alike`).
-/

namespace CommonDecl

/-! ### Taking comments out -/

namespace Comment

/-- Nothing goes on behind the end of a source of C: each `/*` is closed, and the last line is not
joined to the next one. -/
structure EndsApart (source : String) : Prop where
  closed : ∀ rest ∈ afterOpeners (joinSplicedLines (tabsToSpaces (unifyLineEnds source.toList))),
    (blockLength? rest).isSome = true
  not_continued : ¬ ['\\', '\n'] <:+ unifyLineEnds (source.toList ++ ['\n'])

instance (source : String) : Decidable (EndsApart source) :=
  decidable_of_iff
    ((∀ rest ∈ afterOpeners (joinSplicedLines (tabsToSpaces (unifyLineEnds source.toList))),
        (blockLength? rest).isSome = true) ∧
      ¬ ['\\', '\n'] <:+ unifyLineEnds (source.toList ++ ['\n']))
    ⟨fun h => ⟨h.1, h.2⟩, fun h => ⟨h.closed, h.not_continued⟩⟩

/-- A carriage return at the end of a text is left out before a line feed. -/
theorem exists_unifyLineEnds (text : List Char) :
    ∃ front last, unifyLineEnds text = front ++ last ∧ (last = [] ∨ last = ['\r']) ∧
      ∀ after, unifyLineEnds (text ++ '\n' :: after) = front ++ '\n' :: unifyLineEnds after := by
  induction text using unifyLineEnds_induct with
  | lineEnd rest ih =>
    obtain ⟨front, last, htext, hlast, hafter⟩ := ih
    refine ⟨'\n' :: front, last, ?_, hlast, fun after => ?_⟩
    · rw [unifyLineEnds, htext]
      rfl
    · rw [List.cons_append, List.cons_append, unifyLineEnds, hafter]
      rfl
  | char c rest hnot ih =>
    -- A return at the end makes one line end with the newline that is put behind it.
    by_cases hreturn : c = '\r' ∧ rest = []
    · obtain ⟨rfl, rfl⟩ := hreturn
      refine ⟨[], ['\r'], rfl, Or.inr rfl, fun after => ?_⟩
      rw [List.cons_append, List.nil_append, unifyLineEnds]
      rfl
    · obtain ⟨front, last, htext, hlast, hafter⟩ := ih
      refine ⟨c :: front, last, ?_, hlast, fun after => ?_⟩
      · rw [unifyLineEnds.eq_2 c rest hnot, htext]
        rfl
      · rw [List.cons_append, unifyLineEnds.eq_2, hafter]
        · rfl
        · rintro rest' rfl hrest
          cases rest with
          | nil => exact hreturn ⟨rfl, rfl⟩
          | cons d others =>
            cases hrest
            exact hnot others rfl rfl
  | nil =>
    refine ⟨[], [], rfl, Or.inl rfl, fun after => ?_⟩
    rw [List.nil_append, unifyLineEnds.eq_2]
    · rfl
    · rintro _ ⟨⟩

theorem getLast?_cons_of_eq {c d : Char} {rest : List Char} (h : rest.getLast? = some d) :
    (c :: rest).getLast? = some d := by
  rw [List.getLast?_cons, h]
  rfl

theorem joinSplicedLines_append {text after : List Char}
    (h : text.getLast? = some '\\' → after.head? ≠ some '\n') :
    joinSplicedLines (text ++ after) = joinSplicedLines text ++ joinSplicedLines after := by
  induction text using joinSplicedLines_induct with
  | splice rest ih =>
    rw [List.cons_append, List.cons_append, joinSplicedLines, joinSplicedLines]
    exact ih fun hlast => h (getLast?_cons_of_eq (getLast?_cons_of_eq hlast))
  | char c rest hnot ih =>
    rw [joinSplicedLines.eq_2 c rest hnot, List.cons_append, joinSplicedLines.eq_2,
      ih fun hlast => h (getLast?_cons_of_eq hlast), List.cons_append]
    rintro line rfl hline
    cases rest with
    | nil =>
      have hhead : after.head? = some '\n' := congrArg List.head? hline
      exact h rfl hhead
    | cons d others =>
      cases hline
      exact hnot others rfl rfl
  | nil => rfl

theorem mem_afterOpeners_append {text rest : List Char} (h : rest ∈ afterOpeners text)
    (after : List Char) :
    rest ++ after ∈ afterOpeners (text ++ after) := by
  induction text using afterOpeners_induct with
  | nil => cases h
  | opener inside ih =>
    rw [afterOpeners, List.mem_cons] at h
    rw [List.cons_append, List.cons_append, afterOpeners, List.mem_cons]
    rcases h with rfl | h
    · exact Or.inl rfl
    · exact Or.inr (ih h)
  | char c inside hnot ih =>
    rw [afterOpeners.eq_3 c inside hnot] at h
    exact afterOpeners_cons_subset _ _ (ih h)

/-- A block that is closed in a text is closed before its last character, unless this one closes it.
-/
theorem isSome_blockLength?_of_concat {text : List Char} {c : Char} (hc : c ≠ '/')
    (h : (blockLength? (text ++ [c])).isSome = true) : (blockLength? text).isSome = true := by
  induction text using blockLength?_induct with
  | closed rest => rfl
  | char d rest hnot ih =>
    rw [blockLength?.eq_2 d rest hnot, Option.isSome_map]
    apply ih
    rwa [List.cons_append, blockLength?.eq_2, Option.isSome_map] at h
    rintro others rfl hrest
    cases rest with
    | nil =>
      cases hrest
      exact hc rfl
    | cons e others' =>
      cases hrest
      exact hnot others' rfl rfl
  | nil =>
    rw [List.nil_append, blockLength?.eq_2 c [] (by simp)] at h
    cases h

/-- Comments that are closed in a text are taken out of it whatever follows. -/
theorem dropBlocks_append_of_closed {text after : List Char}
    (hclosed : ∀ rest ∈ afterOpeners text, (blockLength? rest).isSome = true)
    (hafter : after.head? ≠ some '*') :
    dropBlocks (text ++ after) = dropBlocks text ++ dropBlocks after := by
  induction text using dropBlocks_induct with
  | nil =>
    rw [dropBlocks]
    rfl
  | block rest n hblock ih =>
    obtain ⟨hblock', hn⟩ := blockLength?_append hblock after
    rw [List.cons_append, List.cons_append, dropBlocks_open hblock', dropBlocks_open hblock,
      List.drop_append_of_le_length hn, List.cons_append, ih]
    intro inside hinside
    exact hclosed inside (List.mem_cons_of_mem _ (afterOpeners_cons_subset _ _
      (afterOpeners_drop_subset n rest hinside)))
  | unclosed rest hblock ih =>
    -- Every opener is closed in the text itself.
    have hsome := hclosed rest List.mem_cons_self
    rw [hblock] at hsome
    cases hsome
  | char c rest hnot ih =>
    -- A slash opens a block only with a star, which stands in the text or nowhere.
    have hopen {rest' : List Char} (hstar : ∀ inside, c = '/' → rest' = '*' :: inside → False) :
        dropBlocks (c :: rest') = c :: dropBlocks rest' :=
      dropBlocks_cons fun hc inside hinside => (hstar inside hc hinside).elim
    rw [List.cons_append, hopen hnot, hopen, List.cons_append,
      ih fun inside hinside => hclosed inside (afterOpeners_cons_subset c rest hinside)]
    rintro inside hc heq
    cases rest with
    | nil => exact hafter (congrArg List.head? heq)
    | cons d others =>
      cases heq
      exact hnot others hc rfl

/-- A comment ends with its line. -/
theorem dropSlashLines_append_line (text after : List Char) :
    dropSlashLines (text ++ '\n' :: after) = dropSlashLines text ++ '\n' ::
      dropSlashLines after := by
  induction text using dropSlashLines_induct with
  | nil =>
    rw [List.nil_append, dropSlashLines_cons fun h => absurd h (by decide), dropSlashLines]
    rfl
  | slashes rest ih =>
    -- A line comment ends at the newline, if not before it.
    have hline : dropLine (rest ++ '\n' :: after) = dropLine rest ++ '\n' :: after := by
      rw [dropLine, List.dropWhile_append]
      split
      · rename_i hempty
        rw [dropLine, List.isEmpty_iff.mp hempty]
        rfl
      · rfl
    rw [List.cons_append, List.cons_append, dropSlashLines, dropSlashLines, hline, ih,
      List.cons_append]
  | char c rest hnot ih =>
    rw [dropSlashLines.eq_3 c rest hnot, List.cons_append, dropSlashLines_cons, ih,
      List.cons_append]
    rintro rfl hhead
    cases rest with
    | nil => cases hhead
    | cons d others =>
      obtain rfl : d = '/' := Option.some.inj hhead
      exact hnot others rfl rfl

/-- A character at the end of a text stays, unless it stands in a comment. -/
theorem dropSlashLines_concat (text : List Char) {c : Char} (hc : c ≠ '/') (hline : c ≠ '\n') :
    ∃ last, dropSlashLines (text ++ [c]) = dropSlashLines text ++ last ∧
      (last = [] ∨ last = [c]) := by
  induction text using dropSlashLines_induct with
  | nil =>
    refine ⟨[c], ?_, Or.inr rfl⟩
    rw [List.nil_append, dropSlashLines_cons fun h => absurd h hc, dropSlashLines]
    rfl
  | slashes rest ih =>
    unfold dropLine at ih
    -- In a comment that is not over yet, the character is dropped with it.
    by_cases hempty : rest.dropWhile (· ≠ '\n') = []
    · refine ⟨[], ?_, Or.inl rfl⟩
      have hdrop : dropLine (rest ++ [c]) = [] := by
        rw [dropLine, List.dropWhile_append, if_pos (List.isEmpty_iff.mpr hempty)]
        exact List.dropWhile_cons_of_pos (by simpa using hline)
      rw [List.cons_append, List.cons_append, dropSlashLines, dropSlashLines, hdrop, dropLine,
        hempty, List.append_nil]
    · have hdrop : dropLine (rest ++ [c]) = rest.dropWhile (· ≠ '\n') ++ [c] := by
        rw [dropLine, List.dropWhile_append, if_neg (by rwa [List.isEmpty_iff])]
      obtain ⟨last, hlast, hlast'⟩ := ih
      refine ⟨last, ?_, hlast'⟩
      rw [List.cons_append, List.cons_append, dropSlashLines, dropSlashLines, hdrop, hlast,
        dropLine, List.cons_append]
  | char d rest hnot ih =>
    obtain ⟨last, hlast, hlast'⟩ := ih
    refine ⟨last, ?_, hlast'⟩
    rw [dropSlashLines.eq_3 d rest hnot, List.cons_append, dropSlashLines_cons, hlast,
      List.cons_append]
    rintro rfl hhead
    cases rest with
    | nil => exact hc (Option.some.inj hhead)
    | cons e others =>
      obtain rfl : e = '/' := Option.some.inj hhead
      exact hnot others rfl rfl

/-- Comments are taken out of the second one of two sources as they are when it stands alone, and
out of the first one too, apart from a carriage return at its end. -/
theorem exists_strip_append {source : String} (h : EndsApart source) :
    ∃ front last, strip .c source = String.ofList (front ++ last) ∧ (last = [] ∨ last = ['\r']) ∧
      ∀ after, strip .c (source ++ "\n" ++ after) = String.ofList front ++ "\n" ++
        strip .c after := by
  obtain ⟨text, last, htext, hlast, hafter⟩ := exists_unifyLineEnds source.toList
  -- The last line is not continued, so its line feed stays.
  have hsplice : (tabsToSpaces text).getLast? ≠ some '\\' := by
    intro hbackslash
    rw [tabsToSpaces, List.getLast?_map, Option.map_eq_some_iff] at hbackslash
    obtain ⟨c, hc, hspace⟩ := hbackslash
    have hc' : c = '\\' := by
      split at hspace
      · exact absurd hspace (by decide)
      · exact hspace
    obtain ⟨before, rfl⟩ := List.getLast?_eq_some_iff.mp hc
    refine h.not_continued ⟨before, ?_⟩
    rw [hafter, unifyLineEnds, hc']
    simp
  have htabs : tabsToSpaces last = last ∧ joinSplicedLines last = last ∧ dropBlocks last = last ∧
      last.head? ≠ some '\n' ∧ last.head? ≠ some '*' := by
    rcases hlast with rfl | rfl
    · decide +kernel
    · decide +kernel
  obtain ⟨htabs, hjoin, hblocks, hfeed, hstar⟩ := htabs
  have hjoined : joinSplicedLines (tabsToSpaces (unifyLineEnds source.toList)) =
      joinSplicedLines (tabsToSpaces text) ++ last := by
    rw [htext, tabsToSpaces, List.map_append, ← tabsToSpaces, ← tabsToSpaces, htabs,
      joinSplicedLines_append fun hbackslash => absurd hbackslash hsplice, hjoin]
  have hclosed : ∀ rest ∈ afterOpeners (joinSplicedLines (tabsToSpaces text)),
      (blockLength? rest).isSome = true := by
    intro rest hrest
    have hsome :=
      h.closed (rest ++ last) (by rw [hjoined]; exact mem_afterOpeners_append hrest last)
    rcases hlast with rfl | rfl
    · rwa [List.append_nil] at hsome
    · exact isSome_blockLength?_of_concat (by decide) hsome
  obtain ⟨last', hslashes, hlast'⟩ : ∃ last',
      dropSlashLines (dropBlocks (joinSplicedLines (tabsToSpaces text)) ++ last) =
        dropSlashLines (dropBlocks (joinSplicedLines (tabsToSpaces text))) ++ last' ∧
      (last' = [] ∨ last' = ['\r']) := by
    rcases hlast with rfl | rfl
    · exact ⟨[], by rw [List.append_nil, List.append_nil], Or.inl rfl⟩
    · exact dropSlashLines_concat _ (by decide) (by decide)
  refine ⟨dropSlashLines (dropBlocks (joinSplicedLines (tabsToSpaces text))), last', ?_, hlast',
    fun after => ?_⟩
  · rw [strip, stripChars, hjoined, dropBlocks_append_of_closed hclosed hstar, hblocks, hslashes]
  · have htoList : (source ++ "\n" ++ after).toList = source.toList ++ '\n' :: after.toList := by
      rw [String.toList_append, String.toList_append, List.append_assoc]
      rfl
    have hline (rest : List Char) :
        joinSplicedLines ('\n' :: rest) = '\n' :: joinSplicedLines rest :=
      joinSplicedLines.eq_2 _ _ fun _ hc _ => absurd hc (by decide)
    have hline' (rest : List Char) : dropBlocks ('\n' :: rest) = '\n' :: dropBlocks rest :=
      dropBlocks_cons fun hc => absurd hc (by decide)
    rw [strip, strip, stripChars, stripChars, htoList, hafter, tabsToSpaces, List.map_append,
      List.map_cons, ← tabsToSpaces, ← tabsToSpaces, if_neg (by decide),
      joinSplicedLines_append fun hbackslash => absurd hbackslash hsplice, hline,
      dropBlocks_append_of_closed hclosed (by simp), hline', dropSlashLines_append_line]
    apply String.toList_injective
    simp

end Comment

/-! ### Tokens -/

open Lexeme

theorem Writes.of_forms {keywords : Keywords} {known : String → Bool} {text text' : String}
    {trees : List TokenTree} (h : Writes keywords known text trees)
    (hforms : forms text'.toList = forms text.toList) : Writes keywords known text' trees :=
  ⟨by rw [hforms]; exact h.recognised, by rw [hforms]; exact h.grouped⟩

namespace TokenTree

variable {keywords : Keywords} {known known' : String → Bool}

/-- Trees that were there before the text only stand in front of its own ones. -/
theorem groupFrom_after (level : List TokenTree) {lexemes : List Lexeme} :
    ∀ (own : List (Bracket × List TokenTree)) (inner : List TokenTree),
      groupFrom keywords known (within [] level own) (levelWithin level own inner) lexemes =
        (groupFrom keywords known own inner lexemes).map (level ++ ·) := by
  -- By induction on the lexemes, for any groups that were opened on the level so far.
  induction lexemes with
  | nil =>
    intro own inner
    cases own with
    | nil => rfl
    | cons opened own => rfl
  | cons lexeme lexemes ih =>
    intro own inner
    rw [groupFrom, groupFrom]
    split
    · rfl
    · split
      · rename_i bracket _
        exact ih ((bracket, inner) :: own) []
      · cases own with
        | nil => rfl
        | cons opened own =>
          obtain ⟨opened, before⟩ := opened
          dsimp only [within]
          split
          · rw [levelWithin_append]
            exact ih _ _
          · rfl
      · dsimp only
        rw [levelWithin_append]
        exact ih _ _

/-- The tokens of a source that is joined to another one follow those of the other one. -/
theorem ofSource_newline {scope : Scope} {source : String} {trees : List TokenTree}
    (h : ofSource .c scope source = .ok trees) (happart : Comment.EndsApart source)
    (after : String) :
    ofSource .c scope (source ++ "\n" ++ after) = (ofSource .c scope after).map (trees ++ ·) := by
  obtain ⟨front, last, hfront, hlast, hafter⟩ := Comment.exists_strip_append happart
  have hwrites := writes_iff.mpr h
  rw [hfront] at hwrites
  have hwrites : Writes (scope.keywords .c) scope.knows (String.ofList front) trees := by
    refine hwrites.of_forms ?_
    have hrecognised := hwrites.recognised
    rw [String.toList_ofList] at hrecognised ⊢
    rw [String.toList_ofList]
    rcases hlast with rfl | rfl
    · rw [List.append_nil]
    · exact (forms_concat (by decide) hrecognised).symm
  have hfeed : Writes (scope.keywords .c) scope.knows "\n" [] := writes_gaps (by decide)
  have hline := hwrites.append hfeed (apart_of_right (by decide))
  have hapart : Apart (String.ofList front ++ "\n") (Comment.strip .c after) :=
    apart_append_left (apart_of_left (by decide)) (by decide)
  have hforms : forms (String.ofList front ++ "\n" ++ Comment.strip .c after).toList =
      forms (String.ofList front ++ "\n").toList ++ forms (Comment.strip .c after).toList := by
    rw [String.toList_append]
    exact forms_append hline.recognised hapart
  rw [ofSource, ofSource, hafter, ofText, ofText, ← groupFrom_forms, hforms, List.map_append,
    hline.grouped, List.append_nil, List.nil_append, ← groupFrom_forms]
  have hgroup := @groupFrom_after (scope.keywords .c) scope.knows trees
    ((forms (Comment.strip .c after).toList).map ofForm) [] []
  rwa [within, levelWithin, if_pos rfl, List.append_nil] at hgroup

/-! ### Classes in a scope that knows more -/

/-- The trees have the same items, up to added words. -/
def AreAlike (added : String → Prop) (trees trees' : List TokenTree) : Prop :=
  List.Forall₂ (Item.Alike added) (items Node.rolesOf trees) (items Node.rolesOf trees')

theorem AreAlike.append {added : String → Prop} {first first' second second' : List TokenTree}
    (h : AreAlike added first first') (h' : AreAlike added second second') :
    AreAlike added (first ++ second) (first' ++ second') := by
  unfold AreAlike at h h' ⊢
  rw [items_append, items_append]
  exact List.rel_append h h'

theorem areAlike_nil {added : String → Prop} : AreAlike added [] [] :=
  .nil

theorem AreAlike.group {added : String → Prop} {level level' : List TokenTree}
    (h : AreAlike added level level') (bracket : Bracket) :
    AreAlike added [.group bracket level] [.group bracket level'] :=
  .cons (.group _ _ h) .nil

/-- A word has the same class where more words are known, unless it is one of these. -/
theorem areAlike_leaf (hknown : ∀ word, known word = true → known' word = true) (kind : LexemeKind)
    (text : String) :
    AreAlike (fun word => known' word = true ∧ known word = false)
      [.leaf ⟨text, TokenClass.ofLexeme keywords known kind text⟩]
      [.leaf ⟨text, TokenClass.ofLexeme keywords known' kind text⟩] := by
  refine List.Forall₂.cons ?_ .nil
  show Item.Alike _
    (.token text (Node.rolesOf ⟨text, TokenClass.ofLexeme keywords known kind text⟩))
    (.token text (Node.rolesOf ⟨text, TokenClass.ofLexeme keywords known' kind text⟩))
  cases kind with
  | word =>
    unfold TokenClass.ofLexeme
    dsimp only
    -- Only a word that has become known can be of another class, and only in C.
    by_cases hmore : known' text = true ∧ known text = false
    · rw [hmore.1, hmore.2]
      by_cases hdialect : keywords.dialect = .c
      · simp only [hdialect, decide_true, Bool.true_and, Bool.false_eq_true, ↓reduceIte]
        split_ifs
        · exact .token _ _
        · exact .token _ _
        · show Item.Alike _ (.token text .unresolved) (.token text .typeName)
          exact .added hmore
      · rw [decide_eq_false hdialect]
        exact .token _ _
    · have hsame : known text = known' text := by
        cases hold : known text with
        | true => rw [hknown text hold]
        | false =>
          cases hnew : known' text with
          | true => exact absurd ⟨hnew, hold⟩ hmore
          | false => rfl
      rw [hsame]
      exact .token _ _
  | number => exact .token _ _
  | literal => exact .token _ _
  | opening => exact .token _ _
  | closing => exact .token _ _
  | symbol => exact .token _ _
  | unrecognised => exact .token _ _

/-- Where more words are known, a text is cut into the same trees, up to these words. -/
theorem groupFrom_alike (hknown : ∀ word, known word = true → known' word = true)
    {lexemes : List Lexeme} :
    ∀ {outer outer' : List (Bracket × List TokenTree)} {level level' trees : List TokenTree},
      List.Forall₂ (fun opened opened' => opened.1 = opened'.1 ∧
        AreAlike (fun word => known' word = true ∧ known word = false) opened.2 opened'.2) outer
          outer' →
      AreAlike (fun word => known' word = true ∧ known word = false) level level' →
      groupFrom keywords known outer level lexemes = .ok trees →
      ∃ trees', groupFrom keywords known' outer' level' lexemes = .ok trees' ∧
        AreAlike (fun word => known' word = true ∧ known word = false) trees trees' := by
  -- By induction on the lexemes, with the levels that are open alike one by one.
  induction lexemes with
  | nil =>
    intro outer outer' level level' trees houter hlevel h
    cases houter with
    | nil =>
      cases h
      exact ⟨level', rfl, hlevel⟩
    | cons _ _ => cases h
  | cons lexeme lexemes ih =>
    intro outer outer' level level' trees houter hlevel h
    rw [groupFrom] at h ⊢
    split at h
    · cases h
    · rename_i hkind
      rw [if_neg hkind]
      split at h
      · refine ih ?_ areAlike_nil h
        exact .cons ⟨rfl, hlevel⟩ houter
      · cases houter with
        | nil => cases h
        | @cons opened opened' outer outer' hopened houter =>
          obtain ⟨opened, before⟩ := opened
          obtain ⟨_, before'⟩ := opened'
          obtain ⟨rfl, hbefore⟩ := hopened
          dsimp only at h ⊢
          split at h
          · rename_i heq
            rw [if_pos heq]
            exact ih houter (hbefore.append (hlevel.group _)) h
          · cases h
      · exact ih houter (hlevel.append (areAlike_leaf hknown _ _)) h

/-- In a scope that has grown, a source is cut into the same trees, up to the words that are known
by now. -/
theorem ofSource_alike {scope later : Scope} {source : String} {trees : List TokenTree}
    (hsettings : later.settings = scope.settings)
    (hknown : ∀ word, scope.knows word = true → later.knows word = true)
    (h : ofSource .c scope source = .ok trees) :
    ∃ trees', ofSource .c later source = .ok trees' ∧
      AreAlike (fun word => later.knows word = true ∧ scope.knows word = false) trees trees' := by
  rw [ofSource, Scope.keywords, hsettings]
  exact groupFrom_alike hknown .nil areAlike_nil h

end TokenTree

end CommonDecl
