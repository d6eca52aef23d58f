import LatexMarkdown.Proofs.Isolation
import LatexMarkdown.Proofs.Leak
import LatexMarkdown.Proofs.SecondConversion

/-!
# Documents that leak no token

Whether a token leaks is decided by what is restored. Two kinds of sources are known to leak
none. Without commands and formulas nothing is stored: openings that the source spells are
broken up, and no pass over punctuation and blanks puts one together again. In a document of
words, formulas and code no fragment is taken over by another one, and every fragment starts
and ends with a sign that no opening has.
-/

namespace LatexMarkdown

open Fragment Scan

/-! ## Passes over punctuation and blanks -/

namespace Text

variable {pattern : Text}

/-- Spaces and tabs are apart from a pattern without blanks. -/
theorem Unspaced.apart {spaces : Text} (unspaced : Unspaced pattern)
    (spaced : ∀ c ∈ spaces, isSpaceOrTab c = true) : Apart spaces pattern :=
  fun c member => unspaced.not_mem (isBlank_of_isSpaceOrTab (spaced c member))

section Blanks

variable (nonempty : pattern ≠ []) (unspaced : Unspaced pattern)

include nonempty unspaced

/-- A change of lines that neither makes nor breaks an occurrence of a pattern in any of them
does not do so in a text. -/
theorem infix_mapLines_iff {change : Text → Text}
    (each : ∀ line, pattern <:+: change line ↔ pattern <:+: line) (text : Text) :
    pattern <:+: mapLines change text ↔ pattern <:+: text := by
  have unbroken : Apart ['\n'] pattern := apart_singleton (unspaced.not_mem (by decide))
  conv_rhs => rw [← joinWith_splitOn '\n' text]
  rw [mapLines, infix_joinWith_iff (by simp) unbroken nonempty,
    infix_joinWith_iff (by simp) unbroken nonempty]
  simp only [List.mem_map, exists_exists_and_eq_and, each]

theorem infix_stripIndentation_iff (text : Text) :
    pattern <:+: stripIndentation text ↔ pattern <:+: text := by
  refine infix_mapLines_iff nonempty unspaced (fun line => ?_) text
  rw [withoutIndentation]
  split
  · rfl
  · conv_rhs => rw [← List.takeWhile_append_dropWhile (p := isSpaceOrTab) (l := line)]
    exact (infix_append_left_iff (unspaced.apart fun _ => List.mem_takeWhile_imp)).symm

theorem infix_stripLineEnds_iff (text : Text) :
    pattern <:+: stripLineEnds text ↔ pattern <:+: text := by
  refine infix_mapLines_iff nonempty unspaced (fun line => ?_) text
  conv_rhs => rw [← List.rdropWhile_append_rtakeWhile (p := isSpaceOrTab) (l := line)]
  rw [dropTrailing_eq_rdropWhile]
  exact (infix_append_right_iff nonempty (unspaced.apart fun _ => List.mem_rtakeWhile_imp)).symm

omit nonempty in
theorem infix_squeezeSpaces_iff (text : Text) :
    pattern <:+: squeezeSpaces text ↔ pattern <:+: text := by
  refine infix_editAhead_iff (fun suffix edit offered => ?_) text
  cases suffix with
  | nil => simp at offered
  | cons c rest =>
    simp only [Option.ite_none_right_eq_some, Bool.and_eq_true, decide_eq_true_eq,
      Option.some.injEq] at offered
    obtain ⟨⟨-, long⟩, rfl⟩ := offered
    have whole : rest.takeWhile isSpaceOrTab ++ rest.dropWhile isSpaceOrTab = rest :=
      List.takeWhile_append_dropWhile
    have width := congrArg List.length whole
    rw [List.length_append] at width
    refine ⟨[c], rest.takeWhile isSpaceOrTab, [' '], rest.dropWhile isSpaceOrTab, ?_, ?_,
      ⟨?_, unspaced.apart fun _ => List.mem_takeWhile_imp⟩, List.cons_ne_nil _ _,
      apart_singleton (unspaced.not_mem (by decide))⟩
    · rw [List.singleton_append, List.cons_append, whole]
    · simp only [Edit.upTo, List.length_cons, Edit.mk.injEq]
      exact ⟨by omega, rfl⟩
    · exact List.ne_nil_of_length_pos (by omega)

omit nonempty in
theorem infix_squeezeLineBreaks_iff (text : Text) :
    pattern <:+: squeezeLineBreaks text ↔ pattern <:+: text := by
  have unbroken : '\n' ∉ pattern := unspaced.not_mem (by decide)
  refine infix_editAhead_iff (fun suffix edit offered => ?_) text
  simp only [Option.ite_none_right_eq_some, Option.some.injEq] at offered
  obtain ⟨long, rfl⟩ := offered
  have whole : suffix.takeWhile (· = '\n') ++ suffix.dropWhile (· = '\n') = suffix :=
    List.takeWhile_append_dropWhile
  have width := congrArg List.length whole
  rw [List.length_append] at width
  refine ⟨[], suffix.takeWhile (· = '\n'), ['\n', '\n'], suffix.dropWhile (· = '\n'), whole.symm,
    ?_, ⟨?_, fun c member => ?_⟩, List.cons_ne_nil _ _, ?_⟩
  · simp only [Edit.upTo, Edit.mk.injEq]
    exact ⟨by omega, rfl⟩
  · exact List.ne_nil_of_length_pos (by omega)
  · have same := List.mem_takeWhile_imp member
    rw [decide_eq_true_iff] at same
    exact same ▸ unbroken
  · exact List.forall_mem_cons.mpr ⟨unbroken, List.forall_mem_singleton.mpr unbroken⟩

/-- Bringing blanks into normal form neither makes nor breaks an occurrence of a pattern
without blanks. -/
theorem infix_normalizeBlanks_iff (text : Text) :
    pattern <:+: normalizeBlanks text ↔ pattern <:+: text := by
  rw [normalizeBlanks, infix_squeezeLineBreaks_iff unspaced, infix_squeezeSpaces_iff unspaced,
    infix_stripLineEnds_iff nonempty unspaced, infix_stripIndentation_iff nonempty unspaced]

end Blanks

end Text

/-- Replacing punctuation neither makes nor breaks an opening. -/
theorem Symbol.opening_replacePunctuation_iff (text : Text) :
    tokenOpening <:+: replacePunctuation text ↔ tokenOpening <:+: text := by
  have apart : ∀ entry ∈ punctuation, (entry.1 ≠ [] ∧ entry.2 ≠ []) ∧
      Text.Apart entry.1 tokenOpening ∧ Text.Apart entry.2 tokenOpening := by decide
  refine replacePunctuation_induction (motive := fun other => tokenOpening <:+: other ↔
    tokenOpening <:+: text) Iff.rfl fun entry listed other same => ?_
  obtain ⟨filled, first, second⟩ := apart entry listed
  exact (Text.infix_replaceAll_iff filled.1 filled.2 first second other).trans same

namespace Document

/-! ## The condition on what is restored -/

/-- No text of the title block holds the opening of a token as it is read, no restored piece
holds it, and it is joined at no seam between restored pieces. -/
def RestoresCleanly (options : Options) (source : Text) : Prop :=
  (∀ text ∈ titleTexts options source, ¬ tokenOpening <:+: text) ∧
    (∀ piece ∈ restoredPieces options source, ¬ tokenOpening <:+: piece) ∧
    ∀ before after, restoredPieces options source = before ++ after →
      ¬ Text.Joins tokenOpening before.flatten after.flatten

/-- A document without a title block, whose finished text shows no opening, restores
cleanly. -/
theorem restoresCleanly_of_run {options : Options} {source : Text}
    (untitled : (run options source).1.metadata = .empty)
    (unopened : ¬ tokenOpening <:+: (run options source).2) : RestoresCleanly options source := by
  have metadata : (convert options source).metadata = .empty := untitled
  have fields : (convert options source).metadata.fields = [] := by
    rw [metadata]
    rfl
  have titles := not_congr (opening_metadata_iff options source)
  have pieces := (infix_output_iff options source).trans
    (Text.infix_flatten_iff tokenOpening_ne_nil)
  have output : ¬ tokenOpening <:+: (convert options source).output := unopened
  rw [pieces] at output
  simp only [fields, List.not_mem_nil, false_and, exists_false, not_false_eq_true, true_iff,
    not_exists, not_and] at titles
  simp only [not_or, not_exists, not_and] at output
  exact ⟨titles, output⟩

/-! ## Sources without commands and formulas -/

/-- A source without commands and formulas leaks no token, whatever openings it spells. -/
theorem restoresCleanly_of_escaped (options : Options) {source : Text}
    (escaped : Escaped ['$'] source) : RestoresCleanly options source := by
  cases blank : Text.isBlankText source with
  | true =>
    have finished : run options source = (.start options, []) := by rw [run, if_pos blank]
    have nothing : ¬ tokenOpening <:+: [] := by decide
    exact restoresCleanly_of_run (by rw [finished]; rfl) (by rwa [finished])
  | false =>
    have unspaced : Text.Unspaced tokenOpening := by decide
    have before := beforeRestoration_of_escaped options escaped blank
    have unopened : ¬ tokenOpening <:+: (beforeRestoration options source).2 := by
      rw [before, Text.infix_normalizeBlanks_iff tokenOpening_ne_nil unspaced,
        Symbol.opening_replacePunctuation_iff,
        Text.infix_stripIndentation_iff tokenOpening_ne_nil unspaced]
      exact not_opening_neutralize _
    refine restoresCleanly_of_run ?_ ?_
    · rw [run_eq, before]
      rfl
    · rw [run_eq, Text.infix_finishLayout_iff tokenOpening_ne_nil unspaced,
        restore_of_tokenFree (.of_absent unopened)]
      exact unopened

/-! ## Words, formulas and code -/

/-- Escaping a text for HTML neither makes nor breaks an opening. -/
theorem opening_escapeHtml_iff (text : Text) :
    tokenOpening <:+: Text.escapeHtml text ↔ tokenOpening <:+: text := by
  refine Text.infix_flatMap_iff (by decide) (fun c absent => ?_) text
  rw [Text.escapedCharacter]
  repeat' split
  all_goals first
    | decide
    | exact ⟨List.cons_ne_nil _ _, Text.apart_singleton absent⟩

namespace Alternation

/-- The output of an inset without openings joins none to what stands around it. -/
theorem not_opening_around {inset : Inset} (wellFormed : inset.WellFormed)
    {before after : Text} (left : ¬ tokenOpening <:+: before) (right : ¬ tokenOpening <:+: after) :
    ¬ tokenOpening <:+: before ++ (inset.output ++ after) := by
  cases inset with
  | formula body =>
    have inside : ¬ tokenOpening <:+: Text.trim body := fun occurs =>
      Text.not_infix_of_not_mem (wellFormed.2 '@' (by decide))
        (occurs.trans ((Text.trimEnd_front _).isInfix.trans (List.dropWhile_suffix _).isInfix))
    have dollar : '$' ∉ tokenOpening := by decide
    have spelled : before ++ ((Inset.formula body).output ++ after) =
        before ++ '$' :: (Text.trim body ++ '$' :: after) := by
      simp [Inset.formula_output]
    rw [spelled]
    exact Text.not_infix_append_cons dollar left (Text.not_infix_append_cons dollar inside right)
  | code body =>
    have inside : ¬ tokenOpening <:+: Text.escapeHtml body := by
      rw [opening_escapeHtml_iff]
      exact wellFormed.2.2.1
    have opening : Text.Apart "<code>".toList tokenOpening := by decide
    have closing : Text.Apart "</code>".toList tokenOpening := by decide
    have spelled : before ++ ((Inset.code body).output ++ after) =
        before ++ "<code>".toList ++ (Text.escapeHtml body ++ "</code>".toList ++ after) := by
      simp [Inset.code_output]
    rw [spelled, Text.infix_around_iff (by decide) opening,
      Text.infix_around_iff (by decide) closing]
    exact not_or.mpr ⟨left, not_or.mpr ⟨inside, right⟩⟩

/-- The output of a document of words and insets shows no opening. -/
theorem not_opening_write {text : Text} (words : IsWordText text) {later : List (Inset × Text)}
    (insets : ∀ inset ∈ later.map Prod.fst, inset.WellFormed)
    (texts : ∀ text ∈ later.map Prod.snd, IsWordText text) :
    ¬ tokenOpening <:+: text ++ writeLater Inset.output later := by
  have unsigned {text : Text} (words : IsWordText text) : ¬ tokenOpening <:+: text :=
    Text.not_infix_of_not_mem (words.not_mem (by decide))
  induction later generalizing text with
  | nil => simpa using unsigned words
  | cons first others inductionHypothesis =>
    obtain ⟨inset, after⟩ := first
    simp only [List.map_cons, List.forall_mem_cons] at insets texts
    rw [writeLater_cons]
    exact not_opening_around insets.1 (unsigned words)
      (inductionHypothesis texts.1 insets.2 texts.2)

/-- A document of words, formulas and code leaks no token. -/
theorem WellFormed.restoresCleanly {document : Alternation} (wellFormed : document.WellFormed)
    (options : Options) : RestoresCleanly options document.source := by
  obtain ⟨reached, finished⟩ := wellFormed.run_source options
  refine restoresCleanly_of_run (by rw [finished]; rfl) ?_
  rw [finished, output]
  exact not_opening_write wellFormed.first_words
    (fun inset listed => wellFormed.insets inset listed) wellFormed.later_words

end Alternation

end Document

end LatexMarkdown
