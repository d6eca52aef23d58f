import LatexMarkdown.Proofs.EscapedPasses
import LatexMarkdown.Proofs.PlainTable
import LatexMarkdown.Proofs.Run
import LatexMarkdown.Proofs.Shrinking

/-!
# Converting what was converted

An output in which backslashes only escape special signs has nothing left that a command
could be read from. A second conversion can still take it for a source: percent signs that
are not escaped start comments, dashes and quotation marks become entities, blanks are
brought into normal form once more. It changes nothing exactly if there is nothing of this
kind, and the first conversion does not see to that.
-/

namespace LatexMarkdown

open Scan

/-! ## The layout of a finished document -/

namespace Text

/-- No piece holds the separator. -/
theorem not_mem_of_mem_splitOn {separator : Char} {text piece : Text}
    (listed : piece ∈ splitOn separator text) : separator ∉ piece := by
  induction text generalizing piece with
  | nil =>
    rw [List.mem_singleton.mp listed]
    exact List.not_mem_nil
  | cons c rest inductionHypothesis =>
    rw [splitOn] at listed
    split at listed
    · rcases List.mem_cons.mp listed with rfl | later
      · exact List.not_mem_nil
      · exact inductionHypothesis later
    next different =>
      obtain ⟨first, others, split⟩ := List.exists_cons_of_ne_nil (splitOn_ne_nil separator rest)
      rw [split] at inductionHypothesis listed
      rcases List.mem_cons.mp listed with rfl | later
      · rw [List.mem_cons, not_or]
        exact ⟨Ne.symm different, inductionHypothesis (List.mem_cons_self ..)⟩
      · exact inductionHypothesis (List.mem_cons_of_mem first later)

/-- Pieces without the separator, joined by it, are split into the same pieces. -/
theorem splitOn_joinWith {separator : Char} {pieces : List Text} (nonempty : pieces ≠ [])
    (apart : ∀ piece ∈ pieces, separator ∉ piece) :
    splitOn separator (joinWith [separator] pieces) = pieces := by
  induction pieces with
  | nil => exact absurd rfl nonempty
  | cons piece others inductionHypothesis =>
    rw [List.forall_mem_cons] at apart
    cases others with
    | nil => exact splitOn_of_not_mem apart.1
    | cons next later =>
      rw [joinWith, List.append_assoc, List.singleton_append, splitOn_append_cons apart.1,
        inductionHypothesis (List.cons_ne_nil next later) apart.2]

/-- Where surplus blank lines were dropped there are none. -/
theorem dropSurplusBlankLines_idempotent (fenced afterBlank : Bool) (lines : List Text) :
    dropSurplusBlankLines fenced afterBlank (dropSurplusBlankLines fenced afterBlank lines) =
      dropSurplusBlankLines fenced afterBlank lines := by
  induction lines generalizing fenced afterBlank with
  | nil => rfl
  | cons line others inductionHypothesis =>
    rw [dropSurplusBlankLines]
    split
    next fence => rw [dropSurplusBlankLines, if_pos fence, inductionHypothesis]
    next fence =>
      split
      next blank =>
        split
        next surplus =>
          rw [surplus]
          exact inductionHypothesis fenced true
        next first =>
          rw [dropSurplusBlankLines, if_neg fence, if_pos blank, if_neg first,
            inductionHypothesis]
      next visible =>
        rw [dropSurplusBlankLines, if_neg fence, if_neg visible, inductionHypothesis]

/-- A finished document is blank only if the document was. -/
theorem isBlankText_finishLayout (text : Text) :
    isBlankText (finishLayout text) = isBlankText text := by
  refine Bool.eq_iff_iff.mpr ⟨fun finished => ?_, fun blank => ?_⟩
  · refine List.all_eq_true.mpr fun c member => ?_
    by_contra visible
    have unspaced : Unspaced [c] := List.forall_mem_singleton.mpr (Bool.eq_false_iff.mpr visible)
    have kept : [c] <:+: finishLayout text :=
      (infix_finishLayout_iff (List.cons_ne_nil c []) unspaced).mpr
        ((List.singleton_infix_iff c text).mpr member)
    exact visible (List.all_eq_true.mp finished c (kept.subset (List.mem_singleton_self c)))
  · rw [finishLayout, if_pos blank]
    rfl

/-- A finished document is not finished again. -/
theorem finishLayout_idempotent (text : Text) :
    finishLayout (finishLayout text) = finishLayout text := by
  by_cases blank : isBlankText text = true
  · rw [finishLayout, if_pos (isBlankText_finishLayout text ▸ blank), finishLayout, if_pos blank]
  · let kept := dropSurplusBlankLines false false (splitOn '\n' text)
    have finished : finishLayout text = joinWith ['\n'] kept := if_neg blank
    have visible : ¬ isBlankText (joinWith ['\n'] kept) = true := by
      rwa [← finished, isBlankText_finishLayout]
    have nonempty : kept ≠ [] := by
      intro empty
      rw [empty] at visible
      exact visible rfl
    have apart : ∀ line ∈ kept, '\n' ∉ line := fun line member =>
      not_mem_of_mem_splitOn ((dropSurplusBlankLines_sublist ..).subset member)
    rw [finished, finishLayout, if_neg visible, splitOn_joinWith nonempty apart,
      dropSurplusBlankLines_idempotent]

end Text

/-! ## Sources without commands -/

namespace Document

variable {source : Text}

/-- A text without commands and formulas goes through a conversion as it is, but for its
indentation, its blanks and its punctuation. -/
theorem runPasses_middle_of_escaped {text : Text} (escaped : Escaped ['$'] text)
    (options : Options) : runPasses middlePasses (.start options) text =
      (.start options, Text.normalizeBlanks
        (Symbol.replacePunctuation (Text.stripIndentation text))) := by
  have unindented := escaped.stripIndentation
  have punctuated := unindented.replacePunctuation (by decide)
  have numbered : (State.start options).number text = .start options :=
    State.number_of_escaped escaped _
  have protection : runPasses protectionPasses (.start options) text = (.start options, text) := by
    simp only [protectionPasses, runPasses, Pass.run, Link.protect_of_escaped escaped,
      Table.protect_of_escaped escaped, State.keepStore, Table.protectArrays_of_escaped escaped,
      Math.protect_of_escaped escaped]
  simp only [middlePasses, runPasses_append, preamble_of_escaped escaped, runPasses, Pass.run,
    numbered, protection, Numbering.resolveReferences_of_escaped escaped,
    structure_eq_stripIndentation escaped,
    Symbol.normalize_eq_replacePunctuation unindented punctuated]

/-- What is done to a text without commands and formulas after its punctuation was
replaced. -/
def afterPunctuation (text : Text) : Text :=
  Text.finishLayout (FragmentStore.empty.restore (Text.normalizeBlanks text))

/-- What a conversion makes of a text without commands and formulas once its comments are
gone. -/
def plainOutput (text : Text) : Text :=
  afterPunctuation (Symbol.replacePunctuation (Text.stripIndentation text))

/-- What is done after the punctuation only takes away. -/
theorem shrinks_afterPunctuation : Shrinks afterPunctuation :=
  (Text.shrinks_normalizeBlanks.comp FragmentStore.shrinks_restore_empty).comp
    Text.shrinks_finishLayout

/-- No percent sign comes in. -/
theorem count_percent_plainOutput_le (text : Text) :
    (plainOutput text).count '%' ≤ text.count '%' := by
  have unspaced : (' ' == '%') = false := by decide
  have before := Text.shrinks_stripIndentation.fewer (· == '%') unspaced text
  have after := shrinks_afterPunctuation.fewer (· == '%') unspaced
    (Symbol.replacePunctuation (Text.stripIndentation text))
  simp only [← List.count_eq_countP] at before after
  rw [Symbol.count_replacePunctuation (by decide)] at after
  exact after.trans before

/-- A text that comes back as it was has no punctuation, and its blanks are in normal
form: punctuation takes signs that nothing brings back, and what is taken away does not
come back either. -/
theorem normal_of_plainOutput_eq {text : Text} (same : plainOutput text = text) :
    (∀ entry ∈ Symbol.punctuation, ¬ entry.1 <:+: text) ∧ Text.normalizeBlanks text = text := by
  have unspaced : Symbol.isSign ' ' = false := by decide
  have before := Text.shrinks_stripIndentation.fewer _ unspaced text
  have after := shrinks_afterPunctuation.fewer _ unspaced
    (Symbol.replacePunctuation (Text.stripIndentation text))
  rw [plainOutput] at same
  rw [same] at after
  have unpunctuated := Symbol.unpunctuated_of_countP_le (before.trans after)
  have untouched := Symbol.replacePunctuation_of_unpunctuated unpunctuated
  rw [untouched] at same
  have unindented : Text.stripIndentation text = text :=
    Text.shrinks_stripIndentation.eq_of_comp_eq shrinks_afterPunctuation same
  rw [unindented] at unpunctuated same
  have later := FragmentStore.shrinks_restore_empty.comp Text.shrinks_finishLayout
  exact ⟨unpunctuated, Text.shrinks_normalizeBlanks.eq_of_comp_eq later same⟩

/-- A text that comes back as it was has no comments: a comment takes a percent sign with it,
and none comes back. -/
theorem stripComments_of_plainOutput_eq {text : Text} (escaped : Escaped ['$'] text)
    (same : plainOutput (Fragment.neutralize (Code.stripComments text)) = text) :
    Code.stripComments text = text := by
  refine (Code.stripComments_escaped escaped).2.resolve_right fun fewer => ?_
  have atMost := count_percent_plainOutput_le (Fragment.neutralize (Code.stripComments text))
  have neutralized : (Fragment.neutralize (Code.stripComments text)).count '%' =
      (Code.stripComments text).count '%' := count_replaceAll (by decide) (by decide) _
  rw [same, neutralized] at atMost
  exact absurd atMost (Nat.not_le.mpr fewer)

/-- Before the restoration a source without commands and formulas has lost its comments, its
openings of tokens are broken up, its punctuation is replaced and its blanks are in normal
form; nothing is stored. -/
theorem beforeRestoration_of_escaped (options : Options) (escaped : Escaped ['$'] source)
    (visible : Text.isBlankText source = false) :
    beforeRestoration options source = (.start options, Text.normalizeBlanks
      (Symbol.replacePunctuation (Text.stripIndentation
        (Fragment.neutralize (Code.stripComments source))))) := by
  have uncommented : Escaped ['$'] (Code.stripComments source) :=
    (Code.stripComments_escaped escaped).1.mono (List.subset_cons_self ..)
  have kept := uncommented.neutralize (by decide)
  have code : runPasses codePasses (.start options) source =
      (.start options, Fragment.neutralize (Code.stripComments source)) := by
    simp only [codePasses, runPasses, Pass.run, State.keepStore,
      Code.protect_of_lacks (kept.lacks (by decide))]
  rw [beforeRestoration, if_neg (Bool.eq_false_iff.mp visible), runPasses_append, code,
    runPasses_middle_of_escaped kept]

/-- What a conversion makes of a source without commands and formulas. -/
theorem run_of_escaped (options : Options) (escaped : Escaped ['$'] source)
    (visible : Text.isBlankText source = false) :
    (run options source).2 =
      plainOutput (Fragment.neutralize (Code.stripComments source)) := by
  have store : (State.start options).store = FragmentStore.empty := rfl
  rw [run_eq, beforeRestoration_of_escaped options escaped visible, store, plainOutput,
    afterPunctuation]

/-- Whether a second conversion changes an output without commands, formulas and openings of
tokens does not depend on the source or on any options. It changes nothing exactly if every
percent sign of the output is escaped, no punctuation in it has an entity, and its blanks are
in normal form already. -/
theorem convert_twice_eq_iff (options again : Options) (source : Text)
    (escaped : Escaped ['$'] (convert options source).output)
    (unopened : ¬ Fragment.tokenOpening <:+: (convert options source).output) :
    (convert again (convert options source).output).output = (convert options source).output ↔
      Escaped ['%'] (convert options source).output ∧
        (∀ entry ∈ Symbol.punctuation, ¬ entry.1 <:+: (convert options source).output) ∧
        Text.normalizeBlanks (convert options source).output =
          (convert options source).output := by
  have finished : Text.finishLayout (convert options source).output =
      (convert options source).output := by
    rw [convert, run_eq]
    exact Text.finishLayout_idempotent _
  generalize (convert options source).output = output at escaped unopened finished ⊢
  cases blank : Text.isBlankText output with
  | true =>
    -- A finished document that is blank is empty.
    rw [Text.finishLayout, if_pos blank] at finished
    subst finished
    have empty : (convert again []).output = [] := rfl
    exact iff_of_true empty ⟨.nil, by decide, rfl⟩
  | false =>
    have converted : (convert again output).output =
        plainOutput (Fragment.neutralize (Code.stripComments output)) :=
      run_of_escaped again escaped blank
    have neutral : Fragment.neutralize output = output := replaceAll_of_absent unopened _
    have uncommented := (Code.stripComments_escaped escaped).1
    rw [converted]
    constructor
    · intro same
      have kept : Code.stripComments output = output := stripComments_of_plainOutput_eq escaped same
      rw [kept] at uncommented
      rw [kept, neutral] at same
      obtain ⟨unpunctuated, normal⟩ := normal_of_plainOutput_eq same
      exact ⟨uncommented.mono (by decide), unpunctuated, normal⟩
    · rintro ⟨percent, unpunctuated, normal⟩
      have uncommented := Code.stripComments_of_escaped (List.mem_singleton_self '%') percent
      have unindented := Text.stripIndentation_of_normal normal
      rw [uncommented, neutral, plainOutput, unindented,
        Symbol.replacePunctuation_of_unpunctuated unpunctuated, afterPunctuation, normal,
        Fragment.restore_of_tokenFree (.of_absent unopened), finished]

/-- Entities, emphasis, headings and escaped signs in an output are converted to themselves. -/
theorem convert_twice_heading :
    let output := "**B** &ndash; 5\\% a\\_b\n\n# H\n".toList
    let source := "\\textbf\x7bB\x7d -- 5\\% a\\_b\\section\x7bH\x7d".toList
    (convert .standard source).output = output ∧
      (Escaped ['$'] output ∧ ¬ Fragment.tokenOpening <:+: output) ∧
      (convert .standard output).output = output := by
  intro output source
  have first : (convert .standard source).output = output := by decide +kernel
  have free : Escaped ['$'] output ∧ ¬ Fragment.tokenOpening <:+: output := by decide +kernel
  have twice := convert_twice_eq_iff .standard .standard source (by rw [first]; exact free.1)
    (by rw [first]; exact free.2)
  rw [first] at twice
  exact ⟨first, free, twice.mpr ⟨by decide +kernel, by decide +kernel, by decide +kernel⟩⟩

/-- A space of no width that is dropped between two hyphens leaves a dash for the second
conversion. -/
theorem convert_twice_hyphens :
    (convert .standard "a-\\!-b".toList).output = "a--b".toList ∧
      (convert .standard "a--b".toList).output = "a&ndash;b".toList := by
  constructor <;> decide +kernel

end Document

end LatexMarkdown
