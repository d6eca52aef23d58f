import LatexMarkdown.Proofs.Pieces
import LatexMarkdown.Proofs.Run
import LatexMarkdown.Proofs.TitleBlock

/-!
# When a token leaks

Restoration is not repeated, and the title block is read while code is already
stored. What a conversion gives shows the opening of a token exactly when a text
of the title block holds it as it is read, when a restored piece holds it, or
when it is joined at a seam between restored pieces.
-/

namespace LatexMarkdown

open Fragment

/-- The text after the token at the start of a text. -/
def Fragment.afterToken? (text : Text) : Option Text :=
  (readToken text).map Prod.snd

/-- Two lists in turn, beginning with the first; what is left of the longer one
comes last. -/
def Text.interleave : List Text → List Text → List Text
  | first :: others, second :: further => first :: second :: interleave others further
  | [], further => further
  | others, [] => others

/-- A character in front of the first piece stands in front of all pieces in
turn. -/
theorem Text.flatten_interleave_keepInFirst (c : Char) (pieces between : List Text) :
    (interleave (keepInFirst c pieces) between).flatten =
      c :: (interleave pieces between).flatten := by
  cases pieces <;> cases between <;> simp [keepInFirst, interleave]

namespace FragmentStore

/-- The fragment with an index; nothing without one. -/
def fragmentAt (store : FragmentStore) (index : Option Nat) : Text :=
  (index.bind store.get?).getD []

/-- What restoration writes: the stretches of a text between its tokens, and in
turn the fragments of the tokens. -/
def pieces (store : FragmentStore) (text : Text) : List Text :=
  Text.interleave (Text.splitWhere afterToken? text) ((tokens text).map store.fragmentAt)

/-- Restoration from a position on writes the pieces from there on. -/
theorem restoreFrom_eq_flatten (store : FragmentStore) (cursor : Scan.Cursor) (covered : Nat)
    (text : Text) :
    (Scan.editFrom (fun (_ : Unit) _ suffix => ((), (readToken suffix).map fun (digits, rest) =>
      Scan.Edit.upTo suffix rest (store.fragmentOf digits))) () cursor covered text).2 =
      (Text.interleave (Text.splitWhereFrom afterToken? covered text)
        ((tokensFrom covered text).map store.fragmentAt)).flatten := by
  induction text generalizing cursor covered with
  | nil => cases covered <;> rfl
  | cons c rest inductionHypothesis =>
    cases covered with
    | succ covered => exact inductionHypothesis _ covered
    | zero =>
      rw [Scan.editFrom, Text.splitWhereFrom, tokensFrom, afterToken?]
      cases readToken (c :: rest) with
      | none =>
        simp only [Option.map_none]
        rw [Text.flatten_interleave_keepInFirst, ← inductionHypothesis (cursor.advance c) 0]
      | some token =>
        obtain ⟨digits, after⟩ := token
        have width : (c :: rest).length - after.length - 1 = rest.length - after.length := by
          rw [List.length_cons]
          omega
        simp only [Option.map_some, Scan.Edit.upTo, width, List.map_cons, Text.interleave,
          List.flatten_cons, List.nil_append]
        exact congrArg (store.fragmentOf digits ++ ·)
          (inductionHypothesis (cursor.advance c) (rest.length - after.length))

/-- Restoration writes the pieces of a text one after another. -/
theorem restore_eq_flatten (store : FragmentStore) (text : Text) :
    store.restore text = (store.pieces text).flatten :=
  store.restoreFrom_eq_flatten Scan.Cursor.start 0 text

end FragmentStore

namespace Document

/-- Only one pass reads the title block. -/
theorem Pass.metadata_run {pass : Pass} (other : pass ≠ .captureMetadata) (state : State)
    (text : Text) : (pass.run state text).1.metadata = state.metadata := by
  cases pass with
  | captureMetadata => exact absurd rfl other
  | protectCode => rw [run, State.keepStore]
  | protectLinks => rw [run, State.keepStore]
  | protectArrays => rw [run, State.keepStore]
  | protectFormulas => rw [run, State.keepStore]
  | numberKeys => rw [run, State.number, State.warn]
  | protectTables => simp only [run]
  | resolveReferences => simp only [run]
  | convertFormat => simp only [run, State.warn]
  | dropUnknown => simp only [run, State.warn]
  | _ => rfl

/-- Passes that do not read the title block keep what is known of it. -/
theorem metadata_runPasses {passes : List Pass} (others : .captureMetadata ∉ passes)
    (state : State) (text : Text) : (runPasses passes state text).1.metadata = state.metadata := by
  induction passes generalizing state text with
  | nil => rfl
  | cons pass further inductionHypothesis =>
    rw [List.mem_cons, not_or] at others
    rw [runPasses, inductionHypothesis others.2, Pass.metadata_run (Ne.symm others.1)]

/-- The texts of the title block as they are read, once code is stored. In a blank
document there are none. -/
def titleTexts (options : Options) (source : Text) : List Text :=
  if Text.isBlankText source then []
  else Metadata.declaredTexts (runPasses codePasses (.start options) source).2

/-- The title block shows the opening of a token exactly when one of its texts
holds it as it is read. -/
theorem opening_metadata_iff (options : Options) (source : Text) :
    (∃ field ∈ (convert options source).metadata.fields, tokenOpening <:+: field) ↔
      ∃ text ∈ titleTexts options source, tokenOpening <:+: text := by
  have metadata : (convert options source).metadata = (run options source).1.metadata := rfl
  rw [metadata, run, titleTexts]
  split
  · exact iff_of_false (by simp [State.start, Metadata.empty, Metadata.fields]) (by simp)
  · have split : conversionPasses =
        codePasses ++ .captureMetadata :: conversionPasses.drop (codePasses.length + 1) := rfl
    have unread : (runPasses codePasses (.start options) source).1.metadata = .empty :=
      metadata_runPasses (by decide) _ _
    have captured (state : State) (text : Text) :
        (Pass.captureMetadata.run state text).1.metadata = (state.metadata.capture text).1 := rfl
    rw [split, runPasses_append, runPasses, metadata_runPasses (by decide), captured, unread]
    exact Metadata.opening_capture_iff _

/-- What the restoration of a document writes. -/
def restoredPieces (options : Options) (source : Text) : List Text :=
  (beforeRestoration options source).1.store.pieces (beforeRestoration options source).2

/-- The output shows the opening of a token exactly when the restored pieces
do. -/
theorem infix_output_iff (options : Options) (source : Text) :
    tokenOpening <:+: (convert options source).output ↔
      tokenOpening <:+: (restoredPieces options source).flatten := by
  have output : (convert options source).output = (run options source).2 := rfl
  have nonempty : tokenOpening ≠ [] := tokenOpening_ne_nil
  have unspaced : Text.Unspaced tokenOpening := by decide
  rw [output, run_eq, Text.infix_finishLayout_iff nonempty unspaced,
    FragmentStore.restore_eq_flatten, restoredPieces]

/-- No token leaks exactly when no text of the title block holds the opening of
one as it is read, no restored piece holds it, and it is joined at no seam
between restored pieces. -/
theorem leaks_nowhere_iff (options : Options) (source : Text) :
    (¬ tokenOpening <:+: (convert options source).output ∧
        ∀ field ∈ (convert options source).metadata.fields, ¬ tokenOpening <:+: field) ↔
      (∀ text ∈ titleTexts options source, ¬ tokenOpening <:+: text) ∧
        (∀ piece ∈ restoredPieces options source, ¬ tokenOpening <:+: piece) ∧
        ∀ before after, restoredPieces options source = before ++ after →
          ¬ Text.Joins tokenOpening before.flatten after.flatten := by
  have output := not_congr ((infix_output_iff options source).trans
    (Text.infix_flatten_iff tokenOpening_ne_nil))
  have metadata := not_congr (opening_metadata_iff options source)
  simp only [not_or, not_exists, not_and] at output metadata
  rw [output, metadata, and_comm]

/-- The token of code inside a formula leaks into the output, and that of code
inside the title into the title. -/
theorem nested_code_leaks :
    tokenOpening <:+: (convert .standard "$\\verb|x|$".toList).output ∧
      ∃ title, (convert .standard "\\title\x7b\\verb|x|\x7da".toList).metadata.title = some title ∧
        tokenOpening <:+: title := by
  have output : (convert .standard "$\\verb|x|$".toList).output = "$@@BLOCK0@@$".toList := by
    decide +kernel
  have title : (convert .standard "\\title\x7b\\verb|x|\x7da".toList).metadata.title =
      some "@@BLOCK0@@".toList := by
    decide +kernel
  refine ⟨?_, "@@BLOCK0@@".toList, title, ?_⟩
  · rw [output]
    exact ⟨['$'], "0@@$".toList, rfl⟩
  · exact ⟨[], "0@@".toList, rfl⟩

end Document

end LatexMarkdown
