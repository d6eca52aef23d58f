import LatexMarkdown.Document.Convert
import LatexMarkdown.Proofs.Absent
import LatexMarkdown.Proofs.Rendering

/-!
# Passes over a text without their commands

The passes up to the storing of links act only where one of their commands is
spelled. A text that spells none of them is left as it is, and so is the state.
-/

namespace LatexMarkdown

open Scan

variable {text : Text}

/-- A fold whose steps over the listed items change nothing changes nothing. -/
theorem foldl_fixed_of_mem {α β : Type} {step : α → β → α} {state : α} (items : List β)
    (fixed : ∀ item ∈ items, step state item = state) : items.foldl step state = state := by
  induction items with
  | nil => rfl
  | cons item others inductionHypothesis =>
    rw [List.foldl_cons, fixed item (List.mem_cons_self ..)]
    exact inductionHypothesis fun other member => fixed other (List.mem_cons_of_mem item member)

/-- A text that spells none of some commands. -/
def Lacks (names : List Text) (text : Text) : Prop :=
  ∀ name ∈ names, ¬ ('\\' :: name) <:+: text

instance (names : List Text) (text : Text) : Decidable (Lacks names text) :=
  List.decidableBAll (fun name => ¬ ('\\' :: name) <:+: text) names

theorem Lacks.mono {names fewer : List Text} (lacks : Lacks names text) (within : fewer ⊆ names) :
    Lacks fewer text :=
  fun name listed => lacks name (within listed)

/-! ## Comments and code -/

/-- A line without percent signs has no comment, wherever inline code ends in it. -/
theorem Code.beforeComment_of_absent {line : Text} (percent : '%' ∉ line) (covered : Nat) :
    beforeComment covered line = line := by
  induction line generalizing covered with
  | nil => cases covered <;> rfl
  | cons c rest inductionHypothesis =>
    rw [List.mem_cons, not_or] at percent
    cases covered with
    | succ covered => rw [beforeComment, inductionHypothesis percent.2]
    | zero =>
      rw [beforeComment, if_neg (Ne.symm percent.1)]
      simp only [inductionHypothesis percent.2, ite_self]

/-- Lines without percent signs have no comments, in code blocks and outside of them. -/
theorem Code.stripCommentLines_of_absent {lines : List Text} (percent : ∀ line ∈ lines, '%' ∉ line)
    (awaited : Option Text) : stripCommentLines awaited lines = lines := by
  induction lines generalizing awaited with
  | nil => cases awaited <;> rfl
  | cons line others inductionHypothesis =>
    rw [List.forall_mem_cons] at percent
    cases awaited with
    | some closing => rw [stripCommentLines, inductionHypothesis percent.2]
    | none =>
      rw [stripCommentLines]
      split
      · rw [inductionHypothesis percent.2]
      · rw [beforeComment_of_absent percent.1, inductionHypothesis percent.2]

/-- A text without percent signs has no comments. -/
theorem Code.stripComments_of_absent (percent : '%' ∉ text) : stripComments text = text := by
  have whole := Text.flatten_linesWithBreaks text
  have apart : ∀ line ∈ Text.linesWithBreaks text, '%' ∉ line := by
    intro line listed member
    exact percent (whole ▸ List.mem_flatten.mpr ⟨line, listed, member⟩)
  rw [stripComments, stripCommentLines_of_absent apart, whole]

theorem Code.inlineRule_startsAt {σ : Type} (name : Text) (listing : Bool)
    (answer : σ → Text → σ × Text) :
    (inlineRule name listing answer).StartsAt ('\\' :: name) := by
  intro state cursor suffix absent
  have unread : readInline name listing suffix = none := by
    rw [readInline, afterCommand?_of_absent absent]
    rfl
  simp only [inlineRule, unread, ite_self]

/-- A text without the opening marker has no environment to store. -/
theorem FragmentStore.protectEnvironment_of_absent {name : Text}
    (absent : ¬ beginMarker name <:+: text) (store : FragmentStore) (maxOptions required : Nat)
    (answer : Environment → Option Text) :
    store.protectEnvironment name maxOptions required answer text = (store, text) := by
  rw [protectEnvironment, editEnvironment_of_absent absent]

/-- What stands behind the backslash of all commands of code. -/
def Code.names : List Text :=
  families.map (fun family => "begin".toList ++ '{' :: family.name.toList ++ ['}']) ++
    ["verb".toList, "lstinline".toList]

/-- A text without the commands of code has none. -/
theorem Code.protect_of_lacks (lacks : Lacks names text) (options : Options)
    (store : FragmentStore) : protect options store text = (store, text) := by
  have inline (name : Text) (listing : Bool) (listed : name ∈ ["verb".toList, "lstinline".toList]) :
      editInline name listing storeInline store text = (store, text) :=
    (inlineRule_startsAt name listing storeInline).edit_eq
      (lacks name (List.mem_append_right _ listed)) store
  rw [protect, foldl_fixed_of_mem families]
  · simp only [inline "verb".toList false (by decide), inline "lstinline".toList true (by decide)]
  · intro family listed
    refine FragmentStore.protectEnvironment_of_absent ?_ ..
    exact lacks _ (List.mem_append_left _ (List.mem_map.mpr ⟨family, listed, rfl⟩))

/-! ## The preamble -/

/-- A text without the commands of a title block has none. -/
theorem Metadata.capture_of_absent (title : ¬ '\\' :: "title".toList <:+: text)
    (author : ¬ '\\' :: "author".toList <:+: text) (date : ¬ '\\' :: "date".toList <:+: text)
    (metadata : Metadata) : metadata.capture text = (metadata, text) := by
  simp only [capture, editCommand_of_absent title, editCommand_of_absent author,
    editCommand_of_absent date]

/-- A text that does not ask for the title block gets none. -/
theorem Metadata.expandTitle_of_absent (absent : ¬ '\\' :: "maketitle".toList <:+: text)
    (metadata : Metadata) (preview : Bool) : metadata.expandTitle preview text = text :=
  replaceCommand_of_absent absent _ _

/-- A text without the commands of colours defines none. -/
theorem Preamble.captureColors_of_absent (define : ¬ '\\' :: "definecolor".toList <:+: text)
    (copy : ¬ '\\' :: "colorlet".toList <:+: text) (colors : ColorTable) :
    captureColors colors text = (colors, text) := by
  simp only [captureColors, editCommand_of_absent define, editCommand_of_absent copy]

/-- A text without their command defines no theorem-like environments. -/
theorem Preamble.captureTheorems_of_absent (absent : ¬ '\\' :: "newtheorem".toList <:+: text)
    (theorems : KeyedList Text) : captureTheorems theorems text = (theorems, text) := by
  refine Rule.StartsAt.edit_eq ?_ absent theorems
  intro state cursor suffix unstarted
  have unread : readTheorem suffix = none := by
    have unnamed : Text.dropFront? "\\newtheorem".toList suffix = none :=
      Text.dropFront?_eq_none_iff.mpr unstarted
    rw [readTheorem, unnamed]
    rfl
  simp only [unread]

/-- A pattern splits no text without it. -/
theorem splitFirst?_of_absent {pattern : Text} (absent : ¬ pattern <:+: text)
    (nonempty : pattern ≠ []) : Text.splitFirst? pattern text = none := by
  induction text with
  | nil => cases pattern <;> trivial
  | cons c rest inductionHypothesis =>
    rw [List.infix_cons_iff, not_or] at absent
    rw [Text.splitFirst?, Text.dropFront?_eq_none_iff.mpr absent.1, inductionHypothesis absent.2]
    rfl

/-- A text without the markers of the document is all body. -/
theorem Preamble.documentBody_of_absent (opening : ¬ beginMarker "document".toList <:+: text)
    (closing : ¬ endMarker "document".toList <:+: text) : documentBody text = text := by
  rw [documentBody, splitFirst?_of_absent opening (by decide)]
  simp only [splitFirst?_of_absent closing (by decide)]

/-- The names of the commands that define or declare something. -/
def Preamble.declaringNames : List Text :=
  definingCommands.map Prod.fst ++ ["setlength".toList, "addtolength".toList] ++
    declarations.map fun declaration => declaration.name.toList

/-- A text without definitions and declarations keeps all it has. -/
theorem Preamble.stripDeclarations_of_absent (lacks : Lacks declaringNames text) :
    stripDeclarations text = text := by
  have definitions : ∀ item ∈ definingCommands, stripDefinitions item.1 item.2 text = text := by
    rintro ⟨name, shape⟩ listed
    have absent : ¬ '\\' :: name <:+: text := by
      refine lacks name (List.mem_append_left _ (List.mem_append_left _ ?_))
      exact List.mem_map.mpr ⟨_, listed, rfl⟩
    rw [stripDefinitions, Rule.StartsAt.edit_eq _ absent]
    intro state cursor suffix unstarted
    simp only [afterCommand?_of_absent unstarted]
    split <;> rfl
  have settings : Scan.substitute readLengthSetting text = text := by
    refine editAhead_of_silent fun suffix within _ => ?_
    have unnamed {name : Text} (listed : name ∈ declaringNames) :
        Text.dropFront? ('\\' :: name) suffix = none :=
      Text.dropFront?_eq_none_iff.mpr fun start =>
        lacks name listed (start.isInfix.trans within.isInfix)
    have set : Text.dropFront? "\\setlength".toList suffix = none := unnamed (by decide)
    have add : Text.dropFront? "\\addtolength".toList suffix = none := unnamed (by decide)
    simp only [readLengthSetting, afterOneOf?, List.findSome?, set, add]
    rfl
  have declared : ∀ declaration ∈ declarations, replaceCommand declaration.name.toList
      ⟨true, declaration.maxOptions, declaration.required⟩ (fun _ => some []) text = text := by
    intro declaration listed
    refine replaceCommand_of_absent (lacks _ (List.mem_append_right _ ?_)) _ _
    exact List.mem_map.mpr ⟨_, listed, rfl⟩
  rw [stripDeclarations, foldl_fixed_of_mem definingCommands definitions]
  simp only [settings]
  exact foldl_fixed_of_mem declarations declared

/-! ## Keys -/

/-- A text without a command has no keys of it. -/
theorem Numbering.keysFrom_of_absent {pattern : Text} {read : Text → Option (Text × Text)}
    (reads : ∀ suffix, ¬ pattern <+: suffix → read suffix = none) (absent : ¬ pattern <:+: text)
    (before : Text) : keysFrom read before 0 text = [] := by
  induction text generalizing before with
  | nil => rfl
  | cons c rest inductionHypothesis =>
    rw [List.infix_cons_iff, not_or] at absent
    rw [keysFrom, reads _ absent.1]
    exact inductionHypothesis absent.2 (c :: before)

/-- A text without bibliography items has no keys of them. -/
theorem Numbering.itemKeys_of_absent (absent : ¬ '\\' :: "bibitem".toList <:+: text) :
    itemKeys text = [] := by
  rw [itemKeys, keysFrom_of_absent (fun suffix unstarted => by
    have unnamed : Text.dropFront? "\\bibitem".toList suffix = none :=
      Text.dropFront?_eq_none_iff.mpr unstarted
    rw [readItem, unnamed]
    rfl) absent []]
  rfl

/-- A text without keys has none to number. -/
theorem Numbering.scan_of_absent (label : ¬ '\\' :: "label".toList <:+: text)
    (item : ¬ '\\' :: "bibitem".toList <:+: text) : scan text = Numbers.empty := by
  have labels : labelKeys text = [] := keysFrom_of_absent (fun suffix unstarted => by
    have unnamed : Text.dropFront? "\\label".toList suffix = none :=
      Text.dropFront?_eq_none_iff.mpr unstarted
    rw [readLabel, unnamed]
    rfl) label []
  rw [scan, labels, itemKeys_of_absent item]
  rfl

/-! ## Links -/

/-- A text without the commands of links and images has none. -/
theorem Link.protect_of_absent (url : ¬ '\\' :: "url".toList <:+: text)
    (href : ¬ '\\' :: "href".toList <:+: text)
    (image : ¬ '\\' :: "includegraphics".toList <:+: text) (preview : Bool)
    (store : FragmentStore) : protect preview store text = (store, text) := by
  simp only [protect, editCommand_of_absent url, editCommand_of_absent href,
    editCommand_of_absent image]

/-! ## Symbols -/

/-- What replacing each punctuation keeps is kept by replacing all of them. -/
theorem Symbol.replacePunctuation_induction {motive : Text → Prop} (start : motive text)
    (step : ∀ entry ∈ punctuation, ∀ text, motive text → motive (replaceAll entry.1 entry.2 text)) :
    motive (replacePunctuation text) :=
  List.foldlRecOn punctuation _ start fun text kept entry listed => step entry listed text kept

/-! ## A run of passes -/

namespace Document

/-- Nothing is reported. -/
@[simp] theorem State.warn_nil (state : State) : state.warn [] = state := by
  simp [State.warn]

/-- The names of all commands that the passes over the preamble and the numbering
of keys act on. -/
def preambleNames : List Text :=
  ["title".toList, "author".toList, "date".toList, "definecolor".toList, "colorlet".toList,
    "newtheorem".toList, "begin\x7bdocument\x7d".toList, "end\x7bdocument\x7d".toList,
    "maketitle".toList, "label".toList, "bibitem".toList] ++ Preamble.declaringNames

/-- Those of them that the passes over the preamble act on. -/
def openingNames : List Text :=
  ["title".toList, "author".toList, "date".toList, "definecolor".toList, "colorlet".toList,
    "newtheorem".toList, "begin\x7bdocument\x7d".toList, "end\x7bdocument\x7d".toList,
    "maketitle".toList] ++ Preamble.declaringNames

/-- A text that lacks the commands of the preamble has no title block and no
definitions, whatever labels it has. -/
theorem preamble_of_lacks_opening (lacks : Lacks openingNames text) (state : State) :
    runPasses preamblePasses state text = (state, text) := by
  have declarations : Lacks Preamble.declaringNames text :=
    lacks.mono (List.subset_append_right _ _)
  have opening := (List.forall_mem_append.mp lacks).1
  simp only [List.forall_mem_cons] at opening
  obtain ⟨title, author, date, define, copy, declares, begins, ends, asks, -⟩ := opening
  simp only [preamblePasses, runPasses, Pass.run, Metadata.capture_of_absent title author date,
    Preamble.captureColors_of_absent define copy, Preamble.captureTheorems_of_absent declares,
    Preamble.documentBody_of_absent begins ends,
    Preamble.stripDeclarations_of_absent declarations, Metadata.expandTitle_of_absent asks]

/-- A text that lacks the commands of the preamble has no title block and no
definitions. -/
theorem preamble_of_lacks (lacks : Lacks preambleNames text) (state : State) :
    runPasses preamblePasses state text = (state, text) := by
  refine preamble_of_lacks_opening (lacks.mono (List.append_subset.mpr ⟨?_, ?_⟩)) state
  · decide
  · exact List.subset_append_right _ _

/-- A text without keys makes the registries empty. -/
theorem State.number_of_lacks (lacks : Lacks preambleNames text) (state : State) :
    state.number text = { state with labels := .empty, citations := .empty } := by
  have label : ¬ '\\' :: "label".toList <:+: text := lacks _ (by decide)
  have item : ¬ '\\' :: "bibitem".toList <:+: text := lacks _ (by decide)
  rw [State.number, Numbering.scan_of_absent label item]
  exact State.warn_nil _

end Document

end LatexMarkdown
