import LatexMarkdown.Code.Verbatim
import LatexMarkdown.Proofs.Layout
import LatexMarkdown.Text.Blank

/-!
# Texts with insets

A document that alternates between words and insets, each inset an inline
formula or inline code. The words are letters with single spaces; what stands
inside an inset is almost free.
-/

namespace LatexMarkdown

namespace Scan.Cursor

/-- A text without a backslash does not escape what follows it. -/
theorem advanceOver_escaped {text : Text} (plain : '\\' ∉ text) {cursor : Cursor}
    (free : cursor.escaped = false) : (cursor.advanceOver text).escaped = false := by
  induction text generalizing cursor with
  | nil => exact free
  | cons c rest inductionHypothesis =>
    rw [List.mem_cons, not_or] at plain
    refine inductionHypothesis plain.2 ?_
    simp [advance, escapesNext, Ne.symm plain.1]

/-- A text that does not end with a backslash does not escape what follows it. -/
theorem advanceOver_concat_escaped (cursor : Cursor) (text : Text) {c : Char}
    (different : c ≠ '\\') : (cursor.advanceOver (text ++ [c])).escaped = false := by
  rw [advanceOver, List.foldl_append]
  simp [advance, escapesNext, different]

end Scan.Cursor

namespace Document

/-- What stands between two words: a formula between dollars, or code between
bars. -/
inductive Inset where
  | formula (body : Text)
  | code (body : Text)
  deriving DecidableEq, Repr

namespace Inset

/-- What is written inside. -/
def body : Inset → Text
  | formula body | code body => body

/-- The inset as the source spells it. -/
def source : Inset → Text
  | formula body => '$' :: body ++ ['$']
  | code body => "\\verb|".toList ++ body ++ ['|']

/-- The inset as the output shows it. -/
def output : Inset → Text
  | formula body => '$' :: Text.trim body ++ ['$']
  | code body => "<code>".toList ++ Text.escapeHtml body ++ "</code>".toList

theorem formula_source (body : Text) : (formula body).source = '$' :: (body ++ ['$']) :=
  rfl

theorem code_source (body : Text) :
    (code body).source = ['\\', 'v', 'e', 'r', 'b'] ++ '|' :: (body ++ ['|']) :=
  rfl

/-- A formula in the source, its closing dollar before what follows. -/
theorem source_formula_append (body rest : Text) :
    (formula body).source ++ rest = '$' :: (body ++ '$' :: rest) := by
  simp [formula_source]

/-- Code in the source, its closing bar before what follows. -/
theorem source_code_append (body rest : Text) :
    (code body).source ++ rest = ['\\', 'v', 'e', 'r', 'b'] ++ '|' :: (body ++ '|' :: rest) := by
  simp [code_source]

/-- An inset has characters in the source. -/
theorem source_ne_nil (inset : Inset) : inset.source ≠ [] := by
  cases inset <;> exact List.cons_ne_nil _ _

/-- How an environment opens, up to its name. -/
def environmentOpening : Text :=
  "\\begin".toList ++ ['{']

/-- A formula is not blank and has no backslash, dollar, percent sign, at sign or
line break. Code has no bar and no line break, and opens neither a token nor an
environment. -/
def WellFormed : Inset → Prop
  | formula body =>
    Text.isBlankText body = false ∧ ∀ c ∈ "\\$%@\n".toList, c ∉ body
  | code body =>
    '|' ∉ body ∧ '\n' ∉ body ∧ ¬ Fragment.tokenOpening <:+: body ∧
      ¬ environmentOpening <:+: body

instance : (inset : Inset) → Decidable inset.WellFormed
  | formula body =>
    @instDecidableAnd _ _ inferInstance (List.decidableBAll (· ∉ body) "\\$%@\n".toList)
  | code _ => inferInstanceAs (Decidable (_ ∧ _ ∧ _ ∧ _))

theorem formula_output (body : Text) :
    (formula body).output = '$' :: (Text.trim body ++ ['$']) :=
  rfl

theorem code_output (body : Text) : (code body).output =
    ['<', 'c', 'o', 'd', 'e', '>'] ++
      (Text.escapeHtml body ++ ['<', '/', 'c', 'o', 'd', 'e', '>']) :=
  rfl

/-- The source of an inset starts with a character that is not blank. -/
theorem source_visible (inset : Inset) :
    ∃ c rest, inset.source = c :: rest ∧ Text.isBlank c = false := by
  cases inset with
  | formula body => exact ⟨'$', _, formula_source body, by decide⟩
  | code body => exact ⟨'\\', _, code_source body, by decide⟩

/-- The output of an inset starts with a character that is not blank. -/
theorem output_visible (inset : Inset) :
    ∃ c rest, inset.output = c :: rest ∧ Text.isBlank c = false := by
  cases inset with
  | formula body => exact ⟨'$', _, formula_output body, by decide⟩
  | code body => exact ⟨'<', _, code_output body, by decide⟩

/-- Of the characters that are in no escaped form, escaping brings in none. -/
theorem mem_of_mem_escapeHtml {c : Char} (foreign : c ∉ "&amp;&lt;&gt;&quot;".toList) {text : Text}
    (member : c ∈ Text.escapeHtml text) : c ∈ text := by
  obtain ⟨d, inside, escaped⟩ := List.mem_flatMap.mp member
  have forms : ∀ form ∈ ["&amp;", "&lt;", "&gt;", "&quot;"].map String.toList,
      ∀ c ∈ form, c ∈ "&amp;&lt;&gt;&quot;".toList := by decide
  simp only [List.map_cons, List.map_nil, List.forall_mem_cons] at forms
  rw [Text.escapedCharacter] at escaped
  split at escaped
  · exact absurd (forms.1 c escaped) foreign
  split at escaped
  · exact absurd (forms.2.1 c escaped) foreign
  split at escaped
  · exact absurd (forms.2.2.1 c escaped) foreign
  split at escaped
  · exact absurd (forms.2.2.2.1 c escaped) foreign
  · rwa [List.mem_singleton.mp escaped]

/-- The source of a well-formed inset lies in a line. -/
theorem WellFormed.source_single {inset : Inset} (wellFormed : inset.WellFormed) :
    '\n' ∉ inset.source := by
  cases inset with
  | formula body => simpa [formula_source] using wellFormed.2 '\n' (by decide)
  | code body => simpa [code_source] using wellFormed.2.1

/-- The output of a well-formed inset lies in a line. -/
theorem WellFormed.output_single {inset : Inset} (wellFormed : inset.WellFormed) :
    '\n' ∉ inset.output := by
  cases inset with
  | formula body =>
    have trimmed : '\n' ∉ Text.trim body := fun member =>
      wellFormed.2 '\n' (by decide)
        ((List.dropWhile_suffix _).subset ((Text.trimEnd_front _).subset member))
    rw [formula_output]
    simpa using trimmed
  | code body =>
    have escaped : '\n' ∉ Text.escapeHtml body := fun member =>
      wellFormed.2.1 (mem_of_mem_escapeHtml (by decide) member)
    rw [code_output]
    simpa using escaped

end Inset

/-- A text, then insets with a text after each. -/
structure Alternation where
  first : Text
  later : List (Inset × Text)
  deriving DecidableEq, Repr

namespace Alternation

/-- The insets with the texts after them, each inset written in some way. -/
def writeLater (write : Inset → Text) (later : List (Inset × Text)) : Text :=
  later.flatMap fun (inset, text) => write inset ++ text

@[simp] theorem writeLater_nil (write : Inset → Text) : writeLater write [] = [] :=
  rfl

@[simp] theorem writeLater_cons (write : Inset → Text) (inset : Inset) (text : Text)
    (later : List (Inset × Text)) :
    writeLater write ((inset, text) :: later) =
      write inset ++ (text ++ writeLater write later) := by
  simp [writeLater]

/-- The document as the source spells it. -/
def source (document : Alternation) : Text :=
  document.first ++ writeLater Inset.source document.later

/-- The document as the output shows it. -/
def output (document : Alternation) : Text :=
  document.first ++ writeLater Inset.output document.later

/-- The texts around the insets. -/
def texts (document : Alternation) : List Text :=
  document.first :: document.later.map Prod.snd

/-- A letter of ASCII or a space. -/
def IsWordText (text : Text) : Prop :=
  (∀ c ∈ text, c.isAlpha = true ∨ c = ' ') ∧ ¬ [' ', ' '] <:+: text

instance (text : Text) : Decidable (IsWordText text) :=
  @instDecidableAnd _ _ (List.decidableBAll (fun c => c.isAlpha = true ∨ c = ' ') text)
    inferInstance

/-- The texts are letters and single spaces, those between two insets are not
empty, and the document neither starts nor ends with a space. -/
structure WellFormed (document : Alternation) : Prop where
  words : ∀ text ∈ document.texts, IsWordText text
  insets : ∀ inset ∈ document.later.map Prod.fst, inset.WellFormed
  separated : ∀ text ∈ (document.later.map Prod.snd).dropLast, text ≠ []
  start : document.source.head? ≠ some ' '
  ending : document.source.getLast? ≠ some ' '

/-- Insets with texts after them, each inset standing in the document as some
text. -/
inductive Woven (stands : Inset → Text → Prop) : List (Inset × Text) → Text → Prop
  | done : Woven stands [] []
  | next {inset : Inset} {text written rest : Text} {later : List (Inset × Text)}
      (here : stands inset written) (behind : Woven stands later rest) :
      Woven stands ((inset, text) :: later) (written ++ (text ++ rest))

namespace Woven

/-- The written insets with their texts are woven. -/
theorem of_write (write : Inset → Text) (later : List (Inset × Text)) :
    Woven (fun inset written => written = write inset) later (writeLater write later) := by
  induction later with
  | nil => exact .done
  | cons first others inductionHypothesis =>
    rw [writeLater_cons]
    exact .next rfl inductionHypothesis

/-- What holds of all characters of the insets and of the texts holds of all
characters of the document. -/
theorem forall_mem {stands : Inset → Text → Prop} {condition : Char → Prop}
    {later : List (Inset × Text)} {written : Text} (woven : Woven stands later written)
    (insets : ∀ inset ∈ later.map Prod.fst, ∀ written, stands inset written →
      ∀ c ∈ written, condition c)
    (texts : ∀ text ∈ later.map Prod.snd, ∀ c ∈ text, condition c) :
    ∀ c ∈ written, condition c := by
  induction woven with
  | done => simp
  | next here _ inductionHypothesis =>
    simp only [List.map_cons, List.forall_mem_cons] at insets texts
    intro c member
    rcases List.mem_append.mp member with inside | behind
    · exact insets.1 _ here c inside
    rcases List.mem_append.mp behind with inside | behind
    · exact texts.1 c inside
    · exact inductionHypothesis insets.2 texts.2 c behind

end Woven

end Alternation

end Document

end LatexMarkdown
