import LatexMarkdown.Preamble.Metadata
import LatexMarkdown.Proofs.Editor
import LatexMarkdown.Proofs.Pieces
import LatexMarkdown.Proofs.Token

/-!
# What the title block shows

Of every part of the title block the last declaration counts. What it shows is
its argument without notes; row breaks and runs of blanks become single spaces.
The opening of a token has no such characters, so that a field shows it exactly
when its argument holds it.
-/

namespace LatexMarkdown

open Fragment

/-- The last argument that a command is used with, and the text without the
command. -/
def Scan.lastArgument (name : Text) (signature : Signature) (text : Text) : Option Text × Text :=
  editCommand name signature (fun _ arguments => (some (arguments.argument 0), some [])) none text

namespace Metadata

/-- The fields that are known. -/
def fields (metadata : Metadata) : List Text :=
  metadata.title.toList ++ metadata.author.toList ++ metadata.date.toList

/-- The argument of a declaration without notes. -/
def withoutNotes (argument : Text) : Text :=
  Scan.replaceCommand "thanks".toList ⟨true, 0, 1⟩ (fun _ => some []) argument

/-- Reading one field of the title block is reading the last argument of its
command. -/
theorem editCommand_field {α : Type} (name : Text) (signature : Scan.Signature)
    (set : α → Option Text → α) (read : Text → Option Text) (start : α)
    (overwrite : ∀ first second, set (set start first) second = set start second)
    (untouched : set start none = start) (text : Text) :
    Scan.editCommand name signature
        (fun found arguments => (set found (read (arguments.argument 0)), some [])) start text =
      (set start ((Scan.lastArgument name signature text).1.bind read),
        (Scan.lastArgument name signature text).2) := by
  let same (found : α) (last : Option Text) : Prop := found = set start (last.bind read)
  have agrees : Scan.Agrees same
      (fun found (arguments : Scan.Arguments) =>
        (set found (read (arguments.argument 0)), some ([] : Text)))
      (fun _ arguments => (some (arguments.argument 0), some [])) := by
    rintro found last arguments rfl
    exact ⟨overwrite _ _, rfl⟩
  obtain ⟨reached, written⟩ :=
    (Scan.Editor.command name signature).agrees agrees start none text untouched.symm
  exact Prod.ext reached written

/-- The arguments of the title, the authors and the date. -/
def declared (text : Text) : Option Text × Option Text × Option Text :=
  let title := Scan.lastArgument "title".toList ⟨true, 1, 1⟩ text
  let author := Scan.lastArgument "author".toList ⟨true, 1, 1⟩ title.2
  let date := Scan.lastArgument "date".toList ⟨true, 0, 1⟩ author.2
  (title.1, author.1, date.1)

/-- The title block is read from the last declarations. -/
theorem capture_eq (text : Text) : (empty.capture text).1 =
    ⟨(declared text).1.bind fun argument => nonempty? (cleanArgument argument),
      (declared text).2.1.bind readAuthors, (declared text).2.2.bind readDate⟩ := by
  have titles := editCommand_field "title".toList ⟨true, 1, 1⟩
    (fun (metadata : Metadata) title => { metadata with title })
    (fun argument => nonempty? (cleanArgument argument)) empty (fun _ _ => rfl) rfl
  have authors (title : Option Text) := editCommand_field "author".toList ⟨true, 1, 1⟩
    (fun (metadata : Metadata) author => { metadata with author }) readAuthors
    ⟨title, none, none⟩ (fun _ _ => rfl) rfl
  have dates (title author : Option Text) := editCommand_field "date".toList ⟨true, 0, 1⟩
    (fun (metadata : Metadata) date => { metadata with date }) readDate
    ⟨title, author, none⟩ (fun _ _ => rfl) rfl
  simp only [empty] at titles
  simp only [capture, empty, titles, authors, dates, declared]

/-- The argument of a declaration shows the opening of a token exactly when it
holds it beside its notes. -/
theorem opening_cleanArgument_iff (argument : Text) :
    tokenOpening <:+: cleanArgument argument ↔ tokenOpening <:+: withoutNotes argument := by
  have unspaced : Text.Unspaced tokenOpening := by decide
  rw [cleanArgument, Text.infix_collapseBlanks_iff tokenOpening_ne_nil unspaced,
    Text.infix_replaceAll_iff (by decide) (by decide) (by decide) (by decide), withoutNotes]

/-- A field that is left out when it is empty shows what its text shows. -/
theorem opening_nonempty_iff (text : Text) :
    (∃ field ∈ (nonempty? text).toList, tokenOpening <:+: field) ↔ tokenOpening <:+: text := by
  rw [nonempty?]
  cases text with
  | nil => simp [tokenOpening_ne_nil]
  | cons c rest => simp

/-- The authors show the opening of a token exactly when one of them does. -/
theorem opening_readAuthors_iff (argument : Text) :
    (∃ field ∈ (readAuthors argument).toList, tokenOpening <:+: field) ↔
      ∃ author ∈ Text.splitWhere afterAnd? argument, tokenOpening <:+: withoutNotes author := by
  rw [readAuthors, opening_nonempty_iff,
    Text.infix_joinWith_iff (by decide) (by decide) tokenOpening_ne_nil]
  simp only [List.mem_filter, List.mem_map]
  constructor
  · rintro ⟨_, ⟨⟨author, member, rfl⟩, -⟩, shown⟩
    exact ⟨author, member, (opening_cleanArgument_iff author).mp shown⟩
  · rintro ⟨author, member, held⟩
    have shown := (opening_cleanArgument_iff author).mpr held
    refine ⟨cleanArgument author, ⟨⟨author, member, rfl⟩, ?_⟩, shown⟩
    cases cleaned : cleanArgument author with
    | nil =>
      rw [cleaned] at shown
      exact absurd (List.eq_nil_of_infix_nil shown) tokenOpening_ne_nil
    | cons c rest => rfl

/-- The date shows the opening of a token exactly when its argument holds it; the
command for the present day does not. -/
theorem opening_readDate_iff (argument : Text) :
    (∃ field ∈ (readDate argument).toList, tokenOpening <:+: field) ↔
      tokenOpening <:+: withoutNotes argument := by
  rw [readDate, ← opening_cleanArgument_iff]
  split
  next today =>
    have absent : ¬ tokenOpening <:+: "\\today".toList := by decide
    rw [today]
    exact iff_of_false (by simp) absent
  · exact opening_nonempty_iff _

/-- The texts of the title block: the last title, all last authors and the last
date, without their notes. -/
def declaredTexts (text : Text) : List Text :=
  let (title, author, date) := declared text
  (title.toList ++ author.toList.flatMap (Text.splitWhere afterAnd?) ++ date.toList).map
    withoutNotes

/-- The title block shows the opening of a token exactly when one of its texts
holds it. -/
theorem opening_capture_iff (text : Text) :
    (∃ field ∈ (empty.capture text).1.fields, tokenOpening <:+: field) ↔
      ∃ part ∈ declaredTexts text, tokenOpening <:+: part := by
  rw [capture_eq, declaredTexts]
  obtain ⟨title, author, date⟩ := declared text
  have titles : (∃ field ∈ (title.bind fun argument => nonempty? (cleanArgument argument)).toList,
      tokenOpening <:+: field) ↔ ∃ argument ∈ title.toList,
        tokenOpening <:+: withoutNotes argument := by
    cases title with
    | none => simp
    | some argument =>
      simpa using (opening_nonempty_iff _).trans (opening_cleanArgument_iff argument)
  have authors : (∃ field ∈ (author.bind readAuthors).toList, tokenOpening <:+: field) ↔
      ∃ argument ∈ author.toList.flatMap (Text.splitWhere afterAnd?),
        tokenOpening <:+: withoutNotes argument := by
    cases author with
    | none => simp
    | some argument => simpa using opening_readAuthors_iff argument
  have dates : (∃ field ∈ (date.bind readDate).toList, tokenOpening <:+: field) ↔
      ∃ argument ∈ date.toList, tokenOpening <:+: withoutNotes argument := by
    cases date with
    | none => simp
    | some argument => simpa using opening_readDate_iff argument
  simp only [fields, List.mem_map, exists_exists_and_eq_and, List.mem_append, or_and_right,
    exists_or, titles, authors, dates]

end Metadata

end LatexMarkdown
