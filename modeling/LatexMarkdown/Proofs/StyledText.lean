import LatexMarkdown.Inline.Format
import LatexMarkdown.Proofs.Braces
import LatexMarkdown.Proofs.Matches
import LatexMarkdown.Proofs.NestedTheorem
import LatexMarkdown.Proofs.Plain

/-!
# Texts with nested styles

The commands for styles are converted one after the other, each in a pass of its own over the
text that the passes before have left. A text in which commands are nested is here a tree. It
is written with some of its commands converted; a pass converts the uses of one more command.
So what a sequence of passes leaves depends on which commands it converts and not on their
order, as long as no piece that is written can be read as the start of a command.
-/

namespace LatexMarkdown

open Scan

/-! ## What a style writes around a text -/

namespace Style

/-- What a style writes in front of a text and behind it. -/
def around : Style → Text × Text
  | bold => ("**".toList, "**".toList)
  | italic => (['*'], ['*'])
  | underline => element "u"
  | monospace => element "code"
  | sansSerif => styled (Html.property "font-family" "sans-serif".toList)
  | smallCaps => styled (Html.property "font-variant" "small-caps".toList)
  | strike => element "del"
  | superscript => element "sup"
  | subscript => element "sub"
  | plain => ([], [])
where
  element (tag : String) : Text × Text :=
    ('<' :: (tag.toList ++ ['>']), "</".toList ++ (tag.toList ++ ['>']))
  styled (style : Text) : Text × Text :=
    (Html.openStyled "span" style, "</".toList ++ ("span".toList ++ ['>']))

theorem element_eq (tag : String) (content : Text) :
    Html.element tag content =
      (around.element tag).1 ++ (content ++ (around.element tag).2) := by
  simp only [Html.element, around.element, List.cons_append, List.append_assoc, List.nil_append]

theorem styled_eq (style content : Text) :
    Html.styled "span" style content =
      (around.styled style).1 ++ (content ++ (around.styled style).2) := by
  rw [Html.styled, List.append_assoc, List.append_assoc, List.append_assoc]
  rfl

/-- A text that is not blank is trimmed and put between the two. -/
theorem wrap_eq (style : Style) {text : Text} (visible : Text.trim text ≠ []) :
    style.wrap text = style.around.1 ++ (Text.trim text ++ style.around.2) := by
  simp only [wrap]
  rw [if_neg (mt List.isEmpty_iff.mp visible)]
  cases style with
  | plain => exact (List.append_nil _).symm
  | italic => rfl
  | bold => exact List.append_assoc ..
  | sansSerif | smallCaps => exact styled_eq ..
  | underline | monospace | strike | superscript | subscript => exact element_eq ..

/-- Nothing that a style writes is read as a command or a brace. -/
theorem isArgument_around (style : Style) :
    IsArgument style.around.1 ∧ IsArgument style.around.2 := by
  cases style <;> decide

end Style

/-- A text starts and ends with characters that are not blank. -/
structure IsVisible (text : Text) : Prop where
  first : ∃ c, text.head? = some c ∧ Text.isBlank c = false
  last : ∃ c, text.getLast? = some c ∧ Text.isBlank c = false

namespace IsVisible

variable {text before after : Text} (visible : IsVisible text)

include visible

theorem ne_nil : text ≠ [] := by
  rintro rfl
  obtain ⟨c, head, -⟩ := visible.first
  cases head

/-- Blanks around a visible text are trimmed. -/
theorem trim_eq (blank : ∀ c ∈ before ++ after, Text.isBlank c = true) :
    Text.trim (before ++ (text ++ after)) = text := by
  obtain ⟨first, head, startsVisible⟩ := visible.first
  obtain ⟨last, final, endsVisible⟩ := visible.last
  obtain ⟨front, behind⟩ := List.forall_mem_append.mp blank
  have start : Text.trimStart before = [] := List.dropWhile_eq_nil_iff.mpr front
  have ending : Text.trimEnd after = [] := by
    rw [Text.trimEnd_eq, Text.trimStart, List.dropWhile_eq_nil_iff.mpr fun c member =>
      behind c (List.mem_reverse.mp member)]
    rfl
  rw [Text.trim_between head final ⟨startsVisible, endsVisible⟩, start, ending, List.append_nil,
    List.nil_append]

/-- A style puts its marks close around a visible text. -/
theorem wrap_eq (style : Style) (blank : ∀ c ∈ before ++ after, Text.isBlank c = true) :
    style.wrap (before ++ (text ++ after)) = style.around.1 ++ (text ++ style.around.2) := by
  have trimmed := visible.trim_eq blank
  have nonempty : Text.trim (before ++ (text ++ after)) ≠ [] := trimmed.symm ▸ visible.ne_nil
  rw [style.wrap_eq nonempty, trimmed]

/-- With its marks the text is still visible. -/
theorem around (style : Style) : IsVisible (style.around.1 ++ (text ++ style.around.2)) := by
  have marks : style.around.1.head?.all (! Text.isBlank ·) = true ∧
      style.around.2.getLast?.all (! Text.isBlank ·) = true := by
    cases style <;> decide
  constructor
  · cases head : style.around.1.head? with
    | none =>
      rw [List.head?_eq_none_iff.mp head, List.nil_append,
        List.head?_append_of_ne_nil _ visible.ne_nil]
      exact visible.first
    | some c =>
      refine ⟨c, ?_, by simpa [head] using marks.1⟩
      rw [List.head?_append, head]
      rfl
  · rw [← List.append_assoc]
    cases final : style.around.2.getLast? with
    | none =>
      rw [List.getLast?_eq_none_iff.mp final, List.append_nil,
        List.getLast?_append_of_ne_nil _ visible.ne_nil]
      exact visible.last
    | some c =>
      refine ⟨c, ?_, by simpa [final] using marks.2⟩
      rw [List.getLast?_append, final]
      rfl

end IsVisible

namespace Inline

/-! ## Passes -/

/-- One pass: convert the uses of one command. -/
def stylePass (name : Text) (style : Style) (text : Text) : Text :=
  replaceCommand name ⟨true, 0, 1⟩ (fun arguments => some (style.wrap (arguments.argument 0))) text

/-- The passes for the commands of a table, in its order. -/
def stylePasses (order : KeyedList Style) (text : Text) : Text :=
  order.foldl (fun text (name, style) => stylePass name style text) text

theorem convertStyles_eq (text : Text) : convertStyles text = stylePasses Style.commands text :=
  rfl

/-- A name belongs to one style. -/
theorem style_unique : ∀ first ∈ Style.commands, ∀ second ∈ Style.commands,
    first.1 = second.1 → first = second := by
  decide +kernel

/-- The names of the commands are spelled with letters. -/
theorem letters_of_command : ∀ entry ∈ Style.commands,
    entry.1 ≠ [] ∧ ∀ c ∈ entry.1, c.isAlpha = true := by
  decide +kernel

/-! ## Texts as trees -/

/-- A text as its commands are nested in it: a character in front of what follows it, or the
use of a command. Between its name and its brace there is a lead, and in the braces a content
between blanks. -/
inductive Styled where
  | nil
  | char (c : Char) (rest : Styled)
  | use (name : Text) (style : Style) (lead before : Text) (content : Styled) (after : Text)
      (rest : Styled)

namespace Styled

/-- The text of a tree in which the commands of some names are converted. -/
def write (done : Text → Bool) : Styled → Text
  | nil => []
  | char c rest => c :: rest.write done
  | use name style lead before content after rest =>
    (if done name then style.wrap (content.write done)
      else '\\' :: (name ++ (lead ++ '{' ::
        (before ++ (content.write done ++ (after ++ ['}'])))))) ++ rest.write done

/-- The text of a tree in which nothing is converted. -/
def source (tree : Styled) : Text :=
  tree.write fun _ => false

/-- The first thing in a tree is a command or a visible character. -/
def StartsVisible : Styled → Prop
  | nil => False
  | char c _ => Text.isBlank c = false
  | use .. => True

/-- The last thing in a tree is a command or a visible character. -/
def EndsVisible : Styled → Prop
  | nil => False
  | char c nil => Text.isBlank c = false
  | use _ _ _ _ _ _ nil => True
  | char _ rest | use _ _ _ _ _ _ rest => rest.EndsVisible

/-- The last thing in a tree is the last thing behind its first character. -/
theorem endsVisible_char {c : Char} {rest : Styled} (more : rest ≠ nil) :
    (char c rest).EndsVisible ↔ rest.EndsVisible := by
  cases rest with
  | nil => exact absurd rfl more
  | char | use => exact Iff.rfl

theorem endsVisible_use {name lead before after : Text} {style : Style} {content rest : Styled}
    (more : rest ≠ nil) :
    (use name style lead before content after rest).EndsVisible ↔ rest.EndsVisible := by
  cases rest with
  | nil => exact absurd rfl more
  | char | use => exact Iff.rfl

/-- What stands between the name of a command and its brace: perhaps a star, and a gap. -/
def IsLead (lead : Text) : Prop :=
  ∃ star gap, lead = star ++ gap ∧ star ∈ [[], ['*']] ∧ Text.IsGap gap

/-- A tree is settled between a position that is escaped or not and another one: it has the
uses of commands as nodes, and no other piece of it can be read as the start of a command,
whichever of the nodes are converted and whatever follows of what may follow. -/
inductive Settled : (follows : Text → Prop) → (starts : Bool) → Styled → (ends : Bool) → Prop
  | nil {follows : Text → Prop} {escaped : Bool} : Settled follows escaped .nil escaped
  | char {follows : Text → Prop} {escaped ends : Bool} {c : Char} {rest : Styled}
      (silent : escaped = false → c = '\\' → ∀ done behind, follows behind →
        ∀ entry ∈ Style.commands,
          afterCommand? entry.1 ('\\' :: (rest.write done ++ behind)) = none)
      (more : Settled follows (escapesNext escaped c) rest ends) :
      Settled follows escaped (.char c rest) ends
  | use {follows : Text → Prop} {ends : Bool} {name : Text} {style : Style}
      {lead before after : Text} {content rest : Styled}
      (listed : (name, style) ∈ Style.commands) (leads : IsLead lead)
      (blank : ∀ c ∈ before ++ after, Text.isBlank c = true)
      (starts : content.StartsVisible) (stops : content.EndsVisible)
      (balanced : braceDepth 0 false content.source = some 0)
      (inside : Settled (fun _ => True) false content false)
      (more : Settled follows false rest ends) :
      Settled follows false (.use name style lead before content after rest) ends

/-! ## What is written -/

section Write

variable {done : Text → Bool} {name lead before after : Text} {style : Style}
  {content rest : Styled}

@[simp] theorem write_char (c : Char) : (char c rest).write done = c :: rest.write done :=
  rfl

theorem write_converted (converted : done name = true) :
    (use name style lead before content after rest).write done =
      style.wrap (content.write done) ++ rest.write done := by
  rw [write, if_pos converted]

theorem write_unconverted (unconverted : done name = false) :
    (use name style lead before content after rest).write done = '\\' :: (name ++ (lead ++ '{' ::
      ((before ++ (content.write done ++ after)) ++ '}' :: rest.write done))) := by
  rw [write, unconverted, if_neg Bool.false_ne_true]
  simp

/-- The use of a command is written by itself, whatever follows it. -/
theorem write_use : (use name style lead before content after rest).write done =
    (use name style lead before content after nil).write done ++ rest.write done := by
  simp only [write, List.append_nil]

/-- A visible content is styled without the blanks around it. -/
theorem write_styled (visible : IsVisible (content.write done)) (converted : done name = true) :
    (use name style lead before content after rest).write done =
      style.around.1 ++ (content.write done ++ (style.around.2 ++ rest.write done)) := by
  have wrapped : style.wrap (content.write done) =
      style.around.1 ++ (content.write done ++ style.around.2) := by
    have nothing : ∀ c ∈ ([] ++ [] : Text), Text.isBlank c = true := List.forall_mem_nil _
    have wrapped := visible.wrap_eq style nothing
    rwa [List.nil_append, List.append_nil] at wrapped
  rw [write_converted converted, wrapped, List.append_assoc, List.append_assoc]

theorem write_unconverted_nil (unconverted : done name = false) :
    (use name style lead before content after nil).write done = '\\' :: (name ++ (lead ++ '{' ::
      (before ++ (content.write done ++ after)))) ++ ['}'] := by
  rw [write_unconverted unconverted]
  simp [write]

theorem isVisible_use (visible : IsVisible (content.write done)) :
    IsVisible ((use name style lead before content after nil).write done) := by
  cases converted : done name with
  | true =>
    rw [write_styled visible converted]
    simpa [write] using visible.around style
  | false =>
    rw [write_unconverted_nil converted]
    exact ⟨⟨'\\', rfl, by decide⟩, '}', List.getLast?_concat, by decide⟩

/-- A tree with visible ends is written as a visible text. -/
theorem Settled.visible {follows : Text → Prop} {escaped ends : Bool} {tree : Styled}
    (settled : Settled follows escaped tree ends) (done : Text → Bool) :
    (tree.StartsVisible → ∃ c, (tree.write done).head? = some c ∧ Text.isBlank c = false) ∧
      (tree.EndsVisible → ∃ c, (tree.write done).getLast? = some c ∧ Text.isBlank c = false) := by
  induction settled with
  | nil => exact ⟨False.elim, False.elim⟩
  | @char _ _ _ c rest _ _ inductionHypothesis =>
    refine ⟨fun visible => ⟨c, rfl, visible⟩, fun visible => ?_⟩
    rcases eq_or_ne rest Styled.nil with rfl | more
    · exact ⟨c, rfl, visible⟩
    · obtain ⟨d, final, shown⟩ := inductionHypothesis.2 ((endsVisible_char more).mp visible)
      exact ⟨d, by rw [write_char, List.getLast?_cons, final]; rfl, shown⟩
  | @use _ _ name style lead before after content rest _ _ _ starts stops _ _ _ contentHypothesis
      restHypothesis =>
    have visible : IsVisible (content.write done) :=
      ⟨contentHypothesis.1 starts, contentHypothesis.2 stops⟩
    have piece : IsVisible ((Styled.use name style lead before content after .nil).write done) :=
      isVisible_use visible
    rw [write_use]
    refine ⟨fun _ => ?_, fun visible => ?_⟩
    · rw [List.head?_append_of_ne_nil _ piece.ne_nil]
      exact piece.first
    · rcases eq_or_ne rest Styled.nil with rfl | more
      · simpa [write] using piece.last
      · obtain ⟨c, final, shown⟩ := restHypothesis.2 ((endsVisible_use more).mp visible)
        exact ⟨c, by rw [List.getLast?_append, final]; rfl, shown⟩

theorem Settled.isVisible {follows : Text → Prop} {escaped ends : Bool} {tree : Styled}
    (settled : Settled follows escaped tree ends) (starts : tree.StartsVisible)
    (stops : tree.EndsVisible) (done : Text → Bool) : IsVisible (tree.write done) :=
  ⟨(settled.visible done).1 starts, (settled.visible done).2 stops⟩

/-- Where a tree ends it is escaped as it says, however it is written. -/
theorem Settled.escapesAfter_eq {follows : Text → Prop} {escaped ends : Bool} {tree : Styled}
    (settled : Settled follows escaped tree ends) (done : Text → Bool) :
    escapesAfter escaped (tree.write done) = ends := by
  induction settled with
  | nil => rfl
  | char _ _ inductionHypothesis => exact inductionHypothesis
  | @use _ _ name style lead before after content rest _ _ _ starts stops _ inside _
      contentHypothesis restHypothesis =>
    have marks := style.isArgument_around
    cases converted : done name with
    | true =>
      rw [write_styled (inside.isVisible starts stops done) converted, escapesAfter_append,
        escapesAfter_append, escapesAfter_append, escapesAfter_of_plain marks.1.plain,
        contentHypothesis, escapesAfter_of_plain marks.2.plain, restHypothesis]
    | false =>
      have piece : escapesAfter false
          ((Styled.use name style lead before content after .nil).write done) = false := by
        rw [write_unconverted_nil converted]
        exact escapesAfter_concat (by decide) false _
      rw [write_use, escapesAfter_append, piece, restHypothesis]

/-- Characters of a kind without a backslash and without braces are an argument. -/
theorem isArgument_of_forall {text : Text} {kind : Char → Bool} (all : ∀ c ∈ text, kind c = true)
    (foreign : ∀ sign ∈ ['\\', '{', '}'], kind sign = false) : IsArgument text := by
  intro c inside member
  have here := all c inside
  rw [foreign c member] at here
  cases here

theorem isArgument_of_isBlank {blanks : Text} (blank : ∀ c ∈ blanks, Text.isBlank c = true) :
    IsArgument blanks :=
  isArgument_of_forall blank (by decide)

theorem isArgument_of_letters {word : Text} (letters : ∀ c ∈ word, c.isAlpha = true) :
    IsArgument word :=
  isArgument_of_forall letters (by decide)

theorem IsLead.isArgument (leads : IsLead lead) : IsArgument lead := by
  obtain ⟨star, gap, rfl, starred, gapped⟩ := leads
  have starArgument : ∀ star ∈ [[], ['*']], IsArgument star := by decide
  exact List.forall_mem_append.mpr ⟨starArgument star starred,
    isArgument_of_isBlank fun c member => Text.isBlank_of_isGap (gapped c member)⟩

theorem isArgument_name (listed : (name, style) ∈ Style.commands) : IsArgument name :=
  isArgument_of_letters (letters_of_command _ listed).2

/-- Blanks around a content, which escapes nothing, change neither its braces nor that. -/
theorem braceDepth_padded (blank : ∀ c ∈ before ++ after, Text.isBlank c = true) {inner : Text}
    (free : escapesAfter false inner = false) :
    braceDepth 0 false (before ++ (inner ++ after)) = braceDepth 0 false inner ∧
      escapesAfter false (before ++ (inner ++ after)) = false := by
  obtain ⟨front, behind⟩ := List.forall_mem_append.mp blank
  have isBefore := isArgument_of_isBlank front
  have isAfter := isArgument_of_isBlank behind
  constructor
  · have passed (depth : Nat) : braceDepth depth (escapesAfter false inner) after = some depth := by
      rw [free, braceDepth_of_isArgument isAfter]
    rw [braceDepth_argument isBefore, braceDepth_append]
    simp only [passed, Option.bind_fun_some]
  · rw [escapesAfter_append, escapesAfter_append, escapesAfter_of_plain isBefore.plain, free,
      escapesAfter_of_plain isAfter.plain]

/-- A command is passed at any depth, with an argument whose braces balance. -/
theorem braceDepth_command (listed : (name, style) ∈ Style.commands) (leads : IsLead lead)
    {argument : Text} (balanced : braceDepth 0 false argument = some 0)
    (free : escapesAfter false argument = false) (depth : Nat) (behind : Text) :
    braceDepth depth false ('\\' :: (name ++ (lead ++ '{' :: (argument ++ '}' :: behind)))) =
      braceDepth depth false behind := by
  have isName := isArgument_name listed
  obtain ⟨letter, letters, rfl⟩ := List.exists_cons_of_ne_nil (letters_of_command _ listed).1
  have escaped (text : Text) : braceDepth depth false ('\\' :: (letter :: (letters ++ text))) =
      braceDepth depth false (letters ++ text) := by
    have step : braceStep depth false '\\' = some depth := rfl
    rw [braceDepth, step, Option.bind_some, braceDepth]
    exact congrArg (braceDepth depth · (letters ++ text)) (escapesNext_true letter)
  have opening (text : Text) :
      braceDepth depth false ('{' :: text) = braceDepth (depth + 1) false text := rfl
  have closing (text : Text) :
      braceDepth (depth + 1) false ('}' :: text) = braceDepth depth false text := rfl
  rw [List.cons_append, escaped, braceDepth_argument (List.forall_mem_cons.mp isName).2,
    braceDepth_argument leads.isArgument, opening, braceDepth_balanced balanced free, closing]

/-- The braces around a content that balances balance, whether the use is converted or not. -/
theorem braceDepth_use (listed : (name, style) ∈ Style.commands) (leads : IsLead lead)
    (blank : ∀ c ∈ before ++ after, Text.isBlank c = true)
    (visible : IsVisible (content.write done))
    (balanced : braceDepth 0 false (content.write done) = some 0)
    (free : escapesAfter false (content.write done) = false) :
    braceDepth 0 false ((use name style lead before content after nil).write done) = some 0 := by
  cases converted : done name with
  | true =>
    have marks := style.isArgument_around
    rw [write_styled visible converted, braceDepth_argument marks.1,
      braceDepth_balanced balanced free, braceDepth_argument marks.2]
    rfl
  | false =>
    have padded := braceDepth_padded blank free
    rw [write_unconverted converted, braceDepth_command listed leads (padded.1.trans balanced)
      padded.2]
    rfl

/-- However a tree is written, its braces go as deep as in its source. -/
theorem Settled.braceDepth_eq {follows : Text → Prop} {escaped ends : Bool} {tree : Styled}
    (settled : Settled follows escaped tree ends) {depth next : Nat}
    (walks : braceDepth depth escaped tree.source = some next) (done : Text → Bool) :
    braceDepth depth escaped (tree.write done) = some next := by
  induction settled generalizing depth next done with
  | nil => exact walks
  | char _ _ inductionHypothesis =>
    obtain ⟨middle, step, behind⟩ := Option.bind_eq_some_iff.mp walks
    rw [write_char, braceDepth, step]
    exact inductionHypothesis behind done
  | @use _ _ name style lead before after content rest listed leads blank starts stops balanced
      inside _ contentHypothesis restHypothesis =>
    have piece (done : Text → Bool) : braceDepth 0 false
        ((Styled.use name style lead before content after .nil).write done) = some 0 ∧
          escapesAfter false
            ((Styled.use name style lead before content after .nil).write done) = false := by
      have visible := inside.isVisible starts stops done
      refine ⟨braceDepth_use listed leads blank visible (contentHypothesis balanced done)
        (inside.escapesAfter_eq done), ?_⟩
      have settled : Settled (fun _ => True) false
          (Styled.use name style lead before content after .nil) false :=
        .use listed leads blank starts stops balanced inside .nil
      exact settled.escapesAfter_eq done
    rw [source, write_use, braceDepth_balanced (piece _).1 (piece _).2] at walks
    rw [write_use, braceDepth_balanced (piece done).1 (piece done).2]
    exact restHypothesis walks done

end Write

/-! ## What a pass makes of a tree -/

section Pass

variable {name : Text} {style : Style}

/-- The rule of a pass, which styles the arguments of a command behind those in them. -/
def styleRule (name : Text) (style : Style) : Rule Unit :=
  commandRule name ⟨true, 0, 1⟩ (editCommand name ⟨true, 0, 1⟩ answer) answer
where
  answer (_ : Unit) (arguments : Arguments) : Unit × Option Text :=
    ((), some (style.wrap (arguments.argument 0)))

theorem stylePass_eq (text : Text) :
    stylePass name style text = (edit (styleRule name style) () text).2 := by
  rw [stylePass, replaceCommand, editCommand_eq]
  rfl

/-- A pass goes over a piece without a backslash. -/
theorem styleRule_pass {piece : Text} (plain : '\\' ∉ piece) (cursor : Cursor) (rest : Text) :
    (editFrom (styleRule name style) () cursor 0 (piece ++ rest)).2 =
      piece ++ (editFrom (styleRule name style) () (cursor.advanceOver piece) 0 rest).2 := by
  rw [editFrom_pass fun cursor suffix within nonempty => ?_]
  obtain ⟨c, others, rfl⟩ := List.exists_cons_of_ne_nil nonempty
  refine commandRule_startsAtBackslash _ _ _ _ () cursor c _ ?_
  rintro rfl
  exact plain (within.subset List.mem_cons_self)

/-- A pass goes over a character at which no use of its command starts. -/
theorem styleRule_keep {c : Char} {rest : Text} {cursor : Cursor}
    (silent : cursor.escaped = false → afterCommand? name (c :: rest) = none) :
    (editFrom (styleRule name style) () cursor 0 (c :: rest)).2 =
      c :: (editFrom (styleRule name style) () (cursor.advance c) 0 rest).2 := by
  have offered : styleRule name style () cursor (c :: rest) = ((), none) := by
    simp only [styleRule, commandRule]
    cases free : cursor.escaped with
    | true => rfl
    | false =>
      rw [silent free]
      rfl
  rw [editFrom_keep offered]

/-- The argument of a command is read behind its lead. -/
theorem readArguments_lead {lead argument : Text} (leads : IsLead lead)
    (balanced : braceDepth 0 false argument = some 0)
    (free : escapesAfter false argument = false) (rest : Text) :
    ∃ starred, readArguments ⟨true, 0, 1⟩ (lead ++ '{' :: (argument ++ '}' :: rest)) =
      some (⟨starred, [], [argument]⟩, rest) := by
  have braced : readBraced ('{' :: (argument ++ '}' :: rest)) = some (argument, rest) :=
    readBracedRest_iff.mpr ⟨rfl, balanced, free⟩
  obtain ⟨star, gap, rfl, starred, gapped⟩ := leads
  have skipped : Text.skipGap (gap ++ '{' :: (argument ++ '}' :: rest)) =
      '{' :: (argument ++ '}' :: rest) := Text.skipGap_gap gapped (by decide)
  rcases List.mem_cons.mp starred with rfl | starred
  · have unstarred : (gap ++ '{' :: (argument ++ '}' :: rest)).head? ≠ some '*' := by
      cases gap with
      | nil => exact fun same => absurd (Option.some.inj same) (by decide)
      | cons c others =>
        intro same
        have star := gapped c List.mem_cons_self
        rw [Option.some.inj same] at star
        exact absurd star (by decide)
    rw [List.nil_append]
    generalize gap ++ '{' :: (argument ++ '}' :: rest) = text at unstarred skipped
    exact ⟨false, by simp [readArguments, readOptions, readRequired, unstarred, skipped, braced]⟩
  · obtain rfl := List.mem_singleton.mp starred
    exact ⟨true, by simp [readArguments, readOptions, readRequired, skipped, braced]⟩

/-- No letter stands behind the name of a command that has a lead. -/
theorem startsWithLetter_lead {lead rest : Text} (leads : IsLead lead) :
    Text.startsWithLetter (lead ++ '{' :: rest) = false := by
  have gaps {c : Char} (gap : Text.isGap c = true) : c.isAlpha = false := by
    simp only [Text.isGap, Bool.or_eq_true, decide_eq_true_eq] at gap
    rcases gap with ((rfl | rfl) | rfl) | rfl <;> decide
  obtain ⟨star, gap, rfl, starred, gapped⟩ := leads
  rcases List.mem_cons.mp starred with rfl | starred
  · cases gap with
    | nil => rfl
    | cons c others => exact gaps (gapped c List.mem_cons_self)
  · obtain rfl := List.mem_singleton.mp starred
    rfl

/-- A command with another name is no use of a command. -/
theorem afterCommand?_other {word rest : Text} (named : ∀ c ∈ name, c.isAlpha = true)
    (letters : ∀ c ∈ word, c.isAlpha = true) (ends : Text.startsWithLetter rest = false)
    (different : word ≠ name) : afterCommand? name ('\\' :: (word ++ rest)) = none := by
  cases found : afterCommand? name ('\\' :: (word ++ rest)) with
  | none => rfl
  | some after =>
    have split := (List.cons.inj (afterCommand?_eq_append found)).2
    have same := (span_letters letters ends).1
    rw [split, (span_letters named (startsWithLetter_of_afterCommand? found)).1] at same
    exact absurd same.symm different

/-- The names of the commands that are converted, with one more. -/
def also (done : Text → Bool) (name : Text) : Text → Bool :=
  fun other => done other || other == name

/-- A pass converts a tree as a whole: it goes on behind the tree, whatever follows of what
may follow. -/
def Passes (name : Text) (style : Style) (done : Text → Bool) (escaped : Bool)
    (follows : Text → Prop) (tree : Styled) : Prop :=
  ∀ cursor behind, cursor.escaped = escaped → follows behind →
    (editFrom (styleRule name style) () cursor 0 (tree.write done ++ behind)).2 =
      tree.write (also done name) ++
        (editFrom (styleRule name style) () (cursor.advanceOver (tree.write done)) 0 behind).2

section Use

variable {done : Text → Bool} {other lead before after : Text} {otherStyle : Style}
  {content : Styled} (contentPasses : Passes name style done false (fun _ => True) content)

include contentPasses

/-- A pass goes over a use that is converted, into its content. -/
theorem passes_converted (visible : ∀ done, IsVisible (content.write done))
    (converted : done other = true) : Passes name style done false (fun _ => True)
      (use other otherStyle lead before content after nil) := by
  intro cursor behind stands _
  have marks := otherStyle.isArgument_around
  have alsoConverted : also done name other = true := by rw [also, converted, Bool.true_or]
  have inside : (cursor.advanceOver otherStyle.around.1).escaped = false := by
    rw [Cursor.advanceOver_escaped_eq, stands, escapesAfter_of_plain marks.1.plain]
  rw [write_styled (visible done) converted, write_styled (visible _) alsoConverted]
  simp only [write, List.append_nil, List.append_assoc]
  rw [styleRule_pass marks.1.plain, contentPasses _ _ inside trivial,
    styleRule_pass marks.2.plain, Cursor.advanceOver_append, Cursor.advanceOver_append]

variable (listed : (name, style) ∈ Style.commands)
  (otherListed : (other, otherStyle) ∈ Style.commands) (leads : IsLead lead)
  (blank : ∀ c ∈ before ++ after, Text.isBlank c = true) (unconverted : done other = false)

include listed otherListed leads blank unconverted

/-- A pass goes over the use of another command, into its content. -/
theorem passes_other (different : other ≠ name) : Passes name style done false (fun _ => True)
    (use other otherStyle lead before content after nil) := by
  intro cursor behind stands _
  obtain ⟨frontBlank, behindBlank⟩ := List.forall_mem_append.mp blank
  have isBefore := isArgument_of_isBlank frontBlank
  have isAfter := isArgument_of_isBlank behindBlank
  have alsoUnconverted : also done name other = false := by
    rw [also, unconverted, Bool.false_or, beq_eq_false_iff_ne.mpr different]
  have split {done : Text → Bool} (unconverted : done other = false) (rest : Text) :
      (use other otherStyle lead before content after nil).write done ++ rest =
        '\\' :: ((other ++ (lead ++ '{' :: before)) ++ (content.write done ++
          ((after ++ ['}']) ++ rest))) := by
    rw [write_unconverted unconverted]
    simp [write]
  have silent (rest : Text) :
      afterCommand? name ('\\' :: ((other ++ (lead ++ '{' :: before)) ++ rest)) = none := by
    rw [List.append_assoc, List.append_assoc, List.cons_append]
    exact afterCommand?_other (letters_of_command _ listed).2 (letters_of_command _ otherListed).2
      (startsWithLetter_lead leads) different
  have front : '\\' ∉ other ++ (lead ++ '{' :: before) := by
    simp [(isArgument_name otherListed).plain, leads.isArgument.plain, isBefore.plain]
  have ending : '\\' ∉ after ++ ['}'] := by simp [isAfter.plain]
  have inside : ((cursor.advance '\\').advanceOver (other ++ (lead ++ '{' :: before))).escaped =
      false := by
    rw [Cursor.advanceOver_escaped_eq]
    exact escapesAfter_of_filled
      (List.append_ne_nil_of_left_ne_nil (letters_of_command _ otherListed).1 _) front _
  have moved (text : Text) :
      cursor.advanceOver ('\\' :: text) = (cursor.advance '\\').advanceOver text := rfl
  have whole : (use other otherStyle lead before content after nil).write done =
      ('\\' :: (other ++ (lead ++ '{' :: before))) ++ (content.write done ++ (after ++ ['}'])) := by
    have same := split unconverted []
    rwa [List.append_nil, List.append_nil] at same
  rw [split unconverted, split alsoUnconverted, styleRule_keep fun _ => silent _,
    styleRule_pass front, contentPasses _ _ inside trivial, styleRule_pass ending, whole]
  simp only [List.cons_append, moved, Cursor.advanceOver_append]

/-- A pass converts a use of its own command, behind the uses in its content. -/
theorem passes_own (visible : ∀ done, IsVisible (content.write done))
    (balanced : braceDepth 0 false (content.write done) = some 0)
    (free : escapesAfter false (content.write done) = false) (same : other = name) :
    Passes name style done false (fun _ => True)
      (use other otherStyle lead before content after nil) := by
  intro cursor behind stands _
  subst same
  obtain rfl : otherStyle = style := (Prod.mk.inj (style_unique _ otherListed _ listed rfl)).2
  obtain ⟨frontBlank, behindBlank⟩ := List.forall_mem_append.mp blank
  have isBefore := isArgument_of_isBlank frontBlank
  have isAfter := isArgument_of_isBlank behindBlank
  have alsoConverted : also done other other = true := by
    rw [also, beq_self_eq_true, Bool.or_true]
  obtain ⟨padded, argumentFree⟩ := braceDepth_padded blank free
  have edited : stylePass other otherStyle (before ++ (content.write done ++ after)) =
      before ++ (content.write (also done other) ++ after) := by
    have inside : (Cursor.start.advanceOver before).escaped = false := by
      rw [Cursor.advanceOver_escaped_eq]
      exact escapesAfter_of_plain isBefore.plain
    have ended (cursor : Cursor) :
        (editFrom (styleRule other otherStyle) () cursor 0 after).2 = after := by
      rw [← List.append_nil after, styleRule_pass isAfter.plain, editFrom_nil]
    rw [stylePass_eq, edit, styleRule_pass isBefore.plain, contentPasses _ _ inside trivial, ended]
  obtain ⟨starred, read⟩ := readArguments_lead leads (padded.trans balanced) argumentFree behind
  have whole : (use other otherStyle lead before content after nil).write done ++ behind =
      '\\' :: (other ++ (lead ++ '{' :: ((before ++ (content.write done ++ after)) ++
        '}' :: behind))) := by
    rw [write_unconverted unconverted]
    simp [write]
  have offered : styleRule other otherStyle () cursor
      ((use other otherStyle lead before content after nil).write done ++ behind) =
        ((), some (Edit.upTo ((use other otherStyle lead before content after nil).write done ++
          behind) behind (otherStyle.around.1 ++ (content.write (also done other) ++
            otherStyle.around.2)))) := by
    have wrapped := (visible (also done other)).wrap_eq otherStyle blank
    rw [← edited] at wrapped
    rw [← wrapped, whole]
    simp only [styleRule, commandRule, stands, Bool.false_eq_true, if_false,
      afterCommand?_append (startsWithLetter_lead leads), read]
    rfl
  have nonempty : (use other otherStyle lead before content after nil).write done ≠ [] :=
    (isVisible_use (visible done)).ne_nil
  rw [editFrom_replace nonempty offered, write_styled (visible _) alsoConverted]
  simp [write]

end Use

/-- A pass converts the uses of its command in a tree, and goes on behind the tree. -/
theorem Settled.pass {follows : Text → Prop} {escaped ends : Bool} {tree : Styled}
    (settled : Settled follows escaped tree ends) {done : Text → Bool}
    (listed : (name, style) ∈ Style.commands) {cursor : Cursor}
    (stands : cursor.escaped = escaped) {behind : Text} (may : follows behind) :
    (editFrom (styleRule name style) () cursor 0 (tree.write done ++ behind)).2 =
      tree.write (also done name) ++
        (editFrom (styleRule name style) () (cursor.advanceOver (tree.write done)) 0 behind).2 := by
  induction settled generalizing cursor behind with
  | nil => rfl
  | @char _ escaped _ c rest silent _ inductionHypothesis =>
    have passed : cursor.escaped = false →
        afterCommand? name (c :: (rest.write done ++ behind)) = none := by
      intro free
      by_cases backslash : c = '\\'
      · rw [backslash]
        exact silent (stands.symm.trans free) backslash done behind may _ listed
      · exact afterCommand?_of_ne backslash
    have moved : (cursor.advance c).escaped = escapesNext escaped c :=
      congrArg (escapesNext · c) stands
    rw [write_char, List.cons_append, styleRule_keep passed, inductionHypothesis moved may]
    rfl
  | @use _ _ other otherStyle lead before after content rest otherListed leads blank starts stops
      balanced inside _ contentHypothesis restHypothesis =>
    have visible (done : Text → Bool) := inside.isVisible starts stops done
    have free := inside.escapesAfter_eq done
    have contentPasses : Passes name style done false (fun _ => True) content :=
      fun cursor behind stands _ => contentHypothesis stands trivial
    have piece : Passes name style done false (fun _ => True)
        (Styled.use other otherStyle lead before content after .nil) := by
      cases converted : done other with
      | true => exact passes_converted contentPasses visible converted
      | false =>
        by_cases same : other = name
        · exact passes_own contentPasses listed otherListed leads blank converted visible
            (inside.braceDepth_eq balanced done) free same
        · exact passes_other contentPasses listed otherListed leads blank converted same
    have settled : Settled (fun _ => True) false
        (Styled.use other otherStyle lead before content after .nil) false :=
      .use otherListed leads blank starts stops balanced inside .nil
    have moved : (cursor.advanceOver
        ((Styled.use other otherStyle lead before content after .nil).write done)).escaped =
          false := by
      rw [Cursor.advanceOver_escaped_eq, stands, settled.escapesAfter_eq done]
    have split (done : Text → Bool) :
        (Styled.use other otherStyle lead before content after rest).write done =
          (Styled.use other otherStyle lead before content after .nil).write done ++
            rest.write done := write_use
    rw [split, split, List.append_assoc, piece cursor _ stands trivial, restHypothesis moved may,
      Cursor.advanceOver_append, List.append_assoc]

variable {tree : Styled} {ends : Bool} (settled : Settled (· = []) false tree ends)

include settled

theorem Settled.stylePass_write {done : Text → Bool} (listed : (name, style) ∈ Style.commands) :
    stylePass name style (tree.write done) = tree.write (also done name) := by
  have stands : Cursor.start.escaped = false := rfl
  have whole : (editFrom (styleRule name style) () Cursor.start 0 (tree.write done ++ [])).2 = _ :=
    settled.pass listed stands rfl
  rw [editFrom_nil, List.append_nil, List.append_nil] at whole
  rw [stylePass_eq, edit, whole]

/-- Passes convert the commands that they are for, in whatever order they come. -/
theorem Settled.stylePasses_write {order : KeyedList Style} (listed : order ⊆ Style.commands)
    (done : Text → Bool) : stylePasses order (tree.write done) =
      tree.write fun other => done other || (order.map Prod.fst).contains other := by
  induction order generalizing done with
  | nil =>
    have same : (fun other => done other || ([] : List Text).contains other) = done :=
      funext fun other => Bool.or_false _
    exact congrArg tree.write same.symm
  | cons entry others inductionHypothesis =>
    obtain ⟨here, later⟩ := List.cons_subset.mp listed
    have pass : stylePasses (entry :: others) (tree.write done) =
        stylePasses others (stylePass entry.1 entry.2 (tree.write done)) := rfl
    rw [pass, settled.stylePass_write here, inductionHypothesis later]
    refine congrArg tree.write (funext fun other => ?_)
    rw [also, List.map_cons, List.contains_cons, Bool.or_assoc]

/-- The passes for all commands leave the same of a tree in every order. -/
theorem Settled.stylePasses_source {order : KeyedList Style} (all : order.Perm Style.commands) :
    stylePasses order tree.source =
      tree.write fun other => (Style.commands.map Prod.fst).contains other := by
  rw [source, settled.stylePasses_write all.subset]
  refine congrArg tree.write (funext fun other => ?_)
  rw [Bool.false_or]
  exact (all.map Prod.fst).contains_eq

end Pass

end Styled

end Inline

end LatexMarkdown
