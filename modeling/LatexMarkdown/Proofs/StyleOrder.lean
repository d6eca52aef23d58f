import LatexMarkdown.Proofs.InlineBodies
import LatexMarkdown.Proofs.StyledText

/-!
# The order of the commands for styles

The commands for styles are converted in the order of a table. In an orderly text this order
does not matter. A text is orderly where every such command has its argument, no argument is
blank, and neither the end of an argument nor the front of a use can be joined to the name of
a command: each of these lets one pass make or break a use that another pass looks for.
-/

namespace LatexMarkdown.Inline

open Scan Styled

/-! ## Orderly texts -/

/-- A text is a backslash and the start of the name of a command, perhaps nothing or all of it. -/
def IsCutOff (text : Text) : Prop :=
  text.head? = some '\\' ∧ ∃ entry ∈ Style.commands, text.tail <+: entry.1

instance (text : Text) : Decidable (IsCutOff text) :=
  inferInstanceAs (Decidable (_ ∧ _))

/-- What is not blank and, without the blanks around it, does not end in the middle of the
name of a command. -/
structure IsContent (argument : Text) : Prop where
  visible : Text.trim argument ≠ []
  closed : Everywhere (¬ IsCutOff ·) false (Text.trim argument)

instance (argument : Text) : Decidable (IsContent argument) :=
  decidable_of_iff (Text.trim argument ≠ [] ∧
    Everywhere (¬ IsCutOff ·) false (Text.trim argument))
    ⟨fun both => ⟨both.1, both.2⟩, fun isContent => ⟨isContent.1, isContent.2⟩⟩

/-- What follows the name of a command holds its argument, which is a content. -/
def HasContent (after : Text) : Prop :=
  ∃ read ∈ readArguments ⟨true, 0, 1⟩ after, IsContent (read.1.argument 0)

instance (after : Text) : Decidable (HasContent after) :=
  match read : readArguments ⟨true, 0, 1⟩ after with
  | none => isFalse fun ⟨_, same, _⟩ => by rw [read] at same; cases same
  | some pair => decidable_of_iff (IsContent (pair.1.argument 0))
      ⟨fun isContent => ⟨pair, read, isContent⟩,
        fun ⟨_, same, isContent⟩ => by
          rw [read] at same
          obtain rfl := Option.some.inj same
          exact isContent⟩

/-- The start of the name of a command, behind a backslash, stands directly before a use of
one. -/
def TouchesUse (text : Text) : Prop :=
  text.head? = some '\\' ∧ text.tail.takeWhile Char.isAlpha ≠ [] ∧
    (∃ entry ∈ Style.commands, text.tail.takeWhile Char.isAlpha <+: entry.1) ∧
      ∃ entry ∈ Style.commands,
        (afterCommand? entry.1 (text.tail.dropWhile Char.isAlpha)).isSome = true

instance (text : Text) : Decidable (TouchesUse text) :=
  inferInstanceAs (Decidable (_ ∧ _))

/-- At the start of a text, every command that is read has its content, and no name of a
command is cut off before a use. -/
structure IsOrderly (text : Text) : Prop where
  contents : ∀ entry ∈ Style.commands, ∀ after ∈ afterCommand? entry.1 text, HasContent after
  apart : ¬ TouchesUse text

instance (text : Text) : Decidable (IsOrderly text) :=
  decidable_of_iff ((∀ entry ∈ Style.commands, ∀ after ∈ afterCommand? entry.1 text,
    HasContent after) ∧ ¬ TouchesUse text)
    ⟨fun both => ⟨both.1, both.2⟩, fun isOrderly => ⟨isOrderly.1, isOrderly.2⟩⟩

/-- A text is orderly at all positions that are not escaped. -/
def Orderly (text : Text) : Prop :=
  Everywhere IsOrderly false text

instance (text : Text) : Decidable (Orderly text) :=
  inferInstanceAs (Decidable (Everywhere _ _ _))

/-! ## Reading a text as a tree -/

/-- What is read as the only argument stands in braces behind a gap. -/
theorem exists_braced {text rest : Text} {required : List Text}
    (read : readRequired 1 text = some (required, rest)) :
    ∃ gap argument, Text.IsGap gap ∧ text = gap ++ '{' :: (argument ++ '}' :: rest) ∧
      required = [argument] ∧ braceDepth 0 false argument = some 0 ∧
        escapesAfter false argument = false := by
  simp only [readRequired, Option.bind_eq_bind, Option.bind_eq_some_iff, Option.bind_some,
    Option.some.injEq, Prod.mk.injEq, Prod.exists] at read
  obtain ⟨argument, behind, braced, rfl, rfl⟩ := read
  obtain ⟨gap, gapped, whole⟩ := exists_gap text
  have opened : Text.skipGap text = '{' :: (argument ++ '}' :: behind) :=
    readBraced_eq_append braced
  have inside : readBracedRest 0 false (argument ++ '}' :: behind) = some (argument, behind) := by
    rwa [opened, readBraced, if_pos rfl] at braced
  obtain ⟨-, balanced, free⟩ := readBracedRest_iff.mp inside
  exact ⟨gap, argument, gapped, opened ▸ whole, rfl, balanced, free⟩

/-- What is read as the argument of a command stands in braces behind a lead. -/
theorem exists_lead {after rest : Text} {arguments : Arguments}
    (read : readArguments ⟨true, 0, 1⟩ after = some (arguments, rest)) :
    ∃ lead argument, IsLead lead ∧ after = lead ++ '{' :: (argument ++ '}' :: rest) ∧
      arguments.argument 0 = argument ∧ braceDepth 0 false argument = some 0 ∧
        escapesAfter false argument = false := by
  simp only [readArguments, Bool.true_and, readOptions, Option.bind_eq_bind, Option.bind_some,
    Option.bind_eq_some_iff, Option.some.injEq, Prod.mk.injEq, Prod.exists] at read
  obtain ⟨required, behind, found, rfl, rfl⟩ := read
  obtain ⟨gap, argument, gapped, split, rfl, balanced, free⟩ := exists_braced found
  by_cases star : after.head? = some '*'
  · obtain ⟨others, rfl⟩ := List.head?_eq_some_iff.mp star
    have tail : others = gap ++ '{' :: (argument ++ '}' :: behind) := by simpa using split
    refine ⟨'*' :: gap, argument, ⟨['*'], gap, rfl, by decide, gapped⟩, ?_, rfl, balanced, free⟩
    rw [tail, List.cons_append]
  · rw [decide_eq_false star, if_neg Bool.false_ne_true] at split
    exact ⟨gap, argument, ⟨[], gap, rfl, by decide, gapped⟩, split, rfl, balanced, free⟩

/-- A text is what is left when it is trimmed, between blanks. -/
theorem exists_trim (text : Text) : ∃ before after, text = before ++ (Text.trim text ++ after) ∧
    ∀ c ∈ before ++ after, Text.isBlank c = true := by
  refine ⟨text.takeWhile Text.isBlank, (Text.trimStart text).rtakeWhile Text.isBlank, ?_, ?_⟩
  · rw [Text.trim, Text.trimEnd, Text.dropTrailing_eq_rdropWhile, List.rdropWhile_append_rtakeWhile,
      Text.trimStart, List.takeWhile_append_dropWhile]
  · exact List.forall_mem_append.mpr
      ⟨fun c => List.mem_takeWhile_imp, fun c => List.mem_rtakeWhile_imp⟩

/-- The name of a command that is not the start of a word is not read at the word. -/
theorem afterCommand?_of_apart {name word rest : Text} (letters : ∀ c ∈ word, c.isAlpha = true)
    (apart : ¬ word <+: name) : afterCommand? name ('\\' :: (word ++ rest)) = none := by
  cases found : afterCommand? name ('\\' :: (word ++ rest)) with
  | none => rfl
  | some after =>
    have split := (List.cons.inj (afterCommand?_eq_append found)).2
    rcases List.append_eq_append_iff.mp split with ⟨more, same, -⟩ | ⟨more, same, behind⟩
    · exact absurd ⟨more, same.symm⟩ apart
    · -- The name ends inside the word, where a letter follows.
      cases more with
      | nil =>
        rw [same, List.append_nil] at apart
        exact absurd List.prefix_rfl apart
      | cons c others =>
        have ends := startsWithLetter_of_afterCommand? found
        rw [behind, List.cons_append, Text.startsWithLetter,
          letters c (same ▸ List.mem_append_right _ List.mem_cons_self)] at ends
        cases ends

/-- A tree starts with a word, in which nothing is converted, and does not go on with a letter. -/
theorem exists_word {follows : Text → Prop} {escaped ends : Bool} {tree : Styled}
    (settled : Settled follows escaped tree ends) :
    ∃ (word : Text) (next : Styled), (∀ c ∈ word, c.isAlpha = true) ∧
      (∀ done, tree.write done = word ++ next.write done) ∧
        (next = .nil ∨ (∃ c rest, next = .char c rest ∧ c.isAlpha = false) ∨
          (escaped = true → word ≠ []) ∧ ∃ name style lead before content after rest,
            next = .use name style lead before content after rest ∧
              (name, style) ∈ Style.commands ∧ IsLead lead) := by
  induction settled with
  | nil => exact ⟨[], .nil, List.forall_mem_nil _, fun _ => rfl, .inl rfl⟩
  | @char _ escaped _ c rest _ _ inductionHypothesis =>
    cases letter : c.isAlpha with
    | false => exact ⟨[], .char c rest, List.forall_mem_nil _, fun _ => rfl,
        .inr (.inl ⟨c, rest, rfl, letter⟩)⟩
    | true =>
      obtain ⟨word, next, letters, written, kind⟩ := inductionHypothesis
      refine ⟨c :: word, next, List.forall_mem_cons.mpr ⟨letter, letters⟩, fun done => ?_,
        kind.imp_right (.imp_right fun use => ⟨fun _ => List.cons_ne_nil c word, use.2⟩)⟩
      rw [write_char, written, List.cons_append]
  | @use _ _ name style lead before after content rest listed leads =>
    exact ⟨[], .use name style lead before content after rest, List.forall_mem_nil _, fun _ => rfl,
      .inr (.inr ⟨fun impossible => absurd impossible Bool.false_ne_true,
        name, style, lead, before, content, after, rest, rfl, listed, leads⟩)⟩

/-- No use of a command that starts in a text ends in what follows it. -/
def KeepsUses (tail suffix : Text) : Prop :=
  ∀ name style lead argument rest, (name, style) ∈ Style.commands → IsLead lead →
    braceDepth 0 false argument = some 0 → escapesAfter false argument = false →
      suffix ++ tail = '\\' :: (name ++ (lead ++ '{' :: (argument ++ '}' :: rest))) →
        ∃ inside, rest = inside ++ tail

/-- A part of an orderly text in front of its tail, which can be read as a tree by itself. -/
structure Readable (follows : Text → Prop) (escaped : Bool) (tail text : Text) : Prop where
  orderly : Everywhere (fun suffix => IsOrderly (suffix ++ tail)) escaped text
  closed : Everywhere (fun suffix => IsCutOff suffix → ∀ behind, follows behind → behind = tail)
    escaped text
  keeps : Everywhere (KeepsUses tail) escaped text

section Readable

variable {follows : Text → Prop} {escaped : Bool} {tail text : Text}

theorem Readable.behind {front : Text} (readable : Readable follows escaped tail (front ++ text)) :
    Readable follows (escapesAfter escaped front) tail text :=
  ⟨(everywhere_append.mp readable.orderly).2, (everywhere_append.mp readable.closed).2,
    (everywhere_append.mp readable.keeps).2⟩

theorem Readable.behind_cons {c : Char} (readable : Readable follows escaped tail (c :: text)) :
    Readable follows (escapesNext escaped c) tail text :=
  ⟨readable.orderly.2, readable.closed.2, readable.keeps.2⟩

/-- Behind another character than a backslash nothing is escaped. -/
theorem Readable.behind_sign {front : Text} {sign : Char} (different : sign ≠ '\\')
    (readable : Readable follows escaped tail (front ++ sign :: text)) :
    Readable follows false tail text := by
  have next := readable.behind.behind_cons
  rwa [escapesNext_of_ne different] at next

/-- A text that does not end in the middle of a name escapes nothing. -/
theorem escapesAfter_of_closed (closed : Everywhere (¬ IsCutOff ·) false text) :
    escapesAfter false text = false := by
  rcases List.eq_nil_or_concat' text with rfl | ⟨front, c, rfl⟩
  · rfl
  by_cases backslash : c = '\\'
  · subst backslash
    cases free : escapesAfter false front with
    | true =>
      rw [escapesAfter_append, free]
      rfl
    | false =>
      have cut : IsCutOff ['\\'] := by decide
      exact absurd cut (closed.behind free (List.cons_ne_nil _ _))
  · exact escapesAfter_concat backslash false front

/-- What is left when a text is trimmed is visible. -/
theorem isVisible_trim (nonempty : Text.trim text ≠ []) : IsVisible (Text.trim text) := by
  constructor
  · obtain ⟨c, rest, split⟩ := List.exists_cons_of_ne_nil nonempty
    have head : (Text.trim text).head? = some c := by rw [split]; rfl
    exact ⟨c, head, Text.isBlank_of_head?_trim head⟩
  · have ended : Text.trim text = (Text.trimStart text).rdropWhile Text.isBlank := by
      rw [Text.trim, Text.trimEnd, Text.dropTrailing_eq_rdropWhile]
    rw [ended] at nonempty ⊢
    exact ⟨_, List.getLast?_eq_getLast_of_ne_nil nonempty,
      Bool.eq_false_iff.mpr (List.rdropWhile_last_not _ _ nonempty)⟩

/-- A use in a content ends before the brace behind the content. -/
theorem keepsUses_content {front core after rest : Text} (free : escapesAfter false front = false)
    (blank : ∀ c ∈ after, Text.isBlank c = true)
    (balanced : braceDepth 0 false (front ++ core) = some 0)
    (ends : escapesAfter false (front ++ core) = false) :
    KeepsUses (after ++ '}' :: rest) core := by
  intro name style lead argument behind listed leads argumentBalanced argumentFree split
  have piece : core ++ (after ++ '}' :: rest) =
      ('\\' :: (name ++ (lead ++ '{' :: (argument ++ ['}'])))) ++ behind := by
    rw [split]
    simp
  rcases List.append_eq_append_iff.mp piece with ⟨more, spelled, tail⟩ | ⟨more, -, tail⟩
  · -- Whatever of the use is behind the content has its last brace, which closes one from before.
    by_cases nothing : more = []
    · exact ⟨[], by rw [tail, nothing]; rfl⟩
    exfalso
    rw [braceDepth_append, Option.bind_eq_some_iff] at balanced
    obtain ⟨depth, -, walks⟩ := balanced
    rw [free] at walks
    rw [escapesAfter_append, free] at ends
    have passed : braceDepth 0 false more = some depth := by
      have command := braceDepth_command listed leads argumentBalanced argumentFree depth []
      rwa [spelled, braceDepth_append, walks, ends, Option.bind_some] at command
    have unclosed : '}' ∉ after := fun member => absurd (blank _ member) (by decide)
    have closing : '}' ∈ more := by
      have last : (core ++ more).getLast? = some '}' := by
        rw [← spelled]
        simp only [← List.cons_append, ← List.append_assoc, List.getLast?_concat]
      rw [List.getLast?_append_of_ne_nil _ nothing] at last
      exact List.mem_of_getLast? last
    rcases List.append_eq_append_iff.mp tail with ⟨others, rfl, reached⟩ | ⟨others, split, -⟩
    · cases others with
      | nil => exact unclosed (List.append_nil after ▸ closing)
      | cons c others =>
        obtain rfl := (List.cons.inj reached).1
        have ended (text : Text) : braceDepth 0 false ('}' :: text) = none := rfl
        rw [braceDepth_argument (isArgument_of_isBlank blank), ended] at passed
        cases passed
    · rw [split] at unclosed
      exact unclosed (List.mem_append_left _ closing)
  · exact ⟨more, tail⟩

/-- The content of a use can be read by itself: its uses end before the brace behind it, and
it does not end in the middle of a name. -/
theorem Readable.content {core after rest : Text} {may : Text → Prop}
    (readable : Readable follows false tail (core ++ (after ++ '}' :: rest)))
    (closed : Everywhere (¬ IsCutOff ·) false core)
    (blank : ∀ c ∈ after, Text.isBlank c = true) (balanced : braceDepth 0 false core = some 0) :
    Readable may false (after ++ '}' :: (rest ++ tail)) core where
  orderly := (everywhere_append.mp readable.orderly).1.imp fun suffix _ _ isOrderly => by
    simpa using isOrderly
  closed := closed.imp fun suffix _ _ whole cut => absurd cut whole
  keeps := by
    refine everywhere_iff.mpr ?_
    rintro front suffix rfl - unescaped
    exact keepsUses_content unescaped blank balanced (escapesAfter_of_closed closed)

/-- At a command an orderly text has a use, whose content can be read as a tree by itself. -/
theorem Readable.exists_use (readable : Readable follows false tail text) (nonempty : text ≠ [])
    {name after : Text} {style : Style} (listed : (name, style) ∈ Style.commands)
    (found : afterCommand? name (text ++ tail) = some after) :
    ∃ lead front core blanks rest, text = '\\' :: (name ++ (lead ++ '{' ::
      ((front ++ (core ++ blanks)) ++ '}' :: rest))) ∧ IsLead lead ∧
        (∀ c ∈ front ++ blanks, Text.isBlank c = true) ∧ IsVisible core ∧
          escapesAfter false core = false ∧ braceDepth 0 false core = some 0 ∧
            Readable (fun _ => True) false (blanks ++ '}' :: (rest ++ tail)) core ∧
              Readable follows false tail rest := by
  obtain ⟨read, isRead, isContent⟩ := (readable.orderly.here nonempty).contents _ listed _ found
  obtain ⟨lead, argument, leads, rfl, same, argumentBalanced, argumentFree⟩ := exists_lead isRead
  rw [same] at isContent
  have whole := afterCommand?_eq_append found
  obtain ⟨rest, behind⟩ := readable.keeps.here nonempty name style lead argument read.2 listed
    leads argumentBalanced argumentFree whole
  obtain ⟨front, blanks, split, blank⟩ := exists_trim argument
  have visible := isVisible_trim isContent.visible
  have closed := isContent.closed
  generalize Text.trim argument = core at split visible closed
  subst split
  have free := escapesAfter_of_closed closed
  have balanced := (braceDepth_padded blank free).1.symm.trans argumentBalanced
  obtain ⟨frontBlank, behindBlank⟩ := List.forall_mem_append.mp blank
  have spelled : text = '\\' :: (name ++ (lead ++ '{' :: ((front ++ (core ++ blanks)) ++
      '}' :: rest))) := by
    refine List.append_cancel_right (whole.trans ?_)
    rw [behind]
    simp
  refine ⟨lead, front, core, blanks, rest, spelled, leads, blank, visible, free, balanced, ?_, ?_⟩
  · -- The content stands behind the opening brace and blanks.
    have opened : text = ('\\' :: (name ++ lead)) ++ '{' :: (front ++ (core ++
        (blanks ++ '}' :: rest))) := by
      rw [spelled]
      simp
    rw [opened] at readable
    have inside := (readable.behind_sign (by decide)).behind
    rw [escapesAfter_of_plain (isArgument_of_isBlank frontBlank).plain] at inside
    exact inside.content closed behindBlank balanced
  · have ended : text = ('\\' :: (name ++ (lead ++ '{' :: (front ++ (core ++ blanks))))) ++
        '}' :: rest := by
      rw [spelled]
      simp
    rw [ended] at readable
    exact readable.behind_sign (by decide)

theorem source_ne_nil {tree : Styled} (nonempty : tree ≠ .nil) : tree.source ≠ [] := by
  cases tree with
  | nil => exact absurd rfl nonempty
  | char c rest => exact List.cons_ne_nil c _
  | use name style lead before content after rest =>
    rw [source, write_unconverted rfl]
    exact List.cons_ne_nil _ _

/-- The source of a tree is visible only where its first and its last thing are. -/
theorem visible_of_source {tree : Styled} (visible : IsVisible tree.source) :
    tree.StartsVisible ∧ tree.EndsVisible := by
  constructor
  · obtain ⟨c, head, shown⟩ := visible.first
    cases tree with
    | nil => cases head
    | char d rest =>
      obtain rfl := Option.some.inj head
      exact shown
    | use => trivial
  · have last := visible.last
    clear visible
    induction tree with
    | nil =>
      obtain ⟨c, final, -⟩ := last
      cases final
    | char d rest inductionHypothesis =>
      rcases eq_or_ne rest .nil with rfl | more
      · obtain ⟨c, final, shown⟩ := last
        obtain rfl := Option.some.inj final
        exact shown
      · have written : rest.write (fun _ => false) ≠ [] := source_ne_nil more
        rw [source, write_char, List.getLast?_cons_of_ne_nil written] at last
        exact (endsVisible_char more).mpr (inductionHypothesis last)
    | use name style lead before content after rest _ inductionHypothesis =>
      rcases eq_or_ne rest .nil with rfl | more
      · trivial
      · have written : rest.write (fun _ => false) ≠ [] := source_ne_nil more
        rw [source, write_use, List.getLast?_append_of_ne_nil _ written] at last
        exact (endsVisible_use more).mpr (inductionHypothesis last)

/-- A word that stands behind a backslash and before a use touches the use. -/
theorem touchesUse_word {word name lead : Text} {style : Style} (nonempty : word ≠ [])
    (letters : ∀ c ∈ word, c.isAlpha = true) (start : ∃ entry ∈ Style.commands, word <+: entry.1)
    (listed : (name, style) ∈ Style.commands) (leads : IsLead lead) (rest : Text) :
    TouchesUse ('\\' :: (word ++ '\\' :: (name ++ (lead ++ '{' :: rest)))) := by
  have ends : Text.startsWithLetter ('\\' :: (name ++ (lead ++ '{' :: rest))) = false := rfl
  obtain ⟨taken, dropped⟩ := span_letters letters ends
  refine ⟨rfl, ?_, ?_, (name, style), listed, ?_⟩
  · exact taken.symm ▸ nonempty
  · exact taken.symm ▸ start
  · rw [List.tail_cons, dropped, afterCommand?_append (startsWithLetter_lead leads)]
    rfl

/-- In a readable text no piece of a tree can be read as the start of a command where none is
read in the text. -/
theorem Readable.silent {others : Text} {later : Styled} {ends : Bool}
    (readable : Readable follows false tail ('\\' :: others))
    (unused : ∀ entry ∈ Style.commands, afterCommand? entry.1 ('\\' :: others ++ tail) = none)
    (source : later.source = others) (more : Settled follows true later ends)
    (done : Text → Bool) {behind : Text} (may : follows behind) {entry : Text × Style}
    (listed : entry ∈ Style.commands) :
    afterCommand? entry.1 ('\\' :: (later.write done ++ behind)) = none := by
  obtain ⟨word, next, letters, written, kind⟩ := exists_word more
  have split : others = word ++ next.source := source ▸ written _
  rw [written, List.append_assoc]
  by_cases start : ∃ other ∈ Style.commands, word <+: other.1
  · rcases kind with rfl | ⟨d, rest, rfl, other⟩ | ⟨nonempty, name, style, lead, before, content,
      after, rest, rfl, nameListed, leads⟩
    · -- The word ends the text, so what follows it is the tail, where nothing is read.
      have bare : others = word := split.trans (List.append_nil word)
      have cut : IsCutOff ('\\' :: others) := ⟨rfl, bare ▸ start⟩
      rw [readable.closed.here (List.cons_ne_nil _ _) cut behind may, ← bare]
      exact unused entry listed
    · by_cases whole : word = entry.1
      · have found : afterCommand? entry.1 ('\\' :: others ++ tail) =
            some (d :: (rest.source ++ tail)) := by
          rw [split, whole, List.cons_append, List.append_assoc]
          exact afterCommand?_append other
        rw [unused entry listed] at found
        cases found
      · exact afterCommand?_other (letters_of_command _ listed).2 letters other whole
    · exfalso
      refine (readable.orderly.here (List.cons_ne_nil _ _)).apart ?_
      have spelled : '\\' :: others ++ tail = '\\' :: (word ++ '\\' :: (name ++ (lead ++ '{' ::
          ((before ++ (content.source ++ after)) ++ '}' :: (rest.source ++ tail))))) := by
        rw [split, Styled.source, write_unconverted rfl]
        simp [Styled.source]
      rw [spelled]
      exact touchesUse_word (nonempty rfl) letters start nameListed leads _
  · exact afterCommand?_of_apart letters fun front => start ⟨entry, listed, front⟩

/-- A readable text is the source of a settled tree. -/
theorem Readable.exists_tree (readable : Readable follows escaped tail text) :
    ∃ tree : Styled, tree.source = text ∧
      Settled follows escaped tree (escapesAfter escaped text) := by
  induction size : text.length using Nat.strong_induction_on
    generalizing follows escaped tail text with
  | _ size inductionHypothesis =>
  subst size
  cases text with
  | nil => exact ⟨.nil, rfl, .nil⟩
  | cons c others =>
    have nonempty : c :: others ≠ [] := List.cons_ne_nil c others
    by_cases used : escaped = false ∧ ∃ entry ∈ Style.commands,
        (afterCommand? entry.1 (c :: others ++ tail)).isSome = true
    · obtain ⟨rfl, ⟨name, style⟩, listed, isSome⟩ := used
      obtain ⟨after, found⟩ := Option.isSome_iff_exists.mp isSome
      obtain ⟨lead, front, core, blanks, rest, split, leads, blank, visible, free, balanced,
        content, remaining⟩ := readable.exists_use nonempty listed found
      have shorter : core.length < (c :: others).length ∧ rest.length < (c :: others).length := by
        rw [split]
        simp only [List.length_cons, List.length_append]
        omega
      obtain ⟨inner, rfl, inside⟩ := inductionHypothesis core.length shorter.1 content rfl
      obtain ⟨later, rfl, more⟩ := inductionHypothesis rest.length shorter.2 remaining rfl
      rw [free] at inside
      obtain ⟨starts, stops⟩ := visible_of_source visible
      have ends : escapesAfter false (c :: others) = escapesAfter false later.source := by
        have ended : c :: others = ('\\' :: (name ++ (lead ++ '{' :: (front ++ (inner.source ++
            blanks))))) ++ '}' :: later.source := by
          rw [split]
          simp
        rw [ended, escapesAfter_append_cons (by decide)]
      refine ⟨.use name style lead front inner blanks later, ?_, ?_⟩
      · rw [split, source, write_unconverted rfl]
        rfl
      · rw [ends]
        exact .use listed leads blank starts stops balanced inside more
    · obtain ⟨later, source, more⟩ :=
        inductionHypothesis others.length (Nat.lt_succ_self _) readable.behind_cons rfl
      refine ⟨.char c later, congrArg (c :: ·) source, .char ?_ more⟩
      rintro rfl rfl done behind may entry listed
      refine readable.silent (fun entry listed => ?_) source more done may listed
      exact Option.not_isSome_iff_eq_none.mp fun some => used ⟨rfl, entry, listed, some⟩

end Readable

/-! ## The order of the passes -/

/-- An orderly text can be read as a tree: its tail is empty. -/
theorem Orderly.readable {text : Text} (orderly : Orderly text) :
    Readable (· = []) false [] text where
  orderly := orderly.imp fun suffix _ _ isOrderly => (List.append_nil suffix).symm ▸ isOrderly
  closed := orderly.imp fun _ _ _ _ _ _ same => same
  keeps := orderly.imp fun _ _ _ _ _ _ _ _ rest _ _ _ _ _ => ⟨rest, (List.append_nil rest).symm⟩

/-- In an orderly text the commands for styles may be converted in any order. -/
theorem stylePasses_eq_of_perm {text : Text} (orderly : Orderly text)
    {first second : KeyedList Style} (isFirst : first.Perm Style.commands)
    (isSecond : second.Perm Style.commands) : stylePasses first text = stylePasses second text := by
  obtain ⟨tree, rfl, settled⟩ := orderly.readable.exists_tree
  exact (settled.stylePasses_source isFirst).trans (settled.stylePasses_source isSecond).symm

/-- Nested uses, with a star and with a word that is cut off, are orderly. -/
theorem stylePasses_eq_of_perm_reverse :
    let text :=
      "\\text \\textbf\x7b a \\emph\x7bb\x7d\x7d \\textrm*\x7b\\textsc\x7bc\x7dd\x7d".toList
    stylePasses Style.commands text = stylePasses Style.commands.reverse text ∧
      stylePasses Style.commands text ≠ text :=
  ⟨stylePasses_eq_of_perm (by decide +kernel) (.refl _) (List.reverse_perm _), by decide +kernel⟩

/-- A use without content is not orderly: bold leaves marks around nothing that has been
converted before it, and nothing when it comes first. -/
theorem stylePasses_ne_reverse :
    let text := "\\textbf\x7b\\textit\x7b\x7d\x7d".toList
    stylePasses Style.commands text ≠ stylePasses Style.commands.reverse text := by
  decide +kernel

end LatexMarkdown.Inline
