import LatexMarkdown.Proofs.LabelRun
import LatexMarkdown.Proofs.Paragraphs

/-!
# Layout of a labelled document

Once the labels are gone a labelled document is a list of paragraphs: headings, texts
and tokens, and the references at the end. Converting the headings sets their line
breaks, normal form trims the paragraphs, and restoration puts the formulas in the
place of their tokens.
-/

namespace LatexMarkdown.Document

open Scan LatexMarkdown.Numbering Alternation

theorem Alternation.IsWordText.isLine {text : Text} (words : IsWordText text) : Text.IsLine text where
  space c member blank := by
    refine (words.1 c member).resolve_left fun letter => ?_
    rw [Text.isBlank_of_isAlpha letter] at blank
    exact Bool.false_ne_true blank
  spaced := words.2
  unmarked sign listed := by
    have foreign : ∀ sign ∈ Text.lineMarks, sign.isAlpha = false ∧ sign ≠ ' ' := by decide
    exact words.not_mem (foreign sign listed)

/-- Single spaces are not enough for a blank text of two characters. -/
theorem Alternation.IsWordText.isBlankText_eq {text : Text} (words : IsWordText text)
    (long : 2 ≤ text.length) : Text.isBlankText text = false := by
  refine Bool.eq_false_iff.mpr fun blank => words.2 ?_
  have space {c : Char} (member : c ∈ text) : c = ' ' :=
    words.isLine.space c member (List.all_eq_true.mp blank c member)
  match text, long with
  | first :: second :: others, _ =>
    rw [space (c := first) (by simp), space (c := second) (by simp)]
    exact (List.prefix_append [' ', ' '] others).isInfix

/-- No character of a token is blank. -/
theorem visible_token (index : Nat) : ∀ c ∈ Fragment.token index, Text.isBlank c = false := by
  intro c member
  rcases Fragment.mem_token member with digit | opening
  · exact Text.isBlank_of_isDigit digit
  · exact Bool.eq_false_iff.mpr fun blank => (Fragment.separates_of_isBlank blank).1 opening

namespace Segment

/-- The segments that paragraphs are at the end: headings, and texts of one line. -/
def IsParagraph : Segment → Prop
  | text content => Text.IsLine content ∧ Text.isBlankText content = false ∧ '\\' ∉ content
  | heading title => IsWordText title
  | _ => False

/-- The line that a paragraph is shown as. -/
def line : Segment → Text
  | heading title => "# ".toList ++ Text.trim title
  | segment => segment.source

/-- A paragraph without its indentation. -/
def unindented : Segment → Segment
  | text content => text (Text.withoutIndentation content)
  | segment => segment

/-- Paragraphs with blank lines behind them, and a last text. -/
def separated (paragraphs : List Segment) (last : Text) : List Segment :=
  paragraphs.flatMap (fun paragraph => [paragraph, Part.blankLine]) ++ [.text last]

/-- The line breaks before the first of several paragraphs once headings are converted. -/
def breaksBefore : List Segment → Nat
  | heading _ :: _ => 2
  | _ => 0

theorem separated_cons (paragraph : Segment) (others : List Segment) (last : Text) :
    separated (paragraph :: others) last =
      [paragraph, Part.blankLine] ++ separated others last :=
  rfl

/-- Separated paragraphs are spelled with a blank line between them. -/
theorem sources_separated (paragraphs : List Segment) (last : Text) :
    sources (separated paragraphs last) =
      Text.joinWith ['\n', '\n'] (paragraphs.map source ++ [last]) := by
  induction paragraphs with
  | nil => exact List.append_nil last
  | cons paragraph others inductionHypothesis =>
    have filled : others.map source ++ [last] ≠ [] := List.concat_ne_nil _ _
    rw [separated_cons, sources_append, inductionHypothesis, List.map_cons, List.cons_append,
      Text.joinWith_cons _ _ filled, ← List.append_assoc]
    simp [Part.blankLine, source]

namespace IsParagraph

variable {paragraph : Segment}

theorem fits (isParagraph : paragraph.IsParagraph) : paragraph.Fits := by
  cases paragraph with
  | text content => exact isParagraph.2.2
  | heading title => exact isParagraph.isArgument
  | _ => exact isParagraph.elim

/-- Without indentation a paragraph is still one. -/
theorem unindented (isParagraph : paragraph.IsParagraph) : paragraph.unindented.IsParagraph := by
  cases paragraph with
  | text content =>
    obtain ⟨isLine, visible, plain⟩ := isParagraph
    have start : Text.trimStart content <:+ content := List.dropWhile_suffix _
    have shown : Text.isBlankText (Text.trimStart content) = false := by
      obtain ⟨c, inside, seen⟩ := List.all_eq_false.mp (Text.isBlankText_trim visible)
      exact List.all_eq_false.mpr ⟨c, (Text.trimEnd_front _).subset inside, seen⟩
    rw [Segment.unindented, isLine.withoutIndentation_eq]
    exact ⟨isLine.of_infix start.isInfix, shown, fun member => plain (start.subset member)⟩
  | heading title => exact isParagraph
  | _ => exact isParagraph.elim

/-- The source of a paragraph is a line, and loses its indentation. -/
theorem withoutIndentation_eq (isParagraph : paragraph.IsParagraph) :
    '\n' ∉ paragraph.source ∧
      Text.withoutIndentation paragraph.source = paragraph.unindented.source := by
  cases paragraph with
  | text content => exact ⟨isParagraph.1.single, rfl⟩
  | heading title =>
    exact ⟨not_mem_use (by decide) (isParagraph.not_mem (by decide)), rfl⟩
  | _ => exact isParagraph.elim

/-- A paragraph is shown as a visible line without commands. -/
theorem line (isParagraph : paragraph.IsParagraph) : Text.IsLine paragraph.line ∧
    Text.isBlankText paragraph.line = false ∧ '\\' ∉ paragraph.line := by
  cases paragraph with
  | text content => exact isParagraph
  | heading title =>
    have trimmed : Text.IsLine (Text.trim title) :=
      isParagraph.isLine.of_infix (Text.trim_infix title)
    have plain : '\\' ∉ Text.trim title := fun member =>
      isParagraph.isArgument.plain ((Text.trim_infix title).subset member)
    have start : (Text.trim title).head? ≠ some ' ' := fun head =>
      absurd (Text.isBlank_of_head?_trim head) (by decide)
    have marked : Text.IsLine (['#'] ++ ' ' :: Text.trim title) :=
      (trimmed.cons_space start).append_left (by decide) (by decide)
    refine ⟨marked, rfl, ?_⟩
    rw [Segment.line, List.mem_append, not_or]
    exact ⟨by decide, plain⟩
  | _ => exact isParagraph.elim

/-- A token is a paragraph. -/
theorem token (index : Nat) : (text (Fragment.token index)).IsParagraph := by
  have isLine : Text.IsLine (Fragment.token index ++ []) :=
    Text.IsLine.nil.append_left (visible_token index) fun sign listed => by
      have foreign : ∀ sign ∈ Text.lineMarks, sign.isDigit = false ∧ sign ∉ Fragment.tokenOpening := by
        decide
      exact Fragment.not_mem_token (foreign sign listed) index
  rw [List.append_nil] at isLine
  exact ⟨isLine, rfl, Fragment.not_mem_token (by decide) index⟩

end IsParagraph

/-! ## The passes over the structure -/

/-- The indentation of all paragraphs is dropped. -/
theorem stripIndentation_separated {paragraphs : List Segment} {last : Text}
    (isParagraph : ∀ paragraph ∈ paragraphs, paragraph.IsParagraph) (single : '\n' ∉ last) :
    Text.stripIndentation (sources (separated paragraphs last)) =
      sources (separated (paragraphs.map unindented) (Text.withoutIndentation last)) := by
  have lines : ∀ line ∈ paragraphs.map source ++ [last], '\n' ∉ line := by
    rw [List.forall_mem_append, List.forall_mem_map, List.forall_mem_singleton]
    exact ⟨fun paragraph listed => (isParagraph paragraph listed).withoutIndentation_eq.1, single⟩
  have same : paragraphs.map (Text.withoutIndentation ∘ source) =
      paragraphs.map (source ∘ unindented) :=
    List.map_congr_left fun paragraph listed => (isParagraph paragraph listed).withoutIndentation_eq.2
  rw [sources_separated, sources_separated, Text.stripIndentation,
    Text.mapLines_joinWith rfl lines, List.map_append, List.map_map, same, List.map_map]
  rfl

/-- What stands for headings has its line breaks around it, and blank lines separate the
paragraphs. -/
theorem spread_headed {paragraphs : List Segment} (last : Text)
    (isParagraph : ∀ paragraph ∈ paragraphs, paragraph.IsParagraph) :
    ∃ text, sources ((separated paragraphs last).map headed) =
        List.replicate (breaksBefore paragraphs) '\n' ++ text ∧
      Text.Spread (paragraphs.map line ++ [last]) text := by
  induction paragraphs with
  | nil => exact ⟨last, List.append_nil last, .last last⟩
  | cons paragraph others inductionHypothesis =>
    rw [List.forall_mem_cons] at isParagraph
    obtain ⟨behind, written, spread⟩ := inductionHypothesis isParagraph.2
    rw [separated_cons, List.map_append, sources_append, written]
    cases paragraph with
    | text content =>
      refine ⟨_, ?_, .next content (Nat.le_add_right 2 (breaksBefore others)) spread⟩
      simp [sources, headed, source, Part.blankLine, breaksBefore, List.replicate_add]
    | heading title =>
      refine ⟨_, ?_, .next _ (by omega : 2 ≤ 4 + breaksBefore others) spread⟩
      simp [sources, headed, source, Part.blankLine, breaksBefore, List.replicate_add, line,
        Inline.renderHeading, Html.paragraph, Text.repeated, isParagraph.1.isLine.collapseBlanks_eq]
    | _ => exact isParagraph.1.elim

/-- Separated paragraphs have headings and no other commands. -/
theorem separated_fits {paragraphs : List Segment} {last : Text}
    (isParagraph : ∀ paragraph ∈ paragraphs, paragraph.IsParagraph) (plain : '\\' ∉ last) :
    ∀ segment ∈ separated paragraphs last,
      segment.Fits ∧ segment.heads ⊆ ["section\x7b".toList] := by
  have blank : '\\' ∉ ['\n', '\n'] := by decide
  rw [separated, List.forall_mem_append, List.forall_mem_singleton]
  refine ⟨fun segment member => ?_, plain, List.nil_subset _⟩
  obtain ⟨paragraph, listed, inside⟩ := List.mem_flatMap.mp member
  simp only [List.mem_cons, List.not_mem_nil, or_false] at inside
  rcases inside with rfl | rfl
  · refine ⟨(isParagraph _ listed).fits, ?_⟩
    have known := isParagraph _ listed
    cases segment with
    | text content => exact List.nil_subset _
    | heading title => exact List.Subset.refl _
    | _ => exact known.elim
  · exact ⟨blank, List.nil_subset _⟩

/-- Converted headings leave no backslash. -/
theorem plain_headed {paragraphs : List Segment} {last : Text}
    (isParagraph : ∀ paragraph ∈ paragraphs, paragraph.IsParagraph) (plain : '\\' ∉ last) :
    '\\' ∉ sources ((separated paragraphs last).map headed) := by
  obtain ⟨text, written, spread⟩ := spread_headed last isParagraph
  rw [written, List.mem_append, not_or]
  refine ⟨fun member => absurd (List.eq_of_mem_replicate member) (by decide), ?_⟩
  refine spread.not_mem (by decide) ?_
  rw [List.forall_mem_append, List.forall_mem_map, List.forall_mem_singleton]
  exact ⟨fun paragraph listed => (isParagraph paragraph listed).line.2.2, plain⟩

/-- Only headings of sections are converted. -/
theorem convertHeadings_separated {paragraphs : List Segment} {last : Text}
    (isParagraph : ∀ paragraph ∈ paragraphs, paragraph.IsParagraph) (plain : '\\' ∉ last) :
    Inline.convertHeadings (sources (separated paragraphs last)) =
      sources ((separated paragraphs last).map headed) := by
  have fits := separated_fits isParagraph plain
  have spells : Spells ["section\x7b".toList] (sources (separated paragraphs last)) :=
    spells_sources (fun segment listed => (fits segment listed).1)
      fun segment listed => (fits segment listed).2
  have lacks : Lacks ["part".toList, "chapter".toList] (sources (separated paragraphs last)) :=
    spells.lacks (by decide)
  have converted := replaceCommand_sources fun segment listed => (fits segment listed).1
  have written := plain_headed isParagraph plain
  have levels : Inline.headingLevels = ("part".toList, 1) :: ("chapter".toList, 1) ::
      ("section".toList, 1) :: Inline.headingLevels.drop 3 := rfl
  rw [Inline.convertHeadings, levels, List.foldl_cons, List.foldl_cons, List.foldl_cons]
  simp only [replaceCommand_of_absent (lacks "part".toList (by decide)),
    replaceCommand_of_absent (lacks "chapter".toList (by decide)), converted]
  exact List.foldl_fixed' (fun _ => replaceCommand_of_plain written ..) _

/-- The passes over the structure drop indentation and convert the headings. -/
theorem run_structure {paragraphs : List Segment} {last : Text}
    (isParagraph : ∀ paragraph ∈ paragraphs, paragraph.IsParagraph) (single : '\n' ∉ last)
    (plain : '\\' ∉ last) (state : State) :
    runPasses structurePasses state (sources (separated paragraphs last)) =
      (state, sources ((separated (paragraphs.map unindented)
        (Text.withoutIndentation last)).map headed)) := by
  let start := paragraphs.map unindented
  let ending := Text.withoutIndentation last
  have isStart : ∀ paragraph ∈ start, paragraph.IsParagraph := by
    rw [List.forall_mem_map]
    exact fun paragraph listed => (isParagraph paragraph listed).unindented
  have plainEnding : '\\' ∉ ending := by
    have inside : ending <:+ last := by
      simp only [ending, Text.withoutIndentation]
      split
      · exact List.suffix_refl _
      · exact List.dropWhile_suffix _
    exact fun member => plain (inside.subset member)
  have fits := separated_fits isStart plainEnding
  have spells : Spells ["section\x7b".toList] (sources (separated start ending)) :=
    spells_sources (fun segment listed => (fits segment listed).1)
      fun segment listed => (fits segment listed).2
  have lacks : Lacks ["bibitem".toList, "newblock".toList, "begin".toList, "end".toList,
      "item".toList, "centering".toList, "caption".toList] (sources (separated start ending)) :=
    spells.lacks (by decide)
  have unopened : ¬ "\\begin".toList <:+: sources (separated start ending) := lacks _ (by decide)
  have converted : Escaped [] (sources ((separated start ending).map headed)) :=
    .of_plain (plain_headed isStart plainEnding)
  have unindented : Text.stripIndentation (sources (separated paragraphs last)) =
      sources (separated start ending) := stripIndentation_separated isParagraph single
  have headings : Inline.convertHeadings (sources (separated start ending)) =
      sources ((separated start ending).map headed) := convertHeadings_separated isStart plainEnding
  simp only [structurePasses, runPasses, Pass.run, unindented,
    Block.convertItems_of_absent (lacks _ (by decide)) (lacks _ (by decide)),
    Block.convertLines_of_absent unopened,
    Block.convertLists_of_absent unopened (lacks _ (by decide)) (lacks _ (by decide)),
    Block.convertFloats_of_absent unopened (lacks _ (by decide)),
    Inline.convertCaptions_of_absent (lacks _ (by decide)), Block.convertRegions_of_absent unopened,
    headings, Inline.convertNotes_of_escaped converted, Inline.convertFormat_of_escaped converted,
    Inline.convertBoxes_of_escaped converted, Inline.convertSpacing_of_escaped converted,
    Block.convertTheorems_of_escaped converted, Block.dropUnknown_of_escaped converted,
    State.warn_nil]
  rfl

/-! ## Blanks in normal form -/

/-- Trimming a paragraph includes dropping its indentation. -/
theorem IsParagraph.trim_unindented {paragraph : Segment} (isParagraph : paragraph.IsParagraph) :
    Text.trim paragraph.unindented.line = Text.trim paragraph.line := by
  cases paragraph with
  | text content =>
    have bare : Text.trimStart (Text.trimStart content) = Text.trimStart content :=
      List.dropWhile_idempotent _ content
    have trimmed : Text.trim (Text.withoutIndentation content) = Text.trim content := by
      rw [isParagraph.1.withoutIndentation_eq, Text.trim, bare, ← Text.trim]
    exact trimmed
  | heading title => rfl
  | _ => exact isParagraph.elim

/-- Converted headings are followed by blanks in normal form: every paragraph is trimmed. -/
theorem run_blanks {paragraphs : List Segment} {last : Text}
    (isParagraph : ∀ paragraph ∈ paragraphs, paragraph.IsParagraph) (isLine : Text.IsLine last)
    (visible : Text.isBlankText last = false) (plain : '\\' ∉ last) (state : State) :
    runPasses [.normalizeSymbols, .normalizeBlanks] state
        (sources ((separated paragraphs last).map headed)) =
      (state, List.replicate (breaksBefore paragraphs) '\n' ++
        Text.joinWith ['\n', '\n'] ((paragraphs.map line ++ [last]).map Text.trim)) := by
  have lines : ∀ content ∈ paragraphs.map line ++ [last],
      Text.IsLine content ∧ Text.isBlankText content = false := by
    rw [List.forall_mem_append, List.forall_mem_map, List.forall_mem_singleton]
    refine ⟨fun paragraph listed => ?_, isLine, visible⟩
    have shown := (isParagraph paragraph listed).line
    exact ⟨shown.1, shown.2.1⟩
  have converted := plain_headed isParagraph plain
  obtain ⟨text, written, spread⟩ := spread_headed last isParagraph
  have symbols : Symbol.normalize (sources ((separated paragraphs last).map headed)) =
      sources ((separated paragraphs last).map headed) := by
    refine Symbol.normalize_of_unsigned (.of_plain converted) fun sign listed member => ?_
    rw [written] at member
    have different : ∀ sign ∈ "?!`'-~".toList, sign ≠ '\n' ∧ sign ∈ Text.lineMarks := by decide
    rcases List.mem_append.mp member with before | inside
    · exact (different sign listed).1 (List.eq_of_mem_replicate before)
    · exact spread.not_mem (different sign listed).1 (fun content among =>
        (lines content among).1.unmarked sign (different sign listed).2) inside
  have fewest : min (breaksBefore paragraphs) 2 = breaksBefore paragraphs := by
    refine Nat.min_eq_left ?_
    rw [breaksBefore.eq_def]
    split <;> decide
  simp only [runPasses, Pass.run, symbols]
  rw [written, spread.normalizeBlanks (fun content among => (lines content among).1)
    (fun content among => (lines content among).2), fewest]

end Segment

/-! ## Restoration -/

/-- A text without at signs stays where the pieces behind it are restored. -/
theorem restore_joinWith (store : FragmentStore) {piece : Text} (unsigned : '@' ∉ piece)
    {others : List Text} (nonempty : others ≠ []) :
    store.restore (Text.joinWith ['\n', '\n'] (piece :: others)) =
      piece ++ (List.replicate 2 '\n' ++
        store.restore (Text.joinWith ['\n', '\n'] others)) := by
  have breaks : '@' ∉ ['\n', '\n'] := by decide
  rw [Text.joinWith_cons _ _ nonempty, FragmentStore.restore_append unsigned,
    FragmentStore.restore_append breaks]
  rfl

/-- A formula is stored with a line break before it and one behind it. -/
theorem renderDisplay_eq (number : Nat) {body : Text} (letters : IsLetters body) :
    Math.renderDisplay false (some number) body = '\n' :: (Part.shownFormula number body ++ ['\n']) := by
  have visible {c : Char} (member : c ∈ body) : Text.isBlank c = false :=
    Text.isBlank_of_isAlpha (letters c member)
  have trimmed : Text.trim body = body :=
    Text.trim_of_visible (fun c head => visible (List.mem_of_head? head))
      fun c last => visible (List.mem_of_getLast? last)
  have displayed (content : Text) :
      Math.displayed content = "\n$$\n".toList ++ content ++ "\n$$\n".toList := rfl
  simp [Math.renderDisplay, trimmed, displayed, Part.shownFormula_eq]

/-- Restoration puts every formula in the place of its token. -/
theorem Part.spread_restore {store : FragmentStore} {parts : List Part}
    (wellFormed : ∀ part ∈ parts, part.WellFormed) {equations : Nat}
    (found : ∀ index fragment, (Part.fragmentsFrom equations parts)[index]? = some fragment →
      store.get? (equations + index) = some fragment) {last : Text} (unsigned : '@' ∉ last) :
    Text.Spread (Part.shownFrom equations parts ++ [last])
      (store.restore (Text.joinWith ['\n', '\n']
        ((Part.paragraphsFrom equations parts).map (Text.trim ∘ Segment.line) ++ [last]))) := by
  have trimmed {text : Text} (words : IsWordText text) : '@' ∉ Text.trim text := fun member =>
    words.not_mem (by decide) ((Text.trim_infix text).subset member)
  induction parts generalizing equations with
  | nil =>
    have kept := store.restore_append unsigned []
    have nothing : store.restore [] = [] := rfl
    rw [nothing, List.append_nil] at kept
    exact (congrArg (Text.Spread [last]) kept).mpr (.last last)
  | cons part others inductionHypothesis =>
    rw [List.forall_mem_cons] at wellFormed
    have filled (equations : Nat) : (Part.paragraphsFrom equations others).map
        (Text.trim ∘ Segment.line) ++ [last] ≠ [] := List.concat_ne_nil _ _
    cases part with
    | heading title key =>
      have mark : '@' ∉ "# ".toList := by decide
      have plain : '@' ∉ Text.trim ("# ".toList ++ Text.trim title) := fun member =>
        (List.mem_append.mp ((Text.trim_infix _).subset member)).elim mark (trimmed wellFormed.1.1)
      have first := restore_joinWith store plain (filled equations)
      exact (congrArg (Text.Spread _) first).mpr
        (.next _ (Nat.le_refl 2) (inductionHypothesis wellFormed.2 found))
    | paragraph text =>
      have first := restore_joinWith store (trimmed wellFormed.1.1) (filled equations)
      exact (congrArg (Text.Spread _) first).mpr
        (.next _ (Nat.le_refl 2) (inductionHypothesis wellFormed.2 found))
    | equation lead body key =>
      have further : ∀ index fragment, (Part.fragmentsFrom (equations + 1) others)[index]? =
          some fragment → store.get? (equations + 1 + index) = some fragment := by
        intro index fragment listed
        rw [Nat.add_right_comm]
        exact found (index + 1) fragment listed
      have here : store.get? equations = some ('\n' :: (Part.shownFormula (equations + 1) body ++
          ['\n'])) := by
        rw [← renderDisplay_eq (equations + 1) wellFormed.1.2.2.1]
        exact found 0 _ rfl
      have bare : Text.trim (Fragment.token equations) = Fragment.token equations :=
        Text.trim_of_visible (fun c head => visible_token _ c (List.mem_of_head? head))
          fun c last => visible_token _ c (List.mem_of_getLast? last)
      have first := restore_joinWith store (trimmed wellFormed.1.1)
        (List.cons_ne_nil (Fragment.token equations) ((Part.paragraphsFrom (equations + 1) others).map
          (Text.trim ∘ Segment.line) ++ [last]))
      have breaks : '@' ∉ ['\n', '\n'] := by decide
      have written : store.restore (Text.joinWith ['\n', '\n']
          ((Part.paragraphsFrom equations (.equation lead body key :: others)).map
            (Text.trim ∘ Segment.line) ++ [last])) =
          Text.trim lead ++ (List.replicate 3 '\n' ++ (Part.shownFormula (equations + 1) body ++
            (List.replicate 3 '\n' ++ store.restore (Text.joinWith ['\n', '\n']
              ((Part.paragraphsFrom (equations + 1) others).map (Text.trim ∘ Segment.line) ++
                [last]))))) := by
        rw [Text.joinWith_cons _ _ (filled (equations + 1)), FragmentStore.restore_token here,
          FragmentStore.restore_append breaks] at first
        have same : (Part.paragraphsFrom equations (.equation lead body key :: others)).map
            (Text.trim ∘ Segment.line) = Text.trim lead :: Fragment.token equations ::
              (Part.paragraphsFrom (equations + 1) others).map (Text.trim ∘ Segment.line) := by
          simp [Part.paragraphsFrom, Segment.line, Segment.source, bare]
        rw [same, List.cons_append, List.cons_append, first]
        simp [List.replicate]
      rw [written]
      exact .next _ (by decide) (.next _ (by decide) (inductionHypothesis wellFormed.2 further))

/-! ## Finished paragraphs -/

/-- A formula with its number fills three lines. -/
theorem solid_shownFormula (number : Nat) {body : Text} (letters : IsLetters body) :
    Text.Solid (Part.shownFormula number body) := by
  have dollars : Text.Solid ['$', '$'] := .of_single (by decide) (by decide) rfl
  have middle : Text.Solid (body ++ (" \\tag\x7b".toList ++ (Text.ofNat number ++ ['\x7d']))) := by
    have foreign : ∀ sign ∈ ['\n', '`'], sign.isAlpha = false ∧ sign.isDigit = false ∧
        sign ∉ " \\tag\x7b".toList ∧ sign ∉ ['\x7d'] := by decide
    have absent {sign : Char} (listed : sign ∈ ['\n', '`']) :
        sign ∉ body ++ (" \\tag\x7b".toList ++ (Text.ofNat number ++ ['\x7d'])) := by
      obtain ⟨letter, digit, front, back⟩ := foreign sign listed
      simp only [List.mem_append, not_or]
      refine ⟨letters.not_mem letter, front, fun member => ?_, back⟩
      rw [Fragment.isDigit_of_mem_ofNat member] at digit
      exact Bool.noConfusion digit
    have visible : Text.isBlankText
        (body ++ (" \\tag\x7b".toList ++ (Text.ofNat number ++ ['\x7d']))) = false :=
      List.all_eq_false.mpr ⟨'\x7d', by simp, by decide⟩
    exact .of_single (absent (by decide)) (absent (by decide)) visible
  have lines : Part.shownFormula number body = ['$', '$'] ++ '\n' ::
      ((body ++ (" \\tag\x7b".toList ++ (Text.ofNat number ++ ['\x7d']))) ++ '\n' :: ['$', '$']) := by
    simp [Part.shownFormula_eq]
  rw [lines]
  exact dollars.append (middle.append dollars)

/-- What is shown of parts has only visible lines. -/
theorem Part.solid_shownFrom {parts : List Part} (wellFormed : ∀ part ∈ parts, part.WellFormed)
    (equations : Nat) : ∀ content ∈ Part.shownFrom equations parts, Text.Solid content := by
  induction parts generalizing equations with
  | nil => exact List.forall_mem_nil _
  | cons part others inductionHypothesis =>
    rw [List.forall_mem_cons] at wellFormed
    have later := inductionHypothesis wellFormed.2
    cases part with
    | heading title key =>
      have title : (Segment.heading title).IsParagraph := wellFormed.1.1
      rw [Part.shownFrom, List.forall_mem_cons]
      exact ⟨title.line.1.solid_trim title.line.2.1, later equations⟩
    | paragraph text =>
      rw [Part.shownFrom, List.forall_mem_cons]
      exact ⟨wellFormed.1.1.isLine.solid_trim wellFormed.1.2, later equations⟩
    | equation lead body key =>
      obtain ⟨words, long, letters, -⟩ := wellFormed.1
      rw [Part.shownFrom, List.forall_mem_cons, List.forall_mem_cons]
      exact ⟨words.isLine.solid_trim (words.isBlankText_eq (le_trans (by decide) long)),
        solid_shownFormula _ letters, later (equations + 1)⟩

end LatexMarkdown.Document
