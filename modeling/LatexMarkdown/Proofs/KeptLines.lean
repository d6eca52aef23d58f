import LatexMarkdown.Proofs.KeptFragments
import LatexMarkdown.Proofs.Paragraphs

/-!
# The lines with blocks in theorem-like environments

An environment in italics sets its body line by line, but a line with the token of a block
stays as it is. What is put in front of such a line or behind it is at most a heading and the
end of a proof. So a conversion keeps the fragments of a text: all their tokens, in their
order, and every block outside italics.
-/

namespace LatexMarkdown.Block

open Fragment Scan

variable {style : Theorem} {store : FragmentStore} {title : Option Text}

/-! ## Kept lines -/

/-- A line with the token of a block is a part of the source. In front of it there may be a
heading, whose bold face ends before it, and behind it the end of a proof. -/
def KeepsLine (store : FragmentStore) (source line : Text) : Prop :=
  store.containsBlock line = true → ∃ front part ending, line = front ++ (part ++ ending) ∧
    part <:+: source ∧ (front = [] ∨ TokenFree front ∧ ".** ".toList <:+ front) ∧
      ∀ c ∈ ending, c ∈ [' ', '∎']

/-- Every line with the token of a block is kept. -/
def KeepsLines (store : FragmentStore) (source text : Text) : Prop :=
  ∀ line ∈ Text.splitOn '\n' text, KeepsLine store source line

section Lines

variable {source : Text}

theorem containsBlock_congr {text other : Text} (same : spelled text = spelled other) :
    store.containsBlock text = store.containsBlock other := by
  rw [FragmentStore.containsBlock, FragmentStore.containsBlock, tokens_eq, tokens_eq, same]

theorem containsBlock_of_tokenFree {text : Text} (free : TokenFree text) :
    store.containsBlock text = false := by
  rw [FragmentStore.containsBlock, tokens_eq, spelled_of_tokenFree free]
  rfl

/-- A line without blocks is kept, whatever it is. -/
theorem KeepsLine.of_containsBlock {line : Text} (blockless : store.containsBlock line = false) :
    KeepsLine store source line := by
  intro block
  rw [blockless] at block
  cases block

/-- A part of the source is kept. -/
theorem KeepsLine.of_part {line : Text} (inside : line <:+: source) :
    KeepsLine store source line :=
  fun _ => ⟨[], line, [], by simp, inside, .inl rfl, List.forall_mem_nil _⟩

/-- A line break splits the lines. -/
@[simp] theorem keepsLines_append_cons {before after : Text} :
    KeepsLines store source (before ++ '\n' :: after) ↔
      KeepsLines store source before ∧ KeepsLines store source after := by
  rw [KeepsLines, Text.splitOn_append, List.forall_mem_append]
  rfl

@[simp] theorem keepsLines_cons {after : Text} :
    KeepsLines store source ('\n' :: after) ↔ KeepsLines store source after := by
  have empty : KeepsLines store source [] :=
    List.forall_mem_singleton.mpr (.of_part List.nil_infix)
  rw [← List.nil_append ('\n' :: after), keepsLines_append_cons, and_iff_right empty]

/-- A single line is its only line. -/
theorem keepsLines_iff {line : Text} (single : '\n' ∉ line) :
    KeepsLines store source line ↔ KeepsLine store source line := by
  rw [KeepsLines, Text.splitOn_of_not_mem single, List.forall_mem_singleton]

/-- A text without blocks keeps all its lines. -/
theorem KeepsLines.of_containsBlock {text : Text} (blockless : store.containsBlock text = false) :
    KeepsLines store source text := by
  induction text using Text.line_induction with
  | single line alone => exact (keepsLines_iff alone).mpr (.of_containsBlock blockless)
  | line line rest alone inductionHypothesis =>
    rw [FragmentStore.containsBlock, tokens_eq, spelled_append_cons (by decide), List.map_append,
      List.any_append, Bool.or_eq_false_iff, ← tokens_eq, ← tokens_eq] at blockless
    rw [keepsLines_append_cons, keepsLines_iff alone]
    exact ⟨.of_containsBlock blockless.1, inductionHypothesis blockless.2⟩

/-- A part of the source keeps its lines. -/
theorem KeepsLines.of_part {text : Text} (inside : text <:+: source) :
    KeepsLines store source text := by
  induction text using Text.line_induction with
  | single line alone => exact (keepsLines_iff alone).mpr (.of_part inside)
  | line line rest alone inductionHypothesis =>
    rw [keepsLines_append_cons, keepsLines_iff alone]
    refine ⟨.of_part ((List.prefix_append _ _).isInfix.trans inside), inductionHypothesis ?_⟩
    exact ((List.suffix_cons _ _).trans (List.suffix_append _ _)).isInfix.trans inside

/-- A blank before a kept line is none of what is kept. -/
theorem KeepsLine.of_cons {c : Char} {line : Text} (blank : Text.isBlank c = true)
    (keeps : KeepsLine store source (c :: line)) : KeepsLine store source line := by
  intro block
  have whole : store.containsBlock (c :: line) = true := by
    rwa [containsBlock_congr (spelled_cons (separates_of_isBlank blank) line)]
  obtain ⟨front, part, ending, split, inside, heading, closing⟩ := keeps whole
  cases front with
  | cons d front =>
    obtain ⟨rfl, rfl⟩ := List.cons.inj split
    obtain ⟨free, start, bold⟩ := heading.resolve_left (List.cons_ne_nil c front)
    refine ⟨front, part, ending, rfl, inside, .inr ⟨?_, ?_⟩, closing⟩
    · exact (tokenFree_cons (separates_of_isBlank blank)).mp free
    · cases start with
      | nil =>
        obtain rfl : '.' = c := (List.cons.inj bold).1
        exact absurd blank (by decide)
      | cons e start => exact ⟨start, (List.cons.inj bold).2⟩
  | nil =>
    cases part with
    | cons d part =>
      obtain ⟨rfl, rfl⟩ := List.cons.inj split
      exact ⟨[], part, ending, rfl, (List.suffix_cons c part).isInfix.trans inside, .inl rfl,
        closing⟩
    | nil =>
      rw [List.nil_append, List.nil_append] at split
      rw [← split, List.forall_mem_cons] at closing
      exact ⟨[], [], line, rfl, List.nil_infix, .inl rfl, closing.2⟩

/-- A blank behind a kept line is none of what is kept. -/
theorem KeepsLine.of_concat {c : Char} {line : Text} (blank : Text.isBlank c = true)
    (keeps : KeepsLine store source (line ++ [c])) : KeepsLine store source line := by
  intro block
  have separating : Separating [c] := List.forall_mem_singleton.mpr (separates_of_isBlank blank)
  have whole : store.containsBlock (line ++ [c]) = true := by
    rwa [containsBlock_congr (spelled_append_right line separating)]
  obtain ⟨front, part, ending, split, inside, heading, closing⟩ := keeps whole
  rcases List.eq_nil_or_concat' ending with rfl | ⟨ending, d, rfl⟩
  · rw [List.append_nil] at split
    rcases List.eq_nil_or_concat' part with rfl | ⟨part, d, rfl⟩
    · -- The line has no token, as it is but a heading.
      rw [List.append_nil] at split
      rcases heading with rfl | ⟨free, -⟩
      · exact absurd split (List.append_ne_nil_of_right_ne_nil _ (List.cons_ne_nil c []))
      · rw [← split] at free
        rw [containsBlock_of_tokenFree (free.of_infix (List.prefix_append _ _).isInfix)] at block
        cases block
    · rw [← List.append_assoc] at split
      obtain ⟨rfl, -⟩ := List.append_inj' split rfl
      refine ⟨front, part, [], by rw [List.append_nil], ?_, heading, List.forall_mem_nil _⟩
      exact (List.prefix_append _ _).isInfix.trans inside
  · rw [← List.append_assoc, ← List.append_assoc, List.append_assoc front] at split
    obtain ⟨rfl, -⟩ := List.append_inj' split rfl
    exact ⟨front, part, ending, rfl, inside, heading,
      fun e member => closing e (List.mem_append_left _ member)⟩

/-- Behind a heading a kept line is kept. -/
theorem KeepsLine.headed {heading line : Text} (free : TokenFree heading)
    (bold : ".**".toList <:+ heading) (keeps : KeepsLine store source line) :
    KeepsLine store source (heading ++ ' ' :: line) := by
  intro block
  have same : spelled (heading ++ ' ' :: line) = spelled line := by
    rw [spelled_append_cons (by decide), spelled_of_tokenFree free, List.nil_append]
  rw [containsBlock_congr same] at block
  obtain ⟨front, part, ending, rfl, inside, start, closing⟩ := keeps block
  refine ⟨heading ++ ' ' :: front, part, ending, by simp, inside, .inr ?_, closing⟩
  obtain ⟨before, rfl⟩ := bold
  rcases start with rfl | ⟨freeFront, later⟩
  · exact ⟨(tokenFree_append_cons (by decide)).mpr ⟨free, .nil⟩, before, by simp⟩
  · exact ⟨(tokenFree_append_cons (by decide)).mpr ⟨free, freeFront⟩,
      (later.trans (List.suffix_cons _ _)).trans (List.suffix_append _ _)⟩

/-- Before the end of a proof a kept line is kept. -/
theorem KeepsLine.ended {line ending : Text} (closing : ∀ c ∈ ending, c ∈ [' ', '∎'])
    (keeps : KeepsLine store source line) : KeepsLine store source (line ++ ending) := by
  intro block
  have signs : ∀ c ∈ [' ', '∎'], Separates c := by decide
  have same : spelled (line ++ ending) = spelled line :=
    spelled_append_right line fun c member => signs c (closing c member)
  rw [containsBlock_congr same] at block
  obtain ⟨front, part, others, rfl, inside, start, later⟩ := keeps block
  exact ⟨front, part, others ++ ending, by simp, inside, start,
    List.forall_mem_append.mpr ⟨later, closing⟩⟩

namespace KeepsLines

variable {text : Text}

theorem of_cons {c : Char} (blank : Text.isBlank c = true)
    (keeps : KeepsLines store source (c :: text)) : KeepsLines store source text := by
  by_cases broken : c = '\n'
  · rw [broken] at keeps
    exact keepsLines_cons.mp keeps
  induction text using Text.line_induction with
  | single line alone =>
    have single : '\n' ∉ c :: line := List.not_mem_cons_of_ne_of_not_mem (Ne.symm broken) alone
    exact (keepsLines_iff alone).mpr (((keepsLines_iff single).mp keeps).of_cons blank)
  | line line rest alone =>
    have single : '\n' ∉ c :: line := List.not_mem_cons_of_ne_of_not_mem (Ne.symm broken) alone
    rw [← List.cons_append, keepsLines_append_cons, keepsLines_iff single] at keeps
    rw [keepsLines_append_cons, keepsLines_iff alone]
    exact ⟨keeps.1.of_cons blank, keeps.2⟩

theorem of_concat {c : Char} (blank : Text.isBlank c = true)
    (keeps : KeepsLines store source (text ++ [c])) : KeepsLines store source text := by
  by_cases broken : c = '\n'
  · rw [broken] at keeps
    exact (keepsLines_append_cons.mp keeps).1
  induction text using Text.line_induction with
  | single line alone =>
    have single : '\n' ∉ line ++ [c] :=
      List.not_mem_append alone (mt List.mem_singleton.mp (Ne.symm broken))
    exact (keepsLines_iff alone).mpr (((keepsLines_iff single).mp keeps).of_concat blank)
  | line line rest alone inductionHypothesis =>
    rw [List.append_assoc, List.cons_append, keepsLines_append_cons] at keeps
    rw [keepsLines_append_cons]
    exact ⟨keeps.1, inductionHypothesis keeps.2⟩

theorem of_append_left {blanks : Text} (blank : ∀ c ∈ blanks, Text.isBlank c = true)
    (keeps : KeepsLines store source (blanks ++ text)) : KeepsLines store source text := by
  induction blanks with
  | nil => exact keeps
  | cons c others inductionHypothesis =>
    obtain ⟨here, later⟩ := List.forall_mem_cons.mp blank
    exact inductionHypothesis later (keeps.of_cons here)

theorem of_append_right {blanks : Text} (blank : ∀ c ∈ blanks, Text.isBlank c = true)
    (keeps : KeepsLines store source (text ++ blanks)) : KeepsLines store source text := by
  induction blanks using List.reverseRecOn with
  | nil => rwa [List.append_nil] at keeps
  | append_singleton others c inductionHypothesis =>
    obtain ⟨later, here⟩ := List.forall_mem_append.mp blank
    rw [← List.append_assoc] at keeps
    exact inductionHypothesis later (keeps.of_concat (here c List.mem_cons_self))

/-- Trimming cuts no kept line. -/
theorem trimStart (keeps : KeepsLines store source text) :
    KeepsLines store source (Text.trimStart text) := by
  rw [← List.takeWhile_append_dropWhile (p := Text.isBlank) (l := text)] at keeps
  exact keeps.of_append_left fun c => List.mem_takeWhile_imp

theorem trimEnd (keeps : KeepsLines store source text) :
    KeepsLines store source (Text.trimEnd text) := by
  rw [← List.rdropWhile_append_rtakeWhile (p := Text.isBlank) (l := text)] at keeps
  rw [Text.trimEnd, Text.dropTrailing_eq_rdropWhile]
  exact keeps.of_append_right fun c => List.mem_rtakeWhile_imp

theorem trim (keeps : KeepsLines store source text) :
    KeepsLines store source (Text.trim text) :=
  keeps.trimStart.trimEnd

/-- A heading in front is on the first line alone. -/
theorem headed {heading : Text} (free : TokenFree heading) (bold : ".**".toList <:+ heading)
    (keeps : KeepsLines store source text) :
    KeepsLines store source (heading ++ ' ' :: text) := by
  induction heading using Text.line_induction with
  | single heading unbroken =>
    induction text using Text.line_induction with
    | single line alone =>
      have single : '\n' ∉ heading ++ ' ' :: line :=
        List.not_mem_append unbroken (List.not_mem_cons_of_ne_of_not_mem (by decide) alone)
      exact (keepsLines_iff single).mpr (((keepsLines_iff alone).mp keeps).headed free bold)
    | line line rest alone =>
      have single : '\n' ∉ heading ++ ' ' :: line :=
        List.not_mem_append unbroken (List.not_mem_cons_of_ne_of_not_mem (by decide) alone)
      rw [keepsLines_append_cons, keepsLines_iff alone] at keeps
      rw [← List.cons_append, ← List.append_assoc, keepsLines_append_cons, keepsLines_iff single]
      exact ⟨keeps.1.headed free bold, keeps.2⟩
  | line line rest alone inductionHypothesis =>
    have last : ".**".toList <:+ rest := by
      rcases List.suffix_or_suffix_of_suffix bold (List.suffix_append line ('\n' :: rest)) with
        within | beyond
      · exact (List.suffix_cons_iff.mp within).resolve_left (by simp)
      · exact absurd (beyond.subset List.mem_cons_self) (by decide)
    rw [tokenFree_append_cons (by decide)] at free
    rw [List.append_assoc, List.cons_append, keepsLines_append_cons]
    exact ⟨.of_containsBlock (containsBlock_of_tokenFree free.1), inductionHypothesis free.2 last⟩

/-- The end of a proof is on the last line alone. -/
theorem ended {ending : Text} (closing : ∀ c ∈ ending, c ∈ [' ', '∎'])
    (keeps : KeepsLines store source text) : KeepsLines store source (text ++ ending) := by
  have unbroken : '\n' ∉ ending := fun member => absurd (closing _ member) (by decide)
  induction text using Text.line_induction with
  | single line alone =>
    rw [keepsLines_iff (List.not_mem_append alone unbroken)]
    exact ((keepsLines_iff alone).mp keeps).ended closing
  | line line rest alone inductionHypothesis =>
    rw [keepsLines_append_cons] at keeps
    rw [List.append_assoc, List.cons_append, keepsLines_append_cons]
    exact ⟨keeps.1, inductionHypothesis keeps.2⟩

/-- In italics a line with a block stays as it is. -/
theorem italicizeLine {line : Text} (keeps : KeepsLines store source line) :
    KeepsLines store source (Block.italicizeLine store line) := by
  by_cases block : store.containsBlock line = true
  · rwa [Block.italicizeLine, isStructural, block, Bool.or_true, if_pos rfl]
  · refine .of_containsBlock ?_
    rw [containsBlock_congr (spelled_italicizeLine line)]
    exact Bool.eq_false_iff.mpr block

theorem italicize (keeps : KeepsLines store source text) :
    KeepsLines store source (Block.italicize store text) := by
  induction text using Text.line_induction with
  | single line alone =>
    by_cases empty : line = []
    · rwa [empty] at keeps ⊢
    · rw [Block.italicize, lines_of_single alone empty]
      exact keeps.italicizeLine
  | line line rest alone inductionHypothesis =>
    rw [keepsLines_append_cons] at keeps
    have first : KeepsLines store source (Text.withoutBreak (line ++ ['\n'])) := by
      rw [Text.withoutBreak, List.getLast?_concat, if_pos rfl, List.dropLast_concat]
      split
      next returned =>
        obtain ⟨front, rfl⟩ := List.getLast?_eq_some_iff.mp returned
        rw [List.dropLast_concat]
        exact keeps.1.of_concat (by decide)
      · exact keeps.1
    have others := inductionHypothesis keeps.2
    rw [Block.italicize] at others ⊢
    rw [Text.lines, Text.linesWithBreaks_line alone, List.map_cons, List.map_cons, ← Text.lines]
    cases later : (Text.lines rest).map (Block.italicizeLine store) with
    | nil => exact first.italicizeLine
    | cons second more =>
      rw [later] at others
      rw [Text.joinWith, List.append_assoc, List.singleton_append, keepsLines_append_cons]
      exact ⟨first.italicizeLine, others⟩

/-- Around a body that keeps its lines an environment keeps them. -/
theorem render {options : Options} (shown : options.preview = false) (plain : IsPlainStyle style)
    (titled : ∀ text, title = some text → TokenFree text) {before after : Text}
    (front : KeepsLines store source before) (keeps : KeepsLines store source text)
    (behind : KeepsLines store source after) :
    KeepsLines store source (before ++ (style.render options store title text ++ after)) := by
  have styled : KeepsLines store source
      (if style.italic then Block.italicize store (Text.trim text) else Text.trim text) := by
    split
    · exact keeps.trim.italicize
    · exact keeps.trim
  have content : KeepsLines store source (style.content store (Text.trim text)) := by
    simp only [Theorem.content]
    split
    · exact styled.trimEnd.ended (by decide)
    · exact styled
  obtain ⟨free, bold⟩ := heading_tokenFree plain titled
  have bare : KeepsLines store source (style.heading title) :=
    .of_containsBlock (containsBlock_of_tokenFree free)
  have headed : KeepsLines store source (renderedContent style store title text) := by
    rw [renderedContent, withHeading]
    split
    · exact content
    next nonempty =>
    split
    · exact bare
    split
    · have breaks : "\n\n".toList ++ style.content store (Text.trim text) =
          '\n' :: '\n' :: style.content store (Text.trim text) := rfl
      rw [List.append_assoc, breaks, keepsLines_append_cons, keepsLines_cons]
      exact ⟨bare, content⟩
    · exact content.headed free (bold (mt List.isEmpty_iff.mpr nonempty))
  have opening : KeepsLines store source (openingTag style) :=
    .of_containsBlock (containsBlock_of_tokenFree (openingTag_tokenFree plain))
  have closing : KeepsLines store source "</div>".toList :=
    .of_containsBlock (containsBlock_of_tokenFree (.of_no_at (by decide)))
  rw [render_eq shown, paragraph_append, List.append_assoc (openingTag style), paragraph_append,
    List.append_assoc (openingTag style)]
  simp only [List.cons_append, List.append_assoc, keepsLines_append_cons, keepsLines_cons]
  exact ⟨front, opening, headed, closing, behind⟩

end KeepsLines

end Lines

section Conversion

variable {context : TheoremContext} (shown : context.options.preview = false)
  (labels : ∀ entry ∈ context.defined, TokenFree entry.2)

include shown labels

/-- A conversion keeps the lines with blocks. -/
theorem Converted.keepsLines {source text output : Text} (converted : Converted context text output)
    (openers : OpenersFree text) (inside : text <:+: source) :
    KeepsLines context.store source output := by
  induction converted with
  | kept => exact .of_part inside
  | @environment before matched rest name inner written style cursor found free opens known
      isEnvironment body more bodyHypothesis moreHypothesis =>
    obtain ⟨arguments, openersBody, openersRest⟩ := openers.parts opens known isEnvironment free
    obtain ⟨options, required, -, -, split⟩ := isEnvironment.exists_groups
    have plain : IsPlainStyle style :=
      isPlainStyle_of_findTheorem? labels (not_mem_of_readOpeningName opens (by decide)) known
    have titled : ∀ title, found.arguments.option? 0 = some title → TokenFree title :=
      fun title given => arguments title
        (List.mem_append_left _ (List.mem_of_getElem? given))
    have bodyInside : found.body <:+: before ++ (matched ++ rest) :=
      ⟨before ++ (beginMarker name ++ (options ++ required)), endMarker name ++ rest, by
        rw [split]
        simp⟩
    have restInside : rest <:+: before ++ (matched ++ rest) :=
      ((List.suffix_append _ _).trans (List.suffix_append _ _)).isInfix
    exact .render shown plain titled
      (.of_part ((List.prefix_append _ _).isInfix.trans inside))
      (bodyHypothesis openersBody (bodyInside.trans inside))
      (moreHypothesis openersRest (restInside.trans inside))

/-- Outside a preview, the conversion of theorem-like environments keeps the tokens of a text,
each once and in their order, if no token stands in the arguments of an opening marker or in
the label of a declared environment. It sets no line with the token of a block in italics: such
a line is a part of the text as it was, with no more than a heading before it, which ends
before the line does, and the end of a proof behind it. -/
theorem convertTheorems_keeps_fragments {text : Text} (openers : OpenersFree text) :
    spelled (convertTheorems context text) = spelled text ∧
      KeepsLines context.store text (convertTheorems context text) :=
  ⟨(converted_convertTheorems text).spelled_eq shown labels openers,
    (converted_convertTheorems text).keepsLines shown labels openers (List.infix_refl text)⟩

end Conversion

/-- A proof in a declared theorem, with a block on a line of its own and formulas in others. -/
theorem convertTheorems_keeps_fragments_proof :
    let context : TheoremContext :=
      ⟨.standard, ⟨#["$x$".toList, "\n\n$$y$$\n\n".toList]⟩, [("teo".toList, "Satz".toList)]⟩
    let text := ("\\begin\x7bteo\x7d[Main] let @@BLOCK0@@\n@@BLOCK1@@ hold\n" ++
      "\\begin\x7bproof\x7dby @@BLOCK0@@\\end\x7bproof\x7d\\end\x7bteo\x7d").toList
    context.options.preview = false ∧ (∀ entry ∈ context.defined, TokenFree entry.2) ∧
      OpenersFree text ∧ spelled text = ["0".toList, "1".toList, "0".toList] ∧
        "@@BLOCK1@@ hold".toList ∈ Text.splitOn '\n' (convertTheorems context text) ∧
          spelled (convertTheorems context text) = spelled text ∧
            KeepsLines context.store text (convertTheorems context text) := by
  intro context text
  have labels : ∀ entry ∈ context.defined, TokenFree entry.2 := by
    have bare : ∀ entry ∈ context.defined, '@' ∉ entry.2 := by decide
    exact fun entry listed => .of_no_at (bare entry listed)
  obtain ⟨bare, fragments, kept⟩ :
      Everywhere (fun suffix => ∀ argument ∈ openingArguments suffix, '@' ∉ argument) false text ∧
        spelled text = ["0".toList, "1".toList, "0".toList] ∧
          "@@BLOCK1@@ hold".toList ∈ Text.splitOn '\n' (convertTheorems context text) := by
    decide +kernel
  have openers : OpenersFree text :=
    bare.imp fun suffix _ _ all argument member => .of_no_at (all argument member)
  exact ⟨rfl, labels, openers, fragments, kept, convertTheorems_keeps_fragments rfl labels openers⟩

end LatexMarkdown.Block
