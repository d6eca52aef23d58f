import LatexMarkdown.Proofs.Layout
import LatexMarkdown.Proofs.Pieces

/-!
# Layout of paragraphs

In a text of paragraphs two line breaks or more stand between one paragraph and the
next. Bringing blanks into normal form changes the lines one by one and leaves exactly
two line breaks; finishing the layout does the same for paragraphs of several lines.
-/

namespace LatexMarkdown.Text

/-- Contents one after another, with two line breaks or more between them. -/
inductive Spread : List Text → Text → Prop where
  | last (content : Text) : Spread [content] content
  | next (content : Text) {breaks : Nat} {contents : List Text} {text : Text}
      (apart : 2 ≤ breaks) (later : Spread contents text) :
      Spread (content :: contents) (content ++ (List.replicate breaks '\n' ++ text))

/-- Line breaks are in no pattern without them. -/
theorem apart_breaks {pattern : Text} (absent : '\n' ∉ pattern) (breaks : Nat) :
    Apart (List.replicate breaks '\n') pattern := by
  intro c member
  rwa [List.eq_of_mem_replicate member]

/-- The first of several pieces is joined to the others. -/
theorem joinWith_cons (separator piece : Text) {others : List Text} (nonempty : others ≠ []) :
    joinWith separator (piece :: others) = piece ++ (separator ++ joinWith separator others) := by
  obtain ⟨next, later, rfl⟩ := List.exists_cons_of_ne_nil nonempty
  rw [joinWith, List.append_assoc]

/-! ## Lines -/

/-- A separator splits the pieces before it from the pieces after it. -/
theorem splitOn_append (separator : Char) (before after : Text) :
    splitOn separator (before ++ separator :: after) =
      splitOn separator before ++ splitOn separator after := by
  induction before with
  | nil => simp [splitOn]
  | cons c others inductionHypothesis =>
    rw [List.cons_append, splitOn, splitOn, inductionHypothesis]
    split
    · rfl
    · obtain ⟨first, later, split⟩ := List.exists_cons_of_ne_nil (splitOn_ne_nil separator others)
      rw [split]
      rfl

/-- Line breaks at the start begin empty lines. -/
theorem splitOn_breaks (breaks : Nat) (text : Text) :
    splitOn '\n' (List.replicate breaks '\n' ++ text) =
      List.replicate breaks [] ++ splitOn '\n' text := by
  induction breaks with
  | zero => rfl
  | succ breaks inductionHypothesis =>
    rw [List.replicate_succ, List.cons_append, splitOn, if_pos rfl, inductionHypothesis]
    rfl

/-- A line is changed by itself. -/
theorem mapLines_append {change : Text → Text} {line : Text} (single : '\n' ∉ line) (rest : Text) :
    mapLines change (line ++ '\n' :: rest) = change line ++ '\n' :: mapLines change rest := by
  obtain ⟨first, later, split⟩ := List.exists_cons_of_ne_nil (splitOn_ne_nil '\n' rest)
  rw [mapLines, mapLines, splitOn_append_cons single, split]
  simp [joinWith]

/-- Empty lines that are not changed are kept. -/
theorem mapLines_breaks {change : Text → Text} (empty : change [] = []) (breaks : Nat) (rest : Text) :
    mapLines change (List.replicate breaks '\n' ++ rest) =
      List.replicate breaks '\n' ++ mapLines change rest := by
  induction breaks with
  | zero => rfl
  | succ breaks inductionHypothesis =>
    have first : mapLines change ([] ++ '\n' :: (List.replicate breaks '\n' ++ rest)) = _ :=
      mapLines_append List.not_mem_nil _
    rw [List.nil_append, empty, inductionHypothesis] at first
    exact first

/-- Nothing before a character that is not blank is dropped at the end. -/
theorem trimEnd_cons {c : Char} (visible : isBlank c = false) (rest : Text) :
    trimEnd (c :: rest) = c :: trimEnd rest :=
  dropTrailing_cons_of_neg visible rest

/-- The signs of list items and of punctuation. -/
def lineMarks : List Char :=
  "?!`'-~.".toList

/-- A line whose blanks are single spaces, without marks. -/
structure IsLine (text : Text) : Prop where
  space : ∀ c ∈ text, isBlank c = true → c = ' '
  spaced : ¬ [' ', ' '] <:+: text
  unmarked : ∀ sign ∈ lineMarks, sign ∉ text

namespace IsLine

variable {text : Text}

/-- A part of a line is a line. -/
theorem of_infix (line : IsLine text) {part : Text} (inside : part <:+: text) : IsLine part where
  space c member := line.space c (inside.subset member)
  spaced occurs := line.spaced (occurs.trans inside)
  unmarked sign listed member := line.unmarked sign listed (inside.subset member)

theorem nil : IsLine [] where
  space _ member := absurd member List.not_mem_nil
  spaced := by decide
  unmarked _ _ := List.not_mem_nil

/-- Visible characters may stand in front of a line. -/
theorem append_left (line : IsLine text) {word : Text} (visible : ∀ c ∈ word, isBlank c = false)
    (unmarked : ∀ sign ∈ lineMarks, sign ∉ word) : IsLine (word ++ text) where
  space c member blank := by
    rcases List.mem_append.mp member with inside | later
    · rw [visible c inside] at blank
      exact Bool.noConfusion blank
    · exact line.space c later blank
  spaced := by
    have apart : Apart word [' ', ' '] := by
      intro c inside listed
      have shown := visible c inside
      rw [List.eq_of_mem_replicate (n := 2) listed] at shown
      exact absurd shown (by decide)
    rw [infix_append_left_iff apart]
    exact line.spaced
  unmarked sign listed := by
    rw [List.mem_append, not_or]
    exact ⟨unmarked sign listed, line.unmarked sign listed⟩

/-- A space may stand in front of a line that does not start with one. -/
theorem cons_space (line : IsLine text) (start : text.head? ≠ some ' ') : IsLine (' ' :: text) where
  space c member blank := by
    rcases List.mem_cons.mp member with same | later
    · exact same
    · exact line.space c later blank
  spaced := by
    rw [List.infix_cons_iff, not_or]
    refine ⟨fun double => start ?_, line.spaced⟩
    obtain ⟨rest, rfl⟩ := (List.cons_prefix_cons.mp double).2
    rfl
  unmarked sign listed := by
    have foreign : ∀ sign ∈ lineMarks, sign ≠ ' ' := by decide
    rw [List.mem_cons, not_or]
    exact ⟨foreign sign listed, line.unmarked sign listed⟩

theorem single (line : IsLine text) : '\n' ∉ text :=
  fun member => absurd (line.space _ member (by decide)) (by decide)

theorem untabbed (line : IsLine text) : '\t' ∉ text :=
  fun member => absurd (line.space _ member (by decide)) (by decide)

/-- The blanks of a line are those that count as indentation. -/
theorem isSpaceOrTab_eq (line : IsLine text) {c : Char} (member : c ∈ text) :
    isSpaceOrTab c = isBlank c := by
  cases blank : isBlank c with
  | true =>
    rw [line.space c member blank]
    rfl
  | false =>
    refine Bool.eq_false_iff.mpr fun space => ?_
    simp only [isSpaceOrTab, Bool.or_eq_true, decide_eq_true_eq] at space
    rcases space with rfl | rfl <;> exact absurd blank (by decide)

/-- All blanks at the start of a line are indentation, since it is no list item. -/
theorem withoutIndentation_eq (line : IsLine text) : withoutIndentation text = trimStart text := by
  have start : text.dropWhile isSpaceOrTab = trimStart text := by
    have same : ∀ c ∈ text, isSpaceOrTab c = isBlank c := fun _ => line.isSpaceOrTab_eq
    clear line
    induction text with
    | nil => rfl
    | cons c rest inductionHypothesis =>
      rw [List.forall_mem_cons] at same
      rw [trimStart, List.dropWhile_cons, List.dropWhile_cons, same.1, inductionHypothesis same.2]
      rfl
  have unstarted {marker : Text} {sign : Char} (signed : sign ∈ marker)
      (foreign : sign ∈ lineMarks) {part : Text} (inside : part <:+ text) :
      startsWith marker part = false := by
    have absent : dropFront? marker part = none :=
      dropFront?_eq_none_iff.mpr fun front =>
        line.unmarked sign foreign (inside.subset (front.subset signed))
    rw [startsWith, absent]
    rfl
  have bare : text.dropWhile isSpaceOrTab <:+ text := List.dropWhile_suffix _
  have bullet : startsWith "- ".toList (text.dropWhile isSpaceOrTab) = false :=
    unstarted (by decide : '-' ∈ _) (by decide) bare
  have number : startsWith ". ".toList
      ((text.dropWhile isSpaceOrTab).dropWhile isDecimal) = false :=
    unstarted (by decide : '.' ∈ _) (by decide) ((List.dropWhile_suffix _).trans bare)
  rw [withoutIndentation, startsWithItemMarker, bullet, number, start]
  simp

/-- All blanks at the end of a line are dropped from it. -/
theorem dropTrailing_eq (line : IsLine text) : dropTrailing isSpaceOrTab text = trimEnd text :=
  List.foldr_ext _ _ _ fun c member kept => by rw [line.isSpaceOrTab_eq member]

/-- Without indentation and blanks at the end a line is trimmed. -/
theorem stripped_eq (line : IsLine text) :
    dropTrailing isSpaceOrTab (withoutIndentation text) = trim text := by
  have start : IsLine (trimStart text) := line.of_infix (List.dropWhile_suffix _).isInfix
  rw [line.withoutIndentation_eq, start.dropTrailing_eq, trim]

/-- Collapsing the blanks of a line trims it. -/
theorem collapseBlanks_eq (line : IsLine text) : collapseBlanks text = trim text := by
  induction text with
  | nil => rfl
  | cons c rest inductionHypothesis =>
    have later := inductionHypothesis (line.of_infix (List.suffix_cons c rest).isInfix)
    by_cases blank : isBlank c = true
    · have start : trimStart (c :: rest) = trimStart rest := List.dropWhile_cons_of_pos blank
      rw [trim, start, ← trim, ← later, collapseBlanks, words_blank blank, collapseBlanks]
    · have shown : trim (c :: rest) = c :: trimEnd rest := by
        have start : trimStart (c :: rest) = c :: rest := List.dropWhile_cons_of_neg blank
        rw [trim, start, trimEnd_cons (Bool.eq_false_iff.mpr blank)]
      rw [shown]
      cases rest with
      | nil => exact congrArg (joinWith [' ']) (if_neg blank)
      | cons next others =>
        by_cases spaced : isBlank next = true
        · -- A single space ends the first word.
          have read : words (c :: next :: others) = [c] :: words others :=
            (if_neg blank).trans ((if_pos spaced).trans
              (congrArg ([c] :: ·) (words_blank spaced)))
          have behind : collapseBlanks others = trim (next :: others) := by
            rw [← later, collapseBlanks, collapseBlanks, words_blank spaced]
          cases others with
          | nil =>
            have ending : trimEnd [next] = [] := by simp [trimEnd, dropTrailing, spaced]
            rw [collapseBlanks, read, ending]
            rfl
          | cons d more =>
            have second : isBlank d = false := by
              refine Bool.eq_false_iff.mpr fun blankToo => line.spaced ?_
              rw [line.space next (by simp) spaced, line.space d (by simp) blankToo]
              exact ⟨[c], more, rfl⟩
            have ending : trimEnd (d :: more) = d :: trimEnd more := trimEnd_cons second more
            have start : trim (next :: d :: more) = d :: trimEnd more := by
              rw [trim, trimStart, List.dropWhile_cons_of_pos spaced,
                List.dropWhile_cons_of_neg (Bool.eq_false_iff.mp second), ending]
            have kept : trimEnd (next :: d :: more) = next :: d :: trimEnd more := by
              rw [trimEnd, dropTrailing, List.foldr_cons, ← dropTrailing, ← trimEnd, ending]
              rfl
            have found : words (d :: more) ≠ [] := by
              intro none
              rw [collapseBlanks, none, start] at behind
              exact List.cons_ne_nil _ _ behind.symm
            obtain ⟨word, further, split⟩ := List.exists_cons_of_ne_nil found
            rw [collapseBlanks, split, start] at behind
            rw [collapseBlanks, read, split, joinWith, behind, kept,
              line.space next (by simp) spaced]
            rfl
        · have whole : trim (next :: others) = trimEnd (next :: others) := by
            rw [trim, trimStart, List.dropWhile_cons_of_neg spaced]
          have read : words (c :: next :: others) = keepInFirst c (words (next :: others)) := by
            refine (if_neg blank).trans ((if_neg spaced).trans ?_)
            cases words (next :: others) <;> rfl
          rw [collapseBlanks, read, joinWith_keepInFirst, ← collapseBlanks, later, whole]

end IsLine

/-! ## Runs of line breaks -/

/-- A line is kept where runs of line breaks are squeezed. -/
theorem squeezeLineBreaks_line {line : Text} (single : '\n' ∉ line) (rest : Text) :
    squeezeLineBreaks (line ++ rest) = line ++ squeezeLineBreaks rest := by
  induction line with
  | nil => rfl
  | cons c others inductionHypothesis =>
    rw [List.mem_cons, not_or] at single
    have kept := inductionHypothesis single.2
    rw [List.cons_append, List.cons_append, ← kept]
    refine Scan.editAhead_keep ?_
    simp [Ne.symm single.1]

/-- Of a run of line breaks no more than two are left. -/
theorem squeezeLineBreaks_breaks (breaks : Nat) {rest : Text} (ends : rest.head? ≠ some '\n') :
    squeezeLineBreaks (List.replicate breaks '\n' ++ rest) =
      List.replicate (min breaks 2) '\n' ++ squeezeLineBreaks rest := by
  have stop : rest.takeWhile (· = '\n') = [] := by
    cases rest with
    | nil => rfl
    | cons c others =>
      refine List.takeWhile_cons_of_neg ?_
      simpa using ends
  have run (count : Nat) : (List.replicate count '\n' ++ rest).takeWhile (· = '\n') =
      List.replicate count '\n' := by
    rw [List.takeWhile_append_of_pos (by simp), stop, List.append_nil]
  by_cases long : 3 ≤ breaks
  · have nonempty : List.replicate breaks '\n' ≠ [] := by
      rw [Ne, List.replicate_eq_nil_iff]
      omega
    have two : List.replicate (min breaks 2) '\n' = ['\n', '\n'] := by
      rw [Nat.min_eq_right (by omega)]
      rfl
    rw [two]
    refine Scan.editAhead_replace nonempty ?_
    simp [run, long, Scan.Edit.upTo]
  · -- No more than two line breaks are kept one by one.
    have kept : ∀ count, count < 3 → squeezeLineBreaks (List.replicate count '\n' ++ rest) =
        List.replicate count '\n' ++ squeezeLineBreaks rest := by
      intro count
      induction count with
      | zero => exact fun _ => rfl
      | succ count inductionHypothesis =>
        intro short
        rw [List.replicate_succ, List.cons_append, List.cons_append,
          ← inductionHypothesis (by omega)]
        refine Scan.editAhead_keep ?_
        have whole := run (count + 1)
        rw [List.replicate_succ, List.cons_append] at whole
        simp only [whole, List.length_cons, List.length_replicate]
        exact if_neg (by omega)
    rw [kept breaks (by omega), Nat.min_eq_left (by omega)]

/-! ## Blank lines -/

/-- A text without backquotes opens and closes no fence. -/
theorem isFence_of_not_mem {line : Text} (absent : '`' ∉ line) : isFence line = false := by
  have unopened : dropFront? "```".toList (trimStart line) = none := by
    refine dropFront?_eq_none_iff.mpr fun start => absent ?_
    have first : '`' ∈ trimStart line := start.subset (by decide)
    exact (List.dropWhile_suffix _).subset first
  rw [isFence, startsWith, unopened]
  rfl

/-- All lines of a text are visible, and none is a fence. -/
def Solid (text : Text) : Prop :=
  ∀ line ∈ splitOn '\n' text, isFence line = false ∧ isBlankText line = false

/-- A single line is solid where it is visible. -/
theorem Solid.of_single {text : Text} (single : '\n' ∉ text) (unfenced : '`' ∉ text)
    (visible : isBlankText text = false) : Solid text := by
  rw [Solid, splitOn_of_not_mem single, List.forall_mem_singleton]
  exact ⟨isFence_of_not_mem unfenced, visible⟩

/-- A visible line is solid when it is trimmed. -/
theorem IsLine.solid_trim {text : Text} (line : IsLine text) (visible : isBlankText text = false) :
    Solid (trim text) :=
  have trimmed := line.of_infix ( trim_infix text)
  .of_single trimmed.single (trimmed.unmarked _ (by decide)) (isBlankText_trim visible)

/-- Two solid texts on lines of their own are solid together. -/
theorem Solid.append {before after : Text} (first : Solid before) (second : Solid after) :
    Solid (before ++ '\n' :: after) := by
  rw [Solid, splitOn_append, List.forall_mem_append]
  exact ⟨first, second⟩

/-- A solid text is not blank. -/
theorem Solid.isBlankText_eq {text : Text} (solid : Solid text) : isBlankText text = false := by
  obtain ⟨first, later, split⟩ := List.exists_cons_of_ne_nil (splitOn_ne_nil '\n' text)
  have visible : isBlankText first = false :=
    (solid first (split ▸ List.mem_cons_self ..)).2
  obtain ⟨c, inside, shown⟩ := List.all_eq_false.mp visible
  have occurs : first <:+: joinWith ['\n'] (splitOn '\n' text) := by
    rw [split]
    cases later with
    | nil => exact List.infix_refl _
    | cons next others =>
      rw [joinWith, List.append_assoc]
      exact (List.prefix_append ..).isInfix
  rw [joinWith_splitOn] at occurs
  exact List.all_eq_false.mpr ⟨c, occurs.subset inside, shown⟩

/-- The lines of a solid text are kept, and the next blank line is not surplus. -/
theorem dropSurplusBlankLines_solid {text : Text} (solid : Solid text) (afterBlank : Bool)
    (others : List Text) :
    dropSurplusBlankLines false afterBlank (splitOn '\n' text ++ others) =
      splitOn '\n' text ++ dropSurplusBlankLines false false others := by
  have kept : ∀ lines : List Text, (∀ line ∈ lines, isFence line = false ∧ isBlankText line = false) →
      ∀ afterBlank, lines ≠ [] → dropSurplusBlankLines false afterBlank (lines ++ others) =
        lines ++ dropSurplusBlankLines false false others := by
    intro lines
    induction lines with
    | nil => exact fun _ _ nonempty => absurd rfl nonempty
    | cons line later inductionHypothesis =>
      intro solid afterBlank _
      rw [List.forall_mem_cons] at solid
      have here : dropSurplusBlankLines false afterBlank (line :: (later ++ others)) =
          line :: dropSurplusBlankLines false false (later ++ others) := by
        rw [dropSurplusBlankLines, solid.1.1, solid.1.2]
        rfl
      rw [List.cons_append, here]
      cases later with
      | nil => rfl
      | cons next further => rw [inductionHypothesis solid.2 false (List.cons_ne_nil _ _)]; rfl
  exact kept _ solid afterBlank (splitOn_ne_nil '\n' text)

/-- Of empty lines only the first is kept, and none behind a blank line. -/
theorem dropSurplusBlankLines_breaks (breaks : Nat) (others : List Text) :
    dropSurplusBlankLines false true (List.replicate breaks [] ++ others) =
      dropSurplusBlankLines false true others := by
  induction breaks with
  | zero => rfl
  | succ breaks inductionHypothesis =>
    rw [List.replicate_succ, List.cons_append, ← inductionHypothesis]
    rfl

/-- Joined by line breaks, lines are changed one by one. -/
theorem mapLines_joinWith {change : Text → Text} (empty : change [] = []) {lines : List Text}
    (single : ∀ line ∈ lines, '\n' ∉ line) :
    mapLines change (joinWith ['\n', '\n'] lines) = joinWith ['\n', '\n'] (lines.map change) := by
  induction lines with
  | nil => exact empty
  | cons line others inductionHypothesis =>
    rw [List.forall_mem_cons] at single
    cases others with
    | nil => exact mapLines_of_single single.1 change
    | cons next later =>
      have filled : next :: later ≠ [] := List.cons_ne_nil _ _
      have mapped : (next :: later).map change ≠ [] := List.cons_ne_nil _ _
      have second := mapLines_breaks empty 1 (joinWith ['\n', '\n'] (next :: later))
      rw [List.map_cons, joinWith_cons _ _ filled, joinWith_cons _ _ mapped,
        ← inductionHypothesis single.2]
      exact (mapLines_append single.1 _).trans (congrArg (change line ++ '\n' :: ·) second)

namespace Spread

variable {contents : List Text} {text : Text}

theorem ne_nil (spread : Spread contents text) : contents ≠ [] := by
  cases spread <;> exact List.cons_ne_nil _ _

/-- A change of lines changes the contents. -/
theorem mapLines (spread : Spread contents text) {change : Text → Text} (empty : change [] = [])
    (single : ∀ content ∈ contents, '\n' ∉ content) :
    Spread (contents.map change) (Text.mapLines change text) := by
  induction spread with
  | last content =>
    rw [mapLines_of_single (single content (List.mem_singleton_self content))]
    exact .last (change content)
  | @next content breaks contents text apart _ inductionHypothesis =>
    rw [List.forall_mem_cons] at single
    obtain ⟨fewer, rfl⟩ : ∃ fewer, breaks = fewer + 1 := ⟨breaks - 1, by omega⟩
    rw [List.replicate_succ, List.cons_append, mapLines_append single.1, mapLines_breaks empty]
    exact .next (change content) apart (inductionHypothesis single.2)

/-- A pattern without line breaks occurs only in contents. -/
theorem not_infix (spread : Spread contents text) {pattern : Text} (apart : '\n' ∉ pattern)
    (absent : ∀ content ∈ contents, ¬ pattern <:+: content) : ¬ pattern <:+: text := by
  induction spread with
  | last content => exact absent content (List.mem_singleton_self content)
  | @next content breaks contents text long _ inductionHypothesis =>
    rw [List.forall_mem_cons] at absent
    have filled : List.replicate breaks '\n' ≠ [] := by
      rw [Ne, List.replicate_eq_nil_iff]
      omega
    rw [← List.append_assoc, infix_around_iff filled (apart_breaks apart breaks), not_or]
    exact ⟨absent.1, inductionHypothesis absent.2⟩

/-- A character other than a line break stands only in contents. -/
theorem not_mem (spread : Spread contents text) {c : Char} (different : c ≠ '\n')
    (absent : ∀ content ∈ contents, c ∉ content) : c ∉ text := by
  rw [← List.singleton_infix_iff]
  refine spread.not_infix (by simpa using Ne.symm different) fun content listed occurs => ?_
  exact absent content listed ((List.singleton_infix_iff _ _).mp occurs)

/-- Contents that are filled lines are left with two line breaks between them. -/
theorem squeezeLineBreaks (spread : Spread contents text)
    (lines : ∀ content ∈ contents, content ≠ [] ∧ '\n' ∉ content) :
    Text.squeezeLineBreaks text = joinWith ['\n', '\n'] contents ∧ text.head? ≠ some '\n' := by
  have unbroken {content : Text} (line : content ≠ [] ∧ '\n' ∉ content) (rest : Text) :
      (content ++ rest).head? ≠ some '\n' := by
    obtain ⟨c, others, rfl⟩ := List.exists_cons_of_ne_nil line.1
    intro head
    exact line.2 (Option.some.inj head ▸ List.mem_cons_self ..)
  induction spread with
  | last content =>
    have line := lines content (List.mem_singleton_self content)
    have kept := squeezeLineBreaks_line line.2 []
    have head := unbroken line []
    rw [List.append_nil] at kept head
    exact ⟨kept.trans (List.append_nil content), head⟩
  | @next content breaks contents text apart later inductionHypothesis =>
    rw [List.forall_mem_cons] at lines
    obtain ⟨squeezed, head⟩ := inductionHypothesis lines.2
    refine ⟨?_, unbroken lines.1 _⟩
    rw [squeezeLineBreaks_line lines.1.2, squeezeLineBreaks_breaks breaks head, squeezed,
      Nat.min_eq_right apart, joinWith_cons _ _ later.ne_nil]
    rfl

/-- Lines that are not blank are trimmed by bringing their blanks into normal form, with two
line breaks between them and at most two before them. -/
theorem normalizeBlanks (spread : Spread contents text) (lines : ∀ content ∈ contents, IsLine content)
    (visible : ∀ content ∈ contents, isBlankText content = false) (breaks : Nat) :
    Text.normalizeBlanks (List.replicate breaks '\n' ++ text) =
      List.replicate (min breaks 2) '\n' ++ joinWith ['\n', '\n'] (contents.map trim) := by
  have unindented : Text.stripIndentation (List.replicate breaks '\n' ++ text) =
      List.replicate breaks '\n' ++ Text.stripIndentation text := mapLines_breaks rfl breaks text
  have stripped : stripLineEnds (List.replicate breaks '\n' ++ Text.stripIndentation text) =
      List.replicate breaks '\n' ++ stripLineEnds (Text.stripIndentation text) :=
    mapLines_breaks rfl breaks _
  have start : Spread (contents.map withoutIndentation) (Text.stripIndentation text) :=
    spread.mapLines rfl fun content listed => (lines content listed).single
  have trimmed : Spread (contents.map trim) (stripLineEnds (Text.stripIndentation text)) := by
    have both := start.mapLines (rfl : dropTrailing isSpaceOrTab [] = []) (by
      intro line listed
      obtain ⟨content, member, rfl⟩ := List.mem_map.mp listed
      rw [(lines content member).withoutIndentation_eq]
      exact fun inside => (lines content member).single ((List.dropWhile_suffix _).subset inside))
    rw [List.map_map] at both
    have same : contents.map (dropTrailing isSpaceOrTab ∘ withoutIndentation) = contents.map trim :=
      List.map_congr_left fun content listed => (lines content listed).stripped_eq
    rwa [same] at both
  have kept : ∀ content ∈ contents.map trim,
      IsLine content ∧ content ≠ [] ∧ '\n' ∉ content := by
    intro line listed
    obtain ⟨content, member, rfl⟩ := List.mem_map.mp listed
    have trimmedLine := IsLine.of_infix (lines content member) ( trim_infix content)
    refine ⟨trimmedLine, ?_, trimmedLine.single⟩
    rintro empty
    have shown := isBlankText_trim (visible content member)
    rw [empty] at shown
    exact Bool.noConfusion shown
  have whole : squeezeSpaces (List.replicate breaks '\n' ++
      stripLineEnds (Text.stripIndentation text)) =
        List.replicate breaks '\n' ++ stripLineEnds (Text.stripIndentation text) := by
    refine squeezeSpaces_of_spaced (fun tab => ?_) ?_
    · rcases List.mem_append.mp tab with before | inside
      · exact absurd (List.eq_of_mem_replicate before) (by decide)
      · exact trimmed.not_mem (by decide)
          (fun content listed => (kept content listed).1.untabbed) inside
    · rw [infix_append_left_iff (apart_breaks (by decide) breaks)]
      exact trimmed.not_infix (by decide) fun content listed => (kept content listed).1.spaced
  obtain ⟨squeezed, head⟩ := trimmed.squeezeLineBreaks fun content listed => (kept content listed).2
  rw [Text.normalizeBlanks, unindented, stripped, whole, squeezeLineBreaks_breaks breaks head,
    squeezed]

/-- Solid contents keep their lines and have one blank line between them. -/
theorem dropSurplusBlankLines (spread : Spread contents text)
    (solid : ∀ content ∈ contents, Solid content) (afterBlank : Bool) :
    Text.dropSurplusBlankLines false afterBlank (splitOn '\n' text) =
      splitOn '\n' (joinWith ['\n', '\n'] contents) := by
  induction spread generalizing afterBlank with
  | last content =>
    have kept := dropSurplusBlankLines_solid (solid content (List.mem_singleton_self content))
      afterBlank []
    rw [List.append_nil] at kept
    exact kept.trans (List.append_nil _)
  | @next content breaks contents text apart later inductionHypothesis =>
    rw [List.forall_mem_cons] at solid
    obtain ⟨fewer, rfl⟩ : ∃ fewer, breaks = fewer + 2 := ⟨breaks - 2, by omega⟩
    have between (rest : List Text) : Text.dropSurplusBlankLines false false
        (List.replicate (fewer + 1) [] ++ rest) =
          [] :: Text.dropSurplusBlankLines false true rest := by
      rw [← dropSurplusBlankLines_breaks fewer]
      rfl
    have joined : joinWith ['\n', '\n'] (content :: contents) =
        content ++ '\n' :: ([] ++ '\n' :: joinWith ['\n', '\n'] contents) :=
      joinWith_cons _ _ later.ne_nil
    rw [List.replicate_succ, List.cons_append, splitOn_append, splitOn_breaks,
      dropSurplusBlankLines_solid solid.1, between, inductionHypothesis solid.2, joined,
      splitOn_append, splitOn_append]
    rfl

/-- A finished document of solid contents has one blank line between them, and at most one
before them. -/
theorem finishLayout (spread : Spread contents text) (solid : ∀ content ∈ contents, Solid content)
    (breaks : Nat) : Text.finishLayout (List.replicate breaks '\n' ++ text) =
      List.replicate (min breaks 1) '\n' ++ joinWith ['\n', '\n'] contents := by
  have visible : isBlankText text = false := by
    cases spread with
    | last => exact (solid text (List.mem_singleton_self text)).isBlankText_eq
    | @next content _ _ _ _ _ =>
      have shown := (solid content (List.mem_cons_self ..)).isBlankText_eq
      rw [isBlankText, List.all_append, ← isBlankText, shown, Bool.false_and]
  have whole : isBlankText (List.replicate breaks '\n' ++ text) = false := by
    rw [isBlankText, List.all_append, ← isBlankText, ← isBlankText, visible, Bool.and_false]
  rw [Text.finishLayout, whole, splitOn_breaks]
  cases breaks with
  | zero =>
    have kept := spread.dropSurplusBlankLines solid false
    simp only [List.replicate_zero, List.nil_append, kept, joinWith_splitOn]
    rfl
  | succ fewer =>
    have first : Text.dropSurplusBlankLines false false
        (List.replicate (fewer + 1) [] ++ splitOn '\n' text) =
          splitOn '\n' ('\n' :: joinWith ['\n', '\n'] contents) := by
      have kept := spread.dropSurplusBlankLines solid true
      rw [← dropSurplusBlankLines_breaks fewer] at kept
      rw [splitOn, if_pos rfl, ← kept]
      rfl
    rw [first, joinWith_splitOn, Nat.min_eq_right (by omega)]
    rfl

end Spread

end LatexMarkdown.Text
