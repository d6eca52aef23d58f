import LatexMarkdown.Proofs.Characters
import LatexMarkdown.Proofs.Paragraphs
import LatexMarkdown.Proofs.SecondConversion

/-!
# Normal blanks

Bringing blanks into normal form changes the lines of a text one by one and then squeezes
the runs of line breaks between them. What it leaves is in normal form, with one exception:
an indented list item with nothing in it keeps its indentation but loses the space behind
its marker, so that the next time it is no item any more and loses its indentation too.
-/

namespace LatexMarkdown.Text

/-- A text that does not start with a space or a tab. -/
def Unindented (text : Text) : Prop :=
  ∀ c, text.head? = some c → isSpaceOrTab c = false

theorem unindented_cons {c : Char} {rest : Text} :
    Unindented (c :: rest) ↔ isSpaceOrTab c = false := by
  simp [Unindented]

theorem Unindented.append {front back : Text} (starts : Unindented front)
    (alsoStarts : Unindented back) : Unindented (front ++ back) := by
  cases front with
  | nil => exact alsoStarts
  | cons c rest => exact starts

theorem unindented_dropWhile (text : Text) : Unindented (text.dropWhile isSpaceOrTab) := by
  intro c head
  have stopped := List.head?_dropWhile_not isSpaceOrTab text
  rw [head] at stopped
  simpa using stopped

theorem Unindented.span_eq {text : Text} (starts : Unindented text) :
    text.takeWhile isSpaceOrTab = [] ∧ text.dropWhile isSpaceOrTab = text := by
  cases text with
  | nil => exact ⟨rfl, rfl⟩
  | cons c others =>
    have visible := Bool.eq_false_iff.mp (unindented_cons.mp starts)
    exact ⟨List.takeWhile_cons_of_neg visible, List.dropWhile_cons_of_neg visible⟩

/-- The spaces and tabs in front of what does not start with one. -/
theorem span_spaces {spaces rest : Text} (spaced : ∀ c ∈ spaces, isSpaceOrTab c = true)
    (starts : Unindented rest) :
    (spaces ++ rest).takeWhile isSpaceOrTab = spaces ∧
      (spaces ++ rest).dropWhile isSpaceOrTab = rest := by
  rw [List.takeWhile_append_of_pos spaced, List.dropWhile_append_of_pos spaced,
    starts.span_eq.1, starts.span_eq.2, List.append_nil]
  exact ⟨rfl, rfl⟩

/-! ## Runs of spaces -/

/-- What is left of spaces and tabs behind a visible character. -/
def squeezedRun (run : Text) : Text :=
  if 2 ≤ run.length then [' '] else run

theorem squeezedRun_cons (blanks : Text) : squeezedRun (' ' :: blanks) = [' '] := by
  cases blanks with
  | nil => rfl
  | cons c others => exact if_pos (by simp)

theorem squeezedRun_squeezedRun (run : Text) : squeezedRun (squeezedRun run) = squeezedRun run := by
  by_cases long : 2 ≤ run.length
  · rw [squeezedRun, squeezedRun, if_pos long]
    rfl
  · have short : squeezedRun run = run := if_neg long
    rw [short, short]

theorem mem_squeezedRun {run : Text} (spaced : ∀ c ∈ run, isSpaceOrTab c = true) :
    ∀ c ∈ squeezedRun run, isSpaceOrTab c = true := by
  rw [squeezedRun]
  split
  · decide
  · exact spaced

/-- A character is kept if it is blank, or nothing behind it is squeezed. -/
theorem squeezeSpaces_keep {c : Char} {rest : Text}
    (kept : isBlank c = true ∨ Unindented rest) :
    squeezeSpaces (c :: rest) = c :: squeezeSpaces rest := by
  refine Scan.editAhead_keep ?_
  rcases kept with blank | starts
  · simp [blank]
  · simp [starts.span_eq.1]

/-- Spaces and tabs behind a visible character are squeezed. -/
theorem squeezeSpaces_run {c : Char} {run rest : Text} (visible : isBlank c = false)
    (spaced : ∀ d ∈ run, isSpaceOrTab d = true) (starts : Unindented rest) :
    squeezeSpaces (c :: (run ++ rest)) = c :: (squeezedRun run ++ squeezeSpaces rest) := by
  have taken := (span_spaces spaced starts).1
  by_cases long : 2 ≤ run.length
  · have replaced : squeezeSpaces ((c :: run) ++ rest) = [c, ' '] ++ squeezeSpaces rest := by
      refine Scan.editAhead_replace (List.cons_ne_nil c run) ?_
      simp [taken, visible, long, Scan.Edit.upTo]
      omega
    rw [squeezedRun, if_pos long]
    exact replaced
  · have first : squeezeSpaces (c :: (run ++ rest)) = c :: squeezeSpaces (run ++ rest) := by
      refine Scan.editAhead_keep ?_
      simp only [taken, decide_eq_false long, Bool.and_false]
      rfl
    rw [squeezedRun, if_neg long, first]
    cases run with
    | nil => rfl
    | cons d others =>
      have single : others = [] := by
        rw [List.length_cons] at long
        exact List.eq_nil_of_length_eq_zero (by omega)
      subst single
      have blank := isBlank_of_isSpaceOrTab (spaced d (List.mem_singleton_self d))
      rw [List.singleton_append, squeezeSpaces_keep (.inl blank)]
      rfl

/-- Spaces and tabs are squeezed behind a visible character, and nowhere else. -/
theorem space_induction {motive : Text → Prop} (nil : motive [])
    (keep : ∀ c rest, (isBlank c = true ∨ Unindented rest) → motive rest → motive (c :: rest))
    (run : ∀ c run rest, isBlank c = false → run ≠ [] → (∀ d ∈ run, isSpaceOrTab d = true) →
      Unindented rest → motive rest → motive (c :: (run ++ rest))) (text : Text) :
    motive text := by
  induction size : text.length using Nat.strong_induction_on generalizing text with
  | _ size inductionHypothesis =>
  subst size
  cases text with
  | nil => exact nil
  | cons c rest =>
    by_cases kept : isBlank c = true ∨ Unindented rest
    · exact keep c rest kept (inductionHypothesis rest.length (Nat.lt_succ_self _) rest rfl)
    · rw [not_or, Bool.not_eq_true] at kept
      have whole := List.takeWhile_append_dropWhile (p := isSpaceOrTab) (l := rest)
      have filled : rest.takeWhile isSpaceOrTab ≠ [] := by
        intro empty
        rw [empty, List.nil_append] at whole
        exact kept.2 (whole ▸ unindented_dropWhile rest)
      have shorter : (rest.dropWhile isSpaceOrTab).length < (c :: rest).length :=
        Nat.lt_succ_of_le (List.dropWhile_suffix _).length_le
      have later := inductionHypothesis _ shorter (rest.dropWhile isSpaceOrTab) rfl
      have made := run c _ _ kept.1 filled (fun _ => List.mem_takeWhile_imp)
        (unindented_dropWhile rest) later
      rwa [whole] at made

theorem squeezeSpaces_head? (text : Text) : (squeezeSpaces text).head? = text.head? := by
  induction text using space_induction with
  | nil => rfl
  | keep c rest kept _ => rw [squeezeSpaces_keep kept]; rfl
  | run c run rest visible _ spaced starts _ => rw [squeezeSpaces_run visible spaced starts]; rfl

theorem Unindented.squeezeSpaces {text : Text} (starts : Unindented text) :
    Unindented (squeezeSpaces text) := by
  rwa [Unindented, squeezeSpaces_head?]

/-- What starts with neither a space nor a tab is squeezed by itself. -/
theorem squeezeSpaces_append (front : Text) {back : Text} (starts : Unindented back) :
    squeezeSpaces (front ++ back) = squeezeSpaces front ++ squeezeSpaces back := by
  induction front using space_induction with
  | nil => rfl
  | keep c rest kept inductionHypothesis =>
    rw [List.cons_append, squeezeSpaces_keep (kept.imp_right fun here => here.append starts),
      squeezeSpaces_keep kept, inductionHypothesis, List.cons_append]
  | run c run rest visible _ spaced here inductionHypothesis =>
    rw [List.cons_append, List.append_assoc,
      squeezeSpaces_run visible spaced (here.append starts),
      squeezeSpaces_run visible spaced here, inductionHypothesis, List.cons_append,
      List.append_assoc]

/-- Runs of spaces are squeezed at once. -/
theorem squeezeSpaces_squeezeSpaces (text : Text) :
    squeezeSpaces (squeezeSpaces text) = squeezeSpaces text := by
  induction text using space_induction with
  | nil => rfl
  | keep c rest kept inductionHypothesis =>
    rw [squeezeSpaces_keep kept,
      squeezeSpaces_keep (kept.imp_right Unindented.squeezeSpaces), inductionHypothesis]
  | run c run rest visible _ spaced starts inductionHypothesis =>
    rw [squeezeSpaces_run visible spaced starts,
      squeezeSpaces_run visible (mem_squeezedRun spaced) starts.squeezeSpaces,
      squeezedRun_squeezedRun, inductionHypothesis]

/-- Where nothing is dropped at the end, nothing is dropped there afterwards. -/
theorem squeezeSpaces_getLast? {text : Text}
    (ending : ∀ c, text.getLast? = some c → isSpaceOrTab c = false) :
    (squeezeSpaces text).getLast? = text.getLast? := by
  induction text using space_induction with
  | nil => rfl
  | keep c rest kept inductionHypothesis =>
    have later := inductionHypothesis fun d last => ending d (by rw [List.getLast?_cons, last]; rfl)
    rw [squeezeSpaces_keep kept, List.getLast?_cons, later, List.getLast?_cons]
  | run c run rest visible filled spaced starts inductionHypothesis =>
    rw [squeezeSpaces_run visible spaced starts]
    cases last : rest.getLast? with
    | none =>
      -- The text would end with its run.
      have spaceLast := ending (run.getLast filled) (by
        rw [List.getLast?_eq_none_iff.mp last, List.append_nil, List.getLast?_cons,
          List.getLast?_eq_some_getLast filled]
        rfl)
      rw [spaced _ (List.getLast_mem filled)] at spaceLast
      cases spaceLast
    | some d =>
      have later := inductionHypothesis fun e final => ending e (by
        rw [List.getLast?_cons, List.getLast?_append, final]
        rfl)
      simp [List.getLast?_cons, List.getLast?_append, later, last]

/-- Lines are squeezed one by one. -/
theorem squeezeSpaces_eq_mapLines (text : Text) :
    squeezeSpaces text = mapLines squeezeSpaces text := by
  induction text using line_induction with
  | single line single => rw [mapLines_of_single single]
  | line line rest single inductionHypothesis =>
    rw [mapLines_append single, ← inductionHypothesis,
      squeezeSpaces_append line (unindented_cons.mpr (by decide)),
      squeezeSpaces_keep (.inl (by decide))]

/-! ## Runs of line breaks -/

/-- Line breaks come in runs, between lines and what does not start with one. -/
theorem break_induction {motive : Text → Prop} (single : ∀ line, '\n' ∉ line → motive line)
    (breaks : ∀ line count rest, '\n' ∉ line → rest.head? ≠ some '\n' → motive rest →
      motive (line ++ (List.replicate (count + 1) '\n' ++ rest))) (text : Text) : motive text := by
  induction size : text.length using Nat.strong_induction_on generalizing text with
  | _ size inductionHypothesis =>
  subst size
  by_cases broken : '\n' ∈ text
  · obtain ⟨line, behind, rfl, alone⟩ := List.eq_append_cons_of_mem broken
    have whole := List.takeWhile_append_dropWhile (p := (· = '\n')) (l := behind)
    have run : behind.takeWhile (· = '\n') =
        List.replicate (behind.takeWhile (· = '\n')).length '\n' :=
      List.eq_replicate_of_mem fun c member => by simpa using List.mem_takeWhile_imp member
    have ends : (behind.dropWhile (· = '\n')).head? ≠ some '\n' := by
      intro head
      have stopped := List.head?_dropWhile_not (fun c => decide (c = '\n')) behind
      rw [head] at stopped
      simp at stopped
    have shorter : (behind.dropWhile (· = '\n')).length < (line ++ '\n' :: behind).length := by
      have within := (List.dropWhile_suffix (fun c => decide (c = '\n')) (l := behind)).length_le
      rw [List.length_append, List.length_cons]
      omega
    have made := breaks line (behind.takeWhile (· = '\n')).length _ alone ends
      (inductionHypothesis _ shorter _ rfl)
    rwa [List.replicate_succ, ← run, List.cons_append, whole] at made
  · exact single text broken

section Breaks

variable {line rest : Text} (single : '\n' ∉ line) (ends : rest.head? ≠ some '\n') (count : Nat)

include single in
theorem splitOn_line_breaks :
    splitOn '\n' (line ++ (List.replicate (count + 1) '\n' ++ rest)) =
      line :: (List.replicate count [] ++ splitOn '\n' rest) := by
  rw [List.replicate_succ, List.cons_append, splitOn_append_cons single, splitOn_breaks]

include single ends in
theorem squeezeLineBreaks_line_breaks :
    squeezeLineBreaks (line ++ (List.replicate (count + 1) '\n' ++ rest)) =
      line ++ (List.replicate (min count 1 + 1) '\n' ++ squeezeLineBreaks rest) := by
  rw [squeezeLineBreaks_line single, squeezeLineBreaks_breaks _ ends, Nat.add_min_add_right _ 1 1]

end Breaks

theorem squeezeLineBreaks_of_single {line : Text} (single : '\n' ∉ line) :
    squeezeLineBreaks line = line := by
  have kept := squeezeLineBreaks_line single []
  rwa [List.append_nil, show squeezeLineBreaks [] = [] from rfl, List.append_nil] at kept

/-- Squeezing line breaks takes away and adds none but empty lines. -/
theorem forall_line_squeezeLineBreaks_iff (holds : Text → Prop) (empty : holds []) (text : Text) :
    (∀ line ∈ splitOn '\n' (squeezeLineBreaks text), holds line) ↔
      ∀ line ∈ splitOn '\n' text, holds line := by
  have blanks (count : Nat) : (∀ line ∈ List.replicate count ([] : Text), holds line) ↔ True :=
    iff_true_intro fun line member => List.eq_of_mem_replicate member ▸ empty
  induction text using break_induction with
  | single line single => rw [squeezeLineBreaks_of_single single]
  | breaks line count rest single ends inductionHypothesis =>
    rw [squeezeLineBreaks_line_breaks single ends, splitOn_line_breaks single,
      splitOn_line_breaks single]
    simp only [List.forall_mem_cons, List.forall_mem_append, blanks, true_and,
      inductionHypothesis]

theorem squeezeLineBreaks_squeezeLineBreaks (text : Text) :
    squeezeLineBreaks (squeezeLineBreaks text) = squeezeLineBreaks text := by
  induction text using break_induction with
  | single line single =>
    rw [squeezeLineBreaks_of_single single, squeezeLineBreaks_of_single single]
  | breaks line count rest single ends inductionHypothesis =>
    have squeezedEnds : (squeezeLineBreaks rest).head? ≠ some '\n' := by
      cases rest with
      | nil => simp [squeezeLineBreaks, Scan.editAhead, Scan.edit]
      | cons c others =>
        have alone : '\n' ∉ [c] := by
          intro member
          rw [List.mem_singleton.mp member] at ends
          exact ends rfl
        have kept := squeezeLineBreaks_line alone others
        rw [List.singleton_append] at kept
        rw [kept]
        simpa using ends
    rw [squeezeLineBreaks_line_breaks single ends,
      squeezeLineBreaks_line_breaks single squeezedEnds, inductionHypothesis, Nat.min_assoc,
      Nat.min_self]

/-! ## Markers of list items -/

/-- The marker of a list item without the space behind it: a dash, or digits and a point. -/
def IsItemMarker (marker : Text) : Prop :=
  marker = ['-'] ∨ ∃ digits, digits ≠ [] ∧ (∀ c ∈ digits, isDecimal c = true) ∧
    marker = digits ++ ['.']

/-- An indented list item with nothing but spaces and tabs in it. -/
def IsEmptyItem (line : Text) : Prop :=
  ∃ indentation marker blanks, indentation ≠ [] ∧ (∀ c ∈ indentation, isSpaceOrTab c = true) ∧
    IsItemMarker marker ∧ (∀ c ∈ blanks, isSpaceOrTab c = true) ∧
    line = indentation ++ (marker ++ ' ' :: blanks)

theorem startsWithItemMarker_iff {text : Text} :
    startsWithItemMarker text = true ↔
      ∃ marker rest, IsItemMarker marker ∧ text = marker ++ ' ' :: rest := by
  rw [startsWithItemMarker, Bool.or_eq_true, Bool.and_eq_true, startsWith_iff, startsWith_iff]
  constructor
  · rintro (⟨rest, rfl⟩ | ⟨digit, rest, behind⟩)
    · exact ⟨['-'], rest, .inl rfl, rfl⟩
    · have whole := List.takeWhile_append_dropWhile (p := isDecimal) (l := text)
      have nonempty : text.takeWhile isDecimal ≠ [] := by
        cases text with
        | nil => cases digit
        | cons c others =>
          have decimal : isDecimal c = true := digit
          rw [List.takeWhile_cons_of_pos decimal]
          exact List.cons_ne_nil _ _
      refine ⟨text.takeWhile isDecimal ++ ['.'], rest, .inr ⟨text.takeWhile isDecimal, nonempty,
        fun _ => List.mem_takeWhile_imp, rfl⟩, ?_⟩
      rw [← behind] at whole
      rw [List.append_assoc]
      exact whole.symm
  · rintro ⟨marker, rest, rfl | ⟨digits, nonempty, decimal, rfl⟩, rfl⟩
    · exact .inl ⟨rest, rfl⟩
    · right
      obtain ⟨c, others, rfl⟩ := List.exists_cons_of_ne_nil nonempty
      refine ⟨by simpa using decimal c List.mem_cons_self, rest, ?_⟩
      rw [List.append_assoc, List.dropWhile_append_of_pos decimal]
      exact (List.dropWhile_cons_of_neg (by decide)).symm

namespace IsItemMarker

variable {marker : Text}

theorem unspaced (isItemMarker : IsItemMarker marker) : ∀ c ∈ marker, isSpaceOrTab c = false := by
  have digit {c : Char} (decimal : isDecimal c = true) : isSpaceOrTab c = false := by
    by_contra spaced
    rw [Bool.not_eq_false, isSpaceOrTab, Bool.or_eq_true, decide_eq_true_eq,
      decide_eq_true_eq] at spaced
    rcases spaced with rfl | rfl
    · exact absurd decimal (by decide)
    · exact absurd decimal (by decide)
  rcases isItemMarker with rfl | ⟨digits, -, decimal, rfl⟩
  · decide
  · exact List.forall_mem_append.mpr ⟨fun c member => digit (decimal c member), by decide⟩

/-- A marker ends in a visible sign. -/
theorem exists_last (isItemMarker : IsItemMarker marker) :
    ∃ front sign, marker = front ++ [sign] ∧ isBlank sign = false := by
  rcases isItemMarker with rfl | ⟨digits, -, -, rfl⟩
  · exact ⟨[], '-', rfl, by decide⟩
  · exact ⟨digits, '.', rfl, by decide⟩

theorem ne_nil (isItemMarker : IsItemMarker marker) : marker ≠ [] := by
  obtain ⟨front, sign, rfl, -⟩ := isItemMarker.exists_last
  simp

theorem unindented (isItemMarker : IsItemMarker marker) : Unindented marker :=
  fun c head => isItemMarker.unspaced c (List.mem_of_mem_head? head)

theorem unindented_append (isItemMarker : IsItemMarker marker) (rest : Text) :
    Unindented (marker ++ rest) := by
  obtain ⟨c, others, same⟩ := List.exists_cons_of_ne_nil isItemMarker.ne_nil
  rw [same]
  exact unindented_cons.mpr (isItemMarker.unspaced c (same ▸ List.mem_cons_self))

/-- A marker alone is not enough for an item. -/
theorem startsWithItemMarker_eq (isItemMarker : IsItemMarker marker) :
    startsWithItemMarker marker = false := by
  by_contra starts
  rw [Bool.not_eq_false] at starts
  obtain ⟨other, rest, -, same⟩ := startsWithItemMarker_iff.mp starts
  have spaced := isItemMarker.unspaced ' ' (by rw [same]; simp)
  exact absurd spaced (by decide)

/-- A marker reaches up to the first space. -/
theorem append_inj (isItemMarker : IsItemMarker marker) {other rest behind : Text}
    (alsoMarker : IsItemMarker other) (same : marker ++ ' ' :: rest = other ++ ' ' :: behind) :
    rest = behind := by
  have skipped {front : Text} (isMarker : IsItemMarker front) (back : Text) :
      (front ++ ' ' :: back).dropWhile (!isSpaceOrTab ·) = ' ' :: back := by
    rw [List.dropWhile_append_of_pos fun c member => by simp [isMarker.unspaced c member]]
    exact List.dropWhile_cons_of_neg (by decide)
  have suffixes := skipped isItemMarker rest
  rw [same, skipped alsoMarker behind] at suffixes
  exact (List.cons.inj suffixes).2.symm

end IsItemMarker

/-! ## One line -/

/-- Drop the spaces and tabs at the end, and squeeze the others. -/
def withNormalSpaces (text : Text) : Text :=
  squeezeSpaces (dropTrailing isSpaceOrTab text)

/-- A line with its blanks in normal form. -/
def normalLine (line : Text) : Text :=
  withNormalSpaces (withoutIndentation line)

/-- A text that starts with neither a space nor a tab keeps its first character. -/
theorem withNormalSpaces_head? {text : Text} (starts : Unindented text) :
    (dropTrailing isSpaceOrTab text).head? = text.head? ∧
      (withNormalSpaces text).head? = text.head? := by
  have kept : (dropTrailing isSpaceOrTab text).head? = text.head? := by
    cases text with
    | nil => rfl
    | cons c others => rw [dropTrailing_cons_of_neg (unindented_cons.mp starts)]; rfl
  exact ⟨kept, (squeezeSpaces_head? _).trans kept⟩

/-- Nothing is left to drop at the end. -/
theorem getLast?_withNormalSpaces {text : Text} {c : Char}
    (last : (withNormalSpaces text).getLast? = some c) : isSpaceOrTab c = false := by
  have ending : ∀ d, (dropTrailing isSpaceOrTab text).getLast? = some d →
      isSpaceOrTab d = false := by
    intro d last
    rw [dropTrailing_eq_rdropWhile] at last
    have nonempty : text.rdropWhile isSpaceOrTab ≠ [] := by
      intro empty
      rw [empty] at last
      cases last
    rw [List.getLast?_eq_some_getLast nonempty, Option.some.injEq] at last
    rw [← last]
    exact Bool.eq_false_iff.mpr (List.rdropWhile_last_not isSpaceOrTab text nonempty)
  rw [withNormalSpaces, squeezeSpaces_getLast? ending] at last
  exact ending c last

theorem withNormalSpaces_withNormalSpaces (text : Text) :
    withNormalSpaces (withNormalSpaces text) = withNormalSpaces text := by
  have settled : dropTrailing isSpaceOrTab (withNormalSpaces text) = withNormalSpaces text :=
    dropTrailing_of_getLast? fun _ => getLast?_withNormalSpaces
  rw [withNormalSpaces, settled, withNormalSpaces, squeezeSpaces_squeezeSpaces]

/-- A line without indentation has none to drop. -/
theorem normalLine_of_unindented {line : Text} (starts : Unindented line) :
    normalLine line = withNormalSpaces line := by
  rw [normalLine, withoutIndentation, starts.span_eq.2, ite_self]

section Line

variable {indentation body : Text} (spaced : ∀ c ∈ indentation, isSpaceOrTab c = true)
  (starts : Unindented body)

include spaced starts in
/-- The indentation in front of anything but an item goes away. -/
theorem normalLine_of_plain (plain : startsWithItemMarker body = false) :
    normalLine (indentation ++ body) = withNormalSpaces body := by
  rw [normalLine, withoutIndentation, (span_spaces spaced starts).2, plain,
    if_neg Bool.false_ne_true]

include spaced starts in
/-- The indentation in front of an item stays. -/
theorem normalLine_of_item (item : startsWithItemMarker body = true) :
    normalLine (indentation ++ body) = withNormalSpaces (indentation ++ body) := by
  rw [normalLine, withoutIndentation, (span_spaces spaced starts).2, item, if_pos rfl]

include spaced in
/-- Indentation is not squeezed. -/
theorem squeezeSpaces_indentation (starts : Unindented body) :
    squeezeSpaces (indentation ++ body) = indentation ++ squeezeSpaces body := by
  rw [squeezeSpaces_append indentation starts]
  congr 1
  induction indentation with
  | nil => rfl
  | cons c others inductionHypothesis =>
    obtain ⟨here, later⟩ := List.forall_mem_cons.mp spaced
    rw [squeezeSpaces_keep (.inl (isBlank_of_isSpaceOrTab here)), inductionHypothesis later]

include spaced starts in
/-- Whether a line is an empty item can be told from what is behind its indentation. -/
theorem isEmptyItem_iff :
    IsEmptyItem (indentation ++ body) ↔ indentation ≠ [] ∧
      ∃ marker blanks, IsItemMarker marker ∧ (∀ c ∈ blanks, isSpaceOrTab c = true) ∧
        body = marker ++ ' ' :: blanks := by
  constructor
  · rintro ⟨before, marker, blanks, nonempty, indents, isMarker, blank, same⟩
    obtain ⟨taken, left⟩ := span_spaces spaced starts
    rw [same] at taken left
    obtain ⟨alsoTaken, alsoLeft⟩ := span_spaces indents (isMarker.unindented_append (' ' :: blanks))
    refine ⟨?_, marker, blanks, isMarker, blank, left.symm.trans alsoLeft⟩
    rwa [← taken, alsoTaken]
  · rintro ⟨nonempty, marker, blanks, isMarker, blank, rfl⟩
    exact ⟨indentation, marker, blanks, nonempty, spaced, isMarker, blank, rfl⟩

end Line

theorem squeezeSpaces_of_unspaced {text : Text} (unspaced : ∀ c ∈ text, isSpaceOrTab c = false) :
    squeezeSpaces text = text := by
  induction text with
  | nil => rfl
  | cons c rest inductionHypothesis =>
    obtain ⟨-, later⟩ := List.forall_mem_cons.mp unspaced
    have starts : Unindented rest := fun d head => later d (List.mem_of_mem_head? head)
    rw [squeezeSpaces_keep (.inr starts), inductionHypothesis later]

/-- What is dropped at the end leaves nothing behind. -/
theorem dropTrailing_append_of_forall {condition : Char → Bool} (front : Text) {back : Text}
    (dropped : ∀ c ∈ back, condition c = true) :
    dropTrailing condition (front ++ back) = dropTrailing condition front := by
  rw [dropTrailing_eq_rdropWhile, dropTrailing_eq_rdropWhile, List.rdropWhile, List.rdropWhile,
    List.reverse_append, List.dropWhile_append_of_pos fun c member =>
      dropped c (List.mem_reverse.mp member)]

section Item

variable {indentation marker blanks rest : Text}
  (spaced : ∀ c ∈ indentation, isSpaceOrTab c = true) (isMarker : IsItemMarker marker)
  (blank : ∀ c ∈ blanks, isSpaceOrTab c = true)

include spaced isMarker in
/-- A marker alone is in normal form behind its indentation. -/
theorem withNormalSpaces_marker :
    withNormalSpaces (indentation ++ marker) = indentation ++ marker := by
  have ending : ∀ c, (indentation ++ marker).getLast? = some c → isSpaceOrTab c = false := by
    intro c last
    refine isMarker.unspaced c (List.mem_of_getLast? ?_)
    obtain ⟨front, sign, rfl, -⟩ := isMarker.exists_last
    simpa [← List.append_assoc] using last
  rw [withNormalSpaces, dropTrailing_of_getLast? ending,
    squeezeSpaces_indentation spaced isMarker.unindented,
    squeezeSpaces_of_unspaced isMarker.unspaced]

include spaced isMarker blank in
/-- An item with nothing in it loses the space behind its marker. -/
theorem normalLine_emptyItem :
    normalLine (indentation ++ (marker ++ ' ' :: blanks)) = indentation ++ marker := by
  have dropped : ∀ c ∈ ' ' :: blanks, isSpaceOrTab c = true :=
    List.forall_mem_cons.mpr ⟨by decide, blank⟩
  rw [normalLine_of_item spaced (isMarker.unindented_append _)
      (startsWithItemMarker_iff.mpr ⟨_, _, isMarker, rfl⟩),
    withNormalSpaces, ← List.append_assoc, dropTrailing_append_of_forall _ dropped]
  exact withNormalSpaces_marker spaced isMarker

include isMarker blank in
/-- Behind the marker of an item a single space is left. -/
theorem squeezeSpaces_item (starts : Unindented rest) :
    squeezeSpaces (marker ++ ' ' :: (blanks ++ rest)) = marker ++ ' ' :: squeezeSpaces rest := by
  obtain ⟨front, sign, rfl, visible⟩ := isMarker.exists_last
  obtain ⟨unspaced, signed⟩ := List.forall_mem_append.mp isMarker.unspaced
  have run : ∀ c ∈ ' ' :: blanks, isSpaceOrTab c = true :=
    List.forall_mem_cons.mpr ⟨by decide, blank⟩
  have behind : squeezeSpaces (sign :: ((' ' :: blanks) ++ rest)) =
      sign :: ' ' :: squeezeSpaces rest := by
    rw [squeezeSpaces_run visible run starts, squeezedRun_cons]
    rfl
  have signStarts : Unindented (sign :: ((' ' :: blanks) ++ rest)) :=
    unindented_cons.mpr (signed sign (List.mem_singleton_self sign))
  have split : squeezeSpaces (front ++ sign :: ((' ' :: blanks) ++ rest)) =
      front ++ sign :: ' ' :: squeezeSpaces rest := by
    rw [squeezeSpaces_append front signStarts, squeezeSpaces_of_unspaced unspaced, behind]
  simpa using split

include spaced isMarker blank in
/-- An item keeps its indentation and its marker, and a single space behind it. -/
theorem normalLine_item (nonempty : rest ≠ []) (starts : Unindented rest) :
    normalLine (indentation ++ (marker ++ ' ' :: (blanks ++ rest))) =
      indentation ++ (marker ++ ' ' :: withNormalSpaces rest) := by
  obtain ⟨head, -⟩ := withNormalSpaces_head? starts
  have filled : dropTrailing isSpaceOrTab rest ≠ [] := by
    rwa [Ne, ← List.head?_eq_none_iff, head, List.head?_eq_none_iff]
  have stillStarts : Unindented (dropTrailing isSpaceOrTab rest) := by rwa [Unindented, head]
  have dropped := dropTrailing_append filled (indentation ++ (marker ++ ' ' :: blanks))
  simp only [List.append_assoc, List.cons_append] at dropped
  rw [normalLine_of_item spaced (isMarker.unindented_append _)
      (startsWithItemMarker_iff.mpr ⟨_, _, isMarker, rfl⟩),
    withNormalSpaces, dropped, squeezeSpaces_indentation spaced (isMarker.unindented_append _),
    squeezeSpaces_item isMarker blank stillStarts, withNormalSpaces]

end Item

/-- A line is indentation and then something that is no item, an item with nothing in it, or
an item with something in it. -/
theorem line_cases {motive : Text → Prop}
    (plain : ∀ indentation body, (∀ c ∈ indentation, isSpaceOrTab c = true) → Unindented body →
      startsWithItemMarker body = false → motive (indentation ++ body))
    (emptyItem : ∀ indentation marker blanks, (∀ c ∈ indentation, isSpaceOrTab c = true) →
      IsItemMarker marker → (∀ c ∈ blanks, isSpaceOrTab c = true) →
      motive (indentation ++ (marker ++ ' ' :: blanks)))
    (item : ∀ indentation marker blanks rest, (∀ c ∈ indentation, isSpaceOrTab c = true) →
      IsItemMarker marker → (∀ c ∈ blanks, isSpaceOrTab c = true) → rest ≠ [] → Unindented rest →
      motive (indentation ++ (marker ++ ' ' :: (blanks ++ rest)))) (line : Text) : motive line := by
  have spaced : ∀ c ∈ line.takeWhile isSpaceOrTab, isSpaceOrTab c = true :=
    fun _ => List.mem_takeWhile_imp
  have starts := unindented_dropWhile line
  rw [← List.takeWhile_append_dropWhile (p := isSpaceOrTab) (l := line)]
  cases kind : startsWithItemMarker (line.dropWhile isSpaceOrTab) with
  | false => exact plain _ _ spaced starts kind
  | true =>
    obtain ⟨marker, behind, isMarker, split⟩ := startsWithItemMarker_iff.mp kind
    rw [split, ← List.takeWhile_append_dropWhile (p := isSpaceOrTab) (l := behind)]
    have blank : ∀ c ∈ behind.takeWhile isSpaceOrTab, isSpaceOrTab c = true :=
      fun _ => List.mem_takeWhile_imp
    by_cases nothing : behind.dropWhile isSpaceOrTab = []
    · rw [nothing, List.append_nil]
      exact emptyItem _ marker _ spaced isMarker blank
    · exact item _ marker _ _ spaced isMarker blank nothing (unindented_dropWhile behind)

/-- A line in normal form stays as it is the next time, unless it was an empty item. -/
theorem normalLine_normalLine_iff (line : Text) :
    normalLine (normalLine line) = normalLine line ↔ ¬ IsEmptyItem line := by
  induction line using line_cases with
  | plain indentation body spaced starts plain =>
    refine iff_of_true ?_ fun isEmpty => ?_
    · have stillStarts : Unindented (withNormalSpaces body) := by
        rwa [Unindented, (withNormalSpaces_head? starts).2]
      rw [normalLine_of_plain spaced starts plain, normalLine_of_unindented stillStarts,
        withNormalSpaces_withNormalSpaces]
    · obtain ⟨-, marker, blanks, isMarker, -, rfl⟩ := (isEmptyItem_iff spaced starts).mp isEmpty
      rw [startsWithItemMarker_iff.mpr ⟨marker, blanks, isMarker, rfl⟩] at plain
      cases plain
  | emptyItem indentation marker blanks spaced isMarker blank =>
    -- The marker alone is no item, so that the indentation goes away the second time.
    have alone : withNormalSpaces ([] ++ marker) = [] ++ marker :=
      withNormalSpaces_marker (by simp) isMarker
    have second : normalLine (indentation ++ marker) = marker :=
      (normalLine_of_plain spaced isMarker.unindented isMarker.startsWithItemMarker_eq).trans alone
    have isEmpty : IsEmptyItem (indentation ++ (marker ++ ' ' :: blanks)) ↔ indentation ≠ [] := by
      rw [isEmptyItem_iff spaced (isMarker.unindented_append _)]
      exact and_iff_left ⟨marker, blanks, isMarker, blank, rfl⟩
    rw [normalLine_emptyItem spaced isMarker blank, second, isEmpty, not_not,
      List.self_eq_append_left]
  | item indentation marker blanks rest spaced isMarker blank nonempty starts =>
    obtain ⟨-, head⟩ := withNormalSpaces_head? starts
    refine iff_of_true ?_ fun isEmpty => ?_
    · have filled : withNormalSpaces rest ≠ [] := by
        rwa [Ne, ← List.head?_eq_none_iff, head, List.head?_eq_none_iff]
      have stillStarts : Unindented (withNormalSpaces rest) := by rwa [Unindented, head]
      have again : normalLine
          (indentation ++ (marker ++ ' ' :: ([] ++ withNormalSpaces rest))) = _ :=
        normalLine_item spaced isMarker (by simp) filled stillStarts
      rw [List.nil_append, withNormalSpaces_withNormalSpaces] at again
      rw [normalLine_item spaced isMarker blank nonempty starts, again]
    · obtain ⟨-, other, behind, isOther, spaces, same⟩ :=
        (isEmptyItem_iff spaced (isMarker.unindented_append _)).mp isEmpty
      have inside := isMarker.append_inj isOther same
      obtain ⟨c, others, rfl⟩ := List.exists_cons_of_ne_nil nonempty
      have space := spaces c (by rw [← inside]; simp)
      rw [unindented_cons.mp starts] at space
      cases space

/-- A line in normal form is no empty item. -/
theorem not_isEmptyItem_normalLine (line : Text) : ¬ IsEmptyItem (normalLine line) := by
  rintro ⟨indentation, marker, blanks, -, -, -, blank, same⟩
  have spaces : ∀ c ∈ ' ' :: blanks, isSpaceOrTab c = true :=
    List.forall_mem_cons.mpr ⟨by decide, blank⟩
  have last : (normalLine line).getLast? = (' ' :: blanks).getLast? := by
    rw [same, ← List.append_assoc, List.getLast?_append_of_ne_nil _ (List.cons_ne_nil ' ' blanks)]
  rw [List.getLast?_eq_some_getLast (List.cons_ne_nil ' ' blanks)] at last
  have space := spaces _ (List.getLast_mem (List.cons_ne_nil ' ' blanks))
  rw [getLast?_withNormalSpaces last] at space
  cases space

/-! ## All lines -/

/-- What puts no line break into a line. -/
def KeepsSingle (change : Text → Text) : Prop :=
  ∀ line, '\n' ∉ line → '\n' ∉ change line

theorem KeepsSingle.of_sublist {change : Text → Text}
    (parts : ∀ line, (change line).Sublist line) : KeepsSingle change :=
  fun line single member => single ((parts line).subset member)

theorem keepsSingle_withoutIndentation : KeepsSingle withoutIndentation := by
  refine .of_sublist fun line => ?_
  rw [withoutIndentation]
  split
  · exact List.Sublist.refl line
  · exact (List.dropWhile_suffix _).sublist

theorem keepsSingle_dropTrailing : KeepsSingle (dropTrailing isSpaceOrTab) := by
  refine .of_sublist fun line => ?_
  rw [dropTrailing_eq_rdropWhile]
  exact (List.rdropWhile_prefix _ _).sublist

theorem keepsSingle_normalLine : KeepsSingle normalLine := fun line single =>
  shrinks_squeezeSpaces.not_mem (by decide)
    (keepsSingle_dropTrailing _ (keepsSingle_withoutIndentation line single))

section Lines

variable {change other : Text → Text}

/-- The lines of what was changed line by line. -/
theorem splitOn_mapLines (keeps : KeepsSingle change) (text : Text) :
    splitOn '\n' (mapLines change text) = (splitOn '\n' text).map change := by
  refine splitOn_joinWith (by simp [splitOn_ne_nil]) fun line listed => ?_
  obtain ⟨source, member, rfl⟩ := List.mem_map.mp listed
  exact keeps source (not_mem_of_mem_splitOn member)

theorem mapLines_mapLines (keeps : KeepsSingle change) (text : Text) :
    mapLines other (mapLines change text) = mapLines (other ∘ change) text := by
  rw [mapLines, splitOn_mapLines keeps, List.map_map, mapLines]

/-- A text stays as it is if all its lines do. -/
theorem mapLines_eq_self_iff (keeps : KeepsSingle change) (text : Text) :
    mapLines change text = text ↔ ∀ line ∈ splitOn '\n' text, change line = line := by
  constructor
  · intro same
    have lines := splitOn_mapLines keeps text
    rw [same] at lines
    have each : (splitOn '\n' text).map change = (splitOn '\n' text).map id := by
      rw [List.map_id, ← lines]
    exact List.map_inj_left.mp each
  · intro same
    rw [mapLines, List.map_congr_left same, List.map_id', joinWith_splitOn]

end Lines

/-- All but the line breaks is brought into normal form line by line. -/
theorem mapLines_normalLine (text : Text) :
    squeezeSpaces (stripLineEnds (stripIndentation text)) = mapLines normalLine text := by
  have keeps : KeepsSingle (dropTrailing isSpaceOrTab ∘ withoutIndentation) := fun line single =>
    keepsSingle_dropTrailing _ (keepsSingle_withoutIndentation line single)
  rw [squeezeSpaces_eq_mapLines, stripLineEnds, stripIndentation,
    mapLines_mapLines keepsSingle_withoutIndentation, mapLines_mapLines keeps]
  rfl

/-- A text is in normal form if its lines and its line breaks are. -/
theorem normalizeBlanks_eq_self_iff (text : Text) :
    normalizeBlanks text = text ↔
      squeezeLineBreaks text = text ∧ ∀ line ∈ splitOn '\n' text, normalLine line = line := by
  rw [← mapLines_eq_self_iff keepsSingle_normalLine, normalizeBlanks, mapLines_normalLine]
  constructor
  · intro normal
    have lines : mapLines normalLine text = text := by
      rw [← mapLines_normalLine] at normal ⊢
      exact ((shrinks_stripIndentation.comp shrinks_stripLineEnds).comp
        shrinks_squeezeSpaces).eq_of_comp_eq shrinks_squeezeLineBreaks normal
    rw [lines] at normal
    exact ⟨normal, lines⟩
  · rintro ⟨squeezed, lines⟩
    rw [lines, squeezed]

/-- The lines afterwards are the normal forms of the lines before, but for empty ones. -/
theorem forall_line_normalizeBlanks_iff (holds : Text → Prop) (empty : holds []) (text : Text) :
    (∀ line ∈ splitOn '\n' (normalizeBlanks text), holds line) ↔
      ∀ line ∈ splitOn '\n' text, holds (normalLine line) := by
  rw [normalizeBlanks, mapLines_normalLine, forall_line_squeezeLineBreaks_iff holds empty,
    splitOn_mapLines keepsSingle_normalLine, List.forall_mem_map]

/-- The line breaks afterwards are in normal form. -/
theorem squeezeLineBreaks_normalizeBlanks (text : Text) :
    squeezeLineBreaks (normalizeBlanks text) = normalizeBlanks text :=
  squeezeLineBreaks_squeezeLineBreaks _

/-- The third time changes nothing. -/
theorem normalizeBlanks_stable (text : Text) :
    normalizeBlanks (normalizeBlanks (normalizeBlanks text)) =
      normalizeBlanks (normalizeBlanks text) := by
  rw [normalizeBlanks_eq_self_iff]
  refine ⟨squeezeLineBreaks_normalizeBlanks _, ?_⟩
  refine (forall_line_normalizeBlanks_iff (fun line => normalLine line = line) rfl _).mpr ?_
  refine (forall_line_normalizeBlanks_iff
    (fun line => normalLine (normalLine line) = normalLine line) rfl text).mpr fun line _ => ?_
  exact (normalLine_normalLine_iff _).mpr (not_isEmptyItem_normalLine line)

/-- The second time changes nothing exactly if no line is an indented item with nothing in
it. -/
theorem normalizeBlanks_normalizeBlanks_iff (text : Text) :
    normalizeBlanks (normalizeBlanks text) = normalizeBlanks text ↔
      ∀ line ∈ splitOn '\n' text, ¬ IsEmptyItem line := by
  have lines := forall_line_normalizeBlanks_iff (fun line => normalLine line = line) rfl text
  rw [normalizeBlanks_eq_self_iff, lines, and_iff_right (squeezeLineBreaks_normalizeBlanks text)]
  exact forall₂_congr fun line _ => normalLine_normalLine_iff line

/-- An empty item inside a list loses its place in it the second time. -/
theorem normalizeBlanks_emptyItem :
    let source := "- a\n  - \n  - b".toList
    normalizeBlanks source = "- a\n  -\n  - b".toList ∧
      normalizeBlanks (normalizeBlanks source) = "- a\n-\n  - b".toList ∧
      normalizeBlanks (normalizeBlanks source) ≠ normalizeBlanks source := by
  decide

end LatexMarkdown.Text
