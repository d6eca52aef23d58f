import LatexMarkdown.Proofs.FormulaKinds

/-!
# The scan for open formulas

Whether a position is inside a formula is read off all that stands before it. The scan
looks at the positions that are not escaped, and it changes its mind only at a marker, so
it may be taken piece by piece as long as no marker reaches over a seam.
-/

namespace LatexMarkdown.Math

open Scan

/-! ## Markers -/

/-- The markers of the environments that the scan knows, with and without a star. -/
def spanMarkers (marker : Text → Text) : List Text :=
  spanNames.flatMap fun name => [marker name, marker (name ++ ['*'])]

/-- What opens a formula. -/
def openings : List Text :=
  ["\\[".toList, "\\(".toList, ['$']] ++ spanMarkers beginMarker

/-- All that a search for formulas or arrays looks for and that is longer than a character. -/
def markers : List Text :=
  ["\\[".toList, "\\]".toList, "\\(".toList, "\\)".toList, "$$".toList,
    beginMarker "array".toList] ++ (spanMarkers beginMarker ++ spanMarkers endMarker)

theorem mem_spanMarkers {marker : Text → Text} {text : Text} :
    text ∈ spanMarkers marker ↔
      ∃ name ∈ spanNames, text = marker name ∨ text = marker (name ++ ['*']) := by
  simp only [spanMarkers, List.mem_flatMap, List.mem_cons, List.not_mem_nil, or_false]

/-- A name of the scan stands behind the start of its marker. -/
theorem startsWithSpanName_iff {marker : Text → Text} {start : Text}
    (spelled : ∀ name, marker name = start ++ (name ++ ['}'])) (text : Text) :
    startsWithSpanName text = true ↔ ∃ found ∈ spanMarkers marker, found <+: start ++ text := by
  rw [startsWithSpanName, List.any_eq_true]
  constructor
  · rintro ⟨name, listed, starts⟩
    rw [Bool.or_eq_true, Text.startsWith_iff, Text.startsWith_iff] at starts
    rcases starts with plain | starred
    · refine ⟨marker name, mem_spanMarkers.mpr ⟨name, listed, .inl rfl⟩, ?_⟩
      rw [spelled]
      exact (List.prefix_append_right_inj start).mpr plain
    · refine ⟨marker (name ++ ['*']), mem_spanMarkers.mpr ⟨name, listed, .inr rfl⟩, ?_⟩
      rw [spelled, List.append_assoc]
      exact (List.prefix_append_right_inj start).mpr starred
  · rintro ⟨found, member, starts⟩
    obtain ⟨name, listed, rfl | rfl⟩ := mem_spanMarkers.mp member
    · rw [spelled, List.prefix_append_right_inj] at starts
      refine ⟨name, listed, ?_⟩
      rw [Bool.or_eq_true, Text.startsWith_iff]
      exact .inl starts
    · rw [spelled, List.append_assoc, List.prefix_append_right_inj] at starts
      refine ⟨name, listed, ?_⟩
      rw [Bool.or_eq_true, Text.startsWith_iff, Text.startsWith_iff]
      exact .inr starts

/-- The marker of an environment is not found where its start is not. -/
theorem not_spanMarkers {marker : Text → Text} {start text : Text}
    (spelled : ∀ name, marker name = start ++ (name ++ ['}'])) (absent : ¬ start <+: text) :
    ¬ ∃ found ∈ spanMarkers marker, found <+: text := by
  rintro ⟨found, member, starts⟩
  obtain ⟨name, -, rfl | rfl⟩ := mem_spanMarkers.mp member
  all_goals
    rw [spelled] at starts
    exact absent ((List.prefix_append _ _).trans starts)

/-! ## One position -/

/-- A formula is open if one of any sort is. -/
theorem OpenSpans.any_iff (spans : OpenSpans) :
    spans.any = true ↔ spans.inline = true ∨ spans.display = true ∨ spans.bracket = true ∨
      spans.parenthesis = true ∨ spans.environments ≠ 0 := by
  simp only [any, Bool.or_eq_true, decide_eq_true_eq, or_assoc]

/-- The open formulas behind a backslash, by the marker that it starts. -/
theorem OpenSpans.afterBackslash_eq (spans : OpenSpans) (text : Text) :
    spans.afterBackslash text =
      if "\\[".toList <+: '\\' :: text then { spans with bracket := true }
      else if "\\]".toList <+: '\\' :: text then { spans with bracket := false }
      else if "\\(".toList <+: '\\' :: text then { spans with parenthesis := true }
      else if "\\)".toList <+: '\\' :: text then { spans with parenthesis := false }
      else if ∃ marker ∈ spanMarkers beginMarker, marker <+: '\\' :: text then
        { spans with environments := spans.environments + 1 }
      else if ∃ marker ∈ spanMarkers endMarker, marker <+: '\\' :: text then
        { spans with environments := spans.environments - 1 }
      else spans := by
  have signs (c : Char) : ['\\', c] <+: '\\' :: text ↔ text.head? = some c := by
    rw [List.cons_prefix_cons, eq_self, true_and]
    cases text with
    | nil => simp
    | cons d rest => simp [List.cons_prefix_cons, eq_comm]
  have opens (name : Text) :
      beginMarker name = '\\' :: ("begin".toList ++ ['{']) ++ (name ++ ['}']) := by
    rw [beginMarker_eq]
    rfl
  have closes (name : Text) :
      endMarker name = '\\' :: ("end".toList ++ ['{']) ++ (name ++ ['}']) := by
    rw [endMarker_eq]
    rfl
  rw [show "\\[".toList = ['\\', '['] from rfl, show "\\]".toList = ['\\', ']'] from rfl,
    show "\\(".toList = ['\\', '('] from rfl, show "\\)".toList = ['\\', ')'] from rfl]
  simp only [signs]
  unfold afterBackslash
  split
  · rfl
  · rfl
  · rfl
  · rfl
  next bracket closingBracket parenthesis closingParenthesis =>
    have other {c : Char} (never : ∀ tail, text = c :: tail → False) : ¬ text.head? = some c := by
      intro head
      obtain ⟨tail, rfl⟩ := List.head?_eq_some_iff.mp head
      exact never tail rfl
    rw [if_neg (other bracket), if_neg (other closingBracket), if_neg (other parenthesis),
      if_neg (other closingParenthesis)]
    cases opened : Text.dropFront? ("begin".toList ++ ['{']) text with
    | some name =>
      obtain rfl := Text.dropFront?_eq_some_iff.mp opened
      have unclosed : ¬ '\\' :: ("end".toList ++ ['{']) <+:
          '\\' :: ("begin".toList ++ ['{'] ++ name) := by
        simp [List.cons_prefix_cons]
      have named := startsWithSpanName_iff opens name
      rw [List.cons_append] at named
      rw [if_neg (not_spanMarkers closes unclosed)]
      simp only [named]
    | none =>
      have unopened : ¬ '\\' :: ("begin".toList ++ ['{']) <+: '\\' :: text := by
        rw [List.cons_prefix_cons]
        exact fun start => Text.dropFront?_eq_none_iff.mp opened start.2
      rw [if_neg (not_spanMarkers opens unopened)]
      cases closed : Text.dropFront? ("end".toList ++ ['{']) text with
      | some name =>
        obtain rfl := Text.dropFront?_eq_some_iff.mp closed
        have named := startsWithSpanName_iff closes name
        rw [List.cons_append] at named
        simp only [named]
      | none =>
        have unclosed : ¬ '\\' :: ("end".toList ++ ['{']) <+: '\\' :: text := by
          rw [List.cons_prefix_cons]
          exact fun start => Text.dropFront?_eq_none_iff.mp closed start.2
        rw [if_neg (not_spanMarkers closes unclosed)]

/-- The open formulas behind the character at a position that is not passed over. -/
def OpenSpans.after (spans : OpenSpans) : Text → OpenSpans
  | [] => spans
  | c :: rest =>
    if c = '\\' then spans.afterBackslash rest
    else if c = '$' then
      if "$$".toList <+: c :: rest then { spans with display := !spans.display }
      else { spans with inline := !spans.inline }
    else spans

/-- Whether the character behind such a position is passed over. -/
def passesNext (text : Text) : Bool :=
  text.head? = some '\\' || "$$".toList <+: text

theorem doubleDollar_prefix_iff (rest : Text) :
    "$$".toList <+: '$' :: rest ↔ rest.head? = some '$' := by
  rw [show "$$".toList = ['$', '$'] from rfl, List.cons_prefix_cons, eq_self, true_and]
  cases rest with
  | nil => simp
  | cons c others => simp [List.cons_prefix_cons, eq_comm]

theorem passesNext_dollar (rest : Text) :
    passesNext ('$' :: rest) = decide (rest.head? = some '$') := by
  rw [passesNext, List.head?_cons, decide_eq_false (by decide), Bool.false_or]
  exact decide_eq_decide.mpr (doubleDollar_prefix_iff rest)

theorem passesNext_of_ne {c : Char} (backslash : c ≠ '\\') (dollar : c ≠ '$') (rest : Text) :
    passesNext (c :: rest) = false := by
  have single : ¬ "$$".toList <+: c :: rest := fun start =>
    dollar (List.cons_prefix_cons.mp start).1.symm
  rw [passesNext, List.head?_cons, decide_eq_false (by simpa using backslash),
    decide_eq_false single, Bool.or_self]

/-- The scan goes on behind a position from what that position opens or closes. -/
theorem openSpansFrom_visit (spans : OpenSpans) (c : Char) (rest : Text) :
    openSpansFrom spans false (c :: rest) =
      openSpansFrom (spans.after (c :: rest)) (passesNext (c :: rest)) rest := by
  rw [openSpansFrom, OpenSpans.after]
  by_cases backslash : c = '\\'
  · subst backslash
    rfl
  by_cases dollar : c = '$'
  · subst dollar
    rw [passesNext_dollar]
    simp only [backslash, doubleDollar_prefix_iff, if_true, if_false]
    by_cases second : rest.head? = some '$'
    · rw [if_pos second, if_pos second, decide_eq_true second]
    · rw [if_neg second, if_neg second, decide_eq_false second]
  · rw [passesNext_of_ne backslash dollar]
    simp [backslash, dollar]

/-- Whether the scan passes over the next character, against whether it is escaped: they
differ only at the second of two dollars. -/
def Follows (passed escaped : Bool) (text : Text) : Prop :=
  passed = escaped ∨ passed = true ∧ escaped = false ∧ text.head? = some '$'

/-- The scan is at the start of a text as the escapes are. -/
theorem Follows.start (text : Text) : Follows false false text :=
  .inl rfl

theorem Follows.visit (c : Char) (rest : Text) :
    Follows (passesNext (c :: rest)) (escapesNext false c) rest := by
  by_cases backslash : c = '\\'
  · subst backslash
    exact .inl rfl
  rw [escapesNext_of_ne backslash]
  by_cases dollar : c = '$'
  · subst dollar
    rw [passesNext_dollar]
    by_cases second : rest.head? = some '$'
    · exact .inr ⟨decide_eq_true second, rfl, second⟩
    · exact .inl (decide_eq_false second)
  · exact .inl (passesNext_of_ne backslash dollar rest)

theorem Follows.pass {escaped : Bool} {c : Char} {rest : Text}
    (follows : Follows true escaped (c :: rest)) : Follows false (escapesNext escaped c) rest := by
  rcases follows with same | ⟨-, rfl, head⟩
  · subst same
    rw [escapesNext, Bool.not_true, Bool.and_false]
    exact .start rest
  · obtain rfl : c = '$' := Option.some.inj head
    exact .start rest

theorem Follows.free {escaped : Bool} {text : Text} (follows : Follows false escaped text) :
    escaped = false := by
  rcases follows with same | ⟨passed, -⟩
  · exact same.symm
  · cases passed

/-! ## A whole scan -/

/-- What no position changes, a scan does not change. -/
theorem openSpansFrom_keeps (keeps : OpenSpans → Prop) {calm : Text → Prop}
    (step : ∀ spans suffix, calm suffix → keeps spans → keeps (spans.after suffix))
    {spans : OpenSpans} {passed escaped : Bool} {text : Text}
    (follows : Follows passed escaped text) (everywhere : Everywhere calm escaped text)
    (holds : keeps spans) : keeps (openSpansFrom spans passed text) := by
  induction text generalizing spans passed escaped with
  | nil => exact holds
  | cons c rest inductionHypothesis =>
    obtain ⟨here, later⟩ := everywhere
    cases passed with
    | true => exact inductionHypothesis follows.pass later holds
    | false =>
      obtain rfl := follows.free
      rw [openSpansFrom_visit]
      exact inductionHypothesis (.visit c rest) later (step spans _ (here rfl) holds)

/-- No marker that is not escaped reaches over the end of a text into what follows. -/
def Within (escaped : Bool) (text after : Text) : Prop :=
  Everywhere (fun suffix => ∀ marker ∈ markers, marker <+: suffix ++ after → marker <+: suffix)
    escaped text

/-- A marker starts with a backslash or a dollar, so it is looked for only where one stands. -/
theorem within_iff {escaped : Bool} {text after : Text} :
    Within escaped text after ↔
      Everywhere (fun suffix => suffix.head? = some '\\' ∨ suffix.head? = some '$' →
        ∀ marker ∈ markers, marker <+: suffix ++ after → marker <+: suffix) escaped text := by
  have heads : ∀ marker ∈ markers, marker.head? = some '\\' ∨ marker.head? = some '$' := by decide
  refine ⟨fun within => within.imp fun _ _ _ inside _ => inside,
    fun signs => signs.imp fun suffix _ nonempty inside marker listed start => ?_⟩
  refine inside ?_ marker listed start
  obtain ⟨c, rest, rfl⟩ := List.exists_cons_of_ne_nil nonempty
  refine (heads marker listed).imp ?_ ?_
  all_goals
    intro head
    obtain ⟨others, rfl⟩ := List.head?_eq_some_iff.mp head
    rw [List.head?_cons, (List.cons_prefix_cons.mp start).1]

instance (escaped : Bool) (text after : Text) : Decidable (Within escaped text after) :=
  have := decidableEverywhere (fun suffix => suffix.head? = some '\\' ∨ suffix.head? = some '$' →
    ∀ marker ∈ markers, marker <+: suffix ++ after → marker <+: suffix) escaped text
  decidable_of_iff _ within_iff.symm

/-- What a position opens or closes does not depend on what follows the markers there. -/
theorem OpenSpans.after_append (spans : OpenSpans) {c : Char} {rest behind : Text}
    (within : ∀ marker ∈ markers, marker <+: c :: (rest ++ behind) → marker <+: c :: rest) :
    spans.after (c :: (rest ++ behind)) = spans.after (c :: rest) ∧
      passesNext (c :: (rest ++ behind)) = passesNext (c :: rest) := by
  have same (marker : Text) (listed : marker ∈ markers) :
      marker <+: c :: (rest ++ behind) ↔ marker <+: c :: rest :=
    ⟨within marker listed, fun start => start.trans (List.prefix_append (c :: rest) behind)⟩
  have named {marker : Text → Text} (listed : spanMarkers marker ⊆ markers) :
      (∃ found ∈ spanMarkers marker, found <+: c :: (rest ++ behind)) ↔
        ∃ found ∈ spanMarkers marker, found <+: c :: rest :=
    exists_congr fun found => and_congr_right fun member => same found (listed member)
  have begins : spanMarkers beginMarker ⊆ markers := fun found member =>
    List.mem_append_right _ (List.mem_append_left _ member)
  have ends : spanMarkers endMarker ⊆ markers := fun found member =>
    List.mem_append_right _ (List.mem_append_right _ member)
  have dollars := same "$$".toList (by decide)
  constructor
  · rw [OpenSpans.after, OpenSpans.after]
    split
    next backslash =>
      subst backslash
      rw [OpenSpans.afterBackslash_eq, OpenSpans.afterBackslash_eq]
      simp only [same "\\[".toList (by decide), same "\\]".toList (by decide),
        same "\\(".toList (by decide), same "\\)".toList (by decide), named begins, named ends]
    · simp only [dollars]
  · rw [passesNext, passesNext, List.head?_cons, List.head?_cons]
    exact congrArg (_ || ·) (decide_eq_decide.mpr dollars)

/-- A scan goes over a text piece by piece, if no marker reaches over the seam. -/
theorem openSpansFrom_append {spans : OpenSpans} {passed escaped : Bool} {text after : Text}
    (follows : Follows passed escaped text) (within : Within escaped text after)
    (free : escapesAfter escaped text = false) :
    openSpansFrom spans passed (text ++ after) =
      openSpansFrom (openSpansFrom spans passed text) false after := by
  induction text generalizing spans passed escaped with
  | nil =>
    rcases follows with same | ⟨-, -, head⟩
    · rw [show passed = false from same.trans free]
      rfl
    · cases head
  | cons c rest inductionHypothesis =>
    obtain ⟨here, later⟩ := within
    cases passed with
    | true => exact inductionHypothesis follows.pass later free
    | false =>
      obtain rfl := follows.free
      obtain ⟨sameSpans, samePasses⟩ := spans.after_append (here rfl)
      rw [List.cons_append, openSpansFrom_visit, openSpansFrom_visit, sameSpans, samePasses]
      exact inductionHypothesis (.visit c rest) later free

/-! ## What keeps a formula open -/

/-- A text without anything that opens a formula leaves none open. -/
theorem openSpansFrom_of_unopened {text : Text}
    (unopened : Everywhere (fun suffix => ∀ marker ∈ openings, ¬ marker <+: suffix) false text) :
    openSpansFrom .none false text = .none := by
  refine openSpansFrom_keeps (· = .none) (fun spans suffix calm none => ?_) (.start text)
    unopened rfl
  subst none
  have begins : ¬ ∃ marker ∈ spanMarkers beginMarker, marker <+: suffix := by
    rintro ⟨marker, listed, start⟩
    exact calm marker (List.mem_append_right _ listed) start
  cases suffix with
  | nil => rfl
  | cons c rest =>
    rw [OpenSpans.after]
    split
    next backslash =>
      subst backslash
      rw [OpenSpans.afterBackslash_eq, if_neg (calm "\\[".toList (by decide)),
        if_neg (calm "\\(".toList (by decide)), if_neg begins]
      split
      · rfl
      split
      · rfl
      split
      · rfl
      · rfl
    split
    next dollar =>
      subst dollar
      exact absurd (List.prefix_append ['$'] rest) (calm ['$'] (by decide))
    · rfl

/-- A bracket or a parenthesis stays open up to the next of its closings. -/
theorem delimited_after {closing : Text} {part : OpenSpans → Bool}
    (closes : closing = "\\]".toList ∧ part = OpenSpans.bracket ∨
      closing = "\\)".toList ∧ part = OpenSpans.parenthesis)
    {spans : OpenSpans} {suffix : Text} (unclosed : ¬ closing <+: suffix)
    (isOpen : part spans = true) : part (spans.after suffix) = true := by
  cases suffix with
  | nil => exact isOpen
  | cons c rest =>
    rcases closes with ⟨rfl, rfl⟩ | ⟨rfl, rfl⟩
    all_goals
      rw [OpenSpans.after]
      split
      next backslash =>
        subst backslash
        rw [OpenSpans.afterBackslash_eq, if_neg unclosed]
        split_ifs <;> first | rfl | exact isOpen
      · split_ifs <;> exact isOpen

/-- A backslash opens and closes nothing between dollars. -/
theorem afterBackslash_dollars (spans : OpenSpans) (text : Text) :
    (spans.afterBackslash text).inline = spans.inline ∧
      (spans.afterBackslash text).display = spans.display := by
  rw [OpenSpans.afterBackslash_eq]
  split_ifs <;> exact ⟨rfl, rfl⟩

/-- A display between dollars stays open up to the next two dollars. -/
theorem display_after {spans : OpenSpans} {suffix : Text} (unclosed : ¬ "$$".toList <+: suffix)
    (isOpen : spans.display = true) : (spans.after suffix).display = true := by
  cases suffix with
  | nil => exact isOpen
  | cons c rest =>
    rw [OpenSpans.after]
    split
    · rw [(afterBackslash_dollars spans rest).2, isOpen]
    · split_ifs <;> exact isOpen

/-- Inline math stays open up to the next dollar. -/
theorem inline_after {spans : OpenSpans} {suffix : Text} (unclosed : ¬ ['$'] <+: suffix)
    (isOpen : spans.inline = true) : (spans.after suffix).inline = true := by
  cases suffix with
  | nil => exact isOpen
  | cons c rest =>
    have different : ¬ c = '$' := by
      rintro rfl
      exact unclosed (List.prefix_append ['$'] rest)
    rw [OpenSpans.after, if_neg different]
    split
    · rw [(afterBackslash_dollars spans rest).1, isOpen]
    · exact isOpen

/-! ## Formulas that stay open -/

namespace Kind

/-- The scan sees a formula as open wherever its opening is behind and its closing ahead. -/
def StaysOpen (kind : Kind) (text : Text) : Prop :=
  ∀ front ∈ text.inits, kind.opening <+: front →
    front.length + kind.closing.length ≤ text.length → isInside front = true

instance (kind : Kind) (text : Text) : Decidable (kind.StaysOpen text) :=
  List.decidableBAll _ _

/-- A front that ends between the delimiters is the opening and a front of the inside. -/
theorem exists_front {opening body closing front : Text}
    (within : front <+: opening ++ (body ++ closing)) (opened : opening <+: front)
    (short : front.length + closing.length ≤ (opening ++ (body ++ closing)).length) :
    ∃ inner, front = opening ++ inner ∧ inner <+: body := by
  obtain ⟨inner, rfl⟩ := opened
  rw [List.prefix_append_right_inj] at within
  refine ⟨inner, rfl, List.prefix_of_prefix_length_le within (List.prefix_append body closing) ?_⟩
  simp only [List.length_append] at short
  omega

/-- A formula stays open if its opening opens something that only its closing closes. -/
theorem staysOpen_delimited {opening closing text : Text} {reached : OpenSpans}
    (part : OpenSpans → Bool)
    (opens : ∀ inner, openSpansFrom .none false (opening ++ inner) =
      openSpansFrom reached false inner)
    (isOpen : part reached = true)
    (step : ∀ spans suffix, ¬ closing <+: suffix → part spans = true →
      part (spans.after suffix) = true)
    (shown : ∀ spans, part spans = true → spans.any = true)
    (free : escapesAfter false opening = false)
    (read : (delimited opening closing).rest? text = some []) :
    (delimited opening closing).StaysOpen text := by
  simp only [rest?, Option.map_eq_some_iff, Option.bind_eq_some_iff, Prod.exists] at read
  obtain ⟨body, _, ⟨inside, opened, closed⟩, rfl⟩ := read
  rw [free] at closed
  obtain rfl := Text.dropFront?_eq_some_iff.mp opened
  have spelled : inside = body ++ closing := by
    rw [splitUnescaped?_eq_append closed, List.append_nil]
  rw [spelled]
  intro front member started short
  obtain ⟨inner, rfl, behind, rfl⟩ :=
    exists_front ((List.mem_inits _ _).mp member) started short
  -- Within the body the closing does not start, so it does not start in a front of it.
  have passed := (everywhere_append.mp (splitUnescaped?_passes closed)).1
  have unclosed : Everywhere (fun suffix => ¬ closing <+: suffix) false inner := by
    refine passed.imp fun suffix _ _ apart start => apart ?_
    rw [List.append_assoc]
    exact start.trans (List.prefix_append _ _)
  change (openSpansFrom .none false (opening ++ inner)).any = true
  rw [opens]
  exact shown _ (openSpansFrom_keeps (part · = true) step (.start inner) unclosed isOpen)

theorem staysOpen_dollars {text : Text} (read : dollars.rest? text = some []) :
    dollars.StaysOpen text := by
  simp only [rest?, Option.bind_eq_some_iff] at read
  obtain ⟨inside, opened, closed⟩ := read
  obtain ⟨body, nonempty, found⟩ := afterDollars?_eq_some closed
  have passed := readDollars_passes found
  obtain rfl := Text.dropFront?_eq_some_iff.mp opened
  have spelled : inside = body ++ ['$'] := readDollars_eq_append found
  rw [spelled]
  intro front member started short
  obtain ⟨inner, rfl, behind, rfl⟩ :=
    exists_front ((List.mem_inits _ _).mp member) started short
  have unclosed : Everywhere (fun suffix => ¬ ['$'] <+: suffix) false inner := by
    refine (everywhere_append.mp passed).1.imp fun suffix _ _ apart start => apart ?_
    exact start.trans (List.prefix_append _ _)
  have single : ¬ inner.head? = some '$' := by
    intro head
    obtain ⟨rest, rfl⟩ := List.head?_eq_some_iff.mp head
    exact unclosed.1 rfl (List.prefix_append ['$'] rest)
  have opens : openSpansFrom .none false (['$'] ++ inner) =
      openSpansFrom { OpenSpans.none with inline := true } false inner := by
    rw [List.singleton_append, openSpansFrom, if_neg (by decide), if_pos rfl, if_neg single]
    rfl
  change (openSpansFrom .none false (['$'] ++ inner)).any = true
  rw [opens, OpenSpans.any_iff]
  exact .inl (openSpansFrom_keeps (·.inline = true) (fun _ _ => inline_after) (.start inner)
    unclosed rfl)

/-- Whether a kind is that of an environment. -/
def isEnvironment : Kind → Bool
  | environment .. => true
  | _ => false

/-- A kind takes a whole text for one formula. Environments must nest for the scan as they do
for their reader; between delimiters there is nothing to ask. -/
structure Takes (kind : Kind) (text : Text) : Prop where
  read : kind.rest? text = some []
  nests : kind.isEnvironment = true → kind.StaysOpen text

instance (kind : Kind) (text : Text) : Decidable (kind.Takes text) :=
  decidable_of_iff (kind.rest? text = some [] ∧ (kind.isEnvironment = true → kind.StaysOpen text))
    ⟨fun ⟨read, nests⟩ => ⟨read, nests⟩, fun takes => ⟨takes.read, takes.nests⟩⟩

/-- A formula of every kind stays open. -/
theorem Takes.staysOpen {kind : Kind} (listed : kind ∈ kinds) {text : Text}
    (takes : kind.Takes text) : kind.StaysOpen text := by
  cases kind with
  | environment => exact takes.nests rfl
  | dollars => exact staysOpen_dollars takes.read
  | delimited opening closing =>
    simp only [kinds, List.mem_cons, List.mem_append, List.mem_map, reduceCtorEq, and_false,
      exists_false, false_or, List.not_mem_nil, or_false, delimited.injEq] at listed
    rcases listed with ⟨rfl, rfl⟩ | ⟨rfl, rfl⟩ | ⟨rfl, rfl⟩
    · exact staysOpen_delimited OpenSpans.bracket (fun _ => rfl) rfl
        (fun _ _ => delimited_after (.inl ⟨rfl, rfl⟩))
        (fun spans isOpen => spans.any_iff.mpr (.inr (.inr (.inl isOpen)))) (by decide) takes.read
    · exact staysOpen_delimited OpenSpans.display (fun _ => rfl) rfl (fun _ _ => display_after)
        (fun spans isOpen => spans.any_iff.mpr (.inr (.inl isOpen))) (by decide) takes.read
    · exact staysOpen_delimited OpenSpans.parenthesis (fun _ => rfl) rfl
        (fun _ _ => delimited_after (.inr ⟨rfl, rfl⟩))
        (fun spans isOpen => spans.any_iff.mpr (.inr (.inr (.inr (.inl isOpen))))) (by decide)
        takes.read

end Kind

end LatexMarkdown.Math
