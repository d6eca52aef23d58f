import LatexMarkdown.Proofs.FormulaDocument

/-!
# Where an array stands

An array has a place of its own outside formulas, and inside a formula only if it fills
it. Both are decided by the scan of all that stands before the array, and by the
delimiters around it.
-/

namespace LatexMarkdown.Table

open Scan Math

/-! ## Delimiters around an array -/

/-- Whether the end of a text is escaped, counted from its end or read from its start. -/
theorem endsEscaped_eq (before : Text) :
    endsEscaped before = escapesAfter false before.reverse := by
  induction before with
  | nil => rfl
  | cons c others inductionHypothesis =>
    rw [List.reverse_cons, escapesAfter_append, ← inductionHypothesis, escapesAfter_cons,
      escapesAfter_nil, endsEscaped, endsEscaped]
    by_cases backslash : c = '\\'
    · subst backslash
      rw [List.takeWhile_cons_of_pos (by decide), List.length_cons, escapesNext,
        decide_eq_true rfl, Bool.true_and, ← decide_not]
      exact decide_eq_decide.mpr (by omega)
    · rw [List.takeWhile_cons_of_neg (by simpa using backslash), escapesNext_of_ne backslash]
      rfl

/-- The delimiters of a formula around an array: its opening ends the text before the array,
up to blanks, and its closing starts the text behind, after blanks. -/
structure Wraps (opening closing before after outside blanks rest : Text) : Prop where
  listed : (opening, closing) ∈ wrappers
  before_eq : before = outside ++ (opening ++ blanks)
  blank : ∀ c ∈ blanks, Text.isBlank c = true
  after_eq : Text.trimStart after = closing ++ rest
  free : escapesAfter false outside = false
  apart : isInside outside = false

/-- Delimiters around an array are read as such. -/
theorem readWrapper_eq_some {before after rest : Text} {width : Nat}
    (read : readWrapper before after = some (width, rest)) :
    ∃ opening closing outside blanks,
      Wraps opening closing before.reverse after outside blanks rest ∧
        width = (opening ++ blanks).length := by
  rw [readWrapper, List.findSome?_eq_some_iff] at read
  obtain ⟨_, ⟨opening, closing⟩, _, wrappers_eq, found, -⟩ := read
  have listed : (opening, closing) ∈ wrappers := by
    rw [wrappers_eq]
    exact List.mem_append_right _ List.mem_cons_self
  simp only at found
  split at found
  next outside behind opened closed =>
    split at found
    · cases found
    next own =>
      obtain ⟨rfl, rfl⟩ := Prod.mk.inj (Option.some.inj found)
      rw [Bool.or_eq_true, not_or, Bool.not_eq_true, Bool.not_eq_true, endsEscaped_eq] at own
      have whole : before = before.takeWhile Text.isBlank ++ (opening.reverse ++ outside) := by
        rw [← Text.dropFront?_eq_some_iff.mp opened, List.takeWhile_append_dropWhile]
      have spelled : before.reverse =
          outside.reverse ++ (opening ++ (before.takeWhile Text.isBlank).reverse) := by
        conv_lhs => rw [whole]
        simp
      refine ⟨opening, closing, outside.reverse, (before.takeWhile Text.isBlank).reverse,
        ⟨listed, spelled, fun c member => List.mem_takeWhile_imp (List.mem_reverse.mp member),
          Text.dropFront?_eq_some_iff.mp closed, own.1, own.2⟩, ?_⟩
      have length := congrArg List.length whole
      simp only [List.length_append, List.length_reverse] at length ⊢
      omega
  · cases found

/-! ## Outside formulas -/

/-- Blanks open and close nothing. -/
theorem openSpansFrom_blanks (spans : OpenSpans) {blanks : Text}
    (blank : ∀ c ∈ blanks, Text.isBlank c = true) : openSpansFrom spans false blanks = spans := by
  induction blanks with
  | nil => rfl
  | cons c others inductionHypothesis =>
    rw [List.forall_mem_cons] at blank
    have visible {sign : Char} (shown : Text.isBlank sign = false) : c ≠ sign := by
      rintro rfl
      rw [shown] at blank
      exact Bool.false_ne_true blank.1
    rw [openSpansFrom, if_neg (visible (by decide)), if_neg (visible (by decide))]
    exact inductionHypothesis blank.2

/-- A marker that reaches into the delimiters around an array is two dollars. -/
theorem doubleDollar_of_reaches {marker front opening closing tail : Text}
    (member : marker ∈ markers) (listed : (opening, closing) ∈ wrappers) (nonempty : front ≠ [])
    (reaches : marker <+: front ++ (opening ++ tail)) (long : ¬ marker <+: front) :
    marker = "$$".toList ∧ front = ['$'] ∧ opening = "$$".toList := by
  have tails : ∀ marker ∈ markers, '\\' ∉ marker.tail ∧
      ('$' ∈ marker.tail → marker = "$$".toList) := by decide
  obtain ⟨inner, rfl, ahead⟩ := (prefix_append_cases reaches).resolve_left long
  obtain ⟨c, others, rfl⟩ := List.exists_cons_of_ne_nil nonempty
  cases inner with
  | nil => exact absurd (List.append_nil _ ▸ List.prefix_refl _) long
  | cons d behind =>
    obtain ⟨noBackslash, dollars⟩ := tails _ member
    have inTail : d ∈ ((c :: others) ++ d :: behind).tail :=
      List.mem_append_right others List.mem_cons_self
    simp only [wrappers, List.mem_cons, Prod.mk.injEq, List.not_mem_nil, or_false] at listed
    rcases listed with ⟨rfl, -⟩ | ⟨rfl, -⟩
    · obtain ⟨rfl, -⟩ := List.cons_prefix_cons.mp ahead
      have same : c :: others ++ '$' :: behind = ['$', '$'] := dollars inTail
      cases others with
      | nil =>
        obtain ⟨rfl, -⟩ := List.cons_eq_cons.mp same
        exact ⟨dollars inTail, rfl, rfl⟩
      | cons e more =>
        have length := congrArg List.length same
        simp at length
    · obtain ⟨rfl, -⟩ := List.cons_prefix_cons.mp ahead
      exact absurd inTail noBackslash

/-- Where nothing is open, no display between dollars is. -/
theorem display_of_any {spans : OpenSpans} (none : spans.any = false) : spans.display = false := by
  simp only [OpenSpans.any, Bool.or_eq_false_iff] at none
  exact none.1.1.1.2

/-- The opening of a formula on display opens it, and blanks leave it open. -/
theorem any_openSpansFrom_opening {opening closing blanks : Text}
    (listed : (opening, closing) ∈ wrappers) (blank : ∀ c ∈ blanks, Text.isBlank c = true)
    {spans : OpenSpans} (none : spans.any = false) :
    (openSpansFrom spans false (opening ++ blanks)).any = true := by
  simp only [wrappers, List.mem_cons, Prod.mk.injEq, List.not_mem_nil, or_false] at listed
  rcases listed with ⟨rfl, -⟩ | ⟨rfl, -⟩
  · have opens : openSpansFrom spans false ("$$".toList ++ blanks) =
        { spans with display := !spans.display } :=
      openSpansFrom_blanks { spans with display := !spans.display } blank
    rw [opens, OpenSpans.any_iff, display_of_any none]
    exact .inr (.inl rfl)
  · have opens : openSpansFrom spans false ("\\[".toList ++ blanks) =
        { spans with bracket := true } :=
      openSpansFrom_blanks { spans with bracket := true } blank
    rw [opens, OpenSpans.any_iff]
    exact .inr (.inr (.inl rfl))

/-- A single dollar before two others is the first of two, and the display is open as well. -/
theorem any_openSpansFrom_thirdDollar {blanks : Text} (blank : ∀ c ∈ blanks, Text.isBlank c = true)
    {spans : OpenSpans} (none : (openSpansFrom spans false ['$']).any = false) :
    (openSpansFrom spans false (['$'] ++ ("$$".toList ++ blanks))).any = true := by
  have single : ¬ blanks.head? = some '$' := fun head => by
    have wrong := blank '$' (List.mem_of_mem_head? head)
    exact absurd wrong (by decide)
  have closed : spans.display = false :=
    @display_of_any { spans with inline := !spans.inline } none
  have opens : openSpansFrom spans false (['$'] ++ ("$$".toList ++ blanks)) =
      openSpansFrom { spans with display := !spans.display } false ('$' :: blanks) := rfl
  rw [opens, openSpansFrom, if_neg (by decide), if_pos rfl, if_neg single,
    openSpansFrom_blanks _ blank, OpenSpans.any_iff, closed]
  exact .inr (.inl rfl)

/-- Behind the opening of a formula on display, and blanks, a formula is open. -/
theorem any_openSpansFrom_wrapped {opening closing blanks : Text}
    (listed : (opening, closing) ∈ wrappers) (blank : ∀ c ∈ blanks, Text.isBlank c = true)
    {spans : OpenSpans} {passed escaped : Bool} {outside : Text}
    (follows : Math.Follows passed escaped outside) (free : escapesAfter escaped outside = false)
    (none : (openSpansFrom spans passed outside).any = false) :
    (openSpansFrom spans passed (outside ++ (opening ++ blanks))).any = true := by
  induction outside generalizing spans passed escaped with
  | nil =>
    have start : passed = false := by
      rcases follows with same | ⟨-, -, head⟩
      · exact same.trans free
      · cases head
    subst start
    exact any_openSpansFrom_opening listed blank none
  | cons c rest inductionHypothesis =>
    cases passed with
    | true => exact inductionHypothesis follows.pass free none
    | false =>
      obtain rfl := follows.free
      by_cases third : c :: rest = ['$'] ∧ opening = "$$".toList
      · -- The last dollar of the text alone is single, but here it is the first of two.
        obtain ⟨same, rfl⟩ := third
        rw [same] at none ⊢
        exact any_openSpansFrom_thirdDollar blank none
      · have within : ∀ marker ∈ markers, marker <+: c :: (rest ++ (opening ++ blanks)) →
            marker <+: c :: rest := by
          intro marker member reaches
          by_contra long
          obtain ⟨-, front, dollars⟩ :=
            doubleDollar_of_reaches member listed (List.cons_ne_nil c rest) reaches long
          exact third ⟨front, dollars⟩
        obtain ⟨sameSpans, samePasses⟩ := spans.after_append within
        rw [openSpansFrom_visit] at none
        rw [List.cons_append, openSpansFrom_visit, sameSpans, samePasses]
        exact inductionHypothesis (.visit c rest) free none

/-- An array outside formulas has no delimiters around it. -/
theorem readWrapper_outside {before : Text} (outside : isInside before.reverse = false)
    (after : Text) : readWrapper before after = none := by
  cases read : readWrapper before after with
  | none => rfl
  | some found =>
    obtain ⟨opening, closing, front, blanks, wraps, -⟩ := readWrapper_eq_some read
    have inside : isInside before.reverse = true := by
      rw [wraps.before_eq]
      exact any_openSpansFrom_wrapped wraps.listed wraps.blank (.start front) wraps.free
        wraps.apart
    rw [outside] at inside
    cases inside

/-- An array outside formulas stands where it is. -/
theorem arrayPlace?_outside {before : Text} (outside : isInside before.reverse = false)
    (pending after : Text) : arrayPlace? before pending after = some (0, after) := by
  rw [arrayPlace?, readWrapper_outside outside, outside]
  rfl

/-! ## Inside a formula -/

/-- A text that stands before others in a document: it leaves nothing open, and nothing of it
reaches into what follows. -/
structure Precedes (before after : Text) : Prop where
  free : escapesAfter false before = false
  closed : openSpansFrom .none false before = .none
  within : Within false before after

/-- Whether a position is inside a formula does not depend on what stands before the piece. -/
theorem Precedes.isInside_append {before after front : Text} (precedes : Precedes before after)
    (ahead : front <+: after) : isInside (before ++ front) = isInside front := by
  have within : Within false before front := precedes.within.imp
    fun suffix _ _ inside marker listed start =>
      inside marker listed (start.trans ((List.prefix_append_right_inj suffix).mpr ahead))
  rw [isInside, openSpansFrom_append (.start before) within precedes.free, precedes.closed,
    isInside]

/-- A piece that closes what it opens stands before what follows it. -/
theorem Precedes.append {before text after : Text} (precedes : Precedes before (text ++ after))
    (free : escapesAfter false text = false) (closed : openSpansFrom .none false text = .none)
    (within : Within false text after) : Precedes (before ++ text) after where
  free := by rw [escapesAfter_append, precedes.free, free]
  closed := by
    have apart : Within false before text := precedes.within.imp
      fun suffix _ _ inside marker listed start => inside marker listed (by
        rw [← List.append_assoc]
        exact start.trans (List.prefix_append _ _))
    rw [openSpansFrom_append (.start before) apart precedes.free, precedes.closed, closed]
  within := by
    rw [Within, everywhere_append, precedes.free]
    refine ⟨precedes.within.imp fun suffix _ _ inside marker listed start => ?_, within⟩
    rw [List.append_assoc] at start
    exact (inside marker listed start).trans (List.prefix_append _ _)

/-- A text that a character foreign to it parts from what stands ahead ends what is behind. -/
theorem suffix_of_not_mem {closing ahead last : Text} {c : Char} (foreign : c ∉ closing)
    (closes : closing <:+ ahead ++ ([c] ++ last)) : closing <:+ last := by
  rcases List.suffix_or_suffix_of_suffix closes (List.suffix_append ahead _) with short | long
  · rcases List.suffix_cons_iff.mp short with rfl | done
    · exact absurd List.mem_cons_self foreign
    · exact done
  · exact absurd (long.subset List.mem_cons_self) foreign

/-- A formula with an array in it, and what stands before and behind it. -/
structure Encloses (kind : Kind) (before front array behind after : Text) : Prop where
  listed : kind ∈ kinds
  takes : kind.Takes (front ++ (array ++ behind))
  free : escapesAfter false front = false
  read : arrays.rest? (array ++ behind) = some behind
  precedes : Precedes before (front ++ (array ++ behind) ++ after)

namespace Encloses

variable {kind : Kind} {before front array behind after : Text}

/-- An array starts with its marker and ends with a brace. -/
theorem array_eq (encloses : Encloses kind before front array behind after) :
    ∃ inside, array = arrays.opening ++ inside ++ ['}'] := by
  obtain ⟨body, whole⟩ := Kind.exists_body encloses.read
  refine ⟨body ++ arrays.closing.dropLast, ?_⟩
  have closing : arrays.closing = arrays.closing.dropLast ++ ['}'] := by decide
  rw [← List.append_assoc, ← List.append_assoc, List.append_left_inj] at whole
  rw [whole, List.append_assoc, List.append_assoc, List.append_assoc, ← closing]

/-- The array starts behind the opening of the formula and before its closing. -/
theorem between (encloses : Encloses kind before front array behind after) :
    kind.opening <+: front ∧
      front.length + kind.closing.length ≤ (front ++ (array ++ behind)).length := by
  have facts : ∀ kind ∈ kinds, ('\\' ∉ kind.opening.tail ∧ '\\' ∉ kind.closing.tail) ∧
      ¬ arrays.opening <+: kind.opening ∧ ¬ kind.opening <+: arrays.opening := by decide
  obtain ⟨⟨openingPlain, closingPlain⟩, apart⟩ := facts kind encloses.listed
  obtain ⟨inside, spelled⟩ := encloses.array_eq
  obtain ⟨body, whole⟩ := Kind.exists_body encloses.takes.read
  rw [List.append_nil] at whole
  have marked : arrays.opening <+: array ++ behind := by
    rw [spelled, List.append_assoc, List.append_assoc]
    exact List.prefix_append _ _
  obtain ⟨word, starts⟩ : ∃ word, array ++ behind = '\\' :: word := by
    obtain ⟨rest, same⟩ := marked
    exact ⟨_, same.symm⟩
  have started : kind.opening <+: front ++ (array ++ behind) := ⟨_, whole.symm⟩
  constructor
  · rcases prefix_append_cases started with done | ⟨tail, same, ahead⟩
    · exact done
    · -- Otherwise the opening would hold the backslash of the array.
      cases tail with
      | nil => rw [same, List.append_nil]
      | cons d others =>
        rw [starts] at ahead
        obtain ⟨rfl, -⟩ := List.cons_prefix_cons.mp ahead
        cases front with
        | nil =>
          rw [List.nil_append] at whole
          have opens : kind.opening <+: array ++ behind := ⟨_, whole.symm⟩
          rcases List.prefix_or_prefix_of_prefix marked opens with first | second
          · exact absurd first apart.1
          · exact absurd second apart.2
        | cons c more =>
          rw [same] at openingPlain
          exact absurd (List.mem_append_right more List.mem_cons_self) openingPlain
  · by_contra late
    rw [List.length_append] at late
    have closes : kind.closing <:+ front ++ (array ++ behind) :=
      ⟨kind.opening ++ body, by rw [whole, List.append_assoc]⟩
    obtain ⟨first, same⟩ := List.suffix_of_suffix_length_le (List.suffix_append front _) closes
      (by omega)
    -- Otherwise the closing would hold that backslash.
    cases first with
    | nil =>
      rw [← same, List.nil_append] at late
      omega
    | cons c more =>
      rw [← same, starts] at closingPlain
      exact absurd (List.mem_append_right more List.mem_cons_self) closingPlain

/-- Within the formula and behind its opening a formula is open. -/
theorem isInside_front (encloses : Encloses kind before front array behind after) {part : Text}
    (within : part <+: front) (opened : kind.opening <+: part) : isInside part = true := by
  have short := encloses.between.2
  have length := within.length_le
  refine Kind.Takes.staysOpen encloses.listed encloses.takes part ?_ opened (by omega)
  exact (List.mem_inits _ _).mpr (within.trans (List.prefix_append _ _))

/-- The array is inside a formula for the scan of all that stands before it. -/
theorem isInside_before (encloses : Encloses kind before front array behind after) {part : Text}
    (within : part <+: front) : isInside (before ++ part) = isInside part :=
  encloses.precedes.isInside_append
    ((within.trans (List.prefix_append _ _)).trans (List.prefix_append _ _))

/-- Every front of the text before the array in which the formula has begun to open is inside
it, if a dollar or a backslash comes next. -/
theorem isInside_part (encloses : Encloses kind before front array behind after)
    {part next : Text} {sign : Char} (split : front = part ++ sign :: next)
    (signs : sign = '$' ∨ sign = '\\') (nonempty : part ≠ []) : isInside part = true := by
  have facts : ∀ kind ∈ kinds, '\\' ∉ kind.opening.tail ∧
      ('$' ∈ kind.opening.tail → kind.opening = ['$', '$']) := by decide
  obtain ⟨noBackslash, dollars⟩ := facts kind encloses.listed
  have opened := encloses.between.1
  have within : part <+: front := ⟨_, split.symm⟩
  rcases List.prefix_or_prefix_of_prefix opened within with done | ⟨tail, same⟩
  · exact encloses.isInside_front within done
  cases tail with
  | nil =>
    rw [List.append_nil] at same
    exact encloses.isInside_front within ⟨[], by rw [List.append_nil, same]⟩
  | cons d more =>
    rw [split, ← same, List.prefix_append_right_inj] at opened
    obtain ⟨rfl, -⟩ := List.cons_prefix_cons.mp opened
    obtain ⟨c, others, rfl⟩ := List.exists_cons_of_ne_nil nonempty
    have inTail : d ∈ kind.opening.tail := by
      rw [← same]
      exact List.mem_append_right others List.mem_cons_self
    rcases signs with rfl | rfl
    · have double : c :: others ++ '$' :: more = ['$', '$'] := same.trans (dollars inTail)
      cases others with
      | nil =>
        obtain ⟨rfl, -⟩ := List.cons_eq_cons.mp double
        decide
      | cons e rest =>
        have length := congrArg List.length double
        simp at length
    · exact absurd inTail noBackslash

/-- Delimiters around the array do not open inside the formula. -/
theorem eq_nil_of_behind (encloses : Encloses kind before front array behind after)
    {opening closing part blanks rest : Text}
    (wraps : Wraps opening closing (before ++ front) (behind ++ after) (before ++ part) blanks rest)
    (split : front = part ++ (opening ++ blanks)) : part = [] := by
  have listed := wraps.listed
  simp only [wrappers, List.mem_cons, Prod.mk.injEq, List.not_mem_nil, or_false] at listed
  by_contra nonempty
  have inside : isInside part = true := by
    rcases listed with ⟨rfl, -⟩ | ⟨rfl, -⟩
    · exact encloses.isInside_part split (.inl rfl) nonempty
    · exact encloses.isInside_part split (.inr rfl) nonempty
  have apart := wraps.apart
  rw [encloses.isInside_before ⟨_, split.symm⟩, inside] at apart
  cases apart

/-- Delimiters around the array do not open before the formula. -/
theorem eq_nil_of_ahead {outside part : Text}
    (encloses : Encloses kind (outside ++ part) front array behind after)
    {opening closing text blanks rest : Text}
    (wraps : Wraps opening closing text (behind ++ after) outside blanks rest)
    (split : opening ++ blanks = part ++ front) : part = [] := by
  have listed := wraps.listed
  simp only [wrappers, List.mem_cons, Prod.mk.injEq, List.not_mem_nil, or_false] at listed
  have heads : ∀ kind ∈ kinds,
      kind.opening.head? = some '$' ∨ kind.opening.head? = some '\\' := by decide
  obtain ⟨sign, head, signs⟩ :
      ∃ sign, kind.opening.head? = some sign ∧ (sign = '$' ∨ sign = '\\') := by
    rcases heads kind encloses.listed with dollar | backslash
    · exact ⟨'$', dollar, .inl rfl⟩
    · exact ⟨'\\', backslash, .inr rfl⟩
  obtain ⟨first, rfl⟩ : ∃ first, front = sign :: first := by
    obtain ⟨others, opens⟩ := List.head?_eq_some_iff.mp head
    obtain ⟨rest, same⟩ := encloses.between.1
    exact ⟨others ++ rest, by rw [← same, opens, List.cons_append]⟩
  rcases part with _ | ⟨c, _ | ⟨d, more⟩⟩
  · rfl
  · rcases listed with ⟨rfl, -⟩ | ⟨rfl, -⟩
    · -- A dollar before the formula would make two with the dollar that opens it.
      obtain ⟨rfl, others⟩ := List.cons_eq_cons.mp split
      obtain ⟨rfl, -⟩ := List.cons_eq_cons.mp others
      have pair := encloses.precedes.within.behind wraps.free (List.cons_ne_nil _ _)
        "$$".toList (by decide) ⟨_, rfl⟩
      exact absurd pair (by decide)
    · obtain ⟨-, others⟩ := List.cons_eq_cons.mp split
      obtain ⟨rfl, -⟩ := List.cons_eq_cons.mp others
      rcases signs with wrong | wrong <;> exact absurd wrong (by decide)
  · -- The formula would start among the blanks behind the opening.
    have unblank : blanks ≠ more ++ sign :: first := by
      rintro rfl
      have blank := wraps.blank sign (List.mem_append_right more List.mem_cons_self)
      rcases signs with rfl | rfl <;> exact absurd blank (by decide)
    rcases listed with ⟨rfl, -⟩ | ⟨rfl, -⟩
    all_goals
      obtain ⟨-, others⟩ := List.cons_eq_cons.mp split
      obtain ⟨-, same⟩ := List.cons_eq_cons.mp others
      exact absurd same unblank

/-- Delimiters around the array are those of the formula: nothing else stands before them. -/
theorem outside_eq (encloses : Encloses kind before front array behind after)
    {opening closing outside blanks rest : Text}
    (wraps : Wraps opening closing (before ++ front) (behind ++ after) outside blanks rest) :
    outside = before := by
  rcases List.append_eq_append_iff.mp wraps.before_eq with ⟨part, rfl, split⟩ | ⟨part, rfl, split⟩
  · rw [encloses.eq_nil_of_behind wraps split, List.append_nil]
  · rw [encloses.eq_nil_of_ahead wraps split, List.append_nil]

/-- A formula with the delimiters of a display around its array is of their kind. -/
theorem kind_eq (encloses : Encloses kind before front array behind after)
    {opening closing : Text} (listed : (opening, closing) ∈ wrappers) (opened : opening <+: front) :
    kind = .delimited opening closing := by
  have facts : ∀ kind ∈ kinds, ∀ wrapper ∈ wrappers,
      wrapper.1 <+: kind.opening ∨ kind.opening <+: wrapper.1 →
        kind = .delimited wrapper.1 wrapper.2 ∨ kind = .dollars ∧ wrapper.1 = ['$', '$'] := by
    decide
  have comparable := List.prefix_or_prefix_of_prefix opened encloses.between.1
  rcases facts kind encloses.listed (opening, closing) listed comparable with same | ⟨rfl, double⟩
  · exact same
  · -- Inline math is not empty, so it does not start with two dollars.
    obtain ⟨rest, rfl⟩ := opened
    have read := encloses.takes.read
    simp only at double
    rw [double] at read
    cases read

/-- Between blanks an array ends with its brace or with a blank. -/
theorem exists_edge (encloses : Encloses kind before front array behind after) (blanks : Text)
    {gap : Text} (blank : ∀ c ∈ gap, Text.isBlank c = true) :
    ∃ ahead c, blanks ++ (array ++ gap) = ahead ++ [c] ∧ (c = '}' ∨ Text.isBlank c = true) := by
  obtain ⟨inside, spelled⟩ := encloses.array_eq
  rcases List.eq_nil_or_concat gap with rfl | ⟨most, c, rfl⟩
  · exact ⟨blanks ++ (arrays.opening ++ inside), '}', by rw [spelled]; simp, .inl rfl⟩
  · exact ⟨blanks ++ (array ++ most), c, by simp, .inr (blank c (by simp))⟩

/-- Behind an array that fills a formula on display the formula ends. -/
theorem rest_eq (encloses : Encloses kind before front array behind after)
    {opening closing blanks rest : Text}
    (wraps : Wraps opening closing (before ++ front) (behind ++ after) before blanks rest) :
    rest = after := by
  have facts : ∀ wrapper ∈ wrappers, escapesAfter false wrapper.1 = false ∧ wrapper.2 ≠ [] ∧
      ∀ c ∈ wrapper.2, c ≠ '}' ∧ Text.isBlank c = false := by decide
  obtain ⟨opensFree, filled, visible⟩ := facts _ wraps.listed
  have fills : front = opening ++ blanks := (List.append_right_inj before).mp wraps.before_eq
  have kindEq := encloses.kind_eq wraps.listed ⟨blanks, fills.symm⟩
  have read := encloses.takes.read
  -- Between the delimiters stand blanks, the array, blanks, and what is left of the formula.
  obtain ⟨gap, split, blank⟩ :
      ∃ gap, behind = gap ++ Text.trimStart behind ∧ ∀ c ∈ gap, Text.isBlank c = true :=
    ⟨behind.takeWhile Text.isBlank, List.takeWhile_append_dropWhile.symm,
      fun _ member => List.mem_takeWhile_imp member⟩
  generalize last_eq : Text.trimStart behind = last at split
  obtain ⟨ahead, c, ends, edge⟩ := encloses.exists_edge blanks blank
  have whole : front ++ (array ++ behind) = opening ++ (ahead ++ [c] ++ last) := by
    rw [fills, split, ← ends]
    simp
  have free : escapesAfter false (ahead ++ [c]) = false := by
    refine escapesAfter_concat ?_ false ahead
    rintro rfl
    rcases edge with wrong | wrong <;> exact absurd wrong (by decide)
  have foreign : c ∉ closing := by
    intro member
    rcases edge with brace | wrong
    · exact (visible c member).1 brace
    · rw [(visible c member).2] at wrong
      cases wrong
  rw [kindEq, whole] at read
  have closes : closing <:+ last := by
    obtain ⟨body, same⟩ := Kind.exists_body read
    rw [List.append_nil, List.append_assoc] at same
    exact suffix_of_not_mem foreign ⟨body, ((List.append_right_inj opening).mp same).symm⟩
  have closed := wraps.after_eq
  have remains : last ≠ [] := fun empty => filled (List.suffix_nil.mp (empty ▸ closes))
  rw [Text.trimStart] at last_eq closed
  rw [dropWhile_append_of_ne_nil (last_eq ▸ remains), last_eq] at closed
  obtain ⟨further, lastEq⟩ : closing <+: last :=
    List.prefix_of_prefix_length_le ⟨rest, closed.symm⟩ (List.prefix_append last after)
      closes.length_le
  rw [← lastEq] at read closed
  obtain rfl := Kind.nothing_behind opensFree free read
  rw [List.append_nil, List.append_right_inj] at closed
  exact closed.symm

/-- An array in a formula has no place of its own, or it takes the place of the formula. -/
theorem arrayPlace?_eq (encloses : Encloses kind before front array behind after)
    (pending : Text) :
    arrayPlace? (front.reverse ++ before.reverse) (front.reverse ++ pending) (behind ++ after) =
        none ∨
      arrayPlace? (front.reverse ++ before.reverse) (front.reverse ++ pending) (behind ++ after) =
        some (front.length, after) := by
  have before_eq : (front.reverse ++ before.reverse).reverse = before ++ front := by simp
  rw [arrayPlace?]
  cases read : readWrapper (front.reverse ++ before.reverse) (behind ++ after) with
  | none =>
    have inside : isInside (before ++ front) = true := by
      rw [encloses.isInside_before (List.prefix_refl front)]
      exact encloses.isInside_front (List.prefix_refl front) encloses.between.1
    rw [before_eq, inside]
    exact .inl rfl
  | some found =>
    obtain ⟨width, rest⟩ := found
    obtain ⟨opening, closing, outside, blanks, wraps, rfl⟩ := readWrapper_eq_some read
    rw [before_eq] at wraps
    obtain rfl := encloses.outside_eq wraps
    obtain rfl := encloses.rest_eq wraps
    have fills : front = opening ++ blanks := (List.append_right_inj _).mp wraps.before_eq
    have covered : front.length ≤ (front.reverse ++ pending).length := by
      rw [List.length_append, List.length_reverse]
      omega
    rw [← fills]
    exact .inr (if_pos covered)

end Encloses

end LatexMarkdown.Table
