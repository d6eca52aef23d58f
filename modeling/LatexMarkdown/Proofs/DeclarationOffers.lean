import LatexMarkdown.Inline.Format
import LatexMarkdown.Proofs.Braces
import LatexMarkdown.Proofs.Editor
import LatexMarkdown.Proofs.Matches
import Mathlib.Algebra.BigOperators.GroupWithZero.Action
import Mathlib.Algebra.Order.Group.Multiset

/-!
# How often a declaration is offered

The rest of a grouped declaration is edited before the answer on the group is asked for, and
a group that is declined is searched again from its inside. Each declined declaration thus
doubles the offers of all that stand in it: a declaration is offered once for every set of
the declined ones around it.
-/

namespace LatexMarkdown.Scan

/-! ## Places of declarations -/

/-- Where a declaration stands: from its opening brace up to what is behind its closing one. -/
structure DeclarationPlace where
  start : Nat
  stop : Nat
  name : Text
  deriving DecidableEq, Repr

namespace DeclarationPlace

/-- Whether a declaration has another one in it. -/
def encloses (outer inner : DeclarationPlace) : Bool :=
  outer.start < inner.start && inner.start < outer.stop

theorem encloses_iff {outer inner : DeclarationPlace} :
    outer.encloses inner = true ↔ outer.start < inner.start ∧ inner.start < outer.stop := by
  rw [encloses, Bool.and_eq_true, decide_eq_true_eq, decide_eq_true_eq]

/-- Places between two positions. -/
def Within (low high : Nat) (places : List DeclarationPlace) : Prop :=
  ∀ place ∈ places, low ≤ place.start ∧ place.start < high ∧ place.stop ≤ high

end DeclarationPlace

/-- The declaration at a position, if one can be read there. -/
def placeAt? (offset : Nat) (escaped : Bool) (text : Text) : Option DeclarationPlace :=
  if escaped then none
  else (readDeclaration text).map fun (declaration, after) =>
    ⟨offset, offset + (text.length - after.length), declaration.name⟩

/-- The declarations in a text, from a position on. -/
def placesFrom : (offset : Nat) → (escaped : Bool) → Text → List DeclarationPlace
  | _, _, [] => []
  | offset, escaped, c :: rest =>
    (placeAt? offset escaped (c :: rest)).toList ++
      placesFrom (offset + 1) (escapesNext escaped c) rest

/-- The declarations in a text. -/
def places (text : Text) : List DeclarationPlace :=
  placesFrom 0 false text

/-! ## Offers of places -/

/-- How often a declaration is offered: every declined one around it doubles the offers. -/
def timesOffered (declines : Text → Bool) (outer : List DeclarationPlace)
    (place : DeclarationPlace) : Nat :=
  2 ^ outer.countP fun other => declines other.name && other.encloses place

/-- The names that are offered for places, each as often as the places around it say. -/
def offersAmong (declines : Text → Bool) (outer places : List DeclarationPlace) :
    Multiset Text :=
  (places.map fun place => timesOffered declines outer place • {place.name}).sum

/-- The names that are offered for a text from a position on, if just these names are
declined. -/
def offersFrom (declines : Text → Bool) (offset : Nat) (escaped : Bool) (text : Text) :
    Multiset Text :=
  offersAmong declines (placesFrom offset escaped text) (placesFrom offset escaped text)

section Offers

open DeclarationPlace

variable {declines : Text → Bool} {first second inside : List DeclarationPlace}
  {place : DeclarationPlace}

theorem timesOffered_append :
    timesOffered declines (first ++ second) place =
      timesOffered declines first place * timesOffered declines second place := by
  rw [timesOffered, List.countP_append, pow_add]
  rfl

/-- Outside all other declarations a declaration is offered once. -/
theorem timesOffered_eq_one
    (outside : ∀ other ∈ first, other.encloses place = true → declines other.name = false) :
    timesOffered declines first place = 1 := by
  have none : first.countP (fun other => declines other.name && other.encloses place) = 0 := by
    refine List.countP_eq_zero.mpr fun other member both => ?_
    rw [Bool.and_eq_true] at both
    rw [outside other member both.2] at both
    cases both.1
  rw [timesOffered, none, pow_zero]

theorem offersAmong_append (outer : List DeclarationPlace) :
    offersAmong declines outer (first ++ second) =
      offersAmong declines outer first + offersAmong declines outer second := by
  rw [offersAmong, List.map_append, List.sum_append]
  rfl

theorem offersAmong_congr {outer other : List DeclarationPlace}
    (same : ∀ place ∈ inside,
      timesOffered declines outer place = timesOffered declines other place) :
    offersAmong declines outer inside = offersAmong declines other inside := by
  rw [offersAmong, List.map_congr_left fun place member => by rw [same place member]]
  rfl

/-- Declarations that stand one after another do not enclose each other. -/
theorem DeclarationPlace.Within.apart {low middle high : Nat} (before : Within low middle first)
    (behind : Within middle high second) :
    ∀ one ∈ first, ∀ other ∈ second,
      one.encloses other = false ∧ other.encloses one = false := by
  intro one member other later
  obtain ⟨-, start, stop⟩ := before one member
  obtain ⟨start', -, -⟩ := behind other later
  simp only [Bool.eq_false_iff, Ne, encloses_iff]
  omega

/-- Declarations that stand one after another are offered independently. -/
theorem offersAmong_of_within {low middle high : Nat} (before : Within low middle first)
    (behind : Within middle high second) :
    offersAmong declines (first ++ second) (first ++ second) =
      offersAmong declines first first + offersAmong declines second second := by
  have apart := before.apart behind
  rw [offersAmong_append]
  refine congrArg₂ (· + ·) (offersAmong_congr fun place member => ?_)
    (offersAmong_congr fun place member => ?_)
  · have outside : timesOffered declines second place = 1 :=
      timesOffered_eq_one fun other later encloses => by
        rw [(apart place member other later).2] at encloses
        cases encloses
    rw [timesOffered_append, outside, mul_one]
  · have outside : timesOffered declines first place = 1 :=
      timesOffered_eq_one fun other earlier encloses => by
        rw [(apart other earlier place member).1] at encloses
        cases encloses
    rw [timesOffered_append, outside, one_mul]

/-- A declaration is offered once, and doubles the offers in it if it is declined. -/
theorem offersAmong_cons {outer : DeclarationPlace}
    (within : Within (outer.start + 1) outer.stop inside) :
    offersAmong declines (outer :: inside) (outer :: inside) =
      {outer.name} +
        (if declines outer.name then 2 else 1) • offersAmong declines inside inside := by
  have once : timesOffered declines (outer :: inside) outer = 1 := by
    refine timesOffered_eq_one fun other member encloses => ?_
    rw [encloses_iff] at encloses
    rcases List.mem_cons.mp member with rfl | inner
    · omega
    · have := within other inner
      omega
  have doubled : ∀ place ∈ inside, timesOffered declines (outer :: inside) place =
      (if declines outer.name then 2 else 1) * timesOffered declines inside place := by
    intro place member
    obtain ⟨low, high, -⟩ := within place member
    have around : outer.encloses place = true := encloses_iff.mpr ⟨low, high⟩
    rw [← List.singleton_append, timesOffered_append]
    congr 1
    rw [timesOffered, List.countP_singleton, around, Bool.and_true]
    split <;> rfl
  rw [offersAmong, List.map_cons, List.sum_cons, once, one_smul, offersAmong, List.smul_sum,
    List.map_map, List.map_congr_left fun place member => by rw [doubled place member, mul_smul]]
  rfl

/-- If no declined declaration encloses another one, each is offered once. -/
theorem offersAmong_of_unnested
    (unnested : ∀ outer ∈ inside, ∀ inner ∈ inside, outer.encloses inner = true →
      declines outer.name = false) :
    offersAmong declines inside inside = ↑(inside.map DeclarationPlace.name) := by
  rw [offersAmong, List.map_congr_left fun place member => by
    rw [timesOffered_eq_one fun other outer => unnested other outer place member, one_smul]]
  clear unnested
  induction inside with
  | nil => rfl
  | cons place others inductionHypothesis =>
    rw [List.map_cons, List.sum_cons, inductionHypothesis, List.map_cons, ← Multiset.cons_coe,
      Multiset.singleton_add]

/-- There are fewer offers than sets of declarations. -/
theorem card_offersAmong_lt
    (increasing : inside.Pairwise fun one other => one.start < other.start) :
    (offersAmong declines inside inside).card < 2 ^ inside.length := by
  induction inside using List.reverseRecOn with
  | nil => exact Nat.one_pos
  | append_singleton before last inductionHypothesis =>
    obtain ⟨ordered, -, below⟩ := List.pairwise_append.mp increasing
    have smaller := inductionHypothesis ordered
    have unchanged : offersAmong declines (before ++ [last]) before =
        offersAmong declines before before := by
      refine offersAmong_congr fun place member => ?_
      have outside : timesOffered declines [last] place = 1 :=
        timesOffered_eq_one fun other single encloses => by
          have earlier := below place member other single
          rw [encloses_iff] at encloses
          rw [List.mem_singleton.mp single] at earlier encloses
          omega
      rw [timesOffered_append, outside, mul_one]
    have final : timesOffered declines (before ++ [last]) last ≤ 2 ^ before.length := by
      have alone : timesOffered declines [last] last = 1 :=
        timesOffered_eq_one fun other single encloses => by
          rw [encloses_iff, List.mem_singleton.mp single] at encloses
          omega
      rw [timesOffered_append, alone, mul_one]
      exact Nat.pow_le_pow_right Nat.two_pos List.countP_le_length
    have single : (offersAmong declines (before ++ [last]) [last]).card =
        timesOffered declines (before ++ [last]) last := by
      simp [offersAmong]
    rw [offersAmong_append, Multiset.card_add, unchanged, single, List.length_append,
      List.length_singleton, pow_succ]
    omega

end Offers

/-! ## Places in pieces of a text -/

section Places

open DeclarationPlace

variable {depth offset : Nat} {escaped : Bool} {c : Char} {text front rest : Text}
  {place : DeclarationPlace}

theorem placeAt?_eq_some (read : placeAt? offset escaped text = some place) :
    place.start = offset ∧ place.stop ≤ offset + text.length := by
  rw [placeAt?] at read
  split at read
  · cases read
  · obtain ⟨⟨declaration, after⟩, -, rfl⟩ := Option.map_eq_some_iff.mp read
    exact ⟨rfl, Nat.add_le_add_left (Nat.sub_le _ _) offset⟩

/-- A declaration starts with a brace. -/
theorem placeAt?_of_ne (different : c ≠ '{') : placeAt? offset escaped (c :: rest) = none := by
  rw [placeAt?, readDeclaration, if_neg different, Option.map_none, ite_self]

theorem placesFrom_keep (none : placeAt? offset escaped (c :: rest) = none) :
    placesFrom offset escaped (c :: rest) =
      placesFrom (offset + 1) (escapesNext escaped c) rest := by
  rw [placesFrom, none, Option.toList_none, List.nil_append]

theorem within_placesFrom :
    Within offset (offset + text.length) (placesFrom offset escaped text) := by
  induction text generalizing offset escaped with
  | nil => exact fun place member => absurd member List.not_mem_nil
  | cons c rest inductionHypothesis =>
    intro place member
    rw [List.length_cons]
    rcases List.mem_append.mp member with here | later
    · obtain ⟨start, stop⟩ := placeAt?_eq_some (Option.mem_toList.mp here)
      rw [List.length_cons] at stop
      omega
    · have := inductionHypothesis place later
      omega

theorem pairwise_placesFrom :
    (placesFrom offset escaped text).Pairwise fun one other => one.start < other.start := by
  induction text generalizing offset escaped with
  | nil => exact .nil
  | cons c rest inductionHypothesis =>
    refine List.pairwise_append.mpr ⟨?_, inductionHypothesis, fun one here other later => ?_⟩
    · cases placeAt? offset escaped (c :: rest) with
      | none => exact .nil
      | some place => exact List.pairwise_singleton _ place
    · obtain ⟨start, -⟩ := placeAt?_eq_some (Option.mem_toList.mp here)
      obtain ⟨low, -⟩ := within_placesFrom other later
      omega

/-- There are no more declarations than opening braces. -/
theorem length_placesFrom_le : (placesFrom offset escaped text).length ≤ text.count '{' := by
  induction text generalizing offset escaped with
  | nil => exact Nat.le_refl 0
  | cons c rest inductionHypothesis =>
    by_cases opening : c = '{'
    · subst opening
      rw [placesFrom, List.length_append, List.count_cons_self, Nat.add_comm]
      refine Nat.add_le_add inductionHypothesis ?_
      cases placeAt? offset escaped ('{' :: rest) with
      | none => exact Nat.zero_le 1
      | some place => exact Nat.le_refl 1
    · rw [placesFrom_keep (placeAt?_of_ne opening), List.count_cons_of_ne opening]
      exact inductionHypothesis

theorem placesFrom_of_not_mem (unopened : '{' ∉ front) (back : Text) :
    placesFrom offset escaped (front ++ back) =
      placesFrom (offset + front.length) (escapesAfter escaped front) back := by
  induction front generalizing offset escaped with
  | nil => rfl
  | cons c others inductionHypothesis =>
    rw [List.mem_cons, not_or] at unopened
    rw [List.cons_append, placesFrom_keep (placeAt?_of_ne (Ne.symm unopened.1)),
      inductionHypothesis unopened.2, List.length_cons, Nat.add_assoc, Nat.add_comm 1]
    rfl

/-- Where a text closes all that it opens, a declaration in it is read alike with anything
behind. -/
theorem readDeclaration_append (closes : braceDepth depth false (c :: text) = some 0)
    (back : Text) :
    readDeclaration (c :: (text ++ back)) =
      (readDeclaration (c :: text)).map fun (declaration, after) =>
        (declaration, after ++ back) := by
  have braced := readBraced_append_of_closes closes back
  cases read : readDeclaration (c :: text) with
  | some pair =>
    obtain ⟨named, gap, gapped, group⟩ := readDeclaration_iff.mp read
    exact readDeclaration_iff.mpr ⟨named, gap, gapped, by rw [braced, group]; rfl⟩
  | none =>
    rw [Option.map_none, Option.eq_none_iff_forall_not_mem]
    rintro ⟨declaration, after⟩ further
    obtain ⟨named, gap, gapped, group⟩ := readDeclaration_iff.mp further
    rw [braced] at group
    obtain ⟨⟨inner, rest⟩, here, same⟩ := Option.map_eq_some_iff.mp group
    obtain ⟨rfl, -⟩ := Prod.mk.inj same
    rw [readDeclaration_iff.mpr ⟨named, gap, gapped, here⟩] at read
    cases read

/-- Where a text closes all that it opens, the declarations in it are the same with anything
behind. -/
theorem placesFrom_append (closes : braceDepth depth escaped front = some 0) (back : Text) :
    placesFrom offset escaped (front ++ back) =
      placesFrom offset escaped front ++
        placesFrom (offset + front.length) (escapesAfter escaped front) back := by
  induction front generalizing depth offset escaped with
  | nil => rfl
  | cons c others inductionHypothesis =>
    obtain ⟨next, -, behind⟩ := Option.bind_eq_some_iff.mp closes
    have here : placeAt? offset escaped (c :: (others ++ back)) =
        placeAt? offset escaped (c :: others) := by
      cases escaped with
      | true => rfl
      | false =>
        have length (after : Text) : (c :: (others ++ back)).length - (after ++ back).length =
            (c :: others).length - after.length := by
          rw [← List.cons_append, List.length_append, List.length_append,
            Nat.add_sub_add_right]
        simp only [placeAt?, readDeclaration_append closes, Option.map_map, Function.comp_def,
          length]
    rw [List.cons_append, placesFrom, here, inductionHypothesis behind, placesFrom,
      List.append_assoc, List.length_cons, Nat.add_assoc, Nat.add_comm 1]
    rfl

end Places

/-! ## Offers of a text -/

section Declared

variable {cursor : Cursor} {c : Char} {matched after : Text} {declaration : Declaration}

/-- Where no declaration stands, the search goes on behind the character. -/
theorem placeAt?_of_unmatched {rest : Text} (offset : Nat)
    (unmatched : ∀ matched behind found, c :: rest = matched ++ behind →
      ¬ IsDeclaration cursor matched behind found) :
    placeAt? offset cursor.escaped (c :: rest) = none := by
  rw [placeAt?, ite_eq_left_iff, Option.map_eq_none_iff, Option.eq_none_iff_forall_not_mem]
  rintro free ⟨declaration, after⟩ read
  obtain ⟨matched, split, isDeclaration⟩ :=
    exists_isDeclaration (Bool.eq_false_iff.mpr free) read
  exact unmatched matched after declaration split isDeclaration

/-- The rest of a declaration is shorter than the declaration. -/
theorem IsDeclaration.length_rest_lt
    (isDeclaration : IsDeclaration cursor matched after declaration) :
    declaration.rest.length < matched.length := by
  obtain ⟨gap, -, rfl, -⟩ := isDeclaration.spelled
  simp only [List.length_append, List.length_cons]
  omega

/-- Behind a declaration nothing is escaped. -/
theorem IsDeclaration.advanceOver_escaped
    (isDeclaration : IsDeclaration cursor matched after declaration) :
    (cursor.advanceOver matched).escaped = false := by
  obtain ⟨gap, -, split, -⟩ := isDeclaration.spelled
  rw [Cursor.advanceOver_escaped_eq, split]
  exact escapesAfter_concat (by decide) _ _

theorem Declaration.IsNamed.unopened {gap : Text} (named : declaration.IsNamed)
    (gapped : Text.IsGap gap) : '{' ∉ gap ++ '\\' :: declaration.name := by
  intro member
  rcases List.mem_append.mp member with blank | behind
  · exact absurd (gapped _ blank) (by decide)
  · rcases List.mem_cons.mp behind with backslash | letter
    · exact absurd backslash (by decide)
    · exact absurd (named.letters _ letter) (by decide)

/-- Behind the name of a declaration nothing is escaped. -/
theorem Declaration.IsNamed.escapesAfter_eq (named : declaration.IsNamed) (gap : Text) :
    escapesAfter false (gap ++ '\\' :: declaration.name) = false := by
  have plain : '\\' ∉ declaration.name := fun member =>
    absurd (named.letters _ member) (by decide)
  rw [escapesAfter_append, escapesAfter_cons]
  exact escapesAfter_of_filled named.nonempty plain _

/-- The declarations inside and behind a declaration are those of its rest and those behind
it. -/
theorem IsDeclaration.exists_places
    (isDeclaration : IsDeclaration cursor (c :: matched) after declaration) (offset : Nat) :
    ∃ inside behind, offset + 1 ≤ inside ∧ inside + declaration.rest.length ≤ behind ∧
      placeAt? offset cursor.escaped (c :: (matched ++ after)) =
        some ⟨offset, behind, declaration.name⟩ ∧
      placesFrom (offset + 1) (escapesNext cursor.escaped c) (matched ++ after) =
        placesFrom inside false declaration.rest ++ placesFrom behind false after := by
  obtain ⟨free, named, gap, gapped, split, group⟩ := isDeclaration
  have whole := readDeclaration_iff.mpr ⟨named, gap, gapped, group⟩
  obtain ⟨rfl, spelled⟩ := List.cons.inj split
  have pieces : matched ++ after =
      (gap ++ '\\' :: declaration.name) ++ (declaration.rest ++ '}' :: after) := by
    simp [spelled]
  -- The rest closes all that it opens, because the group is read up to its own brace.
  have closes : ∃ depth, braceDepth depth false declaration.rest = some 0 := by
    have inner : readBracedRest 0 false (matched ++ after) =
      some (gap ++ '\\' :: (declaration.name ++ declaration.rest), after) := group
    obtain ⟨-, balanced, -⟩ := readBracedRest_iff.mp inner
    rw [← List.cons_append, ← List.append_assoc, braceDepth_append,
      named.escapesAfter_eq gap] at balanced
    obtain ⟨depth, -, closes⟩ := Option.bind_eq_some_iff.mp balanced
    exact ⟨depth, closes⟩
  obtain ⟨depth, closes⟩ := closes
  refine ⟨offset + 1 + (gap ++ '\\' :: declaration.name).length,
    offset + 1 + (gap ++ '\\' :: declaration.name).length + declaration.rest.length + 1,
    by omega, by omega, ?_, ?_⟩
  · have stop : offset + (('{' :: (matched ++ after)).length - after.length) =
        offset + 1 + (gap ++ '\\' :: declaration.name).length + declaration.rest.length + 1 := by
      rw [pieces]
      simp only [List.length_cons, List.length_append]
      omega
    rw [free, placeAt?, if_neg Bool.false_ne_true, ← List.cons_append, whole, Option.map_some,
      List.cons_append]
    simp only [stop]
  · rw [free, escapesNext_of_ne (by decide), pieces, placesFrom_of_not_mem (named.unopened gapped),
      named.escapesAfter_eq, placesFrom_append closes, placesFrom_keep (placeAt?_of_ne (by decide)),
      escapesNext_of_ne (by decide)]

theorem offersFrom_keep {declines : Text → Bool} {offset : Nat} {escaped : Bool} {rest : Text}
    (none : placeAt? offset escaped (c :: rest) = none) :
    offersFrom declines offset escaped (c :: rest) =
      offersFrom declines (offset + 1) (escapesNext escaped c) rest := by
  rw [offersFrom, placesFrom_keep none]
  rfl

/-- A declaration is offered once; the search of its inside offers those in it and behind it,
and it doubles the offers in it if it is declined. -/
theorem IsDeclaration.exists_offersFrom
    (isDeclaration : IsDeclaration cursor (c :: matched) after declaration) (offset : Nat) :
    ∃ inside behind, ∀ declines,
      offersFrom declines (offset + 1) (cursor.advance c).escaped (matched ++ after) =
        offersFrom declines inside false declaration.rest +
          offersFrom declines behind false after ∧
      offersFrom declines offset cursor.escaped (c :: (matched ++ after)) =
        {declaration.name} +
          (if declines declaration.name then 2 else 1) •
            offersFrom declines inside false declaration.rest +
          offersFrom declines behind false after := by
  obtain ⟨inside, behind, low, high, here, later⟩ := isDeclaration.exists_places offset
  refine ⟨inside, behind, fun declines => ?_⟩
  have restWithin : DeclarationPlace.Within (offset + 1) behind
      (placesFrom inside false declaration.rest) := by
    intro place member
    have := within_placesFrom place member
    omega
  have groupWithin : DeclarationPlace.Within offset behind
      (⟨offset, behind, declaration.name⟩ :: placesFrom inside false declaration.rest) := by
    have starts : offset < behind := by omega
    refine List.forall_mem_cons.mpr ⟨⟨Nat.le_refl _, starts, Nat.le_refl _⟩, fun place member => ?_⟩
    have := restWithin place member
    omega
  have afterWithin : DeclarationPlace.Within behind (behind + after.length)
      (placesFrom behind false after) := within_placesFrom
  have entered : placesFrom (offset + 1) (cursor.advance c).escaped (matched ++ after) =
      placesFrom inside false declaration.rest ++ placesFrom behind false after := later
  have whole : placesFrom offset cursor.escaped (c :: (matched ++ after)) =
      ⟨offset, behind, declaration.name⟩ :: placesFrom inside false declaration.rest ++
        placesFrom behind false after := by
    rw [placesFrom, here, later]
    rfl
  constructor
  · rw [offersFrom, entered, offersAmong_of_within restWithin afterWithin]
    rfl
  · rw [offersFrom, whole, offersAmong_of_within groupWithin afterWithin,
      offersAmong_cons restWithin]
    rfl

end Declared

/-! ## Offers of a run -/

/-- The names that are offered while a text is edited, in order. -/
def offered {σ : Type} (answer : Answer σ Declaration) (state : σ) (text : Text) : List Text :=
  Editor.declaration.notes answer (fun _ declaration => [declaration.name]) state text

/-- An answer declines all declarations of the sure names, and only such of the possible ones.
Every answer does so between no names and all names. -/
structure DeclinesBetween {σ : Type} (answer : Answer σ Declaration)
    (sure possible : Text → Bool) : Prop where
  declines : ∀ state found, sure found.name = true → (answer state found).2 = none
  declined : ∀ state found, (answer state found).2 = none → possible found.name = true

/-- Whether a name stands for neither a style nor a size. -/
def isUnstyled (name : Text) : Bool :=
  (KeyedList.find? Style.declarations name).isNone && (KeyedList.find? Style.sizes name).isNone

/-- Inline formatting declines what is neither a style nor a size nor a color. -/
theorem declinesBetween_renderDeclaration (colors : ColorTable) :
    DeclinesBetween (fun (state : Unit) found => (state, Inline.renderDeclaration colors found))
      (fun name => isUnstyled name && name ≠ "color".toList) isUnstyled where
  declines := by
    intro state found unknown
    simp only [isUnstyled, Bool.and_eq_true, Option.isNone_iff_eq_none,
      decide_eq_true_eq] at unknown
    simp only [Inline.renderDeclaration, unknown, if_false]
  declined := by
    intro state found declined
    simp only [Inline.renderDeclaration] at declined
    split at declined
    · cases declined
    next unstyled =>
    split at declined
    · cases declined
    next unsized =>
    rw [isUnstyled, unstyled, unsized]
    rfl

/-- What is noted further lies between two bounds. -/
def NotesBetween (before after : List Text) (least most : Multiset Text) : Prop :=
  (before : Multiset Text) + least ≤ after ∧ (after : Multiset Text) ≤ before + most

section Bounds

variable {before middle after : List Text} {least most other further : Multiset Text}

theorem NotesBetween.trans (first : NotesBetween before middle least most)
    (second : NotesBetween middle after other further) :
    NotesBetween before after (least + other) (most + further) := by
  obtain ⟨low, high⟩ := first
  obtain ⟨lower, higher⟩ := second
  rw [NotesBetween, ← add_assoc, ← add_assoc]
  exact ⟨(add_le_add_left low other).trans lower, higher.trans (add_le_add_left high further)⟩

theorem NotesBetween.mono (between : NotesBetween before after least most) (below : other ≤ least)
    (above : most ≤ further) : NotesBetween before after other further :=
  ⟨(add_le_add_right below _).trans between.1, between.2.trans (add_le_add_right above _)⟩

theorem le_doubled (declined : Bool) (offers : Multiset Text) :
    offers ≤ (if declined then 2 else 1) • offers := by
  cases declined <;> simp [two_nsmul]

theorem doubled_le (declined : Bool) (offers : Multiset Text) :
    (if declined then 2 else 1) • offers ≤ 2 • offers := by
  cases declined <;> simp [two_nsmul]

theorem notesBetween_singleton (name : Text) :
    NotesBetween before (before ++ [name]) {name} {name} :=
  ⟨le_of_eq (Multiset.coe_add before [name]), le_of_eq (Multiset.coe_add before [name]).symm⟩

end Bounds

section Run

variable {σ : Type} {answer : Answer σ Declaration} {sure possible : Text → Bool}
  {nested : σ × List Text → Text → (σ × List Text) × Text}

/-- An answer that notes the name of what it is offered. -/
def naming (answer : Answer σ Declaration) : Answer (σ × List Text) Declaration :=
  Editor.noting (fun _ declaration => [declaration.name]) answer

/-- An offer is noted behind those of the rest of its group. -/
theorem DeclinesBetween.answerEditedRest (between : DeclinesBetween answer sure possible)
    {state next : σ × List Text} {found : Declaration} {reply : Option Text}
    {least most : Multiset Text}
    (inside : NotesBetween state.2 (nested state found.rest).1.2 least most)
    (answered : answerEditedRest nested (naming answer) state found = (next, reply)) :
    NotesBetween state.2 next.2 ({found.name} + least) ({found.name} + most) ∧
      (sure found.name = true → reply = none) ∧
        (reply = none → possible found.name = true) := by
  have noted : next.2 = (nested state found.rest).1.2 ++ [found.name] :=
    congrArg (fun reached => reached.1.2) answered.symm
  have replied : reply = (answer (nested state found.rest).1.1
      ⟨found.name, (nested state found.rest).2⟩).2 := congrArg Prod.snd answered.symm
  rw [noted, replied, add_comm _ least, add_comm _ most]
  exact ⟨inside.trans (notesBetween_singleton found.name),
    between.declines _ ⟨found.name, (nested state found.rest).2⟩,
    between.declined _ ⟨found.name, (nested state found.rest).2⟩⟩

/-- While a text is rewritten, each declaration is offered as often as the declined ones around
it say, if the rests of groups are edited so. -/
theorem DeclinesBetween.of_rewrites (between : DeclinesBetween answer sure possible) {size : Nat}
    (inner : ∀ state offset rest, rest.length < size →
      NotesBetween state.2 (nested state rest).1.2 (offersFrom sure offset false rest)
        (offersFrom possible offset false rest))
    {state next : σ × List Text} {cursor : Cursor} {text written : Text}
    (rewrites : Rewrites declarations (Scan.answerEditedRest nested (naming answer)) state cursor
      text next written) (small : text.length ≤ size) (offset : Nat) :
    NotesBetween state.2 next.2 (offersFrom sure offset cursor.escaped text)
      (offersFrom possible offset cursor.escaped text) := by
  induction rewrites generalizing offset with
  | done => exact ⟨le_of_eq (add_zero _), le_of_eq (add_zero _).symm⟩
  | keep unstarted _ inductionHypothesis =>
    have later := inductionHypothesis (Nat.le_of_succ_le small) (offset + 1)
    rw [offersFrom_keep (placeAt?_of_unmatched offset unstarted.unmatched),
      offersFrom_keep (placeAt?_of_unmatched offset unstarted.unmatched)]
    exact later
  | pass isIncomplete _ _ => exact isIncomplete.elim
  | decline passesDeclined _ _ _ _ => cases passesDeclined
  | @replace state middle next cursor matched after replacement written found isMatch answered _
      inductionHypothesis =>
    have isDeclaration : IsDeclaration cursor matched after found := isMatch
    have shorter := isDeclaration.length_rest_lt
    rw [List.length_append] at small
    obtain ⟨c, others, rfl⟩ := List.exists_cons_of_ne_nil isDeclaration.ne_nil
    obtain ⟨inside, behind, offers⟩ := isDeclaration.exists_offersFrom offset
    obtain ⟨step, answers, -⟩ := between.answerEditedRest
      (inner state inside found.rest (by omega)) answered
    have later := inductionHypothesis (by omega) behind
    rw [isDeclaration.advanceOver_escaped] at later
    have kept : sure found.name = false := by
      cases declines : sure found.name with
      | false => rfl
      | true => cases answers declines
    rw [List.cons_append, (offers sure).2, (offers possible).2, kept, if_neg Bool.false_ne_true,
      one_nsmul]
    exact (step.trans later).mono le_rfl (add_le_add_left (add_le_add_right (le_doubled _ _) _) _)
  | @enter state middle next cursor c matched after written found _ isMatch declined _
      inductionHypothesis =>
    have isDeclaration : IsDeclaration cursor (c :: matched) after found := isMatch
    have shorter := isDeclaration.length_rest_lt
    have behindBrace : (matched ++ after).length ≤ size := Nat.le_of_succ_le small
    rw [← List.cons_append, List.length_append] at small
    obtain ⟨inside, behind, offers⟩ := isDeclaration.exists_offersFrom offset
    obtain ⟨step, -, answers⟩ := between.answerEditedRest
      (inner state inside found.rest (by omega)) declined
    have later := inductionHypothesis behindBrace (offset + 1)
    rw [(offers sure).1, (offers possible).1] at later
    have twice (rest after : Multiset Text) :
        {found.name} + rest + (rest + after) = {found.name} + 2 • rest + after := by
      rw [two_nsmul]
      simp only [add_assoc]
    have both := step.trans later
    rw [twice, twice] at both
    rw [(offers sure).2, (offers possible).2, if_pos (answers rfl)]
    exact both.mono (add_le_add_left (add_le_add_right (doubled_le _ _) _) _) le_rfl

/-- While a text is edited, each declaration is offered as often as the declined ones around it
say. -/
theorem DeclinesBetween.notesBetween (between : DeclinesBetween answer sure possible)
    (state : σ × List Text) (offset : Nat) (text : Text) :
    NotesBetween state.2 (editDeclaration (naming answer) state text).1.2
      (offersFrom sure offset false text) (offersFrom possible offset false text) := by
  induction size : text.length using Nat.strong_induction_on generalizing state offset text with
  | _ size inductionHypothesis =>
  subst size
  exact between.of_rewrites (fun state offset rest shorter =>
    inductionHypothesis rest.length shorter state offset rest rfl)
    (rewrites_editDeclaration state text) (Nat.le_refl _) offset

/-- The names that are offered for a text, if just these names are declined. -/
def offersFor (declines : Text → Bool) (text : Text) : Multiset Text :=
  offersAmong declines (places text) (places text)

/-- The offers lie between those that declining the sure and the possible names leads to. -/
theorem DeclinesBetween.offersFor_le (between : DeclinesBetween answer sure possible) (state : σ)
    (text : Text) :
    offersFor sure text ≤ ↑(offered answer state text) ∧
      ↑(offered answer state text) ≤ offersFor possible text := by
  obtain ⟨low, high⟩ := between.notesBetween (state, []) 0 text
  rw [Multiset.coe_nil, zero_add] at low high
  exact ⟨low, high⟩

/-- A declaration is offered at least once for every set of declarations around it that are
surely declined, and at most once for every set of those that may be declined. There are fewer
offers than sets of opening braces, and no more than opening braces if no declaration that may
be declined has another one in it. -/
theorem offered_between (between : DeclinesBetween answer sure possible) (state : σ)
    (text : Text) :
    offersFor sure text ≤ ↑(offered answer state text) ∧
      ↑(offered answer state text) ≤ offersFor possible text ∧
      (offered answer state text).length < 2 ^ text.count '{' ∧
      ((∀ outer ∈ places text, ∀ inner ∈ places text, outer.encloses inner = true →
        possible outer.name = false) → (offered answer state text).length ≤ text.count '{') := by
  obtain ⟨low, high⟩ := between.offersFor_le state text
  have fewer := Multiset.card_le_card high
  rw [Multiset.coe_card] at fewer
  refine ⟨low, high, fewer.trans_lt ?_, fun unnested => fewer.trans ?_⟩
  · exact (card_offersAmong_lt pairwise_placesFrom).trans_le
      (Nat.pow_le_pow_right Nat.two_pos length_placesFrom_le)
  · rw [offersFor, offersAmong_of_unnested unnested, Multiset.coe_card, List.length_map]
    exact length_placesFrom_le

/-- An unknown declaration in a style is offered once, like the style. -/
theorem offered_between_styled :
    let answer : Answer Unit Declaration :=
      fun state found => (state, Inline.renderDeclaration ColorTable.empty found)
    let text := "\x7b\\em \x7b\\skip a\x7d b\x7d\x7b\\skip c\x7d".toList
    DeclinesBetween answer (fun name => isUnstyled name && name ≠ "color".toList) isUnstyled ∧
      (offered answer () text).length < 2 ^ 3 ∧ (offered answer () text).length ≤ 3 := by
  intro answer text
  have between := declinesBetween_renderDeclaration ColorTable.empty
  obtain ⟨-, -, sets, braces⟩ := offered_between between () text
  exact ⟨between, sets, braces (by decide)⟩

end Run

/-! ## Declined declarations in each other -/

/-- Decline everything. -/
def declining : Answer Unit Declaration :=
  fun state _ => (state, none)

/-- Two declarations, one in the other, are offered three times if they are declined. -/
theorem length_offered_declined :
    (offered declining () "\x7b\\a\x7b\\b\x7d\x7d".toList).length = 3 ∧
      "\x7b\\a\x7b\\b\x7d\x7d".toList.count '{' = 2 := by
  decide

/-- Declarations in each other, down to a depth. -/
def nest : (depth : Nat) → Text
  | 0 => []
  | depth + 1 => '{' :: '\\' :: 'a' :: (nest depth ++ ['}'])

theorem count_nest (depth : Nat) : (nest depth).count '{' = depth := by
  induction depth with
  | zero => rfl
  | succ depth inductionHypothesis => simp [nest, inductionHypothesis]

theorem escapesAfter_nest (depth : Nat) : escapesAfter false (nest depth) = false := by
  cases depth with
  | zero => rfl
  | succ depth => exact escapesAfter_concat (by decide) false ('{' :: '\\' :: 'a' :: nest depth)

theorem braceDepth_nest (depth around : Nat) :
    braceDepth around false (nest depth) = some around := by
  induction depth generalizing around with
  | zero => rfl
  | succ depth inductionHypothesis =>
    have opened : braceDepth around false (nest (depth + 1)) =
        braceDepth (around + 1) false (nest depth ++ ['}']) := rfl
    rw [opened, braceDepth_append, inductionHypothesis, escapesAfter_nest, Option.bind_some]
    rfl

theorem isDeclaration_nest (depth : Nat) :
    IsDeclaration Cursor.start (nest (depth + 1)) [] ⟨['a'], nest depth⟩ where
  unescaped := rfl
  named := by
    refine ⟨List.cons_ne_nil _ _, List.forall_mem_singleton.mpr (by decide), ?_⟩
    cases depth <;> rfl
  spelled :=
    ⟨[], by decide, rfl, readBracedRest_iff.mpr
      ⟨List.append_nil _, braceDepth_nest depth 0, escapesAfter_nest depth⟩⟩

/-- Each level doubles what the levels in it lead to, and adds one offer. -/
theorem card_offersFrom_nest (depth offset : Nat) :
    (offersFrom (fun _ => true) offset false (nest depth)).card + 1 = 2 ^ depth := by
  induction depth generalizing offset with
  | zero => rfl
  | succ depth inductionHypothesis =>
    obtain ⟨inside, behind, offers⟩ := (isDeclaration_nest depth).exists_offersFrom offset
    have whole := (offers fun _ => true).2
    have ended : offersFrom (fun _ => true) behind false [] = 0 := rfl
    rw [List.append_nil, if_pos rfl, ended, add_zero] at whole
    have level : offersFrom (fun _ => true) offset false (nest (depth + 1)) =
        {['a']} + 2 • offersFrom (fun _ => true) inside false (nest depth) := whole
    rw [level, Multiset.card_add, Multiset.card_nsmul, Multiset.card_singleton, pow_succ,
      ← inductionHypothesis inside]
    omega

/-- Declined declarations in each other are offered once for every set of them but the empty
one. -/
theorem length_offered_nest (depth : Nat) :
    (offered declining () (nest depth)).length + 1 = 2 ^ (nest depth).count '{' := by
  have between : DeclinesBetween declining (fun _ => true) fun _ => true :=
    ⟨fun _ _ _ => rfl, fun _ _ _ => rfl⟩
  obtain ⟨low, high⟩ := between.offersFor_le () (nest depth)
  have same := congrArg Multiset.card (le_antisymm high low)
  rw [Multiset.coe_card] at same
  rw [count_nest, same]
  exact card_offersFrom_nest depth 0

end LatexMarkdown.Scan
