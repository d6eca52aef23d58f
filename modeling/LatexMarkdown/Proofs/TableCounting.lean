import LatexMarkdown.Proofs.Characters
import LatexMarkdown.Proofs.Counting
import LatexMarkdown.Proofs.RenderedTable

/-!
# What a table can bring in

Commands and formulas begin with a backslash, a dollar or a parenthesis. As long
as the values of the colours hold none of these marks, a table has no more of
them in its output than in its body. Only the break that is written in the place
of the repeated headers of a long table can add a backslash.
-/

namespace LatexMarkdown

open Scan

/-- The characters that commands and formulas begin with. -/
def marks : List Char :=
  ['\\', '$', '(']

/-- A text without marks. -/
def Unmarked (text : Text) : Prop :=
  ∀ c ∈ marks, c ∉ text

instance (text : Text) : Decidable (Unmarked text) :=
  inferInstanceAs (Decidable (∀ c ∈ marks, c ∉ text))

theorem Unmarked.count_eq {text : Text} (unmarked : Unmarked text) {c : Char}
    (mark : c ∈ marks) : text.count c = 0 :=
  List.count_eq_zero.mpr (unmarked c mark)

namespace Text

theorem count_trim_le (text : Text) (c : Char) : (trim text).count c ≤ text.count c :=
  ((trimEnd_front _).sublist.trans (List.dropWhile_suffix _).sublist).count_le c

theorem digitChar_not_mem_marks (digit : Nat) : Nat.digitChar digit ∉ marks := by
  have digits : ∀ digit < 16, Nat.digitChar digit ∉ marks := by decide
  by_cases small : digit < 16
  · exact digits digit small
  · have star : Nat.digitChar digit = '*' := by
      unfold Nat.digitChar
      iterate 16 rw [if_neg (by omega)]
    rw [star]
    decide

theorem toLower_not_mem_marks {c : Char} (digit : isHexDigit c = true) : c.toLower ∉ marks := by
  intro mark
  rcases isLower_toLower_or c with small | ⟨kept, -⟩
  · have signs : ∀ sign ∈ marks, sign.isLower = false := by decide
    exact absurd small (Bool.eq_false_iff.mp (signs _ mark))
  · have signs : ∀ sign ∈ marks, isHexDigit sign = false := by decide
    rw [kept] at mark
    exact absurd digit (Bool.eq_false_iff.mp (signs _ mark))

end Text

/-! ## Colours -/

/-- What is found under a key is there. -/
theorem KeyedList.mem_of_find? {α : Type} {entries : KeyedList α} {wanted : Text} {value : α}
    (found : find? entries wanted = some value) : (wanted, value) ∈ entries := by
  induction entries with
  | nil => simp [find?] at found
  | cons entry others inductionHypothesis =>
    rw [find?] at found
    split at found
    next same =>
      obtain rfl := Option.some.inj found
      rw [← same]
      exact List.mem_cons_self
    · exact List.mem_cons_of_mem _ (inductionHypothesis found)

/-- No value of a colour holds a mark. -/
def ColorTable.Unmarked (colors : ColorTable) : Prop :=
  ∀ entry ∈ colors.defined, LatexMarkdown.Unmarked entry.2

instance (colors : ColorTable) : Decidable colors.Unmarked :=
  inferInstanceAs (Decidable (∀ entry ∈ colors.defined, LatexMarkdown.Unmarked entry.2))

section Colors

variable {c : Char}

theorem Color.unmarked_hexTriplet (red green blue : Nat) :
    Unmarked (hexTriplet red green blue) := by
  intro c mark
  have digit number : c ≠ Nat.digitChar number := fun same =>
    Text.digitChar_not_mem_marks number (same ▸ mark)
  have sign : c ≠ '#' := by
    rintro rfl
    exact absurd mark (by decide)
  simp [hexTriplet, Text.hexByte, digit, sign]

/-- The value of a colour in a model has no mark. -/
theorem Color.unmarked_inModel? {model spec value : Text}
    (read : inModel? model spec = some value) : Unmarked value := by
  simp only [inModel?] at read
  split at read
  · split at read
    · simp only [Option.bind_eq_bind, Option.bind_eq_some_iff, Option.some.injEq] at read
      obtain ⟨red, -, green, -, blue, -, rfl⟩ := read
      exact unmarked_hexTriplet _ _ _
    · simp at read
  split at read
  · split at read
    · simp only [Option.bind_eq_bind, Option.bind_eq_some_iff, Option.some.injEq] at read
      obtain ⟨red, -, green, -, blue, -, rfl⟩ := read
      exact unmarked_hexTriplet _ _ _
    · simp at read
  split at read
  · split at read
    next digits =>
      simp only [Bool.and_eq_true, decide_eq_true_eq, List.all_eq_true] at digits
      intro c mark
      rw [← Option.some.inj read, List.mem_cons, List.mem_map]
      rintro (rfl | ⟨digit, member, rfl⟩)
      · exact absurd mark (by decide)
      · exact Text.toLower_not_mem_marks (digits.2 digit member) mark
    · simp at read
  split at read
  · split at read
    · obtain ⟨channel, -, rfl⟩ := Option.map_eq_some_iff.mp read
      exact unmarked_hexTriplet _ _ _
    · simp at read
  split at read
  · split at read
    · simp only [Option.bind_eq_bind, Option.bind_eq_some_iff, Option.some.injEq] at read
      obtain ⟨cyan, -, magenta, -, yellow, -, black, -, rfl⟩ := read
      exact unmarked_hexTriplet _ _ _
    · simp at read
  · simp at read

namespace ColorTable.Unmarked

variable {colors : ColorTable}

/-- A colour expression resolves to a text with no more marks. -/
theorem resolve_count (unmarked : colors.Unmarked) (mark : c ∈ marks) (expression : Text) :
    (colors.resolve expression).count c ≤ expression.count c := by
  have palette : ∀ entry ∈ Color.palette, LatexMarkdown.Unmarked entry.2 := by decide
  have base : (Text.trim ((Text.trim expression).takeWhile (· ≠ '!'))).count c ≤
      expression.count c :=
    (Text.count_trim_le _ c).trans
      (((List.takeWhile_prefix _).sublist.count_le c).trans (Text.count_trim_le _ c))
  rw [resolve]
  split
  next value found =>
    have member := KeyedList.mem_of_find? found
    rw [(unmarked _ member).count_eq mark]
    exact Nat.zero_le _
  · cases found : KeyedList.find? Color.palette
        (Text.trim ((Text.trim expression).takeWhile (· ≠ '!'))) with
    | none => exact base
    | some value =>
      have member := KeyedList.mem_of_find? found
      rw [Option.getD_some, (palette _ member).count_eq mark]
      exact Nat.zero_le _

theorem resolveInModel_count (unmarked : colors.Unmarked) (mark : c ∈ marks)
    (model : Option Text) (spec : Text) :
    (colors.resolveInModel model spec).count c ≤ spec.count c := by
  cases model with
  | none => exact unmarked.resolve_count mark spec
  | some model =>
    rw [resolveInModel]
    cases read : Color.inModel? model spec with
    | none => exact Text.count_trim_le spec c
    | some value =>
      rw [Option.getD_some, (Color.unmarked_inModel? read).count_eq mark]
      exact Nat.zero_le _

end ColorTable.Unmarked

end Colors

/-! ## Styles and symbols -/

section Styles

variable {c : Char}

/-- A fold whose steps bring in no mark brings in none. -/
theorem count_foldl_le {α : Type} {step : Text → α → Text} {items : List α}
    (bound : ∀ item ∈ items, ∀ text, (step text item).count c ≤ text.count c) (text : Text) :
    (items.foldl step text).count c ≤ text.count c := by
  induction items generalizing text with
  | nil => exact Nat.le_refl _
  | cons item others inductionHypothesis =>
    exact (inductionHypothesis (fun other member =>
      bound other (List.mem_cons_of_mem _ member)) _).trans (bound item List.mem_cons_self text)

theorem Html.count_element {tag : String} (unmarked : Unmarked tag.toList) (mark : c ∈ marks)
    (content : Text) : (element tag content).count c = content.count c := by
  have opening : Unmarked ['<'] := by decide
  have closing : Unmarked ['>'] := by decide
  have ending : Unmarked "</".toList := by decide
  have shape : element tag content =
      ['<'] ++ tag.toList ++ ['>'] ++ content ++ "</".toList ++ tag.toList ++ ['>'] := by
    simp [element]
  simp only [shape, List.count_append, unmarked.count_eq mark, opening.count_eq mark,
    closing.count_eq mark, ending.count_eq mark]
  omega

theorem Html.count_property {name : String} (unmarked : Unmarked name.toList) (mark : c ∈ marks)
    (value : Text) : (property name value).count c = value.count c := by
  have colon : Unmarked ": ".toList := by decide
  have semicolon : Unmarked [';'] := by decide
  simp only [property, List.count_append, unmarked.count_eq mark, colon.count_eq mark,
    semicolon.count_eq mark]
  omega

theorem Html.count_styled {tag : String} (unmarked : Unmarked tag.toList) (mark : c ∈ marks)
    (style content : Text) :
    (styled tag style content).count c = style.count c + content.count c := by
  have opening : Unmarked ['<'] := by decide
  have middle : Unmarked " style=\"".toList := by decide
  have quote : Unmarked "\">".toList := by decide
  have closing : Unmarked ['>'] := by decide
  have ending : Unmarked "</".toList := by decide
  have shape : styled tag style content = ['<'] ++ tag.toList ++ " style=\"".toList ++ style ++
      "\">".toList ++ content ++ "</".toList ++ tag.toList ++ ['>'] := rfl
  simp only [shape, List.count_append, unmarked.count_eq mark, opening.count_eq mark,
    middle.count_eq mark, quote.count_eq mark, closing.count_eq mark, ending.count_eq mark]
  omega

/-- A style brings in no mark. -/
theorem Style.count_wrapHtml (mark : c ∈ marks) (style : Style) (text : Text) :
    (style.wrapHtml text).count c ≤ text.count c := by
  have trimmed := Text.count_trim_le text c
  have element (tag : String) (unmarked : Unmarked tag.toList) :
      (Html.element tag (Text.trim text)).count c ≤ text.count c := by
    rwa [Html.count_element unmarked mark]
  have styled (name value : String) (named : Unmarked name.toList)
      (plain : Unmarked value.toList) :
      (Html.styled "span" (Html.property name value.toList) (Text.trim text)).count c ≤
        text.count c := by
    rwa [Html.count_styled (by decide) mark, Html.count_property named mark,
      plain.count_eq mark, Nat.zero_add]
  by_cases empty : (Text.trim text).isEmpty = true
  · have nothing : style.wrapHtml text = [] := by
      unfold wrapHtml
      exact if_pos empty
    rw [nothing]
    exact Nat.zero_le _
  · cases style <;> simp only [wrapHtml, wrap, if_neg empty]
    case bold => exact element "strong" (by decide)
    case italic => exact element "em" (by decide)
    case underline => exact element "u" (by decide)
    case monospace => exact element "code" (by decide)
    case sansSerif => exact styled "font-family" "sans-serif" (by decide) (by decide)
    case smallCaps => exact styled "font-variant" "small-caps" (by decide) (by decide)
    case strike => exact element "del" (by decide)
    case superscript => exact element "sup" (by decide)
    case subscript => exact element "sub" (by decide)
    case plain => exact trimmed

/-- A letter is read after at most a backslash. -/
theorem Symbol.readLetter_unmarked {text letter rest : Text}
    (read : readLetter text = some (letter, rest)) : Unmarked letter ∧ rest <:+ text := by
  have letters : ∀ c ∈ marks, ¬ c.isAlpha := by decide
  have within : (Text.dropFront? ['\\'] text).getD text <:+ text := by
    cases found : Text.dropFront? ['\\'] text with
    | none => exact List.suffix_refl text
    | some after => exact dropFront?_suffix found
  simp only [readLetter] at read
  split at read
  next first after spelled =>
    split at read
    next alphabetic =>
      simp only [Option.some.injEq, Prod.mk.injEq] at read
      obtain ⟨rfl, rfl⟩ := read
      refine ⟨fun c mark member => ?_, ?_⟩
      · obtain rfl := List.mem_singleton.mp member
        exact letters c mark alphabetic
      · rw [spelled] at within
        exact (List.suffix_cons first after).trans within
    · simp at read
  · simp at read

theorem Symbol.readBracedLetter_unmarked {text letter rest : Text}
    (read : readBracedLetter text = some (letter, rest)) : Unmarked letter ∧ rest <:+ text := by
  simp only [readBracedLetter, Option.bind_eq_bind, Option.bind_eq_some_iff, Option.some.injEq,
    Prod.mk.injEq, Prod.exists] at read
  obtain ⟨inside, opened, found, after, spelled, last, closed, rfl, rfl⟩ := read
  obtain ⟨unmarked, within⟩ := readLetter_unmarked spelled
  refine ⟨unmarked, (dropFront?_suffix closed).trans ?_⟩
  exact (List.dropWhile_suffix _).trans
    (within.trans ((List.dropWhile_suffix _).trans (dropFront?_suffix opened)))

theorem Symbol.unmarked_composeAccent (accent : Text) {letter : Text}
    (unmarked : Unmarked letter) : Unmarked (composeAccent accent letter) := by
  have composed : ∀ entry ∈ precomposed, Unmarked entry.2 := by decide
  have signs : ∀ entry ∈ accentMarks, Unmarked entry.2 := by decide
  rw [composeAccent]
  split
  next found =>
    have member := KeyedList.mem_of_find? found
    exact composed _ member
  · split
    next found =>
      have member := KeyedList.mem_of_find? found
      intro c mark inside
      rcases List.mem_append.mp inside with inside | inside
      · exact unmarked c mark inside
      · exact signs _ member c mark inside
    · exact unmarked

/-- A reader writes no marks in the place of what it reads, apart from a
backslash for the one that it starts with. -/
def ReadsMarks (read : Text → Option (Text × Text)) : Prop :=
  ∀ text replacement rest, read text = some (replacement, rest) →
    rest <:+ text ∧ ∀ c ∈ marks, replacement.count c + rest.count c ≤ text.count c

theorem ReadsMarks.count_substitute {read : Text → Option (Text × Text)}
    (reads : ReadsMarks read) (mark : c ∈ marks) (text : Text) :
    (substitute read text).count c ≤ text.count c :=
  substitute_count (fun suffix replacement rest found =>
    ⟨(reads suffix replacement rest found).1, (reads suffix replacement rest found).2 c mark⟩) text

/-- A replacement without marks brings in none. -/
theorem count_of_unmarked {text replacement rest : Text} (unmarked : Unmarked replacement)
    (within : rest <:+ text) :
    rest <:+ text ∧ ∀ c ∈ marks, replacement.count c + rest.count c ≤ text.count c := by
  refine ⟨within, fun c mark => ?_⟩
  rw [unmarked.count_eq mark, Nat.zero_add]
  exact count_le_of_suffix within

namespace Symbol

theorem readsMarks_readSignAccent : ReadsMarks readSignAccent := by
  intro text replacement rest read
  simp only [readSignAccent, Option.bind_eq_bind, Option.bind_eq_some_iff] at read
  obtain ⟨after, command, read⟩ := read
  cases after with
  | nil => simp at read
  | cons sign after =>
    simp only [Option.ite_none_right_eq_some, Option.bind_eq_some_iff, Option.orElse_eq_orElse,
      Option.orElse_eq_or, Option.or_eq_some_iff, Option.some.injEq, Prod.mk.injEq,
      Prod.exists] at read
    obtain ⟨-, letter, last, spelled, rfl, rfl⟩ := read
    have letters : Unmarked letter ∧ last <:+ after := by
      rcases spelled with braced | ⟨-, bare⟩
      · exact readBracedLetter_unmarked braced
      · exact readLetter_unmarked bare
    exact count_of_unmarked (unmarked_composeAccent [sign] letters.1)
      (letters.2.trans ((List.suffix_cons sign after).trans (dropFront?_suffix command)))

theorem readsMarks_readLetterAccent : ReadsMarks readLetterAccent := by
  intro text replacement rest read
  simp only [readLetterAccent, Option.bind_eq_bind, Option.bind_eq_some_iff] at read
  obtain ⟨after, command, read⟩ := read
  cases after with
  | nil => simp at read
  | cons accent after =>
    have within : Text.trimStart after <:+ text :=
      (List.dropWhile_suffix _).trans
        ((List.suffix_cons accent after).trans (dropFront?_suffix command))
    simp only [Option.ite_none_right_eq_some] at read
    obtain ⟨-, read⟩ := read
    split at read
    next letter last braced =>
      obtain ⟨unmarked, inside⟩ := readBracedLetter_unmarked braced
      simp only [Option.some.injEq, Prod.mk.injEq] at read
      obtain ⟨rfl, rfl⟩ := read
      exact count_of_unmarked (unmarked_composeAccent [accent] unmarked) (inside.trans within)
    next first last unbraced bare =>
      split at read
      next alphabetic =>
        simp only [Option.some.injEq, Prod.mk.injEq] at read
        obtain ⟨rfl, rfl⟩ := read
        simp only [Bool.and_eq_true] at alphabetic
        have letters : ∀ c ∈ marks, ¬ c.isAlpha := by decide
        have unmarked : Unmarked [first] := by
          intro c mark member
          obtain rfl := List.mem_singleton.mp member
          exact letters c mark alphabetic.1
        rw [bare] at within
        exact count_of_unmarked (unmarked_composeAccent [accent] unmarked)
          ((List.suffix_cons first last).trans within)
      · simp at read
    · simp at read

theorem readsMarks_readSymbol : ReadsMarks readSymbol := by
  have values : ∀ entry ∈ textSymbols, ∀ c ∈ marks, entry.2.count c ≤ ['\\'].count c := by
    decide
  intro text replacement rest read
  simp only [readSymbol, Option.bind_eq_bind, Option.bind_eq_some_iff, Option.some.injEq,
    Prod.mk.injEq] at read
  obtain ⟨after, command, symbol, found, rfl, rfl⟩ := read
  have member := KeyedList.mem_of_find? found
  have within : (Text.dropFront? ['{', '}'] (after.dropWhile Char.isAlpha)).getD
      (after.dropWhile Char.isAlpha) <:+ after := by
    cases group : Text.dropFront? ['{', '}'] (after.dropWhile Char.isAlpha) with
    | none => exact List.dropWhile_suffix _
    | some last => exact (dropFront?_suffix group).trans (List.dropWhile_suffix _)
  refine ⟨within.trans (dropFront?_suffix command), fun c mark => ?_⟩
  have value : symbol.count c ≤ ['\\'].count c := values _ member c mark
  have behind := count_le_of_suffix (c := c) within
  rw [Text.dropFront?_eq_some_iff.mp command, List.count_append]
  omega

theorem readsMarks_readCharacterCommand (characters : Text) {replacement : Text}
    (unmarked : Unmarked replacement) :
    ReadsMarks (readCharacterCommand characters replacement) := by
  intro text written rest read
  simp only [readCharacterCommand, Option.bind_eq_bind, Option.bind_eq_some_iff] at read
  obtain ⟨after, command, read⟩ := read
  cases after with
  | nil => simp at read
  | cons sign last =>
    simp only [Option.ite_none_right_eq_some, Option.some.injEq, Prod.mk.injEq] at read
    obtain ⟨-, rfl, rfl⟩ := read
    exact count_of_unmarked unmarked
      ((List.suffix_cons sign last).trans (dropFront?_suffix command))

/-- Symbols bring in no marks. -/
theorem count_normalize (mark : c ∈ marks) (text : Text) :
    (normalize text).count c ≤ text.count c := by
  have signs : ∀ entry ∈ punctuation, Unmarked entry.2 := by decide
  have punctuated (text : Text) : (replacePunctuation text).count c ≤ text.count c := by
    refine count_foldl_le (fun entry member text => ?_) text
    refine replaceAll_count ?_ text
    rw [(signs entry member).count_eq mark]
    exact Nat.zero_le _
  rw [normalize]
  calc
    _ ≤ _ := (readsMarks_readCharacterCommand _ (by decide)).count_substitute mark _
    _ ≤ _ := (readsMarks_readCharacterCommand _ (by decide)).count_substitute mark _
    _ ≤ _ := punctuated _
    _ ≤ _ := readsMarks_readSymbol.count_substitute mark _
    _ ≤ _ := readsMarks_readLetterAccent.count_substitute mark _
    _ ≤ _ := readsMarks_readSignAccent.count_substitute mark _

end Symbol

/-- Where nothing is stored, tokens are dropped. -/
theorem FragmentStore.count_restore_empty (text : Text) :
    (FragmentStore.empty.restore text).count c ≤ text.count c := by
  refine editAhead_count fun suffix _ => ?_
  cases read : Fragment.readToken suffix with
  | none => exact Nat.le_refl _
  | some token =>
    have within : token.2 <:+ suffix := by
      obtain ⟨-, -, rfl⟩ := Fragment.readToken_eq_some_iff.mp read
      rw [← List.append_assoc, ← List.append_assoc]
      exact List.suffix_append _ _
    have nothing : FragmentStore.empty.fragmentOf token.1 = [] := by
      rw [fragmentOf]
      cases Fragment.tokenIndex? token.1 <;> rfl
    rw [Option.map_some, Edit.applied_upTo within, nothing]
    exact count_le_of_suffix within

end Styles

namespace Table

/-! ## Rows and cells -/

section Rows

variable {c : Char} {colors : ColorTable}

/-- The texts that a cell holds. -/
def Cell.texts (cell : Cell) : List Text :=
  cell.content :: cell.background.toList

/-- The texts that a row holds. -/
def Row.texts (row : Row) : List Text :=
  row.background.toList ++ row.cells.flatMap Cell.texts

theorem countAll_keepInFirst (d : Char) (pieces : List Text) :
    countAll c (Text.keepInFirst d pieces) = [d].count c + countAll c pieces := by
  cases pieces with
  | nil => rfl
  | cons first others =>
    simp only [Text.keepInFirst, countAll_cons, List.count_cons, List.count_nil]
    omega

/-- The cells of a row share its characters. -/
theorem countAll_splitCells (row : Text) : countAll c (splitCells row) ≤ row.count c := by
  have general : ∀ (row : Text) depth escaped,
      countAll c (cellsFrom depth escaped row) ≤ row.count c := by
    intro row
    induction row with
    | nil =>
      intro depth escaped
      cases escaped <;> exact Nat.le_refl _
    | cons d rest inductionHypothesis =>
      intro depth escaped
      have kept depth escaped : countAll c (Text.keepInFirst d (cellsFrom depth escaped rest)) ≤
          (d :: rest).count c := by
        have := inductionHypothesis depth escaped
        simp only [countAll_keepInFirst, List.count_cons, List.count_nil]
        omega
      cases escaped with
      | true => exact kept _ _
      | false =>
        rw [cellsFrom]
        split
        · exact kept _ _
        split
        · have := inductionHypothesis depth false
          rw [countAll_cons, List.count_cons, List.count_nil]
          omega
        · exact kept _ _
  exact general row _ _

/-- The rows of a body share its characters. -/
theorem countAll_splitRows (body : Text) : countAll c (splitRows body) ≤ body.count c := by
  have general : ∀ (body : Text) depth escaped covered,
      countAll c (rowsFrom depth escaped covered body) ≤ body.count c := by
    intro body
    induction body with
    | nil =>
      intro depth escaped covered
      cases covered <;> cases escaped <;> exact Nat.le_refl _
    | cons d rest inductionHypothesis =>
      intro depth escaped covered
      have kept depth escaped : countAll c (Text.keepInFirst d (rowsFrom depth escaped 0 rest)) ≤
          (d :: rest).count c := by
        have := inductionHypothesis depth escaped 0
        simp only [countAll_keepInFirst, List.count_cons, List.count_nil]
        omega
      cases covered with
      | succ covered =>
        have := inductionHypothesis depth escaped covered
        rw [rowsFrom, List.count_cons]
        omega
      | zero =>
        cases escaped with
        | true => exact kept _ _
        | false =>
          rw [rowsFrom]
          split
          · split
            next after _ =>
              have := inductionHypothesis depth false (rest.length - after.length)
              rw [countAll_cons, List.count_cons, List.count_nil]
              omega
            · exact kept _ _
          · exact kept _ _
  exact general body _ _ _

theorem afterRule?_suffix {text rest : Text} (found : afterRule? text = some rest) :
    rest <:+ text := by
  have columns {text rest : Text} (found : afterRuleColumns? text = some rest) :
      rest <:+ text := by
    obtain ⟨⟨inner, after⟩, read, rfl⟩ := Option.map_eq_some_iff.mp found
    exact (readEnclosed_suffix read).trans (List.dropWhile_suffix _)
  simp only [afterRule?, Option.bind_eq_bind, Option.bind_eq_some_iff, Option.orElse_eq_orElse,
    Option.orElse_eq_or, Option.or_eq_some_iff, Option.map_eq_some_iff] at found
  obtain ⟨name, command, found⟩ := found
  refine List.IsSuffix.trans ?_ (dropFront?_suffix command)
  rcases found with plain | ⟨-, ⟨after, named, behind⟩ | ⟨-, ⟨after, named, behind⟩ |
    ⟨-, after, named, rfl⟩⟩⟩
  · exact afterOneOf?_suffix plain
  · exact (columns behind).trans (dropFront?_suffix named)
  · exact (columns behind).trans ((skipEnclosed_suffix _ _ _).trans (dropFront?_suffix named))
  · exact (skipEnclosed_suffix _ _ _).trans (dropFront?_suffix named)

theorem count_stripRules (row : Text) : (stripRules row).count c ≤ row.count c := by
  refine substitute_count (fun suffix replacement rest read => ?_) row
  obtain ⟨after, found, pair⟩ := Option.map_eq_some_iff.mp read
  obtain ⟨rfl, rfl⟩ := Prod.mk.inj pair
  have within := afterRule?_suffix found
  exact ⟨within, by simpa using count_le_of_suffix within⟩

/-- The colour of a row and the rest of the row share its characters. -/
theorem count_takeRowColor (unmarked : colors.Unmarked) (mark : c ∈ marks) (row : Text) :
    countAll c (takeRowColor colors row).1.toList + (takeRowColor colors row).2.count c ≤
      row.count c := by
  have whole := editCommand_count (c := c) (fun color => countAll c color.toList)
    (fun _ arguments =>
      (some (colors.resolveInModel (arguments.option? 0) (arguments.argument 0)), some []))
    (fun state arguments => ⟨_, _, rfl, by
      have color := unmarked.resolveInModel_count mark (arguments.option? 0)
        (arguments.argument 0)
      have argument := arguments.count_argument_le (c := c) 0
      simp only [Arguments.count, Option.toList_some, countAll_cons, countAll_nil, List.count_nil]
      omega⟩) "rowcolor".toList ⟨true, 1, 1⟩ none row
  simpa [takeRowColor] using whole

/-- The content of a cell and its colour share the characters of the cell. -/
theorem countAll_read (unmarked : colors.Unmarked) (mark : c ∈ marks) (text : Text) :
    countAll c (Cell.read colors text).texts ≤ text.count c := by
  let charge (cell : Cell) := countAll c cell.background.toList
  have columns := editCommand_count (c := c) charge
    (fun (cell : Cell) arguments =>
      ({ cell with
          columnSpan := Cell.readSpan (arguments.argument 0),
          alignment := (Table.columns (arguments.argument 1)).head? },
        some (arguments.argument 2)))
    (fun state arguments => ⟨_, _, rfl, Nat.add_le_add_left
      ((arguments.count_argument_le 2).trans (Nat.le_add_left _ _)) (charge state)⟩)
    "multicolumn".toList ⟨true, 0, 3⟩ .empty (Text.trim text)
  have rows (cell : Cell) (content : Text) := editCommand_count (c := c) charge
    (fun (cell : Cell) arguments =>
      ({ cell with rowSpan := Cell.readSpan (arguments.argument 0) },
        some (arguments.argument 2)))
    (fun state arguments => ⟨_, _, rfl, Nat.add_le_add_left
      ((arguments.count_argument_le 2).trans (Nat.le_add_left _ _)) (charge state)⟩)
    "multirow".toList ⟨true, 1, 3⟩ cell content
  have background (cell : Cell) (content : Text) := editCommand_count (c := c) charge
    (fun (cell : Cell) arguments =>
      let color := colors.resolveInModel (arguments.option? 0) (arguments.argument 0)
      ({ cell with background := some color }, some []))
    (fun state arguments => ⟨_, _, rfl, by
      have color := unmarked.resolveInModel_count mark (arguments.option? 0)
        (arguments.argument 0)
      have argument := arguments.count_argument_le (c := c) 0
      simp only [charge, Arguments.count, Option.toList_some, countAll_cons, countAll_nil,
        List.count_nil]
      omega⟩) "cellcolor".toList ⟨true, 1, 1⟩ cell content
  calc countAll c (Cell.read colors text).texts
      ≤ _ := Nat.add_le_add_right (Text.count_trim_le _ c) _
    _ = _ := Nat.add_comm _ _
    _ ≤ _ := background _ _
    _ ≤ _ := rows _ _
    _ ≤ _ := columns
    _ ≤ text.count c := by
      have := Text.count_trim_le text c
      simp only [charge, Cell.empty, Option.toList_none, countAll_nil]
      omega

/-- The backslash that the break between the headers and the body may add. -/
def addedBreak (c : Char) : Nat :=
  ['\\'].count c

theorem afterHeaderMark?_eq_cons {text rest : Text} (found : afterHeaderMark? text = some rest) :
    ∃ behind, text = '\\' :: behind ∧ rest <:+ behind := by
  simp only [afterHeaderMark?, Option.bind_eq_bind, Option.bind_eq_some_iff,
    Option.ite_none_right_eq_some, Option.some.injEq] at found
  obtain ⟨name, command, after, named, -, rfl⟩ := found
  exact ⟨name, Text.dropFront?_eq_some_iff.mp command, afterOneOf?_suffix named⟩

theorem afterLastHeaderMark?_suffix {text after : Text}
    (found : afterLastHeaderMark? text = some after) : after <:+ text := by
  induction text with
  | nil => simp [afterLastHeaderMark?] at found
  | cons d rest inductionHypothesis =>
    simp only [afterLastHeaderMark?, Option.orElse_eq_orElse, Option.orElse_eq_or,
      Option.or_eq_some_iff] at found
    rcases found with later | ⟨-, here⟩
    · exact suffix_cons_of_suffix (inductionHypothesis later)
    · obtain ⟨behind, spelled, within⟩ := afterHeaderMark?_eq_cons here
      rw [spelled]
      exact suffix_cons_of_suffix within

/-- The first header and the body of a long table leave out the marks, of which
there is at least one. -/
theorem count_around_headers {text before after : Text}
    (first : beforeHeaderMark? text = some before)
    (last : afterLastHeaderMark? text = some after) :
    before.count c + addedBreak c + after.count c ≤ text.count c := by
  induction text generalizing before with
  | nil => simp [beforeHeaderMark?] at first
  | cons d rest inductionHypothesis =>
    simp only [afterLastHeaderMark?, Option.orElse_eq_orElse, Option.orElse_eq_or,
      Option.or_eq_some_iff] at last
    rw [beforeHeaderMark?] at first
    split at first
    next marked =>
      obtain ⟨behind, here⟩ := Option.isSome_iff_exists.mp marked
      obtain ⟨others, spelled, within⟩ := afterHeaderMark?_eq_cons here
      obtain ⟨rfl, rfl⟩ := List.cons.inj spelled
      have tail : after <:+ rest := by
        rcases last with later | ⟨-, same⟩
        · exact afterLastHeaderMark?_suffix later
        · obtain rfl := Option.some.inj (same.symm.trans here)
          exact within
      have := count_le_of_suffix (c := c) tail
      rw [← Option.some.inj first, addedBreak]
      simp only [List.count_cons, List.count_nil]
      omega
    next unmarked =>
      obtain ⟨others, found, rfl⟩ := Option.map_eq_some_iff.mp first
      have later : afterLastHeaderMark? rest = some after := by
        rcases last with later | ⟨-, here⟩
        · exact later
        · exact absurd (Option.isSome_of_eq_some here) unmarked
      have := inductionHypothesis found later
      simp only [List.count_cons]
      omega

theorem count_dropRepeatedHeaders (body : Text) :
    (dropRepeatedHeaders body).count c ≤ body.count c + addedBreak c := by
  rw [dropRepeatedHeaders]
  split
  next before after first last =>
    have := count_around_headers (c := c) first last
    have written : "\\\\".toList = ['\\'] ++ ['\\'] := rfl
    rw [addedBreak] at this ⊢
    simp only [written, List.count_append]
    omega
  · exact Nat.le_add_right _ _

/-- Items that are read from sources share the characters of the sources. -/
theorem countAll_filterMap_le {α : Type} {read : Text → Option α} {texts : α → List Text}
    (bound : ∀ source item, read source = some item →
      countAll c (texts item) ≤ source.count c) (sources : List Text) :
    countAll c ((sources.filterMap read).flatMap texts) ≤ countAll c sources := by
  induction sources with
  | nil => exact Nat.le_refl _
  | cons source others inductionHypothesis =>
    rw [countAll_cons]
    cases found : read source with
    | none =>
      rw [List.filterMap_cons_none found]
      omega
    | some item =>
      have here := bound source item found
      rw [List.filterMap_cons_some found, List.flatMap_cons, countAll_append]
      omega

/-- The rows of a table share the characters of its body. -/
theorem countAll_readRows (unmarked : colors.Unmarked) (mark : c ∈ marks) (body : Text) :
    countAll c ((readRows colors body).flatMap Row.texts) ≤ body.count c + addedBreak c := by
  refine (countAll_filterMap_le (fun source row read => ?_) _).trans
    ((countAll_splitRows _).trans (count_dropRepeatedHeaders body))
  simp only [Option.ite_none_left_eq_some, Option.some.injEq] at read
  obtain ⟨-, rfl⟩ := read
  have read : ∀ source cell, some (Cell.read colors source) = some cell →
      countAll c cell.texts ≤ source.count c := fun source _ read =>
    Option.some.inj read ▸ countAll_read unmarked mark source
  have cells := countAll_filterMap_le read
    (splitCells (takeRowColor colors (stripRules source)).2)
  have split := countAll_splitCells (c := c) (takeRowColor colors (stripRules source)).2
  have color := count_takeRowColor unmarked mark (stripRules source)
  have rules := count_stripRules (c := c) source
  rw [List.filterMap_eq_map'] at cells
  rw [Row.texts, countAll_append]
  dsimp only
  omega

/-- The kept cells of a row hold texts of its cells. -/
theorem texts_placeCells (coverage : List Nat) (alignments : List Alignment) (cells : List Cell) :
    ((placeCells coverage alignments cells).1.flatMap Cell.texts).Sublist
      (cells.flatMap Cell.texts) := by
  induction cells generalizing coverage alignments with
  | nil => exact List.Sublist.refl _
  | cons cell others inductionHypothesis =>
    have later := inductionHypothesis (coverage.drop cell.width) (alignments.drop cell.width)
    simp only [placeCells]
    split
    · exact later.trans (List.sublist_append_right _ _)
    · exact List.Sublist.append (List.Sublist.refl _) later

/-- The rows of a grid hold texts of the rows that were added to it. -/
theorem texts_addRows (alignments : List Alignment) (rows : List Row) (grid : Grid) :
    ((rows.foldl (Grid.addRow alignments) grid).rows.flatMap Row.texts).Sublist
      (grid.rows.flatMap Row.texts ++ rows.flatMap Row.texts) := by
  induction rows generalizing grid with
  | nil => simp
  | cons row others inductionHypothesis =>
    have here : ((grid.addRow alignments row).rows.flatMap Row.texts).Sublist
        (grid.rows.flatMap Row.texts ++ row.texts) := by
      simp only [Grid.addRow]
      split
      · exact List.sublist_append_left _ _
      · have kept := texts_placeCells grid.coverage alignments row.cells
        rw [List.flatMap_append, List.flatMap_singleton]
        exact (List.Sublist.refl _).append ((List.Sublist.refl _).append kept)
    rw [List.foldl_cons, List.flatMap_cons, ← List.append_assoc]
    exact (inductionHypothesis _).trans (here.append (List.Sublist.refl _))

/-- The rows of the grid share the characters of the body. -/
theorem countAll_readGrid (unmarked : colors.Unmarked) (mark : c ∈ marks)
    (alignments : List Alignment) (body : Text) :
    countAll c ((readGrid colors alignments body).flatMap Row.texts) ≤
      body.count c + addedBreak c :=
  (countAll_le_of_sublist (texts_addRows alignments (readRows colors body) .empty)).trans
    (countAll_readRows unmarked mark body)

end Rows

/-! ## Tags -/

section Tags

variable {c : Char}

/-- Joined pieces have the characters of the pieces that the separator does not
have. -/
theorem count_joinWith {separator : Text} (absent : c ∉ separator) (pieces : List Text) :
    (Text.joinWith separator pieces).count c = countAll c pieces := by
  induction pieces with
  | nil => rfl
  | cons piece others inductionHypothesis =>
    cases others with
    | nil => simp [Text.joinWith]
    | cons next others =>
      rw [Text.joinWith, List.count_append, List.count_append, List.count_eq_zero.mpr absent,
        inductionHypothesis, countAll_cons piece]
      omega

theorem unmarked_spanAttribute {name : String} (unmarked : Unmarked name.toList) (span : Nat) :
    Unmarked (spanAttribute name span) := by
  intro c mark
  rw [spanAttribute]
  split
  · have signs : c ≠ ' ' ∧ c ≠ '=' ∧ c ≠ '"' := by
      refine ⟨?_, ?_, ?_⟩ <;> (rintro rfl; exact absurd mark (by decide))
    have digits : c ∉ Text.ofNat span := by
      intro member
      have digit := Fragment.isDigit_of_mem_ofNat member
      have none : ∀ c ∈ marks, ¬ c.isDigit := by decide
      exact none c mark digit
    simp [unmarked c mark, signs, digits]
  · exact List.not_mem_nil

/-- The style of a cell has the marks of its background. -/
theorem Cell.countAll_style (mark : c ∈ marks) (cell : Cell) :
    countAll c cell.style = countAll c cell.background.toList := by
  have aligned : ∀ alignment : Option Alignment,
      countAll c ((alignment.bind Alignment.css?).toList.map (Html.property "text-align")) =
        0 := by
    intro alignment
    have name : Unmarked "text-align".toList := by decide
    have values : ∀ value ∈ (alignment.bind Alignment.css?).toList, Unmarked value := by
      rcases alignment with _ | _ | _ | _ | _ <;> decide
    cases fixed : alignment.bind Alignment.css? with
    | none => rfl
    | some value =>
      have unmarked := values value (by simp [fixed])
      simp [Html.count_property name mark, unmarked.count_eq mark]
  have name : Unmarked "background-color".toList := by decide
  rw [style, countAll_append, aligned]
  cases cell.background with
  | none => rfl
  | some color => simp [Html.count_property name mark]

/-- The tag that opens a cell has the marks of the background. -/
theorem Cell.count_openTag (mark : c ∈ marks) (cell : Cell) :
    cell.openTag.count c = countAll c cell.background.toList := by
  have opening : Unmarked "<td".toList := by decide
  have columns : Unmarked "colspan".toList := by decide
  have rows : Unmarked "rowspan".toList := by decide
  have styled : Unmarked " style=\"".toList := by decide
  have quote : Unmarked ['"'] := by decide
  have closing : Unmarked ['>'] := by decide
  have blank : Unmarked [' '] := by decide
  have shape : cell.openTag = "<td".toList ++ spanAttribute "colspan" cell.columnSpan ++
      spanAttribute "rowspan" cell.rowSpan ++ (if cell.style.isEmpty then []
        else " style=\"".toList ++ Text.joinWith [' '] cell.style ++ ['"']) ++ ['>'] := rfl
  have texts := cell.countAll_style mark
  rw [shape]
  simp only [List.count_append, opening.count_eq mark, closing.count_eq mark,
    (unmarked_spanAttribute columns _).count_eq mark, (unmarked_spanAttribute rows _).count_eq mark]
  split
  next empty =>
    rw [List.isEmpty_iff.mp empty] at texts
    rw [← texts]
    rfl
  · simp only [List.count_append, styled.count_eq mark, quote.count_eq mark,
      count_joinWith (blank c mark), texts]
    omega

/-- The tag that opens a row has the marks of the background. -/
theorem Row.count_openTag (mark : c ∈ marks) (row : Row) :
    row.openTag.count c = countAll c row.background.toList := by
  have plain : Unmarked "<tr>".toList := by decide
  have opening : Unmarked "<tr style=\"".toList := by decide
  have closing : Unmarked "\">".toList := by decide
  have name : Unmarked "background-color".toList := by decide
  rw [Row.openTag]
  cases row.background with
  | none => exact plain.count_eq mark
  | some color =>
    have shape : Html.openStyled "tr" (Html.property "background-color" color) =
        "<tr style=\"".toList ++ Html.property "background-color" color ++ "\">".toList := rfl
    simp only [shape, List.count_append, opening.count_eq mark, closing.count_eq mark,
      Html.count_property name mark, Option.toList_some, countAll_cons, countAll_nil]
    omega

/-- Pieces that are written one after another have the marks of the texts that
they take over. -/
theorem count_mapM {α : Type} {write : α → Option Text} {texts : α → List Text}
    (shape : ∀ item piece, write item = some piece → piece.count c = countAll c (texts item))
    {items : List α} {pieces : List Text} (written : items.mapM write = some pieces) :
    pieces.flatten.count c = countAll c (items.flatMap texts) := by
  induction items generalizing pieces with
  | nil =>
    obtain rfl : [] = pieces := by simpa using written
    rfl
  | cons item others inductionHypothesis =>
    simp only [List.mapM_cons, Option.bind_eq_bind, Option.bind_eq_some_iff, Option.pure_def,
      Option.some.injEq] at written
    obtain ⟨piece, first, later, further, rfl⟩ := written
    rw [List.flatten_cons, List.count_append, List.flatMap_cons, countAll_append,
      shape item piece first, inductionHypothesis further]

variable {content? : Text → Option Text}

theorem Cell.count_html {cell : Cell} {written : Text} (mark : c ∈ marks)
    (html : cell.html? content? = some written) :
    written.count c = countAll c (cell.taken content?) := by
  have closing : Unmarked "</td>".toList := by decide
  obtain ⟨content, converted, rfl⟩ := Option.map_eq_some_iff.mp html
  simp only [List.count_append, closing.count_eq mark, cell.count_openTag mark, Cell.taken,
    converted, countAll_append, Option.toList_some, countAll_cons, countAll_nil]
  omega

theorem Row.count_html {row : Row} {written : Text} (mark : c ∈ marks)
    (html : row.html? content? = some written) :
    written.count c = countAll c (row.taken content?) := by
  have closing : Unmarked "</tr>\n".toList := by decide
  obtain ⟨cells, converted, rfl⟩ := Option.map_eq_some_iff.mp html
  rw [List.count_append, List.count_append, closing.count_eq mark, row.count_openTag mark,
    count_mapM (fun _ _ html => Cell.count_html mark html) converted, Row.taken, countAll_append,
    Nat.add_zero]

/-- A table has the marks of what its rows take over. -/
theorem count_html {rows : List Row} {written : Text} (mark : c ∈ marks)
    (html : html? content? rows = some written) :
    written.count c = countAll c (rows.flatMap (Row.taken content?)) := by
  have opening : Unmarked "\n<table class=\"latex-table\">\n".toList := by decide
  have closing : Unmarked "</table>\n".toList := by decide
  obtain ⟨pieces, converted, rfl⟩ := Option.map_eq_some_iff.mp html
  rw [List.count_append, List.count_append, opening.count_eq mark, closing.count_eq mark,
    count_mapM (fun _ _ html => Row.count_html mark html) converted, Nat.zero_add, Nat.add_zero]

end Tags

/-! ## Contents of cells -/

section Contents

variable {c : Char} {colors : ColorTable}

theorem count_unescapeSpecials (mark : c ∈ marks) (text : Text) :
    (unescapeSpecials text).count c ≤ text.count c := by
  have fewer : ∀ entry ∈ escapedSpecials, ∀ c ∈ marks, entry.2.count c ≤ entry.1.count c := by
    decide
  exact count_foldl_le (fun entry member text =>
    replaceAll_count (fewer entry member c mark) text) text

/-- Text commands and declarations bring in no marks. -/
theorem count_renderStyles (unmarked : colors.Unmarked) (mark : c ∈ marks) (text : Text) :
    (renderStyles colors text).count c ≤ text.count c := by
  have command (entry : Text × Style) (text : Text) :
      (Scan.replaceCommand entry.1 ⟨true, 0, 1⟩ (fun arguments =>
        some (entry.2.wrapHtml (arguments.argument 0))) text).count c ≤ text.count c := by
    refine replaceCommand_count (fun arguments => ⟨_, rfl, ?_⟩) entry.1 _ text
    exact (entry.2.count_wrapHtml mark _).trans
      ((arguments.count_argument_le 0).trans (Nat.le_add_left _ _))
  have declarations (text : Text) : (Scan.replaceDeclaration (fun declaration =>
      (KeyedList.find? Style.declarations declaration.name).map fun style =>
        style.wrapHtml declaration.rest) text).count c ≤ text.count c := by
    refine replaceDeclaration_count (fun declaration written answered => ?_) text
    obtain ⟨style, -, rfl⟩ := Option.map_eq_some_iff.mp answered
    exact style.count_wrapHtml mark _
  rw [renderStyles]
  refine (replaceCommand_count (fun arguments => ⟨_, rfl, ?_⟩) _ _ _).trans
    ((declarations _).trans (count_foldl_le (fun entry _ text => command entry text) text))
  have color := unmarked.resolveInModel_count mark (arguments.option? 0) (arguments.argument 0)
  have shown := Text.count_trim_le (arguments.argument 1) c
  have apart := arguments.count_pair_le (c := c)
  have span : Unmarked "span".toList := by decide
  have name : Unmarked "color".toList := by decide
  rw [Html.count_styled span mark, Html.count_property name mark, Arguments.count]
  omega

end Contents

end Table

end LatexMarkdown
