import LatexMarkdown.Code.Verbatim
import LatexMarkdown.Link
import LatexMarkdown.Proofs.Characters
import LatexMarkdown.Proofs.TokenFree
import LatexMarkdown.Table.Protect

/-!
# Tokens in rendered fragments

What is written around the texts that a fragment takes over has no token and no
part of one. A fragment therefore holds a token exactly when one of those texts
does.
-/

namespace LatexMarkdown

open Fragment

/-- The lines of a text, each with its break, are the text. -/
theorem Text.flatten_linesWithBreaks (text : Text) : (linesWithBreaks text).flatten = text := by
  have kept (c : Char) (lines : List Text) :
      (keepInFirst c lines).flatten = c :: lines.flatten := by
    cases lines <;> rfl
  induction text with
  | nil => rfl
  | cons c rest inductionHypothesis =>
    rw [linesWithBreaks]
    split
    · rw [List.flatten_cons, inductionHypothesis]
      rfl
    · rw [kept, inductionHypothesis]

namespace Code

/-- Only blanks are dropped with the blank lines at the start. -/
theorem tokenFree_dropBlankLines (lines : List Text) :
    TokenFree (dropBlankLines lines).flatten ↔ TokenFree lines.flatten := by
  induction lines with
  | nil => exact Iff.rfl
  | cons line others inductionHypothesis =>
    rw [dropBlankLines]
    split
    next blank =>
      have separate : Separating line := fun c member =>
        separates_of_isBlank (List.all_eq_true.mp blank c member)
      rw [inductionHypothesis, List.flatten_cons, tokenFree_append_left separate]
    · exact Iff.rfl

/-- Trimming a body of code neither makes nor breaks a token. -/
theorem tokenFree_trimBody (body : Text) : TokenFree (trimBody body) ↔ TokenFree body := by
  rw [trimBody, tokenFree_trimEnd, tokenFree_dropBlankLines, Text.flatten_linesWithBreaks]

/-- What a code block shows of its body. -/
def shown (options : Options) (body : Text) : Text :=
  if options.preview then Fragment.preview options.verbatimLimit body else body

/-- A code block has the tokens of what it shows. -/
theorem tokenFree_renderBlock (options : Options) {language : Text} (lower : 'B' ∉ language)
    (body : Text) :
    TokenFree (renderBlock options language body) ↔ TokenFree (shown options body) := by
  have dots : Separating "...".toList := by decide
  have fence : Separating "\n```\n".toList := by decide
  have lineBreak : Separates '\n' := by decide
  cases preview : options.preview with
  | true =>
    rw [renderBlock, shown, if_pos preview, if_pos preview]
    simp only [tokenFree_escapeHtml]
    split
    · exact Iff.rfl
    · exact tokenFree_append_right dots
  | false =>
    have opening : TokenFree ("\n```".toList ++ language) := by
      have needed : 'B' ∈ tokenOpening := by decide
      refine TokenFree.of_not_mem needed ?_
      rw [List.mem_append, not_or]
      exact ⟨by decide, lower⟩
    have shape : renderBlock options language body =
        ("\n```".toList ++ language) ++ '\n' :: trimBody body ++ "\n```\n".toList := by
      rw [renderBlock, if_neg (by rw [preview]; exact Bool.false_ne_true)]
    rw [shape, tokenFree_append_right fence, tokenFree_append_cons lineBreak, tokenFree_trimBody,
      and_iff_right opening, shown, if_neg (by rw [preview]; exact Bool.false_ne_true)]

/-- Inline code has the tokens of the code. -/
theorem tokenFree_renderInline (code : Text) : TokenFree (renderInline code) ↔ TokenFree code := by
  have opening : Separating "<code>".toList := by decide
  have closing : Separating "</code>".toList := by decide
  have shape : renderInline code =
      "<code>".toList ++ Text.escapeHtml code ++ "</code>".toList := rfl
  rw [shape, tokenFree_append_right closing, tokenFree_append_left opening,
    tokenFree_escapeHtml]

/-- A text in lower case has no capital. -/
theorem not_mem_map_toLower (text : Text) : 'B' ∉ text.map Char.toLower := by
  intro member
  obtain ⟨c, -, lowered⟩ := List.mem_map.mp member
  rcases Text.isLower_toLower_or c with small | ⟨kept, uncapital⟩
  · rw [lowered] at small
    exact absurd small (by decide)
  · rw [← kept, lowered] at uncapital
    exact absurd uncapital (by decide)

/-- The language that options name is in lower case. -/
theorem findLanguage_lower {text language : Text} (found : findLanguage text = some language) :
    'B' ∉ language := by
  have read {text : Text} (found : readLanguage text = some language) : 'B' ∉ language := by
    simp only [readLanguage, Option.bind_eq_bind, Option.bind_eq_some_iff] at found
    obtain ⟨_, -, _, -, named⟩ := found
    split at named
    · simp at named
    · rw [← Option.some.inj named]
      exact not_mem_map_toLower _
  induction text with
  | nil => simp [findLanguage] at found
  | cons c rest inductionHypothesis =>
    rw [findLanguage, Option.orElse_eq_orElse, Option.orElse_eq_or, Option.or_eq_some_iff] at found
    rcases found with here | ⟨-, behind⟩
    · exact read here
    · exact inductionHypothesis behind

/-- The language of every kind of code is in lower case. -/
theorem language_lower : ∀ family ∈ families, ∀ arguments, 'B' ∉ family.language arguments := by
  have listing (arguments : Scan.Arguments) : 'B' ∉ listingLanguage arguments := by
    rw [listingLanguage]
    cases found : (arguments.option? 0).bind findLanguage with
    | none => simp
    | some language =>
      obtain ⟨option, -, named⟩ := Option.bind_eq_some_iff.mp found
      exact findLanguage_lower named
  have unnamed : 'B' ∉ ([] : Text) := List.not_mem_nil
  simp only [families, List.forall_mem_cons]
  exact ⟨fun _ => unnamed, fun _ => unnamed, listing, listing,
    fun _ => not_mem_map_toLower _, by simp⟩

end Code

namespace Link

/-- A link has the tokens of its label and of its target. -/
theorem tokenFree_renderLink (label target : Text) :
    TokenFree (renderLink label target) ↔ TokenFree label ∧ TokenFree target := by
  have opening : Separates '[' := by decide
  have middle : Separating "](".toList := by decide
  have closing : Separating [')'] := by decide
  have shape : renderLink label target =
      '[' :: label ++ "](".toList ++ target ++ [')'] := rfl
  rw [shape, tokenFree_append_right closing, tokenFree_around (by decide) middle,
    tokenFree_cons opening]

/-- The pieces between separators are parts of the text, and the first of them is
a front of it. -/
theorem splitOn_parts (separator : Char) (text : Text) :
    ∃ first others, Text.splitOn separator text = first :: others ∧ first <+: text ∧
      ∀ piece ∈ others, piece <:+: text := by
  induction text with
  | nil => exact ⟨[], [], rfl, List.nil_prefix, by simp⟩
  | cons c rest inductionHypothesis =>
    obtain ⟨first, others, split, front, parts⟩ := inductionHypothesis
    have later : ∀ piece ∈ others, piece <:+: c :: rest := fun piece member =>
      (parts piece member).trans (List.suffix_cons c rest).isInfix
    rw [Text.splitOn, split]
    split
    · refine ⟨[], first :: others, rfl, List.nil_prefix, ?_⟩
      rw [List.forall_mem_cons]
      exact ⟨front.isInfix.trans (List.suffix_cons c rest).isInfix, later⟩
    · exact ⟨c :: first, others, rfl, List.cons_prefix_cons.mpr ⟨rfl, front⟩, later⟩

/-- The name of a file is a part of its path. -/
theorem baseName_within (path : Text) : baseName path <:+: path := by
  obtain ⟨first, others, split, front, parts⟩ := splitOn_parts '/' path
  have last : ((Text.splitOn '/' path).getLast?).getD path <:+: path := by
    rw [split]
    cases found : (first :: others).getLast? with
    | none => exact List.infix_rfl
    | some piece =>
      rcases List.mem_cons.mp (List.mem_of_getLast? found) with rfl | member
      · exact front.isInfix
      · exact parts piece member
  exact (List.takeWhile_prefix _).isInfix.trans last

end Link

namespace Length

/-- A number in two decimal places has digits and points only. -/
theorem not_mem_twoPlaces (ratio : Ratio) : '@' ∉ Decimal.twoPlaces ratio := by
  have padded (number : Nat) : '@' ∉ '0' :: Text.ofNat number := by
    rw [List.mem_cons, not_or]
    exact ⟨by decide, not_mem_ofNat number⟩
  have places {text : Text} (absent : '@' ∉ text) :
      '@' ∉ Text.dropTrailing (· = '0') text := by
    rw [Text.dropTrailing_eq_rdropWhile]
    exact fun member => absent ((List.rdropWhile_prefix _ _).subset member)
  have joined (whole : Nat) {text : Text} (absent : '@' ∉ text) :
      '@' ∉ if text.isEmpty then Text.ofNat whole else Text.ofNat whole ++ '.' :: text := by
    split
    · exact not_mem_ofNat whole
    · rw [List.mem_append, List.mem_cons, not_or, not_or]
      exact ⟨not_mem_ofNat whole, by decide, absent⟩
  rw [Decimal.twoPlaces]
  split
  · exact joined _ (places (padded _))
  · exact joined _ (places (not_mem_ofNat _))

/-- A percentage has no at sign. -/
theorem not_mem_percentage (factor : Text) : '@' ∉ percentage factor := by
  rw [percentage]
  generalize Option.bind _ _ = percent
  cases percent with
  | none => decide
  | some ratio => exact not_mem_twoPlaces ratio

/-- The number before a length has digits and points only. -/
theorem not_mem_splitNumber (text : Text) : '@' ∉ (splitNumber text).1 := by
  have digits (text : Text) : '@' ∉ text.takeWhile Char.isDigit := fun member =>
    absurd (List.mem_takeWhile_imp member) (by decide)
  rw [splitNumber]
  split
  · rw [List.mem_append, List.mem_cons, not_or, not_or]
    exact ⟨digits _, by decide, digits _⟩
  · exact digits _

/-- A part of a page measure has no at sign. -/
theorem not_mem_relative {text length : Text} (found : relative? text = some length) :
    '@' ∉ length := by
  simp only [relative?, Option.bind_eq_bind, Option.bind_eq_some_iff, Option.some.injEq] at found
  obtain ⟨_, -, ⟨_, height⟩, -, rfl⟩ := found
  rw [List.mem_append, not_or]
  refine ⟨not_mem_percentage _, ?_⟩
  split <;> decide

/-- An absolute length has no at sign. -/
theorem not_mem_absolute {text length : Text} (found : absolute? text = some length) :
    '@' ∉ length := by
  have written : ∀ unit ∈ units, '@' ∉ unit.2 := by decide
  have joined (sign : Text) (plain : '@' ∉ sign) (unsigned : Text) (unit : Text × Text)
      (listed : unit ∈ units) : '@' ∉ sign ++ (splitNumber unsigned).1 ++ unit.2 := by
    rw [List.mem_append, List.mem_append, not_or, not_or]
    exact ⟨⟨plain, not_mem_splitNumber unsigned⟩, written unit listed⟩
  simp only [absolute?, Option.bind_eq_bind, Option.bind_eq_some_iff] at found
  obtain ⟨unit, listed, found⟩ := found
  have known := List.mem_of_find?_eq_some listed
  split at found
  next unsigned _ =>
    split at found
    · rw [← Option.some.inj found]
      exact joined ['-'] (by decide) unsigned unit known
    · simp at found
  next =>
    split at found
    · rw [← Option.some.inj found]
      exact joined [] List.not_mem_nil text unit known
    · simp at found

/-- A length as styles take it has no at sign. -/
theorem not_mem_convert (length : Text) : '@' ∉ convert length := by
  rw [convert]
  split
  · decide
  · cases found : relative? (Text.trim length) <|> absolute? (Text.trim length) with
    | none => decide
    | some converted =>
      rw [Option.orElse_eq_orElse, Option.orElse_eq_or, Option.or_eq_some_iff] at found
      rcases found with relative | ⟨-, absolute⟩
      · exact not_mem_relative relative
      · exact not_mem_absolute absolute

end Length

namespace Link

/-- An image has the tokens of its path. -/
theorem tokenFree_renderImage (path : Text) (options : Option Text) :
    TokenFree (renderImage path options) ↔ TokenFree path := by
  have named (free : TokenFree path) : TokenFree (baseName path) :=
    free.of_infix (baseName_within path)
  rw [renderImage]
  cases options.bind findWidth with
  | none =>
    have bang : Separates '!' := by decide
    rw [tokenFree_cons bang, tokenFree_renderLink, and_iff_right_iff_imp]
    exact named
  | some width =>
    have opening : Separating "<img src=\"".toList := by decide
    have alt : Separating "\" alt=\"".toList := by decide
    have style : Separating "\" style=\"width: ".toList := by decide
    have closing : Separating ";\">".toList := by decide
    have length : TokenFree (Length.convert width) := by
      exact TokenFree.of_no_at (Length.not_mem_convert width)
    rw [tokenFree_append_right closing, tokenFree_around (by decide) style,
      tokenFree_around (by decide) alt, tokenFree_append_left opening, tokenFree_escapeHtml,
      tokenFree_escapeHtml, and_iff_left length, and_iff_left_iff_imp]
    exact named

end Link

namespace Math

/-- A formula on display has the tokens of its content. -/
theorem tokenFree_displayed (content : Text) :
    TokenFree (displayed content) ↔ TokenFree content := by
  have lines : Separating "\n$$\n".toList := by decide
  have shape : displayed content = "\n$$\n".toList ++ content ++ "\n$$\n".toList := rfl
  rw [shape, tokenFree_within lines lines]

/-- An inline formula has the tokens of its content. -/
theorem tokenFree_inlined (content : Text) : TokenFree (inlined content) ↔ TokenFree content := by
  have dollars : Separating ['$'] := by decide
  have shape : inlined content = ['$'] ++ content ++ ['$'] := rfl
  rw [shape, tokenFree_within dollars dollars]

/-- The display of a formula has the tokens of its cleaned body; its number has
none. -/
theorem tokenFree_renderDisplay (preview : Bool) (tag : Option Nat) (cleaned : Text) :
    TokenFree (renderDisplay preview tag cleaned) ↔ TokenFree cleaned := by
  cases preview with
  | true => exact (tokenFree_inlined _).trans (tokenFree_collapseBlanks cleaned)
  | false =>
    cases tag with
    | none => exact (tokenFree_displayed _).trans (tokenFree_trim cleaned)
    | some number =>
      have tag : Separating " \\tag".toList := by decide
      have opening : Separates '{' := by decide
      have closing : Separating ['}'] := by decide
      have shape : renderDisplay false (some number) cleaned = displayed
          (Text.trim cleaned ++ " \\tag".toList ++ '{' :: Text.ofNat number ++ ['}']) := rfl
      rw [shape, tokenFree_displayed, tokenFree_append_right closing,
        tokenFree_append_cons opening, and_iff_left (TokenFree.ofNat number),
        tokenFree_append_right tag, tokenFree_trim]

/-- An inline formula has the tokens of its cleaned body. -/
theorem tokenFree_renderInline (colors : ColorTable) (body : Text) :
    TokenFree (renderInline colors body) ↔ TokenFree (clean colors body) := by
  rw [renderInline, tokenFree_inlined, tokenFree_trim]

/-- A command without at signs has no token. -/
theorem tokenFree_command {name : String} {argument : Text} (plain : '@' ∉ name.toList)
    (absent : '@' ∉ argument) : TokenFree (command name [argument]) := by
  refine TokenFree.of_no_at ?_
  rw [command, List.flatMap_singleton]
  simp [plain, absent]

/-- Rows on display, in an environment whose name has no at sign, have their own
tokens. -/
theorem tokenFree_renderGroup {name : String} (plain : '@' ∉ name.toList) (rows : Text) :
    TokenFree (renderGroup name rows) ↔ TokenFree rows := by
  have lineBreak : Separates '\n' := by decide
  have opening : TokenFree (command "begin" [name.toList]) := tokenFree_command (by decide) plain
  have closing : TokenFree (command "end" [name.toList]) := tokenFree_command (by decide) plain
  rw [renderGroup, tokenFree_displayed, tokenFree_append_cons lineBreak,
    tokenFree_append_cons lineBreak, and_iff_right opening, and_iff_left closing, tokenFree_trim]

/-- The rows of a group as they are written. -/
def Family.rows (family : Family) (colors : ColorTable) (body : Text) : Text :=
  let rows := Scan.substitute readNoNumber (clean colors body)
  if family.hasRelationColumn then collapseColumns rows else rows

/-- The texts that the formula of an environment takes over from its body. -/
def Family.taken (family : Family) (colors : ColorTable) (preview : Bool) (body : Text) :
    List Text :=
  match family.form with
  | .display => [clean colors body]
  | .group _ => if preview then [] else [family.rows colors body]

/-- The formula of an environment has the tokens of what it takes over. -/
theorem Family.tokenFree_render {family : Family} (listed : family ∈ families)
    (colors : ColorTable) (labels : LabelRegistry) (preview : Bool) (body : Text) :
    TokenFree (family.render colors labels preview body) ↔
      ∀ text ∈ family.taken colors preview body, TokenFree text := by
  have names : ∀ family ∈ families, (match family.form with
      | .display => true
      | .group name => decide ('@' ∉ name.toList)) = true := by decide
  rw [Family.render, Family.taken]
  cases form : family.form with
  | display =>
    simp only [List.forall_mem_singleton]
    exact tokenFree_renderDisplay _ _ _
  | group name =>
    have plain : '@' ∉ name.toList := by
      have named := names family listed
      rw [form] at named
      exact of_decide_eq_true named
    cases preview with
    | true =>
      have free : TokenFree groupPreview := TokenFree.of_no_at (by decide)
      exact free.iff_nothing
    | false =>
      simp only [Bool.false_eq_true, if_false, List.forall_mem_singleton]
      exact tokenFree_renderGroup plain _

end Math

namespace Table

/-- The rows of an array as they are written. -/
def writtenRows (colors : ColorTable) (body : Text) : Text :=
  let rows := ((splitRows body).map cleanArrayRow).filter fun row => !Text.isBlankText row
  let rows := rows.map fun row =>
    Text.joinWith " & ".toList ((splitCells row).map Text.trim)
  Math.clean colors (Text.joinWith " \\\\\n".toList rows)

/-- An array has the tokens of its specification and of its rows. -/
theorem tokenFree_renderArray (colors : ColorTable) (specification body : Text) :
    TokenFree (renderArray colors specification body) ↔
      TokenFree specification ∧ TokenFree (writtenRows colors body) := by
  have opening : TokenFree (Scan.beginMarker "array".toList) := TokenFree.of_no_at (by decide)
  have closing : TokenFree (Scan.endMarker "array".toList) := TokenFree.of_no_at (by decide)
  have lineBreak : Separates '\n' := by decide
  have brace : Separates '{' := by decide
  have closingBrace : Separates '}' := by decide
  have shape : renderArray colors specification body =
      Math.displayed (Scan.beginMarker "array".toList ++ '{' :: Text.trim specification ++
        '}' :: '\n' :: writtenRows colors body ++ '\n' :: Scan.endMarker "array".toList) := rfl
  rw [shape, Math.tokenFree_displayed, tokenFree_append_cons lineBreak, and_iff_left closing,
    tokenFree_append_cons closingBrace, tokenFree_append_cons brace, and_iff_right opening,
    tokenFree_cons lineBreak, tokenFree_trim]

end Table

end LatexMarkdown
