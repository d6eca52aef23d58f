import LatexMarkdown.Proofs.Conversion
import LatexMarkdown.Proofs.ListReading
import LatexMarkdown.Proofs.NestedTheorem
import LatexMarkdown.Proofs.TokenSequence

/-!
# The fragments in theorem-like environments

An environment is written around its body: a heading before it, its lines in italics, the
sign that ends a proof behind it. The tokens of the body come through all this in their order,
each once. What can be lost or moved is only what stands in the arguments of an opening marker.
-/

namespace LatexMarkdown

namespace Scan

open Fragment

/-- Groups without tokens spell none. -/
theorem SpellsGroups.spelled_append {opening closing : Char} {groups : List Text} {piece : Text}
    (spells : SpellsGroups opening closing groups piece)
    (separate : Separates opening ∧ Separates closing) (free : ∀ group ∈ groups, TokenFree group)
    (after : Text) : spelled (piece ++ after) = spelled after := by
  induction spells with
  | none => rfl
  | @cons gap inner behind others gapped _ inductionHypothesis =>
    obtain ⟨here, later⟩ := List.forall_mem_cons.mp free
    have blanks : Separating gap :=
      fun c member => separates_of_isBlank (Text.isBlank_of_isGap (gapped c member))
    have split : gap ++ (opening :: (inner ++ [closing]) ++ behind) ++ after =
        gap ++ opening :: (inner ++ closing :: (behind ++ after)) := by simp
    rw [split, spelled_append_left blanks, spelled_cons separate.1,
      spelled_append_cons separate.2, spelled_of_tokenFree here, inductionHypothesis later,
      List.nil_append]

end Scan

namespace Block

open Fragment Scan

/-! ## What is written around a body -/

/-- The tag that opens the element of an environment. -/
def openingTag (style : Theorem) : Text :=
  "<div class=\"latex-env latex-env-".toList ++ style.name ++
    "\" style=\"border-left: 4px solid ".toList ++ style.color ++ "; padding-left: 12px;\">".toList

/-- The body of an environment in its style, behind the heading. -/
def renderedContent (style : Theorem) (store : FragmentStore) (title : Option Text)
    (body : Text) : Text :=
  withHeading store (style.heading title) (style.content store (Text.trim body))

/-- A paragraph stands in lines of its own. -/
theorem paragraph_append (content after : Text) : Html.paragraph content ++ after =
    '\n' :: '\n' :: (content ++ '\n' :: '\n' :: after) := by
  have breaks : Html.paragraph content = '\n' :: '\n' :: (content ++ ['\n', '\n']) := rfl
  rw [breaks]
  simp

/-- Outside a preview an environment is written as an element in lines of their own. -/
theorem render_eq {options : Options} (shown : options.preview = false) (style : Theorem)
    (store : FragmentStore) (title : Option Text) (body : Text) :
    style.render options store title body = Html.paragraph (openingTag style ++
      Html.paragraph (renderedContent style store title body) ++ "</div>".toList) := by
  rw [Theorem.render, shown]
  rfl

/-- A style that writes no token of its own. -/
structure IsPlainStyle (style : Theorem) : Prop where
  name : '@' ∉ style.name
  color : '@' ∉ style.color
  label : TokenFree style.label

theorem not_mem_paletteColor (name : String) : '@' ∉ paletteColor name := by
  have palette : ∀ entry ∈ Color.palette, '@' ∉ entry.2 := by decide +kernel
  rw [paletteColor]
  cases found : KeyedList.find? Color.palette name.toList with
  | none => decide
  | some value => exact palette _ (KeyedList.mem_of_find? found)

/-- The styles of all environments are plain where the labels of the declared ones are. -/
theorem isPlainStyle_of_findTheorem? {defined : KeyedList Text}
    (labels : ∀ entry ∈ defined, TokenFree entry.2) {name : Text} (plain : '@' ∉ name)
    {style : Theorem} (known : findTheorem? defined name = some style) : IsPlainStyle style := by
  have base : '@' ∉ Text.dropTrailing (· = '*') name := by
    rw [Text.dropTrailing_eq_rdropWhile]
    exact fun member => plain ((List.rdropWhile_prefix _ _).subset member)
  have aliases : ∀ entry ∈ theoremAliases, '@' ∉ entry.2 := by decide
  have styles : ∀ entry ∈ theoremStyles, '@' ∉ entry.2.label.toList := by decide +kernel
  simp only [findTheorem?] at known
  split at known
  next built found =>
    obtain rfl := Option.some.inj known
    refine ⟨?_, not_mem_paletteColor _, .of_no_at (styles _ (KeyedList.mem_of_find? found))⟩
    cases short : KeyedList.find? theoremAliases (Text.dropTrailing (· = '*') name) with
    | none => exact base
    | some canonical => exact aliases _ (KeyedList.mem_of_find? short)
  next =>
    obtain ⟨label, found, rfl⟩ := Option.map_eq_some_iff.mp known
    exact ⟨base, not_mem_paletteColor "blue", labels _ (KeyedList.mem_of_find? found)⟩

/-- Only the bibliography takes a braced argument. -/
theorem base_of_bibliography {defined : KeyedList Text} {name : Text} {style : Theorem}
    (known : findTheorem? defined name = some style)
    (bibliography : style.name = "thebibliography".toList) :
    Text.dropTrailing (· = '*') name = "thebibliography".toList := by
  have aliases : ∀ entry ∈ theoremAliases, entry.2 ≠ "thebibliography".toList := by decide
  simp only [findTheorem?] at known
  split at known
  next built found =>
    obtain rfl := Option.some.inj known
    dsimp only at bibliography
    cases short : KeyedList.find? theoremAliases (Text.dropTrailing (· = '*') name) with
    | none => rwa [short] at bibliography
    | some canonical =>
      rw [short] at bibliography
      exact absurd bibliography (aliases _ (KeyedList.mem_of_find? short))
  next =>
    obtain ⟨label, -, rfl⟩ := Option.map_eq_some_iff.mp known
    exact bibliography

/-- The tag of a plain style has no tokens. -/
theorem openingTag_tokenFree {style : Theorem} (plain : IsPlainStyle style) :
    TokenFree (openingTag style) := by
  have front : '@' ∉ "<div class=\"latex-env latex-env-".toList := by decide
  have middle : '@' ∉ "\" style=\"border-left: 4px solid ".toList := by decide
  have behind : '@' ∉ "; padding-left: 12px;\">".toList := by decide
  exact .of_no_at (List.not_mem_append (List.not_mem_append (List.not_mem_append
    (List.not_mem_append front plain.name) middle) plain.color) behind)

variable {style : Theorem} {store : FragmentStore} {title : Option Text}

/-- A heading without tokens ends its own bold face. -/
theorem heading_tokenFree (plain : IsPlainStyle style)
    (titled : ∀ text, title = some text → TokenFree text) :
    TokenFree (style.heading title) ∧
      (style.heading title ≠ [] → ".**".toList <:+ style.heading title) := by
  rw [Theorem.heading]
  split
  · exact ⟨.nil, fun nonempty => absurd rfl nonempty⟩
  split
  next c others written =>
    obtain ⟨text, rfl, trimmed⟩ := Option.map_eq_some_iff.mp written
    have free : TokenFree (c :: others) := by
      rw [← trimmed, tokenFree_trim]
      exact titled text rfl
    refine ⟨?_, fun _ => List.suffix_append_of_suffix ⟨[')'], rfl⟩⟩
    rw [tokenFree_append_right (by decide), List.append_assoc, List.append_assoc,
      tokenFree_append_left (by decide), ← List.append_assoc, tokenFree_around (by decide)
        (by decide)]
    exact ⟨plain.label, free⟩
  · refine ⟨?_, fun _ => List.suffix_append _ _⟩
    rw [tokenFree_within (by decide) (by decide)]
    exact plain.label

/-! ## The tokens of a body -/

/-- The marker of a list item ends with a space. -/
theorem splitListLine_eq_some {line marker item : Text}
    (read : splitListLine line = some (marker, item)) :
    ∃ front, marker = front ++ [' '] ∧ line = front ++ ' ' :: item := by
  rw [splitListLine, Option.map_eq_some_iff] at read
  obtain ⟨⟨sign, rest⟩, found, same⟩ := read
  obtain ⟨rfl, rfl⟩ := Prod.mk.inj same
  suffices split : ∃ front, sign = front ++ [' '] ∧ Text.trimStart line = front ++ ' ' :: rest by
    obtain ⟨front, rfl, trimmed⟩ := split
    refine ⟨line.takeWhile Text.isBlank ++ front, (List.append_assoc ..).symm, ?_⟩
    rw [List.append_assoc, ← trimmed, Text.trimStart, List.takeWhile_append_dropWhile]
  generalize Text.trimStart line = text at found
  simp only [Option.orElse_eq_orElse, Option.orElse_eq_or, Option.or_eq_some_iff] at found
  rcases found with bold | ⟨-, bullet | ⟨-, number⟩⟩
  · simp only [readBoldLabel, Option.bind_eq_bind, Option.bind_eq_some_iff, Option.some.injEq,
      Prod.mk.injEq] at bold
    obtain ⟨after, opened, behind, closed, rfl, rfl⟩ := bold
    refine ⟨"- **".toList ++ after.takeWhile (· ≠ '*') ++ "**".toList, by simp, ?_⟩
    have label := List.takeWhile_append_dropWhile (p := (· ≠ '*')) (l := after)
    rw [Text.dropFront?_eq_some_iff.mp closed] at label
    rw [Text.dropFront?_eq_some_iff.mp opened]
    conv_lhs => rw [← label]
    simp
  · obtain ⟨behind, opened, same⟩ := Option.map_eq_some_iff.mp bullet
    obtain ⟨rfl, rfl⟩ := Prod.mk.inj same
    have split : text = "- ".toList ++ behind := Text.dropFront?_eq_some_iff.mp opened
    exact ⟨['-'], rfl, split⟩
  · simp only [readItemNumber, Option.bind_eq_bind, Option.bind_eq_some_iff] at number
    obtain ⟨behind, closed, written⟩ := number
    split at written
    · cases written
    · obtain ⟨rfl, rfl⟩ := Prod.mk.inj (Option.some.inj written)
      refine ⟨text.takeWhile Text.isDecimal ++ ['.'], by simp, ?_⟩
      have digits := List.takeWhile_append_dropWhile (p := Text.isDecimal) (l := text)
      rw [Text.dropFront?_eq_some_iff.mp closed] at digits
      conv_lhs => rw [← digits]
      simp

@[simp] theorem spelled_emphasized (text : Text) : spelled (emphasized text) = spelled text := by
  rw [emphasized, List.cons_append, spelled_cons (by decide),
    spelled_append_right text (by decide)]

/-- A line keeps its tokens in italics. -/
@[simp] theorem spelled_italicizeLine (line : Text) :
    spelled (italicizeLine store line) = spelled line := by
  rw [italicizeLine]
  split
  · rfl
  split
  next marker item read =>
    split
    · rfl
    · obtain ⟨front, rfl, rfl⟩ := splitListLine_eq_some read
      rw [List.append_assoc, List.singleton_append, spelled_append_cons (by decide),
        spelled_append_cons (by decide), spelled_emphasized, spelled_trim]
  · rw [spelled_emphasized, spelled_trim]

/-- A body keeps its tokens in italics. -/
@[simp] theorem spelled_italicize (body : Text) :
    spelled (italicize store body) = spelled body := by
  have lines : (Text.lines body).map (spelled ∘ italicizeLine store) =
      (Text.lines body).map spelled :=
    List.map_congr_left fun line _ => spelled_italicizeLine line
  rw [italicize, spelled_joinWith, List.map_map, lines, flatten_spelled_lines]

@[simp] theorem spelled_content (body : Text) :
    spelled (style.content store body) = spelled body := by
  have styled : spelled (if style.italic then italicize store body else body) = spelled body := by
    split
    · exact spelled_italicize body
    · rfl
  simp only [Theorem.content]
  split
  · rw [spelled_append_right _ (by decide), spelled_trimEnd, styled]
  · exact styled

/-- A paragraph holds the tokens of its content. -/
theorem spelled_paragraph (before content after : Text) :
    spelled (before ++ (Html.paragraph content ++ after)) =
      spelled before ++ (spelled content ++ spelled after) := by
  have separates : Separates '\n' := by decide
  rw [paragraph_append, spelled_append_cons separates, spelled_cons separates,
    spelled_append_cons separates, spelled_cons separates]

theorem spelled_withHeading {heading : Text} (free : TokenFree heading) (content : Text) :
    spelled (withHeading store heading content) = spelled content := by
  have nothing := spelled_of_tokenFree free
  rw [withHeading]
  split
  · rfl
  split
  next empty =>
    rw [nothing, List.isEmpty_iff.mp empty]
    rfl
  split
  · have breaks : "\n\n".toList ++ content = '\n' :: '\n' :: content := rfl
    rw [List.append_assoc, breaks, spelled_append_cons (by decide), spelled_cons (by decide),
      nothing, List.nil_append]
  · rw [spelled_append_cons (by decide), nothing, List.nil_append]

/-- An element holds the tokens of its body and no others. -/
theorem spelled_render {options : Options} (shown : options.preview = false)
    (plain : IsPlainStyle style) (titled : ∀ text, title = some text → TokenFree text)
    (before body after : Text) :
    spelled (before ++ (style.render options store title body ++ after)) =
      spelled before ++ (spelled body ++ spelled after) := by
  have closing : spelled "</div>".toList = [] := spelled_of_tokenFree (.of_no_at (by decide))
  rw [render_eq shown, spelled_paragraph, List.append_assoc (openingTag style), spelled_paragraph,
    spelled_of_tokenFree (openingTag_tokenFree plain), closing, renderedContent,
    spelled_withHeading (heading_tokenFree plain titled).1, spelled_content, spelled_trim,
    List.nil_append, List.append_nil]

/-! ## What is read with an opening marker -/

/-- The texts in the arguments of the opening marker at the start of a text: what stands in
the brackets behind the marker and, for a bibliography, what stands in its braces. -/
def openingArguments (text : Text) : List Text :=
  match readOpeningName text with
  | none => []
  | some name =>
    let after := text.drop (beginMarker name).length
    let options := (readBracketed (Text.skipGap after)).toList.map Prod.fst
    if Text.dropTrailing (· = '*') name = "thebibliography".toList then
      options ++ (readArguments ⟨false, 1, 1⟩ after).toList.flatMap fun read => read.1.required
    else options

/-- The arguments of no opening marker hold a token. A marker that is escaped opens nothing. -/
def OpenersFree (text : Text) : Prop :=
  Everywhere (fun suffix => ∀ argument ∈ openingArguments suffix, TokenFree argument) false text

/-- A name that is read in an opening marker is spelled there with letters and stars. -/
theorem readOpeningName_eq_some {text name : Text} (read : readOpeningName text = some name) :
    (∀ c ∈ name, c.isAlpha = true ∨ c = '*') ∧ ∃ after, text = beginMarker name ++ after := by
  simp only [readOpeningName, Option.bind_eq_bind, Option.bind_eq_some_iff] at read
  obtain ⟨opened, start, found⟩ := read
  have parts := List.takeWhile_append_dropWhile (p := Char.isAlpha) (l := opened)
  have letters : ∀ c ∈ opened.takeWhile Char.isAlpha, c.isAlpha = true :=
    fun c => List.mem_takeWhile_imp
  generalize opened.takeWhile Char.isAlpha = word at parts letters found
  generalize opened.dropWhile Char.isAlpha = others at parts found
  rw [Text.dropFront?_eq_some_iff.mp start, ← parts]
  split at found
  · cases found
  split at found
  next after =>
    obtain rfl := Option.some.inj found
    exact ⟨fun c member => .inl (letters c member), after, by simp [beginMarker_eq]⟩
  next after =>
    obtain rfl := Option.some.inj found
    refine ⟨fun c member => ?_, after, by simp [beginMarker_eq]⟩
    exact (List.mem_append.mp member).imp (letters c) List.mem_singleton.mp
  · cases found

theorem not_mem_of_readOpeningName {text name : Text} {sign : Char}
    (read : readOpeningName text = some name) (other : sign.isAlpha = false ∧ sign ≠ '*') :
    sign ∉ name := by
  intro member
  rcases (readOpeningName_eq_some read).1 sign member with letter | star
  · rw [other.1] at letter
    cases letter
  · exact other.2 star

/-- What follows an opening marker does not matter to the reader of its name. -/
theorem readOpeningName_append {text name : Text} (read : readOpeningName text = some name)
    (behind : Text) : readOpeningName (text ++ behind) = some name := by
  have unclosed : '}' ∉ name := not_mem_of_readOpeningName read (by decide)
  obtain ⟨after, rfl⟩ := (readOpeningName_eq_some read).2
  rw [readOpeningName_beginMarker unclosed] at read
  rw [List.append_assoc, readOpeningName_beginMarker unclosed, read]

/-- What is read with an opening marker is read whatever follows. -/
theorem openingArguments_append (text behind : Text) :
    openingArguments text ⊆ openingArguments (text ++ behind) := by
  cases read : readOpeningName text with
  | none =>
    rw [openingArguments, read]
    exact List.nil_subset _
  | some name =>
    obtain ⟨after, rfl⟩ := (readOpeningName_eq_some read).2
    have options : (readBracketed (Text.skipGap after)).toList.map Prod.fst ⊆
        (readBracketed (Text.skipGap (after ++ behind))).toList.map Prod.fst := by
      cases bracketed : readBracketed (Text.skipGap after) with
      | none => exact List.nil_subset _
      | some option =>
        have ends : Text.skipGap after ≠ [] := by
          intro empty
          rw [empty] at bracketed
          cases bracketed
        rw [skipGap_append ends, readBracketed_append bracketed]
        exact List.Subset.refl _
    have required : ((readArguments ⟨false, 1, 1⟩ after).toList.flatMap fun read =>
        read.1.required) ⊆ (readArguments ⟨false, 1, 1⟩ (after ++ behind)).toList.flatMap
          fun read => read.1.required := by
      cases given : readArguments ⟨false, 1, 1⟩ after with
      | none => exact List.nil_subset _
      | some arguments =>
        rw [readArguments_append (.inr Nat.one_ne_zero) given]
        exact List.Subset.refl _
    have later := readOpeningName_append read behind
    rw [List.append_assoc] at later ⊢
    simp only [openingArguments, read, later, List.drop_left]
    split
    · exact List.append_subset.mpr ⟨List.subset_append_of_subset_left _ options,
        List.subset_append_of_subset_right _ required⟩
    · exact options

section Environment

variable {defined : KeyedList Text} {name matched rest : Text} {cursor : Cursor}
  {found : Environment} (opens : readOpeningName (matched ++ rest) = some name)
  (known : findTheorem? defined name = some style)
  (isEnvironment : IsEnvironment name 1 (argumentCount style) cursor matched rest found)

include opens known isEnvironment

/-- All arguments of an environment are arguments of its opening marker. -/
theorem arguments_subset :
    found.arguments.options ++ found.arguments.required ⊆ openingArguments (matched ++ rest) := by
  obtain ⟨piece, split, spells⟩ := isEnvironment.spelled
  have whole : matched ++ rest =
      beginMarker name ++ (piece ++ (found.body ++ (endMarker name ++ rest))) := by
    rw [split]
    simp
  have read := spells.read
  simp only [openingArguments, opens]
  rw [whole, List.drop_left]
  generalize piece ++ (found.body ++ (endMarker name ++ rest)) = after at read
  have options : found.arguments.options ⊆
      (readBracketed (Text.skipGap after)).toList.map Prod.fst := by
    obtain ⟨unstarred, middle, given, -⟩ := readArguments_iff.mp read
    rw [unstarred, Bool.false_and, if_neg Bool.false_ne_true] at given
    rcases readOptions_succ_iff.mp given with ⟨-, inner, behind, others, opened, last, same⟩ |
      ⟨-, none, -⟩
    · obtain ⟨rfl, -⟩ := Prod.mk.inj (Option.some.inj last)
      rw [same, opened]
      exact List.Subset.refl _
    · rw [none]
      exact List.nil_subset _
  by_cases bibliography : style.name = "thebibliography".toList
  · rw [argumentCount, if_pos bibliography] at read
    rw [if_pos (base_of_bibliography known bibliography), read]
    exact List.append_subset.mpr ⟨List.subset_append_of_subset_left _ options,
      List.subset_append_of_subset_right _ (by simp)⟩
  · have bare : found.arguments.required = [] := by
      rw [argumentCount, if_neg bibliography] at read
      obtain ⟨-, middle, -, none⟩ := readArguments_iff.mp read
      exact (Prod.mk.inj (Option.some.inj none)).1.symm
    rw [bare, List.append_nil]
    split
    · exact List.subset_append_of_subset_left _ options
    · exact options

/-- Where no opening marker has a token in its arguments, so it is with the marker of an
environment, in the body, and in what follows. -/
theorem OpenersFree.parts {before : Text} (openers : OpenersFree (before ++ (matched ++ rest)))
    (free : escapesAfter false before = false) :
    (∀ argument ∈ found.arguments.options ++ found.arguments.required, TokenFree argument) ∧
      OpenersFree found.body ∧ OpenersFree rest := by
  obtain ⟨options, required, spellsOptions, spellsRequired, split⟩ := isEnvironment.exists_groups
  have nonempty : matched ++ rest ≠ [] := by
    rw [split, List.append_assoc]
    exact List.append_ne_nil_of_left_ne_nil (beginMarker_ne_nil name) _
  have opening : escapesAfter false (before ++ (beginMarker name ++ (options ++ required))) =
      false := by
    rw [escapesAfter_append, escapesAfter_append, escapesAfter_beginMarker, escapesAfter_append,
      spellsOptions.escapesAfter_eq (by decide), spellsRequired.escapesAfter_eq (by decide)]
  have closing : escapesAfter false (before ++ matched) = false := by
    rw [split]
    simp only [escapesAfter_append, escapesAfter_endMarker]
  refine ⟨fun argument member => ?_, ?_, ?_⟩
  · exact openers.behind free nonempty argument (arguments_subset opens known isEnvironment member)
  · have whole : before ++ (matched ++ rest) =
        before ++ (beginMarker name ++ (options ++ required)) ++
          (found.body ++ (endMarker name ++ rest)) := by
      rw [split]
      simp
    rw [OpenersFree, whole, everywhere_append, opening] at openers
    exact (everywhere_append.mp openers.2).1.imp fun suffix _ _ all argument member =>
      all argument (openingArguments_append suffix _ member)
  · rw [OpenersFree, ← List.append_assoc, everywhere_append, closing] at openers
    exact openers.2

omit known in
/-- Of an environment whose arguments hold no tokens, the tokens are those of the body. -/
theorem spelled_environment (free : ∀ argument ∈ found.arguments.options ++
    found.arguments.required, TokenFree argument) (before : Text) :
    spelled (before ++ (matched ++ rest)) =
      spelled before ++ (spelled found.body ++ spelled rest) := by
  obtain ⟨options, required, spellsOptions, spellsRequired, rfl⟩ := isEnvironment.exists_groups
  have unmarked : '@' ∉ name := not_mem_of_readOpeningName opens (by decide)
  have begins : TokenFree ("begin".toList ++ '{' :: name) := .of_no_at (by simp [unmarked])
  have ends : TokenFree ("end".toList ++ '{' :: name) := .of_no_at (by simp [unmarked])
  obtain ⟨freeOptions, freeRequired⟩ := List.forall_mem_append.mp free
  have marker (word front behind : Text) (free : TokenFree (word ++ '{' :: name)) :
      spelled (front ++ '\\' :: (word ++ '{' :: name ++ '}' :: behind)) =
        spelled front ++ spelled behind := by
    rw [spelled_append_cons (by decide), spelled_append_cons (by decide),
      spelled_of_tokenFree free, List.nil_append]
  have split : before ++ (beginMarker name ++ (options ++ (required ++ (found.body ++
      endMarker name))) ++ rest) = before ++ '\\' :: ("begin".toList ++ '{' :: name ++ '}' ::
        (options ++ (required ++ (found.body ++ '\\' :: ("end".toList ++ '{' :: name ++
          '}' :: rest))))) := by
    simp [beginMarker_eq, endMarker_eq]
  rw [split, marker _ _ _ begins, spellsOptions.spelled_append (by decide) freeOptions,
    spellsRequired.spelled_append (by decide) freeRequired, marker _ _ _ ends]

end Environment

/-- A conversion keeps the tokens of a text in their order. -/
theorem Converted.spelled_eq {context : TheoremContext} {text output : Text}
    (converted : Converted context text output) (shown : context.options.preview = false)
    (labels : ∀ entry ∈ context.defined, TokenFree entry.2) (openers : OpenersFree text) :
    spelled output = spelled text := by
  induction converted with
  | kept => rfl
  | @environment before matched rest name inner written style cursor found free opens known
      isEnvironment body more bodyHypothesis moreHypothesis =>
    obtain ⟨arguments, inside, behind⟩ := openers.parts opens known isEnvironment free
    have plain : IsPlainStyle style :=
      isPlainStyle_of_findTheorem? labels (not_mem_of_readOpeningName opens (by decide)) known
    have titled : ∀ title, found.arguments.option? 0 = some title → TokenFree title :=
      fun title given => arguments title
        (List.mem_append_left _ (List.mem_of_getElem? given))
    rw [spelled_render shown plain titled, spelled_environment opens isEnvironment arguments,
      bodyHypothesis inside, moreHypothesis behind]

end Block

end LatexMarkdown
