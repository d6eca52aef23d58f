import LatexMarkdown.Proofs.CodeBlock
import LatexMarkdown.Proofs.Turning

/-!
# Environments that a document declares

Declaring an environment and converting it are read by different readers. A
declaration takes any name without a closing brace, and its label ends at the first
closing brace. The conversion sees only names of letters. Where a name has another
character, its environment is declared and still reported as unknown.
-/

namespace LatexMarkdown

open Scan

/-- Where neither a blank nor an option stands, no option is passed over. -/
theorem Scan.skipLineOption_of_head? {text : Text}
    (start : ∀ c, text.head? = some c → Text.isBlank c = false ∧ c ≠ '[') :
    skipLineOption text = text := by
  cases text with
  | nil => rfl
  | cons c inside =>
    obtain ⟨visible, other⟩ := start c rfl
    have unspaced : Text.isSpaceOrTab c = false := Text.isSpaceOrTab_of_visible visible
    have shown : (c :: inside).dropWhile Text.isSpaceOrTab = c :: inside :=
      List.dropWhile_cons_of_neg (by rw [unspaced]; exact Bool.false_ne_true)
    rw [skipLineOption, readLineOption, shown, readEnclosedInLine, readEnclosed, if_neg other]
    rfl

/-! ## Declarations -/

namespace Preamble

/-- The declaration of an environment. -/
def declaration (name label : Text) : Text :=
  use "newtheorem".toList name ++ '{' :: (label ++ ['}'])

/-- What a declaration comes to when it is read: the name, and the label up to its
first closing brace. -/
theorem readTheorem_declaration {name before : Text} (closed : '}' ∉ name)
    (unclosed : '}' ∉ before) (after : Text) :
    readTheorem (use "newtheorem".toList name ++ '{' :: (before ++ '}' :: after)) =
      some (⟨Text.trim name, Text.trim before⟩, skipEnclosed '[' ']' after) := by
  have named : Text.dropFront? "\\newtheorem".toList
      (use "newtheorem".toList name ++ '{' :: (before ++ '}' :: after)) =
        some ('{' :: (name ++ '}' :: '{' :: (before ++ '}' :: after))) := by
    rw [use_append]
    exact Text.dropFront?_append "\\newtheorem".toList _
  have unstarred (text : Text) : Text.dropFront? ['*'] ('{' :: text) = none := rfl
  have unsorted (text : Text) : skipEnclosed '[' ']' ('{' :: text) = '{' :: text := by
    refine skipEnclosed_of_head? fun c head => ?_
    obtain rfl : '{' = c := Option.some.inj head
    exact ⟨by decide, by decide⟩
  simp only [readTheorem, named, Option.bind_eq_bind, Option.bind_some, unstarred, Option.getD_none,
    Text.trimStart_brace, readEnclosed_append '{' closed, unsorted, readEnclosed_append '{' unclosed]

section Declared

variable {name label rest : Text} (closed : '}' ∉ name)
  (trimmed : Text.trim name = name ∧ Text.trim label = label)

include closed trimmed

/-- A declaration is read as it is written exactly when its label has no closing
brace. -/
theorem readTheorem_eq_iff (ends : ∀ c, rest.head? = some c → Text.isBlank c = false ∧ c ≠ '[') :
    readTheorem (declaration name label ++ rest) = some (⟨name, label⟩, rest) ↔ '}' ∉ label := by
  have spelled : declaration name label ++ rest =
      use "newtheorem".toList name ++ '{' :: (label ++ '}' :: rest) := by
    rw [declaration, List.append_assoc, List.cons_append, List.append_assoc, List.singleton_append]
  rw [spelled]
  constructor
  · intro read member
    obtain ⟨before, behind, rfl, unclosed⟩ := List.eq_append_cons_of_mem member
    rw [List.append_assoc, List.cons_append, readTheorem_declaration closed unclosed,
      Option.some.injEq, Prod.mk.injEq, TheoremDefinition.mk.injEq] at read
    have inside : '}' ∈ Text.trim before := by
      rw [read.1.2]
      exact member
    exact unclosed (( Text.trim_infix before).subset inside)
  · intro unclosed
    rw [readTheorem_declaration closed unclosed, trimmed.1, trimmed.2, skipEnclosed_of_head? ends]

/-- The declaration goes away, its name is known from then on, and the rest of the text
is looked through for further ones. -/
theorem captureTheorems_declaration
    (ends : ∀ c, rest.head? = some c → Text.isBlank c = false ∧ c ≠ '[')
    (unclosed : '}' ∉ label) (defined : KeyedList Text) :
    captureTheorems defined (declaration name label ++ rest) =
      captureTheorems (KeyedList.put defined name label) rest := by
  have read := (readTheorem_eq_iff closed trimmed ends).mpr unclosed
  have nonempty : declaration name label ≠ [] := List.cons_ne_nil _ _
  rw [captureTheorems, edit, editFrom_replace nonempty (by rw [read]), List.nil_append]
  exact editFrom_moveTo (fun _ _ _ _ => rfl) _ _ _ 0 rest

end Declared

end Preamble

/-! ## Names and bodies -/

namespace Block

/-- A name that a document may give to an environment of its own. -/
structure IsDeclarable (name : Text) : Prop where
  nonempty : name ≠ []
  bare : ∀ c ∈ name, Text.isBlank c = false ∧ c ∉ ['{', '}', '\\', '*']
  unstyled : KeyedList.find? theoremStyles name = none
  unaliased : KeyedList.find? theoremAliases name = none

/-- A label that is set as it is declared. -/
structure IsLabel (label : Text) : Prop where
  nonempty : label ≠ []
  trimmed : Text.trim label = label

/-- A body in one word, without any sign that is looked for in it. -/
def IsWord (body : Text) : Prop :=
  ∀ c ∈ body, Text.isBlank c = false ∧ c ∉ ['\\', '{', '}', '[', '<', '#', '@']

instance (body : Text) : Decidable (IsWord body) :=
  List.decidableBAll (fun c => Text.isBlank c = false ∧ c ∉ ['\\', '{', '}', '[', '<', '#', '@'])
    body

theorem IsDeclarable.not_mem {name : Text} (declarable : IsDeclarable name) {sign : Char}
    (listed : sign ∈ ['{', '}', '\\', '*']) : sign ∉ name :=
  fun member => (declarable.bare sign member).2 listed

theorem IsDeclarable.trim_eq {name : Text} (declarable : IsDeclarable name) :
    Text.trim name = name :=
  Text.trim_of_visible (fun c head => (declarable.bare c (List.mem_of_head? head)).1)
    fun c last => (declarable.bare c (List.mem_of_getLast? last)).1

theorem IsWord.not_mem {body : Text} (word : IsWord body) {sign : Char}
    (listed : sign ∈ ['\\', '{', '}', '[', '<', '#', '@']) : sign ∉ body :=
  fun member => (word sign member).2 listed

theorem IsWord.not_mem_blank {body : Text} (word : IsWord body) {c : Char}
    (blank : Text.isBlank c = true) : c ∉ body := by
  intro member
  rw [(word c member).1] at blank
  exact Bool.false_ne_true blank

theorem IsWord.isSealed {body : Text} (word : IsWord body) : IsSealed body :=
  ⟨Text.not_infix_of_not_mem (word.not_mem (by decide)),
    Text.not_infix_of_not_mem (word.not_mem (by decide))⟩

/-- A declared name is found under the label of its declaration. -/
theorem IsDeclarable.findTheorem?_eq {name label : Text} (declarable : IsDeclarable name)
    {defined : KeyedList Text} (known : KeyedList.find? defined name = some label) :
    findTheorem? defined name = some ⟨name, label, paletteColor "blue", true⟩ := by
  have unstarred : Text.dropTrailing (· = '*') name = name := by
    refine Text.dropTrailing_of_getLast? fun c last => decide_eq_false ?_
    rintro rfl
    exact declarable.not_mem (by decide) (List.mem_of_getLast? last)
  simp only [findTheorem?, unstarred, declarable.unaliased, Option.getD_none,
    declarable.unstyled, known, Option.map_some]

/-- The name in an opening marker is seen exactly when it consists of letters. -/
theorem IsDeclarable.readOpeningName_eq {name : Text} (declarable : IsDeclarable name)
    (rest : Text) :
    readOpeningName (beginMarker name ++ rest) =
      if name.all Char.isAlpha then some name else none := by
  have opened : Text.dropFront? ("\\begin".toList ++ ['{']) (beginMarker name ++ rest) =
      some (name ++ '}' :: rest) := by
    have spelled : beginMarker name ++ rest =
        ("\\begin".toList ++ ['{']) ++ (name ++ '}' :: rest) := by
      simp only [beginMarker_eq, List.append_assoc, List.cons_append, List.nil_append]
    rw [spelled, Text.dropFront?_append]
  rw [readOpeningName, opened]
  split
  next letters =>
    rw [List.all_eq_true] at letters
    have taken : (name ++ '}' :: rest).takeWhile Char.isAlpha = name := by
      rw [List.takeWhile_append_of_pos letters, List.takeWhile_cons_of_neg (by decide),
        List.append_nil]
    have dropped : (name ++ '}' :: rest).dropWhile Char.isAlpha = '}' :: rest := by
      rw [List.dropWhile_append_of_pos letters, List.dropWhile_cons_of_neg (by decide)]
    simp only [Option.bind_eq_bind, Option.bind_some, taken, dropped, List.isEmpty_iff,
      declarable.nonempty, if_false]
  next other =>
    -- The letters end at a character that ends no name.
    have ends : name.dropWhile Char.isAlpha ≠ [] := by
      rw [Ne, List.dropWhile_eq_nil_iff]
      exact fun all => other (List.all_eq_true.mpr all)
    obtain ⟨c, more, split⟩ := List.exists_cons_of_ne_nil ends
    have foreign : c.isAlpha = false := by
      have first := List.head?_dropWhile_not Char.isAlpha name
      rw [split] at first
      exact first
    have listed : c ∈ name :=
      (List.dropWhile_suffix Char.isAlpha).subset (split ▸ List.mem_cons_self)
    have closing : c ≠ '}' := ne_of_mem_of_not_mem listed (declarable.not_mem (by decide))
    have star : c ≠ '*' := ne_of_mem_of_not_mem listed (declarable.not_mem (by decide))
    have dropped : (name ++ '}' :: rest).dropWhile Char.isAlpha = c :: (more ++ '}' :: rest) := by
      rw [← List.takeWhile_append_dropWhile (p := Char.isAlpha) (l := name), split,
        List.append_assoc, List.dropWhile_append_of_pos fun d => List.mem_takeWhile_imp,
        List.cons_append, List.dropWhile_cons_of_neg (by rw [foreign]; exact Bool.false_ne_true)]
    simp only [Option.bind_eq_bind, Option.bind_some, dropped]
    split
    · rfl
    · split <;> simp_all

/-! ## The element of a declared environment -/

/-- A label as the heading of a body in italics. -/
def headed (label body : Text) : Text :=
  "**".toList ++ label ++ ".**".toList ++ if body.isEmpty then [] else ' ' :: emphasized body

theorem headed_eq (label body : Text) : headed label body =
    "**".toList ++ label ++ ".**".toList ++ if body.isEmpty then [] else ' ' :: emphasized body :=
  rfl

/-- The element that a declared environment becomes. -/
def declaredElement (name label body : Text) : Text :=
  Html.paragraph ("<div class=\"latex-env latex-env-".toList ++ name ++
    "\" style=\"border-left: 4px solid ".toList ++ paletteColor "blue" ++
    "; padding-left: 12px;\">".toList ++ Html.paragraph (headed label body) ++ "</div>".toList)

/-- A single line is its only line, without a break. -/
theorem lines_of_single {line : Text} (single : '\n' ∉ line) (nonempty : line ≠ []) :
    Text.lines line = [line] := by
  have unbroken : Text.withoutBreak line = line :=
    if_neg fun last => single (List.mem_of_getLast? last)
  rw [Text.lines, Text.linesWithBreaks_of_single single nonempty, List.map_singleton, unbroken]

/-- A line without spaces is no list item. -/
theorem splitListLine_of_not_mem {line : Text} (unspaced : ' ' ∉ line) :
    splitListLine line = none := by
  have unstarted (pattern : Text) (spaced : ' ' ∈ pattern) {suffix : Text}
      (within : suffix <:+ line) : Text.dropFront? pattern suffix = none :=
    Text.dropFront?_eq_none_iff.mpr fun start => unspaced (within.subset (start.subset spaced))
  have shown : Text.trimStart line <:+ line := List.dropWhile_suffix _
  have bold : readBoldLabel (Text.trimStart line) = none := by
    rw [readBoldLabel, unstarted _ (by decide) shown]
    rfl
  have number : readItemNumber (Text.trimStart line) = none := by
    rw [readItemNumber, unstarted _ (by decide) ((List.dropWhile_suffix _).trans shown)]
    rfl
  rw [splitListLine, bold, number, unstarted _ (by decide) shown]
  rfl

/-- A text without at signs has no tokens. -/
theorem tokens_of_not_mem {text : Text} (absent : '@' ∉ text) : Fragment.tokens text = [] := by
  rw [Fragment.tokens]
  induction text with
  | nil => rfl
  | cons c rest inductionHypothesis =>
    have unread : Fragment.readToken (c :: rest) = none :=
      Fragment.readToken_eq_none fun start =>
        absent (start.subset (by decide : '@' ∈ Fragment.tokenOpening))
    rw [Fragment.tokensFrom, unread]
    exact inductionHypothesis fun member => absent (List.mem_cons_of_mem c member)

section Word

variable {body : Text} (word : IsWord body)

include word

theorem IsWord.head?_eq {c : Char} (head : body.head? = some c) :
    Text.isBlank c = false ∧ c ≠ '[' ∧ c ≠ '<' ∧ c ≠ '#' := by
  obtain ⟨visible, plain⟩ := word c (List.mem_of_head? head)
  simp only [List.mem_cons, not_or] at plain
  exact ⟨visible, plain.2.2.2.1, plain.2.2.2.2.1, plain.2.2.2.2.2.1⟩

theorem IsWord.trimStart_eq : Text.trimStart body = body :=
  Text.trimStart_of_head? fun _ head => (word.head?_eq head).1

theorem IsWord.trim_eq : Text.trim body = body :=
  Text.trim_of_visible (fun _ head => (word.head?_eq head).1)
    fun c last => (word c (List.mem_of_getLast? last)).1

/-- A word has no form of its own that it would keep. -/
theorem IsWord.isStructural_eq (nonempty : body ≠ []) (store : FragmentStore) :
    isStructural store body = false := by
  have plain : '\\' ∉ body := word.not_mem (by decide)
  have unstarted (pattern : Text) (commanded : '\\' ∈ pattern) :
      Text.startsWith pattern body = false := by
    rw [← Bool.not_eq_true, Text.startsWith_iff]
    exact fun start => plain (start.subset commanded)
  have unmarked : startsWithMarkup body = false := by
    rw [startsWithMarkup, Bool.or_eq_false_iff, decide_eq_false_iff_not, decide_eq_false_iff_not]
    exact ⟨fun head => (word.head?_eq head).2.2.1 rfl, fun head => (word.head?_eq head).2.2.2 rfl⟩
  have tokenless : store.containsBlock body = false := by
    rw [FragmentStore.containsBlock, tokens_of_not_mem (word.not_mem (by decide))]
    rfl
  have filled : body.isEmpty = false := List.isEmpty_eq_false_iff.mpr nonempty
  simp only [isStructural, word.trimStart_eq, filled, unmarked,
    unstarted "\\begin".toList (by decide), unstarted "\\end".toList (by decide), tokenless,
    Bool.or_self]

/-- A word is set in italics as a whole. -/
theorem IsWord.italicize_eq (nonempty : body ≠ []) (store : FragmentStore) :
    italicize store body = emphasized body := by
  have listless : splitListLine body = none :=
    splitListLine_of_not_mem (word.not_mem_blank (by decide))
  rw [italicize, lines_of_single (word.not_mem_blank (by decide)) nonempty, List.map_singleton,
    italicizeLine,
    word.isStructural_eq nonempty, listless]
  simp only [Bool.false_eq_true, if_false, word.trim_eq, Text.joinWith]

/-- A word in italics stands in one line with its heading. -/
theorem IsWord.startsWithStructure_eq (store : FragmentStore) :
    startsWithStructure store (emphasized body) = false := by
  have spaceless : ' ' ∉ emphasized body := by
    have absent : ' ' ∉ body := word.not_mem_blank (by decide)
    simp [emphasized, absent]
  have single : '\n' ∉ emphasized body := by
    have absent : '\n' ∉ body := word.not_mem_blank (by decide)
    simp [emphasized, absent]
  have lines : Text.lines (emphasized body) = [emphasized body] :=
    lines_of_single single (List.cons_ne_nil _ _)
  have untokened : store.startsWithBlock (emphasized body) = false := by
    have unread : Fragment.readToken (emphasized body) = none :=
      Fragment.readToken_eq_none fun start => by
        rw [Fragment.tokenOpening_eq, emphasized] at start
        exact absurd (List.cons_prefix_cons.mp start).1 (by decide)
    rw [FragmentStore.startsWithBlock, unread]
  rw [startsWithStructure, lines, untokened, List.headD_cons, splitListLine_of_not_mem spaceless]
  rfl

/-- An environment around a word becomes its element. -/
theorem IsWord.render_eq {name label : Text} (declarable : IsDeclarable name)
    (labelled : label ≠ []) {options : Options} (shown : options.preview = false)
    (store : FragmentStore) :
    Theorem.render ⟨name, label, paletteColor "blue", true⟩ options store none body =
      declaredElement name label body := by
  have unproven : name ≠ "proof".toList := by
    rintro rfl
    exact absurd declarable.unstyled (by decide)
  have filled : label.isEmpty = false := List.isEmpty_eq_false_iff.mpr labelled
  have heading : Theorem.heading ⟨name, label, paletteColor "blue", true⟩ none =
      "**".toList ++ label ++ ".**".toList := by
    simp only [Theorem.heading, filled, Bool.false_eq_true, if_false, Option.map_none]
  have content : withHeading store ("**".toList ++ label ++ ".**".toList)
      (italicize store body) = headed label body := by
    have headingFilled : ("**".toList ++ label ++ ".**".toList).isEmpty = false := rfl
    rw [withHeading, headingFilled, if_neg Bool.false_ne_true, headed_eq]
    by_cases empty : body = []
    · subst empty
      exact (List.append_nil _).symm
    · have visible : body.isEmpty = false := List.isEmpty_eq_false_iff.mpr empty
      have written : (emphasized body).isEmpty = false := rfl
      rw [word.italicize_eq empty, written, word.startsWithStructure_eq, visible]
      rfl
  rw [Theorem.render, heading, word.trim_eq, shown, if_neg Bool.false_ne_true]
  simp only [Theorem.content, if_true, unproven, if_false, content, declaredElement]

end Word

/-! ## The conversion of a declared environment -/

section Convert

variable {name body : Text} (declarable : IsDeclarable name) (word : IsWord body)

include word

/-- What stands behind the opening marker starts neither with a gap nor with an
option. -/
theorem IsWord.head?_append (name rest : Text) {c : Char}
    (head : (body ++ (endMarker name ++ rest)).head? = some c) :
    Text.isBlank c = false ∧ c ≠ '[' := by
  cases body with
  | nil =>
    obtain rfl : '\\' = c := Option.some.inj head
    exact ⟨by decide, by decide⟩
  | cons d others =>
    obtain ⟨visible, unbracketed, -⟩ := word.head?_eq head
    exact ⟨visible, unbracketed⟩

include declarable

/-- The environment is read as a whole, and without an option. -/
theorem readEnvironment_word {cursor : Cursor} (unescaped : cursor.escaped = false) (rest : Text) :
    ∃ found, found.body = body ∧ found.arguments.option? 0 = none ∧
      readEnvironment name 1 0 cursor (enclosed name body ++ rest) = some (found, rest) := by
  have whole := readBody_enclosed (declarable.not_mem (by decide)) word.isSealed rest
  have visible {c : Char} := word.head?_append name rest (c := c)
  have spelled : enclosed name body ++ rest =
      beginMarker name ++ (body ++ (endMarker name ++ rest)) := by
    rw [enclosed, List.append_assoc, List.append_assoc]
  have ungapped : Text.skipGap (body ++ (endMarker name ++ rest)) =
      body ++ (endMarker name ++ rest) := by
    cases first : body ++ (endMarker name ++ rest) with
    | nil => rfl
    | cons c others =>
      have gap := Text.isGap_of_visible (visible (by rw [first]; rfl : _ = some c)).1
      exact List.dropWhile_cons_of_neg (by rw [gap]; exact Bool.false_ne_true)
  have arguments : readArguments ⟨false, 1, 0⟩ (body ++ (endMarker name ++ rest)) =
      some (⟨false, [], []⟩, body ++ (endMarker name ++ rest)) := by
    have unbracketed : (body ++ (endMarker name ++ rest)).head? ≠ some '[' :=
      fun head => (visible head).2 rfl
    simp only [readArguments, Bool.false_and, Bool.false_eq_true, if_false, readOptions, ungapped,
      unbracketed, Option.bind_eq_bind, Option.bind_some, readRequired]
  rw [spelled, readEnvironment, unescaped, if_neg Bool.false_ne_true, Text.dropFront?_append]
  simp only [Option.bind_eq_bind, Option.bind_some, arguments, whole]
  exact ⟨_, rfl, rfl, rfl⟩

/-- An environment whose name is seen becomes its element. -/
theorem convertTheorems_letters (letters : name.all Char.isAlpha = true) {label : Text}
    (labelled : label ≠ []) {context : TheoremContext} (shown : context.options.preview = false)
    (known : KeyedList.find? context.defined name = some label) :
    convertTheorems context (enclosed name body) = declaredElement name label body := by
  obtain ⟨found, same, untitled, read⟩ :=
    readEnvironment_word declarable word (rfl : Cursor.start.escaped = false) []
  have opened : readOpeningName (enclosed name body ++ []) = some name := by
    rw [List.append_nil, enclosed, declarable.readOpeningName_eq, if_pos letters]
  have unlisted : name ≠ "thebibliography".toList := by
    rintro rfl
    exact absurd declarable.unstyled (by decide)
  have plain : '\\' ∉ body := word.not_mem (by decide)
  have offered (depth : Nat) : theoremRule context (convertTheoremsAt context depth) ()
      Cursor.start (enclosed name body ++ []) =
        ((), some (Edit.upTo (enclosed name body ++ []) [] (declaredElement name label body))) := by
    simp only [theoremRule, opened, declarable.findTheorem?_eq known, Option.bind_eq_bind,
      Option.bind_some, unlisted, if_false, read, same, untitled,
      convertTheoremsAt_of_escaped (.of_plain plain), word.render_eq declarable labelled shown]
  have nonempty : enclosed name body ≠ [] := List.cons_ne_nil _ _
  rw [convertTheorems]
  cases length : (enclosed name body).length with
  | zero => exact absurd (List.length_eq_zero_iff.mp length) nonempty
  | succ depth =>
    rw [convertTheoremsAt, edit, ← List.append_nil (enclosed name body),
      editFrom_replace nonempty (offered depth), editFrom_nil, List.append_nil]

end Convert

/-! ## Environments that are not converted -/

/-- A text without closing braces has no markers of environments. -/
theorem dropUnknown_of_not_mem {text : Text} (absent : '}' ∉ text) :
    dropUnknown text = ([], text) := by
  refine dropUnknown_of_unread fun marker _ suffix within => ?_
  rw [readMarkerName]
  cases opened : Text.dropFront? marker suffix with
  | none => rfl
  | some after =>
    have unclosed : '}' ∉ after := fun member =>
      absent (within.subset ((dropFront?_suffix opened).subset member))
    simp only [Option.bind_eq_bind, Option.bind_some, readEnclosedInLine,
      readEnclosed_of_not_mem '{' unclosed, Option.filter_none, Option.bind_none]

section Unseen

variable {name body : Text} (declarable : IsDeclarable name)

include declarable

/-- The name in a marker is read as it stands. -/
theorem readMarkerName_marker {marker : Text} (rest : Text) :
    readMarkerName marker (marker ++ '{' :: (name ++ '}' :: rest)) = some (name, rest) := by
  have inLine : (name.all fun c => c ≠ '\n') = true := by
    rw [List.all_eq_true]
    intro c member
    refine decide_eq_true ?_
    rintro rfl
    exact absurd (declarable.bare _ member).1 (by decide)
  have filled : name.isEmpty = false := List.isEmpty_eq_false_iff.mpr declarable.nonempty
  have closed : '}' ∉ name := declarable.not_mem (by decide)
  rw [readMarkerName, Text.dropFront?_append]
  simp only [Option.bind_eq_bind, Option.bind_some, readEnclosedInLine,
    readEnclosed_append '{' closed, Option.filter_some, inLine, if_true, filled,
    Bool.false_eq_true, if_false]

/-- Behind the opening marker only the closing marker has a backslash. -/
theorem spells_inside (plain : '\\' ∉ body) : Spells ["end".toList] (body ++ endMarker name) := by
  have bare : '\\' ∉ name := declarable.not_mem (by decide)
  have marker : endMarker name = '\\' :: ("end".toList ++ ('{' :: name ++ ['}'])) := rfl
  refine (Spells.of_plain plain).append ?_
  rw [marker]
  exact .command (List.mem_singleton_self _) (by simp [bare])

/-- Nor has the opening marker another one behind its first. -/
theorem spells_behind (plain : '\\' ∉ body) :
    Spells ["end".toList] ("begin\x7b".toList ++ name ++ ['}'] ++ (body ++ endMarker name)) := by
  have bare : '\\' ∉ name := declarable.not_mem (by decide)
  have front : '\\' ∉ "begin\x7b".toList ++ name ++ ['}'] := by simp [bare]
  exact (Spells.of_plain front).append (spells_inside declarable plain)

/-- Where a name is not seen, nothing is converted. -/
theorem convertTheorems_unseen (plain : '\\' ∉ body) (other : ¬ name.all Char.isAlpha = true)
    (context : TheoremContext) :
    convertTheorems context (enclosed name body) = enclosed name body := by
  let behind := "begin\x7b".toList ++ name ++ ['}'] ++ (body ++ endMarker name)
  have spelled : enclosed name body = '\\' :: behind := rfl
  have here (depth : Nat) : theoremRule context (convertTheoremsAt context depth) ()
      Cursor.start ('\\' :: behind) = ((), none) := by
    have unseen : readOpeningName ('\\' :: behind) = none := by
      rw [← spelled, enclosed, declarable.readOpeningName_eq, if_neg other]
    rw [theoremRule, unseen]
    rfl
  have later (depth : Nat) : ∀ cursor suffix, suffix <:+ behind → suffix ≠ [] →
      theoremRule context (convertTheoremsAt context depth) () cursor suffix = ((), none) := by
    intro cursor suffix within nonempty
    have unopened : Text.dropFront? ("\\begin".toList ++ ['{']) suffix = none := by
      obtain ⟨c, others, rfl⟩ := List.exists_cons_of_ne_nil nonempty
      have foreign : ∀ head ∈ ["end".toList],
          ¬ "begin\x7b".toList <+: head ∧ ¬ head <+: "begin\x7b".toList := by decide
      have absent := Spells.not_prefix (spells_behind declarable plain) foreign within []
      rw [List.append_nil] at absent
      exact Text.dropFront?_eq_none_iff.mpr absent
    rw [theoremRule, readOpeningName, unopened]
    rfl
  rw [convertTheorems, spelled]
  cases (('\\' :: behind).length) with
  | zero => rfl
  | succ depth =>
    rw [convertTheoremsAt, edit, editFrom_keep (here depth), editFrom_of_silent_within (later depth)]

/-- The opening marker goes away and leaves its name. -/
theorem dropOpenings_enclosed (word : IsWord body) :
    dropOpenings [] (enclosed name body) = ([name], body ++ endMarker name) := by
  have plain : '\\' ∉ body := word.not_mem (by decide)
  have visible {c : Char} := word.head?_append name [] (c := c)
  rw [List.append_nil] at visible
  have read : readMarkerName "\\begin".toList (beginMarker name ++ (body ++ endMarker name)) =
      some (name, body ++ endMarker name) := by
    have spelled : beginMarker name ++ (body ++ endMarker name) =
        "\\begin".toList ++ '{' :: (name ++ '}' :: (body ++ endMarker name)) := by
      simp only [beginMarker_eq, List.append_assoc, List.cons_append, List.nil_append]
    rw [spelled, readMarkerName_marker declarable]
  have optionless : skipLineOption (body ++ endMarker name) = body ++ endMarker name :=
    skipLineOption_of_head? fun _ head => visible head
  have later : ∀ (cursor : Cursor) suffix, suffix <:+ body ++ endMarker name → suffix ≠ [] →
      readMarkerName "\\begin".toList suffix = none := by
    intro _ suffix within nonempty
    obtain ⟨c, others, rfl⟩ := List.exists_cons_of_ne_nil nonempty
    have foreign : ∀ head ∈ ["end".toList],
        ¬ "begin".toList <+: head ∧ ¬ head <+: "begin".toList := by decide
    have absent := Spells.not_prefix (spells_inside declarable plain) foreign within []
    rw [List.append_nil] at absent
    have unopened : Text.dropFront? "\\begin".toList (c :: others) = none :=
      Text.dropFront?_eq_none_iff.mpr absent
    rw [readMarkerName, unopened]
    rfl
  have marker : beginMarker name ≠ [] := List.cons_ne_nil _ _
  rw [dropOpenings, edit, enclosed, editFrom_replace marker (by
    simp only [read, optionless, declarable.trim_eq]
    rfl)]
  rw [editFrom_of_silent_within fun cursor suffix within nonempty => by
    simp only [later cursor suffix within nonempty]]
  rfl

/-- The closing marker goes away. -/
theorem dropClosings_endMarker (plain : '\\' ∉ body) :
    dropClosings (body ++ endMarker name) = body := by
  have read : readMarkerName "\\end".toList (endMarker name ++ []) = some (name, []) := by
    have spelled : endMarker name ++ [] = "\\end".toList ++ '{' :: (name ++ ['}']) := by
      simp only [endMarker_eq, List.append_assoc, List.cons_append, List.append_nil]
    rw [spelled, readMarkerName_marker declarable]
  induction body with
  | nil =>
    have marker : endMarker name ≠ [] := List.cons_ne_nil _ _
    rw [List.nil_append, ← List.append_nil (endMarker name), dropClosings, substitute,
      editAhead_replace marker (by
        simp only [read, Option.map_some]
        rfl)]
    rfl
  | cons c others inductionHypothesis =>
    rw [List.mem_cons, not_or] at plain
    have unread : readMarkerName "\\end".toList (c :: (others ++ endMarker name)) = none := by
      have unopened : Text.dropFront? "\\end".toList (c :: (others ++ endMarker name)) = none :=
        dropFront?_backslash _ _ (Ne.symm plain.1)
      rw [readMarkerName, unopened]
      rfl
    rw [List.cons_append, dropClosings, substitute,
      editAhead_keep (by simp only [unread, Option.map_none]), ← substitute, ← dropClosings,
      inductionHypothesis plain.2]

/-- The markers of the environment go away, and its name is reported. -/
theorem dropUnknown_enclosed (word : IsWord body) :
    dropUnknown (enclosed name body) = ([.about .unknownEnvironment name], body) := by
  simp only [dropUnknown, dropOpenings_enclosed declarable word, List.map_singleton,
    dropClosings_endMarker declarable (word.not_mem (by decide))]

end Unseen

section Declared

variable {name label body rest : Text} (declarable : IsDeclarable name) (word : IsWord body)

include declarable word

/-- An element has no closing brace if its label has none. -/
theorem not_mem_declaredElement (unclosed : '}' ∉ label) :
    '}' ∉ declaredElement name label body := by
  have named : '}' ∉ name := declarable.not_mem (by decide)
  have bodied : '}' ∉ body := word.not_mem (by decide)
  have colored : '}' ∉ paletteColor "blue" := by decide
  have inside : '}' ∉ headed label body := by
    rw [headed_eq, List.mem_append, not_or]
    constructor
    · simp [unclosed]
    · split <;> simp [emphasized, bodied]
  simp [declaredElement, Html.paragraph, named, colored, inside]

/-- A declaration is taken out and its name registered with its label exactly when the
label has no closing brace. Once the name is registered, its environment becomes the
element with the label exactly when the name consists of letters; nothing is reported
then. Otherwise its markers are dropped, and the name is reported as unknown. -/
theorem declared_environment (labelled : IsLabel label)
    (ends : ∀ c, rest.head? = some c → Text.isBlank c = false ∧ c ≠ '[')
    {context : TheoremContext} (shown : context.options.preview = false)
    (defined : KeyedList Text) :
    let declaring : TheoremContext :=
      { context with defined := KeyedList.put defined name label }
    (Preamble.readTheorem (Preamble.declaration name label ++ rest) =
        some (⟨name, label⟩, rest) ↔ '}' ∉ label) ∧
      ('}' ∉ label →
        Preamble.captureTheorems defined (Preamble.declaration name label ++ rest) =
          Preamble.captureTheorems (KeyedList.put defined name label) rest) ∧
      (convertTheorems declaring (enclosed name body) = declaredElement name label body ↔
        ∀ c ∈ name, c.isAlpha = true) ∧
      ((∀ c ∈ name, c.isAlpha = true) → '}' ∉ label →
        dropUnknown (convertTheorems declaring (enclosed name body)) =
          ([], declaredElement name label body)) ∧
      ((¬ ∀ c ∈ name, c.isAlpha = true) →
        dropUnknown (convertTheorems declaring (enclosed name body)) =
          ([.about .unknownEnvironment name], body)) := by
  intro declaring
  have closed : '}' ∉ name := declarable.not_mem (by decide)
  have plain : '\\' ∉ body := word.not_mem (by decide)
  have known : KeyedList.find? declaring.defined name = some label :=
    KeyedList.find?_put_self defined name label
  have seen (letters : ∀ c ∈ name, c.isAlpha = true) :
      convertTheorems declaring (enclosed name body) = declaredElement name label body :=
    convertTheorems_letters declarable word (List.all_eq_true.mpr letters) labelled.nonempty
      shown known
  have unseen (other : ¬ ∀ c ∈ name, c.isAlpha = true) :
      convertTheorems declaring (enclosed name body) = enclosed name body :=
    convertTheorems_unseen declarable plain (mt List.all_eq_true.mp other) declaring
  refine ⟨?_, ?_, ?_, ?_, ?_⟩
  · exact Preamble.readTheorem_eq_iff closed ⟨declarable.trim_eq, labelled.trimmed⟩ ends
  · intro unclosed
    exact Preamble.captureTheorems_declaration closed ⟨declarable.trim_eq, labelled.trimmed⟩ ends
      unclosed defined
  · refine ⟨fun converted => ?_, seen⟩
    by_contra other
    rw [unseen other] at converted
    exact absurd (List.cons.inj converted).1 (by decide)
  · intro letters unclosed
    rw [seen letters]
    exact dropUnknown_of_not_mem (not_mem_declaredElement declarable word unclosed)
  · intro other
    rw [unseen other]
    exact dropUnknown_enclosed declarable word

end Declared

/-- A name of letters is declared and its environment converted. -/
theorem declared_environment_teo :
    let name := "teo".toList
    let label := "Teorema".toList
    let context : TheoremContext := ⟨.standard, .empty, KeyedList.put [] name label⟩
    IsDeclarable name ∧ IsLabel label ∧
      Preamble.captureTheorems [] (Preamble.declaration name label ++ "x".toList) =
        (context.defined, "x".toList) ∧
      dropUnknown (convertTheorems context (enclosed name "ab".toList)) =
        ([], declaredElement name label "ab".toList) := by
  intro name label context
  have declarable : IsDeclarable name := ⟨by decide, by decide, by decide, by decide⟩
  have labelled : IsLabel label := ⟨by decide, by decide⟩
  have word : IsWord "ab".toList := by decide
  have ends : ∀ c, "x".toList.head? = some c → Text.isBlank c = false ∧ c ≠ '[' := by
    intro c head
    obtain rfl : 'x' = c := Option.some.inj head
    exact ⟨by decide, by decide⟩
  obtain ⟨-, captured, -, converted, -⟩ := declared_environment declarable word labelled ends
    (rfl : context.options.preview = false) []
  refine ⟨declarable, labelled, ?_, converted (by decide) (by decide)⟩
  rw [captured (by decide)]
  rfl

/-- A name with a digit is declared and reported as unknown. -/
theorem declared_environment_digit :
    let name := "lem2".toList
    let label := "Lema".toList
    let context : TheoremContext := ⟨.standard, .empty, KeyedList.put [] name label⟩
    IsDeclarable name ∧ IsLabel label ∧
      Preamble.captureTheorems [] (Preamble.declaration name label) = (context.defined, []) ∧
      convertTheorems context (enclosed name "b".toList) ≠ declaredElement name label "b".toList ∧
      (dropUnknown (convertTheorems context (enclosed name "b".toList))).1 =
        [.about .unknownEnvironment name] := by
  intro name label context
  have declarable : IsDeclarable name := ⟨by decide, by decide, by decide, by decide⟩
  have labelled : IsLabel label := ⟨by decide, by decide⟩
  exact ⟨declarable, labelled, by decide +kernel, by decide +kernel, by decide +kernel⟩

end Block

end LatexMarkdown
