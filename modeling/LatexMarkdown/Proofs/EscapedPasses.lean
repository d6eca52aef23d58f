import LatexMarkdown.Proofs.AbsentStructure
import LatexMarkdown.Proofs.Delimiters
import LatexMarkdown.Proofs.Escaped

/-!
# Passes over a text without commands

Almost every pass acts only where a command starts. A text whose backslashes only escape
special signs has none, and so a pass changes neither the text nor the state, whatever else
the text holds. A text without backslashes is such a text.
-/

namespace LatexMarkdown

open Scan

variable {signs : List Char} {text : Text}

/-! ## Positions at which no command starts -/

/-- No command starts a text. -/
def StartsNoCommand (text : Text) : Prop :=
  ∀ name, isCommandName name = true → ¬ '\\' :: name <+: text

namespace StartsNoCommand

/-- None starts where a special sign is escaped. -/
theorem of_special {c : Char} (special : c ∈ specials) (rest : Text) :
    StartsNoCommand ('\\' :: c :: rest) := by
  intro name named start
  obtain ⟨d, others, rfl, ordinary⟩ := exists_cons_of_isCommandName named
  rw [List.cons_prefix_cons, List.cons_prefix_cons] at start
  exact ordinary (start.2.1 ▸ special)

theorem dropFront? (silent : StartsNoCommand text) {name : Text}
    (named : isCommandName name = true) : Text.dropFront? ('\\' :: name) text = none :=
  Text.dropFront?_eq_none_iff.mpr (silent name named)

theorem special_of_backslash {c : Char} {rest : Text}
    (silent : StartsNoCommand ('\\' :: c :: rest)) : c ∈ specials := by
  by_contra ordinary
  exact silent [c] (by simpa [isCommandName] using ordinary) ⟨rest, rfl⟩

/-- Nothing is read behind a backslash at the start, if nothing is read where a special sign or
nothing stands. -/
theorem bind_eq_none {α : Type} (silent : StartsNoCommand text) {read : Text → Option α}
    (last : read [] = none) (special : ∀ sign ∈ specials, ∀ rest, read (sign :: rest) = none) :
    (Text.dropFront? ['\\'] text).bind read = none := by
  refine Option.bind_eq_none_iff.mpr fun after behind => ?_
  obtain rfl : text = '\\' :: after := Text.dropFront?_eq_some_iff.mp behind
  cases after with
  | nil => exact last
  | cons sign rest => exact special sign silent.special_of_backslash rest

end StartsNoCommand

/-- In a text without commands none starts anywhere. -/
theorem Escaped.startsNoCommand (escaped : Escaped signs text) {suffix : Text}
    (within : suffix <:+ text) : StartsNoCommand suffix :=
  fun _ named start => escaped.absent named (start.isInfix.trans within.isInfix)

/-- A text without commands has no environments. -/
theorem Escaped.unopened (escaped : Escaped signs text) (name : Text) :
    ¬ beginMarker name <:+: text :=
  not_infix_beginMarker (escaped.absent (by decide)) name

namespace Scan

theorem replaceCommand_of_escaped (escaped : Escaped signs text) {name : Text}
    (named : isCommandName name = true) (signature : Signature)
    (answer : Arguments → Option Text) : replaceCommand name signature answer text = text :=
  replaceCommand_of_absent (escaped.absent named) signature answer

theorem replaceControlWord_of_escaped (escaped : Escaped signs text) {name : Text}
    (named : isCommandName name = true) (replacement : Text) :
    replaceControlWord name replacement text = text :=
  replaceControlWord_of_absent (escaped.absent named) replacement

/-- A reader that reads only where a command starts substitutes nothing. -/
theorem substitute_of_escaped (escaped : Escaped signs text)
    {read : Text → Option (Text × Text)}
    (reads : ∀ suffix, StartsNoCommand suffix → read suffix = none) :
    substitute read text = text :=
  editAhead_of_silent fun suffix within _ => by
    rw [reads suffix (escaped.startsNoCommand within), Option.map_none]

/-- Nowhere in a text without commands a declaration is read. -/
theorem readDeclaration_of_escaped (escaped : Escaped signs text) {suffix : Text}
    (within : suffix <:+ text) : readDeclaration suffix = none := by
  have letterless : ∀ sign ∈ specials, sign.isAlpha = false := by decide
  unfold readDeclaration
  split
  · rfl
  next c inside =>
    split
    · split
      · rfl
      next first name opened =>
        have behind : first :: name <:+ text :=
          opened ▸ (skipGap_suffix inside).trans ((List.suffix_cons c inside).trans within)
        refine if_neg fun starts => ?_
        rw [Bool.and_eq_true, decide_eq_true_iff] at starts
        obtain ⟨rfl, lettered⟩ := starts
        cases name with
        | nil => cases lettered
        | cons letter others =>
          have special := (escaped.startsNoCommand behind).special_of_backslash
          exact Bool.false_ne_true ((letterless letter special).symm.trans lettered)
    · rfl

/-- A text without commands has no grouped declaration. -/
theorem replaceDeclaration_of_escaped (escaped : Escaped signs text)
    (answer : Declaration → Option Text) : replaceDeclaration answer text = text := by
  rw [replaceDeclaration, editDeclaration]
  cases text.length with
  | zero => rfl
  | succ depth =>
    rw [editDeclarationAt, edit_of_silent_within]
    intro cursor suffix within _
    simp only [declarationRule, readDeclaration_of_escaped escaped within]
    split <;> rfl

section Delimiters

variable {σ : Type} {state : σ}

/-- A text in which no opening delimiter stands but escaped ones has no span. -/
theorem editDelimited_of_unopened {delimiters : Delimiters} {answer : Answer σ Text}
    (unopened : Everywhere (fun suffix => ¬ delimiters.opening <+: suffix) false text) :
    editDelimited delimiters answer state text = (state, text) := by
  refine edit_everywhere (fun cursor suffix silent => ?_) unopened
  refine delimitedRule_silent cursor suffix (silent.imp_right fun unstarted inside whole => ?_)
  exact absurd ⟨inside, whole.symm⟩ unstarted

/-- A text in which no dollar stands but escaped ones has no formula between dollars. -/
theorem editDollars_of_unopened {answer : σ → Text → σ × Text}
    (unopened : Everywhere (fun suffix => ¬ ['$'] <+: suffix) false text) :
    editDollars answer state text = (state, text) := by
  refine edit_everywhere (fun cursor suffix silent => ?_) unopened
  cases suffix with
  | nil => rfl
  | cons c rest =>
    refine dollarsRule_silent (silent.imp_right fun unstarted same => unstarted ?_) state rest
    exact List.cons_prefix_cons.mpr ⟨same.symm, List.nil_prefix⟩

end Delimiters

end Scan

/-! ## Comments -/

/-- The lines of a text without commands have none. -/
theorem Escaped.linesWithBreaks (escaped : Escaped signs text) :
    ∀ line ∈ Text.linesWithBreaks text, Escaped signs line := by
  have first {lines : List Text} (each : ∀ line ∈ lines, Escaped signs line) :
      Escaped signs (lines.headD []) ∧ ∀ line ∈ lines.tail, Escaped signs line := by
    cases lines with
    | nil => exact ⟨.nil, nofun⟩
    | cons line others => exact List.forall_mem_cons.mp each
  induction escaped with
  | nil => exact nofun
  | @keep c rest ordinary unsigned _ inductionHypothesis =>
    rw [Text.linesWithBreaks]
    split
    · exact List.forall_mem_cons.mpr ⟨.keep ordinary unsigned .nil, inductionHypothesis⟩
    · rw [Text.keepInFirst_eq]
      obtain ⟨here, later⟩ := first inductionHypothesis
      exact List.forall_mem_cons.mpr ⟨.keep ordinary unsigned here, later⟩
  | @escape c rest special _ inductionHypothesis =>
    have unbroken : c ≠ '\n' := by
      rintro rfl
      exact absurd special (by decide)
    rw [Text.linesWithBreaks, if_neg (by decide), Text.linesWithBreaks, if_neg unbroken,
      Text.keepInFirst_eq, Text.keepInFirst_eq]
    obtain ⟨here, later⟩ := first inductionHypothesis
    exact List.forall_mem_cons.mpr ⟨.escape special here, later⟩

namespace Code

variable {line : Text}

/-- No inline code starts at an escaped sign. -/
theorem beforeComment_escape {c : Char} {rest : Text} (special : c ∈ specials) :
    beforeComment 0 ('\\' :: c :: rest) = '\\' :: c :: beforeComment 0 rest := by
  have unopened : Text.dropFront? inlineOpening ('\\' :: c :: rest) = none :=
    (StartsNoCommand.of_special special rest).dropFront? (by decide)
  have bare : inlineWidth? ('\\' :: c :: rest) = none := by
    rw [inlineWidth?, unopened]
    rfl
  rw [beforeComment, if_pos rfl, bare]
  rfl

/-- A line in which all percent signs are escaped has no comment. -/
theorem beforeComment_of_escaped (percent : '%' ∈ signs) (escaped : Escaped signs line) :
    beforeComment 0 line = line := by
  induction escaped with
  | nil => rfl
  | @keep c rest ordinary unsigned _ inductionHypothesis =>
    have different : c ≠ '%' := fun same => unsigned (same ▸ percent)
    rw [beforeComment, if_neg ordinary, if_neg different, inductionHypothesis]
  | escape special _ inductionHypothesis =>
    rw [beforeComment_escape special, inductionHypothesis]

/-- A line without commands loses a percent sign with its comment, and keeps only escaped
ones. -/
theorem beforeComment_escaped (escaped : Escaped signs line) :
    Escaped ('%' :: signs) (beforeComment 0 line) ∧
      (beforeComment 0 line = line ∨ (beforeComment 0 line).count '%' < line.count '%') := by
  induction escaped with
  | nil => exact ⟨.nil, .inl rfl⟩
  | @keep c rest ordinary unsigned _ inductionHypothesis =>
    obtain ⟨before, kept⟩ := inductionHypothesis
    rw [beforeComment, if_neg ordinary]
    split
    next same => exact ⟨.nil, .inr (by simp [same])⟩
    next different =>
      have neither : c ∉ '%' :: signs := by
        rw [List.mem_cons, not_or]
        exact ⟨different, unsigned⟩
      refine ⟨.keep ordinary neither before, ?_⟩
      refine kept.imp (congrArg (c :: ·)) fun fewer => ?_
      rwa [List.count_cons_of_ne different, List.count_cons_of_ne different]
  | @escape c rest special _ inductionHypothesis =>
    obtain ⟨before, kept⟩ := inductionHypothesis
    rw [beforeComment_escape special]
    refine ⟨.escape special before, kept.imp (congrArg ('\\' :: c :: ·)) fun fewer => ?_⟩
    simp only [List.count_cons]
    omega

/-- A text without commands has no code block, so that comments are dropped from every line. -/
theorem stripComments_eq_flatten (escaped : Escaped signs text) :
    stripComments text = ((Text.linesWithBreaks text).map (beforeComment 0)).flatten := by
  have each := escaped.linesWithBreaks
  rw [stripComments]
  generalize Text.linesWithBreaks text = lines at each
  congr
  induction lines with
  | nil => rfl
  | cons line others inductionHypothesis =>
    rw [List.forall_mem_cons] at each
    have unfenced : ∀ fence ∈ fences, ¬ fence.1 <:+: line := by
      intro fence listed
      obtain ⟨name, -, rfl⟩ := List.mem_map.mp listed
      exact each.1.unopened name.toList
    rw [stripCommentLines_unfenced unfenced, inductionHypothesis each.2, List.map_cons]

/-- A text in which all percent signs are escaped has no comments. -/
theorem stripComments_of_escaped (percent : '%' ∈ signs) (escaped : Escaped signs text) :
    stripComments text = text := by
  have each := escaped.linesWithBreaks
  rw [stripComments_eq_flatten escaped, List.map_congr_left fun line listed =>
    beforeComment_of_escaped percent (each line listed), List.map_id', Text.flatten_linesWithBreaks]

/-- Lines without commands stay as they are, or a percent sign is lost. -/
theorem map_beforeComment_escaped {lines : List Text}
    (each : ∀ line ∈ lines, Escaped signs line) :
    (lines.map (beforeComment 0)).flatten = lines.flatten ∨
      (lines.map (beforeComment 0)).flatten.count '%' < lines.flatten.count '%' := by
  induction lines with
  | nil => exact .inl rfl
  | cons line others inductionHypothesis =>
    rw [List.forall_mem_cons] at each
    obtain ⟨-, first⟩ := beforeComment_escaped each.1
    have later := inductionHypothesis each.2
    simp only [List.map_cons, List.flatten_cons, List.count_append]
    rcases first with same | fewer
    · rw [same]
      exact later.imp (congrArg (line ++ ·)) (Nat.add_lt_add_left · _)
    · have atMost : (others.map (beforeComment 0)).flatten.count '%' ≤ others.flatten.count '%' :=
        later.elim (fun unchanged => by rw [unchanged]) Nat.le_of_lt
      exact .inr (Nat.add_lt_add_of_lt_of_le fewer atMost)

/-- A text without commands loses a percent sign with its comments, and keeps only escaped
ones. -/
theorem stripComments_escaped (escaped : Escaped signs text) :
    Escaped ('%' :: signs) (stripComments text) ∧
      (stripComments text = text ∨ (stripComments text).count '%' < text.count '%') := by
  have each := escaped.linesWithBreaks
  have lost := map_beforeComment_escaped each
  rw [Text.flatten_linesWithBreaks] at lost
  rw [stripComments_eq_flatten escaped]
  exact ⟨.flatten (List.forall_mem_map.mpr fun line listed =>
    (beforeComment_escaped (each line listed)).1), lost⟩

end Code

/-! ## References and fragments -/

/-- Nothing is dropped from a text without commands as a label. -/
theorem Numbering.dropLabels_of_escaped (escaped : Escaped signs text) : dropLabels text = text :=
  substitute_of_escaped escaped fun suffix silent => by
    have unnamed : Text.dropFront? "\\label".toList suffix = none := silent.dropFront? (by decide)
    rw [readLabel, unnamed]
    rfl

/-- A text without commands has no references. -/
theorem Numbering.resolveReferences_of_escaped (escaped : Escaped signs text)
    (labels : LabelRegistry) (citations : CitationRegistry) (warnings : List Warning) :
    resolveReferences labels citations warnings text = (warnings, text) := by
  have always (name : Text) (named : isCommandName name = true) (maxOptions required : Nat)
      (answer : List Warning → Arguments → List Warning × Text) :
      editAlways name maxOptions required answer warnings text = (warnings, text) :=
    editCommand_of_absent (escaped.absent named) ..
  have citing : ∀ name ∈ citationNames, isCommandName name = true := by decide
  have referring : ∀ name ∈ referenceNames, isCommandName name = true := by decide
  rw [resolveReferences, foldl_fixed_of_mem citationNames]
  · simp only
    rw [foldl_fixed_of_mem referenceNames]
    · simp (disch := decide) only [always, dropLabels_of_escaped escaped]
    · exact fun name listed => always name (referring name listed) 0 1 _
  · exact fun name listed => always name (citing name listed) 2 1 _

/-- A text without commands has no links and no images. -/
theorem Link.protect_of_escaped (escaped : Escaped signs text) (preview : Bool)
    (store : FragmentStore) : protect preview store text = (store, text) :=
  protect_of_absent (escaped.absent (by decide)) (escaped.absent (by decide))
    (escaped.absent (by decide)) preview store

/-- A text without commands has no tables. -/
theorem Table.protect_of_escaped (escaped : Escaped signs text) (context : TableContext)
    (sink : TableSink) : protect context sink text = (sink, text) :=
  protect_of_absent (fun family _ => escaped.unopened family.name.toList) context sink

/-- A text without commands has no arrays. -/
theorem Table.protectArrays_of_escaped (escaped : Escaped signs text) (preview : Bool)
    (colors : ColorTable) (store : FragmentStore) :
    protectArrays preview colors store text = (store, text) :=
  protectArrays_of_absent (escaped.unopened _) preview colors store

/-- A text without commands and without dollars, but for escaped ones, has no formulas. -/
theorem Math.protect_of_escaped (escaped : Escaped ['$'] text) (colors : ColorTable)
    (labels : LabelRegistry) (preview : Bool) (store : FragmentStore) :
    protect colors labels preview store text = (store, text) := by
  have environment (name : Text) (required : Nat) (answer : Environment → Option Text) :
      store.protectEnvironment name 0 required answer text = (store, text) :=
    store.protectEnvironment_of_absent (escaped.unopened name) 0 required answer
  have undollared := escaped.everywhere (List.mem_singleton_self '$') (by decide)
  have absent {opening : Text} (named : isCommandName opening = true) :
      Everywhere (fun suffix => ¬ '\\' :: opening <+: suffix) false text :=
    everywhere_of_suffixes fun suffix within _ => escaped.startsNoCommand within opening named
  have double : Everywhere (fun suffix => ¬ doubleDollars.opening <+: suffix) false text :=
    undollared.imp fun suffix _ _ unstarted start =>
      unstarted ((show ['$'] <+: "$$".toList by decide).trans start)
  have delimited {delimiters : Delimiters}
      (unopened : Everywhere (fun suffix => ¬ delimiters.opening <+: suffix) false text)
      (answer : Text → Option Text) :
      store.protectDelimited delimiters answer text = (store, text) := by
    rw [FragmentStore.protectDelimited, editDelimited_of_unopened unopened]
  have square (answer : Text → Option Text) :
      store.protectDelimited brackets answer text = (store, text) :=
    delimited (absent (by decide)) answer
  have round (answer : Text → Option Text) :
      store.protectDelimited parentheses answer text = (store, text) :=
    delimited (absent (by decide)) answer
  simp only [protect, square]
  rw [foldl_fixed_of_mem families]
  · simp only [delimited double, round, environment, FragmentStore.protectDollars,
      editDollars_of_unopened undollared]
  · exact fun _ _ => environment ..

/-! ## Structure -/

/-- Every marker of a list starts with a backslash. -/
theorem Block.readListToken_of_ne {c : Char} (different : c ≠ '\\') (rest : Text) :
    readListToken (c :: rest) = none := by
  have starts {marker : Text} (start : '\\' :: marker <+: c :: rest) : False :=
    different (List.cons_prefix_cons.mp start).1.symm
  exact readListToken_eq_none (fun _ => starts) (fun _ => starts) starts

/-- A text without commands has no headings. -/
theorem Inline.convertHeadings_of_escaped (escaped : Escaped signs text) :
    convertHeadings text = text := by
  have named : ∀ heading ∈ headingLevels, isCommandName heading.1 = true := by decide
  exact foldl_fixed_of_mem headingLevels fun heading listed =>
    replaceCommand_of_escaped escaped (named heading listed) ..

/-- A text without commands has no notes. -/
theorem Inline.convertNotes_of_escaped (escaped : Escaped signs text) :
    convertNotes text = text := by
  simp (disch := decide) only [convertNotes, replaceCommand_of_escaped escaped]

/-- A text without commands has no styles, no colours and no switches. -/
theorem Inline.convertFormat_of_escaped (escaped : Escaped signs text) (colors : ColorTable) :
    convertFormat colors text = ([], text) := by
  have styled : ∀ entry ∈ Style.commands, isCommandName entry.1 = true := by decide
  have styles : convertStyles text = text := foldl_fixed_of_mem Style.commands fun entry listed =>
    replaceCommand_of_escaped escaped (styled entry listed) ..
  have colored : convertColors colors text = text := by
    simp (disch := decide) only [convertColors, replaceCommand_of_escaped escaped]
  have opened : openColorSwitches colors text = ([], text) :=
    editCommand_of_absent (escaped.absent (by decide)) ..
  have switch (names : List Text) (named : ∀ name ∈ names, isCommandName name = true) :
      substitute (readSwitch names) text = text := by
    have unread {name : Text} (unstarted : ∀ switch ∈ names, ¬ switch <+: name) :
        names.findSome? (fun switch => (Text.dropFront? switch name).filter Text.endsWord) =
          none :=
      List.findSome?_eq_none_iff.mpr fun switch listed => by
        rw [Text.dropFront?_eq_none_iff.mpr (unstarted switch listed), Option.filter_none]
    refine substitute_of_escaped escaped fun suffix silent =>
      silent.bind_eq_none ?_ fun sign special rest => ?_
    · rw [unread]
      · rfl
      intro switch listed start
      obtain ⟨c, others, rfl, -⟩ := exists_cons_of_isCommandName (named switch listed)
      exact List.cons_ne_nil c others (List.prefix_nil.mp start)
    · rw [unread]
      · rfl
      intro switch listed start
      obtain ⟨c, others, rfl, ordinary⟩ := exists_cons_of_isCommandName (named switch listed)
      exact ordinary ((List.cons_prefix_cons.mp start).1 ▸ special)
  have fonts := switch fontSwitches (by decide)
  have sizes := switch (Style.sizes.map Prod.fst) (by decide)
  simp only [convertFormat, styles, colored, replaceDeclaration_of_escaped escaped, opened,
    dropSwitches, sizes, fonts]
  rfl

/-- A text without commands has no boxes, rules and fills. -/
theorem Inline.convertBoxes_of_escaped (escaped : Escaped signs text) :
    convertBoxes text = text := by
  have boxes : ∀ entry ∈ boxCommands, isCommandName entry.1 = true := by decide
  have filling : ∀ entry ∈ fills, isCommandName entry.1 = true := by decide
  rw [convertBoxes, foldl_fixed_of_mem boxCommands]
  · exact foldl_fixed_of_mem fills fun entry listed =>
      replaceControlWord_of_escaped escaped (filling entry listed) ..
  · exact fun entry listed => replaceCommand_of_escaped escaped (boxes entry listed) ..

/-- A text without commands has no line break command. -/
theorem Block.replaceLineBreaks_of_escaped (escaped : Escaped signs text) (replacement : Text) :
    replaceLineBreaks replacement text = text :=
  substitute_of_escaped escaped fun suffix silent => by
    have unnamed : Text.dropFront? "\\\\".toList suffix = none := silent.dropFront? (by decide)
    rw [afterLineBreak?, unnamed]
    rfl

/-- A text without commands has no explicit spaces and breaks. -/
theorem Inline.convertSpacing_of_escaped (escaped : Escaped signs text) :
    convertSpacing text = text := by
  have spaces : ∀ entry ∈ spaceWords, isCommandName entry.1 = true := by decide
  simp (disch := decide) only [convertSpacing, replaceCommand_of_escaped escaped]
  rw [foldl_fixed_of_mem spaceWords]
  · simp (disch := decide) only [replaceCommand_of_escaped escaped,
      replaceControlWord_of_escaped escaped, Block.replaceLineBreaks_of_escaped escaped]
  · exact fun entry listed => replaceControlWord_of_escaped escaped (spaces entry listed) ..

/-- A text without commands has no theorem-like environments, however deep they are
looked for. -/
theorem Block.convertTheoremsAt_of_escaped (escaped : Escaped signs text)
    (context : TheoremContext) (depth : Nat) : convertTheoremsAt context depth text = text := by
  cases depth with
  | zero => rfl
  | succ depth =>
    rw [convertTheoremsAt, edit_of_silent_within]
    intro cursor suffix within _
    have unopened : Text.dropFront? ("\\begin".toList ++ ['{']) suffix = none :=
      (escaped.startsNoCommand within).dropFront? (by decide)
    rw [theoremRule, readOpeningName, unopened]
    rfl

/-- A text without commands has no theorem-like environments. -/
theorem Block.convertTheorems_of_escaped (escaped : Escaped signs text)
    (context : TheoremContext) : convertTheorems context text = text :=
  convertTheoremsAt_of_escaped escaped context text.length

/-- Where no marker of an environment is read, none is dropped. -/
theorem Block.dropUnknown_of_unread
    (unread : ∀ marker ∈ ["\\begin".toList, "\\end".toList], ∀ suffix, suffix <:+ text →
      readMarkerName marker suffix = none) : dropUnknown text = ([], text) := by
  rw [List.forall_mem_cons, List.forall_mem_singleton] at unread
  have openings : dropOpenings [] text = ([], text) := by
    refine edit_of_silent_within fun cursor suffix within _ => ?_
    simp only [unread.1 suffix within]
  have closings : dropClosings text = text := by
    refine editAhead_of_silent fun suffix within _ => ?_
    simp only [unread.2 suffix within, Option.map_none]
  simp only [dropUnknown, openings, closings, List.map_nil]

/-- A text without commands has no markers of environments. -/
theorem Block.dropUnknown_of_escaped (escaped : Escaped signs text) :
    dropUnknown text = ([], text) := by
  refine dropUnknown_of_unread fun marker listed suffix within => ?_
  have commanded : ∃ name, marker = '\\' :: name ∧ isCommandName name = true := by
    simp only [List.mem_cons, List.not_mem_nil, or_false] at listed
    rcases listed with rfl | rfl
    · exact ⟨"begin".toList, rfl, by decide⟩
    · exact ⟨"end".toList, rfl, by decide⟩
  obtain ⟨name, rfl, named⟩ := commanded
  rw [readMarkerName, (escaped.startsNoCommand within).dropFront? named]
  rfl

/-! ## Symbols -/

/-- Of a text without commands only the punctuation is replaced, which brings in none. -/
theorem Symbol.normalize_eq_replacePunctuation (escaped : Escaped signs text)
    (kept : Escaped signs (replacePunctuation text)) :
    normalize text = replacePunctuation text := by
  have accents : ∀ sign ∈ specials, "'`^\"~=.".toList.contains sign = false := by decide
  have letters : ∀ sign ∈ specials, "cvuHkr".toList.contains sign = false := by decide
  have letterless : ∀ sign ∈ specials, sign.isAlpha = false := by decide
  have signAccents : substitute readSignAccent text = text :=
    substitute_of_escaped escaped fun suffix silent =>
      silent.bind_eq_none rfl fun sign special rest =>
        if_neg (ne_true_of_eq_false (accents sign special))
  have letterAccents : substitute readLetterAccent text = text :=
    substitute_of_escaped escaped fun suffix silent =>
      silent.bind_eq_none rfl fun sign special rest =>
        if_neg (ne_true_of_eq_false (letters sign special))
  have symbols : substitute readSymbol text = text :=
    substitute_of_escaped escaped fun suffix silent =>
      silent.bind_eq_none rfl fun sign special rest => by
        rw [List.takeWhile_cons_of_neg (ne_true_of_eq_false (letterless sign special))]
        rfl
  have characters (given : List Char) (replacement : Text)
      (apart : ∀ sign ∈ specials, given.any (· = sign) = false) :
      substitute (readCharacterCommand given replacement) (replacePunctuation text) =
        replacePunctuation text :=
    substitute_of_escaped kept fun suffix silent =>
      silent.bind_eq_none rfl fun sign special rest =>
        if_neg (ne_true_of_eq_false (apart sign special))
  simp (disch := decide) only [normalize, signAccents, letterAccents, symbols, characters]

/-- Without punctuation none is replaced. -/
theorem Symbol.replacePunctuation_of_unpunctuated
    (unpunctuated : ∀ entry ∈ punctuation, ¬ entry.1 <:+: text) : replacePunctuation text = text :=
  foldl_fixed_of_mem _ fun entry member =>
    replaceAll_of_absent (unpunctuated entry member) entry.2

/-- A text without commands and without punctuation has no symbols. -/
theorem Symbol.normalize_of_unpunctuated (escaped : Escaped signs text)
    (unpunctuated : ∀ entry ∈ punctuation, ¬ entry.1 <:+: text) : normalize text = text := by
  have punctuated := replacePunctuation_of_unpunctuated unpunctuated
  rw [normalize_eq_replacePunctuation escaped (by rwa [punctuated]), punctuated]

/-- A text without commands and without the signs of punctuation has no symbols. -/
theorem Symbol.normalize_of_unsigned (escaped : Escaped signs text)
    (unpunctuated : ∀ sign ∈ "?!`'-~".toList, sign ∉ text) : normalize text = text := by
  have starts : ∀ entry ∈ punctuation, ∃ sign ∈ "?!`'-~".toList, sign ∈ entry.1 := by decide
  refine normalize_of_unpunctuated escaped fun entry member occurs => ?_
  obtain ⟨sign, listed, inside⟩ := starts entry member
  exact unpunctuated sign listed (occurs.subset inside)

/-! ## Runs of passes -/

namespace Document

/-- A text without commands has none of those of the preamble. -/
theorem lacks_preambleNames (escaped : Escaped signs text) : Lacks preambleNames text :=
  escaped.lacks (by decide)

/-- A text without commands has no title block and no definitions. -/
theorem preamble_of_escaped (escaped : Escaped signs text) (state : State) :
    runPasses preamblePasses state text = (state, text) :=
  preamble_of_lacks (lacks_preambleNames escaped) state

/-- A text without commands has no keys, so that the registries become empty. -/
theorem State.number_of_escaped (escaped : Escaped signs text) (state : State) :
    state.number text = { state with labels := .empty, citations := .empty } :=
  number_of_lacks (lacks_preambleNames escaped) state

/-- A text without commands has no markup, so that the structural passes only drop its
indentation. -/
theorem structure_eq_stripIndentation (escaped : Escaped signs text) (state : State) :
    runPasses structurePasses state text = (state, Text.stripIndentation text) := by
  have unindented := escaped.stripIndentation
  have unopened : ¬ "\\begin".toList <:+: Text.stripIndentation text :=
    unindented.absent (by decide)
  simp only [structurePasses, runPasses, Pass.run,
    Block.convertItems_of_absent (unindented.absent (by decide)) (unindented.absent (by decide)),
    Block.convertLines_of_absent unopened,
    Block.convertLists_of_absent unopened (unindented.absent (by decide))
      (unindented.absent (by decide)),
    Block.convertFloats_of_absent unopened (unindented.absent (by decide)),
    Inline.convertCaptions_of_absent (unindented.absent (by decide)),
    Block.convertRegions_of_absent unopened,
    Inline.convertHeadings_of_escaped unindented, Inline.convertNotes_of_escaped unindented,
    Inline.convertFormat_of_escaped unindented, Inline.convertBoxes_of_escaped unindented,
    Inline.convertSpacing_of_escaped unindented, Block.convertTheorems_of_escaped unindented,
    Block.dropUnknown_of_escaped unindented, State.warn_nil]

/-- Where no line has indentation to drop, they change nothing. -/
theorem structure_of_escaped (escaped : Escaped signs text)
    (unindented : Text.stripIndentation text = text) (state : State) :
    runPasses structurePasses state text = (state, text) := by
  rw [structure_eq_stripIndentation escaped, unindented]

end Document

end LatexMarkdown
