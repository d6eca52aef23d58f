import LatexMarkdown.Proofs.Bibliography
import LatexMarkdown.Proofs.Delimiters
import LatexMarkdown.Proofs.Offsets
import LatexMarkdown.Proofs.Rewriting

/-!
# The matches of commands, environments, spans and declarations

Commands, environments, delimited spans and grouped declarations are edited alike: from left
to right, every complete match is replaced by the answer on it or, without an answer, kept.
The arguments of a command and the rest of a declaration are edited in the same way before
the answer is asked for. Nothing is lost, doubled or moved, and where every answer declines
the text stays as it is.
-/

namespace LatexMarkdown.Scan

variable {σ : Type}

/-! ## How arguments are spelled -/

/-- A piece holds just the star, the options and the braced arguments that are read from
it in front of the rest. -/
structure SpellsArguments (signature : Signature) (arguments : Arguments) (piece rest : Text) :
    Prop where
  spelled : ∃ options required, SpellsGroups '[' ']' arguments.options options ∧
    SpellsGroups '{' '}' arguments.required required ∧
      piece = (if arguments.starred then ['*'] else []) ++ (options ++ required)
  read : readArguments signature (piece ++ rest) = some (arguments, rest)

/-- What is read as arguments is spelled in the text. -/
theorem readArguments_spells {signature : Signature} {arguments : Arguments} {text rest : Text}
    (read : readArguments signature text = some (arguments, rest)) :
    ∃ piece, SpellsArguments signature arguments piece rest ∧ text = piece ++ rest := by
  obtain ⟨options, required, spellsOptions, spellsRequired, split⟩ := readArguments_split read
  refine ⟨_, ⟨⟨options, required, spellsOptions, spellsRequired, rfl⟩, ?_⟩, split⟩
  rw [← split]
  exact read

/-- A group is shorter than the piece that spells it. -/
theorem SpellsGroups.length_lt {opening closing : Char} {groups : List Text} {piece inner : Text}
    (spells : SpellsGroups opening closing groups piece) (member : inner ∈ groups) :
    inner.length < piece.length := by
  induction spells with
  | none => cases member
  | cons _ _ inductionHypothesis =>
    simp only [List.length_append, List.length_cons]
    rcases List.mem_cons.mp member with rfl | other
    · omega
    · have := inductionHypothesis other
      omega

/-- Nothing is escaped behind groups. -/
theorem SpellsGroups.escapesAfter_eq {opening closing : Char} {groups : List Text} {piece : Text}
    (spells : SpellsGroups opening closing groups piece) (visible : closing ≠ '\\') :
    escapesAfter false piece = false := by
  induction spells with
  | none => rfl
  | @cons gap inner behind others _ _ inductionHypothesis =>
    rw [← List.cons_append, ← List.append_assoc, escapesAfter_append, ← List.append_assoc,
      escapesAfter_concat visible, inductionHypothesis]

/-! ## Uses of a command -/

/-- A use of a command: a name that no letter continues, and all the arguments that it takes. -/
structure IsUse (name : Text) (signature : Signature) (cursor : Cursor) (matched rest : Text)
    (arguments : Arguments) : Prop where
  unescaped : cursor.escaped = false
  spelled : ∃ piece, matched = '\\' :: (name ++ piece) ∧
    Text.startsWithLetter (piece ++ rest) = false ∧
      SpellsArguments signature arguments piece rest

/-- The name of a command without the arguments that it takes. -/
structure IsBareCommand (name : Text) (signature : Signature) (cursor : Cursor)
    (passed rest : Text) : Prop where
  unescaped : cursor.escaped = false
  spelled : passed = '\\' :: name
  ends : Text.startsWithLetter rest = false
  unread : readArguments signature rest = none

/-- The search for the uses of a command. -/
def uses (name : Text) (signature : Signature) : Search Arguments where
  IsMatch := IsUse name signature
  IsIncomplete := IsBareCommand name signature
  entersDeclined := false

/-- Edit the braced arguments, and then ask for the answer. -/
def answerEdited (nested : σ → Text → σ × Text) (answer : Answer σ Arguments) :
    Answer σ Arguments :=
  fun state arguments =>
    let (state, required) := mapThread nested state arguments.required
    answer state { arguments with required }

section Command

variable {name : Text} {signature : Signature} {answer : Answer σ Arguments}

/-- The arguments of a command are shorter than the text it is read from. -/
theorem commandRule_nesting :
    IsNesting fun nested => commandRule (σ := σ) name signature nested answer := by
  intro first second text same state cursor
  simp only [commandRule]
  split
  · rfl
  split
  · rfl
  next after found =>
    cases read : readArguments signature after with
    | none => rfl
    | some pair =>
      have nested : mapThread first state pair.1.required =
          mapThread second state pair.1.required := by
        refine mapThread_congr (fun state inner member => same state inner ?_) state
        obtain ⟨piece, spells, split⟩ := readArguments_spells read
        obtain ⟨options, required, -, spellsRequired, rfl⟩ := spells.spelled
        have shorter := spellsRequired.length_lt member
        rw [afterCommand?_eq_append found, split]
        simp only [List.length_cons, List.length_append]
        omega
      simp only [nested]

/-- A command is edited by its rule, with its arguments edited in the same way. -/
theorem editCommand_eq (state : σ) (text : Text) :
    editCommand name signature answer state text =
      edit (commandRule name signature (editCommand name signature answer) answer) state text :=
  commandRule_nesting.edit_eq (fun _ _ => rfl) (fun _ _ _ => rfl) state text

/-- No letter continues the name of a command that is read. -/
theorem startsWithLetter_of_afterCommand? {text after : Text}
    (found : afterCommand? name text = some after) : Text.startsWithLetter after = false := by
  rw [afterCommand?_eq_append found, afterCommand?, if_pos rfl, Text.dropFront?_append] at found
  by_contra letter
  rw [Bool.not_eq_false] at letter
  simp only [letter, if_true] at found
  cases found

/-- What the rule for a command offers. -/
theorem commandRule_offers (nested : σ → Text → σ × Text) (state : σ) (cursor : Cursor)
    (text : Text) :
    Offers (uses name signature) (answerEdited nested answer) state cursor text
      (commandRule name signature nested answer state cursor text) := by
  simp only [commandRule]
  split
  next escaped =>
    refine .silent ⟨fun matched rest found _ isUse => ?_, fun passed rest _ isBare => ?_⟩
    · rw [isUse.unescaped] at escaped
      cases escaped
    · rw [isBare.unescaped] at escaped
      cases escaped
  next free =>
  split
  next unfound =>
    refine .silent ⟨fun matched rest found split isUse => ?_, fun passed rest split isBare => ?_⟩
    · obtain ⟨piece, rfl, ends, -⟩ := isUse.spelled
      rw [split, List.cons_append, List.append_assoc, afterCommand?_append ends] at unfound
      cases unfound
    · rw [split, isBare.spelled, List.cons_append, afterCommand?_append isBare.ends] at unfound
      cases unfound
  next after found =>
    have whole := afterCommand?_eq_append found
    cases read : readArguments signature after with
    | none =>
      exact .passed whole (List.cons_ne_nil '\\' name)
        ⟨Bool.eq_false_iff.mpr free, rfl, startsWithLetter_of_afterCommand? found, read⟩
    | some pair =>
      obtain ⟨arguments, rest⟩ := pair
      obtain ⟨piece, spells, rfl⟩ := readArguments_spells read
      have isUse : IsUse name signature cursor ('\\' :: (name ++ piece)) rest arguments :=
        ⟨Bool.eq_false_iff.mpr free, piece, rfl, startsWithLetter_of_afterCommand? found, spells⟩
      exact .matched (by rw [whole]; simp) (List.cons_ne_nil _ _) rfl isUse

/-- An edit of a command rewrites the text by its uses. -/
theorem rewrites_editCommand (state : σ) (text : Text) :
    Rewrites (uses name signature) (answerEdited (editCommand name signature answer) answer) state
      Cursor.start text (editCommand name signature answer state text).1
      (editCommand name signature answer state text).2 := by
  rw [editCommand_eq]
  exact rewrites_editFrom (fun _ _ _ _ => commandRule_offers _ _ _ _) state Cursor.start text

end Command

/-! ## Environments -/

/-- A complete environment: its opening marker with all the arguments that it takes, its body
and the closing marker that balances. -/
structure IsEnvironment (name : Text) (maxOptions required : Nat) (cursor : Cursor)
    (matched rest : Text) (environment : Environment) : Prop where
  unescaped : cursor.escaped = false
  spelled : ∃ piece,
    matched = beginMarker name ++ (piece ++ (environment.body ++ endMarker name)) ∧
      SpellsArguments ⟨false, maxOptions, required⟩ environment.arguments piece
        (environment.body ++ (endMarker name ++ rest))
  balanced : readBody name (environment.body ++ (endMarker name ++ rest)) =
    some (environment.body, rest)
  start : environment.start = cursor.offset
  stop : environment.stop = cursor.offset + Text.utf8Length matched

/-- An environment is spelled by its opening marker, groups, its body and its closing marker. -/
theorem IsEnvironment.exists_groups {name matched rest : Text} {maxOptions required : Nat}
    {cursor : Cursor} {found : Environment}
    (isEnvironment : IsEnvironment name maxOptions required cursor matched rest found) :
    ∃ options required, SpellsGroups '[' ']' found.arguments.options options ∧
      SpellsGroups '{' '}' found.arguments.required required ∧
        matched =
          beginMarker name ++ (options ++ (required ++ (found.body ++ endMarker name))) := by
  obtain ⟨piece, split, spells⟩ := isEnvironment.spelled
  obtain ⟨options, required, spellsOptions, spellsRequired, rfl⟩ := spells.spelled
  have unstarred : found.arguments.starred = false := (readArguments_iff.mp spells.read).1
  refine ⟨options, required, spellsOptions, spellsRequired, ?_⟩
  rw [split, unstarred, if_neg Bool.false_ne_true, List.nil_append, List.append_assoc]

/-- An opening marker at which no complete environment stands. -/
structure IsOpenMarker (name : Text) (maxOptions required : Nat) (cursor : Cursor)
    (passed rest : Text) : Prop where
  spelled : passed = beginMarker name
  unmatched : ∀ matched behind environment, passed ++ rest = matched ++ behind →
    ¬ IsEnvironment name maxOptions required cursor matched behind environment

/-- The search for the environments of a name. -/
def environments (name : Text) (maxOptions required : Nat) : Search Environment where
  IsMatch := IsEnvironment name maxOptions required
  IsIncomplete := IsOpenMarker name maxOptions required
  entersDeclined := false

section Environment

variable {name : Text} {maxOptions required : Nat} {cursor : Cursor}

/-- An environment is read exactly where a complete one stands. -/
theorem readEnvironment_iff {text rest : Text} {environment : Environment} :
    readEnvironment name maxOptions required cursor text = some (environment, rest) ↔
      ∃ matched, text = matched ++ rest ∧
        IsEnvironment name maxOptions required cursor matched rest environment := by
  constructor
  · intro read
    obtain ⟨free, after, inside, rfl, argumentsRead, bodyRead, start, stop⟩ :=
      readEnvironment_eq_some_iff.mp read
    obtain ⟨piece, spells, rfl⟩ := readArguments_spells argumentsRead
    obtain rfl : inside = environment.body ++ (endMarker name ++ rest) := by
      rw [splitAtClosing_eq_append bodyRead, List.append_assoc]
    refine ⟨beginMarker name ++ (piece ++ (environment.body ++ endMarker name)), by simp,
      free, ⟨piece, rfl, spells⟩, bodyRead, start, ?_⟩
    rw [stop]
    simp only [Text.utf8Length_append]
    omega
  · rintro ⟨matched, rfl, isEnvironment⟩
    obtain ⟨free, ⟨piece, split, spells⟩, balanced, start, stop⟩ := isEnvironment
    have opened : matched ++ rest =
        beginMarker name ++ (piece ++ (environment.body ++ (endMarker name ++ rest))) := by
      rw [split]
      simp
    have length : Text.utf8Length (matched ++ rest) - Text.utf8Length rest =
        Text.utf8Length matched := by
      rw [Text.utf8Length_append, Nat.add_sub_cancel]
    refine readEnvironment_eq_some_iff.mpr ⟨free, _, _, opened, spells.read, balanced, start, ?_⟩
    rw [length, ← stop]

variable (name maxOptions required cursor) in
/-- What the rule for environments offers. -/
theorem environmentRule_offers (answer : Answer σ Environment) (state : σ) (text : Text) :
    Offers (environments name maxOptions required) answer state cursor text
      (environmentRule name maxOptions required answer state cursor text) := by
  simp only [environmentRule]
  split
  next unread =>
    have unmatched (matched behind : Text) (found : Environment)
        (split : text = matched ++ behind) :
        ¬ IsEnvironment name maxOptions required cursor matched behind found := by
      intro isEnvironment
      rw [readEnvironment_iff.mpr ⟨matched, split, isEnvironment⟩] at unread
      cases unread
    cases opened : Text.dropFront? (beginMarker name) text with
    | none =>
      refine .silent ⟨unmatched, ?_⟩
      rintro passed rest split ⟨rfl, -⟩
      exact Text.dropFront?_eq_none_iff.mp opened ⟨rest, split.symm⟩
    | some after =>
      have split := Text.dropFront?_eq_some_iff.mp opened
      exact .passed split (beginMarker_ne_nil name) ⟨rfl, by rwa [← split]⟩
  next environment rest read =>
    obtain ⟨matched, split, isEnvironment⟩ := readEnvironment_iff.mp read
    have nonempty : matched ≠ [] := by
      obtain ⟨piece, spelled, -⟩ := isEnvironment.spelled
      rw [spelled]
      exact List.append_ne_nil_of_left_ne_nil (beginMarker_ne_nil name) _
    exact .matched split nonempty rfl isEnvironment

/-- An edit of an environment rewrites the text by its outermost uses. -/
theorem rewrites_editEnvironment {answer : Answer σ Environment} (state : σ) (text : Text) :
    Rewrites (environments name maxOptions required) answer state Cursor.start text
      (editEnvironment name maxOptions required answer state text).1
      (editEnvironment name maxOptions required answer state text).2 :=
  rewrites_editFrom (fun state cursor suffix _ =>
    environmentRule_offers name maxOptions required cursor answer state suffix) state Cursor.start
    text

end Environment

/-! ## Delimited spans -/

/-- A delimited span: its delimiters stand at positions that are not escaped, and no such
position in the body starts the closing one. -/
structure IsSpan (opening closing : Text) (cursor : Cursor) (matched rest body : Text) : Prop where
  spelled : matched = opening ++ (body ++ closing)
  opens : cursor.escaped = false
  closes : escapesAfter (cursor.advanceOver opening).escaped body = false
  first : Everywhere (fun suffix => ¬ closing <+: suffix ++ (closing ++ rest))
    (cursor.advanceOver opening).escaped body

/-- The search for the spans between two delimiters. -/
def spans (opening closing : Text) : Search Text where
  IsMatch := IsSpan opening closing
  IsIncomplete := fun _ _ _ => False
  entersDeclined := false

section Span

variable {opening closing : Text} {cursor : Cursor}

variable (cursor) in
/-- What the rule for delimited spans offers. -/
theorem delimitedRule_offers (filled : ¬ (opening = [] ∧ closing = [])) (answer : Answer σ Text)
    (state : σ) (text : Text) :
    Offers (spans opening closing) answer state cursor text
      (delimitedRule opening closing answer state cursor text) := by
  simp only [delimitedRule]
  split
  next unopened =>
    refine .silent ⟨fun matched behind found split isSpan => ?_, fun _ _ _ => id⟩
    obtain ⟨rfl, opens, -, -⟩ := isSpan
    rw [split, List.append_assoc, Text.dropFront?_append, opens, ite_eq_left_iff] at unopened
    simp at unopened
  next inside opened =>
  rw [ite_eq_iff] at opened
  obtain ⟨-, impossible⟩ | ⟨free, opened⟩ := opened
  · cases impossible
  rw [Bool.not_eq_true] at free
  obtain rfl := Text.dropFront?_eq_some_iff.mp opened
  split
  next unclosed =>
    refine .silent ⟨fun matched behind found split isSpan => ?_, fun _ _ _ => id⟩
    obtain ⟨rfl, -, closes, first⟩ := isSpan
    have same : inside = found ++ (closing ++ behind) := by simpa using split
    rw [splitUnescaped?_iff.mpr ⟨same, closes, first⟩] at unclosed
    cases unclosed
  next body rest closed =>
    obtain ⟨rfl, closes, first⟩ := splitUnescaped?_iff.mp closed
    have nonempty : opening ++ (body ++ closing) ≠ [] := by
      intro empty
      simp only [List.append_eq_nil_iff] at empty
      exact filled ⟨empty.1, empty.2.2⟩
    exact .matched (by simp) nonempty rfl ⟨rfl, free, closes, first⟩

/-- Where an edit between two delimiters gives a result, it rewrites the text by their spans. -/
theorem rewrites_editBetween {answer : Answer σ Text} {state next : σ} {text written : Text}
    (edited : editBetween opening closing answer state text = .ok (next, written)) :
    Rewrites (spans opening closing) answer state Cursor.start text next written := by
  have filled : ¬ (opening = [] ∧ closing = []) := by
    rintro ⟨rfl, rfl⟩
    rw [editBetween_stuck] at edited
    cases edited
  rw [editBetween, editBetweenFrom_eq filled] at edited
  obtain ⟨-, -, same⟩ := map_eq_ok_iff.mp edited
  have rewrites := rewrites_editFrom (fun state cursor suffix _ =>
    delimitedRule_offers cursor filled answer state suffix) state Cursor.start text
  rwa [same] at rewrites

end Span

/-! ## Grouped declarations -/

section Declaration

/-- The name of a declaration is all letters up to its rest. -/
structure Declaration.IsNamed (declaration : Declaration) : Prop where
  nonempty : declaration.name ≠ []
  letters : ∀ c ∈ declaration.name, c.isAlpha = true
  ends : Text.startsWithLetter declaration.rest = false

/-- The letters in front of what no letter continues. -/
theorem span_letters {name rest : Text} (letters : ∀ c ∈ name, c.isAlpha = true)
    (ends : Text.startsWithLetter rest = false) :
    (name ++ rest).takeWhile Char.isAlpha = name ∧
      (name ++ rest).dropWhile Char.isAlpha = rest := by
  rw [List.takeWhile_append_of_pos letters, List.dropWhile_append_of_pos letters]
  cases rest with
  | nil => exact ⟨List.append_nil name, rfl⟩
  | cons c others =>
    have other : ¬ c.isAlpha = true := Bool.eq_false_iff.mp ends
    rw [List.takeWhile_cons_of_neg other, List.dropWhile_cons_of_neg other]
    exact ⟨List.append_nil name, rfl⟩

/-- What is left behind the letters starts with none. -/
theorem startsWithLetter_dropWhile (text : Text) :
    Text.startsWithLetter (text.dropWhile Char.isAlpha) = false := by
  cases behind : text.dropWhile Char.isAlpha with
  | nil => rfl
  | cons c rest =>
    have nonempty : text.dropWhile Char.isAlpha ≠ [] := by simp [behind]
    have other := List.head_dropWhile_not Char.isAlpha nonempty
    simp only [behind, List.head_cons] at other
    exact other

/-- What starts with a letter in front of a closing brace has letters at its front. -/
theorem takeWhile_ne_nil {text rest : Text}
    (letter : Text.startsWithLetter (text ++ '}' :: rest) = true) :
    text.takeWhile Char.isAlpha ≠ [] := by
  cases text with
  | nil =>
    have alpha : '}'.isAlpha = true := letter
    exact absurd alpha (by decide)
  | cons c more =>
    have alpha : c.isAlpha = true := letter
    rw [List.takeWhile_cons_of_pos alpha]
    exact List.cons_ne_nil _ _

/-- A closing brace ends a gap. -/
theorem skipGap_closing (inner rest : Text) :
    Text.skipGap (inner ++ '}' :: rest) = Text.skipGap inner ++ '}' :: rest := by
  rw [Text.skipGap, Text.skipGap, List.dropWhile_append]
  split
  next empty =>
    rw [List.isEmpty_iff.mp empty, List.dropWhile_cons_of_neg (by decide)]
    rfl
  · rfl

/-- A declaration is read from a group that a gap and a command open. -/
theorem readDeclaration_iff {text after : Text} {declaration : Declaration} :
    readDeclaration text = some (declaration, after) ↔
      declaration.IsNamed ∧ ∃ gap, Text.IsGap gap ∧ readBraced text =
        some (gap ++ '\\' :: (declaration.name ++ declaration.rest), after) := by
  constructor
  · intro read
    unfold readDeclaration at read
    split at read
    · cases read
    next c inside =>
    split at read
    · next opening =>
      subst opening
      split at read
      · cases read
      next first name skipped =>
      split at read
      · next starts =>
        simp only [Option.bind_eq_bind, Option.bind_eq_some_iff, Option.some.injEq,
          Prod.mk.injEq, Prod.exists] at read
        obtain ⟨inner, rest, group, rfl, rfl⟩ := read
        rw [Bool.and_eq_true, decide_eq_true_eq] at starts
        obtain ⟨rfl, letter⟩ := starts
        obtain ⟨gap, gapped, split⟩ := exists_gap inner
        rw [(List.cons.inj (readBraced_eq_append group)).2, skipGap_closing] at skipped
        cases content : Text.skipGap inner with
        | nil =>
          rw [content] at skipped
          cases (List.cons.inj skipped).1
        | cons d spelled =>
          rw [content] at skipped split
          obtain ⟨rfl, rfl⟩ := List.cons.inj skipped
          refine ⟨⟨takeWhile_ne_nil letter, fun _ => List.mem_takeWhile_imp,
            startsWithLetter_dropWhile spelled⟩, gap, gapped, ?_⟩
          rw [group, List.tail_cons, List.takeWhile_append_dropWhile, ← split]
      · cases read
    · cases read
  · rintro ⟨named, gap, gapped, group⟩
    obtain ⟨first, letters, same⟩ := List.exists_cons_of_ne_nil named.nonempty
    have alpha : first.isAlpha = true := named.letters first (same ▸ List.mem_cons_self)
    have skipped (behind : Text) : Text.skipGap (gap ++ '\\' :: behind) = '\\' :: behind :=
      Text.skipGap_gap gapped (by decide)
    have whole : text = '{' :: (gap ++ '\\' :: (declaration.name ++ declaration.rest ++
        '}' :: after)) := by
      rw [readBraced_eq_append group]
      simp
    obtain ⟨name, rest⟩ := span_letters named.letters named.ends
    have starts (behind : Text) :
        Text.startsWithLetter (declaration.name ++ declaration.rest ++ behind) = true := by
      rw [same]
      exact alpha
    rw [whole] at group ⊢
    simp only [readDeclaration, if_true, skipped, starts, group, Option.bind_eq_bind,
      Option.bind_some, List.tail_cons, name, rest, decide_true, Bool.and_self]

/-- The rest of a declaration is shorter than the text it is read from. -/
theorem declarationRule_nesting {answer : Answer σ Declaration} :
    IsNesting fun nested => declarationRule (σ := σ) nested answer := by
  intro first second text same state cursor
  simp only [declarationRule]
  split
  · rfl
  split
  · rfl
  next declaration after read =>
    obtain ⟨-, gap, -, group⟩ := readDeclaration_iff.mp read
    have shorter : declaration.rest.length < text.length := by
      rw [readBraced_eq_append group]
      simp only [List.length_cons, List.length_append]
      omega
    simp only [same state declaration.rest shorter]

/-- A declaration is edited by its rule, with what it acts on edited in the same way. -/
theorem editDeclaration_eq {answer : Answer σ Declaration} (state : σ) (text : Text) :
    editDeclaration answer state text =
      edit (declarationRule (editDeclaration answer) answer) state text :=
  declarationRule_nesting.edit_eq (fun _ _ => rfl) (fun _ _ _ => rfl) state text

/-- A grouped declaration: a group that a gap and a command open. -/
structure IsDeclaration (cursor : Cursor) (matched rest : Text) (declaration : Declaration) :
    Prop where
  unescaped : cursor.escaped = false
  named : declaration.IsNamed
  spelled : ∃ gap, Text.IsGap gap ∧
    matched = '{' :: (gap ++ '\\' :: (declaration.name ++ declaration.rest)) ++ ['}'] ∧
      readBraced (matched ++ rest) =
        some (gap ++ '\\' :: (declaration.name ++ declaration.rest), rest)

theorem IsDeclaration.ne_nil {cursor : Cursor} {matched rest : Text} {declaration : Declaration}
    (isDeclaration : IsDeclaration cursor matched rest declaration) : matched ≠ [] := by
  obtain ⟨gap, -, rfl, -⟩ := isDeclaration.spelled
  exact List.cons_ne_nil _ _

/-- Where nothing is escaped, a declaration stands wherever one is read. -/
theorem exists_isDeclaration {cursor : Cursor} {text after : Text} {declaration : Declaration}
    (free : cursor.escaped = false) (read : readDeclaration text = some (declaration, after)) :
    ∃ matched, text = matched ++ after ∧ IsDeclaration cursor matched after declaration := by
  obtain ⟨named, gap, gapped, group⟩ := readDeclaration_iff.mp read
  have split : text = '{' :: (gap ++ '\\' :: (declaration.name ++ declaration.rest)) ++ ['}'] ++
      after := by
    rw [readBraced_eq_append group]
    simp
  exact ⟨_, split, free, named, gap, gapped, rfl, split ▸ group⟩

/-- The search for grouped declarations. -/
def declarations : Search Declaration where
  IsMatch := IsDeclaration
  IsIncomplete := fun _ _ _ => False
  entersDeclined := true

/-- Edit the rest of a declaration, and then ask for the answer. -/
def answerEditedRest (nested : σ → Text → σ × Text) (answer : Answer σ Declaration) :
    Answer σ Declaration :=
  fun state declaration =>
    let (state, rest) := nested state declaration.rest
    answer state ⟨declaration.name, rest⟩

/-- What the rule for grouped declarations offers. -/
theorem declarationRule_offers (nested : σ → Text → σ × Text) (answer : Answer σ Declaration)
    (state : σ) (cursor : Cursor) (text : Text) :
    Offers declarations (answerEditedRest nested answer) state cursor text
      (declarationRule nested answer state cursor text) := by
  simp only [declarationRule]
  split
  next escaped =>
    refine .silent ⟨fun matched behind found _ isDeclaration => ?_, fun _ _ _ => id⟩
    rw [isDeclaration.unescaped] at escaped
    cases escaped
  next free =>
  split
  next unread =>
    refine .silent ⟨fun matched behind found split isDeclaration => ?_, fun _ _ _ => id⟩
    obtain ⟨-, named, gap, gapped, -, group⟩ := isDeclaration
    rw [readDeclaration_iff.mpr ⟨named, gap, gapped, split ▸ group⟩] at unread
    cases unread
  next declaration after read =>
    obtain ⟨matched, split, isDeclaration⟩ :=
      exists_isDeclaration (Bool.eq_false_iff.mpr free) read
    exact .entered split isDeclaration.ne_nil rfl isDeclaration

/-- An edit of grouped declarations rewrites the text by them. -/
theorem rewrites_editDeclaration {answer : Answer σ Declaration} (state : σ) (text : Text) :
    Rewrites declarations (answerEditedRest (editDeclaration answer) answer) state Cursor.start
      text (editDeclaration answer state text).1 (editDeclaration answer state text).2 := by
  rw [editDeclaration_eq]
  exact rewrites_editFrom (fun _ _ _ _ => declarationRule_offers _ _ _ _ _) state Cursor.start text

end Declaration

/-! ## The four edits -/

/-- Each of the four edits rewrites the text by its matches, with nested uses edited in the
same way before the answer on them is asked for. Where every answer declines, all four leave
the text as it is. The edit between two delimiters comes to no result only if both are empty,
or if the text holds a delimiter behind a backslash that starts with a character of several
bytes there. -/
theorem edits_rewrite (state : σ) (text : Text) :
    (∀ name signature answer,
      Rewrites (uses name signature) (answerEdited (editCommand name signature answer) answer)
        state Cursor.start text (editCommand name signature answer state text).1
          (editCommand name signature answer state text).2) ∧
    (∀ name maxOptions required answer,
      Rewrites (environments name maxOptions required) answer state Cursor.start text
        (editEnvironment name maxOptions required answer state text).1
          (editEnvironment name maxOptions required answer state text).2) ∧
    (∀ opening closing answer,
      match editBetween opening closing answer state text with
      | .ok (next, written) =>
        Rewrites (spans opening closing) answer state Cursor.start text next written
      | .error .slice =>
        OccursEscapedWide opening false text ∨ OccursEscapedWide closing false text
      | .error .stuck => opening = [] ∧ closing = []
      | .error .counter => False) ∧
    (∀ answer,
      Rewrites declarations (answerEditedRest (editDeclaration answer) answer) state Cursor.start
        text (editDeclaration answer state text).1 (editDeclaration answer state text).2) ∧
    (∀ name signature (change : σ → Arguments → σ),
      (editCommand name signature (fun state found => (change state found, none)) state text).2 =
        text) ∧
    (∀ name maxOptions required (change : σ → Environment → σ),
      (editEnvironment name maxOptions required
        (fun state found => (change state found, none)) state text).2 = text) ∧
    (∀ opening closing (change : σ → Text → σ) next written,
      editBetween opening closing (fun state found => (change state found, none)) state text =
        .ok (next, written) → written = text) ∧
    ∀ change : σ → Declaration → σ,
      (editDeclaration (fun state found => (change state found, none)) state text).2 = text := by
  refine ⟨fun name signature answer => rewrites_editCommand state text,
    fun name maxOptions required answer => rewrites_editEnvironment state text,
    fun opening closing answer => ?_,
    fun answer => rewrites_editDeclaration state text,
    fun name signature change => (rewrites_editCommand state text).eq_of_declines fun _ _ => rfl,
    fun name maxOptions required change =>
      (rewrites_editEnvironment state text).eq_of_declines fun _ _ => rfl,
    fun opening closing change next written edited =>
      (rewrites_editBetween edited).eq_of_declines fun _ _ => rfl,
    fun change => (rewrites_editDeclaration state text).eq_of_declines fun _ _ => rfl⟩
  cases edited : editBetween opening closing answer state text with
  | ok result => exact rewrites_editBetween edited
  | error fault =>
    obtain ⟨rfl, occurs⟩ | ⟨rfl, empty⟩ := editBetweenFrom_eq_error edited
    · exact occurs
    · exact empty

/-- A span between dollars is counted and declined; behind it one dollar is escaped, and the last
one opens nothing. -/
theorem edits_rewrite_dollars :
    ∃ written, editBetween ['$'] ['$'] (fun count _ => (count + 1, none)) 0
        "a $x$ \\$ $".toList = .ok (1, written) ∧
      Rewrites (spans ['$'] ['$']) (fun count _ => (count + 1, none)) 0 Cursor.start
        "a $x$ \\$ $".toList 1 written ∧ written = "a $x$ \\$ $".toList := by
  have edited : editBetween ['$'] ['$'] (fun count _ => (count + 1, none)) 0
      "a $x$ \\$ $".toList = .ok (1, "a $x$ \\$ $".toList) := by
    refine (editBetween_narrow ⟨['$'], ['$'], rfl, rfl⟩ _ _ _).trans ?_
    decide
  obtain ⟨-, -, between, -, -, -, declined, -⟩ := edits_rewrite 0 "a $x$ \\$ $".toList
  have rewritten := between ['$'] ['$'] fun count _ => (count + 1, none)
  rw [edited] at rewritten
  exact ⟨_, edited, rewritten, declined ['$'] ['$'] (fun count _ => count + 1) 1 _ edited⟩

/-- Behind a backslash the search for a delimiter goes on inside its first character. -/
theorem replaceBetween_wide :
    replaceBetween "é".toList "é".toList (fun _ => none) "\\é".toList = .error .slice := by
  rw [replaceBetween, editBetween, editBetweenFrom]
  rfl

end LatexMarkdown.Scan
