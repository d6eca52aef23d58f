import LatexMarkdown.Block.Line
import LatexMarkdown.Proofs.LabelNumbers

/-!
# The numbers of bibliography items

One reader finds the bibliography items that are numbered, another those that are
written. The first ends a label at its first closing bracket and a key at its first
closing brace; the second counts brackets and braces, and knows stars and escapes. An
item that only the second one finds is written with a question mark.
-/

namespace LatexMarkdown

open Scan

/-! ## Gaps -/

namespace Text

section Gap

variable {gap rest : Text} {c : Char} (gapped : IsGap gap) (visible : isBlank c = false)

include gapped visible

theorem trimStart_gap : trimStart (gap ++ c :: rest) = c :: rest := by
  rw [trimStart, List.dropWhile_append_of_pos fun d member => isBlank_of_isGap (gapped d member),
    List.dropWhile_cons_of_neg (by rw [visible]; exact Bool.false_ne_true)]

theorem skipGap_gap : skipGap (gap ++ c :: rest) = c :: rest := by
  rw [skipGap, List.dropWhile_append_of_pos gapped,
    List.dropWhile_cons_of_neg (by rw [isGap_of_visible visible]; exact Bool.false_ne_true)]

end Gap

/-- What is visible behind a gap is visible behind all blanks. -/
theorem trimStart_of_skipGap {text rest : Text} {c : Char} (behind : skipGap text = c :: rest)
    (visible : isBlank c = false) : trimStart text = c :: rest := by
  have gapped : IsGap (text.takeWhile isGap) := fun _ => List.mem_takeWhile_imp
  have split : text = text.takeWhile isGap ++ c :: rest := by
    rw [← behind]
    exact List.takeWhile_append_dropWhile.symm
  rw [split, trimStart_gap gapped visible]

end Text

/-! ## Readers of groups -/

namespace Scan

/-- Without a closing brace no braced argument is read. -/
theorem readArguments_of_unclosed {signature : Signature} (argued : signature.required ≠ 0)
    {text : Text} (unclosed : '}' ∉ text) : readArguments signature text = none := by
  obtain ⟨count, required⟩ := Nat.exists_eq_succ_of_ne_zero argued
  have unread {within : Text} (suffix : within <:+ text) :
      readRequired signature.required within = none := by
    have braced : readBraced (Text.skipGap within) = none := by
      cases found : readBraced (Text.skipGap within) with
      | none => rfl
      | some pair =>
        have closing : '}' ∈ Text.skipGap within := by
          rw [readBraced_eq_append found]
          simp
        exact absurd (((skipGap_suffix within).trans suffix).subset closing) unclosed
    rw [required, readRequired, braced]
    rfl
  have start : (if (signature.starrable && decide (text.head? = some '*')) = true then text.tail
      else text) <:+ text := by
    split
    · exact List.tail_suffix text
    · exact List.suffix_refl text
  rw [readArguments]
  cases options : readOptions signature.maxOptions (if (signature.starrable &&
      decide (text.head? = some '*')) = true then text.tail else text) with
  | none => rfl
  | some pair =>
    have behind := unread ((readOptions_suffix options).trans start)
    simp only [Option.bind_eq_bind, Option.bind_some, behind, Option.bind_none]

section Command

variable {σ : Type} {name : Text} {signature : Signature} {answer : Answer σ Arguments}
  {state : σ}

theorem afterCommand?_append {after : Text} (ends : Text.startsWithLetter after = false) :
    afterCommand? name ('\\' :: (name ++ after)) = some after := by
  rw [afterCommand?, if_pos rfl, Text.dropFront?_append]
  simp only [ends, Bool.false_eq_true, if_false]

/-- A command whose arguments cannot be read is kept: nothing is offered at it, or just what
it is spelled with. -/
theorem commandRule_unread {after : Text} (unread : readArguments signature after = none)
    (nested : σ → Text → σ × Text) (cursor : Cursor) :
    commandRule name signature nested answer state cursor ('\\' :: (name ++ after)) =
        (state, none) ∨
      commandRule name signature nested answer state cursor ('\\' :: (name ++ after)) =
        (state, some (Edit.byAnswer ('\\' :: (name ++ after)) after none)) := by
  simp only [commandRule]
  split
  · exact .inl rfl
  split
  · exact .inl rfl
  next found =>
    obtain rfl : after = _ :=
      List.append_cancel_left (List.cons.inj (afterCommand?_eq_append found)).2
    rw [unread]
    exact .inr rfl

/-- The edit of a command whose arguments cannot be read goes on behind its backslash. -/
theorem editFrom_unread (plain : '\\' ∉ name) {after : Text}
    (unread : readArguments signature after = none) (nested : σ → Text → σ × Text)
    (cursor : Cursor) :
    editFrom (commandRule name signature nested answer) state cursor 0 ('\\' :: (name ++ after)) =
      ((editFrom (commandRule name signature nested answer) state (cursor.advance '\\') 0
        (name ++ after)).1, '\\' :: (editFrom (commandRule name signature nested answer) state
          (cursor.advance '\\') 0 (name ++ after)).2) := by
  rcases commandRule_unread unread nested cursor with silent | offered
  · exact editFrom_keep silent
  · -- No use starts inside the name, so what is covered there is kept one by one as well.
    have inside : ∀ cursor suffix, suffix <:+ name → suffix ≠ [] →
        commandRule name signature nested answer state cursor (suffix ++ after) =
          (state, none) := by
      intro cursor suffix within nonempty
      obtain ⟨c, others, rfl⟩ := List.exists_cons_of_ne_nil nonempty
      have different : c ≠ '\\' := fun same => plain (same ▸ within.subset List.mem_cons_self)
      exact commandRule_startsAtBackslash name signature nested answer state cursor c _ different
    rw [← List.cons_append, byAnswer_none] at offered
    rw [editFrom_pass inside, ← List.cons_append,
      editFrom_replace (List.cons_ne_nil '\\' name) offered]
    rfl

/-- A text without closing braces has no use of a command with a braced argument. -/
theorem editCommandAt_of_unclosed (argued : signature.required ≠ 0) {text : Text}
    (unclosed : '}' ∉ text) (depth : Nat) :
    editCommandAt name signature answer depth state text = (state, text) := by
  cases depth with
  | zero => rfl
  | succ depth =>
    refine editFrom_of_keeping (fun cursor suffix within _ => ?_) Cursor.start
    cases found : afterCommand? name suffix with
    | none =>
      refine .inl ?_
      simp only [commandRule, found, ite_self]
    | some after =>
      obtain rfl := afterCommand?_eq_append found
      have unread : readArguments signature after = none :=
        readArguments_of_unclosed argued fun closing =>
          unclosed (within.subset (List.mem_cons_of_mem _ (List.mem_append_right _ closing)))
      exact (commandRule_unread unread _ cursor).imp_right fun offered =>
        ⟨'\\' :: name, after, List.cons_ne_nil _ _, rfl, offered⟩

/-- The use of a command between texts without commands is answered in its place. -/
theorem editCommand_use {before argument after : Text} (bare : '\\' ∉ before ∧ '\\' ∉ after)
    (braced : ∀ rest, readBraced ('{' :: (argument ++ '}' :: rest)) = some (argument, rest))
    (unclosed : '}' ∉ argument) {maxOptions : Nat} {next : σ} {written : Text}
    (answered : answer state ⟨false, [], [argument]⟩ = (next, some written)) :
    editCommand name ⟨true, maxOptions, 1⟩ answer state (before ++ (use name argument ++ after)) =
      (next, before ++ (written ++ after)) := by
  refine editCommand_of_turns fun depth => ?_
  have kept {state : σ} {piece : Text} (bare : '\\' ∉ piece) :
      Turns (commandRule name ⟨true, maxOptions, 1⟩
        (editCommandAt name ⟨true, maxOptions, 1⟩ answer depth) answer) state piece state piece :=
    Turns.spelled (commandRule_startsAt name _ _ answer) (Spells.of_plain bare : Spells [] piece)
      (List.forall_mem_nil _)
  have used : Turns (commandRule name ⟨true, maxOptions, 1⟩
      (editCommandAt name ⟨true, maxOptions, 1⟩ answer depth) answer) state (use name argument)
      next written :=
    .use_of_braced braced (editCommandAt_of_unclosed (Nat.succ_ne_zero 0) unclosed depth) answered
  exact (kept bare.1).append (used.append (kept bare.2))

end Command

end Scan

namespace Bibliography

open LatexMarkdown.Numbering

open Block (convertItems)

/-! ## How items are spelled -/

/-- A key that both readers read: it ends at its first closing brace, and all braces in
it are matched. -/
structure IsKey (key : Text) : Prop where
  unclosed : '}' ∉ key
  balanced : readBraced ('{' :: (key ++ ['}'])) = some (key, [])

/-- A label that both readers read: it ends at its first closing bracket, and no brace is
open there. -/
structure IsLabel (label : Text) : Prop where
  unclosed : ']' ∉ label
  balanced : readBracketed ('[' :: (label ++ [']'])) = some (label, [])

instance (key : Text) : Decidable (IsKey key) :=
  decidable_of_iff ('}' ∉ key ∧ readBraced ('{' :: (key ++ ['}'])) = some (key, []))
    ⟨fun ⟨unclosed, balanced⟩ => ⟨unclosed, balanced⟩,
      fun ⟨unclosed, balanced⟩ => ⟨unclosed, balanced⟩⟩

instance (label : Text) : Decidable (IsLabel label) :=
  decidable_of_iff (']' ∉ label ∧ readBracketed ('[' :: (label ++ [']'])) = some (label, []))
    ⟨fun ⟨unclosed, balanced⟩ => ⟨unclosed, balanced⟩,
      fun ⟨unclosed, balanced⟩ => ⟨unclosed, balanced⟩⟩

/-- The label of an item in its brackets, with the gap before it, or nothing. -/
inductive IsOption : Text → Prop
  | absent : IsOption []
  | label {gap label : Text} (gapped : Text.IsGap gap) (isLabel : IsLabel label) :
      IsOption (gap ++ '[' :: (label ++ [']']))

/-- What stands behind the command of an item: its label, its key in braces, and the
rest of the text. -/
def OpensItem (after key rest : Text) : Prop :=
  ∃ option gap, IsOption option ∧ Text.IsGap gap ∧ IsKey key ∧
    after = option ++ (gap ++ '{' :: (key ++ '}' :: rest))

/-- What stands behind the command of an item where neither reader finds an item: no
closing brace follows, or neither a star nor an argument is next. -/
def IsIgnored (after : Text) : Prop :=
  '}' ∉ after ∨ ∀ c, (Text.trimStart after).head? = some c → c ∉ ['*', '[', '{']

/-- Both readers find the same items: wherever the command of an item is spelled, it
opens an item and is not escaped, or it is ignored by both. -/
def IsRegular (text : Text) : Prop :=
  ∀ before after, text = before ++ ("\\bibitem".toList ++ after) →
    IsIgnored after ∨
      (Cursor.start.advanceOver before).escaped = false ∧ ∃ key rest, OpensItem after key rest

theorem IsKey.readBraced_eq {key : Text} (isKey : IsKey key) (rest : Text) :
    readBraced ('{' :: (key ++ '}' :: rest)) = some (key, rest) := by
  have spelled : '{' :: (key ++ '}' :: rest) = '{' :: (key ++ ['}']) ++ rest := by simp
  rw [spelled, readBraced_append isKey.balanced, List.nil_append]

theorem IsLabel.readBracketed_eq {label : Text} (isLabel : IsLabel label) (rest : Text) :
    readBracketed ('[' :: (label ++ ']' :: rest)) = some (label, rest) := by
  have spelled : '[' :: (label ++ ']' :: rest) = '[' :: (label ++ [']']) ++ rest := by simp
  rw [spelled, readBracketed_append isLabel.balanced, List.nil_append]

/-! ## Both readers on one item -/

section Item

variable {option gap key after rest : Text}

theorem readRequired_key (gapped : Text.IsGap gap) (isKey : IsKey key) :
    readRequired 1 (gap ++ '{' :: (key ++ '}' :: rest)) = some ([key], rest) := by
  have braces : Text.skipGap (gap ++ '{' :: (key ++ '}' :: rest)) = '{' :: (key ++ '}' :: rest) :=
    Text.skipGap_gap gapped (by decide)
  simp [readRequired, braces, isKey.readBraced_eq]

/-- The label is passed over by the one reader and read by the other. -/
theorem IsOption.read_eq (isOption : IsOption option) (gapped : Text.IsGap gap) :
    skipEnclosed '[' ']' (option ++ (gap ++ '{' :: rest)) = gap ++ '{' :: rest ∧
      ∃ options, readOptions 1 (option ++ (gap ++ '{' :: rest)) =
        some (options, gap ++ '{' :: rest) := by
  cases isOption with
  | absent =>
    have blanks : Text.trimStart (gap ++ '{' :: rest) = '{' :: rest :=
      Text.trimStart_gap gapped (by decide)
    have braces : Text.skipGap (gap ++ '{' :: rest) = '{' :: rest :=
      Text.skipGap_gap gapped (by decide)
    rw [List.nil_append]
    refine ⟨?_, [], by simp [readOptions, braces]⟩
    rw [skipEnclosed, blanks]
    rfl
  | @label before label spaced isLabel =>
    have spelled : before ++ '[' :: (label ++ [']']) ++ (gap ++ '{' :: rest) =
        before ++ '[' :: (label ++ ']' :: (gap ++ '{' :: rest)) := by simp
    have blanks : Text.trimStart (before ++ '[' :: (label ++ ']' :: (gap ++ '{' :: rest))) =
        '[' :: (label ++ ']' :: (gap ++ '{' :: rest)) := Text.trimStart_gap spaced (by decide)
    have brackets : Text.skipGap (before ++ '[' :: (label ++ ']' :: (gap ++ '{' :: rest))) =
        '[' :: (label ++ ']' :: (gap ++ '{' :: rest)) := Text.skipGap_gap spaced (by decide)
    rw [spelled]
    refine ⟨?_, [label], by simp [readOptions, brackets, isLabel.readBracketed_eq]⟩
    rw [skipEnclosed, blanks, readEnclosed_append '[' isLabel.unclosed]

/-- The command of an item ends before its first argument, and it has no star. -/
theorem IsOption.starts (isOption : IsOption option) (gapped : Text.IsGap gap) :
    Text.startsWithLetter (option ++ (gap ++ '{' :: rest)) = false ∧
      (option ++ (gap ++ '{' :: rest)).head? ≠ some '*' := by
  have front {gap rest : Text} {sign : Char} (gapped : Text.IsGap gap)
      (isSign : sign.isAlpha = false ∧ sign ≠ '*') :
      Text.startsWithLetter (gap ++ sign :: rest) = false ∧
        (gap ++ sign :: rest).head? ≠ some '*' := by
    cases gap with
    | nil => exact ⟨isSign.1, fun star => isSign.2 (Option.some.inj star)⟩
    | cons c others =>
      have blank : Text.isGap c = true := gapped c List.mem_cons_self
      simp only [Text.isGap, Bool.or_eq_true, decide_eq_true_eq] at blank
      rcases blank with ((rfl | rfl) | rfl) | rfl <;> exact ⟨rfl, by simp⟩
  cases isOption with
  | absent => exact front gapped (by decide)
  | label spaced isLabel =>
    rw [List.append_assoc, List.cons_append]
    exact front spaced (by decide)

/-- An item is read as its key and the rest by the reader that numbers. -/
theorem OpensItem.readItem_eq (opens : OpensItem after key rest) :
    readItem ("\\bibitem".toList ++ after) = some (key, rest) := by
  obtain ⟨option, gap, isOption, gapped, isKey, rfl⟩ := opens
  have blanks : Text.trimStart (gap ++ '{' :: (key ++ '}' :: rest)) =
      '{' :: (key ++ '}' :: rest) := Text.trimStart_gap gapped (by decide)
  simp only [readItem, Text.dropFront?_append, Option.bind_eq_bind, Option.bind_some,
    (isOption.read_eq gapped).1, blanks, readEnclosed_append '{' isKey.unclosed]

/-- An item is read as its key and the rest by the reader that writes. -/
theorem OpensItem.readArguments_eq (opens : OpensItem after key rest) :
    ∃ options, readArguments ⟨true, 1, 1⟩ after = some (⟨false, options, [key]⟩, rest) := by
  obtain ⟨option, gap, isOption, gapped, isKey, rfl⟩ := opens
  obtain ⟨options, read⟩ : ∃ options,
      readOptions 1 (option ++ (gap ++ '{' :: (key ++ '}' :: rest))) =
        some (options, gap ++ '{' :: (key ++ '}' :: rest)) := (isOption.read_eq gapped).2
  have unstarred : (option ++ (gap ++ '{' :: (key ++ '}' :: rest))).head? ≠ some '*' :=
    (isOption.starts gapped).2
  refine ⟨options, ?_⟩
  simp only [readArguments, unstarred, decide_false, Bool.and_false, Bool.false_eq_true, if_false,
    read, readRequired_key gapped isKey, Option.bind_eq_bind, Option.bind_some]

theorem OpensItem.startsWithLetter_eq (opens : OpensItem after key rest) :
    Text.startsWithLetter after = false := by
  obtain ⟨option, gap, isOption, gapped, isKey, rfl⟩ := opens
  exact (isOption.starts gapped).1

theorem OpensItem.isKey (opens : OpensItem after key rest) : IsKey key := by
  obtain ⟨option, gap, isOption, gapped, isKey, rfl⟩ := opens
  exact isKey

/-- An item is a piece of the text and not empty. -/
theorem OpensItem.exists_append (opens : OpensItem after key rest) :
    ∃ arguments, after = arguments ++ rest := by
  obtain ⟨option, gap, isOption, gapped, isKey, rfl⟩ := opens
  exact ⟨option ++ (gap ++ '{' :: (key ++ ['}'])), by simp⟩

/-- Where the command of an item is ignored, nothing is numbered. -/
theorem IsIgnored.readItem_eq (ignored : IsIgnored after) :
    readItem ("\\bibitem".toList ++ after) = none := by
  simp only [readItem, Text.dropFront?_append, Option.bind_eq_bind, Option.bind_some]
  rcases ignored with unclosed | start
  · have within : Text.trimStart (skipEnclosed '[' ']' after) <:+ after :=
      (List.dropWhile_suffix _).trans (skipEnclosed_suffix '[' ']' after)
    exact readEnclosed_of_not_mem '{' fun closing => unclosed (within.subset closing)
  · have unread {opening closing : Char} (listed : opening ∈ ['*', '[', '{']) :
        readEnclosed opening closing (Text.trimStart after) = none := by
      cases front : Text.trimStart after with
      | nil => rfl
      | cons c inside =>
        refine if_neg ?_
        rintro rfl
        exact start c (by rw [front]; rfl) listed
    have unlabelled : skipEnclosed '[' ']' after = after := by
      rw [skipEnclosed, unread (by decide)]
    rw [unlabelled, unread (by decide)]

/-- Where the command of an item is ignored, nothing is written. -/
theorem IsIgnored.readArguments_eq (ignored : IsIgnored after) :
    readArguments ⟨true, 1, 1⟩ after = none := by
  rcases ignored with unclosed | start
  · exact readArguments_of_unclosed (Nat.succ_ne_zero 0) unclosed
  · have other {sign : Char} {inside : Text} (listed : sign ∈ ['*', '[', '{'])
        (visible : Text.isBlank sign = false) : Text.skipGap after ≠ sign :: inside := by
      intro front
      refine start sign ?_ listed
      rw [Text.trimStart_of_skipGap front visible]
      rfl
    have unstarred : after.head? ≠ some '*' := by
      intro star
      obtain ⟨inside, rfl⟩ := List.head?_eq_some_iff.mp star
      exact other (by decide) (by decide) (List.dropWhile_cons_of_neg (by decide))
    have unlabelled : (Text.skipGap after).head? ≠ some '[' := by
      intro bracket
      obtain ⟨inside, front⟩ := List.head?_eq_some_iff.mp bracket
      exact other (by decide) (by decide) front
    have unread : readBraced (Text.skipGap after) = none := by
      cases front : Text.skipGap after with
      | nil => rfl
      | cons c inside =>
        refine if_neg ?_
        rintro rfl
        exact other (by decide) (by decide) front
    simp [readArguments, readOptions, readRequired, unstarred, unlabelled, unread]

end Item

/-! ## Numbering -/

section Numbers

/-- The numbers of items depend on their keys alone. -/
theorem citations_foldl_addItem (keys : List Text) (numbers : Numbers) :
    (keys.foldl Numbers.addItem numbers).citations =
      keys.foldl (fun citations key => (citations.declare key).1) numbers.citations := by
  induction keys generalizing numbers with
  | nil => rfl
  | cons key others inductionHypothesis => exact inductionHypothesis _

/-- Labels have no part in the numbers of items. -/
theorem citations_foldl_addLabel (labels : List (Text × Text)) (numbers : Numbers) :
    (labels.foldl Numbers.addLabel numbers).citations = numbers.citations := by
  induction labels generalizing numbers with
  | nil => rfl
  | cons label others inductionHypothesis => exact inductionHypothesis _

/-- Keys that are all different get one number after another. -/
theorem foldl_declare (keys : List Text) (entries : KeyedList Nat) (count : Nat)
    (distinct : (entries.map Prod.fst ++ keys).Nodup) :
    keys.foldl (fun citations key => (citations.declare key).1) ⟨entries, count⟩ =
      (⟨entries ++ keys.zipIdx (count + 1), count + keys.length⟩ : CitationRegistry) := by
  induction keys generalizing entries count with
  | nil => simp
  | cons key others inductionHypothesis =>
    have absent : key ∉ entries.map Prod.fst := fun member =>
      (List.nodup_append.mp distinct).2.2 key member key List.mem_cons_self rfl
    have later : ((entries ++ [(key, count + 1)]).map Prod.fst ++ others).Nodup := by
      simpa using distinct
    rw [List.foldl_cons, CitationRegistry.declare, KeyedList.put_eq_append absent,
      inductionHypothesis _ _ later]
    simp [List.zipIdx_cons, Nat.add_comm, Nat.add_left_comm]

variable {text : Text} (distinct : (itemKeys text).Nodup)

include distinct

theorem scan_citations :
    (scan text).citations = ⟨(itemKeys text).zipIdx 1, (itemKeys text).length⟩ := by
  rw [scan, citations_foldl_addItem, citations_foldl_addLabel]
  have start : Numbers.empty.citations = ⟨[], 0⟩ := rfl
  rw [start, foldl_declare _ _ _ (by simpa using distinct), List.nil_append, Nat.zero_add,
    Nat.zero_add]

/-- The number of an item is its place among all items. -/
theorem scan_find?_eq_some_iff {key : Text} {number : Nat} :
    (scan text).citations.find? key = some number ↔
      1 ≤ number ∧ (itemKeys text)[number - 1]? = some key := by
  have keys : ((itemKeys text).zipIdx 1).map Prod.fst = itemKeys text := List.zipIdx_map_fst ..
  rw [scan_citations distinct, CitationRegistry.find?, ← List.mk_mem_zipIdx_iff_le_and_getElem?_sub]
  exact ⟨KeyedList.mem_of_find?, fun listed => KeyedList.find?_of_mem (by rwa [keys]) listed⟩

end Numbers

/-! ## What is written -/

/-- The number that is written for the item with a key, or a question mark. -/
def shownNumber (citations : CitationRegistry) (key : Text) : Text :=
  match citations.find? key with
  | some number => Text.ofNat number
  | none => unknownItem

/-- What is written for an item before its text. -/
def entry (number : Text) : Text :=
  "\n\n[".toList ++ number ++ "] ".toList

/-- An item with its key and the number that is written for it. -/
def numbered (citations : CitationRegistry) (key : Text) : Text × Text :=
  (key, shownNumber citations key)

/-- Write an item with its number, and note it. -/
def writeItem (citations : CitationRegistry) : Answer (List (Text × Text)) Arguments :=
  fun written arguments =>
    let item := numbered citations (Text.trim (arguments.argument 0))
    (written ++ [item], some (entry item.2))

/-- Write all items with their numbers. The items come in the order in which they are
written, each with its key and its number. -/
def writeItems (citations : CitationRegistry) (text : Text) : List (Text × Text) × Text :=
  editCommand "bibitem".toList ⟨true, 1, 1⟩ (writeItem citations) [] text

/-- The items that are noted are written by the pass over the bibliography. -/
theorem convertItems_eq (citations : CitationRegistry) (text : Text) :
    convertItems citations text =
      replaceControlWord "newblock".toList [] (writeItems citations text).2 := by
  have agrees : Agrees (fun (_ : Unit) (_ : List (Text × Text)) => True)
      (fun _ arguments => ((), some (entry (shownNumber citations
        (Text.trim (arguments.argument 0)))))) (writeItem citations) :=
    fun _ _ _ _ => ⟨trivial, rfl⟩
  have same := (Editor.command "bibitem".toList ⟨true, 1, 1⟩).agrees agrees () [] text trivial
  exact congrArg (replaceControlWord "newblock".toList []) same.2

/-- Every item is written with the number of its key. -/
theorem forall_mem_writeItems (citations : CitationRegistry) (text : Text) :
    ∀ item ∈ (writeItems citations text).1, item = numbered citations item.1 := by
  have step (written : List (Text × Text)) (arguments : Arguments)
      (kept : ∀ item ∈ written, item = numbered citations item.1) :
      ∀ item ∈ (writeItem citations written arguments).1, item = numbered citations item.1 := by
    intro item listed
    rcases List.mem_append.mp listed with earlier | last
    · exact kept item earlier
    · rw [List.mem_singleton.mp last]
      rfl
  exact (Editor.command "bibitem".toList ⟨true, 1, 1⟩).edit_keeps (writeItem citations) step []
    (List.forall_mem_nil _) text

section Shown

variable {text : Text} (distinct : (itemKeys text).Nodup)

include distinct

/-- An item is written with the number of a place exactly when it is the item at that
place. -/
theorem shownNumber_eq_iff {key : Text} {index : Nat} :
    shownNumber (scan text).citations key = Text.ofNat (index + 1) ↔
      (itemKeys text)[index]? = some key := by
  have place : (scan text).citations.find? key = some (index + 1) ↔
      (itemKeys text)[index]? = some key := by
    rw [scan_find?_eq_some_iff distinct, Nat.add_sub_cancel]
    exact and_iff_right (Nat.le_add_left 1 index)
  rw [← place, shownNumber]
  cases (scan text).citations.find? key with
  | none =>
    refine iff_of_false (fun mark => ?_) (by simp)
    have digit : '?' ∈ Text.ofNat (index + 1) := mark ▸ List.mem_singleton_self _
    exact absurd (Fragment.isDigit_of_mem_ofNat digit) (by decide)
  | some number =>
    rw [Option.some.injEq]
    refine ⟨fun same => ?_, congrArg Text.ofNat⟩
    have values := congrArg Text.digitsValue same
    rwa [Fragment.digitsValue_ofNat, Fragment.digitsValue_ofNat] at values

/-- The items have the numbers of their places exactly when the first items of the text
are written, in their order. -/
theorem forall_writeItems_iff :
    (∀ index item, (writeItems (scan text).citations text).1[index]? = some item →
      item.2 = Text.ofNat (index + 1)) ↔
        (writeItems (scan text).citations text).1.map Prod.fst <+: itemKeys text := by
  have place {index : Nat} {item : Text × Text}
      (listed : (writeItems (scan text).citations text).1[index]? = some item) :
      item.2 = Text.ofNat (index + 1) ↔ (itemKeys text)[index]? = some item.1 := by
    rw [← shownNumber_eq_iff distinct,
      forall_mem_writeItems _ _ item (List.mem_of_getElem? listed)]
    rfl
  rw [List.prefix_iff_getElem?]
  constructor
  · intro all index inside
    have listed := List.getElem?_eq_getElem (List.length_map Prod.fst ▸ inside)
    rw [List.getElem_map]
    exact (place listed).mp (all index _ listed)
  · intro starts index item listed
    obtain ⟨inside, found⟩ := List.getElem?_eq_some_iff.mp listed
    have same := starts index (by rwa [List.length_map])
    rw [List.getElem_map, found] at same
    exact (place listed).mpr same

end Shown

/-! ## Both readers on a text -/

/-- The rule that writes items, down to a depth. -/
def itemRule (citations : CitationRegistry) (depth : Nat) : Rule (List (Text × Text)) :=
  commandRule "bibitem".toList ⟨true, 1, 1⟩
    (editCommandAt "bibitem".toList ⟨true, 1, 1⟩ (writeItem citations) depth) (writeItem citations)

/-- An item is written with the number of its key. -/
theorem OpensItem.itemRule_eq {after key rest : Text} (opens : OpensItem after key rest)
    {cursor : Cursor} (free : cursor.escaped = false) (citations : CitationRegistry) (depth : Nat)
    (written : List (Text × Text)) :
    itemRule citations depth written cursor ("\\bibitem".toList ++ after) =
      (written ++ [numbered citations (Text.trim key)],
        some (Edit.upTo ("\\bibitem".toList ++ after) rest
          (entry (shownNumber citations (Text.trim key))))) := by
  obtain ⟨options, read⟩ := opens.readArguments_eq
  have named : afterCommand? "bibitem".toList ("\\bibitem".toList ++ after) = some after :=
    afterCommand?_append opens.startsWithLetter_eq
  have inner : mapThread (editCommandAt "bibitem".toList ⟨true, 1, 1⟩ (writeItem citations) depth)
      written [key] = (written, [key]) := by
    have kept : editCommandAt "bibitem".toList ⟨true, 1, 1⟩ (writeItem citations) depth written
        key = (written, key) :=
      editCommandAt_of_unclosed (Nat.succ_ne_zero 0) opens.isKey.unclosed depth
    simp only [mapThread, kept]
  simp only [itemRule, commandRule, free, named, read, inner]
  rfl

/-- From every place of a regular text on, the items that are numbered are written, in
their order. -/
theorem IsRegular.editFrom_eq {text : Text} (regular : IsRegular text)
    (citations : CitationRegistry) (depth : Nat) {before suffix : Text}
    (split : text = before ++ suffix) (seen : Text) (written : List (Text × Text)) :
    (editFrom (itemRule citations depth) written (Cursor.start.advanceOver before) 0 suffix).1 =
      written ++ ((keysFrom readItem seen 0 suffix).map Prod.snd).map (numbered citations) := by
  induction size : suffix.length using Nat.strong_induction_on
    generalizing before suffix seen written with
  | _ size inductionHypothesis =>
  subst size
  have advanced (piece : Text) : (Cursor.start.advanceOver before).advanceOver piece =
      Cursor.start.advanceOver (before ++ piece) := List.foldl_append.symm
  cases suffix with
  | nil => simp [keysFrom]
  | cons c rest =>
    have pass (kept : editFrom (itemRule citations depth) written
          (Cursor.start.advanceOver before) 0 (c :: rest) =
            ((editFrom (itemRule citations depth) written
              ((Cursor.start.advanceOver before).advance c) 0 rest).1,
              c :: (editFrom (itemRule citations depth) written
                ((Cursor.start.advanceOver before).advance c) 0 rest).2))
        (unread : readItem (c :: rest) = none) :
        (editFrom (itemRule citations depth) written (Cursor.start.advanceOver before) 0
          (c :: rest)).1 = written ++
            ((keysFrom readItem seen 0 (c :: rest)).map Prod.snd).map (numbered citations) := by
      rw [kept, keysFrom, unread]
      have moved : (Cursor.start.advanceOver before).advance c =
          Cursor.start.advanceOver (before ++ [c]) := advanced [c]
      rw [moved]
      exact inductionHypothesis rest.length (Nat.lt_succ_self _) (by simp [split]) (c :: seen)
        written rfl
    by_cases spelled : "\\bibitem".toList <+: c :: rest
    · obtain ⟨after, same⟩ := spelled
      rcases regular before after (by rw [split, same]) with ignored | ⟨free, key, behind, opens⟩
      · refine pass ?_ (same ▸ ignored.readItem_eq)
        obtain ⟨rfl, rfl⟩ := List.cons.inj same
        exact editFrom_unread (by decide) ignored.readArguments_eq _ _
      · obtain ⟨arguments, rfl⟩ := opens.exists_append
        have offered := opens.itemRule_eq free citations depth written
        have found := opens.readItem_eq
        have nonempty : "\\bibitem".toList ++ arguments ≠ [] := List.cons_ne_nil _ _
        rw [← List.append_assoc] at same offered found
        rw [← same] at split ⊢
        rw [editFrom_replace nonempty offered, keysFrom_match nonempty found, advanced]
        have shorter : behind.length < ("\\bibitem".toList ++ arguments ++ behind).length := by
          rw [List.length_append]
          exact Nat.lt_add_of_pos_left (List.length_pos_of_ne_nil nonempty)
        rw [← same] at inductionHypothesis
        rw [inductionHypothesis _ shorter (split.trans (List.append_assoc ..).symm)
          (("\\bibitem".toList ++ arguments).reverse ++ seen) _ rfl, List.map_cons, List.map_cons,
          List.append_assoc, List.singleton_append]
    · refine pass (editFrom_keep (commandRule_startsAt _ _ _ _ _ _ _ spelled)) ?_
      rw [readItem, Text.dropFront?_eq_none_iff.mpr spelled]
      rfl

/-- The items of a regular text are written as they are numbered. -/
theorem IsRegular.writeItems_eq {text : Text} (regular : IsRegular text)
    (citations : CitationRegistry) :
    (writeItems citations text).1 = (itemKeys text).map (numbered citations) := by
  rw [writeItems, editCommand]
  cases size : text.length with
  | zero =>
    rw [List.length_eq_zero_iff.mp size]
    rfl
  | succ depth => exact regular.editFrom_eq citations depth (List.nil_append text).symm [] []

/-- Whether a text is regular is decided at the places where the command of an item is
spelled. -/
theorem isRegular_of_places {text : Text} {places : List Nat}
    (listed : ∀ place ≤ text.length, "\\bibitem".toList <+: text.drop place → place ∈ places)
    (each : ∀ place ∈ places, IsIgnored ((text.drop place).drop "\\bibitem".toList.length) ∨
      (Cursor.start.advanceOver (text.take place)).escaped = false ∧
        ∃ key rest, OpensItem ((text.drop place).drop "\\bibitem".toList.length) key rest) :
    IsRegular text := by
  intro before after split
  have front : text.take before.length = before := by rw [split, List.take_left]
  have behind : text.drop before.length = "\\bibitem".toList ++ after := by
    rw [split, List.drop_left]
  have inside : before.length ≤ text.length := by
    rw [split, List.length_append]
    exact Nat.le_add_right _ _
  have place := each _ (listed before.length inside (behind ▸ List.prefix_append _ _))
  rwa [front, behind, List.drop_left] at place

/-! ## Citing -/

/-- A key that a citation can name: it is read as it stands, and as a single key. -/
structure IsCitable (key : Text) : Prop where
  isKey : IsKey key
  nonempty : key ≠ []
  single : ',' ∉ key

instance (key : Text) : Decidable (IsCitable key) :=
  decidable_of_iff (IsKey key ∧ key ≠ [] ∧ ',' ∉ key)
    ⟨fun ⟨isKey, nonempty, single⟩ => ⟨isKey, nonempty, single⟩,
      fun ⟨isKey, nonempty, single⟩ => ⟨isKey, nonempty, single⟩⟩

/-- The keys that are found have no blanks at their ends. -/
theorem trim_of_mem_keysFrom (read : Text → Option (Text × Text)) (before : Text) (covered : Nat)
    (text : Text) :
    ∀ found ∈ keysFrom read before covered text, Text.trim found.2 = found.2 := by
  induction text generalizing before covered with
  | nil => exact List.forall_mem_nil _
  | cons c rest inductionHypothesis =>
    cases covered with
    | succ covered => exact inductionHypothesis _ _
    | zero =>
      rw [keysFrom]
      split
      · exact List.forall_mem_cons.mpr ⟨Text.trim_trim _, inductionHypothesis _ _⟩
      · exact inductionHypothesis _ _

theorem trim_of_mem_itemKeys {text key : Text} (listed : key ∈ itemKeys text) :
    Text.trim key = key := by
  obtain ⟨found, member, rfl⟩ := List.mem_map.mp listed
  exact trim_of_mem_keysFrom readItem [] 0 text found member

/-- Where the citations leave no command, nothing else is resolved. -/
theorem resolveReferences_of_cited {citations : CitationRegistry} {warnings : List Warning}
    {text written : Text} (plain : '\\' ∉ written)
    (cited : editAlways "cite".toList 2 1 (renderCitation citations) warnings text =
      (warnings, written)) (labels : LabelRegistry) :
    resolveReferences labels citations warnings text = (warnings, written) := by
  have again : editAlways "cite".toList 2 1 (renderCitation citations) warnings written =
      (warnings, written) := editCommand_of_plain plain ..
  obtain ⟨others, names⟩ : ∃ others, citationNames = "cite".toList :: others := ⟨_, rfl⟩
  have resolved := resolveReferences_of_escaped (.of_plain plain) labels citations warnings
  rw [resolveReferences, names, List.foldl_cons] at resolved ⊢
  simp only [again, cited] at resolved ⊢
  exact resolved

/-- A citation of a known item resolves to the number of the item in brackets. -/
theorem resolveReferences_cite {citations : CitationRegistry} {key : Text} {number : Nat}
    (known : citations.find? key = some number) (citable : IsCitable key)
    (trimmed : Text.trim key = key) {before after : Text}
    (plain : '\\' ∉ before ∧ '\\' ∉ after) (labels : LabelRegistry) (warnings : List Warning) :
    resolveReferences labels citations warnings (before ++ (use "cite".toList key ++ after)) =
      (warnings, before ++ ('[' :: Text.ofNat number ++ [']'] ++ after)) := by
  have answered : renderCitation citations warnings ⟨false, [], [key]⟩ =
      (warnings, '[' :: Text.ofNat number ++ [']']) := by
    have argument : (⟨false, [], [key]⟩ : Arguments).argument 0 = key := rfl
    have resolved : resolveItem citations warnings key = (warnings, Text.ofNat number) := by
      rw [resolveItem, known]
    have keys := splitKeys_of_single citable.nonempty citable.single trimmed
    simp only [renderCitation, argument, keys, mapThread, resolved, Text.joinWith]
    rfl
  have digits : '\\' ∉ Text.ofNat number := fun member =>
    absurd (Fragment.isDigit_of_mem_ofNat member) (by decide)
  refine resolveReferences_of_cited (by simp [plain, digits]) ?_ labels
  exact editCommand_use plain citable.isKey.readBraced_eq citable.isKey.unclosed (by rw [answered])

/-! ## Numbers and citations -/

/-- In a text without two items of one key, the items that are written have the numbers
of their places exactly when they are the first of the items that are numbered; in a
regular text they are all of them. Every citation resolves to the place of its item. -/
theorem convertItems_numbered (text : Text) (distinct : (itemKeys text).Nodup) :
    convertItems (scan text).citations text =
        replaceControlWord "newblock".toList [] (writeItems (scan text).citations text).2 ∧
      ((∀ index item, (writeItems (scan text).citations text).1[index]? = some item →
          item.2 = Text.ofNat (index + 1)) ↔
        (writeItems (scan text).citations text).1.map Prod.fst <+: itemKeys text) ∧
      (IsRegular text → (writeItems (scan text).citations text).1 =
        ((itemKeys text).zipIdx 1).map fun (key, number) => (key, Text.ofNat number)) ∧
      ∀ index key, (itemKeys text)[index]? = some key → IsCitable key →
        ∀ labels warnings before after, '\\' ∉ before → '\\' ∉ after →
          resolveReferences labels (scan text).citations warnings
              (before ++ (use "cite".toList key ++ after)) =
            (warnings, before ++ ('[' :: Text.ofNat (index + 1) ++ [']'] ++ after)) := by
  refine ⟨convertItems_eq _ text, forall_writeItems_iff distinct, fun regular => ?_, ?_⟩
  · rw [regular.writeItems_eq]
    refine List.ext_getElem? fun index => ?_
    rw [List.getElem?_map, List.getElem?_map, List.getElem?_zipIdx, Option.map_map]
    cases listed : (itemKeys text)[index]? with
    | none => rfl
    | some key =>
      have shown := (shownNumber_eq_iff distinct).mpr listed
      rw [Nat.add_comm] at shown
      simp [numbered, shown]
  · intro index key listed citable labels warnings before after first last
    have known : (scan text).citations.find? key = some (index + 1) :=
      (scan_find?_eq_some_iff distinct).mpr ⟨Nat.le_add_left 1 index, listed⟩
    exact resolveReferences_cite known citable
      (trim_of_mem_itemKeys (List.mem_of_getElem? listed)) ⟨first, last⟩ labels warnings

/-- Two items, the second with a label. -/
def labelledList : Text :=
  "\\bibitem{a} A. \\bibitem[B] {b} B.".toList

theorem isRegular_labelledList : IsRegular labelledList := by
  have listed : ∀ place ≤ labelledList.length,
      "\\bibitem".toList <+: labelledList.drop place → place ∈ [0, 15] := by decide
  refine isRegular_of_places listed ?_
  have first : OpensItem "{a} A. \\bibitem[B] {b} B.".toList ['a']
      " A. \\bibitem[B] {b} B.".toList :=
    ⟨[], [], .absent, by decide, by decide, by decide⟩
  have second : OpensItem "[B] {b} B.".toList ['b'] " B.".toList := by
    have option : IsOption ([] ++ '[' :: (['B'] ++ [']'])) := .label (by decide) (by decide)
    exact ⟨_, [' '], option, by decide, by decide, by decide⟩
  rw [List.forall_mem_cons, List.forall_mem_singleton]
  exact ⟨.inr ⟨by decide, _, _, first⟩, .inr ⟨by decide, _, _, second⟩⟩

/-- Both items of a list are written with their numbers, and a citation of the second
resolves to its number. -/
theorem convertItems_numbered_labelledList :
    (itemKeys labelledList).Nodup ∧
      (writeItems (scan labelledList).citations labelledList).1 =
        [("a".toList, "1".toList), ("b".toList, "2".toList)] ∧
      resolveReferences .empty (scan labelledList).citations []
          ("See ".toList ++ (use "cite".toList ['b'] ++ ['.'])) =
        ([], "See ".toList ++ ("[2]".toList ++ ['.'])) := by
  have distinct : (itemKeys labelledList).Nodup := by decide +kernel
  obtain ⟨-, -, written, cited⟩ := convertItems_numbered labelledList distinct
  refine ⟨distinct, ?_, ?_⟩
  · rw [written isRegular_labelledList]
    decide +kernel
  · exact cited 1 ['b'] (by decide +kernel) (by decide) .empty [] "See ".toList ['.'] (by decide)
      (by decide)

/-- An item whose label holds a bracket in braces. -/
def nestedLabel : Text :=
  "\\bibitem[{[K]}]{k}".toList

/-- The item is not numbered, but it is written, with a question mark. -/
theorem convertItems_nestedLabel :
    (itemKeys nestedLabel).Nodup ∧
      (writeItems (scan nestedLabel).citations nestedLabel).1 = [("k".toList, "?".toList)] ∧
      convertItems (scan nestedLabel).citations nestedLabel = "\n\n[?] ".toList := by
  decide +kernel

end Bibliography

end LatexMarkdown
