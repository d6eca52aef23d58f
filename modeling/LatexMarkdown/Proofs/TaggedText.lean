import LatexMarkdown.Html
import LatexMarkdown.Proofs.Matches
import Mathlib.Algebra.Ring.Int.Defs

/-!
# Texts with tags

Styles and colours are written as tags into the running text. A text of plain characters and
whole tags leaves a number of spans open. Commands and declarations are read between the tags,
so an edit whose answers leave open what their arguments do keeps that number.
-/

namespace LatexMarkdown

/-- How often a pattern starts in a text. -/
def Text.occurrences (pattern : Text) : Text → Nat
  | [] => 0
  | c :: rest =>
    (if Text.startsWith pattern (c :: rest) then 1 else 0) + Text.occurrences pattern rest

/-- Where no end of a text starts a pattern that goes on, the occurrences in what follows are
counted apart. -/
theorem Text.occurrences_append {pattern front : Text}
    (apart : ∀ suffix ∈ front.tails, suffix ≠ [] → suffix <+: pattern → pattern <+: suffix)
    (rest : Text) :
    Text.occurrences pattern (front ++ rest) =
      Text.occurrences pattern front + Text.occurrences pattern rest := by
  induction front with
  | nil => exact (Nat.zero_add _).symm
  | cons c others inductionHypothesis =>
    have starts : Text.startsWith pattern (c :: others ++ rest) =
        Text.startsWith pattern (c :: others) := by
      rw [Bool.eq_iff_iff, Text.startsWith_iff, Text.startsWith_iff]
      refine ⟨fun start => ?_, fun start => start.trans (List.prefix_append _ _)⟩
      rcases List.prefix_or_prefix_of_prefix start (List.prefix_append _ _) with inside | beyond
      · exact inside
      · exact apart _ ((List.mem_tails _ _).mpr (List.suffix_refl _)) (List.cons_ne_nil c others)
          beyond
    rw [List.cons_append, Text.occurrences, Text.occurrences, ← List.cons_append, starts,
      inductionHypothesis fun suffix member => apart suffix ((List.mem_tails _ _).mpr
        (Scan.suffix_cons_of_suffix ((List.mem_tails _ _).mp member))), Nat.add_assoc]

namespace Html

open Scan

/-! ## Tagged texts -/

/-- The spans that a text opens and does not close, by their tags. -/
def openSpans (text : Text) : Int :=
  Text.occurrences "<span".toList text - Text.occurrences "</span>".toList text

/-- The tags in running text, with what they add to the open spans. The tag that opens a
span goes on with its style. -/
def tags : List (Text × Int) :=
  ("<span".toList, 1) :: ("</span>".toList, -1) ::
    ["u", "code", "del", "sup", "sub"].flatMap fun tag =>
      [('<' :: tag.toList ++ ['>'], 0), ("</".toList ++ tag.toList ++ ['>'], 0)]

/-- No tag, no mixed colour and no option of a command stands in a text. -/
def IsPlain (text : Text) : Prop :=
  ∀ c ∈ text, c ≠ '<' ∧ c ≠ '!' ∧ c ≠ '['

instance (text : Text) : Decidable (IsPlain text) :=
  Text.decidableForallMem (fun c => c ≠ '<' ∧ c ≠ '!' ∧ c ≠ '[') text

/-- A text of plain characters and whole tags, with the number of spans it leaves open. -/
inductive Tagged : Text → Int → Prop
  | nil : Tagged [] 0
  | char {c : Char} {rest : Text} {balance : Int} (plain : c ≠ '<' ∧ c ≠ '!' ∧ c ≠ '[')
      (more : Tagged rest balance) : Tagged (c :: rest) balance
  | tag {tag rest : Text} {weight balance : Int} (member : (tag, weight) ∈ tags)
      (more : Tagged rest balance) : Tagged (tag ++ rest) (weight + balance)

/-- A tag starts as tags do, and has no blank and nothing that an edit looks for. -/
theorem tags_spelled {tag : Text} {weight : Int} (member : (tag, weight) ∈ tags) :
    (∃ rest, tag = '<' :: rest) ∧
      ∀ c ∈ tag, Text.isBlank c = false ∧ c ∉ ['\\', '{', '}', '!', '['] := by
  have spelled : ∀ entry ∈ tags, entry.1 = '<' :: entry.1.tail ∧
      ∀ c ∈ entry.1, Text.isBlank c = false ∧ c ∉ ['\\', '{', '}', '!', '['] := by decide +kernel
  obtain ⟨starts, apart⟩ := spelled _ member
  exact ⟨⟨tag.tail, starts⟩, apart⟩

section Tagged

variable {text first second rest : Text} {balance other : Int} {c : Char}

theorem Tagged.of_plain (plain : IsPlain text) : Tagged text 0 := by
  induction text with
  | nil => exact .nil
  | cons c rest inductionHypothesis =>
    obtain ⟨here, later⟩ := List.forall_mem_cons.mp plain
    exact .char here (inductionHypothesis later)

theorem Tagged.of_eq (tagged : Tagged text balance) (same : balance = other) : Tagged text other :=
  same ▸ tagged

theorem Tagged.append (left : Tagged first balance) (right : Tagged second other) :
    Tagged (first ++ second) (balance + other) := by
  induction left with
  | nil => simpa using right
  | char plain _ inductionHypothesis => exact .char plain inductionHypothesis
  | tag member _ inductionHypothesis =>
    rw [List.append_assoc, Int.add_assoc]
    exact .tag member inductionHypothesis

theorem Tagged.of_tag {tag : Text} {weight : Int} (member : (tag, weight) ∈ tags) :
    Tagged tag weight := by
  simpa using Tagged.tag member .nil

/-- What follows a character that starts no tag is tagged alike. -/
theorem Tagged.tail (tagged : Tagged (c :: rest) balance) (different : c ≠ '<') :
    Tagged rest balance := by
  generalize whole : c :: rest = text at tagged
  cases tagged with
  | nil => cases whole
  | char plain more =>
    obtain ⟨rfl, rfl⟩ := List.cons.inj whole
    exact more
  | tag member more =>
    obtain ⟨⟨inside, rfl⟩, -⟩ := tags_spelled member
    exact absurd (List.cons.inj whole).1 different

/-- What follows a text that starts no tag is tagged alike. -/
theorem Tagged.drop_front (tagged : Tagged (first ++ rest) balance)
    (different : ∀ c ∈ first, c ≠ '<') : Tagged rest balance := by
  induction first with
  | nil => exact tagged
  | cons c others inductionHypothesis =>
    obtain ⟨here, later⟩ := List.forall_mem_cons.mp different
    exact inductionHypothesis (tagged.tail here) later

/-- A character that is in no tag parts a text. -/
theorem Tagged.split (tagged : Tagged (first ++ c :: second) balance)
    (apart : ∀ entry ∈ tags, c ∉ entry.1) :
    ∃ left right, Tagged first left ∧ Tagged second right ∧ balance = left + right := by
  generalize whole : first ++ c :: second = text at tagged
  induction tagged generalizing first with
  | nil => simp at whole
  | @char d rest balance plain more inductionHypothesis =>
    cases first with
    | nil =>
      obtain ⟨rfl, rfl⟩ := List.cons.inj whole
      exact ⟨0, balance, .nil, more, (Int.zero_add balance).symm⟩
    | cons e others =>
      obtain ⟨rfl, split⟩ := List.cons.inj whole
      obtain ⟨left, right, before, behind, sum⟩ := inductionHypothesis split
      exact ⟨left, right, .char plain before, behind, sum⟩
  | @tag tag rest weight balance member more inductionHypothesis =>
    rcases List.append_eq_append_iff.mp whole with ⟨inside, split, remains⟩ | ⟨others, rfl, split⟩
    · cases inside with
      | nil =>
        rw [List.append_nil] at split
        have parted : [] ++ c :: second = rest := remains
        obtain ⟨left, right, before, behind, sum⟩ := inductionHypothesis parted
        refine ⟨weight + left, right, ?_, behind, by omega⟩
        rw [← split, ← List.append_nil tag]
        exact .tag member before
      | cons d more =>
        obtain ⟨rfl, -⟩ := List.cons.inj remains
        exact absurd (split ▸ List.mem_append_right _ List.mem_cons_self) (apart _ member)
    · obtain ⟨left, right, before, behind, sum⟩ := inductionHypothesis split.symm
      exact ⟨weight + left, right, .tag member before, behind, by omega⟩

/-- A blank is in no tag. -/
theorem blank_apart (blank : Text.isBlank c = true) : ∀ entry ∈ tags, c ∉ entry.1 := by
  rintro ⟨tag, weight⟩ member inside
  rw [((tags_spelled member).2 c inside).1] at blank
  cases blank

/-- Nothing is open where no tag starts. -/
theorem Tagged.balance_eq_zero (tagged : Tagged text balance) (different : ∀ c ∈ text, c ≠ '<') :
    balance = 0 := by
  rw [← List.append_nil text] at tagged
  generalize whole : [] = rest at tagged
  have nothing := tagged.drop_front different
  cases nothing with
  | nil => rfl
  | char _ _ => cases whole
  | tag member _ =>
    obtain ⟨⟨inside, rfl⟩, -⟩ := tags_spelled member
    cases whole

/-- Blanks at the end of a text have no tags. -/
theorem Tagged.drop_blanks (tagged : Tagged (first ++ rest) balance)
    (blanks : ∀ c ∈ rest, Text.isBlank c = true) : Tagged first balance := by
  cases rest with
  | nil => rwa [List.append_nil] at tagged
  | cons c others =>
    obtain ⟨left, right, before, behind, rfl⟩ :=
      tagged.split (blank_apart (blanks c List.mem_cons_self))
    have nothing : right = 0 := behind.balance_eq_zero fun d member same => by
      have blank := blanks d (List.mem_cons_of_mem c member)
      rw [same] at blank
      exact absurd blank (by decide)
    rw [nothing, Int.add_zero]
    exact before

/-- A trimmed text has the same tags. -/
theorem Tagged.trim (tagged : Tagged text balance) : Tagged (Text.trim text) balance := by
  rw [← List.takeWhile_append_dropWhile (p := Text.isBlank) (l := text)] at tagged
  have start : Tagged (Text.trimStart text) balance := by
    refine tagged.drop_front fun c member same => ?_
    have blank := List.mem_takeWhile_imp member
    rw [same] at blank
    exact absurd blank (by decide)
  rw [← List.rdropWhile_append_rtakeWhile (p := Text.isBlank) (l := Text.trimStart text)] at start
  rw [Text.trim, Text.trimEnd, Text.dropTrailing_eq_rdropWhile]
  exact start.drop_blanks fun c member => List.mem_rtakeWhile_imp member

/-- The tags of a text say how many spans it leaves open. -/
theorem Tagged.openSpans_eq (tagged : Tagged text balance) : openSpans text = balance := by
  have counted : ∀ entry ∈ tags, openSpans entry.1 = entry.2 ∧
      ∀ pattern ∈ ["<span".toList, "</span>".toList], ∀ suffix ∈ entry.1.tails,
        suffix ≠ [] → suffix <+: pattern → pattern <+: suffix := by decide +kernel
  induction tagged with
  | nil => rfl
  | @char c rest balance plain _ inductionHypothesis =>
    have unstarted (front : Text) : Text.startsWith ('<' :: front) (c :: rest) = false := by
      rw [Text.startsWith, Text.dropFront?, if_neg plain.1.symm]
      rfl
    rw [← inductionHypothesis, openSpans, openSpans, Text.occurrences, Text.occurrences]
    simp [unstarted]
  | @tag tag rest weight balance member _ inductionHypothesis =>
    obtain ⟨here, apart⟩ := counted _ member
    rw [openSpans, Text.occurrences_append (apart _ List.mem_cons_self),
      Text.occurrences_append (apart _ (List.mem_cons_of_mem _ List.mem_cons_self))]
    rw [openSpans] at here inductionHypothesis
    omega

end Tagged

/-! ## Edits that keep the tags -/

section Edit

variable {σ : Type}

/-- What a rule offers in front of a text keeps the tags: the spans that are open beyond a
charge on the state stay as many. -/
inductive Keeps (charge : σ → Int) (state : σ) (balance : Int) (text : Text) :
    σ × Option Edit → Prop
  | silent {next : σ} (same : charge next = charge state) :
      Keeps charge state balance text (next, none)
  | written {next : σ} {matched rest replacement : Text} {written behind : Int}
      (split : text = matched ++ rest) (nonempty : matched ≠ [])
      (tagged : Tagged replacement written) (remains : Tagged rest behind)
      (sum : written + behind - charge next = balance - charge state) :
      Keeps charge state balance text (next, some (Edit.upTo text rest replacement))

variable {charge : σ → Int} {rule : Rule σ}

/-- An edit that starts at no tag, and whose every step keeps the tags, keeps them as a
whole. -/
theorem Tagged.editFrom
    (quiet : ∀ state cursor c rest, c ≠ '\\' → c ≠ '{' →
      rule state cursor (c :: rest) = (state, none))
    (step : ∀ state cursor text balance, text ≠ [] → Tagged text balance →
      Keeps charge state balance text (rule state cursor text))
    {text : Text} {balance : Int} (tagged : Tagged text balance) (state : σ) (cursor : Cursor) :
    ∃ written, Tagged (Scan.editFrom rule state cursor 0 text).2 written ∧
      written - charge (Scan.editFrom rule state cursor 0 text).1 = balance - charge state := by
  induction size : text.length using Nat.strong_induction_on
    generalizing text balance state cursor with
  | _ size inductionHypothesis =>
  subst size
  cases tagged with
  | nil => exact ⟨0, .nil, rfl⟩
  | @char c rest balance plain more =>
    have whole : Tagged (c :: rest) balance := .char plain more
    have kept := step state cursor (c :: rest) balance (List.cons_ne_nil c rest) whole
    generalize offered : rule state cursor (c :: rest) = offer at kept
    cases kept with
    | silent same =>
      rw [editFrom_keep offered]
      obtain ⟨written, tagged, sum⟩ :=
        inductionHypothesis rest.length (Nat.lt_succ_self _) more _ (cursor.advance c) rfl
      exact ⟨written, .char plain tagged, by rw [sum, same]⟩
    | @written next matched behind replacement start remaining split nonempty tagged remains sum =>
      rw [split] at offered ⊢
      rw [editFrom_replace nonempty offered]
      have shorter : behind.length < (c :: rest).length := by
        rw [split, List.length_append]
        exact Nat.lt_add_of_pos_left (List.length_pos_of_ne_nil nonempty)
      obtain ⟨written, later, rest⟩ :=
        inductionHypothesis behind.length shorter remains next (cursor.advanceOver matched) rfl
      refine ⟨start + written, tagged.append later, ?_⟩
      dsimp only
      omega
  | @tag tag rest weight balance member more =>
    obtain ⟨⟨inside, spelled⟩, apart⟩ := tags_spelled member
    have silent : ∀ cursor suffix, suffix <:+ tag → suffix ≠ [] →
        rule state cursor (suffix ++ rest) = (state, none) := by
      intro cursor suffix within nonempty
      obtain ⟨c, others, rfl⟩ := List.exists_cons_of_ne_nil nonempty
      have free := (apart c (within.subset List.mem_cons_self)).2
      exact quiet state cursor c _ (fun same => free (by simp [same]))
        fun same => free (by simp [same])
    have shorter : rest.length < (tag ++ rest).length := by
      rw [spelled, List.length_append]
      exact Nat.lt_add_of_pos_left (Nat.succ_pos _)
    rw [editFrom_pass silent]
    obtain ⟨written, tagged, sum⟩ :=
      inductionHypothesis rest.length shorter more state (cursor.advanceOver tag) rfl
    refine ⟨weight + written, .tag member tagged, ?_⟩
    dsimp only
    omega

end Edit

/-! ## Commands and declarations -/

section Command

variable {σ : Type} {charge : σ → Int}

/-- A way to edit texts that keeps their tags: the spans that are open beyond the charge stay
as many. -/
def KeepsTags (charge : σ → Int) (nested : σ → Text → σ × Text) : Prop :=
  ∀ state text balance, Tagged text balance →
    ∃ written, Tagged (nested state text).2 written ∧
      written - charge (nested state text).1 = balance - charge state

/-- Every answer on so many braced arguments writes their tags, apart from what it charges. -/
def AnswersTagged (charge : σ → Int) (count : Nat) (answer : Answer σ Arguments) : Prop :=
  ∀ state starred required balances, required.length = count →
    List.Forall₂ Tagged required balances →
      ∃ next replacement written,
        answer state ⟨starred, [], required⟩ = (next, some replacement) ∧
          Tagged replacement written ∧ written - charge next = balances.sum - charge state

/-- Edits that keep the tags of a text keep those of a list of texts. -/
theorem KeepsTags.mapThread {nested : σ → Text → σ × Text} (keeps : KeepsTags charge nested)
    {texts : List Text} {balances : List Int} (tagged : List.Forall₂ Tagged texts balances)
    (state : σ) :
    (mapThread nested state texts).2.length = texts.length ∧
      ∃ written, List.Forall₂ Tagged (mapThread nested state texts).2 written ∧
        written.sum - charge (mapThread nested state texts).1 = balances.sum - charge state := by
  induction tagged generalizing state with
  | nil => exact ⟨rfl, [], .nil, rfl⟩
  | @cons text balance texts balances here _ inductionHypothesis =>
    obtain ⟨first, taggedFirst, sum⟩ := keeps state text balance here
    obtain ⟨length, others, taggedOthers, sums⟩ := inductionHypothesis (nested state text).1
    refine ⟨congrArg (· + 1) length, first :: others, .cons taggedFirst taggedOthers, ?_⟩
    simp only [Scan.mapThread, List.sum_cons]
    omega

/-- The braced arguments and what follows them share the tags of a text. -/
theorem Tagged.groups {groups : List Text} {piece rest : Text} {balance : Int}
    (spells : SpellsGroups '{' '}' groups piece) (tagged : Tagged (piece ++ rest) balance) :
    ∃ balances behind, List.Forall₂ Tagged groups balances ∧ Tagged rest behind ∧
      balance = balances.sum + behind := by
  induction spells generalizing balance with
  | none => exact ⟨[], balance, .nil, tagged, (Int.zero_add balance).symm⟩
  | @cons gap inner others groups gapped _ inductionHypothesis =>
    have opened : Tagged (gap ++ '{' :: (inner ++ '}' :: (others ++ rest))) balance := by
      simpa using tagged
    obtain ⟨here, later, taggedInner, remains, sum⟩ :=
      ((opened.drop_front fun c member same => by
        have gap := gapped c member
        rw [same] at gap
        exact absurd gap (by decide)).tail (by decide)).split (by decide +kernel)
    obtain ⟨balances, behind, taggedOthers, taggedRest, rfl⟩ := inductionHypothesis remains
    exact ⟨here :: balances, behind, .cons taggedInner taggedOthers, taggedRest, by
      rw [sum, List.sum_cons]
      omega⟩

/-- A tagged text has no options and no mixed colours. -/
theorem Tagged.not_mem {text : Text} {balance : Int} (tagged : Tagged text balance) {mark : Char}
    (special : mark ∈ ['!', '[']) : mark ∉ text := by
  have other : ∀ mark ∈ ['!', '['], mark ∈ ['\\', '{', '}', '!', '['] := by decide
  induction tagged with
  | nil => exact List.not_mem_nil
  | char plain _ inductionHypothesis =>
    refine fun member => (List.mem_cons.mp member).elim (fun same => ?_) inductionHypothesis
    simp only [List.mem_cons, List.not_mem_nil, or_false] at special
    exact special.elim (fun mark => plain.2.1 (same ▸ mark)) fun mark => plain.2.2 (same ▸ mark)
  | tag member _ inductionHypothesis =>
    exact fun inside => (List.mem_append.mp inside).elim
      (fun here => ((tags_spelled member).2 _ here).2 (other _ special)) inductionHypothesis

theorem readRequired_length {count : Nat} {text rest : Text} {required : List Text}
    (read : readRequired count text = some (required, rest)) : required.length = count := by
  induction count generalizing text required with
  | zero =>
    obtain ⟨rfl, -⟩ := Prod.mk.inj (Option.some.inj read)
    rfl
  | succ count inductionHypothesis =>
    obtain ⟨inner, middle, others, -, further, rfl⟩ := readRequired_succ_iff.mp read
    exact congrArg (· + 1) (inductionHypothesis further)

theorem readArguments_length {signature : Signature} {text rest : Text} {arguments : Arguments}
    (read : readArguments signature text = some (arguments, rest)) :
    arguments.required.length = signature.required := by
  obtain ⟨-, middle, -, requiredRead⟩ := readArguments_iff.mp read
  exact readRequired_length requiredRead

/-- The arguments that are read from a tagged text share its tags with the rest. -/
theorem Tagged.readArguments {signature : Signature} {text rest : Text} {arguments : Arguments}
    {balance : Int} (tagged : Tagged text balance)
    (read : Scan.readArguments signature text = some (arguments, rest)) :
    arguments.options = [] ∧ arguments.required.length = signature.required ∧
      ∃ balances behind, List.Forall₂ Tagged arguments.required balances ∧
        Tagged rest behind ∧ balance = balances.sum + behind := by
  have counted := readArguments_length read
  obtain ⟨piece, ⟨⟨options, required, spellsOptions, spellsRequired, rfl⟩, -⟩, rfl⟩ :=
    readArguments_spells read
  have optionless : arguments.options = [] := by
    cases given : arguments.options with
    | nil => rfl
    | cons first others =>
      rw [given] at spellsOptions
      cases spellsOptions
      exact absurd (by simp) (tagged.not_mem (by decide : '[' ∈ ['!', '[']))
  rw [optionless] at spellsOptions
  cases spellsOptions
  rw [List.nil_append, List.append_assoc] at tagged
  refine ⟨optionless, counted, Tagged.groups spellsRequired (tagged.drop_front ?_)⟩
  intro c member same
  subst same
  split at member <;> simp at member

/-- A command keeps the tags of a text if its answers do. -/
theorem keepsTags_editCommandAt {name : Text} (plain : IsPlain name) {count : Nat}
    {answer : Answer σ Arguments} (answers : AnswersTagged charge count answer)
    (starrable : Bool) (maxOptions depth : Nat) :
    KeepsTags charge (editCommandAt name ⟨starrable, maxOptions, count⟩ answer depth) := by
  induction depth with
  | zero => exact fun state text balance tagged => ⟨balance, tagged, rfl⟩
  | succ depth inductionHypothesis =>
    intro state text balance tagged
    refine tagged.editFrom (fun state cursor c rest backslash _ =>
      commandRule_startsAtBackslash _ _ _ _ _ _ _ _ backslash) ?_ state Cursor.start
    intro state cursor text balance _ tagged
    simp only [commandRule]
    split
    · exact .silent rfl
    split
    · exact .silent rfl
    next after found =>
      obtain rfl := afterCommand?_eq_append found
      have spelled : ∀ c ∈ '\\' :: name, c ≠ '<' ∧ c ≠ '!' ∧ c ≠ '[' :=
        List.forall_mem_cons.mpr ⟨by decide, plain⟩
      rw [← List.cons_append] at tagged ⊢
      have behind : Tagged after balance :=
        tagged.drop_front fun c member => (spelled c member).1
      split
      · rw [byAnswer_none]
        exact .written rfl (List.cons_ne_nil _ _) (Tagged.of_plain spelled) behind (by omega)
      next arguments rest read =>
        obtain ⟨optionless, counted, balances, remaining, taggedRequired, remains, rfl⟩ :=
          behind.readArguments read
        obtain ⟨length, written, taggedWritten, sum⟩ :=
          inductionHypothesis.mapThread taggedRequired state
        obtain ⟨next, replacement, final, answered, taggedFinal, sums⟩ :=
          answers (mapThread _ state arguments.required).1 arguments.starred _ written
            (length.trans counted) taggedWritten
        rw [optionless, answered, byAnswer_some]
        obtain ⟨piece, -, rfl⟩ := readArguments_spells read
        rw [← List.append_assoc]
        refine .written rfl (List.cons_ne_nil _ _) taggedFinal remains ?_
        dsimp only
        omega

end Command

/-- Without a state nothing is charged. -/
def uncharged (_ : Unit) : Int :=
  0

/-- A command without state keeps the tags of a text if its answers do. -/
theorem Tagged.replaceCommand {name : Text} (plain : IsPlain name) {count : Nat}
    {answer : Arguments → Option Text}
    (answers : ∀ starred required balances, required.length = count →
      List.Forall₂ Tagged required balances →
        ∃ replacement, answer ⟨starred, [], required⟩ = some replacement ∧
          Tagged replacement balances.sum)
    (starrable : Bool) (maxOptions : Nat) {text : Text} {balance : Int}
    (tagged : Tagged text balance) :
    Tagged (Scan.replaceCommand name ⟨starrable, maxOptions, count⟩ answer text) balance := by
  have stateless : AnswersTagged uncharged count
      fun state arguments => (state, answer arguments) := by
    intro state starred required balances counted tagged
    obtain ⟨replacement, answered, written⟩ := answers starred required balances counted tagged
    exact ⟨state, replacement, balances.sum, congrArg (Prod.mk state) answered, written, rfl⟩
  obtain ⟨written, result, sum⟩ :=
    keepsTags_editCommandAt plain stateless starrable maxOptions text.length () text balance tagged
  exact result.of_eq (by simpa [uncharged] using sum)

section Declaration

/-- What a declaration acts on has the tags of its group. -/
theorem Tagged.declaration {declaration : Declaration} {gap : Text} {balance : Int}
    (tagged : Tagged (gap ++ '\\' :: (declaration.name ++ declaration.rest)) balance)
    (gapped : Text.IsGap gap) (named : declaration.IsNamed) : Tagged declaration.rest balance := by
  have blank : ∀ c ∈ gap, c ≠ '<' := by
    rintro c member rfl
    exact absurd (gapped _ member) (by decide)
  have letters : ∀ c ∈ declaration.name, c ≠ '<' := by
    rintro c member rfl
    exact absurd (named.letters _ member) (by decide)
  exact ((tagged.drop_front blank).tail (by decide)).drop_front letters

variable {answer : Declaration → Option Text} (answers : ∀ name rest replacement balance,
  Tagged rest balance → answer ⟨name, rest⟩ = some replacement → Tagged replacement balance)

include answers

theorem keepsTags_editDeclarationAt (depth : Nat) : KeepsTags uncharged
    (editDeclarationAt (fun state declaration => (state, answer declaration)) depth) := by
  induction depth with
  | zero => exact fun state text balance tagged => ⟨balance, tagged, rfl⟩
  | succ depth inductionHypothesis =>
    intro state text balance tagged
    refine tagged.editFrom (fun state cursor c rest _ brace => ?_) ?_ state Cursor.start
    · simp only [declarationRule, readDeclaration, if_neg brace, ite_self]
    intro state cursor text balance _ tagged
    simp only [declarationRule]
    split
    · exact .silent rfl
    split
    · exact .silent rfl
    next declaration after read =>
      obtain ⟨named, gap, gapped, group⟩ := readDeclaration_iff.mp read
      obtain ⟨before, behind, taggedGroup, remains, rfl⟩ :=
        (Tagged.tail (readBraced_eq_append group ▸ tagged) (by decide)).split (by decide +kernel)
      obtain ⟨written, result, sum⟩ :=
        inductionHypothesis state declaration.rest before (taggedGroup.declaration gapped named)
      cases answered : answer ⟨declaration.name, (editDeclarationAt
          (fun state declaration => (state, answer declaration)) depth state
            declaration.rest).2⟩ with
      | none => exact .silent rfl
      | some replacement =>
        have spelled : text = '{' :: (gap ++ '\\' :: (declaration.name ++ declaration.rest)) ++
            ['}'] ++ after := by
          rw [readBraced_eq_append group]
          simp
        exact .written spelled (List.cons_ne_nil _ _)
          (answers _ _ _ _ result answered) remains (by omega)

/-- A grouped declaration keeps the tags of a text if its answers do. -/
theorem Tagged.replaceDeclaration {text : Text} {balance : Int} (tagged : Tagged text balance) :
    Tagged (Scan.replaceDeclaration answer text) balance := by
  obtain ⟨written, result, sum⟩ :=
    keepsTags_editDeclarationAt answers text.length () text balance tagged
  exact result.of_eq (by simpa [uncharged] using sum)

end Declaration

/-- What a reader replaces keeps the tags of a text if every replacement has those of what is
read. -/
theorem Tagged.substitute {read : Text → Option (Text × Text)}
    (quiet : ∀ c rest, c ≠ '\\' → c ≠ '{' → read (c :: rest) = none)
    (replaces : ∀ text balance replacement rest, Tagged text balance →
      read text = some (replacement, rest) → Remains rest text ∧
        ∃ written behind, Tagged replacement written ∧ Tagged rest behind ∧
          balance = written + behind)
    {text : Text} {balance : Int} (tagged : Tagged text balance) :
    Tagged (Scan.substitute read text) balance := by
  have keeps : KeepsTags uncharged (edit fun state _ suffix =>
      (state, (read suffix).map fun found => Edit.upTo suffix found.2 found.1)) := by
    intro state text balance tagged
    refine tagged.editFrom (fun state cursor c rest backslash brace => ?_) ?_ state Cursor.start
    · rw [quiet c rest backslash brace]
      rfl
    intro state cursor text balance _ tagged
    cases found : read text with
    | none => exact .silent rfl
    | some pair =>
      obtain ⟨⟨matched, nonempty, split⟩, written, behind, taggedWritten, remains, sum⟩ :=
        replaces text balance pair.1 pair.2 tagged found
      exact .written split nonempty taggedWritten remains (by omega)
  obtain ⟨written, result, sum⟩ := keeps () text balance tagged
  exact result.of_eq (by simpa [uncharged] using sum)

end Html

end LatexMarkdown
