import LatexMarkdown.Proofs.AbsentPasses
import LatexMarkdown.Proofs.Spelling
import LatexMarkdown.Proofs.Unescaped

/-!
# Escaped signs

In a text without commands a backslash does no more than to take the special meaning from the
sign behind it. An output keeps its signs escaped, so that they mean the same to a second
conversion. What divides a text at line breaks, or replaces stretches without backslashes and
signs, does not come between a backslash and its sign.
-/

namespace LatexMarkdown

open Scan

/-- The signs from which a backslash takes the special meaning. -/
def specials : List Char :=
  "%&#_\x7b\x7d$".toList

/-- Whether a name is one of a command, and does not start with an escaped sign. -/
def isCommandName (name : Text) : Bool :=
  name.head?.any fun c => !specials.contains c

theorem exists_cons_of_isCommandName {name : Text} (named : isCommandName name = true) :
    ∃ c rest, name = c :: rest ∧ c ∉ specials := by
  cases name with
  | nil => cases named
  | cons c rest => exact ⟨c, rest, rfl, by simpa [isCommandName] using named⟩

/-- A text without commands: a backslash stands only in front of a special sign, and some signs
stand only behind a backslash. -/
inductive Escaped (signs : List Char) : Text → Prop
  | nil : Escaped signs []
  | keep {c : Char} {rest : Text} (ordinary : c ≠ '\\') (unsigned : c ∉ signs)
      (later : Escaped signs rest) : Escaped signs (c :: rest)
  | escape {c : Char} {rest : Text} (special : c ∈ specials) (later : Escaped signs rest) :
      Escaped signs ('\\' :: c :: rest)

namespace Escaped

variable {signs fewer : List Char} {text rest before after : Text} {c : Char}

/-- No special sign is a backslash or blank. -/
theorem ordinary_of_special (special : c ∈ specials) : c ≠ '\\' ∧ Text.isBlank c = false := by
  revert c
  decide

theorem keep_iff (ordinary : c ≠ '\\') :
    Escaped signs (c :: rest) ↔ c ∉ signs ∧ Escaped signs rest := by
  constructor
  · intro escaped
    cases escaped with
    | keep _ unsigned later => exact ⟨unsigned, later⟩
    | escape => exact absurd rfl ordinary
  · exact fun ⟨unsigned, later⟩ => .keep ordinary unsigned later

theorem escape_iff :
    Escaped signs ('\\' :: c :: rest) ↔ c ∈ specials ∧ Escaped signs rest := by
  constructor
  · intro escaped
    cases escaped with
    | keep ordinary => exact absurd rfl ordinary
    | escape special later => exact ⟨special, later⟩
  · exact fun ⟨special, later⟩ => .escape special later

/-- A last backslash escapes nothing. -/
theorem not_backslash : ¬ Escaped signs ['\\'] := by
  intro escaped
  cases escaped with
  | keep ordinary => exact ordinary rfl

instance decidable (signs : List Char) : (text : Text) → Decidable (Escaped signs text)
  | [] => .isTrue .nil
  | [c] =>
    if backslash : c = '\\' then .isFalse (backslash ▸ not_backslash)
    else decidable_of_iff (c ∉ signs ∧ True)
      (((keep_iff backslash).trans (and_congr_right fun _ => iff_true_intro .nil)).symm)
  | c :: d :: rest =>
    if backslash : c = '\\' then
      have := decidable signs rest
      decidable_of_iff (d ∈ specials ∧ Escaped signs rest) (backslash ▸ escape_iff.symm)
    else
      have := decidable signs (d :: rest)
      decidable_of_iff (c ∉ signs ∧ Escaped signs (d :: rest)) (keep_iff backslash).symm

/-! ## Texts without backslashes -/

theorem of_absent (plain : '\\' ∉ text) (unsigned : ∀ sign ∈ signs, sign ∉ text) :
    Escaped signs text := by
  induction text with
  | nil => exact .nil
  | cons c rest inductionHypothesis =>
    rw [List.mem_cons, not_or] at plain
    refine .keep (Ne.symm plain.1) (fun listed => unsigned c listed (List.mem_cons_self ..)) ?_
    exact inductionHypothesis plain.2 fun sign listed member =>
      unsigned sign listed (List.mem_cons_of_mem c member)

/-- A text without a backslash escapes nothing. -/
theorem of_plain (plain : '\\' ∉ text) : Escaped [] text :=
  of_absent plain fun _ listed => absurd listed List.not_mem_nil

theorem mono (escaped : Escaped signs text) (within : fewer ⊆ signs) : Escaped fewer text := by
  induction escaped with
  | nil => exact .nil
  | keep ordinary unsigned _ inductionHypothesis =>
    exact .keep ordinary (fun listed => unsigned (within listed)) inductionHypothesis
  | escape special _ inductionHypothesis => exact .escape special inductionHypothesis

/-! ## Parts of a text -/

theorem append (first : Escaped signs before) (second : Escaped signs after) :
    Escaped signs (before ++ after) := by
  induction first with
  | nil => exact second
  | keep ordinary unsigned _ inductionHypothesis =>
    exact .keep ordinary unsigned inductionHypothesis
  | escape special _ inductionHypothesis => exact .escape special inductionHypothesis

theorem flatten {pieces : List Text} (each : ∀ piece ∈ pieces, Escaped signs piece) :
    Escaped signs pieces.flatten := by
  induction pieces with
  | nil => exact .nil
  | cons piece others inductionHypothesis =>
    rw [List.forall_mem_cons] at each
    exact each.1.append (inductionHypothesis each.2)

/-- In front of a character that no backslash escapes a text can be cut. -/
theorem append_cons_iff (unescapable : c ∉ specials) :
    Escaped signs (before ++ c :: after) ↔
      Escaped signs before ∧ Escaped signs (c :: after) := by
  refine ⟨fun escaped => ?_, fun ⟨first, second⟩ => first.append second⟩
  generalize whole : before ++ c :: after = text at escaped
  induction escaped generalizing before with
  | nil => exact absurd whole (List.append_ne_nil_of_right_ne_nil before (List.cons_ne_nil c after))
  | @keep d rest ordinary unsigned later inductionHypothesis =>
    cases before with
    | nil =>
      obtain ⟨rfl, rfl⟩ := List.cons.inj whole
      exact ⟨.nil, .keep ordinary unsigned later⟩
    | cons e others =>
      obtain ⟨rfl, behind⟩ := List.cons.inj whole
      obtain ⟨first, second⟩ := inductionHypothesis behind
      exact ⟨.keep ordinary unsigned first, second⟩
  | @escape d rest special later inductionHypothesis =>
    match before with
    | [] =>
      obtain ⟨rfl, rfl⟩ := List.cons.inj whole
      exact ⟨.nil, .escape special later⟩
    | [e] =>
      obtain ⟨-, behind⟩ := List.cons.inj whole
      obtain ⟨rfl, -⟩ := List.cons.inj behind
      exact absurd special unescapable
    | e :: f :: others =>
      obtain ⟨rfl, behind⟩ := List.cons.inj whole
      obtain ⟨rfl, further⟩ := List.cons.inj behind
      obtain ⟨first, second⟩ := inductionHypothesis further
      exact ⟨.escape special first, second⟩

/-- Behind a front without backslashes a text goes on as it is. -/
theorem of_append (plain : '\\' ∉ before) (escaped : Escaped signs (before ++ after)) :
    Escaped signs after := by
  induction before with
  | nil => exact escaped
  | cons c others inductionHypothesis =>
    rw [List.mem_cons, not_or] at plain
    exact inductionHypothesis plain.2 ((keep_iff (Ne.symm plain.1)).mp escaped).2

/-! ## What a text does not hold -/

/-- Behind every backslash stands a special sign. -/
theorem spells (escaped : Escaped signs text) : Spells (specials.map ([·])) text := by
  induction escaped with
  | nil => exact .of_plain List.not_mem_nil
  | @keep c rest ordinary _ _ inductionHypothesis =>
    intro behind suffix
    rcases List.suffix_cons_iff.mp suffix with whole | within
    · exact absurd (List.cons.inj whole).1.symm ordinary
    · exact inductionHypothesis behind within
  | @escape c rest special _ inductionHypothesis =>
    intro behind suffix
    rcases List.suffix_cons_iff.mp suffix with whole | within
    · obtain ⟨-, rfl⟩ := List.cons.inj whole
      exact ⟨[c], List.mem_map_of_mem special, List.prefix_append [c] rest⟩
    rcases List.suffix_cons_iff.mp within with whole | later
    · exact absurd (List.cons.inj whole).1.symm (ordinary_of_special special).1
    · exact inductionHypothesis behind later

/-- A text without commands has none of any name. -/
theorem absent (escaped : Escaped signs text) {name : Text}
    (named : isCommandName name = true) : ¬ '\\' :: name <:+: text := by
  obtain ⟨c, rest, rfl, ordinary⟩ := exists_cons_of_isCommandName named
  have foreign : ∀ other ∈ [c :: rest], ∀ head ∈ specials.map ([·]),
      ¬ other <+: head ∧ ¬ head <+: other := by
    refine List.forall_mem_singleton.mpr (List.forall_mem_map.mpr fun sign special => ?_)
    have different : c ≠ sign := fun same => ordinary (same ▸ special)
    exact ⟨fun start => different (List.cons_prefix_cons.mp start).1,
      fun start => different (List.cons_prefix_cons.mp start).1.symm⟩
  exact escaped.spells.lacks foreign _ (List.mem_singleton_self _)

theorem lacks (escaped : Escaped signs text) {names : List Text}
    (named : ∀ name ∈ names, isCommandName name = true) : Lacks names text :=
  fun name listed => escaped.absent (named name listed)

/-- None of the signs stands at a position that is not escaped. -/
theorem everywhere (escaped : Escaped signs text) (listed : c ∈ signs) (ordinary : c ≠ '\\') :
    Everywhere (fun suffix => ¬ [c] <+: suffix) false text := by
  induction escaped with
  | nil => trivial
  | keep backslash unsigned _ inductionHypothesis =>
    refine ⟨fun _ start => ?_, ?_⟩
    · exact unsigned ((List.cons_prefix_cons.mp start).1 ▸ listed)
    · rwa [escapesNext_of_ne backslash]
  | escape special _ inductionHypothesis =>
    refine ⟨fun _ start => ?_, nofun, ?_⟩
    · exact ordinary (List.cons_prefix_cons.mp start).1
    · rwa [escapesNext_of_ne (ordinary_of_special special).1]

/-! ## Changes of lines and of stretches -/

/-- Behind what is dropped from its start, other than backslashes, a text goes on as it is. -/
theorem dropWhile {drops : Char → Bool} (kept : drops '\\' = false)
    (escaped : Escaped signs text) : Escaped signs (text.dropWhile drops) := by
  rw [← List.takeWhile_append_dropWhile (p := drops) (l := text)] at escaped
  refine of_append (fun member => ?_) escaped
  rw [List.mem_takeWhile_imp member] at kept
  exact Bool.false_ne_true kept.symm

/-- A change of lines that does not come between a backslash and its sign in any of them does
not do so in a text. -/
theorem mapLines {change : Text → Text}
    (each : ∀ line, Escaped signs line → Escaped signs (change line))
    (escaped : Escaped signs text) : Escaped signs (Text.mapLines change text) := by
  rw [← Text.joinWith_splitOn '\n' text] at escaped
  rw [Text.mapLines]
  generalize Text.splitOn '\n' text = lines at escaped
  induction lines with
  | nil => exact .nil
  | cons line others inductionHypothesis =>
    cases others with
    | nil => exact each line escaped
    | cons next later =>
      rw [Text.joinWith, List.append_assoc, List.singleton_append,
        append_cons_iff (by decide), keep_iff (by decide)] at escaped
      obtain ⟨first, unsigned, behind⟩ := escaped
      have broken : Escaped signs ['\n'] := .keep (by decide) unsigned .nil
      exact ((each line first).append broken).append (inductionHypothesis behind)

theorem stripIndentation (escaped : Escaped signs text) :
    Escaped signs (Text.stripIndentation text) := by
  refine mapLines (fun line plain => ?_) escaped
  rw [Text.withoutIndentation]
  split
  · exact plain
  · exact plain.dropWhile (by decide)

/-- Replacing stretches that hold neither backslashes nor special signs does not come between a
backslash and its sign. -/
theorem replaceAll {found replacement : Text} (filled : found ≠ [])
    (foreign : ∀ c ∈ found, c ≠ '\\' ∧ c ∉ specials) (written : Escaped signs replacement)
    (escaped : Escaped signs text) : Escaped signs (Scan.replaceAll found replacement text) := by
  have plain : '\\' ∉ found := fun member => (foreign _ member).1 rfl
  induction length : text.length using Nat.strong_induction_on generalizing text with
  | _ _ inductionHypothesis =>
    subst length
    cases start : Text.dropFront? found text with
    | some after =>
      obtain rfl : text = found ++ after := Text.dropFront?_eq_some_iff.mp start
      rw [replaceAll_append filled]
      refine written.append (inductionHypothesis after.length ?_ (of_append plain escaped) rfl)
      have width := List.length_pos_iff.mpr filled
      rw [List.length_append]
      omega
    | none =>
      cases escaped with
      | nil => exact .nil
      | @keep c rest ordinary unsigned later =>
        rw [replaceAll_cons start]
        exact .keep ordinary unsigned (inductionHypothesis rest.length (by simp) later rfl)
      | @escape c rest special later =>
        -- The escaped sign starts nothing that is replaced.
        have unstarted : Text.dropFront? found (c :: rest) = none := by
          obtain ⟨d, others, rfl⟩ := List.exists_cons_of_ne_nil filled
          refine Text.dropFront?_eq_none_iff.mpr fun prefixed => ?_
          obtain ⟨rfl, -⟩ := List.cons_prefix_cons.mp prefixed
          exact (foreign d (List.mem_cons_self ..)).2 special
        rw [replaceAll_cons start, replaceAll_cons unstarted]
        have shorter : rest.length < ('\\' :: c :: rest).length := by
          rw [List.length_cons, List.length_cons]
          omega
        exact .escape special (inductionHypothesis rest.length shorter later rfl)

theorem neutralize (escaped : Escaped signs text)
    (broken : Escaped signs ("@@".toList ++ Fragment.wordJoiner :: "BLOCK".toList)) :
    Escaped signs (Fragment.neutralize text) :=
  replaceAll (by decide) (by decide) broken escaped

theorem replacePunctuation (written : ∀ entry ∈ Symbol.punctuation, Escaped signs entry.2)
    (escaped : Escaped signs text) : Escaped signs (Symbol.replacePunctuation text) := by
  have foreign : ∀ entry ∈ Symbol.punctuation,
      entry.1 ≠ [] ∧ ∀ c ∈ entry.1, c ≠ '\\' ∧ c ∉ specials := by decide
  refine Symbol.replacePunctuation_induction escaped fun entry listed text kept => ?_
  obtain ⟨filled, apart⟩ := foreign entry listed
  exact replaceAll filled apart (written entry listed) kept

end Escaped

end LatexMarkdown
