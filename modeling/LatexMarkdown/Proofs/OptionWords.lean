import LatexMarkdown.Proofs.BraceWords
import LatexMarkdown.Proofs.Counting

/-!
# The words that an option holds

Inside a bracketed option brackets balance outside braces, braces balance, and no line break
outside braces starts a blank line. The reader of options does not know the group around it: a
closing brace that closes none of the option is passed over. An option therefore ends inside the
group around it exactly if its braces balance.
-/

namespace LatexMarkdown.Scan

open Text

/-- The words in which brackets balance outside braces. A closing brace that closes none may
stand in them, but no line break outside braces that starts a blank line. -/
inductive OptionWord : Text → Prop
  | nil : OptionWord []
  | char {c : Char} {rest : Text} (plain : c ∉ ['\\', '{', '}', '[', ']', '\n'])
      (more : OptionWord rest) : OptionWord (c :: rest)
  | lineBreak {rest : Text} (filled : startsBlankLine rest = false) (more : OptionWord rest) :
      OptionWord ('\n' :: rest)
  | escape (c : Char) {rest : Text} (more : OptionWord rest) : OptionWord ('\\' :: c :: rest)
  | braces {inner rest : Text} (inside : BraceWord inner) (more : OptionWord rest) :
      OptionWord ('{' :: (inner ++ '}' :: rest))
  | brackets {inner rest : Text} (inside : OptionWord inner) (more : OptionWord rest) :
      OptionWord ('[' :: (inner ++ ']' :: rest))
  | strayBrace {rest : Text} (more : OptionWord rest) : OptionWord ('}' :: rest)

/-! ## What the reader reads -/

/-- A blank line that starts in a front of a text starts in the text. -/
theorem startsBlankLine_of_front {front text : Text} (isFront : front <+: text)
    (filled : startsBlankLine text = false) : startsBlankLine front = false := by
  obtain ⟨behind, rfl⟩ := isFront
  cases blank : startsBlankLine front with
  | false => rfl
  | true =>
    obtain ⟨rest, split⟩ := List.head?_eq_some_iff.mp (of_decide_eq_true blank)
    have remains : front.dropWhile isSpaceOrTab ≠ [] := by simp [split]
    rw [startsBlankLine, List.dropWhile_append, if_neg (by rwa [List.isEmpty_iff]), split] at filled
    cases filled

/-- What is read up to the end of an option in which braces and, around them, brackets are
still open: each of them is closed behind a word. -/
inductive ClosesOption : (braces brackets : Nat) → Text → Prop
  | inside {inner : Text} (word : OptionWord inner) : ClosesOption 0 0 inner
  | bracket {brackets : Nat} {inner rest : Text} (word : OptionWord inner)
      (more : ClosesOption 0 brackets rest) : ClosesOption 0 (brackets + 1) (inner ++ ']' :: rest)
  | brace {braces brackets : Nat} {inner rest : Text} (word : BraceWord inner)
      (more : ClosesOption braces brackets rest) :
      ClosesOption (braces + 1) brackets (inner ++ '}' :: rest)

namespace ClosesOption

variable {braces brackets : Nat} {text : Text}

/-- Outside braces a piece may stand in front if it may stand in front of the words there. -/
theorem prepend (closes : ClosesOption 0 brackets text) (piece : Text)
    (keeps : ∀ word, word <+: text → OptionWord word → OptionWord (piece ++ word)) :
    ClosesOption 0 brackets (piece ++ text) := by
  cases closes with
  | inside word => exact .inside (keeps _ (List.prefix_refl _) word)
  | bracket word more =>
    rw [← List.append_assoc]
    exact .bracket (keeps _ (List.prefix_append _ _) word) more

/-- Inside braces a piece may stand in front if it may stand in front of balanced words. -/
theorem prepend_inside (closes : ClosesOption (braces + 1) brackets text) (piece : Text)
    (keeps : ∀ word, BraceWord word → BraceWord (piece ++ word)) :
    ClosesOption (braces + 1) brackets (piece ++ text) := by
  cases closes with
  | brace word more =>
    rw [← List.append_assoc]
    exact .brace (keeps _ word) more

/-- An escaped character may stand in front anywhere. -/
theorem escape (c : Char) (closes : ClosesOption braces brackets text) :
    ClosesOption braces brackets ('\\' :: c :: text) := by
  cases braces with
  | zero => exact closes.prepend ['\\', c] fun _ _ word => .escape c word
  | succ braces => exact closes.prepend_inside ['\\', c] fun _ word => .escape c word

/-- A group may stand in front anywhere. -/
theorem group (closes : ClosesOption (braces + 1) brackets text) :
    ClosesOption braces brackets ('{' :: text) := by
  cases closes with
  | @brace _ _ inner rest word more =>
    have spelled : '{' :: (inner ++ '}' :: rest) = '{' :: (inner ++ ['}']) ++ rest := by simp
    rw [spelled]
    cases braces with
    | zero =>
      refine more.prepend _ fun behind _ outside => ?_
      rw [List.cons_append, List.append_assoc]
      exact .braces word outside
    | succ braces =>
      refine more.prepend_inside _ fun behind outside => ?_
      rw [List.cons_append, List.append_assoc]
      exact .group word outside

/-- A closing brace may stand in front anywhere; outside braces it closes none. -/
theorem closing (closes : ClosesOption (braces - 1) brackets text) :
    ClosesOption braces brackets ('}' :: text) := by
  cases braces with
  | zero => exact closes.prepend ['}'] fun _ _ word => .strayBrace word
  | succ braces => exact .brace .nil closes

/-- Any other character may stand in front, outside braces if it is no bracket and no line break
that starts a blank line. -/
theorem char {c : Char} {others : Text} (closes : ClosesOption braces brackets text)
    (isFront : text <+: others) (braceless : c ∉ ['\\', '{', '}'])
    (bracketless : braces = 0 → c ∉ ['[', ']'])
    (filled : braces = 0 → c = '\n' → startsBlankLine others = false) :
    ClosesOption braces brackets (c :: text) := by
  cases braces with
  | succ braces => exact closes.prepend_inside [c] fun _ word => .char braceless word
  | zero =>
    refine closes.prepend [c] fun word within isWord => ?_
    by_cases ends : c = '\n'
    · subst ends
      exact .lineBreak (startsBlankLine_of_front (within.trans isFront) (filled rfl rfl)) isWord
    · have outside := bracketless rfl
      simp only [List.mem_cons, List.not_mem_nil, or_false, not_or] at braceless outside
      exact .char (by simp [braceless, outside, ends]) isWord

/-- Outside braces nested brackets may stand in front. -/
theorem nested (closes : ClosesOption 0 (brackets + 1) text) :
    ClosesOption 0 brackets ('[' :: text) := by
  cases closes with
  | @bracket _ inner rest word more =>
    have spelled : '[' :: (inner ++ ']' :: rest) = '[' :: (inner ++ [']']) ++ rest := by simp
    rw [spelled]
    refine more.prepend _ fun behind _ outside => ?_
    rw [List.cons_append, List.append_assoc]
    exact .brackets word outside

end ClosesOption

/-- What is read inside an option closes what was open. -/
theorem closesOption_of_read {braces brackets : Nat} {text inner rest : Text}
    (read : readBracketedRest braces brackets false text = some (inner, rest)) :
    ClosesOption braces brackets inner := by
  induction length : text.length using Nat.strong_induction_on
    generalizing braces brackets text inner with
  | _ length inductionHypothesis =>
  subst length
  cases text with
  | nil => cases read
  | cons c others =>
  have goesOn {nextBraces nextBrackets : Nat}
      (kept : keepFirst c (readBracketedRest nextBraces nextBrackets false others) =
        some (inner, rest)) :
      ∃ behind, inner = c :: behind ∧ behind <+: others ∧
        ClosesOption nextBraces nextBrackets behind := by
    obtain ⟨behind, later, rfl⟩ := keepFirst_eq_some kept
    exact ⟨behind, rfl, ⟨_, (readBracketedRest_eq_append later).symm⟩,
      inductionHypothesis _ (Nat.lt_succ_self _) later rfl⟩
  simp only [readBracketedRest] at read
  split at read
  next backslash =>
    subst backslash
    obtain ⟨inside, later, rfl⟩ := keepFirst_eq_some read
    cases others with
    | nil => cases later
    | cons d more =>
      obtain ⟨behind, further, rfl⟩ := keepFirst_eq_some later
      have shorter : more.length < ('\\' :: d :: more).length :=
        Nat.lt_add_of_pos_right (by decide : 0 < 2)
      exact (inductionHypothesis _ shorter further rfl).escape d
  next unescaped =>
  split at read
  next opening =>
    obtain ⟨behind, rfl, -, closes⟩ := goesOn read
    exact opening ▸ closes.group
  next unopened =>
  split at read
  next closing =>
    obtain ⟨behind, rfl, -, closes⟩ := goesOn read
    exact closing ▸ closes.closing
  next unclosed =>
  split at read
  next opening =>
    rw [Bool.and_eq_true, decide_eq_true_eq, decide_eq_true_eq] at opening
    obtain ⟨rfl, rfl⟩ := opening
    obtain ⟨behind, rfl, -, closes⟩ := goesOn read
    exact closes.nested
  next bracketless =>
  split at read
  next closing =>
    rw [Bool.and_eq_true, decide_eq_true_eq, decide_eq_true_eq] at closing
    obtain ⟨rfl, rfl⟩ := closing
    cases brackets with
    | zero =>
      obtain ⟨rfl, -⟩ := Prod.mk.inj (Option.some.inj read)
      exact .inside .nil
    | succ brackets =>
      obtain ⟨behind, rfl, -, closes⟩ := goesOn read
      exact .bracket .nil closes
  next openBrackets =>
  split at read
  · cases read
  next filled =>
    obtain ⟨behind, rfl, isFront, closes⟩ := goesOn read
    refine closes.char isFront (by simp [unescaped, unopened, unclosed]) ?_ ?_
    · rintro rfl
      simpa using And.intro bracketless openBrackets
    · rintro rfl rfl
      simpa using filled

/-- An option at the start of a text holds a word. -/
theorem optionWord_of_read {text inner rest : Text}
    (read : readBracketed text = some (inner, rest)) : OptionWord inner := by
  cases text with
  | nil => cases read
  | cons c others =>
    rw [readBracketed] at read
    split at read
    · cases closesOption_of_read read with
      | inside word => exact word
    · cases read

/-! ## Options inside a group -/

/-- A word of an option closes the braces that it opens, if it closes no other ones. -/
theorem OptionWord.balanced {text : Text} (word : OptionWord text) :
    escapesAfter false text = false ∧
      ∀ depth, braceDepth 0 false text = some depth → depth = 0 := by
  induction word with
  | nil => exact ⟨rfl, fun _ walks => (Option.some.inj walks).symm⟩
  | @char c rest plain more inductionHypothesis =>
    simp only [List.mem_cons, List.not_mem_nil, or_false, not_or] at plain
    rw [escapesAfter_cons, braceDepth, braceStep_plain (by simp [plain]), Option.bind_some,
      escapesNext_of_ne plain.1]
    exact inductionHypothesis
  | lineBreak filled more inductionHypothesis => exact inductionHypothesis
  | escape c more inductionHypothesis =>
    rw [escapesAfter_escape, braceDepth_escape]
    exact inductionHypothesis
  | braces inside more inductionHypothesis =>
    rw [escapesAfter_cons, escapesAfter_append_cons (by decide),
      braceDepth_group inside.balanced.1 inside.balanced.2]
    exact inductionHypothesis
  | @brackets inner rest inside more insideBalanced restBalanced =>
    refine ⟨?_, fun depth walks => ?_⟩
    · rw [escapesAfter_cons, escapesAfter_append_cons (by decide)]
      exact restBalanced.1
    · have walked : (braceDepth 0 false inner).bind (fun next =>
          braceDepth next (escapesAfter false inner) (']' :: rest)) = some depth := by
        rw [← braceDepth_append]
        exact walks
      obtain ⟨next, reached, further⟩ := Option.bind_eq_some_iff.mp walked
      obtain rfl := insideBalanced.2 next reached
      rw [insideBalanced.1] at further
      exact restBalanced.2 depth further
  | strayBrace more inductionHypothesis =>
    refine ⟨inductionHypothesis.1, fun depth walks => ?_⟩
    cases walks

/-- An option in a group, behind a word of it, ends inside the group if its own braces balance,
and otherwise behind the group. -/
theorem utf8Length_le_iff {group after front inner rest : Text} (groupWord : BraceWord group)
    (frontWord : BraceWord front) (word : OptionWord inner)
    (same : group ++ '}' :: after = front ++ '[' :: (inner ++ ']' :: rest)) :
    utf8Length (front ++ '[' :: (inner ++ [']'])) ≤ utf8Length group ↔ BraceWord inner := by
  have spelled : front ++ '[' :: (inner ++ ']' :: rest) =
      front ++ '[' :: (inner ++ [']']) ++ rest := by simp
  rw [spelled] at same
  have depth (behind : Text) : braceDepth 0 false (front ++ '[' :: (inner ++ behind)) =
      (braceDepth 0 false inner).bind fun next => braceDepth next false behind := by
    rw [braceDepth_balanced frontWord.balanced.1 frontWord.balanced.2]
    have opened := braceDepth_append 0 false inner behind
    rw [word.balanced.1] at opened
    exact opened
  constructor
  · intro fits
    -- What the option closes is closed in the group as well, so it is no brace from before.
    obtain ⟨more, rfl⟩ := prefix_of_utf8Length_le ⟨_, same.symm⟩ (List.prefix_append group _) fits
    have closed := groupWord.balanced.1
    rw [List.append_assoc, List.cons_append, List.append_assoc, depth] at closed
    obtain ⟨next, walks, -⟩ := Option.bind_eq_some_iff.mp closed
    obtain rfl := word.balanced.2 next walks
    exact braceWord_iff.mpr ⟨walks, word.balanced.1⟩
  · intro balanced
    by_contra beyond
    -- The closing brace of the group would stand in the option and close none of it.
    obtain ⟨more, split⟩ := prefix_of_utf8Length_le (List.prefix_append group ('}' :: after))
      ⟨rest, same.symm⟩ (Nat.le_of_not_le beyond)
    rw [← split, List.append_assoc] at same
    have closing := List.append_cancel_left same
    cases more with
    | nil =>
      rw [← split, List.append_nil] at beyond
      exact beyond (Nat.le_refl _)
    | cons c others =>
      obtain ⟨rfl, -⟩ := List.cons.inj closing
      have closed := depth [']']
      rw [← split, braceDepth_append, groupWord.balanced.1, groupWord.balanced.2,
        balanced.balanced.1] at closed
      cases closed

/-- An option holds a word: its braces balance up to closing braces that close none of it, its
brackets balance outside braces, and outside braces no line break that is not escaped starts a
blank line. Where it stands in a braced group, outside the groups that are nested there, it
ends inside the group exactly if its braces balance. -/
theorem readAt_readBracketed_inside {text inner : Text} {start stop : Nat}
    (read : readAt readBracketed text start = some (inner, stop)) :
    StandsAt ('[' :: (inner ++ [']'])) text start stop ∧ OptionWord inner ∧
      ∀ opening group closing front, readAt readBraced text opening = some (group, closing) →
        StandsAt ('{' :: front) text opening start → BraceWord front →
          (stop < closing ↔ BraceWord inner) := by
  rw [readAt_eq_some_iff (fun inner => '[' :: (inner ++ [']']))
    fun read => by simp [readBracketed_eq_append read]] at read
  obtain ⟨before, rest, split, size, found, rfl⟩ := read
  have word := optionWord_of_read found
  refine ⟨⟨before, rest, split, size, rfl⟩, word, ?_⟩
  intro opening group closing front groupRead stands frontWord
  obtain ⟨groupStands, groupWord⟩ := readAt_readBraced_eq_some_iff.mp groupRead
  obtain ⟨outside, after, groupSplit, outsideSize, rfl⟩ := groupStands
  obtain ⟨ahead, behind, frontSplit, aheadSize, rfl⟩ := stands
  obtain ⟨rfl, sameGroup⟩ := eq_of_utf8Length_eq (groupSplit.symm.trans frontSplit)
    (outsideSize.trans aheadSize.symm)
  have reached : outside ++ '{' :: front ++ behind =
      before ++ ('[' :: (inner ++ [']']) ++ rest) := by
    rw [← split, frontSplit, List.append_assoc]
  obtain ⟨rfl, rfl⟩ := eq_of_utf8Length_eq reached
    (by rw [utf8Length_append, outsideSize, size])
  have same : group ++ '}' :: after = front ++ '[' :: (inner ++ ']' :: rest) := by
    simpa using sameGroup
  rw [← utf8Length_le_iff groupWord frontWord word same]
  have brace : '}'.utf8Size = 1 := rfl
  simp only [utf8Length, utf8Length_append, brace]
  omega

/-- The option of the command in a group holds a group of its own, and ends before the group
around the command is closed. -/
theorem option_inside_group :
    let text := "\x7b\\x[a\x7bb\x7d]c\x7d".toList
    readAt readBracketed text 3 = some ("a\x7bb\x7d".toList, 9) ∧
      StandsAt "[a\x7bb\x7d]".toList text 3 9 ∧ OptionWord "a\x7bb\x7d".toList ∧
        (9 < 11 ↔ BraceWord "a\x7bb\x7d".toList) := by
  have read : readAt readBracketed "\x7b\\x[a\x7bb\x7d]c\x7d".toList 3 =
      some ("a\x7bb\x7d".toList, 9) := by decide
  obtain ⟨stands, word, ends⟩ := readAt_readBracketed_inside read
  refine ⟨read, stands, word,
    ends 0 "\\x[a\x7bb\x7d]c".toList 11 "\\x".toList (by decide) ?_ (by decide)⟩
  exact ⟨[], "[a\x7bb\x7d]c\x7d".toList, rfl, rfl, rfl⟩

/-- A closing brace that closes none of the option does not end it: the option is read over the
end of the group around its command. -/
theorem option_over_group_end :
    let text := "\x7b\\x[a\x7db]".toList
    readAt readBracketed text 3 = some ("a\x7db".toList, 8) ∧ ¬ BraceWord "a\x7db".toList ∧
      readAt readBraced text 0 = some ("\\x[a".toList, 6) := by
  decide

/-- Behind a line break that is escaped a blank line does not end the option: the option is read
over the end of the paragraph. -/
theorem option_over_blank_line :
    let inner := "a\\\n\nb".toList
    readAt readBracketed ('[' :: (inner ++ [']'])) 0 = some (inner, 7) ∧
      BraceWord inner ∧ "\n\n".toList <:+: inner := by
  decide

end LatexMarkdown.Scan
