import LatexMarkdown.Proofs.Bibliography
import Mathlib.Data.List.Nodup

/-!
# The numbering of references

Reading a document once numbers all its labels, and then all its bibliography items.
The readers find exactly the spelled labels and items, each the first behind the one
before. A key that is declared again takes the number of its last place and keeps the
place of its first. Two places never give the same number, so that two keys never share
one.
-/

namespace LatexMarkdown

open Scan

/-! ## Keys in the order of their places -/

namespace KeyedList

variable {α β : Type} {entries : KeyedList α} {key : Text}

/-- A new key is put behind the others, and a known one stays where it is. -/
theorem map_fst_put (entries : KeyedList α) (key : Text) (value : α) :
    (put entries key value).map Prod.fst =
      entries.map Prod.fst ++ if key ∈ entries.map Prod.fst then [] else [key] := by
  induction entries with
  | nil => rfl
  | cons entry others inductionHypothesis =>
    by_cases same : entry.1 = key
    · simp [put, same]
    · have other : key ∈ entry.1 :: others.map Prod.fst ↔ key ∈ others.map Prod.fst := by
        rw [List.mem_cons, or_iff_right (Ne.symm same)]
      rw [put, if_neg same, List.map_cons, inductionHypothesis]
      simp only [other, List.map_cons, List.cons_append]

/-- Values that are shown in another way are found under the same keys. -/
theorem find?_map (write : α → β) (entries : KeyedList α) (key : Text) :
    find? (entries.map fun (key, value) => (key, write value)) key =
      (find? entries key).map write := by
  induction entries with
  | nil => rfl
  | cons entry others inductionHypothesis =>
    by_cases same : entry.1 = key
    · simp [find?, same]
    · simp [find?, same, inductionHypothesis]

theorem isSome_find?_iff : (find? entries key).isSome = true ↔ key ∈ entries.map Prod.fst := by
  constructor
  · intro known
    by_contra absent
    rw [find?_eq_none absent] at known
    exact Bool.false_ne_true known
  · intro listed
    obtain ⟨value, found⟩ := exists_find? listed
    rw [found]
    rfl

end KeyedList

namespace Numbering

/-- Keeping the first place of each key leaves every key once. -/
theorem nodup_eraseDups (keys : List Text) : keys.eraseDups.Nodup := by
  induction size : keys.length using Nat.strong_induction_on generalizing keys with
  | _ size inductionHypothesis =>
  subst size
  cases keys with
  | nil => exact List.nodup_nil
  | cons key others =>
    rw [List.eraseDups_cons, List.nodup_cons]
    refine ⟨by simp [List.mem_eraseDups], inductionHypothesis _ ?_ _ rfl⟩
    exact Nat.lt_succ_of_le (List.length_filter_le _ _)

section Places

variable {ι : Type} {key : ι → Text} {items earlier : List ι} {item last : ι} {wanted : Text}

/-- The last place of a key in a run of declarations. -/
def IsLastPlace (key : ι → Text) (items : List ι) (wanted : Text) (earlier : List ι)
    (item : ι) : Prop :=
  ∃ later, items = earlier ++ item :: later ∧ key item = wanted ∧ wanted ∉ later.map key

theorem not_isLastPlace_nil : ¬ IsLastPlace key [] wanted earlier item := by
  rintro ⟨later, split, -⟩
  exact List.cons_ne_nil _ _ (List.append_eq_nil_iff.mp split.symm).2

/-- The last declaration is the last place of its own key. -/
theorem isLastPlace_append_self :
    IsLastPlace key (items ++ [last]) (key last) earlier item ↔ items = earlier ∧ last = item := by
  constructor
  · rintro ⟨later, split, -, final⟩
    cases later using List.reverseRecOn with
    | nil =>
      obtain ⟨same, ends⟩ := List.append_inj' split rfl
      exact ⟨same, List.singleton_inj.mp ends⟩
    | append_singleton between another =>
      rw [← List.cons_append, ← List.append_assoc] at split
      obtain rfl := List.singleton_inj.mp (List.append_inj' split rfl).2
      exact absurd (by simp) final
  · rintro ⟨rfl, rfl⟩
    exact ⟨[], rfl, rfl, List.not_mem_nil⟩

/-- The last declaration leaves the last places of all other keys. -/
theorem isLastPlace_append_of_ne (different : key last ≠ wanted) :
    IsLastPlace key (items ++ [last]) wanted earlier item ↔
      IsLastPlace key items wanted earlier item := by
  constructor
  · rintro ⟨later, split, isKey, final⟩
    cases later using List.reverseRecOn with
    | nil =>
      obtain rfl := List.singleton_inj.mp (List.append_inj' split rfl).2
      exact absurd isKey different
    | append_singleton between another =>
      rw [← List.cons_append, ← List.append_assoc] at split
      rw [List.map_append, List.mem_append, not_or] at final
      exact ⟨between, (List.append_inj' split rfl).1, isKey, final.1⟩
  · rintro ⟨later, rfl, isKey, final⟩
    refine ⟨later ++ [last], by simp, isKey, ?_⟩
    rw [List.map_append, List.mem_append, not_or]
    exact ⟨final, by simpa using Ne.symm different⟩

end Places

/-- The entries of a run of declarations: the keys are in the order of their first
places, and each has the value of its last place, which is a function of that place and
those before it. -/
structure Registers {ι α : Type} (key : ι → Text) (value : List ι → ι → α) (items : List ι)
    (entries : KeyedList α) : Prop where
  keys : entries.map Prod.fst = (items.map key).eraseDups
  found : ∀ wanted shown, KeyedList.find? entries wanted = some shown ↔
    ∃ earlier item, IsLastPlace key items wanted earlier item ∧ value earlier item = shown

namespace Registers

variable {ι α β : Type} {key : ι → Text} {value : List ι → ι → α} {items : List ι}
  {entries : KeyedList α}

theorem nil : Registers key value [] [] where
  keys := rfl
  found wanted shown := by
    refine iff_of_false (Option.some_ne_none _).symm ?_
    rintro ⟨earlier, item, isLast, -⟩
    exact not_isLastPlace_nil isLast

/-- The known keys are those that are declared. -/
theorem isSome_find?_iff (registers : Registers key value items entries) {wanted : Text} :
    (KeyedList.find? entries wanted).isSome = true ↔ wanted ∈ items.map key := by
  rw [KeyedList.isSome_find?_iff, registers.keys, List.mem_eraseDups]

/-- One more declaration takes the value of its own place. -/
theorem put (registers : Registers key value items entries) (last : ι) :
    Registers key value (items ++ [last])
      (KeyedList.put entries (key last) (value items last)) where
  keys := by
    rw [KeyedList.map_fst_put, registers.keys, List.map_append, List.eraseDups_append]
    simp only [List.mem_eraseDups, List.map_singleton]
    by_cases known : key last ∈ items.map key
    · rw [if_pos known, List.removeAll, List.filter_cons_of_neg (by simpa using known)]
      rfl
    · rw [if_neg known, List.removeAll, List.filter_cons_of_pos (by simpa using known)]
      rfl
  found wanted shown := by
    by_cases same : key last = wanted
    · subst same
      simp only [KeyedList.find?_put_self, Option.some.injEq, isLastPlace_append_self]
      constructor
      · intro here
        exact ⟨items, last, ⟨rfl, rfl⟩, here⟩
      · rintro ⟨earlier, item, ⟨rfl, rfl⟩, here⟩
        exact here
    · rw [KeyedList.find?_put_of_ne _ same, registers.found]
      simp only [isLastPlace_append_of_ne same]

/-- The entries with their values shown in another way. -/
theorem map (registers : Registers key value items entries) (write : α → β) :
    Registers key (fun earlier item => write (value earlier item)) items
      (entries.map fun (key, value) => (key, write value)) where
  keys := by
    rw [List.map_map, ← registers.keys]
    rfl
  found wanted shown := by
    rw [KeyedList.find?_map, Option.map_eq_some_iff]
    simp only [registers.found]
    constructor
    · rintro ⟨plain, ⟨earlier, item, isLast, rfl⟩, rfl⟩
      exact ⟨earlier, item, isLast, rfl⟩
    · rintro ⟨earlier, item, isLast, rfl⟩
      exact ⟨value earlier item, ⟨earlier, item, isLast, rfl⟩, rfl⟩

/-- Where a later place never has the value of an earlier one, no two keys share a
value. -/
theorem nodup_values (registers : Registers key value items entries)
    (distinct : ∀ earlier item between other,
      value earlier item ≠ value (earlier ++ item :: between) other) :
    (entries.map Prod.snd).Nodup := by
  have single : (entries.map Prod.fst).Nodup := registers.keys ▸ nodup_eraseDups _
  refine List.Nodup.map_on ?_ (List.Nodup.of_map Prod.fst single)
  intro first firstListed second secondListed shared
  obtain ⟨earlier, item, ⟨later, split, isKey, -⟩, here⟩ :=
    (registers.found _ _).mp (KeyedList.find?_of_mem single firstListed)
  obtain ⟨before, other, ⟨after, otherSplit, isOtherKey, -⟩, there⟩ :=
    (registers.found _ _).mp (KeyedList.find?_of_mem single secondListed)
  have equal : value earlier item = value before other := by rw [here, there, shared]
  -- One of the two places is the later, unless they are the same.
  rcases List.append_eq_append_iff.mp (split.symm.trans otherSplit) with
    ⟨_ | ⟨c, between⟩, rfl, behind⟩ | ⟨_ | ⟨c, between⟩, rfl, behind⟩
  · obtain rfl := (List.cons.inj behind).1
    exact Prod.ext (isKey.symm.trans isOtherKey) shared
  · obtain rfl := (List.cons.inj behind).1
    exact absurd equal (distinct earlier item between other)
  · obtain rfl := (List.cons.inj behind).1
    exact Prod.ext (isKey.symm.trans isOtherKey) shared
  · obtain rfl := (List.cons.inj behind).1
    exact absurd equal.symm (distinct before other between item)

end Registers

/-! ## The places of labels and items -/

/-- A label as it is spelled: its command, blanks, and its key up to the first closing
brace. -/
inductive SpellsLabel : Text → Text → Prop
  | intro {blanks key : Text} (blank : ∀ c ∈ blanks, Text.isBlank c = true) (closing : '}' ∉ key) :
      SpellsLabel ("\\label".toList ++ (blanks ++ '{' :: (key ++ ['}']))) key

/-- A label of a bibliography item as it is spelled, with the blanks before it: nothing,
or what stands in brackets up to the first closing one. -/
inductive SpellsOption : Text → Prop
  | absent : SpellsOption []
  | label {blanks label : Text} (blank : ∀ c ∈ blanks, Text.isBlank c = true)
      (closing : ']' ∉ label) : SpellsOption (blanks ++ '[' :: (label ++ [']']))

/-- A bibliography item as it is spelled: its command, its label, blanks, and its key up
to the first closing brace. -/
inductive SpellsItem : Text → Text → Prop
  | intro {option blanks key : Text} (isOption : SpellsOption option)
      (blank : ∀ c ∈ blanks, Text.isBlank c = true) (closing : '}' ∉ key) :
      SpellsItem ("\\bibitem".toList ++ (option ++ (blanks ++ '{' :: (key ++ ['}'])))) key

/-- Something spelled starts at the beginning of the text. -/
def Begins (spells : Text → Text → Prop) (text : Text) : Prop :=
  ∃ matched key, spells matched key ∧ matched <+: text

/-- All that is spelled in a text, from left to right: each is the first behind the one
before, and stands with the characters before it, the nearest first, and with its key
without the blanks around it. -/
inductive Matches (spells : Text → Text → Prop) : Text → Text → List (Text × Text) → Prop
  | done {before text : Text} (silent : ∀ suffix, suffix <:+ text → ¬ Begins spells suffix) :
      Matches spells before text []
  | next {before gap matched key rest : Text} {others : List (Text × Text)}
      (silent : ∀ front behind, gap = front ++ behind → behind ≠ [] →
        ¬ Begins spells (behind ++ (matched ++ rest)))
      (spelled : spells matched key)
      (later : Matches spells (matched.reverse ++ (gap.reverse ++ before)) rest others) :
      Matches spells before (gap ++ (matched ++ rest))
        ((gap.reverse ++ before, Text.trim key) :: others)

/-- A reader that reads just what is spelled. -/
structure Reads (read : Text → Option (Text × Text)) (spells : Text → Text → Prop) : Prop where
  nonempty : ∀ matched key, spells matched key → matched ≠ []
  read_iff : ∀ text key rest, read text = some (key, rest) ↔
    ∃ matched, spells matched key ∧ text = matched ++ rest

namespace Reads

variable {read : Text → Option (Text × Text)} {spells : Text → Text → Prop}
  {before text : Text} {found : List (Text × Text)}

theorem eq_none_iff (reads : Reads read spells) : read text = none ↔ ¬ Begins spells text := by
  constructor
  · rintro unread ⟨matched, key, spelled, rest, rfl⟩
    rw [(reads.read_iff _ key rest).mpr ⟨matched, spelled, rfl⟩] at unread
    cases unread
  · intro silent
    cases result : read text with
    | none => rfl
    | some pair =>
      obtain ⟨matched, spelled, rfl⟩ := (reads.read_iff _ _ _).mp result
      exact absurd ⟨matched, _, spelled, List.prefix_append _ _⟩ silent

/-- Where nothing spelled starts, the reader moves on. -/
theorem keysFrom_gap (reads : Reads read spells) {gap rest : Text}
    (silent : ∀ front behind, gap = front ++ behind → behind ≠ [] →
      ¬ Begins spells (behind ++ rest)) (before : Text) :
    keysFrom read before 0 (gap ++ rest) = keysFrom read (gap.reverse ++ before) 0 rest := by
  induction gap generalizing before with
  | nil => rfl
  | cons c others inductionHypothesis =>
    have unread : read (c :: (others ++ rest)) = none :=
      reads.eq_none_iff.mpr (silent [] (c :: others) rfl (List.cons_ne_nil c others))
    have later := inductionHypothesis fun front behind split =>
      silent (c :: front) behind (congrArg (c :: ·) split)
    rw [List.cons_append, keysFrom, unread]
    simp only
    rw [later, List.reverse_cons, List.append_assoc]
    rfl

/-- The matches behind a character at which nothing starts. -/
theorem matches_cons {c : Char} {rest : Text} (silent : ¬ Begins spells (c :: rest))
    (later : Matches spells (c :: before) rest found) :
    Matches spells before (c :: rest) found := by
  cases later with
  | done absent =>
    refine .done fun suffix within => ?_
    rcases List.suffix_cons_iff.mp within with rfl | inside
    · exact silent
    · exact absent suffix inside
  | @next _ gap matched key behind others absent spelled others' =>
    have shifted : gap.reverse ++ c :: before = (c :: gap).reverse ++ before := by simp
    rw [shifted] at others' ⊢
    refine @Matches.next spells before (c :: gap) matched key behind others ?_ spelled others'
    intro front inner split nonempty
    cases front with
    | nil =>
      obtain rfl : c :: gap = inner := split
      exact silent
    | cons d before' => exact absent before' inner (List.cons.inj split).2 nonempty

/-- The keys that a reader finds are all that is spelled. -/
theorem matches_keysFrom (reads : Reads read spells) (before text : Text) :
    Matches spells before text (keysFrom read before 0 text) := by
  induction size : text.length using Nat.strong_induction_on generalizing before text with
  | _ size inductionHypothesis =>
  subst size
  cases text with
  | nil =>
    refine .done fun suffix within => ?_
    rw [List.suffix_nil.mp within]
    rintro ⟨matched, key, spelled, start⟩
    exact reads.nonempty matched key spelled (List.prefix_nil.mp start)
  | cons c rest =>
    cases result : read (c :: rest) with
    | none =>
      rw [keysFrom, result]
      exact matches_cons (reads.eq_none_iff.mp result)
        (inductionHypothesis rest.length (Nat.lt_succ_self _) _ _ rfl)
    | some pair =>
      obtain ⟨key, behind⟩ := pair
      obtain ⟨matched, spelled, split⟩ := (reads.read_iff _ _ _).mp result
      have nonempty := reads.nonempty matched key spelled
      rw [split] at result ⊢
      rw [keysFrom_match nonempty result]
      have shorter : behind.length < (c :: rest).length := by
        rw [split, List.length_append]
        exact Nat.lt_add_of_pos_left (List.length_pos_of_ne_nil nonempty)
      refine @Matches.next spells before [] matched key behind _ ?_ spelled
        (inductionHypothesis _ shorter _ _ rfl)
      intro front inner split nonempty
      exact absurd (List.append_eq_nil_iff.mp split.symm).2 nonempty

/-- A text has no other matches than the keys that a reader finds. -/
theorem matches_iff (reads : Reads read spells) :
    Matches spells before text found ↔ found = keysFrom read before 0 text := by
  constructor
  · intro found
    induction found with
    | @done before text silent =>
      have passed : keysFrom read before 0 (text ++ []) =
          keysFrom read (text.reverse ++ before) 0 [] := by
        refine reads.keysFrom_gap (fun front behind split _ => ?_) before
        rw [List.append_nil]
        exact silent behind ⟨front, split.symm⟩
      rw [List.append_nil] at passed
      rw [passed, keysFrom]
    | @next before gap matched key rest others silent spelled later inductionHypothesis =>
      have here := (reads.read_iff _ key rest).mpr ⟨matched, spelled, rfl⟩
      rw [reads.keysFrom_gap silent, keysFrom_match (reads.nonempty _ _ spelled) here,
        inductionHypothesis]
  · rintro rfl
    exact reads.matches_keysFrom before text

end Reads

end Numbering

/-- What stands behind all blanks, if it is visible. -/
theorem Text.trimStart_eq_cons_iff {text rest : Text} {c : Char} (visible : isBlank c = false) :
    trimStart text = c :: rest ↔
      ∃ blanks, (∀ d ∈ blanks, isBlank d = true) ∧ text = blanks ++ c :: rest := by
  constructor
  · intro behind
    refine ⟨text.takeWhile isBlank, fun _ => List.mem_takeWhile_imp, ?_⟩
    rw [← behind]
    exact List.takeWhile_append_dropWhile.symm
  · rintro ⟨blanks, blank, rfl⟩
    rw [trimStart, List.dropWhile_append_of_pos blank,
      List.dropWhile_cons_of_neg (by rw [visible]; exact Bool.false_ne_true)]

/-- An enclosure ends at its first closing character. -/
theorem Scan.readEnclosed_eq_some_iff {opening closing : Char} {text inner rest : Text} :
    readEnclosed opening closing text = some (inner, rest) ↔
      closing ∉ inner ∧ text = opening :: (inner ++ closing :: rest) := by
  constructor
  · intro read
    cases text with
    | nil => cases read
    | cons c inside =>
      simp only [readEnclosed] at read
      split at read
      next isOpening =>
        split at read
        next last behind reached =>
          obtain ⟨rfl, rfl⟩ := Prod.mk.inj (Option.some.inj read)
          have isLast : last = closing := by
            have nonempty : inside.dropWhile (· ≠ closing) ≠ [] :=
              reached ▸ List.cons_ne_nil last behind
            have stopped := List.head_dropWhile_not (· ≠ closing) nonempty
            simp only [reached, List.head_cons] at stopped
            simpa using stopped
          constructor
          · intro member
            have passed := List.mem_takeWhile_imp member
            simp at passed
          · subst isLast
            rw [isOpening, ← reached, List.takeWhile_append_dropWhile]
        next => cases read
      next => cases read
  · rintro ⟨absent, rfl⟩
    exact readEnclosed_append opening absent rest

namespace Numbering

/-- The label of an item is passed over. -/
theorem SpellsOption.skipEnclosed_eq {option blanks rest : Text} (isOption : SpellsOption option)
    (blank : ∀ c ∈ blanks, Text.isBlank c = true) :
    skipEnclosed '[' ']' (option ++ (blanks ++ '{' :: rest)) = blanks ++ '{' :: rest := by
  cases isOption with
  | absent =>
    have behind : Text.trimStart (blanks ++ '{' :: rest) = '{' :: rest :=
      (Text.trimStart_eq_cons_iff (by decide)).mpr ⟨blanks, blank, rfl⟩
    rw [List.nil_append, skipEnclosed, behind]
    rfl
  | @label before label spaced closing =>
    have behind : Text.trimStart (before ++ '[' :: (label ++ [']']) ++ (blanks ++ '{' :: rest)) =
        '[' :: (label ++ ']' :: (blanks ++ '{' :: rest)) :=
      (Text.trimStart_eq_cons_iff (by decide)).mpr ⟨before, spaced, by simp⟩
    rw [skipEnclosed, behind, readEnclosed_append '[' closing]

/-- What is passed over is the label of an item. -/
theorem exists_spellsOption (text : Text) :
    ∃ option, SpellsOption option ∧ text = option ++ skipEnclosed '[' ']' text := by
  rw [skipEnclosed]
  cases read : readEnclosed '[' ']' (Text.trimStart text) with
  | none => exact ⟨[], .absent, rfl⟩
  | some pair =>
    obtain ⟨label, rest⟩ := pair
    obtain ⟨closing, behind⟩ := readEnclosed_eq_some_iff.mp read
    obtain ⟨blanks, blank, rfl⟩ := (Text.trimStart_eq_cons_iff (by decide)).mp behind
    exact ⟨_, .label blank closing, by simp⟩

theorem reads_label : Reads readLabel SpellsLabel where
  nonempty := by
    rintro matched key ⟨blank, closing⟩
    exact List.cons_ne_nil _ _
  read_iff text key rest := by
    simp only [readLabel, Option.bind_eq_bind, Option.bind_eq_some_iff,
      Text.dropFront?_eq_some_iff, readEnclosed_eq_some_iff,
      Text.trimStart_eq_cons_iff (c := '{') (by decide)]
    constructor
    · rintro ⟨after, rfl, closing, blanks, blank, rfl⟩
      exact ⟨_, .intro blank closing, by simp⟩
    · rintro ⟨matched, ⟨blank, closing⟩, rfl⟩
      exact ⟨_, List.append_assoc .., closing, _, blank, by simp⟩

theorem reads_item : Reads readItem SpellsItem where
  nonempty := by
    rintro matched key ⟨isOption, blank, closing⟩
    exact List.cons_ne_nil _ _
  read_iff text key rest := by
    simp only [readItem, Option.bind_eq_bind, Option.bind_eq_some_iff,
      Text.dropFront?_eq_some_iff, readEnclosed_eq_some_iff,
      Text.trimStart_eq_cons_iff (c := '{') (by decide)]
    constructor
    · rintro ⟨after, rfl, closing, blanks, blank, behind⟩
      obtain ⟨option, isOption, split⟩ := exists_spellsOption after
      rw [behind] at split
      exact ⟨_, .intro isOption blank closing, by simp [split]⟩
    · rintro ⟨matched, @⟨option, blanks, _, isOption, blank, closing⟩, rfl⟩
      refine ⟨option ++ (blanks ++ '{' :: (key ++ '}' :: rest)), by simp, closing, blanks, blank,
        ?_⟩
      exact isOption.skipEnclosed_eq blank

/-! ## Headings before a label -/

/-- A heading command with the opening of its first argument. -/
inductive OpensHeading : Text → Prop
  | intro {name star blanks : Text} {opening : Char} (listed : name ∈ headingNames)
      (starred : star = [] ∨ star = ['*']) (blank : ∀ c ∈ blanks, Text.isBlank c = true)
      (opens : opening = '[' ∨ opening = '{') :
      OpensHeading ('\\' :: name ++ (star ++ (blanks ++ [opening])))

/-- A heading command starts among the last characters of a text, and its first argument
is opened before the end. -/
def HeadedWithin (limit : Nat) (text : Text) : Prop :=
  ∃ front opening behind, text = front ++ (opening ++ behind) ∧ OpensHeading opening ∧
    (opening ++ behind).length ≤ limit

theorem startsWithHeading_iff {text : Text} :
    startsWithHeading text = true ↔ ∃ opening, OpensHeading opening ∧ opening <+: text := by
  rw [startsWithHeading, List.any_eq_true]
  constructor
  · rintro ⟨name, listed, starts⟩
    split at starts
    · cases starts
    next after named =>
      rw [Text.dropFront?_eq_some_iff] at named
      subst named
      obtain ⟨star, starred, split⟩ : ∃ star : Text, (star = [] ∨ star = ['*']) ∧
          after = star ++ (Text.dropFront? ['*'] after).getD after := by
        cases found : Text.dropFront? ['*'] after with
        | none => exact ⟨[], .inl rfl, rfl⟩
        | some rest => exact ⟨['*'], .inr rfl, Text.dropFront?_eq_some_iff.mp found⟩
      simp only at starts
      split at starts
      next opening rest behind =>
        have opens : opening = '[' ∨ opening = '{' := by simpa using starts
        have visible : Text.isBlank opening = false := by rcases opens with rfl | rfl <;> decide
        obtain ⟨blanks, blank, spelled⟩ := (Text.trimStart_eq_cons_iff visible).mp behind
        refine ⟨_, .intro listed starred blank opens, rest, ?_⟩
        rw [split, spelled]
        simp
      · cases starts
  · rintro ⟨opening, @⟨name, star, blanks, sign, listed, starred, blank, opens⟩, rest, rfl⟩
    have visible : Text.isBlank sign = false := by rcases opens with rfl | rfl <;> decide
    have behind : Text.trimStart (blanks ++ sign :: rest) = sign :: rest :=
      (Text.trimStart_eq_cons_iff visible).mpr ⟨blanks, blank, rfl⟩
    have unstarred : Text.dropFront? ['*'] (blanks ++ sign :: rest) = none := by
      refine Text.dropFront?_eq_none_iff.mpr fun ⟨after, same⟩ => ?_
      cases blanks with
      | nil =>
        obtain rfl := (List.cons.inj same).1
        rcases opens with other | other <;> exact absurd other (by decide)
      | cons c others =>
        obtain rfl := (List.cons.inj same).1
        exact absurd (blank _ List.mem_cons_self) (by decide)
    have starless : (Text.dropFront? ['*'] (star ++ (blanks ++ sign :: rest))).getD
        (star ++ (blanks ++ sign :: rest)) = blanks ++ sign :: rest := by
      rcases starred with rfl | rfl
      · rw [List.nil_append, unstarred]
        rfl
      · rw [Text.dropFront?_append]
        rfl
    have spelled : '\\' :: name ++ (star ++ (blanks ++ [sign])) ++ rest =
        '\\' :: name ++ (star ++ (blanks ++ sign :: rest)) := by simp
    refine ⟨name, listed, ?_⟩
    rw [spelled, Text.dropFront?_append]
    simp only [starless, behind]
    simpa using opens

theorem containsHeading_iff {text : Text} :
    containsHeading text = true ↔ ∃ opening, OpensHeading opening ∧ opening <:+: text := by
  induction text with
  | nil =>
    refine iff_of_false Bool.false_ne_true ?_
    rintro ⟨opening, ⟨listed, starred, blank, opens⟩, within⟩
    exact List.cons_ne_nil _ _ (List.eq_nil_of_infix_nil within)
  | cons c rest inductionHypothesis =>
    simp only [containsHeading, Bool.or_eq_true, startsWithHeading_iff, inductionHypothesis,
      List.infix_cons_iff]
    constructor
    · rintro (⟨opening, opens, here⟩ | ⟨opening, opens, later⟩)
      · exact ⟨opening, opens, .inl here⟩
      · exact ⟨opening, opens, .inr later⟩
    · rintro ⟨opening, opens, here | later⟩
      · exact .inl ⟨opening, opens, here⟩
      · exact .inr ⟨opening, opens, later⟩

/-- A label belongs to a heading exactly when a heading starts within the window before
it. -/
theorem kindAfter_eq_heading_iff {before : Text} :
    kindAfter before = .heading ↔ HeadedWithin headingWindow before.reverse := by
  have split : before.reverse =
      (before.drop headingWindow).reverse ++ (before.take headingWindow).reverse := by
    rw [← List.reverse_append, List.take_append_drop]
  have headed : kindAfter before = .heading ↔
      containsHeading (before.take headingWindow).reverse = true := by
    rw [kindAfter]
    split <;> simp_all
  rw [headed, containsHeading_iff]
  constructor
  · rintro ⟨opening, opens, front, behind, within⟩
    refine ⟨(before.drop headingWindow).reverse ++ front, opening, behind, ?_, opens, ?_⟩
    · rw [split, ← within]
      simp
    · have window : (front ++ opening ++ behind).length ≤ headingWindow := by
        rw [within, List.length_reverse]
        exact List.length_take_le ..
      rw [List.append_assoc, List.length_append] at window
      omega
  · rintro ⟨front, opening, behind, same, opens, short⟩
    refine ⟨opening, opens, ?_⟩
    have whole : (opening ++ behind).length ≤ before.length := by
      have lengths := congrArg List.length same
      rw [List.length_reverse, List.length_append] at lengths
      omega
    have ends : opening ++ behind <:+ (before.take headingWindow).reverse := by
      refine List.suffix_of_suffix_length_le (same ▸ List.suffix_append front _)
        (split ▸ List.suffix_append _ _) ?_
      rw [List.length_reverse, List.length_take]
      exact Nat.le_min.mpr ⟨short, whole⟩
    exact (List.prefix_append opening behind).isInfix.trans ends.isInfix

/-! ## Counting -/

/-- The number of a label counts the labels of its kind up to its place. -/
def labelNumber (earlier : List (Text × Text)) (label : Text × Text) : LabelNumber :=
  ⟨kindAfter label.1,
    earlier.countP (fun other => kindAfter other.1 = kindAfter label.1) + 1⟩

/-- The number of an item counts the items up to its place. -/
def itemNumber (earlier : List Text) (_ : Text) : Nat :=
  earlier.length + 1

/-- The keys at the places at which a key is declared again, in their order. -/
def redeclared (keys : List Text) : List Text :=
  (keys.zipIdx.filter fun (key, place) => key ∈ keys.take place).map Prod.fst

/-- The numbers of a document with given labels and items: each label has the number of
its last place as references show it, each item the number of its last place, no two
labels show the same, no two items do, and all keys declared again are warned about, those
of labels first. -/
structure IsNumbering (labels : List (Text × Text)) (items : List Text)
    (numbers : Numbers) : Prop where
  labelsListed : Registers Prod.snd (fun earlier label => (labelNumber earlier label).render) labels
    numbers.labels.rendered
  labelsDistinct : (numbers.labels.rendered.map Prod.snd).Nodup
  itemsListed : Registers id itemNumber items numbers.citations.entries
  itemsDistinct : (numbers.citations.entries.map Prod.snd).Nodup
  warnings : numbers.warnings =
    (redeclared (labels.map Prod.snd) ++ redeclared items).map (Warning.about .duplicateLabel)

theorem redeclared_append (keys : List Text) (key : Text) :
    redeclared (keys ++ [key]) = redeclared keys ++ if key ∈ keys then [key] else [] := by
  have same : ∀ entry ∈ keys.zipIdx,
      decide (entry.1 ∈ (keys ++ [key]).take entry.2) = decide (entry.1 ∈ keys.take entry.2) := by
    intro entry listed
    have inside : entry.2 ≤ keys.length := (List.snd_lt_of_mem_zipIdx listed).le
    rw [List.take_append_of_le_length inside]
  rw [redeclared, redeclared, List.zipIdx_append, List.filter_append, List.map_append,
    List.filter_congr same]
  by_cases known : key ∈ keys <;> simp [known]

theorem render_injective {first second : LabelNumber} (same : first.render = second.render) :
    first = second := by
  have digits {number other : Nat} (same : Text.ofNat number = Text.ofNat other) :
      number = other := by
    have values := congrArg Text.digitsValue same
    rwa [Fragment.digitsValue_ofNat, Fragment.digitsValue_ofNat] at values
  have unopened {number : Nat} {rest : Text} (same : Text.ofNat number = '(' :: rest) : False := by
    have member : '(' ∈ Text.ofNat number := same ▸ List.mem_cons_self
    exact absurd (Fragment.isDigit_of_mem_ofNat member) (by decide)
  obtain ⟨kind, number⟩ := first
  obtain ⟨otherKind, other⟩ := second
  cases kind <;> cases otherKind
  · obtain rfl : number = other := digits same
    rfl
  · exact (unopened same).elim
  · exact (unopened same.symm).elim
  · obtain rfl : number = other := digits (List.append_cancel_right (List.cons.inj same).2)
    rfl

/-- A later label never has the number of an earlier one. -/
theorem labelNumber_ne (earlier : List (Text × Text)) (label : Text × Text)
    (between : List (Text × Text)) (other : Text × Text) :
    labelNumber earlier label ≠ labelNumber (earlier ++ label :: between) other := by
  intro same
  obtain ⟨kinds, numbers⟩ := LabelNumber.mk.inj same
  rw [← kinds, List.countP_append, List.countP_cons_of_pos (by simp)] at numbers
  omega

/-- What holds after some labels and some items are numbered: both counters count, each
key has the number of its last place, and all keys declared again are warned about. -/
structure Counted (labels : List (Text × Text)) (items : List Text)
    (numbers : Numbers) : Prop where
  sections : numbers.labels.sections = labels.countP fun label => kindAfter label.1 = .heading
  equations : numbers.labels.equations = labels.countP fun label => kindAfter label.1 = .equation
  labelsListed : Registers Prod.snd labelNumber labels numbers.labels.entries
  count : numbers.citations.count = items.length
  itemsListed : Registers id itemNumber items numbers.citations.entries
  warnings : numbers.warnings =
    (redeclared (labels.map Prod.snd) ++ redeclared items).map (Warning.about .duplicateLabel)

namespace Counted

variable {labels : List (Text × Text)} {items : List Text} {numbers : Numbers}

theorem empty : Counted [] [] Numbers.empty where
  sections := rfl
  equations := rfl
  labelsListed := .nil
  count := rfl
  itemsListed := .nil
  warnings := rfl

/-- One more warning for a key that is declared again. -/
theorem warnIf_eq {known : Bool} {key : Text} {keys : List Text}
    (repeated : known = true ↔ key ∈ keys) (earlier : List Text) :
    Numbers.warnIf known key
        ((earlier ++ redeclared keys).map (Warning.about .duplicateLabel)) =
      (earlier ++ redeclared (keys ++ [key])).map (Warning.about .duplicateLabel) := by
  rw [redeclared_append, Numbers.warnIf]
  by_cases here : key ∈ keys
  · simp [repeated.mpr here, here]
  · have unknown : known = false := Bool.not_eq_true _ ▸ mt repeated.mp here
    simp [unknown, here]

/-- One more label, before all items, is counted with its kind. -/
theorem addLabel (counted : Counted labels [] numbers) (label : Text × Text) :
    Counted (labels ++ [label]) [] (numbers.addLabel label) where
  sections := by
    rw [Numbers.addLabel, LabelRegistry.declare, List.countP_append, ← counted.sections,
      List.countP_singleton]
    simp
  equations := by
    rw [Numbers.addLabel, LabelRegistry.declare, List.countP_append, ← counted.equations,
      List.countP_singleton]
    simp
  labelsListed := by
    have number : (numbers.labels.declare label.2 (kindAfter label.1)).1.entries =
        KeyedList.put numbers.labels.entries label.2 (labelNumber labels label) := by
      cases kind : kindAfter label.1 with
      | heading => simp [LabelRegistry.declare, labelNumber, kind, counted.sections]
      | equation => simp [LabelRegistry.declare, labelNumber, kind, counted.equations]
    rw [Numbers.addLabel, number]
    exact counted.labelsListed.put label
  count := counted.count
  itemsListed := counted.itemsListed
  warnings := by
    have repeated : (numbers.labels.find? label.2).isSome = true ↔
        label.2 ∈ labels.map Prod.snd := counted.labelsListed.isSome_find?_iff
    have warned := warnIf_eq repeated []
    have before := counted.warnings
    simp only [redeclared, List.zipIdx_nil, List.filter_nil, List.map_nil, List.append_nil,
      List.nil_append] at before warned ⊢
    rw [← before] at warned
    rw [List.map_append]
    exact warned

/-- One more item is counted. -/
theorem addItem (counted : Counted labels items numbers) (key : Text) :
    Counted labels (items ++ [key]) (numbers.addItem key) where
  sections := counted.sections
  equations := counted.equations
  labelsListed := counted.labelsListed
  count := by
    rw [Numbers.addItem, CitationRegistry.declare, List.length_append, ← counted.count]
    rfl
  itemsListed := by
    rw [Numbers.addItem, CitationRegistry.declare, counted.count]
    exact counted.itemsListed.put key
  warnings := by
    have repeated : (numbers.citations.find? key).isSome = true ↔ key ∈ items := by
      have known : (KeyedList.find? numbers.citations.entries key).isSome = true ↔
          key ∈ items.map id := counted.itemsListed.isSome_find?_iff
      rwa [List.map_id] at known
    rw [← warnIf_eq repeated, ← counted.warnings]
    rfl

/-- A run over labels counts them all. -/
theorem foldl_addLabel (found : List (Text × Text)) :
    Counted found [] (found.foldl Numbers.addLabel Numbers.empty) := by
  induction found using List.reverseRecOn with
  | nil => exact .empty
  | append_singleton others label inductionHypothesis =>
    rw [List.foldl_append]
    exact inductionHypothesis.addLabel label

/-- A run over items counts them all, and leaves the labels. -/
theorem foldl_addItem (counted : Counted labels [] numbers) (keys : List Text) :
    Counted labels keys (keys.foldl Numbers.addItem numbers) := by
  induction keys using List.reverseRecOn with
  | nil => exact counted
  | append_singleton others key inductionHypothesis =>
    rw [List.foldl_append]
    exact inductionHypothesis.addItem key

/-- Where everything is counted, no two keys share a number. -/
theorem isNumbering (counted : Counted labels items numbers) :
    IsNumbering labels items numbers where
  labelsListed := counted.labelsListed.map LabelNumber.render
  labelsDistinct := by
    refine (counted.labelsListed.map LabelNumber.render).nodup_values ?_
    intro earlier label between other same
    exact labelNumber_ne earlier label between other (render_injective same)
  itemsListed := counted.itemsListed
  itemsDistinct := by
    refine counted.itemsListed.nodup_values ?_
    intro earlier item between other
    simp only [itemNumber, List.length_append, List.length_cons]
    omega
  warnings := counted.warnings

end Counted

/-- A document is numbered by its spelled labels and items: a label is of a heading
exactly if a heading command starts among the fifty characters before it, keys are listed
in the order of their first places and have the numbers of their last ones, no two keys
share a number, and every key that is declared again is warned about. -/
theorem isNumbering_scan (text : Text) :
    ∃ labels items,
      (∀ found, Matches SpellsLabel [] text found ↔ found = labels) ∧
      (∀ found, Matches SpellsItem [] text found ↔ found = items) ∧
      (∀ label ∈ labels, kindAfter label.1 = .heading ↔ HeadedWithin 50 label.1.reverse) ∧
      IsNumbering labels (items.map Prod.snd) (scan text) := by
  refine ⟨labelKeys text, keysFrom readItem [] 0 text, ?_, ?_, ?_, ?_⟩
  · intro found
    exact reads_label.matches_iff
  · intro found
    exact reads_item.matches_iff
  · intro label _
    exact kindAfter_eq_heading_iff
  · exact ((Counted.foldl_addLabel (labelKeys text)).foldl_addItem (itemKeys text)).isNumbering

/-- A key that is declared again keeps its place and takes the later number. -/
example : (scan "\\label{a}\\label{b}\\label{a}".toList).labels.rendered =
    [("a".toList, "(3)".toList), ("b".toList, "(2)".toList)] := by
  decide

end Numbering

end LatexMarkdown
