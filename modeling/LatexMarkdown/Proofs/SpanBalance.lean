import LatexMarkdown.Inline.Format
import LatexMarkdown.Preamble.Definition
import LatexMarkdown.Proofs.TableCounting
import LatexMarkdown.Proofs.TaggedText

/-!
# Spans that stay open

Every pass over styles and colours keeps the tags that earlier passes wrote, and leaves no
span open itself, apart from the colour switches: each of them opens a span that nothing
closes, and each is reported. So the spans that are left open are counted by the warnings.
-/

namespace LatexMarkdown

namespace Html

/-! ## Styles and colours -/

section Pieces

variable {text content style : Text} {balance other : Int}

theorem Tagged.property (name : String) (plain : IsPlain name.toList)
    (tagged : Tagged text balance) : Tagged (Html.property name text) balance := by
  have whole := ((Tagged.of_plain plain).append
    (Tagged.of_plain (by decide : IsPlain ": ".toList))).append
      (tagged.append (Tagged.of_plain (by decide : IsPlain [';'])))
  simpa [Html.property] using whole

/-- The tag that opens a span with a style. -/
theorem Tagged.openStyled (tagged : Tagged style balance) :
    Tagged (Html.openStyled "span" style) (1 + balance) := by
  have opening : Tagged "<span".toList 1 := .of_tag (by decide)
  have whole := (opening.append (Tagged.of_plain (by decide : IsPlain " style=\"".toList))).append
    (tagged.append (Tagged.of_plain (by decide : IsPlain "\">".toList)))
  simpa [Html.openStyled] using whole

/-- A span around a content leaves open what its style and its content do. -/
theorem Tagged.styled (taggedStyle : Tagged style balance) (tagged : Tagged content other) :
    Tagged (Html.styled "span" style content) (balance + other) := by
  have closing : Tagged "</span>".toList (-1) := .of_tag (by decide)
  have whole := taggedStyle.openStyled.append (tagged.append closing)
  have sum : 1 + balance + (other + -1) = balance + other := by omega
  rw [sum] at whole
  simpa [Html.styled] using whole

/-- The other elements of running text are no spans. -/
theorem Tagged.element {tag : String} (member : tag ∈ ["u", "code", "del", "sup", "sub"])
    (tagged : Tagged content balance) : Tagged (Html.element tag content) balance := by
  have listed {entry : Text × Int} (written : entry ∈
      [('<' :: tag.toList ++ ['>'], (0 : Int)), ("</".toList ++ tag.toList ++ ['>'], 0)]) :
      entry ∈ tags :=
    List.mem_cons_of_mem _ (List.mem_cons_of_mem _ (List.mem_flatMap.mpr ⟨tag, member, written⟩))
  have opening : Tagged ('<' :: tag.toList ++ ['>']) 0 := .of_tag (listed (by simp))
  have closing : Tagged ("</".toList ++ tag.toList ++ ['>']) 0 := .of_tag (listed (by simp))
  have whole := opening.append (tagged.append closing)
  simpa [Html.element] using whole

/-- A style leaves open what its text does. -/
theorem Tagged.wrap (tagged : Tagged text balance) (style : Style) :
    Tagged (style.wrap text) balance := by
  have trimmed := tagged.trim
  simp only [Style.wrap]
  split
  next blank =>
    rwa [List.isEmpty_iff.mp blank] at trimmed
  have around (mark : Text) (plain : IsPlain mark) :
      Tagged (mark ++ Text.trim text ++ mark) balance := by
    simpa using ((Tagged.of_plain plain).append trimmed).append (Tagged.of_plain plain)
  cases style with
  | bold => exact around _ (by decide)
  | italic => exact around ['*'] (by decide)
  | underline | monospace | strike | superscript | subscript => exact trimmed.element (by decide)
  | sansSerif =>
    simpa using ((Tagged.of_plain (by decide : IsPlain "sans-serif".toList)).property _
      (by decide)).styled trimmed
  | smallCaps =>
    simpa using ((Tagged.of_plain (by decide : IsPlain "small-caps".toList)).property _
      (by decide)).styled trimmed
  | plain => exact trimmed

end Pieces

end Html

namespace Inline

open Html Scan

section Passes

variable {colors : ColorTable} {text : Text} {balance : Int}

/-- One braced argument has all the tags. -/
theorem exists_single {required : List Text} {balances : List Int} (counted : required.length = 1)
    (tagged : List.Forall₂ Tagged required balances) :
    ∃ argument, required = [argument] ∧ Tagged argument balances.sum := by
  obtain ⟨argument, rfl⟩ := List.length_eq_one_iff.mp counted
  cases tagged with
  | cons here rest =>
    cases rest
    exact ⟨argument, rfl, by simpa using here⟩

theorem tagged_convertStyles (tagged : Tagged text balance) :
    Tagged (convertStyles text) balance := by
  have plain : ∀ entry ∈ Style.commands, IsPlain entry.1 := by decide +kernel
  rw [convertStyles]
  refine List.foldlRecOn (motive := fun text => Tagged text balance) _ _ tagged
    fun text tagged entry member => ?_
  refine tagged.replaceCommand (plain entry member) (fun starred required balances counted tagged =>
    ?_) true 0
  obtain ⟨argument, rfl, here⟩ := exists_single counted tagged
  exact ⟨_, rfl, here.wrap entry.2⟩

/-- The colours of a table are written as plain text, under names without tags. -/
structure IsPlainTable (colors : ColorTable) : Prop where
  names : ∀ entry ∈ colors.defined, '<' ∉ entry.1
  values : ∀ entry ∈ colors.defined, IsPlain entry.2

/-- A colour has the tags of its expression: a name that is found has none. -/
theorem tagged_resolve (plain : IsPlainTable colors) (tagged : Tagged text balance) :
    Tagged (colors.resolve text) balance := by
  have base : Tagged (Text.trim ((Text.trim text).takeWhile (· ≠ '!'))) balance := by
    have unmixed : (Text.trim text).takeWhile (· ≠ '!') = Text.trim text :=
      List.takeWhile_eq_self_iff.mpr fun c member =>
        decide_eq_true fun same =>
          tagged.trim.not_mem (by decide : '!' ∈ ['!', '[']) (same ▸ member)
    rw [unmixed]
    exact tagged.trim.trim
  have replaced {name value : Text} (tagged : Tagged name balance) (nameless : '<' ∉ name)
      (plain : IsPlain value) : Tagged value balance := by
    rw [tagged.balance_eq_zero fun c member same => nameless (same ▸ member)]
    exact .of_plain plain
  have palette : ∀ entry ∈ Color.palette, '<' ∉ entry.1 ∧ IsPlain entry.2 := by decide +kernel
  simp only [ColorTable.resolve]
  split
  next value found =>
    have member := KeyedList.mem_of_find? found
    exact replaced base (plain.names _ member) (plain.values _ member)
  next =>
    cases found : KeyedList.find? Color.palette
        (Text.trim ((Text.trim text).takeWhile (· ≠ '!'))) with
    | none => exact base
    | some value =>
      have member := palette _ (KeyedList.mem_of_find? found)
      exact replaced base member.1 member.2

theorem tagged_convertColors (plain : IsPlainTable colors) (tagged : Tagged text balance) :
    Tagged (convertColors colors text) balance := by
  have padding : Tagged boxPadding 0 := .of_plain (by decide)
  rw [convertColors]
  refine ((tagged.replaceCommand (by decide) ?_ true 1).replaceCommand (by decide) ?_ true
    1).replaceCommand (by decide) ?_ true 1
  · intro starred required balances counted tagged
    obtain ⟨color, content, rfl⟩ := List.length_eq_two.mp counted
    rcases tagged with _ | ⟨taggedColor, _ | ⟨taggedContent, _ | _⟩⟩
    have whole := ((tagged_resolve plain taggedColor).property "color" (by decide)).styled
      taggedContent
    exact ⟨_, rfl, whole.of_eq (by simp)⟩
  · intro starred required balances counted tagged
    obtain ⟨color, content, rfl⟩ := List.length_eq_two.mp counted
    rcases tagged with _ | ⟨taggedColor, _ | ⟨taggedContent, _ | _⟩⟩
    have whole := (((tagged_resolve plain taggedColor).property "background-color"
      (by decide)).append padding).styled taggedContent
    exact ⟨_, rfl, whole.of_eq (by simp)⟩
  · intro starred required balances counted tagged
    obtain ⟨frame, color, content, rfl⟩ := List.length_eq_three.mp counted
    rcases tagged with _ | ⟨taggedFrame, _ | ⟨taggedColor, _ | ⟨taggedContent, _ | _⟩⟩⟩
    have border := ((Tagged.of_plain (by decide : IsPlain "1px solid ".toList)).append
      (tagged_resolve plain taggedFrame)).property "border" (by decide)
    have background := Tagged.char (by decide : ' ' ≠ '<' ∧ ' ' ≠ '!' ∧ ' ' ≠ '[')
      ((tagged_resolve plain taggedColor).property "background-color" (by decide))
    have whole := ((border.append background).append padding).styled taggedContent
    exact ⟨_, rfl, whole.of_eq (by simp [Int.add_assoc])⟩

/-- The colour at the start of a group and what follows it share the tags of the group. -/
theorem tagged_readGroupColor (plain : IsPlainTable colors) {color content : Text}
    (tagged : Tagged text balance) (read : readGroupColor colors text = some (color, content)) :
    ∃ first second, Tagged color first ∧ Tagged content second ∧ balance = first + second := by
  have skipped {text : Text} (tagged : Tagged text balance) :
      Tagged (Text.skipGap text) balance := by
    obtain ⟨gap, gapped, split⟩ := exists_gap text
    rw [split] at tagged
    refine tagged.drop_front fun c member same => ?_
    have gap := gapped c member
    rw [same] at gap
    exact absurd gap (by decide)
  have unread : readBracketed (Text.skipGap text) = none := by
    cases bracketed : readBracketed (Text.skipGap text) with
    | none => rfl
    | some pair =>
      have optionless := (skipped tagged).not_mem (by decide : '[' ∈ ['!', '['])
      rw [readBracketed_eq_append bracketed] at optionless
      exact absurd List.mem_cons_self optionless
  simp only [readGroupColor, unread] at read
  obtain ⟨⟨spec, after⟩, braced, same⟩ := Option.map_eq_some_iff.mp read
  obtain ⟨rfl, rfl⟩ := Prod.mk.inj same
  have opened := skipped tagged
  rw [readBraced_eq_append braced] at opened
  obtain ⟨first, second, taggedSpec, remains, sum⟩ :=
    (opened.tail (by decide)).split (by decide +kernel)
  exact ⟨first, second, tagged_resolve plain taggedSpec, remains, sum⟩

/-- What a declaration makes of the rest of its group has the tags of the rest. -/
theorem tagged_renderDeclaration (plain : IsPlainTable colors) (name rest replacement : Text)
    (balance : Int) (tagged : Tagged rest balance)
    (rendered : renderDeclaration colors ⟨name, rest⟩ = some replacement) :
    Tagged replacement balance := by
  have sizes : ∀ entry ∈ Style.sizes,
      IsPlain ("font-size: ".toList ++ Text.ofNat entry.2 ++ "pt".toList) := by decide +kernel
  simp only [renderDeclaration] at rendered
  split at rendered
  next style _ =>
    obtain rfl := Option.some.inj rendered
    exact tagged.wrap style
  split at rendered
  next points found =>
    obtain rfl := Option.some.inj rendered
    simpa using (Tagged.of_plain (sizes _ (KeyedList.mem_of_find? found))).styled tagged.trim
  split at rendered
  · obtain ⟨⟨color, content⟩, read, rfl⟩ := Option.map_eq_some_iff.mp rendered
    obtain ⟨first, second, taggedColor, taggedContent, rfl⟩ :=
      tagged_readGroupColor plain tagged read
    exact (taggedColor.property "color" (by decide)).styled taggedContent.trim
  · cases rendered

/-- Every colour switch leaves a span open, and is noted. -/
theorem tagged_openColorSwitches (plain : IsPlainTable colors) (tagged : Tagged text balance) :
    Tagged (openColorSwitches colors text).2
      (balance + (openColorSwitches colors text).1.length) := by
  have answers : AnswersTagged (fun (switches : List Text) => (switches.length : Int)) 1
      fun switches arguments => (switches ++ [Text.trim (arguments.argument 0)],
        some (Html.openStyled "span" (Html.property "color" (colorOf colors arguments 0)))) := by
    intro switches starred required balances counted tagged
    obtain ⟨argument, rfl, here⟩ := exists_single counted tagged
    have whole := ((tagged_resolve plain here).property "color" (by decide)).openStyled
    refine ⟨_, _, _, rfl, whole, ?_⟩
    simp only [List.length_append, List.length_singleton]
    omega
  have word : IsPlain "color".toList := by decide
  obtain ⟨written, result, sum⟩ :=
    keepsTags_editCommandAt word answers true 1 text.length [] text balance tagged
  have opened : written = balance + (openColorSwitches colors text).1.length := by
    simp only [openColorSwitches, editCommand] at sum ⊢
    simp only [List.length_nil] at sum
    omega
  rw [← opened]
  exact result

/-- A switch of size or font that is dropped has no tags. -/
theorem tagged_substitute_readSwitch {names : List Text} (plain : ∀ name ∈ names, IsPlain name)
    (tagged : Tagged text balance) : Tagged (substitute (readSwitch names) text) balance := by
  refine tagged.substitute (fun c rest backslash _ => ?_) fun text balance replacement rest tagged
    read => ?_
  · rw [readSwitch, dropFront?_backslash [] rest backslash]
    rfl
  · simp only [readSwitch, Option.bind_eq_bind, Option.bind_eq_some_iff, Option.some.injEq,
      Prod.mk.injEq, List.findSome?_eq_some_iff, Option.filter_eq_some_iff] at read
    obtain ⟨name, backslash, behind, ⟨before, switch, after, listed, ⟨dropped, -⟩, -⟩, rfl, rfl⟩ :=
      read
    obtain rfl := Text.dropFront?_eq_some_iff.mp backslash
    obtain rfl := Text.dropFront?_eq_some_iff.mp dropped
    have spelled : IsPlain switch := plain switch (by rw [listed]; simp)
    have spaced := (tagged.drop_front (by decide)).drop_front fun c member => (spelled c member).1
    rw [← List.takeWhile_append_dropWhile (p := Text.isSpaceOrTab) (l := behind)] at spaced
    have remains : Tagged (behind.dropWhile Text.isSpaceOrTab) balance :=
      spaced.drop_front fun c member same => by
        have space := List.mem_takeWhile_imp member
        rw [same] at space
        exact absurd space (by decide)
    exact ⟨.of_append (List.cons_ne_nil _ _) ((List.dropWhile_suffix _).trans
      (List.suffix_append switch behind)), 0, balance, .nil, remains, (Int.zero_add balance).symm⟩

/-- The spans that the conversion of styles and colours leaves open are the colour switches
that it reports. -/
theorem openSpans_convertFormat (plainText : IsPlain text) (plain : IsPlainTable colors) :
    openSpans (convertFormat colors text).2 =
      (convertFormat colors text).1.countP (·.kind = .unclosedColorSwitch) := by
  have sizes : ∀ name ∈ Style.sizes.map Prod.fst, IsPlain name := by decide +kernel
  have fonts : ∀ name ∈ fontSwitches, IsPlain name := by decide +kernel
  have reported (switches : List Text) :
      (switches.map (Warning.about .unclosedColorSwitch)).countP (·.kind = .unclosedColorSwitch) =
        switches.length := by
    rw [List.countP_eq_length.mpr, List.length_map]
    simp [Warning.about]
  have colored := tagged_convertColors plain (tagged_convertStyles (.of_plain plainText))
  have declared := colored.replaceDeclaration (tagged_renderDeclaration plain)
  have dropped := tagged_substitute_readSwitch fonts
    (tagged_substitute_readSwitch sizes (tagged_openColorSwitches plain declared))
  rw [Int.zero_add] at dropped
  simp only [convertFormat, reported, dropSwitches]
  exact dropped.openSpans_eq

/-- A group in a defined colour, a switch, and two styles in one another. -/
theorem openSpans_convertFormat_switch :
    let colors : ColorTable := ⟨[("sea".toList, "#112233".toList)]⟩
    let text := "\x7b\\color\x7bsea\x7d a\x7d\\color\x7bred\x7d b\\textsf\x7b\\textbf\x7bc\x7d\x7d".toList
    IsPlain text ∧ IsPlainTable colors ∧ openSpans (convertFormat colors text).2 = 1 := by
  have plainText :
      IsPlain "\x7b\\color\x7bsea\x7d a\x7d\\color\x7bred\x7d b\\textsf\x7b\\textbf\x7bc\x7d\x7d".toList := by
    decide +kernel
  have plain : IsPlainTable ⟨[("sea".toList, "#112233".toList)]⟩ := ⟨by decide, by decide⟩
  refine ⟨plainText, plain, ?_⟩
  rw [openSpans_convertFormat plainText plain]
  decide +kernel

/-- The value of a colour is read like the text around it: an open bracket in it takes the end
of its own span for an option, and that span stays open without a report. -/
theorem openSpans_convertFormat_bracketValue :
    let colors := (Preamble.captureColors .empty "\\colorlet\x7ba\x7d\x7b\\color[\x7d".toList).1
    let text := "\\textcolor\x7ba\x7d\x7bb\x7d]\x7bred\x7d".toList
    IsPlain text ∧ (∀ entry ∈ colors.defined, '<' ∉ entry.1 ∧ '<' ∉ entry.2) ∧
      openSpans (convertFormat colors text).2 = 2 ∧
        (convertFormat colors text).1.countP (·.kind = .unclosedColorSwitch) = 1 := by
  decide +kernel

end Passes

end Inline

end LatexMarkdown
