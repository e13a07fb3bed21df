import ArchipelagoXL.Apdiff.WordDiff
import ArchipelagoXL.Lib.Html

/-!
# The HTML of a line

A line of a diff is written as HTML (`DiffLine::html_content` in `apdiff-viewer/src/diff/mod.rs`): its syntax tokens in
their styles, or its word changes, where each change is cut again at the ends of the tokens below it.

Where the tokens make up the line, and so do the word changes if there are any, the HTML shows the line
(`htmlContent_shows`). How texts are written into HTML comes from another crate and is a parameter.
-/

namespace ArchipelagoXL.Apdiff

open Html (TextEncoding Shows)
open Utf8 (forall_byte)

/-! ## Styles -/

/-- A byte as Rust formats it with `{:02x}`. -/
def lowerHex (b : UInt8) : List Char := [Nat.digitChar (b.toNat / 16), Nat.digitChar (b.toNat % 16)]

/-- Rust `syntect_style_to_css`. -/
def syntectStyleToCss (style : SyntectStyle) : List Char :=
  let styleParts := if style.a > 0 then
    ["color:#".toList ++ lowerHex style.r ++ lowerHex style.g ++ lowerHex style.b] else []
  let classParts := [(style.bold, ['b']), (style.italic, ['i']), (style.underline, ['u'])].filterMap fun part =>
    if part.1 then some part.2 else none
  let classAttr := if classParts ≠ [] then
    some ("class=\"".toList ++ [' '].intercalate classParts ++ ['"']) else none
  let styleAttr := if styleParts ≠ [] then
    some ("style=\"".toList ++ [';'].intercalate styleParts ++ ['"']) else none
  [' '].intercalate [classAttr, styleAttr].reduceOption

/-- A part of a line in a style, if it has one. -/
def styled (cssStyle escaped : List Char) : List Char :=
  if cssStyle = [] then escaped else "<span ".toList ++ cssStyle ++ ['>'] ++ escaped ++ "</span>".toList

/-- Rust `wrap_with_change_tags`. -/
def wrapWithChangeTags (content : List Char) : WordChangeType → List Char
  | .insert => "<ins>".toList ++ content ++ "</ins>".toList
  | .delete => "<del>".toList ++ content ++ "</del>".toList
  | .equal => content

/-- Rust `apply_diff_styling`. -/
def applyDiffStyling (highlightedContent : List Char) : LineType → List Char
  | .add => "<span class='da'>".toList ++ highlightedContent ++ "</span>".toList
  | .delete => "<span class='dd'>".toList ++ highlightedContent ++ "</span>".toList
  | .context => highlightedContent

section
variable (encoding : TextEncoding)

/-! ## Word changes -/

/-- Rust `render_single_token_segment`. -/
def renderSingleTokenSegment (text : List Char) (token : SyntaxToken) : List Char :=
  styled (syntectStyleToCss token.style) (encoding.encode text)

/-- The turn of `render_multi_token_segment` for a token: the result so far, and where it ends. -/
def renderToken (change : WordChangeSegment) (state : List Char × ℕ) (token : SyntaxToken) : List Char × ℕ :=
  let segmentStart := max state.2 token.startOffset
  let segmentEnd := min change.endOffset token.endOffset
  if segmentStart < segmentEnd then
    match Utf8.get change.text (segmentStart - change.startOffset) (segmentEnd - change.startOffset) with
    | some segmentText =>
      (state.1 ++ styled (syntectStyleToCss token.style) (encoding.encode segmentText), segmentEnd)
    | none => (state.1, segmentEnd)
  else state

/-- Rust `render_multi_token_segment`. -/
def renderMultiTokenSegment (change : WordChangeSegment) (overlappingTokens : List SyntaxToken) : List Char :=
  let state := overlappingTokens.foldl (renderToken encoding change) ([], change.startOffset)
  if state.2 < change.endOffset then
    match Utf8.get change.text (state.2 - change.startOffset) (Utf8.len change.text) with
    | some remainingText => state.1 ++ encoding.encode remainingText
    | none => state.1
  else state.1

/-- A token is at a place of a change. -/
def overlaps (change : WordChangeSegment) (token : SyntaxToken) : Bool :=
  token.endOffset > change.startOffset && token.startOffset < change.endOffset

/-- Rust `render_word_change_with_syntax`. -/
def renderWordChangeWithSyntax (syntaxTokens : List SyntaxToken) (change : WordChangeSegment) : List Char :=
  let content := match syntaxTokens.filter (overlaps change) with
    | [] => encoding.encode change.text
    | [token] => renderSingleTokenSegment encoding change.text token
    | overlappingTokens => renderMultiTokenSegment encoding change overlappingTokens
  wrapWithChangeTags content change.changeType

/-- Rust `merge_syntax_and_word_highlighting`. -/
def mergeSyntaxAndWordHighlighting (syntaxTokens : List SyntaxToken) (wordChanges : List WordChangeSegment) :
    List Char :=
  (wordChanges.map (renderWordChangeWithSyntax encoding syntaxTokens)).flatten

/-! ## Lines without word changes -/

/-- Rust `StyleAccumulator`. -/
structure StyleAccumulator where
  html : List Char
  lastStyle : List Char
  accumulatedText : List Char

/-- Rust `StyleAccumulator::flush`. -/
def StyleAccumulator.flush (acc : StyleAccumulator) : StyleAccumulator :=
  if acc.accumulatedText = [] then acc
  else { acc with html := acc.html ++ styled acc.lastStyle acc.accumulatedText, accumulatedText := [] }

/-- Rust `StyleAccumulator::process_style_text`. -/
def StyleAccumulator.processStyleText (acc : StyleAccumulator) (style : SyntectStyle) (text : List Char) :
    StyleAccumulator :=
  let cssStyle := syntectStyleToCss style
  if cssStyle = acc.lastStyle then { acc with accumulatedText := acc.accumulatedText ++ encoding.encode text }
  else { acc.flush with lastStyle := cssStyle, accumulatedText := encoding.encode text }

/-- Rust `process_style_text_pairs`. -/
def processStyleTextPairs (styleTextPairs : List (SyntectStyle × List Char)) : List Char :=
  let accumulator := styleTextPairs.foldl
    (fun acc pair => StyleAccumulator.processStyleText encoding acc pair.1 pair.2) ⟨[], [], []⟩
  accumulator.flush.html

/-- Rust `DiffLine::html_content`. -/
def DiffLine.htmlContent (line : DiffLine) : List Char :=
  match line.wordChanges with
  | some wordChanges => mergeSyntaxAndWordHighlighting encoding line.syntaxTokens wordChanges
  | none =>
    let highlighted := processStyleTextPairs encoding (line.syntaxTokens.map fun token => (token.style, token.text))
    applyDiffStyling highlighted line.lineType

end

/-! ## Elements -/

lemma lowerHex_chars (b : UInt8) : '>' ∉ lowerHex b := by
  revert b
  apply forall_byte
  decide +kernel

lemma syntectStyleToCss_chars (style : SyntectStyle) : '>' ∉ syntectStyleToCss style := by
  obtain ⟨r, g, b, a, bold, italic, underline⟩ := style
  have red := lowerHex_chars r
  have green := lowerHex_chars g
  have blue := lowerHex_chars b
  by_cases visible : a > 0 <;> cases bold <;> cases italic <;> cases underline <;>
    simp [syntectStyleToCss, visible, List.reduceOption, List.intercalate, red, green, blue]

section
variable {encoding : TextEncoding} {cssStyle html text : List Char}

/-- What an element of a line shows. -/
lemma shows_element (start stop : List Char) (shows : Shows encoding html text) (open' : '>' ∉ start ++ stop) :
    Shows encoding ('<' :: (start ++ '>' :: (html ++ '<' :: (stop ++ ['>'])))) text := by
  rw [List.mem_append, not_or] at open'
  have whole := shows.element open'.1 open'.2
  rwa [List.cons_append, List.append_assoc, List.singleton_append] at whole

lemma shows_styled (closed : '>' ∉ cssStyle) (shows : Shows encoding html text) :
    Shows encoding (styled cssStyle html) text := by
  rw [styled]
  split
  · exact shows
  · have whole := shows_element ("span ".toList ++ cssStyle) "/span".toList shows (by simp [closed])
    simpa using whole

lemma shows_wrapWithChangeTags (shows : Shows encoding html text) (changeType : WordChangeType) :
    Shows encoding (wrapWithChangeTags html changeType) text := by
  cases changeType with
  | insert =>
    have whole := shows_element "ins".toList "/ins".toList shows (by simp)
    have shown : Shows encoding ("<ins>".toList ++ html ++ "</ins>".toList) text := by simpa using whole
    exact shown
  | delete =>
    have whole := shows_element "del".toList "/del".toList shows (by simp)
    have shown : Shows encoding ("<del>".toList ++ html ++ "</del>".toList) text := by simpa using whole
    exact shown
  | equal => exact shows

lemma shows_applyDiffStyling (shows : Shows encoding html text) (lineType : LineType) :
    Shows encoding (applyDiffStyling html lineType) text := by
  cases lineType with
  | add =>
    have whole := shows_element "span class='da'".toList "/span".toList shows (by simp)
    have shown : Shows encoding ("<span class='da'>".toList ++ html ++ "</span>".toList) text := by simpa using whole
    exact shown
  | delete =>
    have whole := shows_element "span class='dd'".toList "/span".toList shows (by simp)
    have shown : Shows encoding ("<span class='dd'>".toList ++ html ++ "</span>".toList) text := by simpa using whole
    exact shown
  | context => exact shows

end

/-! ## Tokens below a change -/

/-- Tokens of which each starts where the one before ends, and is as long as its text. -/
def TokensTile : ℕ → List SyntaxToken → Prop
  | _, [] => True
  | start, t :: rest => t.startOffset = start ∧ t.endOffset = start + Utf8.len t.text ∧ TokensTile t.endOffset rest

/-- The tokens of a line make it up. -/
structure DiffLine.Tokenized (line : DiffLine) : Prop where
  whole : (line.syntaxTokens.map (·.text)).flatten = line.rawContent
  tile : TokensTile 0 line.syntaxTokens

/-- A change is at its place in a line. -/
structure IsPart (change : WordChangeSegment) (pre post line : List Char) : Prop where
  whole : line = pre ++ (change.text ++ post)
  start : change.startOffset = Utf8.len pre
  stop : change.endOffset = Utf8.len pre + Utf8.len change.text

section
variable {encoding : TextEncoding} {change : WordChangeSegment} {pre post : List Char} {state : List Char × ℕ}

/-- How far a change is rendered: the text up to a place is shown. -/
def Rendered (encoding : TextEncoding) (change : WordChangeSegment) (state : List Char × ℕ) : Prop :=
  ∃ done todo, change.text = done ++ todo ∧ state.2 = change.startOffset + Utf8.len done ∧ Shows encoding state.1 done

/-- A token that starts before the place, or where the change ends, shows the text up to its end. -/
lemma renderToken_rendered {line before rest : List Char} {token : SyntaxToken} (part : IsPart change pre post line)
    (whole : before ++ (token.text ++ rest) = line) (start : token.startOffset = Utf8.len before)
    (stop : token.endOffset = Utf8.len before + Utf8.len token.text)
    (near : Utf8.len before ≤ state.2 ∨ state.2 = change.endOffset) (rendered : Rendered encoding change state) :
    Rendered encoding change (renderToken encoding change state token) ∧
      (token.endOffset ≤ (renderToken encoding change state token).2 ∨
        (renderToken encoding change state token).2 = change.endOffset) := by
  obtain ⟨html, pos⟩ := state
  obtain ⟨done, todo, text, place, shows⟩ := rendered
  dsimp only at near place shows
  have length : Utf8.len change.text = Utf8.len done + Utf8.len todo := by rw [text, Utf8.len_append]
  rw [renderToken]
  dsimp only
  split
  case isTrue more =>
    have here : max pos token.startOffset = pos := by
      rcases near with near | atEnd
      · rw [start]
        exact max_eq_left near
      · rw [atEnd] at more
        omega
    -- the part of the token in the change ends where the token does, or where the change does
    have stops : ∃ now later, todo = now ++ later ∧
        min change.endOffset token.endOffset = change.startOffset + Utf8.len done + Utf8.len now := by
      rcases Nat.le_total change.endOffset token.endOffset with le | le
      · exact ⟨todo, [], (List.append_nil todo).symm, by rw [min_eq_left le, part.stop, part.start, length, Nat.add_assoc]⟩
      · rw [here, min_eq_right le] at more
        have same : (pre ++ done) ++ (todo ++ post) = (before ++ token.text) ++ rest := by
          rw [List.append_assoc, List.append_assoc, whole, part.whole, text, List.append_assoc]
        obtain ⟨now, behind, between⟩ := Utf8.between same (by
          rw [Utf8.len_append, Utf8.len_append, ← stop, ← part.start, ← place]
          exact more.le)
        have size : token.endOffset = change.startOffset + Utf8.len done + Utf8.len now := by
          rw [stop, ← Utf8.len_append, behind, Utf8.len_append, Utf8.len_append, part.start]
        obtain ⟨later, is, -⟩ := Utf8.between between.symm (by
          rw [part.stop, length, ← part.start] at le
          omega)
        exact ⟨now, later, is, by rw [min_eq_right le, size]⟩
    obtain ⟨now, later, split, stops⟩ := stops
    have cut : Utf8.get change.text (max pos token.startOffset - change.startOffset)
        (min change.endOffset token.endOffset - change.startOffset) = some now := by
      rw [here, place, stops, text, split, Nat.add_sub_cancel_left, Nat.add_assoc, Nat.add_sub_cancel_left]
      exact Utf8.get_middle done now later
    rw [cut]
    refine ⟨⟨done ++ now, later, by rw [text, split, List.append_assoc], ?_, ?_⟩, ?_⟩
    · rw [stops, Utf8.len_append, Nat.add_assoc]
    · exact shows.append (shows_styled (syntectStyleToCss_chars token.style) (Shows.encode now))
    · rcases Nat.le_total change.endOffset token.endOffset with le | le
      · exact .inr (min_eq_left le)
      · exact .inl (min_eq_right le).ge
  case isFalse none =>
    refine ⟨⟨done, todo, text, place, shows⟩, ?_⟩
    dsimp only
    rcases near with near | atEnd
    · rw [start, max_eq_left near, not_lt, min_le_iff] at none
      rcases none with atEnd | behind
      · refine .inr (Nat.le_antisymm ?_ atEnd)
        rw [place, part.stop, part.start, length]
        omega
      · exact .inl behind
    · exact .inr atEnd

/-- A token that is not at a place of the change is behind the place, or the change ends. -/
lemma behind_of_not_overlaps {token : SyntaxToken} (out : ¬ overlaps change token = true)
    (far : change.startOffset ≤ state.2) (le : state.2 ≤ change.endOffset)
    (near : token.startOffset ≤ state.2 ∨ state.2 = change.endOffset) :
    token.endOffset ≤ state.2 ∨ state.2 = change.endOffset := by
  rw [overlaps, Bool.and_eq_true, decide_eq_true_eq, decide_eq_true_eq, not_and_or, not_lt, not_lt] at out
  omega

lemma renderTokens_rendered {line : List Char} (before : List Char) {tokens : List SyntaxToken} (part : IsPart change pre post line)
    (whole : before ++ (tokens.map (·.text)).flatten = line) (tile : TokensTile (Utf8.len before) tokens)
    (near : Utf8.len before ≤ state.2 ∨ state.2 = change.endOffset) (rendered : Rendered encoding change state) :
    Rendered encoding change ((tokens.filter (overlaps change)).foldl (renderToken encoding change) state) := by
  induction tokens generalizing before state with
  | nil => exact rendered
  | cons token tokens ih =>
    obtain ⟨start, stop, tile⟩ := tile
    rw [List.map_cons, List.flatten_cons] at whole
    have next : Utf8.len (before ++ token.text) = token.endOffset := by rw [Utf8.len_append, stop]
    rw [← next] at tile
    have assoc : (before ++ token.text) ++ (tokens.map (·.text)).flatten = line := by rw [← whole, List.append_assoc]
    have later {state : List Char × ℕ} (near : token.endOffset ≤ state.2 ∨ state.2 = change.endOffset)
        (rendered : Rendered encoding change state) :
        Rendered encoding change ((tokens.filter (overlaps change)).foldl (renderToken encoding change) state) :=
      ih (before ++ token.text) assoc tile (next ▸ near) rendered
    rw [List.filter_cons]
    split
    case isTrue inside =>
      obtain ⟨now, behind⟩ := renderToken_rendered part whole start stop near rendered
      exact later behind now
    case isFalse outside =>
      refine later (behind_of_not_overlaps outside ?_ ?_ (by rwa [start])) rendered
      · obtain ⟨done, todo, text, place, -⟩ := rendered
        rw [place]
        exact Nat.le_add_right _ _
      · obtain ⟨done, todo, text, place, -⟩ := rendered
        rw [place, part.stop, part.start, text, Utf8.len_append]
        omega

variable (encoding) in
lemma shows_renderMultiTokenSegment {line : List Char} {tokens : List SyntaxToken} (part : IsPart change pre post line)
    (whole : (tokens.map (·.text)).flatten = line) (tile : TokensTile 0 tokens) :
    Shows encoding (renderMultiTokenSegment encoding change (tokens.filter (overlaps change))) change.text := by
  have start : Rendered encoding change ([], change.startOffset) := ⟨[], change.text, rfl, rfl, .nil⟩
  have rendered := renderTokens_rendered [] part whole tile (.inl (Nat.zero_le _)) start
  rw [renderMultiTokenSegment]
  generalize (tokens.filter (overlaps change)).foldl (renderToken encoding change) ([], change.startOffset) = state
    at rendered
  obtain ⟨done, todo, text, place, shows⟩ := rendered
  split
  case isTrue more =>
    have cut : Utf8.get change.text (state.2 - change.startOffset) (Utf8.len change.text) = some todo := by
      have middle := Utf8.get_middle done todo []
      rw [List.append_nil, ← Utf8.len_append] at middle
      rw [place, Nat.add_sub_cancel_left, text, middle]
    rw [cut, text]
    exact shows.append (.encode todo)
  case isFalse none =>
    have empty : todo = [] := by
      rw [place, part.stop, part.start, text, Utf8.len_append] at none
      exact Utf8.len_eq_zero.mp (by omega)
    rw [text, empty, List.append_nil]
    exact shows

/-- A change shows its text. -/
lemma shows_renderWordChange {line : DiffLine} (tokenized : line.Tokenized) (part : IsPart change pre post line.rawContent) :
    Shows encoding (renderWordChangeWithSyntax encoding line.syntaxTokens change) change.text := by
  have multi := shows_renderMultiTokenSegment encoding part tokenized.whole tokenized.tile
  apply shows_wrapWithChangeTags
  generalize line.syntaxTokens.filter (overlaps change) = overlapping at multi
  match overlapping with
  | [] => exact .encode change.text
  | [token] => exact shows_styled (syntectStyleToCss_chars token.style) (.encode change.text)
  | _ :: _ :: _ => exact multi

end

/-! ## A line -/

/-- Each segment of a line is at its place in it. -/
lemma isPart_of_mem {segments : List WordChangeSegment} {line : List Char} {s : WordChangeSegment} (tiles : Tiles 0 segments)
    (whole : (segments.map (·.text)).flatten = line) (mem : s ∈ segments) : ∃ pre post, IsPart s pre post line := by
  obtain ⟨before, after, rfl⟩ := List.mem_iff_append.mp mem
  rw [tiles_append, Nat.zero_add] at tiles
  refine ⟨(before.map (·.text)).flatten, (after.map (·.text)).flatten, ?_, ?_, ?_⟩
  · rw [← whole, List.map_append, List.flatten_append, List.map_cons, List.flatten_cons]
  · rw [width_eq, tiles.2.1]
  · rw [width_eq, tiles.2.2.1]

section
variable {encoding : TextEncoding}

/-- What the parts that were processed so far show. -/
structure StyleAccumulator.Accumulated (encoding : TextEncoding) (acc : StyleAccumulator) (text : List Char) : Prop where
  style : '>' ∉ acc.lastStyle
  parts : ∃ flushed pending, text = flushed ++ pending ∧ Shows encoding acc.html flushed ∧
    acc.accumulatedText = encoding.encode pending

lemma StyleAccumulator.Accumulated.flush {acc : StyleAccumulator} {text : List Char} (accumulated : acc.Accumulated encoding text) :
    Shows encoding acc.flush.html text := by
  obtain ⟨style, flushed, pending, rfl, shows, encoded⟩ := accumulated
  rw [StyleAccumulator.flush]
  split
  case isTrue none =>
    have empty : pending = [] := Html.encode_eq_nil (encoded.symm.trans none)
    rw [empty, List.append_nil]
    exact shows
  case isFalse =>
    refine shows.append ?_
    rw [encoded]
    exact shows_styled style (.encode pending)

lemma StyleAccumulator.Accumulated.process {acc : StyleAccumulator} {text : List Char} (accumulated : acc.Accumulated encoding text)
    (style : SyntectStyle) (more : List Char) :
    (StyleAccumulator.processStyleText encoding acc style more).Accumulated encoding (text ++ more) := by
  rw [StyleAccumulator.processStyleText]
  dsimp only
  split
  case isTrue same =>
    obtain ⟨closed, flushed, pending, rfl, shows, encoded⟩ := accumulated
    refine ⟨closed, flushed, pending ++ more, List.append_assoc _ _ _, shows, ?_⟩
    rw [encoding.encode_append, ← encoded]
  case isFalse =>
    exact ⟨syntectStyleToCss_chars style, text, more, rfl, accumulated.flush, rfl⟩

variable (encoding) in
lemma shows_processStyleTextPairs (pairs : List (SyntectStyle × List Char)) :
    Shows encoding (processStyleTextPairs encoding pairs) (pairs.map Prod.snd).flatten := by
  have fold (pairs : List (SyntectStyle × List Char)) (acc : StyleAccumulator) (text : List Char)
      (accumulated : acc.Accumulated encoding text) :
      (pairs.foldl (fun acc pair => StyleAccumulator.processStyleText encoding acc pair.1 pair.2) acc).Accumulated encoding
        (text ++ (pairs.map Prod.snd).flatten) := by
    induction pairs generalizing acc text with
    | nil => rwa [List.map_nil, List.flatten_nil, List.append_nil]
    | cons pair pairs ih =>
      have later := ih _ _ (accumulated.process pair.1 pair.2)
      rwa [List.append_assoc] at later
  have start : (⟨[], [], []⟩ : StyleAccumulator).Accumulated encoding [] :=
    ⟨List.not_mem_nil, [], [], rfl, .nil, Html.encode_nil.symm⟩
  exact (fold pairs _ _ start).flush

/-- The HTML of a line shows the line. -/
theorem htmlContent_shows {line : DiffLine} (tokenized : line.Tokenized)
    (changes : ∀ segments ∈ line.wordChanges, Tiles 0 segments ∧ (segments.map (·.text)).flatten = line.rawContent) :
    Shows encoding (line.htmlContent encoding) line.rawContent := by
  rw [DiffLine.htmlContent]
  split
  case h_1 segments is =>
    obtain ⟨tiles, whole⟩ := changes segments is
    rw [← whole]
    apply Shows.flatten
    intro s mem
    obtain ⟨pre, post, part⟩ := isPart_of_mem tiles whole mem
    exact shows_renderWordChange tokenized part
  case h_2 =>
    apply shows_applyDiffStyling
    have pairs := shows_processStyleTextPairs encoding (line.syntaxTokens.map fun token => (token.style, token.text))
    rw [List.map_map] at pairs
    rw [← tokenized.whole]
    exact pairs

end

end ArchipelagoXL.Apdiff
