import ArchipelagoXL.Apdiff.DiffLines
import ArchipelagoXL.Lib.Trimming
import ArchipelagoXL.Lobby.Yaml
import Mathlib.Data.List.ReduceOption

/-!
# The words of a changed line

A deleted and an added line that belong together are compared word by word
(`apdiff-viewer/src/diff/word_diff.rs`). The changes become segments of each line, and segments of changed words with
only whitespace between them are to become one.

The segments make up their line (`highlightWordDiff_tiles`). But the search for the end of a merged segment goes on
behind the words that should stop it, so all from the first changed word of a line to its last one is marked: only
changed words are marked where nothing else stands between these two (`onlyChangedWords_iff`).

The edit script between the words comes from another crate and is a parameter.
-/

namespace ArchipelagoXL.Apdiff

open EditScript (Change ChangeTag oldSide newSide)
open Lobby (isWhitespace)

/-! ## Words -/

/-- Rust `str::char_indices`, for a text that starts at an offset. -/
def charIndices : ℕ → List Char → List (ℕ × Char)
  | _, [] => []
  | offset, c :: rest => (offset, c) :: charIndices (offset + c.utf8Size) rest

/-- Where words and whitespace meet. -/
def innerBoundaries (indices : List (ℕ × Char)) : List ℕ :=
  (indices.zip (indices.drop 1)).filterMap fun pair =>
    if isWhitespace pair.1.2 ≠ isWhitespace pair.2.2 then some pair.2.1 else none

/-- The `boundaries` of `split_into_words`. -/
def boundaries (text : List Char) : List ℕ := 0 :: (innerBoundaries (charIndices 0 text) ++ [Utf8.len text])

/-- Rust `split_into_words`; a slice that is not a part of the text would be a panic, and there is none
(`splitIntoWords_eq`). -/
def splitIntoWords (text : List Char) : List (List Char) :=
  if text = [] then []
  else ((boundaries text).zip (boundaries text).tail).map fun window => (Utf8.get text window.1 window.2).getD []

/-- The longest stretches of whitespace and of other characters. -/
def words : List Char → List (List Char)
  | [] => []
  | c :: rest =>
    match words rest with
    | [] => [[c]]
    | word :: later =>
      if word.head?.any fun d => isWhitespace d == isWhitespace c then (c :: word) :: later else [c] :: word :: later

lemma flatten_words (text : List Char) : (words text).flatten = text := by
  induction text with
  | nil => rfl
  | cons c rest ih =>
    rw [words]
    split
    case h_1 none =>
      rw [none, List.flatten_nil] at ih
      rw [← ih]
      rfl
    case h_2 word later split =>
      rw [split, List.flatten_cons] at ih
      split
      · rw [List.flatten_cons, List.cons_append, ih]
      · rw [List.flatten_cons, List.flatten_cons, ih]
        rfl

lemma words_nonempty {text word : List Char} (mem : word ∈ words text) : word ≠ [] := by
  induction text generalizing word with
  | nil => cases mem
  | cons c rest ih =>
    rw [words] at mem
    split at mem
    case h_1 =>
      rw [List.mem_singleton.mp mem]
      exact List.cons_ne_nil c []
    case h_2 first later split =>
      rw [split] at ih
      split at mem
      · rcases List.mem_cons.mp mem with rfl | mem
        · exact List.cons_ne_nil c first
        · exact ih (List.mem_cons_of_mem first mem)
      · rcases List.mem_cons.mp mem with rfl | mem
        · exact List.cons_ne_nil c []
        · exact ih mem

/-- Where some words in a row start. -/
def starts : ℕ → List (List Char) → List ℕ
  | _, [] => []
  | offset, word :: later => offset :: starts (offset + Utf8.len word) later

/-- The words start where the boundaries are. -/
lemma starts_words (offset : ℕ) (c : Char) (rest : List Char) :
    starts offset (words (c :: rest)) = offset :: innerBoundaries (charIndices offset (c :: rest)) := by
  induction rest generalizing offset c with
  | nil => rfl
  | cons d rest ih =>
    have later := ih (offset + c.utf8Size) d
    have boundary : innerBoundaries (charIndices offset (c :: d :: rest)) =
        if isWhitespace c ≠ isWhitespace d then
          (offset + c.utf8Size) :: innerBoundaries (charIndices (offset + c.utf8Size) (d :: rest))
        else innerBoundaries (charIndices (offset + c.utf8Size) (d :: rest)) := by
      rw [innerBoundaries, innerBoundaries, charIndices, charIndices, List.drop_one, List.tail_cons, List.zip_cons_cons,
        List.filterMap_cons, List.drop_one, List.tail_cons]
      split_ifs <;> rfl
    rw [words, boundary]
    cases split : words (d :: rest) with
    | nil =>
      have whole := flatten_words (d :: rest)
      rw [split] at whole
      cases whole
    | cons word more =>
      rw [split] at later
      have first : word.head? = some d := by
        have whole := flatten_words (d :: rest)
        have some : word ≠ [] := words_nonempty (split ▸ List.mem_cons_self)
        rw [split, List.flatten_cons] at whole
        rw [← List.head?_append_of_ne_nil _ some, whole, List.head?_cons]
      obtain ⟨_, later⟩ := List.cons.inj later
      simp only [first, Option.any_some, beq_iff_eq]
      by_cases same : isWhitespace d = isWhitespace c
      · rw [if_pos same, if_neg (not_not.mpr same.symm), ← later, starts, Utf8.len_cons, Nat.add_assoc]
      · rw [if_neg same, if_pos (Ne.symm same), ← later]
        simp [starts, Utf8.len_cons]

/-- What is between neighbouring starts is a word. -/
lemma slices_starts (before : List Char) (split : List (List Char)) (after : List Char) :
    ((starts (Utf8.len before) split ++ [Utf8.len before + Utf8.len split.flatten]).zip
        (starts (Utf8.len before) split ++ [Utf8.len before + Utf8.len split.flatten]).tail).map
      (fun window => (Utf8.get (before ++ (split.flatten ++ after)) window.1 window.2).getD []) = split := by
  induction split generalizing before with
  | nil => rfl
  | cons word later ih =>
    have rest := ih (before ++ word)
    have assoc : before ++ word ++ (later.flatten ++ after) = before ++ ((word :: later).flatten ++ after) := by
      simp
    rw [assoc, Utf8.len_append] at rest
    have stop : Utf8.len before + Utf8.len (word :: later).flatten =
        Utf8.len before + Utf8.len word + Utf8.len later.flatten := by
      rw [List.flatten_cons, Utf8.len_append, Nat.add_assoc]
    rw [starts, stop, List.cons_append, List.tail_cons]
    have next : ∃ l, starts (Utf8.len before + Utf8.len word) later ++
        [Utf8.len before + Utf8.len word + Utf8.len later.flatten] = (Utf8.len before + Utf8.len word) :: l := by
      cases later with
      | nil => exact ⟨[], by rw [List.flatten_nil, Utf8.len_nil]; rfl⟩
      | cons word' later => exact ⟨_, rfl⟩
    obtain ⟨l, next⟩ := next
    rw [next] at rest ⊢
    rw [List.zip_cons_cons, List.map_cons]
    congr 1
    rw [List.flatten_cons, List.append_assoc, Utf8.get_middle, Option.getD_some]

lemma splitIntoWords_eq (text : List Char) : splitIntoWords text = words text := by
  cases text with
  | nil => rfl
  | cons c rest =>
    have slices := slices_starts [] (words (c :: rest)) []
    rw [Utf8.len_nil, Nat.zero_add, List.append_nil, List.nil_append, flatten_words, starts_words] at slices
    rw [splitIntoWords, if_neg (List.cons_ne_nil c rest)]
    exact slices

/-! ## Segments -/

/-- Rust `StructuredWordDiffResult`. -/
structure StructuredWordDiffResult where
  oldChanges : List WordChangeSegment
  newChanges : List WordChangeSegment
deriving DecidableEq

/-- Rust `create_segment`. -/
def createSegment (content : List Char) (changeType : WordChangeType) (startOffset : ℕ) : WordChangeSegment where
  text := content
  changeType := changeType
  startOffset := startOffset
  endOffset := startOffset + Utf8.len content

/-- The segments of the words before they are consolidated, on the old and the new side (the `scan` and the `fold` of
`create_word_diff_segments`). -/
def wordSegments : ℕ → ℕ → List (Change (List Char)) → List WordChangeSegment × List WordChangeSegment
  | _, _, [] => ([], [])
  | oldOffset, newOffset, change :: rest =>
    let content := change.value
    match change.tag with
    | .equal =>
      let later := wordSegments (oldOffset + Utf8.len content) (newOffset + Utf8.len content) rest
      (createSegment content .equal oldOffset :: later.1, createSegment content .equal newOffset :: later.2)
    | .delete =>
      let later := wordSegments (oldOffset + Utf8.len content) newOffset rest
      (createSegment content .delete oldOffset :: later.1, later.2)
    | .insert =>
      let later := wordSegments oldOffset (newOffset + Utf8.len content) rest
      (later.1, createSegment content .insert newOffset :: later.2)

/-- Rust `is_whitespace_only`. -/
def isWhitespaceOnly (text : List Char) : Bool := !text.isEmpty && text.all isWhitespace

/-- The `scan` of `find_consolidation_end` over the segments from `startIdx` on. -/
def scanEnds (changes : List WordChangeSegment) (targetType : WordChangeType) (startIdx : ℕ) :
    Bool → ℕ → List WordChangeSegment → List (Option ℕ)
  | _, _, [] => []
  | canContinue, offset, segment :: rest =>
    if segment.changeType = targetType then
      some (startIdx + offset + 1) :: scanEnds changes targetType startIdx canContinue (offset + 1) rest
    else if segment.changeType = .equal ∧ isWhitespaceOnly segment.text = true ∧ canContinue = true then
      let nextIdx := startIdx + offset + 1
      if changes[nextIdx]?.any (·.changeType = targetType) then
        some nextIdx :: scanEnds changes targetType startIdx canContinue (offset + 1) rest
      -- the scan goes on, and a later segment of the type gives an end again
      else none :: scanEnds changes targetType startIdx false (offset + 1) rest
    else none :: scanEnds changes targetType startIdx false (offset + 1) rest

/-- Rust `find_consolidation_end`, for a place in the list. -/
def findConsolidationEnd (changes : List WordChangeSegment) (startIdx : ℕ) : ℕ :=
  match changes.drop startIdx with
  | [] => startIdx + 1
  | first :: rest =>
    (scanEnds changes first.changeType startIdx true 0 (first :: rest)).reduceOption.getLast?.getD (startIdx + 1)

/-- Some segments as one. -/
def mergeSegments (segment : WordChangeSegment) (segmentsToMerge : List WordChangeSegment) : WordChangeSegment where
  text := (segmentsToMerge.map (·.text)).flatten
  changeType := segment.changeType
  startOffset := segment.startOffset
  endOffset := segment.startOffset + (segmentsToMerge.map fun s => Utf8.len s.text).sum

/-- The `scan` of `consolidate_consecutive_changes`. -/
def consolidateFrom (changes : List WordChangeSegment) : Option ℕ → ℕ → List WordChangeSegment → List WordChangeSegment
  | _, _, [] => []
  | skipUntil, i, segment :: rest =>
    if skipUntil.any (i < ·) then consolidateFrom changes skipUntil (i + 1) rest
    else if segment.changeType = .delete ∨ segment.changeType = .insert then
      let consolidationEnd := findConsolidationEnd changes i
      mergeSegments segment ((changes.take consolidationEnd).drop i) ::
        consolidateFrom changes (some consolidationEnd) (i + 1) rest
    else segment :: consolidateFrom changes skipUntil (i + 1) rest

/-- Rust `consolidate_consecutive_changes`. -/
def consolidateConsecutiveChanges (changes : List WordChangeSegment) : List WordChangeSegment :=
  consolidateFrom changes none 0 changes

section
variable (differ : EditScript.Differ (List Char))

/-- The segments of the words of two lines. -/
def underlyingSegments (oldLine newLine : List Char) : List WordChangeSegment × List WordChangeSegment :=
  wordSegments 0 0 (differ.changes (splitIntoWords oldLine) (splitIntoWords newLine))

/-- Rust `highlight_word_diff_structured`. -/
def highlightWordDiffStructured (oldLine newLine : List Char) (maxLineLength : ℕ) : StructuredWordDiffResult :=
  if Utf8.len oldLine > maxLineLength ∨ Utf8.len newLine > maxLineLength then
    { oldChanges := [createSegment oldLine .equal 0], newChanges := [createSegment newLine .equal 0] }
  else
    let changes := underlyingSegments differ oldLine newLine
    { oldChanges := consolidateConsecutiveChanges changes.1, newChanges := consolidateConsecutiveChanges changes.2 }

end

/-! ## What the consolidation does -/

/-- Segments of which each starts where the one before ends, and is as long as its text. -/
def Tiles : ℕ → List WordChangeSegment → Prop
  | _, [] => True
  | start, s :: rest => s.startOffset = start ∧ s.endOffset = start + Utf8.len s.text ∧ Tiles s.endOffset rest

/-- The segments of one side of a diff. -/
structure IsSide (changed : WordChangeType) (words : List (List Char)) (segments : List WordChangeSegment) : Prop where
  texts : segments.map (·.text) = words
  types : ∀ s ∈ segments, s.changeType = .equal ∨ s.changeType = changed

lemma isSide_wordSegments (oldOffset newOffset : ℕ) (changes : List (Change (List Char))) :
    IsSide .delete (oldSide changes) (wordSegments oldOffset newOffset changes).1 ∧
      IsSide .insert (newSide changes) (wordSegments oldOffset newOffset changes).2 := by
  have cons {changed t : WordChangeType} {words : List (List Char)} {segments : List WordChangeSegment}
      (side : IsSide changed words segments) (content : List Char) (offset : ℕ) (type : t = .equal ∨ t = changed) :
      IsSide changed (content :: words) (createSegment content t offset :: segments) := by
    refine ⟨congrArg (content :: ·) side.texts, ?_⟩
    intro s mem
    rcases List.mem_cons.mp mem with rfl | mem
    · exact type
    · exact side.types s mem
  induction changes generalizing oldOffset newOffset with
  | nil => exact ⟨⟨rfl, fun _ mem => absurd mem List.not_mem_nil⟩, ⟨rfl, fun _ mem => absurd mem List.not_mem_nil⟩⟩
  | cons change rest ih =>
    obtain ⟨tag, content⟩ := change
    cases tag with
    | equal =>
      obtain ⟨old, new⟩ := ih (oldOffset + Utf8.len content) (newOffset + Utf8.len content)
      exact ⟨cons old content oldOffset (.inl rfl), cons new content newOffset (.inl rfl)⟩
    | delete =>
      obtain ⟨old, new⟩ := ih (oldOffset + Utf8.len content) newOffset
      exact ⟨cons old content oldOffset (.inr rfl), new⟩
    | insert =>
      obtain ⟨old, new⟩ := ih oldOffset (newOffset + Utf8.len content)
      exact ⟨old, cons new content newOffset (.inr rfl)⟩

lemma tiles_wordSegments (oldOffset newOffset : ℕ) (changes : List (Change (List Char))) :
    Tiles oldOffset (wordSegments oldOffset newOffset changes).1 ∧
      Tiles newOffset (wordSegments oldOffset newOffset changes).2 := by
  induction changes generalizing oldOffset newOffset with
  | nil => exact ⟨trivial, trivial⟩
  | cons change rest ih =>
    obtain ⟨tag, content⟩ := change
    cases tag with
    | equal =>
      obtain ⟨old, new⟩ := ih (oldOffset + Utf8.len content) (newOffset + Utf8.len content)
      exact ⟨⟨rfl, rfl, old⟩, ⟨rfl, rfl, new⟩⟩
    | delete =>
      obtain ⟨old, new⟩ := ih (oldOffset + Utf8.len content) newOffset
      exact ⟨⟨rfl, rfl, old⟩, new⟩
    | insert =>
      obtain ⟨old, new⟩ := ih oldOffset (newOffset + Utf8.len content)
      exact ⟨old, ⟨rfl, rfl, new⟩⟩

section
variable {changes before middle after : List WordChangeSegment} {changed : WordChangeType}

/-- Behind the last segment of the type the scan gives no end. -/
lemma scanEnds_none {startIdx offset : ℕ} {rest : List WordChangeSegment} (canContinue : Bool)
    (place : changes.drop (startIdx + offset) = rest) (none : ∀ s ∈ rest, s.changeType ≠ changed) :
    (scanEnds changes changed startIdx canContinue offset rest).reduceOption = [] := by
  induction rest generalizing offset canContinue with
  | nil => rfl
  | cons s rest ih =>
    have next : changes.drop (startIdx + (offset + 1)) = rest := by
      rw [← Nat.add_assoc, ← List.drop_drop, place, List.drop_one, List.tail_cons]
    have later (canContinue : Bool) := ih canContinue next fun t mem => none t (List.mem_cons_of_mem s mem)
    have noNext : ¬ (changes[startIdx + offset + 1]?.any fun s => decide (s.changeType = changed)) = true := by
      rw [Nat.add_assoc, ← List.head?_drop, next]
      cases rest with
      | nil => exact Bool.false_ne_true
      | cons t rest =>
        have other := none t (List.mem_cons_of_mem s List.mem_cons_self)
        simpa using other
    rw [scanEnds, if_neg (none s List.mem_cons_self)]
    split
    · simp only [if_neg noNext, List.reduceOption_cons_of_none, later]
    · simp only [List.reduceOption_cons_of_none, later]

/-- The last end that the scan gives is behind the last segment of the type, whatever stands before it. -/
lemma scanEnds_last {startIdx offset : ℕ} {s : WordChangeSegment} (canContinue : Bool)
    (place : changes.drop (startIdx + offset) = before ++ s :: after) (target : s.changeType = changed)
    (none : ∀ t ∈ after, t.changeType ≠ changed) :
    (scanEnds changes changed startIdx canContinue offset (before ++ s :: after)).reduceOption.getLast? =
      some (startIdx + offset + before.length + 1) := by
  induction before generalizing offset canContinue with
  | nil =>
    have next : changes.drop (startIdx + (offset + 1)) = after := by
      rw [← Nat.add_assoc, ← List.drop_drop, place, List.nil_append, List.drop_one, List.tail_cons]
    rw [List.nil_append, scanEnds, if_pos target, List.reduceOption_cons_of_some, scanEnds_none canContinue next none]
    rfl
  | cons t before ih =>
    have next : changes.drop (startIdx + (offset + 1)) = before ++ s :: after := by
      rw [← Nat.add_assoc, ← List.drop_drop, place, List.cons_append, List.drop_one, List.tail_cons]
    have later (canContinue : Bool) (x : Option ℕ) :
        (x :: scanEnds changes changed startIdx canContinue (offset + 1) (before ++ s :: after)).reduceOption.getLast? =
          some (startIdx + offset + (t :: before).length + 1) := by
      have last := ih canContinue next
      have count : startIdx + (offset + 1) + before.length + 1 = startIdx + offset + (t :: before).length + 1 := by
        rw [List.length_cons]
        omega
      rw [count] at last
      cases x with
      | none => rw [List.reduceOption_cons_of_none, last]
      | some x => rw [List.reduceOption_cons_of_some, List.getLast?_cons, last, Option.getD_some]
    rw [List.cons_append, scanEnds]
    split
    · exact later _ _
    · split
      · dsimp only
        split
        · exact later _ _
        · exact later _ _
      · exact later _ _

end

/-- The segments of a side, cut at its first and its last changed word. -/
structure IsCut (changed : WordChangeType) (before : List WordChangeSegment) (first : WordChangeSegment)
    (middle after : List WordChangeSegment) : Prop where
  equalBefore : ∀ s ∈ before, s.changeType = .equal
  start : first.changeType = changed
  stop : ∀ s ∈ (first :: middle).getLast?, s.changeType = changed
  equalAfter : ∀ s ∈ after, s.changeType = .equal

/-- A side has no changed word, or it is cut at its first and its last one. -/
lemma IsSide.cut {changed : WordChangeType} {words : List (List Char)} {segments : List WordChangeSegment}
    (side : IsSide changed words segments) :
    (∀ s ∈ segments, s.changeType = .equal) ∨ ∃ before first middle after,
      segments = before ++ (first :: middle ++ after) ∧ IsCut changed before first middle after := by
  obtain ⟨before, after, allBefore, allAfter, bare, whole⟩ :=
    Trimming.exists_pad (fun s : WordChangeSegment => decide (s.changeType = .equal)) segments
  have equal {s : WordChangeSegment} (is : decide (s.changeType = .equal) = true) : s.changeType = .equal :=
    of_decide_eq_true is
  have isChanged {s : WordChangeSegment} (mem : s ∈ segments) (other : decide (s.changeType = .equal) = false) :
      s.changeType = changed := (side.types s mem).resolve_left (of_decide_eq_false other)
  generalize Trimming.trimmed _ segments = trimmed at bare whole
  cases trimmed with
  | nil =>
    refine .inl fun s mem => ?_
    rw [whole, List.append_nil] at mem
    rcases List.mem_append.mp mem with mem | mem
    · exact equal (allBefore s mem)
    · exact equal (allAfter s mem)
  | cons first middle =>
    have inside : ∀ s ∈ first :: middle, s ∈ segments := by
      intro s mem
      rw [whole]
      exact List.mem_append_left after (List.mem_append_right before mem)
    refine .inr ⟨before, first, middle, after, by rw [whole, List.append_assoc], ?_, ?_, ?_, ?_⟩
    · exact fun s mem => equal (allBefore s mem)
    · exact isChanged (inside first List.mem_cons_self) (bare.first first rfl)
    · exact fun s last => isChanged (inside s (List.mem_of_getLast? last)) (bare.last s last)
    · exact fun s mem => equal (allAfter s mem)

section
variable {changes before middle after : List WordChangeSegment} {changed : WordChangeType} {first : WordChangeSegment}

/-- The end that is found for the first changed word is behind the last one. -/
lemma IsCut.findConsolidationEnd_eq (cut : IsCut changed before first middle after) (isChange : changed ≠ .equal) :
    findConsolidationEnd (before ++ (first :: middle ++ after)) before.length =
      before.length + (first :: middle).length := by
  have split : (first :: middle).dropLast ++ [(first :: middle).getLast (List.cons_ne_nil _ _)] = first :: middle :=
    List.dropLast_append_getLast (List.cons_ne_nil first middle)
  have last := cut.stop _ (List.getLast?_eq_some_getLast (List.cons_ne_nil first middle))
  generalize (first :: middle).getLast (List.cons_ne_nil first middle) = s at split last
  have whole : first :: (middle ++ after) = (first :: middle).dropLast ++ s :: after := by
    rw [← List.cons_append, ← split, List.append_assoc, List.singleton_append, split]
  have place : (before ++ (first :: middle ++ after)).drop (before.length + 0) =
      (first :: middle).dropLast ++ s :: after := by
    rw [Nat.add_zero, List.drop_left, List.cons_append, whole]
  have noneAfter : ∀ t ∈ after, t.changeType ≠ changed := by
    intro t mem
    rw [cut.equalAfter t mem]
    exact isChange.symm
  have found := scanEnds_last true place last noneAfter
  have count : before.length + 0 + (first :: middle).dropLast.length + 1 = before.length + (first :: middle).length := by
    rw [List.length_dropLast, List.length_cons]
    omega
  rw [count, List.cons_append, whole] at found
  rw [findConsolidationEnd, List.drop_left, List.cons_append]
  dsimp only
  rw [cut.start, whole, found, Option.getD_some]

lemma consolidateFrom_equal {i : ℕ} {skipUntil : Option ℕ} {rest : List WordChangeSegment}
    (behind : ∀ e ∈ skipUntil, e ≤ i) (equal : ∀ s ∈ rest, s.changeType = .equal) :
    consolidateFrom changes skipUntil i rest = rest := by
  induction rest generalizing i with
  | nil => rfl
  | cons s rest ih =>
    have noSkip : ¬ skipUntil.any (i < ·) = true := by
      cases skipUntil with
      | none => exact Bool.false_ne_true
      | some e => simpa using behind e rfl
    have noChange : ¬ (s.changeType = .delete ∨ s.changeType = .insert) := by
      rw [equal s List.mem_cons_self]
      decide
    rw [consolidateFrom, if_neg noSkip, if_neg noChange,
      ih (fun e mem => Nat.le_succ_of_le (behind e mem)) fun t mem => equal t (List.mem_cons_of_mem s mem)]

lemma consolidateFrom_before {i : ℕ} {rest : List WordChangeSegment} (equal : ∀ s ∈ before, s.changeType = .equal) :
    consolidateFrom changes none i (before ++ rest) = before ++ consolidateFrom changes none (i + before.length) rest := by
  induction before generalizing i with
  | nil => rfl
  | cons s before ih =>
    have noChange : ¬ (s.changeType = .delete ∨ s.changeType = .insert) := by
      rw [equal s List.mem_cons_self]
      decide
    have noSkip : ¬ (none : Option ℕ).any (i < ·) = true := Bool.false_ne_true
    rw [List.cons_append, consolidateFrom, if_neg noSkip, if_neg noChange,
      ih fun t mem => equal t (List.mem_cons_of_mem s mem), List.length_cons, List.cons_append, Nat.add_assoc,
      Nat.add_comm 1]

lemma consolidateFrom_skip {i e : ℕ} {skipped rest : List WordChangeSegment} (stop : e = i + skipped.length) :
    consolidateFrom changes (some e) i (skipped ++ rest) = consolidateFrom changes (some e) e rest := by
  induction skipped generalizing i with
  | nil => rw [List.nil_append, stop, List.length_nil, Nat.add_zero]
  | cons s skipped ih =>
    rw [List.length_cons] at stop
    have skip : (some e).any (i < ·) = true := by
      rw [Option.any_some, decide_eq_true_eq]
      omega
    rw [List.cons_append, consolidateFrom, if_pos skip, ih (by omega)]

/-- All from the first to the last changed word becomes one segment. -/
lemma IsCut.consolidate_eq (cut : IsCut changed before first middle after) (isChange : changed ≠ .equal) :
    consolidateConsecutiveChanges (before ++ (first :: middle ++ after)) =
      before ++ mergeSegments first (first :: middle) :: after := by
  have noSkip : ¬ (none : Option ℕ).any (before.length < ·) = true := Bool.false_ne_true
  have isChanged : first.changeType = .delete ∨ first.changeType = .insert := by
    rw [cut.start]
    revert isChange
    cases changed <;> decide
  have merged : ((before ++ (first :: middle ++ after)).take (before.length + (first :: middle).length)).drop
      before.length = first :: middle := by
    rw [List.take_add, List.take_left, List.drop_left, List.drop_left, List.take_left]
  rw [consolidateConsecutiveChanges, consolidateFrom_before cut.equalBefore, Nat.zero_add, List.cons_append, consolidateFrom,
    if_neg noSkip, if_pos isChanged, ← List.cons_append, cut.findConsolidationEnd_eq isChange]
  dsimp only
  rw [merged, consolidateFrom_skip (by rw [List.length_cons]; omega), consolidateFrom_equal _ cut.equalAfter]
  intro e mem
  rw [Option.mem_some] at mem
  exact mem.ge

lemma consolidate_equal (equal : ∀ s ∈ changes, s.changeType = .equal) :
    consolidateConsecutiveChanges changes = changes :=
  consolidateFrom_equal (fun _ mem => absurd mem (Option.not_mem_none _)) equal

end

/-! ## Where segments are -/

/-- How long some segments are together. -/
def width (segments : List WordChangeSegment) : ℕ := (segments.map fun s => Utf8.len s.text).sum

lemma width_append (a b : List WordChangeSegment) : width (a ++ b) = width a + width b := by
  rw [width, List.map_append, List.sum_append, width, width]

lemma width_eq (segments : List WordChangeSegment) : Utf8.len (segments.map (·.text)).flatten = width segments := by
  rw [Utf8.len_flatten, List.map_map, width]
  rfl

lemma tiles_append {start : ℕ} {a b : List WordChangeSegment} :
    Tiles start (a ++ b) ↔ Tiles start a ∧ Tiles (start + width a) b := by
  induction a generalizing start with
  | nil => simp [Tiles, width]
  | cons s a ih =>
    have step : start + width (s :: a) = start + Utf8.len s.text + width a := by
      rw [width, List.map_cons, List.sum_cons, Nat.add_assoc, width]
    rw [step, List.cons_append, Tiles, Tiles, ih, and_assoc, and_assoc]
    constructor
    · rintro ⟨first, last, rest⟩
      rw [last] at rest ⊢
      exact ⟨first, rfl, rest⟩
    · rintro ⟨first, last, rest⟩
      rw [last] at rest ⊢
      exact ⟨first, rfl, rest⟩

section
variable {segments : List WordChangeSegment} {k j : ℕ} {w : WordChangeSegment}

variable (segments) in
lemma width_take_le (le : k ≤ j) : width (segments.take k) ≤ width (segments.take j) := by
  obtain ⟨d, rfl⟩ := Nat.exists_eq_add_of_le le
  rw [List.take_add, width_append]
  exact Nat.le_add_right _ _

lemma width_take_succ (place : segments[k]? = some w) :
    width (segments.take (k + 1)) = width (segments.take k) + Utf8.len w.text := by
  rw [List.take_add_one, place, Option.toList_some, width_append]
  rfl

/-- A segment is where those before it end. -/
lemma Tiles.place {start : ℕ} (tiles : Tiles start segments) (place : segments[k]? = some w) :
    w.startOffset = start + width (segments.take k) ∧ w.endOffset = start + width (segments.take (k + 1)) := by
  obtain ⟨inside, here⟩ := List.getElem?_eq_some_iff.mp place
  have split : segments.take k ++ w :: segments.drop (k + 1) = segments := by
    rw [← here, List.getElem_cons_drop, List.take_append_drop]
  rw [← split, tiles_append] at tiles
  obtain ⟨_, first, last, _⟩ := tiles
  exact ⟨first, by rw [last, width_take_succ place, Nat.add_assoc]⟩

end

section
variable {before middle after : List WordChangeSegment} {first : WordChangeSegment}

lemma text_mergeSegments (first : WordChangeSegment) (segments : List WordChangeSegment) :
    Utf8.len (mergeSegments first segments).text = width segments := width_eq segments

/-- One segment takes the place of those that it is made of. -/
lemma tiles_merge {start : ℕ} (tiles : Tiles start (before ++ (first :: middle ++ after))) :
    Tiles start (before ++ mergeSegments first (first :: middle) :: after) := by
  rw [tiles_append, tiles_append] at tiles
  obtain ⟨tilesBefore, tilesMiddle, tilesAfter⟩ := tiles
  have stop : (mergeSegments first (first :: middle)).endOffset = start + width before + width (first :: middle) :=
    congrArg (· + width (first :: middle)) tilesMiddle.1
  refine tiles_append.mpr ⟨tilesBefore, tilesMiddle.1, ?_, ?_⟩
  · rw [text_mergeSegments, stop]
  · rw [stop]
    exact tilesAfter

/-- Consolidating keeps the text and the places. -/
lemma consolidate_tiles {changed : WordChangeType} {words : List (List Char)} {segments : List WordChangeSegment}
    (side : IsSide changed words segments) (isChange : changed ≠ .equal) (tiles : Tiles 0 segments) :
    Tiles 0 (consolidateConsecutiveChanges segments) ∧
      ((consolidateConsecutiveChanges segments).map (·.text)).flatten = words.flatten := by
  rcases side.cut with equal | ⟨before, first, middle, after, rfl, cut⟩
  · rw [consolidate_equal equal, side.texts]
    exact ⟨tiles, rfl⟩
  · rw [cut.consolidate_eq isChange, ← side.texts]
    refine ⟨tiles_merge tiles, ?_⟩
    simp [mergeSegments]

end

/-! ## Only changed words -/

/-- A segment is over a word. -/
def Covers (s w : WordChangeSegment) : Prop := s.startOffset ≤ w.startOffset ∧ w.endOffset ≤ s.endOffset

/-- The segment at a place is of a type. -/
def TypeAt (segments : List WordChangeSegment) (k : ℕ) (changeType : WordChangeType) : Prop :=
  ∃ w, segments[k]? = some w ∧ w.changeType = changeType

/-- The word at a place is whitespace that stays, directly between two changed words. -/
def IsBridge (changed : WordChangeType) (words : List WordChangeSegment) (k : ℕ) : Prop :=
  0 < k ∧ (∃ w, words[k]? = some w ∧ w.changeType = .equal ∧ isWhitespaceOnly w.text = true) ∧
    TypeAt words (k - 1) changed ∧ TypeAt words (k + 1) changed

/-- Of the words only those that changed are marked, and the whitespace between two of them. -/
structure OnlyChanged (changed : WordChangeType) (words result : List WordChangeSegment) : Prop where
  marked : ∀ s ∈ result, s.changeType ≠ .equal → s.changeType = changed ∧
    ∀ k w, words[k]? = some w → Covers s w → w.changeType = changed ∨ IsBridge changed words k
  kept : ∀ k w, words[k]? = some w → w.changeType = .equal → ¬ IsBridge changed words k →
    ∃ s ∈ result, s.changeType = .equal ∧ Covers s w

/-- What stays between the first and the last changed word is whitespace between two changed words. -/
def ChangedTogether (changed : WordChangeType) (words : List WordChangeSegment) : Prop :=
  ∀ i k j, i < k → k < j → TypeAt words i changed → TypeAt words j changed → TypeAt words k .equal →
    IsBridge changed words k

section
variable {segments before middle after : List WordChangeSegment} {changed : WordChangeType}
  {first w : WordChangeSegment} {k : ℕ}

/-- The merged segment is over the words that it is made of. -/
lemma covers_merge (tiles : Tiles 0 (before ++ (first :: middle ++ after)))
    (place : (before ++ (first :: middle ++ after))[k]? = some w) (some : w.text ≠ []) :
    Covers (mergeSegments first (first :: middle)) w ↔
      before.length ≤ k ∧ k < before.length + (first :: middle).length := by
  have takeBefore : (before ++ (first :: middle ++ after)).take before.length = before := List.take_left
  have takeMiddle : (before ++ (first :: middle ++ after)).take (before.length + (first :: middle).length) =
      before ++ first :: middle := by
    rw [List.take_add, takeBefore, List.drop_left, List.take_left]
  have start : first.startOffset = width before := by
    rw [tiles_append, Nat.zero_add] at tiles
    exact tiles.2.1
  obtain ⟨here, last⟩ := tiles.place place
  rw [Nat.zero_add] at here last
  have step := width_take_succ place
  have long : 0 < Utf8.len w.text := Utf8.len_pos some
  rw [Covers, here, last]
  change first.startOffset ≤ _ ∧ _ ≤ first.startOffset + width (first :: middle) ↔ _
  rw [start, ← width_append, ← takeMiddle]
  constructor
  · rintro ⟨behind, inside⟩
    constructor
    · by_contra early
      have le := width_take_le (before ++ (first :: middle ++ after)) (Nat.succ_le_of_lt (not_le.mp early))
      rw [takeBefore, Nat.succ_eq_add_one] at le
      omega
    · by_contra late
      have le := width_take_le (before ++ (first :: middle ++ after)) (not_lt.mp late)
      omega
  · rintro ⟨behind, inside⟩
    have le := width_take_le (before ++ (first :: middle ++ after)) behind
    rw [takeBefore] at le
    exact ⟨le, width_take_le _ inside⟩

/-- Changed words are between the first and the last one. -/
lemma IsCut.middle_of_changed (cut : IsCut changed before first middle after) (isChange : changed ≠ .equal)
    (type : TypeAt (before ++ (first :: middle ++ after)) k changed) :
    before.length ≤ k ∧ k < before.length + (first :: middle).length := by
  obtain ⟨w, place, type⟩ := type
  constructor
  · by_contra early
    rw [List.getElem?_append_left (not_le.mp early)] at place
    exact isChange (type.symm.trans (cut.equalBefore w (List.mem_of_getElem? place)))
  · by_contra late
    rw [← List.append_assoc, List.getElem?_append_right (by rw [List.length_append]; exact not_lt.mp late)] at place
    exact isChange (type.symm.trans (cut.equalAfter w (List.mem_of_getElem? place)))

lemma IsCut.typeAt_first (cut : IsCut changed before first middle after) :
    TypeAt (before ++ (first :: middle ++ after)) before.length changed := by
  refine ⟨first, ?_, cut.start⟩
  rw [List.getElem?_append_right le_rfl, Nat.sub_self]
  rfl

lemma IsCut.typeAt_last (cut : IsCut changed before first middle after) :
    TypeAt (before ++ (first :: middle ++ after)) (before.length + middle.length) changed := by
  have last : (first :: middle)[middle.length]? = (first :: middle).getLast? := by
    rw [List.getLast?_eq_getElem?, List.length_cons, Nat.add_sub_cancel]
  refine ⟨(first :: middle).getLast (List.cons_ne_nil _ _), ?_,
    cut.stop _ (List.getLast?_eq_some_getLast (List.cons_ne_nil first middle))⟩
  rw [List.getElem?_append_right (Nat.le_add_right _ _), Nat.add_sub_cancel_left,
    List.getElem?_append_left (by rw [List.length_cons]; exact Nat.lt_succ_self _), last,
    List.getLast?_eq_some_getLast (List.cons_ne_nil first middle)]

/-- Merging all from the first to the last changed word marks only changed words where these are together. -/
lemma IsCut.onlyChanged_iff {words : List (List Char)} (cut : IsCut changed before first middle after)
    (side : IsSide changed words (before ++ (first :: middle ++ after)))
    (tiles : Tiles 0 (before ++ (first :: middle ++ after))) (some : ∀ word ∈ words, word ≠ [])
    (isChange : changed ≠ .equal) :
    OnlyChanged changed (before ++ (first :: middle ++ after)) (before ++ mergeSegments first (first :: middle) :: after) ↔
      ChangedTogether changed (before ++ (first :: middle ++ after)) := by
  have covered {k : ℕ} {w : WordChangeSegment} (place : (before ++ (first :: middle ++ after))[k]? = .some w) :=
    covers_merge tiles place
      (some w.text (side.texts ▸ List.mem_map_of_mem (List.mem_of_getElem? place)))
  constructor
  · intro only i k j before after typeI typeJ typeK
    obtain ⟨w, place, type⟩ := typeK
    have startsBefore := (cut.middle_of_changed isChange typeI).1
    have endsAfter := (cut.middle_of_changed isChange typeJ).2
    have marked := only.marked (mergeSegments first (first :: middle))
      (List.mem_append_right _ List.mem_cons_self) (cut.start.trans_ne isChange)
    refine (marked.2 k w place ((covered place).mpr ⟨by omega, by omega⟩)).resolve_left ?_
    rw [type]
    exact isChange.symm
  · intro together
    have bridge {k : ℕ} {w : WordChangeSegment} (place : (before ++ (first :: middle ++ after))[k]? = .some w)
        (equal : w.changeType = .equal) (behind : before.length ≤ k)
        (inside : k < before.length + (first :: middle).length) :
        IsBridge changed (before ++ (first :: middle ++ after)) k := by
      -- a word that stays is neither the first nor the last one of these
      have notAt {i : ℕ} (type : TypeAt (before ++ (first :: middle ++ after)) i changed) : k ≠ i := by
        rintro rfl
        obtain ⟨v, placeV, typeV⟩ := type
        rw [place, Option.some.injEq] at placeV
        rw [← placeV, equal] at typeV
        exact isChange typeV.symm
      have notFirst := notAt cut.typeAt_first
      have notLast := notAt cut.typeAt_last
      rw [List.length_cons] at inside
      exact together before.length k (before.length + middle.length) (by omega) (by omega) cut.typeAt_first
        cut.typeAt_last ⟨w, place, equal⟩
    refine ⟨?_, ?_⟩
    · intro s mem notEqual
      have merged : s = mergeSegments first (first :: middle) := by
        rcases List.mem_append.mp mem with mem | mem
        · exact absurd (cut.equalBefore s mem) notEqual
        · rcases List.mem_cons.mp mem with rfl | mem
          · rfl
          · exact absurd (cut.equalAfter s mem) notEqual
      subst merged
      refine ⟨cut.start, fun k w place covers => ?_⟩
      obtain ⟨behind, inside⟩ := (covered place).mp covers
      exact (side.types w (List.mem_of_getElem? place)).elim (fun equal => .inr (bridge place equal behind inside)) .inl
    · intro k w place equal noBridge
      refine ⟨w, ?_, equal, le_rfl, le_rfl⟩
      rcases Nat.lt_or_ge k before.length with early | behind
      · rw [List.getElem?_append_left early] at place
        exact List.mem_append_left _ (List.mem_of_getElem? place)
      · rcases Nat.lt_or_ge k (before.length + (first :: middle).length) with inside | late
        · exact absurd (bridge place equal behind inside) noBridge
        · rw [← List.append_assoc, List.getElem?_append_right (by rw [List.length_append]; exact late)] at place
          exact List.mem_append_right _ (List.mem_cons_of_mem _ (List.mem_of_getElem? place))

/-- Of a side only changed words are marked where these are together. -/
lemma IsSide.onlyChanged_iff {words : List (List Char)} (side : IsSide changed words segments) (tiles : Tiles 0 segments)
    (some : ∀ word ∈ words, word ≠ []) (isChange : changed ≠ .equal) :
    OnlyChanged changed segments (consolidateConsecutiveChanges segments) ↔ ChangedTogether changed segments := by
  rcases side.cut with equal | ⟨before, first, middle, after, rfl, cut⟩
  · rw [consolidate_equal equal]
    constructor
    · rintro - i k j - - ⟨w, place, type⟩
      exact absurd (type.symm.trans (equal w (List.mem_of_getElem? place))) isChange
    · intro _
      exact ⟨fun s mem notEqual => absurd (equal s mem) notEqual,
        fun k w place type _ => ⟨w, List.mem_of_getElem? place, type, le_rfl, le_rfl⟩⟩
  · rw [cut.consolidate_eq isChange]
    exact cut.onlyChanged_iff side tiles some isChange

end

/-- One segment over the whole line marks nothing. -/
lemma onlyChanged_whole {changed : WordChangeType} {words : List (List Char)} {segments : List WordChangeSegment}
    {line : List Char} (side : IsSide changed words segments) (tiles : Tiles 0 segments) (whole : words.flatten = line) :
    OnlyChanged changed segments [createSegment line .equal 0] := by
  refine ⟨fun s mem notEqual => ?_, fun k w place type _ => ⟨_, List.mem_singleton_self _, rfl, Nat.zero_le _, ?_⟩⟩
  · rw [List.mem_singleton.mp mem] at notEqual
    exact absurd rfl notEqual
  · change w.endOffset ≤ 0 + Utf8.len line
    have le := width_take_le segments (List.getElem?_eq_some_iff.mp place).1
    rw [List.take_length] at le
    rw [(tiles.place place).2, Nat.zero_add, Nat.zero_add, ← whole, ← side.texts, width_eq]
    exact le

section
variable (differ : EditScript.Differ (List Char)) (oldLine newLine : List Char)

lemma isSide_underlying :
    IsSide .delete (words oldLine) (underlyingSegments differ oldLine newLine).1 ∧
      IsSide .insert (words newLine) (underlyingSegments differ oldLine newLine).2 := by
  have sides := isSide_wordSegments 0 0 (differ.changes (splitIntoWords oldLine) (splitIntoWords newLine))
  rw [differ.oldSide_changes, differ.newSide_changes, splitIntoWords_eq, splitIntoWords_eq] at sides
  rw [underlyingSegments, splitIntoWords_eq, splitIntoWords_eq]
  exact sides

lemma tiles_underlying :
    Tiles 0 (underlyingSegments differ oldLine newLine).1 ∧ Tiles 0 (underlyingSegments differ oldLine newLine).2 :=
  tiles_wordSegments 0 0 _

/-- The segments of two lines make them up. -/
lemma highlightWordDiff_tiles (maxLineLength : ℕ) :
    let result := highlightWordDiffStructured differ oldLine newLine maxLineLength
    (Tiles 0 result.oldChanges ∧ (result.oldChanges.map (·.text)).flatten = oldLine) ∧
      (Tiles 0 result.newChanges ∧ (result.newChanges.map (·.text)).flatten = newLine) := by
  rw [highlightWordDiffStructured]
  split
  · have whole (line : List Char) : Tiles 0 [createSegment line .equal 0] ∧
        ([createSegment line .equal 0].map (·.text)).flatten = line :=
      ⟨⟨rfl, rfl, trivial⟩, List.append_nil line⟩
    exact ⟨whole oldLine, whole newLine⟩
  · obtain ⟨old, new⟩ := isSide_underlying differ oldLine newLine
    obtain ⟨tilesOld, tilesNew⟩ := tiles_underlying differ oldLine newLine
    have oldResult := consolidate_tiles old (by decide) tilesOld
    have newResult := consolidate_tiles new (by decide) tilesNew
    rw [flatten_words] at oldResult newResult
    exact ⟨oldResult, newResult⟩

/-- Of two lines only changed words are marked, and the whitespace between two of them. -/
def OnlyChangedWords (maxLineLength : ℕ) : Prop :=
  let underlying := underlyingSegments differ oldLine newLine
  let result := highlightWordDiffStructured differ oldLine newLine maxLineLength
  OnlyChanged .delete underlying.1 result.oldChanges ∧ OnlyChanged .insert underlying.2 result.newChanges

/-- Only changed words are marked where a line is too long to compare words, or the changed words of each line are
together. -/
theorem onlyChangedWords_iff (maxLineLength : ℕ) :
    OnlyChangedWords differ oldLine newLine maxLineLength ↔
      (Utf8.len oldLine > maxLineLength ∨ Utf8.len newLine > maxLineLength) ∨
        (ChangedTogether .delete (underlyingSegments differ oldLine newLine).1 ∧
          ChangedTogether .insert (underlyingSegments differ oldLine newLine).2) := by
  obtain ⟨old, new⟩ := isSide_underlying differ oldLine newLine
  obtain ⟨tilesOld, tilesNew⟩ := tiles_underlying differ oldLine newLine
  rw [OnlyChangedWords, highlightWordDiffStructured]
  split
  case isTrue long =>
    refine iff_of_true ⟨?_, ?_⟩ (.inl long)
    · exact onlyChanged_whole old tilesOld (flatten_words oldLine)
    · exact onlyChanged_whole new tilesNew (flatten_words newLine)
  case isFalse short =>
    rw [or_iff_right short]
    exact and_congr (old.onlyChanged_iff tilesOld (fun _ mem => words_nonempty mem) (by decide))
      (new.onlyChanged_iff tilesNew (fun _ mem => words_nonempty mem) (by decide))

end

/-- Of "a b c" and "x b y" the word "b" stays, and it is marked as deleted with the other two. -/
theorem kept_word_marked :
    ¬ OnlyChangedWords EditScript.Differ.shortest ['a', ' ', 'b', ' ', 'c'] ['x', ' ', 'b', ' ', 'y'] 10000 := by
  intro only
  have marked := only.1.marked ⟨['a', ' ', 'b', ' ', 'c'], .delete, 0, 5⟩ (by decide +kernel) (by decide)
  have kept := marked.2 2 ⟨['b'], .equal, 2, 3⟩ (by decide +kernel) ⟨by decide, by decide⟩
  rcases kept with other | ⟨-, ⟨w, place, -, blank⟩, -⟩
  · exact absurd other (by decide)
  · have same : w = ⟨['b'], .equal, 2, 3⟩ := by
      rw [← Option.some.injEq, ← place]
      decide +kernel
    rw [same] at blank
    exact absurd blank (by decide)

end ArchipelagoXL.Apdiff
