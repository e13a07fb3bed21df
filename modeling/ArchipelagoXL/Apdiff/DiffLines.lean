import ArchipelagoXL.Lib.EditScript
import ArchipelagoXL.Lib.Runs
import ArchipelagoXL.Lib.Utf8
import Mathlib.Algebra.Order.Ring.Int
import Mathlib.Data.List.DropRight

/-!
# The lines of a diff

What the viewer shows of two texts (`build_diff_lines` and `collapse_context_regions` in
`apdiff-viewer/src/diff/compute.rs`): the lines of an edit script with their numbers and the findings of the linter,
where long stretches without a change are collapsed but for their ends.

The lines of both texts can be read off the diff, each with its number and its findings, and what is hidden is told by
the count of hidden lines (`diffLines_rebuild`). The lines of a text and the edit script come from another crate, and so
does the highlighting; they are parameters. Texts are lists of characters. Line numbers are `i32`, which the lines of a
file don't exceed (`lineNumbers_fit`).
-/

namespace ArchipelagoXL.Apdiff

open EditScript (Change ChangeTag oldSide newSide)

/-! ## The parts of a line -/

/-- Rust `Style`, as far as it is shown. -/
structure SyntectStyle where
  r : UInt8
  g : UInt8
  b : UInt8
  a : UInt8
  bold : Bool
  italic : Bool
  underline : Bool
deriving DecidableEq

/-- Rust `SyntaxToken`; offsets count bytes. -/
structure SyntaxToken where
  text : List Char
  style : SyntectStyle
  startOffset : ℕ
  endOffset : ℕ
deriving DecidableEq

/-- Rust `WordChangeType`. -/
inductive WordChangeType where
  | insert
  | delete
  | equal
deriving DecidableEq

/-- Rust `WordChangeSegment`. -/
structure WordChangeSegment where
  text : List Char
  changeType : WordChangeType
  startOffset : ℕ
  endOffset : ℕ
deriving DecidableEq

/-- Rust `TemplateAnnotation`. -/
structure TemplateAnnotation where
  desc : String
  line : ℕ
  colStart : ℕ
  colEnd : ℕ
deriving DecidableEq

/-- Rust `LineType`. -/
inductive LineType where
  | add
  | delete
  | context
deriving DecidableEq

/-- Rust `DiffLine`. -/
structure DiffLine where
  lineType : LineType
  oldLineNumber : Option ℤ
  newLineNumber : Option ℤ
  annotations : List TemplateAnnotation
  rawContent : List Char
  syntaxTokens : List SyntaxToken
  wordChanges : Option (List WordChangeSegment)
  collapsed : Bool
  collapseCount : Option ℕ
deriving DecidableEq

/-- Rust `fallback_syntax_tokens`. -/
def fallbackSyntaxTokens (content : List Char) : List SyntaxToken :=
  [{ text := content
     style := { r := 255, g := 255, b := 255, a := 255, bold := false, italic := false, underline := false }
     startOffset := 0
     endOffset := Utf8.len content }]

/-- Rust `find_line_annotations`. -/
def findLineAnnotations (lineNumber : ℤ) (allAnnotations : List TemplateAnnotation) : List TemplateAnnotation :=
  if lineNumber ≤ 0 then [] else allAnnotations.filter fun ann => (ann.line : ℤ) = lineNumber

/-! ## Lines of a text -/

def isTerminator (c : Char) : Bool := c == '\r' || c == '\n'

/-- A text without line breaks, and what ends it. -/
structure IsLine (line content terminator : List Char) : Prop where
  whole : line = content ++ terminator
  nonempty : line ≠ []
  content : ∀ c ∈ content, isTerminator c = false
  terminator : terminator = [] ∨ terminator = ['\n'] ∨ terminator = ['\r'] ∨ terminator = ['\r', '\n']

/-- A text cut into its lines; only the last one may lack a terminator. -/
structure AreLines (text : List Char) (lines : List (List Char)) : Prop where
  whole : lines.flatten = text
  line : ∀ line ∈ lines, ∃ content terminator, IsLine line content terminator
  inner : ∀ line ∈ lines.dropLast, ∃ c ∈ line.getLast?, isTerminator c = true

/-- How the crate `similar` compares texts: by their lines. -/
structure LineDiffer where
  lines : List Char → List (List Char)
  areLines (text : List Char) : AreLines text (lines text)
  differ : EditScript.Differ (List Char)

/-- A line without what ends it. -/
def stripTerminator (line : List Char) : List Char := line.takeWhile fun c => !isTerminator c

/-- Rust `trim_end_matches(&['\r', '\n'])`. -/
def trimEnd (line : List Char) : List Char := line.rdropWhile isTerminator

/-! ## The diff -/

/-- An entry of `raw_lines`. -/
structure RawLine where
  content : List Char
  lineType : LineType
  oldNum : Option ℤ
  newNum : Option ℤ
deriving DecidableEq

/-- The loop of `build_diff_lines` over the changes. -/
def rawLines : ℤ → ℤ → List (Change (List Char)) → List RawLine
  | _, _, [] => []
  | oldNum, newNum, change :: rest =>
    let content := trimEnd change.value
    match change.tag with
    | .equal => ⟨content, .context, some oldNum, some newNum⟩ :: rawLines (oldNum + 1) (newNum + 1) rest
    | .delete => ⟨content, .delete, some oldNum, none⟩ :: rawLines (oldNum + 1) newNum rest
    | .insert => ⟨content, .add, none, some newNum⟩ :: rawLines oldNum (newNum + 1) rest

/-- The findings for a line of the new text. -/
def lineAnnotations (annotations : List TemplateAnnotation) (raw : RawLine) : List TemplateAnnotation :=
  match raw.lineType, raw.newNum with
  | .add, some n | .context, some n => if n > 0 then findLineAnnotations n annotations else []
  | _, _ => []

/-- A line of the diff before anything is hidden. -/
def diffLine (annotations : List TemplateAnnotation) (syntaxTokens : List (List SyntaxToken)) (raw : RawLine) (i : ℕ) :
    DiffLine where
  lineType := raw.lineType
  oldLineNumber := raw.oldNum
  newLineNumber := raw.newNum
  annotations := lineAnnotations annotations raw
  rawContent := raw.content
  syntaxTokens := syntaxTokens[i]?.getD (fallbackSyntaxTokens raw.content)
  wordChanges := none
  collapsed := false
  collapseCount := none

section
variable (differ : LineDiffer) (highlightHunkLines : List (List Char × LineType) → String → List (List SyntaxToken))

/-- Rust `build_diff_lines`. -/
def buildDiffLines (oldText newText : List Char) (filename : String) (annotations : List TemplateAnnotation) :
    List DiffLine :=
  let raw := rawLines 1 1 (differ.differ.changes (differ.lines oldText) (differ.lines newText))
  let syntaxTokens := highlightHunkLines (raw.map fun line => (line.content, line.lineType)) filename
  raw.mapIdx fun i line => diffLine annotations syntaxTokens line i

end

def contextCollapseThreshold : ℕ := 20

def contextVisibleLines : ℕ := 3

/-- The inner loop of `collapse_context_regions`: the end of the run of context lines at `i`. -/
def runEnd (lines : List DiffLine) : ℕ → ℕ → ℕ
  | 0, i => i
  | fuel + 1, i => if lines[i]?.any (·.lineType = .context) then runEnd lines fuel (i + 1) else i

/-- The lines between two places hidden, with their number on the first one. -/
def collapse (lines : List DiffLine) (collapseStart collapseEnd : ℕ) : List DiffLine :=
  (lines.mapIdx fun k line =>
      if collapseStart ≤ k ∧ k < collapseEnd then { line with collapsed := true } else line).modify collapseStart
    fun line => { line with collapseCount := some (collapseEnd - collapseStart) }

/-- The loop of `collapse_context_regions`; each turn moves `i`, so the number of lines is fuel enough. -/
def collapseLoop : ℕ → ℕ → List DiffLine → List DiffLine
  | 0, _, lines => lines
  | fuel + 1, i, lines =>
    match lines[i]? with
    | none => lines
    | some line =>
      if line.lineType ≠ .context then collapseLoop fuel (i + 1) lines
      else
        let stop := runEnd lines lines.length i
        let runLen := stop - i
        if runLen ≤ contextCollapseThreshold then collapseLoop fuel stop lines
        else
          let collapseStart := i + contextVisibleLines
          let collapseEnd := stop - contextVisibleLines
          if collapseStart ≥ collapseEnd then collapseLoop fuel stop lines
          else collapseLoop fuel stop (collapse lines collapseStart collapseEnd)

/-- Rust `collapse_context_regions`. -/
def collapseContextRegions (lines : List DiffLine) : List DiffLine := collapseLoop lines.length 0 lines


/-! ## Lines and their ends -/

lemma IsLine.stripTerminator_eq {line content terminator : List Char} (isLine : IsLine line content terminator) :
    stripTerminator line = content := by
  have kept : ∀ c ∈ content, (!isTerminator c) = true := fun c mem => by rw [isLine.content c mem, Bool.not_false]
  rw [isLine.whole, stripTerminator, List.takeWhile_append_of_pos kept]
  rcases isLine.terminator with rfl | rfl | rfl | rfl <;> simp [isTerminator]

/-- What is trimmed from a line is its terminator. -/
lemma IsLine.trimEnd_eq {line content terminator : List Char} (isLine : IsLine line content terminator) :
    trimEnd line = stripTerminator line := by
  have bare : content.rdropWhile isTerminator = content := by
    rw [List.rdropWhile_eq_self_iff]
    intro some
    rw [isLine.content _ (List.getLast_mem some)]
    exact Bool.false_ne_true
  have ends : (terminator.reverse.dropWhile isTerminator) = [] := by
    rcases isLine.terminator with rfl | rfl | rfl | rfl <;> rfl
  rw [isLine.stripTerminator_eq, trimEnd, isLine.whole, List.rdropWhile, List.reverse_append, List.dropWhile_append, ends]
  exact bare

lemma map_trimEnd {text : List Char} {lines : List (List Char)} (are : AreLines text lines) :
    lines.map trimEnd = lines.map stripTerminator := by
  apply List.map_congr_left
  intro line mem
  obtain ⟨content, terminator, isLine⟩ := are.line line mem
  exact isLine.trimEnd_eq

/-! ## The sides of a diff -/

/-- Texts with the numbers of their lines. -/
def numbered : ℤ → List (List Char) → List (List Char × Option ℤ)
  | _, [] => []
  | n, line :: lines => (line, some n) :: numbered (n + 1) lines

lemma old_rawLines (oldNum newNum : ℤ) (changes : List (Change (List Char))) :
    ((rawLines oldNum newNum changes).filter (·.lineType ≠ .add)).map (fun raw => (raw.content, raw.oldNum)) =
      numbered oldNum ((oldSide changes).map trimEnd) := by
  induction changes generalizing oldNum newNum with
  | nil => rfl
  | cons change changes ih =>
    obtain ⟨tag, value⟩ := change
    cases tag with
    | equal => exact congrArg ((trimEnd value, some oldNum) :: ·) (ih (oldNum + 1) (newNum + 1))
    | delete => exact congrArg ((trimEnd value, some oldNum) :: ·) (ih (oldNum + 1) newNum)
    | insert => exact ih oldNum (newNum + 1)

lemma new_rawLines (oldNum newNum : ℤ) (changes : List (Change (List Char))) :
    ((rawLines oldNum newNum changes).filter (·.lineType ≠ .delete)).map (fun raw => (raw.content, raw.newNum)) =
      numbered newNum ((newSide changes).map trimEnd) := by
  induction changes generalizing oldNum newNum with
  | nil => rfl
  | cons change changes ih =>
    obtain ⟨tag, value⟩ := change
    cases tag with
    | equal => exact congrArg ((trimEnd value, some newNum) :: ·) (ih (oldNum + 1) (newNum + 1))
    | delete => exact ih (oldNum + 1) newNum
    | insert => exact congrArg ((trimEnd value, some newNum) :: ·) (ih oldNum (newNum + 1))


/-- What kind of line has which numbers. -/
inductive RawLine.Numbers (oldNum newNum : ℤ) : RawLine → Prop
  | context {content k m} : oldNum ≤ k → newNum ≤ m → Numbers oldNum newNum ⟨content, .context, some k, some m⟩
  | delete {content k} : oldNum ≤ k → Numbers oldNum newNum ⟨content, .delete, some k, none⟩
  | add {content m} : newNum ≤ m → Numbers oldNum newNum ⟨content, .add, none, some m⟩

lemma RawLine.Numbers.mono {raw : RawLine} {o o' n n' : ℤ} (numbers : raw.Numbers o' n') (old : o ≤ o') (new : n ≤ n') :
    raw.Numbers o n := by
  cases numbers with
  | context k m => exact .context (old.trans k) (new.trans m)
  | delete k => exact .delete (old.trans k)
  | add m => exact .add (new.trans m)

lemma numbers_of_mem {oldNum newNum : ℤ} {changes : List (Change (List Char))} {raw : RawLine}
    (mem : raw ∈ rawLines oldNum newNum changes) : raw.Numbers oldNum newNum := by
  induction changes generalizing oldNum newNum with
  | nil => cases mem
  | cons change changes ih =>
    obtain ⟨tag, value⟩ := change
    cases tag with
    | equal =>
      rcases List.mem_cons.mp mem with rfl | mem
      · exact .context le_rfl le_rfl
      · exact (ih mem).mono (by omega) (by omega)
    | delete =>
      rcases List.mem_cons.mp mem with rfl | mem
      · exact .delete le_rfl
      · exact (ih mem).mono (by omega) le_rfl
    | insert =>
      rcases List.mem_cons.mp mem with rfl | mem
      · exact .add le_rfl
      · exact (ih mem).mono le_rfl (by omega)

/-- A line has the findings of its number in the new text. -/
lemma lineAnnotations_eq {raw : RawLine} {oldNum newNum : ℤ} (numbers : raw.Numbers oldNum newNum) (start : 0 < newNum)
    (annotations : List TemplateAnnotation) :
    lineAnnotations annotations raw = annotations.filter fun ann => raw.newNum = some (ann.line : ℤ) := by
  have found {m : ℤ} (le : newNum ≤ m) :
      (if m > 0 then findLineAnnotations m annotations else []) =
        annotations.filter fun ann => some m = some (ann.line : ℤ) := by
    rw [if_pos (start.trans_le le), findLineAnnotations, if_neg (by omega)]
    exact List.filter_congr fun ann _ => by simp [eq_comm]
  cases numbers with
  | context _ le => exact found le
  | delete _ => simp [lineAnnotations]
  | add le => exact found le

/-- What a line shows apart from what is hidden and how it is coloured. -/
def DiffLine.raw (line : DiffLine) : RawLine :=
  ⟨line.rawContent, line.lineType, line.oldLineNumber, line.newLineNumber⟩

/-- A line with nothing said about what is hidden. -/
def DiffLine.bare (line : DiffLine) : DiffLine := { line with collapsed := false, collapseCount := none }

lemma map_raw_of_bare {lines lines' : List DiffLine} (same : lines.map DiffLine.bare = lines'.map DiffLine.bare) :
    lines.map DiffLine.raw = lines'.map DiffLine.raw := by
  have raw : DiffLine.raw = DiffLine.raw ∘ DiffLine.bare := rfl
  rw [raw, ← List.map_map, same, List.map_map]

section
variable {differ : LineDiffer} {highlightHunkLines : List (List Char × LineType) → String → List (List SyntaxToken)}
  {oldText newText : List Char} {filename : String} {annotations : List TemplateAnnotation}

/-- The changes between the lines of two texts. -/
def lineChanges (differ : LineDiffer) (oldText newText : List Char) : List (Change (List Char)) :=
  differ.differ.changes (differ.lines oldText) (differ.lines newText)

lemma map_raw_buildDiffLines :
    (buildDiffLines differ highlightHunkLines oldText newText filename annotations).map DiffLine.raw =
      rawLines 1 1 (lineChanges differ oldText newText) := by
  apply List.ext_getElem?
  intro k
  rw [buildDiffLines, List.getElem?_map, List.getElem?_mapIdx, Option.map_map]
  exact Option.map_id_apply

/-- A line of the diff is that of a change. -/
lemma mem_buildDiffLines {line : DiffLine}
    (mem : line ∈ buildDiffLines differ highlightHunkLines oldText newText filename annotations) :
    line.bare = line ∧ line.raw.Numbers 1 1 ∧
      line.annotations = annotations.filter fun ann => line.newLineNumber = some (ann.line : ℤ) := by
  obtain ⟨i, _, rfl⟩ := List.mem_mapIdx.mp mem
  have numbers := numbers_of_mem (List.getElem_mem ‹_›)
  exact ⟨rfl, numbers, lineAnnotations_eq numbers one_pos annotations⟩

end

/-! ## What is hidden -/

def isContext (line : DiffLine) : Bool := line.lineType = .context

/-- A run of context lines, with its middle hidden if it is long. -/
def hideMiddle (run : List DiffLine) : List DiffLine :=
  if run.length ≤ contextCollapseThreshold then run
  else collapse run contextVisibleLines (run.length - contextVisibleLines)

/-- A line at a place of a list whose lines between two places are hidden. -/
def DiffLine.hidden (line : DiffLine) (collapseStart collapseEnd k : ℕ) : DiffLine :=
  { line with
    collapsed := line.collapsed || decide (collapseStart ≤ k ∧ k < collapseEnd)
    collapseCount := if k = collapseStart then some (collapseEnd - collapseStart) else line.collapseCount }

lemma getElem?_collapse (lines : List DiffLine) (lo hi k : ℕ) :
    (collapse lines lo hi)[k]? = lines[k]?.map (·.hidden lo hi k) := by
  rw [collapse, List.getElem?_modify, List.getElem?_mapIdx]
  cases lines[k]? with
  | none => rfl
  | some line =>
    simp only [Option.map_eq_map, Option.map_some, DiffLine.hidden]
    by_cases inside : lo ≤ k ∧ k < hi
    · rw [if_pos inside, decide_eq_true inside, Bool.or_true]
      by_cases first : lo = k
      · rw [if_pos first, if_pos first.symm]
      · rw [if_neg first, if_neg (Ne.symm first)]
    · rw [if_neg inside, decide_eq_false inside, Bool.or_false]
      by_cases first : lo = k
      · rw [if_pos first, if_pos first.symm]
      · rw [if_neg first, if_neg (Ne.symm first)]

lemma length_collapse (lines : List DiffLine) (lo hi : ℕ) : (collapse lines lo hi).length = lines.length := by
  rw [collapse, List.length_modify, List.length_mapIdx]


lemma DiffLine.hidden_of_outside {line : DiffLine} {lo hi k : ℕ} (outside : ¬ (lo ≤ k ∧ k < hi)) (other : k ≠ lo) :
    line.hidden lo hi k = line := by
  rw [DiffLine.hidden, decide_eq_false outside, Bool.or_false, if_neg other]

/-- Hiding lines of a part leaves what is around it. -/
lemma collapse_append {before run after : List DiffLine} {lo hi : ℕ} (first : lo < run.length) (last : hi ≤ run.length) :
    collapse (before ++ (run ++ after)) (before.length + lo) (before.length + hi) =
      before ++ (collapse run lo hi ++ after) := by
  apply List.ext_getElem?
  intro k
  rw [getElem?_collapse]
  rcases Nat.lt_or_ge k before.length with inBefore | behind
  · rw [List.getElem?_append_left inBefore, List.getElem?_append_left inBefore, List.getElem?_eq_getElem inBefore,
      Option.map_some, DiffLine.hidden_of_outside (by omega) (by omega)]
  · rw [List.getElem?_append_right behind, List.getElem?_append_right behind]
    rcases Nat.lt_or_ge (k - before.length) run.length with inRun | inAfter
    · rw [List.getElem?_append_left inRun, List.getElem?_append_left (by rwa [length_collapse]), getElem?_collapse,
        List.getElem?_eq_getElem inRun, Option.map_some, Option.map_some, DiffLine.hidden, DiffLine.hidden]
      have same : (before.length + lo ≤ k ∧ k < before.length + hi) ↔
          (lo ≤ k - before.length ∧ k - before.length < hi) := by omega
      have start : k = before.length + lo ↔ k - before.length = lo := by omega
      simp only [same, start, Nat.add_sub_add_left]
    · rw [List.getElem?_append_right inAfter, List.getElem?_append_right (by rwa [length_collapse]), length_collapse]
      cases after[k - before.length - run.length]? with
      | none => rfl
      | some line => rw [Option.map_some, DiffLine.hidden_of_outside (by omega) (by omega)]

/-- The inner loop stops where the run does. -/
lemma runEnd_eq (before : List DiffLine) {run after : List DiffLine} {fuel : ℕ} (all : ∀ line ∈ run, isContext line = true)
    (next : ∀ line ∈ after.head?, isContext line = false) (enough : run.length ≤ fuel) :
    runEnd (before ++ (run ++ after)) fuel before.length = before.length + run.length := by
  induction run generalizing before fuel with
  | nil =>
    cases fuel with
    | zero => rfl
    | succ fuel =>
      rw [runEnd, List.nil_append, List.getElem?_append_right le_rfl, Nat.sub_self, ← List.head?_eq_getElem?]
      rw [if_neg]
      · rfl
      · cases first : after.head? with
        | none => exact Bool.false_ne_true
        | some line => exact ne_true_of_eq_false (next line first)
  | cons line run ih =>
    obtain ⟨fuel, rfl⟩ := Nat.exists_eq_add_of_le' (Nat.le_of_add_left_le enough)
    rw [runEnd, List.getElem?_append_right le_rfl, Nat.sub_self]
    have here : (some line).any (fun line => decide (line.lineType = .context)) = true := all line List.mem_cons_self
    have moved := ih (before ++ [line]) (fun l mem => all l (List.mem_cons_of_mem line mem)) (Nat.le_of_succ_le_succ enough)
    rw [List.append_assoc, List.length_append, List.length_singleton] at moved
    rw [List.cons_append, List.getElem?_cons_zero, if_pos here]
    exact moved.trans (by rw [List.length_cons, Nat.add_assoc, Nat.add_comm 1])

lemma length_hideMiddle (run : List DiffLine) : (hideMiddle run).length = run.length := by
  rw [hideMiddle]
  split
  · rfl
  · exact length_collapse _ _ _

/-- The loop hides the middle of each run. -/
lemma collapseLoop_eq (fuel : ℕ) (before rest : List DiffLine) (enough : rest.length ≤ fuel) :
    collapseLoop fuel before.length (before ++ rest) = before ++ Runs.onRuns isContext hideMiddle rest := by
  induction fuel generalizing before rest with
  | zero =>
    obtain rfl := List.length_eq_zero_iff.mp (Nat.le_zero.mp enough)
    rw [collapseLoop, Runs.onRuns]
  | succ fuel ih =>
    cases rest with
    | nil => rw [collapseLoop, List.append_nil, List.getElem?_eq_none le_rfl, Runs.onRuns, List.append_nil]
    | cons line rest =>
      have here : (before ++ line :: rest)[before.length]? = some line := by
        rw [List.getElem?_append_right le_rfl, Nat.sub_self, List.getElem?_cons_zero]
      rw [collapseLoop, here]
      by_cases context : line.lineType = .context
      · have split : line :: rest = (line :: rest.takeWhile isContext) ++ rest.dropWhile isContext := by
          rw [List.cons_append, List.takeWhile_append_dropWhile]
        have all : ∀ l ∈ line :: rest.takeWhile isContext, isContext l = true := by
          intro l mem
          rcases List.mem_cons.mp mem with rfl | mem
          · exact decide_eq_true context
          · exact List.mem_takeWhile_imp mem
        have next : ∀ l ∈ (rest.dropWhile isContext).head?, isContext l = false := by
          intro l first
          have other := List.head?_dropWhile_not isContext rest
          rw [first] at other
          simpa using other
        have nonempty : line :: rest.takeWhile isContext ≠ [] := List.cons_ne_nil _ _
        generalize line :: rest.takeWhile isContext = run at split all nonempty
        generalize rest.dropWhile isContext = after at split next
        have lengths : run.length + after.length = rest.length + 1 := by
          rw [← List.length_append, ← split, List.length_cons]
        have pos := List.length_pos_of_ne_nil nonempty
        rw [List.length_cons] at enough
        have later := ih (before ++ hideMiddle run) after (by omega)
        rw [List.length_append, length_hideMiddle, List.append_assoc, List.append_assoc] at later
        have enough' : run.length ≤ (before ++ (run ++ after)).length := by
          rw [List.length_append, List.length_append]
          omega
        rw [split, runEnd_eq before all next enough', Runs.onRuns_run nonempty all next, ← later]
        simp only [context, ne_eq, not_true_eq_false, if_false, Nat.add_sub_cancel_left]
        split
        case isTrue short => rw [hideMiddle, if_pos short]
        case isFalse long =>
          have order : ¬ (before.length + contextVisibleLines ≥ before.length + run.length - contextVisibleLines) := by
            simp only [contextVisibleLines, contextCollapseThreshold] at long ⊢
            omega
          have stop : before.length + run.length - contextVisibleLines =
              before.length + (run.length - contextVisibleLines) := by
            simp only [contextVisibleLines, contextCollapseThreshold] at long ⊢
            omega
          rw [if_neg order, stop, collapse_append, hideMiddle, if_neg long]
          · simp only [contextVisibleLines, contextCollapseThreshold] at long ⊢
            omega
          · exact Nat.sub_le _ _
      · have later := ih (before ++ [line]) rest (by simpa using enough)
        rw [List.length_append, List.length_singleton, List.append_assoc, List.append_assoc] at later
        simp only [context, ne_eq, not_false_eq_true, if_true]
        have other : isContext line = false := decide_eq_false context
        rw [Runs.onRuns_cons_of_neg other]
        exact later

lemma collapseContextRegions_eq (lines : List DiffLine) :
    collapseContextRegions lines = Runs.onRuns isContext hideMiddle lines :=
  collapseLoop_eq lines.length [] lines le_rfl

lemma map_bare_hideMiddle (run : List DiffLine) : (hideMiddle run).map DiffLine.bare = run.map DiffLine.bare := by
  rw [hideMiddle]
  split
  case isTrue => rfl
  case isFalse =>
    apply List.ext_getElem?
    intro k
    rw [List.getElem?_map, List.getElem?_map, getElem?_collapse, Option.map_map]
    rfl

lemma map_isContext_hideMiddle (run : List DiffLine) : (hideMiddle run).map isContext = run.map isContext := by
  have kind : isContext = isContext ∘ DiffLine.bare := rfl
  rw [kind, ← List.map_map, map_bare_hideMiddle, List.map_map]

/-- A line that nothing was said about is hidden in the middle of a long run, and the first hidden one has the number of
hidden lines. -/
lemma getElem?_hideMiddle {run : List DiffLine} {k : ℕ} {line : DiffLine} (shown : ∀ l ∈ run, l.bare = l)
    (long : contextCollapseThreshold < run.length) (place : (hideMiddle run)[k]? = some line) :
    (line.collapsed = true ↔ 3 ≤ k ∧ k < run.length - 3) ∧
      line.collapseCount = if k = 3 then some (run.length - 6) else none := by
  rw [hideMiddle, if_neg (Nat.not_le_of_lt long), getElem?_collapse] at place
  obtain ⟨l, was, rfl⟩ := Option.map_eq_some_iff.mp place
  rw [← shown l (List.mem_of_getElem? was)]
  simp only [DiffLine.hidden, DiffLine.bare, contextVisibleLines, Bool.false_or, Nat.sub_sub]
  exact ⟨decide_eq_true_iff, trivial⟩

/-! ## The whole diff -/

/-- The lines of two texts as a diff shows them, with their numbers and the findings for those of the new text. -/
structure ShowsLines (oldLines newLines : List (List Char)) (annotations : List TemplateAnnotation)
    (lines : List DiffLine) : Prop where
  old : (lines.filter (·.lineType ≠ .add)).map (fun line => (line.rawContent, line.oldLineNumber)) = numbered 1 oldLines
  new : (lines.filter (·.lineType ≠ .delete)).map (fun line => (line.rawContent, line.newLineNumber)) =
    numbered 1 newLines
  other : ∀ line ∈ lines, (line.lineType = .add → line.oldLineNumber = none) ∧
    (line.lineType = .delete → line.newLineNumber = none)
  annotated : ∀ line ∈ lines,
    line.annotations = annotations.filter fun ann => line.newLineNumber = some (ann.line : ℤ)

/-- What is hidden: of each long run of context lines all but three lines at either end. -/
structure HidesContext (lines : List DiffLine) : Prop where
  only : ∀ line ∈ lines, line.collapsed = true ∨ line.collapseCount ≠ none → line.lineType = .context
  short : ∀ {before run after}, Runs.IsRun isContext before run after → lines = before ++ (run ++ after) →
    run.length ≤ 20 → ∀ line ∈ run, line.collapsed = false ∧ line.collapseCount = none
  long : ∀ {before run after}, Runs.IsRun isContext before run after → lines = before ++ (run ++ after) →
    20 < run.length → ∀ k line, run[k]? = some line →
      (line.collapsed = true ↔ 3 ≤ k ∧ k < run.length - 3) ∧
        line.collapseCount = if k = 3 then some (run.length - 6) else none

/-- Collapsing hides the middles of the long runs. -/
lemma hidesContext {lines : List DiffLine} (shown : ∀ line ∈ lines, line.bare = line) :
    HidesContext (collapseContextRegions lines) := by
  have plain {line : DiffLine} (mem : line ∈ lines) : line.collapsed = false ∧ line.collapseCount = none := by
    rw [← shown line mem]
    exact ⟨rfl, rfl⟩
  rw [collapseContextRegions_eq]
  refine ⟨?_, ?_, ?_⟩
  · intro line mem hidden
    rcases Runs.mem_onRuns mem with ⟨old, _⟩ | ⟨r, inRun, all⟩
    · obtain ⟨notCollapsed, noCount⟩ := plain old
      rcases hidden with collapsed | count
      · rw [notCollapsed] at collapsed
        cases collapsed
      · exact absurd noCount count
    · have kind : isContext line ∈ r.map isContext := map_isContext_hideMiddle r ▸ List.mem_map_of_mem inRun
      obtain ⟨l, mem, same⟩ := List.mem_map.mp kind
      rw [(all l mem).2] at same
      exact of_decide_eq_true same.symm
  · intro before run after isRun whole short line mem
    obtain ⟨r, rfl, all⟩ := isRun.of_onRuns map_isContext_hideMiddle whole
    have short : r.length ≤ contextCollapseThreshold := by rwa [length_hideMiddle] at short
    rw [hideMiddle, if_pos short] at mem
    exact plain (all line mem).1
  · intro before run after isRun whole long k line place
    obtain ⟨r, rfl, all⟩ := isRun.of_onRuns map_isContext_hideMiddle whole
    rw [length_hideMiddle] at long ⊢
    exact getElem?_hideMiddle (fun l mem => shown l (all l mem).1) long place

section
variable (differ : LineDiffer) (highlightHunkLines : List (List Char × LineType) → String → List (List SyntaxToken))
  (oldText newText : List Char) (filename : String) (annotations : List TemplateAnnotation)

/-- The lines of two texts as they are shown: built, and then collapsed. -/
def shownLines : List DiffLine :=
  collapseContextRegions (buildDiffLines differ highlightHunkLines oldText newText filename annotations)

/-- Collapsing changes nothing but what it says is hidden. -/
lemma map_bare_collapse (lines : List DiffLine) :
    (collapseContextRegions lines).map DiffLine.bare = lines.map DiffLine.bare := by
  rw [collapseContextRegions_eq, Runs.map_onRuns map_bare_hideMiddle]

/-- Both texts can be read off their diff: the lines of each side in order with their numbers, the findings at the lines
they are about, and the number of lines that each long stretch without a change hides. -/
theorem diffLines_rebuild :
    ShowsLines ((differ.lines oldText).map stripTerminator) ((differ.lines newText).map stripTerminator) annotations
        (shownLines differ highlightHunkLines oldText newText filename annotations) ∧
      HidesContext (shownLines differ highlightHunkLines oldText newText filename annotations) := by
  set lines := shownLines differ highlightHunkLines oldText newText filename annotations
  refine ⟨?_, hidesContext fun line mem => (mem_buildDiffLines mem).1⟩
  have same : lines.map DiffLine.bare =
      (buildDiffLines differ highlightHunkLines oldText newText filename annotations).map DiffLine.bare :=
    map_bare_collapse _
  have raw : lines.map DiffLine.raw = rawLines 1 1 (lineChanges differ oldText newText) :=
    (map_raw_of_bare same).trans map_raw_buildDiffLines
  have built : ∀ line ∈ lines, line.raw.Numbers 1 1 ∧
      line.annotations = annotations.filter fun ann => line.newLineNumber = some (ann.line : ℤ) := by
    intro line mem
    have bare : line.bare ∈ lines.map DiffLine.bare := List.mem_map_of_mem mem
    rw [same] at bare
    obtain ⟨l, mem, same⟩ := List.mem_map.mp bare
    obtain ⟨own, numbers, annotated⟩ := mem_buildDiffLines mem
    rw [own] at same
    rw [same] at numbers annotated
    exact ⟨numbers, annotated⟩
  refine ⟨?_, ?_, ?_, fun line mem => (built line mem).2⟩
  · have sides := old_rawLines 1 1 (lineChanges differ oldText newText)
    rw [← raw, List.filter_map, List.map_map, lineChanges, differ.differ.oldSide_changes,
      map_trimEnd (differ.areLines oldText)] at sides
    exact sides
  · have sides := new_rawLines 1 1 (lineChanges differ oldText newText)
    rw [← raw, List.filter_map, List.map_map, lineChanges, differ.differ.newSide_changes,
      map_trimEnd (differ.areLines newText)] at sides
    exact sides
  · intro line mem
    have numbers := (built line mem).1
    obtain ⟨lineType, oldLineNumber, newLineNumber⟩ := line
    cases numbers with
    | context => exact ⟨by simp, by simp⟩
    | delete => exact ⟨by simp, fun _ => rfl⟩
    | add => exact ⟨fun _ => rfl, by simp⟩

end

/-! ## Line numbers -/

/-- Rust `MAX_ENTRY_SIZE`: the files that are compared are not longer. -/
def maxEntrySize : ℕ := 10 * 1024 * 1024

lemma AreLines.length_le {text : List Char} {lines : List (List Char)} (are : AreLines text lines) :
    lines.length ≤ Utf8.len text := by
  obtain ⟨rfl, line, -⟩ := are
  rw [Utf8.len_flatten]
  induction lines with
  | nil => exact le_rfl
  | cons l lines ih =>
    obtain ⟨_, _, isLine⟩ := line l List.mem_cons_self
    have pos := Utf8.len_pos isLine.nonempty
    have rest := ih fun l' mem => line l' (List.mem_cons_of_mem l mem)
    rw [List.length_cons, List.map_cons, List.sum_cons]
    omega

lemma mem_numbered {n k : ℤ} {line : List Char} {lines : List (List Char)}
    (mem : (line, some k) ∈ numbered n lines) : n ≤ k ∧ k < n + lines.length := by
  induction lines generalizing n with
  | nil => cases mem
  | cons l lines ih =>
    rw [List.length_cons]
    rcases List.mem_cons.mp mem with same | mem
    · obtain rfl := Option.some.inj (Prod.ext_iff.mp same).2
      omega
    · have bounds := ih mem
      omega

/-- The numbers of the lines of extracted files are `i32`. -/
theorem lineNumbers_fit {differ : LineDiffer} {oldText newText : List Char} {annotations : List TemplateAnnotation}
    {lines : List DiffLine}
    (shows : ShowsLines ((differ.lines oldText).map stripTerminator) ((differ.lines newText).map stripTerminator)
      annotations lines) (oldFits : Utf8.len oldText ≤ maxEntrySize) (newFits : Utf8.len newText ≤ maxEntrySize)
    {line : DiffLine} (mem : line ∈ lines) {k : ℤ}
    (number : line.oldLineNumber = some k ∨ line.newLineNumber = some k) : 0 < k ∧ k < 2 ^ 31 := by
  have bound {text : List Char} {l : List Char} (fits : Utf8.len text ≤ maxEntrySize)
      (inside : (l, some k) ∈ numbered 1 ((differ.lines text).map stripTerminator)) : 0 < k ∧ k < 2 ^ 31 := by
    have bounds := mem_numbered inside
    have le := (differ.areLines text).length_le
    rw [List.length_map] at bounds
    rw [maxEntrySize] at fits
    omega
  have other := shows.other line mem
  rcases number with number | number
  · apply bound (l := line.rawContent) oldFits
    rw [← shows.old, ← number]
    refine List.mem_map_of_mem (f := fun line => (line.rawContent, line.oldLineNumber)) (List.mem_filter.mpr ⟨mem, ?_⟩)
    rw [decide_eq_true_iff]
    intro add
    rw [other.1 add] at number
    cases number
  · apply bound (l := line.rawContent) newFits
    rw [← shows.new, ← number]
    refine List.mem_map_of_mem (f := fun line => (line.rawContent, line.newLineNumber)) (List.mem_filter.mpr ⟨mem, ?_⟩)
    rw [decide_eq_true_iff]
    intro delete
    rw [other.2 delete] at number
    cases number

/-! ## Comparing by lines -/

/-- The lines of a text with what ends them. -/
def splitLines : List Char → List (List Char)
  | [] => []
  | c :: rest =>
    if c = '\n' ∨ c = '\r' ∧ rest.head? ≠ some '\n' then [c] :: splitLines rest
    else match splitLines rest with
      | [] => [[c]]
      | line :: lines => (c :: line) :: lines

lemma IsLine.cons {c : Char} {line content terminator : List Char} (isLine : IsLine line content terminator)
    (other : isTerminator c = false) : IsLine (c :: line) (c :: content) terminator where
  whole := congrArg (c :: ·) isLine.whole
  nonempty := List.cons_ne_nil c line
  content d mem := by
    rcases List.mem_cons.mp mem with rfl | mem
    · exact other
    · exact isLine.content d mem
  terminator := isLine.terminator

/-- What starts with a line feed is a line feed. -/
lemma IsLine.lineFeed {line content terminator : List Char} (isLine : IsLine line content terminator)
    (first : line.head? = some '\n') : line = ['\n'] := by
  cases content with
  | cons c content =>
    rw [isLine.whole] at first
    obtain rfl := Option.some.inj first
    exact absurd (isLine.content '\n' List.mem_cons_self) (by decide)
  | nil =>
    rw [isLine.whole, List.nil_append] at first ⊢
    rcases isLine.terminator with rfl | rfl | rfl | rfl
    · cases first
    · rfl
    · exact absurd first (by decide)
    · exact absurd first (by decide)

lemma areLines_splitLines (text : List Char) : AreLines text (splitLines text) := by
  induction text with
  | nil => exact ⟨rfl, fun _ mem => absurd mem List.not_mem_nil, fun _ mem => absurd mem List.not_mem_nil⟩
  | cons c rest ih =>
    rw [splitLines]
    split
    case isTrue cut =>
      have ends : [c] = ['\n'] ∨ [c] = ['\r'] := cut.imp (congrArg ([·])) fun cr => congrArg ([·]) cr.1
      have isLine : IsLine [c] [] [c] := by
        refine ⟨rfl, List.cons_ne_nil c [], fun _ mem => absurd mem List.not_mem_nil, ?_⟩
        rcases ends with lf | cr
        · exact .inr (.inl lf)
        · exact .inr (.inr (.inl cr))
      have terminated : isTerminator c = true := by
        rcases cut with rfl | ⟨rfl, _⟩
        · rfl
        · rfl
      refine ⟨congrArg (c :: ·) ih.whole, ?_, ?_⟩
      · intro line mem
        rcases List.mem_cons.mp mem with rfl | mem
        · exact ⟨[], [c], isLine⟩
        · exact ih.line line mem
      · intro line mem
        cases later : splitLines rest with
        | nil =>
          rw [later] at mem
          cases mem
        | cons next lines =>
          rw [later, List.dropLast_cons_cons] at mem
          rcases List.mem_cons.mp mem with rfl | mem
          · exact ⟨c, rfl, terminated⟩
          · exact ih.inner line (later ▸ mem)
    case isFalse uncut =>
      rw [not_or, not_and_not_right] at uncut
      obtain ⟨noLf, cr⟩ := uncut
      split
      case h_1 none =>
        have empty : rest = [] := by rw [← ih.whole, none, List.flatten_nil]
        have other : isTerminator c = false := by
          rw [isTerminator, Bool.or_eq_false_iff, beq_eq_false_iff_ne, beq_eq_false_iff_ne]
          refine ⟨?_, noLf⟩
          rintro rfl
          rw [empty] at cr
          cases cr rfl
        refine ⟨by rw [empty]; rfl, ?_, fun _ mem => absurd mem List.not_mem_nil⟩
        intro line mem
        rw [List.mem_singleton.mp mem]
        refine ⟨[c], [], rfl, List.cons_ne_nil c [], ?_, .inl rfl⟩
        intro d mem
        rw [List.mem_singleton.mp mem, other]
      case h_2 line lines lines_eq =>
        rw [lines_eq] at ih
        obtain ⟨whole, isLine, inner⟩ := ih
        obtain ⟨content, terminator, first⟩ := isLine line List.mem_cons_self
        refine ⟨congrArg (c :: ·) whole, ?_, ?_⟩
        · intro l mem
          rcases List.mem_cons.mp mem with rfl | mem
          · by_cases other : isTerminator c = true
            · have isCr : c = '\r' := by
                rw [isTerminator, Bool.or_eq_true, beq_iff_eq, beq_iff_eq] at other
                exact other.resolve_right noLf
              have lf : line.head? = some '\n' := by
                rw [← cr isCr, ← whole, List.flatten_cons, List.head?_append_of_ne_nil _ first.nonempty]
              rw [first.lineFeed lf, isCr]
              exact ⟨[], ['\r', '\n'], rfl, List.cons_ne_nil _ _, fun _ mem => absurd mem List.not_mem_nil,
                .inr (.inr (.inr rfl))⟩
            · exact ⟨c :: content, terminator, first.cons (eq_false_of_ne_true other)⟩
          · exact isLine l (List.mem_cons_of_mem line mem)
        · intro l mem
          cases lines with
          | nil => cases mem
          | cons next lines =>
            rw [List.dropLast_cons_cons] at mem inner
            rcases List.mem_cons.mp mem with rfl | mem
            · obtain ⟨d, last, terminated⟩ := inner line List.mem_cons_self
              refine ⟨d, ?_, terminated⟩
              rw [List.getLast?_cons_of_ne_nil first.nonempty]
              exact last
            · exact inner l (List.mem_cons_of_mem line mem)

/-- Texts compared by a shortest script for their lines. -/
def lineDiffer : LineDiffer where
  lines := splitLines
  areLines := areLines_splitLines
  differ := EditScript.Differ.shortest

example : (buildDiffLines lineDiffer (fun _ _ => []) "a\nb\nc\n".toList "a\nx\nc\n".toList "f.py" []).map
      (fun line => (line.lineType, line.oldLineNumber, line.newLineNumber)) =
    [(.context, some 1, some 1), (.delete, some 2, none), (.add, none, some 2), (.context, some 3, some 3)] := by
  decide

end ArchipelagoXL.Apdiff
