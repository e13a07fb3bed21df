import ArchipelagoXL.Lib.OrdMap
import ArchipelagoXL.Lib.Paths

/-!
# The files of two versions

The diff viewer shows what changed between two trees of files (`apdiff-viewer/src/diff/compute.rs`).
Files that are in only one of the trees are paired as renames where their contents are equal or alike,
and each pair of files that differ makes one `FileDiff`.

A file that changed is on the page, with the one exception of a text with mixed line endings whose
changes are all in its line endings (`computeFileTreeDiff_shows_iff`).

The similarity of two texts and the lines of a diff come from other crates and are parameters. A path
is relative and normalized, as the archive gives it, and is compared by its components.
-/

namespace ArchipelagoXL.Apdiff

/-- Rust `PathBuf`. -/
structure PathBuf where
  text : String
deriving DecidableEq

/-- Rust `PathBuf::components`. -/
def PathBuf.components (self : PathBuf) : List (List Char) := self.text.toList.splitOn '/'

lemma PathBuf.components_injective : Function.Injective PathBuf.components := by
  rintro ⟨text⟩ ⟨text'⟩ h
  have joined : ∀ chars : List Char, List.intercalate ['/'] (chars.splitOn '/') = chars :=
    fun _ => List.intercalate_splitOn '/'
  have e : text.toList = text'.toList := by
    rw [← joined text.toList, ← joined text'.toList]
    exact congrArg _ h
  rw [String.toList_inj.mp e]

instance : LinearOrder PathBuf := LinearOrder.lift' PathBuf.components PathBuf.components_injective

/-- Rust `FileContent`. -/
inductive FileContent where
  | text (content : String)
  | binary (digest : List UInt8)
deriving DecidableEq

/-- Rust `FileTree`. -/
abbrev FileTree := BTreeMap PathBuf FileContent

/-- A path as a tree keeps it: with its components alone. -/
def PathBuf.ofPath (path : String) : PathBuf := ⟨Paths.ofComponents (Paths.components path)⟩

/-- A path with a prefix in place of its first component. -/
def PathBuf.rekey (newPrefix : String) (path : PathBuf) : PathBuf :=
  .ofPath (Paths.join newPrefix (Paths.ofComponents (Paths.components path.text).tail))

/-- Rust `rekey_tree`. -/
def rekeyTree (tree : FileTree) (newPrefix : String) : FileTree :=
  BTreeMap.collect (tree.toList.map fun file => (file.1.rekey newPrefix, file.2))

/-! ## Line endings -/

/-- Rust `LineEnding`. -/
inductive LineEnding where
  | lf
  | crlf
  | mixed
  | none
deriving DecidableEq

/-- How often a line ends in `\\r\\n`. -/
def countCrlf : List Char → ℕ
  | [] => 0
  | c :: rest => if c = '\r' ∧ rest.head? = some '\n' then countCrlf rest + 1 else countCrlf rest

/-- Rust `LineEnding::detect`. -/
def LineEnding.detect (text : String) : LineEnding :=
  let totalLf := text.toList.count '\n'
  if totalLf = 0 then .none
  else
    let crlf := countCrlf text.toList
    if crlf = 0 then .lf else if crlf = totalLf then .crlf else .mixed

/-- A text without the `\\r` that stand before a `\\n`. -/
def dropCr : List Char → List Char
  | [] => []
  | c :: rest => if c = '\r' ∧ rest.head? = some '\n' then dropCr rest else c :: dropCr rest

/-- Rust `normalize_line_endings`. -/
def normalizeLineEndings (text : String) : String := String.ofList (dropCr text.toList)

lemma countCrlf_le (l : List Char) : countCrlf l ≤ l.count '\n' := by
  suffices h : countCrlf l + (if l.head? = some '\n' then 1 else 0) ≤ l.count '\n' from
    (Nat.le_add_right _ _).trans h
  induction l with
  | nil => decide
  | cons c rest ih =>
    rw [countCrlf, List.count_cons, List.head?_cons]
    by_cases isCr : c = '\r' ∧ rest.head? = some '\n'
    · obtain ⟨rfl, next⟩ := isCr
      rw [if_pos next] at ih
      simpa [next] using ih
    · rw [if_neg isCr]
      have le : countCrlf rest ≤ rest.count '\n' := (Nat.le_add_right _ _).trans ih
      by_cases isLf : c = '\n'
      · simpa [isLf] using le
      · simpa [isLf] using le

lemma count_dropCr (l : List Char) : (dropCr l).count '\n' = l.count '\n' := by
  induction l with
  | nil => rfl
  | cons c rest ih =>
    rw [dropCr, List.count_cons]
    split
    case isTrue isCr =>
      obtain ⟨rfl, -⟩ := isCr
      simpa using ih
    case isFalse => rw [List.count_cons, ih]

/-- Without a `\\r\\n` nothing is dropped. -/
lemma dropCr_of_countCrlf {l : List Char} (h : countCrlf l = 0) : dropCr l = l := by
  induction l with
  | nil => rfl
  | cons c rest ih =>
    rw [countCrlf] at h
    rw [dropCr]
    split at h
    case isTrue => omega
    case isFalse isCr => rw [if_neg isCr, ih h]

/-- A text with a `\\r` before every `\\n`. -/
def addCr : List Char → List Char
  | [] => []
  | c :: rest => if c = '\n' then '\r' :: '\n' :: addCr rest else c :: addCr rest

/-- If every line ends in `\\r\\n`, the text can be told from what is left of it. -/
lemma addCr_dropCr : ∀ l : List Char, countCrlf l = l.count '\n' → addCr (dropCr l) = l
  | [], _ => rfl
  | c :: rest, h => by
    by_cases isCr : c = '\r' ∧ rest.head? = some '\n'
    · obtain ⟨rfl, next⟩ := isCr
      cases rest with
      | nil => cases next
      | cons d rest =>
        obtain rfl : d = '\n' := Option.some.inj next
        have all : countCrlf rest = rest.count '\n' := by simpa [countCrlf] using h
        simp [dropCr, addCr, addCr_dropCr rest all]
    · rw [countCrlf, if_neg isCr, List.count_cons] at h
      rw [dropCr, if_neg isCr, addCr]
      by_cases isLf : c = '\n'
      · have le := countCrlf_le rest
        simp only [isLf, beq_self_eq_true, if_true] at h
        omega
      · have all : countCrlf rest = rest.count '\n' := by simpa [isLf] using h
        rw [if_neg isLf, addCr_dropCr rest all]

/-- What each kind of line endings says. -/
lemma LineEnding.detect_cases (text : String) :
    (LineEnding.detect text = .none ∧ text.toList.count '\n' = 0) ∨
      (LineEnding.detect text = .lf ∧ countCrlf text.toList = 0) ∨
        (LineEnding.detect text = .crlf ∧ countCrlf text.toList = text.toList.count '\n') ∨
          (LineEnding.detect text = .mixed ∧ text.toList.count '\n' ≠ 0) := by
  simp only [LineEnding.detect]
  split_ifs with noLine onlyLf onlyCrlf
  · exact .inl ⟨rfl, noLine⟩
  · exact .inr (.inl ⟨rfl, onlyLf⟩)
  · exact .inr (.inr (.inl ⟨rfl, onlyCrlf⟩))
  · exact .inr (.inr (.inr ⟨rfl, noLine⟩))

/-- A text whose line endings are of one kind can be told from its normalization and this kind. -/
lemma eq_of_normalizeLineEndings {a b : String} (normalized : normalizeLineEndings a = normalizeLineEndings b)
    (ending : LineEnding.detect a = LineEnding.detect b ∨ LineEnding.detect a = .none ∨
      LineEnding.detect b = .none)
    (notMixed : ¬ (LineEnding.detect a = .mixed ∧ LineEnding.detect b = .mixed)) : a = b := by
  have dropped : dropCr a.toList = dropCr b.toList := String.ofList_injective normalized
  have lines : a.toList.count '\n' = b.toList.count '\n' := by
    rw [← count_dropCr a.toList, dropped, count_dropCr]
  have leA := countCrlf_le a.toList
  have leB := countCrlf_le b.toList
  have plain : countCrlf a.toList = 0 → countCrlf b.toList = 0 → a = b := by
    intro noneA noneB
    rw [dropCr_of_countCrlf noneA, dropCr_of_countCrlf noneB] at dropped
    exact String.toList_inj.mp dropped
  have full : countCrlf a.toList = a.toList.count '\n' → countCrlf b.toList = b.toList.count '\n' → a = b := by
    intro allA allB
    rw [← String.toList_inj, ← addCr_dropCr _ allA, ← addCr_dropCr _ allB, dropped]
  rcases LineEnding.detect_cases a with ⟨eA, hA⟩ | ⟨eA, hA⟩ | ⟨eA, hA⟩ | ⟨eA, hA⟩
  · exact plain (by omega) (by omega)
  · rcases LineEnding.detect_cases b with ⟨eB, hB⟩ | ⟨eB, hB⟩ | ⟨eB, hB⟩ | ⟨eB, hB⟩
    · exact plain hA (by omega)
    · exact plain hA hB
    all_goals simp [eA, eB] at ending
  · rcases LineEnding.detect_cases b with ⟨eB, hB⟩ | ⟨eB, hB⟩ | ⟨eB, hB⟩ | ⟨eB, hB⟩
    · exact full hA (by omega)
    · simp [eA, eB] at ending
    · exact full hA hB
    · simp [eA, eB] at ending
  · rcases LineEnding.detect_cases b with ⟨eB, hB⟩ | ⟨eB, hB⟩ | ⟨eB, hB⟩ | ⟨eB, hB⟩
    · omega
    · simp [eA, eB] at ending
    · simp [eA, eB] at ending
    · exact absurd ⟨eA, eB⟩ notMixed

/-! ## Diffs -/

/-- What is said about a file that changed (Rust `FileDiff`). -/
structure FileDiff (L : Type) where
  filenameBefore : String
  filenameAfter : String
  isBinary : Bool
  lines : List L
  lineEndingChange : Option (LineEnding × LineEnding)
deriving DecidableEq

/-- The similarity of two texts, and the lines of their diff with the notes on the file. -/
structure Differ (N L : Type) where
  ratio : String → String → ℚ
  lines : String → String → String → List N → List L

/-- The name of a file that is not there. -/
def devNull : String := "/dev/null"

/-- What stands in a diff as the name of a file. -/
def nameIn (file : Option FileContent) (filename : String) : String :=
  if file.isSome then filename else devNull

@[simp] lemma nameIn_some (content : FileContent) (filename : String) :
    nameIn (some content) filename = filename := rfl

@[simp] lemma nameIn_none (filename : String) : nameIn none filename = devNull := rfl

/-- Whether a file is there and binary. -/
def isBinary : Option FileContent → Bool
  | some (.binary _) => true
  | _ => false

/-- The text of a file, which is empty if there is none. -/
def textOf : Option FileContent → String
  | some (.text content) => content
  | _ => ""

/-- The line endings before and after, if both files are there and have different ones. -/
def lineEndingChange (old new : Option FileContent) : Option (LineEnding × LineEnding) :=
  let oldEnding := LineEnding.detect (textOf old)
  let newEnding := LineEnding.detect (textOf new)
  if old.isSome ∧ new.isSome ∧ oldEnding ≠ newEnding ∧ oldEnding ≠ .none ∧ newEnding ≠ .none then
    some (oldEnding, newEnding)
  else none

section

variable {N L : Type} (differ : Differ N L)

/-- Rust `diff_single_file_renamed`. -/
def diffSingleFileRenamed (oldFilename newFilename : String) (old new : Option FileContent)
    (annotations : List N) : Option (FileDiff L) :=
  if old = none ∧ new = none then none
  else
    let filenameBefore := nameIn old oldFilename
    let filenameAfter := nameIn new newFilename
    if isBinary old || isBinary new then
      if old = new ∧ filenameBefore = filenameAfter then none
      else some ⟨filenameBefore, filenameAfter, true, [], none⟩
    else
      let change := lineEndingChange old new
      let oldNormalized := normalizeLineEndings (textOf old)
      let newNormalized := normalizeLineEndings (textOf new)
      if oldNormalized = newNormalized then
        if filenameBefore = filenameAfter ∧ change = none then none
        else some ⟨filenameBefore, filenameAfter, false, [], change⟩
      else
        some ⟨filenameBefore, filenameAfter, false,
          differ.lines oldNormalized newNormalized newFilename annotations, change⟩

/-- Rust `RENAME_SIMILARITY_THRESHOLD`. -/
def renameSimilarityThreshold : ℚ := 1 / 2

/-- The first loop of Rust `detect_renames`: every deleted file with the first added one that has the
same content and is not taken. -/
def exactRenames (oldTree newTree : FileTree) (deleted added : List PathBuf) : List (PathBuf × PathBuf) :=
  deleted.foldl (fun renames oldPath =>
    match added.find? fun newPath =>
      decide (newPath ∉ renames.map Prod.snd ∧ oldTree[oldPath]? = newTree[newPath]?) with
    | some newPath => renames ++ [(oldPath, newPath)]
    | none => renames) []

/-- The texts that are alike. -/
def similarityMatches (oldTree newTree : FileTree) (remainingOld remainingNew : List PathBuf) :
    List (ℚ × PathBuf × PathBuf) :=
  remainingOld.flatMap fun oldPath => remainingNew.filterMap fun newPath =>
    match oldTree[oldPath]?, newTree[newPath]? with
    | some (FileContent.text oldText), some (FileContent.text newText) =>
      let ratio := differ.ratio oldText newText
      if renameSimilarityThreshold ≤ ratio then some (ratio, oldPath, newPath) else none
    | _, _ => none

/-- Rust `detect_renames`. -/
def detectRenames (oldTree newTree : FileTree) (deleted added : List PathBuf) : List (PathBuf × PathBuf) :=
  if deleted = [] ∨ added = [] then []
  else
    let renames := exactRenames oldTree newTree deleted added
    let remainingOld := deleted.filter fun path => decide (path ∉ renames.map Prod.fst)
    let remainingNew := added.filter fun path => decide (path ∉ renames.map Prod.snd)
    let candidates := (similarityMatches differ oldTree newTree remainingOld remainingNew).insertionSort
      fun a b => b.1 ≤ a.1
    candidates.foldl (fun renames candidate =>
      if candidate.2.1 ∈ renames.map Prod.fst ∨ candidate.2.2 ∈ renames.map Prod.snd then renames
      else renames ++ [candidate.2]) renames

/-- The paths that are compared with each other (the first part of Rust `compute_file_tree_diff`). -/
def allPairs (oldTree newTree : FileTree) : List (PathBuf × PathBuf) :=
  let common := oldTree.keys.filter fun path => newTree.contains path
  let deleted := oldTree.keys.filter fun path => !newTree.contains path
  let added := newTree.keys.filter fun path => !oldTree.contains path
  let renames := detectRenames differ oldTree newTree deleted added
  common.map (fun path => (path, path)) ++
    (deleted.filter fun path => decide (path ∉ renames.map Prod.fst)).map (fun path => (path, path)) ++
    (added.filter fun path => decide (path ∉ renames.map Prod.snd)).map (fun path => (path, path)) ++
    renames

/-- Rust `compute_file_tree_diff`; files that come after each other by the same name stand in the order of
the pairs. -/
def computeFileTreeDiff (oldTree newTree : FileTree) (annotations : BTreeMap String (List N)) :
    List (FileDiff L) :=
  let result := (allPairs differ oldTree newTree).filterMap fun paths =>
    diffSingleFileRenamed differ paths.1.text paths.2.text oldTree[paths.1]? newTree[paths.2]?
      (annotations[paths.2.text]?.getD [])
  result.insertionSort fun a b => a.filenameAfter ≤ b.filenameAfter

/-! ## Every change is on the page -/

/-- A diff that names a file where it was and where it is. -/
def FileDiff.Shows (self : FileDiff L) (filename : String) (old new : Option FileContent) : Prop :=
  (old.isSome → self.filenameBefore = filename) ∧ (new.isSome → self.filenameAfter = filename)

/-- Two different texts with mixed line endings that are the same but for the line endings. -/
def OnlyMixedEndings : Option FileContent → Option FileContent → Prop
  | some (.text a), some (.text b) =>
    a ≠ b ∧ LineEnding.detect a = .mixed ∧ LineEnding.detect b = .mixed ∧
      normalizeLineEndings a = normalizeLineEndings b
  | _, _ => False

lemma OnlyMixedEndings.ne {old new : Option FileContent} (only : OnlyMixedEndings old new) : old ≠ new := by
  rintro rfl
  rcases old with _ | ⟨text | _⟩
  case some.text => exact only.1 rfl
  all_goals exact only

/-- The new text has mixed line endings. -/
lemma OnlyMixedEndings.mixed {old : Option FileContent} {new : Option FileContent}
    (only : OnlyMixedEndings old new) : LineEnding.detect (textOf new) = .mixed := by
  rcases old with _ | ⟨a | _⟩ <;> rcases new with _ | ⟨b | _⟩
  case some.text.some.text => exact only.2.2.1
  all_goals exact only.elim

variable {differ} {oldFilename newFilename : String} {old new : Option FileContent} {annotations : List N}

/-- The names in a diff. -/
lemma diffSingleFileRenamed_names {d : FileDiff L}
    (h : diffSingleFileRenamed differ oldFilename newFilename old new annotations = some d) :
    d.filenameBefore = nameIn old oldFilename ∧ d.filenameAfter = nameIn new newFilename := by
  simp only [diffSingleFileRenamed] at h
  split_ifs at h
  all_goals
    obtain rfl := Option.some.inj h
    exact ⟨rfl, rfl⟩

/-- There is a diff for two files of different names. -/
lemma diffSingleFileRenamed_of_names (there : ¬ (old = none ∧ new = none))
    (names : nameIn old oldFilename ≠ nameIn new newFilename) :
    ∃ d, diffSingleFileRenamed differ oldFilename newFilename old new annotations = some d := by
  simp only [diffSingleFileRenamed, if_neg there, names, and_false, false_and, if_false]
  split_ifs
  all_goals exact ⟨_, rfl⟩

/-- There is no diff for a text that changed only in its mixed line endings. -/
lemma diffSingleFileRenamed_onlyMixed {filename : String} (only : OnlyMixedEndings old new) :
    diffSingleFileRenamed differ filename filename old new annotations = none := by
  rcases old with _ | ⟨a | _⟩ <;> rcases new with _ | ⟨b | _⟩
  case some.text.some.text =>
    obtain ⟨-, mixedA, mixedB, same⟩ := only
    simp [diffSingleFileRenamed, isBinary, textOf, lineEndingChange, mixedA, mixedB, same]
  all_goals exact only.elim

/-- There is a diff for every other change of a file that stays where it is. -/
lemma diffSingleFileRenamed_of_changed {filename : String} {a b : FileContent} (changed : a ≠ b)
    (other : ¬ OnlyMixedEndings (some a) (some b)) :
    ∃ d, diffSingleFileRenamed differ filename filename (some a) (some b) annotations = some d := by
  have differs : some a ≠ some b := fun e => changed (Option.some.inj e)
  simp only [diffSingleFileRenamed, differs, reduceCtorEq, false_and, if_false]
  split_ifs with binary same unchanged
  case pos => exact ⟨_, rfl⟩
  case neg => exact ⟨_, rfl⟩
  case neg => exact ⟨_, rfl⟩
  -- two texts with the same lines that have no change of line endings to be told
  obtain ⟨-, noChange⟩ := unchanged
  rcases a with a | _
  case binary => exact absurd rfl binary
  rcases b with b | _
  case binary => exact absurd rfl binary
  have ending : LineEnding.detect a = LineEnding.detect b ∨ LineEnding.detect a = .none ∨
      LineEnding.detect b = .none := by
    by_contra h
    have ⟨other, h⟩ := not_or.mp h
    have ⟨oldSome, newSome⟩ := not_or.mp h
    simp [lineEndingChange, textOf, other, oldSome, newSome] at noChange
  have texts : a ≠ b := fun e => changed (congrArg FileContent.text e)
  refine absurd (eq_of_normalizeLineEndings same ending ?_) texts
  rintro ⟨mixedA, mixedB⟩
  exact other ⟨texts, mixedA, mixedB, same⟩

/-- A loop whose turns only add entries with a property. -/
lemma mem_foldl_of_step {A C : Type} {step : List C → A → List C} {P : C → Prop} {l : List A}
    (hstep : ∀ acc, ∀ a ∈ l, ∀ c ∈ step acc a, c ∈ acc ∨ P c) :
    ∀ acc, ∀ c ∈ l.foldl step acc, c ∈ acc ∨ P c := by
  induction l with
  | nil => exact fun acc c mem => .inl mem
  | cons a l ih =>
    intro acc c mem
    rcases ih (fun acc' b hb => hstep acc' b (List.mem_cons_of_mem a hb)) (step acc a) c mem with old | new
    · exact hstep acc a List.mem_cons_self c old
    · exact .inr new

variable {oldTree newTree : FileTree} {deleted added : List PathBuf}

lemma exactRenames_sound {paths : PathBuf × PathBuf}
    (mem : paths ∈ exactRenames oldTree newTree deleted added) : paths.1 ∈ deleted ∧ paths.2 ∈ added := by
  refine (mem_foldl_of_step (P := fun paths => paths.1 ∈ deleted ∧ paths.2 ∈ added) ?_ [] paths mem).resolve_left
    List.not_mem_nil
  intro renames oldPath hold pair hpair
  split at hpair
  case h_1 newPath found =>
    rcases List.mem_append.mp hpair with old | new
    · exact .inl old
    · obtain rfl := List.mem_singleton.mp new
      exact .inr ⟨hold, List.mem_of_find?_eq_some found⟩
  case h_2 => exact .inl hpair

lemma similarityMatches_sound {candidate : ℚ × PathBuf × PathBuf}
    (mem : candidate ∈ similarityMatches differ oldTree newTree deleted added) :
    candidate.2.1 ∈ deleted ∧ candidate.2.2 ∈ added := by
  obtain ⟨oldPath, hold, mem⟩ := List.mem_flatMap.mp mem
  obtain ⟨newPath, hnew, e⟩ := List.mem_filterMap.mp mem
  split at e
  case h_1 =>
    simp only at e
    split at e
    case isTrue =>
      obtain rfl := Option.some.inj e
      exact ⟨hold, hnew⟩
    case isFalse => cases e
  case h_2 => cases e

/-- Only deleted files are renamed, and only to added ones. -/
lemma detectRenames_sound {paths : PathBuf × PathBuf}
    (mem : paths ∈ detectRenames differ oldTree newTree deleted added) :
    paths.1 ∈ deleted ∧ paths.2 ∈ added := by
  rw [detectRenames] at mem
  split at mem
  case isTrue => cases mem
  case isFalse =>
    refine (mem_foldl_of_step (P := fun paths => paths.1 ∈ deleted ∧ paths.2 ∈ added) ?_ _ paths mem).elim
      exactRenames_sound id
    intro renames candidate hcandidate pair hpair
    split at hpair
    case isTrue => exact .inl hpair
    case isFalse =>
      rcases List.mem_append.mp hpair with old | new
      · exact .inl old
      · obtain rfl := List.mem_singleton.mp new
        have ⟨hold, hnew⟩ := similarityMatches_sound ((List.mem_insertionSort _).mp hcandidate)
        exact .inr ⟨(List.mem_filter.mp hold).1, (List.mem_filter.mp hnew).1⟩

/-- The files of a tree that the other one has not, or has. -/
lemma mem_keys_filter {tree other : FileTree} {path : PathBuf} :
    (path ∈ tree.keys.filter (fun path => !other.contains path) ↔
      tree[path]?.isSome ∧ other[path]? = none) ∧
      (path ∈ tree.keys.filter (fun path => other.contains path) ↔
        tree[path]?.isSome ∧ other[path]?.isSome) := by
  simp only [List.mem_filter, Std.ExtTreeMap.mem_keys, Std.ExtTreeMap.mem_iff_isSome_getElem?,
    Std.ExtTreeMap.contains_eq_isSome_getElem?, Bool.not_eq_true', Option.isSome_eq_false_iff,
    Option.isNone_iff_eq_none, and_self]

/-- A pair is a file with itself, or a deleted file with an added one. -/
lemma of_mem_allPairs {paths : PathBuf × PathBuf} (mem : paths ∈ allPairs differ oldTree newTree) :
    paths.1 = paths.2 ∨ (oldTree[paths.1]?.isSome ∧ newTree[paths.1]? = none) ∧
      newTree[paths.2]?.isSome ∧ oldTree[paths.2]? = none := by
  simp only [allPairs] at mem
  rcases List.mem_append.mp mem with mem | renamed
  · refine .inl ?_
    simp only [List.mem_append, List.mem_map] at mem
    rcases mem with (⟨path, -, rfl⟩ | ⟨path, -, rfl⟩) | ⟨path, -, rfl⟩
    all_goals rfl
  · have ⟨hold, hnew⟩ := detectRenames_sound renamed
    exact .inr ⟨mem_keys_filter.1.mp hold, mem_keys_filter.1.mp hnew⟩

lemma common_mem_allPairs {path : PathBuf} (inOld : oldTree[path]?.isSome) (inNew : newTree[path]?.isSome) :
    (path, path) ∈ allPairs differ oldTree newTree := by
  simp only [allPairs, List.mem_append]
  exact .inl (.inl (.inl (List.mem_map.mpr ⟨path, mem_keys_filter.2.mpr ⟨inOld, inNew⟩, rfl⟩)))

lemma deleted_mem_allPairs {path : PathBuf} (inOld : oldTree[path]?.isSome) (notNew : newTree[path]? = none) :
    ∃ newPath, (path, newPath) ∈ allPairs differ oldTree newTree := by
  have deleted := mem_keys_filter.1.mpr ⟨inOld, notNew⟩
  by_cases renamed : path ∈ (detectRenames differ oldTree newTree
      (oldTree.keys.filter fun path => !newTree.contains path)
      (newTree.keys.filter fun path => !oldTree.contains path)).map Prod.fst
  · obtain ⟨⟨_, newPath⟩, mem, rfl⟩ := List.mem_map.mp renamed
    exact ⟨newPath, List.mem_append_right _ mem⟩
  · refine ⟨path, ?_⟩
    simp only [allPairs, List.mem_append]
    refine .inl (.inl (.inr (List.mem_map.mpr ⟨path, ?_, rfl⟩)))
    exact List.mem_filter.mpr ⟨deleted, decide_eq_true renamed⟩

lemma added_mem_allPairs {path : PathBuf} (notOld : oldTree[path]? = none) (inNew : newTree[path]?.isSome) :
    ∃ oldPath, (oldPath, path) ∈ allPairs differ oldTree newTree := by
  have added := mem_keys_filter.1.mpr ⟨inNew, notOld⟩
  by_cases renamed : path ∈ (detectRenames differ oldTree newTree
      (oldTree.keys.filter fun path => !newTree.contains path)
      (newTree.keys.filter fun path => !oldTree.contains path)).map Prod.snd
  · obtain ⟨⟨oldPath, _⟩, mem, rfl⟩ := List.mem_map.mp renamed
    exact ⟨oldPath, List.mem_append_right _ mem⟩
  · refine ⟨path, ?_⟩
    simp only [allPairs, List.mem_append]
    refine .inl (.inr (List.mem_map.mpr ⟨path, ?_, rfl⟩))
    exact List.mem_filter.mpr ⟨added, decide_eq_true renamed⟩

/-- The diffs are those of the pairs. -/
lemma mem_computeFileTreeDiff {notes : BTreeMap String (List N)} {d : FileDiff L} :
    d ∈ computeFileTreeDiff differ oldTree newTree notes ↔
      ∃ paths ∈ allPairs differ oldTree newTree,
        diffSingleFileRenamed differ paths.1.text paths.2.text oldTree[paths.1]? newTree[paths.2]?
          (notes[paths.2.text]?.getD []) = some d := by
  rw [computeFileTreeDiff, List.mem_insertionSort, List.mem_filterMap]

/-- The diff of a pair shows both of its files. -/
lemma shown_of_pair (notes : BTreeMap String (List N)) {paths : PathBuf × PathBuf}
    (mem : paths ∈ allPairs differ oldTree newTree)
    (there : ¬ (oldTree[paths.1]? = none ∧ newTree[paths.2]? = none))
    (names : nameIn oldTree[paths.1]? paths.1.text ≠ nameIn newTree[paths.2]? paths.2.text) :
    ∃ d ∈ computeFileTreeDiff differ oldTree newTree notes,
      d.filenameBefore = nameIn oldTree[paths.1]? paths.1.text ∧
        d.filenameAfter = nameIn newTree[paths.2]? paths.2.text := by
  obtain ⟨d, e⟩ : ∃ d, diffSingleFileRenamed differ paths.1.text paths.2.text oldTree[paths.1]?
      newTree[paths.2]? (notes[paths.2.text]?.getD []) = some d := diffSingleFileRenamed_of_names there names
  exact ⟨d, mem_computeFileTreeDiff.mpr ⟨paths, mem, e⟩, diffSingleFileRenamed_names e⟩

/-- A file that is only in the new tree is shown, also as what another one was renamed to. -/
lemma added_shown (notes : BTreeMap String (List N)) {path : PathBuf} (named : path.text ≠ devNull)
    {content : FileContent} (notOld : oldTree[path]? = none) (inNew : newTree[path]? = some content) :
    ∃ d ∈ computeFileTreeDiff differ oldTree newTree notes, d.filenameAfter = path.text := by
  obtain ⟨oldPath, mem⟩ : ∃ oldPath, (oldPath, path) ∈ allPairs differ oldTree newTree :=
    added_mem_allPairs notOld (by rw [inNew]; rfl)
  have names : nameIn oldTree[oldPath]? oldPath.text ≠ nameIn newTree[path]? path.text := by
    rw [inNew, nameIn_some]
    rcases of_mem_allPairs mem with same | ⟨⟨there, gone⟩, -⟩
    · obtain rfl : oldPath = path := same
      rw [notOld]
      exact named.symm
    · obtain ⟨before, e⟩ := Option.isSome_iff_exists.mp there
      rw [e, nameIn_some]
      intro same
      obtain rfl : oldPath = path := congrArg PathBuf.mk same
      cases gone.symm.trans inNew
  obtain ⟨d, hd, -, after⟩ := shown_of_pair notes mem (fun h => by cases h.2.symm.trans inNew) names
  exact ⟨d, hd, by rw [after, inNew, nameIn_some]⟩

/-- A file that is only in the old tree is shown, also as what was renamed to another one. -/
lemma deleted_shown (notes : BTreeMap String (List N)) {path : PathBuf} (named : path.text ≠ devNull)
    {content : FileContent} (inOld : oldTree[path]? = some content) (notNew : newTree[path]? = none) :
    ∃ d ∈ computeFileTreeDiff differ oldTree newTree notes, d.filenameBefore = path.text := by
  obtain ⟨newPath, mem⟩ : ∃ newPath, (path, newPath) ∈ allPairs differ oldTree newTree :=
    deleted_mem_allPairs (by rw [inOld]; rfl) notNew
  have names : nameIn oldTree[path]? path.text ≠ nameIn newTree[newPath]? newPath.text := by
    rw [inOld, nameIn_some]
    rcases of_mem_allPairs mem with same | ⟨-, there, notOld⟩
    · obtain rfl : path = newPath := same
      rw [notNew]
      exact named
    · obtain ⟨after, e⟩ := Option.isSome_iff_exists.mp there
      rw [e, nameIn_some]
      intro same
      obtain rfl : path = newPath := congrArg PathBuf.mk same
      cases notOld.symm.trans inOld
  obtain ⟨d, hd, before, -⟩ := shown_of_pair notes mem (fun h => by cases h.1.symm.trans inOld) names
  exact ⟨d, hd, by rw [before, inOld, nameIn_some]⟩

/-- A file that is named in a diff is the one that was compared. -/
lemma eq_of_nameIn {file : Option FileContent} {path path' : PathBuf} (named : path'.text ≠ devNull)
    (h : nameIn file path.text = path'.text) : path = path' := by
  cases file with
  | none => exact absurd h.symm named
  | some content => exact congrArg PathBuf.mk h

/-- A file that changed is shown, except where only the mixed line endings of a text changed. The name that
stands for no file is not the name of one. -/
theorem computeFileTreeDiff_shows_iff (notes : BTreeMap String (List N)) {path : PathBuf}
    (named : path.text ≠ devNull) (changed : oldTree[path]? ≠ newTree[path]?) :
    (∃ d ∈ computeFileTreeDiff differ oldTree newTree notes,
      d.Shows path.text oldTree[path]? newTree[path]?) ↔
        ¬ OnlyMixedEndings oldTree[path]? newTree[path]? := by
  rcases inOld : oldTree[path]? with _ | a <;> rcases inNew : newTree[path]? with _ | b
  case none.none => exact absurd (inOld.trans inNew.symm) changed
  case none.some =>
    refine iff_of_true ?_ id
    obtain ⟨d, hd, after⟩ := added_shown notes named inOld inNew
    exact ⟨d, hd, fun h => (by cases h), fun _ => after⟩
  case some.none =>
    refine iff_of_true ?_ (by cases a <;> exact id)
    obtain ⟨d, hd, before⟩ := deleted_shown notes named inOld inNew
    exact ⟨d, hd, fun _ => before, fun h => (by cases h)⟩
  case some.some =>
    constructor
    · rintro ⟨d, hd, before, after⟩ only
      obtain ⟨⟨oldPath, newPath⟩, -, e⟩ := mem_computeFileTreeDiff.mp hd
      have ⟨nameBefore, nameAfter⟩ := diffSingleFileRenamed_names e
      have sameOld : oldPath = path := eq_of_nameIn named (nameBefore.symm.trans (before rfl))
      have sameNew : newPath = path := eq_of_nameIn named (nameAfter.symm.trans (after rfl))
      subst sameOld sameNew
      rw [inOld, inNew, diffSingleFileRenamed_onlyMixed only] at e
      cases e
    · intro other
      have differs : a ≠ b := fun e => changed (by rw [inOld, inNew, e])
      obtain ⟨d, e⟩ : ∃ d, diffSingleFileRenamed differ path.text path.text (some a) (some b)
          (notes[path.text]?.getD []) = some d := diffSingleFileRenamed_of_changed differs other
      have ⟨before, after⟩ := diffSingleFileRenamed_names e
      refine ⟨d, mem_computeFileTreeDiff.mpr ⟨(path, path), ?_, ?_⟩, fun _ => before, fun _ => after⟩
      · exact common_mem_allPairs (by rw [inOld]; rfl) (by rw [inNew]; rfl)
      · rw [inOld, inNew, e]

end

end ArchipelagoXL.Apdiff
