import ArchipelagoXL.Apdiff.Highlight
import Mathlib.Data.List.Nodup

/-!
# Which lines are compared word by word

The viewer looks for blocks of deleted lines with added lines behind them, and in each block for the pairs of a deleted
and an added line that are most similar (`apply_word_highlighting` in `apdiff-viewer/src/diff/mod.rs`). The lines of a
pair get the word changes between them.

A line gets word changes with one other line of its block only, and each line still shows its text
(`wordHighlighting_shows`). The distance between two lines comes from another crate and is a parameter, as the edit
script between their words is.
-/

namespace ArchipelagoXL.Apdiff

open Html (TextEncoding Shows)

def maxWordDiffLineLength : ℕ := 10000

def maxLineSimilarityLength : ℕ := 1000

def lineSimilarityThreshold : Float := 0.25

def maxBlockSizeForMatching : ℕ := 200

def lengthSimilarityRatio : Float := 0.5

def windowSize : ℕ := 50

/-! ## Blocks -/

/-- The inner loops of `find_change_blocks`: the end of the run of lines of a type at `i`. -/
def endOfRun (lineType : LineType) (lines : List DiffLine) : ℕ → ℕ → ℕ
  | 0, i => i
  | fuel + 1, i => if lines[i]?.any (·.lineType = lineType) then endOfRun lineType lines fuel (i + 1) else i

/-- The loop of `find_change_blocks`; each turn moves `i`, so the number of lines is fuel enough. -/
def changeBlocksFrom (lines : List DiffLine) : ℕ → ℕ → List (List ℕ × List ℕ)
  | 0, _ => []
  | fuel + 1, i =>
    match lines[i]? with
    | none => []
    | some line =>
      if line.lineType = .delete then
        let addStart := endOfRun .delete lines lines.length i
        let stop := endOfRun .add lines lines.length addStart
        (List.range' i (addStart - i), List.range' addStart (stop - addStart)) :: changeBlocksFrom lines fuel stop
      else changeBlocksFrom lines fuel (i + 1)

/-- Rust `find_change_blocks`. -/
def findChangeBlocks (lines : List DiffLine) : List (List ℕ × List ℕ) := changeBlocksFrom lines lines.length 0

/-! ## Matches -/

/-- The text of the line at an index; an index outside would be a panic; the indices are those of
lines (`isBlock_runs`). -/
def rawContentAt (lines : List DiffLine) (i : ℕ) : List Char := (lines[i]?.map (·.rawContent)).getD []

/-- Rust `are_lengths_similar`. -/
def areLengthsSimilar (len1 len2 : ℕ) : Bool :=
  if len1 = 0 ∧ len2 = 0 then true
  else (min len1 len2).toFloat / (max len1 len2).toFloat ≥ lengthSimilarityRatio

/-- A pair of lines that may be matched: their places in the block, their indices and how similar they are. -/
structure Candidate where
  delI : ℕ
  addI : ℕ
  delIdx : ℕ
  addIdx : ℕ
  similarity : Float

section
variable (levenshtein : List Char → List Char → ℕ)

/-- Rust `calculate_line_similarity`. -/
def calculateLineSimilarity (line1 line2 : List Char) : Float :=
  if line1 = [] ∧ line2 = [] then 1.0
  else if Utf8.len line1 > maxLineSimilarityLength ∨ Utf8.len line2 > maxLineSimilarityLength then 0.0
  else
    let distance := levenshtein line1 line2
    let maxLen := (max (Utf8.len line1) (Utf8.len line2)).toFloat
    if maxLen == 0.0 then 1.0 else 1.0 - distance.toFloat / maxLen

/-- The pair of two lines, if they are similar enough. -/
def candidate (lines : List DiffLine) (delI delIdx addI addIdx : ℕ) : Option Candidate :=
  let delLine := rawContentAt lines delIdx
  let addLine := rawContentAt lines addIdx
  if areLengthsSimilar (Utf8.len delLine) (Utf8.len addLine) = false then none
  else
    let similarity := calculateLineSimilarity levenshtein delLine addLine
    if similarity < lineSimilarityThreshold then none else some ⟨delI, addI, delIdx, addIdx, similarity⟩

/-- The `candidates` of `find_windowed_matches`. -/
def windowedCandidates (lines : List DiffLine) (deleteIndices addIndices : List ℕ) : List Candidate :=
  deleteIndices.zipIdx.flatMap fun del =>
    let windowStart := del.2 - windowSize
    let windowEnd := min (del.2 + windowSize) addIndices.length
    (List.range' windowStart (windowEnd - windowStart)).filterMap fun addI =>
      addIndices[addI]?.bind (candidate levenshtein lines del.2 del.1 addI)

/-- The `candidates` of `find_best_line_matches`. -/
def allCandidates (lines : List DiffLine) (deleteIndices addIndices : List ℕ) : List Candidate :=
  deleteIndices.zipIdx.flatMap fun del =>
    addIndices.zipIdx.filterMap fun add => candidate levenshtein lines del.2 del.1 add.2 add.1

/-- The matches so far, with the lines of the block that are in one. -/
structure MatchState where
  matched : List (ℕ × ℕ)
  usedDeletes : List Bool
  usedAdds : List Bool

/-- The turn of the `fold` over the candidates. -/
def takeCandidate (state : MatchState) (c : Candidate) : MatchState :=
  if state.usedDeletes[c.delI]? = some false ∧ state.usedAdds[c.addI]? = some false ∧
      c.similarity > lineSimilarityThreshold then
    { matched := state.matched ++ [(c.delIdx, c.addIdx)]
      usedDeletes := state.usedDeletes.set c.delI true
      usedAdds := state.usedAdds.set c.addI true }
  else state

/-- The most similar candidates first, each line once. -/
def chooseMatches (deleteIndices addIndices : List ℕ) (candidates : List Candidate) : List (ℕ × ℕ) :=
  let sorted := candidates.mergeSort fun a b => !decide (a.similarity < b.similarity)
  (sorted.foldl takeCandidate
    { matched := []
      usedDeletes := List.replicate deleteIndices.length false
      usedAdds := List.replicate addIndices.length false }).matched

/-- Rust `find_windowed_matches`. -/
def findWindowedMatches (lines : List DiffLine) (deleteIndices addIndices : List ℕ) : List (ℕ × ℕ) :=
  chooseMatches deleteIndices addIndices (windowedCandidates levenshtein lines deleteIndices addIndices)

/-- Rust `find_best_line_matches`. -/
def findBestLineMatches (lines : List DiffLine) (deleteIndices addIndices : List ℕ) : List (ℕ × ℕ) :=
  if deleteIndices.length > maxBlockSizeForMatching ∨ addIndices.length > maxBlockSizeForMatching then
    findWindowedMatches levenshtein lines deleteIndices addIndices
  else chooseMatches deleteIndices addIndices (allCandidates levenshtein lines deleteIndices addIndices)

/-! ## Word changes -/

variable (differ : EditScript.Differ (List Char))

/-- The words of two lines compared. -/
def wordDiff (lines : List DiffLine) (delIdx addIdx : ℕ) : StructuredWordDiffResult :=
  highlightWordDiffStructured differ (rawContentAt lines delIdx) (rawContentAt lines addIdx) maxWordDiffLineLength

def setWordChanges (lines : List DiffLine) (i : ℕ) (changes : List WordChangeSegment) : List DiffLine :=
  lines.modify i fun line => { line with wordChanges := some changes }

/-- What `apply_word_highlighting` does for a match. -/
def highlightMatch (lines : List DiffLine) (pair : ℕ × ℕ) : List DiffLine :=
  let result := wordDiff differ lines pair.1 pair.2
  setWordChanges (setWordChanges lines pair.1 result.oldChanges) pair.2 result.newChanges

/-- Rust `apply_word_highlighting`. -/
def applyWordHighlighting (lines : List DiffLine) : List DiffLine :=
  (findChangeBlocks lines).foldl (fun lines block =>
    if block.1.isEmpty = false ∧ block.2.isEmpty = false then
      (findBestLineMatches levenshtein lines block.1 block.2).foldl (highlightMatch differ) lines
    else lines) lines

end

/-! ## What a block is -/

/-- The line at an index is of a type. -/
def IsLineAt (lines : List DiffLine) (lineType : LineType) (i : ℕ) : Prop :=
  ∃ line, lines[i]? = some line ∧ line.lineType = lineType

/-- A deleted line and an added one, with all deleted lines from the one on directly before all added lines up to the
other. -/
def SameBlock (lines : List DiffLine) (del add : ℕ) : Prop :=
  ∃ mid, del < mid ∧ mid ≤ add ∧ (∀ i, del ≤ i → i < mid → IsLineAt lines .delete i) ∧
    ∀ i, mid ≤ i → i ≤ add → IsLineAt lines .add i

lemma endOfRun_spec (lineType : LineType) (lines : List DiffLine) (fuel i : ℕ) :
    i ≤ endOfRun lineType lines fuel i ∧ ∀ k, i ≤ k → k < endOfRun lineType lines fuel i → IsLineAt lines lineType k := by
  induction fuel generalizing i with
  | zero => exact ⟨le_rfl, fun k le lt => absurd le (not_le.mpr lt)⟩
  | succ fuel ih =>
    rw [endOfRun]
    split
    case isTrue here =>
      obtain ⟨behind, all⟩ := ih (i + 1)
      refine ⟨by omega, fun k le lt => ?_⟩
      rcases Nat.eq_or_lt_of_le le with rfl | later
      · cases place : lines[i]? with
        | none =>
          rw [place] at here
          cases here
        | some line =>
          rw [place, Option.any_some] at here
          exact ⟨line, place, of_decide_eq_true here⟩
      · exact all k later lt
    case isFalse => exact ⟨le_rfl, fun k le lt => absurd le (not_le.mpr lt)⟩

/-- The indices of a block, from one index on and before another. -/
structure IsBlock (lines : List DiffLine) (lo hi : ℕ) (block : List ℕ × List ℕ) : Prop where
  deletesOnce : block.1.Nodup
  addsOnce : block.2.Nodup
  inside : ∀ i ∈ block.1 ++ block.2, lo ≤ i ∧ i < hi
  same : ∀ del ∈ block.1, ∀ add ∈ block.2, SameBlock lines del add
  deletes : ∀ i ∈ block.1, IsLineAt lines .delete i
  adds : ∀ i ∈ block.2, IsLineAt lines .add i

lemma isBlock_runs (lines : List DiffLine) (fuel i : ℕ) :
    let addStart := endOfRun .delete lines fuel i
    let stop := endOfRun .add lines fuel addStart
    IsBlock lines i stop (List.range' i (addStart - i), List.range' addStart (stop - addStart)) ∧ i ≤ stop := by
  intro addStart stop
  obtain ⟨behind, deleted⟩ := endOfRun_spec .delete lines fuel i
  obtain ⟨last, added⟩ := endOfRun_spec .add lines fuel addStart
  change i ≤ addStart at behind
  change addStart ≤ stop at last
  have inDeletes {k : ℕ} (mem : k ∈ List.range' i (addStart - i)) : i ≤ k ∧ k < addStart := by
    rw [List.mem_range'_1] at mem
    omega
  have inAdds {k : ℕ} (mem : k ∈ List.range' addStart (stop - addStart)) : addStart ≤ k ∧ k < stop := by
    rw [List.mem_range'_1] at mem
    omega
  refine ⟨⟨List.nodup_range', List.nodup_range', ?_, ?_, ?_, ?_⟩, behind.trans last⟩
  · intro k mem
    rcases List.mem_append.mp mem with mem | mem
    · have := inDeletes mem
      omega
    · have := inAdds mem
      omega
  · intro del delMem add addMem
    have delIn := inDeletes delMem
    have addIn := inAdds addMem
    exact ⟨addStart, delIn.2, addIn.1, fun k le lt => deleted k (delIn.1.trans le) lt,
      fun k le lt => added k le (lt.trans_lt addIn.2)⟩
  · exact fun k mem => deleted k (inDeletes mem).1 (inDeletes mem).2
  · exact fun k mem => added k (inAdds mem).1 (inAdds mem).2

lemma changeBlocksFrom_blocks (lines : List DiffLine) (fuel i : ℕ) :
    (∀ block ∈ changeBlocksFrom lines fuel i, ∃ hi, IsBlock lines i hi block) ∧
      (changeBlocksFrom lines fuel i).Pairwise fun block later =>
        ∀ k ∈ block.1 ++ block.2, ∀ m ∈ later.1 ++ later.2, k < m := by
  have widen {lo lo' hi : ℕ} {block : List ℕ × List ℕ} (le : lo ≤ lo') (is : IsBlock lines lo' hi block) :
      IsBlock lines lo hi block :=
    { is with inside := fun k mem => ⟨le.trans (is.inside k mem).1, (is.inside k mem).2⟩ }
  induction fuel generalizing i with
  | zero => exact ⟨fun _ mem => absurd mem List.not_mem_nil, .nil⟩
  | succ fuel ih =>
    rw [changeBlocksFrom]
    split
    case h_1 => exact ⟨fun _ mem => absurd mem List.not_mem_nil, .nil⟩
    case h_2 line here =>
      split
      case isTrue deleted =>
        obtain ⟨first, le⟩ := isBlock_runs lines lines.length i
        obtain ⟨later, ordered⟩ := ih (endOfRun .add lines lines.length (endOfRun .delete lines lines.length i))
        refine ⟨?_, ordered.cons ?_⟩
        · intro block mem
          rcases List.mem_cons.mp mem with rfl | mem
          · exact ⟨_, first⟩
          · obtain ⟨hi, is⟩ := later block mem
            exact ⟨hi, widen le is⟩
        · intro block mem k kMem m mMem
          obtain ⟨hi, is⟩ := later block mem
          exact (first.inside k kMem).2.trans_le (is.inside m mMem).1
      case isFalse =>
        obtain ⟨later, ordered⟩ := ih (i + 1)
        refine ⟨fun block mem => ?_, ordered⟩
        obtain ⟨hi, is⟩ := later block mem
        exact ⟨hi, widen (Nat.le_succ i) is⟩

/-! ## What the matches of a block are -/

/-- Pairs of the lines of a block, no line in two of them. -/
structure ArePairs (deleteIndices addIndices : List ℕ) (pairs : List (ℕ × ℕ)) : Prop where
  deletesOnce : (pairs.map Prod.fst).Nodup
  addsOnce : (pairs.map Prod.snd).Nodup
  inside : ∀ pair ∈ pairs, pair.1 ∈ deleteIndices ∧ pair.2 ∈ addIndices

/-- A candidate is at its places in a block. -/
def Candidate.Of (deleteIndices addIndices : List ℕ) (c : Candidate) : Prop :=
  deleteIndices[c.delI]? = some c.delIdx ∧ addIndices[c.addI]? = some c.addIdx

section
variable {deleteIndices addIndices : List ℕ}

/-- Each matched line is marked as used. -/
structure MatchState.Sound (deleteIndices addIndices : List ℕ) (state : MatchState) : Prop where
  pairs : ArePairs deleteIndices addIndices state.matched
  usedDeletes : ∀ i idx : ℕ, deleteIndices[i]? = some idx → idx ∈ state.matched.map Prod.fst →
    state.usedDeletes[i]? = some true
  usedAdds : ∀ i idx : ℕ, addIndices[i]? = some idx → idx ∈ state.matched.map Prod.snd → state.usedAdds[i]? = some true

/-- A mark that is set stays, and the one that is set now is there. -/
lemma used_set {indices matched : List ℕ} {used : List Bool} {i idx : ℕ} (once : indices.Nodup)
    (free : used[i]? = some false) (here : indices[i]? = some idx)
    (sound : ∀ k other : ℕ, indices[k]? = some other → other ∈ matched → used[k]? = some true) :
    ∀ k other : ℕ, indices[k]? = some other → other ∈ matched ++ [idx] → (used.set i true)[k]? = some true := by
  intro k other there mem
  have inside : i < used.length := (List.getElem?_eq_some_iff.mp free).1
  by_cases same : i = k
  · rw [← same, List.getElem?_set_self inside]
  · rw [List.getElem?_set_ne same]
    rcases List.mem_append.mp mem with mem | mem
    · exact sound k other there mem
    · rw [List.mem_singleton.mp mem] at there
      have bound := (List.getElem?_eq_some_iff.mp here).1
      exact absurd ((List.getElem?_inj bound once).mp (here.trans there.symm)) same

lemma MatchState.Sound.take {state : MatchState} {c : Candidate} (sound : state.Sound deleteIndices addIndices)
    (deletesOnce : deleteIndices.Nodup) (addsOnce : addIndices.Nodup) (of : c.Of deleteIndices addIndices) :
    (takeCandidate state c).Sound deleteIndices addIndices := by
  rw [takeCandidate]
  split
  case isFalse => exact sound
  case isTrue free =>
    obtain ⟨freeDelete, freeAdd, -⟩ := free
    -- a line that is in a match is marked, so these two are in none
    have newDelete : c.delIdx ∉ state.matched.map Prod.fst := by
      intro mem
      have used := sound.usedDeletes c.delI c.delIdx of.1 mem
      rw [freeDelete] at used
      cases used
    have newAdd : c.addIdx ∉ state.matched.map Prod.snd := by
      intro mem
      have used := sound.usedAdds c.addI c.addIdx of.2 mem
      rw [freeAdd] at used
      cases used
    refine ⟨⟨?_, ?_, ?_⟩, ?_, ?_⟩
    · rw [List.map_append]
      exact List.nodup_append_comm.mp (List.nodup_cons.mpr ⟨newDelete, sound.pairs.deletesOnce⟩)
    · rw [List.map_append]
      exact List.nodup_append_comm.mp (List.nodup_cons.mpr ⟨newAdd, sound.pairs.addsOnce⟩)
    · intro pair mem
      rcases List.mem_append.mp mem with mem | mem
      · exact sound.pairs.inside pair mem
      · rw [List.mem_singleton.mp mem]
        exact ⟨List.mem_of_getElem? of.1, List.mem_of_getElem? of.2⟩
    · rw [List.map_append]
      exact used_set deletesOnce freeDelete of.1 sound.usedDeletes
    · rw [List.map_append]
      exact used_set addsOnce freeAdd of.2 sound.usedAdds

lemma arePairs_chooseMatches {candidates : List Candidate} (deletesOnce : deleteIndices.Nodup)
    (addsOnce : addIndices.Nodup) (of : ∀ c ∈ candidates, c.Of deleteIndices addIndices) :
    ArePairs deleteIndices addIndices (chooseMatches deleteIndices addIndices candidates) := by
  have fold (candidates : List Candidate) (state : MatchState) (sound : state.Sound deleteIndices addIndices)
      (of : ∀ c ∈ candidates, c.Of deleteIndices addIndices) :
      (candidates.foldl takeCandidate state).Sound deleteIndices addIndices := by
    induction candidates generalizing state with
    | nil => exact sound
    | cons c candidates ih =>
      exact ih _ (sound.take deletesOnce addsOnce (of c List.mem_cons_self)) fun d mem => of d (List.mem_cons_of_mem c mem)
  have start : MatchState.Sound deleteIndices addIndices
      { matched := []
        usedDeletes := List.replicate deleteIndices.length false
        usedAdds := List.replicate addIndices.length false } :=
    ⟨⟨List.nodup_nil, List.nodup_nil, fun _ mem => absurd mem List.not_mem_nil⟩,
      fun _ _ _ mem => absurd mem List.not_mem_nil, fun _ _ _ mem => absurd mem List.not_mem_nil⟩
  exact (fold _ _ start fun c mem => of c (List.mem_mergeSort.mp mem)).pairs

variable (levenshtein : List Char → List Char → ℕ) (lines : List DiffLine)

variable {levenshtein lines} in
lemma candidate_of {delI delIdx addI addIdx : ℕ} {c : Candidate} (del : deleteIndices[delI]? = some delIdx)
    (add : addIndices[addI]? = some addIdx) (is : candidate levenshtein lines delI delIdx addI addIdx = some c) :
    c.Of deleteIndices addIndices := by
  simp only [candidate] at is
  split_ifs at is
  cases is
  exact ⟨del, add⟩

lemma of_windowedCandidates {c : Candidate} (mem : c ∈ windowedCandidates levenshtein lines deleteIndices addIndices) :
    c.Of deleteIndices addIndices := by
  obtain ⟨del, delMem, mem⟩ := List.mem_flatMap.mp mem
  obtain ⟨addI, -, is⟩ := List.mem_filterMap.mp mem
  obtain ⟨addIdx, add, is⟩ := Option.bind_eq_some_iff.mp is
  exact candidate_of (List.mem_zipIdx_iff_getElem?.mp delMem) add is

lemma of_allCandidates {c : Candidate} (mem : c ∈ allCandidates levenshtein lines deleteIndices addIndices) :
    c.Of deleteIndices addIndices := by
  obtain ⟨del, delMem, mem⟩ := List.mem_flatMap.mp mem
  obtain ⟨add, addMem, is⟩ := List.mem_filterMap.mp mem
  exact candidate_of (List.mem_zipIdx_iff_getElem?.mp delMem) (List.mem_zipIdx_iff_getElem?.mp addMem) is

lemma arePairs_findBestLineMatches (deletesOnce : deleteIndices.Nodup) (addsOnce : addIndices.Nodup) :
    ArePairs deleteIndices addIndices (findBestLineMatches levenshtein lines deleteIndices addIndices) := by
  rw [findBestLineMatches]
  split
  · exact arePairs_chooseMatches deletesOnce addsOnce fun _ mem => of_windowedCandidates levenshtein lines mem
  · exact arePairs_chooseMatches deletesOnce addsOnce fun _ mem => of_allCandidates levenshtein lines mem

end

/-! ## What stays of a line -/

/-- A line without its word changes. -/
def DiffLine.unmarked (line : DiffLine) : DiffLine := { line with wordChanges := none }

def wordChangesAt (lines : List DiffLine) (i : ℕ) : Option (List WordChangeSegment) := lines[i]?.bind (·.wordChanges)

lemma rawContentAt_congr {lines lines' : List DiffLine} (same : lines'.map DiffLine.unmarked = lines.map DiffLine.unmarked) :
    rawContentAt lines' = rawContentAt lines := by
  funext i
  have here := congrArg (·[i]?.map (·.rawContent)) same
  simp only [List.getElem?_map, Option.map_map] at here
  exact congrArg (·.getD []) here

lemma isLineAt_congr {lines lines' : List DiffLine} (same : lines'.map DiffLine.unmarked = lines.map DiffLine.unmarked)
    {lineType : LineType} {i : ℕ} (is : IsLineAt lines lineType i) : IsLineAt lines' lineType i := by
  obtain ⟨line, place, type⟩ := is
  have here := congrArg (·[i]?.map (·.lineType)) same
  simp only [List.getElem?_map, Option.map_map, place] at here
  obtain ⟨line', place', type'⟩ := Option.map_eq_some_iff.mp here
  exact ⟨line', place', type'.trans type⟩

section
variable (lines : List DiffLine) (i : ℕ) (changes : List WordChangeSegment)

lemma map_unmarked_setWordChanges : (setWordChanges lines i changes).map DiffLine.unmarked = lines.map DiffLine.unmarked := by
  apply List.ext_getElem?
  intro k
  rw [setWordChanges, List.getElem?_map, List.getElem?_map]
  by_cases same : i = k
  · rw [same, List.getElem?_modify_eq, Option.map_eq_map, Option.map_map]
    rfl
  · rw [List.getElem?_modify_ne _ _ same]

lemma wordChangesAt_set_self {line : DiffLine} (here : lines[i]? = some line) :
    wordChangesAt (setWordChanges lines i changes) i = some changes := by
  rw [wordChangesAt, setWordChanges, List.getElem?_modify_eq, here]
  rfl

variable {i} in
lemma wordChangesAt_set_ne {k : ℕ} (other : i ≠ k) :
    wordChangesAt (setWordChanges lines i changes) k = wordChangesAt lines k := by
  rw [wordChangesAt, setWordChanges, List.getElem?_modify_ne _ _ other, wordChangesAt]

end

section
variable (differ : EditScript.Differ (List Char)) {lines : List DiffLine} {pair : ℕ × ℕ} {pairs : List (ℕ × ℕ)}

variable (lines pair) in
lemma map_unmarked_highlightMatch :
    (highlightMatch differ lines pair).map DiffLine.unmarked = lines.map DiffLine.unmarked :=
  (map_unmarked_setWordChanges _ _ _).trans (map_unmarked_setWordChanges _ _ _)

lemma wordChangesAt_highlightMatch_ne {k : ℕ} (notDelete : pair.1 ≠ k) (notAdd : pair.2 ≠ k) :
    wordChangesAt (highlightMatch differ lines pair) k = wordChangesAt lines k :=
  (wordChangesAt_set_ne _ _ notAdd).trans (wordChangesAt_set_ne _ _ notDelete)

/-- A line is of one type. -/
lemma IsLineAt.ne {del add : ℕ} (deleted : IsLineAt lines .delete del) (added : IsLineAt lines .add add) : add ≠ del := by
  rintro rfl
  obtain ⟨line, place, type⟩ := deleted
  obtain ⟨line', place', type'⟩ := added
  cases place.symm.trans place'
  exact absurd (type.symm.trans type') (by decide)

lemma wordChangesAt_highlightMatch (deleted : IsLineAt lines .delete pair.1) (added : IsLineAt lines .add pair.2) :
    wordChangesAt (highlightMatch differ lines pair) pair.1 = some (wordDiff differ lines pair.1 pair.2).oldChanges ∧
      wordChangesAt (highlightMatch differ lines pair) pair.2 = some (wordDiff differ lines pair.1 pair.2).newChanges := by
  constructor
  · rw [highlightMatch, wordChangesAt_set_ne _ _ (IsLineAt.ne deleted added)]
    obtain ⟨line, place, -⟩ := deleted
    exact wordChangesAt_set_self _ _ _ place
  · obtain ⟨line', place', -⟩ := isLineAt_congr (map_unmarked_setWordChanges lines pair.1 _) added
    exact wordChangesAt_set_self _ _ _ place'

lemma map_unmarked_highlightMatches :
    (pairs.foldl (highlightMatch differ) lines).map DiffLine.unmarked = lines.map DiffLine.unmarked := by
  induction pairs generalizing lines with
  | nil => rfl
  | cons pair pairs ih => exact ih.trans (map_unmarked_highlightMatch differ lines pair)

lemma wordChangesAt_highlightMatches_ne {k : ℕ} (notDelete : k ∉ pairs.map Prod.fst) (notAdd : k ∉ pairs.map Prod.snd) :
    wordChangesAt (pairs.foldl (highlightMatch differ) lines) k = wordChangesAt lines k := by
  induction pairs generalizing lines with
  | nil => rfl
  | cons pair pairs ih =>
    rw [List.map_cons, List.mem_cons, not_or] at notDelete notAdd
    rw [List.foldl_cons, ih notDelete.2 notAdd.2]
    exact wordChangesAt_highlightMatch_ne differ (Ne.symm notDelete.1) (Ne.symm notAdd.1)

/-- Where no line is in two pairs, each pair gets the word changes between its lines. -/
lemma wordChangesAt_highlightMatches (deletesOnce : (pairs.map Prod.fst).Nodup) (addsOnce : (pairs.map Prod.snd).Nodup)
    (deleted : ∀ pair ∈ pairs, IsLineAt lines .delete pair.1) (added : ∀ pair ∈ pairs, IsLineAt lines .add pair.2)
    (mem : pair ∈ pairs) :
    wordChangesAt (pairs.foldl (highlightMatch differ) lines) pair.1 =
        some (wordDiff differ lines pair.1 pair.2).oldChanges ∧
      wordChangesAt (pairs.foldl (highlightMatch differ) lines) pair.2 =
        some (wordDiff differ lines pair.1 pair.2).newChanges := by
  induction pairs generalizing lines with
  | nil => cases mem
  | cons first pairs ih =>
    rw [List.map_cons, List.nodup_cons] at deletesOnce addsOnce
    have firstDeleted := deleted first List.mem_cons_self
    have firstAdded := added first List.mem_cons_self
    have later {p : ℕ × ℕ} (mem : p ∈ pairs) := List.mem_cons_of_mem first mem
    rcases List.mem_cons.mp mem with rfl | mem
    · have notAdd : pair.1 ∉ pairs.map Prod.snd := by
        intro mem
        obtain ⟨other, mem, is⟩ := List.mem_map.mp mem
        exact IsLineAt.ne firstDeleted (added other (later mem)) is
      have notDelete : pair.2 ∉ pairs.map Prod.fst := by
        intro mem
        obtain ⟨other, mem, is⟩ := List.mem_map.mp mem
        exact IsLineAt.ne (deleted other (later mem)) firstAdded is.symm
      rw [List.foldl_cons, wordChangesAt_highlightMatches_ne differ deletesOnce.1 notAdd,
        wordChangesAt_highlightMatches_ne differ notDelete addsOnce.1]
      exact wordChangesAt_highlightMatch differ firstDeleted firstAdded
    · have same := map_unmarked_highlightMatch differ lines first
      have set := ih deletesOnce.2 addsOnce.2 (fun p mem => isLineAt_congr same (deleted p (later mem)))
        (fun p mem => isLineAt_congr same (added p (later mem))) mem
      rw [wordDiff, rawContentAt_congr same] at set
      exact set

end

/-! ## All matches -/

section
variable (levenshtein : List Char → List Char → ℕ) (differ : EditScript.Differ (List Char))

lemma findBestLineMatches_congr {lines lines' : List DiffLine}
    (same : lines'.map DiffLine.unmarked = lines.map DiffLine.unmarked) (deleteIndices addIndices : List ℕ) :
    findBestLineMatches levenshtein lines' deleteIndices addIndices =
      findBestLineMatches levenshtein lines deleteIndices addIndices := by
  have pair : candidate levenshtein lines' = candidate levenshtein lines := by
    funext delI delIdx addI addIdx
    rw [candidate, rawContentAt_congr same, candidate]
  rw [findBestLineMatches, findWindowedMatches, windowedCandidates, allCandidates, pair]
  rfl

/-- The matches of a block. -/
def blockMatches (lines : List DiffLine) (block : List ℕ × List ℕ) : List (ℕ × ℕ) :=
  if block.1.isEmpty = false ∧ block.2.isEmpty = false then findBestLineMatches levenshtein lines block.1 block.2 else []

/-- The matches of all blocks. -/
def allMatches (lines : List DiffLine) : List (ℕ × ℕ) := (findChangeBlocks lines).flatMap (blockMatches levenshtein lines)

/-- The matches don't depend on the word changes, so they can be found before any is set. -/
lemma applyWordHighlighting_eq (lines : List DiffLine) :
    applyWordHighlighting levenshtein differ lines = (allMatches levenshtein lines).foldl (highlightMatch differ) lines := by
  have fold (blocks : List (List ℕ × List ℕ)) (lines' : List DiffLine)
      (same : lines'.map DiffLine.unmarked = lines.map DiffLine.unmarked) :
      blocks.foldl (fun lines block =>
          if block.1.isEmpty = false ∧ block.2.isEmpty = false then
            (findBestLineMatches levenshtein lines block.1 block.2).foldl (highlightMatch differ) lines
          else lines) lines' =
        (blocks.flatMap (blockMatches levenshtein lines)).foldl (highlightMatch differ) lines' := by
    induction blocks generalizing lines' with
    | nil => rfl
    | cons block blocks ih =>
      rw [List.foldl_cons, List.flatMap_cons, List.foldl_append, blockMatches]
      split
      · rw [findBestLineMatches_congr levenshtein same]
        exact ih _ ((map_unmarked_highlightMatches differ).trans same)
      · exact ih _ same
  exact fold _ lines rfl

lemma arePairs_blockMatches {lines : List DiffLine} {lo hi : ℕ} {block : List ℕ × List ℕ} (is : IsBlock lines lo hi block) :
    ArePairs block.1 block.2 (blockMatches levenshtein lines block) := by
  rw [blockMatches]
  split
  · exact arePairs_findBestLineMatches levenshtein lines is.deletesOnce is.addsOnce
  · exact ⟨List.nodup_nil, List.nodup_nil, fun _ mem => absurd mem List.not_mem_nil⟩

/-- Lines are matched in pairs: each line once, and with a line of its block. -/
structure ArePairsOf (lines : List DiffLine) (pairs : List (ℕ × ℕ)) : Prop where
  deletesOnce : (pairs.map Prod.fst).Nodup
  addsOnce : (pairs.map Prod.snd).Nodup
  sameBlock : ∀ pair ∈ pairs, SameBlock lines pair.1 pair.2

lemma SameBlock.isLineAt {lines : List DiffLine} {del add : ℕ} (same : SameBlock lines del add) :
    IsLineAt lines .delete del ∧ IsLineAt lines .add add := by
  obtain ⟨mid, before, behind, deleted, added⟩ := same
  exact ⟨deleted del le_rfl before, added add behind le_rfl⟩

lemma arePairsOf_allMatches (lines : List DiffLine) : ArePairsOf lines (allMatches levenshtein lines) := by
  obtain ⟨blocks, ordered⟩ := changeBlocksFrom_blocks lines lines.length 0
  have pairs {block : List ℕ × List ℕ} (mem : block ∈ findChangeBlocks lines) :
      ArePairs block.1 block.2 (blockMatches levenshtein lines block) := by
    obtain ⟨hi, is⟩ := blocks block mem
    exact arePairs_blockMatches levenshtein is
  -- the indices of different blocks are different ones
  have once (side : ℕ × ℕ → ℕ) (nodup : ∀ block ∈ findChangeBlocks lines,
        ((blockMatches levenshtein lines block).map side).Nodup)
      (inside : ∀ block ∈ findChangeBlocks lines, ∀ pair ∈ blockMatches levenshtein lines block,
        side pair ∈ block.1 ++ block.2) :
      ((allMatches levenshtein lines).map side).Nodup := by
    rw [allMatches, List.map_flatMap, List.nodup_flatMap]
    refine ⟨nodup, ordered.imp_of_mem ?_⟩
    intro block later mem laterMem before
    refine List.disjoint_left.mpr ?_
    intro i first second
    obtain ⟨pair, pairMem, rfl⟩ := List.mem_map.mp first
    obtain ⟨other, otherMem, same⟩ := List.mem_map.mp second
    have lt := before _ (inside block mem pair pairMem) _ (inside later laterMem other otherMem)
    exact absurd same (ne_of_gt lt)
  refine ⟨?_, ?_, ?_⟩
  · exact once Prod.fst (fun block mem => (pairs mem).deletesOnce) fun block mem pair pairMem =>
      List.mem_append_left _ ((pairs mem).inside pair pairMem).1
  · exact once Prod.snd (fun block mem => (pairs mem).addsOnce) fun block mem pair pairMem =>
      List.mem_append_right _ ((pairs mem).inside pair pairMem).2
  · intro pair mem
    obtain ⟨block, blockMem, mem⟩ := List.mem_flatMap.mp mem
    obtain ⟨hi, is⟩ := blocks block blockMem
    obtain ⟨deleted, added⟩ := (pairs blockMem).inside pair mem
    exact is.same pair.1 deleted pair.2 added

end

/-! ## The lines that are shown -/

/-- The word changes of a line make it up, if it has any. -/
def DiffLine.Marked (line : DiffLine) : Prop :=
  ∀ segments ∈ line.wordChanges, Tiles 0 segments ∧ (segments.map (·.text)).flatten = line.rawContent

/-- Word changes are set for pairs of lines, and make up their lines. -/
structure MarkedInPairs (differ : EditScript.Differ (List Char)) (lines shown : List DiffLine)
    (pairs : List (ℕ × ℕ)) : Prop where
  arePairs : ArePairsOf lines pairs
  set : ∀ pair ∈ pairs, wordChangesAt shown pair.1 = some (wordDiff differ lines pair.1 pair.2).oldChanges ∧
    wordChangesAt shown pair.2 = some (wordDiff differ lines pair.1 pair.2).newChanges
  kept : ∀ i, i ∉ pairs.map Prod.fst → i ∉ pairs.map Prod.snd → wordChangesAt shown i = wordChangesAt lines i
  marked : ∀ line ∈ shown, line.Marked

section
variable (levenshtein : List Char → List Char → ℕ) (differ : EditScript.Differ (List Char)) {lines : List DiffLine}

lemma map_unmarked_applyWordHighlighting :
    (applyWordHighlighting levenshtein differ lines).map DiffLine.unmarked = lines.map DiffLine.unmarked := by
  rw [applyWordHighlighting_eq]
  exact map_unmarked_highlightMatches differ

lemma markedInPairs (marked : ∀ line ∈ lines, line.Marked) :
    MarkedInPairs differ lines (applyWordHighlighting levenshtein differ lines) (allMatches levenshtein lines) := by
  have pairs := arePairsOf_allMatches levenshtein lines
  have raw {i : ℕ} {line : DiffLine} (place : (applyWordHighlighting levenshtein differ lines)[i]? = some line) :
      rawContentAt lines i = line.rawContent := by
    rw [← rawContentAt_congr (map_unmarked_applyWordHighlighting levenshtein differ), rawContentAt, place]
    rfl
  rw [applyWordHighlighting_eq] at raw ⊢
  have set {pair : ℕ × ℕ} (mem : pair ∈ allMatches levenshtein lines) :=
    wordChangesAt_highlightMatches differ pairs.deletesOnce pairs.addsOnce
      (fun p mem => (pairs.sameBlock p mem).isLineAt.1) (fun p mem => (pairs.sameBlock p mem).isLineAt.2) mem
  have kept (i : ℕ) (notDelete : i ∉ (allMatches levenshtein lines).map Prod.fst)
      (notAdd : i ∉ (allMatches levenshtein lines).map Prod.snd) :
      wordChangesAt ((allMatches levenshtein lines).foldl (highlightMatch differ) lines) i = wordChangesAt lines i :=
    wordChangesAt_highlightMatches_ne differ notDelete notAdd
  refine ⟨pairs, fun pair mem => set mem, kept, ?_⟩
  intro line mem segments is
  obtain ⟨i, place⟩ := List.mem_iff_getElem?.mp mem
  have here : wordChangesAt ((allMatches levenshtein lines).foldl (highlightMatch differ) lines) i = some segments := by
    rw [wordChangesAt, place]
    exact is
  rw [← raw place]
  by_cases delete : i ∈ (allMatches levenshtein lines).map Prod.fst
  · obtain ⟨pair, mem, rfl⟩ := List.mem_map.mp delete
    cases here.symm.trans (set mem).1
    exact (highlightWordDiff_tiles differ _ _ _).1
  · by_cases add : i ∈ (allMatches levenshtein lines).map Prod.snd
    · obtain ⟨pair, mem, rfl⟩ := List.mem_map.mp add
      cases here.symm.trans (set mem).2
      exact (highlightWordDiff_tiles differ _ _ _).2
    · obtain ⟨before, there, is⟩ := Option.bind_eq_some_iff.mp ((kept i delete add).symm.trans here)
      have same : rawContentAt lines i = before.rawContent := by
        rw [rawContentAt, there]
        rfl
      rw [same]
      exact marked before (List.mem_of_getElem? there) segments is

/-- After the words are highlighted each line shows its text, and lines are marked in pairs. -/
theorem wordHighlighting_shows (encoding : TextEncoding) (tokenized : ∀ line ∈ lines, line.Tokenized)
    (marked : ∀ line ∈ lines, line.Marked) :
    (applyWordHighlighting levenshtein differ lines).map DiffLine.unmarked = lines.map DiffLine.unmarked ∧
      (∀ line ∈ applyWordHighlighting levenshtein differ lines,
        Html.shownText encoding (line.htmlContent encoding) = line.rawContent) ∧
      ∃ pairs, MarkedInPairs differ lines (applyWordHighlighting levenshtein differ lines) pairs := by
  have inPairs := markedInPairs levenshtein differ marked
  have same : (applyWordHighlighting levenshtein differ lines).map DiffLine.unmarked = lines.map DiffLine.unmarked :=
    map_unmarked_applyWordHighlighting levenshtein differ
  refine ⟨same, fun line mem => ?_, _, inPairs⟩
  have unmarked : line.unmarked ∈ lines.map DiffLine.unmarked := by
    rw [← same]
    exact List.mem_map_of_mem mem
  obtain ⟨before, beforeMem, is⟩ := List.mem_map.mp unmarked
  have plain : line.unmarked.Tokenized := by
    rw [← is]
    exact ⟨(tokenized before beforeMem).whole, (tokenized before beforeMem).tile⟩
  have tokens : line.Tokenized := ⟨plain.whole, plain.tile⟩
  exact (htmlContent_shows tokens (inPairs.marked line mem)).shownText_eq

end

/-- A line without highlighting. -/
def plainLine (lineType : LineType) (content : List Char) : DiffLine where
  lineType := lineType
  oldLineNumber := if lineType = .add then none else some 1
  newLineNumber := if lineType = .delete then none else some 1
  annotations := []
  rawContent := content
  syntaxTokens := fallbackSyntaxTokens content
  wordChanges := none
  collapsed := false
  collapseCount := none

lemma tokenized_plainLine (lineType : LineType) (content : List Char) : (plainLine lineType content).Tokenized :=
  ⟨List.append_nil content, rfl, (Nat.zero_add _).symm, trivial⟩

/-- "a < b" becomes "a < c". -/
def changedLines : List DiffLine :=
  [plainLine .delete ['a', ' ', '<', ' ', 'b'], plainLine .add ['a', ' ', '<', ' ', 'c']]

/-- In how many places two texts of one length differ; where it is one place, this is their distance. -/
def differingPlaces (line1 line2 : List Char) : ℕ := (line1.zip line2).countP fun p => p.1 ≠ p.2

theorem changedLines_shown :
    (applyWordHighlighting differingPlaces EditScript.Differ.shortest changedLines).map DiffLine.unmarked =
        changedLines.map DiffLine.unmarked ∧
      (∀ line ∈ applyWordHighlighting differingPlaces EditScript.Differ.shortest changedLines,
        Html.shownText TextEncoding.basic (line.htmlContent TextEncoding.basic) = line.rawContent) ∧
      ∃ pairs, MarkedInPairs EditScript.Differ.shortest changedLines
        (applyWordHighlighting differingPlaces EditScript.Differ.shortest changedLines) pairs := by
  refine wordHighlighting_shows _ _ _ (fun line mem => ?_) (fun line mem => ?_)
  · rcases List.mem_pair.mp mem with rfl | rfl
    · exact tokenized_plainLine _ _
    · exact tokenized_plainLine _ _
  · rcases List.mem_pair.mp mem with rfl | rfl
    · exact fun _ is => absurd is (Option.not_mem_none _)
    · exact fun _ is => absurd is (Option.not_mem_none _)

end ArchipelagoXL.Apdiff
