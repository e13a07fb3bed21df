import ArchipelagoXL.Apdiff.FileTree

/-!
# What a diff of two trees mentions

Every path that differs between two trees of files is to be in exactly one `FileDiff` of
`compute_file_tree_diff`, under its name before if it was there and under its name after if it is there,
and no other path in any. A file that is not there has the name `/dev/null`, which thus mentions nothing.

The pairs that are compared have each path once, since a rename takes a deleted and an added path that no
other one has (`renamesBetween_pairing`). What is left is whether the diff of a pair is dropped, so all
changes are mentioned but for those of mixed line endings (`computeFileTreeDiff_mentions_iff`).
-/

namespace ArchipelagoXL.Apdiff

/-! ## Lists with one entry of a kind -/

/-- If one entry alone makes a value of a kind, this value is the only one of the kind. -/
lemma filter_filterMap_eq_singleton {A B : Type} (f : A → Option B) (p : B → Bool) {a : A} {b : B}
    (made : f a = some b) (kind : p b = true) {l : List A} (nodup : l.Nodup) (mem : a ∈ l)
    (only : ∀ a' ∈ l, ∀ b', f a' = some b' → p b' = true → a' = a) : (l.filterMap f).filter p = [b] := by
  have others : ∀ l : List A, a ∉ l → (∀ a' ∈ l, ∀ b', f a' = some b' → p b' = true → a' = a) →
      (l.filterMap f).filter p = [] := by
    intro l notMem only
    apply List.filter_eq_nil_iff.mpr
    intro b' hb' kind'
    obtain ⟨a', ha', made'⟩ := List.mem_filterMap.mp hb'
    obtain rfl := only a' ha' b' made' kind'
    exact notMem ha'
  induction l with
  | nil => cases mem
  | cons head l ih =>
    obtain ⟨notMem, nodup⟩ := List.nodup_cons.mp nodup
    have onlyRest : ∀ a' ∈ l, ∀ b', f a' = some b' → p b' = true → a' = a :=
      fun a' ha' => only a' (List.mem_cons_of_mem head ha')
    rcases List.mem_cons.mp mem with rfl | mem
    · rw [List.filterMap_cons_some made, List.filter_cons_of_pos kind, others l notMem onlyRest]
    · rcases makes : f head with _ | b'
      · rw [List.filterMap_cons_none makes, ih nodup mem onlyRest]
      · have other : ¬ p b' = true := by
          intro kind'
          obtain rfl := only head List.mem_cons_self b' makes kind'
          exact notMem mem
        rw [List.filterMap_cons_some makes, List.filter_cons_of_neg other, ih nodup mem onlyRest]

/-! ## Renames are one to one -/

/-- Each path is in at most one pair on either side. -/
structure Pairing (renames : List (PathBuf × PathBuf)) : Prop where
  fst : (renames.map Prod.fst).Nodup
  snd : (renames.map Prod.snd).Nodup

lemma Pairing.nil : Pairing [] := ⟨List.nodup_nil, List.nodup_nil⟩

/-- A pair of paths that are in no other one. -/
lemma Pairing.append {renames : List (PathBuf × PathBuf)} (pairing : Pairing renames)
    {paths : PathBuf × PathBuf} (newFst : paths.1 ∉ renames.map Prod.fst)
    (newSnd : paths.2 ∉ renames.map Prod.snd) : Pairing (renames ++ [paths]) := by
  constructor
  · rw [List.map_append]
    apply pairing.fst.append (List.nodup_singleton _)
    exact List.disjoint_singleton.mpr newFst
  · rw [List.map_append]
    apply pairing.snd.append (List.nodup_singleton _)
    exact List.disjoint_singleton.mpr newSnd

lemma Pairing.eq_of_fst {renames : List (PathBuf × PathBuf)} (pairing : Pairing renames)
    {p q : PathBuf × PathBuf} (hp : p ∈ renames) (hq : q ∈ renames) (same : p.1 = q.1) : p = q :=
  List.inj_on_of_nodup_map pairing.fst hp hq same

lemma Pairing.eq_of_snd {renames : List (PathBuf × PathBuf)} (pairing : Pairing renames)
    {p q : PathBuf × PathBuf} (hp : p ∈ renames) (hq : q ∈ renames) (same : p.2 = q.2) : p = q :=
  List.inj_on_of_nodup_map pairing.snd hp hq same

section

variable {N L : Type} {differ : Differ N L} {oldTree newTree : FileTree} {deleted added : List PathBuf}

/-- A loop whose turn gives a path at most one other that is not taken, and turns to each path once. -/
lemma Pairing.foldl {step : List (PathBuf × PathBuf) → PathBuf → List (PathBuf × PathBuf)}
    (turn : ∀ renames oldPath, step renames oldPath = renames ∨
      ∃ newPath ∉ renames.map Prod.snd, step renames oldPath = renames ++ [(oldPath, newPath)])
    (nodup : deleted.Nodup) : ∀ renames, Pairing renames → (∀ path ∈ deleted, path ∉ renames.map Prod.fst) →
      Pairing (deleted.foldl step renames) := by
  induction deleted with
  | nil => exact fun renames pairing _ => pairing
  | cons oldPath deleted ih =>
    intro renames pairing fresh
    obtain ⟨notMem, nodup⟩ := List.nodup_cons.mp nodup
    have freshOld : oldPath ∉ renames.map Prod.fst := fresh oldPath List.mem_cons_self
    have freshRest : ∀ path ∈ deleted, path ∉ renames.map Prod.fst :=
      fun path hpath => fresh path (List.mem_cons_of_mem oldPath hpath)
    rw [List.foldl_cons]
    rcases turn renames oldPath with kept | ⟨newPath, notTaken, paired⟩
    · rw [kept]
      exact ih nodup renames pairing freshRest
    · rw [paired]
      apply ih nodup _ (pairing.append freshOld notTaken)
      intro path hpath taken
      rw [List.map_append, List.mem_append] at taken
      rcases taken with taken | this
      · exact freshRest path hpath taken
      · obtain rfl : path = oldPath := List.mem_singleton.mp this
        exact notMem hpath

lemma exactRenames_pairing (nodup : deleted.Nodup) : Pairing (exactRenames oldTree newTree deleted added) := by
  rw [exactRenames]
  refine Pairing.foldl ?_ nodup [] Pairing.nil fun _ _ => List.not_mem_nil
  intro renames oldPath
  split
  case h_1 newPath found =>
    have free := List.find?_some found
    obtain ⟨notTaken, -⟩ := of_decide_eq_true free
    exact .inr ⟨newPath, notTaken, rfl⟩
  case h_2 => exact .inl rfl

/-- The renames pair each deleted path with at most one added path and conversely. -/
lemma detectRenames_pairing (nodup : deleted.Nodup) :
    Pairing (detectRenames differ oldTree newTree deleted added) := by
  rw [detectRenames]
  split
  case isTrue => exact Pairing.nil
  case isFalse =>
    apply List.foldlRecOn (motive := Pairing) _ _ (exactRenames_pairing nodup)
    intro renames pairing candidate _
    split
    case isTrue => exact pairing
    case isFalse free =>
      obtain ⟨freeFst, freeSnd⟩ := not_or.mp free
      exact pairing.append freeFst freeSnd

/-! ## Each path is compared once -/

/-- The renames of Rust `compute_file_tree_diff`. -/
def renamesBetween (differ : Differ N L) (oldTree newTree : FileTree) : List (PathBuf × PathBuf) :=
  detectRenames differ oldTree newTree (oldTree.keys.filter fun path => !newTree.contains path)
    (newTree.keys.filter fun path => !oldTree.contains path)

lemma renamesBetween_pairing : Pairing (renamesBetween differ oldTree newTree) :=
  detectRenames_pairing (Std.ExtTreeMap.nodup_keys.filter _)

/-- A deleted path is renamed to an added one. -/
lemma renamesBetween_sound {paths : PathBuf × PathBuf} (mem : paths ∈ renamesBetween differ oldTree newTree) :
    (oldTree[paths.1]?.isSome ∧ newTree[paths.1]? = none) ∧
      newTree[paths.2]?.isSome ∧ oldTree[paths.2]? = none := by
  obtain ⟨hold, hnew⟩ := detectRenames_sound mem
  exact ⟨mem_keys_filter.1.mp hold, mem_keys_filter.1.mp hnew⟩

/-- The pairs of a path with itself. -/
lemma mem_map_twice {l : List PathBuf} {paths : PathBuf × PathBuf} :
    paths ∈ l.map (fun path => (path, path)) ↔ paths.1 = paths.2 ∧ paths.1 ∈ l := by
  rw [List.mem_map]
  constructor
  · rintro ⟨path, mem, rfl⟩
    exact ⟨rfl, mem⟩
  · rintro ⟨same, mem⟩
    exact ⟨paths.1, mem, Prod.ext rfl same⟩

/-- The four kinds of pairs. -/
lemma mem_allPairs {paths : PathBuf × PathBuf} :
    paths ∈ allPairs differ oldTree newTree ↔
      (((paths.1 = paths.2 ∧ oldTree[paths.1]?.isSome ∧ newTree[paths.1]?.isSome) ∨
        (paths.1 = paths.2 ∧ (oldTree[paths.1]?.isSome ∧ newTree[paths.1]? = none) ∧
          paths.1 ∉ (renamesBetween differ oldTree newTree).map Prod.fst)) ∨
        (paths.1 = paths.2 ∧ (newTree[paths.1]?.isSome ∧ oldTree[paths.1]? = none) ∧
          paths.1 ∉ (renamesBetween differ oldTree newTree).map Prod.snd)) ∨
        paths ∈ renamesBetween differ oldTree newTree := by
  rw [allPairs, List.mem_append, List.mem_append, List.mem_append]
  refine or_congr (or_congr (or_congr ?_ ?_) ?_) Iff.rfl
  · rw [mem_map_twice, mem_keys_filter.2]
  · rw [mem_map_twice, List.mem_filter, decide_eq_true_iff, mem_keys_filter.1]
    rfl
  · rw [mem_map_twice, List.mem_filter, decide_eq_true_iff, mem_keys_filter.1]
    rfl

/-- No pair is compared twice. -/
lemma allPairs_nodup : (allPairs differ oldTree newTree).Nodup := by
  have twice : ∀ l : List PathBuf, l.Nodup → (l.map fun path => (path, path)).Nodup := by
    intro l nodup
    exact nodup.map fun _ _ e => (Prod.mk.inj e).1
  have oldKeys : oldTree.keys.Nodup := Std.ExtTreeMap.nodup_keys
  have newKeys : newTree.keys.Nodup := Std.ExtTreeMap.nodup_keys
  have renames : (renamesBetween differ oldTree newTree).Nodup := renamesBetween_pairing.fst.of_map
  rw [allPairs]
  refine List.Nodup.append (List.Nodup.append (List.Nodup.append (twice _ ?_) (twice _ ?_) ?_)
    (twice _ ?_) ?_) renames ?_
  · exact oldKeys.filter _
  · exact (oldKeys.filter _).filter _
  · intro paths common deleted
    have inNew := (mem_keys_filter.2.mp (mem_map_twice.mp common).2).2
    have notNew := (mem_keys_filter.1.mp (List.mem_of_mem_filter (mem_map_twice.mp deleted).2)).2
    rw [notNew] at inNew
    cases inNew
  · exact (newKeys.filter _).filter _
  · intro paths there added
    have notOld := (mem_keys_filter.1.mp (List.mem_of_mem_filter (mem_map_twice.mp added).2)).2
    have inOld : oldTree[paths.1]?.isSome := by
      rcases List.mem_append.mp there with common | deleted
      · exact (mem_keys_filter.2.mp (mem_map_twice.mp common).2).1
      · exact (mem_keys_filter.1.mp (List.mem_of_mem_filter (mem_map_twice.mp deleted).2)).1
    rw [notOld] at inOld
    cases inOld
  · intro paths stays renamed
    have same : paths.1 = paths.2 := by
      rcases List.mem_append.mp stays with stays | added
      · rcases List.mem_append.mp stays with common | deleted
        · exact (mem_map_twice.mp common).1
        · exact (mem_map_twice.mp deleted).1
      · exact (mem_map_twice.mp added).1
    obtain ⟨⟨-, notNew⟩, inNew, -⟩ := renamesBetween_sound renamed
    rw [← same, notNew] at inNew
    cases inNew

/-- A pair that has the path of a file. -/
def Names (oldTree newTree : FileTree) (path : PathBuf) (paths : PathBuf × PathBuf) : Prop :=
  (paths.1 = path ∧ oldTree[path]?.isSome) ∨ (paths.2 = path ∧ newTree[path]?.isSome)

variable {path : PathBuf} {p q : PathBuf × PathBuf}

/-- A file that is in both trees is compared with itself. -/
lemma Names.of_common (names : Names oldTree newTree path p) (mem : p ∈ allPairs differ oldTree newTree)
    (inOld : oldTree[path]?.isSome) (inNew : newTree[path]?.isSome) : p = (path, path) := by
  have same : p.1 = p.2 := by
    apply (of_mem_allPairs mem).resolve_right
    rintro ⟨⟨-, notNew⟩, -, notOld⟩
    rcases names with ⟨rfl, -⟩ | ⟨rfl, -⟩
    · rw [notNew] at inNew
      cases inNew
    · rw [notOld] at inOld
      cases inOld
  rcases names with ⟨rfl, -⟩ | ⟨rfl, -⟩
  · exact Prod.ext rfl same.symm
  · exact Prod.ext same rfl

/-- A file that is only in the old tree is compared with itself or renamed. -/
lemma Names.of_deleted (names : Names oldTree newTree path p) (mem : p ∈ allPairs differ oldTree newTree)
    (notNew : newTree[path]? = none) :
    p.1 = path ∧ ((p.2 = path ∧ path ∉ (renamesBetween differ oldTree newTree).map Prod.fst) ∨
      p ∈ renamesBetween differ oldTree newTree) := by
  have first : p.1 = path ∧ oldTree[path]?.isSome := by
    apply names.resolve_right
    rintro ⟨-, inNew⟩
    rw [notNew] at inNew
    cases inNew
  obtain ⟨rfl, inOld⟩ := first
  refine ⟨rfl, ?_⟩
  rcases mem_allPairs.mp mem with ((⟨-, -, inNew⟩ | ⟨same, -, kept⟩) | ⟨-, ⟨inNew, -⟩, -⟩) | renamed
  · rw [notNew] at inNew
    cases inNew
  · exact .inl ⟨same.symm, kept⟩
  · rw [notNew] at inNew
    cases inNew
  · exact .inr renamed

/-- A file that is only in the new tree is compared with itself or renamed. -/
lemma Names.of_added (names : Names oldTree newTree path p) (mem : p ∈ allPairs differ oldTree newTree)
    (notOld : oldTree[path]? = none) :
    p.2 = path ∧ ((p.1 = path ∧ path ∉ (renamesBetween differ oldTree newTree).map Prod.snd) ∨
      p ∈ renamesBetween differ oldTree newTree) := by
  have second : p.2 = path ∧ newTree[path]?.isSome := by
    apply names.resolve_left
    rintro ⟨-, inOld⟩
    rw [notOld] at inOld
    cases inOld
  obtain ⟨rfl, inNew⟩ := second
  refine ⟨rfl, ?_⟩
  rcases mem_allPairs.mp mem with ((⟨same, inOld, -⟩ | ⟨same, ⟨inOld, -⟩, -⟩) | ⟨same, -, kept⟩) | renamed
  · rw [same, notOld] at inOld
    cases inOld
  · rw [same, notOld] at inOld
    cases inOld
  · exact .inl ⟨same, same ▸ kept⟩
  · exact .inr renamed

/-- No file is in two pairs. -/
lemma Names.unique (hp : Names oldTree newTree path p) (hq : Names oldTree newTree path q)
    (memP : p ∈ allPairs differ oldTree newTree) (memQ : q ∈ allPairs differ oldTree newTree) : p = q := by
  rcases inOld : oldTree[path]? with _ | a
  case none =>
    obtain ⟨secondP, atP⟩ := hp.of_added memP inOld
    obtain ⟨secondQ, atQ⟩ := hq.of_added memQ inOld
    rcases atP with ⟨firstP, keptP⟩ | renamedP <;> rcases atQ with ⟨firstQ, keptQ⟩ | renamedQ
    · exact Prod.ext (firstP.trans firstQ.symm) (secondP.trans secondQ.symm)
    · exact absurd (List.mem_map.mpr ⟨q, renamedQ, secondQ⟩) keptP
    · exact absurd (List.mem_map.mpr ⟨p, renamedP, secondP⟩) keptQ
    · exact renamesBetween_pairing.eq_of_snd renamedP renamedQ (secondP.trans secondQ.symm)
  case some =>
    rcases inNew : newTree[path]? with _ | b
    case none =>
      obtain ⟨firstP, atP⟩ := hp.of_deleted memP inNew
      obtain ⟨firstQ, atQ⟩ := hq.of_deleted memQ inNew
      rcases atP with ⟨secondP, keptP⟩ | renamedP <;> rcases atQ with ⟨secondQ, keptQ⟩ | renamedQ
      · exact Prod.ext (firstP.trans firstQ.symm) (secondP.trans secondQ.symm)
      · exact absurd (List.mem_map.mpr ⟨q, renamedQ, firstQ⟩) keptP
      · exact absurd (List.mem_map.mpr ⟨p, renamedP, firstP⟩) keptQ
      · exact renamesBetween_pairing.eq_of_fst renamedP renamedQ (firstP.trans firstQ.symm)
    case some =>
      have there : oldTree[path]?.isSome := by rw [inOld]; rfl
      have stays : newTree[path]?.isSome := by rw [inNew]; rfl
      exact (hp.of_common memP there stays).trans (hq.of_common memQ there stays).symm

/-! ## Mentions -/

/-- The path that a name stands for. -/
def pathIn (name : String) : Option PathBuf := if name = devNull then none else some ⟨name⟩

/-- The path of the file before. -/
def FileDiff.before (self : FileDiff L) : Option PathBuf := pathIn self.filenameBefore

/-- The path of the file after. -/
def FileDiff.after (self : FileDiff L) : Option PathBuf := pathIn self.filenameAfter

/-- Whether a path is that of the file before or after. -/
def FileDiff.mentions (self : FileDiff L) (path : PathBuf) : Bool :=
  decide (self.before = some path ∨ self.after = some path)

/-- Each path that differs is mentioned in one diff, under its name in each tree that it is in, and no other
path is; and renames pair a deleted path with one added path. -/
structure MentionsChanges (differ : Differ N L) (oldTree newTree : FileTree)
    (notes : BTreeMap String (List N)) : Prop where
  changed : ∀ path, oldTree[path]? ≠ newTree[path]? →
    ∃ d, (computeFileTreeDiff differ oldTree newTree notes).filter (·.mentions path) = [d] ∧
      (d.before = some path ↔ oldTree[path]?.isSome) ∧ (d.after = some path ↔ newTree[path]?.isSome)
  unchanged : ∀ path, oldTree[path]? = newTree[path]? →
    ∀ d ∈ computeFileTreeDiff differ oldTree newTree notes, d.mentions path = false
  renames : Pairing (renamesBetween differ oldTree newTree)
  renamed : ∀ paths ∈ renamesBetween differ oldTree newTree,
    (oldTree[paths.1]?.isSome ∧ newTree[paths.1]? = none) ∧
      newTree[paths.2]?.isSome ∧ oldTree[paths.2]? = none

lemma pathIn_eq_some {name : String} : pathIn name = some path ↔ name = path.text ∧ path.text ≠ devNull := by
  rw [pathIn]
  split
  case isTrue absent =>
    refine iff_of_false (fun e => by cases e) ?_
    rintro ⟨rfl, named⟩
    exact named absent
  case isFalse named =>
    constructor
    · intro e
      obtain rfl := Option.some.inj e
      exact ⟨rfl, named⟩
    · rintro ⟨rfl, -⟩
      rfl

/-- The name in a diff stands for the path of the file that is there. -/
lemma pathIn_nameIn {file : Option FileContent} {path' : PathBuf} :
    pathIn (nameIn file path'.text) = some path ↔ (path' = path ∧ file.isSome) ∧ path.text ≠ devNull := by
  rw [pathIn_eq_some]
  refine and_congr_left fun named => ?_
  cases file with
  | none => exact iff_of_false (fun e => named e.symm) fun h => (by cases h.2)
  | some content => exact ⟨fun e => ⟨congrArg PathBuf.mk e, rfl⟩, fun h => congrArg PathBuf.text h.1⟩

variable {annotations : List N} {notes : BTreeMap String (List N)} {d : FileDiff L}

variable (path) in
/-- The paths in the diff of a pair. -/
lemma FileDiff.paths_iff (made : diffSingleFileRenamed differ p.1.text p.2.text oldTree[p.1]? newTree[p.2]?
      annotations = some d) :
    (d.before = some path ↔ (p.1 = path ∧ oldTree[path]?.isSome) ∧ path.text ≠ devNull) ∧
      (d.after = some path ↔ (p.2 = path ∧ newTree[path]?.isSome) ∧ path.text ≠ devNull) := by
  obtain ⟨before, after⟩ := diffSingleFileRenamed_names made
  rw [FileDiff.before, FileDiff.after, before, after, pathIn_nameIn, pathIn_nameIn]
  constructor
  · refine and_congr_left fun _ => and_congr_right ?_
    rintro rfl
    rfl
  · refine and_congr_left fun _ => and_congr_right ?_
    rintro rfl
    rfl

lemma FileDiff.mentions_iff (made : diffSingleFileRenamed differ p.1.text p.2.text oldTree[p.1]?
      newTree[p.2]? annotations = some d) :
    d.mentions path = true ↔ Names oldTree newTree path p ∧ path.text ≠ devNull := by
  obtain ⟨before, after⟩ := FileDiff.paths_iff path made
  rw [FileDiff.mentions, decide_eq_true_iff, before, after, Names, or_and_right]

/-- There is no diff for a file that is the same. -/
lemma diffSingleFileRenamed_same {filename : String} {content : FileContent} :
    diffSingleFileRenamed differ filename filename (some content) (some content) annotations = none := by
  cases content with
  | text content => simp [diffSingleFileRenamed, isBinary, lineEndingChange]
  | binary digest => simp [diffSingleFileRenamed, isBinary]

/-- A file that is in a diff is in no other one. -/
lemma mentioned_once (mem : p ∈ allPairs differ oldTree newTree)
    (made : diffSingleFileRenamed differ p.1.text p.2.text oldTree[p.1]? newTree[p.2]?
      (notes[p.2.text]?.getD []) = some d) (names : Names oldTree newTree path p)
    (named : path.text ≠ devNull) :
    (computeFileTreeDiff differ oldTree newTree notes).filter (·.mentions path) = [d] := by
  rw [computeFileTreeDiff]
  apply List.perm_singleton.mp
  refine ((List.perm_insertionSort _ _).filter _).trans (List.Perm.of_eq ?_)
  have mentions : d.mentions path = true := (FileDiff.mentions_iff made).mpr ⟨names, named⟩
  refine filter_filterMap_eq_singleton (fun paths : PathBuf × PathBuf => diffSingleFileRenamed differ
    paths.1.text paths.2.text oldTree[paths.1]? newTree[paths.2]? (notes[paths.2.text]?.getD []))
    (·.mentions path) made mentions allPairs_nodup mem ?_
  intro q hq d' made' mentions'
  have names' : Names oldTree newTree path q := ((FileDiff.mentions_iff made').mp mentions').1
  exact names'.unique names hq mem

/-- A diff of a file that was there and is there is that of the file with itself. -/
lemma FileDiff.of_common (inOld : oldTree[path]?.isSome) (inNew : newTree[path]?.isSome)
    (hd : d ∈ computeFileTreeDiff differ oldTree newTree notes) (mentions : d.mentions path = true) :
    diffSingleFileRenamed differ path.text path.text oldTree[path]? newTree[path]?
      (notes[path.text]?.getD []) = some d := by
  obtain ⟨p, mem, made⟩ := mem_computeFileTreeDiff.mp hd
  have names := ((FileDiff.mentions_iff made).mp mentions).1
  obtain rfl := names.of_common mem inOld inNew
  exact made

/-- A diff that shows a file that is in one of the trees mentions it. -/
lemma FileDiff.Shows.mentions (named : path.text ≠ devNull) (there : oldTree[path]? ≠ newTree[path]?)
    (shows : d.Shows path.text oldTree[path]? newTree[path]?) : d.mentions path = true := by
  obtain ⟨before, after⟩ := shows
  rw [FileDiff.mentions, decide_eq_true_iff, FileDiff.before, FileDiff.after, pathIn_eq_some, pathIn_eq_some]
  rcases inOld : oldTree[path]? with _ | a
  case some => exact .inl ⟨before (by rw [inOld]; rfl), named⟩
  case none =>
    rcases inNew : newTree[path]? with _ | b
    case some => exact .inr ⟨after (by rw [inNew]; rfl), named⟩
    case none => exact absurd (inOld.trans inNew.symm) there

/-- A file that is the same in both trees is in no diff. -/
lemma unchanged_not_mentioned (same : oldTree[path]? = newTree[path]?)
    (hd : d ∈ computeFileTreeDiff differ oldTree newTree notes) : d.mentions path = false := by
  apply Bool.eq_false_iff.mpr
  intro mentions
  obtain ⟨p, mem, made⟩ := mem_computeFileTreeDiff.mp hd
  have names := ((FileDiff.mentions_iff made).mp mentions).1
  rcases inOld : oldTree[path]? with _ | content
  case none =>
    rcases names with ⟨-, there⟩ | ⟨-, there⟩
    · rw [inOld] at there
      cases there
    · rw [← same, inOld] at there
      cases there
  case some =>
    have there : oldTree[path]?.isSome := by rw [inOld]; rfl
    have made := FileDiff.of_common there (same ▸ there) hd mentions
    rw [← same, inOld, diffSingleFileRenamed_same] at made
    cases made

lemma OnlyMixedEndings.isSome {old new : Option FileContent} (only : OnlyMixedEndings old new) :
    old.isSome ∧ new.isSome := by
  cases old with
  | none => exact only.elim
  | some _ =>
    cases new with
    | none => exact absurd only (by simp [OnlyMixedEndings])
    | some _ => exact ⟨rfl, rfl⟩

/-- The only diff that mentions a path is one of the diffs and mentions it. -/
lemma mem_mentions_of_once
    (once : (computeFileTreeDiff differ oldTree newTree notes).filter (·.mentions path) = [d]) :
    d ∈ computeFileTreeDiff differ oldTree newTree notes ∧ d.mentions path = true := by
  apply List.mem_filter.mp
  rw [once]
  exact List.mem_singleton_self d

/-- A text that changed only in its mixed line endings is not mentioned. -/
lemma MentionsChanges.not_onlyMixed (all : MentionsChanges differ oldTree newTree notes) (path : PathBuf) :
    ¬ OnlyMixedEndings oldTree[path]? newTree[path]? := by
  intro only
  obtain ⟨d, once, -⟩ := all.changed path only.ne
  obtain ⟨hd, mentions⟩ := mem_mentions_of_once once
  have made := FileDiff.of_common only.isSome.1 only.isSome.2 hd mentions
  rw [diffSingleFileRenamed_onlyMixed only] at made
  cases made

/-- The name that stands for no file mentions none. -/
lemma MentionsChanges.devNull_unchanged (all : MentionsChanges differ oldTree newTree notes) :
    oldTree[PathBuf.mk devNull]? = newTree[PathBuf.mk devNull]? := by
  by_contra changed
  obtain ⟨d, once, -⟩ := all.changed _ changed
  obtain ⟨hd, mentions⟩ := mem_mentions_of_once once
  obtain ⟨p, -, made⟩ := mem_computeFileTreeDiff.mp hd
  exact ((FileDiff.mentions_iff made).mp mentions).2 rfl

/-- All other changes are mentioned. -/
lemma MentionsChanges.of_noMixed (noMixed : ∀ path : PathBuf, ¬ OnlyMixedEndings oldTree[path]? newTree[path]?)
    (devNullSame : oldTree[PathBuf.mk devNull]? = newTree[PathBuf.mk devNull]?) :
    MentionsChanges differ oldTree newTree notes := by
  refine ⟨?_, fun path same d hd => unchanged_not_mentioned same hd, renamesBetween_pairing,
    fun paths => renamesBetween_sound⟩
  intro path changed
  have named : path.text ≠ devNull := by
    intro isNull
    obtain rfl : path = ⟨devNull⟩ := congrArg PathBuf.mk isNull
    exact changed devNullSame
  obtain ⟨d, hd, shows⟩ : ∃ d ∈ computeFileTreeDiff differ oldTree newTree notes,
      d.Shows path.text oldTree[path]? newTree[path]? :=
    (computeFileTreeDiff_shows_iff notes named changed).mpr (noMixed path)
  have mentions : d.mentions path = true := shows.mentions named changed
  obtain ⟨p, mem, made⟩ := mem_computeFileTreeDiff.mp hd
  obtain ⟨before, after⟩ := FileDiff.paths_iff path made
  have names : Names oldTree newTree path p := ((FileDiff.mentions_iff made).mp mentions).1
  refine ⟨d, mentioned_once mem made names named, ?_, ?_⟩
  · exact ⟨fun e => (before.mp e).1.2, fun there => pathIn_eq_some.mpr ⟨shows.1 there, named⟩⟩
  · exact ⟨fun e => (after.mp e).1.2, fun there => pathIn_eq_some.mpr ⟨shows.2 there, named⟩⟩

/-- All changes are mentioned as they should be exactly if no text changed only in its mixed line endings,
and the name that stands for no file is not that of a file that changed. -/
theorem computeFileTreeDiff_mentions_iff (differ : Differ N L) (oldTree newTree : FileTree)
    (notes : BTreeMap String (List N)) :
    MentionsChanges differ oldTree newTree notes ↔
      (∀ path : PathBuf, ¬ OnlyMixedEndings oldTree[path]? newTree[path]?) ∧
        oldTree[PathBuf.mk devNull]? = newTree[PathBuf.mk devNull]? := by
  constructor
  · intro all
    exact ⟨all.not_onlyMixed, all.devNull_unchanged⟩
  · rintro ⟨noMixed, devNullSame⟩
    exact MentionsChanges.of_noMixed noMixed devNullSame

end

/-- A differ to which no texts are alike. -/
def noLines : Differ Unit Unit where
  ratio := fun _ _ => 0
  lines := fun _ _ _ _ => []

/-- A tree of one file. -/
def oneFile (path : PathBuf) (content : FileContent) : FileTree := BTreeMap.collect [(path, content)]

/-- The `\r` of one line moved to the other. -/
theorem movedCr_not_mentioned :
    ¬ MentionsChanges noLines (oneFile ⟨"f.py"⟩ (.text "a\r\nb\n")) (oneFile ⟨"f.py"⟩ (.text "a\nb\r\n")) ∅ := by
  intro all
  apply all.not_onlyMixed ⟨"f.py"⟩
  have only : OnlyMixedEndings (some (.text "a\r\nb\n")) (some (.text "a\nb\r\n")) := by
    refine ⟨by decide, by decide, by decide, by decide⟩
  exact only

end ArchipelagoXL.Apdiff
