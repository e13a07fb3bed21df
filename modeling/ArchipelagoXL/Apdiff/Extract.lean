import ArchipelagoXL.Apdiff.DiffLines
import ArchipelagoXL.Apdiff.FileTree
import ArchipelagoXL.Lib.Pointwise

/-!
# The files of an archive

The viewer reads the tree of files of a world out of its archive, and puts one version's files under the name of another
world (`extract_apworld` and `rekey_tree` in `apdiff-viewer/src/apworld.rs`).

A tree knows a path by its components, and two entries whose names have the same ones share a place, where the later one
hides the other. No file of an archive is hidden where the names of its files have different components, and putting
another first component before the files of a tree hides none (`extract_hides_iff`).

The archive is read by another crate, which gives its entries; so is the digest of a file that is no text.
-/

namespace ArchipelagoXL.Apdiff

open Paths (Component components ofComponents)

/-- An entry of an archive, with the reason if its data can't be read. -/
structure ZipEntry where
  name : String
  isDir : Bool
  isSymlink : Bool
  enclosedName : Option String
  data : Except String (List UInt8)

/-- The entries by their index, with the reason if one can't be found. They have different names, and the enclosed name
of an entry is its name as a path, and not an absolute one. -/
structure ZipArchive where
  byIndex : List (Except String ZipEntry)
  names : (byIndex.filterMap Except.toOption).Pairwise fun entry other => entry.name ≠ other.name
  enclosed : ∀ entry ∈ byIndex.filterMap Except.toOption, ∀ path ∈ entry.enclosedName,
    components path = components entry.name ∧ Component.rootDir ∉ components path

def ZipArchive.entries (archive : ZipArchive) : List ZipEntry := archive.byIndex.filterMap Except.toOption

/-- The errors of `extract_apworld`. -/
inductive ExtractError where
  | zip (reason : String)
  | tooManyEntries (count : ℕ)
  | symlink (name : String)
  | pathTraversal (name : String)
  | unreadable (path reason : String)
  | entryTooLarge (path : String)
  | totalTooLarge
deriving DecidableEq

def maxTotalSize : ℕ := 100 * 1024 * 1024

def maxEntryCount : ℕ := 10000

section
variable (sha256 : List UInt8 → List UInt8) (openArchive : List UInt8 → Except String ZipArchive)

/-- A file as the viewer keeps it. -/
def fileContent (bytes : List UInt8) : FileContent :=
  match String.fromUTF8? ⟨bytes.toArray⟩ with
  | some text => .text text
  | none => .binary (sha256 bytes)

/-- The turn of `extract_apworld` for an entry: the tree so far, and the size of its files. -/
def extractEntry (state : FileTree × ℕ) : Except String ZipEntry → Except ExtractError (FileTree × ℕ)
  | .error reason => .error (.zip reason)
  | .ok entry =>
    if entry.isDir then .ok state
    else if entry.isSymlink then .error (.symlink entry.name)
    else
      match entry.enclosedName, entry.data with
      | none, _ => .error (.pathTraversal entry.name)
      | some path, .error reason => .error (.unreadable path reason)
      | some path, .ok data =>
        -- one byte more than is allowed is read
        let buf := data.take (maxEntrySize + 1)
        if buf.length > maxEntrySize then .error (.entryTooLarge path)
        else if state.2 + buf.length > maxTotalSize then .error .totalTooLarge
        else .ok (state.1.insert (.ofPath path) (fileContent sha256 buf), state.2 + buf.length)

/-- Rust `extract_apworld`. -/
def extractApworld (data : List UInt8) : Except ExtractError FileTree :=
  match openArchive data with
  | .error reason => .error (.zip reason)
  | .ok archive =>
    if archive.byIndex.length > maxEntryCount then .error (.tooManyEntries archive.byIndex.length)
    else (archive.byIndex.foldlM (extractEntry sha256) (∅, 0)).map Prod.fst

end

/-! ## What is read of an archive -/

/-- The entries that are files. -/
def ZipArchive.files (archive : ZipArchive) : List ZipEntry := archive.entries.filter fun entry => !entry.isDir

/-- A file with its place in a tree. -/
structure ZipEntry.Gives (sha256 : List UInt8 → List UInt8) (entry : ZipEntry) (path : PathBuf) (content : FileContent) :
    Prop where
  place : ∃ name, entry.enclosedName = some name ∧ path = .ofPath name
  content : ∃ bytes, entry.data = .ok bytes ∧ content = fileContent sha256 bytes

section
variable {sha256 : List UInt8 → List UInt8} {state state' : FileTree × ℕ}

/-- What a turn without an error does: nothing for a directory, and a file is put in. -/
lemma extractEntry_ok {entry : Except String ZipEntry} (ok : extractEntry sha256 state entry = .ok state') :
    ∃ e, entry = .ok e ∧ ((e.isDir = true ∧ state' = state) ∨
      (e.isDir = false ∧ ∃ path content, e.Gives sha256 path content ∧ state'.1 = state.1.insert path content)) := by
  cases entry with
  | error reason => cases ok
  | ok e =>
    refine ⟨e, rfl, ?_⟩
    rw [extractEntry] at ok
    split_ifs at ok with dir link
    · exact .inl ⟨dir, (Except.ok.inj ok).symm⟩
    · right
      refine ⟨Bool.not_eq_true _ ▸ dir, ?_⟩
      split at ok
      case h_1 => cases ok
      case h_2 => cases ok
      case h_3 path data named read =>
        dsimp only at ok
        split_ifs at ok with large total
        have whole : data.take (maxEntrySize + 1) = data := by
          rw [List.take_eq_self_iff]
          rw [List.length_take] at large
          omega
        rw [whole] at ok
        exact ⟨.ofPath path, fileContent sha256 data, ⟨⟨path, named, rfl⟩, ⟨data, read, rfl⟩⟩,
          congrArg Prod.fst (Except.ok.inj ok).symm⟩

/-- The tree that is read is made of the files, put in one after the other. -/
lemma foldlM_extractEntry {entries : List (Except String ZipEntry)}
    (ok : entries.foldlM (extractEntry sha256) state = .ok state') :
    ∃ files : List (PathBuf × FileContent),
      state'.1 = files.foldl (fun tree file => tree.insert file.1 file.2) state.1 ∧
        List.Forall₂ (fun entry file => entry.Gives sha256 file.1 file.2)
          ((entries.filterMap Except.toOption).filter fun entry => !entry.isDir) files := by
  induction entries generalizing state with
  | nil =>
    cases ok
    exact ⟨[], rfl, .nil⟩
  | cons entry entries ih =>
    rw [List.foldlM_cons] at ok
    cases turn : extractEntry sha256 state entry with
    | error error =>
      rw [turn] at ok
      cases ok
    | ok next =>
      rw [turn] at ok
      obtain ⟨files, tree, gives⟩ := ih ok
      have head (e : ZipEntry) : (Except.ok e :: entries).filterMap Except.toOption =
          e :: entries.filterMap Except.toOption := rfl
      obtain ⟨e, rfl, ⟨dir, rfl⟩ | ⟨file, path, content, here, inserted⟩⟩ := extractEntry_ok turn
      · refine ⟨files, tree, ?_⟩
        rw [head, List.filter_cons_of_neg (by simp [dir])]
        exact gives
      · refine ⟨(path, content) :: files, ?_, ?_⟩
        · rw [tree, inserted]
          rfl
        · rw [head, List.filter_cons_of_pos (by simp [file])]
          exact .cons here gives

lemma extractApworld_ok {openArchive : List UInt8 → Except String ZipArchive} {data : List UInt8} {archive : ZipArchive}
    {tree : FileTree} (opened : openArchive data = .ok archive) (ok : extractApworld sha256 openArchive data = .ok tree) :
    ∃ files, tree = BTreeMap.collect files ∧
      List.Forall₂ (fun entry file => entry.Gives sha256 file.1 file.2) archive.files files := by
  rw [extractApworld, opened] at ok
  dsimp only at ok
  split_ifs at ok
  cases run : archive.byIndex.foldlM (extractEntry sha256) (∅, 0) with
  | error error =>
    rw [run] at ok
    cases ok
  | ok last =>
    rw [run] at ok
    cases ok
    obtain ⟨files, tree, gives⟩ := foldlM_extractEntry run
    exact ⟨files, tree, gives⟩

end

/-! ## Files that are hidden -/

/-- Two files of an archive have names with different components. -/
def DifferentNames (archive : ZipArchive) : Prop :=
  ∀ entry ∈ archive.files, ∀ other ∈ archive.files, components entry.name = components other.name → entry = other

/-- Each file is in the tree with its content, and no two have one place. -/
structure HidesNothing (sha256 : List UInt8 → List UInt8) (archive : ZipArchive) (tree : FileTree) : Prop where
  shown : ∀ entry ∈ archive.files, ∃ path content, entry.Gives sha256 path content ∧ tree[path]? = some content
  apart : ∀ entry ∈ archive.files, ∀ other ∈ archive.files, ∀ name ∈ entry.enclosedName, ∀ name' ∈ other.enclosedName,
    PathBuf.ofPath name = PathBuf.ofPath name' → entry = other

/-- Paths that are one path to a tree have the same components. -/
lemma components_of_ofPath {name name' : String} (relative : Component.rootDir ∉ components name)
    (relative' : Component.rootDir ∉ components name') (same : PathBuf.ofPath name = PathBuf.ofPath name') :
    components name = components name' := by
  refine Paths.ofComponents_injective (fun c mem => Paths.isText_of_mem mem) (fun c mem => Paths.isText_of_mem mem) ?_ ?_
    (congrArg PathBuf.text same)
  · intro root
    rw [root] at relative
    exact relative (List.mem_singleton_self _)
  · intro root
    rw [root] at relative'
    exact relative' (List.mem_singleton_self _)

section
variable {sha256 : List UInt8 → List UInt8} {archive : ZipArchive}

/-- Files whose names have different components have different places. -/
lemma DifferentNames.place_ne (different : DifferentNames archive) {entry other : ZipEntry} (mem : entry ∈ archive.files)
    (otherMem : other ∈ archive.files) (ne : entry ≠ other) {path path' : PathBuf} {content content' : FileContent}
    (here : entry.Gives sha256 path content) (there : other.Gives sha256 path' content') : path ≠ path' := by
  obtain ⟨name, named, rfl⟩ := here.place
  obtain ⟨name', named', rfl⟩ := there.place
  obtain ⟨is, relative⟩ := archive.enclosed entry (List.mem_of_mem_filter mem) name named
  obtain ⟨is', relative'⟩ := archive.enclosed other (List.mem_of_mem_filter otherMem) name' named'
  intro same
  have components := components_of_ofPath relative relative' same
  rw [is, is'] at components
  exact ne (different entry mem other otherMem components)

lemma nodup_of_forall₂ {entries : List ZipEntry} {files : List (PathBuf × FileContent)}
    (gives : List.Forall₂ (fun entry file => ZipEntry.Gives sha256 entry file.1 file.2) entries files)
    (apart : entries.Pairwise fun entry other => ∀ path content path' content', entry.Gives sha256 path content →
      other.Gives sha256 path' content' → path ≠ path') : (files.map Prod.fst).Nodup := by
  induction gives with
  | nil => exact List.nodup_nil
  | cons here later ih =>
    obtain ⟨others, apart⟩ := List.pairwise_cons.mp apart
    refine List.nodup_cons.mpr ⟨?_, ih apart⟩
    intro mem
    obtain ⟨file, mem, same⟩ := List.mem_map.mp mem
    obtain ⟨other, otherMem, there⟩ := Pointwise.exists_left later mem
    exact others other otherMem _ _ _ _ here there same.symm

lemma hidesNothing_iff {files : List (PathBuf × FileContent)}
    (gives : List.Forall₂ (fun entry file => ZipEntry.Gives sha256 entry file.1 file.2) archive.files files) :
    HidesNothing sha256 archive (BTreeMap.collect files) ↔ DifferentNames archive := by
  constructor
  · intro hides entry mem other otherMem same
    obtain ⟨_, _, gives, -⟩ := hides.shown entry mem
    obtain ⟨_, _, gives', -⟩ := hides.shown other otherMem
    obtain ⟨name, named, -⟩ := gives.place
    obtain ⟨name', named', -⟩ := gives'.place
    refine hides.apart entry mem other otherMem name named name' named' ?_
    rw [PathBuf.ofPath, PathBuf.ofPath, (archive.enclosed entry (List.mem_of_mem_filter mem) name named).1,
      (archive.enclosed other (List.mem_of_mem_filter otherMem) name' named').1, same]
  · intro different
    have once : archive.files.Pairwise fun entry other => entry.name ≠ other.name := archive.names.filter _
    have nodup := nodup_of_forall₂ gives <| once.imp_of_mem fun mem otherMem names _ _ _ _ here there =>
      different.place_ne mem otherMem (fun same => names (congrArg ZipEntry.name same)) here there
    refine ⟨fun entry mem => ?_, ?_⟩
    · obtain ⟨file, fileMem, here⟩ := Pointwise.exists_right gives mem
      exact ⟨file.1, file.2, here, BTreeMap.getElem?_collect_of_mem nodup fileMem⟩
    · intro entry mem other otherMem name named name' named' same
      have is := archive.enclosed entry (List.mem_of_mem_filter mem) name named
      have is' := archive.enclosed other (List.mem_of_mem_filter otherMem) name' named'
      have components := components_of_ofPath is.2 is'.2 same
      rw [is.1, is'.1] at components
      exact different entry mem other otherMem components

end

/-! ## Another first component -/

/-- A tree under one first component, with more behind it in each path. -/
structure Rekeyable (tree : FileTree) : Prop where
  normal : ∀ path ∈ tree, PathBuf.ofPath path.text = path
  common : ∃ first, ∀ path ∈ tree, ∃ rest, rest ≠ [] ∧ components path.text = first :: rest

/-- Each file of a tree is there under another first component, and no two have one place. -/
structure KeepsFiles (tree : FileTree) (newPrefix : String) : Prop where
  shown : ∀ (path : PathBuf) (content : FileContent), tree[path]? = some content →
    (rekeyTree tree newPrefix)[path.rekey newPrefix]? = some content
  apart : ∀ path : PathBuf, path ∈ tree → ∀ other ∈ tree, path.rekey newPrefix = other.rekey newPrefix → path = other

lemma Rekeyable.apart {tree : FileTree} (rekeyable : Rekeyable tree) (newPrefix : String) {path other : PathBuf}
    (mem : path ∈ tree) (otherMem : other ∈ tree) (same : path.rekey newPrefix = other.rekey newPrefix) : path = other := by
  obtain ⟨first, common⟩ := rekeyable.common
  obtain ⟨rest, some, whole⟩ := common path mem
  obtain ⟨rest', some', whole'⟩ := common other otherMem
  have joined {p : PathBuf} {rest : List Component} (whole : components p.text = first :: rest) :
      components (Paths.join newPrefix (ofComponents (components p.text).tail)) = components newPrefix ++ rest := by
    rw [Paths.components_join_ofComponents newPrefix fun c mem => Paths.isInner_of_mem_tail mem, whole, List.tail_cons]
  have noRoot {p : PathBuf} {rest : List Component} (some : rest ≠ []) (whole : components p.text = first :: rest) :
      components (Paths.join newPrefix (ofComponents (components p.text).tail)) ≠ [.rootDir] := by
    rw [joined whole]
    intro root
    obtain ⟨c, cMem⟩ := List.exists_mem_of_ne_nil rest some
    have is : c = .rootDir := List.mem_singleton.mp (root ▸ List.mem_append_right (components newPrefix) cMem)
    have inner : c.IsInner := by
      apply Paths.isInner_of_mem_tail
      rw [whole]
      exact cMem
    rw [is] at inner
    cases inner.2
  have inserted := Paths.ofComponents_injective (fun c mem => Paths.isText_of_mem mem)
    (fun c mem => Paths.isText_of_mem mem) (noRoot some whole) (noRoot some' whole') (congrArg PathBuf.text same)
  rw [joined whole, joined whole', List.append_cancel_left_eq] at inserted
  rw [← rekeyable.normal path mem, ← rekeyable.normal other otherMem, PathBuf.ofPath, PathBuf.ofPath, whole, whole',
    inserted]

lemma rekeyTree_keeps {tree : FileTree} (rekeyable : Rekeyable tree) (newPrefix : String) : KeepsFiles tree newPrefix := by
  refine ⟨fun path content here => ?_, fun path mem other otherMem => rekeyable.apart newPrefix mem otherMem⟩
  have there := Std.ExtTreeMap.mem_toList_iff_getElem?_eq_some.mpr here
  apply BTreeMap.getElem?_collect_of_mem
  · rw [List.map_map, List.nodup_map_iff_inj_on]
    · intro file mem other otherMem same
      have key {file : PathBuf × FileContent} (mem : file ∈ tree.toList) : tree[file.1]? = some file.2 :=
        Std.ExtTreeMap.mem_toList_iff_getElem?_eq_some.mp mem
      have inTree {file : PathBuf × FileContent} (mem : file ∈ tree.toList) : file.1 ∈ tree :=
        BTreeMap.mem_iff_exists.mpr ⟨file.2, key mem⟩
      have path := rekeyable.apart newPrefix (inTree mem) (inTree otherMem) same
      have content := key mem
      rw [path, key otherMem] at content
      exact Prod.ext path (Option.some.inj content).symm
    · refine (BTreeMap.toList_sorted tree).imp fun lt => ?_
      rintro rfl
      exact lt_irrefl _ lt
  · exact List.mem_map.mpr ⟨(path, content), there, rfl⟩

/-- An accepted archive has all its files in the tree where their names have different components, and then only; another
first component hides no file of any tree. -/
theorem extract_hides_iff {sha256 : List UInt8 → List UInt8} {openArchive : List UInt8 → Except String ZipArchive}
    {data : List UInt8} {archive : ZipArchive} {tree : FileTree} (opened : openArchive data = .ok archive)
    (accepted : extractApworld sha256 openArchive data = .ok tree) :
    (HidesNothing sha256 archive tree ∧
        ∀ (other : FileTree) (newPrefix : String), Rekeyable other → KeepsFiles other newPrefix) ↔
      DifferentNames archive := by
  obtain ⟨files, rfl, gives⟩ := extractApworld_ok opened accepted
  rw [hidesNothing_iff gives, and_iff_left]
  exact fun other newPrefix rekeyable => rekeyTree_keeps rekeyable newPrefix

/-- An archive of two texts. -/
def twoFiles (name name' : String) : List (Except String ZipEntry) :=
  [.ok ⟨name, false, false, some name, .ok [120]⟩, .ok ⟨name', false, false, some name', .ok [121]⟩]

def plainArchive : ZipArchive where
  byIndex := twoFiles "w/a.py" "w/b.py"
  names := by decide
  enclosed := by decide +kernel

theorem plainArchive_hides_iff :
    ∃ tree, extractApworld (fun _ => []) (fun _ => .ok plainArchive) [] = .ok tree ∧
      ((HidesNothing (fun _ => []) plainArchive tree ∧
          ∀ (other : FileTree) (newPrefix : String), Rekeyable other → KeepsFiles other newPrefix) ↔
        DifferentNames plainArchive) :=
  ⟨_, rfl, @extract_hides_iff (fun _ => []) (fun _ => .ok plainArchive) [] plainArchive _ rfl rfl⟩

/-- A name that is written with another dot. -/
def dottedArchive : ZipArchive where
  byIndex := twoFiles "w/a.py" "w/./a.py"
  names := by decide
  enclosed := by decide +kernel

theorem dottedArchive_hides :
    ∃ tree, extractApworld (fun _ => []) (fun _ => .ok dottedArchive) [] = .ok tree ∧
      ¬ HidesNothing (fun _ => []) dottedArchive tree := by
  refine ⟨_, rfl, fun hides => ?_⟩
  have same := hides.apart ⟨"w/a.py", false, false, some "w/a.py", .ok [120]⟩ (.head _)
    ⟨"w/./a.py", false, false, some "w/./a.py", .ok [121]⟩ (.tail _ (.head _)) "w/a.py" rfl "w/./a.py" rfl (by decide +kernel)
  exact absurd (congrArg ZipEntry.name same) (by decide)

end ArchipelagoXL.Apdiff
