import ArchipelagoXL.Lib.Ranks
import ArchipelagoXL.Lib.SemVersion
import ArchipelagoXL.Lib.Utf8

/-!
# Where the tasks of a version are indexed

The viewer finds the tasks of a world's version at a path in the index of Taskcluster (`apdiff-viewer/src/tc.rs`). The
components of a path are separated by dots, so the name and the version are written with escapes.

A text is read back from its component, which has no other characters than the index takes, so no two versions share a
path, and a version is read back from the namespace of its world as it was put there (`indexPath_unambiguous`).
-/

namespace ArchipelagoXL.Apdiff

open Utf8 (bytes forall_byte fromUtf8Lossy IsAscii)

/-- The bytes that stand for themselves in a component. -/
def isPlain (b : UInt8) : Bool :=
  (48 ≤ b && b ≤ 57) || (65 ≤ b && b ≤ 90) || (97 ≤ b && b ≤ 122) || b == 95 || b == 45

/-- What a byte adds to a component. -/
def encodeByte (b : UInt8) : List Char :=
  if isPlain b then [Char.ofNat b.toNat]
  else ['~', Nat.digitChar (b.toNat / 16), Nat.digitChar (b.toNat % 16)]

/-- Rust `encode_index_component`. -/
def encodeIndexComponent (s : String) : String := String.ofList ((bytes s.toList).flatMap encodeByte)

/-- Rust `char::to_digit` in base 16. -/
def hexDigit (b : UInt8) : Option UInt8 :=
  if 48 ≤ b ∧ b ≤ 57 then some (b - 48)
  else if 97 ≤ b ∧ b ≤ 102 then some (b - 87)
  else if 65 ≤ b ∧ b ≤ 70 then some (b - 55)
  else none

/-- Rust `u8::from_str_radix` in base 16, on two bytes; it takes a plus sign. -/
def fromStrRadix (high low : UInt8) : Option UInt8 :=
  if high = 43 then hexDigit low
  else (hexDigit high).bind fun h => (hexDigit low).map fun l => 16 * h + l

/-- The loop of `decode_index_component`. -/
def decodeBytes : List UInt8 → List UInt8
  | b :: high :: low :: rest =>
    match if b = 126 then fromStrRadix high low else none with
    | some byte => byte :: decodeBytes rest
    | none => b :: decodeBytes (high :: low :: rest)
  | short => short

/-- Rust `decode_index_component`. -/
def decodeIndexComponent (s : String) : String := String.ofList (fromUtf8Lossy (decodeBytes (bytes s.toList)))

/-- The namespace of a world. -/
def worldNamespace (namespacePre worldName : String) : String :=
  namespacePre ++ "." ++ encodeIndexComponent worldName

/-- Rust `index_path`. -/
def indexPath (namespacePre worldName version : String) : String :=
  namespacePre ++ "." ++ encodeIndexComponent worldName ++ "." ++ encodeIndexComponent version

/-- Rust `str::strip_prefix`. -/
def stripStart (s start : String) : Option String :=
  if start.toList.isPrefixOf s.toList then some (String.ofList (s.toList.drop start.toList.length)) else none

/-- What `listTasks` says of a task, as far as it is there. -/
structure ListedTask where
  path : Option String
  taskId : Option String

/-- The version that the path of a task names in the namespace of a world. -/
def versionStr (namespacePre worldName path : String) : Option String :=
  (stripStart path (worldNamespace namespacePre worldName ++ ".")).map decodeIndexComponent

section
variable {V : Type} (parse : String → Option V)

/-- The turn of `list_indexed_versions` for one task. -/
def indexedVersion (namespacePre worldName : String) (task : ListedTask) : Option (V × String) := do
  let path ← task.path
  let taskId ← task.taskId
  let version ← (versionStr namespacePre worldName path).bind parse
  return (version, taskId)

/-- Rust `list_indexed_versions`, on the pages that the index has for a namespace. -/
def listIndexedVersions [LinearOrder V] (listTasks : String → List (List ListedTask)) (namespacePre worldName : String) :
    List (V × String) :=
  Ranks.sortBy Prod.fst <|
    (listTasks (worldNamespace namespacePre worldName)).flatten.filterMap (indexedVersion parse namespacePre worldName)

end

/-! ## Components -/

/-- The characters that a component is made of. -/
def isComponentChar (c : Char) : Bool := c.isAlphanum || c == '_' || c == '-' || c == '~'

lemma encodeByte_chars (b : UInt8) : ∀ c ∈ encodeByte b, isComponentChar c = true ∧ IsAscii c := by
  have all : ∀ b, (encodeByte b).all (fun c => isComponentChar c && decide (IsAscii c)) = true := by
    apply forall_byte
    decide +kernel
  intro c written
  have both := List.all_eq_true.mp (all b) c written
  rwa [Bool.and_eq_true, decide_eq_true_iff] at both

/-- What is read of the bytes of one byte's escape. -/
def decodedEscape (b : UInt8) : Option UInt8 :=
  match (encodeByte b).map fun c => UInt8.ofNat c.toNat with
  | [tilde, high, low] => if tilde = 126 then fromStrRadix high low else none
  | _ => none

lemma encodeByte_cases (b : UInt8) :
    ((encodeByte b).map (fun c => UInt8.ofNat c.toNat) = [b] ∧ b ≠ 126) ∨
      ∃ high low, (encodeByte b).map (fun c => UInt8.ofNat c.toNat) = [126, high, low] ∧ fromStrRadix high low = some b := by
  have cases : ∀ b, ((encodeByte b).map (fun c => UInt8.ofNat c.toNat) = [b] ∧ b ≠ 126) ∨
      decodedEscape b = some b := by
    apply forall_byte
    decide +kernel
  rcases cases b with plain | escape
  · exact .inl plain
  · rw [decodedEscape] at escape
    split at escape
    case h_1 tilde high low is =>
      split at escape
      case isTrue isTilde =>
        rw [isTilde] at is
        exact .inr ⟨high, low, is, escape⟩
      case isFalse => cases escape
    case h_2 => cases escape

lemma decodeBytes_cons {b : UInt8} (noTilde : b ≠ 126) (rest : List UInt8) :
    decodeBytes (b :: rest) = b :: decodeBytes rest := by
  match rest with
  | [] => rfl
  | [_] => rfl
  | high :: low :: rest => rw [decodeBytes, if_neg noTilde]

/-- A byte is read back, whatever comes behind it. -/
lemma decodeBytes_encodeByte (b : UInt8) (rest : List UInt8) :
    decodeBytes ((encodeByte b).map (fun c => UInt8.ofNat c.toNat) ++ rest) = b :: decodeBytes rest := by
  rcases encodeByte_cases b with ⟨plain, noTilde⟩ | ⟨high, low, escape, value⟩
  · rw [plain]
    exact decodeBytes_cons noTilde rest
  · rw [escape]
    simp only [List.cons_append, List.nil_append, decodeBytes, if_true, value]

lemma decodeBytes_flatMap (read : List UInt8) :
    decodeBytes ((read.flatMap encodeByte).map fun c => UInt8.ofNat c.toNat) = read := by
  induction read with
  | nil => rfl
  | cons b read ih => rw [List.flatMap_cons, List.map_append, decodeBytes_encodeByte, ih]

lemma mem_encodeIndexComponent {s : String} {c : Char} (mem : c ∈ (encodeIndexComponent s).toList) :
    isComponentChar c = true ∧ IsAscii c := by
  rw [encodeIndexComponent, String.toList_ofList] at mem
  obtain ⟨b, _, mem⟩ := List.mem_flatMap.mp mem
  exact encodeByte_chars b c mem

lemma decode_encode (s : String) : decodeIndexComponent (encodeIndexComponent s) = s := by
  rw [decodeIndexComponent, Utf8.bytes_ascii fun c mem => (mem_encodeIndexComponent mem).2, encodeIndexComponent,
    String.toList_ofList, decodeBytes_flatMap, Utf8.fromUtf8Lossy_bytes, String.ofList_toList]

lemma encode_injective : Function.Injective encodeIndexComponent := by
  intro s t same
  rw [← decode_encode s, same, decode_encode]

lemma noDot (s : String) : ∀ c ∈ (encodeIndexComponent s).toList, (c != '.') = true := by
  intro c mem
  rw [bne_iff_ne]
  rintro rfl
  exact absurd (mem_encodeIndexComponent mem).1 (by decide)

/-! ## Paths -/

lemma toList_indexPath (namespacePre worldName version : String) :
    (indexPath namespacePre worldName version).toList =
      (namespacePre ++ ".").toList ++
        ((encodeIndexComponent worldName).toList ++ '.' :: (encodeIndexComponent version).toList) := by
  simp [indexPath]

/-- The component of the world ends at the first dot behind the start of the path. -/
lemma component_inj {s t : String} {a b : List Char}
    (same : (encodeIndexComponent s).toList ++ '.' :: a = (encodeIndexComponent t).toList ++ '.' :: b) : s = t ∧ a = b := by
  have dot (l : List Char) : ∀ c ∈ ('.' :: l).head?, (c != '.') = false := by
    intro c first
    rw [← Option.some.inj first]
    rfl
  obtain ⟨start, rest⟩ := SemVersion.append_inj_of_head (noDot s) (noDot t) (dot a) (dot b) same
  exact ⟨encode_injective (String.toList_inj.mp start), (List.cons.inj rest).2⟩

lemma indexPath_injective {namespacePre w v w' v' : String}
    (same : indexPath namespacePre w v = indexPath namespacePre w' v') : w = w' ∧ v = v' := by
  have chars := congrArg String.toList same
  rw [toList_indexPath, toList_indexPath] at chars
  obtain ⟨worlds, versions⟩ := component_inj (List.append_cancel_left chars)
  exact ⟨worlds, encode_injective (String.toList_inj.mp versions)⟩

/-- A path names a version in the namespace of its own world only. -/
lemma versionStr_indexPath (namespacePre worldName w v : String) :
    versionStr namespacePre worldName (indexPath namespacePre w v) = if w = worldName then some v else none := by
  have start : (worldNamespace namespacePre worldName ++ ".").toList =
      (namespacePre ++ ".").toList ++ ((encodeIndexComponent worldName).toList ++ ['.']) := by
    simp [worldNamespace]
  rw [versionStr, stripStart, start, toList_indexPath]
  by_cases own : w = worldName
  · rw [if_pos own, own, if_pos]
    · have split : (namespacePre ++ ".").toList ++ ((encodeIndexComponent worldName).toList ++
          '.' :: (encodeIndexComponent v).toList) = ((namespacePre ++ ".").toList ++
            ((encodeIndexComponent worldName).toList ++ ['.'])) ++ (encodeIndexComponent v).toList := by simp
      rw [split, List.drop_left, String.ofList_toList, Option.map_some, decode_encode]
    · rw [List.isPrefixOf_iff_prefix]
      exact ⟨(encodeIndexComponent v).toList, by simp⟩
  · rw [if_neg own, if_neg, Option.map_none]
    rw [List.isPrefixOf_iff_prefix]
    rintro ⟨rest, whole⟩
    rw [List.append_assoc, List.append_assoc] at whole
    exact own (component_inj (List.append_cancel_left whole)).1.symm

/-- The task of a world's version in the index. -/
def indexedTask (namespacePre : String) (indexed : String × String × String) : ListedTask :=
  ⟨some (indexPath namespacePre indexed.1 indexed.2.1), some indexed.2.2⟩

lemma indexedVersion_indexedTask {V : Type} (parse : String → Option V) (namespacePre worldName : String)
    (indexed : String × String × String) :
    indexedVersion parse namespacePre worldName (indexedTask namespacePre indexed) =
      if indexed.1 = worldName then (parse indexed.2.1).map (·, indexed.2.2) else none := by
  simp only [indexedVersion, indexedTask, Option.bind_eq_bind, Option.bind_some, versionStr_indexPath]
  split
  case isTrue =>
    rw [Option.bind_some]
    cases parse indexed.2.1 with
    | none => rfl
    | some version => rfl
  case isFalse => rfl

/-- Texts are read back from their components, which the index takes; so versions of worlds have different paths, and a
world's versions are listed as they were indexed, however the index pages them. -/
theorem indexPath_unambiguous :
    (∀ s, decodeIndexComponent (encodeIndexComponent s) = s ∧
      ∀ c ∈ (encodeIndexComponent s).toList, c.isAlphanum ∨ c = '_' ∨ c = '-' ∨ c = '~') ∧
    (∀ namespacePre, Function.Injective fun indexed : String × String => indexPath namespacePre indexed.1 indexed.2) ∧
    ∀ {V : Type} [LinearOrder V] (parse : String → Option V) (namespacePre worldName : String)
      (pages : List (List (String × String × String))),
      (∀ w v, versionStr namespacePre worldName (indexPath namespacePre w v) = if w = worldName then some v else none) ∧
      listIndexedVersions parse (fun _ => pages.map fun page => page.map (indexedTask namespacePre)) namespacePre
          worldName =
        Ranks.sortBy Prod.fst (pages.flatten.filterMap fun indexed =>
          if indexed.1 = worldName then (parse indexed.2.1).map (·, indexed.2.2) else none) := by
  refine ⟨?_, ?_, ?_⟩
  · intro s
    refine ⟨decode_encode s, ?_⟩
    intro c mem
    have kept := (mem_encodeIndexComponent mem).1
    simpa [isComponentChar, or_assoc] using kept
  · intro namespacePre a b same
    obtain ⟨worlds, versions⟩ := indexPath_injective same
    exact Prod.ext worlds versions
  · intro V _ parse namespacePre worldName pages
    refine ⟨versionStr_indexPath namespacePre worldName, ?_⟩
    have tasks : (pages.map fun page => page.map (indexedTask namespacePre)).flatten =
        pages.flatten.map (indexedTask namespacePre) := (List.map_flatten).symm
    rw [listIndexedVersions, tasks, List.filterMap_map]
    congr 1
    exact List.filterMap_congr fun indexed _ => indexedVersion_indexedTask parse namespacePre worldName indexed

example : indexPath "ap.index.world" "Twilight Princess" "1.0.0+build" =
    "ap.index.world.Twilight~20Princess.1~2e0~2e0~2bbuild" := by decide

end ArchipelagoXL.Apdiff
