import Mathlib.Data.List.Basic
import Mathlib.Tactic.Common

/-!
# Paths

Unix paths as texts, with what Rust's `Path` makes of them: a path is compared by its components, which leave out
empty pieces and dots in the middle. A name that is joined to a path is one more component (`components_join`). A path
that is written with its components alone tells them (`ofComponents_injective`), and they are added to those of a path
that it is joined to (`components_join_ofComponents`).
-/

namespace ArchipelagoXL.Paths

/-- Rust `Component`. -/
inductive Component where
  | rootDir
  | curDir
  | parentDir
  | normal (name : List Char)
deriving DecidableEq

/-- What stands between the slashes. -/
def pieces (path : String) : List (List Char) := path.toList.splitOn '/'

/-- The component of a piece, if it has one. -/
def pieceComponent (piece : List Char) : Option Component :=
  if piece = [] ∨ piece = ['.'] then none
  else if piece = ['.', '.'] then some .parentDir
  else some (.normal piece)

/-- Where a path starts. -/
def start (path : String) : List Component :=
  if path.toList.head? = some '/' then [.rootDir]
  else if (pieces path).head? = some ['.'] then [.curDir]
  else []

/-- Rust `Path::components`; two paths are equal if they have the same ones. -/
def components (path : String) : List Component := start path ++ (pieces path).filterMap pieceComponent

/-- How a component is written. -/
def Component.text : Component → List Char
  | .rootDir => []
  | .curDir => ['.']
  | .parentDir => ['.', '.']
  | .normal name => name

/-- A path of some components. -/
def ofComponents (components : List Component) : String :=
  String.ofList (['/'].intercalate (components.map Component.text))

/-- Rust `Path::join`. -/
def join (path name : String) : String :=
  if name.toList.head? = some '/' then name
  else if path = "" ∨ path.toList.getLast? = some '/' then path ++ name
  else path ++ "/" ++ name

/-- Rust `Path::file_name`. -/
def fileName (path : String) : Option (List Char) :=
  match (components path).getLast? with
  | some (.normal name) => some name
  | _ => none

/-- The part of a name before its last dot, or all of it if there is none or nothing before it. -/
def stem (name : List Char) : List Char :=
  let before := ((name.reverse.dropWhile (· ≠ '.')).drop 1).reverse
  if before = [] then name else before

/-- Rust `Path::file_stem`. -/
def fileStem (path : String) : Option String := (fileName path).map fun name => String.ofList (stem name)

/-! ## Joining -/

/-- What is joined stands behind a slash, unless there is nothing before it. -/
lemma toList_join {rest : String} (relative : rest.toList.head? ≠ some '/') (path : String) :
    path = "" ∧ join path rest = rest ∨
      ∃ before, (join path rest).toList = before ++ '/' :: rest.toList ∧
        (path.toList = before ∧ before ≠ [] ∨ path.toList = before ++ ['/']) := by
  rw [join, if_neg relative]
  split
  case isTrue ends =>
    rcases ends with rfl | ends
    · left
      exact ⟨rfl, String.empty_append⟩
    · right
      obtain ⟨before, path_eq⟩ := List.getLast?_eq_some_iff.mp ends
      refine ⟨before, ?_, .inr path_eq⟩
      rw [String.toList_append, path_eq]
      simp
  case isFalse open_ =>
    right
    refine ⟨path.toList, ?_, .inl ⟨rfl, ?_⟩⟩
    · rw [String.toList_append, String.toList_append]
      simp
    · intro empty
      exact open_ (.inl (String.toList_eq_nil_iff.mp empty))

/-- The components of what is joined are behind those of the path. -/
lemma components_join_pieces {rest : String} (relative : rest.toList.head? ≠ some '/')
    (noDot : (pieces rest).head? ≠ some ['.']) (path : String) :
    components (join path rest) = components path ++ (pieces rest).filterMap pieceComponent := by
  rcases toList_join relative path with ⟨rfl, joined⟩ | ⟨before, joined, place⟩
  · rw [joined, components, start, if_neg relative, if_neg noDot]
    rfl
  · have pieces_join : pieces (join path rest) = before.splitOn '/' ++ pieces rest := by
      rw [pieces, joined, List.splitOn_append_cons_self, pieces]
    have whole : pieces path = path.toList.splitOn '/' := rfl
    have named : (pieces (join path rest)).filterMap pieceComponent =
        (pieces path).filterMap pieceComponent ++ (pieces rest).filterMap pieceComponent := by
      rw [pieces_join, List.filterMap_append, whole]
      rcases place with ⟨same, _⟩ | slash
      · rw [same]
      · rw [slash, List.splitOn_append_cons_self, List.splitOn_nil, List.filterMap_append]
        simp [pieceComponent]
    have first : (pieces (join path rest)).head? = (pieces path).head? := by
      obtain ⟨piece, later, split⟩ := List.exists_cons_of_ne_nil (List.splitOn_ne_nil '/' before)
      rw [pieces_join, split, whole]
      rcases place with ⟨same, _⟩ | slash
      · rw [same, split]
        rfl
      · rw [slash, List.splitOn_append_cons_self, split]
        rfl
    have root : (join path rest).toList.head? = path.toList.head? := by
      rw [joined]
      rcases place with ⟨same, notEmpty⟩ | slash
      · rw [same]
        cases before with
        | nil => exact absurd rfl notEmpty
        | cons c before => rfl
      · rw [slash]
        cases before with
        | nil => rfl
        | cons c before => rfl
    rw [components, components, start, start, root, first, named, List.append_assoc]

/-! ## A name in a directory -/

/-- What a file can be called. -/
structure IsName (name : String) : Prop where
  noSlash : '/' ∉ name.toList
  notEmpty : name.toList ≠ []
  notDot : name.toList ≠ ['.']
  notDots : name.toList ≠ ['.', '.']

section
variable {path name : String}

lemma IsName.noRoot (isName : IsName name) : name.toList.head? ≠ some '/' := by
  intro root
  exact isName.noSlash (List.mem_of_head? root)

lemma IsName.pieceComponent_eq (isName : IsName name) : pieceComponent name.toList = some (.normal name.toList) := by
  rw [pieceComponent, if_neg (not_or.mpr ⟨isName.notEmpty, isName.notDot⟩), if_neg isName.notDots]

lemma IsName.pieces_eq (isName : IsName name) : pieces name = [name.toList] := List.splitOn_eq_singleton isName.noSlash

/-- A name that is joined to a path is one more component. -/
lemma components_join (isName : IsName name) :
    components (join path name) = components path ++ [.normal name.toList] := by
  have noDot : (pieces name).head? ≠ some ['.'] := by
    rw [isName.pieces_eq]
    simpa using isName.notDot
  rw [components_join_pieces isName.noRoot noDot, isName.pieces_eq, List.filterMap_cons, isName.pieceComponent_eq]
  rfl

/-- A directory has one path for each name. -/
lemma join_injective {name' : String} (isName : IsName name) (isName' : IsName name')
    (same : components (join path name) = components (join path name')) : name = name' := by
  rw [components_join isName, components_join isName', List.append_cancel_left_eq, List.cons.injEq,
    Component.normal.injEq] at same
  exact String.toList_inj.mp same.1

end

/-! ## Paths that are written with their components -/

/-- A component that a path can have. -/
def Component.IsText (component : Component) : Prop :=
  '/' ∉ component.text ∧
    (component = .rootDir ∨ component = .curDir ∨ pieceComponent component.text = some component)

lemma not_mem_of_mem_splitOn {text piece : List Char} (mem : piece ∈ text.splitOn '/') : '/' ∉ piece := by
  induction text generalizing piece with
  | nil =>
    rw [List.splitOn_nil, List.mem_singleton] at mem
    rw [mem]
    exact List.not_mem_nil
  | cons c text ih =>
    rw [List.splitOn_cons_eq_if_modifyHead] at mem
    split at mem
    · rcases List.mem_cons.mp mem with rfl | mem
      · exact List.not_mem_nil
      · exact ih mem
    case isFalse other =>
      obtain ⟨first, rest, split⟩ := List.exists_cons_of_ne_nil (List.splitOn_ne_nil '/' text)
      rw [split, List.modifyHead_cons] at mem
      rw [split] at ih
      rcases List.mem_cons.mp mem with rfl | mem
      · intro slash
        rcases List.mem_cons.mp slash with rfl | slash
        · exact other (beq_self_eq_true _)
        · exact ih List.mem_cons_self slash
      · exact ih (List.mem_cons_of_mem first mem)

lemma text_of_pieceComponent {piece : List Char} {component : Component}
    (is : pieceComponent piece = some component) : component.text = piece := by
  rw [pieceComponent] at is
  split_ifs at is with none dots
  · cases is
    exact dots.symm
  · cases is
    rfl

/-- The component of a piece of a path. -/
def Component.IsInner (component : Component) : Prop :=
  '/' ∉ component.text ∧ pieceComponent component.text = some component

lemma isInner_of_mem {path : String} {component : Component}
    (mem : component ∈ (pieces path).filterMap pieceComponent) : component.IsInner := by
  obtain ⟨piece, mem, is⟩ := List.mem_filterMap.mp mem
  rw [Component.IsInner, text_of_pieceComponent is]
  exact ⟨not_mem_of_mem_splitOn mem, is⟩

lemma isText_of_mem {path : String} {component : Component} (mem : component ∈ components path) : component.IsText := by
  rcases List.mem_append.mp mem with first | inner
  · rw [start] at first
    split_ifs at first
    · rw [List.mem_singleton.mp first]
      exact ⟨List.not_mem_nil, .inl rfl⟩
    · rw [List.mem_singleton.mp first]
      exact ⟨by decide, .inr (.inl rfl)⟩
    · cases first
  · obtain ⟨noSlash, is⟩ := isInner_of_mem inner
    exact ⟨noSlash, .inr (.inr is)⟩

lemma isInner_of_mem_tail {path : String} {component : Component} (mem : component ∈ (components path).tail) :
    component.IsInner := by
  rw [components, start] at mem
  split_ifs at mem
  · exact isInner_of_mem mem
  · exact isInner_of_mem mem
  · exact isInner_of_mem (List.mem_of_mem_tail mem)

lemma Component.IsText.text_inj {a b : Component} (first : a.IsText) (second : b.IsText) (same : a.text = b.text) :
    a = b := by
  rcases first.2 with rfl | rfl | is
  · rcases second.2 with rfl | rfl | is
    · rfl
    · cases same
    · rw [← same] at is
      cases is
  · rcases second.2 with rfl | rfl | is
    · cases same
    · rfl
    · rw [← same] at is
      cases is
  · rcases second.2 with rfl | rfl | is'
    · rw [same] at is
      cases is
    · rw [same] at is
      cases is
    · rw [← same, is, Option.some.injEq] at is'
      exact is'

lemma map_text_inj {first second : List Component} (texts : ∀ c ∈ first, c.IsText) (texts' : ∀ c ∈ second, c.IsText)
    (same : first.map Component.text = second.map Component.text) : first = second := by
  induction first generalizing second with
  | nil => exact (List.map_eq_nil_iff.mp same.symm).symm
  | cons a first ih =>
    cases second with
    | nil => cases same
    | cons b second =>
      obtain ⟨head, tail⟩ := List.cons.inj same
      rw [(texts a List.mem_cons_self).text_inj (texts' b List.mem_cons_self) head,
        ih (fun c mem => texts c (List.mem_cons_of_mem a mem)) (fun c mem => texts' c (List.mem_cons_of_mem b mem)) tail]

lemma pieces_ofComponents {some : List Component} (notEmpty : some ≠ []) (noSlash : ∀ c ∈ some, '/' ∉ c.text) :
    pieces (ofComponents some) = some.map Component.text := by
  rw [pieces, ofComponents, String.toList_ofList]
  refine List.splitOn_intercalate '/' (fun text mem => ?_) (by simpa using notEmpty)
  obtain ⟨c, inside, rfl⟩ := List.mem_map.mp mem
  exact noSlash c inside

/-- A path of components tells them, unless it is the root alone. -/
lemma ofComponents_injective {first second : List Component} (texts : ∀ c ∈ first, c.IsText)
    (texts' : ∀ c ∈ second, c.IsText) (noRoot : first ≠ [.rootDir]) (noRoot' : second ≠ [.rootDir])
    (same : ofComponents first = ofComponents second) : first = second := by
  have alone {l : List Component} (texts : ∀ c ∈ l, c.IsText) (noRoot : l ≠ [.rootDir])
      (empty : ofComponents [] = ofComponents l) : l = [] := by
    by_contra notEmpty
    have split := pieces_ofComponents notEmpty fun c mem => (texts c mem).1
    rw [← empty] at split
    cases l with
    | nil => exact notEmpty rfl
    | cons c l =>
      obtain ⟨blank, none⟩ := List.cons.inj split
      have root : c = .rootDir :=
        (texts c List.mem_cons_self).text_inj ⟨List.not_mem_nil, .inl rfl⟩ blank.symm
      rw [root, List.map_eq_nil_iff.mp none.symm] at noRoot
      exact noRoot rfl
  by_cases empty : first = []
  · subst empty
    exact (alone texts' noRoot' same).symm
  by_cases empty' : second = []
  · subst empty'
    exact alone texts noRoot same.symm
  have split := pieces_ofComponents empty fun c mem => (texts c mem).1
  rw [same, pieces_ofComponents empty' fun c mem => (texts' c mem).1] at split
  exact map_text_inj texts texts' split.symm

/-- The components of a path that is written with them. -/
lemma filterMap_pieces_ofComponents {inner : List Component} (all : ∀ c ∈ inner, c.IsInner) :
    (pieces (ofComponents inner)).filterMap pieceComponent = inner := by
  by_cases empty : inner = []
  · subst empty
    decide
  · rw [pieces_ofComponents empty fun c mem => (all c mem).1, List.filterMap_map]
    conv_rhs => rw [← List.map_id inner]
    exact List.filterMap_eq_map_iff_forall_eq_some.mpr fun c mem => (all c mem).2

/-- The components of a path that is joined are added. -/
lemma components_join_ofComponents (path : String) {inner : List Component} (all : ∀ c ∈ inner, c.IsInner) :
    components (join path (ofComponents inner)) = components path ++ inner := by
  have inside := filterMap_pieces_ofComponents all
  by_cases empty : inner = []
  · subst empty
    rw [components_join_pieces (by decide) (by decide), inside]
  · obtain ⟨c, rest, rfl⟩ := List.exists_cons_of_ne_nil empty
    have here := all c List.mem_cons_self
    have split := pieces_ofComponents empty fun c mem => (all c mem).1
    have relative : (ofComponents (c :: rest)).toList.head? ≠ some '/' := by
      intro root
      obtain ⟨text, whole⟩ := List.head?_eq_some_iff.mp root
      rw [pieces, whole, List.splitOn_cons_eq_if_modifyHead, if_pos (beq_self_eq_true _)] at split
      have is := here.2
      rw [← (List.cons.inj split).1] at is
      cases is
    have noDot : (pieces (ofComponents (c :: rest))).head? ≠ some ['.'] := by
      rw [split]
      intro dot
      have is := here.2
      rw [Option.some.inj dot] at is
      cases is
    rw [components_join_pieces relative noDot, inside]

end ArchipelagoXL.Paths
