import ArchipelagoXL.Lib.Trimming
import ArchipelagoXL.Lobby.Yaml
import Mathlib.Data.List.Forall2

/-!
# The documents of an upload

What `parse_raw_yamls` makes of texts that hold one document each, and what it makes of the bundle that
`YamlBundle::as_yaml` joins the stored documents to. A text has the separators at its start and end taken off before
it is joined with the others and again after it was cut out, whether or not they stand on lines of their own.

So an upload is stored as it is, and can be read again from its bundle, exactly if no document starts or ends with
three dashes and no byte-order mark stands in the way (`uploads_unaltered_iff`).
-/

namespace ArchipelagoXL.Lobby

open Trimming

/-- What a separator starts with. -/
def marker : List Char := "---".toList

def bom : List Char := ['\ufeff']

/-- No line of the text starts like a separator. -/
def NoMarker (l : List Char) : Prop := ∀ line ∈ l.splitOn '\n', ¬ marker <+: line

/-- A text without a byte-order mark at its start. -/
def withoutBom (l : List Char) : List Char := if bom.isPrefixOf l then l.tail else l

/-- A text without the whitespace around it and a byte-order mark at its start: the document that is uploaded. -/
def original (s : String) : String := String.ofList (trim (withoutBom (trim s.toList)))

/-- Rust `YamlBundle`. -/
structure YamlBundle (V : Type) where
  yamls : List (Yaml V)

/-- Rust `as_yaml`. -/
def YamlBundle.asYaml {V : Type} (self : YamlBundle V) : String :=
  "\n---\n".intercalate (self.yamls.map (·.currentContent))

/-- The texts that `parse_raw_yamls` returns. -/
def documentTexts (lib : YamlLib) (yamls : List String) : Except String (List String) :=
  (parseRawYamls lib yamls).map fun documents => documents.map Prod.fst

/-! ## The YAML libraries -/

def Blank (s : String) : Prop := ∀ c ∈ s.toList, isWhitespace c = true

/-- The library can read the text. -/
def YamlLib.Reads (lib : YamlLib) (s : String) : Prop := ∃ file, lib.readYaml s = .ok file

/-- A document is what stands between two separators, with the end of its last line or without. -/
def IsDocument (piece : String) (doc : Except Unit String) : Prop := doc = .ok piece ∨ doc = .ok (piece ++ "\n")

/-- The documents of the pieces between the separators; a blank piece may be left out. -/
inductive CutInto : List String → List (Except Unit String) → Prop
  | nil : CutInto [] []
  | keep {piece doc pieces docs} : IsDocument piece doc → CutInto pieces docs → CutInto (piece :: pieces) (doc :: docs)
  | skip {piece pieces docs} : Blank piece → CutInto pieces docs → CutInto (piece :: pieces) docs

/-- What the code relies on: a text is cut exactly at the lines that start like a separator, a blank text is no YAML
with a game and a name, and a line that ends reads like one that the text ends with. -/
structure YamlLib.SplitsAtMarkers (lib : YamlLib) : Prop where
  cuts : ∀ pieces, (∀ piece ∈ pieces, NoMarker piece.toList) →
    CutInto pieces (lib.documents ("\n---\n".intercalate pieces))
  blank : ∀ s, Blank s → ¬ lib.Reads s
  lineEnd : ∀ s, lib.Reads (s ++ "\n") ↔ lib.Reads s

/-- The text is kept as it is: what is left without whitespace and one byte-order mark does not start with another,
nor start or end with dashes, and can be read. -/
structure Kept (lib : YamlLib) (s : String) : Prop where
  oneBom : ¬ bom <+: withoutBom (trim s.toList)
  start : ¬ marker <+: (original s).toList
  ending : ¬ marker <:+ (original s).toList
  reads : lib.Reads (String.ofList (withoutBom (trim s.toList)))

/-! ## Patterns at an end -/

section
variable {p l : List Char}

lemma isPrefixOf_iff : p.isPrefixOf l = true ↔ p <+: l := List.isPrefixOf_iff_prefix

lemma dropFront_suffix (p : List Char) (n : ℕ) (l : List Char) : dropFront p n l <:+ l := by
  induction n generalizing l with
  | zero => exact List.suffix_refl l
  | succ n ih =>
    rw [dropFront]
    split
    · exact (ih _).trans (List.drop_suffix _ _)
    · exact List.suffix_refl l

lemma dropFront_of_not_isPrefix (other : ¬ p <+: l) (n : ℕ) : dropFront p n l = l := by
  cases n with
  | zero => rfl
  | succ n => rw [dropFront, if_neg (by rwa [isPrefixOf_iff])]

/-- With enough fuel nothing is left to drop. -/
lemma not_isPrefix_dropFront (some : p ≠ []) {n : ℕ} (enough : l.length ≤ n) : ¬ p <+: dropFront p n l := by
  induction n generalizing l with
  | zero =>
    rw [List.eq_nil_of_length_eq_zero (Nat.le_zero.mp enough)]
    intro starts
    exact some (List.prefix_nil.mp starts)
  | succ n ih =>
    rw [dropFront]
    split
    case isTrue starts =>
      apply ih
      have pos := List.length_pos_iff.mpr some
      have le := (isPrefixOf_iff.mp starts).length_le
      rw [List.length_drop]
      omega
    case isFalse other => rwa [isPrefixOf_iff] at other

lemma trimStartMatches_suffix (p l : List Char) : trimStartMatches p l <:+ l := dropFront_suffix p _ l

lemma trimStartMatches_of_not_isPrefix (other : ¬ p <+: l) : trimStartMatches p l = l :=
  dropFront_of_not_isPrefix other _

lemma not_isPrefix_trimStartMatches (some : p ≠ []) : ¬ p <+: trimStartMatches p l :=
  not_isPrefix_dropFront some (Nat.le_refl _)

/-- Where the pattern starts a text, what is left is behind it. -/
lemma trimStartMatches_append (p l : List Char) : trimStartMatches p (p ++ l) <:+ l := by
  rcases List.eq_nil_or_concat p with rfl | ⟨front, c, rfl⟩
  · exact trimStartMatches_suffix [] l
  · rw [trimStartMatches, List.length_append, List.concat_eq_append, List.length_append, List.length_singleton,
      show front.length + 1 + l.length = front.length + l.length + 1 by omega, dropFront,
      if_pos (isPrefixOf_iff.mpr (List.prefix_append _ _)), List.drop_left]
    exact dropFront_suffix _ _ _

lemma trimEndMatches_isPrefix (p l : List Char) : trimEndMatches p l <+: l := by
  rw [← List.reverse_suffix, trimEndMatches, List.reverse_reverse]
  exact trimStartMatches_suffix _ _

lemma trimEndMatches_of_not_suffix (other : ¬ p <:+ l) : trimEndMatches p l = l := by
  rw [trimEndMatches, trimStartMatches_of_not_isPrefix (by rwa [List.reverse_prefix]), List.reverse_reverse]

lemma trimEndMatches_append (p l : List Char) : trimEndMatches p (l ++ p) <+: l := by
  rw [← List.reverse_suffix, trimEndMatches, List.reverse_reverse, List.reverse_append]
  exact trimStartMatches_append _ _

end

/-! ## The text of one document -/

/-- The characters that are left of an uploaded text. -/
def rawPiece (l : List Char) : List Char :=
  trimEndMatches marker (trimStartMatches marker (trimStartMatches bom (trim l)))

/-- The characters that are left of a document. -/
def finalText (l : List Char) : List Char := trim (trimStartMatches marker (trim l))

lemma toList_stripRaw (s : String) : (stripRaw s).toList = rawPiece s.toList := String.toList_ofList

lemma toList_stripDocument (s : String) : (stripDocument s).toList = finalText s.toList := String.toList_ofList

lemma toList_original (s : String) : (original s).toList = trim (withoutBom (trim s.toList)) := String.toList_ofList

lemma trim_eq (l : List Char) : trim l = trimmed isWhitespace l := rfl

lemma bare_of_ends {l : List Char} {c : Char} (visible : isWhitespace c = false) (first : l.head? = some c)
    (last : l.getLast? = some c) : Bare isWhitespace l := by
  constructor
  · rw [first]
    exact fun x mem => Option.mem_some.mp mem ▸ visible
  · rw [last]
    exact fun x mem => Option.mem_some.mp mem ▸ visible

lemma marker_bare : Bare isWhitespace marker := bare_of_ends (by decide : isWhitespace '-' = false) rfl rfl

lemma bom_bare : Bare isWhitespace bom := bare_of_ends (by decide : isWhitespace '\ufeff' = false) rfl rfl

section
variable {l : List Char}

lemma withoutBom_bom (l : List Char) : withoutBom (bom ++ l) = l := by
  rw [withoutBom, if_pos (isPrefixOf_iff.mpr (List.prefix_append _ _))]
  rfl

lemma withoutBom_of_not_isPrefix (other : ¬ bom <+: l) : withoutBom l = l := by
  rw [withoutBom, if_neg (by rwa [isPrefixOf_iff])]

lemma withoutBom_suffix (l : List Char) : withoutBom l <:+ l := by
  rw [withoutBom]
  split
  · exact List.tail_suffix l
  · exact List.suffix_refl l

/-- All byte-order marks are dropped, which may be more than the first. -/
lemma trimStartMatches_bom_suffix (l : List Char) : trimStartMatches bom l <:+ withoutBom l := by
  by_cases starts : bom <+: l
  · obtain ⟨rest, rfl⟩ := starts
    rw [withoutBom_bom]
    exact trimStartMatches_append bom rest
  · rw [withoutBom_of_not_isPrefix starts]
    exact trimStartMatches_suffix bom l

lemma trimStartMatches_bom (one : ¬ bom <+: withoutBom l) : trimStartMatches bom l = withoutBom l := by
  by_cases starts : bom <+: l
  · obtain ⟨rest, rfl⟩ := starts
    rw [withoutBom_bom] at one ⊢
    exact dropFront_of_not_isPrefix one _
  · rw [withoutBom_of_not_isPrefix starts]
    exact trimStartMatches_of_not_isPrefix starts

/-- What is dropped at the start makes the trimmed text shorter. -/
lemma length_trim_lt {p rest : List Char} (bare : Bare isWhitespace p) (some : p ≠ []) (starts : p <+: l)
    (left : ∀ more, l = p ++ more → rest <:+ more) : (trim rest).length < (trim l).length := by
  obtain ⟨more, rfl⟩ := starts
  cases p with
  | nil => exact absurd rfl some
  | cons c p =>
    exact Nat.lt_of_le_of_lt (length_trimmed_le_of_suffix (left more rfl))
      (length_trimmed_lt_of_append List.mem_cons_self (bare.first c rfl) more)

lemma length_trim_bom_lt (starts : bom <+: withoutBom l) :
    (trim (trimStartMatches bom l)).length < (trim (withoutBom l)).length := by
  apply length_trim_lt bom_bare (by decide) starts
  intro more split
  -- the text starts with the mark whether one was dropped or not
  by_cases first : bom <+: l
  · obtain ⟨rest, rfl⟩ := first
    rw [withoutBom_bom] at split
    have behind := trimStartMatches_append bom more
    rw [← split] at behind
    rw [trimStartMatches, List.length_append, show bom.length + rest.length = rest.length + 1 from Nat.add_comm _ _,
      dropFront, if_pos (isPrefixOf_iff.mpr (List.prefix_append _ _)), List.drop_left]
    exact behind
  · rw [withoutBom_of_not_isPrefix first] at split
    rw [split]
    exact trimStartMatches_append bom more

lemma length_trim_start_lt (starts : marker <+: l) : (trim (trimStartMatches marker l)).length < (trim l).length := by
  apply length_trim_lt marker_bare (by decide) starts
  rintro more rfl
  exact trimStartMatches_append marker more

lemma length_trim_end_lt (ends : marker <:+ l) : (trim (trimEndMatches marker l)).length < (trim l).length := by
  obtain ⟨front, rfl⟩ := ends
  apply Nat.lt_of_le_of_lt (length_trimmed_le_of_isPrefix (trimEndMatches_append marker front))
  exact length_trimmed_lt_of_append_right (List.mem_cons_self (a := '-')) (by decide) front

/-- A text is shorter after each of the steps. -/
lemma length_finalText_le (l : List Char) : (finalText l).length ≤ (trim l).length := by
  have le := length_trimmed_le_of_suffix (p := isWhitespace) (trimStartMatches_suffix marker (trim l))
  rwa [trim_eq l, trimmed_trimmed, ← trim_eq] at le

/-- A text of full length after the last step did not start with dashes. -/
lemma finalText_of_length (same : (finalText l).length = (trim l).length) :
    finalText l = trim l ∧ ¬ marker <+: trim l := by
  have other : ¬ marker <+: trim l := by
    intro starts
    have lt := length_trim_start_lt starts
    rw [trim_eq (trim l), trim_eq l, trimmed_trimmed, ← trim_eq] at lt
    rw [finalText] at same
    omega
  refine ⟨?_, other⟩
  rw [finalText, trimStartMatches_of_not_isPrefix other]
  exact trimmed_trimmed _ _

/-- A trimmed text without its byte-order mark ends like the text. -/
lemma bare_end (l : List Char) : ∀ x ∈ (withoutBom (trim l)).getLast?, isWhitespace x = false := by
  intro x last
  obtain ⟨front, whole⟩ := withoutBom_suffix (trim l)
  have some : withoutBom (trim l) ≠ [] := by
    rintro empty
    rw [empty] at last
    cases last
  apply (bare_trimmed isWhitespace l).last
  rw [← trim_eq, ← whole, List.getLast?_append_of_ne_nil _ some]
  exact last

/-- What is left of a text without its byte-order mark, if it does not start or end with dashes, is all of it. -/
lemma rawPiece_eq (one : ¬ bom <+: withoutBom (trim l)) (start : ¬ marker <+: trim (withoutBom (trim l)))
    (ending : ¬ marker <:+ trim (withoutBom (trim l))) : rawPiece l = withoutBom (trim l) := by
  have starts : ¬ marker <+: withoutBom (trim l) := fun starts =>
    start (prefix_trimmed marker_bare (by decide) starts)
  have ends : ¬ marker <:+ withoutBom (trim l) := fun ends =>
    ending (suffix_trimmed marker_bare (by decide) ends)
  rw [rawPiece, trimStartMatches_bom one, trimStartMatches_of_not_isPrefix starts, trimEndMatches_of_not_suffix ends]

/-- The document of a text is all of it exactly if it has one byte-order mark at most and does not start or end with
dashes. -/
lemma finalText_rawPiece_iff : finalText (rawPiece l) = trim (withoutBom (trim l)) ↔
    ¬ bom <+: withoutBom (trim l) ∧ ¬ marker <+: trim (withoutBom (trim l)) ∧
      ¬ marker <:+ trim (withoutBom (trim l)) := by
  constructor
  · intro same
    -- each step may only make the text shorter, so none does
    have last := length_finalText_le (rawPiece l)
    have third := length_trimmed_le_of_isPrefix (p := isWhitespace)
      (trimEndMatches_isPrefix marker (trimStartMatches marker (trimStartMatches bom (trim l))))
    have second := length_trimmed_le_of_suffix (p := isWhitespace)
      (trimStartMatches_suffix marker (trimStartMatches bom (trim l)))
    have first := length_trimmed_le_of_suffix (p := isWhitespace) (trimStartMatches_bom_suffix (trim l))
    simp only [← trim_eq] at third second first
    rw [← rawPiece] at third
    have length := congrArg List.length same
    have one : ¬ bom <+: withoutBom (trim l) := by
      intro starts
      have lt := length_trim_bom_lt starts
      omega
    have ends : ¬ marker <:+ trimStartMatches marker (trimStartMatches bom (trim l)) := by
      intro ends
      have lt := length_trim_end_lt ends
      rw [← rawPiece] at lt
      omega
    obtain ⟨whole, start⟩ := finalText_of_length (l := rawPiece l) (by omega)
    rw [← whole, same] at start
    refine ⟨one, start, ?_⟩
    intro ending
    rw [← same, whole, rawPiece, trimEndMatches_of_not_suffix ends, trimStartMatches_bom one] at ending
    rw [trimStartMatches_bom one] at ends
    refine ends (ending.trans (trimmed_suffix ?_))
    intro x atEnd
    obtain ⟨front, whole⟩ := trimStartMatches_suffix marker (withoutBom (trim l))
    apply bare_end l x
    rw [← whole, List.getLast?_append,
      show (trimStartMatches marker (withoutBom (trim l))).getLast? = some x from atEnd]
    rfl
  · rintro ⟨one, start, ending⟩
    rw [rawPiece_eq one start ending, finalText, trimStartMatches_of_not_isPrefix start]
    exact trimmed_trimmed _ _

end

/-! ## Lines -/

section
variable {p l r : List Char}

/-- What has no line break starts a text if it starts the first line. -/
lemma prefix_line_iff (noBreak : '\n' ∉ p) : p <+: l ++ '\n' :: r ↔ p <+: l := by
  constructor
  · intro starts
    have line : l ++ ['\n'] <+: l ++ '\n' :: r := by
      rw [List.prefix_append_right_inj]
      exact ⟨r, rfl⟩
    rcases List.prefix_or_prefix_of_prefix starts line with shorter | longer
    · rcases List.prefix_concat_iff.mp shorter with rfl | shorter
      · exact absurd (by simp) noBreak
      · exact shorter
    · exact absurd (longer.subset (by simp)) noBreak
  · exact fun starts => starts.trans (List.prefix_append _ _)

lemma suffix_line_iff (noBreak : '\n' ∉ p) : p <:+ l ++ '\n' :: r ↔ p <:+ r := by
  constructor
  · intro ends
    rcases List.suffix_or_suffix_of_suffix ends (List.suffix_append l ('\n' :: r)) with shorter | longer
    · rcases List.suffix_cons_iff.mp shorter with rfl | shorter
      · exact absurd List.mem_cons_self noBreak
      · exact shorter
    · exact absurd (longer.subset List.mem_cons_self) noBreak
  · exact fun ends => (ends.trans (List.suffix_cons '\n' r)).trans (List.suffix_append _ _)

/-- What starts with a line break stands behind the first line. -/
lemma infix_line_iff (noBreak : '\n' ∉ l) :
    '\n' :: p <:+: l ++ '\n' :: r ↔ p <+: r ∨ '\n' :: p <:+: r := by
  constructor
  · rintro ⟨before, after, whole⟩
    rw [List.append_assoc, List.cons_append] at whole
    rcases List.append_eq_append_iff.mp whole with ⟨more, split, rest⟩ | ⟨more, split, rest⟩
    · cases more with
      | nil =>
        left
        exact ⟨after, (List.cons.inj rest).2⟩
      | cons c more =>
        obtain rfl := (List.cons.inj rest).1
        exact absurd (by rw [split]; simp) noBreak
    · cases more with
      | nil =>
        left
        exact ⟨after, ((List.cons.inj rest).2).symm⟩
      | cons c more =>
        right
        refine ⟨more, after, ?_⟩
        rw [(List.cons.inj rest).2]
        simp
  · rintro (starts | inside)
    · obtain ⟨rest, rfl⟩ := starts
      exact ⟨l, rest, by simp⟩
    · exact inside.trans ((List.suffix_cons '\n' r).trans (List.suffix_append l _)).isInfix

/-- A text is one line, or a line with more behind its end. -/
lemma lines_cases (l : List Char) : '\n' ∉ l ∨ ∃ line rest, l = line ++ '\n' :: rest ∧ '\n' ∉ line := by
  by_cases some : '\n' ∈ l
  · right
    obtain ⟨line, rest, whole, noBreak⟩ := List.eq_append_cons_of_mem some
    exact ⟨line, rest, whole, noBreak⟩
  · left
    exact some

lemma noMarker_single (noBreak : '\n' ∉ l) : NoMarker l ↔ ¬ marker <+: l := by
  rw [NoMarker, List.splitOn_eq_singleton noBreak]
  simp

lemma noMarker_line (noBreak : '\n' ∉ l) : NoMarker (l ++ '\n' :: r) ↔ ¬ marker <+: l ∧ NoMarker r := by
  rw [NoMarker, List.splitOn_append_cons_self, List.splitOn_eq_singleton noBreak]
  simp [NoMarker]

/-- No line starts like a separator if the text does not, nor any place behind a line break. -/
lemma noMarker_iff (l : List Char) : NoMarker l ↔ ¬ marker <+: l ∧ ¬ '\n' :: marker <:+: l := by
  induction size : l.length using Nat.strong_induction_on generalizing l with
  | _ n ih =>
    rcases lines_cases l with noBreak | ⟨line, rest, rfl, noBreak⟩
    · rw [noMarker_single noBreak]
      have notInside : ¬ '\n' :: marker <:+: l := fun inside => noBreak (inside.subset List.mem_cons_self)
      simp [notInside]
    · rw [noMarker_line noBreak, ih rest.length (by rw [← size, List.length_append, List.length_cons]; omega) rest rfl,
        prefix_line_iff (by decide), infix_line_iff noBreak]
      simp

/-- What is left of a text without separators has none either. -/
lemma noMarker_rawPiece (noMarker : NoMarker l) : NoMarker (rawPiece l) := by
  have left : rawPiece l <+: trimStartMatches marker (trimStartMatches bom (trim l)) := trimEndMatches_isPrefix _ _
  rw [noMarker_iff] at noMarker ⊢
  constructor
  · intro starts
    exact not_isPrefix_trimStartMatches (by decide) (starts.trans left)
  · intro inside
    refine noMarker.2 (inside.trans (left.isInfix.trans ?_))
    exact ((trimStartMatches_suffix _ _).trans (trimStartMatches_suffix _ _)).isInfix.trans (trimmed_isInfix _ _)

/-- A part of a text without separators that does not start like one has none either. -/
lemma NoMarker.of_isInfix (noMarker : NoMarker l) (inside : p <:+: l) (start : ¬ marker <+: p) : NoMarker p := by
  rw [noMarker_iff] at noMarker ⊢
  exact ⟨start, fun within => noMarker.2 (within.trans inside)⟩

end

/-! ## The documents of several texts -/

/-- The piece can be read and has the text as its document. -/
def PieceGives (lib : YamlLib) (piece text : String) : Prop := lib.Reads piece ∧ stripDocument piece = text

section
variable {lib : YamlLib}

lemma stripDocument_lineEnd (s : String) : stripDocument (s ++ "\n") = stripDocument s := by
  have same : trim (s ++ "\n").toList = trim s.toList := by
    rw [String.toList_append]
    exact trimmed_append_of_all (List.forall_mem_singleton.mpr (by decide)) _
  rw [stripDocument, same, stripDocument]

/-- What `parse_raw_yamls` makes of one document. -/
def DocumentGives (lib : YamlLib) (doc : Except Unit String) (text : String) : Prop :=
  ∃ piece, doc = .ok piece ∧ PieceGives lib piece text

/-- All turns succeed if each does. -/
lemma mapM_eq_ok_iff {A C E : Type} {f : A → Except E C} {l : List A} {results : List C} :
    l.mapM f = .ok results ↔ List.Forall₂ (fun a c => f a = .ok c) l results := by
  induction l generalizing results with
  | nil =>
    rw [List.mapM_nil, List.forall₂_nil_left_iff]
    exact ⟨fun same => (Except.ok.inj same).symm, fun empty => by rw [empty]; rfl⟩
  | cons a l ih =>
    rw [List.mapM_cons, List.forall₂_cons_left_iff]
    constructor
    · intro done
      cases first : f a with
      | error e =>
        rw [first] at done
        cases done
      | ok c =>
        cases rest : l.mapM f with
        | error e =>
          rw [first, rest] at done
          cases done
        | ok others =>
          rw [first, rest] at done
          exact ⟨c, others, rfl, ih.mp rest, (Except.ok.inj done).symm⟩
    · rintro ⟨c, others, first, rest, rfl⟩
      rw [first, ih.mpr rest]
      rfl

/-- The turn of `parse_raw_yamls` for a document. -/
def readDocument (lib : YamlLib) (doc : Except Unit String) : Except String (String × YamlFile) :=
  match doc with
  | .error _ => .error "Invalid yaml file. Syntax error."
  | .ok doc =>
    match lib.readYaml doc with
    | .error e => .error (readError e)
    | .ok parsed => .ok (stripDocument doc, parsed)

lemma readDocument_ok_iff {doc : Except Unit String} {text : String} :
    (∃ file, readDocument lib doc = .ok (text, file)) ↔ DocumentGives lib doc text := by
  constructor
  · rintro ⟨file, read⟩
    cases doc with
    | error e => cases read
    | ok piece =>
      cases reads : lib.readYaml piece with
      | error e =>
        simp only [readDocument, reads] at read
        cases read
      | ok file' =>
        simp only [readDocument, reads] at read
        exact ⟨piece, rfl, ⟨file', reads⟩, (Prod.mk.inj (Except.ok.inj read)).1⟩
  · rintro ⟨piece, rfl, ⟨file, reads⟩, rfl⟩
    refine ⟨file, ?_⟩
    simp only [readDocument, reads]

lemma documentTexts_eq_ok_iff {yamls texts : List String} : documentTexts lib yamls = .ok texts ↔
    List.Forall₂ (DocumentGives lib) (lib.documents ("\n---\n".intercalate (yamls.map stripRaw))) texts := by
  have parse : parseRawYamls lib yamls =
      (lib.documents ("\n---\n".intercalate (yamls.map stripRaw))).mapM (readDocument lib) := rfl
  rw [documentTexts, parse]
  generalize lib.documents ("\n---\n".intercalate (yamls.map stripRaw)) = docs
  constructor
  · intro done
    cases each : docs.mapM (readDocument lib) with
    | error e =>
      rw [each] at done
      cases done
    | ok pairs =>
      rw [each] at done
      rw [← Except.ok.inj done, List.forall₂_map_right_iff]
      exact (mapM_eq_ok_iff.mp each).imp fun doc pair read => readDocument_ok_iff.mp ⟨pair.2, read⟩
  · intro each
    have pairs : ∃ pairs, List.Forall₂ (fun doc pair => readDocument lib doc = .ok pair) docs pairs ∧
        pairs.map Prod.fst = texts := by
      induction each with
      | nil => exact ⟨[], .nil, rfl⟩
      | cons gives _ ih =>
        obtain ⟨file, read⟩ := readDocument_ok_iff.mpr gives
        obtain ⟨pairs, others, rfl⟩ := ih
        exact ⟨_, .cons read others, rfl⟩
    obtain ⟨pairs, done, rfl⟩ := pairs
    rw [mapM_eq_ok_iff.mpr done]
    rfl

lemma documentGives_ok_iff {piece text : String} :
    DocumentGives lib (.ok piece) text ↔ PieceGives lib piece text := by
  constructor
  · rintro ⟨_, same, gives⟩
    rwa [Except.ok.inj same]
  · exact fun gives => ⟨piece, rfl, gives⟩

lemma documentGives_iff {piece : String} {doc : Except Unit String} (same : IsDocument piece doc)
    (split : lib.SplitsAtMarkers) (text : String) : DocumentGives lib doc text ↔ PieceGives lib piece text := by
  rcases same with rfl | rfl
  · exact documentGives_ok_iff
  · rw [documentGives_ok_iff, PieceGives, PieceGives, split.lineEnd, stripDocument_lineEnd]

lemma CutInto.length_le {pieces : List String} {docs : List (Except Unit String)} (cut : CutInto pieces docs) :
    docs.length ≤ pieces.length := by
  induction cut with
  | nil => exact Nat.le_refl _
  | keep _ _ ih => exact Nat.succ_le_succ ih
  | skip _ _ ih => exact Nat.le_succ_of_le ih

/-- If there are as many documents as texts, each is the one of its piece. -/
lemma CutInto.gives_iff {pieces texts : List String} {docs : List (Except Unit String)} (cut : CutInto pieces docs)
    (split : lib.SplitsAtMarkers) (length : pieces.length = texts.length) :
    List.Forall₂ (DocumentGives lib) docs texts ↔ List.Forall₂ (PieceGives lib) pieces texts := by
  induction cut generalizing texts with
  | nil =>
    rw [List.eq_nil_of_length_eq_zero length.symm]
    exact ⟨fun _ => .nil, fun _ => .nil⟩
  | @keep piece doc pieces docs same _ ih =>
    cases texts with
    | nil => cases length
    | cons text texts =>
      rw [List.forall₂_cons, List.forall₂_cons, documentGives_iff same split, ih (Nat.succ.inj length)]
  | @skip piece pieces docs blank cut ih =>
    constructor
    · intro each
      have same := each.length_eq
      have le := cut.length_le
      rw [List.length_cons] at length
      omega
    · intro each
      cases each with
      | cons gives _ => exact absurd gives.1 (split.blank piece blank)

/-- What is returned for texts that are cut into some pieces. -/
lemma documentTexts_iff (split : lib.SplitsAtMarkers) {yamls pieces texts : List String}
    (whole : "\n---\n".intercalate (yamls.map stripRaw) = "\n---\n".intercalate pieces)
    (plain : ∀ piece ∈ pieces, NoMarker piece.toList) (length : pieces.length = texts.length) :
    documentTexts lib yamls = .ok texts ↔ List.Forall₂ (PieceGives lib) pieces texts := by
  rw [documentTexts_eq_ok_iff, whole]
  exact (split.cuts pieces plain).gives_iff split length

/-- A text is its own document exactly if it is kept. -/
lemma pieceGives_stripRaw_iff {s : String} : PieceGives lib (stripRaw s) (original s) ↔ Kept lib s := by
  have document : stripDocument (stripRaw s) = original s ↔
      finalText (rawPiece s.toList) = trim (withoutBom (trim s.toList)) := by
    rw [← String.toList_inj, toList_stripDocument, toList_stripRaw, toList_original]
  have raw (one : ¬ bom <+: withoutBom (trim s.toList)) (start : ¬ marker <+: (original s).toList)
      (ending : ¬ marker <:+ (original s).toList) : stripRaw s = String.ofList (withoutBom (trim s.toList)) := by
    rw [toList_original] at start ending
    rw [← String.toList_inj, toList_stripRaw, rawPiece_eq one start ending, String.toList_ofList]
  rw [PieceGives, document, finalText_rawPiece_iff, ← toList_original]
  constructor
  · rintro ⟨reads, one, start, ending⟩
    rw [raw one start ending] at reads
    exact ⟨one, start, ending, reads⟩
  · rintro ⟨one, start, ending, reads⟩
    rw [raw one start ending]
    exact ⟨reads, one, start, ending⟩

/-- The texts come back exactly if each is kept. -/
lemma documentTexts_original_iff (split : lib.SplitsAtMarkers) {texts : List String}
    (plain : ∀ t ∈ texts, NoMarker t.toList) :
    documentTexts lib texts = .ok (texts.map original) ↔ ∀ t ∈ texts, Kept lib t := by
  rw [documentTexts_iff split rfl, List.forall₂_map_left_iff, List.forall₂_map_right_iff, List.forall₂_same]
  · simp only [pieceGives_stripRaw_iff]
  · intro piece mem
    obtain ⟨t, known, rfl⟩ := List.mem_map.mp mem
    have noMarker := noMarker_rawPiece (plain t known)
    rwa [← toList_stripRaw] at noMarker
  · rw [List.length_map, List.length_map]

/-! ## The documents of a bundle -/

/-- Behind the first line of a text nothing is dropped at its start. -/
lemma dropFront_line {p : List Char} (noBreak : '\n' ∉ p) (n : ℕ) (l r : List Char) :
    dropFront p n (l ++ '\n' :: r) = dropFront p n l ++ '\n' :: r := by
  induction n generalizing l with
  | zero => rfl
  | succ n ih =>
    by_cases starts : p <+: l
    · have starts' : p <+: l ++ '\n' :: r := (prefix_line_iff noBreak).mpr starts
      rw [dropFront, dropFront, if_pos (isPrefixOf_iff.mpr starts), if_pos (isPrefixOf_iff.mpr starts'),
        List.drop_append_of_le_length starts.length_le, ih]
    · have other : ¬ p <+: l ++ '\n' :: r := fun starts' => starts ((prefix_line_iff noBreak).mp starts')
      rw [dropFront_of_not_isPrefix starts, dropFront_of_not_isPrefix other]

/-- More fuel than needed changes nothing. -/
lemma dropFront_fuel {p l : List Char} (some : p ≠ []) {n m : ℕ} (enough : l.length ≤ n) (enough' : l.length ≤ m) :
    dropFront p n l = dropFront p m l := by
  induction n generalizing l m with
  | zero =>
    have other : ¬ p <+: l := by
      rw [List.eq_nil_of_length_eq_zero (Nat.le_zero.mp enough)]
      exact fun starts => some (List.prefix_nil.mp starts)
    rw [dropFront_of_not_isPrefix other, dropFront_of_not_isPrefix other]
  | succ n ih =>
    by_cases starts : p <+: l
    · have pos := List.length_pos_iff.mpr some
      have le := starts.length_le
      obtain ⟨m, rfl⟩ := Nat.exists_eq_add_of_le' (Nat.lt_of_lt_of_le pos (Nat.le_trans le enough'))
      rw [dropFront, dropFront, if_pos (isPrefixOf_iff.mpr starts), if_pos (isPrefixOf_iff.mpr starts)]
      apply ih
      · rw [List.length_drop]
        omega
      · rw [List.length_drop]
        omega
    · rw [dropFront_of_not_isPrefix starts, dropFront_of_not_isPrefix starts]

lemma trimStartMatches_line {p : List Char} (some : p ≠ []) (noBreak : '\n' ∉ p) (l r : List Char) :
    trimStartMatches p (l ++ '\n' :: r) = trimStartMatches p l ++ '\n' :: r := by
  rw [trimStartMatches, dropFront_line noBreak, trimStartMatches]
  congr 1
  exact dropFront_fuel some (by rw [List.length_append]; omega) (Nat.le_refl _)

/-- A document that stands in a bundle as it is, but for a byte-order mark at its start. -/
structure Settled (s : String) : Prop where
  some : s.toList ≠ []
  bare : Bare isWhitespace s.toList
  noMarker : NoMarker s.toList
  ending : ¬ marker <:+ s.toList

lemma Settled.start {s : String} (settled : Settled s) : ¬ marker <+: s.toList :=
  ((noMarker_iff _).mp settled.noMarker).1

lemma Kept.settled {s : String} (kept : Kept lib s) (split : lib.SplitsAtMarkers) (plain : NoMarker s.toList) :
    Settled (original s) := by
  have inside : (original s).toList <:+: s.toList := by
    rw [toList_original]
    exact (trimmed_isInfix _ _).trans ((withoutBom_suffix _).isInfix.trans (trimmed_isInfix _ _))
  refine ⟨?_, ?_, plain.of_isInfix inside kept.start, kept.ending⟩
  · intro empty
    rw [toList_original, trim_eq, trimmed_eq_nil_iff] at empty
    refine split.blank _ ?_ kept.reads
    rwa [Blank, String.toList_ofList]
  · rw [toList_original]
    exact bare_trimmed _ _

lemma Settled.stripDocument_eq {s : String} (settled : Settled s) : stripDocument s = s := by
  rw [← String.toList_inj, toList_stripDocument, finalText, trim_eq s.toList, trimmed_of_bare settled.bare,
    trimStartMatches_of_not_isPrefix settled.start]
  exact trimmed_of_bare settled.bare

lemma toList_join {x : String} {xs : List String} (some : xs ≠ []) :
    ("\n---\n".intercalate (x :: xs)).toList =
      x.toList ++ '\n' :: (marker ++ '\n' :: ("\n---\n".intercalate xs).toList) := by
  rw [String.intercalate_cons_of_ne_nil some, String.toList_append, String.toList_append]
  simp [marker]

/-- A bundle ends like its last document. -/
lemma join_ends {x : String} {xs : List String} (settled : ∀ s ∈ x :: xs, Settled s) :
    (∀ c ∈ ("\n---\n".intercalate (x :: xs)).toList.getLast?, isWhitespace c = false) ∧
      ¬ marker <:+ ("\n---\n".intercalate (x :: xs)).toList := by
  induction xs generalizing x with
  | nil =>
    rw [String.intercalate_singleton]
    exact ⟨(settled x List.mem_cons_self).bare.last, (settled x List.mem_cons_self).ending⟩
  | cons y ys ih =>
    obtain ⟨last, ending⟩ := ih fun s mem => settled s (List.mem_cons_of_mem x mem)
    rw [toList_join (List.cons_ne_nil y ys), suffix_line_iff (by decide), suffix_line_iff (by decide)]
    refine ⟨?_, ending⟩
    intro c atEnd
    apply last
    have some : ("\n---\n".intercalate (y :: ys)).toList ≠ [] := by
      intro empty
      have first := (settled y (List.mem_cons_of_mem x List.mem_cons_self)).some
      cases ys with
      | nil => exact first (by rwa [String.intercalate_singleton] at empty)
      | cons z zs =>
        rw [toList_join (List.cons_ne_nil z zs)] at empty
        exact first (List.append_eq_nil_iff.mp empty).1
    rwa [List.getLast?_append_of_ne_nil _ (by simp), List.getLast?_cons_of_ne_nil (by simp),
      List.getLast?_append_of_ne_nil _ (by simp), List.getLast?_cons_of_ne_nil some] at atEnd

/-- What the start of a bundle loses before it is cut. -/
def withoutFront (s : String) : String :=
  String.ofList (trimStartMatches marker (trimStartMatches bom s.toList))

/-- A bundle is cut into its documents, the first without what it loses at its start. -/
lemma stripRaw_join {x : String} {xs : List String} (settled : ∀ s ∈ x :: xs, Settled s) :
    stripRaw ("\n---\n".intercalate (x :: xs)) = "\n---\n".intercalate (withoutFront x :: xs) := by
  obtain ⟨last, ending⟩ := join_ends settled
  have front : trimStartMatches marker (trimStartMatches bom ("\n---\n".intercalate (x :: xs)).toList) =
      ("\n---\n".intercalate (withoutFront x :: xs)).toList := by
    rcases List.eq_nil_or_concat xs with rfl | ⟨_, _, more⟩
    · rw [String.intercalate_singleton, String.intercalate_singleton, withoutFront, String.toList_ofList]
    · have some : xs ≠ [] := by simp [more]
      rw [toList_join some, toList_join some, trimStartMatches_line (by decide) (by decide),
        trimStartMatches_line (by decide) (by decide), withoutFront, String.toList_ofList]
  have bare : Bare isWhitespace ("\n---\n".intercalate (x :: xs)).toList := by
    refine ⟨?_, last⟩
    intro c first
    have head := settled x List.mem_cons_self
    apply head.bare.first
    cases xs with
    | nil => rwa [String.intercalate_singleton] at first
    | cons y ys =>
      rwa [toList_join (List.cons_ne_nil y ys), List.head?_append_of_ne_nil _ head.some] at first
  rw [← String.toList_inj, toList_stripRaw, rawPiece, trim_eq, trimmed_of_bare bare, front]
  apply trimEndMatches_of_not_suffix
  rw [← front]
  exact fun ends => ending (ends.trans ((trimStartMatches_suffix _ _).trans (trimStartMatches_suffix _ _)))

/-- The first document of a bundle comes back exactly if it has no byte-order mark and can be read. -/
lemma pieceGives_withoutFront_iff {x : String} (settled : Settled x) :
    PieceGives lib (withoutFront x) x ↔ lib.Reads x ∧ ¬ bom <+: x.toList := by
  have same (other : ¬ bom <+: x.toList) : withoutFront x = x := by
    rw [withoutFront, trimStartMatches_of_not_isPrefix other, trimStartMatches_of_not_isPrefix settled.start,
      String.ofList_toList]
  constructor
  · rintro ⟨reads, document⟩
    have other : ¬ bom <+: x.toList := by
      intro starts
      have final := length_finalText_le (withoutFront x).toList
      rw [← toList_stripDocument, document, withoutFront, String.toList_ofList] at final
      have second := length_trimmed_le_of_suffix (p := isWhitespace)
        (trimStartMatches_suffix marker (trimStartMatches bom x.toList))
      have first : (trim (trimStartMatches bom x.toList)).length < (trim x.toList).length := by
        apply length_trim_lt bom_bare (by decide) starts
        intro more whole
        rw [whole]
        exact trimStartMatches_append bom more
      rw [trim_eq x.toList, trimmed_of_bare settled.bare] at first
      simp only [← trim_eq] at second
      omega
    rw [same other] at reads
    exact ⟨reads, other⟩
  · rintro ⟨reads, other⟩
    rw [same other]
    exact ⟨reads, settled.stripDocument_eq⟩

/-- The documents of a bundle come back exactly if they can be read and the first has no byte-order mark. -/
lemma documentTexts_join_iff (split : lib.SplitsAtMarkers) {texts : List String}
    (settled : ∀ s ∈ texts, Settled s) : documentTexts lib ["\n---\n".intercalate texts] = .ok texts ↔
      (∀ s ∈ texts, lib.Reads s) ∧ ∀ s ∈ texts.head?, ¬ bom <+: s.toList := by
  cases texts with
  | nil =>
    have whole : "\n---\n".intercalate (["\n---\n".intercalate []].map stripRaw) =
        "\n---\n".intercalate [] := rfl
    rw [documentTexts_iff split whole (by simp) rfl]
    simp
  | cons x xs =>
    have whole : "\n---\n".intercalate (["\n---\n".intercalate (x :: xs)].map stripRaw) =
        "\n---\n".intercalate (withoutFront x :: xs) := by
      rw [List.map_singleton, String.intercalate_singleton, stripRaw_join settled]
    have length : (withoutFront x :: xs).length = (x :: xs).length := rfl
    rw [documentTexts_iff split whole _ length, List.forall₂_cons,
      pieceGives_withoutFront_iff (settled x List.mem_cons_self), List.forall₂_same]
    · have rest : (∀ s ∈ xs, PieceGives lib s s) ↔ ∀ s ∈ xs, lib.Reads s := by
        refine forall₂_congr fun s mem => ?_
        have document := (settled s (List.mem_cons_of_mem x mem)).stripDocument_eq
        exact ⟨fun gives => gives.1, fun reads => ⟨reads, document⟩⟩
      rw [rest, List.forall_mem_cons]
      simp only [List.head?_cons, Option.mem_some_iff, forall_eq']
      tauto
    · intro piece mem
      rcases List.mem_cons.mp mem with rfl | mem
      · rw [withoutFront, String.toList_ofList]
        apply (settled x List.mem_cons_self).noMarker.of_isInfix
        · exact ((trimStartMatches_suffix _ _).trans (trimStartMatches_suffix _ _)).isInfix
        · exact not_isPrefix_trimStartMatches (by decide)
      · exact (settled piece (List.mem_cons_of_mem x mem)).noMarker

/-- The uploaded texts are stored as they are, alone and together, and come back from the bundle of what is
stored. -/
structure Unaltered (lib : YamlLib) (texts : List String) (bundle : String) : Prop where
  alone : ∀ t ∈ texts, documentTexts lib [t] = .ok [original t]
  together : documentTexts lib texts = .ok (texts.map original)
  again : documentTexts lib [bundle] = .ok (texts.map original)

/-- Texts without separators are stored as they are and come back from their bundle exactly if each is kept and can
still be read from there, and the first does not start with a byte-order mark when it is stored. -/
theorem uploads_unaltered_iff {V : Type} (split : lib.SplitsAtMarkers) {texts : List String}
    (plain : ∀ t ∈ texts, NoMarker t.toList) {bundle : YamlBundle V}
    (stored : bundle.yamls.map (·.currentContent) = texts.map original) :
    Unaltered lib texts bundle.asYaml ↔
      (∀ t ∈ texts, Kept lib t ∧ lib.Reads (original t)) ∧
        ∀ t ∈ texts.head?, ¬ bom <+: (original t).toList := by
  have bundled (kept : ∀ t ∈ texts, Kept lib t) : documentTexts lib [bundle.asYaml] = .ok (texts.map original) ↔
      (∀ t ∈ texts, lib.Reads (original t)) ∧ ∀ t ∈ texts.head?, ¬ bom <+: (original t).toList := by
    rw [YamlBundle.asYaml, stored, documentTexts_join_iff split]
    · simp
    · intro s mem
      obtain ⟨t, known, rfl⟩ := List.mem_map.mp mem
      exact (kept t known).settled split (plain t known)
  constructor
  · rintro ⟨_, together, again⟩
    have kept := (documentTexts_original_iff split plain).mp together
    obtain ⟨reads, first⟩ := (bundled kept).mp again
    exact ⟨fun t mem => ⟨kept t mem, reads t mem⟩, first⟩
  · rintro ⟨each, first⟩
    have kept : ∀ t ∈ texts, Kept lib t := fun t mem => (each t mem).1
    refine ⟨?_, (documentTexts_original_iff split plain).mpr kept, ?_⟩
    · intro t mem
      have single : ∀ t' ∈ [t], Kept lib t' := by simpa using kept t mem
      exact (documentTexts_original_iff split (by simpa using plain t mem)).mpr single
    · exact (bundled kept).mpr ⟨fun t mem => (each t mem).2, first⟩

end

/-! ## A library for samples -/

/-- The texts between the lines that start like a separator. -/
def cutAtMarkers (l : List Char) : List (List Char) :=
  ((l.splitOn '\n').splitOnP fun line => marker.isPrefixOf line).map (['\n'].intercalate ·)

/-- What stands behind a key at the start of a line. -/
def field (key s : String) : Option String :=
  (s.toList.splitOn '\n').findSome? fun line =>
    if key.toList.isPrefixOf line then some (String.ofList (line.drop key.toList.length)) else none

/-- A reader of YAMLs that have their game and name on lines of their own. -/
def lineLib : YamlLib where
  documents s := ((cutAtMarkers s.toList).filter fun l => !l.isEmpty).map fun l => .ok (String.ofList l)
  readYaml s :=
    match field "game: " s, field "name: " s with
    | some game, some name => .ok ⟨.name game, name⟩
    | _, _ => .error "missing field"

lemma lineLib_documents (s : String) : lineLib.documents s =
    ((cutAtMarkers s.toList).filter fun l => !l.isEmpty).map fun l => .ok (String.ofList l) := rfl

lemma cutAtMarkers_single {l : List Char} (plain : NoMarker l) : cutAtMarkers l = [l] := by
  rw [cutAtMarkers, List.splitOnP_eq_singleton, List.map_singleton, List.intercalate_splitOn]
  intro line mem
  rw [← Bool.not_eq_true, isPrefixOf_iff]
  exact plain line mem

lemma cutAtMarkers_join {l r : List Char} (plain : NoMarker l) :
    cutAtMarkers (l ++ '\n' :: (marker ++ '\n' :: r)) = l :: cutAtMarkers r := by
  rw [cutAtMarkers, List.splitOn_append_cons_self, List.splitOn_append_cons_self,
    List.splitOn_eq_singleton (by decide : '\n' ∉ marker), List.singleton_append,
    List.splitOnP_append_cons_of_forall_mem _ _ (isPrefixOf_iff.mpr (List.prefix_refl marker)), List.map_cons,
    List.intercalate_splitOn, ← cutAtMarkers]
  intro line mem
  rw [← Bool.not_eq_true, isPrefixOf_iff]
  exact plain line mem

/-- The documents of some texts, as the library for samples finds them. -/
lemma CutInto.ofList {piece : String} {pieces : List String} {docs : List (List Char)}
    (cut : CutInto pieces ((docs.filter fun l => !l.isEmpty).map fun l => .ok (String.ofList l))) :
    CutInto (piece :: pieces)
      (((piece.toList :: docs).filter fun l => !l.isEmpty).map fun l => .ok (String.ofList l)) := by
  by_cases empty : piece.toList = []
  · rw [List.filter_cons_of_neg (by simp [empty])]
    refine .skip ?_ cut
    rw [Blank, empty]
    simp
  · rw [List.filter_cons_of_pos (by simpa using empty), List.map_cons, String.ofList_toList]
    exact .keep (.inl rfl) cut

/-- A line is a part of the text. -/
lemma infix_of_mem_lines {line l : List Char} (mem : line ∈ l.splitOn '\n') : line <:+: l := by
  induction size : l.length using Nat.strong_induction_on generalizing l with
  | _ n ih =>
    rcases lines_cases l with noBreak | ⟨first, rest, rfl, noBreak⟩
    · rw [List.splitOn_eq_singleton noBreak, List.mem_singleton] at mem
      rw [mem]
    · rw [List.splitOn_append_cons_self, List.splitOn_eq_singleton noBreak, List.singleton_append] at mem
      rcases List.mem_cons.mp mem with rfl | mem
      · exact (List.prefix_append _ _).isInfix
      · have inside := ih rest.length (by rw [← size, List.length_append, List.length_cons]; omega) mem rfl
        exact inside.trans ((List.suffix_cons '\n' rest).trans (List.suffix_append _ _)).isInfix

lemma lineLib_reads_iff {s : String} :
    lineLib.Reads s ↔ (field "game: " s).isSome = true ∧ (field "name: " s).isSome = true := by
  cases game : field "game: " s <;> cases name : field "name: " s <;> simp [YamlLib.Reads, lineLib, game, name]

lemma field_lineEnd {key : String} (some : key.toList ≠ []) (s : String) : field key (s ++ "\n") = field key s := by
  have ends : (s ++ "\n").toList = s.toList ++ '\n' :: [] := String.toList_append
  have noKey : key.toList.isPrefixOf [] = false := by
    rw [← Bool.not_eq_true, isPrefixOf_iff]
    exact fun starts => some (List.prefix_nil.mp starts)
  rw [field, ends, List.splitOn_append_cons_self, List.findSome?_append, List.splitOn_nil, List.findSome?_cons, noKey]
  simp [field]

lemma field_blank {s : String} (blank : Blank s) {key : String} {c : Char} (mem : c ∈ key.toList)
    (printed : isWhitespace c = false) : field key s = none := by
  rw [field, List.findSome?_eq_none_iff]
  intro line inside
  rw [if_neg]
  intro starts
  have kind := blank c ((infix_of_mem_lines inside).subset ((isPrefixOf_iff.mp starts).subset mem))
  rw [printed] at kind
  cases kind

lemma lineLib_splits : lineLib.SplitsAtMarkers := by
  refine ⟨?_, ?_, ?_⟩
  · intro pieces plain
    induction pieces with
    | nil => exact .nil
    | cons x xs ih =>
      have rest := ih fun piece mem => plain piece (List.mem_cons_of_mem x mem)
      have first := plain x List.mem_cons_self
      rw [lineLib_documents] at rest ⊢
      cases xs with
      | nil =>
        rw [String.intercalate_singleton, cutAtMarkers_single first]
        exact .ofList .nil
      | cons y ys =>
        rw [toList_join (List.cons_ne_nil y ys), cutAtMarkers_join first]
        exact .ofList rest
  · intro s blank reads
    rw [lineLib_reads_iff, field_blank blank (c := 'g') (by decide) (by decide)] at reads
    cases reads.1
  · intro s
    rw [lineLib_reads_iff, lineLib_reads_iff, field_lineEnd (by decide), field_lineEnd (by decide)]

/-- Texts of two players, one with a byte-order mark, the other with line breaks around it. -/
def twoPlayers : List String := ["\ufeffgame: Clique\nname: Ann", "\ngame: Clique\nname: Bob\n"]

/-- The stored rows of the two. -/
def twoRows : YamlBundle ℕ :=
  ⟨twoPlayers.map fun s => { sampleRow .validated 0 with content := original s }⟩

lemma twoPlayers_kept : ∀ t ∈ twoPlayers, Kept lineLib t ∧ lineLib.Reads (original t) := by
  intro t mem
  rw [twoPlayers, List.mem_cons, List.mem_singleton] at mem
  rcases mem with rfl | rfl
  · exact ⟨⟨by decide, by decide, by decide, ⟨_, rfl⟩⟩, ⟨_, rfl⟩⟩
  · exact ⟨⟨by decide, by decide, by decide, ⟨_, rfl⟩⟩, ⟨_, rfl⟩⟩

/-- The texts of two players are stored as they are. -/
theorem two_players_unaltered : Unaltered lineLib twoPlayers twoRows.asYaml := by
  have plain : ∀ t ∈ twoPlayers, NoMarker t.toList := by
    simp only [noMarker_iff]
    decide
  have stored : twoRows.yamls.map (·.currentContent) = twoPlayers.map original := rfl
  exact (uploads_unaltered_iff lineLib_splits plain stored).mpr ⟨twoPlayers_kept, by decide⟩

/-- A YAML whose last line ends with dashes. -/
def dashedText : String := "game: Clique\nname: Bob---"

/-- The dashes at the end of a text are taken for a separator: the player has another name than was uploaded. -/
theorem dashes_dropped : lineLib.SplitsAtMarkers ∧ NoMarker dashedText.toList ∧ lineLib.Reads dashedText ∧
    documentTexts lineLib [dashedText] = .ok ["game: Clique\nname: Bob"] ∧
      ¬ documentTexts lineLib [dashedText] = .ok [original dashedText] := by
  have plain : NoMarker dashedText.toList := by
    rw [noMarker_iff]
    decide
  have dropped : documentTexts lineLib [dashedText] = .ok ["game: Clique\nname: Bob"] := by
    refine (documentTexts_iff lineLib_splits (show _ = "\n---\n".intercalate [stripRaw dashedText] from rfl) ?_
      rfl).mpr (.cons ⟨⟨_, rfl⟩, by decide⟩ .nil)
    intro piece mem
    rw [List.mem_singleton.mp mem, toList_stripRaw]
    exact noMarker_rawPiece plain
  refine ⟨lineLib_splits, plain, ⟨_, rfl⟩, dropped, ?_⟩
  rw [dropped]
  intro same
  have other : ["game: Clique\nname: Bob"] ≠ [original dashedText] := by decide
  exact other (Except.ok.inj same)

end ArchipelagoXL.Lobby
