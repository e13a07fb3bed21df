import Mathlib.Data.List.Basic
import Mathlib.Tactic.Common

/-!
# Block text

The block style of YAML, in which a tree is written as lines: an item of a sequence stands after a dash, an entry
of a mapping begins with its key, and what belongs to a key stands after it or on lines that are indented deeper.
The reader takes such a text line by line. It refuses whatever this style does not need: scalars of several lines,
single quotes, flow collections, tags, anchors, comments, several documents, and keys that come twice.
-/

namespace ArchipelagoXL.BlockText

variable {σ τ : Type}

/-- What the scalars of a text stand for, and what is made of them. -/
structure Reading (σ τ : Type) where
  plain : List Char → σ
  quoted : List Char → σ
  blank : τ
  scalar : σ → τ
  items : List σ → τ
  entries : List (σ × τ) → τ

/-! ## Scalars -/

/-- A character that may stand in a line. -/
def printable (c : Char) : Bool :=
  (0x20 ≤ c.toNat && c.toNat ≤ 0x7E) || c == '\t' || c.toNat == 0x85 ||
    (0xA0 ≤ c.toNat && !([0xFEFF, 0xFFFE, 0xFFFF].contains c.toNat))

/-- A character that may stand between quotes. -/
def quotable (c : Char) : Bool := c == '\t' || 0x20 ≤ c.toNat

def isBlank (c : Char) : Bool := c == ' ' || c == '\t'

/-- The characters that no plain scalar begins with. -/
def indicators : List Char :=
  [',', '[', ']', '\x7b', '\x7d', '#', '&', '*', '!', '|', '>', '\'', '"', '%', '@', '\x60']

def plainStart : List Char → Bool
  | [] => false
  | [c] => !isBlank c && !indicators.contains c && !(['-', '?', ':'].contains c)
  | c :: d :: _ => !isBlank c && !indicators.contains c && (!(['-', '?', ':'].contains c) || !isBlank d)

/-- Neither a key nor a comment ends the text before its end, and no blank is the last character. -/
def plainRest : List Char → Bool
  | [] => true
  | [c] => !isBlank c
  | c :: d :: rest => !(c == ':' && isBlank d) && !(isBlank c && d == '#') && plainRest (d :: rest)

/-- The marks between documents. -/
def isMarker (l : List Char) : Bool :=
  (l.take 3 == ['-', '-', '-'] || l.take 3 == ['.', '.', '.']) && (l.drop 3).head?.all isBlank

def isPlain (l : List Char) : Bool :=
  l.all printable && plainStart l && plainRest l && !isMarker l && l.getLast? != some ':'

/-- A key is plain where a colon follows, and of at most 1024 characters, or it is missing. -/
def isKey (l : List Char) : Bool :=
  l.isEmpty || (l.all printable && plainStart (l ++ [':']) && plainRest l && !isMarker (l ++ [':']) &&
    decide (l.length ≤ 1024))

/-- The text up to the closing quote, which is the last character. -/
def unquote : List Char → Option (List Char)
  | [] => none
  | ['"'] => some []
  | '\\' :: '\\' :: l => (unquote l).map ('\\' :: ·)
  | '\\' :: '"' :: l => (unquote l).map ('"' :: ·)
  | c :: l => if c = '"' ∨ c = '\\' then none else (unquote l).map (c :: ·)

/-- A text with its backslashes and quotes escaped. -/
def escape (l : List Char) : List Char :=
  l.flatMap fun c => if c = '\\' ∨ c = '"' then ['\\', c] else [c]

def readScalar (R : Reading σ τ) : List Char → Option σ
  | '"' :: l => if l.all quotable then (unquote l).map R.quoted else none
  | l => if isPlain l then some (R.plain l) else none

/-! ## Lines -/

/-- What a line says after its indentation. -/
inductive Content (σ : Type) where
  | item (s : σ)
  | key (k : σ)
  | pair (k s : σ)
  | scalar (s : σ)

/-- The text before the first colon that a blank or the end follows, and the text after it. -/
def splitKey : List Char → Option (List Char × Option (List Char))
  | [] => none
  | [':'] => some ([], none)
  | ':' :: ' ' :: l => some ([], some l)
  | c :: l => (splitKey l).map fun found => (c :: found.1, found.2)

def readKey (R : Reading σ τ) (l : List Char) : Option σ := if isKey l then some (R.plain l) else none

def readContent (R : Reading σ τ) : List Char → Option (Content σ)
  | '-' :: ' ' :: l => (readScalar R l).map .item
  | '"' :: l => (readScalar R ('"' :: l)).map .scalar
  | l =>
    match splitKey l with
    | some (k, none) => (readKey R k).map .key
    | some (k, some s) => do return .pair (← readKey R k) (← readScalar R s)
    | none => (readScalar R l).map .scalar

/-- A line with its indentation. -/
abbrev Line (σ : Type) := ℕ × Content σ

def readLine (R : Reading σ τ) (l : List Char) : Option (Line σ) :=
  (readContent R (l.dropWhile (· == ' '))).map fun content => ((l.takeWhile (· == ' ')).length, content)

/-! ## Blocks -/

/-- The entries of a mapping whose keys stand at an indentation; `read` reads what stands under a key. -/
def readEntries (R : Reading σ τ) (read : List (Line σ) → Option τ) (indent : ℕ) :
    ℕ → List (Line σ) → Option (List (σ × τ))
  | _, [] => some []
  | 0, _ :: _ => none
  | n + 1, (i, content) :: rest =>
    if i = indent then
      match content with
      | .pair k s => (readEntries R read indent n rest).map ((k, R.scalar s) :: ·)
      | .key k => do
        let v ← read (rest.takeWhile fun l => indent < l.1)
        let more ← readEntries R read indent n (rest.dropWhile fun l => indent < l.1)
        return (k, v) :: more
      | _ => none
    else none

def readItem (indent : ℕ) : Line σ → Option σ
  | (i, .item s) => if i = indent then some s else none
  | _ => none

def readBlock [DecidableEq σ] (R : Reading σ τ) : ℕ → List (Line σ) → Option τ
  | 0, _ => none
  | _ + 1, [] => some R.blank
  | _ + 1, [(_, .scalar s)] => some (R.scalar s)
  | n + 1, (i, content) :: rest =>
    match content with
    | .scalar _ => none
    | .item _ => (((i, content) :: rest).mapM (readItem i)).map R.items
    | _ =>
      (readEntries R (readBlock R n) i (rest.length + 1) ((i, content) :: rest)).bind fun entries =>
        if (entries.map Prod.fst).Nodup then some (R.entries entries) else none

def readText [DecidableEq σ] (R : Reading σ τ) (text : List Char) : Option τ := do
  let lines ← (text.splitOn '\n').mapM (readLine R)
  readBlock R (lines.length + 1) lines

/-! ## Reading a scalar that is written -/

lemma unquote_escape (l rest : List Char) : unquote (escape l ++ rest) = (unquote rest).map (l ++ ·) := by
  induction l with
  | nil => simp [escape]
  | cons c l ih =>
    rw [escape, List.flatMap_cons, List.append_assoc, ← escape]
    split
    case isTrue special =>
      rcases special with rfl | rfl
      · change (unquote (escape l ++ rest)).map _ = _
        rw [ih, Option.map_map]
        rfl
      · change (unquote (escape l ++ rest)).map _ = _
        rw [ih, Option.map_map]
        rfl
    case isFalse usual =>
      have step : unquote (c :: (escape l ++ rest)) = (unquote (escape l ++ rest)).map (c :: ·) := by
        rw [unquote.eq_def]
        grind
      rw [List.singleton_append, step, ih, Option.map_map]
      rfl

lemma quotable_escape {l : List Char} (fine : l.all quotable = true) : (escape l).all quotable = true := by
  rw [List.all_eq_true] at fine ⊢
  intro c mem
  obtain ⟨d, here, mem⟩ := List.mem_flatMap.mp mem
  have usual := fine d here
  split at mem
  · rcases List.mem_cons.mp mem with rfl | mem
    · decide
    · rwa [List.mem_singleton.mp mem]
  · rwa [List.mem_singleton.mp mem]

lemma readScalar_quoted (R : Reading σ τ) {l : List Char} (fine : l.all quotable = true) :
    readScalar R ('"' :: (escape l ++ ['"'])) = some (R.quoted l) := by
  have all : (escape l ++ ['"']).all quotable = true := by
    rw [List.all_append, quotable_escape fine]
    rfl
  rw [readScalar, if_pos all, unquote_escape]
  change some (R.quoted (l ++ [])) = _
  rw [List.append_nil]

lemma readScalar_plain (R : Reading σ τ) {l : List Char} (plain : isPlain l = true) :
    readScalar R l = some (R.plain l) := by
  rw [readScalar.eq_def]
  split
  case h_1 l => simp [isPlain, plainStart.eq_def, indicators] at plain; grind
  case h_2 => exact if_pos plain

/-! ## Reading a line that is written -/

lemma splitKey_cons {c : Char} {l : List Char} (other : c ≠ ':' ∨ (l ≠ [] ∧ l.head? ≠ some ' ')) :
    splitKey (c :: l) = (splitKey l).map fun found => (c :: found.1, found.2) := by
  rw [splitKey.eq_def]
  grind

lemma plainRest_cons {c : Char} {l : List Char} (plain : plainRest (c :: l) = true) :
    plainRest l = true ∧ (c ≠ ':' ∨ l.head? ≠ some ' ') := by
  cases l with
  | nil => exact ⟨rfl, .inr (by simp)⟩
  | cons d l =>
    simp only [plainRest, Bool.and_eq_true, Bool.not_eq_true', Bool.and_eq_false_iff] at plain
    refine ⟨plain.2, plain.1.1.imp (fun other => ne_of_beq_false other) fun noBlank h => ?_⟩
    cases h
    exact absurd noBlank (by decide)

/-- No key is found in a plain text. -/
lemma splitKey_plain {l : List Char} (plain : plainRest l = true) (noKey : l.getLast? ≠ some ':') :
    splitKey l = none := by
  induction l with
  | nil => rfl
  | cons c l ih =>
    obtain ⟨rest, other⟩ := plainRest_cons plain
    cases l with
    | nil =>
      have noColon : c ≠ ':' := fun h => noKey (by rw [h]; rfl)
      rw [splitKey_cons (.inl noColon)]
      rfl
    | cons d l =>
      rw [List.getLast?_cons_cons] at noKey
      rw [splitKey_cons (other.imp id fun noBlank => ⟨List.cons_ne_nil d l, noBlank⟩), ih rest noKey]
      rfl

/-- A plain text before a colon is the key. -/
lemma splitKey_append {k tail : List Char} {found : Option (List Char)} (plain : plainRest k = true)
    (here : splitKey (':' :: tail) = some ([], found)) :
    splitKey (k ++ ':' :: tail) = some (k, found) := by
  induction k with
  | nil => exact here
  | cons c k ih =>
    obtain ⟨rest, other⟩ := plainRest_cons plain
    rw [List.cons_append, splitKey_cons, ih rest]
    · rfl
    · refine other.imp id fun noBlank => ⟨by simp, ?_⟩
      cases k with
      | nil => simp
      | cons d k => exact noBlank

lemma isPlain_rest {l : List Char} (plain : isPlain l = true) : plainRest l = true ∧ l.getLast? ≠ some ':' := by
  simp only [isPlain, Bool.and_eq_true, bne_iff_ne] at plain
  exact ⟨plain.1.1.2, plain.2⟩

lemma isPlain_start {l : List Char} (plain : isPlain l = true) : plainStart l = true := by
  simp only [isPlain, Bool.and_eq_true] at plain
  exact plain.1.1.1.2

/-- A key is missing, or a plain text with a colon after it. -/
lemma isKey_cases {k : List Char} (key : isKey k = true) :
    k = [] ∨ (k.all printable = true ∧ plainStart (k ++ [':']) = true ∧ plainRest k = true) := by
  rw [isKey, Bool.or_eq_true] at key
  refine key.imp List.isEmpty_iff.mp fun plain => ?_
  simp only [Bool.and_eq_true] at plain
  exact ⟨plain.1.1.1.1, plain.1.1.1.2, plain.1.1.2⟩

lemma isKey_rest {k : List Char} (key : isKey k = true) : plainRest k = true := by
  rcases isKey_cases key with rfl | ⟨_, _, plain⟩
  · rfl
  · exact plain

/-- A line that is neither an item nor a quoted scalar is searched for a key. -/
lemma readContent_of_start (R : Reading σ τ) {l : List Char} (noQuote : l.head? ≠ some '"')
    (noDash : ¬ ['-', ' '] <+: l) :
    readContent R l = match splitKey l with
      | some (k, none) => (readKey R k).map .key
      | some (k, some s) => do return .pair (← readKey R k) (← readScalar R s)
      | none => (readScalar R l).map .scalar := by
  rw [readContent.eq_def]
  split
  case h_1 l =>
    refine (noDash ?_).elim
    exact ⟨l, rfl⟩
  case h_2 => exact (noQuote rfl).elim
  case h_3 => rfl

lemma plainStart_append {k : List Char} (plain : plainStart k = true) (tail : List Char) :
    plainStart (k ++ tail) = true := by
  match k, tail with
  | [c], [] => exact plain
  | [c], d :: tail =>
    simp only [plainStart, Bool.and_eq_true] at plain
    simp only [List.singleton_append, plainStart, Bool.and_eq_true, Bool.or_eq_true]
    exact ⟨plain.1, .inl plain.2⟩
  | c :: d :: k, tail => exact plain

lemma plainStart_head {l : List Char} (plain : plainStart l = true) :
    l.head? ≠ some '"' ∧ l.head? ≠ some ' ' ∧ ¬ ['-', ' '] <+: l := by
  match l with
  | [c] =>
    simp only [plainStart, Bool.and_eq_true] at plain
    refine ⟨?_, ?_, ?_⟩
    · intro h
      cases h
      exact absurd plain.1.2 (by decide)
    · intro h
      cases h
      exact absurd plain.1.1 (by decide)
    · intro h
      exact absurd h.length_le (by simp)
  | c :: d :: l =>
    simp only [plainStart, Bool.and_eq_true, Bool.or_eq_true] at plain
    refine ⟨?_, ?_, ?_⟩
    · intro h
      cases h
      exact absurd plain.1.2 (by decide)
    · intro h
      cases h
      exact absurd plain.1.1 (by decide)
    · intro h
      obtain ⟨dash, h⟩ := List.cons_prefix_cons.mp h
      obtain ⟨blank, h⟩ := List.cons_prefix_cons.mp h
      rw [← dash, ← blank] at plain
      exact absurd plain.2 (by decide)

/-- What a line with a key begins with. -/
lemma key_head {k : List Char} (key : isKey k = true) (tail : List Char) :
    (k ++ ':' :: tail).head? ≠ some '"' ∧ (k ++ ':' :: tail).head? ≠ some ' ' ∧
      ¬ ['-', ' '] <+: k ++ ':' :: tail := by
  rcases isKey_cases key with rfl | ⟨_, start, _⟩
  · refine ⟨by simp, by simp, fun h => ?_⟩
    exact absurd (List.cons_prefix_cons.mp h).1 (by decide)
  · rw [← List.singleton_append, ← List.append_assoc]
    exact plainStart_head (plainStart_append start tail)

variable {R : Reading σ τ}

lemma readContent_item {t : List Char} {s : σ} (read : readScalar R t = some s) :
    readContent R ('-' :: ' ' :: t) = some (.item s) := by
  rw [readContent, read]
  rfl

lemma readContent_key {k : List Char} (key : isKey k = true) :
    readContent R (k ++ [':']) = some (.key (R.plain k)) := by
  obtain ⟨noQuote, _, noDash⟩ := key_head key []
  have here : splitKey (k ++ [':']) = some (k, none) := splitKey_append (isKey_rest key) rfl
  rw [readContent_of_start R noQuote noDash, here]
  change (readKey R k).map _ = _
  rw [readKey, if_pos key]
  rfl

lemma readContent_pair {k t : List Char} {s : σ} (key : isKey k = true) (read : readScalar R t = some s) :
    readContent R (k ++ ':' :: ' ' :: t) = some (.pair (R.plain k) s) := by
  obtain ⟨noQuote, _, noDash⟩ := key_head key (' ' :: t)
  have here : splitKey (k ++ ':' :: ' ' :: t) = some (k, some t) := splitKey_append (isKey_rest key) rfl
  rw [readContent_of_start R noQuote noDash, here]
  change (readKey R k).bind _ = _
  rw [readKey, if_pos key, read]
  rfl

lemma readContent_quoted {l : List Char} (fine : l.all quotable = true) :
    readContent R ('"' :: (escape l ++ ['"'])) = some (.scalar (R.quoted l)) := by
  rw [readContent, readScalar_quoted R fine]
  rfl

lemma readContent_plain {l : List Char} (plain : isPlain l = true) :
    readContent R l = some (.scalar (R.plain l)) := by
  obtain ⟨noQuote, _, noDash⟩ := plainStart_head (isPlain_start plain)
  obtain ⟨rest, noKey⟩ := isPlain_rest plain
  rw [readContent_of_start R noQuote noDash, splitKey_plain rest noKey, readScalar_plain R plain]
  rfl

/-- Indented text is read with its indentation. -/
lemma readLine_indented (n : ℕ) {l : List Char} {content : Content σ} (start : l.head? ≠ some ' ')
    (read : readContent R l = some content) :
    readLine R (List.replicate n ' ' ++ l) = some (n, content) := by
  have kept : l.dropWhile (· == ' ') = l ∧ l.takeWhile (· == ' ') = [] := by
    cases l with
    | nil => exact ⟨rfl, rfl⟩
    | cons c l =>
      have other : (c == ' ') = false := beq_eq_false_iff_ne.mpr fun h => start (congrArg some h)
      rw [List.dropWhile_cons, List.takeWhile_cons, other]
      exact ⟨rfl, rfl⟩
  have blanks : ∀ c ∈ List.replicate n ' ', (c == ' ') = true := by
    intro c mem
    rw [List.eq_of_mem_replicate mem]
    rfl
  rw [readLine, List.dropWhile_append_of_pos blanks, List.takeWhile_append_of_pos blanks, kept.1, kept.2, read,
    List.append_nil, List.length_replicate]
  rfl

/-! ## What is read is one line -/

lemma not_break_of_all {p : Char → Bool} {l : List Char} (fine : l.all p = true) (refused : p '\n' = false) :
    '\n' ∉ l := by
  intro mem
  rw [List.all_eq_true.mp fine _ mem] at refused
  cases refused

lemma readScalar_oneLine {l : List Char} {s : σ} (read : readScalar R l = some s) : '\n' ∉ l := by
  rw [readScalar.eq_def] at read
  split at read
  case h_1 l =>
    split at read
    case isTrue fine =>
      intro mem
      rcases List.mem_cons.mp mem with e | mem
      · exact absurd e (by decide)
      · exact not_break_of_all fine (by decide) mem
    case isFalse => cases read
  case h_2 l _ =>
    split at read
    case isTrue plain =>
      simp only [isPlain, Bool.and_eq_true] at plain
      exact not_break_of_all plain.1.1.1.1 (by decide)
    case isFalse => cases read

lemma readKey_oneLine {k : List Char} {s : σ} (read : readKey R k = some s) : '\n' ∉ k := by
  rw [readKey] at read
  split at read
  case isTrue key =>
    rcases isKey_cases key with rfl | ⟨fine, _, _⟩
    · exact List.not_mem_nil
    · exact not_break_of_all fine (by decide)
  case isFalse => cases read

/-- The text is what stands before the colon, the colon and what stands after it. -/
lemma splitKey_some {l k : List Char} {found : Option (List Char)} (split : splitKey l = some (k, found)) :
    l = k ++ ':' :: (found.map (' ' :: ·)).getD [] := by
  fun_induction splitKey l generalizing k with
  | case1 => cases split
  | case2 =>
    cases split
    rfl
  | case3 l =>
    cases split
    rfl
  | case4 c l _ _ ih =>
    obtain ⟨⟨k', found'⟩, inside, e⟩ := Option.map_eq_some_iff.mp split
    cases e
    rw [List.cons_append, ← ih inside]

lemma readContent_oneLine {l : List Char} {content : Content σ} (read : readContent R l = some content) :
    '\n' ∉ l := by
  rw [readContent.eq_def] at read
  split at read
  case h_1 l =>
    obtain ⟨s, scalar, _⟩ := Option.map_eq_some_iff.mp read
    have rest := readScalar_oneLine scalar
    simp [rest]
  case h_2 l =>
    obtain ⟨s, scalar, _⟩ := Option.map_eq_some_iff.mp read
    exact readScalar_oneLine scalar
  case h_3 l _ _ =>
    split at read
    case h_1 k found =>
      obtain ⟨s, key, _⟩ := Option.map_eq_some_iff.mp read
      have rest := readKey_oneLine key
      rw [splitKey_some found]
      simp [rest]
    case h_2 k t found =>
      obtain ⟨s, key, read⟩ := Option.bind_eq_some_iff.mp read
      obtain ⟨s', scalar, _⟩ := Option.bind_eq_some_iff.mp read
      have before := readKey_oneLine key
      have after := readScalar_oneLine scalar
      rw [splitKey_some found]
      simp [before, after]
    case h_3 =>
      obtain ⟨s, scalar, _⟩ := Option.map_eq_some_iff.mp read
      exact readScalar_oneLine scalar

lemma readLine_oneLine {l : List Char} {line : Line σ} (read : readLine R l = some line) : '\n' ∉ l := by
  obtain ⟨content, read, _⟩ := Option.map_eq_some_iff.mp read
  intro mem
  rw [← List.takeWhile_append_dropWhile (p := (· == ' ')) (l := l), List.mem_append] at mem
  rcases mem with mem | mem
  · exact absurd (List.all_eq_true.mp List.all_takeWhile _ mem) (by decide)
  · exact readContent_oneLine read mem

lemma mapM_some {texts : List (List Char)} {lines : List (Line σ)} (each : texts.mapM (readLine R) = some lines) :
    ∀ t ∈ texts, ∃ l, readLine R t = some l := by
  induction texts generalizing lines with
  | nil => exact fun t mem => absurd mem List.not_mem_nil
  | cons t texts ih =>
    rw [List.mapM_cons] at each
    obtain ⟨l, here, each⟩ := Option.bind_eq_some_iff.mp each
    obtain ⟨ls, there, _⟩ := Option.bind_eq_some_iff.mp each
    intro u mem
    rcases List.mem_cons.mp mem with rfl | mem
    · exact ⟨l, here⟩
    · exact ih there u mem

/-! ## Reading a block that is written -/

lemma readItem_mapM (i : ℕ) (ss : List σ) :
    (ss.map fun s => ((i, .item s) : Line σ)).mapM (readItem i) = some ss := by
  induction ss with
  | nil => rfl
  | cons s ss ih =>
    rw [List.map_cons, List.mapM_cons, ih]
    simp [readItem]

variable [DecidableEq σ]

/-- The lines are read as a tree, whatever stands in front of them. -/
def Reads (R : Reading σ τ) (lines : List (Line σ)) (v : τ) : Prop :=
  ∀ n, lines.length < n → readBlock R n lines = some v

/-- Lines for an entry of a mapping at an indentation. -/
inductive EntryReads (R : Reading σ τ) (indent : ℕ) : List (Line σ) → σ × τ → Prop where
  | pair (k s : σ) : EntryReads R indent [(indent, .pair k s)] (k, R.scalar s)
  | under (k : σ) {body : List (Line σ)} {v : τ} :
    (∀ l ∈ body, indent < l.1) → Reads R body v → EntryReads R indent ((indent, .key k) :: body) (k, v)

lemma Reads.blank : Reads R [] R.blank := by
  intro n enough
  cases n with
  | zero => cases enough
  | succ n => rfl

lemma Reads.scalar (i : ℕ) (s : σ) : Reads R [(i, .scalar s)] (R.scalar s) := by
  intro n enough
  cases n with
  | zero => cases enough
  | succ n => rfl

lemma Reads.items (i : ℕ) {ss : List σ} (nonempty : ss ≠ []) :
    Reads R (ss.map fun s => (i, .item s)) (R.items ss) := by
  intro n enough
  cases n with
  | zero => cases enough
  | succ n =>
    cases ss with
    | nil => exact (nonempty rfl).elim
    | cons s ss =>
      have all := readItem_mapM i (s :: ss)
      rw [List.map_cons] at all ⊢
      simp only [readBlock, all, Option.map_some]

/-- The lines of an entry stand at the indentation or deeper, and the first of them at the indentation. -/
lemma EntryReads.lines {indent : ℕ} {lines : List (Line σ)} {e : σ × τ} (entry : EntryReads R indent lines e) :
    ∃ content body, lines = (indent, content) :: body ∧ (∀ s, content ≠ .item s) ∧ (∀ s, content ≠ .scalar s) ∧
      ∀ l ∈ body, indent < l.1 := by
  cases entry with
  | pair k s => exact ⟨_, [], rfl, by simp, by simp, by simp⟩
  | under k deeper reads => exact ⟨_, _, rfl, by simp, by simp, deeper⟩

/-- One entry is read, and the next ones after it. -/
lemma EntryReads.readEntries {indent fuel n : ℕ} {lines rest : List (Line σ)} {e : σ × τ}
    (entry : EntryReads R indent lines e) (enough : lines.length ≤ n + 1)
    (next : ∀ l ∈ rest.head?, l.1 ≤ indent) :
    BlockText.readEntries R (readBlock R (n + 1)) indent (fuel + 1) (lines ++ rest) =
      (BlockText.readEntries R (readBlock R (n + 1)) indent fuel rest).map (e :: ·) := by
  cases entry with
  | pair k s => rw [List.singleton_append, BlockText.readEntries, if_pos rfl]
  | @under k body v deeper reads =>
    have all : ∀ l ∈ body, (decide (indent < l.1)) = true := fun l mem => decide_eq_true (deeper l mem)
    have stop : rest.takeWhile (fun l => decide (indent < l.1)) = [] ∧
        rest.dropWhile (fun l => decide (indent < l.1)) = rest := by
      cases rest with
      | nil => exact ⟨rfl, rfl⟩
      | cons l rest =>
        have notDeeper : ¬ indent < l.1 := Nat.not_lt.mpr (next l rfl)
        simp [notDeeper]
    have inside : readBlock R (n + 1) body = some v := reads (n + 1) (Nat.lt_succ_of_le (Nat.le_of_succ_le_succ enough))
    rw [List.cons_append, BlockText.readEntries, if_pos rfl, List.takeWhile_append_of_pos all,
      List.dropWhile_append_of_pos all, stop.1, stop.2, List.append_nil, inside]
    cases BlockText.readEntries R (readBlock R (n + 1)) indent fuel rest with
    | none => rfl
    | some more => rfl

lemma readBlock_entries {n i : ℕ} {content : Content σ} {rest : List (Line σ)} (notItem : ∀ s, content ≠ .item s)
    (notScalar : ∀ s, content ≠ .scalar s) :
    readBlock R (n + 1) ((i, content) :: rest) =
      (readEntries R (readBlock R n) i (rest.length + 1) ((i, content) :: rest)).bind fun entries =>
        if (entries.map Prod.fst).Nodup then some (R.entries entries) else none := by
  cases content with
  | item s => exact (notItem s rfl).elim
  | scalar s => exact (notScalar s rfl).elim
  | key k => simp only [readBlock]
  | pair k s => simp only [readBlock]

/-- All entries of a mapping are read, one after the other. -/
lemma readEntries_flatMap {indent n : ℕ} {es : List (List (Line σ) × σ × τ)}
    (each : ∀ e ∈ es, EntryReads R indent e.1 e.2) (enough : (es.flatMap Prod.fst).length ≤ n + 1) {fuel : ℕ}
    (fuelled : es.length ≤ fuel) :
    readEntries R (readBlock R (n + 1)) indent fuel (es.flatMap Prod.fst) = some (es.map Prod.snd) := by
  induction es generalizing fuel with
  | nil =>
    rw [List.flatMap_nil, readEntries]
    rfl
  | cons e es ih =>
    obtain ⟨entry, each⟩ := List.forall_mem_cons.mp each
    rw [List.flatMap_cons, List.length_append] at enough
    have next : ∀ l ∈ (es.flatMap Prod.fst).head?, l.1 ≤ indent := by
      intro l here
      cases es with
      | nil => cases here
      | cons f es =>
        obtain ⟨content, body, lines, _⟩ := (each f List.mem_cons_self).lines
        rw [List.flatMap_cons, lines, List.cons_append, List.head?_cons] at here
        cases here
        exact Nat.le_refl indent
    cases fuel with
    | zero => cases fuelled
    | succ fuel =>
      rw [List.flatMap_cons, entry.readEntries (by omega) next, ih each (by omega) (Nat.le_of_succ_le_succ fuelled)]
      rfl

/-- A mapping is read from the lines of its entries, whose keys stand one below the other. -/
theorem Reads.entries {indent : ℕ} {es : List (List (Line σ) × σ × τ)} (nonempty : es ≠ [])
    (each : ∀ e ∈ es, EntryReads R indent e.1 e.2) (distinct : (es.map fun e => e.2.1).Nodup) :
    Reads R (es.flatMap Prod.fst) (R.entries (es.map Prod.snd)) := by
  intro n enough
  have short : es.length ≤ (es.flatMap Prod.fst).length := by
    clear nonempty enough distinct
    induction es with
    | nil => exact Nat.le_refl 0
    | cons e es ih =>
      obtain ⟨entry, each⟩ := List.forall_mem_cons.mp each
      obtain ⟨content, body, lines, _⟩ := entry.lines
      have more := ih each
      rw [List.flatMap_cons, List.length_append, lines, List.length_cons, List.length_cons]
      omega
  cases es with
  | nil => exact (nonempty rfl).elim
  | cons e es =>
    obtain ⟨entry, _⟩ := List.forall_mem_cons.mp each
    obtain ⟨content, body, lines, notItem, notScalar, _⟩ := entry.lines
    obtain ⟨m, rfl⟩ : ∃ m, n = m + 2 := by
      refine ⟨n - 2, ?_⟩
      rw [List.length_cons] at short
      omega
    have all := readEntries_flatMap each (Nat.le_of_lt_succ enough) short
    have distinct' : (((e :: es).map Prod.snd).map Prod.fst).Nodup := by
      rw [List.map_map]
      exact distinct
    rw [List.flatMap_cons, lines, List.cons_append] at all ⊢
    rw [List.length_cons] at all
    rw [readBlock_entries notItem notScalar, all, Option.bind_some, if_pos distinct']

/-! ## Reading a text that is written -/

/-- Lines that are read as a tree are read as this tree from the text that they are joined to. -/
theorem readText_of_reads {texts : List (List Char)} {lines : List (Line σ)} {v : τ} (nonempty : texts ≠ [])
    (each : texts.mapM (readLine R) = some lines) (reads : Reads R lines v) :
    readText R (['\n'].intercalate texts) = some v := by
  have oneLine : ∀ t ∈ texts, '\n' ∉ t := by
    intro t mem
    obtain ⟨l, read⟩ := mapM_some each t mem
    exact readLine_oneLine read
  rw [readText, List.splitOn_intercalate '\n' oneLine nonempty, each]
  exact reads _ (Nat.lt_succ_self _)

end ArchipelagoXL.BlockText
