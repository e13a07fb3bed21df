import ArchipelagoXL.Lib.Replace
import ArchipelagoXL.Lobby.Yaml

/-!
# Player names

The name in a YAML may have holes that are filled when the game is generated. `lobby/src/yaml.rs` accepts a
name (`validate_player_name`) and predicts what Archipelago makes of it (`get_ap_player_name`): the holes
are filled with numbers, the spaces around are dropped and 16 characters are kept.

A name that is made so has no holes (`getApPlayerName_noHole`), and is thus its own Archipelago name if it
is accepted as a name in turn (`getApPlayerName_of_resolved`). An accepted name is its own Archipelago name
exactly if it is plain (`getApPlayerName_eq_iff`).

Names are ASCII, as those accepted are, so a byte is a character and only ASCII letters have another case.
-/

namespace ArchipelagoXL.Lobby

open Replace

/-! ## The functions -/

/-- Rust `to_lowercase`, of an ASCII text. -/
def toLowercase (s : String) : String := String.ofList (s.toList.map Char.toLower)

/-- Rust `trim_start`. -/
def trimStart (l : List Char) : List Char := l.dropWhile isWhitespace

/-- Rust `trim_end`. -/
def trimEnd (l : List Char) : List Char := (l.reverse.dropWhile isWhitespace).reverse

/-- What may stand in curly braces. -/
inductive NameHole where
  | number
  | upperNumber
  | player
  | upperPlayer
deriving DecidableEq

/-- A hole as it is written. -/
def NameHole.text : NameHole → List Char
  | number => "\x7bnumber\x7d".toList
  | upperNumber => "\x7bNUMBER\x7d".toList
  | player => "\x7bplayer\x7d".toList
  | upperPlayer => "\x7bPLAYER\x7d".toList

/-- The holes in the order in which they are filled. -/
def NameHole.all : List NameHole := [number, upperNumber, player, upperPlayer]

/-- The occurrences of the Rust regular expression `\\{(.*?)\\}` after the next `skip` characters; a match is
as short as can be and does not go over a line. -/
def curlyMatchesFrom : ℕ → List Char → List (List Char)
  | _, [] => []
  | skip + 1, _ :: rest => curlyMatchesFrom skip rest
  | 0, c :: rest =>
    if c = '{' then
      let inside := rest.takeWhile fun c => c != '}' && c != '\n'
      if (rest.drop inside.length).head? = some '}' then
        ('{' :: inside ++ ['}']) :: curlyMatchesFrom (inside.length + 1) rest
      else curlyMatchesFrom 0 rest
    else curlyMatchesFrom 0 rest

/-- Rust `RE_NAME_CURLY_BRACES.find_iter`. -/
def curlyMatches (name : List Char) : List (List Char) := curlyMatchesFrom 0 name

/-- What fills a hole, for the `number`-th YAML with a name, which is the `player`-th of all. -/
def NameHole.filling (number player : ℕ) : NameHole → List Char
  | .number => (toString number).toList
  | .upperNumber => if 1 < number then (toString number).toList else []
  | .player => (toString player).toList
  | .upperPlayer => if 1 < player then (toString player).toList else []

/-- All holes of a name filled, one kind after the other. -/
def fillHoles (number player : ℕ) (name : List Char) : List Char :=
  NameHole.all.foldl (fun name hole => replaceAll hole.text (hole.filling number player) name) name

/-- Rust `get_ap_player_name`; the counter as what it has counted. -/
def getApPlayerName (originalName : String) (playerCounter : List String) : String × List String :=
  let lowercaseName := toLowercase originalName
  let playerCounter := lowercaseName :: playerCounter
  let newName := fillHoles (playerCounter.count lowercaseName) playerCounter.length originalName.toList
  (String.ofList (trimEnd ((trimStart newName).take 16)), playerCounter)

/-- Rust `is_reserved_name`. -/
def isReservedName (playerName : String) : Bool :=
  toLowercase playerName == "meta" || toLowercase playerName == "archipelago"

/-- The check of `validate_player_name` on curly braces. -/
def checkCurlyBraces (originalPlayerName : String) : Except String Unit :=
  if '{' ∈ originalPlayerName.toList ∨ '}' ∈ originalPlayerName.toList then
    let found := curlyMatches originalPlayerName.toList
    match found.find? fun m => !(NameHole.all.map NameHole.text).contains m with
    | some m => .error ("Your YAML contains an invalid name: " ++ originalPlayerName ++
        ". Archipelago doesn't allow having anything in curly braces within a name other than " ++
        "player/PLAYER/number/NUMBER. Found " ++ String.ofList m)
    | none =>
      let tempName := found.foldl (fun name m => replaceAll m [] name) originalPlayerName.toList
      if '{' ∈ tempName ∨ '}' ∈ tempName then
        .error ("Your YAML contains an invalid name: " ++ originalPlayerName ++
          ". Names cannot contain unmatched curly braces.")
      else .ok ()
  else .ok ()

/-- Rust `validate_player_name`. -/
def validatePlayerName (originalPlayerName : String) (playersInRoom playerCounter : List String) :
    Except String (String × List String) := do
  if originalPlayerName.toList.any fun c => 128 ≤ c.toNat then
    throw ("Your YAML contains an invalid name: " ++ originalPlayerName ++ ".")
  checkCurlyBraces originalPlayerName
  let (playerName, playerCounter) := getApPlayerName originalPlayerName playerCounter
  if isReservedName playerName then throw (playerName ++ " is a reserved name")
  if playersInRoom.contains (toLowercase playerName) then
    throw ("Adding this yaml would duplicate a player name: " ++ playerName)
  return (playerName, playerCounter)

/-- A name that the lobby takes in some room. -/
def AcceptedName (name : String) : Prop :=
  ∃ playersInRoom playerCounter accepted, validatePlayerName name playersInRoom playerCounter = .ok accepted

/-- A name is taken for what Archipelago makes of it, if that is neither reserved nor there. -/
lemma validatePlayerName_ok {name : String} {playersInRoom playerCounter : List String}
    {accepted : String × List String} (valid : validatePlayerName name playersInRoom playerCounter = .ok accepted) :
    (∀ c ∈ name.toList, c.toNat < 128) ∧ checkCurlyBraces name = .ok () ∧
      accepted = getApPlayerName name playerCounter ∧ isReservedName accepted.1 = false ∧
      toLowercase accepted.1 ∉ playersInRoom := by
  rw [validatePlayerName] at valid
  split at valid
  case isTrue => cases valid
  case isFalse ascii =>
    rcases checked : checkCurlyBraces name with error | ⟨⟨⟩⟩
    case error =>
      rw [checked] at valid
      cases valid
    case ok =>
      rw [checked] at valid
      cases reserved : isReservedName (getApPlayerName name playerCounter).1 with
      | true =>
        simp [reserved, bind, Except.bind, throw, throwThe, MonadExceptOf.throw] at valid
      | false =>
        cases there : playersInRoom.contains (toLowercase (getApPlayerName name playerCounter).1) with
        | true =>
          simp only [List.contains_iff_mem] at there
          simp [reserved, there, bind, Except.bind, throw, throwThe, MonadExceptOf.throw] at valid
        | false =>
          have free : toLowercase (getApPlayerName name playerCounter).1 ∉ playersInRoom :=
            fun mem => absurd (List.contains_iff_mem.mpr mem) (by rw [there]; exact Bool.false_ne_true)
          simp [reserved, free, bind, Except.bind, pure, Except.pure] at valid
          refine ⟨fun c mem => ?_, rfl, valid.symm, valid ▸ reserved, valid ▸ free⟩
          exact not_le.mp fun large => ascii (List.any_eq_true.mpr ⟨c, mem, decide_eq_true large⟩)

/-- An accepted name passed the check on curly braces. -/
lemma AcceptedName.curlyBraces {name : String} (accepted : AcceptedName name) :
    checkCurlyBraces name = .ok () := by
  obtain ⟨playersInRoom, playerCounter, result, h⟩ := accepted
  exact (validatePlayerName_ok h).2.1

/-! ## Names in parts -/

/-- No brace is closed on the line that a text begins in. -/
def NoClose : List Char → Prop
  | [] => True
  | c :: rest => c = '\n' ∨ (c ≠ '}' ∧ NoClose rest)

/-- Every brace that opens stays open on its line. -/
def NoHole : List Char → Prop
  | [] => True
  | c :: rest => (c = '{' → NoClose rest) ∧ NoHole rest

/-- A part of a name: a character or a hole. -/
inductive NamePart where
  | char (c : Char)
  | hole (h : NameHole)

/-- A part as it is written. -/
def NamePart.text : NamePart → List Char
  | char c => [c]
  | hole h => h.text

/-- A name as it is written. -/
def partsText (parts : List NamePart) : List Char := parts.flatMap NamePart.text

/-- The holes of a name are those of its parts. -/
def PartsClean : List NamePart → Prop
  | [] => True
  | .char c :: rest => (c = '{' → NoClose (partsText rest)) ∧ PartsClean rest
  | .hole _ :: rest => PartsClean rest

@[simp] lemma partsText_nil : partsText [] = [] := rfl

@[simp] lemma partsText_char (c : Char) (parts : List NamePart) :
    partsText (.char c :: parts) = c :: partsText parts := rfl

@[simp] lemma partsText_hole (h : NameHole) (parts : List NamePart) :
    partsText (.hole h :: parts) = h.text ++ partsText parts := rfl

/-- A hole is a name between braces. -/
lemma NameHole.text_eq (h : NameHole) :
    ∃ inside, h.text = '{' :: (inside ++ ['}']) ∧ '{' ∉ inside ∧ '\n' ∉ inside := by
  cases h with
  | number => exact ⟨"number".toList, by decide, by decide, by decide⟩
  | upperNumber => exact ⟨"NUMBER".toList, by decide, by decide, by decide⟩
  | player => exact ⟨"player".toList, by decide, by decide, by decide⟩
  | upperPlayer => exact ⟨"PLAYER".toList, by decide, by decide, by decide⟩

/-- A brace is closed before the line ends. -/
lemma not_noClose {inside : List Char} (sameLine : '\n' ∉ inside) (rest : List Char) :
    ¬ NoClose (inside ++ '}' :: rest) := by
  induction inside with
  | nil =>
    rintro (newline | ⟨other, -⟩)
    · exact absurd newline (by decide)
    · exact other rfl
  | cons c inside ih =>
    obtain ⟨notNewline, sameLine⟩ := List.ne_and_not_mem_of_not_mem_cons sameLine
    rintro (newline | ⟨-, noClose⟩)
    · exact notNewline newline.symm
    · exact ih sameLine noClose

/-- A text in which every brace stays open has no hole. -/
lemma NoHole.not_infix {l : List Char} (noHole : NoHole l) (h : NameHole) : ¬ h.text <:+: l := by
  obtain ⟨inside, text, -, sameLine⟩ := h.text_eq
  rintro ⟨before, after, rfl⟩
  induction before with
  | nil =>
    rw [text, List.nil_append, List.cons_append, List.append_assoc] at noHole
    exact not_noClose sameLine after (noHole.1 rfl)
  | cons c before ih => exact ih noHole.2

/-- If the first brace that closes is behind the line, none is closed on it. -/
lemma noClose_of_takeWhile {l : List Char}
    (notClosed : (l.drop (l.takeWhile fun c => c != '}' && c != '\n').length).head? ≠ some '}') :
    NoClose l := by
  induction l with
  | nil => exact trivial
  | cons c rest ih =>
    by_cases newline : c = '\n'
    · exact .inl newline
    · by_cases closes : c = '}'
      · subst closes
        exact absurd rfl notClosed
      · refine .inr ⟨closes, ih ?_⟩
        rwa [List.takeWhile_cons_of_pos (by simp [newline, closes]), List.length_cons, List.drop_succ_cons]
          at notClosed

/-- Matches after the next characters are matches of what is left. -/
lemma curlyMatchesFrom_eq (skip : ℕ) (l : List Char) : curlyMatchesFrom skip l = curlyMatches (l.drop skip) := by
  induction l generalizing skip with
  | nil => simp [curlyMatches, curlyMatchesFrom]
  | cons c rest ih =>
    cases skip with
    | zero => rfl
    | succ skip => exact ih skip

/-- A closed brace is followed by what stands in it and then the rest. -/
lemma takeWhile_closed {rest inside : List Char}
    (hinside : rest.takeWhile (fun c => c != '}' && c != '\n') = inside)
    (closed : (rest.drop inside.length).head? = some '}') : ∃ tail, rest = inside ++ '}' :: tail := by
  have front : inside <+: rest := hinside ▸ List.takeWhile_prefix _
  obtain ⟨tail, rfl⟩ := front
  rw [List.drop_left] at closed
  cases tail with
  | nil => cases closed
  | cons close tail =>
    obtain rfl : close = '}' := Option.some.inj closed
    exact ⟨tail, rfl⟩

/-- A name with matches that are all holes is made of characters and holes. -/
lemma exists_parts (l : List Char) (allowed : ∀ m ∈ curlyMatches l, m ∈ NameHole.all.map NameHole.text) :
    ∃ parts, partsText parts = l ∧ PartsClean parts := by
  induction hn : l.length using Nat.strong_induction_on generalizing l with
  | _ n ih =>
    cases l with
    | nil => exact ⟨[], rfl, trivial⟩
    | cons c rest =>
      have shorter : rest.length < n := by
        rw [← hn]
        exact Nat.lt_succ_self _
      rw [curlyMatches, curlyMatchesFrom] at allowed
      split at allowed
      case isFalse other =>
        obtain ⟨parts, rfl, clean⟩ := ih _ shorter rest allowed rfl
        exact ⟨.char c :: parts, rfl, fun opens => absurd opens other, clean⟩
      case isTrue opens =>
        subst opens
        dsimp only at allowed
        generalize hinside : rest.takeWhile (fun c => c != '}' && c != '\n') = inside at allowed
        split at allowed
        case isFalse notClosed =>
          rw [← hinside] at notClosed
          obtain ⟨parts, rfl, clean⟩ := ih _ shorter rest allowed rfl
          exact ⟨.char '{' :: parts, rfl, fun _ => noClose_of_takeWhile notClosed, clean⟩
        case isTrue closed =>
          obtain ⟨tail, rfl⟩ := takeWhile_closed hinside closed
          obtain ⟨here, later⟩ := List.forall_mem_cons.mp allowed
          obtain ⟨h, -, text⟩ := List.mem_map.mp here
          have left : curlyMatchesFrom (inside.length + 1) (inside ++ '}' :: tail) = curlyMatches tail := by
            have split : inside ++ '}' :: tail = (inside ++ ['}']) ++ tail := by simp
            have length : inside.length + 1 = (inside ++ ['}']).length := by simp
            rw [curlyMatchesFrom_eq, split, length, List.drop_left]
          rw [left] at later
          have shorterTail : tail.length < n := by
            rw [List.length_append, List.length_cons] at shorter
            omega
          obtain ⟨parts, rfl, clean⟩ := ih _ shorterTail tail later rfl
          refine ⟨.hole h :: parts, ?_, clean⟩
          rw [partsText_hole, text]
          simp

/-- One hole filled in every place. -/
def fillParts (hole : NameHole) (filling : List Char) (parts : List NamePart) : List NamePart :=
  parts.flatMap fun
    | .char c => [.char c]
    | .hole h => if h = hole then filling.map .char else [.hole h]

variable {hole : NameHole} {filling : List Char}

@[simp] lemma fillParts_nil : fillParts hole filling [] = [] := rfl

@[simp] lemma fillParts_char (c : Char) (parts : List NamePart) :
    fillParts hole filling (.char c :: parts) = .char c :: fillParts hole filling parts := rfl

lemma fillParts_here (parts : List NamePart) :
    fillParts hole filling (.hole hole :: parts) = filling.map .char ++ fillParts hole filling parts := by
  simp [fillParts]

lemma fillParts_other {h : NameHole} (other : h ≠ hole) (parts : List NamePart) :
    fillParts hole filling (.hole h :: parts) = .hole h :: fillParts hole filling parts := by
  simp [fillParts, other]

lemma partsText_append (parts parts' : List NamePart) :
    partsText (parts ++ parts') = partsText parts ++ partsText parts' := List.flatMap_append

lemma partsText_map_char (l : List Char) : partsText (l.map .char) = l := by
  induction l with
  | nil => rfl
  | cons c l ih => rw [List.map_cons, partsText_char, ih]

lemma NameHole.text_injective : Function.Injective NameHole.text := by
  intro h h' same
  cases h <;> cases h' <;> first | rfl | exact absurd same (by decide)

lemma NameHole.length_text (h : NameHole) : h.text.length = 8 := by
  cases h <;> decide

/-- No hole is the beginning of another. -/
lemma NameHole.eq_of_isPrefix {h h' : NameHole} {rest : List Char} (front : h.text <+: h'.text ++ rest) :
    h = h' := by
  have lengths : h.text.length = h'.text.length := by rw [h.length_text, h'.length_text]
  have front' : h.text <+: h'.text :=
    List.prefix_of_prefix_length_le front (List.prefix_append _ _) (le_of_eq lengths)
  exact NameHole.text_injective (front'.eq_of_length lengths)

/-- Filling a hole in the text is filling it in the parts. -/
lemma replaceAll_partsText {parts : List NamePart} (clean : PartsClean parts) :
    replaceAll hole.text filling (partsText parts) = partsText (fillParts hole filling parts) := by
  obtain ⟨inside, text, noBrace, sameLine⟩ := hole.text_eq
  induction parts with
  | nil => rfl
  | cons part parts ih =>
    cases part with
    | char c =>
      rw [partsText_char, fillParts_char, partsText_char, replaceAll_cons, ih clean.2]
      rw [text, List.cons_prefix_cons]
      rintro ⟨rfl, after, rest⟩
      apply not_noClose sameLine after
      rw [List.append_cons, rest]
      exact clean.1 rfl
    | hole h =>
      rw [partsText_hole]
      by_cases here : h = hole
      · subst here
        have nonempty : h.text ≠ [] := by simp [text]
        rw [replaceAll_append nonempty, ih clean, fillParts_here, partsText_append, partsText_map_char]
      · obtain ⟨inside', text', noBrace', -⟩ := h.text_eq
        have notMem : '{' ∉ inside' ++ ['}'] := by simp [noBrace']
        have notHere : ¬ hole.text <+: h.text ++ partsText parts :=
          fun front => here (NameHole.eq_of_isPrefix front).symm
        rw [fillParts_other here, partsText_hole, ← ih clean]
        rw [text', List.cons_append] at notHere ⊢
        rw [replaceAll_cons notHere, text, replaceAll_append_of_notMem notMem]
        rfl

/-- A text in which no brace is closed keeps this when a hole is filled. -/
lemma NoClose.fillParts {parts : List NamePart} (noClose : NoClose (partsText parts)) :
    NoClose (partsText (fillParts hole filling parts)) := by
  induction parts with
  | nil => exact trivial
  | cons part parts ih =>
    cases part with
    | char c =>
      rcases noClose with newline | ⟨notClose, noClose⟩
      · exact .inl newline
      · exact .inr ⟨notClose, ih noClose⟩
    | hole h =>
      obtain ⟨inside, text, -, sameLine⟩ := h.text_eq
      have sameLine' : '\n' ∉ '{' :: inside := by simp [sameLine]
      rw [partsText_hole, text, List.cons_append, List.append_assoc] at noClose
      exact absurd noClose (not_noClose sameLine' _)

/-- Characters that are no brace before a clean name. -/
lemma PartsClean.append_chars {l : List Char} (noBrace : '{' ∉ l) {parts : List NamePart}
    (clean : PartsClean parts) : PartsClean (l.map .char ++ parts) := by
  induction l with
  | nil => exact clean
  | cons c l ih =>
    obtain ⟨other, noBrace⟩ := List.ne_and_not_mem_of_not_mem_cons noBrace
    exact ⟨fun opens => absurd opens.symm other, ih noBrace⟩

/-- A filling without braces adds no hole. -/
lemma PartsClean.fillParts (noBrace : '{' ∉ filling) {parts : List NamePart} (clean : PartsClean parts) :
    PartsClean (fillParts hole filling parts) := by
  induction parts with
  | nil => exact trivial
  | cons part parts ih =>
    cases part with
    | char c => exact ⟨fun opens => (clean.1 opens).fillParts, ih clean.2⟩
    | hole h =>
      by_cases here : h = hole
      · subst here
        rw [fillParts_here]
        exact PartsClean.append_chars noBrace (ih clean)
      · rw [fillParts_other here]
        exact ih clean

/-- A hole that is left was there and is another one. -/
lemma mem_fillParts {h : NameHole} {parts : List NamePart}
    (mem : NamePart.hole h ∈ fillParts hole filling parts) : NamePart.hole h ∈ parts ∧ h ≠ hole := by
  obtain ⟨part, hpart, mem⟩ := List.mem_flatMap.mp mem
  cases part with
  | char c => simp at mem
  | hole h' =>
    by_cases here : h' = hole
    · simp [here] at mem
    · simp only [if_neg here, List.mem_singleton, NamePart.hole.injEq] at mem
      subst mem
      exact ⟨hpart, here⟩

/-- The holes of some kinds are filled one kind after the other. -/
lemma foldl_fillParts {filling : NameHole → List Char} (noBrace : ∀ h, '{' ∉ filling h)
    (holes : List NameHole) {parts : List NamePart} (clean : PartsClean parts) :
    ∃ parts', holes.foldl (fun name h => replaceAll h.text (filling h) name) (partsText parts) =
        partsText parts' ∧ PartsClean parts' ∧
      ∀ h, NamePart.hole h ∈ parts' → NamePart.hole h ∈ parts ∧ h ∉ holes := by
  induction holes generalizing parts with
  | nil => exact ⟨parts, rfl, clean, fun _ mem => ⟨mem, List.not_mem_nil⟩⟩
  | cons hole holes ih =>
    have filled : PartsClean (fillParts hole (filling hole) parts) := clean.fillParts (noBrace hole)
    obtain ⟨parts', text, clean', left⟩ := ih filled
    refine ⟨parts', ?_, clean', ?_⟩
    · rw [List.foldl_cons, replaceAll_partsText clean, text]
    · intro h mem
      obtain ⟨notFilled, notLater⟩ := left h mem
      obtain ⟨there, other⟩ := mem_fillParts notFilled
      exact ⟨there, List.not_mem_cons_of_ne_of_not_mem other notLater⟩

/-- A name of characters alone has no hole. -/
lemma PartsClean.noHole {parts : List NamePart} (clean : PartsClean parts)
    (filled : ∀ h, NamePart.hole h ∉ parts) : NoHole (partsText parts) := by
  induction parts with
  | nil => exact trivial
  | cons part parts ih =>
    cases part with
    | char c => exact ⟨clean.1, ih clean.2 fun h mem => filled h (List.mem_cons_of_mem _ mem)⟩
    | hole h => exact absurd List.mem_cons_self (filled h)

lemma NameHole.mem_all (h : NameHole) : h ∈ NameHole.all := by
  cases h <;> decide

/-- Numbers have no braces. -/
lemma NameHole.noBrace_filling (number player : ℕ) (h : NameHole) : '{' ∉ h.filling number player := by
  have digits : ∀ n : ℕ, '{' ∉ (toString n).toList := by
    intro n mem
    have mem : '{' ∈ n.repr.toList := mem
    rw [Nat.toList_repr] at mem
    have digit : ('{' : Char).isDigit = true := Nat.isDigit_of_mem_toDigits (by decide) (by decide) mem
    exact absurd digit (by decide)
  cases h with
  | number => exact digits number
  | upperNumber =>
    rw [filling]
    split
    · exact digits number
    · exact List.not_mem_nil
  | player => exact digits player
  | upperPlayer =>
    rw [filling]
    split
    · exact digits player
    · exact List.not_mem_nil

/-- A name with its holes filled has none. -/
lemma fillHoles_noHole {name : List Char}
    (allowed : ∀ m ∈ curlyMatches name, m ∈ NameHole.all.map NameHole.text) (number player : ℕ) :
    NoHole (fillHoles number player name) := by
  obtain ⟨parts, rfl, clean⟩ := exists_parts name allowed
  obtain ⟨parts', text, clean', left⟩ :=
    foldl_fillParts (NameHole.noBrace_filling number player) NameHole.all clean
  rw [fillHoles, text]
  exact clean'.noHole fun h mem => (left h mem).2 h.mem_all

/-! ## What the check on braces says -/

/-- A match is a part of the text and begins with a brace. -/
lemma of_mem_curlyMatchesFrom {m : List Char} {skip : ℕ} {l : List Char} (mem : m ∈ curlyMatchesFrom skip l) :
    m <:+: l ∧ '{' ∈ m := by
  induction l generalizing skip with
  | nil => simp [curlyMatchesFrom] at mem
  | cons c rest ih =>
    have later : ∀ skip, m ∈ curlyMatchesFrom skip rest → m <:+: c :: rest ∧ '{' ∈ m :=
      fun skip mem => (ih mem).imp List.infix_cons id
    cases skip with
    | succ skip => exact later skip mem
    | zero =>
      rw [curlyMatchesFrom] at mem
      split at mem
      case isFalse => exact later 0 mem
      case isTrue opens =>
        subst opens
        dsimp only at mem
        generalize hinside : rest.takeWhile (fun c => c != '}' && c != '\n') = inside at mem
        split at mem
        case isFalse => exact later 0 mem
        case isTrue closed =>
          rcases List.mem_cons.mp mem with rfl | mem
          · obtain ⟨tail, rfl⟩ := takeWhile_closed hinside closed
            refine ⟨List.IsPrefix.isInfix ⟨tail, ?_⟩, List.mem_cons_self⟩
            simp
          · exact later _ mem

/-- A name that passes the check has matches that are all holes, and no brace if it has no match. -/
lemma of_checkCurlyBraces {name : String} (checked : checkCurlyBraces name = .ok ()) :
    (∀ m ∈ curlyMatches name.toList, m ∈ NameHole.all.map NameHole.text) ∧
      (curlyMatches name.toList = [] → '{' ∉ name.toList ∧ '}' ∉ name.toList) := by
  rw [checkCurlyBraces] at checked
  split at checked
  case isFalse noBrace =>
    obtain ⟨noOpen, noClose⟩ := not_or.mp noBrace
    refine ⟨fun m mem => ?_, fun _ => ⟨noOpen, noClose⟩⟩
    obtain ⟨isPart, opens⟩ := of_mem_curlyMatchesFrom mem
    exact absurd (isPart.subset opens) noOpen
  case isTrue =>
    dsimp only at checked
    split at checked
    case h_1 => cases checked
    case h_2 allHoles =>
      split at checked
      case isTrue => cases checked
      case isFalse noneLeft =>
        constructor
        · intro m mem
          have hole := List.find?_eq_none.mp allHoles m mem
          simpa using hole
        · intro noMatch
          rw [noMatch] at noneLeft
          exact not_or.mp noneLeft

/-! ## What Archipelago makes of a name -/

/-- A name that Archipelago leaves as it is. -/
structure PlainName (name : String) : Prop where
  noOpen : '{' ∉ name.toList
  noClose : '}' ∉ name.toList
  short : name.toList.length ≤ 16
  trimStart : trimStart name.toList = name.toList
  trimEnd : trimEnd name.toList = name.toList

/-- The first characters of what is left of a text begin with no space. -/
lemma dropWhile_of_isPrefix {q : Char → Bool} {p l : List Char} (front : p <+: l.dropWhile q) :
    p.dropWhile q = p := by
  induction l with
  | nil =>
    rw [List.dropWhile_nil, List.prefix_nil] at front
    rw [front, List.dropWhile_nil]
  | cons a l ih =>
    by_cases skipped : q a = true
    · rw [List.dropWhile_cons_of_pos skipped] at front
      exact ih front
    · rw [List.dropWhile_cons_of_neg skipped] at front
      cases p with
      | nil => rfl
      | cons b p =>
        obtain rfl := (List.cons_prefix_cons.mp front).1
        exact List.dropWhile_cons_of_neg skipped

lemma isPrefix_trimEnd (l : List Char) : trimEnd l <+: l := by
  rw [trimEnd, ← List.reverse_suffix, List.reverse_reverse]
  exact List.dropWhile_suffix _

/-- The name is a part of the text with its holes filled. -/
lemma getApPlayerName_infix (name : String) (playerCounter : List String) :
    ∃ number player, (getApPlayerName name playerCounter).1.toList <:+: fillHoles number player name.toList := by
  let counted := toLowercase name :: playerCounter
  refine ⟨counted.count (toLowercase name), counted.length, ?_⟩
  rw [getApPlayerName, String.toList_ofList]
  refine (isPrefix_trimEnd _).isInfix.trans ((List.take_prefix 16 _).isInfix.trans ?_)
  exact (List.dropWhile_suffix _).isInfix

/-- An accepted name with its holes filled, trimmed and cut has no hole. -/
lemma getApPlayerName_noHole {name : String} (checked : checkCurlyBraces name = .ok ())
    (playerCounter : List String) (h : NameHole) : ¬ h.text <:+: (getApPlayerName name playerCounter).1.toList := by
  intro there
  obtain ⟨number, player, isPart⟩ := getApPlayerName_infix name playerCounter
  have noHole := fillHoles_noHole (of_checkCurlyBraces checked).1 number player
  exact noHole.not_infix h (there.trans isPart)

/-- It is short and has no space around it. -/
lemma getApPlayerName_trimmed (name : String) (playerCounter : List String) :
    (getApPlayerName name playerCounter).1.toList.length ≤ 16 ∧
      trimStart (getApPlayerName name playerCounter).1.toList = (getApPlayerName name playerCounter).1.toList ∧
      trimEnd (getApPlayerName name playerCounter).1.toList = (getApPlayerName name playerCounter).1.toList := by
  rw [getApPlayerName, String.toList_ofList]
  generalize fillHoles _ _ _ = newName
  refine ⟨?_, ?_, ?_⟩
  · exact (isPrefix_trimEnd _).length_le.trans (List.length_take_le 16 _)
  · exact dropWhile_of_isPrefix ((isPrefix_trimEnd _).trans (List.take_prefix 16 _))
  · rw [trimEnd, trimEnd, List.reverse_reverse, dropWhile_of_isPrefix List.prefix_rfl]

/-- An accepted name without holes has no braces. -/
lemma noBrace_of_noHole {name : String} (checked : checkCurlyBraces name = .ok ())
    (noHole : ∀ h : NameHole, ¬ h.text <:+: name.toList) : '{' ∉ name.toList ∧ '}' ∉ name.toList := by
  obtain ⟨allHoles, noBrace⟩ := of_checkCurlyBraces checked
  apply noBrace
  apply List.eq_nil_iff_forall_not_mem.mpr
  intro m mem
  obtain ⟨h, -, rfl⟩ := List.mem_map.mp (allHoles m mem)
  exact noHole h (of_mem_curlyMatchesFrom mem).1

/-- An accepted name that is what Archipelago makes of some accepted name is plain. -/
lemma PlainName.of_resolved {name original : String} {playerCounter : List String}
    (checked : checkCurlyBraces name = .ok ()) (checkedOriginal : checkCurlyBraces original = .ok ())
    (resolved : (getApPlayerName original playerCounter).1 = name) : PlainName name := by
  subst resolved
  obtain ⟨noOpen, noClose⟩ := noBrace_of_noHole checked (getApPlayerName_noHole checkedOriginal playerCounter)
  obtain ⟨short, startTrimmed, endTrimmed⟩ := getApPlayerName_trimmed original playerCounter
  exact ⟨noOpen, noClose, short, startTrimmed, endTrimmed⟩

/-- Without braces there is nothing to fill. -/
lemma fillHoles_of_noOpen {name : List Char} (noOpen : '{' ∉ name) (number player : ℕ) :
    fillHoles number player name = name := by
  have kept : ∀ h : NameHole, replaceAll h.text (h.filling number player) name = name := by
    intro h
    obtain ⟨inside, text, -⟩ := h.text_eq
    rw [text]
    exact replaceAll_of_notMem noOpen
  simp [fillHoles, NameHole.all, kept]

/-- A plain name is kept. -/
lemma PlainName.getApPlayerName {name : String} (plain : PlainName name) (playerCounter : List String) :
    (getApPlayerName name playerCounter).1 = name := by
  rw [Lobby.getApPlayerName]
  dsimp only
  rw [fillHoles_of_noOpen plain.noOpen, plain.trimStart, List.take_of_length_le plain.short, plain.trimEnd,
    String.ofList_toList]

/-- Archipelago keeps an accepted name exactly if it is plain. -/
lemma getApPlayerName_eq_iff {name : String} (accepted : AcceptedName name) (playerCounter : List String) :
    (getApPlayerName name playerCounter).1 = name ↔ PlainName name :=
  ⟨PlainName.of_resolved accepted.curlyBraces accepted.curlyBraces, fun plain => plain.getApPlayerName playerCounter⟩

end ArchipelagoXL.Lobby
