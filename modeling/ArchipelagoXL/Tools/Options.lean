import ArchipelagoXL.Tools.Settling

/-!
# Setting options

Options are set in a YAML for the sake of nothing else in it: the document that comes out should have the new values
and be the old one everywhere else. The writer and the reader between the two keep a document of texts, numbers and
truth values under keys that are texts and look like nothing else. A sequence or a mapping inside a sequence, an
empty sequence, an empty mapping and a key of another type are lost on the way.
-/

namespace ArchipelagoXL.Tools

/-! ## What comes back as it was -/

def keepsInline : Value → Bool
  | .null | .boolean _ | .string _ => true
  | .integer i => decide (-2 ^ 63 ≤ i ∧ i < 2 ^ 63)
  | .floatingPoint f => plainScalar f.text == .floatingPoint f
  | .sequence _ | .mapping _ | .bad => false

/-- A key is missing, or it is a text that is nothing else without quotes. -/
def keepsKey : Value → Bool
  | .null => true
  | .string s => plainScalar s.toList == .string s
  | _ => false

mutual

/-- A value that is neither dropped nor made another one, at any depth. -/
def keeps : Value → Bool
  | .sequence items => !items.isEmpty && items.all keepsInline
  | .mapping entries => !entries.isEmpty && keepsEntries entries
  | v => keepsInline v

def keepsEntries : List (Value × Value) → Bool
  | [] => true
  | (k, v) :: rest => keepsKey k && keeps v && keepsEntries rest

end

lemma keepsEntries_eq (entries : List (Value × Value)) :
    keepsEntries entries = entries.all fun e => keepsKey e.1 && keeps e.2 := by
  induction entries with
  | nil => rfl
  | cons e rest ih =>
    obtain ⟨k, v⟩ := e
    rw [keepsEntries, ih]
    rfl

/-! ## Scalars -/

/-- A plain scalar that is a text is the text itself, and not the empty one. -/
lemma plainScalar_string {l : List Char} {s : String} (read : plainScalar l = .string s) : s.toList = l ∧ l ≠ [] := by
  rw [plainScalar] at read
  split at read
  case isTrue => cases read
  case isFalse noNull =>
    split at read
    case isTrue => cases read
    case isFalse =>
      split at read
      case isTrue => cases read
      case isFalse =>
        split at read
        case h_1 => cases read
        case h_2 => cases read
        case h_3 =>
          cases read
          refine ⟨String.toList_ofList, fun missing => noNull ?_⟩
          rw [missing]
          exact List.mem_cons_self

lemma key_ne_blank (l : List Char) : (plainScalar l).value ≠ .string "" := by
  cases read : plainScalar l with
  | string s =>
    intro blank
    cases blank
    exact (plainScalar_string read).2 (plainScalar_string read).1.symm
  | _ => nofun

lemma toString_head (i : ℤ) : ∃ c rest, (toString i).toList = c :: rest ∧ (c = '-' ∨ c.isDigit = true) ∧
    ∀ d ∈ rest, d.isDigit = true := by
  cases i with
  | ofNat n =>
    have text : (toString (Int.ofNat n)).toList = Nat.toDigits 10 n := Nat.toList_repr
    rw [text]
    cases digits : Nat.toDigits 10 n with
    | nil => exact (Nat.toDigits_ne_nil digits).elim
    | cons c rest =>
      have each : ∀ d ∈ c :: rest, d.isDigit = true := fun d mem => isDigit_of_toDigits (digits ▸ mem)
      exact ⟨c, rest, rfl, .inr (each c List.mem_cons_self), fun d mem => each d (List.mem_cons_of_mem c mem)⟩
  | negSucc n =>
    have text : (toString (Int.negSucc n)).toList = '-' :: Nat.toDigits 10 (n + 1) := by
      rw [← Nat.toList_repr, ← List.singleton_append]
      exact String.toList_append
    exact ⟨'-', _, text, .inl rfl, fun d mem => isDigit_of_toDigits mem⟩

/-- The text of an integer is read as an integer of 64 bits. -/
lemma plainScalar_toString (i : ℤ) :
    plainScalar (toString i).toList = .integer i ↔ -2 ^ 63 ≤ i ∧ i < 2 ^ 63 := by
  obtain ⟨c, rest, text, first, digits⟩ := toString_head i
  have noLetter : ∀ l : List Char, l.head?.any (fun d => d == '-' || d.isDigit) = false → (toString i).toList ≠ l := by
    intro l other same
    rw [← same, text, List.head?_cons, Option.any_some, Bool.or_eq_false_iff] at other
    rcases first with rfl | digit
    · exact absurd other.1 (by decide)
    · rw [digit] at other
      cases other.2
  have whole : parseCoreInteger (toString i).toList = parseI64 (toString i) := by
    have noBase : ∀ d l, d.isDigit = false → (toString i).toList ≠ '0' :: d :: l := by
      intro d l other same
      rw [text] at same
      cases same
      rw [digits d List.mem_cons_self] at other
      cases other
    rw [parseCoreInteger.eq_def]
    split
    case h_1 l hex => exact (noBase 'x' l (by decide) hex).elim
    case h_2 l octal => exact (noBase 'o' l (by decide) octal).elim
    case h_3 => rw [String.ofList_toList]
  have noNull : (toString i).toList ∉ [[], ['~'], "null".toList, "Null".toList, "NULL".toList] := by
    simp only [List.mem_cons, List.not_mem_nil, or_false, not_or]
    exact ⟨noLetter _ (by decide), noLetter _ (by decide), noLetter _ (by decide), noLetter _ (by decide),
      noLetter _ (by decide)⟩
  have noTrue : (toString i).toList ∉ ["true".toList, "True".toList, "TRUE".toList] := by
    simp only [List.mem_cons, List.not_mem_nil, or_false, not_or]
    exact ⟨noLetter _ (by decide), noLetter _ (by decide), noLetter _ (by decide)⟩
  have noFalse : (toString i).toList ∉ ["false".toList, "False".toList, "FALSE".toList] := by
    simp only [List.mem_cons, List.not_mem_nil, or_false, not_or]
    exact ⟨noLetter _ (by decide), noLetter _ (by decide), noLetter _ (by decide)⟩
  rw [plainScalar, if_neg noNull, if_neg noTrue, if_neg noFalse, whole]
  constructor
  · intro read
    cases parsed : parseI64 (toString i) with
    | some j =>
      rw [parsed] at read
      cases read
      exact parseI64_range parsed
    | none =>
      cases float : parseCoreFloat (toString i).toList <;> rw [parsed, float] at read <;> cases read
  · intro range
    rw [parseI64_toString range]

/-- On a line of its own a value comes back as it was just if it is a scalar that reads as itself. -/
lemma inlineScalar_eq_self_iff (v : Value) : (inlineScalar v).value = v ↔ keepsInline v = true := by
  have one : ∀ {s : Scalar} {t : Scalar}, s.value = t.value ↔ s = t := by
    intro s t
    constructor
    · intro same
      cases s <;> cases t <;> cases same <;> rfl
    · intro same
      rw [same]
  cases v with
  | null => exact ⟨fun _ => rfl, fun _ => rfl⟩
  | boolean b => cases b <;> exact ⟨fun _ => rfl, fun _ => rfl⟩
  | string s => exact ⟨fun _ => rfl, fun _ => rfl⟩
  | integer i =>
    rw [keepsInline, decide_eq_true_iff, ← plainScalar_toString]
    exact one (t := .integer i)
  | floatingPoint f =>
    rw [keepsInline, beq_iff_eq]
    exact one (t := .floatingPoint f)
  | sequence items => exact ⟨nofun, nofun⟩
  | mapping entries => exact ⟨nofun, nofun⟩
  | bad => exact ⟨nofun, nofun⟩

lemma key_eq_self_iff (k : Value) : (plainScalar (keyText k)).value = k ↔ keepsKey k = true := by
  cases k with
  | null => exact ⟨fun _ => rfl, fun _ => rfl⟩
  | string s =>
    rw [keepsKey, beq_iff_eq]
    constructor
    · intro same
      cases read : plainScalar s.toList with
      | string t =>
        have both : (plainScalar s.toList).value = .string s := same
        rw [read] at both
        cases both
        rfl
      | _ =>
        have both : (plainScalar s.toList).value = .string s := same
        rw [read] at both
        cases both
    · intro same
      exact congrArg Scalar.value same
  | _ => exact ⟨nofun, nofun⟩

mutual

/-- A value is read back as it was just if no part of it is dropped or made another one. -/
lemma reread_eq_self_iff : ∀ v : Value, reread v = v ↔ keeps v = true
  | .sequence items => by
    rw [reread, keeps]
    cases items with
    | nil => exact ⟨nofun, nofun⟩
    | cons item items =>
      rw [List.isEmpty_cons, if_neg Bool.false_ne_true, Bool.not_false, Bool.true_and, List.all_eq_true,
        Value.sequence.injEq]
      conv_lhs => rhs; rw [← List.map_id (item :: items)]
      rw [List.map_inj_left]
      exact forall₂_congr fun v _ => inlineScalar_eq_self_iff v
  | .mapping entries => by
    rw [reread, keeps]
    cases entries with
    | nil => exact ⟨nofun, nofun⟩
    | cons e rest =>
      rw [List.isEmpty_cons, if_neg Bool.false_ne_true, Bool.not_false, Bool.true_and, Value.mapping.injEq]
      exact rereadEntries_eq_self_iff (e :: rest)
  | .null => inlineScalar_eq_self_iff .null
  | .boolean b => inlineScalar_eq_self_iff (.boolean b)
  | .integer i => inlineScalar_eq_self_iff (.integer i)
  | .floatingPoint f => inlineScalar_eq_self_iff (.floatingPoint f)
  | .string s => inlineScalar_eq_self_iff (.string s)
  | .bad => inlineScalar_eq_self_iff .bad

lemma rereadEntries_eq_self_iff : ∀ entries : List (Value × Value),
    rereadEntries entries = entries ↔ keepsEntries entries = true
  | [] => ⟨fun _ => rfl, fun _ => rfl⟩
  | (k, v) :: rest => by
    rw [rereadEntries, keepsEntries, List.cons.injEq, Prod.mk.injEq, key_eq_self_iff, reread_eq_self_iff v,
      rereadEntries_eq_self_iff rest, Bool.and_eq_true, Bool.and_eq_true]

end

lemma reread_mapping {entries : List (Value × Value)} (nonempty : entries ≠ []) :
    reread (.mapping entries) = .mapping (rereadEntries entries) := by
  rw [reread, if_neg (fun h => nonempty (List.isEmpty_iff.mp h))]

/-! ## The document that is wanted -/

/-- What the changes make of the value under a key of a game. -/
def YamlChanges.value (changes : YamlChanges) (game : String) (opt : Value × Value) : Value :=
  ((opt.1.asStr.bind fun key => changes.lookup (game, key))).getD opt.2

/-- The options of a game with the changes, which come in `arrange`'s order where the game had no such option. -/
def setOptions (arrange : Arrangement) (changes : YamlChanges) (game : String) (options : List (Value × Value)) :
    List (Value × Value) :=
  options.map (fun opt => (opt.1, changes.value game opt)) ++
    ((arrange game (changes.ofGame game)).filter fun c => !options.any fun opt => opt.1.asStr == some c.1).map
      fun c => (.string c.1, c.2)

def setSection (arrange : Arrangement) (changes : YamlChanges) : Value → Value → Value
  | .string game, .mapping options => .mapping (setOptions arrange changes game options)
  | _, section_ => section_

/-- The document in which nothing but the changes is new. -/
def onlyChanged (arrange : Arrangement) (changes : YamlChanges) (topMap : List (Value × Value)) :
    List (Value × Value) :=
  topMap.map fun e => (e.1, setSection arrange changes e.1 e.2)

/-- The changes are to options of sections that the document has. -/
def YamlChanges.Within (changes : YamlChanges) (topMap : List (Value × Value)) : Prop :=
  ∀ c ∈ changes, ∃ options, (Value.string c.1.1, Value.mapping options) ∈ topMap

/-- A map comes out as a whole, in some order. -/
def Arrangement.Lists (arrange : Arrangement) : Prop := ∀ game changes, (arrange game changes).Perm changes

/-- Each key and each text of the wanted document stands on its line, and no part of it is lost. -/
def Survives (arrange : Arrangement) (changes : YamlChanges) (topMap : List (Value × Value)) : Prop :=
  writable (.mapping (onlyChanged arrange changes topMap)) = true ∧
    keepsEntries (onlyChanged arrange changes topMap) = true

section Wanted

variable {arrange : Arrangement} {changes : YamlChanges} {topMap : List (Value × Value)}

lemma lookup_ofGame (changes : YamlChanges) (game key : String) :
    (changes.ofGame game).lookup key = changes.lookup (game, key) := by
  induction changes with
  | nil => rfl
  | cons c rest ih =>
    obtain ⟨⟨g, k⟩, v⟩ := c
    rw [YamlChanges.ofGame, List.filter_cons, List.lookup_cons]
    by_cases same : g = game
    · rw [if_pos (beq_iff_eq.mpr same), List.map_cons, List.lookup_cons, ← YamlChanges.ofGame, ih, same]
      have keys : ((game, key) == (game, k)) = (key == k) := by
        rw [Bool.eq_iff_iff, beq_iff_eq, beq_iff_eq, Prod.mk.injEq, and_iff_right rfl]
      rw [keys]
    · have other : ((game, key) == (g, k)) = false :=
        beq_eq_false_iff_ne.mpr fun h => same (congrArg Prod.fst h).symm
      rw [if_neg (fun h => same (beq_iff_eq.mp h)), ← YamlChanges.ofGame, ih, other]

lemma mem_ofGame {game : String} {c : String × Value} :
    c ∈ changes.ofGame game ↔ ((game, c.1), c.2) ∈ changes := by
  rw [YamlChanges.ofGame, List.mem_map]
  constructor
  · rintro ⟨d, mem, rfl⟩
    obtain ⟨mem, same⟩ := List.mem_filter.mp mem
    rw [← beq_iff_eq.mp same]
    exact mem
  · intro mem
    exact ⟨_, List.mem_filter.mpr ⟨mem, beq_self_eq_true game⟩, rfl⟩

/-- No change is to the empty name, which is what the writer takes a key of another type for. -/
def YamlChanges.Named (changes : YamlChanges) : Prop := ∀ c ∈ changes, c.1.1 ≠ "" ∧ c.1.2 ≠ ""

lemma setSection_eq (whole : arrange.Lists) (named : changes.Named) (e : Value × Value) :
    changeSection arrange changes e = setSection arrange changes e.1 e.2 := by
  obtain ⟨k, v⟩ := e
  have unnamed : ∀ game, (changes.ofGame game).lookup "" = none := by
    intro game
    rw [List.lookup_eq_none_iff]
    intro c mem
    exact bne_iff_ne.mpr fun blank => (named _ (mem_ofGame.mp mem)).2 blank.symm
  cases text : k.asStr with
  | none =>
    have none_here : changes.ofGame "" = [] := by
      rw [List.eq_nil_iff_forall_not_mem]
      exact fun c mem => (named _ (mem_ofGame.mp mem)).1 rfl
    have stays : setSection arrange changes k v = v := by
      cases k with
      | string s => cases text
      | _ => rfl
    rw [stays, changeSection, text, Option.getD_none, none_here]
    rfl
  | some game =>
    have isText : k = .string game := by
      cases k with
      | string s => cases text; rfl
      | _ => cases text
    subst isText
    rw [changeSection]
    cases v with
    | mapping options =>
      have values : ∀ opt ∈ options,
          (opt.1, ((changes.ofGame game).lookup (opt.1.asStr.getD "")).getD opt.2) =
            (opt.1, changes.value game opt) := by
        intro opt _
        rw [YamlChanges.value]
        cases opt.1.asStr with
        | none =>
          rw [Option.getD_none, unnamed game]
          rfl
        | some key =>
          rw [Option.getD_some, lookup_ofGame]
          rfl
      have absent : ∀ c ∈ arrange game (changes.ofGame game),
          (!(options.map fun opt => opt.1.asStr.getD "").contains c.1) =
            !options.any fun opt => opt.1.asStr == some c.1 := by
        intro c mem
        have name := (named _ (mem_ofGame.mp ((whole game _).mem_iff.mp mem))).2
        congr 1
        rw [Bool.eq_iff_iff, List.contains_iff_mem, List.mem_map, List.any_eq_true]
        refine exists_congr fun opt => and_congr_right fun _ => ?_
        rw [beq_iff_eq]
        cases opt.1.asStr with
        | none => exact ⟨fun blank => (name blank.symm).elim, fun e => by cases e⟩
        | some key => exact (Option.some_inj (a := key)).symm
      split
      case isTrue unchanged =>
        have none_here : changes.ofGame game = [] := List.isEmpty_iff.mp unchanged
        have none_new : arrange game (changes.ofGame game) = [] := by
          rw [none_here]
          exact List.perm_nil.mp (whole game [])
        have same : options.map (fun opt => (opt.1, changes.value game opt)) = options := by
          rw [← List.map_congr_left values, none_here]
          exact List.map_id options
        rw [setSection, setOptions, none_new, same]
        exact congrArg Value.mapping (List.append_nil options).symm
      case isFalse =>
        have kept := List.map_congr_left values
        have added := congrArg (List.map fun c : String × Value => (Value.string c.1, c.2)) (List.filter_congr absent)
        exact congrArg Value.mapping (congrArg₂ (· ++ ·) kept added)
    | _ => split <;> rfl

/-- If no change is to the empty name, the document that is written is the wanted one. -/
lemma onlyChanged_eq (whole : arrange.Lists) (named : changes.Named) (topMap : List (Value × Value)) :
    changeDocument arrange changes topMap = onlyChanged arrange changes topMap :=
  List.map_congr_left fun e _ => congrArg (Prod.mk e.1) (setSection_eq whole named e)

/-- Keys that are never the empty name show that no change is to it. -/
lemma named_of_keys (whole : arrange.Lists) (within : changes.Within topMap)
    (tops : ∀ e ∈ onlyChanged arrange changes topMap, e.1 ≠ .string "")
    (keys : ∀ e ∈ onlyChanged arrange changes topMap, ∀ options, e.2 = .mapping options →
      ∀ opt ∈ options, opt.1 ≠ .string "") : changes.Named := by
  intro c mem
  obtain ⟨options, section_⟩ := within c mem
  have here : (Value.string c.1.1, Value.mapping (setOptions arrange changes c.1.1 options)) ∈
      onlyChanged arrange changes topMap := List.mem_map.mpr ⟨_, section_, rfl⟩
  refine ⟨fun blank => tops _ here (congrArg Value.string blank), ?_⟩
  have key : ∃ v, (Value.string c.1.2, v) ∈ setOptions arrange changes c.1.1 options := by
    cases old : options.any fun opt => opt.1.asStr == some c.1.2 with
    | true =>
      obtain ⟨opt, mem, name⟩ := List.any_eq_true.mp old
      have isText : opt.1 = .string c.1.2 := by
        have name := beq_iff_eq.mp name
        cases text : opt.1 with
        | string s =>
          rw [text] at name
          cases name
          rfl
        | _ =>
          rw [text] at name
          cases name
      refine ⟨changes.value c.1.1 opt, List.mem_append_left _ (List.mem_map.mpr ⟨opt, mem, ?_⟩)⟩
      rw [isText]
    | false =>
      refine ⟨c.2, List.mem_append_right _ (List.mem_map.mpr ⟨(c.1.2, c.2), List.mem_filter.mpr ⟨?_, ?_⟩, rfl⟩)⟩
      · exact (whole _ _).mem_iff.mpr (mem_ofGame.mpr mem)
      · rw [old]
        rfl
  obtain ⟨v, mem⟩ := key
  exact fun blank => keys _ here _ rfl _ mem (congrArg Value.string blank)

end Wanted

/-! ## What comes out -/

section Out

variable {load : String → Option (List Value)} {arrange : Arrangement} {changes : YamlChanges}
  {topMap : List (Value × Value)}

lemma keepsKey_ne_blank {k : Value} (kept : keepsKey k = true) : k ≠ .string "" := by
  rintro rfl
  exact absurd kept (by decide)

lemma Survives.named (whole : arrange.Lists) (within : changes.Within topMap)
    (survives : Survives arrange changes topMap) : changes.Named := by
  have kept := survives.2
  rw [keepsEntries_eq, List.all_eq_true] at kept
  simp only [Bool.and_eq_true] at kept
  apply named_of_keys whole within
  · exact fun e mem => keepsKey_ne_blank (kept e mem).1
  · intro e mem options isMap opt inside
    have below := (kept e mem).2
    rw [isMap, keeps, Bool.and_eq_true, keepsEntries_eq, List.all_eq_true] at below
    exact keepsKey_ne_blank (Bool.and_eq_true _ _ ▸ below.2 opt inside).1

/-- A document that was read has no entry under the empty name. -/
lemma named_of_reread (whole : arrange.Lists) (within : changes.Within topMap) {written : List (Value × Value)}
    (same : rereadEntries written = onlyChanged arrange changes topMap) : changes.Named := by
  rw [rereadEntries_eq] at same
  have read : ∀ e ∈ onlyChanged arrange changes topMap,
      ∃ w ∈ written, e = ((plainScalar (keyText w.1)).value, reread w.2) := by
    intro e mem
    rw [← same] at mem
    obtain ⟨w, inside, eq⟩ := List.mem_map.mp mem
    exact ⟨w, inside, eq.symm⟩
  apply named_of_keys whole within
  · intro e mem
    obtain ⟨w, _, rfl⟩ := read e mem
    exact key_ne_blank _
  · intro e mem options isMap opt inside
    obtain ⟨w, _, rfl⟩ := read e mem
    rcases reread_shape w.2 with ⟨s, scalar⟩ | ⟨ss, items⟩ | ⟨entries, mapping⟩
    · rw [scalar] at isMap
      cases s <;> cases isMap
    · rw [items] at isMap
      cases isMap
    · rw [mapping] at isMap
      cases isMap
      rw [rereadEntries_eq] at inside
      obtain ⟨o, _, rfl⟩ := List.mem_map.mp inside
      exact key_ne_blank _

/-- A document that survives comes out with its changes and is the old one everywhere else; one of which each key and
each text stands on its line does so only if it survives. -/
theorem setYamlValues_onlyChanged (reads : ∀ text v, readDocument text = some v → load text = some [v])
    (blank : load "" = some []) (whole : arrange.Lists) (within : changes.Within topMap) :
    (Survives arrange changes topMap →
      setYamlValues load arrange (.mapping topMap) changes = .mapping (onlyChanged arrange changes topMap)) ∧
    (writable (.mapping (changeDocument arrange changes topMap)) = true →
      setYamlValues load arrange (.mapping topMap) changes = .mapping (onlyChanged arrange changes topMap) →
      Survives arrange changes topMap) := by
  cases topMap with
  | nil =>
    have stays : setYamlValues load arrange (.mapping []) changes = .mapping [] := by
      change ((load "").bind List.getLast?).getD _ = _
      rw [blank]
      rfl
    exact ⟨fun _ => stays, fun _ _ => ⟨rfl, rfl⟩⟩
  | cons e rest =>
    have nonempty : e :: rest ≠ [] := List.cons_ne_nil e rest
    have entries : changeDocument arrange changes (e :: rest) ≠ [] := List.cons_ne_nil _ _
    constructor
    · intro survives
      have written := onlyChanged_eq whole (survives.named whole within) (e :: rest)
      have fine : writable (.mapping (changeDocument arrange changes (e :: rest))) = true := written ▸ survives.1
      have same : rereadEntries (onlyChanged arrange changes (e :: rest)) = onlyChanged arrange changes (e :: rest) :=
        (rereadEntries_eq_self_iff _).mpr survives.2
      rw [setYamlValues_of_writable reads arrange nonempty changes fine, reread_mapping entries, written, same]
    · intro fine result
      rw [setYamlValues_of_writable reads arrange nonempty changes fine, reread_mapping entries,
        Value.mapping.injEq] at result
      have written := onlyChanged_eq whole (named_of_reread whole within result) (e :: rest)
      rw [written] at fine result
      exact ⟨fine, (rereadEntries_eq_self_iff _).mp result⟩

end Out

/-- A library that reads just the plain block style, and no document in the empty text. -/
def readStream (text : String) : Option (List Value) := if text = "" then some [] else readPlain text

lemma readStream_reads : ∀ text v, readDocument text = some v → readStream text = some [v] := by
  intro text v read
  rw [readStream, if_neg, readPlain_reads text v read]
  rintro rfl
  have empty : readDocument "" = none := by decide +kernel
  rw [empty] at read
  cases read

/-- A trigger that sets what is not set here, and a section with options of several types. -/
def optionsYaml (triggers : List (Value × Value)) : List (Value × Value) :=
  triggers ++ [(.string "name", .string "a: \"b\"\t# 1"), (.string "Test", .mapping [(.string "mode", .string "easy"),
    (.string "death_link", .boolean false), (.string "count", .mapping [(.string "low", .integer (-3))]),
    (.string "items", .sequence [.string "1", .floatingPoint (.finite (1 / 2)), .null])])]

def hardMode : YamlChanges := [(("Test", "mode"), .string "hard"), (("Test", "goal"), .string "true")]

lemma hardMode_within (triggers : List (Value × Value)) : hardMode.Within (optionsYaml triggers) := by
  intro c mem
  have game : c.1.1 = "Test" := by
    rcases List.mem_cons.mp mem with rfl | mem
    · rfl
    · rw [List.mem_singleton.mp mem]
  rw [game]
  exact ⟨_, List.mem_append_right _ (List.mem_cons_of_mem _ List.mem_cons_self)⟩

/-- Without triggers, nothing but the mode and the goal is new. -/
theorem hardMode_set : setYamlValues readStream (inOrder 0) (.mapping (optionsYaml [])) hardMode =
    .mapping (onlyChanged (inOrder 0) hardMode (optionsYaml [])) := by
  have survives : Survives (inOrder 0) hardMode (optionsYaml []) := by
    constructor <;> decide +kernel
  exact (setYamlValues_onlyChanged readStream_reads rfl (fun _ _ => List.Perm.refl _) (hardMode_within [])).1 survives

/-- The triggers, which are mappings in a sequence, are gone. -/
theorem triggers_not_kept : ¬ ∀ load : String → Option (List Value),
    (∀ text v, readDocument text = some v → load text = some [v]) → load "" = some [] →
    ∀ arrange : Arrangement, arrange.Lists → ∀ topMap changes, changes.Within topMap →
      setYamlValues load arrange (.mapping topMap) changes = .mapping (onlyChanged arrange changes topMap) := by
  intro claim
  let topMap := optionsYaml [(.string "triggers", .sequence [testTrigger "mode" "hard" "logic" "strict"])]
  have nonempty : topMap ≠ [] := List.cons_ne_nil _ _
  have fine : writable (.mapping (changeDocument (inOrder 0) hardMode topMap)) = true := by decide +kernel
  have result := claim readStream readStream_reads rfl (inOrder 0) (fun _ _ => List.Perm.refl _) topMap hardMode
    (hardMode_within _)
  rw [setYamlValues_of_writable readStream_reads (inOrder 0) nonempty hardMode fine] at result
  cases result

end ArchipelagoXL.Tools
