import ArchipelagoXL.Tools.Options

/-!
# Options that are added to lists

A trigger can add items to the list that an option has. All additions of a pass start from the list of the document,
and under each key the last one is what is set, so that of several additions to one list only the last is left. A
value that is set by the last trigger takes the place of the list and of the additions before it. The list is written
and read once when it is put together and once more with the document.
-/

namespace ArchipelagoXL.Tools

/-! ## What is to be kept -/

/-- The options of the triggers that can fire, in the order in which a pass comes to them. -/
def firingOptions (yaml : Value) : List (String × String × Value × Bool) :=
  ((collectTriggers yaml).filter fun t => t.canFire yaml).flatMap Trigger.options

def optionAt (yaml : Value) (game key : String) : Option Value :=
  (yaml.asMappingGet game).bind fun gameSection => gameSection.asMappingGet key

def itemsAt (yaml : Value) (game key : String) : List Value := ((optionAt yaml game key).bind Value.asSequence).getD []

/-- The items that a value adds to a list. -/
def addedItems (v : Value) : List Value := v.asSequence.getD [v]

/-- The items that are to be in the list of an option after an addition. -/
def wantedItems (yaml : Value) (game key : String) (v : Value) : List Value :=
  itemsAt yaml game key ++ addedItems v

/-- Each addition to an option of a section is in the list that comes out, with what was in the list before. -/
def AdditionsKept (load : String → Option (List Value)) (arrange : ℕ → Arrangement) (yaml : Value) : Prop :=
  ∀ t ∈ collectTriggers yaml, t.canFire yaml = true → ∀ game key v, (game, key, v, true) ∈ t.options →
    (yaml.asMappingGet game).isSome = true → ∀ item ∈ wantedItems yaml game key v,
      item ∈ itemsAt (resolveTriggers (settle load arrange) yaml) game key

/-! ## What is kept -/

/-- What an item is after it was written and read. -/
def readAgain (item : Value) : Value := (inlineScalar item).value

/-- The option has the value already, or there is nothing to add to it. -/
def inPlace (yaml : Value) : String × String × Value × Bool → Bool
  | (game, key, v, true) =>
    (addedItems v).isEmpty &&
      (optionAt yaml game key).any fun e => sameValue e (.sequence ((itemsAt yaml game key).map readAgain))
  | (game, key, v, false) => (optionAt yaml game key).any fun e => yamlValuesEqual e v

/-- There is a section for the option, and something to change in it. -/
def touches (yaml : Value) (option : String × String × Value × Bool) : Bool :=
  (yaml.asMappingGet option.1).isSome && !inPlace yaml option

/-- The items that are left of a list: those of the last option that changes it. -/
def itemsLeft (yaml : Value) (game key : String) : List Value :=
  match ((firingOptions yaml).filter fun o => (o.1, o.2.1) == (game, key) && touches yaml o).getLast? with
  | some (_, _, v, true) => ((wantedItems yaml game key v).map readAgain).map readAgain
  | some (_, _, v, false) => (v.asSequence.getD []).map readAgain
  | none => (itemsAt yaml game key).map readAgain

/-- Nothing is changed, or the item is left under a name that is read as this name, in a section with options. -/
def ItemSurvives (yaml : Value) (game key : String) (item : Value) : Prop :=
  (∀ o ∈ firingOptions yaml, touches yaml o = false) ∨
    ((yaml.asMappingGet game).bind Value.asMapping).isSome = true ∧ keepsKey (.string game) = true ∧
      keepsKey (.string key) = true ∧ item ∈ itemsLeft yaml game key

/-- Each text that is put into a list can stand on its line. -/
def PlainItems (yaml : Value) : Prop :=
  ∀ game key v, (game, key, v, true) ∈ firingOptions yaml →
    (wantedItems yaml game key v).all inlineWritable = true

/-! ## The changes of a pass -/

section Pass

variable {load : String → Option (List Value)} {yaml : Value}

/-- The items are merged into one list, as they are read from their lines. -/
lemma mergeAdditive_eq (reads : ∀ text v, readDocument text = some v → load text = some [v])
    (blank : load "" = some []) {game key : String} {v : Value}
    (fine : (wantedItems yaml game key v).all inlineWritable = true) :
    mergeAdditive load (optionAt yaml game key) v =
      if (wantedItems yaml game key v).isEmpty then v
      else .sequence ((wantedItems yaml game key v).map readAgain) := by
  have lines : mergeAdditive load (optionAt yaml game key) v =
      ((load (String.ofList (['\n'].intercalate ((wantedItems yaml game key v).map inlineItem)))).bind
        List.getLast?).getD v := by
    rw [wantedItems, List.map_append, addedItems]
    cases v with
    | _ => rfl
  rw [lines]
  cases items : wantedItems yaml game key v with
  | nil =>
    change ((load "").bind List.getLast?).getD v = v
    rw [blank]
    rfl
  | cons item rest =>
    obtain ⟨readAs, read⟩ := reads_sequence fine 0
    rw [items] at readAs read
    have document : readDocument (String.ofList (['\n'].intercalate ((item :: rest).map inlineItem))) =
        some (reread (.sequence (item :: rest))) := by
      rw [readDocument, String.toList_ofList]
      exact BlockText.readText_of_reads (List.cons_ne_nil _ _) readAs read
    rw [reads _ _ document]
    rfl

/-- What an option that changes something sets its key to. -/
def newValue (yaml : Value) : String × String × Value × Bool → Value
  | (game, key, v, true) =>
    if (wantedItems yaml game key v).isEmpty then v
    else .sequence ((wantedItems yaml game key v).map readAgain)
  | (_, _, v, false) => v

lemma sameItems_length : ∀ {as bs : List Value}, sameItems as bs = true → as.length = bs.length
  | [], [], _ => rfl
  | a :: as, b :: bs, same => by
    rw [sameItems, Bool.and_eq_true] at same
    rw [List.length_cons, List.length_cons, sameItems_length same.2]

/-- Only an addition of nothing can leave a list as it is. -/
lemma sameValue_newValue (yaml : Value) (game key : String) (v : Value) :
    ((optionAt yaml game key).any fun e => sameValue e (newValue yaml (game, key, v, true))) =
      inPlace yaml (game, key, v, true) := by
  rw [inPlace, newValue, wantedItems]
  cases added : addedItems v with
  | nil =>
    have empty : v = .sequence [] := by
      cases v with
      | sequence items => exact congrArg Value.sequence added
      | _ => cases added
    rw [List.append_nil, List.isEmpty_nil, Bool.true_and, empty]
    cases itemsAt yaml game key with
    | _ => rfl
  | cons item rest =>
    rw [List.isEmpty_cons, Bool.false_and, if_neg (by simp), Option.any_eq_false]
    intro e found
    rw [itemsAt, found, Option.bind_some]
    cases e with
    | sequence items =>
      by_contra longer
      have lengths := sameItems_length ((Bool.not_eq_false _).mp longer)
      simp [Value.asSequence] at lengths
    | _ => rfl

lemma optionAt_of_section {game : String} {gameSection : Value} (found : yaml.asMappingGet game = some gameSection)
    (key : String) : optionAt yaml game key = gameSection.asMappingGet key := by
  rw [optionAt, found, Option.bind_some]

/-- An option either has nothing to change or sets its key. -/
lemma optionChange_eq (reads : ∀ text v, readDocument text = some v → load text = some [v])
    (blank : load "" = some []) (changes : YamlChanges) {o : String × String × Value × Bool}
    (fine : ∀ game key v, o = (game, key, v, true) → (wantedItems yaml game key v).all inlineWritable = true) :
    optionChange load yaml changes o =
      if touches yaml o then changes.insert o.1 o.2.1 (newValue yaml o) else changes := by
  obtain ⟨game, key, v, isAdditive⟩ := o
  rw [optionChange, touches]
  cases found : yaml.asMappingGet game with
  | none => rfl
  | some gameSection =>
    cases isAdditive with
    | true =>
      have merged : mergeAdditive load (optionAt yaml game key) v = newValue yaml (game, key, v, true) :=
        mergeAdditive_eq reads blank (fine game key v rfl)
      have same := sameValue_newValue yaml game key v
      rw [optionAt_of_section found key] at merged same
      dsimp only
      rw [merged, if_pos rfl, same]
      cases inPlace yaml (game, key, v, true) with
      | _ => rfl
    | false =>
      dsimp only
      rw [inPlace, optionAt_of_section found key]
      cases (gameSection.asMappingGet key).any fun e => yamlValuesEqual e v with
      | _ => rfl

variable (yaml) in
/-- The changes that options make, one after the other. -/
def setAll (options : List (String × String × Value × Bool)) (changes : YamlChanges) : YamlChanges :=
  options.foldl (fun changes o => YamlChanges.insert o.1 o.2.1 (newValue yaml o) changes) changes

lemma passChanges_eq (reads : ∀ text v, readDocument text = some v → load text = some [v])
    (blank : load "" = some []) (plain : PlainItems yaml) :
    passChanges load yaml = setAll yaml ((firingOptions yaml).filter (touches yaml)) [] := by
  rw [setAll, List.foldl_filter, firingOptions, List.foldl_flatMap, List.foldl_filter, passChanges]
  apply List.foldl_ext
  intro changes t mem
  rw [triggerChanges]
  cases fires : t.canFire yaml with
  | false => rfl
  | true =>
    rw [if_pos rfl, if_pos rfl]
    apply List.foldl_ext
    intro changes o option
    apply optionChange_eq reads blank changes
    rintro game key v rfl
    exact plain game key v (List.mem_flatMap.mpr ⟨t, List.mem_filter.mpr ⟨mem, fires⟩, option⟩)

lemma lookup_insert (changes : YamlChanges) (game key : String) (v : Value) (k : String × String) :
    (YamlChanges.insert game key v changes).lookup k = if (game, key) == k then some v else changes.lookup k := by
  have last : [((game, key), v)].lookup k = if (game, key) == k then some v else none := by
    rw [List.lookup_cons, BEq.comm]
    cases (game, key) == k with
    | _ => rfl
  rw [YamlChanges.insert, List.lookup_append, last]
  clear last
  induction changes with
  | nil => rfl
  | cons c rest ih =>
    rw [List.filter_cons]
    by_cases same : c.1 = (game, key)
    · rw [if_neg (by simp [same]), ih, List.lookup_cons, same, BEq.comm]
      cases k == (game, key) with
      | _ => rfl
    · rw [if_pos (bne_iff_ne.mpr same), List.lookup_cons, List.lookup_cons]
      cases here : k == c.1 with
      | false => exact ih
      | true =>
        have other : ((game, key) == k) = false := by
          rw [beq_iff_eq.mp here]
          exact beq_false_of_ne (Ne.symm same)
        rw [other]
        rfl

/-- Under each key stands what the last option for it sets. -/
lemma lookup_setAll (options : List (String × String × Value × Bool)) (changes : YamlChanges) (k : String × String) :
    (setAll yaml options changes).lookup k =
      (((options.filter fun o => (o.1, o.2.1) == k).getLast?).map (newValue yaml)).or (changes.lookup k) := by
  induction options generalizing changes with
  | nil => rfl
  | cons o rest ih =>
    rw [setAll, List.foldl_cons, ← setAll, ih, lookup_insert, List.filter_cons]
    cases here : (o.1, o.2.1) == k with
    | false => rw [if_neg Bool.false_ne_true, if_neg Bool.false_ne_true]
    | true =>
      rw [if_pos rfl, if_pos rfl, List.getLast?_cons]
      cases (rest.filter fun o => (o.1, o.2.1) == k).getLast? with
      | _ => rfl

/-- No key has two changes. -/
lemma nodup_setAll (options : List (String × String × Value × Bool)) {changes : YamlChanges}
    (nodup : (changes.map Prod.fst).Nodup) : ((setAll yaml options changes).map Prod.fst).Nodup := by
  induction options generalizing changes with
  | nil => exact nodup
  | cons o rest ih =>
    apply ih
    change ((YamlChanges.insert o.1 o.2.1 (newValue yaml o) changes).map Prod.fst).Nodup
    rw [YamlChanges.insert, List.map_append]
    have fewer : ((changes.filter fun c => c.1 != (o.1, o.2.1)).map Prod.fst).Nodup :=
      nodup.sublist (List.filter_sublist.map Prod.fst)
    refine fewer.append (List.nodup_singleton _) (List.disjoint_singleton.mpr fun mem => ?_)
    obtain ⟨c, mem, same⟩ := List.mem_map.mp mem
    exact bne_iff_ne.mp (List.mem_filter.mp mem).2 same

end Pass

/-! ## The document that comes out -/

section Out

variable {arrange : Arrangement} {changes : YamlChanges}

lemma entry_map (f : Value × Value → Value) (entries : List (Value × Value)) (key : String) :
    Value.entry (entries.map fun e => (e.1, f e)) key =
      (entries.find? fun e => e.1.asStr == some key).map f := by
  rw [Value.entry, List.find?_map, Option.map_map]
  rfl

/-- A key is read as a text just if it is this text and can be read so. -/
lemma asStr_plainScalar (k : Value) (key : String) :
    (plainScalar (keyText k)).value.asStr = some key ↔ keepsKey (.string key) = true ∧ k.asStr = some key := by
  rw [keepsKey, beq_iff_eq]
  constructor
  · intro read
    have isText : plainScalar (keyText k) = .string key := by
      cases scalar : plainScalar (keyText k) with
      | string s =>
        rw [scalar] at read
        cases read
        rfl
      | _ =>
        rw [scalar] at read
        cases read
    obtain ⟨same, visible⟩ := plainScalar_string isText
    rw [same]
    refine ⟨isText, ?_⟩
    cases text : k.asStr with
    | none =>
      rw [keyText, text] at visible
      exact (visible rfl).elim
    | some s =>
      rw [keyText, text, Option.getD_some] at same
      rw [String.toList_inj.mp same]
  · rintro ⟨kept, text⟩
    rw [keyText, text, Option.getD_some, kept]
    rfl

lemma entry_rereadEntries (entries : List (Value × Value)) (key : String) :
    Value.entry (rereadEntries entries) key =
      if keepsKey (.string key) then (Value.entry entries key).map reread else none := by
  rw [rereadEntries_eq, Value.entry, List.find?_map, Option.map_map, Value.entry, Option.map_map]
  cases kept : keepsKey (.string key) with
  | false =>
    rw [if_neg Bool.false_ne_true, Option.map_eq_none_iff, List.find?_eq_none]
    intro e _ read
    have read := ((asStr_plainScalar e.1 key).mp (beq_iff_eq.mp read)).1
    rw [kept] at read
    cases read
  | true =>
    have same : ((fun e : Value × Value => e.1.asStr == some key) ∘ fun e : Value × Value =>
        ((plainScalar (keyText e.1)).value, reread e.2)) = fun e => e.1.asStr == some key := by
      funext e
      rw [Bool.eq_iff_iff, Function.comp_apply, beq_iff_eq, beq_iff_eq, asStr_plainScalar, kept]
      exact and_iff_right rfl
    rw [if_pos rfl, same]
    rfl

/-- What stands under a key of a document that is written and read. -/
lemma asMappingGet_reread_eq (v : Value) (key : String) :
    (reread v).asMappingGet key =
      if keepsKey (.string key) then (v.asMappingGet key).map reread else none := by
  cases v with
  | mapping entries =>
    cases entries with
    | nil => exact (ite_self none).symm
    | cons e rest =>
      rw [reread_mapping (List.cons_ne_nil e rest)]
      exact entry_rereadEntries (e :: rest) key
  | sequence items =>
    have missing : (reread (.sequence items)).asMappingGet key = none := by
      rw [reread]
      cases items.isEmpty with
      | _ => rfl
    rw [missing]
    exact (ite_self none).symm
  | _ =>
    rw [reread, (inlineScalar _).asMappingGet]
    · exact (ite_self none).symm
    · simp
    · simp

lemma lookup_of_mem {K A : Type} [BEq K] [LawfulBEq K] {l : List (K × A)} (nodup : (l.map Prod.fst).Nodup) {k : K}
    {a : A} (mem : (k, a) ∈ l) : l.lookup k = some a := by
  obtain ⟨before, after, rfl⟩ := List.append_of_mem mem
  refine List.lookup_eq_some_iff.mpr ⟨before, after, rfl, fun e earlier => bne_iff_ne.mpr ?_⟩
  rw [List.map_append, List.map_cons] at nodup
  rintro rfl
  exact (List.nodup_append'.mp nodup).2.2 (List.mem_map_of_mem earlier) List.mem_cons_self

/-- A change for a key that is new in its section is found in whichever order the changes come. -/
lemma entry_arranged (whole : arrange.Lists) (nodup : (changes.map Prod.fst).Nodup) (game key : String)
    {new : String × Value → Bool} (isNew : ∀ v, new (key, v) = true) :
    Value.entry (((arrange game (changes.ofGame game)).filter new).map fun c => (.string c.1, c.2)) key =
      changes.lookup (game, key) := by
  rw [Value.entry, List.find?_map, Option.map_map]
  have mem_arranged : ∀ c, c ∈ (arrange game (changes.ofGame game)).filter new ↔
      ((game, c.1), c.2) ∈ changes ∧ new c = true := by
    intro c
    rw [List.mem_filter, (whole game _).mem_iff, mem_ofGame]
  cases first : List.find? _ ((arrange game (changes.ofGame game)).filter new) with
  | some c =>
    have same := List.find?_some first
    obtain ⟨mem, _⟩ := (mem_arranged c).mp (List.mem_of_find?_eq_some first)
    have name : c.1 = key := Option.some_inj.mp (beq_iff_eq.mp same)
    rw [name] at mem
    exact (lookup_of_mem nodup mem).symm
  | none =>
    rw [Option.map_none, eq_comm, List.lookup_eq_none_iff]
    intro c mem
    refine bne_iff_ne.mpr fun same => ?_
    have here : (key, c.2) ∈ (arrange game (changes.ofGame game)).filter new :=
      (mem_arranged _).mpr ⟨by rw [same]; exact mem, isNew c.2⟩
    exact List.find?_eq_none.mp first _ here (beq_self_eq_true _)

/-- What stands under a key of a section with its changes. -/
lemma asMappingGet_changeSection (whole : arrange.Lists) (nodup : (changes.map Prod.fst).Nodup) {game key : String}
    (named : key ≠ "") (options : List (Value × Value)) :
    (changeSection arrange changes (.string game, .mapping options)).asMappingGet key =
      (changes.lookup (game, key)).or (Value.entry options key) := by
  by_cases unchanged : (changes.ofGame game).isEmpty = true
  · have stays : changeSection arrange changes (.string game, .mapping options) = .mapping options := if_pos unchanged
    rw [stays, ← lookup_ofGame, List.isEmpty_iff.mp unchanged, List.lookup_nil, Option.none_or]
    rfl
  · have written : changeSection arrange changes (.string game, .mapping options) = .mapping
        (options.map (fun opt => (opt.1, ((changes.ofGame game).lookup (opt.1.asStr.getD "")).getD opt.2)) ++
          ((arrange game (changes.ofGame game)).filter fun c =>
            !(options.map fun opt => opt.1.asStr.getD "").contains c.1).map fun c => (.string c.1, c.2)) :=
      if_neg unchanged
    rw [written]
    change Value.entry (_ ++ _) key = _
    have there : Value.entry options key = (options.find? fun e => e.1.asStr == some key).map Prod.snd := rfl
    rw [Value.entry_append, entry_map, there]
    cases old : options.find? fun e => e.1.asStr == some key with
    | some opt =>
      have found := List.find?_some old
      have name : opt.1.asStr = some key := beq_iff_eq.mp found
      rw [Option.map_some, name, Option.getD_some, lookup_ofGame, Option.some_or]
      cases changes.lookup (game, key) with
      | _ => rfl
    | none =>
      rw [Option.map_none, Option.none_or, Option.map_none, Option.or_none]
      apply entry_arranged whole nodup
      intro v
      rw [Bool.not_eq_true', List.contains_eq_mem, decide_eq_false_iff_not, List.mem_map]
      rintro ⟨opt, mem, same⟩
      apply List.find?_eq_none.mp old opt mem
      cases text : opt.1.asStr with
      | none =>
        rw [text] at same
        exact (named same.symm).elim
      | some s =>
        rw [text] at same
        exact beq_iff_eq.mpr (congrArg some same)

lemma changeSection_of_noMapping {e : Value × Value} (noMapping : e.2.asMapping = none) :
    changeSection arrange changes e = e.2 := by
  rw [changeSection, noMapping]
  exact ite_self e.2

/-- What comes out under a key of a game: the last change, or else what was there, written and read. -/
lemma optionAt_reread (whole : arrange.Lists) (nodup : (changes.map Prod.fst).Nodup) (topMap : List (Value × Value))
    (game key : String) :
    optionAt (reread (.mapping (changeDocument arrange changes topMap))) game key =
      if keepsKey (.string game) && keepsKey (.string key) &&
          ((Value.entry topMap game).bind Value.asMapping).isSome then
        ((changes.lookup (game, key)).or (optionAt (.mapping topMap) game key)).map reread
      else none := by
  have section_ : (Value.mapping (changeDocument arrange changes topMap)).asMappingGet game =
      (topMap.find? fun e => e.1.asStr == some game).map (changeSection arrange changes) :=
    entry_map (changeSection arrange changes) topMap game
  have there : Value.entry topMap game = (topMap.find? fun e => e.1.asStr == some game).map Prod.snd := rfl
  rw [optionAt, asMappingGet_reread_eq, section_, there]
  cases keepsKey (.string game) with
  | false => rfl
  | true =>
    rw [if_pos rfl]
    cases found : topMap.find? fun e => e.1.asStr == some game with
    | none => simp
    | some e =>
      obtain ⟨k, v⟩ := e
      have same := List.find?_some found
      have name : k.asStr = some game := beq_iff_eq.mp same
      have isText : k = .string game := by
        cases k with
        | string s =>
          cases name
          rfl
        | _ => cases name
      have old : optionAt (.mapping topMap) game key = v.asMappingGet key := by
        refine optionAt_of_section ?_ key
        exact there.trans (by rw [found]; rfl)
      rw [Option.map_some, Option.map_some, Option.map_some, Option.bind_some, Option.bind_some, old,
        asMappingGet_reread_eq, isText]
      cases kept : keepsKey (.string key) with
      | false => rfl
      | true =>
        cases v with
        | mapping options =>
          have named : key ≠ "" := fun blank => keepsKey_ne_blank kept (congrArg Value.string blank)
          rw [asMappingGet_changeSection whole nodup named]
          rfl
        | _ =>
          rw [changeSection_of_noMapping rfl]
          rfl

end Out

/-! ## Which additions are kept -/

section Kept

variable {load : String → Option (List Value)} {arrange : ℕ → Arrangement} {yaml : Value}

lemma mem_firingOptions {o : String × String × Value × Bool} :
    o ∈ firingOptions yaml ↔ ∃ t ∈ collectTriggers yaml, t.canFire yaml = true ∧ o ∈ t.options := by
  simp only [firingOptions, List.mem_flatMap, List.mem_filter, and_assoc]

/-- An option that adds something has something to change. -/
lemma touches_of_added {game key : String} {v : Value} (there : (yaml.asMappingGet game).isSome = true)
    (some_item : addedItems v ≠ []) : touches yaml (game, key, v, true) = true := by
  rw [touches, there, inPlace, List.isEmpty_eq_false_iff.mpr some_item]
  rfl

lemma items_reread (v : Value) : (reread v).asSequence.getD [] = (v.asSequence.getD []).map readAgain := by
  cases v with
  | sequence items =>
    rw [reread]
    cases items with
    | _ => rfl
  | mapping entries =>
    rw [reread]
    cases entries.isEmpty with
    | _ => rfl
  | string s => rfl
  | _ =>
    rw [reread]
    · cases inlineScalar _ with
      | _ => rfl
    · simp
    · simp

lemma items_map_reread (w : Option Value) :
    ((w.map reread).bind Value.asSequence).getD [] = ((w.bind Value.asSequence).getD []).map readAgain := by
  cases w with
  | none => rfl
  | some v => exact items_reread v

/-- The items of the list that an addition sets. -/
lemma items_newValue (yaml : Value) (game key : String) (v : Value) :
    (newValue yaml (game, key, v, true)).asSequence.getD [] = (wantedItems yaml game key v).map readAgain := by
  rw [newValue]
  cases wanted : wantedItems yaml game key v with
  | cons item rest => rfl
  | nil =>
    have nothing := (List.append_eq_nil_iff.mp wanted).2
    cases v with
    | sequence items => exact nothing
    | _ => cases nothing

/-- The items that are left of a list in a document that is changed. -/
lemma itemsAt_changed (reads : ∀ text v, readDocument text = some v → load text = some [v])
    (blank : load "" = some []) (whole : ∀ n, (arrange n).Lists) {topMap : List (Value × Value)}
    (plain : PlainItems (.mapping topMap)) (game key : String) :
    itemsAt (reread (firstPass load arrange (.mapping topMap))) game key =
      if keepsKey (.string game) && keepsKey (.string key) &&
          ((Value.entry topMap game).bind Value.asMapping).isSome then
        itemsLeft (.mapping topMap) game key
      else [] := by
  have changes := passChanges_eq reads blank plain
  have nodup : ((passChanges load (.mapping topMap)).map Prod.fst).Nodup := by
    rw [changes]
    exact nodup_setAll _ List.nodup_nil
  have last : (passChanges load (.mapping topMap)).lookup (game, key) =
      (((firingOptions (.mapping topMap)).filter fun o =>
        (o.1, o.2.1) == (game, key) && touches (.mapping topMap) o).getLast?).map (newValue (.mapping topMap)) := by
    rw [changes, lookup_setAll, List.lookup_nil, Option.or_none, List.filter_filter]
  rw [itemsAt, firstPass, Value.asMapping, Option.getD_some, optionAt_reread (whole _) nodup, last]
  split
  case isFalse => rfl
  case isTrue =>
    rw [itemsLeft, items_map_reread]
    cases found : ((firingOptions (.mapping topMap)).filter fun o =>
        (o.1, o.2.1) == (game, key) && touches (.mapping topMap) o).getLast? with
    | none => rfl
    | some o =>
      obtain ⟨g, k, v, isAdditive⟩ := o
      have here := (List.mem_filter.mp (List.mem_of_getLast? found)).2
      obtain ⟨rfl, rfl⟩ := Prod.mk.inj (beq_iff_eq.mp (Bool.and_eq_true_iff.mp here).1)
      cases isAdditive with
      | true => exact congrArg (List.map readAgain) (items_newValue _ _ _ v)
      | false => rfl

lemma passChanges_eq_nil_iff (reads : ∀ text v, readDocument text = some v → load text = some [v])
    (blank : load "" = some []) (plain : PlainItems yaml) :
    passChanges load yaml = [] ↔ ∀ o ∈ firingOptions yaml, touches yaml o = false := by
  rw [passChanges_eq reads blank plain]
  constructor
  · intro quiet o mem
    by_contra changes
    have there : o ∈ (firingOptions yaml).filter (touches yaml) :=
      List.mem_filter.mpr ⟨mem, (Bool.not_eq_false _).mp changes⟩
    have last := @lookup_setAll yaml ((firingOptions yaml).filter (touches yaml)) [] (o.1, o.2.1)
    rw [quiet, List.lookup_nil, Option.or_none, eq_comm, Option.map_eq_none_iff, List.getLast?_eq_none_iff,
      List.filter_eq_nil_iff] at last
    exact last o there (beq_self_eq_true _)
  · intro quiet
    have none_left : (firingOptions yaml).filter (touches yaml) = [] :=
      List.filter_eq_nil_iff.mpr fun o mem => Bool.eq_false_iff.mp (quiet o mem)
    rw [none_left]
    rfl

/-- Additions are kept just if each item that is wanted is there after one round. -/
lemma additionsKept_iff_items (reads : ∀ text v, readDocument text = some v → load text = some [v])
    (plain : Plain load arrange yaml) :
    AdditionsKept load arrange yaml ↔
      ∀ game key v, (game, key, v, true) ∈ firingOptions yaml → (yaml.asMappingGet game).isSome = true →
        ∀ item ∈ wantedItems yaml game key v, item ∈ itemsAt (afterOneRound load arrange yaml) game key := by
  rw [AdditionsKept, (settle_of_plain reads plain).2]
  constructor
  · intro kept game key v option
    obtain ⟨t, mem, fires, option⟩ := mem_firingOptions.mp option
    exact kept t mem fires game key v option
  · intro kept t mem fires game key v option
    exact kept game key v (mem_firingOptions.mpr ⟨t, mem, fires, option⟩)

/-- Additions are kept just if each item that is wanted survives: the later additions to its list have it too, and
nothing else takes the place of the list. -/
theorem additionsKept_iff (reads : ∀ text v, readDocument text = some v → load text = some [v])
    (blank : load "" = some []) (whole : ∀ n, (arrange n).Lists) (plain : Plain load arrange yaml)
    (items : PlainItems yaml) :
    AdditionsKept load arrange yaml ↔
      ∀ game key v, (game, key, v, true) ∈ firingOptions yaml → (yaml.asMappingGet game).isSome = true →
        ∀ item ∈ wantedItems yaml game key v, ItemSurvives yaml game key item := by
  rw [additionsKept_iff_items reads plain]
  refine forall_congr' fun game => forall_congr' fun key => forall_congr' fun v => forall₂_congr fun option there =>
    forall₂_congr fun item wanted => ?_
  rw [afterOneRound, ItemSurvives, ← passChanges_eq_nil_iff reads blank items]
  rcases eq_or_ne (passChanges load yaml) [] with quiet | changed
  · have nothing : addedItems v = [] := by
      by_contra added
      have stays := (passChanges_eq_nil_iff reads blank items).mp quiet _ option
      rw [touches_of_added there added] at stays
      cases stays
    rw [wantedItems, nothing, List.append_nil] at wanted
    rw [quiet, List.isEmpty_nil, if_pos rfl]
    exact ⟨fun _ => .inl rfl, fun _ => wanted⟩
  · obtain ⟨topMap, isMap, _⟩ := asMapping_of_changes changed
    have same : yaml = .mapping topMap := by
      cases yaml with
      | mapping entries =>
        cases isMap
        rfl
      | _ => cases isMap
    rw [if_neg (by simpa using changed), or_iff_right changed]
    subst same
    rw [itemsAt_changed reads blank whole items game key]
    change _ ↔ ((Value.entry topMap game).bind Value.asMapping).isSome = true ∧ _
    cases ((Value.entry topMap game).bind Value.asMapping).isSome with
    | false => simp
    | true =>
      cases keepsKey (.string game) with
      | false => simp
      | true =>
        cases keepsKey (.string key) with
        | _ => simp

end Kept

/-! ## One addition and another -/

/-- A trigger for the hard mode that adds an item to a list of the game. -/
def additionTrigger (list item : String) : Value :=
  .mapping [(.string "option_category", .string "Test"), (.string "option_name", .string "mode"),
    (.string "option_result", .string "hard"),
    (.string "options", .mapping [(.string "Test", .mapping [(.string list, .sequence [.string item])])])]

/-- A hard game with two lists. -/
def additionYaml (triggers : List Value) : Value :=
  .mapping [(.string "triggers", .sequence triggers),
    (.string "Test", .mapping [(.string "mode", .string "hard"), (.string "items", .sequence [.string "Sword"]),
      (.string "hints", .sequence [.string "Bow", .integer 2])])]

lemma inOrder_lists (n : ℕ) : (inOrder n).Lists := fun _ _ => List.Perm.refl _

/-- Additions to two lists. -/
def twoLists : Value := additionYaml [additionTrigger "+items" "Shield", additionTrigger "+hints" "Bomb"]

lemma firingOptions_twoLists : firingOptions twoLists =
    [("Test", "items", .sequence [.string "Shield"], true), ("Test", "hints", .sequence [.string "Bomb"], true)] := by
  rfl

/-- Additions to two lists are kept. -/
theorem twoLists_kept : AdditionsKept readStream inOrder twoLists := by
  have plain : Plain readStream inOrder twoLists := fun _ => by decide +kernel
  have names : keepsKey (.string "Test") = true ∧ keepsKey (.string "items") = true ∧
      keepsKey (.string "hints") = true := by decide +kernel
  have items : PlainItems twoLists := by
    intro game key v option
    rw [firingOptions_twoLists] at option
    rcases List.mem_cons.mp option with here | option
    · cases here
      rfl
    · cases List.mem_singleton.mp option
      rfl
  apply (additionsKept_iff readStream_reads rfl inOrder_lists plain items).mpr
  intro game key v option _ item wanted
  rw [firingOptions_twoLists] at option
  refine .inr ?_
  rcases List.mem_cons.mp option with here | option
  · cases here
    have left : itemsLeft twoLists "Test" "items" =
        wantedItems twoLists "Test" "items" (.sequence [.string "Shield"]) := rfl
    exact ⟨rfl, names.1, names.2.1, left ▸ wanted⟩
  · cases List.mem_singleton.mp option
    have left : itemsLeft twoLists "Test" "hints" =
        wantedItems twoLists "Test" "hints" (.sequence [.string "Bomb"]) := rfl
    exact ⟨rfl, names.1, names.2.2, left ▸ wanted⟩

/-- Two additions to one list. -/
def oneList : Value := additionYaml [additionTrigger "+items" "Shield", additionTrigger "+items" "Bomb"]

lemma firingOptions_oneList : firingOptions oneList =
    [("Test", "items", .sequence [.string "Shield"], true), ("Test", "items", .sequence [.string "Bomb"], true)] := by
  rfl

/-- Of two additions to one list, the first one is lost. -/
theorem oneList_not_kept : ¬ ∀ load : String → Option (List Value),
    (∀ text v, readDocument text = some v → load text = some [v]) → load "" = some [] →
    ∀ arrange : ℕ → Arrangement, (∀ n, (arrange n).Lists) → ∀ yaml, AdditionsKept load arrange yaml := by
  intro claim
  have kept := claim readStream readStream_reads rfl inOrder inOrder_lists oneList
  have plain : Plain readStream inOrder oneList := fun _ => by decide +kernel
  have first : ("Test", "items", Value.sequence [.string "Shield"], true) ∈ firingOptions oneList := by
    rw [firingOptions_oneList]
    exact List.mem_cons_self
  have shield : Value.string "Shield" ∈ wantedItems oneList "Test" "items" (.sequence [.string "Shield"]) :=
    List.mem_cons_of_mem _ List.mem_cons_self
  have there := (additionsKept_iff_items readStream_reads plain).mp kept _ _ _ first rfl _ shield
  have lost : (itemsAt (afterOneRound readStream inOrder oneList) "Test" "items").all
      (fun item => item.asStr != some "Shield") = true := by decide +kernel
  exact absurd (List.all_eq_true.mp lost _ there) (by decide)

end ArchipelagoXL.Tools
