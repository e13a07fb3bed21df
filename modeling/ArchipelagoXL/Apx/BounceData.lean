import ArchipelagoXL.Apx.Recipients
import ArchipelagoXL.Lib.JsonText
import ArchipelagoXL.Tools.Doubles

/-!
# The data of a bounce

The data of a packet is decoded into values of any type and encoded again for each broadcast (`apx/bounce.go`,
`apx/messages.go`). Every integer goes through a double on its way. A DeathLink that is sent on also has what was read
of it put back over its data, under the names of the fields; these are found by names that differ in case, and then
there is one name more.

`data_arrives_iff` says which data arrives as it was sent.
-/

namespace ArchipelagoXL.Apx
open JsonText (Tree)
open Tools (F64)

/-! ## Numbers -/

/-- The double that an integer is decoded into; there is none if it is too large. -/
def decodeNumber (n : ℤ) : Option ℚ :=
  if n = 0 then some 0
  else
    match F64.roundPos |n| with
    | .finite q => some (if n < 0 then -q else q)
    | _ => none

/-- The number that a double is encoded as: the shortest decimal that is decoded into it. -/
def encodeNumber (q : ℚ) : ℚ :=
  if q = 0 then 0
  else (if q < 0 then -1 else 1) * ((F64.shortest |q|).1 * 10 ^ (F64.shortest |q|).2)

def nearestDouble (n : ℤ) : ℚ := (decodeNumber n).getD 0

/-- An integer comes back from its double. -/
def Survives (n : ℤ) : Prop := encodeNumber (nearestDouble n) = n

/-! ## Values -/

section Values
variable (f : ℤ → ℚ) (g : ℚ → ℚ)

mutual

/-- A value with its integers as some numbers. -/
def jsonOf : Tree → Json
  | .null => .null
  | .bool b => .bool b
  | .num n => .num (f n)
  | .str s => .str s
  | .arr items => .arr (jsonItems items)
  | .obj fields => .obj (jsonFields fields)

def jsonItems : List Tree → List Json
  | [] => []
  | v :: items => jsonOf v :: jsonItems items

def jsonFields : List (String × Tree) → List (String × Json)
  | [] => []
  | (k, v) :: fields => (k, jsonOf v) :: jsonFields fields

end

mutual

/-- A value with other numbers. -/
def onNumbers : Json → Json
  | .null => .null
  | .bool b => .bool b
  | .num q => .num (g q)
  | .str s => .str s
  | .arr items => .arr (onItems items)
  | .obj fields => .obj (onFields fields)

def onItems : List Json → List Json
  | [] => []
  | v :: items => onNumbers v :: onItems items

def onFields : List (String × Json) → List (String × Json)
  | [] => []
  | (k, v) :: fields => (k, onNumbers v) :: onFields fields

end

end Values

mutual

/-- The integers in a value. -/
def integers : Tree → List ℤ
  | .num n => [n]
  | .arr items => integersOfItems items
  | .obj fields => integersOfFields fields
  | .null => []
  | .bool _ => []
  | .str _ => []

def integersOfItems : List Tree → List ℤ
  | [] => []
  | v :: items => integers v ++ integersOfItems items

def integersOfFields : List (String × Tree) → List ℤ
  | [] => []
  | (_, v) :: fields => integers v ++ integersOfFields fields

end

/-! ## Packets -/

/-- A Bounce packet as it is sent; the fields of its data come in the order of their names. -/
structure SentBounce where
  cmd : String
  games : Option (List String)
  slots : Option (List ℤ)
  tags : Option (List String)
  data : BTreeMap String Tree

/-- An integer somewhere in the data. -/
def SentBounce.HasInteger (m : SentBounce) (n : ℤ) : Prop :=
  ∃ (k : String) (v : Tree), m.data[k]? = some v ∧ n ∈ integers v

/-- The data with its integers as some numbers. -/
def SentBounce.dataOf (m : SentBounce) (f : ℤ → ℚ) : BTreeMap String Json := m.data.map fun _ v => jsonOf f v

/-- Go `json.Unmarshal` of a packet; it fails if a number is too large. -/
def SentBounce.decode (m : SentBounce) : Option BounceMessage :=
  if (m.data.toList.flatMap fun e => integers e.2).all fun n => (decodeNumber n).isSome then
    some ⟨m.cmd, m.games, m.slots, m.tags, some (m.dataOf nearestDouble)⟩
  else none

/-- The data of a message as it is encoded. -/
def encodeData (data : BTreeMap String Json) : BTreeMap String Json := data.map fun _ v => onNumbers encodeNumber v

/-- The data that a message carries is that of the packet; that of a DeathLink may have the name of the slot for an
empty source. -/
def SentBounce.Carried (m : SentBounce) (slotName : String) (msg : BounceMessage) : Prop :=
  msg.data.map encodeData = some (m.dataOf (↑)) ∨
    "DeathLink" ∈ m.tags.getD [] ∧ m.data["source"]? = some (.str "") ∧
      msg.data.map encodeData = some ((m.dataOf (↑)).insert "source" (.str slotName))

/-- Whatever room the packet comes to, its data arrives. -/
def SentBounce.Arrives (m : SentBounce) (slotName : String) : Prop :=
  ∀ (room : BounceRoom) (client : Client) (now : ℤ) (draw : ℚ),
    ∀ d ∈ (room.handleBounce ⟨client, slotName, m.decode, now, draw⟩).sent, m.Carried slotName d.msg

/-- A message names a tag, a game or a slot. -/
def BounceMessage.NamesAny (msg : BounceMessage) : Prop :=
  msg.tags.getD [] ≠ [] ∨ msg.games.getD [] ≠ [] ∨ msg.slots.getD [] ≠ []

/-- A message goes to someone in some room: it names anyone at all, or it is a DeathLink that passes its checks. -/
def BounceMessage.Deliverable (msg : BounceMessage) (slotName : String) : Prop :=
  if msg.isDeathLink then (checkDeathLink slotName msg).isOk = true
  else msg.NamesAny

/-- What was read of a DeathLink stands in its data under the very names of the fields; an empty source has become
the name of the slot. -/
structure BounceDataDeathlink.Stands (dl : BounceDataDeathlink) (slotName : String)
    (data : BTreeMap String Json) : Prop where
  time : data["time"]? = some (.num dl.time)
  source : ∃ source, data["source"]? = some (.str source) ∧
    (dl.source = some source ∨ source = "" ∧ dl.source = some slotName)
  cause : ∀ cause, dl.cause = some cause → data["cause"]? = some (.str cause)

/-- What the data of a packet has to be to arrive. -/
def SentBounce.Sturdy (m : SentBounce) (slotName : String) : Prop :=
  ∀ msg, m.decode = some msg → msg.Deliverable slotName →
    (∀ n, m.HasInteger n → Survives n) ∧
      (msg.isDeathLink = true → ∀ data dl, checkDeathLink slotName msg = .ok (data, dl) → dl.Stands slotName data)

/-! ## Going through doubles -/

lemma decodeNumber_of_small {n : ℤ} (small : n.natAbs < 2 ^ 53) : decodeNumber n = some (n : ℚ) := by
  rw [decodeNumber]
  split
  case isTrue zero => rw [zero, Int.cast_zero]
  case isFalse =>
    have size : |(n : ℚ)| = (n.natAbs : ℚ) := by rw [← Int.cast_abs, Int.abs_eq_natAbs, Int.cast_natCast]
    rw [size, F64.roundPos_natCast small]
    simp only [← size]
    split
    case isTrue negative => rw [abs_of_neg (by exact_mod_cast negative), neg_neg]
    case isFalse positive => rw [abs_of_nonneg (by exact_mod_cast not_lt.mp positive)]

/-- Every integer below `2 ^ 53` in size comes back from its double. -/
lemma survives_of_small {n : ℤ} (small : n.natAbs < 2 ^ 53) : Survives n := by
  have size : |(n : ℚ)| = (n.natAbs : ℚ) := by rw [← Int.cast_abs, Int.abs_eq_natAbs, Int.cast_natCast]
  rw [Survives, nearestDouble, decodeNumber_of_small small, Option.getD_some, encodeNumber]
  split
  case isTrue zero => exact zero.symm
  case isFalse =>
    rw [size, F64.shortest_value small, ← size]
    split
    case isTrue negative => rw [abs_of_neg negative, neg_one_mul, neg_neg]
    case isFalse positive => rw [abs_of_nonneg (not_lt.mp positive), one_mul]

section Values
variable {f f' : ℤ → ℚ} {g : ℚ → ℚ}

mutual

lemma onNumbers_jsonOf : ∀ v : Tree, onNumbers g (jsonOf f v) = jsonOf (fun n => g (f n)) v
  | .null => by rw [jsonOf, onNumbers, jsonOf]
  | .bool b => by rw [jsonOf, onNumbers, jsonOf]
  | .num n => by rw [jsonOf, onNumbers, jsonOf]
  | .str s => by rw [jsonOf, onNumbers, jsonOf]
  | .arr items => by rw [jsonOf, onNumbers, jsonOf, onItems_jsonItems items]
  | .obj fields => by rw [jsonOf, onNumbers, jsonOf, onFields_jsonFields fields]

lemma onItems_jsonItems : ∀ items : List Tree, onItems g (jsonItems f items) = jsonItems (fun n => g (f n)) items
  | [] => by rw [jsonItems, onItems, jsonItems]
  | v :: items => by rw [jsonItems, onItems, jsonItems, onNumbers_jsonOf v, onItems_jsonItems items]

lemma onFields_jsonFields : ∀ fields : List (String × Tree),
    onFields g (jsonFields f fields) = jsonFields (fun n => g (f n)) fields
  | [] => by rw [jsonFields, onFields, jsonFields]
  | (k, v) :: fields => by rw [jsonFields, onFields, jsonFields, onNumbers_jsonOf v, onFields_jsonFields fields]

end

mutual

/-- A value is the same with other numbers just if they are the same for its integers. -/
lemma jsonOf_eq_iff : ∀ v : Tree, jsonOf f v = jsonOf f' v ↔ ∀ n ∈ integers v, f n = f' n
  | .null => by simp [jsonOf, integers]
  | .bool b => by simp [jsonOf, integers]
  | .num n => by simp [jsonOf, integers]
  | .str s => by simp [jsonOf, integers]
  | .arr items => by rw [jsonOf, jsonOf, integers, Json.arr.injEq, jsonItems_eq_iff items]
  | .obj fields => by rw [jsonOf, jsonOf, integers, Json.obj.injEq, jsonFields_eq_iff fields]

lemma jsonItems_eq_iff : ∀ items : List Tree,
    jsonItems f items = jsonItems f' items ↔ ∀ n ∈ integersOfItems items, f n = f' n
  | [] => by simp [jsonItems, integersOfItems]
  | v :: items => by
    rw [jsonItems, jsonItems, integersOfItems, List.cons.injEq, List.forall_mem_append, jsonOf_eq_iff v,
      jsonItems_eq_iff items]

lemma jsonFields_eq_iff : ∀ fields : List (String × Tree),
    jsonFields f fields = jsonFields f' fields ↔ ∀ n ∈ integersOfFields fields, f n = f' n
  | [] => by simp [jsonFields, integersOfFields]
  | (k, v) :: fields => by
    rw [jsonFields, jsonFields, integersOfFields, List.cons.injEq, Prod.mk.injEq, List.forall_mem_append,
      jsonOf_eq_iff v, jsonFields_eq_iff fields, and_iff_right rfl]

end

variable {m : SentBounce}

@[simp] lemma SentBounce.getElem?_dataOf {k : String} : (m.dataOf f)[k]? = m.data[k]?.map (jsonOf f) :=
  Std.ExtTreeMap.getElem?_map

@[simp] lemma getElem?_encodeData {data : BTreeMap String Json} {k : String} :
    (encodeData data)[k]? = data[k]?.map (onNumbers encodeNumber) :=
  Std.ExtTreeMap.getElem?_map

/-- Data is the same with other numbers just if they are the same for its integers. -/
lemma SentBounce.dataOf_eq_iff : m.dataOf f = m.dataOf f' ↔ ∀ n, m.HasInteger n → f n = f' n := by
  constructor
  · rintro same n ⟨k, v, here, mem⟩
    have values := congrArg (fun data : BTreeMap String Json => data[k]?) same
    simp only [SentBounce.getElem?_dataOf, here, Option.map_some, Option.some.injEq] at values
    exact (jsonOf_eq_iff v).mp values n mem
  · intro same
    apply Std.ExtTreeMap.ext_getElem?
    intro k
    simp only [SentBounce.getElem?_dataOf]
    cases here : m.data[k]? with
    | none => rfl
    | some v => exact congrArg some ((jsonOf_eq_iff v).mpr fun n mem => same n ⟨k, v, here, mem⟩)

lemma SentBounce.encodeData_dataOf : encodeData (m.dataOf f) = m.dataOf fun n => encodeNumber (f n) := by
  apply Std.ExtTreeMap.ext_getElem?
  intro k
  simp only [getElem?_encodeData, SentBounce.getElem?_dataOf, Option.map_map]
  congr 1
  funext v
  exact onNumbers_jsonOf v

end Values

/-- What is decoded is encoded as it was just if all integers survive. -/
lemma SentBounce.encoded_iff (m : SentBounce) :
    encodeData (m.dataOf nearestDouble) = m.dataOf (↑) ↔ ∀ n, m.HasInteger n → Survives n := by
  rw [SentBounce.encodeData_dataOf, SentBounce.dataOf_eq_iff]
  exact Iff.rfl

/-! ## Reading a DeathLink -/

lemma BounceDataDeathlink.time_decodeField (acc : BounceDataDeathlink × Bool) (e : String × Json) :
    (BounceDataDeathlink.decodeField acc e).1.time = acc.1.time ∨
      e.2 = .num (BounceDataDeathlink.decodeField acc e).1.time := by
  unfold BounceDataDeathlink.decodeField
  split
  case h_1 q _ same => exact .inr same
  all_goals exact .inl rfl

/-- A time that is read is a number of the data. -/
lemma BounceDataDeathlink.time_decode {data : BTreeMap String Json} {dl : BounceDataDeathlink}
    (read : BounceDataDeathlink.decode data = some dl) :
    dl.time = 0 ∨ ∃ k : String, data[k]? = some (Json.num dl.time) := by
  have loop : ∀ (l : List (String × Json)) (acc : BounceDataDeathlink × Bool),
      (l.foldl BounceDataDeathlink.decodeField acc).1.time = acc.1.time ∨
        ∃ e ∈ l, e.2 = .num (l.foldl BounceDataDeathlink.decodeField acc).1.time := by
    intro l
    induction l with
    | nil => exact fun acc => .inl rfl
    | cons e l ih =>
      intro acc
      rcases ih (BounceDataDeathlink.decodeField acc e) with same | ⟨e', mem, here⟩
      · rw [List.foldl_cons, same]
        rcases BounceDataDeathlink.time_decodeField acc e with kept | here
        · exact .inl kept
        · exact .inr ⟨e, List.mem_cons_self, here⟩
      · exact .inr ⟨e', List.mem_cons_of_mem e mem, here⟩
  rw [BounceDataDeathlink.decode] at read
  split at read
  · cases read
    rcases loop data.toList (⟨0, none, none⟩, true) with same | ⟨e, mem, here⟩
    · exact .inl same
    · refine .inr ⟨e.1, ?_⟩
      rw [← here]
      exact Std.ExtTreeMap.mem_toList_iff_getElem?_eq_some.mp mem
  · cases read

/-- What a checked DeathLink says. -/
lemma checkDeathLink_ok {slotName : String} {msg : BounceMessage} {data : BTreeMap String Json}
    {dl : BounceDataDeathlink} (ok : checkDeathLink slotName msg = .ok (data, dl)) :
    msg.data = some data ∧ (∃ k : String, data[k]? = some (Json.num dl.time)) ∧ ∃ source, dl.source = some source := by
  rw [checkDeathLink] at ok
  split at ok
  case h_1 => cases ok
  case h_2 => cases ok
  case h_3 data' _ here =>
    split at ok
    case h_1 => cases ok
    case h_2 dl' read =>
      split at ok
      case isTrue => cases ok
      case isFalse timed =>
        split at ok
        case h_1 => cases ok
        case h_2 source _ =>
          cases ok
          exact ⟨here, (BounceDataDeathlink.time_decode read).resolve_left timed, _, rfl⟩

/-! ## Putting a DeathLink back -/

/-- The entries after what was read is put back. -/
lemma BounceDataDeathlink.getElem?_patch (dl : BounceDataDeathlink) (data : BTreeMap String Json) (k : String) :
    (dl.patch data)[k]? =
      if k = "cause" ∧ dl.cause.isSome then dl.cause.map Json.str
      else if k = "source" then some ((dl.source.map Json.str).getD .null)
      else if k = "time" then some (.num dl.time)
      else data[k]? := by
  unfold BounceDataDeathlink.patch
  cases dl.cause with
  | none =>
    simp only [Std.ExtTreeMap.getElem?_insert, compare_eq_iff_eq, Option.isSome_none, Bool.false_eq_true, and_false,
      if_false, eq_comm (b := k)]
  | some cause =>
    simp only [Std.ExtTreeMap.getElem?_insert, compare_eq_iff_eq, Option.isSome_some, and_true, Option.map_some,
      eq_comm (b := k)]

/-- If what was read stands in the data, only an empty source is replaced. -/
lemma BounceDataDeathlink.Stands.patch {dl : BounceDataDeathlink} {slotName : String} {data : BTreeMap String Json}
    (stands : dl.Stands slotName data) : dl.patch data = data ∨
      data["source"]? = some (.str "") ∧ dl.patch data = data.insert "source" (.str slotName) := by
  obtain ⟨time, ⟨source, here, named⟩, cause⟩ := stands
  have others : ∀ k, k ≠ "source" → (dl.patch data)[k]? = data[k]? := by
    intro k other
    rw [BounceDataDeathlink.getElem?_patch, if_neg other]
    split_ifs with isCause isTime
    · rw [isCause.1]
      obtain ⟨text, read⟩ := Option.isSome_iff_exists.mp isCause.2
      rw [cause text read, read]
      rfl
    · rw [isTime, time]
    · rfl
  have own : (dl.patch data)["source"]? = some ((dl.source.map Json.str).getD .null) := by
    rw [BounceDataDeathlink.getElem?_patch, if_neg (by simp), if_pos rfl]
  rcases named with read | ⟨rfl, read⟩
  · left
    apply Std.ExtTreeMap.ext_getElem?
    intro k
    by_cases isSource : k = "source"
    · rw [isSource, own, here, read]
      rfl
    · exact others k isSource
  · refine .inr ⟨here, ?_⟩
    apply Std.ExtTreeMap.ext_getElem?
    intro k
    rw [Std.ExtTreeMap.getElem?_insert]
    by_cases isSource : k = "source"
    · rw [isSource, own, read, if_pos (compare_eq_iff_eq.mpr rfl)]
      rfl
    · rw [others k isSource, if_neg fun same => isSource (compare_eq_iff_eq.mp same).symm]

lemma encodeData_insert (data : BTreeMap String Json) (k : String) (v : Json) :
    encodeData (data.insert k v) = (encodeData data).insert k (onNumbers encodeNumber v) := by
  apply Std.ExtTreeMap.ext_getElem?
  intro j
  simp only [getElem?_encodeData, Std.ExtTreeMap.getElem?_insert]
  split <;> rfl

/-! ## Deliveries -/

/-- Only a message that names someone is sent to clients. -/
lemma BounceRoom.namesAny_of_broadcast {room : BounceRoom} {p : BouncePacket} {msg : BounceMessage} {d : Delivery}
    (h : d ∈ room.broadcastBounceFromSlot p msg) : msg.NamesAny := by
  have filed : ∀ {r : Registry} {msg : BounceMessage} {c : Client}, c ∈ r.addressed msg → msg.NamesAny := by
    intro r msg c mem
    rw [Registry.addressed, List.mem_append, List.mem_append, List.mem_flatMap, List.mem_flatMap,
      List.mem_flatMap] at mem
    rcases mem with (⟨_, mem, _⟩ | ⟨_, mem, _⟩) | ⟨_, mem, _⟩
    · exact .inl (List.ne_nil_of_mem mem)
    · exact .inr (.inl (List.ne_nil_of_mem mem))
    · exact .inr (.inr (List.ne_nil_of_mem mem))
  have pass : ∀ {msg : BounceMessage} {mine allowed : Client → Bool}, d ∈ room.broadcastTo p msg mine allowed →
      msg.NamesAny := by
    intro msg mine allowed mem
    exact filed (BounceRoom.mem_clients_broadcastTo.mp (List.mem_map_of_mem mem)).1.1
  have stripped : (room.stripTags p.client.slotId msg).NamesAny → msg.NamesAny := by
    rintro (tags | games | slots)
    · left
      rintro none
      apply tags
      rw [BounceRoom.stripTags]
      cases here : msg.tags with
      | none => rfl
      | some tags =>
        rw [here, Option.getD_some] at none
        rw [none]
        rfl
    · exact .inr (.inl games)
    · exact .inr (.inr slots)
  unfold BounceRoom.broadcastBounceFromSlot at h
  simp only at h
  split at h
  · exact pass h
  · rcases List.mem_append.mp h with h | h
    · exact pass h
    · exact stripped (pass h)

/-- A client that a message names, if it names any. -/
def BounceMessage.someClient (msg : BounceMessage) : Client :=
  ⟨0, (msg.slots.getD []).head?.getD 0, (msg.games.getD []).head?.getD ""⟩

/-- A room with this client alone. -/
def BounceMessage.lonely (msg : BounceMessage) : Registry × Presence :=
  registryAfter [.register msg.someClient (msg.tags.getD [])]

lemma BounceMessage.lonely_filed (msg : BounceMessage) : Filed msg.lonely.1 msg.lonely.2 :=
  (Tidy.register tidy_new (Finset.notMem_empty msg.someClient)).agrees.filed

lemma BounceMessage.someClient_matches {msg : BounceMessage} (names : msg.NamesAny) :
    msg.Tagged msg.lonely.2 (fun _ => False) msg.someClient ∨ msg.Names msg.someClient := by
  rcases names with named | named | named
  · obtain ⟨tag, mem⟩ := List.exists_mem_of_ne_nil _ named
    refine .inl ⟨tag, mem, id, ?_⟩
    have tags : msg.lonely.2.tagsOf msg.someClient = msg.tags.getD [] := Function.update_self ..
    rwa [tags]
  · obtain ⟨game, games, here⟩ := List.exists_cons_of_ne_nil named
    refine .inr (.inl ?_)
    show (msg.games.getD []).head?.getD "" ∈ msg.games.getD []
    rw [here]
    exact List.mem_cons_self
  · obtain ⟨slot, slots, here⟩ := List.exists_cons_of_ne_nil named
    refine .inr (.inr ?_)
    show (msg.slots.getD []).head?.getD 0 ∈ msg.slots.getD []
    rw [here]
    exact List.mem_cons_self

/-- If that client sends the message, something is delivered. -/
lemma BounceMessage.lonely_delivers {msg : BounceMessage} (names : msg.NamesAny) (info : BounceInfo) (last : ℤ)
    {p : BouncePacket} (own : p.client = msg.someClient) :
    ∃ d, d ∈ (BounceRoom.mk info last msg.lonely.1).broadcastBounceFromSlot p msg := by
  have reached := (@Filed.mem_broadcastBounceToSlot ⟨info, last, msg.lonely.1⟩ _ msg.lonely_filed p msg
    msg.someClient).mpr ⟨Finset.mem_insert_self _ _, by rw [own], msg.someClient_matches names⟩
  obtain ⟨d, mem, -⟩ := List.mem_map.mp reached
  refine ⟨d, ?_⟩
  unfold BounceRoom.broadcastBounceFromSlot
  simp only
  split
  · exact mem
  · exact List.mem_append_left _ mem

/-! ## Which data arrives -/

section Arrives
variable {m : SentBounce} {slotName : String} {msg : BounceMessage} {data : BTreeMap String Json}
  {dl : BounceDataDeathlink}

lemma SentBounce.decode_eq (decoded : m.decode = some msg) :
    msg = ⟨m.cmd, m.games, m.slots, m.tags, some (m.dataOf nearestDouble)⟩ := by
  rw [SentBounce.decode] at decoded
  split at decoded
  · exact (Option.some.inj decoded).symm
  · cases decoded

/-- Data that is sent as it was decoded is carried just if all integers survive. -/
lemma SentBounce.carried_iff (same : msg.data = some (m.dataOf nearestDouble)) :
    m.Carried slotName msg ↔ ∀ n, m.HasInteger n → Survives n := by
  rw [← m.encoded_iff, SentBounce.Carried, same, Option.map_some, Option.some.injEq]
  constructor
  · rintro (exact_ | ⟨-, empty, replaced⟩)
    · exact exact_
    · rw [Option.some.injEq] at replaced
      -- The source is still empty, so the slot has no name.
      have source := congrArg (fun data : BTreeMap String Json => data["source"]?) replaced
      simp only [getElem?_encodeData, SentBounce.getElem?_dataOf, empty, Std.ExtTreeMap.getElem?_insert_self,
        Option.map_some, jsonOf, onNumbers, Option.some.injEq, Json.str.injEq] at source
      rw [replaced]
      apply Std.ExtTreeMap.ext_getElem?
      intro k
      rw [Std.ExtTreeMap.getElem?_insert]
      split
      case isTrue isSource =>
        rw [← compare_eq_iff_eq.mp isSource, SentBounce.getElem?_dataOf, empty, Option.map_some, jsonOf, source]
      case isFalse => rfl
  · exact .inl

/-- An integer of the data that was decoded. -/
lemma SentBounce.num_of_getElem {k : String} {q : ℚ} (here : (m.dataOf nearestDouble)[k]? = some (.num q)) :
    ∃ n, m.HasInteger n ∧ q = nearestDouble n := by
  rw [SentBounce.getElem?_dataOf] at here
  obtain ⟨v, there, same⟩ := Option.map_eq_some_iff.mp here
  cases v with
  | num n =>
    rw [jsonOf] at same
    cases same
    exact ⟨n, ⟨k, .num n, there, by simp [integers]⟩, rfl⟩
  | null | bool | str | arr | obj =>
    rw [jsonOf] at same
    cases same

/-- A text of the data, however its numbers are read. -/
lemma SentBounce.str_of_getElem {f : ℤ → ℚ} {k text : String} :
    (m.dataOf f)[k]? = some (.str text) ↔ m.data[k]? = some (.str text) := by
  rw [SentBounce.getElem?_dataOf, Option.map_eq_some_iff]
  constructor
  · rintro ⟨v, there, same⟩
    cases v with
    | str s =>
      rw [jsonOf] at same
      cases same
      exact there
    | null | bool | num | arr | obj =>
      rw [jsonOf] at same
      cases same
  · exact fun there => ⟨_, there, by rw [jsonOf]⟩

/-- A patched DeathLink whose integers survive is carried just if what was read stands in its data. -/
lemma SentBounce.carried_patch_iff (survive : ∀ n, m.HasInteger n → Survives n)
    (dead : "DeathLink" ∈ m.tags.getD [])
    (timed : ∃ k : String, (m.dataOf nearestDouble)[k]? = some (Json.num dl.time))
    (named : ∃ source, dl.source = some source)
    (patched : msg.data = some (dl.patch (m.dataOf nearestDouble))) :
    m.Carried slotName msg ↔ dl.Stands slotName (m.dataOf nearestDouble) := by
  have encoded := m.encoded_iff.mpr survive
  rw [SentBounce.Carried, patched, Option.map_some, Option.some.injEq, Option.some.injEq]
  constructor
  · intro carried
    -- Apart from the source, what is put back is what was sent.
    have others : ∀ k, k ≠ "source" →
        (encodeData (dl.patch (m.dataOf nearestDouble)))[k]? = (m.dataOf (↑))[k]? := by
      intro k other
      rcases carried with same | ⟨-, -, same⟩
      · rw [same]
      · rw [same, Std.ExtTreeMap.getElem?_insert, if_neg fun isSource => other (compare_eq_iff_eq.mp isSource).symm]
    refine ⟨?_, ?_, ?_⟩
    · have time := others "time" (by decide)
      rw [getElem?_encodeData, BounceDataDeathlink.getElem?_patch, if_neg (by simp), if_neg (by simp), if_pos rfl,
        Option.map_some, onNumbers, SentBounce.getElem?_dataOf] at time
      obtain ⟨v, there, same⟩ := Option.map_eq_some_iff.mp time.symm
      obtain ⟨k, here⟩ := timed
      obtain ⟨n, has, read⟩ := m.num_of_getElem here
      rw [read, survive n has] at same
      cases v with
      | num n' =>
        rw [jsonOf, Json.num.injEq, Int.cast_inj] at same
        rw [SentBounce.getElem?_dataOf, there, Option.map_some, jsonOf, same, ← read]
      | null | bool | str | arr | obj =>
        rw [jsonOf] at same
        cases same
    · obtain ⟨source, read⟩ := named
      have own : (encodeData (dl.patch (m.dataOf nearestDouble)))["source"]? = some (.str source) := by
        rw [getElem?_encodeData, BounceDataDeathlink.getElem?_patch, if_neg (by simp), if_pos rfl, read]
        simp only [Option.map_some, Option.getD_some, onNumbers]
      rcases carried with same | ⟨-, empty, same⟩
      · rw [same, SentBounce.str_of_getElem] at own
        exact ⟨source, SentBounce.str_of_getElem.mpr own, .inl read⟩
      · rw [same, Std.ExtTreeMap.getElem?_insert_self, Option.some.injEq, Json.str.injEq] at own
        exact ⟨"", SentBounce.str_of_getElem.mpr empty, .inr ⟨rfl, own ▸ read⟩⟩
    · intro cause read
      have here := others "cause" (by decide)
      rw [getElem?_encodeData, BounceDataDeathlink.getElem?_patch, read, if_pos ⟨rfl, rfl⟩] at here
      simp only [Option.map_some, onNumbers] at here
      exact SentBounce.str_of_getElem.mpr (SentBounce.str_of_getElem.mp here.symm)
  · intro stands
    rcases stands.patch with same | ⟨empty, same⟩
    · rw [same]
      exact .inl encoded
    · rw [same, encodeData_insert, encoded]
      refine .inr ⟨dead, SentBounce.str_of_getElem.mp empty, ?_⟩
      rw [onNumbers]

/-- A DeathLink has the tag. -/
lemma SentBounce.dead_of_decode (decoded : m.decode = some msg) (dead : msg.isDeathLink = true) :
    "DeathLink" ∈ m.tags.getD [] := by
  rw [m.decode_eq decoded] at dead
  exact List.contains_iff_mem.mp dead

/-- The data of a checked DeathLink is what was decoded. -/
lemma SentBounce.data_of_check (decoded : m.decode = some msg) (ok : checkDeathLink slotName msg = .ok (data, dl)) :
    data = m.dataOf nearestDouble := by
  have here := (checkDeathLink_ok ok).1
  rw [m.decode_eq decoded] at here
  exact (Option.some.inj here).symm

/-- A packet that is not a DeathLink and names anyone is delivered in some room. -/
lemma SentBounce.Arrives.survive_of_names (arrives : m.Arrives slotName) (decoded : m.decode = some msg)
    (alive : ¬ msg.isDeathLink = true) (names : msg.NamesAny) : ∀ n, m.HasInteger n → Survives n := by
  let info : BounceInfo := ⟨fun _ => 0, 1, ∅, ∅⟩
  obtain ⟨d, mem⟩ := BounceMessage.lonely_delivers names info 0 (p := ⟨msg.someClient, slotName, some msg, 0, 0⟩) rfl
  have carried := arrives ⟨info, 0, msg.lonely.1⟩ msg.someClient 0 0 d (by
    rw [decoded, BounceRoom.handleBounce]
    simp only
    rw [if_neg alive]
    exact mem)
  have isData : msg.data = some (m.dataOf nearestDouble) := by rw [m.decode_eq decoded]
  exact (m.carried_iff ((BounceRoom.data_of_broadcast mem).trans isData)).mp carried

/-- A DeathLink goes back to its sender while the cooldown is on. -/
lemma SentBounce.Arrives.survive_of_cooldown (arrives : m.Arrives slotName) (decoded : m.decode = some msg)
    (dead : msg.isDeathLink = true) (valid : (checkDeathLink slotName msg).isOk = true) :
    ∀ n, m.HasInteger n → Survives n := by
  let room : BounceRoom := ⟨⟨fun _ => 0, 1, ∅, ∅⟩, 0, Registry.new⟩
  let p : BouncePacket := ⟨msg.someClient, slotName, some msg, 0, 0⟩
  have blocked : room.takes p = false := by
    rw [BounceRoom.takes, Bool.and_eq_false_iff]
    exact .inr rfl
  have sent : (room.handleBounce p).sent = [⟨p, msg.someClient, msg.bounced⟩] := by
    rw [(BounceRoom.handleBounce_of_not_takes blocked).2, BounceRoom.replies]
    simp only [p]
    rw [if_pos dead, if_pos valid]
  have carried := arrives room msg.someClient 0 0 ⟨p, msg.someClient, msg.bounced⟩ (by
    rw [decoded, sent]
    exact List.mem_singleton_self _)
  exact (m.carried_iff (by rw [m.decode_eq decoded]; rfl)).mp carried

/-- After the cooldown it is sent on with what was read of it. -/
lemma SentBounce.Arrives.stands_of_sent (arrives : m.Arrives slotName) (decoded : m.decode = some msg)
    (dead : msg.isDeathLink = true) (survive : ∀ n, m.HasInteger n → Survives n)
    (ok : checkDeathLink slotName msg = .ok (data, dl)) : dl.Stands slotName data := by
  obtain rfl := m.data_of_check decoded ok
  obtain ⟨-, timed, named⟩ := checkDeathLink_ok ok
  let sentOn : BounceMessage := { msg with data := some (dl.patch (m.dataOf nearestDouble)) }
  let room : BounceRoom := ⟨⟨fun _ => 0, 1, ∅, ∅⟩, 0, sentOn.lonely.1⟩
  let p : BouncePacket := ⟨sentOn.someClient, slotName, some msg, deathlinkThrottle, 0⟩
  have takes : room.takes p = true := by
    rw [BounceRoom.takes]
    simp only [p]
    rw [dead, ok]
    rfl
  obtain ⟨-, msg', data', dl', same, ok', -, sent⟩ := BounceRoom.handleBounce_of_takes takes
  obtain rfl := Option.some.inj same
  obtain ⟨rfl, rfl⟩ := Prod.mk.inj (Except.ok.inj (ok.symm.trans ok'))
  have names : sentOn.NamesAny := .inl (List.ne_nil_of_mem (List.contains_iff_mem.mp dead))
  obtain ⟨d, mem⟩ := BounceMessage.lonely_delivers names ⟨fun _ => 0, 1, ∅, ∅⟩ 0 (p := p) rfl
  have carried := arrives room sentOn.someClient deathlinkThrottle 0 d (by rw [decoded, sent]; exact mem)
  exact (m.carried_patch_iff survive (m.dead_of_decode decoded dead) timed named
    (BounceRoom.data_of_broadcast mem)).mp carried

lemma SentBounce.Sturdy.arrives (sturdy : m.Sturdy slotName) : m.Arrives slotName := by
  intro room client now draw d mem
  cases decoded : m.decode with
  | none =>
    rw [decoded] at mem
    cases mem
  | some msg =>
    rw [decoded] at mem
    have isData : msg.data = some (m.dataOf nearestDouble) := by rw [m.decode_eq decoded]
    cases takes : room.takes ⟨client, slotName, some msg, now, draw⟩ with
    | true =>
      obtain ⟨-, msg', data, dl, same, ok, -, sent⟩ := BounceRoom.handleBounce_of_takes takes
      obtain rfl := Option.some.inj same
      have dead : msg.isDeathLink = true := by
        rw [BounceRoom.takes] at takes
        simp only [Bool.and_eq_true] at takes
        exact takes.1.1.1
      have deliverable : msg.Deliverable slotName := by
        rw [BounceMessage.Deliverable, if_pos dead, ok]
        rfl
      obtain ⟨survive, stands⟩ := sturdy msg decoded deliverable
      have standing := stands dead data dl ok
      obtain rfl := m.data_of_check decoded ok
      obtain ⟨-, timed, named⟩ := checkDeathLink_ok ok
      rw [sent] at mem
      exact (m.carried_patch_iff survive (m.dead_of_decode decoded dead) timed named
        (BounceRoom.data_of_broadcast mem)).mpr standing
    | false =>
      rw [(BounceRoom.handleBounce_of_not_takes takes).2, BounceRoom.replies] at mem
      simp only at mem
      split at mem
      case isTrue dead =>
        split at mem
        case isTrue valid =>
          rw [List.mem_singleton.mp mem]
          refine (m.carried_iff isData).mpr (sturdy msg decoded ?_).1
          rw [BounceMessage.Deliverable, if_pos dead]
          exact valid
        case isFalse => cases mem
      case isFalse alive =>
        refine (m.carried_iff ((BounceRoom.data_of_broadcast mem).trans isData)).mpr (sturdy msg decoded ?_).1
        rw [BounceMessage.Deliverable, if_neg alive]
        exact BounceRoom.namesAny_of_broadcast mem

end Arrives

/-- The data of a packet arrives as it was sent, wherever it is delivered, if all its integers come back from their
doubles and what is read of a DeathLink stands under the names of the fields; and also if it is delivered nowhere. -/
theorem data_arrives_iff (m : SentBounce) (slotName : String) : m.Arrives slotName ↔ m.Sturdy slotName := by
  refine ⟨fun arrives msg decoded deliverable => ?_, SentBounce.Sturdy.arrives⟩
  rw [BounceMessage.Deliverable] at deliverable
  split at deliverable
  case isTrue dead =>
    have survive := arrives.survive_of_cooldown decoded dead deliverable
    exact ⟨survive, fun _ _ _ ok => arrives.stands_of_sent decoded dead survive ok⟩
  case isFalse alive => exact ⟨arrives.survive_of_names decoded alive deliverable, fun dead => absurd dead alive⟩

/-- An amount that lies between two doubles. -/
def bigAmount : SentBounce :=
  ⟨"Bounce", none, none, some ["RingLink"],
    (∅ : BTreeMap String Tree).insert "amount" (.num 9007199254740993)⟩

/-- A DeathLink with its time under another spelling. -/
def spelledTime : SentBounce where
  cmd := "Bounce"
  games := none
  slots := none
  tags := some ["DeathLink"]
  data := ((∅ : BTreeMap String Tree).insert "Time" (.num 5)).insert "source" (.str "Ann")

/-- The amount arrives as another number, and the DeathLink with a second time. -/
theorem data_changed : (¬ ∀ m slotName, SentBounce.Arrives m slotName) ∧
    ¬ ∀ m slotName, (∀ n, SentBounce.HasInteger m n → Survives n) → SentBounce.Arrives m slotName := by
  constructor
  · intro claim
    obtain ⟨msg, decoded⟩ := Option.isSome_iff_exists.mp (show bigAmount.decode.isSome = true by decide +kernel)
    have alive : ¬ msg.isDeathLink = true := by
      rw [bigAmount.decode_eq decoded]
      decide
    have names : msg.NamesAny := by
      rw [bigAmount.decode_eq decoded]
      exact .inl (List.cons_ne_nil _ _)
    have survives := (claim bigAmount "Ann").survive_of_names decoded alive names 9007199254740993
      ⟨"amount", .num 9007199254740993, rfl, by simp [integers]⟩
    exact absurd survives (by rw [Survives]; decide +kernel)
  · intro claim
    have arrives := claim spelledTime "Ann" (by
      rintro n ⟨k, v, here, mem⟩
      rw [spelledTime, Std.ExtTreeMap.getElem?_insert, Std.ExtTreeMap.getElem?_insert] at here
      split at here
      · cases here
        rw [integers] at mem
        cases mem
      · split at here
        · cases here
          rw [integers, List.mem_singleton] at mem
          rw [mem, Survives]
          decide +kernel
        · rw [Std.ExtTreeMap.getElem?_empty] at here
          cases here)
    obtain ⟨msg, decoded⟩ := Option.isSome_iff_exists.mp (show spelledTime.decode.isSome = true by decide +kernel)
    have dead : msg.isDeathLink = true := by
      rw [spelledTime.decode_eq decoded]
      decide
    have valid : (checkDeathLink "Ann" msg).isOk = true := by
      rw [spelledTime.decode_eq decoded]
      decide +kernel
    have survive := arrives.survive_of_cooldown decoded dead valid
    cases ok : checkDeathLink "Ann" msg with
    | error err =>
      rw [ok] at valid
      cases valid
    | ok r =>
      have time := (arrives.stands_of_sent decoded dead survive ok).time
      rw [spelledTime.data_of_check decoded ok, SentBounce.getElem?_dataOf] at time
      have none : spelledTime.data["time"]? = none := rfl
      rw [none] at time
      cases time

end ArchipelagoXL.Apx
