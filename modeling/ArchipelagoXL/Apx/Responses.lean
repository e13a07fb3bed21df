import ArchipelagoXL.Apx.Sharing
import ArchipelagoXL.Lib.JsonText

/-!
# Prebuilt datapackage responses

A client asks for the datapackages of some games and gets one message with those that the room has
(`apx/datapackage.go`). No message is encoded for it. For a single game there is a response in the store; a room with
many games also keeps the one for all of them, and what is left is put together from the encoded pieces. Which of
these it is depends on how many games are asked for.

A name that is repeated counts each time, so a list that is as long as that of all games is answered with all of them,
whichever it names: `answered_iff` says for which requests the answer is right.
-/

namespace ArchipelagoXL.Apx
open JsonText

/-! ## The store -/

/-- Go `DataPackageStore` with the names of its packages and what there is for all games at once. -/
structure RoomDataPackageStore extends DataPackageStore where
  games : List String
  fullGameResponseOptimization : Bool
  fullGameResponse : Option String

/-- Go `newDataPackageStore`, with its first argument. -/
def newRoomDataPackageStore (fullGameResponseOptimization : Bool) : RoomDataPackageStore :=
  ⟨newDataPackageStore, [], fullGameResponseOptimization, none⟩

/-- The errors of a response. -/
inductive ResponseError where
  /-- The text is `unknown datapackage for`, and the game in quotes. -/
  | unknownDatapackage (game : String)
  /-- The text is `prefetching datapackage for`, how many games, and the error of the server. -/
  | prefetching (games : ℕ) (err : String)
deriving DecidableEq

/-- The local constants `header` and `footer`. -/
def responseHeader : String := "[\x7b\"cmd\":\"DataPackage\",\"data\":\x7b\"games\":\x7b"

def responseFooter : String := "\x7d\x7d\x7d]"

/-- Go `buildResponse`. -/
def DataPackageStore.buildResponse (ds : DataPackageStore) (games : List String) : Except ResponseError String :=
  match games.find? fun game => (ds.packages game).isNone with
  | some game => .error (.unknownDatapackage game)
  | none =>
    .ok (responseHeader ++ String.intercalate "," (games.map fun game =>
      (ds.encodedGameNameKeys game).getD "" ++ ":" ++ (ds.packages game).getD "") ++ responseFooter)

/-- The body of the loop of `prefetchDataPackages`. -/
def addRoomDataPackage (s : GlobalDataPackageCache × RoomDataPackageStore) (e : Package) :
    GlobalDataPackageCache × RoomDataPackageStore :=
  let (c, ds) := addDataPackage s.1 s.2.toDataPackageStore e.1 e.2
  (c, { s.2 with
    toDataPackageStore := ds
    games := if e.1 ∈ s.2.games then s.2.games else s.2.games ++ [e.1] })

/-- Go `prefetchDataPackages`. What the server says of games is `fetch`, and the packages are walked in the order
`walk`. -/
def prefetchDataPackages (fetch : List String → Except String (WalkMap String GameData))
    (walk : List String → List String) (checksums : WalkMap String String)
    (s : GlobalDataPackageCache × RoomDataPackageStore) :
    Except ResponseError (GlobalDataPackageCache × RoomDataPackageStore) := do
  let missing := (checksums.entries.map Prod.fst).filter fun game => (s.2.packages game).isNone
  let s ← if missing.length > 0 then
      match fetch missing with
      | .error err => .error (.prefetching missing.length err)
      | .ok gameData => .ok (gameData.entries.foldl addRoomDataPackage s)
    else .ok s
  if s.2.fullGameResponseOptimization then
    -- The error is ignored: these are the names of packages.
    .ok (s.1, { s.2 with fullGameResponse := (s.2.buildResponse (walk s.2.games)).toOption })
  else .ok s

/-! ## A request -/

/-- The games of a request that the room has, as often as they are named; no names are those of all games. The names
are missing if the packet could not be decoded. -/
def requestedGames (checksums : WalkMap String String) (games : Option (List String)) : List String :=
  let requested := games.getD []
  let requested := if requested.length = 0 then checksums.entries.map Prod.fst else requested
  requested.filter fun game => checksums.entries.any fun e => decide (e.1 = game)

/-- Go `sendDataPackages`, less the metrics. -/
def RoomDataPackageStore.sendDataPackages (ds : RoomDataPackageStore) (games : List String) :
    Except ResponseError String :=
  match games with
  | [game] =>
    match ds.singleResponses game with
    | none => .error (.unknownDatapackage game)
    | some raw => .ok raw
  | _ =>
    match ds.fullGameResponseOptimization && decide (games.length = ds.games.length), ds.fullGameResponse with
    | true, some full => .ok full
    | _, _ => ds.buildResponse games

/-- Go `handleGetDataPackage`. -/
def RoomDataPackageStore.handleGetDataPackage (ds : RoomDataPackageStore) (checksums : WalkMap String String)
    (games : Option (List String)) : Except ResponseError String :=
  ds.sendDataPackages (requestedGames checksums games)

/-! ## What a response should be -/

/-- A text is that of a value. -/
def IsTextOf (text : String) (v : Tree) : Prop := text.toList = write marshalChar v

/-- A DataPackage message with some games. -/
def dataPackageMessage (games : List (String × Tree)) : Tree :=
  .arr [.obj [("cmd", .str "DataPackage"), ("data", .obj [("games", .obj games)])]]

/-- A client asks for a game that the room has. -/
def Wanted (checksums : WalkMap String String) (games : Option (List String)) (game : String) : Prop :=
  game ∈ checksums.entries.map Prod.fst ∧ (games.getD [] = [] ∨ game ∈ games.getD [])

/-- A request is answered with a message that has just the wanted games, each with its package. -/
def RoomDataPackageStore.Answers (ds : RoomDataPackageStore) (checksums : WalkMap String String)
    (games : Option (List String)) : Prop :=
  ∃ text fields, ds.handleGetDataPackage checksums games = .ok text ∧
    IsTextOf text (dataPackageMessage fields) ∧
    (∀ game, game ∈ fields.map Prod.fst ↔ Wanted checksums games game) ∧
    ∀ e ∈ fields, ∃ raw, ds.packages e.1 = some raw ∧ IsTextOf raw e.2

/-- The store has for each of its games a package, its response and its name; the response for all games was put
together from them. -/
structure Prefetched (ds : RoomDataPackageStore) : Prop where
  distinct : ds.games.Nodup
  keys : ∀ game, game ∈ ds.games ↔ (ds.packages game).isSome
  texts : ∀ game raw, ds.packages game = some raw → ∃ v, IsTextOf raw v
  responses : ∀ game, ds.singleResponses game = (ds.packages game).map (singleResponse game)
  names : ∀ game ∈ ds.games, ds.encodedGameNameKeys game = some (marshalString game)
  full : ds.fullGameResponseOptimization = true →
    ∃ order, order.Perm ds.games ∧ ds.fullGameResponse = (ds.buildResponse order).toOption

/-! ## Characters -/

/-- What a digit of an escape stands for. -/
def hexValue (c : Char) : ℕ := if c.toNat < 58 then c.toNat - 48 else c.toNat - 87

/-- The first character of a string that was written, and what comes after it. -/
def unmarshalChar : List Char → Option (Char × List Char)
  | '\\' :: c :: r =>
    if c = 'b' then some (Char.ofNat 8, r)
    else if c = 'f' then some (Char.ofNat 12, r)
    else if c = 'n' then some ('\n', r)
    else if c = 'r' then some ('\r', r)
    else if c = 't' then some ('\t', r)
    else if c = 'u' then
      match r with
      | w :: x :: y :: z :: r =>
        some (Char.ofNat (((hexValue w * 16 + hexValue x) * 16 + hexValue y) * 16 + hexValue z), r)
      | _ => none
    else some (c, r)
  | c :: r => some (c, r)
  | [] => none

lemma hexValue_hexDigit : ∀ n < 16, hexValue (hexDigit n) = n := by
  decide

lemma unmarshalChar_marshalChar (c : Char) (r : List Char) : unmarshalChar (marshalChar c ++ r) = some (c, r) := by
  have code : ∀ {n : ℕ}, c.toNat = n → c = Char.ofNat n := by
    rintro n rfl
    exact (Char.ofNat_toNat c).symm
  rw [marshalChar]
  split_ifs with special backspace feed newline ret tab control line paragraph
  · rcases special with rfl | rfl
    · rfl
    · rfl
  · rw [code backspace]
    rfl
  · rw [code feed]
    rfl
  · rw [newline]
    rfl
  · rw [ret]
    rfl
  · rw [tab]
    rfl
  · have small : c.toNat < 64 := by
      rcases control with small | rfl | rfl | rfl
      · omega
      · decide
      · decide
      · decide
    have high := hexValue_hexDigit (c.toNat / 16) (by omega)
    have low := hexValue_hexDigit (c.toNat % 16) (by omega)
    have zero : hexValue '0' = 0 := rfl
    show some (Char.ofNat (((hexValue '0' * 16 + hexValue '0') * 16 + hexValue (hexDigit (c.toNat / 16))) * 16 +
      hexValue (hexDigit (c.toNat % 16))), r) = some (c, r)
    rw [high, low, zero, show ((0 * 16 + 0) * 16 + c.toNat / 16) * 16 + c.toNat % 16 = c.toNat by omega,
      Char.ofNat_toNat]
  · rw [code line]
    rfl
  · rw [code paragraph]
    rfl
  · have plain : c ≠ '\\' := fun e => special (.inr e)
    rw [List.singleton_append, unmarshalChar]
    intro d l e
    exact absurd e plain

/-- What Go writes for characters can be told apart. -/
lemma marshalChar_readable : Readable marshalChar where
  char c d r s same := by
    have read := unmarshalChar_marshalChar c r
    rw [same, unmarshalChar_marshalChar] at read
    cases read
    exact ⟨rfl, rfl⟩
  quote c r s same := by
    have read := unmarshalChar_marshalChar c r
    rw [same] at read
    cases read
    cases same

/-! ## Texts -/

lemma writeString_marshalChar (s : String) : writeString marshalChar s = (marshalString s).toList := by
  rw [writeString, marshalString]
  simp

lemma toList_append {s t : String} {l m : List Char} (hs : s.toList = l) (ht : t.toList = m) :
    (s ++ t).toList = l ++ m := by
  rw [String.toList_append, hs, ht]

/-- The texts of some pieces, joined. -/
lemma toList_joined {A : Type} (l : List A) (text : A → String) :
    (String.intercalate "," (l.map text)).toList = List.intercalate [','] (l.map fun a => (text a).toList) := by
  rw [String.toList_intercalate, List.map_map]
  rfl

/-- The value of a map from names to ids. -/
def idsTree : Option (WalkMap String ℤ) → Tree
  | none => .null
  | some ids => .obj (ids.sorted.map fun e => (e.1, .num e.2))

/-- The value of game data. -/
def GameData.tree (gd : GameData) : Tree :=
  .obj [("item_name_to_id", idsTree gd.itemNameToID), ("location_name_to_id", idsTree gd.locationNameToID),
    ("checksum", .str gd.checksum)]

lemma marshalIds_text (ids : Option (WalkMap String ℤ)) : IsTextOf (marshalIds ids) (idsTree ids) := by
  cases ids with
  | none =>
    rw [IsTextOf, idsTree, write]
    rfl
  | some ids =>
    rw [IsTextOf, idsTree, write_obj, marshalIds, String.toList_append, String.toList_append, toList_joined,
      List.map_map]
    have each : ∀ e : String × ℤ, (marshalString e.1 ++ ":" ++ toString e.2).toList =
        writeField marshalChar (e.1, .num e.2) := by
      intro e
      rw [writeField, writeString_marshalChar, write, String.toList_append, String.toList_append, List.append_assoc]
      rfl
    simp only [each]
    rfl

/-- A package is the text of its data. -/
lemma GameData.marshal_text (gd : GameData) : IsTextOf gd.marshal gd.tree := by
  have items : (marshalIds _).toList = _ := marshalIds_text gd.itemNameToID
  have locations : (marshalIds _).toList = _ := marshalIds_text gd.locationNameToID
  have first : "\x7b\"item_name_to_id\":".toList = '\x7b' :: (writeString marshalChar "item_name_to_id" ++ [':']) := rfl
  have second : ",\"location_name_to_id\":".toList =
      ',' :: (writeString marshalChar "location_name_to_id" ++ [':']) := rfl
  have third : ",\"checksum\":".toList = ',' :: (writeString marshalChar "checksum" ++ [':']) := rfl
  have last : "\x7d".toList = ['\x7d'] := rfl
  have checksum := (writeString_marshalChar gd.checksum).symm
  have text := toList_append (toList_append (toList_append (toList_append (toList_append (toList_append first items)
    second) locations) third) checksum) last
  refine text.trans ?_
  rw [GameData.tree, write_obj]
  simp only [List.map_cons, List.map_nil, List.intercalate_cons_cons, List.intercalate_singleton, writeField, write_str,
    List.append_assoc, List.cons_append, List.nil_append]

/-- A message that is put together from pieces. -/
lemma message_text {fields : List (String × Tree)} {body : List Char}
    (pieces : body = List.intercalate [','] (fields.map (writeField marshalChar))) :
    responseHeader.toList ++ body ++ responseFooter.toList = write marshalChar (dataPackageMessage fields) := by
  have header : responseHeader.toList = '[' :: '\x7b' :: (writeString marshalChar "cmd" ++ ':' ::
      (writeString marshalChar "DataPackage" ++ ',' :: (writeString marshalChar "data" ++ ':' :: '\x7b' ::
        (writeString marshalChar "games" ++ [':', '\x7b'])))) := rfl
  have footer : responseFooter.toList = ['\x7d', '\x7d', '\x7d', ']'] := rfl
  rw [dataPackageMessage, write_singleton, header, footer, pieces]
  simp only [write_obj, List.map_cons, List.map_nil, List.intercalate_cons_cons, List.intercalate_singleton,
    writeField, write_str, List.append_assoc, List.cons_append, List.nil_append]

/-! ## What is sent -/

/-- A text is the message with some games, each with its package. -/
def DataPackageStore.Gives (ds : DataPackageStore) (text : String) (games : List String) : Prop :=
  ∃ fields, IsTextOf text (dataPackageMessage fields) ∧ fields.map Prod.fst = games ∧
    ∀ e ∈ fields, ∃ raw, ds.packages e.1 = some raw ∧ IsTextOf raw e.2

/-- The response for one game. -/
lemma Prefetched.single {ds : RoomDataPackageStore} (pre : Prefetched ds) {game raw : String}
    (package : ds.packages game = some raw) : ds.Gives (singleResponse game raw) [game] := by
  obtain ⟨v, text⟩ := pre.texts game raw package
  refine ⟨[(game, v)], ?_, rfl, ?_⟩
  · have body : (marshalString game ++ ":" ++ raw).toList = writeField marshalChar (game, v) := by
      rw [writeField, writeString_marshalChar, String.toList_append, String.toList_append, text, List.append_assoc]
      rfl
    have joined : singleResponse game raw = responseHeader ++ (marshalString game ++ ":" ++ raw) ++ responseFooter := by
      show responseHeader ++ marshalString game ++ ":" ++ raw ++ responseFooter = _
      rw [@String.append_assoc responseHeader, @String.append_assoc responseHeader]
    rw [IsTextOf, ← message_text (List.intercalate_singleton.symm.trans rfl), ← body, ← String.toList_append,
      ← String.toList_append, joined]
  · intro e mem
    rw [List.mem_singleton.mp mem]
    exact ⟨raw, package, text⟩

/-- The response that is put together for some games, if all of them have packages. -/
lemma Prefetched.built {ds : RoomDataPackageStore} (pre : Prefetched ds) {games : List String}
    (all : ∀ game ∈ games, (ds.packages game).isSome) :
    ∃ text, ds.buildResponse games = .ok text ∧ ds.Gives text games := by
  have fields : ∃ fields : List (String × Tree), fields.map Prod.fst = games ∧
      ∀ e ∈ fields, ∃ raw, ds.packages e.1 = some raw ∧ IsTextOf raw e.2 := by
    induction games with
    | nil => exact ⟨[], rfl, fun e mem => absurd mem List.not_mem_nil⟩
    | cons game games ih =>
      obtain ⟨here, there⟩ := List.forall_mem_cons.mp all
      obtain ⟨raw, package⟩ := Option.isSome_iff_exists.mp here
      obtain ⟨v, text⟩ := pre.texts game raw package
      obtain ⟨fields, names, packaged⟩ := ih there
      refine ⟨(game, v) :: fields, by rw [List.map_cons, names], ?_⟩
      rw [List.forall_mem_cons]
      exact ⟨⟨raw, package, text⟩, packaged⟩
  obtain ⟨fields, rfl, packaged⟩ := fields
  have found : (fields.map Prod.fst).find? (fun game => (ds.packages game).isNone) = none := by
    rw [List.find?_eq_none]
    intro game mem
    rw [Bool.not_eq_true, Option.isNone_eq_false_iff]
    exact all game mem
  refine ⟨_, by rw [DataPackageStore.buildResponse, found], fields, ?_, rfl, packaged⟩
  rw [IsTextOf, String.toList_append, String.toList_append, toList_joined]
  apply message_text
  rw [List.map_map]
  congr 1
  apply List.map_congr_left
  intro e mem
  obtain ⟨raw, package, text⟩ := packaged e mem
  have name := pre.names e.1 ((pre.keys e.1).mpr (all e.1 (List.mem_map_of_mem mem)))
  rw [Function.comp_apply, name, package, Option.getD_some, Option.getD_some, writeField, writeString_marshalChar,
    String.toList_append, String.toList_append, text, List.append_assoc]
  rfl

/-- Without one of the packages there is no response. -/
lemma DataPackageStore.buildResponse_missing {ds : DataPackageStore} {games : List String}
    (missing : ¬ ∀ game ∈ games, (ds.packages game).isSome) : ∃ err, ds.buildResponse games = .error err := by
  rw [DataPackageStore.buildResponse]
  cases found : games.find? fun game => (ds.packages game).isNone with
  | some game => exact ⟨_, rfl⟩
  | none =>
    refine (missing fun game mem => ?_).elim
    have here := List.find?_eq_none.mp found game mem
    rwa [Bool.not_eq_true, Option.isNone_eq_false_iff] at here

/-- What the full response gives. -/
lemma Prefetched.fullGameResponse {ds : RoomDataPackageStore} (pre : Prefetched ds)
    (optimized : ds.fullGameResponseOptimization = true) :
    ∃ text order, ds.fullGameResponse = some text ∧ order.Perm ds.games ∧ ds.Gives text order := by
  obtain ⟨order, perm, full⟩ := pre.full optimized
  obtain ⟨text, built, gives⟩ := pre.built fun game mem => (pre.keys game).mp (perm.mem_iff.mp mem)
  refine ⟨text, order, ?_, perm, gives⟩
  rw [full, built]
  rfl

/-! ## A room is made -/

/-- The loop over what was fetched is the one that loads the games of a room. -/
lemma foldl_addRoomDataPackage (entries : List Package) (s : GlobalDataPackageCache × RoomDataPackageStore) :
    ((entries.foldl addRoomDataPackage s).1, (entries.foldl addRoomDataPackage s).2.toDataPackageStore) =
      loadGames s.1 s.2.toDataPackageStore entries := by
  induction entries generalizing s with
  | nil => rfl
  | cons e entries ih => exact ih (addRoomDataPackage s e)

lemma optimization_foldl (entries : List Package) (s : GlobalDataPackageCache × RoomDataPackageStore) :
    (entries.foldl addRoomDataPackage s).2.fullGameResponseOptimization = s.2.fullGameResponseOptimization := by
  induction entries generalizing s with
  | nil => rfl
  | cons e entries ih => exact ih (addRoomDataPackage s e)

/-- A game has a package and a response if it is among those that were added. -/
structure RoomDataPackageStore.Keyed (ds : RoomDataPackageStore) : Prop where
  distinct : ds.games.Nodup
  packages : ∀ game, game ∈ ds.games ↔ (ds.packages game).isSome
  responses : ∀ game, game ∉ ds.games → ds.singleResponses game = none

lemma keyed_new (optimization : Bool) : (newRoomDataPackageStore optimization).Keyed where
  distinct := List.nodup_nil
  packages _ := iff_of_false List.not_mem_nil Bool.false_ne_true
  responses _ _ := rfl

lemma mem_games_addRoomDataPackage {s : GlobalDataPackageCache × RoomDataPackageStore} {e : Package} {game : String} :
    game ∈ (addRoomDataPackage s e).2.games ↔ game ∈ s.2.games ∨ game = e.1 := by
  show game ∈ (if e.1 ∈ s.2.games then s.2.games else s.2.games ++ [e.1]) ↔ _
  split
  case isTrue old =>
    constructor
    · exact .inl
    · rintro (mem | rfl)
      · exact mem
      · exact old
  case isFalse new => rw [List.mem_append, List.mem_singleton]

lemma Keyed.addRoomDataPackage {s : GlobalDataPackageCache × RoomDataPackageStore} (h : s.2.Keyed) (e : Package) :
    (Apx.addRoomDataPackage s e).2.Keyed := by
  obtain ⟨distinct, packages, responses⟩ := h
  refine ⟨?_, fun game => ?_, fun game absent => ?_⟩
  · show (if e.1 ∈ s.2.games then s.2.games else s.2.games ++ [e.1]).Nodup
    split
    case isTrue old => exact distinct
    case isFalse new =>
      exact distinct.append (List.nodup_singleton _) (List.disjoint_singleton.mpr new)
  · rw [mem_games_addRoomDataPackage]
    by_cases same : game = e.1
    · rw [same]
      refine iff_of_true (.inr rfl) ?_
      exact Option.isSome_iff_exists.mpr ⟨_, Function.update_self ..⟩
    · rw [or_iff_left same, packages]
      exact (congrArg (fun p : Option String => p.isSome = true) (Function.update_of_ne same ..)).to_iff.symm
  · rw [mem_games_addRoomDataPackage, not_or] at absent
    exact (Function.update_of_ne absent.2 ..).trans (responses game absent.1)

lemma Keyed.foldl {entries : List Package} {s : GlobalDataPackageCache × RoomDataPackageStore} (h : s.2.Keyed) :
    (entries.foldl Apx.addRoomDataPackage s).2.Keyed ∧
      ∀ game, game ∈ (entries.foldl Apx.addRoomDataPackage s).2.games ↔
        game ∈ s.2.games ∨ game ∈ entries.map Prod.fst := by
  induction entries generalizing s with
  | nil => exact ⟨h, fun game => by simp⟩
  | cons e entries ih =>
    obtain ⟨keyed, mem⟩ := ih (Keyed.addRoomDataPackage h e)
    refine ⟨keyed, fun game => (mem game).trans ?_⟩
    rw [mem_games_addRoomDataPackage, List.map_cons, List.mem_cons, or_assoc]

/-- What a store serves is enough for its responses. -/
lemma Keyed.prefetched {ds : RoomDataPackageStore} (keyed : ds.Keyed)
    (serves : ∀ game ∈ ds.games, ∃ gd, ds.toDataPackageStore.Serves (game, gd))
    (full : ds.fullGameResponseOptimization = true →
      ∃ order, order.Perm ds.games ∧ ds.fullGameResponse = (ds.buildResponse order).toOption) : Prefetched ds where
  distinct := keyed.distinct
  keys := keyed.packages
  texts game raw package := by
    obtain ⟨gd, served⟩ := serves game ((keyed.packages game).mpr (by rw [package]; rfl))
    have same := package.symm.trans served.package
    rw [Option.some.inj same]
    exact ⟨_, gd.marshal_text⟩
  responses game := by
    by_cases mem : game ∈ ds.games
    · obtain ⟨gd, served⟩ := serves game mem
      have package : ds.packages game = some gd.marshal := served.package
      rw [package]
      exact served.response
    · have absent := mem
      rw [keyed.packages, Bool.not_eq_true, Option.isSome_eq_false_iff, Option.isNone_iff_eq_none] at absent
      rw [keyed.responses game mem, absent]
      rfl
  names game mem := by
    obtain ⟨gd, served⟩ := serves game mem
    exact served.name
  full := full

/-- A room that was made has what its responses need. -/
theorem prefetchDataPackages_prefetched {fetch : List String → Except String (WalkMap String GameData)}
    {walk : List String → List String} (walks : ∀ games, (walk games).Perm games) {checksums : WalkMap String String}
    {c : GlobalDataPackageCache} {held : List Package} (shares : Shares c held)
    (honest : ∀ missing gameData, fetch missing = .ok gameData → Honest (gameData.entries ++ held))
    {optimization : Bool} {s : GlobalDataPackageCache × RoomDataPackageStore}
    (made : prefetchDataPackages fetch walk checksums (c, newRoomDataPackageStore optimization) = .ok s) :
    Prefetched s.2 := by
  -- The response for all games is made last, from what is there then.
  have last : ∀ t : GlobalDataPackageCache × RoomDataPackageStore, t.2.Keyed →
      (∀ game ∈ t.2.games, ∃ gd, t.2.toDataPackageStore.Serves (game, gd)) →
      (if t.2.fullGameResponseOptimization then
        Except.ok (t.1, { t.2 with fullGameResponse := (t.2.buildResponse (walk t.2.games)).toOption })
        else .ok t) = (Except.ok s : Except ResponseError _) → Prefetched s.2 := by
    intro t keyed serves done
    split at done
    case isTrue =>
      cases done
      exact Keyed.prefetched ⟨keyed.distinct, keyed.packages, keyed.responses⟩ serves
        fun _ => ⟨_, walks _, rfl⟩
    case isFalse off =>
      cases done
      exact Keyed.prefetched keyed serves fun on => absurd on off
  rw [prefetchDataPackages] at made
  simp only [bind, Except.bind] at made
  split at made
  case isFalse =>
    exact last (c, newRoomDataPackageStore optimization) (keyed_new _)
      (fun game mem => absurd mem List.not_mem_nil) made
  case isTrue =>
    cases fetched : fetch _ with
    | error err =>
      rw [fetched] at made
      cases made
    | ok gameData =>
      rw [fetched] at made
      obtain ⟨keyed, mem⟩ := @Keyed.foldl gameData.entries (c, newRoomDataPackageStore optimization) (keyed_new _)
      refine last _ keyed (fun game there => ?_) made
      obtain ⟨e, added, rfl⟩ := List.mem_map.mp (((mem game).mp there).resolve_left List.not_mem_nil)
      obtain ⟨-, serves, -⟩ := shares.loadGames (honest _ _ fetched) gameData.nodup newDataPackageStore
      have same := foldl_addRoomDataPackage gameData.entries (c, newRoomDataPackageStore optimization)
      have store :
          (gameData.entries.foldl addRoomDataPackage (c, newRoomDataPackageStore optimization)).2.toDataPackageStore =
          (loadGames c newDataPackageStore gameData.entries).2 := congrArg Prod.snd same
      refine ⟨e.2, ?_⟩
      rw [store]
      exact serves e added

/-! ## Which answers are right -/

section Answers
variable {ds : RoomDataPackageStore} {checksums : WalkMap String String} {games : Option (List String)}

lemma mem_requestedGames {game : String} :
    game ∈ requestedGames checksums games ↔ Wanted checksums games game := by
  have known : (checksums.entries.any fun e => decide (e.1 = game)) = true ↔ game ∈ checksums.entries.map Prod.fst := by
    rw [List.any_eq_true, List.mem_map]
    simp only [decide_eq_true_eq]
  rw [requestedGames, List.mem_filter, known, Wanted]
  cases games.getD [] with
  | nil => simp
  | cons first rest => simp [and_comm]

/-- A response is right if it gives the wanted games. -/
lemma answers_iff_of_gives {text : String} {names : List String}
    (sent : ds.handleGetDataPackage checksums games = .ok text) (gives : ds.Gives text names) :
    ds.Answers checksums games ↔ ∀ game, game ∈ names ↔ Wanted checksums games game := by
  obtain ⟨fields, isText, rfl, packaged⟩ := gives
  constructor
  · rintro ⟨text', fields', sent', isText', wanted, -⟩
    rw [sent] at sent'
    cases sent'
    have same := write_injective marshalChar_readable (isText.symm.trans isText')
    rw [dataPackageMessage, dataPackageMessage] at same
    simp only [Tree.arr.injEq, Tree.obj.injEq, List.cons.injEq, Prod.mk.injEq, and_true, true_and] at same
    rw [same]
    exact wanted
  · exact fun wanted => ⟨text, fields, sent, isText, wanted, packaged⟩

lemma not_answers_of_error {err : ResponseError} (sent : ds.handleGetDataPackage checksums games = .error err) :
    ¬ ds.Answers checksums games := by
  rintro ⟨text, -, ok, -⟩
  rw [sent] at ok
  cases ok

/-- The response for all games is sent. -/
def RoomDataPackageStore.TakesFull (ds : RoomDataPackageStore) (games : List String) : Prop :=
  ds.fullGameResponseOptimization = true ∧ games.length = ds.games.length ∧ games.length ≠ 1

/-- The response that is put together answers a request just if all of its games have packages. -/
lemma Prefetched.answers_built (pre : Prefetched ds) (sent : ds.handleGetDataPackage checksums games =
    ds.buildResponse (requestedGames checksums games)) :
    ds.Answers checksums games ↔ ∀ game, Wanted checksums games game → (ds.packages game).isSome := by
  simp only [← mem_requestedGames]
  by_cases all : ∀ game ∈ requestedGames checksums games, (ds.packages game).isSome
  · obtain ⟨text, built, gives⟩ := pre.built all
    refine iff_of_true ?_ all
    exact (answers_iff_of_gives (sent.trans built) gives).mpr fun game => mem_requestedGames
  · obtain ⟨err, missing⟩ := DataPackageStore.buildResponse_missing all
    exact iff_of_false (not_answers_of_error (sent.trans missing)) all

/-- For a list as long as that of all games the answer has all games. -/
lemma Prefetched.answers_full (pre : Prefetched ds) (full : ds.TakesFull (requestedGames checksums games)) :
    ds.Answers checksums games ↔ ∀ game, game ∈ ds.games ↔ game ∈ requestedGames checksums games := by
  obtain ⟨optimized, length, several⟩ := full
  obtain ⟨text, order, kept, perm, gives⟩ := pre.fullGameResponse optimized
  have sent : ds.handleGetDataPackage checksums games = .ok text := by
    rw [RoomDataPackageStore.handleGetDataPackage, RoomDataPackageStore.sendDataPackages.eq_2]
    · rw [optimized, decide_eq_true length, kept]
      rfl
    · intro game one
      exact several (congrArg List.length one)
  rw [answers_iff_of_gives sent gives]
  simp only [← mem_requestedGames, perm.mem_iff]

/-- A request is answered with just the wanted games, each with its package, if these have packages and no game
stands in for another one in a list as long as that of all games. -/
theorem answered_iff (ds : RoomDataPackageStore) (pre : Prefetched ds) (checksums : WalkMap String String)
    (games : Option (List String)) :
    ds.Answers checksums games ↔ (∀ game, Wanted checksums games game → (ds.packages game).isSome) ∧
      (ds.TakesFull (requestedGames checksums games) → (requestedGames checksums games).Nodup) := by
  by_cases full : ds.TakesFull (requestedGames checksums games)
  · have length := full.2.1
    rw [pre.answers_full full]
    simp only [← mem_requestedGames, ← pre.keys]
    have counted : (∀ game ∈ requestedGames checksums games, game ∈ ds.games) →
        ((∀ game, game ∈ ds.games ↔ game ∈ requestedGames checksums games) ↔
          (requestedGames checksums games).Nodup) := by
      intro sub
      constructor
      · intro same
        have all := pre.distinct.subperm (fun game mem => (same game).mp mem)
        exact (all.perm_of_length_le length.le).nodup_iff.mp pre.distinct
      · intro once game
        exact ((once.subperm sub).perm_of_length_le length.ge).mem_iff.symm
    constructor
    · intro same
      have sub := fun game mem => (same game).mpr mem
      exact ⟨sub, fun _ => (counted sub).mp same⟩
    · rintro ⟨sub, once⟩
      exact (counted sub).mpr (once full)
  · have right : (ds.TakesFull (requestedGames checksums games) → (requestedGames checksums games).Nodup) :=
      fun taken => absurd taken full
    rw [and_iff_left right]
    by_cases one : ∃ game, requestedGames checksums games = [game]
    · obtain ⟨game, one⟩ := one
      have sent : ds.handleGetDataPackage checksums games =
          (ds.singleResponses game).elim (.error (.unknownDatapackage game)) .ok := by
        rw [RoomDataPackageStore.handleGetDataPackage, one, RoomDataPackageStore.sendDataPackages]
        cases ds.singleResponses game with
        | _ => rfl
      simp only [← mem_requestedGames, one, List.mem_singleton, forall_eq]
      rw [pre.responses] at sent
      cases package : ds.packages game with
      | none =>
        rw [package] at sent
        exact iff_of_false (not_answers_of_error sent) (by simp)
      | some raw =>
        rw [package] at sent
        refine iff_of_true ((answers_iff_of_gives sent (pre.single package)).mpr ?_) rfl
        intro other
        rw [← mem_requestedGames, one]
    · apply pre.answers_built
      rw [RoomDataPackageStore.handleGetDataPackage, RoomDataPackageStore.sendDataPackages.eq_2]
      · split
        case h_1 taken kept =>
          obtain ⟨optimized, length⟩ := Bool.and_eq_true_iff.mp taken
          refine (full ⟨optimized, of_decide_eq_true length, ?_⟩).elim
          intro single
          exact one (List.length_eq_one_iff.mp single)
        case h_2 => rfl
      · exact fun game single => one ⟨game, single⟩

end Answers

/-! ## A room with fifty games -/

/-- A room of which all games are fetched, for an empty cache. -/
def freshRoom (gameData : WalkMap String GameData) : RoomDataPackageStore :=
  let ds := (gameData.entries.foldl addRoomDataPackage (newGlobalDataPackageCache, newRoomDataPackageStore true)).2
  { ds with fullGameResponse := (ds.buildResponse ds.games).toOption }

/-- This is what `prefetchDataPackages` makes. -/
lemma freshRoom_made (gameData : WalkMap String GameData) {checksums : WalkMap String String}
    (several : checksums.entries ≠ []) :
    prefetchDataPackages (fun _ => .ok gameData) id checksums
        (newGlobalDataPackageCache, newRoomDataPackageStore true) =
      .ok ((gameData.entries.foldl addRoomDataPackage (newGlobalDataPackageCache, newRoomDataPackageStore true)).1,
        freshRoom gameData) := by
  have missing : 0 < ((checksums.entries.map Prod.fst).filter fun game =>
      ((newRoomDataPackageStore true).packages game).isNone).length := by
    have all := List.filter_eq_self.mpr fun (game : String) (_ : game ∈ checksums.entries.map Prod.fst) =>
      (rfl : ((newRoomDataPackageStore true).packages game).isNone = true)
    rw [all, List.length_map]
    exact List.length_pos_of_ne_nil several
  rw [prefetchDataPackages]
  simp only [bind, Except.bind]
  rw [if_pos missing]
  exact if_pos (optimization_foldl gameData.entries (newGlobalDataPackageCache, newRoomDataPackageStore true))

lemma freshRoom_optimized (gameData : WalkMap String GameData) :
    (freshRoom gameData).fullGameResponseOptimization = true :=
  optimization_foldl gameData.entries (newGlobalDataPackageCache, newRoomDataPackageStore true)

lemma freshRoom_prefetched {gameData : WalkMap String GameData} (honest : Honest gameData.entries) :
    Prefetched (freshRoom gameData) := by
  have made := @freshRoom_made gameData ⟨[("", "")], by decide⟩ (List.cons_ne_nil _ _)
  refine prefetchDataPackages_prefetched (fun games => List.Perm.refl games) shares_new ?_ made
  rintro missing gameData ⟨⟩
  rwa [List.append_nil]

/-- The packages of the room are those of its games. -/
lemma freshRoom_games (gameData : WalkMap String GameData) :
    (freshRoom gameData).games.Perm (gameData.entries.map Prod.fst) := by
  obtain ⟨keyed, mem⟩ := @Keyed.foldl gameData.entries (newGlobalDataPackageCache, newRoomDataPackageStore true)
    (keyed_new _)
  refine (List.perm_ext_iff_of_nodup keyed.distinct gameData.nodup).mpr fun game => (mem game).trans ?_
  exact or_iff_right List.not_mem_nil

lemma fst_pairs {A : Type} (names : List String) (a : A) : (names.map fun name => (name, a)).map Prod.fst = names := by
  rw [List.map_map]
  exact List.map_id names

/-- Games that all have the same data. -/
def sameData (games : List String) (nodup : games.Nodup) (gd : GameData) : WalkMap String GameData :=
  ⟨games.map fun game => (game, gd), (fst_pairs games gd).symm ▸ nodup⟩

lemma sameData_honest {games : List String} (nodup : games.Nodup) {gd : GameData} (noColon : ':' ∉ gd.checksum.toList) :
    Honest (sameData games nodup gd).entries := by
  have same : ∀ p ∈ (sameData games nodup gd).entries, p.2 = gd := by
    intro p mem
    obtain ⟨game, -, rfl⟩ := List.mem_map.mp mem
    rfl
  constructor
  · intro p mem
    rw [same p mem]
    exact noColon
  · intro p hp q hq _
    rw [same p hp, same q hq]
    exact ⟨⟨Iff.rfl, List.Perm.refl _⟩, ⟨Iff.rfl, List.Perm.refl _⟩, rfl⟩

def manyGames : List String := (List.range 50).map fun i => "Game " ++ toString i

lemma manyGames_nodup : manyGames.Nodup := by
  decide +kernel

/-- Fifty games; their data says nothing. -/
def manyRoom : RoomDataPackageStore :=
  freshRoom (sameData manyGames manyGames_nodup ⟨some .empty, some .empty, "c"⟩)

def manyChecksums : WalkMap String String :=
  ⟨manyGames.map fun game => (game, "c"), by decide +kernel⟩

lemma manyRoom_prefetched : Prefetched manyRoom :=
  freshRoom_prefetched (sameData_honest manyGames_nodup (by decide))

lemma manyRoom_games : manyRoom.games.Perm manyGames := by
  have games := freshRoom_games (sameData manyGames manyGames_nodup ⟨some .empty, some .empty, "c"⟩)
  rwa [sameData, fst_pairs] at games

/-- A request for some games of the room. -/
lemma manyRoom_has {games : Option (List String)} {game : String} (wanted : Wanted manyChecksums games game) :
    (manyRoom.packages game).isSome := by
  have known := wanted.1
  rw [manyChecksums, fst_pairs] at known
  rwa [← manyRoom_prefetched.keys, manyRoom_games.mem_iff]

/-- A name that is asked for twice is answered. -/
theorem pair_answered : manyRoom.Answers manyChecksums (some ["Game 7", "Game 7"]) := by
  apply (answered_iff manyRoom manyRoom_prefetched manyChecksums _).mpr
  refine ⟨fun game wanted => manyRoom_has wanted, fun full => ?_⟩
  have length := full.2.1
  rw [manyRoom_games.length_eq] at length
  exact absurd length (by decide +kernel)

/-- A name that is asked for fifty times is answered with all fifty games. -/
theorem fifty_not_answered : ¬ ∀ ds : RoomDataPackageStore, Prefetched ds → ∀ checksums games,
    (∀ game, Wanted checksums games game → (ds.packages game).isSome) → ds.Answers checksums games := by
  intro claim
  have answers := claim manyRoom manyRoom_prefetched manyChecksums (some (List.replicate 50 "Game 7"))
    fun game wanted => manyRoom_has wanted
  have full : manyRoom.TakesFull (requestedGames manyChecksums (some (List.replicate 50 "Game 7"))) := by
    refine ⟨freshRoom_optimized _, ?_, by decide +kernel⟩
    rw [manyRoom_games.length_eq]
    decide +kernel
  have all := (manyRoom_prefetched.answers_full full).mp answers "Game 8"
  rw [manyRoom_games.mem_iff] at all
  exact absurd (all.mp (by decide +kernel)) (by decide +kernel)

end ArchipelagoXL.Apx
