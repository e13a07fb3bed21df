import ArchipelagoXL.Lib.Lowercase
import ArchipelagoXL.Wq.Types
import Mathlib.Data.List.Infix
import Mathlib.Data.Prod.Lex

/-!
# Checking a YAML

What a worker does to validate a YAML (`YamlChecker` in `ap-worker/checker.py`, called by
`ap-worker/check_wq.py`). The text may hold several documents and a document several games with weights; each
game of non-zero weight is rolled on its own by `check_yaml`, which is a parameter.

One result is carried through both loops, and only the inner one is left when a game fails. So a document that is
rolled after another one overrules it, and a document that rolls nothing leaves the result as it is.
`check_all_iff` says when the check is right about all of them.
-/

namespace ArchipelagoXL.ApWorker

open Lowercase (CaseTables)
open Wq (JobStatus)

/-- A Python object that can be a key; `O` has the floats, the dates and the bytes. -/
inductive Scalar (O : Type) where
  | none
  | bool (b : Bool)
  | int (i : ℤ)
  | str (s : String)
  | object (o : O)

/-- A Python object that is read from a YAML. -/
inductive PyValue (O : Type) where
  | scalar (s : Scalar O)
  | list (items : List (PyValue O))
  | set (members : List (Scalar O))
  | dict (entries : List (Scalar O × PyValue O))

/-- What Python knows of the objects in `O`, and how it writes them, lists, sets and mappings. -/
structure Python (O : Type) where
  /-- The integer that a float is equal to. -/
  integer : O → Option ℤ
  /-- Whether two objects are equal that are not equal to integers. -/
  same : O → O → Bool
  repr : PyValue O → String

section
variable {O : Type} (py : Python O)

/-- The integer that an object is equal to. -/
def Scalar.number : Scalar O → Option ℤ
  | bool b => some (if b then 1 else 0)
  | int i => some i
  | object o => py.integer o
  | _ => Option.none

/-- Python `==` on keys. -/
def Scalar.eq (a b : Scalar O) : Bool :=
  match a.number py, b.number py with
  | some i, some j => i == j
  | Option.none, Option.none =>
    match a, b with
    | none, none => true
    | str s, str t => s == t
    | object o, object p => py.same o p
    | _, _ => false
  | _, _ => false

/-- Python `==` with an integer. -/
def PyValue.isNumber (i : ℤ) : PyValue O → Bool
  | scalar s => s.number py == some i
  | _ => false

/-- Python `isinstance` with `int`. -/
def PyValue.isInt : PyValue O → Bool
  | scalar (.bool _) => true
  | scalar (.int _) => true
  | _ => false

/-- Python `str`. -/
def PyValue.str : PyValue O → String
  | scalar .none => "None"
  | scalar (.bool b) => if b then "True" else "False"
  | scalar (.int i) => toString i
  | scalar (.str s) => s
  | v => py.repr v

def Scalar.isStr (key : String) : Scalar O → Bool
  | str s => s == key
  | _ => false

def PyValue.isStr (key : String) : PyValue O → Bool
  | scalar s => s.isStr key
  | _ => false

/-- The value under a key that is a text. -/
def get (key : String) (entries : List (Scalar O × PyValue O)) : Option (PyValue O) :=
  (entries.find? fun e => e.1.isStr key).map Prod.snd

/-- Puts a value under a key that is a text and has one. -/
def put (key : String) (value : PyValue O) (entries : List (Scalar O × PyValue O)) : List (Scalar O × PyValue O) :=
  entries.map fun e => if e.1.isStr key then (e.1, value) else e

/-- How a check ends that comes to no game: with an error or with an exception. -/
inductive Stop where
  | error (text : String)
  | raised
deriving DecidableEq

/-- Python `in`, for a text. -/
def isIn (key : String) : PyValue O → Except Stop Bool
  | .scalar (.str s) => .ok (key.toList <:+: s.toList)
  | .scalar _ => .error .raised
  | .list items => .ok (items.any (PyValue.isStr key))
  | .set members => .ok (members.any (Scalar.isStr key))
  | .dict entries => .ok (get key entries).isSome

/-- Whether Archipelago knows quantities. -/
def hasQuantity (versionTuple : ℕ ×ₗ ℕ ×ₗ ℕ) : Bool := decide (toLex (0, toLex (6, 8)) ≤ versionTuple)

/-- A document that is to be rolled. -/
structure Opened (O : Type) where
  entries : List (Scalar O × PyValue O)
  game : PyValue O
  name : String

/-- A check, with the text of its error. -/
def require (holds : Bool) (text : String) : Except Stop Unit := if holds then .ok () else .error (.error text)

/-- The entries of a mapping; another object has no `get`. -/
def PyValue.asDict : PyValue O → Except Stop (List (Scalar O × PyValue O))
  | dict entries => .ok entries
  | _ => .error .raised

/-- What stands under a key that has to be there. -/
def item (key : String) (entries : List (Scalar O × PyValue O)) : Except Stop (PyValue O) :=
  match get key entries with
  | some value => .ok value
  | none => .error .raised

variable (tables : CaseTables) (quantities : Bool)

/-- What `check` asks of a document before it looks at its games. -/
def openDocument (yaml : PyValue O) : Except Stop (Opened O) := do
  require (← isIn "game" yaml) "This doesn't look like an archipelago YAML? Missing game"
  require (← isIn "name" yaml) "This doesn't look like an archipelago YAML? Missing player"
  let entries ← yaml.asDict
  let quantity := (get "quantity" entries).getD (.scalar (.int 1))
  require (!(quantities && (!quantity.isInt || !quantity.isNumber py 1)))
    "The `quantity` option isn't supported here, each YAML is one player. Remove it or set it to 1"
  let game ← item "game" entries
  let name := (← item "name" entries).str py
  require (!decide ("\x7bnumber\x7d".toList <:+: (tables.toLowercase name).toList))
    "Player name must not contain \x7bnumber\x7d"
  require (!decide (16 < name.length)) "Player name too long - Maximum length is 16 characters"
  return ⟨entries, game, name⟩

variable (checkYaml : Scalar O → String → List (Scalar O × PyValue O) → Bool × String)

/-- The document of a game: it has weight 1, the others 0. -/
def yamlForGame (entries games : List (Scalar O × PyValue O)) (game : Scalar O) : List (Scalar O × PyValue O) :=
  put "game" (.dict (games.map fun e => (e.1, .scalar (.int (if e.1.eq py game then 1 else 0))))) entries

/-- The loop of `check` over the games of a document. -/
def checkGames (yaml : Opened O) (games : List (Scalar O × PyValue O)) :
    List (Scalar O × PyValue O) → Bool × String → Bool × String
  | [], result => result
  | (game, weight) :: rest, result =>
    if weight.isNumber py 0 then checkGames yaml games rest result
    else
      let result := checkYaml game yaml.name (yamlForGame py yaml.entries games game)
      if result.1 then checkGames yaml games rest result else result

/-- The turn of `check` for a document, with the result of those before it. -/
def checkDocument (result : Bool × String) (document : PyValue O) : Except Stop (Bool × String) := do
  let yaml ← openDocument py tables quantities document
  match yaml.game with
  | .scalar (.str game) => return checkYaml (.str game) yaml.name yaml.entries
  | .dict games => return checkGames py checkYaml yaml games games result
  | _ => throw .raised

/-- Python `check`, once the text is parsed. The error is that of the result, if it has one. -/
def checkDocuments (parsedYamls : List (PyValue O)) : Except Stop (Option String) := do
  let result ← parsedYamls.foldlM (checkDocument py tables quantities checkYaml)
    (false, "No game verified, check your yaml")
  return if result.1 then none else some result.2

/-- Python `YamlChecker.check`. -/
def check (parseYamls : String → Except String (List (PyValue O))) (yamlContent : String) :
    Except Stop (Option String) :=
  match parseYamls yamlContent with
  | .ok parsedYamls => checkDocuments py tables quantities checkYaml parsedYamls
  | .error trace => .ok (some trace)

/-! ## Documents -/

/-- The name in a YAML is one that the checker allows. -/
structure NameAllowed (name : String) : Prop where
  noNumber : ¬ "\x7bnumber\x7d".toList <:+: (tables.toLowercase name).toList
  short : name.length ≤ 16

/-- A YAML is of one player as far as its quantity goes. -/
def QuantitySupported (entries : List (Scalar O × PyValue O)) : Prop :=
  quantities = true → ∀ quantity, get "quantity" entries = some quantity →
    quantity.isInt = true ∧ quantity.isNumber py 1 = true

/-- A document is a mapping with a game, a name the checker allows and no quantity that is not supported. -/
structure Opens (document : PyValue O) (yaml : Opened O) : Prop where
  isDict : document = .dict yaml.entries
  game : get "game" yaml.entries = some yaml.game
  name : ∃ name, get "name" yaml.entries = some name ∧ name.str py = yaml.name
  allowed : NameAllowed tables yaml.name
  supported : QuantitySupported py quantities yaml.entries

section
variable {α β : Type} {holds : Bool} {text key : String} {entries : List (Scalar O × PyValue O)}

lemma bind_eq_ok {x : Except Stop α} {f : α → Except Stop β} {c : β} :
    (x >>= f) = .ok c ↔ ∃ b, x = .ok b ∧ f b = .ok c := by
  cases x with
  | error stop => simp [bind, Except.bind]
  | ok b => simp [bind, Except.bind]

lemma pure_eq_ok {a c : α} : (pure a : Except Stop α) = .ok c ↔ a = c := Except.ok.injEq a c ▸ Iff.rfl

lemma require_eq_ok {u : Unit} : require holds text = .ok u ↔ holds = true := by
  cases holds with
  | false => simp [require]
  | true => simp [require]

lemma item_eq_ok {value : PyValue O} : item key entries = .ok value ↔ get key entries = some value := by
  rw [item]
  split
  case h_1 found => rw [found, Except.ok.injEq, Option.some.injEq]
  case h_2 missing => simp [missing]

lemma asDict_eq_ok {yaml : PyValue O} : yaml.asDict = .ok entries ↔ yaml = .dict entries := by
  cases yaml with
  | dict own => rw [PyValue.asDict, Except.ok.injEq, PyValue.dict.injEq]
  | _ => simp [PyValue.asDict]

end

/-- A quantity that isn't there is supported. -/
lemma quantity_supported_iff (entries : List (Scalar O × PyValue O)) :
    (quantities && (!((get "quantity" entries).getD (.scalar (.int 1))).isInt ||
      !((get "quantity" entries).getD (.scalar (.int 1))).isNumber py 1)) = false ↔
      QuantitySupported py quantities entries := by
  rw [QuantitySupported]
  cases found : get "quantity" entries with
  | none => simp [PyValue.isInt, PyValue.isNumber, Scalar.number]
  | some quantity =>
    cases quantities with
    | false => simp
    | true => simp

/-- A mapping with an entry under a key has the key. -/
lemma isIn_dict {key : String} {entries : List (Scalar O × PyValue O)} {value : PyValue O}
    (found : get key entries = some value) : isIn key (.dict entries) = .ok true := by
  rw [isIn, found]
  rfl

lemma openDocument_eq_ok {document : PyValue O} {yaml : Opened O} :
    openDocument py tables quantities document = .ok yaml ↔ Opens py tables quantities document yaml := by
  simp only [openDocument, bind_eq_ok, require_eq_ok, asDict_eq_ok, item_eq_ok, pure_eq_ok, Bool.not_eq_true',
    quantity_supported_iff, decide_eq_false_iff_not, not_lt]
  constructor
  · rintro ⟨_, -, _, -, _, -, _, -, entries, rfl, _, supported, game, isGame, name, isName, _, noNumber, _, short, rfl⟩
    exact ⟨rfl, isGame, ⟨name, isName, rfl⟩, ⟨noNumber, short⟩, supported⟩
  · obtain ⟨entries, game, name⟩ := yaml
    rintro ⟨rfl, isGame, ⟨v, isName, rfl⟩, allowed, supported⟩
    exact ⟨true, isIn_dict isGame, (), rfl, true, isIn_dict isName, (), rfl, entries, rfl, (), supported, game, isGame, v,
      isName, (), allowed.noNumber, (), allowed.short, rfl⟩

variable (checkYaml : Scalar O → String → List (Scalar O × PyValue O) → Bool × String)

/-! ## Games -/

/-- The games of a document that are rolled, each with the document that it is rolled from. -/
def Opened.rolls (yaml : Opened O) : List (Scalar O × List (Scalar O × PyValue O)) :=
  match yaml.game with
  | .scalar (.str game) => [(.str game, yaml.entries)]
  | .dict games =>
    (games.filter fun e => !e.2.isNumber py 0).map fun e => (e.1, yamlForGame py yaml.entries games e.1)
  | _ => []

/-- Whether `check_yaml` succeeds for each game of a document. -/
def Opened.passes (yaml : Opened O) : Bool :=
  (yaml.rolls py).all fun roll => (checkYaml roll.1 yaml.name roll.2).1

/-- The game of a document is a text or a mapping. -/
def Opened.HasGames (yaml : Opened O) : Prop :=
  (∃ game, yaml.game = .scalar (.str game)) ∨ ∃ games, yaml.game = .dict games

/-- The loop over the games passes on the result that it began with if it rolls nothing. -/
lemma checkGames_fst (yaml : Opened O) (games rest : List (Scalar O × PyValue O)) (result : Bool × String) :
    (checkGames py checkYaml yaml games rest result).1 =
      if rest.filter (fun e => !e.2.isNumber py 0) = [] then result.1
      else (rest.filter fun e => !e.2.isNumber py 0).all fun e =>
        (checkYaml e.1 yaml.name (yamlForGame py yaml.entries games e.1)).1 := by
  induction rest generalizing result with
  | nil => rfl
  | cons e rest ih =>
    obtain ⟨game, weight⟩ := e
    rw [checkGames]
    cases zero : weight.isNumber py 0 with
    | true =>
      rw [List.filter_cons_of_neg (by simp [zero]), if_pos rfl]
      exact ih result
    | false =>
      rw [List.filter_cons_of_pos (by simp [zero]), if_neg Bool.false_ne_true, if_neg (List.cons_ne_nil _ _),
        List.all_cons]
      dsimp only
      cases passed : (checkYaml game yaml.name (yamlForGame py yaml.entries games game)).1 with
      | true =>
        -- a game that passes leaves `true` for the case that no game comes after it
        rw [if_pos rfl, ih, Bool.true_and, passed]
        split
        case isTrue none => rw [none, List.all_nil]
        case isFalse => rfl
      | false =>
        rw [if_neg Bool.false_ne_true, passed, Bool.false_and]

/-- A document that `check` takes without an error or an exception. -/
def Taken (document : PyValue O) (yaml : Opened O) : Prop := Opens py tables quantities document yaml ∧ yaml.HasGames

/-- The turn for a document either rolls nothing and leaves the result, or says whether all of its games pass. -/
lemma checkDocument_taken {document : PyValue O} {yaml : Opened O} (taken : Taken py tables quantities document yaml)
    (result : Bool × String) :
    ∃ text, checkDocument py tables quantities checkYaml result document =
      .ok (if yaml.rolls py = [] then result.1 else yaml.passes py checkYaml, text) := by
  obtain ⟨opens, hasGames⟩ := taken
  rw [checkDocument, (openDocument_eq_ok py tables quantities).mpr opens]
  dsimp only [bind, Except.bind]
  rcases hasGames with ⟨game, isGame⟩ | ⟨games, isGame⟩
  · refine ⟨(checkYaml (.str game) yaml.name yaml.entries).2, ?_⟩
    have rolls : yaml.rolls py = [(.str game, yaml.entries)] := by rw [Opened.rolls, isGame]
    rw [isGame, Opened.passes, rolls, if_neg (List.cons_ne_nil _ _), List.all_cons, List.all_nil, Bool.and_true]
    rfl
  · refine ⟨(checkGames py checkYaml yaml games games result).2, ?_⟩
    have fst := checkGames_fst py checkYaml yaml games games result
    have rolls : yaml.rolls py = (games.filter fun e => !e.2.isNumber py 0).map fun e =>
      (e.1, yamlForGame py yaml.entries games e.1) := by rw [Opened.rolls, isGame]
    simp only [isGame, Opened.passes, rolls, List.all_map, List.map_eq_nil_iff]
    exact congrArg Except.ok (Prod.ext fst rfl)

lemma taken_of_checkDocument {document : PyValue O} {result result' : Bool × String}
    (turn : checkDocument py tables quantities checkYaml result document = .ok result') :
    ∃ yaml, Taken py tables quantities document yaml := by
  obtain ⟨yaml, opened, turn⟩ := bind_eq_ok.mp turn
  refine ⟨yaml, (openDocument_eq_ok py tables quantities).mp opened, ?_⟩
  split at turn
  case h_1 game isGame => exact .inl ⟨game, isGame⟩
  case h_2 games isGame => exact .inr ⟨games, isGame⟩
  case h_3 => cases turn

/-! ## All documents -/

/-- A document that is as it should be: each of the games that it can roll passes, and there is one. -/
def Valid (document : PyValue O) : Prop :=
  ∃ yaml, Opens py tables quantities document yaml ∧ yaml.rolls py ≠ [] ∧
    ∀ roll ∈ yaml.rolls py, (checkYaml roll.1 yaml.name roll.2).1 = true

/-- A document that is refused before anything is rolled. -/
def Refused (document : PyValue O) : Prop := ¬ ∃ yaml, Taken py tables quantities document yaml

/-- A document without a game of non-zero weight. -/
def RollsNothing (document : PyValue O) : Prop :=
  ∃ yaml, Taken py tables quantities document yaml ∧ yaml.rolls py = []

/-- The last document that rolls something is valid. -/
def LastValid (documents : List (PyValue O)) : Prop :=
  ∃ before last after, documents = before ++ last :: after ∧ Valid py tables quantities checkYaml last ∧
    ∀ document ∈ after, RollsNothing py tables quantities document

/-- The last document that rolls something is valid, but another document isn't. -/
def Overruled (documents : List (PyValue O)) : Prop :=
  LastValid py tables quantities checkYaml documents ∧
    ∃ document ∈ documents, ¬ Valid py tables quantities checkYaml document

variable {py tables quantities checkYaml} {document : PyValue O} {yaml : Opened O}

lemma Opens.unique {yaml' : Opened O} (opens : Opens py tables quantities document yaml)
    (opens' : Opens py tables quantities document yaml') : yaml = yaml' := by
  have ok := (openDocument_eq_ok py tables quantities).mpr opens
  rw [(openDocument_eq_ok py tables quantities).mpr opens'] at ok
  exact (Except.ok.inj ok).symm

/-- What can be rolled has a text or a mapping for its game. -/
lemma Opened.hasGames_of_rolls (rolls : yaml.rolls py ≠ []) : yaml.HasGames := by
  rw [Opened.rolls] at rolls
  split at rolls
  case h_1 game isGame => exact .inl ⟨game, isGame⟩
  case h_2 games isGame => exact .inr ⟨games, isGame⟩
  case h_3 => exact absurd rfl rolls

lemma Valid.not_refused (valid : Valid py tables quantities checkYaml document) :
    ¬ Refused py tables quantities document := by
  obtain ⟨yaml, opens, rolls, -⟩ := valid
  exact not_not_intro ⟨yaml, opens, Opened.hasGames_of_rolls rolls⟩

/-- A document that is taken is valid exactly if it rolls something and all of that passes. -/
lemma Taken.valid_iff (taken : Taken py tables quantities document yaml) :
    Valid py tables quantities checkYaml document ↔ yaml.rolls py ≠ [] ∧ yaml.passes py checkYaml = true := by
  rw [Opened.passes, List.all_eq_true]
  constructor
  · rintro ⟨yaml', opens, valid⟩
    exact opens.unique taken.1 ▸ valid
  · exact fun valid => ⟨yaml, taken.1, valid⟩

lemma Taken.rollsNothing_iff (taken : Taken py tables quantities document yaml) :
    RollsNothing py tables quantities document ↔ yaml.rolls py = [] := by
  constructor
  · rintro ⟨yaml', taken', none⟩
    exact taken'.1.unique taken.1 ▸ none
  · exact fun none => ⟨yaml, taken, none⟩

/-- One more document: it is valid, or it rolls nothing and the ones before it decide. -/
lemma lastValid_concat {documents : List (PyValue O)} :
    LastValid py tables quantities checkYaml (documents ++ [document]) ↔
      Valid py tables quantities checkYaml document ∨
        RollsNothing py tables quantities document ∧ LastValid py tables quantities checkYaml documents := by
  constructor
  · rintro ⟨before, last, after, split, valid, nothing⟩
    rcases List.eq_nil_or_concat after with rfl | ⟨after, doc, rfl⟩
    · obtain ⟨-, same⟩ := List.append_inj' split rfl
      cases same
      exact .inl valid
    · rw [List.concat_eq_append, ← List.cons_append, ← List.append_assoc] at split
      obtain ⟨same, same'⟩ := List.append_inj' split rfl
      cases same'
      rw [List.concat_eq_append, List.forall_mem_append] at nothing
      exact .inr ⟨nothing.2 document (List.mem_singleton_self _), before, last, after, same, valid, nothing.1⟩
  · rintro (valid | ⟨nothing, before, last, after, rfl, valid, rest⟩)
    · exact ⟨documents, document, [], rfl, valid, List.forall_mem_nil _⟩
    · refine ⟨before, last, after ++ [document], by simp, valid, ?_⟩
      rw [List.forall_mem_append, List.forall_mem_singleton]
      exact ⟨rest, nothing⟩

/-- What is left after the documents so far: the last one that rolled something was valid. -/
lemma foldlM_checkDocument (documents : List (PyValue O)) (text : String) {result : Bool × String}
    (run : documents.foldlM (checkDocument py tables quantities checkYaml) (false, text) = .ok result) :
    (∀ document ∈ documents, ¬ Refused py tables quantities document) ∧
      (result.1 = true ↔ LastValid py tables quantities checkYaml documents) := by
  induction documents using List.reverseRecOn generalizing result with
  | nil =>
    cases run
    refine ⟨List.forall_mem_nil _, fun yes => absurd yes Bool.false_ne_true, ?_⟩
    rintro ⟨before, last, after, split, -⟩
    simp at split
  | append_singleton documents document ih =>
    rw [List.foldlM_append] at run
    obtain ⟨before, run, turn⟩ := bind_eq_ok.mp run
    obtain ⟨notRefused, holds⟩ := ih run
    have turn : checkDocument py tables quantities checkYaml before document = .ok result := by
      simpa using turn
    obtain ⟨yaml, taken⟩ := taken_of_checkDocument py tables quantities checkYaml turn
    obtain ⟨text, turn'⟩ := checkDocument_taken py tables quantities checkYaml taken before
    cases Except.ok.inj (turn.symm.trans turn')
    rw [List.forall_mem_append, List.forall_mem_singleton, lastValid_concat, taken.valid_iff, taken.rollsNothing_iff]
    refine ⟨⟨notRefused, not_not_intro ⟨yaml, taken⟩⟩, ?_⟩
    split
    case isTrue none =>
      rw [holds]
      constructor
      · exact fun last => .inr ⟨none, last⟩
      · rintro (⟨rolls, -⟩ | ⟨-, last⟩)
        · exact absurd none rolls
        · exact last
    case isFalse rolls =>
      constructor
      · exact fun passes => .inl ⟨rolls, passes⟩
      · rintro (⟨-, passes⟩ | ⟨none, -⟩)
        · exact passes
        · exact absurd none rolls

/-- If no document is refused, there is a result in the end. -/
lemma foldlM_checkDocument_ok {documents : List (PyValue O)} (text : String)
    (taken : ∀ document ∈ documents, ¬ Refused py tables quantities document) :
    ∃ result, documents.foldlM (checkDocument py tables quantities checkYaml) (false, text) = .ok result := by
  induction documents using List.reverseRecOn with
  | nil => exact ⟨_, rfl⟩
  | append_singleton documents document ih =>
    rw [List.forall_mem_append, List.forall_mem_singleton] at taken
    obtain ⟨before, run⟩ := ih taken.1
    obtain ⟨yaml, taken⟩ := not_not.mp taken.2
    obtain ⟨text, turn⟩ := checkDocument_taken py tables quantities checkYaml taken before
    refine ⟨(if yaml.rolls py = [] then before.1 else yaml.passes py checkYaml, text), ?_⟩
    rw [List.foldlM_append, run]
    exact bind_eq_ok.mpr ⟨before, rfl, bind_eq_ok.mpr ⟨_, turn, rfl⟩⟩

/-- No error is returned exactly if no document is refused and the last one that rolls something is valid. -/
lemma checkDocuments_eq_ok {documents : List (PyValue O)} :
    checkDocuments py tables quantities checkYaml documents = .ok none ↔
      (∀ document ∈ documents, ¬ Refused py tables quantities document) ∧
        LastValid py tables quantities checkYaml documents := by
  rw [checkDocuments, bind_eq_ok]
  constructor
  · rintro ⟨result, run, ends⟩
    obtain ⟨taken, holds⟩ := foldlM_checkDocument documents _ run
    refine ⟨taken, holds.mp ?_⟩
    by_contra fails
    rw [if_neg fails] at ends
    cases ends
  · rintro ⟨taken, last⟩
    obtain ⟨result, run⟩ := foldlM_checkDocument_ok "No game verified, check your yaml" taken
    have passes := (foldlM_checkDocument documents _ run).2.mpr last
    exact ⟨result, run, by rw [if_pos passes]; rfl⟩

/-- Documents that are all valid have a last one. -/
lemma lastValid_of_all {documents : List (PyValue O)} (some : documents ≠ [])
    (valid : ∀ document ∈ documents, Valid py tables quantities checkYaml document) :
    LastValid py tables quantities checkYaml documents :=
  ⟨documents.dropLast, documents.getLast some, [], (List.dropLast_append_getLast some).symm,
    valid _ (List.getLast_mem some), List.forall_mem_nil _⟩

lemma LastValid.ne_nil {documents : List (PyValue O)} (last : LastValid py tables quantities checkYaml documents) :
    documents ≠ [] := by
  obtain ⟨before, last, after, rfl, -⟩ := last
  simp

end

/-- The check returns no error exactly for documents that are all valid, if one of them is refused or none is
overruled by the last one that rolls something. -/
theorem check_all_iff {O : Type} (py : Python O) (tables : CaseTables) (quantities : Bool)
    (checkYaml : Scalar O → String → List (Scalar O × PyValue O) → Bool × String) (documents : List (PyValue O)) :
    (checkDocuments py tables quantities checkYaml documents = .ok none ↔
      documents ≠ [] ∧ ∀ document ∈ documents, Valid py tables quantities checkYaml document) ↔
      (∃ document ∈ documents, Refused py tables quantities document) ∨
        ¬ Overruled py tables quantities checkYaml documents := by
  rw [checkDocuments_eq_ok]
  constructor
  · intro right
    by_contra neither
    rw [not_or, not_not] at neither
    obtain ⟨taken, last, document, mem, invalid⟩ := neither
    push Not at taken
    exact invalid ((right.mp ⟨taken, last⟩).2 document mem)
  · intro condition
    constructor
    · rintro ⟨taken, last⟩
      refine ⟨last.ne_nil, fun document mem => ?_⟩
      rcases condition with ⟨document, mem, refused⟩ | notOverruled
      · exact absurd refused (taken document mem)
      · by_contra invalid
        exact notOverruled ⟨last, document, mem, invalid⟩
    · rintro ⟨some, valid⟩
      exact ⟨fun document mem => (valid document mem).not_refused, lastValid_of_all some valid⟩

/-- A document with a game and a name. -/
def plainDocument (game : String) : PyValue Unit :=
  .dict [(.str "game", .scalar (.str game)), (.str "name", .scalar (.str "Player"))]

def plainPython : Python Unit := ⟨fun _ => none, fun _ _ => true, fun _ => ""⟩

/-- A worker that can only roll one game. -/
def rollsOnly (known : String) (game : Scalar Unit) (_ : String) (_ : List (Scalar Unit × PyValue Unit)) :
    Bool × String :=
  (game.isStr known, "Validation error")

/-- The second document passes, so the first one does not matter. -/
theorem check_overruled :
    ¬ (checkDocuments plainPython Lowercase.asciiTables true (rollsOnly "Second")
        [plainDocument "First", plainDocument "Second"] = .ok none ↔
      [plainDocument "First", plainDocument "Second"] ≠ [] ∧
        ∀ document ∈ [plainDocument "First", plainDocument "Second"],
          Valid plainPython Lowercase.asciiTables true (rollsOnly "Second") document) := by
  have run : checkDocuments plainPython Lowercase.asciiTables true (rollsOnly "Second")
      [plainDocument "First", plainDocument "Second"] = .ok none := by
    rfl
  intro right
  obtain ⟨yaml, opens, -, passes⟩ := (right.mp run).2 _ List.mem_cons_self
  have ok := (openDocument_eq_ok plainPython Lowercase.asciiTables true).mpr opens
  cases ok
  exact absurd (passes (.str "First", _) (List.mem_singleton_self _)) (by decide)

/-! ## Jobs -/

section
variable {O : Type} (py : Python O) (tables : CaseTables) (quantities : Bool)
variable (checkYaml : Scalar O → String → List (Scalar O × PyValue O) → Bool × String)
variable (parseYamls : String → Except String (List (PyValue O)))
variable (loadApworld : String → String → Except String Unit)

/-- The parameters of a job. -/
structure JobParams where
  apworlds : List (String × String)
  yaml : String

/-- Python `run_check_for_job`: the error of its result, if it has one. -/
def runCheckForJob (params : JobParams) : Option Stop :=
  match params.apworlds.forM fun apworld => loadApworld apworld.1 apworld.2 with
  | .error e => some (.error e)
  | .ok () =>
    match check py tables quantities checkYaml parseYamls params.yaml with
    | .ok error => error.map .error
    | .error stop => some stop

/-- Python `handle_job`. -/
def handleJob (params : JobParams) : JobStatus × Option Stop :=
  let result := runCheckForJob py tables quantities checkYaml parseYamls loadApworld params
  (if result.isSome then .failure else .success, result)

/-- A job succeeds if its apworlds can be loaded and the check of its YAML returns no error. -/
theorem handleJob_success_iff (params : JobParams) :
    (handleJob py tables quantities checkYaml parseYamls loadApworld params).1 = .success ↔
      (params.apworlds.forM fun apworld => loadApworld apworld.1 apworld.2) = .ok () ∧
        ∃ documents, parseYamls params.yaml = .ok documents ∧
          checkDocuments py tables quantities checkYaml documents = .ok none := by
  rw [handleJob, runCheckForJob]
  cases params.apworlds.forM fun apworld => loadApworld apworld.1 apworld.2 with
  | error e => simp
  | ok u =>
    rw [check]
    cases parseYamls params.yaml with
    | error trace => simp
    | ok documents =>
      cases checked : checkDocuments py tables quantities checkYaml documents with
      | error stop => simp [checked]
      | ok error =>
        cases error with
        | none => simp [checked]
        | some text => simp [checked]

end
end ArchipelagoXL.ApWorker
