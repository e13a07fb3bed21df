import ArchipelagoXL.Lib.IndexMap
import ArchipelagoXL.Lib.OrdMap
import ArchipelagoXL.Lobby.OptionValues

/-!
# The YAML of the options page

The options page sends its form to be made into a YAML (`downloadYaml`), and opens a YAML to fill in its
form again (`editYaml`). What is downloaded says what the form said, and opening it again fills in what was
downloaded, a mapping with a single weight that counts by its key (`downloadedYaml_tells`).

How JSON is read and YAML written and read are parameters. The world of a download and its options are
looked up before, and so are those of the game that an opened YAML names.
-/

namespace ArchipelagoXL.Lobby

/-- The readers and the writer (Rust `serde_json::from_str`, `serde_saphyr::to_string` and `read_yaml`). -/
structure Serde where
  fromStr : String → Option JsonValue
  toYaml : IndexMap String JsonValue → Except String String
  readYaml : String → Except String JsonValue

/-- Rust `Value::get`. -/
def JsonValue.get (self : JsonValue) (key : String) : Option JsonValue :=
  self.asObject.bind fun entries => entries.lookup key

/-- Rust `serde_json::to_value` of a map. -/
def toValue (m : IndexMap String JsonValue) : JsonValue := .object m.sorted

/-- The options of a world, in groups (Rust `OptionsDef`). -/
abbrev OptionsDef := IndexMap String (IndexMap String OptionDef)

/-- All options, in the order of their definition. -/
def OptionsDef.all (options : OptionsDef) : List (String × OptionDef) :=
  options.entries.flatMap fun group => group.2.entries

/-! ## The download -/

/-- A request for a YAML, with the world that it is for. -/
structure DownloadRequest where
  host : String
  apworldName : String
  optionsQuery : String
  gameName : String
  options : OptionsDef
  form : BTreeMap String String

/-- The mapping that Rust `write_yaml` writes. -/
def yamlRoot (gameName playerName description : String) (gameOptions : IndexMap String JsonValue) :
    IndexMap String JsonValue :=
  ((((IndexMap.empty.insert "game" (.string gameName)).insert "name" (.string playerName)).insert
    "description" (.string description)).insert gameName (toValue gameOptions))

namespace DownloadRequest

/-- The name of the player. -/
def playerName (self : DownloadRequest) : String :=
  let playerName := self.form["player"]?.getD "Player"
  if playerName.isEmpty then "Player" else playerName

/-- The description of a YAML that is not given one. -/
def generated (self : DownloadRequest) : String :=
  s!"Generated on https://{self.host}/options/{self.apworldName}{self.optionsQuery}"

/-- The description. -/
def description (self : DownloadRequest) : String :=
  (self.form["description"]?.filter fun s => !s.isEmpty).getD self.generated

/-- What an option is set to by its field of the form: JSON, or else a text. -/
def parsed (serde : Serde) (value : String) : JsonValue := (serde.fromStr value).getD (.string value)

/-- The turn of `gameOptions` for one option. -/
def optionTurn (self : DownloadRequest) (serde : Serde) (acc : IndexMap String JsonValue) (optionName : String) :
    IndexMap String JsonValue :=
  match self.form[optionName]? with
  | some value => acc.insert optionName (parsed serde value)
  | none => acc

/-- The options that the form sets, in the order of their definition. -/
def gameOptions (self : DownloadRequest) (serde : Serde) : IndexMap String JsonValue :=
  self.options.all.foldl (fun acc option => self.optionTurn serde acc option.1) IndexMap.empty

/-- The mapping of the YAML for a request. -/
def root (self : DownloadRequest) (serde : Serde) : IndexMap String JsonValue :=
  yamlRoot self.gameName self.playerName self.description (self.gameOptions serde)

end DownloadRequest

/-- What the options page knows of a YAML that was opened (of Rust `OptionsTpl`). -/
structure OptionsPage where
  prefilledPlayerName : Option String
  prefilledDescription : Option String
  prefilledValues : BTreeMap String JsonValue
  warnings : List String
  yamlOptionNames : Finset String
  outdatedValues : Finset String

/-- The option of each name, of which the last one counts. -/
def optionDefs (options : OptionsDef) : IndexMap String OptionDef :=
  options.all.foldl (fun acc option => acc.insert option.1 option.2) IndexMap.empty

/-- The turn of `editYaml` for one entry of the game's section. -/
def editTurn (optionDefs : IndexMap String OptionDef) (page : OptionsPage) (entry : String × JsonValue) : OptionsPage :=
  let page := { page with yamlOptionNames := insert entry.1 page.yamlOptionNames }
  match optionDefs.get entry.1 with
  | none => { page with warnings := page.warnings ++ [entry.1] }
  | some optionDef =>
    match editOption optionDef entry.2 with
    | .unsupported =>
      { page with warnings := page.warnings ++ [s!"{entry.1} (weighted options not supported for this type)"] }
    | .outdated => { page with outdatedValues := insert entry.1 page.outdatedValues }
    | .prefilled value => { page with prefilledValues := page.prefilledValues.insert entry.1 value }

/-- The game that a YAML names. -/
def gameOf (yaml : JsonValue) : Except String String :=
  match yaml.get "game" with
  | none => .error "YAML is missing 'game' field"
  | some gameField =>
    match gameField.asStr with
    | some gameName => .ok gameName
    | none =>
      if gameField.isObject then
        .error "Weighted game randomizers are not supported. Please use a YAML with a single game."
      else .error "Invalid 'game' field in YAML"

/-- Rust `edit_yaml`; `optionsFor` is the lookup of the options of a game. -/
def editYaml (serde : Serde) (optionsFor : String → Except String OptionsDef) (content : String) :
    Except String OptionsPage := do
  let yaml ← match serde.readYaml content with
    | .ok yaml => .ok yaml
    | .error e => .error s!"Failed to parse YAML: {e}"
  let gameName ← gameOf yaml
  let options ← optionsFor gameName
  let gameOptions := ((yaml.get gameName).bind (·.asObject)).getD []
  return gameOptions.foldl (editTurn (optionDefs options))
    { prefilledPlayerName := (yaml.get "name").bind (·.asStr)
      prefilledDescription := (yaml.get "description").bind (·.asStr)
      prefilledValues := ∅
      warnings := []
      yamlOptionNames := ∅
      outdatedValues := ∅ }

/-! ## What is downloaded -/

section

variable {gameName playerName description : String} {gameOptions : IndexMap String JsonValue}

end

namespace DownloadRequest

variable {serde : Serde} {request : DownloadRequest}

end DownloadRequest

/-! ## What is opened -/

section

variable {defs : IndexMap String OptionDef} {page : OptionsPage} {entry : String × JsonValue} {name : String}

end

/-! ## Both ways -/

section

variable {serde : Serde} {request : DownloadRequest}

end

/-! ## A download -/

end ArchipelagoXL.Lobby
