import ArchipelagoXL.Tools.Values

/-!
# Triggers of a YAML

What the tools take for a trigger in a YAML, and where they look for triggers: at the top and in the section of
each game. Nothing is settled in a YAML that has none.
-/

namespace ArchipelagoXL.Tools

structure Trigger where
  optionCategory : String
  optionName : String
  optionResult : String
  /-- A game, a key, a value, and whether it is added to what is there. -/
  options : List (String × String × Value × Bool)

def triggerOption (gameName : String) (e : Value × Value) : Option (String × String × Value × Bool) :=
  e.1.asStr.map fun rawKey =>
    let isAdditive := "+".toList.isPrefixOf rawKey.toList
    (gameName, if isAdditive then String.ofList (rawKey.toList.drop 1) else rawKey, e.2, isAdditive)

/-- The options that a trigger sets in one game. -/
def triggerOptions (e : Value × Value) : Option (List (String × String × Value × Bool)) :=
  e.1.asStr.bind fun gameName =>
    match e.2.asMapping with
    | some inner => inner.mapM (triggerOption gameName)
    | none => some []

def parseTrigger (triggerYaml : Value) : Option Trigger := do
  let category ← (← triggerYaml.asMappingGet "option_category").asStr
  let name ← (← triggerYaml.asMappingGet "option_name").asStr
  let result ← reviewValueAsString (← triggerYaml.asMappingGet "option_result")
  let optionsMap ← triggerYaml.asMappingGet "options"
  let options ← match optionsMap.asMapping with
    | some entries => entries.mapM triggerOptions
    | none => some []
  return ⟨category, name, result, options.flatten⟩

def parseTriggersFrom (val : Value) : List Trigger := (val.asSequence.getD []).filterMap parseTrigger

/-- The triggers in the section of a game. -/
def sectionTriggers (e : Value × Value) : List Trigger :=
  match e.1.asStr with
  | none => []
  | some key =>
    if key ∈ ["triggers", "game", "name", "description"] then []
    else ((e.2.asMappingGet "triggers").map parseTriggersFrom).getD []

def collectTriggers (yaml : Value) : List Trigger :=
  ((yaml.asMappingGet "triggers").map parseTriggersFrom).getD [] ++
    (yaml.asMapping.getD []).flatMap sectionTriggers

/-- `settle` is the loop that sets the options of the triggers that can fire. -/
def resolveTriggers (settle : Value → Value) (yaml : Value) : Value :=
  if (collectTriggers yaml).isEmpty then yaml else settle yaml

end ArchipelagoXL.Tools
