import ArchipelagoXL.Lib.IndexMap
import ArchipelagoXL.Lib.SemVersion
import ArchipelagoXL.Wq.Types

/-!
# Option definitions

A lobby has the options of a release defined by a worker of a base and keeps the definitions in a cache
(`ap-worker/options_gen_wq.py`, `ap-worker/handler.py`, `lobby/src/views/options_gen.rs`). The worker loads the file
of the release, or does nothing if there is none and it has a module of this name, and then takes the first world
whose module begins like that of the release. The cache has a key for a base, a name and a version, and another kind
of key for the legacy base.

The world is the one of the release exactly if none begins like it that is registered before it, up to the worker's own
copy (`worldOfJob_iff`), and two requests share a key exactly if one is for the legacy base and its name spells out the
other one (`key_eq_iff`). Where neither happens, what is answered is of the release that was asked for
(`options_of_release`).
-/

namespace ArchipelagoXL.ApWorker

open SemVersion (Version)
open Wq (JobStatus)

/-! ## Worlds of a worker -/

/-- Where a world was loaded from: with the worker, or from a file of a release. -/
inductive Origin where
  | own
  | file (name : String)
deriving DecidableEq

/-- A world that is registered, by its `__module__`. -/
structure World where
  module : String
  origin : Origin
deriving DecidableEq

/-- An apworld file: the game it registers, and the part of its module behind the one of its name. -/
structure Apworld where
  game : String
  below : String
  /-- Reading or loading it raises. -/
  raises : Bool
  isBelow : below = "" ∨ below.toList.head? = some '.'

/-- A worker; each job is handled in a process of its own, so the worlds of other jobs are not registered in it. -/
structure Worker where
  base : Version
  registered : List (String × World)
  modules : List String
  customApworlds : String → Option Apworld
  apworlds : String → Option Apworld
  own : ∀ e ∈ registered, e.2.origin = .own

/-- The module of a name. -/
def moduleOf (apworldName : String) : String := "worlds." ++ apworldName

/-- Python `str.startswith`. -/
def startsWith (text start : String) : Bool := start.toList.isPrefixOf text.toList

/-- The name of the file of a release. -/
def apworldFile (apworldName : String) (version : Version) : String :=
  apworldName ++ "-" ++ toString version ++ ".apworld"

/-- The file of a release. -/
def Worker.apworld (w : Worker) (apworldName : String) (version : Version) : Option Apworld :=
  (w.customApworlds (apworldFile apworldName version)).or (w.apworlds (apworldFile apworldName version))

/-- The world that a file registers under a name. -/
def Apworld.world (a : Apworld) (apworldName : String) (version : Version) : World :=
  ⟨moduleOf apworldName ++ a.below, .file (apworldFile apworldName version)⟩

/-- Python `load_apworld`, if it doesn't raise: the worlds that are registered after it. -/
def loadApworld (w : Worker) (apworldName : String) (version : Version) : Option (List (String × World)) :=
  if '/' ∈ apworldName.toList then none
  else if '/' ∈ version.text then none
  else
    match w.apworld apworldName version with
    | some a =>
      if a.raises then none else some (IndexMap.put a.game (a.world apworldName version) w.registered)
    | none =>
      -- a module that is loaded already is taken, whatever the version
      if w.modules.contains (moduleOf apworldName) then some w.registered else none

/-- Python `world_from_apworld_name`, if it doesn't raise. -/
def worldFromApworldName (worldTypes : List (String × World)) (apworldName : String) : Option (String × World) :=
  worldTypes.find? fun e => startsWith e.2.module (moduleOf apworldName)

/-- The world that a job is about. -/
def worldOfJob (w : Worker) (apworldName : String) (version : Version) : Option World := do
  let worldTypes ← loadApworld w apworldName version
  let found ← worldFromApworldName worldTypes apworldName
  return found.2

/-! ## The cache -/

/-- The base, the name and the version that options are asked for. -/
@[ext]
structure Request where
  base : Version
  apworldName : String
  version : Version
deriving DecidableEq

/-- Rust `OptionsCache::key`. -/
def Request.key (legacyBase : Version) (r : Request) : String :=
  if r.base = legacyBase then "options_def:" ++ r.apworldName ++ ":" ++ toString r.version
  else "options_def:base:" ++ toString r.base ++ ":" ++ r.apworldName ++ ":" ++ toString r.version

section
variable {D : Type} (define : Worker → World → Option D) (legacyBase : Version)

/-- Python `handle_job`, if it succeeds; what is made of a world is a parameter. -/
def OptionsGenQueue.handleJob (w : Worker) (apworldName : String) (version : Version) : Option D := do
  let world ← worldOfJob w apworldName version
  define w world

/-- What happens to the cache: a worker succeeds or fails at a job for its base and the callback of the queue stores what
it made, or an entry expires or can't be read any more. -/
inductive CacheEvent where
  | resolved (w : Worker) (apworldName : String) (version : Version)
  | expired (key : String)

/-- The cache after an event. -/
def applyEvent (cache : String → Option D) : CacheEvent → String → Option D
  | .resolved w apworldName version =>
    match OptionsGenQueue.handleJob define w apworldName version with
    | some options => Function.update cache (Request.key legacyBase ⟨w.base, apworldName, version⟩) (some options)
    | none => cache
  | .expired key => Function.update cache key none

/-- The cache after a run that began with an empty one. -/
def cacheAfter (run : List CacheEvent) : String → Option D := run.foldl (applyEvent define legacyBase) fun _ => none

/-- Rust `get_options_def`, with the cache as it is at first, what the wait for the job comes to, and the cache after
it. -/
def getOptionsDef (r : Request) (first : String → Option D) (status : Option JobStatus) (after : String → Option D) :
    Except String D :=
  match first (r.key legacyBase) with
  | some cachedOptions => .ok cachedOptions
  | none =>
    match status with
    | none => .error "The option definitions could not get fetched, try again in a bit"
    | some .internalError => .error "There was an unexpected error while generating option definitions, try again."
    | some .failure => .error "Generating option definitions failed, try again."
    | some _ =>
      -- the callback has stored the options before the job is resolved
      match after (r.key legacyBase) with
      | some options => .ok options
      | none => .error "Options not found in cache after successful job"

end

/-! ## The world of a release -/

/-- A module is the one of a name, or below it. -/
def IsBelow (module apworldName : String) : Prop :=
  module = moduleOf apworldName ∨ startsWith module (moduleOf apworldName ++ ".") = true

/-- A world is the one of a release: the file of the release has it, or it is the worker's own and the version is the
worker's. -/
structure IsRelease (w : Worker) (apworldName : String) (version : Version) (world : World) : Prop where
  module : IsBelow world.module apworldName
  origin : (∃ a ∈ w.apworld apworldName version, world = a.world apworldName version) ∨
    (∃ game, (game, world) ∈ w.registered) ∧ version = w.base

/-- The worlds that stand before the one of the file; all if there is no file. -/
def worldsBefore (w : Worker) (apworldName : String) (version : Version) : List (String × World) :=
  match w.apworld apworldName version with
  | some a => w.registered.takeWhile fun e => e.1 ≠ a.game
  | none => w.registered

/-- The first world before the one of the file whose module begins like that of the name, if there is one, is the
worker's own copy of it, in the worker's version. -/
def FindsRelease (w : Worker) (apworldName : String) (version : Version) : Prop :=
  ∀ e ∈ (worldsBefore w apworldName version).find? fun e => startsWith e.2.module (moduleOf apworldName),
    version = w.base ∧ IsBelow e.2.module apworldName

variable {w : Worker} {apworldName : String} {version : Version} {world : World}

lemma startsWith_append (start rest : String) : startsWith (start ++ rest) start = true := by
  rw [startsWith, List.isPrefixOf_iff_prefix, String.toList_append]
  exact List.prefix_append _ _

/-- The world of a file is the one of the release. -/
lemma Apworld.isRelease {a : Apworld} (file : a ∈ w.apworld apworldName version) :
    IsRelease w apworldName version (a.world apworldName version) := by
  refine ⟨?_, .inl ⟨a, file, rfl⟩⟩
  rcases a.isBelow with none | dot
  · left
    rw [Apworld.world, none, String.append_empty]
  · right
    obtain ⟨rest, below⟩ := List.head?_eq_some_iff.mp dot
    rw [startsWith, List.isPrefixOf_iff_prefix, Apworld.world, String.toList_append, String.toList_append, below]
    exact ⟨rest, by simp⟩

/-- An own copy is the one of the release only in the version of the worker. -/
lemma isRelease_own {game : String} (own : (game, world) ∈ w.registered) :
    IsRelease w apworldName version world ↔ version = w.base ∧ IsBelow world.module apworldName := by
  constructor
  · rintro ⟨module, ⟨a, _, rfl⟩ | ⟨_, same⟩⟩
    · cases w.own _ own
    · exact ⟨same, module⟩
  · exact fun both => ⟨both.2, .inr ⟨⟨game, own⟩, both.1⟩⟩

lemma loads_of_worldOfJob (found : worldOfJob w apworldName version = some world) :
    (loadApworld w apworldName version).isSome := by
  rw [worldOfJob] at found
  obtain ⟨worldTypes, loaded, -⟩ := Option.bind_eq_some_iff.mp found
  rw [loaded, Option.isSome_some]

/-- What is registered after a file is loaded: its world too, or if there is no file nothing else. -/
lemma loadApworld_eq_some {worldTypes : List (String × World)} (loaded : loadApworld w apworldName version = some worldTypes) :
    (∃ a, w.apworld apworldName version = some a ∧
      worldTypes = IndexMap.put a.game (a.world apworldName version) w.registered) ∨
    w.apworld apworldName version = none ∧ worldTypes = w.registered := by
  rw [loadApworld] at loaded
  split at loaded
  case isTrue => cases loaded
  case isFalse =>
    split at loaded
    case isTrue => cases loaded
    case isFalse =>
      split at loaded
      case h_1 a file =>
        split at loaded
        case isTrue => cases loaded
        case isFalse => exact .inl ⟨a, file, (Option.some.inj loaded).symm⟩
      case h_2 none =>
        split at loaded
        case isTrue => exact .inr ⟨none, (Option.some.inj loaded).symm⟩
        case isFalse => cases loaded

/-- The world of a job: the first one before that of the file, or that of the file. -/
lemma worldOfJob_eq (found : worldOfJob w apworldName version = some world) :
    (∃ game, (worldsBefore w apworldName version).find? (fun e => startsWith e.2.module (moduleOf apworldName)) =
      some (game, world)) ∨
    (worldsBefore w apworldName version).find? (fun e => startsWith e.2.module (moduleOf apworldName)) = none ∧
      ∃ a ∈ w.apworld apworldName version, world = a.world apworldName version := by
  rw [worldOfJob] at found
  obtain ⟨worldTypes, loaded, rest⟩ := Option.bind_eq_some_iff.mp found
  obtain ⟨⟨game, _⟩, first, same⟩ := Option.bind_eq_some_iff.mp rest
  cases Option.some.inj same
  rw [worldFromApworldName] at first
  rw [worldsBefore]
  rcases loadApworld_eq_some loaded with ⟨a, file, rfl⟩ | ⟨none, rfl⟩
  · -- the world of the file begins as it should, so the search doesn't go beyond it
    have is : startsWith (a.world apworldName version).module (moduleOf apworldName) = true := startsWith_append _ _
    rw [IndexMap.find?_put is] at first
    rw [file]
    dsimp only
    cases before : (w.registered.takeWhile fun e => e.1 ≠ a.game).find? fun e =>
        startsWith e.2.module (moduleOf apworldName) with
    | some e =>
      rw [before, Option.some_or] at first
      cases Option.some.inj first
      exact .inl ⟨game, rfl⟩
    | none =>
      rw [before, Option.none_or] at first
      cases Option.some.inj first
      exact .inr ⟨rfl, a, rfl, rfl⟩
  · rw [none]
    exact .inl ⟨game, first⟩

lemma mem_registered {e : String × World} (mem : e ∈ worldsBefore w apworldName version) : e ∈ w.registered := by
  rw [worldsBefore] at mem
  split at mem
  case h_1 => exact List.takeWhile_subset _ mem
  case h_2 => exact mem

/-- The world of a job is the one of the release exactly if no other one is found before that of its file. -/
lemma worldOfJob_iff (found : worldOfJob w apworldName version = some world) :
    IsRelease w apworldName version world ↔ FindsRelease w apworldName version := by
  rcases worldOfJob_eq found with ⟨game, before⟩ | ⟨none, a, file, rfl⟩
  · rw [isRelease_own (mem_registered (List.mem_of_find?_eq_some before)), FindsRelease, before]
    simp
  · rw [FindsRelease, none]
    exact iff_of_true (Apworld.isRelease file) (by simp)

/-! ## Keys -/

/-- A request is for the legacy base, and its name spells out another one for its version. -/
structure SpellsOut (legacyBase : Version) (r other : Request) : Prop where
  legacy : r.base = legacyBase
  base : other.base ≠ legacyBase
  name : r.apworldName = "base:" ++ toString other.base ++ ":" ++ other.apworldName
  version : r.version = other.version

section
variable {A : Type} [DecidableEq A] {x : A} {a a' b b' : List A}

/-- A list is cut in one way at the first place of an element. -/
lemma cut_first (before : x ∉ a) (before' : x ∉ a') (same : a ++ x :: b = a' ++ x :: b') : a = a' ∧ b = b' := by
  have other {l : List A} (before : x ∉ l) : ∀ y ∈ l, decide (y ≠ x) = true := by
    intro y mem
    refine decide_eq_true fun same => before ?_
    rwa [← same]
  have here (l : List A) : ∀ y ∈ (x :: l).head?, decide (y ≠ x) = false := by
    intro y first
    exact decide_eq_false (not_not_intro (Option.some.inj first).symm)
  obtain ⟨start, rest⟩ := SemVersion.append_inj_of_head (other before) (other before') (here b) (here b') same
  exact ⟨start, (List.cons.inj rest).2⟩

/-- A list is cut in one way at the last place of an element. -/
lemma cut_last (later : x ∉ b) (later' : x ∉ b') (same : a ++ x :: b = a' ++ x :: b') : a = a' ∧ b = b' := by
  have reversed := congrArg List.reverse same
  simp only [List.reverse_append, List.reverse_cons, List.append_assoc, List.singleton_append] at reversed
  obtain ⟨last, first⟩ := cut_first (by rwa [List.mem_reverse]) (by rwa [List.mem_reverse]) reversed
  exact ⟨List.reverse_injective first, List.reverse_injective last⟩

end

/-- What a key says of the base and the name. -/
def Request.keyName (legacyBase : Version) (r : Request) : String :=
  if r.base = legacyBase then r.apworldName else "base:" ++ toString r.base ++ ":" ++ r.apworldName

lemma toList_toString (v : Version) : (toString v).toList = v.text := String.toList_ofList

lemma key_toList (legacyBase : Version) (r : Request) :
    (r.key legacyBase).toList = "options_def:".toList ++ ((r.keyName legacyBase).toList ++ ':' :: r.version.text) := by
  rw [Request.key, Request.keyName]
  split
  case isTrue =>
    simp only [String.toList_append, toList_toString, List.append_assoc]
    rfl
  case isFalse =>
    simp only [String.toList_append, toList_toString, List.append_assoc]
    rfl

/-- A key is read in one way, up to the base and the name. -/
lemma key_eq_key_iff (legacyBase : Version) (r other : Request) : r.key legacyBase = other.key legacyBase ↔
    r.keyName legacyBase = other.keyName legacyBase ∧ r.version = other.version := by
  constructor
  · intro same
    have lists := congrArg String.toList same
    rw [key_toList, key_toList, List.append_cancel_left_eq] at lists
    obtain ⟨name, version⟩ := cut_last r.version.colon_notMem_text other.version.colon_notMem_text lists
    exact ⟨String.toList_inj.mp name, SemVersion.Version.text_injective version⟩
  · rintro ⟨name, version⟩
    rw [← String.toList_inj, key_toList, key_toList, name, version]

/-- A name that is spelled out is read in one way. -/
lemma spelled_inj {b b' : Version} {n n' : String}
    (same : "base:" ++ toString b ++ ":" ++ n = "base:" ++ toString b' ++ ":" ++ n') : b = b' ∧ n = n' := by
  have lists := congrArg String.toList same
  simp only [String.toList_append, toList_toString, List.append_assoc] at lists
  obtain ⟨base, name⟩ := cut_first b.colon_notMem_text b'.colon_notMem_text (List.append_cancel_left lists)
  exact ⟨SemVersion.Version.text_injective base, String.toList_inj.mp name⟩

lemma SpellsOut.key_eq {legacyBase : Version} {r other : Request} (spells : SpellsOut legacyBase r other) :
    r.key legacyBase = other.key legacyBase := by
  rw [key_eq_key_iff, Request.keyName, Request.keyName, if_pos spells.legacy, if_neg spells.base]
  exact ⟨spells.name, spells.version⟩

/-- Two requests share a key only if one spells out the other. -/
lemma key_eq_iff (legacyBase : Version) (r other : Request) :
    r.key legacyBase = other.key legacyBase ↔ r = other ∨ SpellsOut legacyBase r other ∨ SpellsOut legacyBase other r := by
  constructor
  · intro same
    obtain ⟨name, version⟩ := (key_eq_key_iff _ _ _).mp same
    by_cases legacy : r.base = legacyBase
    · by_cases legacy' : other.base = legacyBase
      · rw [Request.keyName, Request.keyName, if_pos legacy, if_pos legacy'] at name
        exact .inl (Request.ext (legacy.trans legacy'.symm) name version)
      · rw [Request.keyName, Request.keyName, if_pos legacy, if_neg legacy'] at name
        exact .inr (.inl ⟨legacy, legacy', name, version⟩)
    · by_cases legacy' : other.base = legacyBase
      · rw [Request.keyName, Request.keyName, if_neg legacy, if_pos legacy'] at name
        exact .inr (.inr ⟨legacy', legacy, name.symm, version.symm⟩)
      · rw [Request.keyName, Request.keyName, if_neg legacy, if_neg legacy'] at name
        obtain ⟨base, name⟩ := spelled_inj name
        exact .inl (Request.ext base name version)
  · rintro (rfl | spells | spells)
    · rfl
    · exact spells.key_eq
    · exact spells.key_eq.symm

/-! ## What is answered -/

section
variable {D : Type} (define : Worker → World → Option D) (legacyBase : Version)

/-- Options are those of a request: a worker of its base made them, in a run, of the world of the release. -/
def IsDefinition (run : List CacheEvent) (r : Request) (options : D) : Prop :=
  ∃ w world, .resolved w r.apworldName r.version ∈ run ∧ w.base = r.base ∧ IsRelease w r.apworldName r.version world ∧
    define w world = some options

variable {define legacyBase} {run : List CacheEvent} {options : D}

/-- What is cached after an event was cached before, or the event is a job that made it. -/
lemma applyEvent_eq_some {cache : String → Option D} {e : CacheEvent} {key : String}
    (cached : applyEvent define legacyBase cache e key = some options) :
    cache key = some options ∨ ∃ w apworldName version, e = .resolved w apworldName version ∧
      Request.key legacyBase ⟨w.base, apworldName, version⟩ = key ∧
      OptionsGenQueue.handleJob define w apworldName version = some options := by
  cases e with
  | resolved w apworldName version =>
    rw [applyEvent] at cached
    cases made : OptionsGenQueue.handleJob define w apworldName version with
    | none =>
      rw [made] at cached
      exact .inl cached
    | some options' =>
      rw [made] at cached
      dsimp only at cached
      by_cases same : key = Request.key legacyBase ⟨w.base, apworldName, version⟩
      · rw [same, Function.update_self] at cached
        exact .inr ⟨w, apworldName, version, rfl, same.symm, made.trans cached⟩
      · rw [Function.update_of_ne same] at cached
        exact .inl cached
  | expired other =>
    rw [applyEvent] at cached
    by_cases same : key = other
    · rw [same, Function.update_self] at cached
      cases cached
    · rw [Function.update_of_ne same] at cached
      exact .inl cached

/-- What is cached in the end was made by a job of the run that has the key. -/
lemma made_of_cached {key : String} (cached : cacheAfter define legacyBase run key = some options) :
    ∃ w apworldName version, .resolved w apworldName version ∈ run ∧
      Request.key legacyBase ⟨w.base, apworldName, version⟩ = key ∧
      OptionsGenQueue.handleJob define w apworldName version = some options := by
  induction run using List.reverseRecOn with
  | nil => cases cached
  | append_singleton run e ih =>
    -- only the last event can have changed what was there before
    rw [cacheAfter, List.foldl_append, List.foldl_cons, List.foldl_nil] at cached
    rcases applyEvent_eq_some cached with before | ⟨w, apworldName, version, rfl, same, made⟩
    · obtain ⟨w, apworldName, version, mem, same, made⟩ := ih before
      exact ⟨w, apworldName, version, List.mem_append_left _ mem, same, made⟩
    · exact ⟨w, apworldName, version, List.mem_append_right _ (List.mem_singleton_self _), same, made⟩

/-- What is answered is in the cache, at first or in the end. -/
lemma cached_of_getOptionsDef {r : Request} {first after : String → Option D} {status : Option JobStatus}
    (ok : getOptionsDef legacyBase r first status after = .ok options) :
    first (r.key legacyBase) = some options ∨ after (r.key legacyBase) = some options := by
  unfold getOptionsDef at ok
  split at ok
  case h_1 cached =>
    cases Except.ok.inj ok
    exact .inl cached
  case h_2 =>
    split at ok
    case h_4 =>
      split at ok
      case h_1 cached =>
        cases Except.ok.inj ok
        exact .inr cached
      case h_2 => cases ok
    all_goals cases ok

/-- In a run in which every job that loads its file finds the release, and of whose requests none spells out another,
what is answered is of the release that was asked for. -/
theorem options_of_release (define : Worker → World → Option D) (legacyBase : Version) (requests : Set Request)
    (run : List CacheEvent)
    (asked : ∀ w apworldName version, .resolved w apworldName version ∈ run →
      (⟨w.base, apworldName, version⟩ : Request) ∈ requests)
    (finds : ∀ w apworldName version, .resolved w apworldName version ∈ run →
      (loadApworld w apworldName version).isSome → FindsRelease w apworldName version)
    (apart : ∀ r ∈ requests, ∀ other ∈ requests, ¬ SpellsOut legacyBase r other) :
    (∀ r ∈ requests, ∀ other ∈ requests, r.key legacyBase = other.key legacyBase → r = other) ∧
      ∀ r ∈ requests, ∀ i status options, getOptionsDef legacyBase r (cacheAfter define legacyBase (run.take i)) status
        (cacheAfter define legacyBase run) = .ok options → IsDefinition define run r options := by
  have keys : ∀ r ∈ requests, ∀ other ∈ requests, r.key legacyBase = other.key legacyBase → r = other := by
    intro r mem other mem' same
    rcases (key_eq_iff _ _ _).mp same with same | spells | spells
    · exact same
    · exact absurd spells (apart r mem other mem')
    · exact absurd spells (apart other mem' r mem)
  refine ⟨keys, ?_⟩
  intro r mem i status options ok
  obtain ⟨w, apworldName, version, job, same, made⟩ : ∃ w apworldName version,
      .resolved w apworldName version ∈ run ∧
      Request.key legacyBase ⟨w.base, apworldName, version⟩ = r.key legacyBase ∧
      OptionsGenQueue.handleJob define w apworldName version = some options := by
    rcases cached_of_getOptionsDef ok with cached | cached
    · obtain ⟨w, apworldName, version, job, made⟩ := made_of_cached cached
      exact ⟨w, apworldName, version, List.take_subset _ _ job, made⟩
    · exact made_of_cached cached
  cases keys _ (asked w apworldName version job) r mem same
  obtain ⟨world, found, defined⟩ := Option.bind_eq_some_iff.mp made
  refine ⟨w, world, job, rfl, ?_, defined⟩
  exact (worldOfJob_iff found).mpr (finds w apworldName version job (loads_of_worldOfJob found))

end

lemma isPre_nil : ∀ i ∈ [], SemVersion.IsIdentifier i ∧ SemVersion.NoLeadingZero i := List.forall_mem_nil _

lemma isBuild_nil : ∀ i ∈ [], SemVersion.IsIdentifier i := List.forall_mem_nil _

/-- Version 0.6.7, the legacy base. -/
def base067 : Version := ⟨0, 6, 7, [], [], isPre_nil, isBuild_nil⟩

/-- Version 1.0.0 of a world. -/
def release100 : Version := ⟨1, 0, 0, [], [], isPre_nil, isBuild_nil⟩

/-- A worker that has a world of its own, and the file of another one. -/
def khWorker (module : String) : Worker where
  base := base067
  registered := [("Kingdom Hearts", ⟨module, .own⟩)]
  modules := [module]
  customApworlds file := if file = "kh-1.0.0.apworld" then some ⟨"KH", "", false, .inl rfl⟩ else none
  apworlds _ := none
  own := by simp

/-- The module of a world, in place of its options. -/
def defineModule (_ : Worker) (world : World) : Option String := some world.module

def khRequest : Request := ⟨base067, "kh", release100⟩

/-- A job for the request. -/
def khRun (module : String) : List CacheEvent := [.resolved (khWorker module) "kh" release100]

/-- What the request gets to read. -/
def khAnswer (module : String) : Except String String :=
  getOptionsDef base067 khRequest (cacheAfter defineModule base067 ((khRun module).take 0)) (some .success)
    (cacheAfter defineModule base067 (khRun module))

/-- Where the worker's own world begins otherwise, the answer is of the file. -/
theorem kh_beside_smz3_answered :
    khAnswer "worlds.smz3" = .ok "worlds.kh" ∧
      IsDefinition defineModule (khRun "worlds.smz3") khRequest "worlds.kh" := by
  have ok : khAnswer "worlds.smz3" = .ok "worlds.kh" := rfl
  have before : (worldsBefore (khWorker "worlds.smz3") "kh" release100).find?
      (fun e => startsWith e.2.module (moduleOf "kh")) = none := by decide
  refine ⟨ok, ?_⟩
  refine (options_of_release defineModule base067 {khRequest} (khRun "worlds.smz3") ?_ ?_ ?_).2 khRequest rfl 0 _ _ ok
  · intro w apworldName version job
    cases List.mem_singleton.mp job
    rfl
  · intro w apworldName version job _
    cases List.mem_singleton.mp job
    rw [FindsRelease, before]
    simp
  · rintro r rfl other rfl spells
    exact spells.base spells.legacy

/-- The answer for `kh` is of the worker's own `kh1`. -/
theorem kh1_answered_for_kh :
    khAnswer "worlds.kh1" = .ok "worlds.kh1" ∧
      ¬ IsDefinition defineModule (khRun "worlds.kh1") khRequest "worlds.kh1" := by
  refine ⟨rfl, ?_⟩
  rintro ⟨w, world, -, -, release, made⟩
  have module : world.module = "worlds.kh1" := Option.some.inj made
  rcases release.module with same | below
  · rw [module] at same
    exact absurd same (by decide)
  · rw [module] at below
    exact absurd below (by decide)

end ArchipelagoXL.ApWorker
