import ArchipelagoXL.Lib.WebUrl

/-!
# Requests that the tools pass on

The community tools ask the lobby and the proxy on behalf of a session, with a key of their own. The address
is built from the parameters of the route, and in three ways: by joining a formatted path to the root of the
server, by formatting the whole address, and by pushing a segment.

A request stays on its endpoint if the segments of its path are those of the endpoint, each parameter one of
them, and its query is the one intended.
-/

namespace ArchipelagoXL.Tools
open WebUrl

/-- The root of a server the tools are configured with: a scheme and an authority, as they are written in an
address. -/
structure ApiRoot where
  scheme : Scheme
  authority : Text
  valid : isAuthority authority = true

def ApiRoot.url (root : ApiRoot) : Url := ⟨root.scheme, root.authority, [[]], none, none⟩

/-- Where the lobby answers about its games, for a room on Archipelago `base`. -/
def presetGamesUrl (lobbyRootUrl : ApiRoot) (path base : Text) : Option Url :=
  (lobbyRootUrl.url.join path).map (·.appendPair (ascii "base") base)

def proxyGameOptions (lobbyRootUrl : ApiRoot) (apVersion apworld : Text) : Option Url :=
  presetGamesUrl lobbyRootUrl (ascii "/api/games/" ++ apworld ++ ascii "/options") apVersion

def getGameNames (apxApiRoot : ApiRoot) (lobbyRoomId typeName gameName : Text) : Option Url :=
  apxApiRoot.url.join
    (ascii "/api/" ++ lobbyRoomId ++ ascii "/names/" ++ typeName ++ ascii "/" ++ gameName)

/-- The address of an exclusion, which is put and deleted there. -/
def exclusionUrl (apxApiRoot : ApiRoot) (lobbyRoomId : Text) (slotId : ℤ) (tagName : Text) : Option Url :=
  Url.parse (apxApiRoot.url.text ++ ascii "api/" ++ lobbyRoomId ++ ascii "/bounce_exclusions/" ++
    ascii (toString slotId) ++ ascii "/" ++ tagName)

def proxyAddExclusion (apxApiRoot : ApiRoot) (lobbyRoomId : Text) (slotId : ℤ) (tagName : Text) : Option Url :=
  exclusionUrl apxApiRoot lobbyRoomId slotId tagName

def proxyRemoveExclusion (apxApiRoot : ApiRoot) (lobbyRoomId : Text) (slotId : ℤ) (tagName : Text) :
    Option Url :=
  exclusionUrl apxApiRoot lobbyRoomId slotId tagName

def release (apxApiRoot : ApiRoot) (lobbyRoomId slotName : Text) : Option Url :=
  (apxApiRoot.url.join (ascii "/api/" ++ lobbyRoomId ++ ascii "/release/")).map (·.push slotName)

/-- A request that a route passes on, with its parameters. -/
inductive Proxied where
  | gameOptions (apVersion apworld : Text)
  | gameNames (lobbyRoomId typeName gameName : Text)
  | addExclusion (lobbyRoomId : Text) (slotId : ℤ) (tagName : Text)
  | removeExclusion (lobbyRoomId : Text) (slotId : ℤ) (tagName : Text)
  | release (lobbyRoomId slotName : Text)

namespace Proxied

/-- The address the request is sent to. -/
def url (root : ApiRoot) : Proxied → Option Url
  | gameOptions apVersion apworld => proxyGameOptions root apVersion apworld
  | gameNames lobbyRoomId typeName gameName => getGameNames root lobbyRoomId typeName gameName
  | addExclusion lobbyRoomId slotId tagName => proxyAddExclusion root lobbyRoomId slotId tagName
  | removeExclusion lobbyRoomId slotId tagName => proxyRemoveExclusion root lobbyRoomId slotId tagName
  | release lobbyRoomId slotName => Tools.release root lobbyRoomId slotName

/-- The segments of the endpoint, without any encoding. -/
def endpoint : Proxied → List Text
  | gameOptions _ apworld => [ascii "api", ascii "games", apworld, ascii "options"]
  | gameNames lobbyRoomId typeName gameName => [ascii "api", lobbyRoomId, ascii "names", typeName, gameName]
  | addExclusion lobbyRoomId slotId tagName
  | removeExclusion lobbyRoomId slotId tagName =>
    [ascii "api", lobbyRoomId, ascii "bounce_exclusions", ascii (toString slotId), tagName]
  | release lobbyRoomId slotName => [ascii "api", lobbyRoomId, ascii "release", slotName]

def query : Proxied → Option Text
  | gameOptions apVersion _ => some (ascii "base=" ++ formEncode apVersion)
  | _ => none

/-- The request goes to the server, to its endpoint there and with its query. -/
def Stays (root : ApiRoot) (request : Proxied) : Prop :=
  ∃ u, request.url root = some u ∧ u.scheme = root.scheme ∧ u.authority = root.authority ∧
    decoded u.path = request.endpoint ∧ u.query = request.query

/-- Every parameter fits in a segment, and at the end of the address where it stands there. A slot is pushed
behind a slash, and no name of a slot is right there. -/
def Fits : Proxied → Prop
  | gameOptions _ apworld => fitsSegment apworld = true
  | gameNames lobbyRoomId typeName gameName =>
    fitsSegment lobbyRoomId = true ∧ fitsSegment typeName = true ∧ fitsSegment gameName = true ∧
      fitsEnd gameName = true
  | addExclusion lobbyRoomId _ tagName
  | removeExclusion lobbyRoomId _ tagName =>
    fitsSegment lobbyRoomId = true ∧ fitsSegment tagName = true ∧ fitsEnd tagName = true
  | release _ _ => False

end Proxied

/-! ## The texts of the addresses -/

section
variable {root : ApiRoot}

/-- An address made of segments of the API is read as what the segments are joined to. -/
lemma join_api (rest : List Text) : root.url.join (47 :: joined (ascii "api" :: rest)) =
    some (parseAfter root.scheme root.authority (scanEnd (joined (ascii "api" :: rest)))) := by
  cases rest with
  | nil => exact Url.join_root root.url rfl
  | cons p rest => exact Url.join_root root.url rfl

lemma presetGamesUrl_joined (apVersion apworld : Text) : proxyGameOptions root apVersion apworld =
    some ((parseAfter root.scheme root.authority
      (scanEnd (joined [ascii "api", ascii "games", apworld, ascii "options"]))).appendPair
        (ascii "base") apVersion) := by
  have written : ascii "/api/games/" ++ apworld ++ ascii "/options" =
      47 :: joined [ascii "api", ascii "games", apworld, ascii "options"] := rfl
  rw [proxyGameOptions, presetGamesUrl, written, join_api]
  rfl

lemma getGameNames_joined (lobbyRoomId typeName gameName : Text) :
    getGameNames root lobbyRoomId typeName gameName = some (parseAfter root.scheme root.authority
      (scanEnd (joined [ascii "api", lobbyRoomId, ascii "names", typeName, gameName]))) := by
  have written : ascii "/api/" ++ lobbyRoomId ++ ascii "/names/" ++ typeName ++ ascii "/" ++ gameName =
      47 :: joined [ascii "api", lobbyRoomId, ascii "names", typeName, gameName] := by
    simp only [List.append_assoc]
    rfl
  rw [getGameNames, written, join_api]

lemma exclusionUrl_joined (lobbyRoomId : Text) (slotId : ℤ) (tagName : Text) :
    exclusionUrl root lobbyRoomId slotId tagName = some (parseAfter root.scheme root.authority
      (scanEnd (joined [ascii "api", lobbyRoomId, ascii "bounce_exclusions", ascii (toString slotId), tagName]))) := by
  have written : root.url.text ++ ascii "api/" ++ lobbyRoomId ++ ascii "/bounce_exclusions/" ++
      ascii (toString slotId) ++ ascii "/" ++ tagName = root.scheme.start ++ root.authority ++ 47 ::
        joined [ascii "api", lobbyRoomId, ascii "bounce_exclusions", ascii (toString slotId), tagName] := by
    simp only [ApiRoot.url, Url.text, joined, Option.elim_none, List.append_nil, List.append_assoc]
    rfl
  rw [exclusionUrl, written, Url.parse_root _ root.valid]

/-! ## Where the requests go -/

/-- A request whose address is made of segments stays exactly if they fit. -/
lemma stays_joined {request : Proxied} (front : List Text) (last : Text)
    (sent : request.url root = some (parseAfter root.scheme root.authority (scanEnd (joined (front ++ [last])))))
    (endpoint : request.endpoint = front ++ [last]) (query : request.query = none) :
    request.Stays root ↔ (∀ p ∈ front ++ [last], fitsSegment p = true) ∧ fitsEnd last = true := by
  obtain ⟨exact_, noQuery⟩ := parseAfter_exact root.scheme root.authority front last
  constructor
  · rintro ⟨u, address, -, -, path, -⟩
    rw [sent] at address
    cases address
    exact exact_.1 (path.trans endpoint)
  · intro fits
    exact ⟨_, sent, rfl, rfl, (exact_.2 fits).trans endpoint.symm, (noQuery fits).trans query.symm⟩

lemma gameOptions_stays (apVersion apworld : Text) :
    (Proxied.gameOptions apVersion apworld).Stays root ↔ fitsSegment apworld = true := by
  have literals : fitsSegment (ascii "api") = true ∧ fitsSegment (ascii "games") = true ∧
      fitsSegment (ascii "options") = true ∧ fitsEnd (ascii "options") = true := by decide
  obtain ⟨api, games, options, atEnd⟩ := literals
  obtain ⟨exact_, noQuery⟩ :=
    parseAfter_exact root.scheme root.authority [ascii "api", ascii "games", apworld] (ascii "options")
  have fits : ((∀ p ∈ [ascii "api", ascii "games", apworld] ++ [ascii "options"], fitsSegment p = true) ∧
      fitsEnd (ascii "options") = true) ↔ fitsSegment apworld = true := by
    simp [api, games, options, atEnd]
  rw [fits] at exact_ noQuery
  constructor
  · rintro ⟨u, address, -, -, path, -⟩
    rw [Proxied.url, presetGamesUrl_joined] at address
    cases address
    exact exact_.1 path
  · intro fits
    refine ⟨_, presetGamesUrl_joined apVersion apworld, rfl, rfl, exact_.2 fits, ?_⟩
    have noQuery := noQuery fits
    rw [List.cons_append, List.cons_append, List.cons_append, List.nil_append] at noQuery
    rw [Url.appendPair, noQuery]
    rfl

lemma gameNames_stays (lobbyRoomId typeName gameName : Text) :
    (Proxied.gameNames lobbyRoomId typeName gameName).Stays root ↔
      fitsSegment lobbyRoomId = true ∧ fitsSegment typeName = true ∧ fitsSegment gameName = true ∧
        fitsEnd gameName = true := by
  have literals : fitsSegment (ascii "api") = true ∧ fitsSegment (ascii "names") = true := by decide
  have sent : (Proxied.gameNames lobbyRoomId typeName gameName).url root = _ :=
    getGameNames_joined lobbyRoomId typeName gameName
  rw [stays_joined [ascii "api", lobbyRoomId, ascii "names", typeName] gameName sent rfl rfl]
  simp [literals.1, literals.2, and_assoc]

lemma exclusion_stays (request : Proxied) (lobbyRoomId : Text) (slotId : ℤ) (tagName : Text)
    (exclusion : request = .addExclusion lobbyRoomId slotId tagName ∨
      request = .removeExclusion lobbyRoomId slotId tagName) :
    request.Stays root ↔ fitsSegment lobbyRoomId = true ∧ fitsSegment tagName = true ∧ fitsEnd tagName = true := by
  have literals : fitsSegment (ascii "api") = true ∧ fitsSegment (ascii "bounce_exclusions") = true := by decide
  have sent : request.url root = exclusionUrl root lobbyRoomId slotId tagName := by
    rcases exclusion with rfl | rfl <;> rfl
  have endpoint : request.endpoint =
      [ascii "api", lobbyRoomId, ascii "bounce_exclusions", ascii (toString slotId), tagName] := by
    rcases exclusion with rfl | rfl <;> rfl
  have query : request.query = none := by
    rcases exclusion with rfl | rfl <;> rfl
  have slot := fitsSegment_toString slotId
  rw [stays_joined [ascii "api", lobbyRoomId, ascii "bounce_exclusions", ascii (toString slotId)] tagName
    (sent.trans (exclusionUrl_joined lobbyRoomId slotId tagName)) endpoint query]
  generalize ascii (toString slotId) = slotText at slot
  simp [literals.1, literals.2, slot, and_assoc]

/-! ### Releases -/

/-- The path that the name of the slot is pushed to. -/
lemma release_pushed (root : ApiRoot) (lobbyRoomId slotName : Text) : ∃ u : Url,
    u.path = parsePath (((ascii "api/" ++ lobbyRoomId ++ ascii "/release").filter (!isTabOrNewline ·)) ++ [47]) ∧
      release root lobbyRoomId slotName = some (u.push slotName) := by
  have written : ascii "/api/" ++ lobbyRoomId ++ ascii "/release/" =
      47 :: joined [ascii "api", lobbyRoomId, ascii "release", []] := by
    simp only [List.append_assoc]
    rfl
  have ended : joined [ascii "api", lobbyRoomId, ascii "release", []] =
      (ascii "api/" ++ lobbyRoomId ++ ascii "/release") ++ [47] := by
    simp only [List.append_assoc]
    rfl
  have scanned : scanEnd ((ascii "api/" ++ lobbyRoomId ++ ascii "/release") ++ [47]) =
      (ascii "api/" ++ lobbyRoomId ++ ascii "/release").filter (!isTabOrNewline ·) ++ [47] := by
    rw [scanEnd, List.rdropWhile_concat_neg _ _ _ (by decide), List.filter_append]
    rfl
  refine ⟨parseAfter root.scheme root.authority (scanEnd (joined [ascii "api", lobbyRoomId, ascii "release", []])),
    ?_, ?_⟩
  · rw [ended, scanned]
    rfl
  · rw [release, written, join_api]
    rfl

/-- The path that is pushed to ends with an empty segment, or is cut where the room is written. -/
lemma release_path (lobbyRoomId : Text) :
    let written := (ascii "api/" ++ lobbyRoomId ++ ascii "/release").filter (!isTabOrNewline ·)
    (∃ front, parsePath (written ++ [47]) = front ++ [[]]) ∨
      size (decoded (parsePath (written ++ [47]))) ≤ lobbyRoomId.length + 5 := by
  intro written
  by_cases plain : ∀ b ∈ written, endsPath b = false
  · exact Or.inl (parsePath_slash plain)
  · right
    have split : written = ascii "api/" ++ (lobbyRoomId.filter (!isTabOrNewline ·) ++ ascii "/release") := by
      simp only [written, List.filter_append, List.append_assoc]
      rfl
    have api : ∀ b ∈ ascii "api/", (!endsPath b) = true := List.all_eq_true.1 rfl
    have rest : ∀ b ∈ ascii "/release", (!endsPath b) = true := List.all_eq_true.1 rfl
    have cut : (lobbyRoomId.filter (!isTabOrNewline ·)).takeWhile (!endsPath ·) ≠
        lobbyRoomId.filter (!isTabOrNewline ·) := by
      rw [ne_eq, List.takeWhile_eq_self_iff]
      intro inRoom
      apply plain
      intro b mem
      rw [split, List.mem_append, List.mem_append] at mem
      rw [← Bool.not_eq_true']
      rcases mem with mem | mem | mem
      · exact api b mem
      · exact inRoom b mem
      · exact rest b mem
    have notWhole : ((lobbyRoomId.filter (!isTabOrNewline ·)).takeWhile (!endsPath ·)).length ≠
        (lobbyRoomId.filter (!isTabOrNewline ·)).length :=
      fun same => cut ((List.takeWhile_prefix _).eq_of_length same)
    have part : (written ++ [47]).takeWhile (!endsPath ·) =
        ascii "api/" ++ (lobbyRoomId.filter (!isTabOrNewline ·)).takeWhile (!endsPath ·) := by
      rw [split, List.append_assoc, List.append_assoc, List.takeWhile_append_of_pos api, List.takeWhile_append,
        if_neg notWhole]
    have shorter := (List.takeWhile_prefix (!endsPath ·) (l := lobbyRoomId.filter (!isTabOrNewline ·))).length_le
    have filtered := List.length_filter_le (!isTabOrNewline ·) lobbyRoomId
    have size := (size_parsePath ((written ++ [47]).takeWhile (!endsPath ·))).1
    rw [parsePath_takeWhile, part, List.length_append, show (ascii "api/").length = 4 from rfl] at size
    omega

/-- No release is sent to its endpoint: the name of the slot comes behind an empty segment. -/
lemma release_not_stays (lobbyRoomId slotName : Text) : ¬ (Proxied.release lobbyRoomId slotName).Stays root := by
  rintro ⟨u, address, -, -, path, -⟩
  obtain ⟨base, basePath, pushed⟩ := release_pushed root lobbyRoomId slotName
  rw [Proxied.url, pushed, Option.some.injEq] at address
  subst address
  have pathFront : decoded (base.push slotName).path.dropLast = [ascii "api", lobbyRoomId, ascii "release"] := by
    rw [decoded, List.map_dropLast, ← decoded, path]
    rfl
  have last : (decoded (base.push slotName).path).getLast? = some slotName := by
    rw [path]
    rfl
  have endsEmpty : ∀ front, (base.push slotName).path = front ++ [[]] → slotName = [] := by
    intro front ends
    rw [ends, decoded_append] at last
    simpa using last.symm
  rcases release_path lobbyRoomId with ⟨front, ends⟩ | cut
  · rw [← basePath] at ends
    rcases base.push_cases slotName with ⟨dot, same⟩ | ⟨s, only⟩ | ⟨some, replaced⟩ | ⟨some, added⟩ | added
    · have empty := endsEmpty front (same.trans ends)
      rw [empty] at dot
      rcases dot with dot | dot
      · cases dot
      · cases dot
    · rw [only] at pathFront
      cases pathFront
    · exact some (endsEmpty _ replaced)
    · exact some (endsEmpty _ added)
    · rw [added, ends, List.dropLast_concat, decoded_append] at pathFront
      have release := congrArg List.getLast? pathFront
      simp at release
      cases release
  · have size := base.push_size slotName
    rw [pathFront, basePath] at size
    have release : (ascii "api").length = 3 ∧ (ascii "release").length = 7 := ⟨rfl, rfl⟩
    simp only [size_cons, size_nil, release.1, release.2] at size
    omega

/-- But for that segment, a slot is released where its name is pushed at all and nothing in it is skipped. -/
lemma release_empty_segment {lobbyRoomId slotName : Text} (room : fitsSegment lobbyRoomId = true)
    (plain : ∀ b ∈ slotName, isTabOrNewline b = false) (notDot : slotName ≠ ascii ".")
    (notDots : slotName ≠ ascii "..") : ∃ u, release root lobbyRoomId slotName = some u ∧
      decoded u.path = [ascii "api", lobbyRoomId, ascii "release", [], slotName] := by
  have literals : fitsSegment (ascii "api") = true ∧ fitsSegment (ascii "release") = true ∧
      fitsSegment [] = true ∧ fitsEnd [] = true := by decide
  have written : ascii "/api/" ++ lobbyRoomId ++ ascii "/release/" =
      47 :: joined [ascii "api", lobbyRoomId, ascii "release", []] := by
    simp only [List.append_assoc]
    rfl
  have path := (parseAfter_exact root.scheme root.authority [ascii "api", lobbyRoomId, ascii "release"] []).1.2
    (by simp [literals.1, literals.2, room])
  refine ⟨_, by rw [release, written, join_api]; rfl, ?_⟩
  rw [Url.push_path _ plain notDot notDots, show [ascii "api", lobbyRoomId, ascii "release", []] =
    [ascii "api", lobbyRoomId, ascii "release"] ++ [[]] from rfl, path]
  · rfl
  · intro only
    rw [List.cons_append, List.cons_append, List.cons_append, List.nil_append, only] at path
    cases path

end

/-! ## Requests that stay on their endpoint -/

/-- A request stays on its endpoint exactly if its parameters fit where they are written. -/
theorem proxied_stays_iff (root : ApiRoot) (request : Proxied) : request.Stays root ↔ request.Fits := by
  cases request with
  | gameOptions apVersion apworld => exact gameOptions_stays apVersion apworld
  | gameNames lobbyRoomId typeName gameName => exact gameNames_stays lobbyRoomId typeName gameName
  | addExclusion lobbyRoomId slotId tagName => exact exclusion_stays _ lobbyRoomId slotId tagName (Or.inl rfl)
  | removeExclusion lobbyRoomId slotId tagName => exact exclusion_stays _ lobbyRoomId slotId tagName (Or.inr rfl)
  | release lobbyRoomId slotName =>
    constructor
    · exact release_not_stays lobbyRoomId slotName
    · exact False.elim

def exampleRoot : ApiRoot := ⟨.https, ascii "apx.example", rfl⟩

/-- A tag that climbs out of a room: the exclusion is put in another room, where no tag would be asked for. -/
theorem exclusion_of_other_room :
    let request := Proxied.addExclusion (ascii "0a5c2f1e-6f0b-4c58-9f3e-0d6f1c2b3a4d") 1
      (ascii "../../../7e1d9b40-2a6c-4f8e-8b57-5c0e9d1f2a3b/bounce_exclusions/1/DeathLink")
    let other := Proxied.addExclusion (ascii "7e1d9b40-2a6c-4f8e-8b57-5c0e9d1f2a3b") 1 (ascii "DeathLink")
    request.url exampleRoot = other.url exampleRoot ∧ other.Stays exampleRoot ∧ ¬ request.Stays exampleRoot := by
  intro request other
  refine ⟨by decide +kernel, ?_, ?_⟩
  · exact (exclusion_stays other _ _ _ (Or.inl rfl)).2 (by decide +kernel)
  · intro stays
    exact absurd ((exclusion_stays request _ _ _ (Or.inl rfl)).1 stays).2.1 (by decide +kernel)

/-- A `+` would be read as a space on the other side. -/
example : (presetGamesUrl ⟨.https, ascii "lobby.example", rfl⟩ (ascii "/api/games")
    (ascii "0.7.0-rc1+build")).map Url.text =
      some (ascii "https://lobby.example/api/games?base=0.7.0-rc1%2Bbuild") := by decide +kernel

end ArchipelagoXL.Tools
