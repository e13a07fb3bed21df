import Mathlib.Data.List.AList
import Mathlib.Data.Int.Order.Basic
import Mathlib.Order.Lattice
import Mathlib.Tactic.Common
import ArchipelagoXL.Lib.Uuid

/-!
# Teams

A team has members, each with a role, and rooms. A member has its role in every room of the team, and of
several roles in a room the highest counts. Admins of a team add, change and remove its members, add rooms
that they own on the lobby, and remove rooms.

The tables are keyed by team and user and by team and room, and a row names a team that exists.
-/

namespace ArchipelagoXL.Tools.Teams

/-- The roles, from the lowest to the highest. -/
inductive Role where
  | viewer
  | reviewer
  | ruleEditor
  | editor
  | moderator
  | admin
deriving DecidableEq, Repr

namespace Role

def rank : Role → ℕ
  | viewer => 0
  | reviewer => 1
  | ruleEditor => 2
  | editor => 3
  | moderator => 4
  | admin => 5

lemma rank_injective : Function.Injective rank := by
  intro r s same
  cases r <;> cases s <;> first | rfl | cases same

instance : LinearOrder Role := LinearOrder.lift' rank rank_injective

def asStr : Role → String
  | viewer => "viewer"
  | reviewer => "reviewer"
  | ruleEditor => "rule_editor"
  | editor => "editor"
  | moderator => "moderator"
  | admin => "admin"

def fromStr (s : String) : Option Role :=
  if s = "viewer" then some viewer
  else if s = "reviewer" then some reviewer
  else if s = "rule_editor" then some ruleEditor
  else if s = "editor" then some editor
  else if s = "moderator" then some moderator
  else if s = "admin" then some admin
  else none

end Role

/-! ## The tables -/

/-- What a row of `team_members` holds besides its key. -/
structure Member where
  username : Option String
  role : String
deriving DecidableEq, Repr

structure TeamMember where
  teamId : ℤ
  userId : ℤ
  username : Option String
  role : String
deriving DecidableEq, Repr

structure TeamRoom where
  teamId : ℤ
  roomId : Uuid
  roomName : String
deriving DecidableEq

structure Tables where
  teams : List ℤ
  teamMembers : AList fun _ : ℤ × ℤ => Member
  teamRooms : AList fun _ : ℤ × Uuid => String
  /-- The references of the rows to their teams. -/
  membersTeam : ∀ k ∈ teamMembers, k.1 ∈ teams
  roomsTeam : ∀ k ∈ teamRooms, k.1 ∈ teams

inductive Error where
  | forbidden (msg : String)
  | badRequest (msg : String)
  | notFound (msg : String)
  /-- The database refuses. -/
  | internal
deriving DecidableEq, Repr

namespace Tables

def addTeamMember (teamId userId : ℤ) (username : Option String) (role : String) (t : Tables) :
    Except Error (TeamMember × Tables) :=
  if team : teamId ∈ t.teams then
    .ok (⟨teamId, userId, username, role⟩,
      { t with
        teamMembers := t.teamMembers.insert (teamId, userId) ⟨username, role⟩
        membersTeam := fun k mem => by
          rcases (AList.mem_insert _).1 mem with rfl | mem
          · exact team
          · exact t.membersTeam k mem })
  else .error .internal

def removeTeamMember (teamId userId : ℤ) (t : Tables) : Tables :=
  { t with
    teamMembers := t.teamMembers.erase (teamId, userId)
    membersTeam := fun k mem => t.membersTeam k (AList.mem_erase.1 mem).2 }

def updateTeamMemberRole (teamId userId : ℤ) (role : String) (t : Tables) : Except Error (TeamMember × Tables) :=
  match row : t.teamMembers.lookup (teamId, userId) with
  | none => .error .internal
  | some member =>
    .ok (⟨teamId, userId, member.username, role⟩,
      { t with
        teamMembers := t.teamMembers.insert (teamId, userId) ⟨member.username, role⟩
        membersTeam := fun k mem => by
          rcases (AList.mem_insert _).1 mem with rfl | mem
          · exact t.membersTeam _ (AList.lookup_isSome.1 (by rw [row]; rfl))
          · exact t.membersTeam k mem })

def addTeamRoom (teamId : ℤ) (roomId : Uuid) (roomName : String) (t : Tables) : Except Error (TeamRoom × Tables) :=
  if team : teamId ∈ t.teams then
    .ok (⟨teamId, roomId, roomName⟩,
      { t with
        teamRooms := t.teamRooms.insert (teamId, roomId) roomName
        roomsTeam := fun k mem => by
          rcases (AList.mem_insert _).1 mem with rfl | mem
          · exact team
          · exact t.roomsTeam k mem })
  else .error .internal

def removeTeamRoom (teamId : ℤ) (roomId : Uuid) (t : Tables) : Tables :=
  { t with
    teamRooms := t.teamRooms.erase (teamId, roomId)
    roomsTeam := fun k mem => t.roomsTeam k (AList.mem_erase.1 mem).2 }

def getUserRoleForTeam (userId teamId : ℤ) (t : Tables) : Option Role :=
  (t.teamMembers.lookup (teamId, userId)).bind fun member => Role.fromStr member.role

end Tables

/-! ## The endpoints -/

structure Session where
  userId : ℤ
  isSuperAdmin : Bool
deriving DecidableEq, Repr

def requireTeamRole (session : Session) (teamId : ℤ) (minimum : Role) (t : Tables) : Except Error Unit :=
  if session.isSuperAdmin then .ok ()
  else
    match t.getUserRoleForTeam session.userId teamId with
    | some role => if minimum ≤ role then .ok () else .error (.forbidden "Forbidden")
    | none => .error (.forbidden "Forbidden")

def parseRole (role : String) : Except Error Role :=
  match Role.fromStr role with
  | some role => .ok role
  | none => .error (.badRequest ("Invalid role: " ++ role))

def adminAddMember (session : Session) (teamId userId : ℤ) (username : Option String) (role : String)
    (t : Tables) : Except Error (TeamMember × Tables) := do
  requireTeamRole session teamId .admin t
  let role ← parseRole role
  if Role.moderator ≤ role ∧ !session.isSuperAdmin then
    throw (.forbidden "Only super admins can assign the moderator or admin role")
  t.addTeamMember teamId userId username role.asStr

def adminUpdateMemberRole (session : Session) (teamId userId : ℤ) (role : String) (t : Tables) :
    Except Error (TeamMember × Tables) := do
  requireTeamRole session teamId .admin t
  let newRole ← parseRole role
  if !session.isSuperAdmin then
    if Role.admin ≤ newRole then
      throw (.forbidden "Only super admins can assign the admin role")
    if (t.getUserRoleForTeam userId teamId).any (Role.admin ≤ ·) then
      throw (.forbidden "Only super admins can modify admin members")
  t.updateTeamMemberRole teamId userId newRole.asStr

def adminRemoveMember (session : Session) (teamId userId : ℤ) (t : Tables) : Except Error Tables := do
  requireTeamRole session teamId .admin t
  if !session.isSuperAdmin then
    if (t.getUserRoleForTeam userId teamId).any (Role.admin ≤ ·) then
      throw (.forbidden "Only super admins can remove admin members")
  return t.removeTeamMember teamId userId

/-- What the lobby says of a room. -/
structure LobbyRoomInfo where
  name : String
  authorId : ℤ
deriving DecidableEq, Repr

def adminAddRoom (session : Session) (teamId : ℤ) (roomId : Uuid) (answer : Option LobbyRoomInfo) (t : Tables) :
    Except Error (TeamRoom × Tables) := do
  requireTeamRole session teamId .admin t
  match answer with
  | none => throw (.notFound "Room not found on the lobby")
  | some roomInfo =>
    if !session.isSuperAdmin ∧ roomInfo.authorId ≠ session.userId then
      throw (.forbidden "You can only add rooms you own on the lobby")
    t.addTeamRoom teamId roomId roomInfo.name

def adminRemoveRoom (session : Session) (teamId : ℤ) (roomId : String) (t : Tables) : Except Error Tables := do
  let some roomId := Uuid.parseStr roomId | throw (.badRequest "Invalid room ID")
  requireTeamRole session teamId .admin t
  return t.removeTeamRoom teamId roomId

inductive Request where
  | addMember (teamId userId : ℤ) (username : Option String) (role : String)
  | updateMemberRole (teamId userId : ℤ) (role : String)
  | removeMember (teamId userId : ℤ)
  /-- With the name of the room if the lobby finds it. -/
  | addRoom (teamId : ℤ) (roomId : Uuid) (found : Option String)
  | removeRoom (teamId : ℤ) (roomId : String)
deriving DecidableEq

/-- Answers a request; `owner` says who owns a room on the lobby. -/
def handle (owner : Uuid → ℤ) (session : Session) (t : Tables) : Request → Except Error Tables
  | .addMember teamId userId username role => Prod.snd <$> adminAddMember session teamId userId username role t
  | .updateMemberRole teamId userId role => Prod.snd <$> adminUpdateMemberRole session teamId userId role t
  | .removeMember teamId userId => adminRemoveMember session teamId userId t
  | .addRoom teamId roomId found =>
    Prod.snd <$> adminAddRoom session teamId roomId (found.map fun name => ⟨name, owner roomId⟩) t
  | .removeRoom teamId roomId => adminRemoveRoom session teamId roomId t

/-- What a request of a session that is not a super admin can do. -/
inductive Does (owner : Uuid → ℤ) (session : Session) (t t' : Tables) : Request → Prop where
  | addMember {teamId userId username text role} :
    t.getUserRoleForTeam session.userId teamId = some .admin →
    Role.fromStr text = some role →
    role < .moderator →
    (∀ v team, t'.getUserRoleForTeam v team =
      if team = teamId ∧ v = userId then some role else t.getUserRoleForTeam v team) →
    t'.teamRooms = t.teamRooms →
    Does owner session t t' (.addMember teamId userId username text)
  | updateMemberRole {teamId userId text role} :
    t.getUserRoleForTeam session.userId teamId = some .admin →
    Role.fromStr text = some role →
    role < .admin →
    t.getUserRoleForTeam userId teamId ≠ some .admin →
    (teamId, userId) ∈ t.teamMembers →
    (∀ v team, t'.getUserRoleForTeam v team =
      if team = teamId ∧ v = userId then some role else t.getUserRoleForTeam v team) →
    t'.teamRooms = t.teamRooms →
    Does owner session t t' (.updateMemberRole teamId userId text)
  | removeMember {teamId userId} :
    t.getUserRoleForTeam session.userId teamId = some .admin →
    t.getUserRoleForTeam userId teamId ≠ some .admin →
    (∀ v team, t'.getUserRoleForTeam v team =
      if team = teamId ∧ v = userId then none else t.getUserRoleForTeam v team) →
    t'.teamRooms = t.teamRooms →
    Does owner session t t' (.removeMember teamId userId)
  | addRoom {teamId roomId found} :
    t.getUserRoleForTeam session.userId teamId = some .admin →
    owner roomId = session.userId →
    (∀ v team, t'.getUserRoleForTeam v team = t.getUserRoleForTeam v team) →
    (∀ k, k ∈ t'.teamRooms ↔ k = (teamId, roomId) ∨ k ∈ t.teamRooms) →
    Does owner session t t' (.addRoom teamId roomId found)
  | removeRoom {teamId roomId text} :
    t.getUserRoleForTeam session.userId teamId = some .admin →
    Uuid.parseStr text = some roomId →
    (∀ v team, t'.getUserRoleForTeam v team = t.getUserRoleForTeam v team) →
    (∀ k, k ∈ t'.teamRooms ↔ k ≠ (teamId, roomId) ∧ k ∈ t.teamRooms) →
    Does owner session t t' (.removeRoom teamId text)

section
variable {t t' : Tables} {session : Session} {owner : Uuid → ℤ} {teamId userId : ℤ} {roomId : Uuid}

lemma bind_eq_ok {E A B : Type} {x : Except E A} {f : A → Except E B} {b : B} (ok : x >>= f = .ok b) :
    ∃ a, x = .ok a ∧ f a = .ok b := by
  cases x with
  | ok a => exact ⟨a, rfl, ok⟩
  | error e => cases ok

end

/-! ## Roles in rooms -/

section
variable {t : Tables} {userId : ℤ} {roomId : Uuid} {role : Role}

end

/-! ## Runs -/

/-- Admins stay admins, and moderators and admins are those from before. -/
structure KeepsRoles (start t : Tables) : Prop where
  admins : ∀ userId teamId, start.getUserRoleForTeam userId teamId = some .admin →
    t.getUserRoleForTeam userId teamId = some .admin
  nobodyNew : ∀ userId teamId role, .moderator ≤ role → t.getUserRoleForTeam userId teamId = some role →
    start.getUserRoleForTeam userId teamId = some role

lemma KeepsRoles.refl (t : Tables) : KeepsRoles t t := ⟨fun _ _ h => h, fun _ _ _ _ h => h⟩

lemma KeepsRoles.trans {s t u : Tables} (st : KeepsRoles s t) (tu : KeepsRoles t u) : KeepsRoles s u where
  admins userId teamId h := tu.admins userId teamId (st.admins userId teamId h)
  nobodyNew userId teamId role high h :=
    st.nobodyNew userId teamId role high (tu.nobodyNew userId teamId role high h)

section
variable {owner : Uuid → ℤ} {session : Session} {start t t' : Tables} {request : Request}

/-- What is kept where one role is written. -/
lemma KeepsRoles.of_write {teamId userId : ℤ} {written : Option Role}
    (roles : ∀ v team, t'.getUserRoleForTeam v team =
      if team = teamId ∧ v = userId then written else t.getUserRoleForTeam v team)
    (notAdmin : t.getUserRoleForTeam userId teamId ≠ some .admin)
    (low : ∀ role, written = some role → .moderator ≤ role → t.getUserRoleForTeam userId teamId = some role) :
    KeepsRoles t t' where
  admins v team admin := by
    rw [roles, if_neg, admin]
    rintro ⟨rfl, rfl⟩
    exact notAdmin admin
  nobodyNew v team role high has := by
    rw [roles] at has
    split at has
    case isTrue here =>
      obtain ⟨rfl, rfl⟩ := here
      exact low role has high
    case isFalse => exact has

/-- Where the roles and rooms of a run come from: an admin is an admin from the start, a room is there from
the start or owned by a session, and a role is the one from the start or given by a session that was an admin. -/
structure Within (owner : Uuid → ℤ) (sessions : List Session) (start t : Tables) : Prop where
  admins : ∀ userId teamId, t.getUserRoleForTeam userId teamId = some .admin →
    start.getUserRoleForTeam userId teamId = some .admin
  rooms : ∀ teamId roomId, (teamId, roomId) ∈ t.teamRooms →
    (teamId, roomId) ∈ start.teamRooms ∨ ∃ session ∈ sessions, owner roomId = session.userId
  roles : ∀ userId teamId role, t.getUserRoleForTeam userId teamId = some role →
    start.getUserRoleForTeam userId teamId = some role ∨
      ∃ session ∈ sessions, start.getUserRoleForTeam session.userId teamId = some .admin

variable {sessions : List Session}

lemma Within.refl (owner : Uuid → ℤ) (sessions : List Session) (t : Tables) : Within owner sessions t t :=
  ⟨fun _ _ h => h, fun _ _ h => Or.inl h, fun _ _ _ h => Or.inl h⟩

/-- A role that is written by an admin of the team. -/
lemma Within.of_write (within : Within owner sessions start t) (here : session ∈ sessions) {teamId userId : ℤ}
    {written : Option Role} (admin : t.getUserRoleForTeam session.userId teamId = some .admin)
    (low : written ≠ some .admin)
    (roles : ∀ v team, t'.getUserRoleForTeam v team =
      if team = teamId ∧ v = userId then written else t.getUserRoleForTeam v team)
    (rooms : t'.teamRooms = t.teamRooms) : Within owner sessions start t' where
  admins v team has := by
    rw [roles] at has
    split at has
    · exact absurd has low
    · exact within.admins v team has
  rooms team room mem := within.rooms team room (rooms ▸ mem)
  roles v team role has := by
    rw [roles] at has
    split at has
    case isTrue same =>
      obtain ⟨rfl, rfl⟩ := same
      exact Or.inr ⟨session, here, within.admins _ _ admin⟩
    case isFalse => exact within.roles v team role has

lemma Within.does (within : Within owner sessions start t) (here : session ∈ sessions)
    (does : Does owner session t t' request) : Within owner sessions start t' := by
  cases does with
  | addMember admin parsed low roles rooms =>
    refine within.of_write here admin ?_ roles rooms
    rintro ⟨⟩
    exact absurd low (by decide)
  | updateMemberRole admin parsed low target row roles rooms =>
    refine within.of_write here admin ?_ roles rooms
    rintro ⟨⟩
    exact absurd low (by decide)
  | removeMember admin target roles rooms => exact within.of_write here admin (fun h => by cases h) roles rooms
  | addRoom admin owned roles rooms =>
    refine ⟨fun v team has => within.admins v team (roles v team ▸ has), fun team room mem => ?_,
      fun v team role has => within.roles v team role (roles v team ▸ has)⟩
    rcases (rooms _).1 mem with same | mem
    · cases same
      exact Or.inr ⟨session, here, owned⟩
    · exact within.rooms team room mem
  | removeRoom admin parsed roles rooms =>
    exact ⟨fun v team has => within.admins v team (roles v team ▸ has),
      fun team room mem => within.rooms team room ((rooms _).1 mem).2,
      fun v team role has => within.roles v team role (roles v team ▸ has)⟩

end

end ArchipelagoXL.Tools.Teams
