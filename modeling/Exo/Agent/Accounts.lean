import Exo.Lib.Dict
import Exo.Lib.Fallible
import Exo.Lib.Text

/-!
# Accounts and their permissions

An account has a role, and permissions by role, which can be overridden one by one. The endpoints
that manage accounts check one permission of the account that asks, and the service compares the
two roles.

Passwords, login sessions and the links to Google accounts are left out: a request says whose
session it comes with. What Python's `str` knows of Unicode is a parameter.
-/

namespace Exo.Accounts

open Lib

inductive Role where
  | user
  | admin
  | master
deriving DecidableEq

def roles : List Role := [.user, .admin, .master]

def roleRank : Role → Nat
  | .user => 1
  | .admin => 2
  | .master => 3

def rolePermissions : Role → List String
  | .user => ["chat:read", "chat:write", "resources:read", "resources:update", "account:password"]
  | .admin => ["users:read", "users:create", "users:update", "permissions:update", "cluster:manage"]
  | .master => ["admins:create", "admins:update", "system:manage"]

structure AuthUser where
  userId : Int
  username : Text
  role : Role
  disabled : Bool
deriving DecidableEq

/-- A row of `users`, without its key. -/
structure UserRow where
  username : Text
  role : Role
  disabled : Bool := false
deriving DecidableEq

structure AuthDb where
  users : Dict Int UserRow
  /-- `permission_overrides` -/
  overrides : Dict (Int × String) Bool
  /-- The next `user_id`. -/
  nextId : Int

structure HTTPException where
  statusCode : Nat
  detail : String
deriving DecidableEq

/-- What is raised below the endpoints, with its text. -/
inductive AuthError where
  | keyError (text : String)
  | permissionError (text : String)
  | valueError (text : String)
  | integrityError (text : String)

def AuthError.text : AuthError → String
  | .keyError text | .permissionError text | .valueError text | .integrityError text => text

/-- What `str` and its encoder do. -/
structure StrMethods where
  lower : Text → Text
  isAlnum : CodePoint → Bool
  /-- The text of a `UnicodeEncodeError`. -/
  encodeError : Text → String

namespace AuthDb

variable (db : AuthDb)

def getUser (userId : Int) : Except AuthError AuthUser :=
  match db.users.get? userId with
  | none => .error (.keyError s!"'user not found: {userId}'")
  | some row => .ok ⟨userId, row.username, row.role, row.disabled⟩

/-- The permissions of all roles up to this one. -/
def permissionsUpTo (role : Role) : List String :=
  roles.flatMap fun r => if roleRank r ≤ roleRank role then rolePermissions r else []

/-- The rows of `permission_overrides` of an account. -/
def overridesOf (userId : Int) : Dict String Bool where
  entries := (db.overrides.entries.filter fun row => row.1.1 = userId).map
    fun row => (row.1.2, row.2)
  nodup := by
    have hnd : ((db.overrides.entries.filter fun row => row.1.1 = userId).map Prod.fst).Nodup :=
      db.overrides.nodup.sublist (List.filter_sublist.map Prod.fst)
    rw [List.map_map]
    refine (List.nodup_map_iff_inj_on (hnd.of_map _)).mpr fun row hrow row' hrow' heq => ?_
    have hid := of_decide_eq_true (List.mem_filter.mp hrow).2
    have hid' := of_decide_eq_true (List.mem_filter.mp hrow').2
    exact List.inj_on_of_nodup_map hnd hrow hrow' (Prod.ext (hid.trans hid'.symm) heq)

def permissions (user : AuthUser) : List String :=
  (db.overridesOf user.userId).entries.foldl
    (fun permissions row =>
      if row.2 then permissions ++ [row.1] else permissions.filter (· ≠ row.1))
    (permissionsUpTo user.role)

def require (user : AuthUser) (permission : String) : Except AuthError Unit :=
  if permission ∈ db.permissions user then .ok ()
  else .error (.permissionError s!"permission required: {permission}")

def setRole (actor : AuthUser) (targetUserId : Int) (role : Role) :
    Except AuthError (AuthUser × AuthDb) := do
  let target ← db.getUser targetUserId
  if roleRank actor.role ≤ roleRank target.role ∨ roleRank actor.role ≤ roleRank role then
    throw (.permissionError "cannot manage an equal or higher role")
  return ({ target with role },
    { db with users := db.users.set targetUserId ⟨target.username, role, target.disabled⟩ })

def setDisabled (actor : AuthUser) (targetUserId : Int) (disabled : Bool) :
    Except AuthError (AuthUser × AuthDb) := do
  let target ← db.getUser targetUserId
  if roleRank actor.role ≤ roleRank target.role then
    throw (.permissionError "cannot manage an equal or higher role")
  return ({ target with disabled },
    { db with users := db.users.set targetUserId ⟨target.username, target.role, disabled⟩ })

def setPermission (actor : AuthUser) (targetUserId : Int) (permission : String) (allowed : Bool) :
    Except AuthError AuthDb := do
  let target ← db.getUser targetUserId
  if roleRank actor.role ≤ roleRank target.role then
    throw (.permissionError "cannot manage an equal or higher role")
  return { db with overrides := db.overrides.set (targetUserId, permission) allowed }

end AuthDb

def utf8Length (t : Text) : Nat :=
  (t.map fun c => if c.val < 0x80 then 1 else if c.val < 0x800 then 2
    else if c.val < 0x10000 then 3 else 4).sum

section

variable (str : StrMethods)

/-- `_validate_username` -/
def validateUsername (username : Text) : Except AuthError Text :=
  let normalized := str.lower username.strip
  if ¬ (3 ≤ normalized.length ∧ normalized.length ≤ 32) then
    .error (.valueError "username must be 3-32 characters")
  else if ¬ normalized.all (fun c => str.isAlnum c || c.val = 0x5F || c.val = 0x2D) then
    .error (.valueError "username may only contain letters, numbers, '_' and '-'")
  else .ok normalized

/-- `_validate_password` -/
def validatePassword (password : Text) : Except AuthError Unit :=
  if password.length < 12 then .error (.valueError "password must be at least 12 characters")
  else if ¬ password.Encodable then .error (.valueError (str.encodeError password))
  else if 256 < utf8Length password then .error (.valueError "password is too long")
  else .ok ()

namespace AuthDb

def createUser (db : AuthDb) (username password : Text) (role : Role) :
    Except AuthError (AuthUser × AuthDb) := do
  let normalized ← validateUsername str username
  validatePassword str password
  if db.users.values.any fun row => row.username = normalized then
    throw (.integrityError "UNIQUE constraint failed: users.username")
  return (⟨db.nextId, normalized, role, false⟩,
    { db with users := db.users.set db.nextId ⟨normalized, role, false⟩, nextId := db.nextId + 1 })

end AuthDb

end

/-! ## The endpoints -/

/-- What an account asks for. A role is any string. -/
inductive AccountCall where
  | createUser (username password : Text) (role : String)
  | updateRole (userId : Int) (role : String)
  | updatePermission (userId : Int) (permission : String) (allowed : Bool)
  | updateUserStatus (userId : Int) (disabled : Bool)

structure AccountRequest where
  /-- The `user_id` of the login session that comes with the request and has not expired. -/
  session : Option Int
  /-- The request has the CSRF token of the session. -/
  csrf : Bool
  call : AccountCall

inductive AccountReply where
  | user (user : AuthUser)
  | ok
deriving DecidableEq

/-- The roles that a request can name. -/
def roleNamed : String → Option Role
  | "user" => some .user
  | "admin" => some .admin
  | _ => none

/-- An error below an endpoint, as what the endpoint answers. -/
def orElse {α : Type} (statusCode : Nat) : Except AuthError α → Except HTTPException α
  | .ok a => .ok a
  | .error e => .error ⟨statusCode, e.text⟩

section

variable (str : StrMethods) (authDisabled : Bool) (db : AuthDb)

def testMaster : AuthUser := ⟨0, Text.of "test-master", .master, false⟩

/-- `request_identity`, of which `user_for_session` wants an account that is not disabled. -/
def requestIdentity (request : AccountRequest) : Except HTTPException AuthUser :=
  if authDisabled then .ok testMaster
  else
    match request.session with
    | none => .error ⟨401, "authenticated session required"⟩
    | some userId =>
      match db.getUser userId with
      | .error _ => .error ⟨401, "authenticated session required"⟩
      | .ok user =>
        if user.disabled then .error ⟨401, "authenticated session required"⟩ else .ok user

/-- `require(request, permission, csrf=True)` -/
def requireCsrf (request : AccountRequest) (permission : String) :
    Except HTTPException AuthUser := do
  let user ← requestIdentity authDisabled db request
  if ¬ authDisabled ∧ ¬ request.csrf then
    throw ⟨403, "invalid CSRF token"⟩
  orElse 403 (db.require user permission)
  return user

/-- The permission that the endpoint of a call requires. -/
def AccountCall.permission : AccountCall → String
  | .createUser .. => "users:create"
  | .updateRole .. => "users:update"
  | .updatePermission .. => "permissions:update"
  | .updateUserStatus .. => "users:update"

/-- What an endpoint does for an account that may ask for it. -/
def AccountCall.serve (actor : AuthUser) :
    AccountCall → Except HTTPException (AccountReply × AuthDb)
  | .createUser username password role =>
    match roleNamed role with
    | none => .error ⟨400, "role must be user or admin"⟩
    | some role =>
      if role = .admin ∧ actor.role ≠ .master then .error ⟨403, "only master can create admins"⟩
      else (orElse 400 (db.createUser str username password role)).map
        fun result => (.user result.1, result.2)
  | .updateRole userId role =>
    match roleNamed role with
    | none => .error ⟨400, "role must be user or admin"⟩
    | some role =>
      (orElse 403 (db.setRole actor userId role)).map fun result => (.user result.1, result.2)
  | .updatePermission userId permission allowed =>
    (orElse 403 (db.setPermission actor userId permission allowed)).map fun db => (.ok, db)
  | .updateUserStatus userId disabled =>
    (orElse 403 (db.setDisabled actor userId disabled)).map
      fun result => (.user result.1, result.2)

def handle (request : AccountRequest) : Except HTTPException (AccountReply × AuthDb) := do
  let actor ← requireCsrf authDisabled db request request.call.permission
  request.call.serve str db actor

/-- The accounts behind a request. A request that fails changes nothing. -/
def afterRequest (request : AccountRequest) : AuthDb :=
  match handle str authDisabled db request with
  | .ok (_, db') => db'
  | .error _ => db

end

def afterRequests (str : StrMethods) (authDisabled : Bool) (db : AuthDb)
    (requests : List AccountRequest) : AuthDb :=
  requests.foldl (afterRequest str authDisabled) db

/-- An account has the permission. -/
def AuthDb.Holds (db : AuthDb) (userId : Int) (permission : String) : Prop :=
  ∃ user, db.getUser userId = .ok user ∧ permission ∈ db.permissions user

/-- Accounts that nothing was overridden for yet. -/
structure FreshAccounts extends AuthDb where
  numbered : ∀ userId ∈ users.keys, 0 < userId ∧ userId < nextId
  positive : 0 < nextId
  plain : overrides = Dict.empty

section

variable (str : StrMethods) (authDisabled : Bool)

/-- The request gives another account a permission that the account that asks does not have. -/
def Amplifies (db : AuthDb) (request : AccountRequest) : Prop :=
  ∃ actor result, requestIdentity authDisabled db request = .ok actor ∧
    handle str authDisabled db request = .ok result ∧
    ∃ userId, userId ≠ actor.userId ∧ ∃ permission, result.2.Holds userId permission ∧
      ¬ db.Holds userId permission ∧ permission ∉ db.permissions actor

/-- No request gives away what its account does not have, and requests of accounts that are not
master give no account a permission of masters. -/
structure NoAmplification (accounts : FreshAccounts) (requests : List AccountRequest) :
    Prop where
  steps : ∀ before request after, requests = before ++ request :: after →
    ¬ Amplifies str authDisabled (afterRequests str authDisabled accounts.toAuthDb before) request
  masterOnly : (∀ before request after, requests = before ++ request :: after → ∀ actor,
      requestIdentity authDisabled (afterRequests str authDisabled accounts.toAuthDb before)
        request = .ok actor → actor.role ≠ .master) →
    ∀ userId, ∀ permission ∈ rolePermissions .master,
      (afterRequests str authDisabled accounts.toAuthDb requests).Holds userId permission →
        accounts.Holds userId permission

/-- A permission that is granted is one that the account has that grants it, or that the other has
already; and who makes an account has all permissions of its role. -/
def Covered (db : AuthDb) (request : AccountRequest) : Prop :=
  ∀ actor result, requestIdentity authDisabled db request = .ok actor →
    handle str authDisabled db request = .ok result →
    match request.call with
    | .createUser _ _ role => ∀ r ∈ roleNamed role, ∀ permission ∈ AuthDb.permissionsUpTo r,
        permission ∈ db.permissions actor
    | .updatePermission userId permission true =>
      permission ∈ db.permissions actor ∨ db.Holds userId permission
    | _ => True

end

end Exo.Accounts
