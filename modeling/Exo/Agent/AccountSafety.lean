import Exo.Agent.Accounts

/-!
# Who can give which permission

An account has a permission by an override, and without one by its role. No override is ever made
for a master, so a master has all permissions there are by role; an account that changes roles
comes to have nothing else. What is left are the two requests that look at no permission but their
own: to override one, and to make an account.
-/

namespace Exo.Accounts

open Lib

namespace AuthDb

variable {db : AuthDb} {user : AuthUser} {userId : Int} {permission : String}

theorem mem_foldl_overrides (rows : List (String × Bool)) (hnd : (rows.map Prod.fst).Nodup)
    (base : List String) : permission ∈ rows.foldl (fun permissions row =>
        if row.2 then permissions ++ [row.1] else permissions.filter (· ≠ row.1)) base ↔
      match rows.lookup permission with
      | some allowed => allowed = true
      | none => permission ∈ base := by
  induction rows generalizing base with
  | nil => rfl
  | cons row rows ih =>
      obtain ⟨p, allowed⟩ := row
      obtain ⟨hp, hrows⟩ := List.nodup_cons.mp hnd
      rw [List.foldl_cons, ih hrows]
      by_cases heq : permission = p
      · subst heq
        have hnone : rows.lookup permission = none := by
          rw [List.lookup_eq_none_iff]
          intro row hrow
          have hne : permission ≠ row.1 := fun h =>
            hp (List.mem_map.mpr ⟨row, hrow, h.symm⟩)
          simpa using hne
        rw [hnone, List.lookup_cons_self]
        cases allowed <;> simp
      · have hlookup : ((p, allowed) :: rows).lookup permission = rows.lookup permission := by
          rw [List.lookup_cons, beq_eq_false_iff_ne.mpr heq]
        rw [hlookup]
        cases rows.lookup permission with
        | some allowed' => rfl
        | none => cases allowed <;> simp [heq]

theorem get?_overridesOf (db : AuthDb) (userId : Int) (permission : String) :
    (db.overridesOf userId).get? permission = db.overrides.get? (userId, permission) := by
  refine Option.ext fun allowed => ?_
  rw [← Dict.mem_entries, ← Dict.mem_entries]
  simp [overridesOf]

/-- An override decides; without one the role does. -/
theorem mem_permissions : permission ∈ db.permissions user ↔
    match db.overrides.get? (user.userId, permission) with
    | some allowed => allowed = true
    | none => permission ∈ permissionsUpTo user.role := by
  rw [← get?_overridesOf]
  exact mem_foldl_overrides _ (db.overridesOf user.userId).nodup _

theorem getUser_eq_ok : db.getUser userId = .ok user ↔
    ∃ row, db.users.get? userId = some row ∧
      user = ⟨userId, row.username, row.role, row.disabled⟩ := by
  unfold getUser
  cases hrow : db.users.get? userId with
  | none => simp
  | some row =>
      simp only [Except.ok.injEq, Option.some.injEq, exists_eq_left']
      exact eq_comm

/-- What an account of the role has, with its overrides. -/
def Granted (db : AuthDb) (userId : Int) (role : Role) (permission : String) : Prop :=
  match db.overrides.get? (userId, permission) with
  | some allowed => allowed = true
  | none => permission ∈ permissionsUpTo role

theorem holds_iff : db.Holds userId permission ↔
    ∃ row, db.users.get? userId = some row ∧ db.Granted userId row.role permission := by
  constructor
  · rintro ⟨user, huser, hp⟩
    obtain ⟨row, hrow, rfl⟩ := getUser_eq_ok.1 huser
    exact ⟨row, hrow, mem_permissions.1 hp⟩
  · rintro ⟨row, hrow, hp⟩
    exact ⟨_, getUser_eq_ok.2 ⟨row, hrow, rfl⟩, mem_permissions.2 hp⟩

end AuthDb

open AuthDb (permissionsUpTo mem_permissions getUser_eq_ok Granted holds_iff)

theorem permissionsUpTo_mono {r r' : Role} (h : roleRank r ≤ roleRank r') :
    permissionsUpTo r ⊆ permissionsUpTo r' := by
  intro permission hp
  obtain ⟨q, hq, hp⟩ := List.mem_flatMap.mp hp
  refine List.mem_flatMap.mpr ⟨q, hq, ?_⟩
  by_cases hle : roleRank q ≤ roleRank r
  · rw [if_pos hle] at hp
    rwa [if_pos (hle.trans h)]
  · rw [if_neg hle] at hp
    exact absurd hp List.not_mem_nil

/-! ## What a request can do -/

/-- The accounts after a call that was allowed. -/
inductive Changed (db : AuthDb) (actor : AuthUser) : AccountCall → AuthDb → Prop
  | created {username password name : Text} {role : String} {r : Role}
      (named : roleNamed role = some r) :
      Changed db actor (.createUser username password role)
        { db with users := db.users.set db.nextId ⟨name, r, false⟩, nextId := db.nextId + 1 }
  | role {userId : Int} {role : String} {r : Role} {row : UserRow}
      (named : roleNamed role = some r) (target : db.users.get? userId = some row)
      (outranked : roleRank row.role < roleRank actor.role) (above : roleRank r < roleRank actor.role) :
      Changed db actor (.updateRole userId role)
        { db with users := db.users.set userId ⟨row.username, r, row.disabled⟩ }
  | permission {userId : Int} {permission : String} {allowed : Bool} {row : UserRow}
      (target : db.users.get? userId = some row)
      (outranked : roleRank row.role < roleRank actor.role) :
      Changed db actor (.updatePermission userId permission allowed)
        { db with overrides := db.overrides.set (userId, permission) allowed }
  | status {userId : Int} {disabled : Bool} {row : UserRow}
      (target : db.users.get? userId = some row)
      (outranked : roleRank row.role < roleRank actor.role) :
      Changed db actor (.updateUserStatus userId disabled)
        { db with users := db.users.set userId ⟨row.username, row.role, disabled⟩ }

theorem orElse_eq_ok {α : Type} {n : Nat} {x : Except AuthError α} {a : α} :
    orElse n x = .ok a ↔ x = .ok a := by
  cases x <;> simp [orElse]

theorem map_eq_ok {ε α β : Type} {f : α → β} {x : Except ε α} {b : β} :
    x.map f = .ok b ↔ ∃ a, x = .ok a ∧ f a = b := by
  cases x <;> simp [Except.map]

variable {str : StrMethods} {authDisabled : Bool} {db : AuthDb} {request : AccountRequest}
  {actor : AuthUser}

variable {call : AccountCall} {result : AccountReply × AuthDb}

theorem changed_of_serve
    (h : call.serve str db actor = .ok result) : Changed db actor call result.2 := by
  cases call with
  | createUser username password role =>
      simp only [AccountCall.serve] at h
      split at h
      · cases h
      · rename_i r hnamed
        split at h
        · cases h
        · obtain ⟨made, hmade, rfl⟩ := map_eq_ok.1 h
          obtain ⟨name, -, hmade⟩ := bind_eq_ok.1 (orElse_eq_ok.1 hmade)
          obtain ⟨-, -, hmade⟩ := bind_eq_ok.1 hmade
          split at hmade
          · cases hmade
          · cases hmade
            exact .created hnamed
  | updateRole userId role =>
      simp only [AccountCall.serve] at h
      split at h
      · cases h
      · rename_i r hnamed
        obtain ⟨made, hmade, rfl⟩ := map_eq_ok.1 h
        obtain ⟨target, htarget, hmade⟩ := bind_eq_ok.1 (orElse_eq_ok.1 hmade)
        obtain ⟨row, hrow, rfl⟩ := getUser_eq_ok.1 htarget
        split at hmade
        · cases hmade
        · rename_i hrank
          cases hmade
          rw [not_or, not_le, not_le] at hrank
          exact .role hnamed hrow hrank.1 hrank.2
  | updatePermission userId permission allowed | updateUserStatus userId disabled =>
      obtain ⟨made, hmade, rfl⟩ := map_eq_ok.1 h
      obtain ⟨target, htarget, hmade⟩ := bind_eq_ok.1 (orElse_eq_ok.1 hmade)
      obtain ⟨row, hrow, rfl⟩ := getUser_eq_ok.1 htarget
      split at hmade
      · cases hmade
      · rename_i hrank
        cases hmade
        constructor
        · exact hrow
        · exact Nat.not_le.mp hrank

theorem changed_of_handle
    (hid : requestIdentity authDisabled db request = .ok actor)
    (h : handle str authDisabled db request = .ok result) :
    Changed db actor request.call result.2 := by
  obtain ⟨actor', hrequire, hserve⟩ := bind_eq_ok.1 h
  obtain ⟨user, hid', hrequire⟩ := bind_eq_ok.1 hrequire
  obtain rfl := Except.ok.inj (hid.symm.trans hid')
  split at hrequire
  · cases hrequire
  · obtain ⟨-, -, hrequire⟩ := bind_eq_ok.1 hrequire
    cases hrequire
    exact changed_of_serve hserve

/-! ## The accounts stay in order -/

/-- Accounts are numbered from 1 on, and nothing is overridden for a master. -/
structure Sound (db : AuthDb) : Prop where
  numbered : ∀ userId row, db.users.get? userId = some row → 0 < userId ∧ userId < db.nextId
  positive : 0 < db.nextId
  overridden : ∀ userId permission allowed,
    db.overrides.get? (userId, permission) = some allowed →
      ∃ row, db.users.get? userId = some row ∧ row.role ≠ .master

variable (accounts : FreshAccounts)

theorem sound_fresh : Sound accounts.toAuthDb where
  numbered userId row h :=
    accounts.numbered userId (Dict.mem_keys.2 (Option.isSome_of_mem h))
  positive := accounts.positive
  overridden userId permission allowed h := by
    rw [accounts.plain, Dict.get?_empty] at h
    cases h

variable {r : Role}

theorem roleNamed_ne_master {role : String} (h : roleNamed role = some r) :
    r ≠ .master := by
  unfold roleNamed at h
  split at h <;> cases h <;> decide

/-- Nobody ranks above a master. -/
theorem ne_master_of_lt {r r' : Role} (h : roleRank r < roleRank r') : r ≠ .master := by
  rintro rfl
  cases r' <;> exact absurd h (by decide)

variable {db' : AuthDb}

theorem Sound.changed (hs : Sound db)
    (h : Changed db actor call db') : Sound db' := by
  have hset : ∀ {userId : Int} {row row' : UserRow}, db.users.get? userId = some row →
      row'.role ≠ .master → Sound { db with users := db.users.set userId row' } := by
    intro userId row row' hrow hrole
    refine ⟨fun id r hr => ?_, hs.positive, fun id permission allowed ho => ?_⟩
    · rw [Dict.get?_set] at hr
      split at hr
      · rename_i heq
        exact heq ▸ hs.numbered userId row hrow
      · exact hs.numbered id r hr
    · obtain ⟨r, hr, hne⟩ := hs.overridden id permission allowed ho
      by_cases heq : id = userId
      · exact ⟨row', by rw [heq]; exact Dict.get?_set_self _ _ _, hrole⟩
      · exact ⟨r, (Dict.get?_set_ne _ _ heq).trans hr, hne⟩
  cases h with
  | @created username password name role r named =>
      refine ⟨fun id row hrow => ?_, ?_, fun id permission allowed ho => ?_⟩
      · rw [Dict.get?_set] at hrow
        have hpos := hs.positive
        split at hrow
        · simp only
          omega
        · have hold := hs.numbered id row hrow
          simp only
          omega
      · have hpos := hs.positive
        simp only
        omega
      · obtain ⟨row, hrow, hne⟩ := hs.overridden id permission allowed ho
        have hlt := (hs.numbered id row hrow).2
        exact ⟨row, (Dict.get?_set_ne _ _ (by omega)).trans hrow, hne⟩
  | role named target outranked above => exact hset target (roleNamed_ne_master named)
  | @permission userId permission allowed row target outranked =>
      refine ⟨hs.numbered, hs.positive, fun id p b ho => ?_⟩
      rw [Dict.get?_set] at ho
      split at ho
      · rename_i heq
        obtain ⟨rfl, -⟩ := Prod.mk.inj heq
        exact ⟨row, target, ne_master_of_lt outranked⟩
      · exact hs.overridden id p b ho
  | @status userId disabled row target outranked => exact hset target (ne_master_of_lt outranked)

/-! ## What an account gives away -/

/-- Who asks is a stand-in of the highest role, or one of the accounts. -/
theorem identity_cases (h : requestIdentity authDisabled db request = .ok actor) :
    actor = testMaster ∨ ∃ row, db.users.get? actor.userId = some row ∧ row.role = actor.role := by
  unfold requestIdentity at h
  split at h
  · exact .inl (Except.ok.inj h).symm
  · split at h
    · cases h
    · split at h
      · cases h
      · rename_i user huser
        split at h
        · cases h
        · obtain ⟨row, hrow, rfl⟩ := getUser_eq_ok.1 huser
          cases h
          exact .inr ⟨row, hrow, rfl⟩

variable {permission : String}

/-- A master has all permissions there are by role. -/
theorem Sound.mem_of_master (hs : Sound db)
    (hid : requestIdentity authDisabled db request = .ok actor) (hrole : actor.role = .master)
    (hp : permission ∈ permissionsUpTo r) :
    permission ∈ db.permissions actor := by
  have hnone : db.overrides.get? (actor.userId, permission) = none := by
    cases hget : db.overrides.get? (actor.userId, permission) with
    | none => rfl
    | some allowed =>
        obtain ⟨row, hrow, hne⟩ := hs.overridden _ _ _ hget
        rcases identity_cases hid with rfl | ⟨row', hrow', hsame⟩
        · exact absurd (hs.numbered _ _ hrow).1 (Int.lt_irrefl 0)
        · obtain rfl := Option.some.inj (hrow.symm.trans hrow')
          exact absurd (hsame.trans hrole) hne
  rw [mem_permissions, hnone, hrole]
  exact permissionsUpTo_mono (by cases r <;> decide) hp

theorem Sound.holds_actor (hid : requestIdentity authDisabled db request = .ok actor)
    (hrole : actor.role ≠ .master) :
    permission ∈ db.permissions actor → db.Holds actor.userId permission := by
  intro hp
  rcases identity_cases hid with rfl | ⟨row, hrow, hsame⟩
  · exact absurd rfl hrole
  · rw [mem_permissions] at hp
    exact holds_iff.2 ⟨row, hrow, by rw [hsame]; exact hp⟩

variable {row : UserRow}

/-- Who asks ranks above the account that is changed, and so is another one. -/
theorem Sound.target_ne (hs : Sound db)
    (hid : requestIdentity authDisabled db request = .ok actor) {userId : Int}
    (target : db.users.get? userId = some row) (outranked : roleRank row.role < roleRank actor.role) :
    userId ≠ actor.userId := by
  rintro rfl
  rcases identity_cases hid with rfl | ⟨row', hrow', hsame⟩
  · exact absurd (hs.numbered _ _ target).1 (Int.lt_irrefl 0)
  · obtain rfl := Option.some.inj (((target).symm).trans hrow')
    rw [hsame] at outranked
    exact absurd outranked (lt_irrefl _)

theorem Sound.next_ne (hs : Sound db)
    (hid : requestIdentity authDisabled db request = .ok actor) : db.nextId ≠ actor.userId := by
  intro heq
  rcases identity_cases hid with rfl | ⟨row, hrow, -⟩
  · have hpos := hs.positive
    rw [heq] at hpos
    exact Int.lt_irrefl 0 hpos
  · have hlt := (hs.numbered _ _ hrow).2
    omega

/-- Whose row is not touched has what it had. -/
theorem holds_of_other_row {userId id nextId : Int}
    (hne : id ≠ userId)
    (h : ({ db with users := db.users.set userId row, nextId := nextId } : AuthDb).Holds id
      permission) : db.Holds id permission := by
  obtain ⟨row', hrow', hp⟩ := holds_iff.1 h
  exact holds_iff.2 ⟨row', (Dict.get?_set_ne _ _ hne).symm.trans hrow', hp⟩

/-- How an account can come to have a permission that it did not have. -/
inductive Gained (db : AuthDb) (actor : AuthUser) (userId : Int) (permission : String) :
    AccountCall → Prop
  | had (call : AccountCall) (holds : db.Holds userId permission) :
      Gained db actor userId permission call
  | covered (call : AccountCall) (other : userId ≠ actor.userId)
      (mem : permission ∈ db.permissions actor) : Gained db actor userId permission call
  | created {username password : Text} {role : String} {r : Role} (other : userId ≠ actor.userId)
      (named : roleNamed role = some r) (mem : permission ∈ permissionsUpTo r) :
      Gained db actor userId permission (.createUser username password role)
  | granted (other : userId ≠ actor.userId) :
      Gained db actor userId permission (.updatePermission userId permission true)

theorem Sound.gained (hs : Sound db)
    (hid : requestIdentity authDisabled db request = .ok actor)
    (h : Changed db actor call db') {userId : Int}
    (hholds : db'.Holds userId permission) : Gained db actor userId permission call := by
  cases h with
  | @created username password name role r named =>
      by_cases heq : userId = db.nextId
      · obtain ⟨row, hrow, hp⟩ := holds_iff.1 hholds
        rw [heq, Dict.get?_set_self] at hrow
        cases hrow
        have hnone : db.overrides.get? (userId, permission) = none := by
          cases hget : db.overrides.get? (userId, permission) with
          | none => rfl
          | some allowed =>
              obtain ⟨row, hrow, -⟩ := hs.overridden _ _ _ hget
              have hlt := (hs.numbered _ _ hrow).2
              omega
        rw [Granted, hnone] at hp
        exact .created (heq ▸ hs.next_ne hid) named hp
      · exact .had _ (holds_of_other_row heq hholds)
  | @role id role r row named target outranked above =>
      by_cases heq : userId = id
      · subst heq
        have hother := hs.target_ne hid target outranked
        obtain ⟨row', hrow', hp⟩ := holds_iff.1 hholds
        rw [Dict.get?_set_self] at hrow'
        cases hrow'
        by_cases hmaster : actor.role = .master
        · -- a master has whatever there is by role
          cases hget : db.overrides.get? (userId, permission) with
          | some allowed =>
              refine .had _ (holds_iff.2 ⟨row, target, ?_⟩)
              rw [Granted, hget] at hp ⊢
              exact hp
          | none =>
              rw [Granted, hget] at hp
              exact .covered _ hother (hs.mem_of_master hid hmaster hp)
        · -- below a master, an account of the lowest role is all that can be made of one
          have hsame : r = row.role := by
            cases hrow : row.role <;> cases r <;> cases hactor : actor.role <;>
              simp_all [roleRank]
          rw [hsame] at hp
          exact .had _ (holds_iff.2 ⟨row, target, hp⟩)
      · exact .had _ (holds_of_other_row heq hholds)
  | @permission id p allowed row target outranked =>
      obtain ⟨row', hrow', hp⟩ := holds_iff.1 hholds
      by_cases heq : (userId, permission) = (id, p)
      · cases heq
        rw [Granted, Dict.get?_set_self] at hp
        obtain rfl : allowed = true := hp
        exact .granted (hs.target_ne hid target outranked)
      · refine .had _ (holds_iff.2 ⟨row', hrow', ?_⟩)
        rw [Granted, Dict.get?_set_ne _ _ heq] at hp
        exact hp
  | @status id disabled row target outranked =>
      by_cases heq : userId = id
      · subst heq
        obtain ⟨row', hrow', hp⟩ := holds_iff.1 hholds
        rw [Dict.get?_set_self] at hrow'
        cases hrow'
        exact .had _ (holds_iff.2 ⟨row, target, hp⟩)
      · exact .had _ (holds_of_other_row heq hholds)

/-- **A request gives nothing away exactly if what it grants is covered.** -/
theorem Sound.not_amplifies_iff (hs : Sound db) :
    ¬ Amplifies str authDisabled db request ↔ Covered str authDisabled db request := by
  constructor
  · intro hnot actor result hid hhandle
    by_contra hcovered
    refine hnot ⟨actor, result, hid, hhandle, ?_⟩
    have hchanged := changed_of_handle hid hhandle
    generalize request.call = call at hchanged hcovered
    obtain ⟨reply, db'⟩ := result
    cases hchanged with
    | @created username password name role r named =>
        simp only [named, Option.mem_def, Option.some.injEq, forall_eq'] at hcovered
        obtain ⟨permission, hp⟩ := not_forall.mp hcovered
        obtain ⟨hrole, hactor⟩ := Classical.not_imp.mp hp
        have hnew : ∀ row, db.users.get? db.nextId ≠ some row := fun row hrow =>
          Int.lt_irrefl _ (hs.numbered _ _ hrow).2
        have hnone : db.overrides.get? (db.nextId, permission) = none := by
          cases hget : db.overrides.get? (db.nextId, permission) with
          | none => rfl
          | some allowed =>
              obtain ⟨row, hrow, -⟩ := hs.overridden _ _ _ hget
              exact absurd hrow (hnew row)
        refine ⟨db.nextId, hs.next_ne hid, permission, holds_iff.2 ⟨_, Dict.get?_set_self _ _ _,
          ?_⟩, fun hheld => ?_, hactor⟩
        · rw [Granted, hnone]
          exact hrole
        · obtain ⟨row, hrow, -⟩ := holds_iff.1 hheld
          exact hnew row hrow
    | role named target outranked above => exact absurd trivial hcovered
    | @permission id p allowed row target outranked =>
        cases allowed with
        | false => exact absurd trivial hcovered
        | true =>
            obtain ⟨hactor, hheld⟩ := not_or.mp hcovered
            refine ⟨id, hs.target_ne hid target outranked, p, holds_iff.2 ⟨row, target, ?_⟩, hheld,
              hactor⟩
            rw [Granted, Dict.get?_set_self]
    | status target outranked => exact absurd trivial hcovered
  · rintro hcovered ⟨actor, result, hid, hhandle, userId, hne, permission, hholds, hheld, hactor⟩
    have hcov := hcovered actor result hid hhandle
    have hgained := hs.gained hid (changed_of_handle hid hhandle) hholds
    generalize request.call = call at hgained hcov
    cases hgained with
    | had call holds => exact hheld holds
    | covered call other mem => exact hactor mem
    | created other named mem => exact hactor (hcov _ named permission mem)
    | granted other => exact hcov.elim hactor hheld

/-! ## Any sequence of requests -/

theorem Sound.afterRequest (hs : Sound db) (request : AccountRequest) :
    Sound (afterRequest str authDisabled db request) := by
  unfold Accounts.afterRequest
  split
  · rename_i reply db' hhandle
    obtain ⟨actor, hrequire, -⟩ := bind_eq_ok.1 hhandle
    obtain ⟨user, hid, -⟩ := bind_eq_ok.1 hrequire
    exact hs.changed (changed_of_handle hid hhandle)
  · exact hs

theorem sound_afterRequests (requests : List AccountRequest) :
    Sound (afterRequests str authDisabled accounts.toAuthDb requests) := by
  induction requests using List.reverseRecOn with
  | nil => exact sound_fresh accounts
  | append_singleton requests request ih =>
      rw [afterRequests, List.foldl_append]
      exact ih.afterRequest request

theorem afterRequests_snoc (requests : List AccountRequest) (request : AccountRequest) :
    afterRequests str authDisabled db (requests ++ [request])
      = afterRequest str authDisabled (afterRequests str authDisabled db requests) request := by
  rw [afterRequests, List.foldl_append]
  rfl

/-- A permission of masters goes to nobody else, if only masters had it and no master asks. -/
structure MastersOnly (start db : AuthDb) : Prop where
  held : ∀ userId, ∀ permission ∈ rolePermissions .master, db.Holds userId permission →
    start.Holds userId permission
  master : ∀ userId row, db.users.get? userId = some row → row.role ≠ .master →
    ∀ permission ∈ rolePermissions .master, ¬ db.Holds userId permission

theorem not_mem_permissionsUpTo (hr : r ≠ .master)
    (hp : permission ∈ rolePermissions .master) : permission ∉ permissionsUpTo r := by
  revert permission
  cases r with
  | user => decide
  | admin => decide
  | master => exact absurd rfl hr

theorem mastersOnly_fresh :
    MastersOnly accounts.toAuthDb accounts.toAuthDb where
  held _ _ _ h := h
  master userId row hrow hrole permission hp h := by
    obtain ⟨row', hrow', hgranted⟩ := holds_iff.1 h
    obtain rfl := Option.some.inj (hrow.symm.trans hrow')
    rw [Granted, accounts.plain, Dict.get?_empty] at hgranted
    exact not_mem_permissionsUpTo hrole hp hgranted

theorem Sound.master_row (hs : Sound db)
    (h : Changed db actor call db') {userId : Int}
    (hrow : db.users.get? userId = some row) (hrole : row.role = .master) :
    db'.users.get? userId = some row := by
  have hother : ∀ {id : Int} {row' : UserRow}, db.users.get? id = some row' →
      roleRank row'.role < roleRank actor.role → userId ≠ id := by
    rintro id row' htarget hover rfl
    obtain rfl := Option.some.inj (hrow.symm.trans htarget)
    exact ne_master_of_lt hover hrole
  cases h with
  | created named =>
      have hlt := (hs.numbered _ _ hrow).2
      exact (Dict.get?_set_ne _ _ (by omega)).trans hrow
  | role named target outranked above
  | status target outranked => exact (Dict.get?_set_ne _ _ (hother target outranked)).trans hrow
  | permission target outranked => exact hrow

theorem MastersOnly.changed {start : AuthDb} (h : MastersOnly start db) (hs : Sound db)
    (hid : requestIdentity authDisabled db request = .ok actor)
    (hhandle : handle str authDisabled db request = .ok result) (hrole : actor.role ≠ .master)
    (hcovered : Covered str authDisabled db request) : MastersOnly start result.2 := by
  have hchanged := changed_of_handle hid hhandle
  have hactor : ∀ permission ∈ rolePermissions .master, permission ∉ db.permissions actor := by
    intro permission hp hmem
    rcases identity_cases hid with rfl | ⟨row, hrow, hsame⟩
    · exact hrole rfl
    · exact h.master _ row hrow (hsame ▸ hrole) permission hp (Sound.holds_actor hid hrole hmem)
  have hheld : ∀ userId, ∀ permission ∈ rolePermissions .master,
      result.2.Holds userId permission → db.Holds userId permission := by
    intro userId permission hp hholds
    have hcov := hcovered actor result hid hhandle
    have hgained := hs.gained hid hchanged hholds
    generalize request.call = call at hgained hcov
    cases hgained with
    | had call holds => exact holds
    | covered call other mem => exact absurd mem (hactor permission hp)
    | created other named mem =>
        exact absurd mem (not_mem_permissionsUpTo (roleNamed_ne_master named) hp)
    | granted other => exact hcov.resolve_left (hactor permission hp)
  refine ⟨fun userId permission hp hholds => h.held userId permission hp
    (hheld userId permission hp hholds), fun userId row' hrow' hne permission hp hholds => ?_⟩
  have hold := hheld userId permission hp hholds
  obtain ⟨row, hrow, -⟩ := holds_iff.1 hold
  by_cases hmaster : row.role = .master
  · obtain rfl := Option.some.inj ((hs.master_row hchanged hrow hmaster).symm.trans hrow')
    exact hne hmaster
  · exact h.master userId row hrow hmaster permission hp hold

/-- **Nothing is given away in a sequence of requests exactly if every grant in it is covered.** -/
theorem noAmplification_iff (str : StrMethods) (authDisabled : Bool) (accounts : FreshAccounts)
    (requests : List AccountRequest) :
    NoAmplification str authDisabled accounts requests ↔
      ∀ before request after, requests = before ++ request :: after →
        Covered str authDisabled
          (afterRequests str authDisabled accounts.toAuthDb before) request := by
  have hsound := @sound_afterRequests str authDisabled accounts
  constructor
  · exact fun h before request after heq =>
      (hsound before).not_amplifies_iff.mp (h.steps before request after heq)
  · intro hcovered
    refine ⟨fun before request after heq =>
      (hsound before).not_amplifies_iff.mpr (hcovered before request after heq), fun hnone => ?_⟩
    suffices hmasters : MastersOnly accounts.toAuthDb
        (afterRequests str authDisabled accounts.toAuthDb requests) from hmasters.held
    induction requests using List.reverseRecOn with
    | nil => exact mastersOnly_fresh accounts
    | append_singleton requests request ih =>
        have hbefore := ih
          (fun before r after heq => hcovered before r (after ++ [request]) (by simp [heq]))
          (fun before r after heq => hnone before r (after ++ [request]) (by simp [heq]))
        rw [afterRequests_snoc]
        unfold afterRequest
        split
        · rename_i reply db' hhandle
          obtain ⟨actor, hrequire, -⟩ := bind_eq_ok.mp hhandle
          obtain ⟨user, hid, -⟩ := bind_eq_ok.mp hrequire
          exact hbefore.changed (hsound requests) hid hhandle
            (hnone requests request [] rfl user hid) (hcovered requests request [] rfl)
        · exact hbefore

/-- An admin can give a user what only masters have. -/
theorem not_forall_noAmplification : ¬ ∀ (str : StrMethods) (authDisabled : Bool)
    (accounts : FreshAccounts) (requests : List AccountRequest),
    NoAmplification str authDisabled accounts requests := by
  intro h
  let users : Dict Int UserRow :=
    ((Dict.empty.set 1 ⟨[109], .master, false⟩).set 2 ⟨[97], .admin, false⟩).set 3
      ⟨[117], .user, false⟩
  let accounts : FreshAccounts :=
    { users, overrides := Dict.empty, nextId := 4, numbered := by decide, positive := by decide,
      plain := rfl }
  let request : AccountRequest :=
    { session := some 2, csrf := true, call := .updatePermission 3 "system:manage" true }
  let str : StrMethods := { lower := id, isAlnum := fun _ => true, encodeError := fun _ => "" }
  have hcovered := (sound_fresh accounts).not_amplifies_iff.mp
    ((h str false accounts [request]).steps [] request [] rfl) ⟨2, [97], .admin, false⟩ _ rfl rfl
  rcases hcovered with hmem | ⟨user, huser, hmem⟩
  · revert hmem
    decide
  · cases huser
    revert hmem
    decide

end Exo.Accounts
