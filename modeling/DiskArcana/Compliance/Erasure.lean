import DiskArcana.Compliance.Schema
import DiskArcana.Lib.Trace

/-!
# Deleting an account

`POST /compliance/delete-account` sends one statement after the other: the consents of the user, the analytics
preference, the account itself, and, when it was the last one of its tenant, a purge of the tenant's
metadata in one transaction. It should erase everything or nothing (`ErasureLaw`). It does exactly on
the databases in which the user and the tenant have left rows in the listed tables only, and in which
nothing is deleted before a statement that is going to fail (`erasureLaw_iff`).
-/

namespace DiskArcana.Compliance

open DiskArcana.Lib.Relational DiskArcana.Accounts

/-! ## The handler -/

structure DeleteAccountResponse where
  deleted : Bool
  userId : Text
  tenantPurged : Bool
  deriving DecidableEq

/-- Which statements the database answers without an error of its own. Violated foreign keys are errors
as well. -/
structure Statements where
  deleteConsentEvents : Bool
  deleteUserTelemetry : Bool
  deleteUser : Bool
  countUsers : Bool
  purgeTenant : Bool

def namesUser (userId : Text) (r : ControlRow) : Bool := r .userId = text userId

def namesTenant (tenantId : Text) (r : ControlRow) : Bool := r .tenantId = text tenantId

def hasId (userId : Text) (r : ControlRow) : Bool := r .id = text userId

/-- The tables of `purge_tenant_metadata`, in its order. -/
def purgedTables : List TableName :=
  [.conflicts, .nodeBaselines, .tombstones, .files, .nodes, .tenantVaults, .tenantBilling,
    .pendingEnrollments, .consentEvents, .fileVersions]

/-- Source: `meta_db/compliance.rs`, `purge_tenant_metadata` -/
def purgeTenantMetadata (d : ControlDb) (tenantId : Text) : Option ControlDb :=
  purgedTables.foldlM (fun d t => deleteWhere schema d t (namesTenant tenantId)) d

/-- Source: `meta_db/compliance.rs`, `count_users_for_tenant` -/
def countUsersForTenant (d : ControlDb) (tenantId : Text) : ℕ :=
  (d .userAccounts).countP (namesTenant tenantId)

def databaseError : Refusal := (.internalServerError, "database error")

/-- A statement that deletes, unless the database fails. -/
def deleteStatement (ok : Bool) (d : ControlDb) (t : TableName) (p : ControlRow → Bool) :
    Option ControlDb :=
  if ok then deleteWhere schema d t p else none

/-- The second half of the handler: the account, and the tenant after its last user. -/
def deleteUserAndPurge (d : ControlDb) (user : UserAccount) (ok : Statements) :
    Answer DeleteAccountResponse × ControlDb :=
  let removed := (d .userAccounts).any (hasId user.id)
  match deleteStatement ok.deleteUser d .userAccounts (hasId user.id) with
  | none => (.error databaseError, d)
  | some d =>
    if removed then
      if ok.countUsers then
        if countUsersForTenant d user.tenantId = 0 then
          match if ok.purgeTenant then purgeTenantMetadata d user.tenantId else none with
          | none => (.error databaseError, d)
          | some d => (.ok ⟨true, user.id, true⟩, d)
        else (.ok ⟨true, user.id, false⟩, d)
      else (.error databaseError, d)
    else (.error (.notFound, "user not found"), d)

/-- `caller` is the user that the bearer token resolves to.
Source: `compliance/routes.rs`, `delete_account_inner` -/
def deleteAccountInner (d : ControlDb) (caller : Answer UserAccount) (confirmEmail : Text)
    (ok : Statements) : Answer DeleteAccountResponse × ControlDb :=
  match caller with
  | .error e => (.error e, d)
  | .ok user =>
    if normalizeEmail confirmEmail ≠ user.email then (.error (.badRequest, "confirm_email mismatch"), d)
    else match deleteStatement ok.deleteConsentEvents d .consentEvents (namesUser user.id) with
    | none => (.error databaseError, d)
    | some d =>
      match deleteStatement ok.deleteUserTelemetry d .userTelemetry (namesUser user.id) with
      | none => (.error databaseError, d)
      | some d => deleteUserAndPurge d user ok

/-! ## The law -/

/-- A row of the table names the user. -/
def NamesUser (userId : Text) (t : TableName) (r : ControlRow) : Prop :=
  ∃ c ∈ t.userColumns, r c = text userId

/-- Everything is erased, or nothing is changed. -/
structure ErasureLaw (d : ControlDb) (caller : Answer UserAccount) (confirmEmail : Text)
    (ok : Statements) : Prop where
  erased : ∀ user, caller = .ok user → ∀ resp,
    (deleteAccountInner d caller confirmEmail ok).1 = .ok resp →
      ∀ t, ∀ r ∈ (deleteAccountInner d caller confirmEmail ok).2 t, ¬ NamesUser user.id t r
  purged : ∀ user, caller = .ok user → ∀ resp,
    (deleteAccountInner d caller confirmEmail ok).1 = .ok resp → resp.tenantPurged = true →
      ∀ t, t.isTenantScoped = true → ∀ r ∈ (deleteAccountInner d caller confirmEmail ok).2 t,
        namesTenant user.tenantId r = false
  atomic : ∀ e, (deleteAccountInner d caller confirmEmail ok).1 = .error e →
    (deleteAccountInner d caller confirmEmail ok).2 = d

/-! ## The condition -/

/-- The user's row is there, and no other row refers to it. -/
def Deletable (d : ControlDb) (userId : Text) : Prop :=
  (∃ r ∈ d .userAccounts, hasId userId r = true) ∧
    ∀ fk ∈ userReferences, ∀ r ∈ d fk.child, r fk.column ≠ text userId

/-- The user is the only one of the tenant. -/
def IsLast (d : ControlDb) (user : UserAccount) : Prop :=
  ∀ r ∈ d .userAccounts, namesTenant user.tenantId r = true → hasId user.id r = true

instance (d : ControlDb) (userId : Text) : Decidable (Deletable d userId) := by
  unfold Deletable
  infer_instance

instance (d : ControlDb) (user : UserAccount) : Decidable (IsLast d user) := by
  unfold IsLast
  infer_instance

instance (userId : Text) (t : TableName) (r : ControlRow) : Decidable (NamesUser userId t r) := by
  unfold NamesUser
  infer_instance

/-- The rows that the statements are about. -/
def Listed (d : ControlDb) (user : UserAccount) (t : TableName) (r : ControlRow) : Prop :=
  ((t = .consentEvents ∨ t = .userTelemetry) ∧ namesUser user.id r = true) ∨
    (t = .userAccounts ∧ hasId user.id r = true) ∨
      (IsLast d user ∧ t ∈ purgedTables ∧ namesTenant user.tenantId r = true)

instance (d : ControlDb) (user : UserAccount) (t : TableName) (r : ControlRow) :
    Decidable (Listed d user t r) := by
  unfold Listed
  infer_instance

/-- Nothing that names the user or, after the last user, the tenant is left out of the statements, and no
statement deletes a row in front of one that fails. -/
def Erases (d : ControlDb) (user : UserAccount) (ok : Statements) : Prop :=
  if ok.deleteConsentEvents then
    if ok.deleteUserTelemetry ∧ ok.deleteUser ∧ Deletable d user.id then
      ok.countUsers = true ∧ (IsLast d user → ok.purgeTenant = true) ∧
        (∀ t, ∀ r ∈ d t, NamesUser user.id t r → Listed d user t r) ∧
        (IsLast d user → ∀ t, t.isTenantScoped = true → ∀ r ∈ d t, namesTenant user.tenantId r = true →
          Listed d user t r)
    else (∀ r ∈ d .consentEvents, namesUser user.id r = false) ∧
      (ok.deleteUserTelemetry = true → ∀ r ∈ d .userTelemetry, namesUser user.id r = false)
  else True

instance (d : ControlDb) (user : UserAccount) (ok : Statements) : Decidable (Erases d user ok) := by
  unfold Erases
  infer_instance

/-! ## What the statements leave -/

/-- What goes with a node. -/
def nodeTables : List TableName := [.nodeCerts, .nodeShares, .publisherKeys]

def cascadeRank : TableName → ℕ
  | .nodeCerts | .vaultSnapshotFiles => 1
  | .nodeShares | .publisherKeys => 2
  | _ => 0

/-- Of the purged tables only `nodes` is referred to, with cascades. -/
theorem cascades_of_purged : ∀ t ∈ purgedTables, ∀ fk ∈ schema.foreignKeys,
    fk.parent = t ∨ t = .nodes ∧ fk.parent ∈ nodeTables →
      fk.cascade = true ∧ t = .nodes ∧ fk.child ∈ nodeTables := by
  decide

theorem cascadeRank_lt : ∀ fk ∈ schema.foreignKeys, fk.cascade = true →
    cascadeRank fk.parent < cascadeRank fk.child := by
  decide

variable {d d' : ControlDb} {user : UserAccount} {ok : Statements} {t : TableName}
  {p : ControlRow → Bool} {r : ControlRow}

/-- One statement of the purge. -/
theorem exists_deleteWhere_purged (ht : t ∈ purgedTables) :
    ∃ d', deleteWhere schema d t p = some d' ∧
      ∀ t' ∉ nodeTables, ∀ r, r ∈ d' t' ↔ r ∈ d t' ∧ ¬ (t' = t ∧ p r = true) := by
  obtain ⟨d', hd'⟩ : ∃ d', deleteWhere schema d t p = some d' := by
    apply exists_deleteWhere (A := fun t' => t' = t ∨ t = .nodes ∧ t' ∈ nodeTables) (.inl rfl)
    · intro fk hfk hA
      obtain ⟨hcas, hnodes, hchild⟩ := cascades_of_purged t ht fk hfk hA
      exact ⟨hcas, .inr ⟨hnodes, hchild⟩⟩
    · exact cascadeRank_lt
    · intro t
      cases t <;> decide
  refine ⟨d', hd', fun t' ht' r => ?_⟩
  have hgone : goesWith schema d t p t' r = true ↔ (decide (t' = t) && p r) = true := by
    apply doomed_iff_of_no_cascade (A := fun t' => t' = t ∨ t = .nodes ∧ t' ∈ nodeTables)
    · intro t'' r h
      simp only [Bool.and_eq_true, decide_eq_true_eq] at h
      exact .inl h.1
    · intro fk hfk _ hA
      exact .inr (cascades_of_purged t ht fk hfk hA).2
    · rintro fk hfk _ hA rfl
      exact ht' (cascades_of_purged t ht fk hfk hA).2.2
  rw [mem_deleteWhere hd', ← Bool.not_eq_true, hgone, Bool.and_eq_true, decide_eq_true_eq]

/-- The purge goes through, and leaves the rows of other tables and of other tenants. -/
theorem exists_foldlM_deleteWhere {l : List TableName} (hl : l ⊆ purgedTables) :
    ∃ d', l.foldlM (fun d t => deleteWhere schema d t p) d = some d' ∧
      ∀ t' ∉ nodeTables, ∀ r, r ∈ d' t' ↔ r ∈ d t' ∧ ¬ (t' ∈ l ∧ p r = true) := by
  induction l generalizing d with
  | nil => exact ⟨d, rfl, fun t' _ r => by simp⟩
  | cons t l ih =>
      obtain ⟨htl, hl⟩ := List.cons_subset.mp hl
      obtain ⟨d₁, hd₁, hmem₁⟩ := exists_deleteWhere_purged (d := d) (p := p) htl
      obtain ⟨d', hd', hmem⟩ := ih (d := d₁) hl
      refine ⟨d', ?_, fun t' ht' r => ?_⟩
      · rw [List.foldlM_cons, hd₁]
        exact hd'
      · rw [hmem t' ht', hmem₁ t' ht', List.mem_cons]
        tauto

/-- The user's row is deleted unless another row refers to it. -/
theorem deleteWhere_userAccounts {userId : Text} :
    deleteWhere schema d .userAccounts (hasId userId) =
      if (∃ r ∈ d .userAccounts, hasId userId r = true) ∧
          ∃ fk ∈ userReferences, ∃ r ∈ d fk.child, r fk.column = text userId then none
      else some (without d .userAccounts (hasId userId)) := by
  rw [deleteWhere_of_restrict (by decide) (by decide)]
  apply if_congr _ rfl rfl
  have hkeys : ∀ fk ∈ schema.foreignKeys, fk.parent = .userAccounts ↔ fk ∈ userReferences := by decide
  have hid : ∀ fk ∈ userReferences, fk.key = .id ∧ fk ∈ schema.foreignKeys := by decide
  constructor
  · rintro ⟨fk, hfk, hparent, r, hr, q, hq, hqid, href⟩
    have huser := (hkeys fk hfk).mp hparent
    simp only [references, Bool.and_eq_true, decide_eq_true_eq, (hid fk huser).1] at href
    refine ⟨⟨q, hq, hqid⟩, fk, huser, r, hr, ?_⟩
    rw [href.2]
    simpa [hasId] using hqid
  · rintro ⟨⟨q, hq, hqid⟩, fk, huser, r, hr, href⟩
    refine ⟨fk, (hid fk huser).2, (hkeys fk (hid fk huser).2).mpr huser, r, hr, q, hq, hqid, ?_⟩
    simp only [references, Bool.and_eq_true, decide_eq_true_eq, (hid fk huser).1, href]
    refine ⟨rfl, ?_⟩
    simpa [hasId, eq_comm] using hqid

/-! ## The handler, statement by statement -/

def afterConsents (d : ControlDb) (user : UserAccount) : ControlDb :=
  without d .consentEvents (namesUser user.id)

def afterTelemetry (d : ControlDb) (user : UserAccount) : ControlDb :=
  without (afterConsents d user) .userTelemetry (namesUser user.id)

def afterUser (d : ControlDb) (user : UserAccount) : ControlDb :=
  without (afterTelemetry d user) .userAccounts (hasId user.id)

theorem mem_afterTelemetry : r ∈ afterTelemetry d user t ↔
    r ∈ d t ∧ ¬ ((t = .consentEvents ∨ t = .userTelemetry) ∧ namesUser user.id r = true) := by
  unfold afterTelemetry afterConsents
  rw [mem_without, mem_without]
  tauto

theorem mem_afterUser : r ∈ afterUser d user t ↔ r ∈ d t ∧
    ¬ ((t = .consentEvents ∨ t = .userTelemetry) ∧ namesUser user.id r = true) ∧
      ¬ (t = .userAccounts ∧ hasId user.id r = true) := by
  unfold afterUser
  rw [mem_without, mem_afterTelemetry, and_assoc]

/-- The first two statements leave other tables as they are. -/
theorem afterTelemetry_of_ne (hc : t ≠ .consentEvents) (ht : t ≠ .userTelemetry) :
    afterTelemetry d user t = d t := by
  simp [afterTelemetry, afterConsents, without, hc, ht]

theorem afterTelemetry_eq_self : afterTelemetry d user = d ↔
    (∀ r ∈ d .consentEvents, namesUser user.id r = false) ∧
      ∀ r ∈ d .userTelemetry, namesUser user.id r = false := by
  have hrows : (afterConsents d user) .userTelemetry = d .userTelemetry := by
    simp [afterConsents, without]
  constructor
  · intro hsame
    constructor
    · intro r hr
      rw [← hsame, mem_afterTelemetry] at hr
      simpa using hr.2
    · intro r hr
      rw [← hsame, mem_afterTelemetry] at hr
      simpa using hr.2
  · rintro ⟨hconsents, htelemetry⟩
    unfold afterTelemetry
    rw [without_eq_self.mpr (by rwa [hrows])]
    exact without_eq_self.mpr hconsents

/-- The account is gone. -/
theorem afterUser_ne_self (h : Deletable d user.id) : afterUser d user ≠ d := by
  intro hsame
  obtain ⟨r, hr, hid⟩ := h.1
  rw [← hsame, mem_afterUser] at hr
  exact hr.2.2 ⟨rfl, hid⟩

theorem countUsersForTenant_afterUser :
    countUsersForTenant (afterUser d user) user.tenantId = 0 ↔ IsLast d user := by
  unfold countUsersForTenant IsLast
  rw [List.countP_eq_zero]
  constructor
  · intro h r hr htenant
    by_contra hid
    exact h r (mem_afterUser.mpr ⟨hr, by simp, by simpa using hid⟩) htenant
  · intro h r hr htenant
    obtain ⟨hr, -, hid⟩ := mem_afterUser.mp hr
    exact hid ⟨rfl, h r hr htenant⟩

theorem deleteAccountInner_eq {confirmEmail : Text} (hconfirm : normalizeEmail confirmEmail = user.email) :
    deleteAccountInner d (.ok user) confirmEmail ok =
      if ok.deleteConsentEvents then
        if ok.deleteUserTelemetry then deleteUserAndPurge (afterTelemetry d user) user ok
        else (.error databaseError, afterConsents d user)
      else (.error databaseError, d) := by
  have hconsents : deleteWhere schema d .consentEvents (namesUser user.id) =
      some (afterConsents d user) := deleteWhere_of_no_child (by decide)
  have htelemetry : deleteWhere schema (afterConsents d user) .userTelemetry (namesUser user.id) =
      some (afterTelemetry d user) := deleteWhere_of_no_child (by decide)
  unfold deleteAccountInner deleteStatement
  simp only [hconfirm, ne_eq, not_true_eq_false, if_false]
  by_cases hc : ok.deleteConsentEvents = true
  · by_cases ht : ok.deleteUserTelemetry = true
    · simp [hc, ht, hconsents, htelemetry]
    · simp [hc, ht, hconsents]
  · simp [hc]

/-- The account stays: the statement fails, a row refers to the account, or there is none. -/
theorem deleteUserAndPurge_of_not (h : ¬ (ok.deleteUser = true ∧ Deletable d user.id)) :
    ∃ e, deleteUserAndPurge (afterTelemetry d user) user ok = (.error e, afterTelemetry d user) := by
  have husers : afterTelemetry d user .userAccounts = d .userAccounts :=
    afterTelemetry_of_ne (by decide) (by decide)
  unfold deleteUserAndPurge deleteStatement
  by_cases hok : ok.deleteUser = true
  · rw [if_pos hok, deleteWhere_userAccounts, husers]
    by_cases hthere : ∃ r ∈ d .userAccounts, hasId user.id r = true
    · have href : ∃ fk ∈ userReferences, ∃ r ∈ afterTelemetry d user fk.child,
          r fk.column = text user.id := by
        have hchild : ∀ fk ∈ userReferences, fk.child ≠ .consentEvents ∧ fk.child ≠ .userTelemetry := by
          decide
        by_contra hno
        refine h ⟨hok, hthere, fun fk hfk r hr hid => hno ⟨fk, hfk, r, ?_, hid⟩⟩
        rwa [afterTelemetry_of_ne (hchild fk hfk).1 (hchild fk hfk).2]
      rw [if_pos ⟨hthere, href⟩]
      exact ⟨_, rfl⟩
    · have hnone : ∀ r ∈ d .userAccounts, hasId user.id r = false := by simpa using hthere
      have hremoved : (d .userAccounts).any (hasId user.id) = false := by simpa using hnone
      have hsame : without (afterTelemetry d user) .userAccounts (hasId user.id) =
          afterTelemetry d user := without_eq_self.mpr (by rwa [husers])
      rw [if_neg fun h => hthere h.1, hsame, hremoved]
      exact ⟨_, rfl⟩
  · rw [if_neg hok]
    exact ⟨_, rfl⟩

/-- The account is deleted. -/
theorem deleteUserAndPurge_of_deletable (hok : ok.deleteUser = true) (h : Deletable d user.id) :
    deleteUserAndPurge (afterTelemetry d user) user ok =
      if ok.countUsers then
        if IsLast d user then
          match if ok.purgeTenant then purgeTenantMetadata (afterUser d user) user.tenantId else none with
          | none => (.error databaseError, afterUser d user)
          | some d => (.ok ⟨true, user.id, true⟩, d)
        else (.ok ⟨true, user.id, false⟩, afterUser d user)
      else (.error databaseError, afterUser d user) := by
  have husers : afterTelemetry d user .userAccounts = d .userAccounts :=
    afterTelemetry_of_ne (by decide) (by decide)
  have hchild : ∀ fk ∈ userReferences, fk.child ≠ .consentEvents ∧ fk.child ≠ .userTelemetry := by
    decide
  have hfree : ¬ ((∃ r ∈ d .userAccounts, hasId user.id r = true) ∧
      ∃ fk ∈ userReferences, ∃ r ∈ afterTelemetry d user fk.child, r fk.column = text user.id) := by
    rintro ⟨-, fk, hfk, r, hr, hid⟩
    rw [afterTelemetry_of_ne (hchild fk hfk).1 (hchild fk hfk).2] at hr
    exact h.2 fk hfk r hr hid
  have hremoved : (d .userAccounts).any (hasId user.id) = true := List.any_eq_true.mpr h.1
  unfold deleteUserAndPurge deleteStatement
  rw [if_pos hok, deleteWhere_userAccounts, husers, if_neg hfree, hremoved]
  simp only [if_true]
  rw [show without (afterTelemetry d user) .userAccounts (hasId user.id) = afterUser d user from rfl]
  simp only [countUsersForTenant_afterUser]

/-- The purge after the last user leaves what is not listed. -/
theorem exists_purge (hlast : IsLast d user) :
    ∃ d', purgeTenantMetadata (afterUser d user) user.tenantId = some d' ∧
      ∀ t ∉ nodeTables, ∀ r, r ∈ d' t ↔ r ∈ d t ∧ ¬ Listed d user t r := by
  obtain ⟨d', hd', hmem⟩ := exists_foldlM_deleteWhere (d := afterUser d user)
    (p := namesTenant user.tenantId) (List.Subset.refl purgedTables)
  refine ⟨d', hd', fun t ht r => ?_⟩
  rw [hmem t ht, mem_afterUser]
  unfold Listed
  tauto

/-! ## The law and the condition -/

theorem namesUser_of_nodeTables {userId : Text} (ht : t ∈ nodeTables) : ¬ NamesUser userId t r := by
  rintro ⟨c, hc, -⟩
  have hnone : ∀ t ∈ nodeTables, t.userColumns = [] := by decide
  rw [hnone t ht] at hc
  cases hc

theorem isTenantScoped_of_nodeTables (ht : t ∈ nodeTables) : t.isTenantScoped = false := by
  have hnone : ∀ t ∈ nodeTables, t.isTenantScoped = false := by decide
  exact hnone t ht

section Outcomes

variable {caller : Answer UserAccount} {confirmEmail : Text}

/-- A call that fails keeps the law when it has changed nothing. -/
theorem erasureLaw_of_error {e : Refusal}
    (h : deleteAccountInner d caller confirmEmail ok = (.error e, d')) :
    ErasureLaw d caller confirmEmail ok ↔ d' = d := by
  constructor
  · intro hlaw
    have hatomic := hlaw.atomic e (by rw [h])
    rwa [h] at hatomic
  · intro hsame
    refine ⟨fun user _ resp hresp => ?_, fun user _ resp hresp => ?_, fun e' _ => ?_⟩
    · rw [h] at hresp
      cases hresp
    · rw [h] at hresp
      cases hresp
    · rw [h]
      exact hsame

/-- A call that succeeds keeps the law when it leaves no row of the user, and after a purge none of the
tenant. -/
theorem erasureLaw_of_ok {resp : DeleteAccountResponse}
    (h : deleteAccountInner d (.ok user) confirmEmail ok = (.ok resp, d')) :
    ErasureLaw d (.ok user) confirmEmail ok ↔
      (∀ t, ∀ r ∈ d' t, ¬ NamesUser user.id t r) ∧
        (resp.tenantPurged = true → ∀ t, t.isTenantScoped = true → ∀ r ∈ d' t,
          namesTenant user.tenantId r = false) := by
  constructor
  · intro hlaw
    have herased := hlaw.erased user rfl resp (by rw [h])
    have hpurged := hlaw.purged user rfl resp (by rw [h])
    rw [h] at herased hpurged
    exact ⟨herased, hpurged⟩
  · rintro ⟨herased, hpurged⟩
    refine ⟨?_, ?_, fun e he => ?_⟩
    · rintro _ ⟨⟩ resp' hresp
      rw [h]
      exact herased
    · rintro _ ⟨⟩ resp' hresp
      rw [h] at hresp ⊢
      cases hresp
      exact hpurged
    · rw [h] at he
      cases he

end Outcomes

/-- What names the user is left out of no statement exactly when none of it stays. -/
theorem forall_listed_iff (hmem : ∀ t ∉ nodeTables, ∀ r, r ∈ d' t ↔ r ∈ d t ∧ ¬ Listed d user t r) :
    (∀ t, ∀ r ∈ d t, NamesUser user.id t r → Listed d user t r) ↔
      ∀ t, ∀ r ∈ d' t, ¬ NamesUser user.id t r := by
  constructor
  · intro h t r hr hnames
    have ht : t ∉ nodeTables := fun ht => namesUser_of_nodeTables ht hnames
    obtain ⟨hr, hnot⟩ := (hmem t ht r).mp hr
    exact hnot (h t r hr hnames)
  · intro h t r hr hnames
    have ht : t ∉ nodeTables := fun ht => namesUser_of_nodeTables ht hnames
    by_contra hnot
    exact h t r ((hmem t ht r).mpr ⟨hr, hnot⟩) hnames

theorem forall_tenant_listed_iff
    (hmem : ∀ t ∉ nodeTables, ∀ r, r ∈ d' t ↔ r ∈ d t ∧ ¬ Listed d user t r) :
    (∀ t, t.isTenantScoped = true → ∀ r ∈ d t, namesTenant user.tenantId r = true →
        Listed d user t r) ↔
      ∀ t, t.isTenantScoped = true → ∀ r ∈ d' t, namesTenant user.tenantId r = false := by
  have hscoped : ∀ {t : TableName}, t.isTenantScoped = true → t ∉ nodeTables := by
    intro t hscope ht
    rw [isTenantScoped_of_nodeTables ht] at hscope
    cases hscope
  constructor
  · intro h t hscope r hr
    obtain ⟨hr, hnot⟩ := (hmem t (hscoped hscope) r).mp hr
    by_contra hnames
    exact hnot (h t hscope r hr (by simpa using hnames))
  · intro h t hscope r hr hnames
    by_contra hnot
    rw [h t hscope r ((hmem t (hscoped hscope) r).mpr ⟨hr, hnot⟩)] at hnames
    cases hnames

/-- **Everything or nothing.** On any database and whatever fails, deleting an account keeps the law
exactly when the user and, after its last user, the tenant have rows in the listed tables only, and
nothing is deleted in front of a statement that fails. -/
theorem erasureLaw_iff (d : ControlDb) (caller : Answer UserAccount) (confirmEmail : Text)
    (ok : Statements) :
    ErasureLaw d caller confirmEmail ok ↔
      ∀ user, caller = .ok user → normalizeEmail confirmEmail = user.email → Erases d user ok := by
  rcases caller with e | user
  · have hrefused : deleteAccountInner d (.error e) confirmEmail ok = (.error e, d) := rfl
    simp [erasureLaw_of_error hrefused]
  simp only [Except.ok.injEq, forall_eq']
  by_cases hconfirm : normalizeEmail confirmEmail = user.email
  swap
  · have hrefused : deleteAccountInner d (.ok user) confirmEmail ok =
        (.error (.badRequest, "confirm_email mismatch"), d) := if_pos hconfirm
    simp [erasureLaw_of_error hrefused, hconfirm]
  have heq : deleteAccountInner d (.ok user) confirmEmail ok = _ := deleteAccountInner_eq hconfirm
  simp only [hconfirm, true_implies]
  unfold Erases
  by_cases hc : ok.deleteConsentEvents = true
  swap
  · rw [if_neg hc] at heq ⊢
    simp [erasureLaw_of_error heq]
  rw [if_pos hc] at heq ⊢
  by_cases ht : ok.deleteUserTelemetry = true
  swap
  · rw [if_neg ht] at heq
    rw [if_neg fun h => ht h.1, erasureLaw_of_error heq, afterConsents, without_eq_self]
    simp [ht]
  rw [if_pos ht] at heq
  by_cases hu : ok.deleteUser = true ∧ Deletable d user.id
  swap
  · obtain ⟨e, he⟩ := deleteUserAndPurge_of_not hu
    rw [he] at heq
    rw [if_neg fun h => hu h.2, erasureLaw_of_error heq, afterTelemetry_eq_self]
    simp [ht]
  rw [deleteUserAndPurge_of_deletable hu.1 hu.2] at heq
  rw [if_pos ⟨ht, hu⟩]
  by_cases hcount : ok.countUsers = true
  swap
  · rw [if_neg hcount] at heq
    rw [erasureLaw_of_error heq]
    simp [hcount, afterUser_ne_self hu.2]
  rw [if_pos hcount] at heq
  by_cases hlast : IsLast d user
  · rw [if_pos hlast] at heq
    by_cases hpurge : ok.purgeTenant = true
    · obtain ⟨d', hd', hmem⟩ := exists_purge hlast
      rw [if_pos hpurge, hd'] at heq
      rw [erasureLaw_of_ok heq, forall_listed_iff hmem, forall_tenant_listed_iff hmem]
      simp [hcount, hlast, hpurge]
    · rw [if_neg hpurge] at heq
      rw [erasureLaw_of_error heq]
      simp [hlast, hpurge, afterUser_ne_self hu.2]
  · rw [if_neg hlast] at heq
    have hmem : ∀ t ∉ nodeTables, ∀ r, r ∈ afterUser d user t ↔ r ∈ d t ∧ ¬ Listed d user t r := by
      intro t _ r
      rw [mem_afterUser]
      unfold Listed
      tauto
    rw [erasureLaw_of_ok heq, forall_listed_iff hmem]
    simp [hcount, hlast]

/-! ### Two accounts -/

def alice : UserAccount :=
  ⟨"usr_1".toList, "alice@x.org".toList, "hash".toList, "alice".toList, true, none, none⟩

/-- Alice signs up. -/
def signup : List ServerOp :=
  [.createUserAccount alice.id alice.email alice.tenantId, .recordConsentEvent alice.id alice.tenantId,
    .recordConsentEvent alice.id alice.tenantId]

/-- Alice signs up and makes an invite to her vault. -/
def withInvite : ControlDb :=
  Lib.Trace.run serverStep .empty (signup ++
    [.registerTenantVault (some alice.tenantId) "notes".toList,
      .insertVaultInvite "inv_1".toList (some alice.tenantId) "notes".toList
        (.replicate 32 1) alice.id])

/-- Alice signs up and an agent writes a file for her. -/
def withAgentWrite : ControlDb :=
  Lib.Trace.run serverStep .empty (signup ++
    [.registerTenantVault (some alice.tenantId) "notes".toList,
      .upsertFile (some alice.tenantId) "notes".toList "a.md".toList,
      .bumpAgentWriteRevision (some alice.tenantId) "notes".toList "a.md".toList alice.id])

/-- A database that never fails. -/
def sound : Statements := ⟨true, true, true, true, true⟩

example : Erases (Lib.Trace.run serverStep .empty signup) alice sound := by decide +kernel

/-- The invite refers to the account, which then cannot be deleted, but the consents are gone. The
revision of the file survives the account and the purge of its tenant. -/
theorem not_erasureLaw :
    ¬ ErasureLaw withInvite (.ok alice) alice.email sound ∧
      ¬ ErasureLaw withAgentWrite (.ok alice) alice.email sound := by
  constructor
  · intro h
    have hsame := h.atomic databaseError (by decide +kernel)
    have hconsents := congrArg List.length (congrFun hsame .consentEvents)
    exact absurd hconsents (by decide +kernel)
  · intro h
    have hleft := h.purged alice rfl ⟨true, alice.id, true⟩ (by decide +kernel) rfl .agentWriteRevisions
      rfl
    exact absurd hleft (by decide +kernel)

end DiskArcana.Compliance
