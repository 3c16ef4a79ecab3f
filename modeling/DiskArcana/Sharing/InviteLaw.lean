import DiskArcana.Lib.Trace
import DiskArcana.Sharing.Accept

/-!
# What an invite gives

An invite is for one user, is marked redeemed only for a member, and the new member finds the data of
the inviting tenant (`InviteLaw`). The first holds along every run. The others hold along a run exactly
when no call fails between its two writes, and no member is left to a vault of the same name: one of
the member's own tenant, or one that an earlier row of the member names (`inviteLaw_iff`).
-/

namespace DiskArcana.Sharing

open DiskArcana.Lib DiskArcana.Lib.Trace DiskArcana.Accounts

/-! ## The law -/

abbrev History := List (SharingState × SharingEvent)

/-- The invite and the user of a call between its two writes. -/
def Accept.pending (call : Accept) : Option (Invite × UserAccount) :=
  match call.phase with
  | .upsert invite => some (invite, call.user)
  | _ => none

def pending (s : SharingState) (id : ℕ) : Option (Invite × UserAccount) :=
  (s.calls.lookup id).bind Accept.pending

/-- The membership that a step grants. -/
def granted (x : SharingState × SharingEvent) : Option (Invite × UserAccount) :=
  match x.2 with
  | .proceed id true _ => pending x.1 id
  | _ => none

def grants (hist : History) : List (Invite × UserAccount) := hist.filterMap granted

def kindOf : VaultShareRole → VaultAccessKind
  | .editor => .editor
  | .viewer => .viewer

/-- Access as the invite says: its role on the data of its tenant, or the user's own vault where that is
the tenant. -/
def AsInvited (invite : VaultInviteRow) (user : UserAccount) (access : ResolvedVaultAccess) : Prop :=
  access = ⟨invite.tenantId, kindOf invite.role⟩ ∨
    access = ⟨some user.tenantId, .owner⟩ ∧ invite.tenantId = some user.tenantId

/-- What a step of a run owes to the invites. -/
structure InviteLaw (deps : TokenDeps) (hist : History) (s : SharingState) (e : SharingEvent) :
    Prop where
  /-- An invite grants membership to one user. -/
  single : ∀ g ∈ grants (hist ++ [(s, e)]), ∀ g' ∈ grants (hist ++ [(s, e)]),
    g.1.1 = g'.1.1 → g.2.id = g'.2.id
  /-- An invite is marked redeemed for a member, or for one whose grant is in progress. -/
  redeemed : ∀ id row u, (sharingStep deps s e).tables.invites.lookup id = some row →
    row.redeemedBy = some u →
      (∃ g ∈ grants (hist ++ [(s, e)]), g.1.1 = id ∧ g.2.id = u) ∨
        ∃ i g, pending (sharingStep deps s e) i = some g ∧ g.1.1 = id ∧ g.2.id = u
  /-- The new member has the access of the invite. -/
  access : ∀ g, granted (s, e) = some g →
    ∃ access, resolveVaultAccess (sharingStep deps s e).tables.db g.2 g.1.2.vaultId true true =
      .ok access ∧ AsInvited g.1.2 g.2 access

/-! ## The condition -/

/-- The row that decides the role of a user in a vault of another tenant: the first one under the
vault's name. -/
def memberRow (db : Database) (userId vaultId : Text) : Option VaultMemberRow :=
  db.vaultMembers.find? fun m => m.userId = userId ∧ m.vaultId = vaultId

/-- The vault that the user finds under the name in the invite is the invite's. -/
def FindsInvite (db : Database) (invite : VaultInviteRow) (user : UserAccount) : Prop :=
  if (some user.tenantId, invite.vaultId) ∈ db.vaults then invite.tenantId = some user.tenantId
  else ∀ m ∈ memberRow db user.id invite.vaultId,
    m.tenantId = invite.tenantId ∧ (invite.tenantId = none → m.role = invite.role)

instance (db : Database) (invite : VaultInviteRow) (user : UserAccount) :
    Decidable (FindsInvite db invite user) := by
  unfold FindsInvite
  infer_instance

/-- A call that has redeemed its invite is granted the membership, and nothing hides it. -/
def Grants (s : SharingState) : SharingEvent → Prop
  | .proceed id ok _ => ∀ g ∈ pending s id, ok = true ∧ FindsInvite s.tables.db g.1.2 g.2
  | _ => True

instance (s : SharingState) : ∀ e, Decidable (Grants s e)
  | .proceed id ok _ =>
    inferInstanceAs (Decidable (∀ g ∈ pending s id, ok = true ∧ FindsInvite s.tables.db g.1.2 g.2))
  | .acceptInvite .. => inferInstanceAs (Decidable True)
  | .removeVaultMember .. => inferInstanceAs (Decidable True)
  | .registerTenantVault .. => inferInstanceAs (Decidable True)

/-! ## Access after a grant -/

section Access

variable (s : SharingDb) {invite : VaultInviteRow} {user : UserAccount}

theorem upsertVaultMember_vaults (m : VaultMemberRow) :
    (upsertVaultMember s m).db.vaults = s.db.vaults := rfl

theorem getCollaboratorVaultAccess_eq (db : Database) (userId vaultId : Text) :
    db.getCollaboratorVaultAccess userId vaultId =
      (memberRow db userId vaultId).map fun m => (m.tenantId, m.role) := rfl

theorem memberClashes_iff {m : VaultMemberRow} : memberClashes (memberOf invite user.id) m = true ↔
    (invite.tenantId ≠ none ∧ m.tenantId = invite.tenantId) ∧
      m.userId = user.id ∧ m.vaultId = invite.vaultId := by
  simp only [memberClashes, memberOf, Bool.and_eq_true, decide_eq_true_eq, Prod.mk.injEq,
    Option.isSome_iff_ne_none]
  constructor
  · rintro ⟨hsome, htenant, hvault, huser⟩
    exact ⟨⟨hsome, htenant.symm⟩, huser.symm, hvault.symm⟩
  · rintro ⟨⟨hsome, htenant⟩, huser, hvault⟩
    exact ⟨hsome, htenant.symm, hvault.symm, huser.symm⟩

/-- The deciding row after a row is written for the user: the first row stays, with the new role if it
has the key of the new one. -/
theorem memberRow_upsertVaultMember :
    memberRow (upsertVaultMember s (memberOf invite user.id)).db user.id invite.vaultId =
      match memberRow s.db user.id invite.vaultId with
      | none => some (memberOf invite user.id)
      | some m =>
        some (if memberClashes (memberOf invite user.id) m then { m with role := invite.role } else m) := by
  unfold memberRow upsertVaultMember
  set mine : VaultMemberRow → Bool := fun m => m.userId = user.id ∧ m.vaultId = invite.vaultId
    with hmine
  by_cases hany : s.db.vaultMembers.any (memberClashes (memberOf invite user.id)) = true
  · have hcomp : mine ∘ (fun m' => if memberClashes (memberOf invite user.id) m' = true then
        { m' with role := invite.role } else m') = mine := by
      funext m
      simp only [Function.comp_apply]
      split <;> rfl
    simp only [hany, if_true, List.find?_map]
    rw [show (memberOf invite user.id).role = invite.role from rfl, hcomp]
    rcases hfind : s.db.vaultMembers.find? mine with _ | m
    · obtain ⟨m, hm, hclash⟩ := List.any_eq_true.mp hany
      have hmatch : mine m = true := by simpa [hmine] using (memberClashes_iff.mp hclash).2
      exact absurd hmatch (List.find?_eq_none.mp hfind m hm)
    · rfl
  · simp only [hany, Bool.false_eq_true, if_false, List.find?_append]
    rcases hfind : s.db.vaultMembers.find? mine with _ | m
    · simp [hmine, memberOf]
    · have hno : ¬ memberClashes (memberOf invite user.id) m = true := fun hclash =>
        hany (List.any_eq_true.mpr ⟨m, List.mem_of_find?_eq_some hfind, hclash⟩)
      simp [hno]

/-- What `resolve_vault_access` finds when the database does not fail. -/
theorem resolveVaultAccess_eq (db : Database) (vaultId : Text) :
    resolveVaultAccess db user vaultId true true =
      if (some user.tenantId, vaultId) ∈ db.vaults then .ok ⟨some user.tenantId, .owner⟩
      else match memberRow db user.id vaultId with
        | none => .error (.forbidden, "vault access denied")
        | some m => .ok ⟨m.tenantId, kindOf m.role⟩ := by
  unfold resolveVaultAccess Database.vaultExistsForTenant
  simp only [if_true, decide_eq_true_eq, getCollaboratorVaultAccess_eq]
  split
  · rfl
  · rcases memberRow db user.id vaultId with _ | m
    · rfl
    · rcases hrole : m.role <;> simp [hrole, kindOf]

theorem kindOf_injective : Function.Injective kindOf := by
  intro a b h
  cases a <;> cases b <;> simp [kindOf] at h ⊢

theorem kindOf_ne_owner (role : VaultShareRole) : kindOf role ≠ .owner := by
  cases role <;> simp [kindOf]

/-- After a grant the user has the access of the invite exactly when nothing hides it. -/
theorem asInvited_iff :
    (∃ access, resolveVaultAccess (upsertVaultMember s (memberOf invite user.id)).db user
        invite.vaultId true true = .ok access ∧ AsInvited invite user access) ↔
      FindsInvite s.db invite user := by
  rw [resolveVaultAccess_eq, upsertVaultMember_vaults, memberRow_upsertVaultMember]
  unfold FindsInvite AsInvited
  by_cases hown : (some user.tenantId, invite.vaultId) ∈ s.db.vaults
  · -- a vault of the user's own tenant comes first
    rw [if_pos hown, if_pos hown]
    constructor
    · rintro ⟨access, haccess, hrole | htenant⟩
      · rw [← Except.ok.inj haccess] at hrole
        exact absurd (congrArg ResolvedVaultAccess.kind hrole).symm (kindOf_ne_owner _)
      · exact htenant.2
    · intro htenant
      exact ⟨_, rfl, .inr ⟨rfl, htenant⟩⟩
  · rw [if_neg hown, if_neg hown]
    rcases hrow : memberRow s.db user.id invite.vaultId with _ | m
    · -- the new row is the only one
      constructor
      · intro _ m hm
        cases hm
      · intro _
        exact ⟨_, rfl, .inl rfl⟩
    · have hm : m.userId = user.id ∧ m.vaultId = invite.vaultId := by
        simpa using List.find?_some hrow
      have hrole : ∀ role, (∃ access, (.ok ⟨m.tenantId, kindOf role⟩ : Answer ResolvedVaultAccess) = .ok access ∧
          (access = ⟨invite.tenantId, kindOf invite.role⟩ ∨
            access = ⟨some user.tenantId, .owner⟩ ∧ invite.tenantId = some user.tenantId)) ↔
          m.tenantId = invite.tenantId ∧ role = invite.role := by
        intro role
        constructor
        · rintro ⟨access, haccess, heq | ⟨heq, -⟩⟩
          · rw [← Except.ok.inj haccess, ResolvedVaultAccess.mk.injEq] at heq
            exact ⟨heq.1, kindOf_injective heq.2⟩
          · rw [← Except.ok.inj haccess, ResolvedVaultAccess.mk.injEq] at heq
            exact absurd heq.2 (kindOf_ne_owner role)
        · rintro ⟨htenant, rfl⟩
          exact ⟨_, rfl, .inl (by rw [htenant])⟩
      simp only [Option.mem_def, Option.some.injEq, forall_eq']
      by_cases hclash : memberClashes (memberOf invite user.id) m = true
      · -- the row is the invite's, and has its role now
        obtain ⟨⟨hsome, htenant⟩, -⟩ := memberClashes_iff.mp hclash
        rw [if_pos hclash, hrole]
        simp [htenant, hsome]
      · rw [if_neg hclash, hrole]
        have hnone : m.tenantId = invite.tenantId → invite.tenantId = none := by
          intro htenant
          by_contra hsome
          exact hclash (memberClashes_iff.mpr ⟨⟨hsome, htenant⟩, hm⟩)
        constructor
        · rintro ⟨htenant, hsame⟩
          exact ⟨htenant, fun _ => hsame⟩
        · rintro ⟨htenant, hsame⟩
          exact ⟨htenant, hsame (hnone htenant)⟩

end Access

/-! ## One step -/

variable {deps : TokenDeps} {hist : History} {s s' : SharingState} {e : SharingEvent}

theorem pending_insert (tables : SharingDb) (calls : Table ℕ Accept) (id : ℕ) (call : Accept) (i : ℕ) :
    pending ⟨tables, calls.insert id call⟩ i =
      if i = id then call.pending else pending ⟨tables, calls⟩ i := by
  unfold pending
  rw [Table.lookup_insert_eq_ite]
  split_ifs <;> rfl

theorem acceptPhaseOf_pending (user : UserAccount) (token : Text) :
    (⟨user, acceptPhaseOf deps token⟩ : Accept).pending = none := by
  unfold Accept.pending acceptPhaseOf
  rcases deps.hexDecode (trim token) with _ | raw
  · rfl
  · dsimp only
    split_ifs <;> rfl

/-- Marking an invite redeemed finds it free, or changes nothing. -/
theorem redeemVaultInvite_cases (s : SharingDb) (id userId : Text) (now : ℤ) :
    redeemVaultInvite s id userId now = (s, false) ∨
      ∃ row, s.invites.lookup id = some row ∧ row.redeemedAt = none ∧
        redeemVaultInvite s id userId now =
          (⟨s.db, s.invites.insert id
            { row with redeemedAt := some now, redeemedBy := some userId }⟩, true) := by
  unfold redeemVaultInvite
  rcases s.invites.lookup id with _ | row
  · exact .inl rfl
  · by_cases hfree : row.redeemedAt = none
    · exact .inr ⟨row, rfl, hfree, if_pos hfree⟩
    · exact .inl (if_neg hfree)

/-- The invite is marked redeemed by the user. -/
def RedeemedBy (s : SharingState) (inviteId userId : Text) : Prop :=
  ∃ row, s.tables.invites.lookup inviteId = some row ∧ row.redeemedBy = some userId

/-- What a step can do to the invites and to the calls that have redeemed one. -/
inductive StepKind (s : SharingState) (e : SharingEvent) (s' : SharingState) : Prop where
  | quiet (idle : ∀ id ok now, e = .proceed id ok now → pending s id = none)
      (invites : s'.tables.invites = s.tables.invites)
      (calls : ∀ i, pending s' i = pending s i)
  | redeems (id : ℕ) (now : ℤ) (g : Invite × UserAccount) (row : VaultInviteRow)
      (event : e = .proceed id true now) (idle : pending s id = none)
      (free : s.tables.invites.lookup g.1.1 = some row ∧ row.redeemedAt = none)
      (invites : s'.tables.invites = s.tables.invites.insert g.1.1
        { row with redeemedAt := some now, redeemedBy := some g.2.id })
      (calls : ∀ i, pending s' i = if i = id then some g else pending s i)
  | ends (id : ℕ) (ok : Bool) (now : ℤ) (g : Invite × UserAccount) (event : e = .proceed id ok now)
      (redeemed : pending s id = some g)
      (tables : s'.tables =
        if ok then upsertVaultMember s.tables (memberOf g.1.2 g.2.id) else s.tables)
      (calls : ∀ i, pending s' i = if i = id then none else pending s i)

/-- **What one step does** to invites and calls. -/
theorem stepKind (deps : TokenDeps) (s : SharingState) (e : SharingEvent) :
    StepKind s e (sharingStep deps s e) := by
  cases e with
  | acceptInvite id user token =>
      refine .quiet (fun _ _ _ h => nomatch h) ?_ fun i => ?_
      · simp only [sharingStep]
        split_ifs <;> rfl
      · simp only [sharingStep]
        split_ifs with hknown
        · rfl
        · rw [pending_insert, acceptPhaseOf_pending]
          split_ifs with hi
          · rw [hi, pending, Option.not_isSome_iff_eq_none.mp hknown]
            rfl
          · rfl
  | removeVaultMember tenantId vaultId userId =>
      exact .quiet (fun _ _ _ h => nomatch h) rfl fun _ => rfl
  | registerTenantVault tenantId vaultId =>
      exact .quiet (fun _ _ _ h => nomatch h) rfl fun _ => rfl
  | proceed id ok now =>
      rcases hcall : s.calls.lookup id with _ | ⟨user, phase⟩
      · have hsame : sharingStep deps s (.proceed id ok now) = s := by
          simp [sharingStep, hcall]
        rw [hsame]
        refine .quiet ?_ rfl fun _ => rfl
        rintro _ _ _ ⟨⟩
        simp [pending, hcall]
      · have hstep : sharingStep deps s (.proceed id ok now) =
            ⟨(acceptStep s.tables user ok now phase).1,
              s.calls.insert id ⟨user, (acceptStep s.tables user ok now phase).2⟩⟩ := by
          simp [sharingStep, hcall]
        have hpending : pending s id = (⟨user, phase⟩ : Accept).pending := by
          simp [pending, hcall]
        -- a statement that leaves the invites alone and comes before the second write
        have hquiet : (⟨user, phase⟩ : Accept).pending = none →
            (⟨user, (acceptStep s.tables user ok now phase).2⟩ : Accept).pending = none →
            (acceptStep s.tables user ok now phase).1 = s.tables →
              StepKind s (.proceed id ok now) (sharingStep deps s (.proceed id ok now)) := by
          intro hbefore hafter htables
          rw [hstep, htables]
          refine .quiet ?_ rfl fun i => ?_
          · rintro _ _ _ ⟨⟩
            rw [hpending, hbefore]
          · rw [pending_insert, hafter]
            split_ifs with hi
            · rw [hi, hpending, hbefore]
            · rfl
        cases phase with
        | lookUp tokenHash =>
            have hlook : (acceptStep s.tables user ok now (.lookUp tokenHash)).1 = s.tables ∧
                (⟨user, (acceptStep s.tables user ok now (.lookUp tokenHash)).2⟩ : Accept).pending =
                  none := by
              unfold acceptStep
              dsimp only
              split_ifs
              · rcases getVaultInviteByTokenHash s.tables tokenHash with _ | invite
                · exact ⟨rfl, rfl⟩
                · dsimp only
                  split_ifs <;> exact ⟨rfl, rfl⟩
              · exact ⟨rfl, rfl⟩
            exact hquiet rfl hlook.2 hlook.1
        | redeem invite =>
            cases ok with
            | false => exact hquiet rfl rfl rfl
            | true =>
                rcases redeemVaultInvite_cases s.tables invite.1 user.id now with
                  hno | ⟨row, hrow, hfree, hyes⟩
                · exact hquiet rfl (by simp [acceptStep, hno, Accept.pending])
                    (by simp [acceptStep, hno])
                · refine .redeems id now (invite, user) row rfl hpending ⟨hrow, hfree⟩ ?_ fun i => ?_
                  · rw [hstep]
                    simp [acceptStep, hyes]
                  · rw [hstep, pending_insert]
                    simp [acceptStep, hyes, Accept.pending, pending]
        | upsert invite =>
            refine .ends id ok now (invite, user) rfl hpending ?_ fun i => ?_
            · rw [hstep]
              cases ok <;> rfl
            · rw [hstep, pending_insert]
              cases ok <;> rfl
        | done answer => exact hquiet rfl rfl rfl

theorem mem_grants_snoc {g : Invite × UserAccount} :
    g ∈ grants (hist ++ [(s, e)]) ↔ g ∈ grants hist ∨ granted (s, e) = some g := by
  unfold grants
  rw [List.filterMap_append, List.mem_append]
  rcases h : granted (s, e) with _ | g'
  · simp [h]
  · simp [h, eq_comm]

theorem mem_grants_snoc_of_none (hnone : granted (s, e) = none) {g : Invite × UserAccount} :
    g ∈ grants (hist ++ [(s, e)]) ↔ g ∈ grants hist := by
  simp [mem_grants_snoc, hnone]

theorem granted_eq_none (idle : ∀ id ok now, e = .proceed id ok now → pending s id = none) :
    granted (s, e) = none := by
  cases e with
  | proceed id ok now =>
      cases ok with
      | false => rfl
      | true => exact idle id true now rfl
  | _ => rfl

/-! ## Runs -/

/-- What the tables and the calls hold after any run. -/
structure Held (hist : History) (s : SharingState) : Prop where
  free : ∀ id row, s.tables.invites.lookup id = some row → row.redeemedAt = none →
    row.redeemedBy = none
  pending : ∀ i g, pending s i = some g → RedeemedBy s g.1.1 g.2.id
  alone : ∀ i j g g', Sharing.pending s i = some g → Sharing.pending s j = some g' →
    g.1.1 = g'.1.1 → i = j
  granted : ∀ g ∈ grants hist, RedeemedBy s g.1.1 g.2.id ∧
    ∀ i g', Sharing.pending s i = some g' → g'.1.1 ≠ g.1.1

/-- What they hold after a run whose grants were all made. -/
structure Kept (hist : History) (s : SharingState) : Prop extends Held hist s where
  redeemed : ∀ id u, RedeemedBy s id u → (∃ g ∈ grants hist, g.1.1 = id ∧ g.2.id = u) ∨
    ∃ i g, Sharing.pending s i = some g ∧ g.1.1 = id ∧ g.2.id = u

/-- An invite has one redeemer. -/
theorem RedeemedBy.unique {id u v : Text} (h : RedeemedBy s id u) (h' : RedeemedBy s id v) : u = v := by
  obtain ⟨row, hrow, hu⟩ := h
  obtain ⟨row', hrow', hv⟩ := h'
  rw [hrow] at hrow'
  cases hrow'
  exact Option.some.inj (hu.symm.trans hv)

theorem RedeemedBy.congr (h : s'.tables.invites = s.tables.invites) {id u : Text} :
    RedeemedBy s' id u ↔ RedeemedBy s id u := by
  unfold RedeemedBy
  rw [h]

/-- Marking a free invite changes the mark of no other. -/
theorem RedeemedBy.of_insert {id u u' id' : Text} {row : VaultInviteRow} {now : ℤ}
    (h : s'.tables.invites =
      s.tables.invites.insert id { row with redeemedAt := some now, redeemedBy := some u }) :
    RedeemedBy s' id' u' ↔ if id' = id then u = u' else RedeemedBy s id' u' := by
  unfold RedeemedBy
  rw [h, Table.lookup_insert_eq_ite]
  split_ifs with hid
  · simp
  · rfl

theorem kept_start (db : Database) {invites : Table Text VaultInviteRow}
    (hfree : ∀ id row, invites.lookup id = some row → row.redeemedAt = none ∧ row.redeemedBy = none) :
    Kept [] (.start db invites) where
  free id row hrow _ := (hfree id row hrow).2
  pending i g h := nomatch h
  alone i j g g' h := nomatch h
  granted g h := nomatch h
  redeemed := by
    rintro id u ⟨row, hrow, hu⟩
    rw [(hfree id row hrow).2] at hu
    cases hu

/-- A step that leaves the invites and the grants in progress alone. -/
theorem Held.quiet (h : Held hist s) (hnone : Sharing.granted (s, e) = none)
    (hinvites : s'.tables.invites = s.tables.invites)
    (hcalls : ∀ i, Sharing.pending s' i = Sharing.pending s i) : Held (hist ++ [(s, e)]) s' := by
  refine ⟨?_, fun i g hg => ?_, fun i j g g' hg hg' => ?_, fun g hg => ?_⟩
  · rw [hinvites]
    exact h.free
  · rw [hcalls] at hg
    exact (RedeemedBy.congr hinvites).mpr (h.pending i g hg)
  · rw [hcalls] at hg hg'
    exact h.alone i j g g' hg hg'
  · simp only [hcalls]
    rw [RedeemedBy.congr hinvites]
    exact h.granted g ((mem_grants_snoc_of_none hnone).mp hg)

/-- A step that grants nothing keeps the invariant. -/
theorem Kept.quiet (h : Kept hist s) (hnone : Sharing.granted (s, e) = none)
    (hinvites : s'.tables.invites = s.tables.invites)
    (hcalls : ∀ i, Sharing.pending s' i = Sharing.pending s i) : Kept (hist ++ [(s, e)]) s' where
  toHeld := h.toHeld.quiet hnone hinvites hcalls
  redeemed id u hu := by
    simp only [mem_grants_snoc_of_none hnone, hcalls]
    exact h.redeemed id u ((RedeemedBy.congr hinvites).mp hu)

section Redeems

variable {id : ℕ} {now : ℤ} {g : Invite × UserAccount} {row : VaultInviteRow}

/-- A free invite is marked for nobody. -/
theorem Held.ne_of_redeemedBy (h : Held hist s) (hrow : s.tables.invites.lookup g.1.1 = some row)
    (hfree : row.redeemedAt = none) {inviteId u : Text} (hu : RedeemedBy s inviteId u) :
    inviteId ≠ g.1.1 := by
  rintro rfl
  obtain ⟨row', hrow', hby⟩ := hu
  rw [hrow] at hrow'
  cases hrow'
  rw [h.free _ row hrow hfree] at hby
  cases hby

/-- A free invite is redeemed: no call and no grant was about it. -/
theorem Held.redeems (h : Held hist s) (hnone : Sharing.granted (s, e) = none)
    (hrow : s.tables.invites.lookup g.1.1 = some row) (hfree : row.redeemedAt = none)
    (hinvites : s'.tables.invites = s.tables.invites.insert g.1.1
      { row with redeemedAt := some now, redeemedBy := some g.2.id })
    (hcalls : ∀ i, Sharing.pending s' i = if i = id then some g else Sharing.pending s i) :
    Held (hist ++ [(s, e)]) s' := by
  have hother : ∀ {id' u}, RedeemedBy s id' u → id' ≠ g.1.1 := h.ne_of_redeemedBy hrow hfree
  have hkeep : ∀ {id' u}, RedeemedBy s id' u → RedeemedBy s' id' u := by
    intro id' u hu
    rw [RedeemedBy.of_insert hinvites, if_neg (hother hu)]
    exact hu
  refine ⟨fun id' row' hrow' hfree' => ?_, fun i g₁ hg₁ => ?_, fun i j g₁ g₂ hg₁ hg₂ hids => ?_,
    fun g₁ hg₁ => ?_⟩
  · rw [hinvites, Table.lookup_insert_eq_ite] at hrow'
    split_ifs at hrow' with hid
    · cases hrow'
      cases hfree'
    · exact h.free id' row' hrow' hfree'
  · rw [hcalls] at hg₁
    split_ifs at hg₁ with hi
    · cases hg₁
      rw [RedeemedBy.of_insert hinvites, if_pos rfl]
    · exact hkeep (h.pending i g₁ hg₁)
  · rw [hcalls] at hg₁ hg₂
    split_ifs at hg₁ hg₂ with hi hj hj
    · rw [hi, hj]
    · cases hg₁
      exact absurd hids.symm (hother (h.pending j g₂ hg₂))
    · cases hg₂
      exact absurd hids (hother (h.pending i g₁ hg₁))
    · exact h.alone i j g₁ g₂ hg₁ hg₂ hids
  · obtain ⟨hby, hno⟩ := h.granted g₁ ((mem_grants_snoc_of_none hnone).mp hg₁)
    refine ⟨hkeep hby, fun i g' hg' => ?_⟩
    rw [hcalls] at hg'
    split_ifs at hg' with hi
    · cases hg'
      exact (hother hby).symm
    · exact hno i g' hg'

/-- So does one that redeems an invite, -/
theorem Kept.redeems (h : Kept hist s) (hnone : Sharing.granted (s, e) = none)
    (idle : Sharing.pending s id = none) (hrow : s.tables.invites.lookup g.1.1 = some row)
    (hfree : row.redeemedAt = none)
    (hinvites : s'.tables.invites = s.tables.invites.insert g.1.1
      { row with redeemedAt := some now, redeemedBy := some g.2.id })
    (hcalls : ∀ i, Sharing.pending s' i = if i = id then some g else Sharing.pending s i) :
    Kept (hist ++ [(s, e)]) s' where
  toHeld := h.toHeld.redeems hnone hrow hfree hinvites hcalls
  redeemed id' u hu := by
    simp only [mem_grants_snoc_of_none hnone]
    rw [RedeemedBy.of_insert hinvites] at hu
    split_ifs at hu with hid
    · exact .inr ⟨id, g, by rw [hcalls, if_pos rfl], hid.symm, hu⟩
    · rcases h.redeemed id' u hu with hgrant | ⟨i, g', hg', hid', hu'⟩
      · exact .inl hgrant
      · have hi : i ≠ id := by
          rintro rfl
          rw [idle] at hg'
          cases hg'
        exact .inr ⟨i, g', by rw [hcalls, if_neg hi, hg'], hid', hu'⟩

end Redeems

section Ends

variable {id : ℕ} {g : Invite × UserAccount}

/-- A grant that was in progress is made, or fails. -/
theorem Held.ends (h : Held hist s) (hpending : Sharing.pending s id = some g)
    (hgranted : ∀ g', Sharing.granted (s, e) = some g' → g' = g)
    (hinvites : s'.tables.invites = s.tables.invites)
    (hcalls : ∀ i, Sharing.pending s' i = if i = id then none else Sharing.pending s i) :
    Held (hist ++ [(s, e)]) s' := by
  have hstill : ∀ {i g'}, Sharing.pending s' i = some g' → i ≠ id ∧ Sharing.pending s i = some g' := by
    intro i g' hg'
    rw [hcalls] at hg'
    split_ifs at hg' with hi
    exact ⟨hi, hg'⟩
  refine ⟨?_, fun i g' hg' => ?_, fun i j g₁ g₂ hg₁ hg₂ => ?_, fun g₁ hg₁ => ?_⟩
  · rw [hinvites]
    exact h.free
  · exact (RedeemedBy.congr hinvites).mpr (h.pending i g' (hstill hg').2)
  · exact h.alone i j g₁ g₂ (hstill hg₁).2 (hstill hg₂).2
  · rw [RedeemedBy.congr hinvites]
    rcases mem_grants_snoc.mp hg₁ with hold | hnew
    · exact ⟨(h.granted g₁ hold).1, fun i g' hg' => (h.granted g₁ hold).2 i g' (hstill hg').2⟩
    · rw [hgranted g₁ hnew]
      refine ⟨h.pending id g hpending, fun i g' hg' hids => ?_⟩
      exact (hstill hg').1 (h.alone i id g' g (hstill hg').2 hpending hids)

/-- and one that ends a call. -/
theorem Kept.ends (h : Kept hist s) (hpending : Sharing.pending s id = some g)
    (hgranted : Sharing.granted (s, e) = some g) (hinvites : s'.tables.invites = s.tables.invites)
    (hcalls : ∀ i, Sharing.pending s' i = if i = id then none else Sharing.pending s i) :
    Kept (hist ++ [(s, e)]) s' where
  toHeld := by
    refine h.toHeld.ends hpending (fun g' hg' => ?_) hinvites hcalls
    exact (Option.some.inj (hgranted.symm.trans hg')).symm
  redeemed id' u hu := by
    rcases h.redeemed id' u ((RedeemedBy.congr hinvites).mp hu) with
      ⟨g', hg', hid, hby⟩ | ⟨i, g', hg', hid, hby⟩
    · exact .inl ⟨g', mem_grants_snoc.mpr (.inl hg'), hid, hby⟩
    · by_cases hi : i = id
      · subst hi
        rw [hpending] at hg'
        cases hg'
        exact .inl ⟨g, mem_grants_snoc.mpr (.inr hgranted), hid, hby⟩
      · exact .inr ⟨i, g', by rw [hcalls, if_neg hi, hg'], hid, hby⟩

end Ends

/-- The invites at the end of a call. -/
theorem invites_of_ends {ok : Bool} {tables : SharingDb} {m : VaultMemberRow}
    (h : tables = if ok then upsertVaultMember s.tables m else s.tables) :
    tables.invites = s.tables.invites := by
  rw [h]
  cases ok <;> rfl

/-- **One step** keeps the invariant. -/
theorem Held.step (h : Held hist s) : Held (hist ++ [(s, e)]) (sharingStep deps s e) := by
  rcases stepKind deps s e with ⟨idle, hinvites, hcalls⟩ |
    ⟨id, now, g, row, rfl, idle, free, hinvites, hcalls⟩ |
    ⟨id, ok, now, g, rfl, hpending, htables, hcalls⟩
  · exact h.quiet (granted_eq_none idle) hinvites hcalls
  · exact h.redeems idle free.1 free.2 hinvites hcalls
  · refine h.ends hpending (fun g' hg' => ?_) (invites_of_ends htables) hcalls
    cases ok with
    | false => cases hg'
    | true => exact Option.some.inj (Eq.trans hg'.symm hpending)

/-- An invite has been granted to one user. -/
theorem Held.single (h : Held hist s) {g g' : Invite × UserAccount} (hg : g ∈ grants hist)
    (hg' : g' ∈ grants hist) (hids : g.1.1 = g'.1.1) : g.2.id = g'.2.id := by
  have hby := (h.granted g hg).1
  rw [hids] at hby
  exact hby.unique (h.granted g' hg').1

/-- A step that grants each membership that is in progress. -/
theorem Kept.step (h : Kept hist s) (hgrants : Grants s e) :
    Kept (hist ++ [(s, e)]) (sharingStep deps s e) := by
  rcases stepKind deps s e with ⟨idle, hinvites, hcalls⟩ |
    ⟨id, now, g, row, rfl, idle, free, hinvites, hcalls⟩ |
    ⟨id, ok, now, g, rfl, hpending, htables, hcalls⟩
  · exact h.quiet (granted_eq_none idle) hinvites hcalls
  · exact h.redeems idle idle free.1 free.2 hinvites hcalls
  · obtain ⟨rfl, -⟩ := hgrants g hpending
    exact h.ends hpending hpending (invites_of_ends htables) hcalls

/-- After a run whose grants were all made, a step keeps the law exactly when it makes its grant and
nothing hides it. -/
theorem inviteLaw_step_iff (h : Kept hist s) : InviteLaw deps hist s e ↔ Grants s e := by
  constructor
  · intro hlaw
    rcases stepKind deps s e with ⟨idle, -, -⟩ | ⟨id, now, g, row, rfl, idle, -, -, -⟩ |
      ⟨id, ok, now, g, rfl, hpending, htables, hcalls⟩
    · cases e with
      | proceed id ok now =>
          intro g hg
          rw [idle id ok now rfl] at hg
          cases hg
      | _ => trivial
    · intro g' hg'
      rw [idle] at hg'
      cases hg'
    · have hok : ok = true := by
        by_contra hfail
        rw [Bool.not_eq_true] at hfail
        subst hfail
        -- nobody else can have been granted the invite
        obtain ⟨row, hrow, hby⟩ :=
          (RedeemedBy.congr (invites_of_ends htables)).mpr (h.pending id g hpending)
        rcases hlaw.redeemed g.1.1 row g.2.id hrow hby with ⟨g', hg', hid, -⟩ | ⟨i, g', hg', hid, -⟩
        · rcases mem_grants_snoc.mp hg' with hold | hnew
          · exact (h.granted g' hold).2 id g hpending hid.symm
          · cases hnew
        · rw [hcalls] at hg'
          split_ifs at hg' with hi
          exact hi (h.alone i id g' g hg' hpending hid)
      subst hok
      rintro g' hg'
      cases hpending.symm.trans hg'
      have haccess := hlaw.access g hpending
      rw [htables] at haccess
      exact ⟨rfl, (asInvited_iff s.tables).mp haccess⟩
  · intro hgrants
    have hkept : Kept (hist ++ [(s, e)]) (sharingStep deps s e) := h.step hgrants
    refine ⟨fun g hg g' hg' hids => hkept.single hg hg' hids,
      fun id row u hrow hu => hkept.redeemed id u ⟨row, hrow, hu⟩, fun g hg => ?_⟩
    rcases stepKind deps s e with ⟨idle, -, -⟩ | ⟨id, now, g', row, rfl, idle, -, -, -⟩ |
      ⟨id, ok, now, g', rfl, hpending, htables, hcalls⟩
    · rw [granted_eq_none idle] at hg
      cases hg
    · exact absurd (idle.symm.trans hg) nofun
    · obtain ⟨rfl, hfinds⟩ := hgrants g' hpending
      cases hpending.symm.trans hg
      rw [htables]
      exact (asInvited_iff s.tables).mpr hfinds

/-- **What an invite gives.** From any accounts, members, vaults and unredeemed invites, the law holds
along a run exactly when no call that has redeemed its invite fails to grant it, and no vault that the
user finds under the name hides the invite's. -/
theorem inviteLaw_iff (deps : TokenDeps) (db : Database) (invites : Table Text VaultInviteRow)
    (hfree : ∀ id row, invites.lookup id = some row → row.redeemedAt = none ∧ row.redeemedBy = none)
    (es : List SharingEvent) :
    Always (sharingStep deps) (InviteLaw deps) (.start db invites) es ↔
      Always (sharingStep deps) (fun _ => Grants) (.start db invites) es := by
  refine always_iff_of_invariant (kept_start db hfree) (fun es e hI => inviteLaw_step_iff hI) ?_
  intro es e hI hlaw
  exact hI.step ((inviteLaw_step_iff hI).mp hlaw)

/-! ### Vaults of one name -/

/-- Two tokens: thirty-two zeros, and thirty-two ones. -/
def sampleToken (byte : Bool) : Text :=
  (List.replicate 32 ['0', if byte then '1' else '0']).flatten

/-- The libraries on the two tokens. -/
def sampleDeps : TokenDeps where
  hexDecode t :=
    if t = sampleToken false then some (.replicate 32 0)
    else if t = sampleToken true then some (.replicate 32 1) else none
  hash raw :=
    if raw = .replicate 32 0 then
      [42, 218, 131, 193, 129, 154, 83, 114, 218, 225, 35, 143, 193, 222, 209, 35, 200, 16, 79, 218, 161,
        88, 98, 170, 238, 105, 66, 138, 24, 32, 252, 218]
    else
      [149, 21, 4, 144, 113, 237, 145, 49, 73, 168, 13, 59, 183, 137, 31, 205, 76, 108, 30, 61, 20, 173,
        135, 137, 57, 168, 15, 155, 154, 145, 224, 140]

def sampleInvite (tenant : String) (byte : Bool) (role : VaultShareRole) : VaultInviteRow where
  tenantId := some tenant.toList
  vaultId := "notes".toList
  tokenHash := sampleDeps.hash (.replicate 32 (if byte then 1 else 0))
  role := role
  createdBy := "usr_1".toList
  expiresAt := 1000
  redeemedAt := none
  redeemedBy := none

/-- Alice and Carol each invite to their vault `notes`. -/
def sampleInvites : Table Text VaultInviteRow :=
  (AList.insert "inv_1".toList (sampleInvite "alice" false .editor) ∅).insert "inv_2".toList
    (sampleInvite "carol" true .viewer)

def bob : UserAccount :=
  ⟨"usr_2".toList, "bob@x.org".toList, "hash".toList, "bob".toList, true, none, none⟩

def acceptBy (id : ℕ) (byte : Bool) (ok : Bool) : List SharingEvent :=
  [.acceptInvite id bob (sampleToken byte), .proceed id true 100, .proceed id true 101,
    .proceed id ok 102]

/-- Bob has a vault `notes` himself. -/
def ownVault : List SharingEvent :=
  .registerTenantVault (some "bob".toList) "notes".toList :: acceptBy 1 false true

/-- Bob accepts both invites, one after the other. -/
def twoInvites : List SharingEvent := acceptBy 1 false true ++ acceptBy 2 true true

/-- His member row is not written. -/
def failedGrant : List SharingEvent := acceptBy 1 false false

/-- What Bob gets of an invite, at the end of a run. -/
def bobGets (es : List SharingEvent) : Answer ResolvedVaultAccess :=
  resolveVaultAccess (run (sharingStep sampleDeps) (.start (.start ∅) sampleInvites) es).tables.db bob
    "notes".toList true true

/-- One vault of the user's own, one other invite or one failed statement is enough to break the law. -/
theorem not_inviteLaw_of_runs :
    ¬ Always (sharingStep sampleDeps) (InviteLaw sampleDeps) (.start (.start ∅) sampleInvites) ownVault ∧
    ¬ Always (sharingStep sampleDeps) (InviteLaw sampleDeps) (.start (.start ∅) sampleInvites) twoInvites ∧
    ¬ Always (sharingStep sampleDeps) (InviteLaw sampleDeps) (.start (.start ∅) sampleInvites)
      failedGrant := by
  refine ⟨fun h => ?_, fun h => ?_, fun h => ?_⟩
  · have hlaw := h (ownVault.take 4) (.proceed 1 true 102) [] rfl
    obtain ⟨access, haccess, hinvited⟩ :=
      hlaw.access (("inv_1".toList, sampleInvite "alice" false .editor), bob) (by decide +kernel)
    have hown : bobGets ownVault = .ok ⟨some "bob".toList, .owner⟩ := by decide +kernel
    rw [← Except.ok.inj (hown.symm.trans haccess)] at hinvited
    rcases hinvited with hsame | ⟨-, htenant⟩
    · exact absurd hsame (by decide +kernel)
    · exact absurd htenant (by decide +kernel)
  · have hlaw := h (twoInvites.take 7) (.proceed 2 true 102) [] rfl
    obtain ⟨access, haccess, hinvited⟩ :=
      hlaw.access (("inv_2".toList, sampleInvite "carol" true .viewer), bob) (by decide +kernel)
    have hfirst : bobGets twoInvites = .ok ⟨some "alice".toList, .editor⟩ := by decide +kernel
    rw [← Except.ok.inj (hfirst.symm.trans haccess)] at hinvited
    rcases hinvited with hsame | ⟨hsame, -⟩
    · exact absurd hsame (by decide +kernel)
    · exact absurd hsame (by decide +kernel)
  · have hlaw := h (failedGrant.take 3) (.proceed 1 false 102) [] rfl
    have hrow : ((sharingStep sampleDeps (run (sharingStep sampleDeps)
        (.start (.start ∅) sampleInvites) (failedGrant.take 3))
          (.proceed 1 false 102)).tables.invites.lookup "inv_1".toList) =
        some { sampleInvite "alice" false .editor with
          redeemedAt := some 101, redeemedBy := some bob.id } := by decide +kernel
    rcases hlaw.redeemed _ _ _ hrow rfl with ⟨g, hg, -⟩ | ⟨i, g, hg, -⟩
    · have hnone : grants (history (sharingStep sampleDeps) (.start (.start ∅) sampleInvites)
          failedGrant) = [] := by decide +kernel
      exact absurd (hnone ▸ hg) List.not_mem_nil
    · have hidle : ∀ e ∈ (run (sharingStep sampleDeps) (.start (.start ∅) sampleInvites)
          failedGrant).calls.entries, (e.2.pending).isNone = true := by decide +kernel
      obtain ⟨call, hcall, hpending⟩ := Option.bind_eq_some_iff.mp hg
      have hnone := hidle ⟨i, call⟩ (Table.mem_entries_iff.mpr hcall)
      rw [hpending] at hnone
      cases hnone

/-- One invite, with nothing in its way. -/
theorem inviteLaw_of_acceptBy :
    Always (sharingStep sampleDeps) (InviteLaw sampleDeps) (.start (.start ∅) sampleInvites)
        (acceptBy 1 false true) ∧
      bobGets (acceptBy 1 false true) = .ok ⟨some "alice".toList, .editor⟩ := by
  refine ⟨(inviteLaw_iff sampleDeps (.start ∅) sampleInvites ?_ _).mpr ?_, by decide +kernel⟩
  · apply (Table.forall_entries_iff (t := sampleInvites)
      (P := fun _ row => row.redeemedAt = none ∧ row.redeemedBy = none)).mp
    decide +kernel
  · exact always_of_check (by decide +kernel)

end DiskArcana.Sharing
