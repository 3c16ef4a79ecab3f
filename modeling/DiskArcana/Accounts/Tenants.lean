import DiskArcana.Accounts.Routes

/-!
# Tenants and their members

A tenant is a text that comes from a request: the tenant a signup asks for, the local part of an e-mail
address, or the slug of an organization. None of the routes looks whether another user has it already,
and a new account resets the plan tier of its tenant to the free one.

So tenants are kept apart along a run exactly when every account and every organization that is made
gets a tenant of its own (`tenants_apart_iff`).
-/

namespace DiskArcana.Accounts

open DiskArcana.Lib DiskArcana.Lib.Trace

/-! ## Events -/

/-- What principals do, and changes of plan tiers from outside, which the billing webhook makes. A bearer is
given as the account it resolves to, a vault registration with the user whose device uploads. -/
inductive AccountEvent where
  | signup (body : SignupRequest) (draw : SignupDraw) (now : ℤ) (db : AccountHealth)
  | oauthLogin (exchange : OAuthExchange) (userId : Text) (now : ℤ) (db : AccountHealth)
  | createOrg (userId : Text) (body : CreateOrgRequest) (orgId : Text) (db : OrgHealth)
  | recordVaultUsage (userId : Text) (tenantHeader : Option Text) (share : Text) (db : Bool)
  | setPlanTier (tenantId : Option Text) (tier : PlanTier)

section

variable (deps : Deps) (state : AuthHttpState) (billingActive : Bool)

def accountStep (s : Database) : AccountEvent → Database
  | .signup body draw now db => (signupInner deps state s body draw now db).2
  | .oauthLogin exchange userId now db =>
    (loginOrCreateOauthUser deps state s exchange userId now db).2
  | .createOrg userId body orgId db =>
    match s.users.getUserById userId with
    | none => s
    | some user => (createOrg s user body orgId db).2
  | .recordVaultUsage _ tenantHeader share db =>
    recordVaultUsage s billingActive tenantHeader share db
  | .setPlanTier tenantId tier => s.setPlanTier tenantId tier

/-! ## Membership -/

/-- The principal belongs to the tenant: it is the tenant of its account, or of an organization that it
is a member of. -/
def Bound (s : Database) (p t : Text) : Prop :=
  (∃ u ∈ s.users.rows, u.id = p ∧ u.tenantId = t) ∨
    ∃ o ∈ s.orgs, o.tenantId = t ∧ ∃ m ∈ s.members, m.orgId = o.id ∧ m.userId = p

/-- Some user or organization has the tenant. -/
def InUse (s : Database) (t : Text) : Prop :=
  (∃ u ∈ s.users.rows, u.tenantId = t) ∨ ∃ o ∈ s.orgs, o.tenantId = t

/-- The tenant belongs to another user, or to an organization. -/
def Taken (s : Database) (p t : Text) : Prop :=
  (∃ u ∈ s.users.rows, u.id ≠ p ∧ u.tenantId = t) ∨ ∃ o ∈ s.orgs, o.tenantId = t

/-- The tenant exists: somebody has it, a vault is registered for it, or a plan tier is stored. -/
def Known (s : Database) (t : Text) : Prop :=
  InUse s t ∨ (∃ x ∈ s.vaults, x.1 = some t) ∨ (s.tiers.lookup (some t)).isSome = true

/-- What a step owes. Nobody is newly bound to a tenant of others, ownership of a vault goes to the
user who registered it, and no stored plan tier of an existing tenant changes but from outside. -/
structure TenantLaw (hist : List (Database × AccountEvent)) (s : Database) (e : AccountEvent) :
    Prop where
  apart : ∀ p t, Bound (accountStep deps state billingActive s e) p t → ¬ Bound s p t → ¬ Taken s p t
  owner : ∀ u ∈ (accountStep deps state billingActive s e).users.rows, ∀ vault q q' access,
    resolveVaultAccess (accountStep deps state billingActive s e) u vault q q' = .ok access →
      access.kind = .owner →
        ∃ y ∈ hist ++ [(s, e)], ∃ db, y.2 = .recordVaultUsage u.id (some u.tenantId) vault db
  tier : (∀ t tier, e ≠ .setPlanTier t tier) → ∀ t, Known s t →
    (accountStep deps state billingActive s e).tiers.lookup (some t) = s.tiers.lookup (some t)

/-- A vault is registered for a tenant by one of its members. -/
def OnBehalf (s : Database) : AccountEvent → Prop
  | .recordVaultUsage p (some t) _ _ => t ≠ [] → Bound s p t
  | _ => True

/-! ## What a step makes -/

/-- The account that an event is about to make, and whether the plan tier is written with it. -/
def newAccount (s : Database) : AccountEvent → Option (UserAccount × Bool)
  | .signup body draw _ db =>
    match signupAccount state body draw with
    | .error _ => none
    | .ok u => if db.create ∧ ¬ s.users.Clashes u then some (u, db.tier) else none
  | .oauthLogin exchange userId _ db =>
    if validateEmail exchange.identity.email ∧ db.lookup ∧
        s.users.getUserByOauth exchange.identity.provider exchange.identity.subject = none then
      match defaultTenantFromEmail exchange.identity.email with
      | none => none
      | some tenantId =>
        let u := oauthAccount exchange.identity tenantId userId
        if db.create ∧ ¬ s.users.Clashes u then some (u, db.tier) else none
    else none
  | _ => none

/-- The organization that an event is about to make, and whether its creator becomes a member. -/
def newOrg (s : Database) : AccountEvent → Option (OrganizationRow × Bool)
  | .createOrg userId body orgId db =>
    match s.users.getUserById userId with
    | none => none
    | some user =>
      match orgRow s user body orgId db.slugLookup with
      | .error _ => none
      | .ok o =>
        if (s.createOrganization o db.create).isSome then
          some (o, (s.addOrganizationMember ⟨o.id, user.id, .owner⟩ db.addMember).isSome)
        else none
  | _ => none

/-- The tenant of an account about to be made is new, unless for a tier that is free already; and an
organization is about to be made with a tenant that no user has, or that its creator has. -/
structure KeepsApart (s : Database) (e : AccountEvent) : Prop where
  account : ∀ u tier, newAccount state s e = some (u, tier) → ¬ InUse s u.tenantId ∧
    (tier = true → Known s u.tenantId → s.tiers.lookup (some u.tenantId) = some .free)
  org : ∀ o, newOrg s e = some (o, true) → ∀ v ∈ s.users.rows, v.tenantId = o.tenantId →
    Bound s o.createdBy o.tenantId

instance (s : Database) (p t : Text) : Decidable (Bound s p t) := by
  unfold Bound
  infer_instance

instance (s : Database) (t : Text) : Decidable (InUse s t) := by
  unfold InUse
  infer_instance

instance (s : Database) (p t : Text) : Decidable (Taken s p t) := by
  unfold Taken
  infer_instance

instance (s : Database) (t : Text) : Decidable (Known s t) := by
  unfold Known
  infer_instance

instance (s : Database) : (e : AccountEvent) → Decidable (OnBehalf s e)
  | .recordVaultUsage p (some t) _ _ => inferInstanceAs (Decidable (t ≠ [] → Bound s p t))
  | .recordVaultUsage _ none _ _ => isTrue trivial
  | .signup .. | .oauthLogin .. | .createOrg .. | .setPlanTier .. => isTrue trivial

/-- What `KeepsApart` says of the account and the organization that an event makes. -/
theorem keepsApart_iff {s : Database} {e : AccountEvent} :
    KeepsApart state s e ↔
      (∀ x ∈ newAccount state s e, ¬ InUse s x.1.tenantId ∧ (x.2 = true → Known s x.1.tenantId →
        s.tiers.lookup (some x.1.tenantId) = some .free)) ∧
      ∀ x ∈ newOrg s e, x.2 = true → ∀ v ∈ s.users.rows, v.tenantId = x.1.tenantId →
        Bound s x.1.createdBy x.1.tenantId := by
  constructor
  · intro h
    refine ⟨fun x hx => h.account x.1 x.2 hx, fun x hx hadded => h.org x.1 ?_⟩
    rw [← hadded]
    exact hx
  · rintro ⟨haccount, horg⟩
    exact ⟨fun u tier hnew => haccount (u, tier) hnew, fun o hnew => horg (o, true) hnew rfl⟩

instance (s : Database) (e : AccountEvent) : Decidable (KeepsApart state s e) :=
  decidable_of_iff' _ (keepsApart_iff state)

/-- What an event does to the database. -/
inductive Effect (s : Database) (e : AccountEvent) : Database → Prop where
  | nothing (account : newAccount state s e = none) (org : newOrg s e = none) : Effect s e s
  | account (u : UserAccount) (tier : Bool) (free : ¬ s.users.Clashes u)
      (account : newAccount state s e = some (u, tier)) (org : newOrg s e = none) :
      Effect s e (Database.bootstrapTier { s with users := s.users.append u free } u.tenantId tier)
  | org (o : OrganizationRow) (added : Bool) (account : newAccount state s e = none)
      (org : newOrg s e = some (o, added)) (id : ∀ o' ∈ s.orgs, o'.id ≠ o.id)
      (tenant : ∀ o' ∈ s.orgs, o'.tenantId ≠ o.tenantId)
      (creator : ∃ u ∈ s.users.rows, u.id = o.createdBy) :
      Effect s e
        { s with
          orgs := s.orgs ++ [o]
          members := if added then s.members ++ [⟨o.id, o.createdBy, .owner⟩] else s.members }
  | vault (p : Text) (header : Option Text) (share : Text) (db : Bool)
      (event : e = .recordVaultUsage p header share db) :
      Effect s e (s.registerTenantVault (header.filter fun t => t ≠ []) share)
  | tier (t : Option Text) (tier : PlanTier) (event : e = .setPlanTier t tier) :
      Effect s e (s.setPlanTier t tier)

variable {deps state billingActive} {s : Database}

theorem createUserAccount_of_new {u : UserAccount} {create : Bool} (hcreate : create = true)
    (hfree : ¬ s.users.Clashes u) :
    s.createUserAccount u create = .ok { s with users := s.users.append u hfree } := by
  unfold Database.createUserAccount UserTable.insert
  rw [if_pos hcreate, dif_neg hfree]

theorem createUserAccount_of_not_new {u : UserAccount} {create : Bool}
    (h : ¬ (create = true ∧ ¬ s.users.Clashes u)) :
    ∃ err, s.createUserAccount u create = .error err := by
  unfold Database.createUserAccount UserTable.insert
  by_cases hcreate : create = true
  · rw [if_pos hcreate, dif_pos (by_contra fun hfree => h ⟨hcreate, hfree⟩)]
    exact ⟨_, rfl⟩
  · rw [if_neg hcreate]
    exact ⟨_, rfl⟩

theorem effect_signup (body : SignupRequest) (draw : SignupDraw) (now : ℤ) (db : AccountHealth) :
    Effect state s (.signup body draw now db) (signupInner deps state s body draw now db).2 := by
  rcases haccount : signupAccount state body draw with err | u
  · have hnone : newAccount state s (.signup body draw now db) = none := by
      simp only [newAccount, haccount]
    unfold signupInner
    rw [haccount]
    exact .nothing hnone rfl
  · by_cases hnew : db.create = true ∧ ¬ s.users.Clashes u
    · have hsome : newAccount state s (.signup body draw now db) = some (u, db.tier) := by
        simp only [newAccount, haccount, if_pos hnew]
      unfold signupInner
      rw [haccount]
      dsimp only
      rw [createUserAccount_of_new hnew.1 hnew.2]
      exact .account u db.tier hnew.2 hsome rfl
    · have hnone : newAccount state s (.signup body draw now db) = none := by
        simp only [newAccount, haccount, if_neg hnew]
      obtain ⟨err, herr⟩ := createUserAccount_of_not_new hnew
      unfold signupInner
      rw [haccount]
      dsimp only
      rw [herr]
      cases err
      · exact .nothing hnone rfl
      · exact .nothing hnone rfl

theorem effect_oauthLogin (exchange : OAuthExchange) (userId : Text) (now : ℤ) (db : AccountHealth) :
    Effect state s (.oauthLogin exchange userId now db)
      (loginOrCreateOauthUser deps state s exchange userId now db).2 := by
  rw [loginOrCreateOauthUser_snd]
  by_cases hfirst : validateEmail exchange.identity.email = true ∧ db.lookup = true ∧
      s.users.getUserByOauth exchange.identity.provider exchange.identity.subject = none
  · obtain ⟨hemail, hlookup, huser⟩ := hfirst
    unfold selectOauthUser
    rw [if_pos hemail, if_pos hlookup, huser]
    rcases htenant : defaultTenantFromEmail exchange.identity.email with _ | tenantId
    · refine .nothing ?_ rfl
      simp only [newAccount, if_pos (⟨hemail, hlookup, huser⟩ : _ ∧ _ ∧ _), htenant]
    · dsimp only
      by_cases hnew : db.create = true ∧
          ¬ s.users.Clashes (oauthAccount exchange.identity tenantId userId)
      · rw [createUserAccount_of_new hnew.1 hnew.2]
        refine .account (oauthAccount exchange.identity tenantId userId) db.tier hnew.2 ?_ rfl
        simp only [newAccount, if_pos (⟨hemail, hlookup, huser⟩ : _ ∧ _ ∧ _), htenant, if_pos hnew]
      · have hnone : newAccount state s (.oauthLogin exchange userId now db) = none := by
          simp only [newAccount, if_pos (⟨hemail, hlookup, huser⟩ : _ ∧ _ ∧ _), htenant, if_neg hnew]
        obtain ⟨err, herr⟩ := createUserAccount_of_not_new hnew
        rw [herr]
        cases err
        · dsimp only
          split
          · exact .nothing hnone rfl
          · exact .nothing hnone rfl
        · exact .nothing hnone rfl
  · have hnone : newAccount state s (.oauthLogin exchange userId now db) = none := by
      simp only [newAccount, if_neg hfirst]
    have hsame : (selectOauthUser s exchange.identity userId db).2 = s := by
      unfold selectOauthUser
      split
      · split
        · split
          · rfl
          · rename_i hemail hlookup _ huser
            exact absurd ⟨hemail, hlookup, huser⟩ hfirst
        · rfl
      · rfl
    rw [hsame]
    exact .nothing hnone rfl

/-- The account that asks is the creator. -/
theorem createdBy_of_orgRow {user : UserAccount} {body : CreateOrgRequest} {orgId : Text}
    {slugLookup : Bool} {o : OrganizationRow} (h : orgRow s user body orgId slugLookup = .ok o) :
    o.createdBy = user.id := by
  unfold orgRow at h
  dsimp only at h
  split at h
  · exact nomatch h
  · split at h
    · exact nomatch h
    · split at h
      · exact nomatch h
      · cases h
        rfl

theorem effect_createOrg (userId : Text) (body : CreateOrgRequest) (orgId : Text) (db : OrgHealth) :
    Effect state s (.createOrg userId body orgId db)
      (accountStep deps state billingActive s (.createOrg userId body orgId db)) := by
  have hacc : newAccount state s (.createOrg userId body orgId db) = none := rfl
  have hnothing : newOrg s (.createOrg userId body orgId db) = none →
      accountStep deps state billingActive s (.createOrg userId body orgId db) = s →
        Effect state s (.createOrg userId body orgId db)
          (accountStep deps state billingActive s (.createOrg userId body orgId db)) := by
    intro hnone hsame
    rw [hsame]
    exact .nothing hacc hnone
  rcases huser : s.users.getUserById userId with _ | user
  · exact hnothing (by simp only [newOrg, huser]) (by simp only [accountStep, huser])
  rcases hrow : orgRow s user body orgId db.slugLookup with err | o
  · exact hnothing (by simp only [newOrg, huser, hrow])
      (by simp only [accountStep, huser, createOrg, hrow])
  by_cases hfree : db.create = true ∧ o.id ∉ s.orgs.map OrganizationRow.id ∧
      ¬ s.organizationSlugTaken o.slug = true ∧ o.tenantId ∉ s.orgs.map OrganizationRow.tenantId
  · have hcreate : s.createOrganization o db.create = some { s with orgs := s.orgs ++ [o] } :=
      if_pos hfree
    have hnew : newOrg s (.createOrg userId body orgId db) =
        some (o, (s.addOrganizationMember ⟨o.id, user.id, .owner⟩ db.addMember).isSome) := by
      simp only [newOrg, huser, hrow, hcreate, Option.isSome_some, if_true]
    have hcreator := createdBy_of_orgRow hrow
    have heffect := Effect.org o _ hacc hnew
      (fun o' ho' heq => hfree.2.1 (heq ▸ List.mem_map_of_mem ho'))
      (fun o' ho' heq => hfree.2.2.2 (heq ▸ List.mem_map_of_mem ho'))
      ⟨user, (UserTable.getUserById_eq_some.mp huser).1, hcreator.symm⟩
    convert heffect using 1
    simp only [accountStep, huser, createOrg, hrow, hcreate, hcreator]
    unfold Database.addOrganizationMember
    by_cases hadd : db.addMember = true ∧
        (o.id, user.id) ∉ s.members.map fun r => (r.orgId, r.userId)
    · simp only [if_pos hadd, Option.isSome_some, if_true]
    · simp only [if_neg hadd, Option.isSome_none, Bool.false_eq_true, if_false]
  · have hcreate : s.createOrganization o db.create = none := if_neg hfree
    refine hnothing ?_ (by simp only [accountStep, huser, createOrg, hrow, hcreate])
    simp only [newOrg, huser, hrow, hcreate]
    rfl

/-- **What an event does.** -/
theorem effect_accountStep (e : AccountEvent) :
    Effect state s e (accountStep deps state billingActive s e) := by
  cases e with
  | signup body draw now db => exact effect_signup body draw now db
  | oauthLogin exchange userId now db => exact effect_oauthLogin exchange userId now db
  | createOrg userId body orgId db => exact effect_createOrg userId body orgId db
  | recordVaultUsage p header share db =>
      show Effect state s _ (recordVaultUsage s billingActive header share db)
      unfold recordVaultUsage
      split_ifs with hactive
      · exact .vault p header share db rfl
      · exact .nothing rfl rfl
  | setPlanTier t tier => exact .tier t tier rfl

end

/-! ## Who is bound to what -/

section

variable {state : AuthHttpState} {s s' : Database} {e : AccountEvent} {p t : Text}

theorem bound_account {u : UserAccount} {tier : Bool} {free : ¬ s.users.Clashes u} :
    Bound (Database.bootstrapTier { s with users := s.users.append u free } u.tenantId tier) p t ↔
      Bound s p t ∨ (p = u.id ∧ t = u.tenantId) := by
  unfold Bound
  simp only [Database.bootstrapTier_users, Database.bootstrapTier_orgs,
    Database.bootstrapTier_members, UserTable.append, List.mem_append, List.mem_singleton]
  constructor
  · rintro (⟨v, hv | rfl, hid, ht⟩ | h)
    · exact .inl (.inl ⟨v, hv, hid, ht⟩)
    · exact .inr ⟨hid.symm, ht.symm⟩
    · exact .inl (.inr h)
  · rintro ((⟨v, hv, h⟩ | h) | ⟨rfl, rfl⟩)
    · exact .inl ⟨v, .inl hv, h⟩
    · exact .inr h
    · exact .inl ⟨u, .inr rfl, rfl, rfl⟩

/-- Members are users and belong to organizations: the foreign keys of the table. -/
structure MembersKnown (s : Database) : Prop where
  user : ∀ m ∈ s.members, ∃ u ∈ s.users.rows, u.id = m.userId
  org : ∀ m ∈ s.members, ∃ o ∈ s.orgs, o.id = m.orgId

theorem bound_org {o : OrganizationRow} {added : Bool} (hknown : MembersKnown s)
    (hid : ∀ o' ∈ s.orgs, o'.id ≠ o.id) :
    Bound { s with
        orgs := s.orgs ++ [o]
        members := if added then s.members ++ [⟨o.id, o.createdBy, .owner⟩] else s.members } p t ↔
      Bound s p t ∨ (added = true ∧ p = o.createdBy ∧ t = o.tenantId) := by
  have hold : ∀ m ∈ s.members, m.orgId ≠ o.id := by
    intro m hm heq
    obtain ⟨o', ho', hid'⟩ := hknown.org m hm
    exact hid o' ho' (hid'.trans heq)
  unfold Bound
  simp only [List.mem_append, List.mem_singleton]
  constructor
  · rintro (h | ⟨o', ho', ht, m, hm, horg, huser⟩)
    · exact .inl (.inl h)
    · have hm' : m ∈ s.members ∨ (added = true ∧ m = ⟨o.id, o.createdBy, .owner⟩) := by
        cases added
        · exact .inl hm
        · exact (List.mem_append.mp hm).imp id fun h => ⟨rfl, List.mem_singleton.mp h⟩
      rcases hm' with hm' | ⟨hadded, rfl⟩
      · rcases ho' with ho' | rfl
        · exact .inl (.inr ⟨o', ho', ht, m, hm', horg, huser⟩)
        · exact absurd horg (hold m hm')
      · rcases ho' with ho' | rfl
        · exact absurd horg.symm (hid o' ho')
        · exact .inr ⟨hadded, huser.symm, ht.symm⟩
  · rintro ((h | ⟨o', ho', ht, m, hm, h⟩) | ⟨rfl, rfl, rfl⟩)
    · exact .inl h
    · refine .inr ⟨o', .inl ho', ht, m, ?_, h⟩
      cases added
      · exact hm
      · exact List.mem_append_left _ hm
    · exact .inr ⟨o, .inr rfl, rfl, ⟨o.id, o.createdBy, .owner⟩, by simp, rfl, rfl⟩

/-- An event binds at most one principal to one tenant: the user it makes, or the creator of an
organization. -/
theorem bound_of_effect (hknown : MembersKnown s) (heffect : Effect state s e s') (h : Bound s' p t) :
    Bound s p t ∨ (∃ u tier, newAccount state s e = some (u, tier) ∧ p = u.id ∧ t = u.tenantId) ∨
      ∃ o, newOrg s e = some (o, true) ∧ p = o.createdBy ∧ t = o.tenantId := by
  cases heffect with
  | nothing hacc horg => exact .inl h
  | account u tier hfree hacc horg =>
      exact (bound_account.mp h).imp id fun hp => .inl ⟨u, tier, hacc, hp⟩
  | org o added hacc horg hid htenant hcreator =>
      refine ((bound_org hknown hid).mp h).imp id ?_
      rintro ⟨rfl, hp⟩
      exact .inr ⟨o, horg, hp⟩
  | vault q header share db he =>
      rw [Database.registerTenantVault_eq] at h
      exact .inl h
  | tier t' tier he => exact .inl h

/-- Nobody is ever unbound. -/
theorem bound_mono (hknown : MembersKnown s) (heffect : Effect state s e s') (h : Bound s p t) :
    Bound s' p t := by
  cases heffect with
  | nothing hacc horg => exact h
  | account u tier hfree hacc horg => exact bound_account.mpr (.inl h)
  | org o added hacc horg hid htenant hcreator => exact (bound_org hknown hid).mpr (.inl h)
  | vault q header share db he =>
      rw [Database.registerTenantVault_eq]
      exact h
  | tier t' tier he => exact h

theorem membersKnown_of_effect (hknown : MembersKnown s) (heffect : Effect state s e s') :
    MembersKnown s' := by
  cases heffect with
  | nothing hacc horg => exact hknown
  | account u tier hfree hacc horg =>
      refine ⟨fun m hm => ?_, fun m hm => ?_⟩
      · rw [Database.bootstrapTier_members] at hm
        obtain ⟨v, hv, hid⟩ := hknown.user m hm
        rw [Database.bootstrapTier_users]
        exact ⟨v, List.mem_append_left _ hv, hid⟩
      · rw [Database.bootstrapTier_members] at hm
        rw [Database.bootstrapTier_orgs]
        exact hknown.org m hm
  | org o added hacc horg hid htenant hcreator =>
      have hmem : ∀ m : OrgMemberRow,
          (m ∈ if added then s.members ++ [⟨o.id, o.createdBy, .owner⟩] else s.members) →
            m ∈ s.members ∨ m = ⟨o.id, o.createdBy, .owner⟩ := by
        intro m hm
        cases added
        · exact .inl hm
        · exact (List.mem_append.mp hm).imp id List.mem_singleton.mp
      refine ⟨fun m hm => ?_, fun m hm => ?_⟩
      · rcases hmem m hm with hm | rfl
        · exact hknown.user m hm
        · exact hcreator
      · rcases hmem m hm with hm | rfl
        · obtain ⟨o', ho', hid'⟩ := hknown.org m hm
          exact ⟨o', List.mem_append_left _ ho', hid'⟩
        · exact ⟨o, List.mem_append_right _ (List.mem_singleton_self o), rfl⟩
  | vault q header share db he =>
      rw [Database.registerTenantVault_eq]
      exact ⟨hknown.user, hknown.org⟩
  | tier t' tier he => exact ⟨hknown.user, hknown.org⟩

/-- No event makes an account and an organization. -/
theorem newOrg_of_newAccount {x : UserAccount × Bool} (h : newAccount state s e = some x) :
    newOrg s e = none := by
  cases e with
  | createOrg userId body orgId db => exact nomatch h
  | signup body draw now db => rfl
  | oauthLogin exchange userId now db => rfl
  | recordVaultUsage p header share db => rfl
  | setPlanTier t tier => rfl

theorem not_bound_of_free {u : UserAccount} (hknown : MembersKnown s) (hfree : ¬ s.users.Clashes u)
    (t : Text) : ¬ Bound s u.id t := by
  have hid : ∀ v ∈ s.users.rows, v.id ≠ u.id := by
    intro v hv heq
    exact hfree (.inl (heq ▸ List.mem_map_of_mem hv))
  rintro (⟨v, hv, heq, -⟩ | ⟨o, -, -, m, hm, -, heq⟩)
  · exact hid v hv heq
  · obtain ⟨v, hv, hvm⟩ := hknown.user m hm
    exact hid v hv (hvm.trans heq)

/-! ## One step -/

/-- **When a step binds nobody to a tenant of others.** -/
theorem apart_iff (hknown : MembersKnown s) (heffect : Effect state s e s') :
    (∀ p t, Bound s' p t → ¬ Bound s p t → ¬ Taken s p t) ↔
      (∀ u tier, newAccount state s e = some (u, tier) → ¬ InUse s u.tenantId) ∧
        ∀ o, newOrg s e = some (o, true) → ∀ v ∈ s.users.rows, v.tenantId = o.tenantId →
          Bound s o.createdBy o.tenantId := by
  constructor
  · intro hapart
    cases heffect with
    | account u tier hfree hacc horg =>
        refine ⟨?_, fun o ho => (nomatch horg.symm.trans ho)⟩
        intro u' tier' hacc' hused
        cases hacc.symm.trans hacc'
        refine hapart u.id u.tenantId (bound_account.mpr (.inr ⟨rfl, rfl⟩))
          (not_bound_of_free hknown hfree _) (hused.imp ?_ id)
        rintro ⟨v, hv, ht⟩
        refine ⟨v, hv, fun heq => hfree (.inl ?_), ht⟩
        rw [← heq]
        exact List.mem_map_of_mem hv
    | org o added hacc horg hid htenant hcreator =>
        refine ⟨fun u tier hu => (nomatch hacc.symm.trans hu), ?_⟩
        intro o' ho' v hv ht
        cases horg.symm.trans ho'
        by_contra hnot
        refine hapart o.createdBy o.tenantId ((bound_org hknown hid).mpr (.inr ⟨rfl, rfl, rfl⟩)) hnot
          (.inl ⟨v, hv, fun heq => hnot (.inl ⟨v, hv, heq, ht⟩), ht⟩)
    | nothing hacc horg =>
        exact ⟨fun u tier hu => (nomatch hacc.symm.trans hu),
          fun o ho => (nomatch horg.symm.trans ho)⟩
    | vault q header share db he =>
        subst he
        exact ⟨nofun, nofun⟩
    | tier t' tier he =>
        subst he
        exact ⟨nofun, nofun⟩
  · rintro ⟨haccount, horg⟩ p t hbound hnot htaken
    rcases bound_of_effect hknown heffect hbound with h | ⟨u, tier, hnew, rfl, rfl⟩ |
      ⟨o, hnew, rfl, rfl⟩
    · exact hnot h
    · exact haccount u tier hnew (htaken.imp (fun ⟨v, hv, _, ht⟩ => ⟨v, hv, ht⟩) id)
    · rcases htaken with ⟨v, hv, -, ht⟩ | ⟨o', ho', ht⟩
      · exact hnot (horg o hnew v hv ht)
      · cases heffect with
        | org o'' added hacc horg' hid htenant hcreator =>
            cases horg'.symm.trans hnew
            exact htenant o' ho' ht
        | nothing hacc horg' => exact nomatch horg'.symm.trans hnew
        | account u tier hfree hacc horg' => exact nomatch horg'.symm.trans hnew
        | vault q header share db he =>
            subst he
            exact nomatch hnew
        | tier t' tier he =>
            subst he
            exact nomatch hnew

/-- **When a step leaves the stored plan tiers of existing tenants.** -/
theorem tier_iff (heffect : Effect state s e s') :
    ((∀ t tier, e ≠ .setPlanTier t tier) → ∀ t, Known s t →
      s'.tiers.lookup (some t) = s.tiers.lookup (some t)) ↔
        ∀ u tier, newAccount state s e = some (u, tier) → tier = true → Known s u.tenantId →
          s.tiers.lookup (some u.tenantId) = some .free := by
  cases heffect with
  | account u tier hfree hacc horg =>
      constructor
      · rintro hkeep u' tier' hacc' rfl hknown
        cases hacc.symm.trans hacc'
        have hsame := hkeep (fun t tier he => by subst he; exact nomatch hacc) u.tenantId hknown
        rw [← hsame]
        exact AList.lookup_insert _
      · intro h _ t hknown
        cases tier with
        | false => rfl
        | true =>
            by_cases ht : t = u.tenantId
            · subst ht
              rw [h u true hacc rfl hknown]
              exact AList.lookup_insert _
            · exact AList.lookup_insert_ne (by simpa using ht)
  | nothing hacc horg =>
      exact ⟨fun _ u tier hu => (nomatch hacc.symm.trans hu), fun _ _ _ _ => rfl⟩
  | org o added hacc horg hid htenant hcreator =>
      exact ⟨fun _ u tier hu => (nomatch hacc.symm.trans hu), fun _ _ _ _ => rfl⟩
  | vault q header share db he =>
      subst he
      rw [Database.registerTenantVault_eq]
      exact ⟨fun _ => nofun, fun _ _ _ _ => rfl⟩
  | tier t' tier he =>
      subst he
      exact ⟨fun _ => nofun, fun _ hne => absurd rfl (hne t' tier)⟩

/-! ## Runs -/

/-- Members are known, a tenant has one principal at most, and each vault of a tenant was registered by
that principal. -/
structure Invariant (hist : List (Database × AccountEvent)) (s : Database) : Prop where
  known : MembersKnown s
  alone : ∀ t p q, Bound s p t → Bound s q t → p = q
  registered : ∀ t v, (some t, v) ∈ s.vaults →
    ∃ y ∈ hist, ∃ p db, y.2 = .recordVaultUsage p (some t) v db ∧ Bound s p t

theorem invariant_start (tiers : AList fun _ : Option Text => PlanTier) :
    Invariant [] (Database.start tiers) := by
  refine ⟨⟨nofun, nofun⟩, ?_, nofun⟩
  rintro t p q (⟨u, hu, -⟩ | ⟨o, ho, -⟩)
  · cases hu
  · cases ho

/-- A step that binds nobody to a tenant of others keeps the invariant. -/
theorem Invariant.step {hist : List (Database × AccountEvent)} (hI : Invariant hist s)
    (heffect : Effect state s e s') (hbehalf : OnBehalf s e)
    (hapart : ∀ p t, Bound s' p t → ¬ Bound s p t → ¬ Taken s p t) :
    Invariant (hist ++ [(s, e)]) s' := by
  have hmono : ∀ {p t}, Bound s p t → Bound s' p t := bound_mono hI.known heffect
  -- two principals of a tenant: one of them was there before, or both are new
  have hold : ∀ {t p q}, Bound s' p t → ¬ Bound s p t → Bound s q t → p = q := by
    intro t p q hp hnot hq
    by_contra hne
    refine hapart p t hp hnot ?_
    rcases hq with ⟨v, hv, hid, ht⟩ | ⟨o, ho, ht, -⟩
    · exact .inl ⟨v, hv, fun heq => hne (heq.symm.trans hid), ht⟩
    · exact .inr ⟨o, ho, ht⟩
  refine ⟨membersKnown_of_effect hI.known heffect, ?_, ?_⟩
  · intro t p q hp hq
    by_cases hp' : Bound s p t
    · by_cases hq' : Bound s q t
      · exact hI.alone t p q hp' hq'
      · exact (hold hq hq' hp').symm
    · by_cases hq' : Bound s q t
      · exact hold hp hp' hq'
      · rcases bound_of_effect hI.known heffect hp with h | ⟨u, tier, hnew, rfl, -⟩ |
          ⟨o, hnew, rfl, -⟩
        · exact absurd h hp'
        · rcases bound_of_effect hI.known heffect hq with h | ⟨u', tier', hnew', rfl, -⟩ |
            ⟨o', hnew', rfl, -⟩
          · exact absurd h hq'
          · cases hnew.symm.trans hnew'
            rfl
          · exact nomatch (newOrg_of_newAccount hnew).symm.trans hnew'
        · rcases bound_of_effect hI.known heffect hq with h | ⟨u', tier', hnew', rfl, -⟩ |
            ⟨o', hnew', rfl, -⟩
          · exact absurd h hq'
          · exact nomatch (newOrg_of_newAccount hnew').symm.trans hnew
          · cases hnew.symm.trans hnew'
            rfl
  · intro t v hv
    have hbefore : (some t, v) ∈ s.vaults →
        ∃ y ∈ hist ++ [(s, e)], ∃ p db, y.2 = .recordVaultUsage p (some t) v db ∧ Bound s' p t := by
      intro hv
      obtain ⟨y, hy, p, db, he, hbound⟩ := hI.registered t v hv
      exact ⟨y, List.mem_append_left _ hy, p, db, he, hmono hbound⟩
    cases heffect with
    | nothing hacc horg => exact hbefore hv
    | account u tier hfree hacc horg =>
        rw [Database.bootstrapTier_vaults] at hv
        exact hbefore hv
    | org o added hacc horg hid htenant hcreator => exact hbefore hv
    | vault q header share db he =>
        subst he
        rcases (Database.mem_registerTenantVault s).mp hv with hv | hnew
        · exact hbefore hv
        · obtain ⟨hheader, rfl⟩ := Prod.mk.inj hnew
          obtain ⟨rfl, hne⟩ := Option.filter_eq_some_iff.mp hheader.symm
          exact ⟨_, List.mem_append_right _ (List.mem_singleton_self _), q, db, rfl,
            hmono (hbehalf (by simpa using hne))⟩
    | tier t' tier he => exact hbefore hv

/-- Ownership goes to the user who registered the vault. -/
theorem Invariant.owner {hist : List (Database × AccountEvent)} (hI : Invariant hist s)
    {u : UserAccount} (hu : u ∈ s.users.rows) {vault : Text} {q q' : Bool}
    {access : ResolvedVaultAccess} (haccess : resolveVaultAccess s u vault q q' = .ok access)
    (howner : access.kind = .owner) :
    ∃ y ∈ hist, ∃ db, y.2 = .recordVaultUsage u.id (some u.tenantId) vault db := by
  have hvault : (some u.tenantId, vault) ∈ s.vaults := by
    unfold resolveVaultAccess at haccess
    split_ifs at haccess with hq hexists hq'
    · simpa [Database.vaultExistsForTenant] using hexists
    · split at haccess
      · exact nomatch haccess
      · cases haccess
        rename_i role _
        cases role <;> cases howner
  obtain ⟨y, hy, p, db, he, hbound⟩ := hI.registered _ _ hvault
  rw [hI.alone u.tenantId p u.id hbound (.inl ⟨u, hu, rfl, rfl⟩)] at he
  exact ⟨y, hy, db, he⟩

end

/-- **Tenants are kept apart** along a run in which vaults are registered for tenants by their members,
if and only if every account and every organization that is made gets a tenant of its own. -/
theorem tenants_apart_iff (deps : Deps) (state : AuthHttpState) (billingActive : Bool)
    (tiers : AList fun _ : Option Text => PlanTier) (es : List AccountEvent)
    (hbehalf : Always (accountStep deps state billingActive) (fun _ => OnBehalf) (.start tiers) es) :
    Always (accountStep deps state billingActive) (TenantLaw deps state billingActive)
        (.start tiers) es ↔
      Always (accountStep deps state billingActive) (fun _ => KeepsApart state) (.start tiers) es := by
  refine always_iff_along (I := Invariant) hbehalf (invariant_start tiers) ?_ ?_
  · intro es e hI hF
    have heffect : Effect state (run (accountStep deps state billingActive) (.start tiers) es) e
        (accountStep deps state billingActive
          (run (accountStep deps state billingActive) (.start tiers) es) e) :=
      effect_accountStep e
    constructor
    · intro hlaw
      obtain ⟨haccount, horg⟩ := (apart_iff hI.known heffect).mp hlaw.apart
      have htier := (tier_iff heffect).mp hlaw.tier
      exact ⟨fun u tier hnew => ⟨haccount u tier hnew, htier u tier hnew⟩, horg⟩
    · intro hkeeps
      have hapart := (apart_iff hI.known heffect).mpr
        ⟨fun u tier hnew => (hkeeps.account u tier hnew).1, hkeeps.org⟩
      have hI' := hI.step heffect hF hapart
      refine ⟨hapart, fun u hu vault q q' access haccess => hI'.owner hu haccess, ?_⟩
      exact (tier_iff heffect).mpr fun u tier hnew => (hkeeps.account u tier hnew).2
  · intro es e hI hF hlaw
    exact hI.step (effect_accountStep e) hF hlaw.apart

/-! ### Two addresses with one local part -/

def localOf (id email : String) : AccountEvent :=
  .signup ⟨email.toList, "long-password".toList, none⟩ ⟨id.toList, some [], nonceOf 0xAA⟩ 0
    ⟨true, true, true, true⟩

/-- Alice signs up, buys a plan and uploads to a vault; then someone signs up with another address. -/
def sameLocalPart (email : String) : List AccountEvent :=
  [localOf "usr_1" "alice@x.org", .setPlanTier (some "alice".toList) .pro,
    .recordVaultUsage "usr_1".toList (some "alice".toList) "notes".toList true, localOf "usr_2" email]

def toyDeps : Deps := ⟨fun key message => key ++ message, fun _ claims => some claims.sub, id⟩

/-- The second `alice` gets the tenant of the first, owns her vault, and resets her plan. -/
theorem not_tenants_apart :
    (¬ ∀ deps state billingActive tiers es,
      Always (accountStep deps state billingActive) (fun _ => OnBehalf) (.start tiers) es →
        Always (accountStep deps state billingActive) (TenantLaw deps state billingActive)
          (.start tiers) es) ∧
    let s := run (accountStep toyDeps stubState true) (.start ∅) (sameLocalPart "alice@y.org")
    (∃ u ∈ s.users.rows, u.id = "usr_2".toList ∧
      resolveVaultAccess s u "notes".toList true true = .ok ⟨some "alice".toList, .owner⟩) ∧
        s.tiers.lookup (some "alice".toList) = some .free := by
  refine ⟨fun h => ?_, by decide +kernel, by decide +kernel⟩
  have hlaw := h toyDeps stubState true ∅ (sameLocalPart "alice@y.org")
    (always_of_check (by decide +kernel))
    ((sameLocalPart "alice@y.org").take 3) (localOf "usr_2" "alice@y.org") [] rfl
  exact hlaw.apart "usr_2".toList "alice".toList (by decide +kernel) (by decide +kernel)
    (by decide +kernel)

/-- With another name in front of the `@`, the two stay apart. -/
theorem tenants_apart_of_bob :
    Always (accountStep toyDeps stubState true) (TenantLaw toyDeps stubState true) (.start ∅)
      (sameLocalPart "bob@y.org") := by
  refine (tenants_apart_iff toyDeps stubState true ∅ (sameLocalPart "bob@y.org") ?_).mpr ?_
  · exact always_of_check (by decide +kernel)
  · exact always_of_check (by decide +kernel)

end DiskArcana.Accounts
