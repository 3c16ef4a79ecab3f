import DiskArcana.Lib.Trace
import DiskArcana.Acl.Loader

/-!
# Reloading the access list

The state of the task of `acl/reload.rs` and one reload (`applyLoad`). A run is the list of what the
attempts find on disk. Over every run:

* the enforced table comes from a verified file, and its version never falls;
* a change of the table is broadcast, except between two tables of version 0 with equally many
  entries;
* a verified file of a version that is not lower than the last enforced one leaves the enforcer
  healthy, except the file of the very version that was enforced before a failure: it is refused as
  a regress, and "refuse and keep" then keeps the failure.

`reloadLaw_iff` states these exceptions as a condition on the steps of a run.
-/

namespace DiskArcana.Acl

open DiskArcana.Core DiskArcana.Lib DiskArcana.Server

/-- Source: `acl/mod.rs`, `AclState` -/
inductive AclState where
  | loaded (table : EnforcementTable)
  | unhealthy (reason : UnhealthyReason)

/-- Source: `acl/mod.rs`, `AclError` -/
inductive AclError where
  | unavailable (reason : UnhealthyReason)
  | shareUnknown (share : String) (certFp : CertFingerprint)
  deriving DecidableEq

/-- Source: `acl/mod.rs`, `AclEnforcer::resolve` -/
def AclState.resolve (state : AclState) (certFp : CertFingerprint) (share : String) :
    Except AclError EnforcedRole :=
  match state with
  | .loaded table =>
      match table.lookup certFp share with
      | some role => .ok role
      | none => .error (.shareUnknown share certFp)
  | .unhealthy reason => .error (.unavailable reason)

/-- Source: `acl/reload.rs`, `SessionInvalidate` -/
structure SessionInvalidate where
  fingerprint : CertFingerprint
  newRole : Option EnforcedRole

/-- What a reload writes to the audit log. -/
inductive ReloadAudit where
  | aclLoadOk (version : ℕ) (signedBy : String)
  | aclVersionRegress (stored attempted : ℕ)
  | aclLoadFailure (reason : UnhealthyReason)

/-- The reload task, the enforcer it feeds, and what it has broadcast and logged.
Source: `acl/reload.rs`, `reload_loop` -/
structure Reloader where
  /-- `false` once a load panicked. -/
  running : Bool
  enforcer : AclState
  storedVersion : ℕ
  lastTable : Option EnforcementTable
  sent : List SessionInvalidate
  audit : List ReloadAudit

/-- Source: `acl/mod.rs`, `AclEnforcer::new_unhealthy`; `acl/reload.rs`, `reload_loop` -/
def coldBoot : Reloader :=
  { running := true
    enforcer := .unhealthy .neverLoaded
    storedVersion := 0
    lastTable := none
    sent := []
    audit := [] }

/-- The fingerprint that tells every session to look its role up again. -/
def sentinel : CertFingerprint := List.Vector.replicate 32 0xFF

/-- Source: `acl/reload.rs`, `broadcast_invalidations` -/
def broadcastInvalidations (prev next : EnforcementTable) : List SessionInvalidate :=
  if prev.len ≠ next.len ∨ prev.version ≠ next.version then [⟨sentinel, none⟩] else []

/-- The broadcast of a successful load: none at the first.
Source: `acl/reload.rs`, `apply_load` -/
def invalidations (last : Option EnforcementTable) (next : EnforcementTable) :
    List SessionInvalidate :=
  match last with
  | some prev => broadcastInvalidations prev next
  | none => []

section Reloads

variable (parse : Bytes → Except String AclYamlFile) (path : String)

/-- One reload.
Source: `acl/reload.rs`, `apply_load` -/
def applyLoad (s : Reloader) (a : Attempt) : Reloader :=
  if s.running then
    match loadFromYaml parse path s.storedVersion a with
    | .ok out =>
        { s with
          enforcer := .loaded out.table
          storedVersion := out.newVersion
          lastTable := some out.table
          sent := s.sent ++ invalidations s.lastTable out.table
          audit := s.audit ++ [.aclLoadOk out.newVersion out.signedBy] }
    | .error (.error (.versionRegress stored attempted)) =>
        { s with audit := s.audit ++ [.aclVersionRegress stored attempted] }
    | .error (.error e) =>
        { s with
          enforcer := .unhealthy e.intoUnhealthyReason
          audit := s.audit ++ [.aclLoadFailure e.intoUnhealthyReason] }
    | .error .panic => { s with running := false }
  else
    s

/-- The table the enforcer answers from. -/
def enforced (s : Reloader) : Option EnforcementTable :=
  match s.enforcer with
  | .loaded table => some table
  | .unhealthy _ => none

/-- The last table that was enforced in a run, up to now. -/
def lastEnforced (hist : List (Reloader × Attempt)) (s : Reloader) : Option EnforcementTable :=
  (s :: (hist.map Prod.fst).reverse).findSome? enforced

/-- What one attempt owes. -/
structure ReloadLaw (hist : List (Reloader × Attempt)) (s : Reloader) (a : Attempt) : Prop where
  verified : ∀ t, enforced (applyLoad parse path s a) = some t →
    ∃ x ∈ hist ++ [(s, a)], Verified parse x.2 t
  monotone : ∀ t u, lastEnforced hist s = some t → enforced (applyLoad parse path s a) = some u →
    t.version ≤ u.version
  broadcast : ∀ t u, lastEnforced hist s = some t → enforced (applyLoad parse path s a) = some u →
    ¬ t.Same u → ∃ i, (applyLoad parse path s a).sent = s.sent ++ [i]
  recovers : ∀ u, Verified parse a u →
    (∀ t, lastEnforced hist s = some t → t.version ≤ u.version) →
      ∃ v, enforced (applyLoad parse path s a) = some v

/-- When an attempt meets its law. A verified file of a version that is not lower than the one
stored finds the enforcer loaded; or it finds the task alive, and its version is above the one stored,
or no version above zero is stored. And a verified file of version 0 over a table of version 0 denotes
that table, or one with another number of entries. -/
structure ReloadCondition (s : Reloader) (a : Attempt) : Prop where
  recovers : ∀ u, Verified parse a u → s.storedVersion ≤ u.version →
    (∃ t, enforced s = some t) ∨
      (s.running = true ∧ (s.storedVersion = 0 ∨ s.storedVersion < u.version))
  broadcast : ∀ t u, s.running = true → s.lastTable = some t → t.version = 0 →
    Verified parse a u → u.version = 0 → t.Same u ∨ t.len ≠ u.len

variable {parse path} {s : Reloader} {a : Attempt} {hist : List (Reloader × Attempt)}

/-! ## What one reload does -/

/-- A load succeeds and its table is swapped in; or the table, its version and what was broadcast stay,
and the enforcer stays or fails. -/
theorem applyLoad_cases (parse : Bytes → Except String AclYamlFile) (path : String) (s : Reloader)
    (a : Attempt) :
    (∃ t, s.running = true ∧ Verified parse a t ∧
        (s.storedVersion = 0 ∨ s.storedVersion < t.version) ∧
        enforced (applyLoad parse path s a) = some t ∧
        (applyLoad parse path s a).storedVersion = t.version ∧
        (applyLoad parse path s a).lastTable = some t ∧
        (applyLoad parse path s a).sent = s.sent ++ invalidations s.lastTable t) ∨
      ((enforced (applyLoad parse path s a) = enforced s ∨
          enforced (applyLoad parse path s a) = none) ∧
        (applyLoad parse path s a).storedVersion = s.storedVersion ∧
        (applyLoad parse path s a).lastTable = s.lastTable ∧
        (applyLoad parse path s a).sent = s.sent) := by
  unfold applyLoad
  split
  · rename_i hrunning
    split
    · rename_i out hload
      obtain ⟨hverified, hversion, hfresh⟩ := of_loadFromYaml hload
      exact Or.inl ⟨out.table, hrunning, hverified, hfresh, rfl, hversion, rfl, rfl⟩
    · exact Or.inr ⟨Or.inl rfl, rfl, rfl, rfl⟩
    · exact Or.inr ⟨Or.inr rfl, rfl, rfl, rfl⟩
    · exact Or.inr ⟨Or.inl rfl, rfl, rfl, rfl⟩
  · exact Or.inr ⟨Or.inl rfl, rfl, rfl, rfl⟩

/-- Whether a verified file that is not older than the version stored leaves the enforcer healthy. -/
theorem exists_enforced_applyLoad_iff {u : EnforcementTable} (hu : Verified parse a u)
    (hle : s.storedVersion ≤ u.version) :
    (∃ v, enforced (applyLoad parse path s a) = some v) ↔
      (∃ t, enforced s = some t) ∨
        (s.running = true ∧ (s.storedVersion = 0 ∨ s.storedVersion < u.version)) := by
  by_cases hrunning : s.running = true
  · by_cases hfresh : s.storedVersion = 0 ∨ s.storedVersion < u.version
    · obtain ⟨out, hload, hout⟩ := loadFromYaml_of_verified path hu hfresh
      have hloaded : enforced (applyLoad parse path s a) = some out.table := by
        simp only [applyLoad, if_pos hrunning, hload, enforced]
      rw [hloaded]
      simp [hrunning, hfresh]
    · -- the version stored is the file's own: refused, and the enforcer is what it was
      have hregress := loadFromYaml_of_verified_regress path hu
        (show 0 < s.storedVersion by omega) (by omega)
      have hkept : enforced (applyLoad parse path s a) = enforced s := by
        simp only [applyLoad, if_pos hrunning, hregress, enforced]
      rw [hkept]
      simp [hfresh]
  · have hdead : applyLoad parse path s a = s := if_neg hrunning
    rw [hdead]
    simp [hrunning]

/-- Whether the change of a table is broadcast. -/
theorem exists_invalidations_iff {t u : EnforcementTable} (sent : List SessionInvalidate) :
    (∃ i, sent ++ invalidations (some t) u = sent ++ [i]) ↔
      t.len ≠ u.len ∨ t.version ≠ u.version := by
  show (∃ i, sent ++ broadcastInvalidations t u = sent ++ [i]) ↔ _
  unfold broadcastInvalidations
  split
  · rename_i hdiffer
    simp [hdiffer]
  · rename_i hsame
    simp [hsame]

/-! ## Runs -/

/-- A step makes its own table the last enforced one, or leaves it. -/
theorem lastEnforced_snoc (s' : Reloader) :
    lastEnforced (hist ++ [(s, a)]) s' = (enforced s').or (lastEnforced hist s) := by
  unfold lastEnforced
  rw [List.map_append, List.reverse_append, List.findSome?_cons]
  cases enforced s' <;> rfl

theorem lastEnforced_of_enforced (hist : List (Reloader × Attempt)) {t : EnforcementTable}
    (h : enforced s = some t) :
    lastEnforced hist s = some t := by
  unfold lastEnforced
  rw [List.findSome?_cons, h]

/-- What the task knows: the last enforced table, its version, and that it came from a verified
file. -/
structure ReloadInv (parse : Bytes → Except String AclYamlFile) (hist : List (Reloader × Attempt))
    (s : Reloader) : Prop where
  last : lastEnforced hist s = s.lastTable
  first : s.lastTable = none → s.storedVersion = 0
  stored : ∀ t, s.lastTable = some t → s.storedVersion = t.version
  verified : ∀ t, s.lastTable = some t → ∃ x ∈ hist, Verified parse x.2 t

theorem reloadInv_coldBoot : ReloadInv parse [] coldBoot := by
  refine ⟨rfl, fun _ => rfl, ?_, ?_⟩
  · intro t h
    exact nomatch h
  · intro t h
    exact nomatch h

/-- Every reload keeps what the task knows. -/
theorem ReloadInv.applyLoad (h : ReloadInv parse hist s) (path : String) (a : Attempt) :
    ReloadInv parse (hist ++ [(s, a)]) (Acl.applyLoad parse path s a) := by
  obtain ⟨t, -, ht, -, henforced, hstored, hlast, -⟩ | ⟨henforced, hstored, hlast, -⟩ :=
    applyLoad_cases parse path s a
  · refine ⟨?_, ?_, ?_, ?_⟩
    · rw [lastEnforced_snoc, henforced, hlast]
      rfl
    · intro hnone
      rw [hlast] at hnone
      exact nomatch hnone
    · intro u hu
      rw [hlast] at hu
      cases hu
      exact hstored
    · intro u hu
      rw [hlast] at hu
      cases hu
      exact ⟨(s, a), by simp, ht⟩
  · refine ⟨?_, ?_, ?_, ?_⟩
    · rw [lastEnforced_snoc, hlast, h.last]
      rcases henforced with hkept | hnone
      · rw [hkept]
        cases he : enforced s with
        | none => rfl
        | some t =>
            have hlt := lastEnforced_of_enforced hist he
            rw [h.last] at hlt
            rw [hlt]
            rfl
      · rw [hnone]
        rfl
    · rw [hlast, hstored]
      exact h.first
    · rw [hlast, hstored]
      exact h.stored
    · rw [hlast]
      intro t ht
      obtain ⟨x, hx, hverified⟩ := h.verified t ht
      exact ⟨x, List.mem_append_left _ hx, hverified⟩

/-- The version stored, as the version of the last enforced table. -/
theorem ReloadInv.storedVersion_le_iff (h : ReloadInv parse hist s) {n : ℕ} :
    (∀ t, lastEnforced hist s = some t → t.version ≤ n) ↔ s.storedVersion ≤ n := by
  rw [h.last]
  constructor
  · intro hle
    cases hl : s.lastTable with
    | none =>
        rw [h.first hl]
        exact Nat.zero_le n
    | some t =>
        rw [h.stored t hl]
        exact hle t hl
  · intro hle t ht
    rwa [h.stored t ht] at hle

/-- The first two parts of the law hold at every reload. -/
theorem ReloadInv.verified_applyLoad (h : ReloadInv parse hist s) {t : EnforcementTable}
    (ht : enforced (Acl.applyLoad parse path s a) = some t) :
    ∃ x ∈ hist ++ [(s, a)], Verified parse x.2 t := by
  have hnext := h.applyLoad path a
  have hlast := lastEnforced_of_enforced (hist ++ [(s, a)]) ht
  rw [hnext.last] at hlast
  exact hnext.verified t hlast

theorem ReloadInv.monotone_applyLoad (h : ReloadInv parse hist s) {t u : EnforcementTable}
    (ht : lastEnforced hist s = some t)
    (hu : enforced (Acl.applyLoad parse path s a) = some u) : t.version ≤ u.version := by
  have hstored := h.stored t (h.last ▸ ht)
  obtain ⟨v, -, -, hfresh, henforced, -, -, -⟩ | ⟨hkept | hnone, -, -, -⟩ :=
    applyLoad_cases parse path s a
  · rw [henforced] at hu
    cases hu
    omega
  · rw [hkept] at hu
    have hlast := lastEnforced_of_enforced hist hu
    rw [ht] at hlast
    cases hlast
    exact le_rfl
  · rw [hnone] at hu
    exact nomatch hu

/-- A change of the enforced table is broadcast exactly under the condition on tables of
version 0. -/
theorem ReloadInv.broadcast_iff (h : ReloadInv parse hist s) :
    (∀ t u, lastEnforced hist s = some t → enforced (Acl.applyLoad parse path s a) = some u →
        ¬ t.Same u → ∃ i, (Acl.applyLoad parse path s a).sent = s.sent ++ [i]) ↔
      ∀ t u, s.running = true → s.lastTable = some t → t.version = 0 →
        Verified parse a u → u.version = 0 → t.Same u ∨ t.len ≠ u.len := by
  rw [h.last]
  constructor
  · intro hlaw t u hrunning ht hzero hu _
    have hstored := h.stored t ht
    obtain ⟨out, hload, hout⟩ :=
      loadFromYaml_of_verified path hu (show s.storedVersion = 0 ∨ _ by omega)
    by_cases hsame : t.Same u
    · exact Or.inl hsame
    · have hbroadcast := hlaw t u ht
        (by simp only [Acl.applyLoad, if_pos hrunning, hload, enforced, hout]) hsame
      have hsent : (Acl.applyLoad parse path s a).sent = s.sent ++ invalidations (some t) u := by
        simp only [Acl.applyLoad, if_pos hrunning, hload, ht, hout]
      rw [hsent, exists_invalidations_iff] at hbroadcast
      right
      omega
  · intro hcond t u ht hu hchange
    have hstored := h.stored t ht
    obtain ⟨v, hrunning, hv, hfresh, henforced, -, -, hsent⟩ | ⟨hkept | hnone, -, -, -⟩ :=
      applyLoad_cases parse path s a
    · rw [henforced] at hu
      cases hu
      rw [hsent, ht, exists_invalidations_iff]
      by_contra hquiet
      push Not at hquiet
      -- equal versions are only accepted at version 0
      exact (hcond t u hrunning ht (by omega) hv (by omega)).elim hchange (fun hlen => hlen hquiet.1)
    · rw [hkept] at hu
      have hlast := lastEnforced_of_enforced hist hu
      rw [h.last, ht] at hlast
      cases hlast
      exact absurd EnforcementTable.Same.rfl hchange
    · rw [hnone] at hu
      exact nomatch hu

/-- At every moment of a run, an attempt meets its law exactly under its condition. -/
theorem ReloadInv.reloadLaw_iff_condition (h : ReloadInv parse hist s) :
    ReloadLaw parse path hist s a ↔ ReloadCondition parse s a := by
  constructor
  · intro hlaw
    refine ⟨?_, h.broadcast_iff.mp hlaw.broadcast⟩
    intro u hu hle
    exact (exists_enforced_applyLoad_iff hu hle).mp
      (hlaw.recovers u hu (h.storedVersion_le_iff.mpr hle))
  · intro hcond
    refine ⟨fun t => h.verified_applyLoad, fun t u => h.monotone_applyLoad,
      h.broadcast_iff.mpr hcond.broadcast, ?_⟩
    intro u hu hle
    have hstored := h.storedVersion_le_iff.mp hle
    exact (exists_enforced_applyLoad_iff hu hstored).mpr (hcond.recovers u hu hstored)

/-- The state machine of reloads, over every run from a cold boot: the enforced table comes from a
verified file and its version never falls, changes are broadcast, and a verified file that is not
older than the last enforced table leaves the enforcer healthy, exactly when every attempt meets
`ReloadCondition`. -/
theorem reloadLaw_iff (parse : Bytes → Except String AclYamlFile) (path : String)
    (attempts : List Attempt) :
    Trace.Always (applyLoad parse path) (ReloadLaw parse path) coldBoot attempts ↔
      Trace.Always (applyLoad parse path) (fun _ s a => ReloadCondition parse s a) coldBoot
        attempts := by
  apply Trace.always_iff_of_invariant reloadInv_coldBoot
  · intro es a h
    exact h.reloadLaw_iff_condition
  · intro es a h _
    exact h.applyLoad path a

end Reloads

/-! ## A failure that sticks -/

/-- A file of version 7 with no nodes. -/
def sevenYaml : Bytes :=
  "version: 7\nupdated_at: now\nsigned_by: ops\n".toList.flatMap String.utf8EncodeChar

/-- A reader of that one file. -/
def parseSeven (bytes : Bytes) : Except String AclYamlFile :=
  if bytes = sevenYaml then .ok ⟨7, "ops", []⟩ else .error "invalid type"

/-- The file is there and its signature is good. -/
def sevenAttempt : Attempt := ⟨.ok sevenYaml, fun _ => .ok ()⟩

/-- The file is not there, as while an editor replaces it. -/
def missingAttempt : Attempt := ⟨.error (true, "No such file or directory"), fun _ => .ok ()⟩

theorem loadFromYaml_seven (stored : ℕ) :
    loadFromYaml parseSeven "disk-acl.yaml" stored sevenAttempt =
      if 7 ≤ stored ∧ 0 < stored then .error (.error (.versionRegress stored 7))
      else .ok ⟨.new 7, 7, "ops"⟩ := by
  have hparse : parseSeven sevenYaml = .ok ⟨7, "ops", []⟩ := if_pos rfl
  simp only [loadFromYaml, sevenAttempt, hparse, buildTable, insertNodes]

/-- After the first reading. -/
def loadedSeven : Reloader :=
  { coldBoot with
    enforcer := .loaded (.new 7)
    storedVersion := 7
    lastTable := some (.new 7)
    audit := [.aclLoadOk 7 "ops"] }

/-- After the file was found missing. -/
def failedSeven : Reloader :=
  { loadedSeven with
    enforcer := .unhealthy .fileMissing
    audit := [.aclLoadOk 7 "ops", .aclLoadFailure .fileMissing] }

theorem applyLoad_coldBoot_seven :
    applyLoad parseSeven "disk-acl.yaml" coldBoot sevenAttempt = loadedSeven := by
  simp [applyLoad, coldBoot, loadedSeven, loadFromYaml_seven, invalidations]

theorem applyLoad_loadedSeven_missing :
    applyLoad parseSeven "disk-acl.yaml" loadedSeven missingAttempt = failedSeven := rfl

/-- The file is read, is missing once, and is read again: the enforcer stays unhealthy. -/
theorem missing_file_sticks :
    ¬ Trace.Always (applyLoad parseSeven "disk-acl.yaml") (ReloadLaw parseSeven "disk-acl.yaml")
      coldBoot [sevenAttempt, missingAttempt, sevenAttempt] := by
  intro h
  have hlaw := h [sevenAttempt, missingAttempt] sevenAttempt [] rfl
  simp only [Trace.history, Trace.run_cons, Trace.run_nil, applyLoad_coldBoot_seven,
    applyLoad_loadedSeven_missing] at hlaw
  have hverified : Verified parseSeven sevenAttempt (.new 7) :=
    ⟨sevenYaml, ⟨7, "ops", []⟩, rfl, rfl, if_pos rfl, rfl⟩
  have hhealthy := hlaw.recovers (.new 7) hverified (by
    intro t ht
    cases ht
    exact le_rfl)
  rw [exists_enforced_applyLoad_iff hverified le_rfl] at hhealthy
  simp [enforced, failedSeven, loadedSeven] at hhealthy

end DiskArcana.Acl
