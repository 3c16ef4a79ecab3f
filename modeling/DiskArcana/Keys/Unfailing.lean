import DiskArcana.Keys.Turns

/-!
# Commands at which nothing fails

What the commands answer and leave where no step fails: a key file that only the owner may read gives its
key, an unlock stores the record that it is to write (`runUnlock_nil`), and an escrow file is made and
recovered from (`runEscrowCreate_nil`, `runEscrowRecover_nil`).
-/

namespace DiskArcana.Keys

open DiskArcana.Lib DiskArcana.Client DiskArcana.Core DiskArcana.Server
open DiskArcana.Lib.Interrupted (check inspect observe bind_of_ok mapError_of_ok observe_nil change_nil_of_ok
  step_nil_of_ok)

section

variable {deps : Deps} {κ : Type} {kr : Keyring κ} {m : Machine κ} {d : Device} {env : Env} {key : VaultKey}
  {blob : EscrowBlob} {p : FilePath} {f : KeyFile} {input : PassphraseInput} {fresh : Salt}

/-! ## Key stores -/

theorem makeDir_nil {ε : Type} (error : ε) : makeDir error m [] = (.ok (), m, []) := observe_nil _

theorem openE2eeKeystore_nil : openE2eeKeystore kr d m [] =
    (.ok (fileKeyStore (d.stateDir ++ ["keys".toList])), m, []) := by
  rw [openE2eeKeystore, detectOrFile_eq]
  exact mapError_of_ok (bind_of_ok (makeDir_nil _))

theorem label_nil : check ((e2eeKeystoreLabel d.nodeId).mapError VaultKeyError.keyStore) m [] =
    (.ok (keyLabel d), m, []) := by
  rw [e2eeKeystoreLabel_eq]
  rfl

theorem readFile_nil {ε : Type} {error : ε} (h : m.files p = some f) :
    readFile error p m [] = (.ok f.text, m, []) := by
  rw [readFile, observe_nil]
  simp only [h]

theorem audit_nil (h : m.files p = some f) (hmode : insecure f.mode = false) :
    auditKeyPermissions p m [] = (.ok (), m, []) := by
  rw [auditKeyPermissions, observe_nil]
  simp [h, hmode]

theorem validateLabel_nil : check (validateLabel (keyLabel d)) m [] = (.ok (), m, []) := by
  rw [validateLabel_keyLabel]
  rfl

theorem load_nil (h : m.files (keyPath d) = some f) (hmode : insecure f.mode = false) :
    (fileKeyStore (d.stateDir ++ ["keys".toList])).load (keyLabel d) m [] = (.ok (some f.text), m, []) := by
  have hfound : inspect (fun m : Machine κ => (.ok (m.files (keyPath d)) : Except KeyStoreError _)) m [] =
      (.ok (some f), m, []) := by
    rw [inspect, h]
  refine (bind_of_ok validateLabel_nil).trans ((bind_of_ok hfound).trans ?_)
  exact (bind_of_ok (audit_nil h hmode)).trans (bind_of_ok (readFile_nil h))

theorem writeFile_nil {ε : Type} (error : ε) (mode : ℕ) (t : Text) :
    writeFile error p mode t m [] = (.ok (), m.wrote p mode t, []) := by
  refine (bind_of_ok (change_nil_of_ok rfl)).trans ((step_nil_of_ok rfl).trans ?_)
  rw [fill_truncate]

theorem store_nil (t : Text) : (fileKeyStore (d.stateDir ++ ["keys".toList])).store (keyLabel d) t m [] =
    (.ok (), m.wrote (keyPath d) 0o600 t, []) := by
  exact (bind_of_ok validateLabel_nil).trans ((bind_of_ok (makeDir_nil _)).trans (writeFile_nil _ _ _))

/-- A key file that only the owner may read gives its key. -/
theorem loadVaultKeyFromKeystore_nil (h : m.files (keyPath d) = some f) (hmode : insecure f.mode = false)
    (hkey : parseStoredKey deps f.text = .ok key) :
    loadVaultKeyFromKeystore deps kr d m [] = (.ok (some key), m, []) := by
  refine (bind_of_ok label_nil).trans ((bind_of_ok openE2eeKeystore_nil).trans ?_)
  refine (bind_of_ok (mapError_of_ok (load_nil h hmode))).trans ?_
  simp only [hkey]
  rfl

theorem resolveVaultKey_nil (henv : loadVaultKeyFromEnv deps env = .ok none) (h : m.files (keyPath d) = some f)
    (hmode : insecure f.mode = false) (hkey : parseStoredKey deps f.text = .ok key) :
    resolveVaultKey deps kr env d m [] = (.ok (some key), m, []) := by
  have hfound : check ((loadVaultKeyFromEnv deps env).mapError VaultKeyError.e2ee) m [] = (.ok none, m, []) := by
    rw [henv]
    rfl
  exact (bind_of_ok hfound).trans (loadVaultKeyFromKeystore_nil h hmode hkey)

theorem importVaultKey_nil : importVaultKey kr key d fresh m [] =
    (.ok (), m.wrote (keyPath d) 0o600 (storedRecord fresh.toList key).toJson, []) :=
  (bind_of_ok label_nil).trans ((bind_of_ok openE2eeKeystore_nil).trans (mapError_of_ok (store_nil _)))

/-! ## Commands -/

theorem readPassphrase_nil (h : input.text ≠ []) :
    check (readPassphrase input) m [] = (.ok input.text, m, []) := by
  rw [readPassphrase, if_neg h]
  rfl

theorem of_entryOf_held {salt : Bytes} (h : entryOf deps m d = .held salt key) :
    ∃ f, m.files (keyPath d) = some f ∧ parseStoredSalt deps f.text = .ok salt ∧
      parseStoredKey deps f.text = .ok key := by
  rcases hfile : m.files (keyPath d) with _ | f
  · rw [entryOf_of_none hfile] at h
    cases h
  · rw [entryOf_of_some hfile, Entry.ofText] at h
    rcases hsalt : parseStoredSalt deps f.text with e | salt'
    · rw [hsalt] at h
      cases h
    · rcases hkey : parseStoredKey deps f.text with e | key'
      · rw [hsalt, hkey] at h
        cases h
      · rw [hsalt, hkey] at h
        cases h
        exact ⟨f, rfl, hsalt, hkey⟩

theorem of_entryOf_absent (h : entryOf deps m d = .absent) : m.files (keyPath d) = none := by
  rcases hfile : m.files (keyPath d) with _ | f
  · rfl
  · rw [entryOf_of_some hfile, Entry.ofText] at h
    split at h
    · cases h
    · split at h <;> cases h

theorem load_nil_of_none (h : m.files (keyPath d) = none) :
    (fileKeyStore (d.stateDir ++ ["keys".toList])).load (keyLabel d) m [] = (.ok none, m, []) := by
  have hfound : inspect (fun m : Machine κ => (.ok (m.files (keyPath d)) : Except KeyStoreError _)) m [] =
      (.ok none, m, []) := by
    rw [inspect, h]
  exact (bind_of_ok validateLabel_nil).trans (bind_of_ok hfound)

/-- The salt that is given can be read. -/
theorem Writes.given_ok {saltHex : Option Text} {opened : Option VaultKey} {e : Entry} {salt : Bytes}
    (h : Writes deps (.unlock input saltHex fresh) opened e salt key) :
    ∃ given, saltHex.elim (.ok none) (fun t => (decodeHex CliError.saltHex t).map some) = .ok given := by
  cases h with
  | given hsalt _ => exact ⟨_, by rw [Option.elim_some, hsalt]; rfl⟩
  | again _ => exact ⟨none, rfl⟩
  | first _ => exact ⟨none, rfl⟩

theorem Writes.derived {saltHex : Option Text} {opened : Option VaultKey} {e : Entry} {salt : Bytes}
    (h : Writes deps (.unlock input saltHex fresh) opened e salt key) :
    deriveFromPassphrase deps (OsPath.utf8 input.text) salt = .ok key := by
  cases h with
  | given _ hkey => exact hkey
  | again hkey => exact hkey
  | first hkey => exact hkey

/-- Where nothing fails, an unlock takes the salt that it is to write. -/
theorem unlockSalt_nil {saltHex : Option Text} {given : Option Bytes} {opened : Option VaultKey} {salt : Bytes}
    (hgiven : saltHex.elim (.ok none) (fun t => (decodeHex CliError.saltHex t).map some) = .ok given)
    (hmode : ∀ f, m.files (keyPath d) = some f → insecure f.mode = false)
    (h : Writes deps (.unlock input saltHex fresh) opened (entryOf deps m d) salt key) :
    unlockSalt deps (fileKeyStore (d.stateDir ++ ["keys".toList])) (keyLabel d) given fresh m [] =
      (.ok salt, m, []) := by
  generalize hentry : entryOf deps m d = e at h
  cases h with
  | given hsalt hkey =>
      rw [Option.elim_some, hsalt] at hgiven
      cases hgiven
      have hlong : ¬ salt.length < 8 := by
        intro hshort
        rw [deriveFromPassphrase, if_pos hshort] at hkey
        cases hkey
      rw [unlockSalt, if_neg hlong]
      rfl
  | again hkey =>
      cases hgiven
      obtain ⟨f, hfile, hsalt, -⟩ := of_entryOf_held hentry
      refine (bind_of_ok (mapError_of_ok (load_nil hfile (hmode f hfile)))).trans ?_
      simp only [hsalt]
      rfl
  | first hkey =>
      cases hgiven
      exact bind_of_ok (mapError_of_ok (load_nil_of_none (of_entryOf_absent hentry)))

/-- The key of a record, from the environment of which no key comes. -/
theorem resolveVaultKey_nil_of_held {salt : Bytes} (henv : loadVaultKeyFromEnv deps env = .ok none)
    (hmode : ∀ f, m.files (keyPath d) = some f → insecure f.mode = false)
    (hheld : entryOf deps m d = .held salt key) :
    resolveVaultKey deps kr env d m [] = (.ok (some key), m, []) := by
  obtain ⟨f, hfile, -, hkey⟩ := of_entryOf_held hheld
  exact resolveVaultKey_nil henv hfile (hmode f hfile) hkey

theorem resolvedKey_of_held {salt : Bytes} (henv : loadVaultKeyFromEnv deps env = .ok none)
    (hmode : ∀ f, m.files (keyPath d) = some f → insecure f.mode = false)
    (hheld : entryOf deps m d = .held salt key) : resolvedKey deps m env d = some key := by
  obtain ⟨f, hfile, -, hkey⟩ := of_entryOf_held hheld
  rw [resolvedKey, henv]
  simp [hfile, hmode f hfile, hkey, Except.toOption]

/-- A file that is written anew is as private as before. -/
theorem insecure_wrote (hmode : ∀ f, m.files p = some f → insecure f.mode = false) (t : Text) :
    ∀ f, (m.wrote p 0o600 t).files p = some f → insecure f.mode = false := by
  intro f hf
  rw [Machine.wrote, Machine.files_put_self] at hf
  cases hf
  rcases hfile : m.files p with _ | g
  · show insecure 0o600 = false
    decide
  · exact hmode g hfile

/-- **An unlock works**: it stores the record that it is to write. -/
theorem runUnlock_nil {saltHex : Option Text} {opened : Option VaultKey} {salt : Bytes}
    (hinput : input.text ≠ []) (henv : loadVaultKeyFromEnv deps env = .ok none)
    (hmode : ∀ f, m.files (keyPath d) = some f → insecure f.mode = false)
    (h : Writes deps (.unlock input saltHex fresh) opened (entryOf deps m d) salt key) :
    runUnlock deps kr d env input saltHex fresh m [] =
      (.ok (), m.wrote (keyPath d) 0o600 (storedRecord salt key).toJson, []) := by
  obtain ⟨given, hgiven⟩ := h.given_ok
  have hpassphrase : OsPath.utf8 input.text ≠ [] := fun hempty => hinput (OsPath.utf8_injective hempty)
  have hunlock : unlockVaultKey deps kr (OsPath.utf8 input.text) d given fresh m [] =
      (.ok (), m.wrote (keyPath d) 0o600 (storedRecord salt key).toJson, []) := by
    have hnonempty : check (if OsPath.utf8 input.text = [] then .error VaultKeyError.emptyPassphrase else .ok ())
        m [] = (.ok (), m, []) := by
      rw [if_neg hpassphrase]
      rfl
    have hderived : check ((deriveFromPassphrase deps (OsPath.utf8 input.text) salt).mapError VaultKeyError.e2ee)
        m [] = (.ok key, m, []) := by
      rw [h.derived]
      rfl
    refine (bind_of_ok hnonempty).trans ((bind_of_ok label_nil).trans ((bind_of_ok openE2eeKeystore_nil).trans ?_))
    refine (bind_of_ok (unlockSalt_nil hgiven hmode h)).trans ((bind_of_ok hderived).trans ?_)
    exact mapError_of_ok (store_nil _)
  have hsalt : check (saltHex.elim (.ok none) fun t => (decodeHex CliError.saltHex t).map some) m [] =
      (.ok given, m, []) := by
    rw [hgiven]
    rfl
  refine (bind_of_ok (readPassphrase_nil hinput)).trans ((bind_of_ok hsalt).trans ?_)
  refine (bind_of_ok (mapError_of_ok hunlock)).trans ?_
  have hstored : (m.wrote (keyPath d) 0o600 (storedRecord salt key).toJson).files (keyPath d) =
      some ⟨((m.files (keyPath d)).map KeyFile.mode).getD 0o600, (storedRecord salt key).toJson⟩ :=
    Machine.files_put_self _
  exact bind_of_ok (mapError_of_ok (resolveVaultKey_nil henv hstored (insecure_wrote hmode _ _ hstored)
    (parseStoredKey_record salt key)))

/-- **A lock works**: there is no key file any more. -/
theorem runLock_nil (hmode : ∀ f, m.files (keyPath d) = some f → insecure f.mode = false) :
    runLock kr d m [] = (.ok (), m.remove (keyPath d), []) := by
  have hload : ∃ entry, (fileKeyStore (d.stateDir ++ ["keys".toList])).load (keyLabel d) m [] =
      (.ok entry, m, []) := by
    rcases hfile : m.files (keyPath d) with _ | f
    · exact ⟨none, load_nil_of_none hfile⟩
    · exact ⟨some f.text, load_nil hfile (hmode f hfile)⟩
  obtain ⟨entry, hentry⟩ := hload
  have hdelete : (fileKeyStore (d.stateDir ++ ["keys".toList])).delete (keyLabel d) m [] =
      (.ok (), m.remove (keyPath d), []) := (bind_of_ok validateLabel_nil).trans (change_nil_of_ok rfl)
  refine bind_of_ok (mapError_of_ok (a := entry.isSome) ?_)
  refine (bind_of_ok label_nil).trans ((bind_of_ok openE2eeKeystore_nil).trans ?_)
  exact (bind_of_ok (mapError_of_ok hentry)).trans (bind_of_ok (mapError_of_ok hdelete))

/-- **An escrow is created**: the file holds the blob for the key of the device's record. -/
theorem runEscrowCreate_nil {saltOf : Bytes} {salt : Salt} {nonce : Nonce} (hinput : input.text ≠ [])
    (henv : loadVaultKeyFromEnv deps env = .ok none)
    (hmode : ∀ f, m.files (keyPath d) = some f → insecure f.mode = false)
    (hheld : entryOf deps m d = .held saltOf key)
    (hblob : createEscrow deps key (OsPath.utf8 input.text) salt nonce = .ok blob) :
    runEscrowCreate deps kr d env input salt nonce m [] =
      (.ok (), m.put (escrowPath d) ⟨0o600, blob.toJson⟩, []) := by
  have hcreated : check ((createEscrow deps key (OsPath.utf8 input.text) salt nonce).mapError CliError.e2ee) m [] =
      (.ok blob, m, []) := by
    rw [hblob]
    rfl
  have hchmod : (m.wrote (escrowPath d) 0o644 blob.toJson).chmod (escrowPath d) 0o600 =
      m.put (escrowPath d) ⟨0o600, blob.toJson⟩ := by
    simp [Machine.chmod, Machine.wrote, Machine.put]
  refine (bind_of_ok (mapError_of_ok (resolveVaultKey_nil_of_held henv hmode hheld))).trans ?_
  refine (bind_of_ok (readPassphrase_nil hinput)).trans ((bind_of_ok hcreated).trans (mapError_of_ok ?_))
  refine (bind_of_ok (makeDir_nil _)).trans ((bind_of_ok (writeFile_nil _ _ _)).trans ?_)
  rw [← hchmod]
  exact change_nil_of_ok rfl

/-- Where nothing fails, a device recovers the key of an escrow file. -/
theorem runEscrowRecover_nil {file : Option FilePath} (h : m.files (file.getD (escrowPath d)) = some f)
    (hblob : escrowFromJson deps f.text = .ok blob) (hinput : input.text ≠ [])
    (hkey : recoverFromEscrow deps blob (OsPath.utf8 input.text) = .ok key) :
    runEscrowRecover deps kr d file input fresh m [] =
      (.ok (), m.wrote (keyPath d) 0o600 (storedRecord fresh.toList key).toJson, []) := by
  have hread : readEscrowFile deps (file.getD (escrowPath d)) m [] = (.ok blob, m, []) := by
    refine (bind_of_ok (readFile_nil h)).trans ?_
    rw [hblob]
    rfl
  have hrecovered : check ((recoverFromEscrow deps blob (OsPath.utf8 input.text)).mapError CliError.e2ee) m [] =
      (.ok key, m, []) := by
    rw [hkey]
    rfl
  refine (bind_of_ok (mapError_of_ok hread)).trans ((bind_of_ok (readPassphrase_nil hinput)).trans ?_)
  exact (bind_of_ok hrecovered).trans (mapError_of_ok importVaultKey_nil)

end

end DiskArcana.Keys
