import DiskArcana.Keys.Law

/-!
# A key on another device

An escrow file that was written to its end opens with the passphrase that it was made with
(`recoverFromEscrow_createEscrow`), and every escrow file comes from an `escrow create` of the run, whoever
carried it where (`escrows_run`). So a device that recovers with the passphrase of a file holds the very key
that another device worked with when it made the file, and reads what that device encrypted
(`escrowLaw`).
-/

namespace DiskArcana.Keys

open DiskArcana.Lib DiskArcana.Lib.Trace DiskArcana.Client DiskArcana.Core DiskArcana.Server
open DiskArcana.Lib.Interrupted (Fault)

section

variable {deps : Deps} {κ : Type} {kr : Keyring κ} {m : Machine κ} {d d' : Device} {env : Env}
  {key : VaultKey} {blob : EscrowBlob} {recovery : Bytes} {salt : Salt} {nonce : Nonce}

/-! ## Blobs -/

theorem escrowFromJson_toJson (hv : blob.v = 1) : escrowFromJson deps blob.toJson = .ok blob := by
  rw [escrowFromJson, deps.escrowBlob.read_write]
  simp [hv]

theorem escrowFromJson_brokenOff {t : Text} (h : BreaksOff t blob.toJson) :
    escrowFromJson deps t = .error (.keyDerivation .escrowJson) := by
  rw [escrowFromJson, deps.escrowBlob.read_brokenOff h]

/-- What a blob is made of. -/
theorem of_createEscrow (h : createEscrow deps key recovery salt nonce = .ok blob) :
    ∃ wrapKey ciphertext, deriveFromPassphrase deps recovery salt.toList = .ok wrapKey ∧
      deps.aead.encrypt wrapKey nonce key.toList = some ciphertext ∧
      blob = ⟨1, Text.hex salt.toList, Text.hex nonce.toList, Text.hex ciphertext⟩ := by
  unfold createEscrow at h
  split_ifs at h with hempty
  · cases h
  · rcases hwrap : deriveFromPassphrase deps recovery salt.toList with e | wrapKey
    · rw [hwrap] at h
      cases h
    · rcases hsealed : deps.aead.encrypt wrapKey nonce key.toList with _ | ciphertext
      · simp [hwrap, hsealed, bind, Except.bind] at h
      · simp only [hwrap, hsealed, bind, Except.bind, pure, Except.pure, Option.elim_some,
          Except.ok.injEq] at h
        exact ⟨wrapKey, ciphertext, rfl, hsealed, h.symm⟩

/-- **An escrow opens** with the passphrase that it was made with, to the key that it was made for. -/
theorem recoverFromEscrow_createEscrow (h : createEscrow deps key recovery salt nonce = .ok blob) :
    recoverFromEscrow deps blob recovery = .ok key := by
  obtain ⟨wrapKey, ciphertext, hwrap, hsealed, rfl⟩ := of_createEscrow h
  have hopened := deps.aead.decrypt_encrypt hsealed
  have hlong : ¬ salt.toList.length < 8 := by simp
  have hnonce : nonce.toList.length = 24 := nonce.toList_length
  have hkey : key.toList.length = 32 := key.toList_length
  have hopened' : deps.aead.decrypt wrapKey ⟨nonce.toList, hnonce⟩ ciphertext = some key.toList := hopened
  unfold recoverFromEscrow
  simp only [decodeHex_hex, bind, Except.bind, if_neg hlong, pure, Except.pure]
  rw [dif_pos hnonce, hwrap]
  simp only [hopened', Option.elim_some]
  exact dif_pos hkey

/-! ## Where escrow files come from -/

variable {c : VaultCommand} {input : PassphraseInput} {fresh : Salt} {start : Machine κ} {es : List KeyEvent}
  {hist : List (Machine κ × KeyEvent)}

variable (deps) in
/-- A command of the run made the blob, for the key that its device worked with. -/
def MadeIn (hist : List (Machine κ × KeyEvent)) (blob : EscrowBlob) (key : VaultKey) (passphrase : Text) : Prop :=
  ∃ x ∈ hist, ∃ d env input salt nonce faults,
    x.2 = .command d env (.escrowCreate input salt nonce) faults ∧ input.text = passphrase ∧
      resolvedKey deps x.1 env d = some key ∧
      createEscrow deps key (OsPath.utf8 passphrase) salt nonce = .ok blob

theorem MadeIn.snoc {passphrase : Text} (h : MadeIn deps hist blob key passphrase) (x : Machine κ × KeyEvent) :
    MadeIn deps (hist ++ [x]) blob key passphrase := by
  obtain ⟨y, hy, rest⟩ := h
  exact ⟨y, List.mem_append_left _ hy, rest⟩

theorem MadeIn.opens {passphrase : Text} (h : MadeIn deps hist blob key passphrase) :
    blob.v = 1 ∧ recoverFromEscrow deps blob (OsPath.utf8 passphrase) = .ok key := by
  obtain ⟨x, -, d, env, input, salt, nonce, faults, -, -, -, hcreated⟩ := h
  refine ⟨?_, recoverFromEscrow_createEscrow hcreated⟩
  obtain ⟨wrapKey, ciphertext, -, -, rfl⟩ := of_createEscrow hcreated
  rfl

variable (deps) in
/-- Every escrow file is a blob that the run made, or breaks off within one. -/
def Escrows (hist : List (Machine κ × KeyEvent)) (m : Machine κ) : Prop :=
  ∀ d f, m.files (escrowPath d) = some f →
    ∃ blob key passphrase, MadeIn deps hist blob key passphrase ∧ f.text <+: blob.toJson

theorem Escrows.snoc (h : Escrows deps hist m) (x : Machine κ × KeyEvent) : Escrows deps (hist ++ [x]) m := by
  intro d f hf
  obtain ⟨blob, key, passphrase, hmade, hpre⟩ := h d f hf
  exact ⟨blob, key, passphrase, hmade.snoc x, hpre⟩

/-- A command that stops somewhere leaves escrow files as they were, or writes one of its own. -/
theorem Escrows.left {m' : Machine κ} {faults : List Fault} (h : Escrows deps hist m)
    (hleft : Left deps m d env c m') : Escrows deps (hist ++ [(m, .command d env c faults)]) m' := by
  intro d' f hf
  by_cases hpath : escrowPath d' = escrowPath d
  · cases hleft with
    | same => exact h.snoc _ d' f hf
    | removed =>
        rw [Machine.files_remove_of_ne (keyPath_ne_escrowPath d d').symm] at hf
        exact h.snoc _ d' f hf
    | record n _ =>
        rw [Machine.wrote, Machine.files_put_of_ne (keyPath_ne_escrowPath d d').symm] at hf
        exact h.snoc _ d' f hf
    | @escrow input salt nonce blob mode n hsealed =>
        rw [hpath, Machine.files_put_self] at hf
        cases hf
        obtain ⟨key, hkey, hblob⟩ := Option.bind_eq_some_iff.mp hsealed
        have hcreated : createEscrow deps key (OsPath.utf8 input.text) salt nonce = .ok blob := by
          rcases hc : createEscrow deps key (OsPath.utf8 input.text) salt nonce with e | blob'
          · rw [hc] at hblob
            cases hblob
          · rw [hc] at hblob
            cases hblob
            rfl
        refine ⟨blob, key, input.text, ?_, List.take_prefix _ _⟩
        exact ⟨_, List.mem_append_right _ (List.mem_singleton_self _), d, env, input, salt, nonce, faults, rfl, rfl,
          hkey, hcreated⟩
  · rw [hleft.files_of_ne (keyPath_ne_escrowPath d d').symm hpath] at hf
    exact h.snoc _ d' f hf

theorem Escrows.keyStep (hshaped : Shaped m) (h : Escrows deps hist m) (e : KeyEvent) :
    Escrows deps (hist ++ [(m, e)]) (keyStep deps kr m e) := by
  cases e with
  | command d env c faults => exact h.left (left_command hshaped d env c faults)
  | carry src dst =>
      intro d f hf
      have hf : (carry m src dst).files (escrowPath d) = some f := hf
      unfold carry at hf
      rcases hsrc : m.files (escrowPath src) with _ | g
      · rw [hsrc] at hf
        exact h.snoc _ d f hf
      · simp only [hsrc] at hf
        by_cases hpath : escrowPath d = escrowPath dst
        · rw [hpath, Machine.files_put_self] at hf
          cases hf
          exact h.snoc _ src f hsrc
        · rw [Machine.files_put_of_ne hpath] at hf
          exact h.snoc _ d f hf
  | chmod p mode =>
      intro d f hf
      have htext := files_chmod (m := m) p (escrowPath d) mode
      rw [show (m.chmod p mode).files (escrowPath d) = some f from hf, Option.map_some] at htext
      obtain ⟨g, hg, heq⟩ := Option.map_eq_some_iff.mp htext.symm
      rw [← heq]
      exact h.snoc _ d g hg

theorem escrows_run (hshaped : Shaped start) (hnone : ∀ d, start.files (escrowPath d) = none)
    (es : List KeyEvent) :
    Escrows deps (history (keyStep deps kr) start es) (run (keyStep deps kr) start es) := by
  induction es using List.reverseRecOn with
  | nil =>
      intro d f hf
      rw [run_nil, hnone d] at hf
      cases hf
  | append_singleton es e ih =>
      rw [history_snoc, run_snoc]
      exact ih.keyStep (shaped_run hshaped es) e

/-! ## The law -/

variable (deps kr) in
/-- What holds of escrow files over a run. -/
structure EscrowLaw (start : Machine κ) (es : List KeyEvent) : Prop where
  /-- Every escrow file was made in the run, or breaks off. -/
  made : Escrows deps (history (keyStep deps kr) start es) (run (keyStep deps kr) start es)
  /-- Where nothing fails and the key file is private, a device with a key makes a file for it. -/
  creates : ∀ d env input saltOf salt nonce blob key, input.text ≠ [] →
    loadVaultKeyFromEnv deps env = .ok none →
    (∀ f, (run (keyStep deps kr) start es).files (keyPath d) = some f → insecure f.mode = false) →
    entryOf deps (run (keyStep deps kr) start es) d = .held saltOf key →
    createEscrow deps key (OsPath.utf8 input.text) salt nonce = .ok blob →
      let e := KeyEvent.command d env (.escrowCreate input salt nonce) []
      answer deps kr (run (keyStep deps kr) start es) e = some (.ok ()) ∧
        ((run (keyStep deps kr) start (es ++ [e])).files (escrowPath d)).map KeyFile.text = some blob.toJson ∧
        MadeIn deps (history (keyStep deps kr) start (es ++ [e])) blob key input.text
  /-- A recovery that answers well read a whole file, and with the passphrase of the file the device has
  the key of the one that made it. -/
  recovers : Always (keyStep deps kr) (fun hist m e => ∀ d d' file input fresh,
    IsOf d (.escrowRecover file input fresh) e → file.getD (escrowPath d) = escrowPath d' →
    answer deps kr m e = some (.ok ()) →
      ∃ blob key passphrase, MadeIn deps hist blob key passphrase ∧
        (m.files (escrowPath d')).map KeyFile.text = some blob.toJson ∧
        (input.text = passphrase → entryOf deps (keyStep deps kr m e) d = .held fresh.toList key)) start es
  /-- A whole file opens on every device, and a daemon of the device then works with its key. -/
  opens : ∀ d d' env blob key input fresh,
    ((run (keyStep deps kr) start es).files (escrowPath d')).map KeyFile.text = some blob.toJson →
    MadeIn deps (history (keyStep deps kr) start es) blob key input.text →
      let m := run (keyStep deps kr) start es
      let e := KeyEvent.command d env (.escrowRecover (some (escrowPath d')) input fresh) []
      answer deps kr m e = some (.ok ()) ∧ entryOf deps (keyStep deps kr m e) d = .held fresh.toList key ∧
        ((∀ f, m.files (keyPath d) = some f → insecure f.mode = false) → ∀ env',
          loadVaultKeyFromEnv deps env' = .ok none →
            (resolveVaultKey deps kr env' d (keyStep deps kr m e) []).1 = .ok (some key))

theorem Did.of_recover {file : Option FilePath} {opened : Option VaultKey} {before after : Entry}
    (h : Did deps (.escrowRecover file input fresh) opened before after) :
    ∃ key, opened = some key ∧ after = .held fresh.toList key := by
  cases h with
  | write hwrites =>
      cases hwrites with
      | recovered => exact ⟨_, rfl, rfl⟩

/-- What a text holds that was written as the blob, or breaks off within it. -/
theorem openEscrow_of_prefix {t : Text} {passphrase : Bytes} (hv : blob.v = 1) (hpre : t <+: blob.toJson)
    (hkey : openEscrow deps t passphrase = some key) :
    t = blob.toJson ∧ recoverFromEscrow deps blob passphrase = .ok key := by
  unfold openEscrow at hkey
  by_cases hwhole : t = blob.toJson
  · refine ⟨hwhole, ?_⟩
    rw [hwhole, escrowFromJson_toJson hv] at hkey
    rcases hopened : recoverFromEscrow deps blob passphrase with e | key'
    · simp [Except.bind, hopened, Except.toOption] at hkey
    · simp only [Except.bind, hopened, Except.toOption, Option.some.injEq] at hkey
      rw [hkey]
  · rw [escrowFromJson_brokenOff ⟨hpre, hwhole⟩] at hkey
    cases hkey

/-- A passphrase that made a blob is not empty. -/
theorem MadeIn.passphrase_ne_nil {passphrase : Text} (h : MadeIn deps hist blob key passphrase) :
    passphrase ≠ [] := by
  rintro rfl
  obtain ⟨x, -, d, env, input, salt, nonce, faults, -, -, -, hcreated⟩ := h
  cases hcreated

/-- The key file after a recovery. -/
theorem resolve_wrote (hmode : ∀ f, m.files (keyPath d) = some f → insecure f.mode = false)
    (henv : loadVaultKeyFromEnv deps env = .ok none) (bytes : Bytes) :
    (resolveVaultKey deps kr env d (m.wrote (keyPath d) 0o600 (storedRecord bytes key).toJson) []).1 =
      .ok (some key) := by
  exact congrArg Prod.fst (resolveVaultKey_nil henv (Machine.files_put_self _)
    (insecure_wrote hmode _ _ (Machine.files_put_self _)) (parseStoredKey_record bytes key))

/-- **Escrow files.** They may be carried to any device in any order with all other commands. -/
theorem escrowLaw (hshaped : Shaped start) (hnone : ∀ d, start.files (escrowPath d) = none)
    (es : List KeyEvent) : EscrowLaw deps kr start es where
  made := escrows_run hshaped hnone es
  creates := by
    intro d env input saltOf salt nonce blob key hinput henv hmode hheld hblob
    have hrun : runEscrowCreate deps kr d env input salt nonce (run (keyStep deps kr) start es) [] = _ :=
      runEscrowCreate_nil hinput henv hmode hheld hblob
    have hstep : run (keyStep deps kr) start (es ++ [.command d env (.escrowCreate input salt nonce) []]) =
        (run (keyStep deps kr) start es).put (escrowPath d) ⟨0o600, blob.toJson⟩ := by
      rw [run_snoc]
      exact congrArg (fun r => r.2.1) hrun
    refine ⟨congrArg some (congrArg Prod.fst hrun), ?_, ?_⟩
    · rw [hstep, Machine.files_put_self]
      rfl
    · rw [history_snoc]
      exact ⟨_, List.mem_append_right _ (List.mem_singleton_self _), d, env, input, salt, nonce, [], rfl, rfl,
        resolvedKey_of_held henv hmode hheld, hblob⟩
  recovers := by
    rintro pre e post - d d' file input fresh hof hfile hanswer
    obtain ⟨key, hopened, hafter⟩ := (did_of_isOf (shaped_run hshaped pre) hof hanswer).of_recover
    rw [openedKey, hfile] at hopened
    obtain ⟨f, hf, hkey⟩ := Option.bind_eq_some_iff.mp hopened
    obtain ⟨blob, key', passphrase, hmade, hpre⟩ := escrows_run hshaped hnone pre d' f hf
    obtain ⟨hwhole, hrecovered⟩ := openEscrow_of_prefix hmade.opens.1 hpre hkey
    refine ⟨blob, key', passphrase, hmade, ?_, ?_⟩
    · rw [hf, Option.map_some, hwhole]
    · intro hsame
      rw [hsame, hmade.opens.2] at hrecovered
      cases hrecovered
      exact hafter
  opens := by
    intro d d' env blob key input fresh htext hmade
    obtain ⟨f, hf, hwhole⟩ := Option.map_eq_some_iff.mp htext
    obtain ⟨hv, hopens⟩ := hmade.opens
    have hblob : escrowFromJson deps f.text = .ok blob := by
      rw [hwhole]
      exact escrowFromJson_toJson hv
    have hrun : runEscrowRecover deps kr d (some (escrowPath d')) input fresh
        (run (keyStep deps kr) start es) [] =
          (.ok (), (run (keyStep deps kr) start es).wrote (keyPath d) 0o600 (storedRecord fresh.toList key).toJson,
            []) :=
      runEscrowRecover_nil hf hblob hmade.passphrase_ne_nil hopens
    have hstep : keyStep deps kr (run (keyStep deps kr) start es)
        (.command d env (.escrowRecover (some (escrowPath d')) input fresh) []) =
          (run (keyStep deps kr) start es).wrote (keyPath d) 0o600 (storedRecord fresh.toList key).toJson :=
      congrArg (fun r => r.2.1) hrun
    have hanswer : answer deps kr (run (keyStep deps kr) start es)
        (.command d env (.escrowRecover (some (escrowPath d')) input fresh) []) = some (.ok ()) :=
      congrArg some (congrArg Prod.fst hrun)
    refine ⟨hanswer, ?_, fun hmode env' henv' => ?_⟩
    · rw [hstep, entryOf_wrote, ofText_record]
    · rw [hstep]
      exact resolve_wrote hmode henv' _

end

/-! ## A second device -/

def desktop : Device := ⟨["state".toList], "desktop".toList, rfl⟩

def sampleBlob : EscrowBlob :=
  ⟨1, Text.hex (saltFrom 16).toList, Text.hex wrapNonce.toList, Text.hex wrappedKey⟩

theorem createEscrow_sample :
    createEscrow sampleDeps firstKey (OsPath.utf8 "rec".toList) (saltFrom 16) wrapNonce = .ok sampleBlob := rfl

/-- The laptop unlocks and makes an escrow file, and the file is carried to the desktop. -/
def escrowRun : List KeyEvent :=
  [unlockWith "pw".toList (saltFrom 0),
    .command laptop noEnv (.escrowCreate (.flag "rec".toList) (saltFrom 16) wrapNonce) [], .carry laptop desktop]

def recoverEvent : KeyEvent :=
  .command desktop noEnv (.escrowRecover (some (escrowPath desktop)) (.flag "rec".toList) (saltFrom 48)) []

theorem escrowLaw_desktop : EscrowLaw sampleDeps noKeychain emptyMachine escrowRun ∧
    entryOf sampleDeps (keyStep sampleDeps noKeychain
      (run (keyStep sampleDeps noKeychain) emptyMachine escrowRun) recoverEvent) desktop =
      .held (saltFrom 48).toList firstKey := by
  have hlaw : EscrowLaw sampleDeps noKeychain emptyMachine escrowRun :=
    escrowLaw shaped_emptyMachine (fun d => rfl) escrowRun
  have hunlock : keyStep sampleDeps noKeychain emptyMachine (unlockWith "pw".toList (saltFrom 0)) = _ :=
    keyStep_unlockWith (by decide) rfl derive_first
  have hcreate : runEscrowCreate sampleDeps noKeychain laptop noEnv (.flag "rec".toList) (saltFrom 16) wrapNonce
      (emptyMachine.wrote (keyPath laptop) 0o600 (storedRecord (saltFrom 0).toList firstKey).toJson) [] = _ :=
    runEscrowCreate_nil (by decide) rfl (insecure_wrote (fun f hf => by cases hf) _)
      ((entryOf_wrote _ _).trans (ofText_record _ _)) createEscrow_sample
  have hcreated : keyStep sampleDeps noKeychain
      (emptyMachine.wrote (keyPath laptop) 0o600 (storedRecord (saltFrom 0).toList firstKey).toJson)
      (.command laptop noEnv (.escrowCreate (.flag "rec".toList) (saltFrom 16) wrapNonce) []) = _ :=
    congrArg (fun r => r.2.1) hcreate
  have hcarried : ((run (keyStep sampleDeps noKeychain) emptyMachine escrowRun).files (escrowPath desktop)).map
      KeyFile.text = some sampleBlob.toJson := by
    rw [escrowRun, run_cons, run_cons, run_cons, run_nil, hunlock, hcreated]
    simp [keyStep, carry]
  have hmade : MadeIn sampleDeps (history (keyStep sampleDeps noKeychain) emptyMachine escrowRun) sampleBlob firstKey
      "rec".toList := by
    refine ⟨(keyStep sampleDeps noKeychain emptyMachine (unlockWith "pw".toList (saltFrom 0)),
      .command laptop noEnv (.escrowCreate (.flag "rec".toList) (saltFrom 16) wrapNonce) []), ?_, laptop, noEnv,
      .flag "rec".toList, saltFrom 16, wrapNonce, [], rfl, rfl, ?_, createEscrow_sample⟩
    · simp [escrowRun, history]
    · rw [hunlock]
      exact resolvedKey_of_held rfl (insecure_wrote (fun f hf => by cases hf) _)
        ((entryOf_wrote _ _).trans (ofText_record _ _))
  exact ⟨hlaw, (hlaw.opens desktop desktop noEnv sampleBlob firstKey (.flag "rec".toList) (saltFrom 48) hcarried
    hmade).2.1⟩

end DiskArcana.Keys
