import DiskArcana.Keys.Unfailing

/-!
# The key of a device over a run

Every key file is a record, or breaks off within one (`Shaped.keyStep`), so that over a whole run a device
goes from entry to entry by turns of its own commands only (`turn_keyStep`). `keyLaw` is what follows for
the salt, from which a passphrase gives the key of a vault: it stays as it is until the device locks the
vault, recovers a key, or unlocks with a salt of its own; after a lock, the same passphrase gives the key
of a fresh salt.
-/

namespace DiskArcana.Keys

open DiskArcana.Lib DiskArcana.Lib.Trace DiskArcana.Client DiskArcana.Core DiskArcana.Server
open DiskArcana.Lib.Interrupted (Fault Prog Triple Reads)

section

variable {deps : Deps} {κ : Type} {kr : Keyring κ} {m m' : Machine κ} {d d' : Device} {env : Env}
  {c : VaultCommand}

/-! ## Turns -/

variable (deps) in
/-- How a command takes the entry of its device to the next. -/
inductive Turn : VaultCommand → Option VaultKey → Entry → Entry → Prop
  | keep {c : VaultCommand} {opened : Option VaultKey} {e : Entry} : Turn c opened e e
  | lock {opened : Option VaultKey} {e : Entry} : Turn .lock opened e .absent
  | write {c : VaultCommand} {opened : Option VaultKey} {e : Entry} {salt : Bytes} {key : VaultKey}
      (h : Writes deps c opened e salt key) : Turn c opened e (.held salt key)
  | breakOff {c : VaultCommand} {opened : Option VaultKey} {e : Entry} {salt : Bytes} {key : VaultKey}
      (h : Writes deps c opened e salt key) : Turn c opened e .torn

variable (deps) in
/-- What a command has made of the entry of its device that answers well. -/
inductive Did : VaultCommand → Option VaultKey → Entry → Entry → Prop
  | lock {opened : Option VaultKey} {e : Entry} : Did .lock opened e .absent
  | write {c : VaultCommand} {opened : Option VaultKey} {e : Entry} {salt : Bytes} {key : VaultKey}
      (h : Writes deps c opened e salt key) : Did c opened e (.held salt key)
  | escrow {input : PassphraseInput} {salt : Salt} {nonce : Nonce} {opened : Option VaultKey} {e : Entry} :
      Did (.escrowCreate input salt nonce) opened e e

/-- A command leaves the files of other devices alone. -/
theorem Left.files_of_ne (h : Left deps m d env c m') {p : FilePath} (hkey : p ≠ keyPath d)
    (hescrow : p ≠ escrowPath d) : m'.files p = m.files p := by
  cases h with
  | same => rfl
  | removed => exact Machine.files_remove_of_ne hkey
  | record n _ => exact Machine.files_put_of_ne hkey _
  | escrow mode n _ => exact Machine.files_put_of_ne hescrow _

theorem Left.keyring (h : Left deps m d env c m') : m'.keyring = m.keyring := by
  cases h <;> rfl

theorem entryOf_congr (h : m'.files (keyPath d) = m.files (keyPath d)) : entryOf deps m' d = entryOf deps m d := by
  rw [entryOf, entryOf, h]

/-- A command leaves the records of other devices. -/
theorem Left.entryOf_of_ne (h : Left deps m d env c m') (hne : d' ≠ d) :
    entryOf deps m' d' = entryOf deps m d' :=
  entryOf_congr (h.files_of_ne (fun heq => hne (keyPath_inj.mp heq)) (keyPath_ne_escrowPath d' d))

theorem entryOf_wrote (mode : ℕ) (t : Text) :
    entryOf deps (m.wrote (keyPath d) mode t) d = Entry.ofText deps t :=
  entryOf_of_some (Machine.files_put_self _)

/-- What a command may leave is a turn of its device. -/
theorem Left.turn (h : Left deps m d env c m') :
    Turn deps c (openedKey deps m d c) (entryOf deps m d) (entryOf deps m' d) := by
  cases h with
  | same => exact .keep
  | removed =>
      rw [entryOf_of_none (m := m.remove (keyPath d)) (by simp [Machine.remove])]
      exact .lock
  | @record _ salt key n hwrites =>
      rw [entryOf_wrote]
      by_cases hwhole : (storedRecord salt key).toJson.take n = (storedRecord salt key).toJson
      · rw [hwhole, ofText_record]
        exact .write hwrites
      · rw [ofText_brokenOff ⟨List.take_prefix _ _, hwhole⟩]
        exact .breakOff hwrites
  | escrow mode n _ =>
      rw [entryOf_congr (Machine.files_put_of_ne (keyPath_ne_escrowPath d d) _)]
      exact .keep

/-- What a command that is done did to the record. -/
theorem Done.did (h : Done deps m d env c m') :
    Did deps c (openedKey deps m d c) (entryOf deps m d) (entryOf deps m' d) := by
  cases h with
  | removed =>
      rw [entryOf_of_none (m := m.remove (keyPath d)) (by simp [Machine.remove])]
      exact .lock
  | record hwrites =>
      rw [entryOf_wrote, ofText_record]
      exact .write hwrites
  | escrow _ =>
      rw [entryOf_congr (Machine.files_put_of_ne (keyPath_ne_escrowPath d d) _)]
      exact .escrow

theorem Left.shaped (h : Left deps m d env c m') (hshaped : Shaped m) : Shaped m' := by
  intro d' f hf
  by_cases hd : d' = d
  · subst hd
    cases h with
    | same => exact hshaped d' f hf
    | removed => simp [Machine.remove] at hf
    | @record _ salt key n _ =>
        rw [Machine.wrote, Machine.files_put_self] at hf
        cases hf
        exact ⟨salt, key, List.take_prefix _ _⟩
    | escrow mode n _ =>
        rw [Machine.files_put_of_ne (keyPath_ne_escrowPath d' d')] at hf
        exact hshaped d' f hf
  · rw [h.files_of_ne (fun heq => hd (keyPath_inj.mp heq)) (keyPath_ne_escrowPath d' d)] at hf
    exact hshaped d' f hf

/-! ## Steps -/

variable {e : KeyEvent}

/-- **A command**, whatever fails. -/
theorem left_command (hshaped : Shaped m) (d : Device) (env : Env) (c : VaultCommand) (faults : List Fault) :
    Left deps m d env c (keyStep deps kr m (.command d env c faults)) :=
  (triple_command hshaped c m faults rfl).1

/-- **A command** that answers well. -/
theorem done_command (hshaped : Shaped m) {faults : List Fault}
    (h : answer deps kr m (.command d env c faults) = some (.ok ())) :
    Done deps m d env c (keyStep deps kr m (.command d env c faults)) :=
  (triple_command hshaped c m faults rfl).2 () (Option.some.inj h)

/-- A change of permissions is none of texts. -/
theorem files_chmod (p q : FilePath) (mode : ℕ) :
    ((m.chmod p mode).files q).map KeyFile.text = (m.files q).map KeyFile.text := by
  unfold Machine.chmod
  rcases hp : m.files p with _ | f
  · rfl
  · by_cases hq : q = p
    · rw [hq, Machine.files_put_self, hp]
      rfl
    · rw [Machine.files_put_of_ne hq]

theorem entryOf_chmod (p : FilePath) (mode : ℕ) : entryOf deps (m.chmod p mode) d = entryOf deps m d := by
  have htext := congrArg (Option.map (Entry.ofText deps)) (files_chmod (m := m) p (keyPath d) mode)
  rw [Option.map_map, Option.map_map] at htext
  exact congrArg (fun o => Option.getD o Entry.absent) htext

/-- The operator changes no key file. -/
theorem files_carry (src dst : Device) : (carry m src dst).files (keyPath d) = m.files (keyPath d) := by
  unfold carry
  split
  · rfl
  · exact Machine.files_put_of_ne (keyPath_ne_escrowPath d dst) _

theorem Shaped.keyStep (hshaped : Shaped m) (e : KeyEvent) : Shaped (keyStep deps kr m e) := by
  cases e with
  | command d env c faults => exact (left_command hshaped d env c faults).shaped hshaped
  | carry src dst =>
      intro d f hf
      exact hshaped d f ((files_carry src dst).symm.trans hf)
  | chmod p mode =>
      intro d f hf
      have htext := files_chmod (m := m) p (keyPath d) mode
      rw [show (m.chmod p mode).files (keyPath d) = some f from hf, Option.map_some] at htext
      obtain ⟨f', hf', heq⟩ := Option.map_eq_some_iff.mp htext.symm
      rw [← heq]
      exact hshaped d f' hf'

theorem keyring_keyStep (hshaped : Shaped m) (e : KeyEvent) : (keyStep deps kr m e).keyring = m.keyring := by
  cases e with
  | command d env c faults => exact (left_command hshaped d env c faults).keyring
  | carry src dst =>
      show (carry m src dst).keyring = _
      unfold carry
      split <;> rfl
  | chmod p mode =>
      show (m.chmod p mode).keyring = _
      unfold Machine.chmod
      split <;> rfl

/-- The event is a command of the device. -/
def IsOf (d : Device) (c : VaultCommand) (e : KeyEvent) : Prop := ∃ env faults, e = .command d env c faults

/-- **One step**: a device goes on by a turn of a command of its own, or stays as it is. -/
theorem turn_keyStep (kr : Keyring κ) (hshaped : Shaped m) (e : KeyEvent) (d : Device) :
    (∃ c, IsOf d c e ∧ Turn deps c (openedKey deps m d c) (entryOf deps m d)
      (entryOf deps (keyStep deps kr m e) d)) ∨
    (∀ c, ¬ IsOf d c e) ∧ entryOf deps (keyStep deps kr m e) d = entryOf deps m d := by
  cases e with
  | command d' env c faults =>
      have hleft : Left deps m d' env c (keyStep deps kr m (.command d' env c faults)) :=
        left_command hshaped d' env c faults
      by_cases hd : d' = d
      · subst hd
        exact .inl ⟨c, ⟨env, faults, rfl⟩, hleft.turn⟩
      · refine .inr ⟨?_, hleft.entryOf_of_ne fun heq => hd heq.symm⟩
        rintro c' ⟨env', faults', heq⟩
        cases heq
        exact hd rfl
  | carry src dst =>
      refine .inr ⟨?_, entryOf_congr (files_carry src dst)⟩
      rintro c ⟨env, faults, heq⟩
      cases heq
  | chmod p mode =>
      refine .inr ⟨?_, entryOf_chmod p mode⟩
      rintro c ⟨env, faults, heq⟩
      cases heq

/-! ## Runs -/

variable {start : Machine κ} {es mid : List KeyEvent}

/-- A machine keeps its shape. -/
theorem shaped_run (hshaped : Shaped start) (es : List KeyEvent) :
    Shaped (run (keyStep deps kr) start es) := by
  induction es using List.reverseRecOn with
  | nil => exact hshaped
  | append_singleton es e ih =>
      rw [run_snoc]
      exact ih.keyStep e

/-- The keychain is never used. -/
theorem keyring_run (hshaped : Shaped start) (es : List KeyEvent) :
    (run (keyStep deps kr) start es).keyring = start.keyring := by
  induction es using List.reverseRecOn with
  | nil => rfl
  | append_singleton es e ih =>
      rw [run_snoc, keyring_keyStep (shaped_run hshaped es), ih]

/-- A command after which the device has another salt than before, or none. -/
def VaultCommand.forgets : VaultCommand → Bool
  | .unlock _ saltHex _ => saltHex.isSome
  | .lock => true
  | .escrowCreate _ _ _ => false
  | .escrowRecover _ _ _ => true

/-- A command that writes a record. -/
def VaultCommand.writes : VaultCommand → Bool
  | .unlock _ _ _ => true
  | .escrowRecover _ _ _ => true
  | _ => false

variable (deps) in
/-- The key is that of an unlock among the events, with the salt. -/
def UnlockedIn (d : Device) (salt : Bytes) (es : List KeyEvent) (key : VaultKey) : Prop :=
  ∃ input fresh, (∃ e ∈ es, IsOf d (.unlock input none fresh) e) ∧
    deriveFromPassphrase deps (OsPath.utf8 input.text) salt = .ok key

theorem UnlockedIn.snoc {salt : Bytes} {key : VaultKey} (h : UnlockedIn deps d salt es key) (e : KeyEvent) :
    UnlockedIn deps d salt (es ++ [e]) key := by
  obtain ⟨input, fresh, ⟨e', hmem, hof⟩, hkey⟩ := h
  exact ⟨input, fresh, ⟨e', List.mem_append_left _ hmem, hof⟩, hkey⟩

/-- What a turn that does not forget the salt makes of an entry with one. -/
theorem Turn.keeps_salt {opened : Option VaultKey} {salt : Bytes} {key : VaultKey} {before after : Entry}
    (h : Turn deps c opened before after) (hheld : before = .held salt key) (hkeep : c.forgets = false) :
    after = .held salt key ∨ after = .torn ∨
      ∃ input fresh key', c = .unlock input none fresh ∧ after = .held salt key' ∧
        deriveFromPassphrase deps (OsPath.utf8 input.text) salt = .ok key' := by
  subst hheld
  cases h with
  | keep => exact .inl rfl
  | lock => cases hkeep
  | breakOff _ => exact .inr (.inl rfl)
  | write hwrites =>
      cases hwrites with
      | given _ _ => cases hkeep
      | again hkey => exact .inr (.inr ⟨_, _, _, rfl, rfl, hkey⟩)
      | recovered => cases hkeep

/-- A record that broke off stays so until the salt is forgotten. -/
theorem Turn.of_torn {opened : Option VaultKey} {before after : Entry} (h : Turn deps c opened before after)
    (htorn : before = .torn) (hkeep : c.forgets = false) : after = .torn := by
  subst htorn
  cases h with
  | keep => rfl
  | lock => cases hkeep
  | breakOff _ => rfl
  | write hwrites =>
      cases hwrites with
      | given _ _ => cases hkeep
      | recovered => cases hkeep

/-- A device without a record has none until it writes one. -/
theorem Turn.of_absent {opened : Option VaultKey} {before after : Entry}
    (h : Turn deps c opened before after) (habsent : before = .absent) (hkeep : c.writes = false) :
    after = .absent := by
  subst habsent
  cases h with
  | keep => rfl
  | lock => rfl
  | write hwrites => cases hwrites <;> cases hkeep
  | breakOff hwrites => cases hwrites <;> cases hkeep

/-- The salt stays while no command of the device forgets it. -/
theorem salt_kept {salt : Bytes} {key : VaultKey} (hshaped : Shaped m) (hheld : entryOf deps m d = .held salt key)
    (hkeep : ∀ e ∈ mid, ∀ c, IsOf d c e → c.forgets = false) :
    entryOf deps (run (keyStep deps kr) m mid) d = .torn ∨
      ∃ key', entryOf deps (run (keyStep deps kr) m mid) d = .held salt key' ∧
        (key' = key ∨ UnlockedIn deps d salt mid key') := by
  induction mid using List.reverseRecOn with
  | nil => exact .inr ⟨key, hheld, .inl rfl⟩
  | append_singleton mid e ih =>
      have hbefore := ih fun e' he' => hkeep e' (List.mem_append_left _ he')
      rw [run_snoc]
      rcases turn_keyStep kr (shaped_run hshaped mid) e d with ⟨c, hof, hturn⟩ | ⟨-, hsame⟩
      · have hc := hkeep e (by simp) c hof
        rcases hbefore with htorn | ⟨key', hkey', hfrom⟩
        · exact .inl (hturn.of_torn htorn hc)
        · rcases hturn.keeps_salt hkey' hc with hafter | hafter | ⟨input, fresh, key'', hcommand, hafter, hderive⟩
          · exact .inr ⟨key', hafter, hfrom.imp_right fun h => h.snoc e⟩
          · exact .inl hafter
          · refine .inr ⟨key'', hafter, .inr ⟨input, fresh, ⟨e, by simp, hcommand ▸ hof⟩, hderive⟩⟩
      · rw [hsame]
        rcases hbefore with htorn | ⟨key', hkey', hfrom⟩
        · exact .inl htorn
        · exact .inr ⟨key', hkey', hfrom.imp_right fun h => h.snoc e⟩

/-- A device without a record has none while no command of it writes one. -/
theorem absent_kept (kr : Keyring κ) (hshaped : Shaped m) (habsent : entryOf deps m d = .absent)
    (hkeep : ∀ e ∈ mid, ∀ c, IsOf d c e → c.writes = false) :
    entryOf deps (run (keyStep deps kr) m mid) d = .absent := by
  induction mid using List.reverseRecOn with
  | nil => exact habsent
  | append_singleton mid e ih =>
      have hbefore := ih fun e' he' => hkeep e' (List.mem_append_left _ he')
      rw [run_snoc]
      rcases turn_keyStep kr (shaped_run hshaped mid) e d with ⟨c, hof, hturn⟩ | ⟨-, hsame⟩
      · exact hturn.of_absent hbefore (hkeep e (by simp) c hof)
      · rw [hsame, hbefore]

/-! ## The law -/

/-- What a daemon starts with is the key of the environment, or that of the device's record. -/
theorem of_resolveVaultKey (hshaped : Shaped m) {faults : List Fault} {key : VaultKey}
    (h : (resolveVaultKey deps kr env d m faults).1 = .ok (some key)) :
    loadVaultKeyFromEnv deps env = .ok (some key) ∨
      loadVaultKeyFromEnv deps env = .ok none ∧ ∃ salt, entryOf deps m d = .held salt key := by
  have hresolved : resolvedKey deps m env d = some key :=
    ((reads_resolveVaultKey m faults rfl).2 (some key) h).2 key rfl
  unfold resolvedKey at hresolved
  rcases henv : loadVaultKeyFromEnv deps env with e | _ | key'
  · rw [henv] at hresolved
    cases hresolved
  · rw [henv] at hresolved
    obtain ⟨f, hfile, hkey⟩ := Option.bind_eq_some_iff.mp hresolved
    split_ifs at hkey
    rcases hparsed : parseStoredKey deps f.text with e | key'
    · rw [hparsed] at hkey
      cases hkey
    · rw [hparsed] at hkey
      cases hkey
      exact .inr ⟨rfl, hshaped.entryOf_of_key hfile hparsed⟩
  · rw [henv] at hresolved
    cases hresolved
    exact .inl rfl

theorem reads_vaultKeyStatus : Reads m (vaultKeyStatus kr d) fun state =>
    (state = .locked ↔ entryOf deps m d = .absent) := by
  refine reads_label.seq fun label hlabel => reads_openE2eeKeystore.seq fun store hstore => ?_
  subst hlabel hstore
  refine reads_load.mapError.seq fun entry hentry => (Reads.pure _).mono fun state hstate => ?_
  rw [hstate]
  rcases hentry with ⟨hnone, rfl⟩ | ⟨f, hfile, -, rfl⟩
  · exact ⟨fun _ => entryOf_of_none hnone, fun _ => rfl⟩
  · refine ⟨fun h => (by cases h), fun habsent => ?_⟩
    have hgone := of_entryOf_absent habsent
    rw [show m.files (keyPath d) = some f from hfile] at hgone
    cases hgone

variable (deps kr) in
/-- What holds of the keys of all devices over a run. -/
structure KeyLaw (start : Machine κ) (es : List KeyEvent) : Prop where
  /-- The keychain of the operating system is as it was. -/
  keyring : (run (keyStep deps kr) start es).keyring = start.keyring
  /-- A device goes from entry to entry by the turns of its own commands. -/
  turns : Always (keyStep deps kr) (fun _ m e => ∀ d,
    (∃ c, IsOf d c e ∧ Turn deps c (openedKey deps m d c) (entryOf deps m d)
      (entryOf deps (keyStep deps kr m e) d)) ∨
    (∀ c, ¬ IsOf d c e) ∧ entryOf deps (keyStep deps kr m e) d = entryOf deps m d) start es
  /-- A command that answers well has done what it is for. -/
  done : Always (keyStep deps kr) (fun _ m e => ∀ d c, IsOf d c e → answer deps kr m e = some (.ok ()) →
    Did deps c (openedKey deps m d c) (entryOf deps m d) (entryOf deps (keyStep deps kr m e) d)) start es
  /-- Where nothing fails and the key file is private, an unlock stores the record that it is to write. -/
  unlocks : ∀ d env input saltHex fresh opened salt key, input.text ≠ [] →
    loadVaultKeyFromEnv deps env = .ok none →
    (∀ f, (run (keyStep deps kr) start es).files (keyPath d) = some f → insecure f.mode = false) →
    Writes deps (.unlock input saltHex fresh) opened (entryOf deps (run (keyStep deps kr) start es) d) salt key →
      let e := KeyEvent.command d env (.unlock input saltHex fresh) []
      answer deps kr (run (keyStep deps kr) start es) e = some (.ok ()) ∧
        entryOf deps (run (keyStep deps kr) start (es ++ [e])) d = .held salt key
  /-- A daemon starts with the key of the environment, or with that of the device's record. -/
  resolves : ∀ d env faults key,
    (resolveVaultKey deps kr env d (run (keyStep deps kr) start es) faults).1 = .ok (some key) →
      loadVaultKeyFromEnv deps env = .ok (some key) ∨
        loadVaultKeyFromEnv deps env = .ok none ∧
          ∃ salt, entryOf deps (run (keyStep deps kr) start es) d = .held salt key
  /-- A device is said to be unlocked when there is a record, also one that broke off. -/
  status : ∀ d faults state, (vaultKeyStatus kr d (run (keyStep deps kr) start es) faults).1 = .ok state →
    (state = .locked ↔ entryOf deps (run (keyStep deps kr) start es) d = .absent)
  /-- While a device does not forget its salt, it has the same key, or one that an unlock derived from it,
  unless an unlock was cut off and its record is torn. -/
  salts : ∀ pre mid d salt key, es = pre ++ mid →
    entryOf deps (run (keyStep deps kr) start pre) d = .held salt key →
    (∀ e ∈ mid, ∀ c, IsOf d c e → c.forgets = false) →
      entryOf deps (run (keyStep deps kr) start es) d = .torn ∨
        ∃ key', entryOf deps (run (keyStep deps kr) start es) d = .held salt key' ∧
          (key' = key ∨ UnlockedIn deps d salt mid key')
  /-- After a lock, whatever the device had before, an unlock derives the key from a fresh salt. -/
  relocked : ∀ pre mid d lock unlock input fresh, es = pre ++ lock :: (mid ++ [unlock]) →
    IsOf d .lock lock → answer deps kr (run (keyStep deps kr) start pre) lock = some (.ok ()) →
    (∀ e ∈ mid, ∀ c, IsOf d c e → c.writes = false) → IsOf d (.unlock input none fresh) unlock →
    answer deps kr (run (keyStep deps kr) start (pre ++ lock :: mid)) unlock = some (.ok ()) →
      ∃ key, deriveFromPassphrase deps (OsPath.utf8 input.text) fresh.toList = .ok key ∧
        entryOf deps (run (keyStep deps kr) start es) d = .held fresh.toList key

theorem did_of_isOf (hshaped : Shaped m) {e : KeyEvent} (hof : IsOf d c e)
    (hanswer : answer deps kr m e = some (.ok ())) :
    Did deps c (openedKey deps m d c) (entryOf deps m d) (entryOf deps (keyStep deps kr m e) d) := by
  obtain ⟨env, faults, rfl⟩ := hof
  exact (done_command hshaped hanswer).did

theorem Did.of_lock {opened : Option VaultKey} {before after : Entry} (h : Did deps .lock opened before after) :
    after = .absent := by
  cases h with
  | lock => rfl
  | write hwrites => cases hwrites

theorem Did.of_first_unlock {input : PassphraseInput} {fresh : Salt} {opened : Option VaultKey}
    {before after : Entry} (h : Did deps (.unlock input none fresh) opened before after)
    (habsent : before = .absent) :
    ∃ key, deriveFromPassphrase deps (OsPath.utf8 input.text) fresh.toList = .ok key ∧
      after = .held fresh.toList key := by
  subst habsent
  cases h with
  | write hwrites =>
      cases hwrites with
      | first hkey => exact ⟨_, hkey, rfl⟩

end

/-! ## The same passphrase, after a lock -/

/-- The bytes from a number on. -/
def saltFrom (n : ℕ) : Salt := List.Vector.ofFn fun i => UInt8.ofNat (n + i)

/-- What Argon2id makes of `pw` with the bytes from 0 on. -/
def firstKey : VaultKey :=
  ⟨[179, 124, 123, 116, 118, 72, 251, 232, 197, 243, 223, 190, 131, 251, 37, 52, 252, 231, 12, 175, 53, 246,
    137, 244, 220, 217, 12, 117, 243, 222, 148, 49], rfl⟩

/-- What Argon2id makes of `pw` with the bytes from 32 on. -/
def secondKey : VaultKey :=
  ⟨[44, 184, 205, 32, 198, 79, 92, 140, 62, 233, 188, 8, 225, 169, 130, 121, 58, 194, 165, 7, 222, 97, 125, 81,
    208, 198, 187, 177, 55, 173, 129, 224], rfl⟩

/-- What Argon2id makes of `rec` with the bytes from 16 on. -/
def wrapKey : VaultKey :=
  ⟨[146, 109, 154, 172, 143, 91, 64, 72, 201, 71, 190, 78, 230, 52, 139, 97, 30, 5, 236, 216, 235, 121, 85, 161,
    39, 73, 247, 193, 187, 19, 174, 71], rfl⟩

def wrapNonce : Nonce := List.Vector.ofFn fun i => UInt8.ofNat i

/-- The first key, encrypted under the key to wrap with by XChaCha20-Poly1305. -/
def wrappedKey : Bytes :=
  [89, 149, 227, 155, 220, 142, 186, 99, 81, 23, 143, 224, 146, 44, 60, 122, 213, 88, 162, 23, 126, 174, 103, 53,
    145, 4, 117, 201, 91, 5, 5, 170, 96, 13, 193, 232, 187, 57, 38, 39, 22, 137, 83, 22, 153, 76, 96, 181]

/-- The cipher at the sample input. -/
def sampleCipher : Aead where
  encrypt key nonce plaintext :=
    if key = wrapKey ∧ nonce = wrapNonce ∧ plaintext = firstKey.toList then some wrappedKey else none
  decrypt key nonce ciphertext :=
    if key = wrapKey ∧ nonce = wrapNonce ∧ ciphertext = wrappedKey then some firstKey.toList else none
  decrypt_encrypt := by
    intro key nonce plaintext ciphertext h
    split_ifs at h with hsample
    cases h
    rw [if_pos ⟨hsample.1, hsample.2.1, rfl⟩, hsample.2.2]
  length_encrypt := by
    intro key nonce plaintext ciphertext h
    split_ifs at h with hsample
    cases h
    rw [hsample.2.2]
    rfl

noncomputable def sampleDeps : Deps where
  argon2id passphrase salt :=
    if passphrase = OsPath.utf8 "pw".toList ∧ salt = (saltFrom 0).toList then some firstKey
    else if passphrase = OsPath.utf8 "rec".toList ∧ salt = (saltFrom 16).toList then some wrapKey
    else if passphrase = OsPath.utf8 "pw".toList ∧ salt = (saltFrom 32).toList then some secondKey
    else none
  aead := sampleCipher
  storedKey := .ofPrefixFree fun _ _ => StoredE2eeKey.toJson_prefix
  escrowBlob := .ofPrefixFree fun _ _ => EscrowBlob.toJson_prefix

/-- A host without a keychain. -/
def noKeychain : Keyring Unit where
  newEntry _ _ := .ok ()
  setPassword _ _ _ _ := (.error (.other "no service".toList), ())
  getPassword _ _ _ := (.error (.other "no service".toList), ())
  deleteCredential _ _ _ := (.error (.other "no service".toList), ())

def emptyMachine : Machine Unit := ⟨fun _ => none, ()⟩

def noEnv : Env := ⟨none, none⟩

def laptop : Device := ⟨["state".toList], "laptop".toList, rfl⟩

def unlockWith (passphrase : Text) (fresh : Salt) : KeyEvent :=
  .command laptop noEnv (.unlock (.flag passphrase) none fresh) []

def relockRun : List KeyEvent :=
  [unlockWith "pw".toList (saltFrom 0), .command laptop noEnv .lock [], unlockWith "pw".toList (saltFrom 32)]

theorem shaped_emptyMachine : Shaped emptyMachine := by
  intro d f hf
  cases hf

theorem derive_first : deriveFromPassphrase sampleDeps (OsPath.utf8 "pw".toList) (saltFrom 0).toList =
    .ok firstKey := rfl

theorem derive_second : deriveFromPassphrase sampleDeps (OsPath.utf8 "pw".toList) (saltFrom 32).toList =
    .ok secondKey := rfl

/-- A first unlock of the sample device. -/
theorem keyStep_unlockWith {m : Machine Unit} {passphrase : Text} {fresh : Salt} {key : VaultKey}
    (hpassphrase : passphrase ≠ []) (hnone : m.files (keyPath laptop) = none)
    (hkey : deriveFromPassphrase sampleDeps (OsPath.utf8 passphrase) fresh.toList = .ok key) :
    keyStep sampleDeps noKeychain m (unlockWith passphrase fresh) =
      m.wrote (keyPath laptop) 0o600 (storedRecord fresh.toList key).toJson := by
  have hwrites : Writes sampleDeps (.unlock (.flag passphrase) none fresh) none (entryOf sampleDeps m laptop)
      fresh.toList key := by
    rw [entryOf_of_none hnone]
    exact .first hkey
  have hrun : runUnlock sampleDeps noKeychain laptop noEnv (.flag passphrase) none fresh m [] = _ :=
    runUnlock_nil hpassphrase rfl (fun f hf => by rw [hnone] at hf; cases hf) hwrites
  exact congrArg (fun r => r.2.1) hrun

end DiskArcana.Keys
