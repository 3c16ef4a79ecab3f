import DiskArcana.Hosting.Model

/-!
# Locations, blobs and tables of a host

Small facts about the parts of a host's state: where the path guard leads, that different hashes have
different places in the content store, and what a write, an archived blob and an update of one
scope's tables leave alone.
-/

namespace DiskArcana.Hosting

open DiskArcana.Core DiskArcana.Lib DiskArcana.Lib.LexicalPath DiskArcana.Server

/-! ## The path guard -/

/-- What a path that passes the guard leads to. -/
theorem of_pathGuard {root : List String} {path : String} {loc : List String}
    (h : pathGuard root path = .ok loc) :
    loc = resolve root (components path) ∧ root <+: loc ∧ ".." ∉ components path ∧
      ("/" ++ pathString loc).utf8ByteSize ≤ 4096 := by
  unfold pathGuard at h
  dsimp only at h
  split_ifs at h with hnul hdots hroot hlen
  cases h
  refine ⟨rfl, ?_, by simpa using hdots, by simpa using hlen⟩
  simpa using hroot

/-- Different strings have different keys. -/
theorem dbKey_injective {a b : String} (h : dbKey a = dbKey b) : a = b := by
  unfold dbKey at h
  have hparts := List.map_injective_iff.mpr (fun _ _ hab => String.ofList_inj.mp hab) h
  exact String.toList_inj.mp (splitSlash_injective hparts)

theorem nul_notMem_of_pathGuard {root : List String} {path : String} {loc : List String}
    (h : pathGuard root path = .ok loc) : '\x00' ∉ path.toList := by
  intro hmem
  unfold pathGuard at h
  rw [if_pos (by simpa using hmem)] at h
  cases h

/-- **The string of a place.** A path that passes the guard leads to names below the root, made of
its own characters, and the names joined by slashes pass the guard to the same place. -/
theorem exists_names_of_pathGuard {root : List String} {path : String} {loc : List String}
    (h : pathGuard root path = .ok loc) :
    ∃ rel, loc = root ++ rel ∧ (∀ n ∈ rel, ∀ c ∈ n.toList, c ∈ path.toList) ∧
      pathGuard root (pathString rel) = .ok loc := by
  obtain ⟨hloc, ⟨rel, hrel⟩, hdots, hlen⟩ := of_pathGuard h
  have hmem : ∀ n ∈ rel, n ∈ components path ∧ n ≠ "/" ∧ n ≠ "." := by
    intro n hn
    rcases components_cases path with hroot | ⟨rest, hcomp, hroot⟩
    · rw [resolve_eq_append root hroot hdots, ← hrel] at hloc
      rw [List.append_cancel_left hloc] at hn
      obtain ⟨hin, hdot⟩ := List.mem_filter.mp hn
      exact ⟨hin, fun heq => hroot (heq ▸ hin), by simpa using hdot⟩
    · have hdots' : ".." ∉ rest := by
        intro hin
        apply hdots
        rw [hcomp]
        exact List.mem_cons_of_mem _ hin
      have hstart : resolve root (components path) = resolve [] rest := by
        rw [hcomp]
        rfl
      rw [hstart, resolve_eq_append [] hroot hdots', List.nil_append] at hloc
      have hin : n ∈ rest.filter (· ≠ ".") := by
        rw [← hloc, ← hrel]
        exact List.mem_append_right _ hn
      obtain ⟨hin, hdot⟩ := List.mem_filter.mp hin
      refine ⟨?_, fun heq => hroot (heq ▸ hin), by simpa using hdot⟩
      rw [hcomp]
      exact List.mem_cons_of_mem _ hin
  have hclean : ∀ n ∈ rel, Clean n := by
    intro n hn
    obtain ⟨hin, hroot, hdot⟩ := hmem n hn
    obtain ⟨hne, hslash, -⟩ := of_mem_components hin hroot
    exact ⟨hne, hslash, hdot, fun heq => hdots (heq ▸ hin)⟩
  have hchars : ∀ n ∈ rel, ∀ c ∈ n.toList, c ∈ path.toList := by
    intro n hn
    exact (of_mem_components (hmem n hn).1 (hmem n hn).2.1).2.2
  refine ⟨rel, hrel.symm, hchars, ?_⟩
  have hcomp : components (pathString rel) = rel := components_intercalate hclean
  have hnul : '\x00' ∉ (pathString rel).toList := by
    intro hmem'
    unfold pathString at hmem'
    rw [String.toList_intercalate] at hmem'
    rcases of_mem_intercalate hmem' with hc | ⟨part, hpart, hc⟩
    · exact absurd hc (by decide)
    · obtain ⟨n, hn, rfl⟩ := List.mem_map.mp hpart
      exact nul_notMem_of_pathGuard h (hchars n hn _ hc)
  have hdots'' : ".." ∉ rel := fun hin => (hclean ".." hin).dots rfl
  unfold pathGuard
  dsimp only
  rw [if_neg (by simpa using hnul), hcomp, if_neg (by simpa using hdots''),
    resolve_of_clean root hclean, hrel, if_neg (by simp [← hrel]), if_neg (by omega)]

theorem replaceBackslash_eq_self {s : String} (h : '\\' ∉ s.toList) : replaceBackslash s = s := by
  have hmap : s.toList.map (fun c => if c = '\\' then '/' else c) = s.toList.map id := by
    apply List.map_congr_left
    intro c hc
    have hne : c ≠ '\\' := by
      rintro rfl
      exact h hc
    rw [if_neg hne]
    rfl
  unfold replaceBackslash
  rw [hmap, List.map_id, String.ofList_toList]

theorem backslash_notMem_replaceBackslash (s : String) : '\\' ∉ (replaceBackslash s).toList := by
  unfold replaceBackslash
  rw [String.toList_ofList]
  intro hmem
  obtain ⟨c, -, hc⟩ := List.mem_map.mp hmem
  split_ifs at hc with hslash
  · exact absurd hc (by decide)
  · exact hslash hc

theorem backslash_notMem_of_normalizeRelPath {raw path : String}
    (h : normalizeRelPath raw = .ok path) : '\\' ∉ path.toList := by
  unfold normalizeRelPath at h
  extract_lets trimmed at h
  by_cases hbad : (trimmed.isEmpty || (trimmed.zip trimmed.tail).contains ('.', '.')) = true
  · rw [if_pos hbad] at h
    exact absurd h (by simp)
  · rw [if_neg hbad] at h
    rw [← Except.ok.inj h]
    exact backslash_notMem_replaceBackslash _

/-- A key is the string it was made of. -/
theorem pathString_dbKey (s : String) : pathString (dbKey s) = s := by
  unfold pathString dbKey
  apply String.toList_inj.mp
  rw [String.toList_intercalate, List.map_map]
  have hparts : (splitSlash s.toList).map (String.toList ∘ String.ofList) = splitSlash s.toList := by
    simp [Function.comp_def]
  rw [hparts, splitSlash_eq_splitOn]
  exact List.intercalate_splitOn '/'

/-- Names without a backslash are stored under the string that joins them. -/
theorem pathAsStr_eq {rel : List String} (h : ∀ n ∈ rel, '\\' ∉ n.toList) :
    pathAsStr rel = dbKey (pathString rel) := by
  unfold pathAsStr
  rw [replaceBackslash_eq_self]
  intro hmem
  unfold pathString at hmem
  rw [String.toList_intercalate] at hmem
  rcases of_mem_intercalate hmem with hc | ⟨part, hpart, hc⟩
  · exact absurd hc (by decide)
  · obtain ⟨n, hn, rfl⟩ := List.mem_map.mp hpart
    exact h n hn hc

/-! ## State updates -/

@[simp] theorem Host.write_db (h : Host) (loc : List String) (bytes : Bytes) :
    (h.write loc bytes).db = h.db := rfl

@[simp] theorem Host.write_temps (h : Host) (loc : List String) (bytes : Bytes) :
    (h.write loc bytes).temps = h.temps := rfl

@[simp] theorem Host.write_snapshots (h : Host) (loc : List String) (bytes : Bytes) :
    (h.write loc bytes).snapshots = h.snapshots := rfl

@[simp] theorem Host.write_files (h : Host) (loc : List String) (bytes : Bytes) :
    (h.write loc bytes).files = h.files.insert loc bytes := rfl

@[simp] theorem UploadRequest.scope_snd (r : UploadRequest) : r.scope.2 = r.share := rfl

@[simp] theorem RestoreRequest.scope_snd (r : RestoreRequest) : r.scope.2 = r.vault := rfl

@[simp] theorem Host.setDb_db_self (h : Host) (scope : Scope) (db : MetaDb) :
    (h.setDb scope db).db scope = db := by
  unfold Host.setDb
  exact Function.update_self _ _ _

theorem Host.setDb_db_of_ne (h : Host) {scope other : Scope} (hne : other ≠ scope) (db : MetaDb) :
    (h.setDb scope db).db other = h.db other := by
  unfold Host.setDb
  exact Function.update_of_ne hne _ _

/-! ## The content store -/

theorem hexDigit_injective {m n : ℕ} (hm : m < 16) (hn : n < 16) (h : hexDigit m = hexDigit n) :
    m = n := by
  have hall : ∀ a b : Fin 16, hexDigit a.val = hexDigit b.val → a = b := by decide
  exact congrArg Fin.val (hall ⟨m, hm⟩ ⟨n, hn⟩ h)

/-- Different byte strings have different hexadecimal forms. -/
theorem hexEncode_injective {a b : Bytes} (h : hexEncode a = hexEncode b) : a = b := by
  induction a generalizing b with
  | nil =>
      cases b with
      | nil => rfl
      | cons y b => cases h
  | cons x a ih =>
      cases b with
      | nil => cases h
      | cons y b =>
          have hcons : hexDigit (x.toNat / 16) = hexDigit (y.toNat / 16) ∧
              hexDigit (x.toNat % 16) = hexDigit (y.toNat % 16) ∧ hexEncode a = hexEncode b := by
            simpa [hexEncode] using h
          obtain ⟨hhigh, hlow, hrest⟩ := hcons
          have hx := x.toNat_lt
          have hy := y.toNat_lt
          have hhigh' := hexDigit_injective (by omega) (by omega) hhigh
          have hlow' := hexDigit_injective (by omega) (by omega) hlow
          have hbyte : x = y := UInt8.toNat_inj.mp (by omega)
          rw [hbyte, ih hrest]

/-- Different hashes have different places. -/
theorem blobLoc_injective (cfg : HostConfig) {a b : Digest} (h : blobLoc cfg a = blobLoc cfg b) :
    a = b := by
  unfold blobLoc at h
  have hnames := List.append_cancel_left h
  simp only [List.cons.injEq, String.ofList_inj, and_true, true_and] at hnames
  apply List.Vector.toList_injective
  apply hexEncode_injective
  rw [← List.take_append_drop 2 (hexEncode a.toList), hnames.1, hnames.2, List.take_append_drop]

variable {cfg : HostConfig}

/-- **What storing bytes can do**: nothing, or fill the place of a hash that had none. -/
theorem putBlob_cases (h : Host) (hash : Digest) (bytes : Bytes) (ok : Bool) :
    (putBlob cfg h hash bytes ok = h ∧ ((getBlob cfg h hash).isSome = true ∨ ok = false)) ∨
      (putBlob cfg h hash bytes ok = h.write (blobLoc cfg hash) bytes ∧
        getBlob cfg h hash = none ∧ ok = true) := by
  unfold putBlob
  rcases hget : getBlob cfg h hash with _ | old
  · cases ok
    · exact Or.inl ⟨rfl, Or.inr rfl⟩
    · exact Or.inr ⟨rfl, rfl, rfl⟩
  · exact Or.inl ⟨rfl, Or.inl rfl⟩

/-- The old bytes of a target are stored: the file and its row are there, and the hash that the row
remembers has no blob yet. -/
def Archives (cfg : HostConfig) (h : Host) (scope : Scope) (key : Path) (target : List String)
    (ok : Bool) (hash : Digest) (old : Bytes) : Prop :=
  h.files.lookup target = some old ∧
    (∃ m, (h.db scope).getFileScoped key = some m ∧ m.contentHash = hash) ∧
    getBlob cfg h hash = none ∧ ok = true

/-- **What archiving can do**: nothing, or store the old bytes under the row's hash. -/
theorem archive_cases (h : Host) (scope : Scope) (key : Path) (target : List String) (ok : Bool) :
    (archive cfg h scope key target ok = h ∧
      ∀ hash old, ¬ Archives cfg h scope key target ok hash old) ∨
      ∃ hash old, Archives cfg h scope key target ok hash old ∧
        archive cfg h scope key target ok = h.write (blobLoc cfg hash) old := by
  unfold archive
  rcases hfile : h.files.lookup target with _ | old
  · refine Or.inl ⟨rfl, ?_⟩
    rintro hash old ⟨hold, -⟩
    rw [hfile] at hold
    cases hold
  · rcases hrow : (h.db scope).getFileScoped key with _ | m
    · refine Or.inl ⟨rfl, ?_⟩
      rintro hash old ⟨-, ⟨m, hm, -⟩, -⟩
      rw [hrow] at hm
      cases hm
    · rcases putBlob_cases h m.contentHash old ok with
        ⟨hput, hno⟩ | ⟨hput, hnone, hok⟩
      · refine Or.inl ⟨hput, ?_⟩
        rintro hash old' ⟨-, ⟨m', hm', rfl⟩, hnone, hok⟩
        rw [hrow] at hm'
        cases hm'
        rw [hnone] at hno
        rcases hno with hno | hno
        · cases hno
        · rw [hno] at hok
          cases hok
      · exact Or.inr ⟨m.contentHash, old, ⟨hfile, ⟨m, hrow, rfl⟩, hnone, hok⟩, hput⟩

@[simp] theorem archive_db (h : Host) (scope : Scope) (key : Path) (target : List String)
    (ok : Bool) : (archive cfg h scope key target ok).db = h.db := by
  rcases archive_cases h scope key target ok with ⟨heq, -⟩ | ⟨hash, old, -, heq⟩
  · rw [heq]
  · rw [heq, Host.write_db]

@[simp] theorem archive_temps (h : Host) (scope : Scope) (key : Path) (target : List String)
    (ok : Bool) : (archive cfg h scope key target ok).temps = h.temps := by
  rcases archive_cases h scope key target ok with ⟨heq, -⟩ | ⟨hash, old, -, heq⟩
  · rw [heq]
  · rw [heq, Host.write_temps]

@[simp] theorem archive_snapshots (h : Host) (scope : Scope) (key : Path) (target : List String)
    (ok : Bool) : (archive cfg h scope key target ok).snapshots = h.snapshots := by
  rcases archive_cases h scope key target ok with ⟨heq, -⟩ | ⟨hash, old, -, heq⟩
  · rw [heq]
  · rw [heq, Host.write_snapshots]

theorem rowMeta_path (blake3 : Bytes → Digest) (cfg : HostConfig) (r : UploadRequest)
    (target : List String) (bytes : Bytes) :
    (rowMeta blake3 cfg r target bytes).path =
      pathAsStr (target.drop (cfg.rootFor r.share).length) := by
  rw [rowMeta, uploadedMeta]

/-! ## A small host

A server with one share of its own root, for the runs that the development exhibits. -/

/-- The share `notes` has a root of its own, every other share is served from `sync_root`. -/
def smallConfig : HostConfig where
  serverNodeId := "server"
  syncRoot := ["srv", "sync"]
  shareRoots := fun share => if share = "notes" then some ["srv", "notes"] else none

/-- An upload of a file in one message, under a path that is not announced with a hash, with
everything working. -/
def sampleUpload (tenant : Option String) (share path : String) (bytes : Bytes) : UploadRequest where
  tenant := tenant
  share := share
  admitted := .ok ()
  includes := []
  stream := [.ok { path := path, contentHash := [], chunks := [⟨bytes, []⟩] }]
  spoolOk := true
  appendOk := fun _ => true
  fsyncOk := true
  removeOk := true
  publisher := .ok ()
  fingerprint := "0011223344556677"
  quarantineOk := true
  quota := .ok ()
  archiveOk := true
  dirOk := true
  stageOk := true
  stageSyncOk := true
  renameOk := true
  dbOk := true
  upsertOk := true
  usage := .ok ()
  retention := ⟨10, 1000⟩
  mtimeNs := 1
  now := 100

end DiskArcana.Hosting
