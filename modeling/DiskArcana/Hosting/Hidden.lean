import DiskArcana.Lib.Trace
import DiskArcana.Hosting.LiveRows

/-!
# The files that the server keeps for itself

The content store, the quarantine and the spools of uploads are files among those of the shares. They are
hidden when no live row and no offered download leads to them, when no request reaches into the store or
the quarantine by a path of its own, and when no download reads what a rejected publisher has left
(`Hides`).

Only the name of the store is on the list that the index leaves out, and no path of a request is held
against any list. So an event for a spool that is still there, or that a rejected upload has left there,
makes it a file of the share like any other (`not_hides_of_rejected_spool`). Where the index meets
neither spools nor the quarantine, no path of a request leads to an internal file, and what is quarantined
lies in the quarantine (`Discreet`), everything stays hidden (`hides_of_discreet`).
-/

namespace DiskArcana.Hosting

open DiskArcana.Core DiskArcana.Lib DiskArcana.Lib.DirTree DiskArcana.Lib.LexicalPath
open DiskArcana.Server DiskArcana.ShareIndex DiskArcana.System

section

variable (blake3 : Bytes → Digest) (cfg : HostConfig)

/-! ## Internal files -/

/-- The content store. -/
def storeDir : List String := cfg.syncRoot ++ [".version-blobs"]

/-- The quarantine. -/
def quarantineDir : List String := cfg.syncRoot ++ [".quarantine"]

/-- Places of the content store and of the quarantine. -/
def Protected (loc : List String) : Prop := storeDir cfg <+: loc ∨ quarantineDir cfg <+: loc

instance (loc : List String) : Decidable (Protected cfg loc) := inferInstanceAs (Decidable (_ ∨ _))

/-- These, and the spools on disk. -/
def Internal (s : Serving) (loc : List String) : Prop :=
  Protected cfg loc ∨ (s.spools.lookup loc).isSome

instance (s : Serving) (loc : List String) : Decidable (Internal cfg s loc) :=
  inferInstanceAs (Decidable (_ ∨ _))

/-- Where a path string leads in a share. -/
def placeOf (share path : String) : List String := resolve (cfg.rootFor share) (components path)

/-- Where the row of a file leads: the string that the path is stored as is followed again. -/
def rowPlace (share : String) (rel : List String) : List String :=
  placeOf cfg share (replaceBackslash (pathString rel))

/-! ## The law -/

/-- No live row leads to an internal file, or to what a rejected publisher has left. -/
structure Hidden (s : Serving) : Prop where
  internal : ∀ scope path, LiveRow (s.host.db scope) path →
    ¬ Internal cfg s (placeOf cfg scope.2 (pathString path))
  rejected : ∀ scope path, LiveRow (s.host.db scope) path →
    placeOf cfg scope.2 (pathString path) ∉ s.rejected

/-- The publisher of an upload whose bytes have the announced hash is rejected. -/
def OpenUpload.Rejected (u : OpenUpload) (a : Announced) : Prop :=
  u.announced = some a ∧ (a.contentHash = [] ∨ a.contentHash = (blake3 u.bytes).toList) ∧
    ∃ e, u.request.publisher = .error e

/-- The files that the next step of an upload takes by the path of the request. A quarantined file is
one of them when it is not in the quarantine. -/
def UploadTouches (u : OpenUpload) (loc : List String) : Prop :=
  match u.stage with
  | .received => ∃ a, u.Rejected blake3 a ∧ u.request.quarantineOk = true ∧
      loc = quarantineLoc cfg u.request a.path ∧ ¬ quarantineDir cfg <+: loc
  | .cleared => ∃ a, u.announced = some a ∧ pathGuard (cfg.rootFor u.request.share) a.path = .ok loc
  | _ => False

/-- The files that a request takes by a path: of its own, of a row, or of a snapshot. -/
def RequestTouches (h : Host) (req : Request) (loc : List String) : Prop :=
  match req with
  | .download r => (∃ bytes, deltaDownload cfg h r = .ok bytes) ∧
      pathGuard (cfg.rootFor r.share) r.path = .ok loc
  | .restoreVersion r path versionId => ∃ rev, planVersion cfg h r path versionId = .ok rev ∧
      pathGuard cfg.syncRoot rev.path = .ok loc
  | .restoreTrash r path =>
    (∃ rel m, normalizeRelPath path = .ok rel ∧ (h.db r.scope).getFileScoped (dbKey rel) = some m ∧
      loc = resolve cfg.syncRoot (components (pathString (dbKey rel)))) ∨
    ∃ rev, planTrash blake3 cfg h r path = .ok rev ∧ pathGuard cfg.syncRoot rev.path = .ok loc
  | .restoreSnapshot r id => ∃ files, h.snapshots.lookup id = some (r.scope, files) ∧
      ∃ entry ∈ files, entry.deleted = false ∧
        loc = resolve cfg.syncRoot (components (pathString entry.path))
  | _ => False

/-- The files that an event takes by a path. -/
def Touches (s : Serving) : ServerEvent → List String → Prop
  | .request req, loc => RequestTouches blake3 cfg s.host req.1 loc
  | .advance id _, loc => ∃ u, s.uploads.lookup id = some u ∧ UploadTouches blake3 cfg u loc
  | _, _ => False

/-- **The law of a step.** -/
structure Hides (s : Serving) (e : ServerEvent) : Prop where
  rows : Hidden cfg (serveStep blake3 cfg s e)
  listed : ∀ r response, e = .request ⟨.exchange r, rfl⟩ → (exchange s.host r).1 = .ok response →
    ∀ m ∈ response.toDownload, ¬ Internal cfg s (placeOf cfg r.share (pathString m.path)) ∧
      placeOf cfg r.share (pathString m.path) ∉ s.rejected
  touched : ∀ loc, Touches blake3 cfg s e loc → ¬ Protected cfg loc
  served : ∀ r bytes loc, e = .request ⟨.download r, rfl⟩ → deltaDownload cfg s.host r = .ok bytes →
    pathGuard (cfg.rootFor r.share) r.path = .ok loc → loc ∉ s.rejected

/-! ## The condition -/

/-- No live row leads to a location. -/
def Fresh (s : Serving) (loc : List String) : Prop :=
  ∀ scope path, LiveRow (s.host.db scope) path → placeOf cfg scope.2 (pathString path) ≠ loc

/-- The step of an upload: no row or spool has a name that it makes up, its path leads to no internal
file, and what it quarantines lies in the quarantine. -/
def UploadDiscreet (s : Serving) (u : OpenUpload) (random : ℕ) : Prop :=
  match u.stage with
  | .receiving [] => True
  | .receiving (_ :: _) => u.spool = none → Fresh cfg s (spoolLoc cfg u.request.share random)
  | .received => ∀ a, u.Rejected blake3 a → u.request.quarantineOk = true →
      quarantineDir cfg <+: quarantineLoc cfg u.request a.path
  | .cleared =>
    (∀ a loc, u.announced = some a → pathGuard (cfg.rootFor u.request.share) a.path = .ok loc →
      ¬ Internal cfg s loc) ∧
    (u.spool = none → Fresh cfg s (spoolLoc cfg u.request.share random) ∧
      s.spools.lookup (spoolLoc cfg u.request.share random) = none)
  | .placed target _ =>
    ¬ Internal cfg s (rowPlace cfg u.request.share (target.drop (cfg.rootFor u.request.share).length))

/-- A restored path: neither the file below `sync_root` nor the place of its row is internal. -/
def RestoreDiscreet (s : Serving) (vault path : String) : Prop :=
  ¬ Protected cfg (resolve cfg.syncRoot (components path)) ∧
  ∀ target, pathGuard cfg.syncRoot path = .ok target →
    ¬ Internal cfg s target ∧ ¬ Internal cfg s (rowPlace cfg vault (target.drop cfg.syncRoot.length))

/-- A request that is no upload. -/
def RequestDiscreet (s : Serving) : Request → Prop
  | .download r => ∀ loc, pathGuard (cfg.rootFor r.share) r.path = .ok loc →
      ¬ Protected cfg loc ∧ loc ∉ s.rejected
  | .restoreVersion r path _ => ∀ rel, normalizeRelPath path = .ok rel →
      RestoreDiscreet cfg s r.vault rel
  | .restoreTrash r path => ∀ rel, normalizeRelPath path = .ok rel → RestoreDiscreet cfg s r.vault rel
  | .restoreSnapshot r id => ∀ files, s.host.snapshots.lookup id = some (r.scope, files) →
      ∀ entry ∈ files, entry.deleted = false → RestoreDiscreet cfg s r.vault (pathString entry.path)
  | _ => True

/-- A file that the index does not leave out: its row leads neither to the quarantine nor to a spool, and
if it leads to the content store, then to the file itself, and the root is not in there. -/
def IndexDiscreet (s : Serving) (vault : String) (root rel : List String) : Prop :=
  s.host.files.lookup (root ++ rel) ≠ none → isInternalPath rel = false →
    ¬ quarantineDir cfg <+: rowPlace cfg vault rel ∧ s.spools.lookup (rowPlace cfg vault rel) = none ∧
      (storeDir cfg <+: rowPlace cfg vault rel →
        rowPlace cfg vault rel = root ++ rel ∧ ¬ storeDir cfg <+: root)

/-- **The condition of a step**, on the event and the state before it. -/
def Discreet (s : Serving) : ServerEvent → Prop
  | .request req => RequestDiscreet cfg s req.1
  | .advance id random => ∀ u, s.uploads.lookup id = some u → UploadDiscreet blake3 cfg s u random
  | .index _ _ => ∀ vault ev queue root, s.queue = (vault, ev) :: queue →
      cfg.shareRoots vault = some root → IndexDiscreet cfg s vault root (ev.absPath.drop root.length)
  | .reconcile env vaults => ∀ vault ∈ vaults, ∀ root, cfg.shareRoots vault = some root →
      ∀ rel, env.upsertOk vault rel = true → IndexDiscreet cfg s vault root rel
  | _ => True

end

/-! ## Places -/

section

variable {cfg : HostConfig} {s : Serving}

theorem placeOf_pathAsStr (share : String) (rel : List String) :
    placeOf cfg share (pathString (pathAsStr rel)) = rowPlace cfg share rel := by
  unfold pathAsStr rowPlace
  rw [pathString_dbKey]

/-- The files of the tree below a root are files of the host. -/
theorem lookup_of_file_treeOf {h : Host} {root rel : List String} {bytes : Bytes}
    (hfile : (treeOf h root).file rel = some bytes) : h.files.lookup (root ++ rel) = some bytes := by
  obtain ⟨⟨loc, content⟩, hmem, heq⟩ := List.mem_filterMap.mp (Listing.mem_of_file_ofFiles hfile)
  dsimp only at heq
  split_ifs at heq with hroot
  cases heq
  obtain ⟨rest, rfl⟩ := List.isPrefixOf_iff_prefix.mp hroot
  rw [List.drop_left]
  exact Table.mem_entries_iff.mp hmem

/-- **The name on the list keeps the store out**: below a root that is not in the store itself, every
file of the store has the name on its way. -/
theorem isInternalPath_of_store {root rel : List String} (hstore : storeDir cfg <+: root ++ rel)
    (hroot : ¬ storeDir cfg <+: root) : isInternalPath rel = true := by
  obtain ⟨t, ht⟩ : root <+: storeDir cfg :=
    (List.prefix_or_prefix_of_prefix hstore (List.prefix_append root rel)).resolve_left hroot
  have hne : t ≠ [] := by
    rintro rfl
    rw [List.append_nil] at ht
    exact hroot (ht ▸ List.prefix_rfl)
  have hsub : t <+: rel := by
    rw [← ht] at hstore
    exact (List.prefix_append_right_inj root).mp hstore
  have hmem : ".version-blobs" ∈ t := by
    have hlast : (root ++ t).getLast? = some ".version-blobs" := by
      rw [ht]
      simp [storeDir]
    rw [List.getLast?_append_of_ne_nil root hne] at hlast
    exact List.mem_of_getLast? hlast
  unfold isInternalPath
  rw [List.any_eq_true]
  exact ⟨_, hsub.subset hmem, by decide⟩

/-- What the index may make a row of leads to no internal file. -/
theorem IndexDiscreet.not_internal {vault : String} {root rel : List String}
    (h : IndexDiscreet cfg s vault root rel) (hfile : s.host.files.lookup (root ++ rel) ≠ none)
    (hint : isInternalPath rel = false) : ¬ Internal cfg s (rowPlace cfg vault rel) := by
  obtain ⟨hquarantine, hspool, hstore⟩ := h hfile hint
  rintro ((hin | hin) | hin)
  · obtain ⟨hplace, hroot⟩ := hstore hin
    rw [hplace] at hin
    rw [isInternalPath_of_store hin hroot] at hint
    cases hint
  · exact hquarantine hin
  · rw [hspool] at hin
    cases hin

/-- A plain share and a relative path lead into the quarantine. -/
theorem quarantineLoc_of_relative {r : UploadRequest} {path : String} (hshare : "/" ∉ components r.share)
    (hshare' : ".." ∉ components r.share) (hfp : IsName r.fingerprint) (hpath : "/" ∉ components path)
    (hpath' : ".." ∉ components path) : quarantineDir cfg <+: quarantineLoc cfg r path := by
  have hfp' : "/" ∉ [r.fingerprint] ∧ ".." ∉ [r.fingerprint] := by
    simp [Ne.symm hfp.1, Ne.symm hfp.2.2]
  unfold quarantineLoc
  exact ((prefix_resolve_of_not_mem _ hshare hshare').trans
    (prefix_resolve_of_not_mem _ hfp'.1 hfp'.2)).trans (prefix_resolve_of_not_mem _ hpath hpath')

end

/-! ## The invariant -/

section

/-- What holds along the runs; `busy` is the upload that is in the middle of a step. -/
structure Sealed (cfg : HostConfig) (busy : Option ℕ) (s : Serving) : Prop where
  rows : ∀ scope path, LiveRow (s.host.db scope) path →
    ¬ Internal cfg s (placeOf cfg scope.2 (pathString path))
  /-- What a rejected publisher has left is in the quarantine, or the spool of an upload that is over. -/
  rejected : ∀ loc ∈ s.rejected, quarantineDir cfg <+: loc ∨
    ∃ id, s.spools.lookup loc = some id ∧ busy ≠ some id ∧ s.uploads.lookup id = none ∧
      id < s.nextUpload
  present : ∀ loc id, s.spools.lookup loc = some id →
    s.host.files.lookup loc ≠ none ∧ id < s.nextUpload
  owned : ∀ id u, s.uploads.lookup id = some u → busy ≠ some id →
    id < s.nextUpload ∧ ∀ loc bytes, u.spool = some (loc, bytes) → s.spools.lookup loc = some id
  known : ∀ id, busy = some id → id < s.nextUpload
  queue : ∀ x ∈ s.queue, ∀ root, cfg.shareRoots x.1 = some root →
    isInternalPath (x.2.absPath.drop root.length) = false

namespace Sealed

variable {blake3 : Bytes → Digest} {cfg : HostConfig} {s : Serving} {busy : Option ℕ} {id : ℕ}
  {u : OpenUpload} {loc target : List String}

theorem empty : Sealed cfg none .empty where
  rows := by
    rintro scope path ⟨row, hrow, -⟩
    cases hrow
  rejected loc hloc := by cases hloc
  present loc id hid := by cases hid
  owned id u hu := by cases hu
  known id hid := by cases hid
  queue x hx := by cases hx

/-- What a rejected publisher has left is internal. -/
theorem internal_of_rejected (h : Sealed cfg busy s) (hloc : loc ∈ s.rejected) :
    Internal cfg s loc := by
  rcases h.rejected loc hloc with hin | ⟨id, hspool, -⟩
  · exact Or.inl (Or.inr hin)
  · exact Or.inr (by rw [hspool]; rfl)

/-- What the invariant says of rows. -/
theorem hidden (h : Sealed cfg busy s) : Hidden cfg s where
  internal := h.rows
  rejected scope path hlive hmem := h.rows scope path hlive (h.internal_of_rejected hmem)

/-! ### The steps of an upload -/

/-- An upload that is open takes a step. -/
theorem occupy (h : Sealed cfg none s) (hu : s.uploads.lookup id = some u) :
    Sealed cfg (some id) s ∧
      ∀ loc bytes, u.spool = some (loc, bytes) → s.spools.lookup loc = some id := by
  obtain ⟨hlt, hspool⟩ := h.owned id u hu (by simp)
  refine ⟨⟨h.rows, ?_, h.present, fun i v hv _ => h.owned i v hv (by simp), ?_, h.queue⟩, hspool⟩
  · intro loc hloc
    refine (h.rejected loc hloc).imp_right ?_
    rintro ⟨i, hi, -, hover, hlt⟩
    refine ⟨i, hi, ?_, hover, hlt⟩
    rintro heq
    cases heq
    rw [hu] at hover
    cases hover
  · rintro i heq
    cases heq
    exact hlt

theorem close (h : Sealed cfg (some id) s) : Sealed cfg none (s.close id) where
  rows := h.rows
  rejected loc hloc := by
    refine (h.rejected loc hloc).imp_right ?_
    rintro ⟨i, hi, hne, hover, hlt⟩
    refine ⟨i, hi, by simp, ?_, hlt⟩
    show (s.uploads.erase id).lookup i = none
    rw [AList.lookup_erase_ne fun heq => hne (congrArg some heq.symm)]
    exact hover
  present := h.present
  owned i v hv _ := by
    obtain ⟨hne, hv⟩ := Table.of_lookup_erase hv
    exact h.owned i v hv fun heq => hne (Option.some.inj heq).symm
  known := nofun
  queue := h.queue

theorem keep (h : Sealed cfg (some id) s)
    (hspool : ∀ loc bytes, u.spool = some (loc, bytes) → s.spools.lookup loc = some id) :
    Sealed cfg none (s.keep id u) where
  rows := h.rows
  rejected loc hloc := by
    refine (h.rejected loc hloc).imp_right ?_
    rintro ⟨i, hi, hne, hover, hlt⟩
    refine ⟨i, hi, by simp, ?_, hlt⟩
    show (s.uploads.insert id u).lookup i = none
    rw [AList.lookup_insert_ne fun heq => hne (congrArg some heq.symm)]
    exact hover
  present := h.present
  owned i v hv _ := by
    change (s.uploads.insert id u).lookup i = some v at hv
    rw [Table.lookup_insert_eq_ite] at hv
    split_ifs at hv with hi
    · subst hi
      cases hv
      exact ⟨h.known i rfl, hspool⟩
    · exact h.owned i v hv fun heq => hi (Option.some.inj heq).symm
  known := nofun
  queue := h.queue

/-- Other files and tables: no file is gone, and what has become live leads to no internal file. -/
theorem withHost (h : Sealed cfg busy s) {host : Host}
    (hfiles : ∀ loc, s.host.files.lookup loc ≠ none → host.files.lookup loc ≠ none)
    (hrows : HostGains
      (fun scope path => ¬ Internal cfg s (placeOf cfg scope.2 (pathString path))) s.host host) :
    Sealed cfg busy (s.withHost host) where
  rows scope path hlive := by
    rcases hrows scope path hlive with hold | hnew
    · exact h.rows scope path hold
    · exact hnew
  rejected := h.rejected
  present loc id hid := ⟨hfiles loc (h.present loc id hid).1, (h.present loc id hid).2⟩
  owned := h.owned
  known := h.known
  queue := h.queue

/-- A write to the files. -/
theorem write (h : Sealed cfg busy s) (loc : List String) (bytes : Bytes) :
    Sealed cfg busy (s.withHost (s.host.write loc bytes)) := by
  refine h.withHost ?_ (hostGains_of_db_eq rfl)
  intro loc' hloc' hnone
  exact hloc' (lookup_write_eq_none hnone)

theorem fill (h : Sealed cfg busy s) (id : ℕ) (loc : List String) (bytes : Bytes) :
    Sealed cfg busy (s.fill id loc bytes) := by
  unfold Serving.fill
  split_ifs
  · exact h.write loc bytes
  · exact h

@[simp] theorem spools_fill (s : Serving) (id : ℕ) (loc : List String) (bytes : Bytes) :
    (s.fill id loc bytes).spools = s.spools := by
  unfold Serving.fill
  split_ifs
  · rfl
  · rfl

/-- A spool under a new name, which no row has. -/
theorem createSpool (h : Sealed cfg (some id) s) (hnew : s.spools.lookup loc = none)
    (hfresh : Fresh cfg s loc) : Sealed cfg (some id) (s.createSpool id loc) := by
  have hother : ∀ loc' i, s.spools.lookup loc' = some i →
      (s.createSpool id loc).spools.lookup loc' = some i := by
    intro loc' i hi
    show (s.spools.insert loc id).lookup loc' = some i
    rw [AList.lookup_insert_ne]
    · exact hi
    · rintro rfl
      rw [hnew] at hi
      cases hi
  refine ⟨?_, ?_, ?_, ?_, h.known, h.queue⟩
  · rintro scope path hlive (hin | hin)
    · exact h.rows scope path hlive (Or.inl hin)
    · change ((s.spools.insert loc id).lookup _).isSome at hin
      rw [AList.lookup_insert_ne (hfresh scope path hlive)] at hin
      exact h.rows scope path hlive (Or.inr hin)
  · intro loc' hloc'
    refine (h.rejected loc' hloc').imp_right ?_
    rintro ⟨i, hi, hrest⟩
    exact ⟨i, hother loc' i hi, hrest⟩
  · intro loc' i hi
    change (s.spools.insert loc id).lookup loc' = some i at hi
    rw [Table.lookup_insert_eq_ite] at hi
    split_ifs at hi with heq
    · subst heq
      cases hi
      refine ⟨?_, h.known id rfl⟩
      show (s.host.files.insert loc' []).lookup loc' ≠ none
      rw [AList.lookup_insert]
      exact Option.some_ne_none _
    · exact ⟨fun hnone => (h.present loc' i hi).1 (lookup_write_eq_none hnone), (h.present loc' i hi).2⟩
  · intro i v hv hne
    obtain ⟨hlt, hspool⟩ := h.owned i v hv hne
    exact ⟨hlt, fun loc' bytes hloc' => hother loc' i (hspool loc' bytes hloc')⟩

/-- The upload that takes a step removes its spool. -/
theorem removeFile (h : Sealed cfg (some id) s) (hown : s.spools.lookup loc = some id) :
    Sealed cfg (some id) (s.removeFile loc) := by
  have hother : ∀ loc' i, some id ≠ some i → s.spools.lookup loc' = some i →
      (s.removeFile loc).spools.lookup loc' = some i := by
    intro loc' i hne hi
    show (s.spools.erase loc).lookup loc' = some i
    rw [AList.lookup_erase_ne]
    · exact hi
    · rintro rfl
      exact hne (hown.symm.trans hi)
  refine ⟨?_, ?_, ?_, ?_, h.known, h.queue⟩
  · rintro scope path hlive (hin | hin)
    · exact h.rows scope path hlive (Or.inl hin)
    · obtain ⟨i, hi⟩ := Option.isSome_iff_exists.mp hin
      obtain ⟨-, hi⟩ := Table.of_lookup_erase hi
      exact h.rows scope path hlive (Or.inr (by rw [hi]; rfl))
  · intro loc' hloc'
    refine (h.rejected loc' hloc').imp_right ?_
    rintro ⟨i, hi, hne, hrest⟩
    exact ⟨i, hother loc' i hne hi, hne, hrest⟩
  · intro loc' i hi
    obtain ⟨hne, hi⟩ := Table.of_lookup_erase hi
    refine ⟨?_, (h.present loc' i hi).2⟩
    show (s.host.files.erase loc).lookup loc' ≠ none
    rw [AList.lookup_erase_ne hne]
    exact (h.present loc' i hi).1
  · intro i v hv hne
    obtain ⟨hlt, hspool⟩ := h.owned i v hv hne
    exact ⟨hlt, fun loc' bytes hloc' => hother loc' i hne (hspool loc' bytes hloc')⟩

/-- The upload that takes a step renames its spool to a name that is no spool's. -/
theorem renameFile (h : Sealed cfg (some id) s) (hown : s.spools.lookup loc = some id)
    (htarget : target ≠ loc → s.spools.lookup target = none) (bytes : Bytes) :
    Sealed cfg (some id) (s.renameFile loc target bytes) := by
  have herase : (s.removeFile loc).spools.erase target = (s.removeFile loc).spools := by
    show (s.spools.erase loc).erase target = s.spools.erase loc
    apply Table.erase_eq_self
    by_cases heq : target = loc
    · rw [heq, AList.lookup_erase]
    · rw [AList.lookup_erase_ne heq]
      exact htarget heq
  have hsame : s.renameFile loc target bytes =
      (s.removeFile loc).withHost ((s.removeFile loc).host.write target bytes) := by
    unfold Serving.renameFile
    rw [herase]
    rfl
  rw [hsame]
  exact (h.removeFile hown).write target bytes

/-- An upload is given up. -/
theorem abandon (h : Sealed cfg (some id) s)
    (hspool : ∀ loc bytes, u.spool = some (loc, bytes) → s.spools.lookup loc = some id) :
    Sealed cfg none (s.abandon id u) := by
  unfold Serving.abandon
  split
  · rename_i loc bytes hu
    split_ifs
    · exact (h.removeFile (hspool loc bytes hu)).close
    · exact h.close
  · exact h.close

/-- What a rejected publisher leaves stays where it is when the upload is over. -/
theorem leave (h : Sealed cfg (some id) s) {locs : List (List String)}
    (hlocs : ∀ loc ∈ locs, quarantineDir cfg <+: loc ∨ s.spools.lookup loc = some id) :
    Sealed cfg none (Serving.close { s with rejected := locs ++ s.rejected } id) := by
  refine ⟨h.close.rows, ?_, h.close.present, h.close.owned, h.close.known, h.close.queue⟩
  intro loc hloc
  rcases List.mem_append.mp hloc with hnew | hold
  · refine (hlocs loc hnew).imp_right fun hown => ⟨id, hown, by simp, ?_, h.known id rfl⟩
    exact AList.lookup_erase id s.uploads
  · exact h.close.rejected loc hold

theorem quarantine (h : Sealed cfg (some id) s) {a : Announced}
    (hin : u.request.quarantineOk = true → quarantineDir cfg <+: quarantineLoc cfg u.request a.path) :
    Sealed cfg none ((s.quarantine cfg id u a).close id) := by
  have hown : ∀ loc ∈ s.ownSpool id u,
      quarantineDir cfg <+: loc ∨ s.spools.lookup loc = some id := by
    intro loc hloc
    right
    simpa using (List.mem_filter.mp hloc).2
  unfold Serving.quarantine
  dsimp only
  split
  · rename_i bytes hcopied hok
    refine (h.write (quarantineLoc cfg u.request a.path) bytes).leave
      (List.forall_mem_cons.mpr ⟨?_, hown⟩)
    exact Or.inl (hin hok)
  · exact h.leave hown

theorem appendChunk (h : Sealed cfg (some id) s) (hown : s.spools.lookup loc = some id)
    (u : OpenUpload) (bytes data : Bytes) (pending : List DeltaChunk) :
    Sealed cfg none (s.appendChunk id u loc bytes data pending) := by
  unfold Serving.appendChunk
  split_ifs
  · apply (h.fill id loc (bytes ++ data)).keep
    rintro loc' bytes' heq
    cases heq
    rw [spools_fill]
    exact hown
  · apply h.abandon
    rintro loc' bytes' heq
    cases heq
    exact hown

theorem takeChunk (h : Sealed cfg (some id) s)
    (hspool : ∀ loc bytes, u.spool = some (loc, bytes) → s.spools.lookup loc = some id) {random : ℕ}
    (hfresh : u.spool = none → Fresh cfg s (spoolLoc cfg u.request.share random)) (chunk : DeltaChunk)
    (pending : List DeltaChunk) :
    Sealed cfg none (s.takeChunk blake3 cfg id u random chunk pending) := by
  unfold Serving.takeChunk
  split_ifs
  · exact h.abandon hspool
  · split
    · rename_i loc bytes hu
      exact h.appendChunk (hspool loc bytes hu) u bytes chunk.data pending
    · rename_i hu
      dsimp only
      split_ifs with hexists
      · exact h.close
      · rw [Bool.or_eq_true, not_or, Bool.not_eq_true (Option.isSome _),
          Option.isSome_eq_false_iff, Option.isNone_iff_eq_none] at hexists
        have hnew : s.spools.lookup (spoolLoc cfg u.request.share random) = none := by
          rw [Option.eq_none_iff_forall_not_mem]
          intro i hi
          exact (h.present _ i hi).1 hexists.2
        apply (h.createSpool hnew (hfresh hu)).appendChunk
        exact AList.lookup_insert _

theorem takeMessage (h : Sealed cfg (some id) s)
    (hspool : ∀ loc bytes, u.spool = some (loc, bytes) → s.spools.lookup loc = some id)
    (msg : StreamMessage) (rest : List (Except String StreamMessage)) :
    Sealed cfg none (s.takeMessage cfg id u msg rest) := by
  unfold Serving.takeMessage
  split
  · exact h.abandon hspool
  · exact h.keep hspool

/-- The end of a stream keeps the invariant. -/
theorem finalize (h : Sealed cfg (some id) s)
    (hspool : ∀ loc bytes, u.spool = some (loc, bytes) → s.spools.lookup loc = some id) :
    Sealed cfg none (s.finalize id u) := by
  unfold Serving.finalize
  split_ifs
  · exact h.keep hspool
  · exact h.abandon hspool

/-- So does the check of the publisher, -/
theorem check (h : Sealed cfg (some id) s)
    (hspool : ∀ loc bytes, u.spool = some (loc, bytes) → s.spools.lookup loc = some id)
    (hin : ∀ a, u.Rejected blake3 a → u.request.quarantineOk = true →
      quarantineDir cfg <+: quarantineLoc cfg u.request a.path) :
    Sealed cfg none (s.check blake3 cfg id u) := by
  unfold Serving.check
  dsimp only
  split_ifs with hlength hhash
  · exact h.close
  · exact h.abandon hspool
  · split
    · exact h.close
    · rename_i a ha
      split
      · rename_i e hpublisher
        apply h.quarantine
        apply hin a
        refine ⟨ha, ?_, e, hpublisher⟩
        rw [ha] at hhash
        by_contra hno
        rw [not_or] at hno
        exact hhash (by simp [hno.1, hno.2])
      · exact h.close
      · exact h.keep hspool

theorem moveInto (h : Sealed cfg (some id) s) (hown : s.spools.lookup loc = some id)
    (htarget : target ≠ loc → s.spools.lookup target = none) :
    Sealed cfg none (s.moveInto id u loc target) := by
  unfold Serving.moveInto
  split
  · apply (h.renameFile hown htarget _).keep
    rintro loc' bytes' heq
    cases heq
  · exact h.close

/-- the move to the target, -/
theorem place (h : Sealed cfg (some id) s)
    (hspool : ∀ loc bytes, u.spool = some (loc, bytes) → s.spools.lookup loc = some id) {random : ℕ}
    (htarget : ∀ a loc, u.announced = some a →
      pathGuard (cfg.rootFor u.request.share) a.path = .ok loc → ¬ Internal cfg s loc)
    (hstage : u.spool = none → Fresh cfg s (spoolLoc cfg u.request.share random) ∧
      s.spools.lookup (spoolLoc cfg u.request.share random) = none) :
    Sealed cfg none (s.place cfg id u random) := by
  unfold Serving.place
  split
  · exact h.close
  rename_i a ha
  split
  · exact h.close
  rename_i target hguard
  have hfree : s.spools.lookup target = none := by
    rw [← Option.not_isSome_iff_eq_none]
    exact fun hin => htarget a target ha hguard (Or.inr hin)
  have harchive : Sealed cfg (some id) (s.withHost
      (archive cfg s.host u.request.scope (dbKey a.path) target u.request.archiveOk)) :=
    h.withHost (fun loc hloc hnone => hloc (lookup_archive_eq_none hnone))
      (hostGains_of_db_eq (archive_db _ _ _ _ _))
  dsimp only
  rcases hu : u.spool with _ | ⟨loc, bytes⟩
  · obtain ⟨hfresh, hnew⟩ := hstage hu
    have hcreate := harchive.createSpool hnew (by
      intro scope path hlive
      apply hfresh scope path
      change LiveRow ((archive cfg s.host u.request.scope (dbKey a.path) target
        u.request.archiveOk).db scope) path at hlive
      rwa [archive_db] at hlive)
    dsimp only
    split_ifs
    · exact harchive.close
    · exact harchive.close
    · exact hcreate.close
    · refine hcreate.moveInto (AList.lookup_insert _) fun hne => ?_
      show (s.spools.insert _ id).lookup target = none
      rw [AList.lookup_insert_ne hne]
      exact hfree
  · dsimp only
    split_ifs
    · exact harchive.close
    · exact harchive.moveInto (hspool loc bytes hu) fun _ => hfree

/-- and the row. -/
theorem record (h : Sealed cfg (some id) s) {target : List String} (bytes : Bytes)
    (htarget : ¬ Internal cfg s
      (rowPlace cfg u.request.share (target.drop (cfg.rootFor u.request.share).length))) :
    Sealed cfg none (s.record blake3 cfg id u target bytes) := by
  unfold Serving.record
  split_ifs
  · refine Sealed.close (h.withHost ?_ (hostGains_recordRow bytes ?_))
    · intro loc hloc
      rwa [recordRow_files]
    · rw [placeOf_pathAsStr]
      exact htarget
  · exact h.close

/-- **A step of an upload** keeps the invariant. -/
theorem advance (h : Sealed cfg none s) {random : ℕ}
    (hcond : ∀ u, s.uploads.lookup id = some u → UploadDiscreet blake3 cfg s u random) :
    Sealed cfg none (s.advance blake3 cfg id random) := by
  unfold Serving.advance
  split
  · exact h
  rename_i u hu
  obtain ⟨hbusy, hspool⟩ := h.occupy hu
  have hdiscreet := hcond u hu
  unfold UploadDiscreet at hdiscreet
  split
  · rename_i chunk pending hstage
    rw [hstage] at hdiscreet
    exact hbusy.takeChunk hspool hdiscreet chunk pending
  · split
    · exact hbusy.finalize hspool
    · exact hbusy.abandon hspool
    · exact hbusy.takeMessage hspool _ _
  · rename_i hstage
    rw [hstage] at hdiscreet
    exact hbusy.check hspool hdiscreet
  · rename_i hstage
    rw [hstage] at hdiscreet
    exact hbusy.place hspool hdiscreet.1 hdiscreet.2
  · rename_i target bytes hstage
    rw [hstage] at hdiscreet
    exact hbusy.record bytes hdiscreet

theorem cancel (h : Sealed cfg none s) : Sealed cfg none (s.cancel id) := by
  unfold Serving.cancel
  split
  · exact h
  rename_i u hu
  obtain ⟨hbusy, hspool⟩ := h.occupy hu
  split
  · exact hbusy.abandon hspool
  · exact hbusy.close

/-! ### Requests and the index -/

theorem start (h : Sealed cfg none s) (r : UploadRequest) :
    Sealed cfg none (serveStep blake3 cfg s (.start r)) := by
  unfold serveStep
  dsimp only
  split
  · exact h
  refine ⟨h.rows, ?_, ?_, ?_, nofun, h.queue⟩
  · intro loc hloc
    refine (h.rejected loc hloc).imp_right ?_
    rintro ⟨i, hi, hne, hover, hlt⟩
    refine ⟨i, hi, hne, ?_, Nat.lt_succ_of_lt hlt⟩
    rw [AList.lookup_insert_ne (Nat.ne_of_lt hlt)]
    exact hover
  · intro loc i hi
    exact ⟨(h.present loc i hi).1, Nat.lt_succ_of_lt (h.present loc i hi).2⟩
  · intro i v hv hne
    rw [Table.lookup_insert_eq_ite] at hv
    split_ifs at hv with heq
    · cases hv
      refine ⟨heq ▸ Nat.lt_succ_self _, ?_⟩
      rintro loc bytes hloc
      cases hloc
    · obtain ⟨hlt, hspool⟩ := h.owned i v hv hne
      exact ⟨Nat.lt_succ_of_lt hlt, hspool⟩

/-- A request keeps it, -/
theorem request (h : Sealed cfg none s) (req : { req : Request // req.isUpload = false })
    (hcond : RequestDiscreet cfg s req.1) :
    Sealed cfg none (serveStep blake3 cfg s (.request req)) := by
  apply h.withHost
  · intro loc hloc
    have hchanges : Table.ChangesBy (RequestWrites blake3 cfg s.host req.1) s.host.files
      (serve blake3 cfg s.host req.1).files := changesBy_serve s.host req.1
    rcases hchanges loc with hsame | ⟨bytes, -, hnew⟩
    · rwa [hsame]
    · rw [hnew]
      exact Option.some_ne_none _
  · refine (hostGains_serve req.2 s.host).mono ?_
    have hrestore : ∀ (r : RestoreRequest) path, RestoreDiscreet cfg s r.vault path →
        ∀ scope key, RestoreGains cfg r path scope key →
          ¬ Internal cfg s (placeOf cfg scope.2 (pathString key)) := by
      rintro r path hdiscreet scope key ⟨rfl, target, hguard, rfl⟩
      rw [placeOf_pathAsStr]
      exact (hdiscreet.2 target hguard).2
    intro scope key hgains
    obtain ⟨req, hreq⟩ := req
    cases req with
    | restoreVersion r path versionId =>
        obtain ⟨rel, hrel, hgains⟩ := hgains
        exact hrestore r rel (hcond rel hrel) scope key hgains
    | restoreTrash r path =>
        obtain ⟨rel, hrel, hgains⟩ := hgains
        exact hrestore r rel (hcond rel hrel) scope key hgains
    | restoreSnapshot r id =>
        obtain ⟨files, hsnap, entry, hentry, hlive, hgains⟩ := hgains
        exact hrestore r _ (hcond files hsnap entry hentry hlive) scope key hgains
    | upload r => cases hgains
    | download r => cases hgains
    | exchange r => cases hgains
    | createSnapshot scope' admitted kept => cases hgains

/-- a report of the watcher, -/
theorem notify (h : Sealed cfg none s) (vault : String) (ev : NotifyEvent) :
    Sealed cfg none (serveStep blake3 cfg s (.notify vault ev)) := by
  unfold serveStep
  dsimp only
  split
  · exact h
  rename_i root hroot
  refine ⟨h.rows, h.rejected, h.present, h.owned, h.known, ?_⟩
  intro x hx root' hroot'
  rcases List.mem_append.mp hx with hold | hnew
  · exact h.queue x hold root' hroot'
  obtain ⟨e, he, rfl⟩ := List.mem_map.mp hnew
  cases hroot.symm.trans hroot'
  unfold translateNotifyEvent at he
  split at he
  · cases he
  · obtain ⟨y, hy, rfl⟩ := List.mem_map.mp he
    have hkept := (List.mem_filter.mp hy).2
    rw [Bool.and_eq_true, Bool.not_eq_true'] at hkept
    exact hkept.2

/-- an event of the index, -/
theorem index (h : Sealed cfg none s) (stat : Path → FileStat) (now : ℤ)
    (hcond : Discreet blake3 cfg s (.index stat now)) :
    Sealed cfg none (serveStep blake3 cfg s (.index stat now)) := by
  unfold serveStep
  dsimp only
  rcases hqueue : s.queue with _ | ⟨⟨vault, ev⟩, queue⟩
  · exact h
  have htail : Sealed cfg none { s with queue := queue } :=
    ⟨h.rows, h.rejected, h.present, h.owned, h.known, fun x hx => h.queue x (by
      rw [hqueue]
      exact List.mem_cons_of_mem _ hx)⟩
  dsimp only
  split
  · exact htail
  rename_i root hroot
  have hint := h.queue (vault, ev) (by rw [hqueue]; exact List.mem_cons_self) root hroot
  refine htail.withHost (fun loc hloc => hloc) ((HostGains.refl _ s.host).setDb ?_)
  apply gains_indexEvent (Listing.proper_ofFiles _)
  intro bytes hfile
  rw [placeOf_pathAsStr]
  refine (hcond vault ev queue root hqueue hroot).not_internal ?_ hint
  rw [lookup_of_file_treeOf hfile]
  exact Option.some_ne_none _

/-- and a reconciliation. -/
theorem reconcile (h : Sealed cfg none s) (env : IndexEnv) (vaults : List String)
    (hcond : Discreet blake3 cfg s (.reconcile env vaults)) :
    Sealed cfg none (serveStep blake3 cfg s (.reconcile env vaults)) := by
  refine h.withHost (fun loc hloc => hloc) ?_
  intro scope
  show Gains _ (s.host.db scope) (if scope.1 = none then _ else s.host.db scope)
  split_ifs with htenant
  · obtain ⟨tenant, vault⟩ := scope
    cases htenant
    refine gains_fullReconcile (fun _ => True)
      (N := fun vault path => ¬ Internal cfg s (placeOf cfg vault (pathString path))) ?_ ?_ s.host.vaults
      vault
    · intro share hshare
      obtain ⟨v, -, hv⟩ := List.mem_filterMap.mp hshare
      obtain ⟨root, -, rfl⟩ := Option.map_eq_some_iff.mp hv
      exact Listing.proper_ofFiles _
    · intro v tree hshare rel bytes hfile hint hok
      obtain ⟨v', hv', hshare⟩ := List.mem_filterMap.mp hshare
      obtain ⟨root, hroot, heq⟩ := Option.map_eq_some_iff.mp hshare
      cases heq
      rw [placeOf_pathAsStr]
      refine (hcond v hv' root hroot rel hok).not_internal ?_ hint
      rw [lookup_of_file_treeOf hfile]
      exact Option.some_ne_none _
  · exact .refl _ _

/-- **Every step keeps the invariant** on its condition. -/
theorem step (h : Sealed cfg none s) {e : ServerEvent} (hcond : Discreet blake3 cfg s e) :
    Sealed cfg none (serveStep blake3 cfg s e) := by
  cases e with
  | request req => exact h.request req hcond
  | start r => exact h.start r
  | advance id random => exact h.advance hcond
  | cancel id => exact h.cancel
  | notify vault ev => exact h.notify vault ev
  | index stat now => exact h.index stat now hcond
  | reconcile env vaults => exact h.reconcile env vaults hcond

/-- **What a step takes by a path** is neither in the store nor in the quarantine. -/
theorem not_protected {e : ServerEvent} (hcond : Discreet blake3 cfg s e)
    (hloc : Touches blake3 cfg s e loc) : ¬ Protected cfg loc := by
  cases e with
  | request req =>
      obtain ⟨req, hreq⟩ := req
      cases req with
      | download r => exact (hcond loc hloc.2).1
      | restoreVersion r path versionId =>
          obtain ⟨rev, hplan, hguard⟩ := hloc
          obtain ⟨-, hpath, -⟩ := of_planVersion cfg hplan
          exact fun hin => ((hcond rev.path hpath).2 loc hguard).1 (Or.inl hin)
      | restoreTrash r path =>
          rcases hloc with ⟨rel, -, hrel, -, rfl⟩ | ⟨rev, hplan, hguard⟩
          · rw [pathString_dbKey]
            exact (hcond rel hrel).1
          · obtain ⟨-, hpath, -⟩ := of_planTrash blake3 cfg hplan
            exact fun hin => ((hcond rev.path hpath).2 loc hguard).1 (Or.inl hin)
      | restoreSnapshot r id =>
          obtain ⟨files, hsnap, entry, hentry, hlive, rfl⟩ := hloc
          exact (hcond files hsnap entry hentry hlive).1
      | upload r => cases hloc
      | exchange r => cases hloc
      | createSnapshot scope admitted kept => cases hloc
  | advance id random =>
      obtain ⟨u, hu, htouch⟩ := hloc
      have hdiscreet := hcond u hu
      unfold UploadTouches at htouch
      unfold UploadDiscreet at hdiscreet
      cases hstage : u.stage with
      | received =>
          rw [hstage] at htouch hdiscreet
          obtain ⟨a, hrejected, hok, rfl, hout⟩ := htouch
          exact absurd (hdiscreet a hrejected hok) hout
      | cleared =>
          rw [hstage] at htouch hdiscreet
          obtain ⟨a, ha, hguard⟩ := htouch
          exact fun hin => hdiscreet.1 a loc ha hguard (Or.inl hin)
      | receiving pending =>
          rw [hstage] at htouch
          cases htouch
      | placed target bytes =>
          rw [hstage] at htouch
          cases htouch
  | start r => cases hloc
  | cancel id => cases hloc
  | notify vault ev => cases hloc
  | index stat now => cases hloc
  | reconcile env vaults => cases hloc

/-- A step on its condition obeys the law. -/
theorem hides (h : Sealed cfg none s) {e : ServerEvent} (hcond : Discreet blake3 cfg s e) :
    Hides blake3 cfg s e where
  rows := (h.step hcond).hidden
  listed r response he hresponse m hm := by
    have hresponse' : response = exchangeResponse r.share (s.host.db (r.tenant, r.share)) r.call := by
      unfold exchange at hresponse
      split at hresponse
      · cases hresponse
      · rw [exchangeState_eq] at hresponse
        exact (Except.ok.inj hresponse).symm
    subst hresponse'
    have hlive := liveRow_of_mem_toDownload hm
    exact ⟨h.rows (r.tenant, r.share) m.path hlive, h.hidden.rejected (r.tenant, r.share) m.path hlive⟩
  touched loc hloc := not_protected hcond hloc
  served r bytes loc he _ hguard := by
    subst he
    exact (hcond loc hguard).2

end Sealed

/-- **The internal files of the server stay internal**: in every run whose steps meet the condition, every
step obeys the law. -/
theorem hides_of_discreet (blake3 : Bytes → Digest) (cfg : HostConfig) (es : List ServerEvent)
    (h : Trace.Always (serveStep blake3 cfg) (fun _ s e => Discreet blake3 cfg s e) .empty es) :
    Trace.Always (serveStep blake3 cfg) (fun _ s e => Hides blake3 cfg s e) .empty es := by
  refine (Trace.Always.of_invariant (I := fun _ s => Sealed cfg none s)
    (φ := fun _ s e => Hides blake3 cfg s e) Sealed.empty ?_ ?_ h).1
  · intro es e hsealed hcond
    exact hsealed.hides hcond
  · intro es e hsealed hcond
    exact hsealed.step hcond

end

/-! ## A rejected publisher -/

/-- A publisher's upload that is rejected, up to its end. -/
def sampleRejected : List ServerEvent :=
  [.start { sampleUpload none "notes" "a.md" [97] with publisher := .error "unknown publisher key" },
    .advance 0 7, .advance 0 7, .advance 0 7, .advance 0 7]

/-- A download of a file of the share. -/
def sampleRead (path : String) : DownloadRequest where
  tenant := none
  share := "notes"
  admitted := .ok ()
  includes := []
  path := path

/-- An upload that is accepted, the report of its file, and a reconciliation that gets no other row
written. -/
def sampleOrdinary : List ServerEvent :=
  [.start (sampleUpload none "notes" "b.md" [98]), .advance 1 8, .advance 1 8, .advance 1 8,
    .advance 1 8, .advance 1 8, .advance 1 8, .notify "notes" ⟨.create, [["srv", "notes", "b.md"]]⟩,
    .index (fun _ => ⟨none, 1⟩) 100,
    .reconcile { walk _ _ := none, list _ := none, sweepList _ := none, sweepOk _ := true,
                 stat _ _ := ⟨none, 1⟩, upsertOk _ rel := rel = ["b.md"], lookOk _ _ := true,
                 tombstoneOk _ _ := true, now := 200 } ["notes"]]

/-- The theorem at work: the rejected upload, an ordinary file that is uploaded and indexed, and a
download of it. -/
theorem hides_sampleRejected :
    Trace.Always (serveStep sampleBlake3 smallConfig) (fun _ s e => Hides sampleBlake3 smallConfig s e)
      .empty (sampleRejected ++ sampleOrdinary ++ [.request ⟨.download (sampleRead "b.md"), rfl⟩]) := by
  have hplace : pathGuard (smallConfig.rootFor "notes") "b.md" = .ok ["srv", "notes", "b.md"] := by
    decide +kernel
  apply hides_of_discreet
  apply Trace.always_of_forall_mem
  intro x hx
  simp only [sampleRejected, sampleOrdinary, List.cons_append, List.nil_append, Trace.history,
    List.mem_cons, List.not_mem_nil, or_false] at hx
  rcases hx with rfl | rfl | rfl | rfl | rfl | rfl | rfl | rfl | rfl | rfl | rfl | rfl | rfl | rfl |
    rfl | rfl
  · exact trivial
  · rintro u hu
    cases hu
    exact trivial
  · rintro u hu
    cases hu
    rintro - scope path ⟨row, hrow, -⟩
    cases hrow
  · rintro u hu
    cases hu
    exact trivial
  · rintro u hu
    cases hu
    rintro a ⟨ha, -⟩ -
    cases ha
    exact quarantineLoc_of_relative (by decide +kernel) (by decide +kernel)
      ⟨by decide, by decide, by decide⟩ (by decide +kernel) (by decide +kernel)
  · exact trivial
  · rintro u hu
    cases hu
    exact trivial
  · rintro u hu
    cases hu
    rintro - scope path ⟨row, hrow, -⟩
    cases hrow
  · rintro u hu
    cases hu
    exact trivial
  · rintro u hu
    cases hu
    rintro a ⟨-, -, e, he⟩ -
    cases he
  · rintro u hu
    cases hu
    refine ⟨fun a loc ha hguard => ?_, fun hspool => (by cases hspool)⟩
    cases ha
    cases hplace.symm.trans hguard
    decide +kernel
  · rintro u hu
    cases hu
    change ¬ Internal smallConfig _ _
    decide +kernel
  · exact trivial
  · rintro vault ev queue root hqueue hroot
    cases hqueue
    cases hroot
    exact fun _ _ => by decide +kernel
  · rintro vault hvault root hroot rel hrel
    rw [List.mem_singleton.mp hvault] at hroot ⊢
    cases hroot
    rw [of_decide_eq_true hrel]
    exact fun _ _ => by decide +kernel
  · intro loc hguard
    cases hplace.symm.trans hguard
    exact ⟨by decide +kernel, by decide +kernel⟩

/-- The watcher reports the spool that a rejected upload has left, and the index makes it a live row of
the share: a client is offered the bytes, and gets them. -/
theorem not_hides_of_rejected_spool :
    ¬ Trace.Always (serveStep sampleBlake3 smallConfig)
        (fun _ s e => Hides sampleBlake3 smallConfig s e) .empty
        (sampleRejected ++ [.notify "notes" ⟨.create, [["srv", "notes", ".tmp-7"]]⟩,
          .index (fun _ => ⟨none, 1⟩) 100]) ∧
      deltaDownload smallConfig (Trace.run (serveStep sampleBlake3 smallConfig) .empty
        (sampleRejected ++ [.notify "notes" ⟨.create, [["srv", "notes", ".tmp-7"]]⟩,
          .index (fun _ => ⟨none, 1⟩) 100])).host (sampleRead ".tmp-7") = .ok [97] := by
  refine ⟨fun h => ?_, by decide +kernel⟩
  have hrows := (h (sampleRejected ++ [.notify "notes" ⟨.create, [["srv", "notes", ".tmp-7"]]⟩])
    (.index (fun _ => ⟨none, 1⟩) 100) [] rfl).rows
  refine hrows.rejected (none, "notes") [".tmp-7"] ?_ (by decide +kernel)
  exact ⟨_, rfl, rfl⟩

end DiskArcana.Hosting
