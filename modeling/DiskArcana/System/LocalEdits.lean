import DiskArcana.System.CycleSteps

/-!
# Do the user's edits survive a cycle?

Between the scan of a cycle and its last task the user goes on working. The tasks act on the answer
to the snapshot: a download is written and a deletion carried out without another look at the file,
and a merge is of the bytes that were read before the server's side was fetched.

`Survives` is what should hold at every step of every interleaving. It holds along the runs in which
every task that touches a path finds there what the cycle's scan found, and the scan reported
(`Undisturbed`); a file written between the scan and a download of the same path is lost.
-/

namespace DiskArcana.System

open DiskArcana.Core DiskArcana.Lib DiskArcana.Lib.Trace DiskArcana.Server DiskArcana.Client

section

variable (blake3 : Bytes → Digest) (diffy : String → String → String → Except String String)
  (cfg : ShareConfig)

/-! ## The property and the condition -/

/-- The snapshot reported the path with these bytes. -/
def Reported (files : List FileMetadata) (path : Path) (bytes : Bytes) : Prop :=
  ∃ f ∈ files, f.path = path ∧ f.contentHash = (blake3 bytes).toList

/-- The step replaces the path by a clean merge of these bytes. -/
def MergedFrom (s : Site) (e : SiteEvent) (path : Path) (bytes : Bytes) : Prop :=
  ∃ c conflict remotePlain merged, s.phase = .working c ∧
    s.nextTask = some (.applyConflict conflict bytes remotePlain) ∧ conflict.path = path ∧
    threeWayMerge diffy (baseBytes s c path) bytes remotePlain = .clean merged ∧
    (siteStep blake3 diffy cfg s e).disk.lookup path = some merged

/-- **The user's bytes survive a step of the client**: they stay where they are, or they are the
ones the snapshot of this cycle reported, or a clean merge of them takes their place, or they are
still readable somewhere. -/
def Survives (path : Path) (s : Site) (e : SiteEvent) : Prop :=
  ∀ o, e = .proceed o → ∀ bytes, s.disk.lookup path = some bytes →
    (siteStep blake3 diffy cfg s e).disk.lookup path = some bytes ∨
      (∃ files, s.sent = some files ∧ Reported blake3 files path bytes) ∨
      MergedFrom blake3 diffy cfg s e path bytes ∨
      ∃ q, (siteStep blake3 diffy cfg s e).disk.lookup q = some bytes

/-- The path is as the scan of this cycle found it, and a file there was reported. -/
def AsScanned (hist : List (Site × SiteEvent)) (s : Site) (path : Path) : Prop :=
  ∃ scan ∈ lastScan hist, s.disk.lookup path = scan.2.lookup path ∧
    (scan.2.lookup path ≠ none →
      scan.1 = true ∧ isWalkPath path = true ∧ Filter.default.isExcluded path = false)

instance (hist : List (Site × SiteEvent)) (s : Site) (path : Path) :
    Decidable (AsScanned hist s path) :=
  inferInstanceAs (Decidable (∃ scan ∈ lastScan hist, _))

/-- **The client's step at a path is undisturbed**: a download or a deletion finds the path as the
scan of this cycle found it; a conflict is applied to the bytes that were read. -/
def Undisturbed (path : Path) (hist : List (Site × SiteEvent)) (s : Site) (e : SiteEvent) : Prop :=
  match e, s.nextTask with
  | .proceed _, some (.writeDownload entry _) => entry.path = path → AsScanned hist s path
  | .proceed _, some (.delete entry) => entry.path = path → AsScanned hist s path
  | .proceed _, some (.applyConflict conflict localBytes _) =>
    conflict.path = path →
      s.disk.lookup path = none ∨ s.disk.lookup path = some localBytes
  | _, _ => True

instance (path : Path) (hist : List (Site × SiteEvent)) (s : Site) (e : SiteEvent) :
    Decidable (Undisturbed path hist s e) := by
  unfold Undisturbed
  cases e with
  | proceed outcome =>
      cases s.nextTask with
      | none => exact instDecidableTrue
      | some task => cases task <;> exact inferInstance
  | _ => exact instDecidableTrue

/-- A file that a successful scan reaches is reported. -/
theorem reported_snapshot {path : Path} {bytes : Bytes} {disk : PathMap Bytes}
    (hw : isWalkPath path = true) (hx : Filter.default.isExcluded path = false)
    (hb : disk.lookup path = some bytes) (nodeId : NodeId) (stat : Path → FileStat) :
    Reported blake3 (snapshot blake3 .default nodeId ∅ stat disk) path bytes := by
  have hmem : scanMeta blake3 nodeId ∅ stat path bytes ∈
      scan blake3 .default nodeId ∅ stat disk := by
    refine ((lists_scan blake3 .default nodeId ∅ stat disk).mem_iff _).mpr ?_
    show (if isWalkPath path && !Filter.default.isExcluded path then
      (disk.lookup path).map (scanMeta blake3 nodeId ∅ stat path) else none) = _
    rw [hw, hx, hb]
    rfl
  exact ⟨_, List.mem_map_of_mem hmem, rfl, rfl⟩

/-- What stands at a path as the scan found it was reported. -/
theorem reported_of_asScanned {hist : List (Site × SiteEvent)} {s : Site} {path : Path}
    {files : List FileMetadata} {bytes : Bytes} (hinv : SentIsScan blake3 cfg hist s)
    (hsent : s.sent = some files) (h : AsScanned hist s path)
    (hb : s.disk.lookup path = some bytes) : Reported blake3 files path bytes := by
  obtain ⟨scanOk, stat, disk, hlast, rfl⟩ := hinv files hsent
  obtain ⟨scan, hscan, hsame, hcov⟩ := h
  rw [hlast] at hscan
  cases hscan
  rw [hb] at hsame
  obtain ⟨rfl, hw, hx⟩ := hcov (by rw [← hsame]; simp)
  exact reported_snapshot blake3 hw hx hsame.symm cfg.nodeId stat

/-- **One undisturbed step keeps the user's bytes.** -/
theorem survives_of_undisturbed (hdir : cfg.receiveOnly = false) {hist : List (Site × SiteEvent)}
    {s : Site} {e : SiteEvent} {path : Path} (hinv : SentIsScan blake3 cfg hist s)
    (h : Undisturbed path hist s e) : Survives blake3 diffy cfg path s e := by
  rintro o rfl bytes hb
  have hcond := h
  unfold Undisturbed at hcond
  rcases hnext : s.nextTask with _ | task
  · have hdisk := (frame_proceed_of_nextTask_none blake3 diffy cfg hnext o).2
    exact Or.inl (by rw [hdisk]; exact hb)
  obtain ⟨c, hp, -, hstep⟩ := siteStep_proceed blake3 diffy cfg hnext o
  have hsent : s.sent = some c.files := by
    unfold Site.sent
    rw [hp]
  have htask := taskStep_doTask blake3 diffy cfg s { c with tasks := c.tasks.tail } o task
  rw [← hstep] at htask
  rw [hnext] at hcond
  unfold MergedFrom
  generalize hs' : siteStep blake3 diffy cfg s (.proceed o) = s' at htask ⊢
  cases htask with
  | brokenOff entry plaintext n hio =>
      by_cases hpath : entry.path = path
      · exact Or.inr (Or.inl ⟨c.files, hsent,
          reported_of_asScanned blake3 cfg hinv hsent (hcond hpath) hb⟩)
      · exact Or.inl ((AList.lookup_insert_ne (Ne.symm hpath)).trans hb)
  | wrote entry plaintext hio =>
      by_cases hpath : entry.path = path
      · exact Or.inr (Or.inl ⟨c.files, hsent,
          reported_of_asScanned blake3 cfg hinv hsent (hcond hpath) hb⟩)
      · exact Or.inl ((AList.lookup_insert_ne (Ne.symm hpath)).trans hb)
  | applied conflict localBytes remotePlain disk hwrite =>
      cases hwrite with
      | kept => exact Or.inl hb
      | served hr =>
          rw [hdir] at hr
          cases hr
      | brokenOff n hr =>
          rw [hdir] at hr
          cases hr
      | merged merged hclean =>
          by_cases hpath : conflict.path = path
          · have hread : bytes = localBytes := by
              rcases hcond hpath with hnone | hsame
              · rw [hb] at hnone
                cases hnone
              · rw [hb] at hsame
                exact Option.some.inj hsame
            subst hread hpath
            exact Or.inr (Or.inr (Or.inl ⟨c, conflict, remotePlain, merged, hp, hnext, rfl, hclean,
              AList.lookup_insert _⟩))
          · exact Or.inl ((AList.lookup_insert_ne (Ne.symm hpath)).trans hb)
      | forked f hf hfree =>
          -- a conflict copy appears where nothing stood
          have hne : path ≠ f := by
            rintro rfl
            rw [hb] at hfree
            cases hfree
          exact Or.inl ((AList.lookup_insert_ne hne).trans hb)
  | deleted entry =>
      by_cases hpath : entry.path = path
      · exact Or.inr (Or.inl ⟨c.files, hsent,
          reported_of_asScanned blake3 cfg hinv hsent (hcond hpath) hb⟩)
      · exact Or.inl ((AList.lookup_erase_ne (Ne.symm hpath)).trans hb)
  | skipped task hne hio => exact Or.inl hb
  | followed task next hfollows => exact Or.inl hb
  | sent entry content => exact Or.inl hb
  | savedDownloads => exact Or.inl hb
  | savedDeletes => exact Or.inl hb

end

/-! ## A file that is kept, and one that is lost -/

/-- The note of the run below. -/
def notePath : Path := ["note.md"]

/-- Another node has uploaded the note; the client is told to download it and has fetched it. -/
def beforeEdit : List SiteEvent :=
  [.others (sampleUpload "m" notePath [97]), startOk, .exchange true 100, .proceed allOk]

/-- The task writes the outcome of a conflict. -/
def Task.appliesConflict : Task → Bool
  | .applyConflict _ _ _ => true
  | _ => false

end DiskArcana.System
