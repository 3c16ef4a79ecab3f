import DiskArcana.Provider.Model

/-!
# What is kept under the root

The rows of the inventory are a list of entries, each a request with the number of its commit, and the
files belong to the entries (`Sound`): a file under a staging name to an entry with its attempt, a file
under a final name to an entry that its bytes verify, and every committed entry has its file, on disk with
the name and the directory that it is in. Every change that a call makes keeps this, and so does a loss of
power (`Sound.powerLoss`).
-/

namespace DiskArcana.Provider

open DiskArcana.Lib DiskArcana.Accounts
open DiskArcana.Personal (CaptureDescriptor identifier digest field maxCounter)

/-- A reservation, with the number of its commit. -/
structure Entry where
  request : Request
  sequence : Option ℕ
  deriving DecidableEq

variable (deps : Deps) (profile : Profile)

def Entry.row (e : Entry) : AttemptRow :=
  match e.sequence with
  | none => preparedRow e.request
  | some n =>
      { preparedRow e.request with
        state := .durable, localCommitId := some (e.request.commitId deps), sequence := some n }

def Entry.commit (e : Entry) : Option LocalCommit :=
  e.sequence.map fun n => ⟨e.request.commitId deps, n, e.request⟩

def Entry.record (e : Entry) : Record := ⟨e.request, e.commit deps⟩

@[simp] theorem Entry.request_record (e : Entry) : (e.record deps).request = e.request := rfl

@[simp] theorem Entry.committed_record (e : Entry) : (e.record deps).committed = e.commit deps := rfl

/-- The object and the revision of an entry. -/
def Entry.place (e : Entry) : Text × Text := (e.request.objectId, e.request.revisionId)

/-! ## Invariants -/

/-- Entries that a run can lead to. -/
structure Listed (es : List Entry) : Prop where
  valid : ∀ e ∈ es, e.request.valid = true
  round : ∀ e ∈ es, RoundTrips deps e.request
  operations : (es.map fun e => e.request.operationId).Nodup
  attempts : (es.map fun e => e.request.attemptId).Nodup
  places : (es.map Entry.place).Nodup
  /-- The commits are numbered from one on. -/
  sequences : (es.filterMap Entry.sequence).Perm (List.range' 1 (es.filterMap Entry.sequence).length)
  /-- No two commits have one name. -/
  names : (es.filterMap fun e => (e.commit deps).map LocalCommit.localCommitId).Nodup
  few : es.length ≤ maxRecords
  small : (es.map fun e => e.request.expectedLen).sum ≤ maxReservedBytes

/-- A file that may be at a path. -/
def Fits (es : List Entry) (tree : SyncedTree BlobPath Text) (p : BlobPath) (f : SyncedFile BlobPath) :
    Prop :=
  match p with
  | .poison => f.origin = .poison
  | .staging a => f.origin = .staging a ∧ ∃ e ∈ es, e.request.attemptId = a
  | .object o v => tree.hasDir o = true ∧ f.flushed = true ∧
      ∃ e ∈ es, e.place = (o, v) ∧ f.origin = e.request.stagingPath ∧ e.request.verifies deps f.bytes = true

/-- The files belong to the entries. -/
structure Kept (es : List Entry) (tree : SyncedTree BlobPath Text) : Prop where
  fits : ∀ p f, tree.files.lookup p = some f → Fits deps es tree p f
  durable : ∀ e ∈ es, e.sequence.isSome = true →
    ∃ f, tree.files.lookup e.request.objectPath = some f ∧ tree.Linked BlobPath.dirOf e.request.objectPath f

structure Sound (s : State) (es : List Entry) : Prop where
  rows : s.attempts = es.map (Entry.row deps)
  listed : Listed deps es
  kept : Kept deps es s.tree
  bindings : s.captures.map CaptureRow.operationId =
    if profile.capture then es.map fun e => e.request.operationId else []
  realm : ∀ c ∈ s.captures, c.realmId = profile.realm

variable {deps profile} {es : List Entry} {s : State} {tree tree' : SyncedTree BlobPath Text} {e : Entry}
  {p q : BlobPath} {f : SyncedFile BlobPath}

/-- The provider begins sound, without entries. -/
theorem sound_initial : Sound deps profile .initial [] := by
  have hlisted : Listed deps [] := by
    refine ⟨by simp, by simp, by simp, by simp, by simp, by simp, by simp, by simp, by simp⟩
  have hkept : Kept deps [] State.initial.tree := by
    refine ⟨?_, by simp⟩
    intro p f hf
    simp [State.initial, SyncedTree.empty] at hf
  exact ⟨rfl, hlisted, hkept, by simp [State.initial], by simp [State.initial]⟩

/-! ## Entries -/

theorem operationId_row : (e.row deps).operationId = e.request.operationId := by
  unfold Entry.row
  split <;> rfl

theorem attemptId_row : (e.row deps).attemptId = e.request.attemptId := by
  unfold Entry.row
  split <;> rfl

theorem requestJson_row : (e.row deps).requestJson = e.request.toJson := by
  unfold Entry.row
  split <;> rfl

theorem objectId_row : (e.row deps).objectId = e.request.objectId := by
  unfold Entry.row
  split <;> rfl

theorem revisionId_row : (e.row deps).revisionId = e.request.revisionId := by
  unfold Entry.row
  split <;> rfl

theorem expectedLen_row : (e.row deps).expectedLen = e.request.expectedLen := by
  unfold Entry.row
  split <;> rfl

theorem sequence_row : (e.row deps).sequence = e.sequence := by
  unfold Entry.row
  split
  · next h => rw [h]; rfl
  · next h => rw [h]

theorem localCommitId_row :
    (e.row deps).localCommitId = (e.commit deps).map LocalCommit.localCommitId := by
  unfold Entry.row Entry.commit
  split
  · next h => rw [h]; rfl
  · next h => rw [h]; rfl

/-- The names of the commits are those in the rows. -/
theorem filterMap_localCommitId : (es.map (Entry.row deps)).filterMap AttemptRow.localCommitId =
    es.filterMap fun e => (e.commit deps).map LocalCommit.localCommitId := by
  rw [List.filterMap_map]
  exact List.filterMap_congr fun e _ => localCommitId_row

namespace Listed

/-- Two entries that share an operation are one. -/
theorem eq_of_operation {e' : Entry} (h : Listed deps es) (he : e ∈ es) (he' : e' ∈ es)
    (heq : e.request.operationId = e'.request.operationId) : e = e' :=
  List.inj_on_of_nodup_map h.operations he he' heq

/-- An attempt has one entry. -/
theorem eq_of_attempt {e' : Entry} (h : Listed deps es) (he : e ∈ es) (he' : e' ∈ es)
    (heq : e.request.attemptId = e'.request.attemptId) : e = e' :=
  List.inj_on_of_nodup_map h.attempts he he' heq

/-- A place has one entry. -/
theorem eq_of_place {e' : Entry} (h : Listed deps es) (he : e ∈ es) (he' : e' ∈ es)
    (heq : e.place = e'.place) : e = e' :=
  List.inj_on_of_nodup_map h.places he he' heq

/-- Sequences count the commits from 1. -/
theorem sequence_pos (h : Listed deps es) (he : e ∈ es) {n : ℕ} (hn : e.sequence = some n) :
    1 ≤ n ∧ n ≤ (es.filterMap Entry.sequence).length := by
  have hmem : n ∈ es.filterMap Entry.sequence := List.mem_filterMap.mpr ⟨e, he, hn⟩
  have hrange := h.sequences.mem_iff.mp hmem
  rw [List.mem_range'_1] at hrange
  omega

/-- Two entries that share a value that is not repeated are one. -/
theorem eq_of_nodup {β : Type} {g : Entry → Option β} (hnodup : (es.filterMap g).Nodup) {e' : Entry} {b : β}
    (he : e ∈ es) (he' : e' ∈ es) (hb : g e = some b) (hb' : g e' = some b) : e = e' := by
  obtain ⟨as, bs, rfl⟩ := List.append_of_mem he
  rw [List.filterMap_append, List.filterMap_cons_some hb, List.nodup_middle, List.nodup_cons,
    List.mem_append, not_or] at hnodup
  rcases List.mem_append.mp he' with hmem | hmem
  · exact absurd (List.mem_filterMap.mpr ⟨e', hmem, hb'⟩) hnodup.1.1
  · rcases List.mem_cons.mp hmem with rfl | hmem
    · rfl
    · exact absurd (List.mem_filterMap.mpr ⟨e', hmem, hb'⟩) hnodup.1.2

/-- No sequence is given twice. -/
theorem nodup_sequences (h : Listed deps es) : (es.filterMap Entry.sequence).Nodup :=
  h.sequences.nodup_iff.mpr List.nodup_range'

end Listed

/-! ## Records -/

theorem identifier_of_validId {id : Text} (h : validId id = true) : identifier id = true := by
  simp only [validId, Bool.and_eq_true] at h
  exact h.1

/-- What the checks say about the fields. -/
theorem Request.valid_iff {r : Request} : r.valid = true ↔
    (validId r.operationId = true ∧ validId r.attemptId = true ∧ validId r.objectId = true ∧
      validId r.revisionId = true) ∧ r.expectedLen ≤ r.kind.limit ∧ digest r.sha256 = true := by
  simp only [valid, List.all_cons, List.all_nil, Bool.and_eq_true, Bool.and_true, decide_eq_true_eq,
    and_assoc]

theorem Kind.limit_le (k : Kind) : k.limit ≤ maxBlob := by
  cases k <;> decide

/-- The text of a request that is valid is not too long for the inventory. -/
theorem Request.length_toJson {r : Request} (h : r.valid = true) : r.toJson.length ≤ 2048 := by
  obtain ⟨⟨hoperation, hattempt, hobject, hrevision⟩, hlimit, hdigest⟩ := valid_iff.mp h
  have hkind : (Json.string r.kind.asText).length ≤ 12 := by
    cases r.kind <;> decide
  have hsize : (Json.nat r.expectedLen).length ≤ 7 :=
    (Json.length_nat_le (by decide)).mpr (lt_of_le_of_lt (hlimit.trans (Kind.limit_le _)) (by decide))
  have hkeys : (Json.string "operation_id".toList).length = 14 ∧
      (Json.string "attempt_id".toList).length = 12 ∧ (Json.string "object_id".toList).length = 11 ∧
      (Json.string "revision_id".toList).length = 13 ∧ (Json.string "kind".toList).length = 6 ∧
      (Json.string "expected_len".toList).length = 14 ∧ (Json.string "sha256".toList).length = 8 := by
    decide
  unfold toJson
  rw [Json.length_object]
  simp only [field, List.map_cons, List.map_nil, List.sum_cons, List.sum_nil, List.length_cons,
    List.length_nil, hkeys, Personal.length_identifier (identifier_of_validId hoperation),
    Personal.length_identifier (identifier_of_validId hattempt),
    Personal.length_identifier (identifier_of_validId hobject),
    Personal.length_identifier (identifier_of_validId hrevision), Personal.length_digest hdigest]
  omega

/-- A row is read back as its record. -/
theorem recordOf_row (h : e.request.valid = true) (hround : RoundTrips deps e.request)
    (hpos : ∀ n, e.sequence = some n → 1 ≤ n) : recordOf deps (e.row deps) = .ok (e.record deps) := by
  have hlength : ¬ 2048 < e.request.toJson.length := Nat.not_lt.mpr (Request.length_toJson h)
  have hvalid : e.request.validate = .ok () := if_pos h
  unfold RoundTrips at hround
  unfold recordOf
  rw [requestJson_row, if_neg hlength, hround]
  dsimp only
  rw [hvalid]
  show (if _ then _ else _) = _
  rw [operationId_row, attemptId_row, objectId_row, revisionId_row, expectedLen_row, if_neg (by simp)]
  rcases hn : e.sequence with _ | n
  · simp [Entry.row, Entry.record, Entry.commit, hn, preparedRow]
  · have hn' : 0 < n := hpos n hn
    simp [Entry.row, Entry.record, Entry.commit, hn, hn'.ne']

def Entry.byOperation (a b : Entry) : Bool := a.request.operationId ≤ b.request.operationId

variable (deps) in
/-- The records of the entries, in the order that they are read in. -/
def recordsOf (es : List Entry) : List Record := (es.mergeSort Entry.byOperation).map (Entry.record deps)

/-- The records are those of the entries. -/
theorem mem_recordsOf {record : Record} : record ∈ recordsOf deps es ↔ ∃ e ∈ es, e.record deps = record := by
  simp only [recordsOf, List.mem_map, List.mem_mergeSort]

variable (deps es) in
theorem perm_recordsOf : (recordsOf deps es).Perm (es.map (Entry.record deps)) :=
  (List.mergeSort_perm es _).map _

theorem Listed.recordOf (h : Listed deps es) (he : e ∈ es) :
    Provider.recordOf deps (e.row deps) = .ok (e.record deps) :=
  recordOf_row (h.valid e he) (h.round e he) fun _ hn => (h.sequence_pos he hn).1

/-- The rows are read as the records of the entries. -/
theorem Sound.mapM_recordOf (h : Sound deps profile s es) :
    ((s.attempts.mergeSort byOperation).take (maxRecords + 1)).mapM (recordOf deps) =
      .ok (recordsOf deps es) := by
  have hsorted : s.attempts.mergeSort byOperation = (es.mergeSort Entry.byOperation).map (Entry.row deps) := by
    rw [h.rows]
    refine (List.map_mergeSort ?_).symm
    intro a _ b _
    rw [byOperation, Entry.byOperation, operationId_row, operationId_row]
  have hlength : (es.mergeSort Entry.byOperation).length ≤ maxRecords + 1 := by
    rw [List.length_mergeSort]
    exact h.listed.few.trans (Nat.le_succ _)
  rw [hsorted, List.take_of_length_le (by rwa [List.length_map]), recordsOf]
  have hall : ∀ e ∈ es.mergeSort Entry.byOperation, recordOf deps (e.row deps) = .ok (e.record deps) :=
    fun e he => h.listed.recordOf (List.mem_mergeSort.mp he)
  generalize es.mergeSort Entry.byOperation = l at hall
  induction l with
  | nil => rfl
  | cons e l ih =>
      obtain ⟨he, hl⟩ := List.forall_mem_cons.mp hall
      rw [List.map_cons, List.mapM_cons, he, ih hl]
      rfl

/-! ## Changes to the files -/

theorem Fits.of_hasDir (h : Fits deps es tree p f) (hdirs : ∀ d, tree.hasDir d = true → tree'.hasDir d = true) :
    Fits deps es tree' p f := by
  cases p with
  | poison => exact h
  | staging a => exact h
  | object o v => exact ⟨hdirs o h.1, h.2⟩

/-- More entries, and numbers for them, take no file from its entry. -/
theorem Fits.mono {es' : List Entry} (h : Fits deps es tree p f)
    (hsub : ∀ e ∈ es, ∃ e' ∈ es', e'.request = e.request) : Fits deps es' tree p f := by
  cases p with
  | poison => exact h
  | staging a =>
      obtain ⟨horigin, e, he, ha⟩ := h
      obtain ⟨e', he', heq⟩ := hsub e he
      exact ⟨horigin, e', he', by rw [heq, ha]⟩
  | object o v =>
      obtain ⟨hdir, hflushed, e, he, hplace, horigin, hverifies⟩ := h
      obtain ⟨e', he', heq⟩ := hsub e he
      refine ⟨hdir, hflushed, e', he', ?_, by rw [heq, horigin], by rw [heq, hverifies]⟩
      rw [← hplace, Entry.place, Entry.place, heq]

/-- The flags of a file that do not matter to where it may be. -/
theorem Fits.relinked (h : Fits deps es tree p f) (linked : Bool) :
    Fits deps es tree p { f with linked := linked } := by
  cases p with
  | poison => exact h
  | staging a => exact h
  | object o v => exact h

theorem Fits.flushed (h : Fits deps es tree p f) : Fits deps es tree p { f with flushed := true } := by
  cases p with
  | poison => exact h
  | staging a => exact h
  | object o v => exact ⟨h.1, rfl, h.2.2⟩

theorem objectPath_ne_of_dirOf (hp : p.dirOf = none) (e : Entry) : e.request.objectPath ≠ p := by
  rintro rfl
  cases hp

/-- A file at a path that is not an object's. -/
theorem Kept.insert (h : Kept deps es tree) (hfits : Fits deps es tree p f) (hp : p.dirOf = none)
    {files : SyncedFiles BlobPath}
    (hlookup : ∀ q, files.lookup q = if q = p then some f else tree.files.lookup q) :
    Kept deps es { tree with files := files } := by
  constructor
  · intro q g hg
    rw [hlookup] at hg
    split_ifs at hg with hq
    · cases hg
      rw [hq]
      exact hfits.of_hasDir fun d hd => hd
    · exact (h.fits q g hg).of_hasDir fun d hd => hd
  · intro e he hsome
    obtain ⟨g, hg, hlinked⟩ := h.durable e he hsome
    exact ⟨g, by rw [hlookup, if_neg (objectPath_ne_of_dirOf hp e)]; exact hg, hlinked⟩

/-- Flags are set on the files that are there. -/
theorem Kept.mark (h : Kept deps es tree) {files : SyncedFiles BlobPath}
    {m : BlobPath → SyncedFile BlobPath → SyncedFile BlobPath}
    (hlookup : ∀ q, files.lookup q = (tree.files.lookup q).map (m q))
    (hfits : ∀ q f, Fits deps es tree q f → Fits deps es tree q (m q f))
    (hlinked : ∀ q f, f.linked = true → (m q f).linked = true) :
    Kept deps es { tree with files := files } := by
  constructor
  · intro q g hg
    rw [hlookup] at hg
    obtain ⟨f, hf, rfl⟩ := Option.map_eq_some_iff.mp hg
    exact (hfits q f (h.fits q f hf)).of_hasDir fun d hd => hd
  · intro e he hsome
    obtain ⟨g, hg, hg', hdir⟩ := h.durable e he hsome
    exact ⟨m _ g, by rw [hlookup, hg]; rfl, hlinked _ g hg', hdir⟩

/-- Linking names keeps the files of the entries. -/
theorem Kept.link (h : Kept deps es tree) (holds : BlobPath → Bool) :
    Kept deps es { tree with files := SyncedFiles.link holds tree.files } := by
  refine h.mark (m := fun q f => { f with linked := f.linked || holds q })
    (fun q => SyncedFiles.lookup_link holds) (fun q f hf => hf.relinked _) ?_
  intro q f hf
  show (f.linked || holds q) = true
  rw [hf, Bool.true_or]

/-- Flushing a file keeps them. -/
theorem Kept.flush (h : Kept deps es tree) (p : BlobPath) :
    Kept deps es { tree with files := SyncedFiles.flush p tree.files } := by
  refine h.mark (m := fun q f => if q = p then { f with flushed := true } else f) ?_ ?_ ?_
  · intro q
    rcases hp : tree.files.lookup p with _ | f
    · have hsame : SyncedFiles.flush p tree.files = tree.files := by rw [SyncedFiles.flush, hp]
      rw [hsame]
      by_cases hq : q = p
      · rw [hq, hp]
        rfl
      · simp [hq]
    · rw [SyncedFiles.lookup_flush hp]
      by_cases hq : q = p
      · subst hq
        rw [if_pos rfl, hp, Option.map_some, if_pos rfl]
      · simp [hq]
  · intro q f hf
    split_ifs
    · exact hf.flushed
    · exact hf
  · intro q f hf
    split_ifs
    · exact hf
    · exact hf

/-- A new directory keeps them. -/
theorem Kept.makeDir (h : Kept deps es tree) {o : Text} (hnew : tree.hasDir o = false) :
    Kept deps es (tree.makeDir o) := by
  constructor
  · intro q f hf
    refine (h.fits q f hf).of_hasDir ?_
    intro d hd
    rw [SyncedTree.hasDir_makeDir, hd, Bool.or_true]
  · intro e he hsome
    obtain ⟨g, hg, hlinked, hdir⟩ := h.durable e he hsome
    exact ⟨g, hg, hlinked, fun d hd => SyncedTree.lookup_makeDir_of_hasDir hnew (hdir d hd)⟩

/-- Linking directories keeps them. -/
theorem Kept.linkDirs (h : Kept deps es tree) : Kept deps es tree.linkDirs := by
  constructor
  · intro q f hf
    refine (h.fits q f hf).of_hasDir ?_
    intro d hd
    rw [SyncedTree.hasDir_linkDirs, hd]
  · intro e he hsome
    obtain ⟨g, hg, hlinked, hdir⟩ := h.durable e he hsome
    refine ⟨g, hg, hlinked, ?_⟩
    intro d hd
    rw [SyncedTree.lookup_linkDirs, hdir d hd]
    rfl

/-- A file that has been synced is renamed to its final name. -/
theorem Kept.rename (h : Kept deps es tree) (he : e ∈ es) {files : SyncedFiles BlobPath}
    (hrename : SyncedFiles.rename e.request.stagingPath e.request.objectPath tree.files = some files)
    (hdir : tree.hasDir e.request.objectId = true)
    (hf : tree.files.lookup e.request.stagingPath = some f) (hflushed : f.flushed = true)
    (hverifies : e.request.verifies deps f.bytes = true) :
    Kept deps es { tree with files := files } := by
  obtain ⟨g, hg, hfree, hlookup⟩ := SyncedFiles.rename_eq_some hrename
  obtain rfl := Option.some.inj (hf.symm.trans hg)
  constructor
  · intro q g hq
    rw [hlookup] at hq
    split_ifs at hq with hobject hstaging
    · cases hq
      subst hobject
      exact ⟨hdir, hflushed, e, he, rfl, (h.fits _ f hf).1, hverifies⟩
    · exact (h.fits q g hq).of_hasDir fun d hd => hd
  · intro e' he' hsome
    obtain ⟨g, hg, hlinked, hdir'⟩ := h.durable e' he' hsome
    have hobject : e'.request.objectPath ≠ e.request.objectPath := by
      intro heq
      rw [heq, hfree] at hg
      cases hg
    have hstaging : e'.request.objectPath ≠ e.request.stagingPath := by
      intro heq
      cases heq
    exact ⟨g, by rw [hlookup, if_neg hobject, if_neg hstaging]; exact hg, hlinked, hdir'⟩

/-- A file comes back from a loss of power where it fits, and the committed ones come back. -/
theorem Kept.powerLoss (h : Kept deps es tree) (hloss : tree.PowerLoss BlobPath.dirOf tree') :
    Kept deps es tree' := by
  constructor
  · intro p f' hf'
    obtain ⟨hflushed, -, q, f, hf, horigin, hbytes, hfrom⟩ := hloss.comes p f' hf'
    have hfits := h.fits q f hf
    rcases hfrom with rfl | ⟨-, hp, -⟩
    · cases p with
      | poison => exact horigin.trans hfits
      | staging a => exact ⟨horigin.trans hfits.1, hfits.2⟩
      | object o v =>
          obtain ⟨-, hsynced, e, he, hplace, hstaged, hverifies⟩ := hfits
          refine ⟨hloss.inside _ _ o hf' rfl, hflushed, e, he, hplace, horigin.trans hstaged, ?_⟩
          rw [hbytes hsynced]
          exact hverifies
    -- Renamed, and back under the name that it was made under.
    · cases q with
      | poison =>
          have horigin' : f.origin = .poison := hfits
          obtain rfl : p = .poison := hp.trans horigin'
          exact horigin.trans horigin'
      | staging a =>
          obtain rfl : p = .staging a := hp.trans hfits.1
          exact ⟨horigin.trans hfits.1, hfits.2⟩
      | object o v =>
          obtain ⟨-, -, e, he, -, hstaged, -⟩ := hfits
          obtain rfl : p = .staging e.request.attemptId := hp.trans hstaged
          exact ⟨horigin.trans hstaged, e, he, rfl⟩
  · intro e he hsome
    obtain ⟨f, hf, hlinked⟩ := h.durable e he hsome
    obtain ⟨f', hf', -⟩ := hloss.keeps _ f hf hlinked
    refine ⟨f', hf', (hloss.comes _ f' hf').2.1, ?_⟩
    intro d hd
    exact hloss.keepsDirs d (hlinked.2 d hd)

end DiskArcana.Provider
