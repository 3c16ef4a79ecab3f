import DiskArcana.Provider.Law

/-!
# Calls in which nothing fails

From a state that a run leads to, whatever failed on the way, a provider that is open and not poisoned
answers every call in which nothing fails by the records and the files (`retryLaw`). A request that was
reserved is taken up where it was left and is committed, unless a file was left for it that it does not
verify; and no call that does not fail poisons the root.
-/

namespace DiskArcana.Provider

open DiskArcana.Lib DiskArcana.Accounts
open DiskArcana.Lib.Interrupted
  (Fault Prog Triple check attempt observe change bind_of_ok bind_of_error observe_nil change_nil_of_ok
    change_nil_of_error attempt_of)
open DiskArcana.Personal (CaptureDescriptor identifier digest field maxCounter)

variable {deps : Deps} {profile : Profile} {s₀ s s' : State} {es : List Entry} {r : Request} {bytes : Bytes}
  {e : Entry}

/-- The provider is not poisoned, and there is no marker. -/
def Clear (s : State) : Prop := s.poisoned = false ∧ s.tree.files.lookup .poison = none

/-! ## Reads -/

/-- What is not poisoned is available. -/
theorem available_nil (h : Clear s) : available s [] = (.ok (), s, []) := by
  have hmemory : Interrupted.inspect
      (fun s : State => if s.poisoned then Except.error Error.poisoned else .ok ()) s [] = (.ok (), s, []) := by
    rw [Interrupted.inspect, h.1]
    rfl
  unfold available validate
  rw [bind_of_ok hmemory, observe_nil, h.2]
  rfl

theorem checkpoint_nil (place : String) (s : State) : checkpoint place s [] = (.ok (), s, []) :=
  observe_nil _

theorem existing_nil (p : BlobPath) (s : State) :
    «existing» p s [] = (.ok (s.tree.files.lookup p).isSome, s, []) := observe_nil _

theorem openObjectDir_nil (r : Request) (s : State) : openObjectDir r s [] =
    (if s.tree.hasDir r.objectId then .ok () else .error .ioNotFound, s, []) := observe_nil _

/-- The rows are read as records of the entries. -/
theorem records_nil (h : Sound deps profile s es) : records deps s [] = (.ok (recordsOf deps es), s, []) := by
  have hfew : ¬ maxRecords < s.attempts.length := by
    rw [h.rows, List.length_map, Nat.not_lt]
    exact h.listed.few
  have hcount : observe Error.sql (fun s : State => .ok s.attempts.length) s [] =
      (.ok s.attempts.length, s, []) := observe_nil _
  have hrows : observe Error.sql (fun s : State => .ok ((s.attempts.mergeSort byOperation).take (maxRecords + 1))) s [] =
      (.ok ((s.attempts.mergeSort byOperation).take (maxRecords + 1)), s, []) := observe_nil _
  unfold records
  rw [bind_of_ok hcount, if_neg hfew, bind_of_ok hrows, h.mapM_recordOf]
  rfl

/-- A file that verifies is read as a whole. -/
theorem verifiedBytes_nil {p : BlobPath} {f : SyncedFile BlobPath} (hvalid : r.valid = true)
    (hf : s.tree.files.lookup p = some f) (hverifies : r.verifies deps f.bytes = true) :
    verifiedBytes deps p r s [] = (.ok f.bytes, s, []) := by
  have hlength : f.bytes.length = r.expectedLen := by
    simp only [Request.verifies, Bool.and_eq_true, decide_eq_true_eq] at hverifies
    exact hverifies.1.1
  have hlimit := (Request.valid_iff.mp hvalid).2.1.trans (Kind.limit_le _)
  have hwhole : f.bytes.take (maxBlob + 1) = f.bytes := List.take_of_length_le (by omega)
  unfold verifiedBytes
  rw [observe_nil, hf, Option.map_some, Option.getD_some, hwhole, if_pos hverifies]

/-- The file of a committed entry is read. -/
theorem durableBytes_nil (h : Sound deps profile s es) (he : e ∈ es) (hsome : e.sequence.isSome = true) :
    ∃ f, s.tree.files.lookup e.request.objectPath = some f ∧
      durableBytes deps e.request s [] = (.ok f.bytes, s, []) := by
  obtain ⟨f, hf, -⟩ := h.kept.durable e he hsome
  obtain ⟨-, e', he', hplace, hverifies⟩ := h.exists_entry hf
  obtain rfl := h.listed.eq_of_place he' he hplace
  have hdir := openObjectDir_nil e'.request s
  rw [if_pos (h.kept.fits _ f hf).1] at hdir
  have hexists := existing_nil e'.request.objectPath s
  rw [hf, Option.isSome_some] at hexists
  refine ⟨f, hf, ?_⟩
  unfold durableBytes
  rw [bind_of_ok hdir, bind_of_ok hexists, if_pos rfl]
  exact verifiedBytes_nil (h.listed.valid _ he) hf hverifies

/-- Records of the entries have their files. -/
theorem consistencyOf_nil (h : Sound deps profile s es) {rs : List Record}
    (hrs : ∀ record ∈ rs, record ∈ recordsOf deps es) : consistencyOf deps rs s [] = (.ok (), s, []) := by
  induction rs with
  | nil => rfl
  | cons record rest ih =>
      obtain ⟨hrecord, hrest⟩ := List.forall_mem_cons.mp hrs
      obtain ⟨e, he, rfl⟩ := mem_recordsOf.mp hrecord
      unfold consistencyOf
      split_ifs with hsome
      · obtain ⟨f, -, hread⟩ := durableBytes_nil h he (by simpa [Entry.record, Entry.commit] using hsome)
        have hattempt : attempt (durableBytes deps (e.record deps).request) s [] = (.ok (.ok f.bytes), s, []) :=
          attempt_of hread
        rw [bind_of_ok hattempt]
        exact ih hrest
      · exact ih hrest

/-- No call that does not fail finds the root inconsistent. -/
theorem consistency_nil (h : Sound deps profile s es) (hclear : Clear s) :
    consistency deps s [] = (.ok (), s, []) := by
  unfold consistency
  rw [bind_of_ok (available_nil hclear), bind_of_ok (attempt_of (records_nil h))]
  exact consistencyOf_nil h fun _ hrecord => hrecord

/-! ## Reading an object -/

/-- The records are found by their operation. -/
theorem find?_recordsOf (h : Listed deps es) (he : e ∈ es) (hoperation : e.request.operationId = r.operationId) :
    (recordsOf deps es).find? (fun record => record.request.operationId = r.operationId) =
      some (e.record deps) := by
  generalize hfind : List.find? _ (recordsOf deps es) = found
  rcases found with _ | record
  · have hnone := List.find?_eq_none.mp hfind _ (mem_recordsOf.mpr ⟨e, he, rfl⟩)
    exact absurd (decide_eq_true hoperation) hnone
  · obtain ⟨e', he', rfl⟩ := mem_recordsOf.mp (List.mem_of_find?_eq_some hfind)
    have hsame : (e'.record deps).request.operationId = r.operationId := by
      simpa only [decide_eq_true_eq] using List.find?_some hfind
    rw [h.eq_of_operation he' he (hsame.trans hoperation.symm)]

/-- No record has the operation. -/
theorem find?_recordsOf_eq_none (h : ∀ e ∈ es, e.request.operationId ≠ r.operationId) :
    (recordsOf deps es).find? (fun record => record.request.operationId = r.operationId) = none := by
  rw [List.find?_eq_none]
  intro record hrecord
  obtain ⟨e, he, rfl⟩ := mem_recordsOf.mp hrecord
  simp only [decide_eq_true_eq]
  exact h e he

/-- The first part of a read. -/
theorem readInternal_nil (h : Sound deps profile s es) (hclear : Clear s) (hvalid : r.valid = true) :
    readInternal deps r s [] = readRecord deps r
      ((recordsOf deps es).find? fun record => record.request.operationId = r.operationId) s [] := by
  have hvalidate : check r.validate s [] = (.ok (), s, []) := by
    rw [Interrupted.check_apply, Request.validate, if_pos hvalid]
  unfold readInternal
  rw [bind_of_ok (available_nil hclear), bind_of_ok hvalidate, bind_of_ok (consistency_nil h hclear),
    bind_of_ok (records_nil h)]

/-- What was committed is read; what was not is unresolved. -/
theorem readInternal_of_mem (h : Sound deps profile s es) (hclear : Clear s) (he : e ∈ es) :
    (∀ n, e.sequence = some n → ∃ f, s.tree.files.lookup e.request.objectPath = some f ∧
      readInternal deps e.request s [] = (.ok f.bytes, s, [])) ∧
    (e.sequence = none → readInternal deps e.request s [] = (.error .unresolvedPrepared, s, [])) := by
  rw [readInternal_nil h hclear (h.listed.valid e he), find?_recordsOf h.listed he rfl, readRecord,
    Entry.request_record, Entry.committed_record, if_neg (not_not.mpr rfl)]
  constructor
  · intro n hn
    obtain ⟨f, hf, hread⟩ := durableBytes_nil h he (by rw [hn]; rfl)
    refine ⟨f, hf, ?_⟩
    rw [if_neg (by simp [Entry.commit, hn]), bind_of_ok (attempt_of hread)]
    rfl
  · intro hn
    rw [if_pos (by simp [Entry.commit, hn])]
    rfl

/-- Another request of the operation is refused. -/
theorem readInternal_of_other (h : Sound deps profile s es) (hclear : Clear s) (hvalid : r.valid = true)
    (he : e ∈ es) (hoperation : e.request.operationId = r.operationId) (hne : e.request ≠ r) :
    readInternal deps r s [] = (.error .conflict, s, []) := by
  rw [readInternal_nil h hclear hvalid, find?_recordsOf h.listed he hoperation, readRecord,
    Entry.request_record, if_pos hne]
  rfl

/-- An operation without a record is not found. -/
theorem readInternal_of_none (h : Sound deps profile s es) (hclear : Clear s) (hvalid : r.valid = true)
    (hnone : ∀ e ∈ es, e.request.operationId ≠ r.operationId) :
    readInternal deps r s [] = (.error .notFound, s, []) := by
  rw [readInternal_nil h hclear hvalid, find?_recordsOf_eq_none hnone]
  rfl

/-! ## The reservation -/

/-- The two requests cannot both be reserved. -/
def Shares (r r' : Request) : Prop :=
  r.operationId = r'.operationId ∨ r.attemptId = r'.attemptId ∨
    r.objectId = r'.objectId ∧ r.revisionId = r'.revisionId

/-- Entries that share a name are the same. -/
theorem Listed.eq_of_shares (h : Listed deps es) {e' : Entry} (he : e ∈ es) (he' : e' ∈ es)
    (hshares : Shares e.request e'.request) : e = e' := by
  rcases hshares with hsame | hsame | ⟨hobject, hrevision⟩
  · exact h.eq_of_operation he he' hsame
  · exact h.eq_of_attempt he he' hsame
  · exact h.eq_of_place he he' (Prod.ext hobject hrevision)

/-- The files of a new request are refused if they are there. -/
theorem rejectUnattributedFiles_nil (r : Request) (s : State) :
    rejectUnattributedFiles r s [] = (.error .conflict, s, []) ∨
      rejectUnattributedFiles r s [] = (.ok (), s, []) := by
  unfold rejectUnattributedFiles
  rw [bind_of_ok (existing_nil _ s)]
  split_ifs
  · exact Or.inl rfl
  · rw [bind_of_ok (attempt_of (openObjectDir_nil r s))]
    by_cases hdir : s.tree.hasDir r.objectId = true
    · rw [if_pos hdir]
      show (do if ← «existing» r.objectPath then check (.error .conflict) else pure () : Run Unit) s [] = _ ∨
        (do if ← «existing» r.objectPath then check (.error .conflict) else pure () : Run Unit) s [] = _
      rw [bind_of_ok (existing_nil _ s)]
      split_ifs
      · exact Or.inl rfl
      · exact Or.inr rfl
    · rw [if_neg hdir]
      exact Or.inr rfl

/-- Without a file at the two paths nothing is refused. -/
theorem rejectUnattributedFiles_of_none (hstaging : s.tree.files.lookup r.stagingPath = none)
    (hobject : s.tree.files.lookup r.objectPath = none) : rejectUnattributedFiles r s [] = (.ok (), s, []) := by
  unfold rejectUnattributedFiles
  rw [bind_of_ok (existing_nil _ s), hstaging, if_neg (by simp),
    bind_of_ok (attempt_of (openObjectDir_nil r s))]
  by_cases hdir : s.tree.hasDir r.objectId = true
  · rw [if_pos hdir]
    show (do if ← «existing» r.objectPath then check (.error .conflict) else pure () : Run Unit) s [] = _
    rw [bind_of_ok (existing_nil _ s), hobject, if_neg (by simp)]
    rfl
  · rw [if_neg hdir]
    rfl

/-- What the loop of a reservation finds among some of the records. -/
theorem reserveAmong_of_mem {capture : Option (CaptureDescriptor × Text)} (h : Listed deps es) (he : e ∈ es)
    (hbound : verifyBound e.request capture s [] = (.ok (), s, [])) {rs : List Record}
    (hrs : ∀ record ∈ rs, record ∈ recordsOf deps es) (hmem : e.record deps ∈ rs) :
    reserveAmong e.request capture rs s [] = (.ok (some (e.commit deps)), s, []) := by
  induction rs with
  | nil => simp at hmem
  | cons record rest ih =>
      obtain ⟨hrecord, hrest⟩ := List.forall_mem_cons.mp hrs
      obtain ⟨e', he', rfl⟩ := mem_recordsOf.mp hrecord
      by_cases hsame : e' = e
      · subst hsame
        rw [reserveAmong, Entry.request_record, if_pos rfl, if_neg (not_not.mpr rfl), bind_of_ok hbound]
        rfl
      · have happart : ¬ Shares e'.request e.request := fun hshares => hsame (h.eq_of_shares he' he hshares)
        unfold Shares at happart
        rw [not_or] at happart
        have hmem' : e.record deps ∈ rest := by
          rcases List.mem_cons.mp hmem with heq | hmem
          · have hrequest : e.request = e'.request := congrArg Record.request heq
            exact absurd (h.eq_of_shares he' he (Or.inl (by rw [hrequest]))) hsame
          · exact hmem
        rw [reserveAmong, Entry.request_record, if_neg happart.1, if_neg happart.2]
        exact ih hrest hmem'

/-- A record that shares a name is a conflict. -/
theorem reserveAmong_of_shares {capture : Option (CaptureDescriptor × Text)} (h : Listed deps es)
    (he : e ∈ es) (hshares : Shares e.request r) (hne : e.request ≠ r) {rs : List Record}
    (hrs : ∀ record ∈ rs, record ∈ recordsOf deps es) (hmem : e.record deps ∈ rs) :
    reserveAmong r capture rs s [] = (.error .conflict, s, []) := by
  induction rs with
  | nil => simp at hmem
  | cons record rest ih =>
      obtain ⟨hrecord, hrest⟩ := List.forall_mem_cons.mp hrs
      obtain ⟨e', he', rfl⟩ := mem_recordsOf.mp hrecord
      rw [reserveAmong, Entry.request_record]
      split_ifs with hoperation hrequest hclash
      · rfl
      · rw [not_not] at hrequest
        rw [← hrequest] at hshares hne
        exact absurd (congrArg Entry.request (h.eq_of_shares he he' hshares)) hne
      · rfl
      · have hmem' : e.record deps ∈ rest := by
          rcases List.mem_cons.mp hmem with heq | hmem
          · have hsame : e.request = e'.request := congrArg Record.request heq
            rw [← hsame] at hoperation hclash
            rcases hshares with hshares | hshares
            · exact absurd hshares hoperation
            · exact absurd hshares hclash
          · exact hmem
        exact ih hrest hmem'

/-- Records that share no name do not stand in the way. -/
theorem reserveAmong_of_apart {capture : Option (CaptureDescriptor × Text)}
    (hapart : ∀ e ∈ es, ¬ Shares e.request r) {rs : List Record}
    (hrs : ∀ record ∈ rs, record ∈ recordsOf deps es) :
    reserveAmong r capture rs s [] = (.ok none, s, []) := by
  induction rs with
  | nil => rfl
  | cons record rest ih =>
      obtain ⟨hrecord, hrest⟩ := List.forall_mem_cons.mp hrs
      obtain ⟨e', he', rfl⟩ := mem_recordsOf.mp hrecord
      have happart := hapart e' he'
      unfold Shares at happart
      rw [not_or] at happart
      rw [reserveAmong, Entry.request_record, if_neg happart.1, if_neg happart.2]
      exact ih hrest

/-- There is no room for the request. -/
def Full (r : Request) (s : State) : Prop :=
  maxRecords ≤ s.attempts.length ∨
    maxReservedBytes < (s.attempts.map AttemptRow.expectedLen).sum + r.expectedLen

/-- The binding of the capture is accepted with a new row. -/
def Bindable (r : Request) (s : State) : Option (CaptureDescriptor × Text) → Prop
  | none => True
  | some (d, part) => acceptsCapture s.captures (captureRow r d part) = true

section Reserve

variable {capture : Option (CaptureDescriptor × Text)}

/-- A reservation is found again. -/
theorem reserve_of_mem (h : Sound deps profile s es) (he : e ∈ es)
    (hbound : verifyBound e.request capture s [] = (.ok (), s, [])) :
    reserve deps e.request capture s [] = (.ok (true, e.commit deps), s, []) := by
  have hamong : reserveAmong e.request capture (recordsOf deps es) s [] = (.ok (some (e.commit deps)), s, []) :=
    reserveAmong_of_mem h.listed he hbound (fun _ hrecord => hrecord) (mem_recordsOf.mpr ⟨e, he, rfl⟩)
  unfold reserve
  rw [bind_of_ok (records_nil h), bind_of_ok hamong]
  rfl

/-- A name that is taken is not reserved. -/
theorem reserve_of_shares (h : Sound deps profile s es) (he : e ∈ es) (hshares : Shares e.request r)
    (hne : e.request ≠ r) : reserve deps r capture s [] = (.error .conflict, s, []) := by
  have hamong : reserveAmong r capture (recordsOf deps es) s [] = (.error .conflict, s, []) :=
    reserveAmong_of_shares h.listed he hshares hne (fun _ hrecord => hrecord) (mem_recordsOf.mpr ⟨e, he, rfl⟩)
  unfold reserve
  rw [bind_of_ok (records_nil h), bind_of_error hamong]

/-- The room is counted by the records. -/
theorem Sound.full_iff (h : Sound deps profile s es) : Full r s ↔ maxRecords ≤ (recordsOf deps es).length ∨
    maxReservedBytes < ((recordsOf deps es).map fun record => record.request.expectedLen).sum + r.expectedLen := by
  have hlength : (recordsOf deps es).length = s.attempts.length := by
    rw [(perm_recordsOf deps es).length_eq, List.length_map, h.rows, List.length_map]
  have hsum : ((recordsOf deps es).map fun record => record.request.expectedLen).sum =
      (s.attempts.map AttemptRow.expectedLen).sum := by
    rw [((perm_recordsOf deps es).map _).sum_nat, List.map_map, h.rows, List.map_map]
    refine congrArg List.sum (List.map_congr_left fun e _ => ?_)
    exact expectedLen_row.symm
  rw [hlength, hsum, Full]

/-- Nothing is reserved without room. -/
theorem reserve_of_full (h : Sound deps profile s es) (hapart : ∀ e ∈ es, ¬ Shares e.request r)
    (hfull : Full r s) : reserve deps r capture s [] = (.error .capacity, s, []) := by
  have hamong : reserveAmong r capture (recordsOf deps es) s [] = (.ok none, s, []) :=
    reserveAmong_of_apart hapart fun _ hrecord => hrecord
  unfold reserve
  rw [bind_of_ok (records_nil h), bind_of_ok hamong]
  show (if _ then check (.error .capacity) else _ : Run (Bool × Option LocalCommit)) s [] = _
  rw [if_pos (h.full_iff.mp hfull)]
  rfl

/-- The constraints accept a request that shares nothing. -/
theorem acceptsRow_of_apart (hvalid : r.valid = true) (hapart : ∀ e ∈ es, ¬ Shares e.request r) :
    acceptsRow (es.map (Entry.row deps)) (preparedRow r) = true := by
  have hlimit := (Request.valid_iff.mp hvalid).2.1.trans (Kind.limit_le _)
  have hrows : ∀ row ∈ es.map (Entry.row deps), row.operationId ≠ r.operationId ∧
      row.attemptId ≠ r.attemptId ∧ ¬ (row.objectId = r.objectId ∧ row.revisionId = r.revisionId) := by
    intro row hrow
    obtain ⟨e, he, rfl⟩ := List.mem_map.mp hrow
    have happart := hapart e he
    unfold Shares at happart
    rw [operationId_row, attemptId_row, objectId_row, revisionId_row]
    simpa only [not_or] using happart
  simp only [acceptsRow, Bool.and_eq_true, List.all_eq_true, decide_eq_true_eq, Bool.not_eq_true',
    Bool.and_eq_false_iff, decide_eq_false_iff_not]
  refine ⟨⟨Request.length_toJson hvalid, hlimit⟩, ?_⟩
  intro row hrow
  obtain ⟨hoperation, hattempt, hplace⟩ := hrows row hrow
  exact ⟨⟨hoperation, hattempt⟩, not_and_or.mp hplace⟩

/-- A new request is reserved, and the files stay. -/
theorem reserve_of_apart (h : Sound deps profile s es) (hvalid : r.valid = true)
    (hapart : ∀ e ∈ es, ¬ Shares e.request r) (hroom : ¬ Full r s) (hbindable : Bindable r s capture) :
    ∃ s', reserve deps r capture s [] = (.ok (false, none), s', []) ∧ s'.tree = s.tree ∧
      s'.poisoned = s.poisoned := by
  have hamong : reserveAmong r capture (recordsOf deps es) s [] = (.ok none, s, []) :=
    reserveAmong_of_apart hapart fun _ hrecord => hrecord
  have haccepts : acceptsRow (es.map (Entry.row deps)) (preparedRow r) = true :=
    acceptsRow_of_apart hvalid hapart
  rw [← h.rows] at haccepts
  obtain ⟨s', hinsert, htree, hpoisoned⟩ : ∃ s', insertAttempt r capture s = .ok ((), s') ∧
      s'.tree = s.tree ∧ s'.poisoned = s.poisoned := by
    unfold insertAttempt
    rw [if_pos haccepts]
    rcases capture with _ | ⟨d, part⟩
    · exact ⟨_, rfl, rfl, rfl⟩
    · have hcapture : acceptsCapture s.captures (captureRow r d part) = true := hbindable
      refine ⟨{ s with attempts := s.attempts ++ [preparedRow r],
                       captures := s.captures ++ [captureRow r d part] }, ?_, rfl, rfl⟩
      exact if_pos hcapture
  have hchange : change Error.sql (insertAttempt r capture) s [] = (.ok (), s', []) :=
    change_nil_of_ok hinsert
  refine ⟨s', ?_, htree, hpoisoned⟩
  unfold reserve
  rw [bind_of_ok (records_nil h), bind_of_ok hamong]
  show (if _ then _ else (change Error.sql (insertAttempt r capture) >>= fun _ => pure (false, none)) :
    Run (Bool × Option LocalCommit)) s [] = _
  rw [if_neg (fun hfull => hroom (h.full_iff.mpr hfull)), bind_of_ok hchange]
  rfl

end Reserve

/-! ## Placing the file -/

/-- A file was left for the request that it does not verify. -/
def Stuck (deps : Deps) (r : Request) (s : State) : Prop :=
  s.tree.files.lookup r.objectPath = none ∧
    ∃ f, s.tree.files.lookup r.stagingPath = some f ∧ r.verifies deps f.bytes = false

section Placing

variable {p q : BlobPath} {f : SyncedFile BlobPath}

theorem createNew_nil (h : s.tree.files.lookup p = none) :
    createNew p s [] = (.ok (), onFiles (SyncedFiles.create p) s, []) :=
  change_nil_of_ok (by rw [h]; rfl)

theorem writeAll_nil (p : BlobPath) (bytes : Bytes) (s : State) :
    writeAll p bytes s [] = (.ok (), onFiles (SyncedFiles.append p bytes) s, []) :=
  Interrupted.step_nil_of_ok rfl

theorem syncFile_nil (p : BlobPath) (s : State) :
    syncFile p s [] = (.ok (), onFiles (SyncedFiles.flush p) s, []) := change_nil_of_ok rfl

theorem syncDir_nil (holds : BlobPath → Bool) (s : State) :
    syncDir holds s [] = (.ok (), onFiles (SyncedFiles.link holds) s, []) := change_nil_of_ok rfl

theorem syncObjects_nil (s : State) :
    syncObjects s [] = (.ok (), { s with tree := s.tree.linkDirs }, []) := change_nil_of_ok rfl

/-- A directory that is made, or is there, holds what it held. -/
theorem makeObjectDir_nil (r : Request) (s : State) : ∃ s', makeObjectDir r s [] = (.ok (), s', []) ∧
    s'.tree.files = s.tree.files ∧ s'.poisoned = s.poisoned := by
  by_cases hdir : s.tree.hasDir r.objectId = true
  · have hmade : change Error.io (fun s : State =>
        if s.tree.hasDir r.objectId then .ok (false, s)
        else .ok (true, { s with tree := s.tree.makeDir r.objectId })) s [] = (.ok false, s, []) :=
      change_nil_of_ok (if_pos hdir)
    refine ⟨s, ?_, rfl, rfl⟩
    unfold makeObjectDir
    rw [bind_of_ok hmade, if_neg Bool.false_ne_true, openObjectDir_nil, if_pos hdir]
  · have hmade : change Error.io (fun s : State =>
        if s.tree.hasDir r.objectId then .ok (false, s)
        else .ok (true, { s with tree := s.tree.makeDir r.objectId })) s [] =
        (.ok true, { s with tree := s.tree.makeDir r.objectId }, []) :=
      change_nil_of_ok (if_neg hdir)
    have hopen : (s.tree.makeDir r.objectId).linkDirs.hasDir r.objectId = true := by
      rw [SyncedTree.hasDir_linkDirs, SyncedTree.hasDir_makeDir]
      simp
    refine ⟨{ s with tree := (s.tree.makeDir r.objectId).linkDirs }, ?_, rfl, rfl⟩
    unfold makeObjectDir
    rw [bind_of_ok hmade, if_pos rfl, bind_of_ok (syncObjects_nil _), openObjectDir_nil, if_pos hopen]

/-- The file of a request is written and synced. -/
def prepared (p : BlobPath) (bytes : Bytes) (files : SyncedFiles BlobPath) : SyncedFiles BlobPath :=
  SyncedFiles.flush p (SyncedFiles.append p (bytes.drop 4096)
    (SyncedFiles.append p (bytes.take 4096) (SyncedFiles.create p files)))

theorem lookup_prepared (p q : BlobPath) (bytes : Bytes) (files : SyncedFiles BlobPath) :
    (prepared p bytes files).lookup q =
      if q = p then some ⟨bytes, p, true, false⟩ else files.lookup q := by
  have hcreated : (SyncedFiles.create p files).lookup p = some ⟨[], p, false, false⟩ := by
    rw [SyncedFiles.lookup_create, if_pos rfl]
  have hfirst : (SyncedFiles.append p (bytes.take 4096) (SyncedFiles.create p files)).lookup p =
      some ⟨bytes.take 4096, p, false, false⟩ := by
    rw [SyncedFiles.lookup_append hcreated, if_pos rfl, List.nil_append]
  have hsecond : (SyncedFiles.append p (bytes.drop 4096) (SyncedFiles.append p (bytes.take 4096)
      (SyncedFiles.create p files))).lookup p = some ⟨bytes, p, false, false⟩ := by
    rw [SyncedFiles.lookup_append hfirst, if_pos rfl, List.take_append_drop]
  unfold prepared
  rw [SyncedFiles.lookup_flush hsecond]
  split_ifs with hq
  · rfl
  · rw [SyncedFiles.lookup_append hfirst, if_neg hq, SyncedFiles.lookup_append hcreated, if_neg hq,
      SyncedFiles.lookup_create, if_neg hq]

/-- A staging file that is missing is written and flushed. -/
theorem prepareFile_of_none {wasReserved : Bool} (h : s.tree.files.lookup r.stagingPath = none) :
    prepareFile deps r bytes wasReserved s [] = (.ok (), onFiles (prepared r.stagingPath bytes) s, []) := by
  unfold prepareFile
  rw [bind_of_ok (existing_nil _ s), h, if_neg (by simp), bind_of_ok (createNew_nil h),
    bind_of_ok (checkpoint_nil _ _), bind_of_ok (checkpoint_nil _ _), bind_of_ok (writeAll_nil _ _ _),
    bind_of_ok (checkpoint_nil _ _), bind_of_ok (writeAll_nil _ _ _), bind_of_ok (checkpoint_nil _ _),
    bind_of_ok (checkpoint_nil _ _), bind_of_ok (syncFile_nil _ _), checkpoint_nil]
  rfl

/-- One that is there is flushed again. -/
theorem prepareFile_of_some (hvalid : r.valid = true) (hf : s.tree.files.lookup r.stagingPath = some f)
    (hverifies : r.verifies deps f.bytes = true) :
    prepareFile deps r bytes true s [] = (.ok (), onFiles (SyncedFiles.flush r.stagingPath) s, []) := by
  unfold prepareFile
  rw [bind_of_ok (existing_nil _ s), hf, Option.isSome_some, if_pos rfl, if_pos rfl,
    bind_of_ok (verifiedBytes_nil hvalid hf hverifies), bind_of_ok (checkpoint_nil _ _),
    bind_of_ok (syncFile_nil _ _), checkpoint_nil]

/-- A file that was left and does not verify is left alone. -/
theorem prepareFile_of_stuck (hvalid : r.valid = true) (hf : s.tree.files.lookup r.stagingPath = some f)
    (hfails : r.verifies deps f.bytes = false) :
    prepareFile deps r bytes true s [] = (.error .unresolvedPrepared, s, []) := by
  have hread : verifiedBytes deps r.stagingPath r s [] = (.error .unresolvedPrepared, s, []) := by
    unfold verifiedBytes
    rw [observe_nil, hf, Option.map_some, Option.getD_some, if_neg]
    intro hverifies
    have hwhole := Request.verifies_of_take hvalid hverifies
    rw [hwhole, hfails] at hverifies
    cases hverifies
  unfold prepareFile
  rw [bind_of_ok (existing_nil _ s), hf, Option.isSome_some, if_pos rfl, if_pos rfl, bind_of_error hread]

/-- The staging file gets the name of the object. -/
theorem publish_nil (hstaging : s.tree.files.lookup r.stagingPath = some f)
    (hobject : s.tree.files.lookup r.objectPath = none) :
    ∃ files, publish r s [] = (.ok (), onFiles (fun _ => files) s, []) ∧
      ∀ q, files.lookup q = if q = r.objectPath then some { f with linked := false }
        else if q = r.stagingPath then none else s.tree.files.lookup q := by
  obtain ⟨files, hrename⟩ := Option.isSome_iff_exists.mp (SyncedFiles.isSome_rename hstaging hobject)
  obtain ⟨g, hg, -, hlookup⟩ := SyncedFiles.rename_eq_some hrename
  obtain rfl := Option.some.inj (hstaging.symm.trans hg)
  exact ⟨files, change_nil_of_ok (by rw [hrename]; rfl), hlookup⟩

variable (bytes) in
/-- A request is placed unless it is stuck. -/
theorem placeFile_nil {wasReserved : Bool} (h : Sound deps profile s es) (he : ⟨r, none⟩ ∈ es)
    (hclear : Clear s) (hfree : ¬ Stuck deps r s)
    (hnew : wasReserved = false → s.tree.files.lookup r.stagingPath = none ∧
      s.tree.files.lookup r.objectPath = none) :
    ∃ s', placeFile deps r bytes wasReserved s [] = (.ok (), s', []) ∧ Clear s' := by
  have hvalid : r.valid = true := h.listed.valid _ he
  obtain ⟨s₁, hmake, hfiles, hpoisoned⟩ := makeObjectDir_nil r s
  have hclear₁ : Clear s₁ := ⟨hpoisoned.trans hclear.1, by rw [hfiles]; exact hclear.2⟩
  have hexists := existing_nil r.objectPath s₁
  rw [hfiles] at hexists
  unfold placeFile
  rw [bind_of_ok hmake, bind_of_ok hexists]
  rcases hobject : s.tree.files.lookup r.objectPath with _ | f
  · -- The file is prepared and renamed.
    obtain ⟨g, hprepare, hstaging, hother⟩ : ∃ g, prepareFile deps r bytes wasReserved s₁ [] =
        (.ok (), onFiles g s₁, []) ∧ (∃ f, (g s₁.tree.files).lookup r.stagingPath = some f) ∧
        ∀ q, q ≠ r.stagingPath → (g s₁.tree.files).lookup q = s₁.tree.files.lookup q := by
      rcases hleft : s₁.tree.files.lookup r.stagingPath with _ | f
      · refine ⟨_, prepareFile_of_none hleft, ⟨_, (lookup_prepared _ _ _ _).trans (if_pos rfl)⟩, ?_⟩
        intro q hq
        rw [lookup_prepared, if_neg hq]
      · have hverifies : r.verifies deps f.bytes = true := by
          by_contra hfails
          exact hfree ⟨hobject, f, by rw [← hfiles]; exact hleft, Bool.eq_false_iff.mpr hfails⟩
        have hreserved : wasReserved = true := by
          by_contra hfresh
          have hnone := (hnew (Bool.eq_false_iff.mpr hfresh)).1
          rw [← hfiles, hleft] at hnone
          cases hnone
        rw [hreserved]
        refine ⟨_, prepareFile_of_some hvalid hleft hverifies,
          ⟨_, (SyncedFiles.lookup_flush hleft).trans (if_pos rfl)⟩, ?_⟩
        intro q hq
        rw [SyncedFiles.lookup_flush hleft, if_neg hq]
    obtain ⟨f, hf⟩ := hstaging
    have hobject₂ : (onFiles g s₁).tree.files.lookup r.objectPath = none := by
      show (g s₁.tree.files).lookup r.objectPath = none
      rw [hother _ (by intro heq; cases heq), hfiles, hobject]
    obtain ⟨files, hpublish, hlookup⟩ := publish_nil (r := r) hf hobject₂
    rw [Option.isSome_none, if_neg Bool.false_ne_true, bind_of_ok hprepare, bind_of_ok (checkpoint_nil _ _),
      bind_of_ok hpublish, checkpoint_nil]
    refine ⟨_, rfl, hpoisoned.trans hclear.1, ?_⟩
    show files.lookup .poison = none
    rw [hlookup, if_neg (by intro heq; cases heq), if_neg (by intro heq; cases heq)]
    show (g s₁.tree.files).lookup .poison = none
    rw [hother _ (by intro heq; cases heq), hfiles, hclear.2]
  · -- The file is there.
    have hreserved : wasReserved = true := by
      by_contra hfresh
      have hnone := (hnew (Bool.eq_false_iff.mpr hfresh)).2
      rw [hobject] at hnone
      cases hnone
    have hf₁ : s₁.tree.files.lookup r.objectPath = some f := by rw [hfiles, hobject]
    obtain ⟨-, e', he', hplace, hverifies⟩ := h.exists_entry hobject
    obtain rfl := h.listed.eq_of_place he' he hplace
    rw [Option.isSome_some, if_pos rfl, hreserved, if_pos rfl, bind_of_ok (verifiedBytes_nil hvalid hf₁ hverifies),
      bind_of_ok (checkpoint_nil _ _), syncFile_nil]
    refine ⟨_, rfl, hclear₁.1, ?_⟩
    show (SyncedFiles.flush r.objectPath s₁.tree.files).lookup .poison = none
    rw [SyncedFiles.lookup_flush hf₁, if_neg (by intro heq; cases heq), hclear₁.2]

theorem Clear.link (h : Clear s) (holds : BlobPath → Bool) : Clear (onFiles (SyncedFiles.link holds) s) := by
  refine ⟨h.1, ?_⟩
  show (SyncedFiles.link holds s.tree.files).lookup .poison = none
  rw [SyncedFiles.lookup_link, h.2]
  rfl

theorem syncPublishDirs_nil (r : Request) (h : Clear s) :
    ∃ s', syncPublishDirs r s [] = (.ok (), s', []) ∧ Clear s' := by
  unfold syncPublishDirs
  rw [bind_of_ok (checkpoint_nil _ _), bind_of_ok (syncDir_nil _ _), bind_of_ok (checkpoint_nil _ _),
    bind_of_ok (syncDir_nil _ _), bind_of_ok (checkpoint_nil _ _), bind_of_ok (syncObjects_nil _),
    bind_of_ok (checkpoint_nil _ _), syncDir_nil]
  exact ⟨_, rfl, Clear.link ((h.link _).link _) isPoison⟩

end Placing

/-! ## The commit -/

/-- The name of the commit is that of another. -/
def Taken (deps : Deps) (r : Request) (s : State) : Prop :=
  r.commitId deps ∈ s.attempts.filterMap AttemptRow.localCommitId

theorem perm_filterMap_commit {β : Type} (g : Entry → Option β) {as bs : List Entry} {n : ℕ} {b : β}
    (hnone : g ⟨r, none⟩ = none) (hsome : g ⟨r, some n⟩ = some b) :
    ((as ++ ⟨r, some n⟩ :: bs).filterMap g).Perm (b :: (as ++ ⟨r, none⟩ :: bs).filterMap g) := by
  rw [List.filterMap_append, List.filterMap_append, List.filterMap_cons_none hnone,
    List.filterMap_cons_some hsome]
  exact List.perm_middle

/-- A prepared request is committed, and the files stay. -/
theorem commit_nil (h : Sound deps profile s es) (he : ⟨r, none⟩ ∈ es) (hname : ¬ Taken deps r s) :
    ∃ done s', commit deps r s [] = (.ok done, s', []) ∧ s'.tree = s.tree ∧ s'.poisoned = s.poisoned := by
  have hlisted := h.listed
  have hsequence := hlisted.nextSequence
  rw [← h.rows] at hsequence
  unfold Taken at hname
  rw [h.rows, filterMap_localCommitId] at hname
  obtain ⟨as, bs, rfl⟩ := List.append_of_mem he
  have hrows : s.attempts.map (commitRow deps r (nextSequence s.attempts)) =
      (as ++ ⟨r, some (nextSequence s.attempts)⟩ :: bs).map (Entry.row deps) := by
    rw [h.rows]
    exact hlisted.commitRow
  have hsequences : (s.attempts.map (commitRow deps r (nextSequence s.attempts))).filterMap
      AttemptRow.sequence = (as ++ ⟨r, some (nextSequence s.attempts)⟩ :: bs).filterMap Entry.sequence := by
    rw [hrows, List.filterMap_map]
    exact List.filterMap_congr fun e _ => sequence_row
  have hunique : uniqueColumns (s.attempts.map (commitRow deps r (nextSequence s.attempts))) = true := by
    rw [uniqueColumns, Bool.and_eq_true, decide_eq_true_eq, decide_eq_true_eq, hsequences, hrows,
      filterMap_localCommitId]
    constructor
    · rw [(perm_filterMap_commit (fun e => (e.commit deps).map LocalCommit.localCommitId) rfl rfl).nodup_iff,
        List.nodup_cons]
      exact ⟨hname, hlisted.names⟩
    · rw [(perm_filterMap_commit Entry.sequence rfl rfl).nodup_iff, List.nodup_cons]
      refine ⟨?_, hlisted.nodup_sequences⟩
      intro hmem
      obtain ⟨e, he, hn⟩ := List.mem_filterMap.mp hmem
      have hle := (hlisted.sequence_pos he hn).2
      omega
  have hother : ∀ e, e ∈ as ∨ e ∈ bs → isReserved r (e.row deps) = false := by
    intro e he
    rw [← Bool.not_eq_true]
    simp only [isReserved, Bool.and_eq_true, decide_eq_true_eq, operationId_row]
    rintro ⟨⟨heq, -⟩, -⟩
    exact hlisted.ne_operation he heq
  have hself : isReserved r (Entry.row deps ⟨r, none⟩) = true := by
    simp [isReserved, Entry.row, preparedRow]
  have hone : s.attempts.countP (isReserved r) = 1 := by
    rw [h.rows, List.countP_map, List.countP_append, List.countP_cons,
      List.countP_eq_zero.mpr fun e he => by simpa using hother e (Or.inl he),
      List.countP_eq_zero.mpr fun e he => by simpa using hother e (Or.inr he), Function.comp_apply, hself]
    rfl
  refine ⟨⟨r.commitId deps, nextSequence s.attempts, r⟩,
    { s with attempts := s.attempts.map (commitRow deps r (nextSequence s.attempts)) },
    change_nil_of_ok ?_, rfl, rfl⟩
  dsimp only
  rw [hunique, if_neg (by simp), if_neg (by simp [hone])]

/-- A reserved request is completed unless it is stuck. -/
theorem complete_nil {wasReserved : Bool} (h : Sound deps profile s es) (he : ⟨r, none⟩ ∈ es)
    (hverifies : r.verifies deps bytes = true) (hclear : Clear s) (hfree : ¬ Stuck deps r s)
    (hname : ¬ Taken deps r s)
    (hnew : wasReserved = false → s.tree.files.lookup r.stagingPath = none ∧
      s.tree.files.lookup r.objectPath = none) :
    ∃ done s', complete deps r bytes wasReserved s [] = (.ok done, s', []) ∧ Clear s' := by
  have hvalid : r.valid = true := h.listed.valid _ he
  obtain ⟨s₁, hplace, hclear₁⟩ := placeFile_nil bytes h he hclear hfree hnew
  obtain ⟨-, hplaced⟩ := triple_placeFile he hvalid hverifies s [] h.during
  rw [hplace] at hplaced
  obtain ⟨hduring₁, hfile₁⟩ := hplaced () rfl
  obtain ⟨s₂, hsync, hclear₂⟩ := syncPublishDirs_nil r hclear₁
  obtain ⟨-, hsynced⟩ := triple_syncPublishDirs r s₁ [] ⟨hduring₁, hfile₁⟩
  rw [hsync] at hsynced
  obtain ⟨hduring₂, -⟩ := hsynced () rfl
  have hname₂ : ¬ Taken deps r s₂ := by
    unfold Taken at hname ⊢
    rw [hduring₂.sound.rows, ← h.rows]
    exact hname
  obtain ⟨done, s₃, hcommit, htree, hpoisoned⟩ := commit_nil hduring₂.sound he hname₂
  refine ⟨done, s₃, ?_, hpoisoned.trans hclear₂.1, by rw [htree]; exact hclear₂.2⟩
  unfold complete
  rw [bind_of_ok (checkpoint_nil _ _), bind_of_ok hplace, bind_of_ok (checkpoint_nil _ _), bind_of_ok hsync,
    bind_of_ok (checkpoint_nil _ _), bind_of_ok (available_nil hclear₂), bind_of_ok (checkpoint_nil _ _),
    bind_of_ok hcommit, bind_of_ok (checkpoint_nil _ _)]
  rfl

variable (bytes) in
/-- A stuck request is not, and what was left is left again. -/
theorem complete_of_stuck (hvalid : r.valid = true) (hstuck : Stuck deps r s) :
    ∃ s', complete deps r bytes true s [] = (.error .unresolvedPrepared, s', []) ∧
      s'.tree.files = s.tree.files ∧ s'.poisoned = s.poisoned := by
  obtain ⟨hobject, f, hf, hfails⟩ := hstuck
  obtain ⟨s₁, hmake, hfiles, hpoisoned⟩ := makeObjectDir_nil r s
  have hexists := existing_nil r.objectPath s₁
  rw [hfiles, hobject, Option.isSome_none] at hexists
  have hplace : placeFile deps r bytes true s [] = (.error .unresolvedPrepared, s₁, []) := by
    unfold placeFile
    rw [bind_of_ok hmake, bind_of_ok hexists, if_neg Bool.false_ne_true,
      bind_of_error (prepareFile_of_stuck hvalid (by rw [hfiles]; exact hf) hfails)]
  refine ⟨s₁, ?_, hfiles, hpoisoned⟩
  unfold complete
  rw [bind_of_ok (checkpoint_nil _ _), bind_of_error hplace]

/-! ## Staging -/

section Staging

variable {capture : Option (CaptureDescriptor × Text)}

/-- A request that is valid and verifies comes as far as its reservation. -/
theorem stageInternal_nil (h : Sound deps profile s es) (hclear : Clear s) (hvalid : r.valid = true)
    (hverifies : r.verifies deps bytes = true) :
    stageInternal deps r bytes capture s [] = (do
      rejectUnlessKnown r (recordsOf deps es)
      checkpoint "before_prepare"
      let reserved ← reserve deps r capture
      completeUnless deps r bytes reserved : Run LocalCommit) s [] := by
  have hvalidate : check r.validate s [] = (.ok (), s, []) := by
    rw [Interrupted.check_apply, Request.validate, if_pos hvalid]
  unfold stageInternal
  rw [bind_of_ok (available_nil hclear), bind_of_ok hvalidate, hverifies, if_neg (by simp),
    bind_of_ok (consistency_nil h hclear), bind_of_ok (records_nil h)]

/-- A request with a record is let through. -/
theorem rejectUnlessKnown_of_mem (he : e ∈ es) :
    rejectUnlessKnown e.request (recordsOf deps es) s [] = (.ok (), s, []) := by
  unfold rejectUnlessKnown
  rw [if_neg]
  · rfl
  · intro hall
    have hne := List.all_eq_true.mp hall _ (mem_recordsOf.mpr ⟨e, he, rfl⟩)
    simp at hne

/-- A request that is committed is answered with its commit. -/
theorem stageInternal_of_committed (h : Sound deps profile s es) (hclear : Clear s) {n : ℕ}
    (he : ⟨r, some n⟩ ∈ es) (hbound : verifyBound r capture s [] = (.ok (), s, []))
    (hverifies : r.verifies deps bytes = true) :
    stageInternal deps r bytes capture s [] = (.ok ⟨r.commitId deps, n, r⟩, s, []) := by
  rw [stageInternal_nil h hclear (h.listed.valid _ he) hverifies, bind_of_ok (rejectUnlessKnown_of_mem he),
    bind_of_ok (checkpoint_nil _ _), bind_of_ok (reserve_of_mem h he hbound)]
  rfl

/-- A request that is reserved is completed. -/
theorem stageInternal_of_reserved (h : Sound deps profile s es) (hclear : Clear s)
    (he : ⟨r, none⟩ ∈ es) (hbound : verifyBound r capture s [] = (.ok (), s, []))
    (hverifies : r.verifies deps bytes = true) :
    stageInternal deps r bytes capture s [] = complete deps r bytes true s [] := by
  rw [stageInternal_nil h hclear (h.listed.valid _ he) hverifies, bind_of_ok (rejectUnlessKnown_of_mem he),
    bind_of_ok (checkpoint_nil _ _), bind_of_ok (reserve_of_mem h he hbound)]
  rfl

/-- A request that shares with another is refused. -/
theorem stageInternal_of_shares (h : Sound deps profile s es) (hclear : Clear s) (hvalid : r.valid = true)
    (hverifies : r.verifies deps bytes = true) (he : e ∈ es) (hshares : Shares e.request r)
    (hne : e.request ≠ r) :
    stageInternal deps r bytes capture s [] = (.error .conflict, s, []) := by
  have hreject : rejectUnlessKnown r (recordsOf deps es) s [] = (.error .conflict, s, []) ∨
      rejectUnlessKnown r (recordsOf deps es) s [] = (.ok (), s, []) := by
    unfold rejectUnlessKnown
    split_ifs
    · exact rejectUnattributedFiles_nil r s
    · exact Or.inr rfl
  rw [stageInternal_nil h hclear hvalid hverifies]
  rcases hreject with hreject | hreject
  · exact bind_of_error hreject
  · rw [bind_of_ok hreject, bind_of_ok (checkpoint_nil _ _)]
    exact bind_of_error (reserve_of_shares h he hshares hne)

/-- No files are there for a request that shares nothing. -/
theorem Sound.lookup_of_apart (h : Sound deps profile s es) (hapart : ∀ e ∈ es, ¬ Shares e.request r) :
    s.tree.files.lookup r.stagingPath = none ∧ s.tree.files.lookup r.objectPath = none := by
  constructor
  · rcases hf : s.tree.files.lookup r.stagingPath with _ | f
    · rfl
    · obtain ⟨-, e, he, hattempt⟩ := h.kept.fits _ f hf
      exact absurd (Or.inr (Or.inl hattempt)) (hapart e he)
  · rcases hf : s.tree.files.lookup r.objectPath with _ | f
    · rfl
    · obtain ⟨-, e, he, hplace, -⟩ := h.exists_entry hf
      exact absurd (Or.inr (Or.inr ⟨congrArg Prod.fst hplace, congrArg Prod.snd hplace⟩)) (hapart e he)

/-- So is one that shares no name. -/
theorem rejectUnlessKnown_of_apart (h : Sound deps profile s es) (hapart : ∀ e ∈ es, ¬ Shares e.request r) :
    rejectUnlessKnown r (recordsOf deps es) s [] = (.ok (), s, []) := by
  obtain ⟨hstaging, hobject⟩ := h.lookup_of_apart hapart
  unfold rejectUnlessKnown
  split_ifs
  · exact rejectUnattributedFiles_of_none hstaging hobject
  · rfl

/-- Staging without room. -/
theorem stageInternal_of_full (h : Sound deps profile s es) (hclear : Clear s) (hvalid : r.valid = true)
    (hverifies : r.verifies deps bytes = true) (hapart : ∀ e ∈ es, ¬ Shares e.request r) (hfull : Full r s) :
    stageInternal deps r bytes capture s [] = (.error .capacity, s, []) := by
  rw [stageInternal_nil h hclear hvalid hverifies, bind_of_ok (rejectUnlessKnown_of_apart h hapart),
    bind_of_ok (checkpoint_nil _ _)]
  exact bind_of_error (reserve_of_full h hapart hfull)

/-- A new request is committed where there is room. -/
theorem stageInternal_of_apart (h : Sound deps profile s es) (hclear : Clear s) (hvalid : r.valid = true)
    (hround : RoundTrips deps r) (hbound : Bound profile capture) (hverifies : r.verifies deps bytes = true)
    (hapart : ∀ e ∈ es, ¬ Shares e.request r) (hroom : ¬ Full r s) (hbindable : Bindable r s capture)
    (hname : ¬ Taken deps r s) :
    ∃ done s', stageInternal deps r bytes capture s [] = (.ok done, s', []) ∧ Clear s' := by
  obtain ⟨hstaging, hobject⟩ := h.lookup_of_apart hapart
  obtain ⟨s₁, hreserve, htree, hpoisoned⟩ := reserve_of_apart h hvalid hapart hroom hbindable
  obtain ⟨-, hreserved⟩ := triple_reserve hvalid hround hbound s [] h.during
  rw [hreserve] at hreserved
  have hsound₁ : Sound deps profile s₁ (es ++ [⟨r, none⟩]) := by
    rcases hreserved _ rfl with ⟨hfalse, -⟩ | ⟨-, -, hduring⟩
    · cases hfalse
    · exact hduring.sound
  have hclear₁ : Clear s₁ := ⟨hpoisoned.trans hclear.1, by rw [htree]; exact hclear.2⟩
  have hfree : ¬ Stuck deps r s₁ := by
    rintro ⟨-, f, hf, -⟩
    rw [htree, hstaging] at hf
    cases hf
  have hname₁ : ¬ Taken deps r s₁ := by
    unfold Taken at hname ⊢
    rw [hsound₁.rows, List.map_append, List.filterMap_append, ← h.rows]
    simpa [Entry.row, preparedRow] using hname
  have hmem : (⟨r, none⟩ : Entry) ∈ es ++ [⟨r, none⟩] := List.mem_append_right _ (List.mem_singleton_self _)
  have hfiles : false = false → s₁.tree.files.lookup r.stagingPath = none ∧
      s₁.tree.files.lookup r.objectPath = none := by
    intro _
    rw [htree]
    exact ⟨hstaging, hobject⟩
  obtain ⟨done, s₂, hcomplete, hclear₂⟩ :=
    complete_nil hsound₁ hmem hverifies hclear₁ hfree hname₁ hfiles
  refine ⟨done, s₂, ?_, hclear₂⟩
  rw [stageInternal_nil h hclear hvalid hverifies, bind_of_ok (rejectUnlessKnown_of_apart h hapart),
    bind_of_ok (checkpoint_nil _ _), bind_of_ok hreserve]
  exact hcomplete

end Staging

/-! ## The law -/

/-- The call stages the request, with this binding. -/
inductive Stages (profile : Profile) : Call → Request → Bytes → Option (CaptureDescriptor × Text) → Prop
  | stage {r : Request} {bytes : Bytes} (hprofile : profile.capture = false) :
      Stages profile (.stage r bytes) r bytes none
  | stageCapture {d : CaptureDescriptor} {part : Text} {r : Request} {bytes : Bytes}
      (hprofile : profile.capture = true) (hallocation : allocation d profile.realm part r = .ok ())
      (htext : (fromUtf8 bytes).isSome = true) :
      Stages profile (.stageCapture d part r bytes) r bytes (some (d, part))

/-- The call reads the request, with this binding. -/
inductive Reads (profile : Profile) : Call → Request → Option (CaptureDescriptor × Text) → Prop
  | read {r : Request} (hprofile : profile.capture = false) : Reads profile (.read r) r none
  | readCapture {d : CaptureDescriptor} {part : Text} {r : Request} (hprofile : profile.capture = true)
      (hallocation : allocation d profile.realm part r = .ok ()) :
      Reads profile (.readCapture d part r) r (some (d, part))

/-- The next number. -/
def Next (deps : Deps) (s : State) (n : ℕ) : Prop := ∀ m, (∃ r, Committed deps s r m) ↔ 1 ≤ m ∧ m < n

/-- What staging a request answers when nothing fails. -/
structure StageLaw (deps : Deps) (s : State) (r : Request) (capture : Option (CaptureDescriptor × Text))
    (run : Except Error Answer × State × List Fault) : Prop where
  committed : ∀ n, Committed deps s r n → verifyBound r capture s [] = (.ok (), s, []) →
    run = (.ok (.staged ⟨r.commitId deps, n, r⟩), s, [])
  shared : ∀ r' commit, Records deps s r' commit → Shares r' r → r' ≠ r → run = (.error .conflict, s, [])
  stuck : Records deps s r none → verifyBound r capture s [] = (.ok (), s, []) → Stuck deps r s →
    ∃ s', run = (.error .unresolvedPrepared, s', []) ∧ Clear s' ∧ Stuck deps r s'
  resumed : Records deps s r none → verifyBound r capture s [] = (.ok (), s, []) → ¬ Stuck deps r s →
    ¬ Taken deps r s → ∃ n s', run = (.ok (.staged ⟨r.commitId deps, n, r⟩), s', []) ∧ Clear s' ∧ Next deps s n
  full : (∀ r' commit, Records deps s r' commit → ¬ Shares r' r) → Full r s → run = (.error .capacity, s, [])
  fresh : (∀ r' commit, Records deps s r' commit → ¬ Shares r' r) → ¬ Full r s → Bindable r s capture →
    ¬ Taken deps r s → ∃ n s', run = (.ok (.staged ⟨r.commitId deps, n, r⟩), s', []) ∧ Clear s' ∧ Next deps s n

/-- What reading a request answers when nothing fails. -/
structure ReadLaw (deps : Deps) (s : State) (r : Request) (run : Except Error Answer × State × List Fault) :
    Prop where
  committed : ∀ n, Committed deps s r n → ∃ f, s.tree.files.lookup r.objectPath = some f ∧
    run = (.ok (.bytes f.bytes), s, [])
  prepared : Records deps s r none → run = (.error .unresolvedPrepared, s, [])
  other : ∀ r' commit, Records deps s r' commit → r'.operationId = r.operationId → r' ≠ r →
    run = (.error .conflict, s, [])
  unknown : (∀ r' commit, Records deps s r' commit → r'.operationId ≠ r.operationId) →
    run = (.error .notFound, s, [])

/-- What calls answer when nothing fails in them. -/
structure RetryLaw (deps : Deps) (profile : Profile) (s : State) : Prop where
  /-- A root without the marker can be opened, whatever failed on the way. -/
  opens : s.tree.files.lookup .poison = none →
    opening deps profile [] s = { s with opened := true, poisoned := false }
  stages : Clear s → ∀ c r bytes capture, Stages profile c r bytes capture → RoundTrips deps r →
    r.valid = true → r.verifies deps bytes = true → StageLaw deps s r capture (exec deps profile c s [])
  reads : Clear s → ∀ c r capture, Reads profile c r capture → r.valid = true →
    verifyBound r capture s [] = (.ok (), s, []) → ReadLaw deps s r (exec deps profile c s [])

theorem map_of_ok {α β : Type} {m : Run α} {g : α → β} {a : α} (h : m s [] = (.ok a, s', [])) :
    (g <$> m) s [] = (.ok (g a), s', []) := by
  show (m >>= fun a => pure (g a)) s [] = _
  rw [bind_of_ok h]
  rfl

theorem map_of_error {α β : Type} {m : Run α} {g : α → β} {e : Error} (h : m s [] = (.error e, s', [])) :
    (g <$> m) s [] = (.error e, s', []) :=
  bind_of_error h

theorem Stages.bound {c : Call} {capture : Option (CaptureDescriptor × Text)}
    (h : Stages profile c r bytes capture) : Bound profile capture := by
  cases h with
  | stage hprofile => exact hprofile
  | stageCapture hprofile hallocation htext => exact ⟨hprofile, realm_of_allocation hallocation⟩

theorem Stages.staged {c : Call} {capture : Option (CaptureDescriptor × Text)}
    (h : Stages profile c r bytes capture) : c.staged = some (r, bytes) := by
  cases h <;> rfl

/-- A call that stages is a call of `stage_internal`. -/
theorem exec_of_stages {c : Call} {capture : Option (CaptureDescriptor × Text)}
    (h : Stages profile c r bytes capture) (s : State) :
    exec deps profile c s [] = (Answer.staged <$> stageInternal deps r bytes capture) s [] := by
  cases h with
  | stage hprofile =>
      have hstage : stage deps profile r bytes = stageInternal deps r bytes none := by
        unfold stage
        rw [hprofile, if_neg Bool.false_ne_true]
      show (Answer.staged <$> stage deps profile r bytes) s [] = _
      rw [hstage]
  | @stageCapture d part _ _ hprofile hallocation htext =>
      have htext' : ¬ (fromUtf8 bytes).isNone = true := by
        rw [Option.isNone_iff_eq_none, ← Ne, Option.ne_none_iff_isSome]
        exact htext
      have hstage : stageCapture deps profile d part r bytes s [] =
          stageInternal deps r bytes (some (d, part)) s [] := by
        unfold stageCapture
        rw [hprofile, if_pos rfl, hallocation, if_neg htext']
        rfl
      show (stageCapture deps profile d part r bytes >>= fun a => pure (Answer.staged a)) s [] =
        (stageInternal deps r bytes (some (d, part)) >>= fun a => pure (Answer.staged a)) s []
      rw [Interrupted.bind_apply, Interrupted.bind_apply, hstage]

/-- A call that reads answers with the bytes. -/
theorem exec_of_reads {c : Call} {capture : Option (CaptureDescriptor × Text)} (h : Reads profile c r capture)
    (hbound : verifyBound r capture s [] = (.ok (), s, [])) :
    exec deps profile c s [] = (Answer.bytes <$> readInternal deps r) s [] := by
  cases h with
  | read hprofile =>
      have hread : read deps profile r = readInternal deps r := by
        unfold read
        rw [hprofile, if_neg Bool.false_ne_true]
      show (Answer.bytes <$> read deps profile r) s [] = _
      rw [hread]
  | @readCapture d part _ hprofile hallocation =>
      have hverify : verifyCapture r d part s [] = (.ok (), s, []) := hbound
      have hread : readCapture deps profile d part r s [] = readInternal deps r s [] := by
        unfold readCapture
        rw [hprofile, if_pos rfl, hallocation]
        show (verifyCapture r d part >>= fun _ => readInternal deps r) s [] = _
        rw [bind_of_ok hverify]
      show (readCapture deps profile d part r >>= fun a => pure (Answer.bytes a)) s [] =
        (readInternal deps r >>= fun a => pure (Answer.bytes a)) s []
      rw [Interrupted.bind_apply, Interrupted.bind_apply, hread]

/-- An answer that a commit was made names the next number. -/
theorem Sound.exists_next (h : Sound deps profile s es) {c : Call} {capture : Option (CaptureDescriptor × Text)}
    (hstages : Stages profile c r bytes capture) (hround : RoundTrips deps r)
    (hnew : ∀ n, ¬ Committed deps s r n)
    (hanswer : ∃ done s', stageInternal deps r bytes capture s [] = (.ok done, s', []) ∧ Clear s') :
    ∃ n s', exec deps profile c s [] = (.ok (.staged ⟨r.commitId deps, n, r⟩), s', []) ∧ Clear s' ∧
      Next deps s n := by
  obtain ⟨done, s', hrun, hclear⟩ := hanswer
  have hexec : exec deps profile c s [] = (.ok (.staged done), s', []) := by
    rw [exec_of_stages hstages, map_of_ok hrun]
  have hrounds : ∀ r' bytes', c.staged = some (r', bytes') → RoundTrips deps r' := by
    intro r' bytes' hstaged
    rw [hstages.staged] at hstaged
    cases hstaged
    exact hround
  have hlaw := h.callLaw [] hrounds
  rw [hexec] at hlaw
  obtain ⟨r', bytes', hstaged, -, hdone, hcommitted⟩ := hlaw.staged done rfl
  rw [hstages.staged] at hstaged
  cases hstaged
  refine ⟨done.sequence, s', ?_, hclear, ?_⟩
  · rw [hexec, ← hdone]
  · rcases hlaw.next r done.sequence hcommitted with hold | ⟨-, hnext⟩
    · exact absurd hold (hnew _)
    · exact hnext

/-- A record without a commit is that of a prepared entry. -/
theorem Sound.mem_of_records_none (h : Sound deps profile s es) (hr : Records deps s r none) :
    (⟨r, none⟩ : Entry) ∈ es := by
  obtain ⟨e, he, rfl, hcommit⟩ := h.records_iff.mp hr
  have heq : e = ⟨e.request, none⟩ := by rw [← Option.map_eq_none_iff.mp hcommit]
  exact heq ▸ he

/-- **Staging**, when nothing fails. -/
theorem Sound.stageLaw (h : Sound deps profile s es) (hclear : Clear s) {c : Call}
    {capture : Option (CaptureDescriptor × Text)} (hstages : Stages profile c r bytes capture)
    (hround : RoundTrips deps r) (hvalid : r.valid = true) (hverifies : r.verifies deps bytes = true) :
    StageLaw deps s r capture (exec deps profile c s []) where
  committed n hr hbound := by
    rw [exec_of_stages hstages,
      map_of_ok (stageInternal_of_committed h hclear (h.committed_iff.mp hr) hbound hverifies)]
  shared r' commit hr hshares hne := by
    obtain ⟨e, he, rfl, -⟩ := h.records_iff.mp hr
    rw [exec_of_stages hstages, map_of_error (stageInternal_of_shares h hclear hvalid hverifies he hshares hne)]
  stuck hr hbound hstuck := by
    have he := h.mem_of_records_none hr
    obtain ⟨s', hrun, hfiles, hpoisoned⟩ := complete_of_stuck bytes hvalid hstuck
    refine ⟨s', ?_, ⟨hpoisoned.trans hclear.1, by rw [hfiles]; exact hclear.2⟩, ?_⟩
    · rw [exec_of_stages hstages, map_of_error]
      rw [stageInternal_of_reserved h hclear he hbound hverifies, hrun]
    · unfold Stuck at hstuck ⊢
      rw [hfiles]
      exact hstuck
  resumed hr hbound hfree hname := by
    have he := h.mem_of_records_none hr
    refine h.exists_next hstages hround ?_ ?_
    · intro n hcommitted
      have heq := h.listed.eq_of_operation (h.committed_iff.mp hcommitted) he rfl
      cases heq
    · rw [stageInternal_of_reserved h hclear he hbound hverifies]
      exact complete_nil h he hverifies hclear hfree hname (by intro hfalse; cases hfalse)
  full happart hfull := by
    have hentries : ∀ e ∈ es, ¬ Shares e.request r := fun e he =>
      happart _ _ (h.records_iff.mpr ⟨e, he, rfl, rfl⟩)
    rw [exec_of_stages hstages, map_of_error (stageInternal_of_full h hclear hvalid hverifies hentries hfull)]
  fresh happart hroom hbindable hname := by
    have hentries : ∀ e ∈ es, ¬ Shares e.request r := fun e he =>
      happart _ _ (h.records_iff.mpr ⟨e, he, rfl, rfl⟩)
    refine h.exists_next hstages hround ?_ ?_
    · intro n hcommitted
      exact hentries _ (h.committed_iff.mp hcommitted) (Or.inl rfl)
    · exact stageInternal_of_apart h hclear hvalid hround hstages.bound hverifies hentries hroom hbindable hname

/-- **Reading**, when nothing fails. -/
theorem Sound.readLaw (h : Sound deps profile s es) (hclear : Clear s) {c : Call}
    {capture : Option (CaptureDescriptor × Text)} (hreads : Reads profile c r capture)
    (hvalid : r.valid = true) (hbound : verifyBound r capture s [] = (.ok (), s, [])) :
    ReadLaw deps s r (exec deps profile c s []) where
  committed n hr := by
    obtain ⟨f, hf, hrun⟩ := (readInternal_of_mem h hclear (h.committed_iff.mp hr)).1 n rfl
    exact ⟨f, hf, by rw [exec_of_reads hreads hbound, map_of_ok hrun]⟩
  prepared hr := by
    rw [exec_of_reads hreads hbound, map_of_error ((readInternal_of_mem h hclear (h.mem_of_records_none hr)).2 rfl)]
  other r' commit hr hoperation hne := by
    obtain ⟨e, he, rfl, -⟩ := h.records_iff.mp hr
    rw [exec_of_reads hreads hbound, map_of_error (readInternal_of_other h hclear hvalid he hoperation hne)]
  unknown hnone := by
    have hentries : ∀ e ∈ es, e.request.operationId ≠ r.operationId := fun e he =>
      hnone _ _ (h.records_iff.mpr ⟨e, he, rfl, rfl⟩)
    rw [exec_of_reads hreads hbound, map_of_error (readInternal_of_none h hclear hvalid hentries)]

/-- **Calls in which nothing fails**, wherever a run leads. -/
theorem retryLaw (h : Reachable deps profile s) : RetryLaw deps profile s := by
  obtain ⟨es, hsound⟩ := exists_sound h
  refine ⟨?_, ?_, ?_⟩
  · intro hmarker
    have hstart : Sound deps profile { s with poisoned := false } es := (hsound.during.poisoned false).sound
    have hclear : Clear { s with poisoned := false } := ⟨rfl, hmarker⟩
    have hvalidate : validate { s with poisoned := false } [] = (.ok (), { s with poisoned := false }, []) := by
      unfold validate
      rw [observe_nil]
      show (if (s.tree.files.lookup .poison).isSome = true then _ else _, _) = _
      rw [hmarker]
      rfl
    have hbinding : verifyBinding profile { s with poisoned := false } [] =
        (.ok (), { s with poisoned := false }, []) := by
      unfold verifyBinding
      rw [observe_nil]
      rcases hprofile : profile.capture with _ | _
      · rfl
      · rw [hstart.bindingsAgree hprofile]
        rfl
    have hopen : openProfile deps profile { s with poisoned := false } [] =
        (.ok (), { s with poisoned := false }, []) := by
      unfold openProfile
      rw [bind_of_ok hvalidate, bind_of_ok hbinding, consistency_nil hstart hclear]
    unfold opening
    rw [hopen]
    rfl
  · intro hclear c r bytes capture hstages hround hvalid hverifies
    exact hsound.stageLaw hclear hstages hround hvalid hverifies
  · intro hclear c r capture hreads hvalid hbound
    exact hsound.readLaw hclear hreads hvalid hbound

/-- A step after the reservation fails: the attempt stays prepared. -/
theorem retryLaw_note : RetryLaw noteDeps noteProfile (noteState (List.replicate 14 none ++ [some 0])) ∧
    (noteState (List.replicate 14 none ++ [some 0])).attempts.map AttemptRow.sequence = [none] :=
  ⟨retryLaw (reachable_noteState _), by decide +kernel⟩

end DiskArcana.Provider
