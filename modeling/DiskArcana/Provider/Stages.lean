import DiskArcana.Provider.Steps

/-!
# The stages of a call

The reads of a call see the records of the entries (`triple_records`) and leave everything but the marker as
it is. A staged request is reserved as a new entry (`triple_reserve`), its file is placed
(`triple_placeFile`), the directories are synced (`triple_syncPublishDirs`), and the entry gets the next
number (`triple_commit`). `Advances` is what a call does to the entries.
-/

namespace DiskArcana.Provider

open DiskArcana.Lib DiskArcana.Accounts
open DiskArcana.Lib.Interrupted (Fault Prog Triple check attempt observe change)
open DiskArcana.Personal (CaptureDescriptor identifier digest field maxCounter)

variable {deps : Deps} {profile : Profile} {s₀ s : State} {es : List Entry} {r : Request}
  {p : BlobPath} {f : SyncedFile BlobPath}

/-! ## Reads -/

theorem triple_records : Triple (During deps profile s₀ es) (records deps)
    (fun rs s => During deps profile s₀ es s ∧ rs = recordsOf deps es) (During deps profile s₀ es) := by
  refine Triple.bind (Q := fun _ => During deps profile s₀ es)
    (Triple.observe (fun _ hs => hs) fun _ _ hs _ => hs) fun count => ?_
  split_ifs
  · exact triple_refuse (fun _ hs => hs) _
  · refine Triple.bind (Q := fun rows s => During deps profile s₀ es s ∧
      rows.mapM (recordOf deps) = .ok (recordsOf deps es)) (Triple.observe (fun _ hs => hs) ?_) ?_
    · intro s rows hs hrows
      cases hrows
      exact ⟨hs, hs.sound.mapM_recordOf⟩
    · intro rows
      refine Triple.check (fun _ hs => hs.1) ?_
      intro s rs hs hrs
      rw [hs.2] at hrs
      cases hrs
      exact ⟨hs.1, rfl⟩

/-- The bytes of an object's file are those of its entry, and not longer than what is read. -/
theorem Sound.exists_entry (h : Sound deps profile s es) {o v : Text}
    (hf : s.tree.files.lookup (.object o v) = some f) :
    f.bytes.take (maxBlob + 1) = f.bytes ∧
      ∃ e ∈ es, e.place = (o, v) ∧ e.request.verifies deps f.bytes = true := by
  obtain ⟨-, -, e, he, hplace, -, hverifies⟩ := h.kept.fits _ f hf
  have hlength : f.bytes.length = e.request.expectedLen := by
    simp only [Request.verifies, Bool.and_eq_true, decide_eq_true_eq] at hverifies
    exact hverifies.1.1
  have hlimit := (Request.valid_iff.mp (h.listed.valid e he)).2.1.trans (Kind.limit_le _)
  exact ⟨List.take_of_length_le (by omega), e, he, hplace, hverifies⟩

/-- What is read of an object is the file. -/
theorem triple_durableBytes (r : Request) : Triple (During deps profile s₀ es) (durableBytes deps r)
    (fun bytes s => During deps profile s₀ es s ∧
      ∃ f, s.tree.files.lookup r.objectPath = some f ∧ f.bytes = bytes)
    (During deps profile s₀ es) := by
  refine Triple.bind (triple_openObjectDir (fun _ hs => hs) r) fun _ => ?_
  refine Triple.bind (triple_existing (fun _ hs => hs) _) fun b => ?_
  split_ifs with hb
  · refine (triple_verifiedBytes (fun _ hs => hs.1) _ r).mono (fun _ hs => hs) ?_
    rintro bytes s ⟨⟨hs, hb'⟩, -, hbytes⟩
    obtain ⟨f, hf⟩ := Option.isSome_iff_exists.mp (hb'.symm.trans hb)
    rw [hf] at hbytes
    exact ⟨hs, f, hf, ((hs.sound.exists_entry hf).1.symm.trans hbytes.symm)⟩
  · exact triple_refuse (fun _ hs => hs.1) _

theorem triple_consistencyOf (rs : List Record) : Triple (During deps profile s₀ es)
    (consistencyOf deps rs) (fun _ => During deps profile s₀ es) (During deps profile s₀ es) := by
  induction rs with
  | nil => exact Triple.pure (fun _ hs => hs) fun _ hs => hs
  | cons record rest ih =>
      unfold consistencyOf
      split_ifs
      · refine Triple.bind (triple_durableBytes record.request).attempt ?_
        rintro (e | bytes)
        · exact triple_poison.mono (fun _ hs => hs.1) fun _ _ hs => hs
        · exact ih.mono (fun _ hs => hs.1) fun _ _ hs => hs
      · exact ih

theorem triple_consistency : Triple (During deps profile s₀ es) (consistency deps)
    (fun _ => During deps profile s₀ es) (During deps profile s₀ es) := by
  refine Triple.bind (triple_available fun _ hs => hs) fun _ => ?_
  refine Triple.bind triple_records.attempt ?_
  rintro (e | rs)
  · exact triple_poison.mono (fun _ hs => hs.1) fun _ _ hs => hs
  · exact (triple_consistencyOf rs).mono (fun _ hs => hs.1) fun _ _ hs => hs

theorem triple_rejectUnattributedFiles (r : Request) : Triple (During deps profile s₀ es)
    (rejectUnattributedFiles r) (fun _ => During deps profile s₀ es) (During deps profile s₀ es) := by
  refine Triple.bind (triple_existing (fun _ hs => hs) _) fun b => ?_
  split_ifs
  · exact triple_refuse (fun _ hs => hs.1) _
  · refine Triple.bind (Q := fun _ => During deps profile s₀ es) ?_ ?_
    · exact (triple_openObjectDir (fun _ hs => hs) r).attempt.mono (fun _ hs => hs.1) fun _ _ hs => hs.1
    · rintro (e | u)
      · cases e with
        | ioNotFound => exact Triple.pure (fun _ hs => hs) fun _ hs => hs
        | _ => exact triple_refuse (fun _ hs => hs) _
      · refine Triple.bind (triple_existing (fun _ hs => hs) _) fun b => ?_
        split_ifs
        · exact triple_refuse (fun _ hs => hs.1) _
        · exact Triple.pure (fun _ hs => hs.1) fun _ hs => hs.1

theorem triple_rejectUnlessKnown (r : Request) (prior : List Record) : Triple (During deps profile s₀ es)
    (rejectUnlessKnown r prior) (fun _ => During deps profile s₀ es) (During deps profile s₀ es) := by
  unfold rejectUnlessKnown
  split_ifs
  · exact triple_rejectUnattributedFiles r
  · exact Triple.pure (fun _ hs => hs) fun _ hs => hs

/-! ## The reservation -/

theorem triple_verifyBound (r : Request) (capture : Option (CaptureDescriptor × Text)) :
    Triple (During deps profile s₀ es) (verifyBound r capture)
      (fun _ => During deps profile s₀ es) (During deps profile s₀ es) := by
  rcases capture with _ | ⟨d, part⟩
  · exact Triple.pure (fun _ hs => hs) fun _ hs => hs
  · exact Triple.observe (fun _ hs => hs) fun _ _ hs _ => hs

/-- A commit is found only with a record of the request. -/
theorem triple_reserveAmong (r : Request) (capture : Option (CaptureDescriptor × Text)) (rs : List Record) :
    Triple (During deps profile s₀ es) (reserveAmong r capture rs)
      (fun found s => During deps profile s₀ es s ∧
        ∀ commit, found = some commit → (⟨r, commit⟩ : Record) ∈ rs)
      (During deps profile s₀ es) := by
  induction rs with
  | nil => exact Triple.pure (fun _ hs => hs) fun _ hs => ⟨hs, fun _ h => by cases h⟩
  | cons record rest ih =>
      unfold reserveAmong
      split_ifs with hoperation hrequest hclash
      · exact triple_refuse (fun _ hs => hs) _
      · refine Triple.bind (triple_verifyBound r capture) fun _ => ?_
        refine Triple.pure (fun _ hs => hs) ?_
        intro s hs
        refine ⟨hs, ?_⟩
        intro commit hcommit
        cases hcommit
        rw [not_not] at hrequest
        rw [← hrequest]
        exact List.mem_cons_self
      · exact triple_refuse (fun _ hs => hs) _
      · refine ih.mono (fun _ hs => hs) ?_
        rintro found s ⟨hs, hfound⟩
        exact ⟨hs, fun commit hcommit => List.mem_cons_of_mem _ (hfound commit hcommit)⟩

/-- A row that the constraints accept is a new entry. -/
theorem Listed.reserve (h : Listed deps es) (hvalid : r.valid = true) (hround : RoundTrips deps r)
    (haccepts : acceptsRow (es.map (Entry.row deps)) (preparedRow r) = true)
    (hfew : es.length < maxRecords)
    (hsmall : (es.map fun e => e.request.expectedLen).sum + r.expectedLen ≤ maxReservedBytes) :
    Listed deps (es ++ [⟨r, none⟩]) := by
  have hapart : ∀ e ∈ es, e.request.operationId ≠ r.operationId ∧ e.request.attemptId ≠ r.attemptId ∧
      e.place ≠ (r.objectId, r.revisionId) := by
    intro e he
    simp only [acceptsRow, Bool.and_eq_true, List.all_eq_true, List.mem_map, forall_exists_index, and_imp,
      forall_apply_eq_imp_iff₂] at haccepts
    have hrow := haccepts.2 e he
    simp only [decide_eq_true_eq, Bool.not_eq_true', Bool.and_eq_false_iff, decide_eq_false_iff_not] at hrow
    rw [operationId_row, attemptId_row, objectId_row, revisionId_row] at hrow
    refine ⟨hrow.1.1, hrow.1.2, ?_⟩
    intro hplace
    rcases hrow.2 with hobject | hrevision
    · exact hobject (congrArg Prod.fst hplace)
    · exact hrevision (congrArg Prod.snd hplace)
  have hnodup : ∀ {β : Type} (key : Entry → β), (es.map key).Nodup →
      (∀ e ∈ es, key e ≠ key ⟨r, none⟩) → ((es ++ [(⟨r, none⟩ : Entry)]).map key).Nodup := by
    intro β key hnodup hne
    rw [List.map_append, List.map_singleton, ← List.concat_eq_append, List.nodup_concat]
    refine ⟨?_, hnodup⟩
    intro hmem
    obtain ⟨e, he, hkey⟩ := List.mem_map.mp hmem
    exact hne e he hkey
  refine ⟨?_, ?_, hnodup _ h.operations fun e he => (hapart e he).1,
    hnodup _ h.attempts fun e he => (hapart e he).2.1, hnodup _ h.places fun e he => (hapart e he).2.2,
    ?_, ?_, ?_, ?_⟩
  · rw [List.forall_mem_append]
    exact ⟨h.valid, by simpa using hvalid⟩
  · rw [List.forall_mem_append]
    exact ⟨h.round, by simpa using hround⟩
  · rw [List.filterMap_append, List.filterMap_cons_none rfl, List.filterMap_nil, List.append_nil]
    exact h.sequences
  · rw [List.filterMap_append, List.filterMap_cons_none rfl, List.filterMap_nil, List.append_nil]
    exact h.names
  · rw [List.length_append, List.length_singleton]
    omega
  · rw [List.map_append, List.map_singleton, List.sum_append, List.sum_singleton]
    exact hsmall

/-- What a call does to the entries: nothing, a new entry, or the next number for its entry. -/
inductive Advances (r : Request) (es : List Entry) : List Entry → Prop
  | same : Advances r es es
  | reserved : Advances r es (es ++ [⟨r, none⟩])
  | committed (as bs : List Entry)
      (h : as ++ ⟨r, none⟩ :: bs = es ∨ as ++ ⟨r, none⟩ :: bs = es ++ [⟨r, none⟩]) :
      Advances r es (as ++ ⟨r, some ((es.filterMap Entry.sequence).length + 1)⟩ :: bs)

variable (deps profile s₀) in
/-- A call about the request has gone so far. -/
def Underway (r : Request) (es : List Entry) (s : State) : Prop :=
  ∃ es', Advances r es es' ∧ During deps profile s₀ es' s

theorem During.underway (h : During deps profile s₀ es s) : Underway deps profile s₀ r es s :=
  ⟨es, .same, h⟩

theorem underway_of_triple {α : Type} {P : State → Prop} {m : Run α} {Q : α → State → Prop} {es' : List Entry}
    (h : Triple P m Q (During deps profile s₀ es')) (hes : Advances r es es') :
    Triple P m Q (Underway deps profile s₀ r es) := by
  intro s fs hs
  obtain ⟨hA, hQ⟩ := h s fs hs
  exact ⟨⟨es', hes, hA⟩, hQ⟩

/-- The request of a capture is bound to the realm of the root. -/
def Bound (profile : Profile) : Option (CaptureDescriptor × Text) → Prop
  | none => profile.capture = false
  | some (d, _) => profile.capture = true ∧ d.realmId.1 = profile.realm

/-- The transaction of a reservation. -/
theorem During.insertAttempt {capture : Option (CaptureDescriptor × Text)} {s' : State} {u : Unit}
    (h : During deps profile s₀ es s) (hvalid : r.valid = true) (hround : RoundTrips deps r)
    (hbound : Bound profile capture) (hfew : es.length < maxRecords)
    (hsmall : (es.map fun e => e.request.expectedLen).sum + r.expectedLen ≤ maxReservedBytes)
    (hok : Provider.insertAttempt r capture s = .ok (u, s')) :
    During deps profile s₀ (es ++ [⟨r, none⟩]) s' := by
  unfold Provider.insertAttempt at hok
  split_ifs at hok with haccepts
  rw [h.sound.rows] at haccepts
  have hlisted := h.sound.listed.reserve hvalid hround haccepts hfew hsmall
  have hrows : s.attempts ++ [preparedRow r] = (es ++ [(⟨r, none⟩ : Entry)]).map (Entry.row deps) := by
    rw [List.map_append, ← h.sound.rows]
    rfl
  have hkept : Kept deps (es ++ [⟨r, none⟩]) s.tree := by
    constructor
    · intro p f hf
      exact (h.sound.kept.fits p f hf).mono fun e he => ⟨e, List.mem_append_left _ he, rfl⟩
    · intro e he hsome
      rcases List.mem_append.mp he with he | he
      · exact h.sound.kept.durable e he hsome
      · rw [List.mem_singleton.mp he] at hsome
        cases hsome
  have hbindings := h.sound.bindings
  rcases capture with _ | ⟨d, part⟩
  · cases hok
    have hprofile : profile.capture = false := hbound
    refine ⟨⟨hrows, hlisted, hkept, ?_, h.sound.realm⟩, h.stay, h.dirs⟩
    rw [hprofile] at hbindings ⊢
    exact hbindings
  · dsimp only at hok
    split_ifs at hok
    cases hok
    obtain ⟨hprofile, hrealm⟩ := hbound
    refine ⟨⟨hrows, hlisted, hkept, ?_, ?_⟩, h.stay, h.dirs⟩
    · rw [hprofile, if_pos rfl] at hbindings
      rw [hprofile, if_pos rfl, List.map_append, List.map_append, hbindings]
      rfl
    · rw [List.forall_mem_append]
      refine ⟨h.sound.realm, ?_⟩
      rw [List.forall_mem_singleton]
      exact hrealm

/-- A record that was there is one of an entry; otherwise the request is a new entry. -/
theorem triple_reserve {capture : Option (CaptureDescriptor × Text)} (hvalid : r.valid = true)
    (hround : RoundTrips deps r) (hbound : Bound profile capture) :
    Triple (During deps profile s₀ es) (reserve deps r capture)
      (fun answer s =>
        (answer.1 = true ∧ During deps profile s₀ es s ∧
          ∃ e ∈ es, e.request = r ∧ e.commit deps = answer.2) ∨
        answer.1 = false ∧ answer.2 = none ∧ During deps profile s₀ (es ++ [⟨r, none⟩]) s)
      (Underway deps profile s₀ r es) := by
  refine Triple.bind (underway_of_triple triple_records .same) fun rs => ?_
  refine Triple.bind (Q := fun found s => During deps profile s₀ es s ∧ rs = recordsOf deps es ∧
    ∀ commit, found = some commit → (⟨r, commit⟩ : Record) ∈ rs) ?_ ?_
  · intro s fs hs
    obtain ⟨hA, hQ⟩ := triple_reserveAmong r capture rs s fs hs.1
    refine ⟨hA.underway, ?_⟩
    intro found hfound
    exact ⟨(hQ found hfound).1, hs.2, (hQ found hfound).2⟩
  · rintro (_ | commit)
    · dsimp only
      split_ifs with hfull
      · exact triple_refuse (fun _ hs => hs.1.underway) _
      · rw [not_or, Nat.not_le, Nat.not_lt] at hfull
        refine Triple.bind (Q := fun _ s => During deps profile s₀ (es ++ [⟨r, none⟩]) s) ?_ fun _ => ?_
        · refine Triple.change (fun _ hs => hs.1.underway) ?_
          rintro s u s' ⟨hs, hrs, -⟩ hok
          have hlength : rs.length = es.length := by
            rw [hrs, (perm_recordsOf deps es).length_eq, List.length_map]
          have hsum : (rs.map fun record => record.request.expectedLen).sum =
              (es.map fun e => e.request.expectedLen).sum := by
            rw [hrs, ((perm_recordsOf deps es).map _).sum_nat, List.map_map]
            rfl
          rw [hlength, hsum] at hfull
          have hnew := hs.insertAttempt hvalid hround hbound hfull.1 hfull.2 hok
          exact ⟨⟨_, .reserved, hnew⟩, hnew⟩
        · refine Triple.pure (fun _ hs => ⟨_, .reserved, hs⟩) ?_
          intro s hs
          exact Or.inr ⟨rfl, rfl, hs⟩
    · refine Triple.pure (fun _ hs => hs.1.underway) ?_
      rintro s ⟨hs, hrs, hfound⟩
      have hmem := hfound commit rfl
      rw [hrs, mem_recordsOf] at hmem
      obtain ⟨e, he, hrecord⟩ := hmem
      exact Or.inl ⟨rfl, hs, e, he, congrArg Record.request hrecord, congrArg Record.committed hrecord⟩

/-! ## The file -/

theorem triple_makeObjectDir (r : Request) : Triple (During deps profile s₀ es) (makeObjectDir r)
    (fun _ s => During deps profile s₀ es s ∧ s.tree.hasDir r.objectId = true)
    (During deps profile s₀ es) := by
  have hopen : Triple (During deps profile s₀ es) (openObjectDir r)
      (fun _ s => During deps profile s₀ es s ∧ s.tree.hasDir r.objectId = true)
      (During deps profile s₀ es) := by
    refine Triple.observe (fun _ hs => hs) ?_
    intro s u hs hok
    split_ifs at hok with hdir
    exact ⟨hs, hdir⟩
  refine Triple.bind (Q := fun _ => During deps profile s₀ es) ?_ fun made => ?_
  · refine Triple.change (fun _ hs => hs) ?_
    intro s made s' hs hok
    split_ifs at hok with hdir
    · cases hok
      exact ⟨hs, hs⟩
    · cases hok
      have hmade := hs.onTree (hs.sound.kept.makeDir (Bool.not_eq_true _ ▸ hdir))
        (fun o v f hf => ⟨f, hf, rfl⟩) fun o ho => by
          rw [SyncedTree.hasDir_makeDir, ho, Bool.or_true]
      exact ⟨hmade, hmade⟩
  · split_ifs
    · exact Triple.bind triple_syncObjects fun _ => hopen
    · exact hopen

/-- What a prepared file is like. -/
def Prepared (deps : Deps) (r : Request) (s : State) : Prop :=
  ∃ f, s.tree.files.lookup r.stagingPath = some f ∧ f.flushed = true ∧ r.verifies deps f.bytes = true

/-- A file that was verified is the file as a whole. -/
theorem Request.verifies_of_take {bytes : Bytes} (hvalid : r.valid = true)
    (h : r.verifies deps (bytes.take (maxBlob + 1)) = true) : bytes.take (maxBlob + 1) = bytes := by
  simp only [verifies, Bool.and_eq_true, decide_eq_true_eq, List.length_take] at h
  have hlimit := (valid_iff.mp hvalid).2.1.trans (Kind.limit_le _)
  apply List.take_of_length_le
  omega

theorem triple_prepareFile {bytes : Bytes} {wasReserved : Bool} (he : ⟨r, none⟩ ∈ es)
    (hvalid : r.valid = true) (hverifies : r.verifies deps bytes = true) :
    Triple (During deps profile s₀ es) (prepareFile deps r bytes wasReserved)
      (fun _ s => During deps profile s₀ es s ∧ Prepared deps r s) (During deps profile s₀ es) := by
  have hp : r.stagingPath.dirOf = none := rfl
  refine Triple.bind (triple_existing (fun _ hs => hs) _) fun b => ?_
  split_ifs with hb hreserved
  · refine Triple.bind (triple_verifiedBytes (fun _ hs => hs.1) _ r) fun stored => ?_
    intro s fs hs
    obtain ⟨⟨hduring, hb'⟩, hstored, rfl⟩ := hs
    obtain ⟨f, hf⟩ := Option.isSome_iff_exists.mp (hb'.symm.trans hb)
    rw [hf, Option.map_some, Option.getD_some] at hstored
    have hwhole : r.verifies deps f.bytes = true := Request.verifies_of_take hvalid hstored ▸ hstored
    have hrest : Triple (fun s => During deps profile s₀ es s ∧ s.tree.files.lookup r.stagingPath = some f)
        (do
          checkpoint "before_file_sync"
          syncFile r.stagingPath
          checkpoint "after_file_sync")
        (fun _ s => During deps profile s₀ es s ∧ Prepared deps r s) (During deps profile s₀ es) := by
      refine Triple.bind (triple_checkpoint (fun _ hs => hs.1) _) fun _ => ?_
      refine Triple.bind (triple_syncFile _) fun _ => ?_
      refine (triple_checkpoint (fun _ hs => hs.1) _).mono (fun _ hs => hs) ?_
      rintro u s ⟨hs, hlookup⟩
      exact ⟨hs, _, hlookup, rfl, hwhole⟩
    exact hrest s fs ⟨hduring, hf⟩
  · exact triple_refuse (fun _ hs => hs.1) _
  · have hfits : ∀ tree, Fits deps es tree r.stagingPath ⟨[], r.stagingPath, false, false⟩ :=
      fun tree => ⟨rfl, ⟨r, none⟩, he, rfl⟩
    refine Triple.bind ((triple_createNew hp hfits).mono (fun _ hs => hs.1) fun _ _ hs => hs) fun _ => ?_
    refine Triple.bind (triple_checkpoint (fun _ hs => hs.1) _) fun _ => ?_
    refine Triple.bind (triple_checkpoint (fun _ hs => hs.1) _) fun _ => ?_
    refine Triple.bind (triple_writeAll hp _) fun _ => ?_
    refine Triple.bind (triple_checkpoint (fun _ hs => hs.1) _) fun _ => ?_
    refine Triple.bind (triple_writeAll hp _) fun _ => ?_
    refine Triple.bind (triple_checkpoint (fun _ hs => hs.1) _) fun _ => ?_
    refine Triple.bind (triple_checkpoint (fun _ hs => hs.1) _) fun _ => ?_
    refine Triple.bind (triple_syncFile _) fun _ => ?_
    refine (triple_checkpoint (fun _ hs => hs.1) _).mono (fun _ hs => hs) ?_
    rintro u s ⟨hs, hlookup⟩
    refine ⟨hs, _, hlookup, rfl, ?_⟩
    show r.verifies deps ([] ++ bytes.take 4096 ++ bytes.drop 4096) = true
    rw [List.nil_append, List.take_append_drop]
    exact hverifies

/-- The file gets its final name. -/
theorem triple_publish (he : ⟨r, none⟩ ∈ es) :
    Triple (fun s => During deps profile s₀ es s ∧ Prepared deps r s ∧ s.tree.hasDir r.objectId = true)
      (publish r)
      (fun _ s => During deps profile s₀ es s ∧ ∃ f, s.tree.files.lookup r.objectPath = some f)
      (During deps profile s₀ es) := by
  refine Triple.change (fun _ hs => hs.1) ?_
  rintro s u s' ⟨hs, ⟨f, hf, hflushed, hverifies⟩, hdir⟩ hok
  rcases hrename : SyncedFiles.rename r.stagingPath r.objectPath s.tree.files with _ | files
  · rw [hrename] at hok
    cases hok
  · rw [hrename] at hok
    cases hok
    have hkept := hs.sound.kept.rename he hrename hdir hf hflushed hverifies
    obtain ⟨g, -, hfree, hlookup⟩ := SyncedFiles.rename_eq_some hrename
    have hnew := hs.onTree hkept (fun o v f' hf' => by
      have hobject : BlobPath.object o v ≠ r.objectPath := by
        intro heq
        rw [heq, hfree] at hf'
        cases hf'
      have hstaging : BlobPath.object o v ≠ r.stagingPath := by
        intro heq
        cases heq
      exact ⟨f', by rw [hlookup, if_neg hobject, if_neg hstaging, hf'], rfl⟩) fun _ ho => ho
    exact ⟨hnew, hnew, _, (hlookup _).trans (if_pos rfl)⟩

theorem triple_placeFile {bytes : Bytes} {wasReserved : Bool} (he : ⟨r, none⟩ ∈ es)
    (hvalid : r.valid = true) (hverifies : r.verifies deps bytes = true) :
    Triple (During deps profile s₀ es) (placeFile deps r bytes wasReserved)
      (fun _ s => During deps profile s₀ es s ∧ ∃ f, s.tree.files.lookup r.objectPath = some f)
      (During deps profile s₀ es) := by
  refine Triple.bind (triple_makeObjectDir r) fun _ => ?_
  refine Triple.bind (triple_existing (fun _ hs => hs.1) _) fun b => ?_
  split_ifs with hb hreserved
  · intro s fs hs
    obtain ⟨⟨hduring, -⟩, hb'⟩ := hs
    obtain ⟨f, hf⟩ := Option.isSome_iff_exists.mp (hb'.symm.trans hb)
    have hrest : Triple (fun s => During deps profile s₀ es s ∧ s.tree.files.lookup r.objectPath = some f)
        (do
          let _ ← verifiedBytes deps r.objectPath r
          checkpoint "before_file_sync"
          syncFile r.objectPath)
        (fun _ s => During deps profile s₀ es s ∧ ∃ f, s.tree.files.lookup r.objectPath = some f)
        (During deps profile s₀ es) := by
      refine Triple.bind (triple_verifiedBytes (fun _ hs => hs.1) _ r) fun _ => ?_
      refine Triple.bind (triple_checkpoint (fun _ hs => hs.1.1) _) fun _ => ?_
      exact (triple_syncFile _).mono (fun _ hs => hs.1) fun _ _ hs => ⟨hs.1, _, hs.2⟩
    exact hrest s fs ⟨hduring, hf⟩
  · exact triple_refuse (fun _ hs => hs.1.1) _
  -- The directory that is there stays while the file is prepared.
  · intro s fs hs
    obtain ⟨⟨hduring, hdir⟩, -⟩ := hs
    have hrest : Triple (During deps profile s es)
        (do
          prepareFile deps r bytes wasReserved
          checkpoint "before_rename"
          publish r
          checkpoint "after_rename")
        (fun _ s' => During deps profile s es s' ∧ ∃ f, s'.tree.files.lookup r.objectPath = some f)
        (During deps profile s es) := by
      refine Triple.bind (triple_prepareFile he hvalid hverifies) fun _ => ?_
      refine Triple.bind (triple_checkpoint (fun _ hs => hs.1) _) fun _ => ?_
      refine Triple.bind ((triple_publish he).mono ?_ fun _ _ hs => hs) fun _ => ?_
      · rintro s' ⟨hs', hprepared⟩
        exact ⟨hs', hprepared, hs'.dirs _ hdir⟩
      · exact triple_checkpoint (fun _ hs => hs.1) _
    obtain ⟨hA, hQ⟩ := hrest s fs hduring.sound.during
    exact ⟨hduring.trans hA, fun v hv => ⟨hduring.trans (hQ v hv).1, (hQ v hv).2⟩⟩

/-! ## The directories and the commit -/

/-- The file and its name are on disk. -/
def OnDisk (r : Request) (s : State) : Prop :=
  ∃ f, s.tree.files.lookup r.objectPath = some f ∧ s.tree.Linked BlobPath.dirOf r.objectPath f

theorem triple_syncPublishDirs (r : Request) :
    Triple (fun s => During deps profile s₀ es s ∧ ∃ f, s.tree.files.lookup r.objectPath = some f)
      (syncPublishDirs r) (fun _ s => During deps profile s₀ es s ∧ OnDisk r s)
      (During deps profile s₀ es) := by
  intro s fs hs
  obtain ⟨hduring, f, hf⟩ := hs
  have hrest : Triple (fun s => During deps profile s₀ es s ∧ s.tree.files.lookup r.objectPath = some f)
      (syncPublishDirs r) (fun _ s => During deps profile s₀ es s ∧ OnDisk r s)
      (During deps profile s₀ es) := by
    refine Triple.bind (triple_checkpoint (fun _ hs => hs.1) _) fun _ => ?_
    refine Triple.bind (triple_syncDir _) fun _ => ?_
    refine Triple.bind (triple_checkpoint (fun _ hs => hs.1) _) fun _ => ?_
    refine Triple.bind (triple_syncDir _) fun _ => ?_
    refine Triple.bind (triple_checkpoint (fun _ hs => hs.1) _) fun _ => ?_
    refine Triple.bind (Q := fun _ s => During deps profile s₀ es s ∧ OnDisk r s) ?_ fun _ => ?_
    · refine Triple.change (fun _ hs => hs.1) ?_
      rintro s u s' ⟨hs, hlookup⟩ hok
      cases hok
      have hnew := hs.onTree hs.sound.kept.linkDirs (fun o v f hf => ⟨f, hf, rfl⟩) fun o ho => by
        rw [SyncedTree.hasDir_linkDirs, ho]
      refine ⟨hnew, hnew, _, hlookup, ?_, ?_⟩
      · simp [isIn, Request.objectPath]
      · intro d hd
        cases hd
        have hdir : s.tree.hasDir r.objectId = true := (hs.sound.kept.fits _ _ hlookup).1
        obtain ⟨b, hb⟩ := Option.isSome_iff_exists.mp hdir
        show s.tree.linkDirs.dirs.lookup r.objectId = some true
        rw [SyncedTree.lookup_linkDirs, hb]
        rfl
    · refine Triple.bind (triple_checkpoint (fun _ hs => hs.1) _) fun _ => ?_
      refine Triple.change (fun _ hs => hs.1) ?_
      rintro s u s' ⟨hs, g, hg, hlinked, hdirs⟩ hok
      cases hok
      refine ⟨hs.link isPoison, hs.link isPoison, { g with linked := g.linked || isPoison r.objectPath }, ?_, ?_⟩
      · show (SyncedFiles.link isPoison s.tree.files).lookup r.objectPath = _
        rw [SyncedFiles.lookup_link, hg]
        rfl
      · refine ⟨?_, hdirs⟩
        show (g.linked || isPoison r.objectPath) = true
        rw [hlinked, Bool.true_or]
  exact hrest s fs ⟨hduring, hf⟩

theorem foldl_max_range' (k : ℕ) : (List.range' 1 k).foldl max 0 = k := by
  induction k with
  | zero => rfl
  | succ k ih =>
      rw [List.range'_concat, List.foldl_append, ih]
      simp only [List.foldl_cons, List.foldl_nil]
      omega

/-- The next number is one more than there are commits. -/
theorem Listed.nextSequence (h : Listed deps es) :
    Provider.nextSequence (es.map (Entry.row deps)) = (es.filterMap Entry.sequence).length + 1 := by
  have hsame : (es.map (Entry.row deps)).filterMap AttemptRow.sequence = es.filterMap Entry.sequence := by
    rw [List.filterMap_map]
    refine List.filterMap_congr fun e _ => ?_
    exact sequence_row
  unfold Provider.nextSequence
  rw [hsame, h.sequences.foldl_eq 0, foldl_max_range']

section Commit

variable {as bs : List Entry} {n : ℕ}

/-- The entry of the request is the only one with its operation. -/
theorem Listed.ne_operation (h : Listed deps (as ++ ⟨r, none⟩ :: bs)) {e : Entry} (he : e ∈ as ∨ e ∈ bs) :
    e.request.operationId ≠ r.operationId := by
  have hnodup := h.operations
  rw [List.map_append, List.map_cons, List.nodup_append] at hnodup
  obtain ⟨-, hcons, hapart⟩ := hnodup
  rcases he with he | he
  · exact hapart _ (List.mem_map_of_mem he) _ List.mem_cons_self
  · intro heq
    exact (List.nodup_cons.mp hcons).1 (heq ▸ List.mem_map_of_mem he)

theorem Listed.commitRow (h : Listed deps (as ++ ⟨r, none⟩ :: bs)) :
    ((as ++ ⟨r, none⟩ :: bs).map (Entry.row deps)).map (Provider.commitRow deps r n) =
      (as ++ ⟨r, some n⟩ :: bs).map (Entry.row deps) := by
  have hother : ∀ e, e ∈ as ∨ e ∈ bs → Provider.commitRow deps r n (e.row deps) = e.row deps := by
    intro e he
    unfold Provider.commitRow
    rw [if_neg]
    simp only [isReserved, Bool.and_eq_true, decide_eq_true_eq, operationId_row]
    rintro ⟨⟨heq, -⟩, -⟩
    exact h.ne_operation he heq
  have hself : Provider.commitRow deps r n (Entry.row deps ⟨r, none⟩) = Entry.row deps ⟨r, some n⟩ := by
    simp [Provider.commitRow, isReserved, Entry.row, preparedRow]
  rw [List.map_map, List.map_append, List.map_append, List.map_cons, List.map_cons]
  congr 1
  · exact List.map_congr_left fun e he => hother e (Or.inl he)
  · rw [Function.comp_apply, hself]
    congr 1
    exact List.map_congr_left fun e he => hother e (Or.inr he)

/-- What is read off the requests does not change. -/
theorem map_commit {β : Type} (g : Request → β) :
    (as ++ ⟨r, some n⟩ :: bs).map (fun e => g e.request) =
      (as ++ ⟨r, none⟩ :: bs).map (fun e => g e.request) := by
  rw [List.map_append, List.map_append, List.map_cons, List.map_cons]

theorem Listed.commit (h : Listed deps (as ++ ⟨r, none⟩ :: bs))
    (hn : n = ((as ++ ⟨r, none⟩ :: bs).filterMap Entry.sequence).length + 1)
    (hnames : ((as ++ ⟨r, some n⟩ :: bs).filterMap
      fun e => (e.commit deps).map LocalCommit.localCommitId).Nodup) :
    Listed deps (as ++ ⟨r, some n⟩ :: bs) := by
  have hmem : ∀ P : Request → Prop, (∀ e ∈ as ++ ⟨r, none⟩ :: bs, P e.request) →
      ∀ e ∈ as ++ ⟨r, some n⟩ :: bs, P e.request := by
    intro P hP e he
    simp only [List.mem_append, List.mem_cons] at he hP
    rcases he with he | rfl | he
    · exact hP e (Or.inl he)
    · exact hP ⟨r, none⟩ (Or.inr (Or.inl rfl))
    · exact hP e (Or.inr (Or.inr he))
  refine ⟨hmem (fun r => r.valid = true) h.valid, hmem (RoundTrips deps) h.round, ?_, ?_, ?_, ?_, hnames, ?_, ?_⟩
  · rw [map_commit Request.operationId]
    exact h.operations
  · rw [map_commit Request.attemptId]
    exact h.attempts
  · have hplaces := h.places
    unfold Entry.place at hplaces ⊢
    rw [map_commit fun r => (r.objectId, r.revisionId)]
    exact hplaces
  · have hnone : (as ++ ⟨r, none⟩ :: bs).filterMap Entry.sequence =
        as.filterMap Entry.sequence ++ bs.filterMap Entry.sequence := by
      rw [List.filterMap_append, List.filterMap_cons_none rfl]
    have hsome : ((as ++ ⟨r, some n⟩ :: bs).filterMap Entry.sequence).Perm
        (n :: (as ++ ⟨r, none⟩ :: bs).filterMap Entry.sequence) := by
      rw [hnone, List.filterMap_append]
      exact List.perm_middle
    have hlength := hsome.length_eq
    rw [List.length_cons, ← hn] at hlength
    rw [hlength]
    refine hsome.trans ((h.sequences.cons n).trans ?_)
    rw [hn, List.range'_concat, Nat.one_mul, Nat.add_comm 1]
    exact (List.perm_append_singleton _ _).symm
  · have hfew := h.few
    rw [List.length_append, List.length_cons] at hfew ⊢
    exact hfew
  · rw [map_commit Request.expectedLen]
    exact h.small

theorem Kept.commit {tree : SyncedTree BlobPath Text} (h : Kept deps (as ++ ⟨r, none⟩ :: bs) tree)
    (hdisk : ∃ f, tree.files.lookup r.objectPath = some f ∧ tree.Linked BlobPath.dirOf r.objectPath f) :
    Kept deps (as ++ ⟨r, some n⟩ :: bs) tree := by
  constructor
  · intro p f hf
    refine (h.fits p f hf).mono ?_
    intro e he
    simp only [List.mem_append, List.mem_cons] at he ⊢
    rcases he with he | rfl | he
    · exact ⟨e, Or.inl he, rfl⟩
    · exact ⟨⟨r, some n⟩, Or.inr (Or.inl rfl), rfl⟩
    · exact ⟨e, Or.inr (Or.inr he), rfl⟩
  · intro e he hsome
    simp only [List.mem_append, List.mem_cons] at he
    rcases he with he | rfl | he
    · exact h.durable e (List.mem_append_left _ he) hsome
    · exact hdisk
    · exact h.durable e (List.mem_append_right _ (List.mem_cons_of_mem _ he)) hsome

/-- The entry of a file that is on disk gets the next number. -/
theorem triple_commit :
    Triple (fun s => During deps profile s₀ (as ++ ⟨r, none⟩ :: bs) s ∧ OnDisk r s) (commit deps r)
      (fun done s =>
        done = ⟨r.commitId deps, ((as ++ ⟨r, none⟩ :: bs).filterMap Entry.sequence).length + 1, r⟩ ∧
        During deps profile s₀ (as ++ ⟨r, some done.sequence⟩ :: bs) s)
      (fun s => During deps profile s₀ (as ++ ⟨r, none⟩ :: bs) s ∨
        During deps profile s₀ (as ++
          ⟨r, some (((as ++ ⟨r, none⟩ :: bs).filterMap Entry.sequence).length + 1)⟩ :: bs) s) := by
  refine Triple.change (fun _ hs => Or.inl hs.1) ?_
  rintro s done s' ⟨hs, hdisk⟩ hok
  have hlisted := hs.sound.listed
  dsimp only at hok
  split_ifs at hok with hunique hone
  cases hok
  have hsequence : nextSequence s.attempts =
      ((as ++ ⟨r, none⟩ :: bs).filterMap Entry.sequence).length + 1 := by
    rw [hs.sound.rows, hlisted.nextSequence]
  have hrows : s.attempts.map (commitRow deps r (nextSequence s.attempts)) =
      (as ++ ⟨r, some (nextSequence s.attempts)⟩ :: bs).map (Entry.row deps) := by
    rw [hs.sound.rows]
    exact hlisted.commitRow
  have hnames : ((as ++ ⟨r, some (nextSequence s.attempts)⟩ :: bs).filterMap
      fun e => (e.commit deps).map LocalCommit.localCommitId).Nodup := by
    rw [hrows, Bool.not_eq_true', Bool.not_eq_false, uniqueColumns, Bool.and_eq_true, decide_eq_true_eq,
      filterMap_localCommitId] at hunique
    exact hunique.1
  have hnew : During deps profile s₀ (as ++ ⟨r, some (nextSequence s.attempts)⟩ :: bs)
      { s with attempts := s.attempts.map (commitRow deps r (nextSequence s.attempts)) } := by
    refine ⟨⟨hrows, hlisted.commit hsequence hnames, hs.sound.kept.commit hdisk, ?_, hs.sound.realm⟩,
      hs.stay, hs.dirs⟩
    rw [map_commit Request.operationId]
    exact hs.sound.bindings
  exact ⟨Or.inr (hsequence ▸ hnew), by rw [hsequence], hnew⟩

end Commit

end DiskArcana.Provider
