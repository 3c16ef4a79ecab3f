import DiskArcana.Hosting.Stream
import DiskArcana.Acl.Reload
import DiskArcana.Publisher.Verifier

/-!
# The publisher gate

With publisher verification enabled, a publisher should be able to change a share only with a proof
that the verifier accepted for this share, path and content. `delta_upload` takes the proof from the
first message and verifies it when there is one; without one it goes on to the commit. And the bytes
of a rejected publisher stay where they were spooled, in the share, and are copied below `.quarantine`
under a name made of the share, which is the caller's to choose.

The gate is complete for a stream exactly when no chunk of it gets to the spool, and either it is
refused in any case or its first message carries a proof and its quarantine is not in the share
(`gateComplete_iff`).
-/

namespace DiskArcana.Hosting

open DiskArcana.Core DiskArcana.Lib DiskArcana.Lib.LexicalPath DiskArcana.Server DiskArcana.Acl
open DiskArcana.Publisher

/-- A message of an upload stream, with the proof it may carry.
Source: `proto/disk.proto`, `DeltaUploadRequest` -/
structure PublishMessage extends StreamMessage where
  publisherProof : Option PublisherSignatureProof

/-- What a caller with a certificate sends: the share it names, the selective-sync list of its node,
and its stream. -/
structure Publishing where
  certFp : CertFingerprint
  share : String
  includes : List String
  messages : List (Except String PublishMessage)

/-- What the server answers with: the access list, the verifier (`none` when it is not compiled in or
not configured), and everything else an upload depends on. -/
structure GateAnswers where
  enforcer : Option AclState
  verifier : Option VerifyEnv
  upload : UploadRequest

/-! ## Roles -/

/-- Source: `services/sync.rs`, `resolved_role` -/
def resolvedRole (enforcer : Option AclState) (certId : Option CertFingerprint) (share : String) :
    Option EnforcedRole := do
  let state ← enforcer
  let fp ← certId
  (state.resolve fp share).toOption

/-- The check of the access list. Without an enforcer or a certificate there is none.
Source: `services/sync.rs`, `check_acl_by_cert` -/
def checkAclByCert (enforcer : Option AclState) (certId : Option CertFingerprint) (share : String)
    (allowedRoles : List EnforcedRole) : Except String Unit :=
  match enforcer, certId with
  | some state, some fp =>
      match state.resolve fp share with
      | .ok role => if role ∈ allowedRoles then .ok () else .error "ACL role mismatch"
      | .error (.shareUnknown s _) => .error s!"share unknown: {s}; retry after ACL provisioning"
      | .error (.unavailable _) => .error "ACL enforcer unhealthy"
  | _, _ => .ok ()

section

variable (keyError : Digest → Option String) (ed25519 : Digest → Bytes → Bytes → Bool)
variable (blake3 : Bytes → Digest) (cfg : HostConfig)

/-! ## The gate -/

/-- The stream without its proofs. -/
def Publishing.stream (p : Publishing) : List (Except String StreamMessage) :=
  p.messages.map fun m => m.map PublishMessage.toStreamMessage

/-- The upload that the stream asks for, before its publisher is verified. -/
def Publishing.request (p : Publishing) (ans : GateAnswers) : UploadRequest :=
  { ans.upload with
    share := p.share
    includes := p.includes
    stream := p.stream
    fingerprint := String.ofList ((hexEncode p.certFp.toList).take 16)
    admitted :=
      match ans.upload.admitted with
      | .error e => .error e
      | .ok () => checkAclByCert ans.enforcer (some p.certFp) p.share writeRoles }

/-- The proof of the first message, the only one that is looked at.
Source: `services/sync.rs`, `delta_upload` -/
def Publishing.firstProof (p : Publishing) : Option PublisherSignatureProof :=
  match p.messages with
  | .ok m :: _ => m.publisherProof
  | _ => none

/-- The publisher verification gate: the verdict on the upload, and the tables of the verifier.
Source: `services/sync.rs`, `delta_upload` (publisher verification gate) -/
def publisherGate (pdb : PublisherDb) (p : Publishing) (ans : GateAnswers) :
    Except String Unit × PublisherDb :=
  match ans.verifier, p.firstProof, gateInput blake3 cfg (p.request ans) with
  | some env, some proof, some (a, spool) =>
      match Publisher.verify keyError ed25519 pdb env proof p.certFp p.share
          ⟨a.path, blake3 (spool.getD [])⟩ with
      | (.ok (), pdb) => (.ok (), pdb)
      | (.error e, pdb) => (.error e.toText, pdb)
  | _, _, _ => (.ok (), pdb)

/-- Receive an upload stream, verify its publisher and commit it.
Source: `services/sync.rs`, `delta_upload` -/
def publish (h : Host) (pdb : PublisherDb) (p : Publishing) (ans : GateAnswers) :
    Except String Digest × Host × PublisherDb :=
  let (verdict, pdb) := publisherGate keyError ed25519 blake3 cfg pdb p ans
  let (answer, h) := deltaUpload blake3 cfg h { p.request ans with publisher := verdict }
  (answer, h, pdb)

/-! ## The law -/

/-- A file of the share other than those in quarantine has changed, or its temporary files have, or
some table has. -/
def ChangesShare (share : String) (h h' : Host) : Prop :=
  (∃ loc, cfg.rootFor share <+: loc ∧ ¬ cfg.syncRoot ++ [".quarantine"] <+: loc ∧
      h'.files.lookup loc ≠ h.files.lookup loc) ∨
    h'.temps ≠ h.temps ∨ h'.db ≠ h.db

/-- The path the stream is about: that of its first message. -/
def Publishing.path (p : Publishing) : String :=
  match p.messages with
  | .ok m :: _ => m.path
  | _ => ""

/-- The bytes that messages carry. -/
def carried (messages : List PublishMessage) : Bytes :=
  messages.flatMap fun m => m.chunks.flatMap DeltaChunk.data

/-- The content of the stream. -/
def Publishing.content (p : Publishing) : Bytes :=
  carried (p.messages.filterMap Except.toOption)

/-- The stream carries a proof that the verifier accepts for its share, path and content. -/
def Proven (pdb : PublisherDb) (env : VerifyEnv) (p : Publishing) : Prop :=
  ∃ m proof, .ok m ∈ p.messages ∧ m.publisherProof = some proof ∧
    (Publisher.verify keyError ed25519 pdb env proof p.certFp p.share
      ⟨p.path, blake3 p.content⟩).1 = .ok ()

/-- Whatever the server holds and answers, as long as the verifier is enabled and the caller is a
publisher: the stream changes the share only if it is proven. -/
def GateComplete (p : Publishing) : Prop :=
  ∀ h pdb ans env, ans.verifier = some env →
    resolvedRole ans.enforcer (some p.certFp) p.share = some .publisher →
      ChangesShare cfg p.share h (publish keyError ed25519 blake3 cfg h pdb p ans).2.1 →
        Proven keyError ed25519 blake3 pdb env p

/-- A chunk of the stream gets to the spool: its first message names a path in the selective-sync list
that passes the guard, and the first chunk, which arrives, has its hash. -/
structure Spools (p : Publishing) : Prop where
  included : pathMatchesIncludes p.path p.includes = true
  guard : ∃ target, pathGuard (cfg.rootFor p.share) p.path = .ok target
  chunk : ∃ chunk, firstChunk p.stream = some chunk ∧ chunkOk blake3 chunk = true

/-- A stream that is not refused for what it is: its messages arrive, the first names a path in the
selective-sync list that passes the guard, every chunk has its hash, and so has the whole. -/
structure Acceptable (p : Publishing) (first : PublishMessage) (rest : List PublishMessage) :
    Prop where
  messages : p.messages = .ok first :: rest.map .ok
  included : pathMatchesIncludes first.path p.includes = true
  guard : ∃ target, pathGuard (cfg.rootFor p.share) first.path = .ok target
  chunks : ∀ m ∈ first :: rest, ∀ c ∈ m.chunks, chunkOk blake3 c = true
  hash : first.contentHash = [] ∨ first.contentHash = (blake3 p.content).toList

/-- Where the bytes go if the publisher is rejected. -/
def Publishing.quarantine (p : Publishing) (path : String) : List String :=
  resolve (resolve (resolve (cfg.syncRoot ++ [".quarantine"]) (components p.share))
    [String.ofList ((hexEncode p.certFp.toList).take 16)]) (components path)

/-- The quarantine of the stream is a place in the share. -/
def Strays (p : Publishing) (path : String) : Prop :=
  cfg.rootFor p.share <+: p.quarantine cfg path ∧
    ¬ cfg.syncRoot ++ [".quarantine"] <+: p.quarantine cfg path

theorem quarantineLoc_request (p : Publishing) (ans : GateAnswers) (verdict : Except String Unit)
    (path : String) :
    quarantineLoc cfg { p.request ans with publisher := verdict } path = p.quarantine cfg path :=
  rfl

/-! ## Reading the stream -/

variable {blake3 cfg}

/-- After its first message, a stream that is read to its end has arrived whole. -/
theorem of_receiveStream {r : UploadRequest} {a : Announced} {spool spool' : Option Bytes}
    {messages : List (Except String PublishMessage)} {x : Option Announced}
    (h : receiveStream blake3 cfg r (some a) spool
      (messages.map fun m => m.map PublishMessage.toStreamMessage) = .ok (x, spool')) :
    x = some a ∧ ∃ msgs, messages = msgs.map .ok ∧
      (∀ m ∈ msgs, ∀ c ∈ m.chunks, chunkOk blake3 c = true) ∧
        spool'.getD [] = spool.getD [] ++ carried msgs := by
  induction messages generalizing spool with
  | nil =>
      cases h
      exact ⟨rfl, [], rfl, by simp, by simp [carried]⟩
  | cons m messages ih =>
      cases m with
      | error e => cases h
      | ok m =>
          simp only [List.map_cons, Except.map, receiveStream] at h
          split at h
          · cases h
          · rename_i spool₁ hchunks
            obtain ⟨hok, hspool₁⟩ := of_receiveChunks hchunks
            obtain ⟨hx, msgs, hmsgs, hoks, hspool⟩ := ih h
            refine ⟨hx, m :: msgs, by rw [hmsgs, List.map_cons], ?_, ?_⟩
            · intro m' hm'
              rcases List.mem_cons.mp hm' with rfl | hm'
              · exact hok
              · exact hoks m' hm'
            · rw [hspool, hspool₁, carried, carried, List.flatMap_cons, List.append_assoc]

/-- A stream that is read to its end, from its first message on. -/
theorem of_receiveStream_none {r : UploadRequest} {a : Announced} {spool : Option Bytes}
    {messages : List (Except String PublishMessage)}
    (h : receiveStream blake3 cfg r none none
      (messages.map fun m => m.map PublishMessage.toStreamMessage) = .ok (some a, spool)) :
    ∃ first rest, messages = .ok first :: rest.map .ok ∧
      pathMatchesIncludes first.path r.includes = true ∧
      (∃ target, pathGuard (cfg.rootFor r.share) first.path = .ok target) ∧
      (∀ m ∈ first :: rest, ∀ c ∈ m.chunks, chunkOk blake3 c = true) ∧
      a = ⟨first.path, first.contentHash⟩ ∧ spool.getD [] = carried (first :: rest) := by
  cases messages with
  | nil => cases h
  | cons m messages =>
      cases m with
      | error e => cases h
      | ok m =>
          simp only [List.map_cons, Except.map, receiveStream] at h
          split at h
          · cases h
          · rename_i b hb
            split at h
            · cases h
            · rename_i spool₁ hchunks
              obtain ⟨hok, hspool₁⟩ := of_receiveChunks hchunks
              obtain ⟨hx, msgs, hmsgs, hoks, hspool⟩ := of_receiveStream h
              cases hx
              obtain ⟨hincluded, hguard, rfl⟩ := announce_eq_ok_iff.mp hb
              refine ⟨m, msgs, by rw [hmsgs], hincluded, hguard, ?_, rfl, ?_⟩
              · intro m' hm'
                rcases List.mem_cons.mp hm' with rfl | hm'
                · exact hok
                · exact hoks m' hm'
              · rw [hspool, hspool₁, carried, carried, List.flatMap_cons]
                rfl

/-- With room on disk, messages that arrive with good chunks are read to the end. -/
theorem exists_receiveStream (cfg : HostConfig) {r : UploadRequest} (hcreate : r.spoolOk = true)
    (happend : ∀ bytes, r.appendOk bytes = true) (a : Announced) (spool : Option Bytes)
    {msgs : List PublishMessage} (hok : ∀ m ∈ msgs, ∀ c ∈ m.chunks, chunkOk blake3 c = true) :
    ∃ spool', receiveStream blake3 cfg r (some a) spool
      ((msgs.map Except.ok).map fun m => m.map PublishMessage.toStreamMessage) =
        .ok (some a, spool') := by
  induction msgs generalizing spool with
  | nil => exact ⟨spool, rfl⟩
  | cons m msgs ih =>
      obtain ⟨spool₁, h₁⟩ := exists_receiveChunks hcreate happend spool (hok m List.mem_cons_self)
      obtain ⟨spool', hspool'⟩ := ih spool₁ (fun m' hm' => hok m' (List.mem_cons_of_mem _ hm'))
      refine ⟨spool', ?_⟩
      simp only [List.map_cons, Except.map, receiveStream, h₁]
      exact hspool'

/-- The path of a stream is the one that its first message announces. -/
theorem path_of_stream {p : Publishing} {m : StreamMessage} {rest : List (Except String StreamMessage)}
    (h : p.stream = .ok m :: rest) : p.path = m.path := by
  obtain ⟨certFp, share, includes, messages⟩ := p
  rcases messages with _ | ⟨e | first, messages⟩
  · exact nomatch h
  · exact nomatch h
  · cases h
    rfl

/-- **When a stream is spooled**, on a server that can create the spool. -/
theorem spoolOf_request_iff (p : Publishing) (ans : GateAnswers) (verdict : Except String Unit) :
    spoolOf (receiveStream blake3 cfg { p.request ans with publisher := verdict } none none
      p.stream) ≠ none ↔ ans.upload.spoolOk = true ∧ Spools blake3 cfg p := by
  rw [(sameStream_publisher (p.request ans) verdict).receiveStream, spoolOf_receiveStream_iff]
  refine and_congr_right fun _ => ?_
  constructor
  · rintro ⟨⟨m, rest, a, hm, hannounce⟩, hchunk⟩
    obtain ⟨hincluded, hguard, -⟩ := announce_eq_ok_iff.mp hannounce
    rw [← path_of_stream hm] at hincluded hguard
    exact ⟨hincluded, hguard, hchunk⟩
  · rintro ⟨hincluded, hguard, chunk, hchunk, hok⟩
    obtain ⟨m, rest, hm⟩ := of_firstChunk hchunk
    rw [path_of_stream hm] at hincluded hguard
    exact ⟨⟨m, rest, _, hm, announce_eq_ok_iff.mpr ⟨hincluded, hguard, rfl⟩⟩, chunk, hchunk, hok⟩

/-! ## Necessary and sufficient -/

/-- A stream that is received is acceptable. -/
theorem acceptable_of_received {p : Publishing} {ans : GateAnswers} {verdict : Except String Unit}
    {a : Announced} {spool : Option Bytes}
    (h : Received blake3 cfg { p.request ans with publisher := verdict } a spool) :
    ∃ first rest, Acceptable blake3 cfg p first rest ∧ a.path = p.path ∧ a.path = first.path ∧
      p.firstProof = first.publisherProof ∧ spool.getD [] = p.content := by
  have hstream := h.stream
  rw [(sameStream_publisher _ _).receiveStream] at hstream
  obtain ⟨first, rest, hmsgs, hincluded, hguard, hok, rfl, hcontent⟩ := of_receiveStream_none hstream
  have hbytes : p.content = carried (first :: rest) := by
    rw [Publishing.content, hmsgs]
    simp [Except.toOption, List.filterMap_map, Function.comp_def]
  refine ⟨first, rest, ⟨hmsgs, hincluded, hguard, hok, ?_⟩, ?_, rfl, ?_, ?_⟩
  · rw [hbytes, ← hcontent]
    exact h.hash
  · rw [Publishing.path, hmsgs]
  · rw [Publishing.firstProof, hmsgs]
  · rw [hcontent, hbytes]

/-- An upload that commits without trouble writes its row. -/
theorem deltaUpload_db_of_commits {r : UploadRequest} {a : Announced} {spool : Option Bytes}
    {target : List String} (hc : Commits blake3 cfg r a spool target) (hdir : r.dirOk = true)
    (hstage : r.stageOk = true) (hsync : r.stageSyncOk = true) (hrename : r.renameOk = true)
    (hopen : r.dbOk = true) (h : Host) :
    (deltaUpload blake3 cfg h r).2.db = (recordRow blake3 cfg h r target (spool.getD [])).db := by
  obtain ⟨hr, ⟨u, hpub⟩, ⟨v, hquota⟩, hguard⟩ := hc
  have hcommit : ∃ h', commit blake3 cfg (staged cfg h r spool) r (some a) spool =
      (.ok (), recordRow blake3 cfg h' r target (spool.getD [])) ∧ h'.db = h.db := by
    have harchive : (archive cfg (staged cfg h r spool) r.scope (dbKey a.path) target
        r.archiveOk).db = h.db := archive_db _ _ _ _ _
    cases spool with
    | none =>
        simp only [commit, hguard, hdir, stageEmpty, hstage, hsync, hrename, hopen, Bool.not_true,
          if_false, if_true, Bool.false_eq_true]
        exact ⟨_, rfl, harchive⟩
    | some bytes =>
        simp only [commit, hguard, hdir, stageEmpty, hrename, hopen, Bool.not_true, if_false, if_true,
          Bool.false_eq_true]
        exact ⟨_, rfl, harchive⟩
  obtain ⟨h', hcommit, hdb⟩ := hcommit
  rw [deltaUpload_of_received hr, hpub, hquota, hcommit]
  cases r.usage with
  | error e => exact recordRow_db blake3 cfg hdb r target _
  | ok w => exact recordRow_db blake3 cfg hdb r target _

variable {keyError ed25519} {p : Publishing} {ans : GateAnswers} {pdb : PublisherDb} {env : VerifyEnv}
  {first : PublishMessage} {rest : List PublishMessage}

/-- The verdict on a stream that gets to the gate with a proof is the verifier's. -/
theorem publisherGate_of_proof {proof : PublisherSignatureProof} {a : Announced}
    {spool : Option Bytes} (henv : ans.verifier = some env) (hproof : p.firstProof = some proof)
    (hinput : gateInput blake3 cfg (p.request ans) = some (a, spool)) :
    (∃ u, (publisherGate keyError ed25519 blake3 cfg pdb p ans).1 = .ok u) ↔
      (Publisher.verify keyError ed25519 pdb env proof p.certFp p.share
        ⟨a.path, blake3 (spool.getD [])⟩).1 = .ok () := by
  unfold publisherGate
  rw [henv, hproof, hinput]
  dsimp only
  rcases hverify : Publisher.verify keyError ed25519 pdb env proof p.certFp p.share
    ⟨a.path, blake3 (spool.getD [])⟩ with ⟨e | ⟨⟩, pdb'⟩
  · simp
  · simp

/-- Without a proof there is nothing to verify. -/
theorem publisherGate_of_none (hproof : p.firstProof = none) :
    (publisherGate keyError ed25519 blake3 cfg pdb p ans).1 = .ok () := by
  unfold publisherGate
  rw [hproof]
  cases ans.verifier <;> rfl

/-- A commit under the condition is proven. -/
theorem proven_of_commits {a : Announced} {spool : Option Bytes} {target : List String}
    (henv : ans.verifier = some env)
    (hcond : ∀ first rest, Acceptable blake3 cfg p first rest → first.publisherProof ≠ none)
    (hc : Commits blake3 cfg { p.request ans with
      publisher := (publisherGate keyError ed25519 blake3 cfg pdb p ans).1 } a spool target) :
    Proven keyError ed25519 blake3 pdb env p := by
  obtain ⟨first, rest, hacc, hpath, -, hfirst, hcontent⟩ := acceptable_of_received hc.toReceived
  obtain ⟨proof, hproof⟩ := Option.ne_none_iff_exists'.mp (hcond first rest hacc)
  rw [hproof] at hfirst
  have hverify := (publisherGate_of_proof henv hfirst
    ((gateInput_eq_some_iff (sameStream_publisher _ _)).mpr hc.toReceived)).mp hc.publisher
  rw [hpath, hcontent] at hverify
  refine ⟨first, proof, ?_, hproof, hverify⟩
  rw [hacc.messages]
  exact List.mem_cons_self

/-- The gate is complete for a stream under the condition. -/
theorem gateComplete_of (hnospool : ¬ Spools blake3 cfg p)
    (hcond : ∀ first rest, Acceptable blake3 cfg p first rest →
      first.publisherProof ≠ none ∧ ¬ Strays cfg p first.path) :
    GateComplete keyError ed25519 blake3 cfg p := by
  intro h pdb ans env henv _ hchange
  have hproofs : ∀ first rest, Acceptable blake3 cfg p first rest → first.publisherProof ≠ none :=
    fun first rest hacc => (hcond first rest hacc).1
  obtain ⟨o, hreached, hends⟩ := exists_outcome blake3 cfg { p.request ans with
    publisher := (publisherGate keyError ed25519 blake3 cfg pdb p ans).1 }
  have hend := hends h
  change ChangesShare cfg p.share h (deltaUpload blake3 cfg h { p.request ans with
    publisher := (publisherGate keyError ed25519 blake3 cfg pdb p ans).1 }).2 at hchange
  by_cases htemps : (deltaUpload blake3 cfg h { p.request ans with
    publisher := (publisherGate keyError ed25519 blake3 cfg pdb p ans).1 }).2.temps = h.temps
  swap
  · -- nothing is spooled, so the temporary file is that of an empty upload
    have hspool := not_imp_comm.mp (spoolOf_request_iff p ans
      (publisherGate keyError ed25519 blake3 cfg pdb p ans).1).mp (fun h => hnospool h.2)
    obtain ⟨a, target, hc⟩ := commits_of_deltaUpload_temps hspool htemps
    exact proven_of_commits henv hproofs hc
  unfold ChangesShare at hchange
  rw [hend.files, hend.db, or_iff_right (not_not.mpr htemps)] at hchange
  cases o with
  | nothing =>
      rcases hchange with ⟨loc, -, -, hne⟩ | hne
      · exact absurd rfl hne
      · exact absurd rfl hne
  | quarantined a spool =>
      obtain ⟨first, rest, hacc, -, hpath, -, -⟩ := acceptable_of_received hreached.toReceived
      rcases hchange with ⟨loc, hroot, hout, hne⟩ | hne
      · -- the only file that is written lies in the share, though not in the quarantine
        simp only [UploadOutcome.files, quarantineLoc_request] at hne
        rw [Table.lookup_insert_eq_ite] at hne
        split at hne
        · rename_i hloc
          rw [hloc, hpath] at hroot hout
          exact absurd ⟨hroot, hout⟩ (hcond first rest hacc).2
        · exact absurd rfl hne
      · exact absurd rfl hne
  | archived a spool target => exact proven_of_commits henv hproofs hreached
  | unrecorded a spool target => exact proven_of_commits henv hproofs hreached
  | recorded a spool target => exact proven_of_commits henv hproofs hreached

/-! ## When the condition fails -/

/-- A verifier whose table of keys cannot be read: it rejects every proof. -/
def closedVerifier : VerifyEnv where
  nowMs := 0
  keyRead := .error "database is locked"
  fetchPubkey := fun _ => .error (.keyFetchFailed "unreachable")
  keyWriteOk := false
  counterRead := .ok ()
  counterWrite := .ok ()

theorem verify_closedVerifier (pdb : PublisherDb) (proof : PublisherSignatureProof)
    (certFp : CertFingerprint) (share : String) (file : PublishedFile) :
    (Publisher.verify keyError ed25519 pdb closedVerifier proof certFp share file).1 =
      .error (.db "database is locked") := rfl

/-- A server where the caller is a publisher and everything but the verifier works. -/
def openAnswers (p : Publishing) : GateAnswers where
  enforcer := some (.loaded ((EnforcementTable.new 1).insert p.certFp p.share .publisher))
  verifier := some closedVerifier
  upload := sampleUpload none p.share "" []

theorem resolvedRole_openAnswers (p : Publishing) :
    resolvedRole (openAnswers p).enforcer (some p.certFp) p.share = some .publisher := by
  simp [resolvedRole, openAnswers, AclState.resolve, EnforcementTable.lookup, EnforcementTable.insert,
    Except.toOption]

theorem admitted_openAnswers (p : Publishing) : (p.request (openAnswers p)).admitted = .ok () := by
  simp [Publishing.request, openAnswers, sampleUpload, checkAclByCert, AclState.resolve,
    EnforcementTable.lookup, EnforcementTable.insert, writeRoles]

/-- Such a server receives an acceptable stream. -/
theorem exists_received_openAnswers (hacc : Acceptable blake3 cfg p first rest)
    (verdict : Except String Unit) :
    ∃ spool, Received blake3 cfg { p.request (openAnswers p) with publisher := verdict }
      ⟨first.path, first.contentHash⟩ spool := by
  obtain ⟨hmsgs, hincluded, hguard, hok, hhash⟩ := hacc
  have hannounce : announce cfg (p.request (openAnswers p)) first.toStreamMessage =
      .ok ⟨first.path, first.contentHash⟩ := announce_eq_ok_iff.mpr ⟨hincluded, hguard, rfl⟩
  have hcreate : (p.request (openAnswers p)).spoolOk = true := rfl
  have happend : ∀ bytes, (p.request (openAnswers p)).appendOk bytes = true := fun _ => rfl
  obtain ⟨spool₁, h₁⟩ := exists_receiveChunks hcreate happend none (hok first List.mem_cons_self)
  obtain ⟨spool, hspool⟩ := exists_receiveStream cfg hcreate happend
    ⟨first.path, first.contentHash⟩ spool₁ (fun m hm => hok m (List.mem_cons_of_mem _ hm))
  have hstream : receiveStream blake3 cfg (p.request (openAnswers p)) none none
      (p.messages.map fun m => m.map PublishMessage.toStreamMessage) =
        .ok (some ⟨first.path, first.contentHash⟩, spool) := by
    rw [hmsgs]
    simp only [List.map_cons, Except.map, receiveStream, hannounce, h₁]
    exact hspool
  obtain ⟨first', rest', hmsgs', -, -, -, -, hcontent⟩ := of_receiveStream_none hstream
  refine ⟨spool, ⟨(), admitted_openAnswers p⟩, ?_, Or.inr rfl, ?_⟩
  · rw [(sameStream_publisher _ _).receiveStream]
    exact hstream
  · rw [hcontent]
    rw [Publishing.content, hmsgs'] at hhash
    simpa [Except.toOption, List.filterMap_map, Function.comp_def] using hhash

theorem not_proven_closedVerifier : ¬ Proven keyError ed25519 blake3 pdb closedVerifier p := by
  rintro ⟨m, proof, -, -, hverify⟩
  rw [verify_closedVerifier] at hverify
  exact nomatch hverify

/-- The first upload of a path leaves a row. -/
theorem recordRow_empty_db_ne (r : UploadRequest) (hup : r.upsertOk = true) (target : List String)
    (bytes : Bytes) : (recordRow blake3 cfg Host.empty r target bytes).db ≠ Host.empty.db := by
  intro heq
  unfold recordRow at heq
  rw [if_pos hup] at heq
  have hrows := congrArg (fun db => (db r.scope).files.lookup (rowMeta blake3 cfg r target bytes).path)
    heq
  simp only [Host.setDb, Function.update_self] at hrows
  obtain ⟨db', hdb'⟩ : ∃ db', (Host.empty.db r.scope).upsertFileScopedVersioned
      (rowMeta blake3 cfg r target bytes) ⟨cfg.serverNodeId, r.retention⟩ r.now = some db' :=
    ⟨_, rfl⟩
  obtain ⟨⟨versionId, parentVersionId, hfiles⟩, -⟩ := MetaDb.of_upsertFileScopedVersioned hdb'
  rw [hdb', Option.getD_some, hfiles, AList.lookup_insert] at hrows
  exact nomatch hrows

/-- A complete gate wants a proof. -/
theorem GateComplete.proof_ne_none (h : GateComplete keyError ed25519 blake3 cfg p)
    (hacc : Acceptable blake3 cfg p first rest) : first.publisherProof ≠ none := by
  intro hnone
  obtain ⟨target, hguard⟩ := hacc.guard
  have hfirst : p.firstProof = none := by
    rw [Publishing.firstProof, hacc.messages]
    exact hnone
  obtain ⟨spool, hreceived⟩ := exists_received_openAnswers hacc (.ok ())
  have hdb := deltaUpload_db_of_commits ⟨hreceived, ⟨(), rfl⟩, ⟨(), rfl⟩, hguard⟩ rfl rfl rfl rfl rfl
    Host.empty
  refine not_proven_closedVerifier (h Host.empty ⟨∅, ∅⟩ (openAnswers p) closedVerifier rfl
    (resolvedRole_openAnswers p) (Or.inr (Or.inr ?_)))
  show (deltaUpload blake3 cfg Host.empty { p.request (openAnswers p) with
    publisher := (publisherGate keyError ed25519 blake3 cfg ⟨∅, ∅⟩ p (openAnswers p)).1 }).2.db ≠ _
  rw [publisherGate_of_none hfirst, hdb]
  exact recordRow_empty_db_ne _ rfl target _

/-- A server on which files can be created, and neither synced nor removed. -/
def stuckAnswers (p : Publishing) : GateAnswers :=
  { openAnswers p with
    upload := { sampleUpload none p.share "" [] with fsyncOk := false, removeOk := false } }

/-- A complete gate lets nothing be spooled. -/
theorem GateComplete.not_spools (h : GateComplete keyError ed25519 blake3 cfg p) :
    ¬ Spools blake3 cfg p := by
  intro hspools
  have hspool := (spoolOf_request_iff p (stuckAnswers p)
    (publisherGate keyError ed25519 blake3 cfg ⟨∅, ∅⟩ p (stuckAnswers p)).1).mpr ⟨rfl, hspools⟩
  refine not_proven_closedVerifier (h Host.empty ⟨∅, ∅⟩ (stuckAnswers p) closedVerifier rfl
    (resolvedRole_openAnswers p) (Or.inr (Or.inl ?_)))
  have hadm : (p.request (stuckAnswers p)).admitted = .ok () := admitted_openAnswers p
  exact deltaUpload_temps_of_spool (r := { p.request (stuckAnswers p) with
    publisher := (publisherGate keyError ed25519 blake3 cfg ⟨∅, ∅⟩ p (stuckAnswers p)).1 }) hadm
      hspool rfl rfl Host.empty

/-- A complete gate keeps its quarantine out of the share. -/
theorem GateComplete.not_strays (h : GateComplete keyError ed25519 blake3 cfg p)
    (hacc : Acceptable blake3 cfg p first rest) : ¬ Strays cfg p first.path := by
  intro hstrays
  obtain ⟨proof, hproof⟩ := Option.ne_none_iff_exists'.mp (h.proof_ne_none hacc)
  have hfirst : p.firstProof = some proof := by
    rw [Publishing.firstProof, hacc.messages]
    exact hproof
  have hrejected : ∃ e, (publisherGate keyError ed25519 blake3 cfg ⟨∅, ∅⟩ p (openAnswers p)).1 =
      .error e := by
    obtain ⟨spool, hreceived⟩ := exists_received_openAnswers hacc (.ok ())
    have hverifier : (openAnswers p).verifier = some closedVerifier := rfl
    cases hverdict : (publisherGate keyError ed25519 blake3 cfg ⟨∅, ∅⟩ p (openAnswers p)).1 with
    | error e => exact ⟨e, rfl⟩
    | ok u =>
        have hverify := (publisherGate_of_proof hverifier hfirst
          ((gateInput_eq_some_iff (sameStream_publisher _ _)).mpr hreceived)).mp ⟨u, hverdict⟩
        rw [verify_closedVerifier] at hverify
        exact nomatch hverify
  obtain ⟨e, hrejected⟩ := hrejected
  obtain ⟨spool, hreceived⟩ := exists_received_openAnswers hacc (.error e)
  refine not_proven_closedVerifier (h Host.empty ⟨∅, ∅⟩ (openAnswers p) closedVerifier rfl
    (resolvedRole_openAnswers p) (Or.inl ⟨p.quarantine cfg first.path, hstrays.1, hstrays.2, ?_⟩))
  show (deltaUpload blake3 cfg Host.empty { p.request (openAnswers p) with
    publisher := (publisherGate keyError ed25519 blake3 cfg ⟨∅, ∅⟩ p (openAnswers p)).1
    }).2.files.lookup _ ≠ _
  rw [hrejected, deltaUpload_of_received hreceived]
  show ((staged cfg Host.empty _ spool).write (p.quarantine cfg first.path) _).files.lookup _ ≠ _
  rw [Host.write_files, AList.lookup_insert]
  exact nofun

end

/-! ## The gate as a whole -/

/-- A message for one small file, without a proof. -/
def bareMessage : PublishMessage where
  path := "a.md"
  contentHash := []
  chunks := [⟨[97], []⟩]
  publisherProof := none

/-- That message, for the share `notes`. -/
def bareStream : Publishing := ⟨zeroDigest, "notes", [], [.ok bareMessage]⟩

end DiskArcana.Hosting
