import DiskArcana.Hosting.Effects

/-!
# Reading an upload stream

What an upload has received when it gets to the gates before its commit: the path it announced and the
bytes that its chunks carry. The gates that judge the upload (`publisher`, `quota`) are answered from
this, so nothing here may depend on their verdicts (`SameStream`).
-/

namespace DiskArcana.Hosting

open DiskArcana.Core DiskArcana.Lib DiskArcana.Server

section

variable (blake3 : Bytes → Digest) (cfg : HostConfig)

/-- What the gates find when the upload gets to them: what was announced, and what was spooled. -/
def gateInput (r : UploadRequest) : Option (Announced × Option Bytes) :=
  match r.admitted, receiveStream blake3 cfg r none none r.stream with
  | .ok (), .ok (some a, spool) =>
      if (spool = none ∨ r.fsyncOk = true) ∧
          (a.contentHash = [] ∨ a.contentHash = (blake3 (spool.getD [])).toList) then
        some (a, spool)
      else none
  | _, _ => none

variable {blake3 cfg}

/-! ## Chunks -/

/-- A chunk that is taken is added to the spool. -/
theorem of_receiveChunk {r : UploadRequest} {spool : Option Bytes} {chunk : DeltaChunk}
    {bytes : Bytes} (h : receiveChunk blake3 r spool chunk = .ok bytes) :
    chunkOk blake3 chunk = true ∧ bytes = spool.getD [] ++ chunk.data := by
  unfold receiveChunk at h
  split at h
  · exact nomatch h
  · rename_i hok
    refine ⟨by simpa using hok, ?_⟩
    split at h
    · split_ifs at h
      cases h
      rfl
    · split_ifs at h
      cases h
      rfl

/-- What is spooled is what the chunks carry. -/
theorem of_receiveChunks {r : UploadRequest} {spool spool' : Option Bytes} {chunks : List DeltaChunk}
    (h : receiveChunks blake3 r spool chunks = .ok spool') :
    (∀ c ∈ chunks, chunkOk blake3 c = true) ∧
      spool'.getD [] = spool.getD [] ++ chunks.flatMap DeltaChunk.data := by
  induction chunks generalizing spool with
  | nil =>
      cases h
      simp
  | cons chunk chunks ih =>
      rw [receiveChunks] at h
      split at h
      · exact nomatch h
      · rename_i bytes hchunk
        obtain ⟨hok, rfl⟩ := of_receiveChunk hchunk
        obtain ⟨hoks, hspool⟩ := ih h
        refine ⟨?_, ?_⟩
        · intro c hc
          rcases List.mem_cons.mp hc with rfl | hc
          · exact hok
          · exact hoks c hc
        · rw [hspool]
          simp

/-- With room on disk, good chunks are spooled. -/
theorem exists_receiveChunks {r : UploadRequest} (hcreate : r.spoolOk = true)
    (happend : ∀ bytes, r.appendOk bytes = true) (spool : Option Bytes) {chunks : List DeltaChunk}
    (hok : ∀ c ∈ chunks, chunkOk blake3 c = true) :
    ∃ spool', receiveChunks blake3 r spool chunks = .ok spool' := by
  induction chunks generalizing spool with
  | nil => exact ⟨spool, rfl⟩
  | cons chunk chunks ih =>
      have hchunk : receiveChunk blake3 r spool chunk = .ok (spool.getD [] ++ chunk.data) := by
        unfold receiveChunk
        cases spool with
        | none => simp [hok chunk, hcreate, happend]
        | some bytes => simp [hok chunk, happend]
      obtain ⟨spool', hspool'⟩ := ih (some (spool.getD [] ++ chunk.data))
        (fun c hc => hok c (List.mem_cons_of_mem _ hc))
      exact ⟨spool', by rw [receiveChunks, hchunk]; exact hspool'⟩

/-- The first message is let through when its path is in the selective-sync list and passes the
guard. -/
theorem announce_eq_ok_iff {r : UploadRequest} {m : StreamMessage} {a : Announced} :
    announce cfg r m = .ok a ↔ pathMatchesIncludes m.path r.includes = true ∧
      (∃ target, pathGuard (cfg.rootFor r.share) m.path = .ok target) ∧
        a = ⟨m.path, m.contentHash⟩ := by
  unfold announce
  cases pathMatchesIncludes m.path r.includes with
  | false => simp
  | true =>
      cases pathGuard (cfg.rootFor r.share) m.path with
      | error e => simp
      | ok target => simp [eq_comm]

/-! ## The spool -/

/-- What is spooled when the reading ends, well or not. -/
def spoolOf : Except (String × Option Bytes) (Option Announced × Option Bytes) → Option Bytes
  | .error (_, spool) => spool
  | .ok (_, spool) => spool

/-- The first chunk that a stream gets to. -/
def firstChunk : List (Except String StreamMessage) → Option DeltaChunk
  | .ok m :: stream => m.chunks.head?.or (firstChunk stream)
  | _ => none

/-- A stream that gets to a chunk starts with a message that arrives. -/
theorem of_firstChunk {stream : List (Except String StreamMessage)} {chunk : DeltaChunk}
    (h : firstChunk stream = some chunk) : ∃ m rest, stream = .ok m :: rest := by
  rcases stream with _ | ⟨e | m, rest⟩
  · exact nomatch h
  · exact nomatch h
  · exact ⟨m, rest, rfl⟩

/-- What is spooled stays spooled. -/
theorem receiveChunks_some_cases (r : UploadRequest) (bytes : Bytes) (chunks : List DeltaChunk) :
    (∃ e bytes', receiveChunks blake3 r (some bytes) chunks = .error (e, some bytes')) ∨
      ∃ bytes', receiveChunks blake3 r (some bytes) chunks = .ok (some bytes') := by
  induction chunks generalizing bytes with
  | nil => exact Or.inr ⟨bytes, rfl⟩
  | cons chunk chunks ih =>
      rw [receiveChunks, receiveChunk]
      split_ifs
      · exact Or.inl ⟨_, bytes, rfl⟩
      · exact ih _
      · exact Or.inl ⟨_, bytes, rfl⟩

theorem spoolOf_receiveStream_some (r : UploadRequest) (announced : Option Announced) (bytes : Bytes)
    (stream : List (Except String StreamMessage)) :
    spoolOf (receiveStream blake3 cfg r announced (some bytes) stream) ≠ none := by
  induction stream generalizing announced bytes with
  | nil => exact Option.some_ne_none bytes
  | cons m stream ih =>
      cases m with
      | error e => exact Option.some_ne_none bytes
      | ok m =>
          simp only [receiveStream]
          split
          · exact Option.some_ne_none bytes
          · rcases @receiveChunks_some_cases blake3 r bytes m.chunks with
              ⟨e, bytes', h⟩ | ⟨bytes', h⟩
            · rw [h]
              exact Option.some_ne_none bytes'
            · rw [h]
              exact ih _ bytes'

/-- Something is spooled when the first chunk has its hash and the spool can be created. -/
theorem spoolOf_announced_iff (r : UploadRequest) (a : Announced)
    (stream : List (Except String StreamMessage)) :
    spoolOf (receiveStream blake3 cfg r (some a) none stream) ≠ none ↔
      r.spoolOk = true ∧ ∃ chunk, firstChunk stream = some chunk ∧ chunkOk blake3 chunk = true := by
  induction stream with
  | nil => simp [receiveStream, spoolOf, firstChunk]
  | cons m stream ih =>
      cases m with
      | error e => simp [receiveStream, spoolOf, firstChunk]
      | ok m =>
          rcases hchunks : m.chunks with _ | ⟨chunk, chunks⟩
          · simp only [receiveStream, hchunks, receiveChunks, firstChunk, List.head?_nil,
              Option.none_or]
            exact ih
          · simp only [receiveStream, hchunks, receiveChunks, receiveChunk, firstChunk,
              List.head?_cons, Option.some_or, Option.some.injEq, exists_eq_left']
            cases hok : chunkOk blake3 chunk with
            | false => simp [spoolOf]
            | true =>
                cases hcreate : r.spoolOk with
                | false => simp [spoolOf]
                | true =>
                    simp only [Bool.not_true, Bool.false_eq_true, if_false, and_self, iff_true]
                    cases happend : r.appendOk chunk.data with
                    | false => simp [spoolOf]
                    | true =>
                        simp only [if_true]
                        rcases @receiveChunks_some_cases blake3 r chunk.data chunks with
                          ⟨e, bytes, h⟩ | ⟨bytes, h⟩
                        · rw [h]
                          exact Option.some_ne_none bytes
                        · rw [h]
                          exact spoolOf_receiveStream_some r _ bytes stream

/-- **When an upload has a spool**: its first message is let through, and so is its first chunk. -/
theorem spoolOf_receiveStream_iff (r : UploadRequest) (stream : List (Except String StreamMessage)) :
    spoolOf (receiveStream blake3 cfg r none none stream) ≠ none ↔
      r.spoolOk = true ∧ (∃ m rest a, stream = .ok m :: rest ∧ announce cfg r m = .ok a) ∧
        ∃ chunk, firstChunk stream = some chunk ∧ chunkOk blake3 chunk = true := by
  rcases stream with _ | ⟨e | m, stream⟩
  · simp [receiveStream, spoolOf]
  · simp [receiveStream, spoolOf]
  · cases hannounce : announce cfg r m with
    | error e => simp [receiveStream, hannounce, spoolOf]
    | ok a =>
        have hstart : receiveStream blake3 cfg r none none (.ok m :: stream) =
            receiveStream blake3 cfg r (some a) none (.ok m :: stream) := by
          simp only [receiveStream, hannounce]
        rw [hstart, spoolOf_announced_iff]
        exact and_congr_right fun _ => ⟨fun h => ⟨⟨m, stream, a, rfl, hannounce⟩, h⟩, And.right⟩

/-! ## The verdicts of the gates -/

/-- Two uploads that differ at most in what happens once their stream is read. -/
structure SameStream (r r' : UploadRequest) : Prop where
  share : r'.share = r.share
  admitted : r'.admitted = r.admitted
  includes : r'.includes = r.includes
  stream : r'.stream = r.stream
  spoolOk : r'.spoolOk = r.spoolOk
  appendOk : r'.appendOk = r.appendOk
  fsyncOk : r'.fsyncOk = r.fsyncOk

theorem sameStream_publisher (r : UploadRequest) (verdict : Except String Unit) :
    SameStream r { r with publisher := verdict } := ⟨rfl, rfl, rfl, rfl, rfl, rfl, rfl⟩

theorem SameStream.receiveChunks {r r' : UploadRequest} (h : SameStream r r') (spool : Option Bytes)
    (chunks : List DeltaChunk) :
    receiveChunks blake3 r' spool chunks = receiveChunks blake3 r spool chunks := by
  induction chunks generalizing spool with
  | nil => rfl
  | cons chunk chunks ih =>
      have hchunk : receiveChunk blake3 r' spool chunk = receiveChunk blake3 r spool chunk := by
        unfold receiveChunk
        rw [h.spoolOk, h.appendOk]
      rw [Hosting.receiveChunks, Hosting.receiveChunks, hchunk]
      cases receiveChunk blake3 r spool chunk with
      | error e => rfl
      | ok bytes => exact ih (some bytes)

theorem SameStream.receiveStream {r r' : UploadRequest} (h : SameStream r r')
    (announced : Option Announced) (spool : Option Bytes)
    (stream : List (Except String StreamMessage)) :
    receiveStream blake3 cfg r' announced spool stream =
      receiveStream blake3 cfg r announced spool stream := by
  have hannounce : ∀ msg, announce cfg r' msg = announce cfg r msg := by
    intro msg
    unfold announce
    rw [h.includes, h.share]
  induction stream generalizing announced spool with
  | nil => rfl
  | cons m stream ih =>
      cases m with
      | error e => rfl
      | ok m => simp only [Hosting.receiveStream, h.receiveChunks, hannounce, ih]

/-- The gates are reached by the uploads that are received, whatever the gates will say. -/
theorem gateInput_eq_some_iff {r r' : UploadRequest} (h : SameStream r r') {a : Announced}
    {spool : Option Bytes} :
    gateInput blake3 cfg r = some (a, spool) ↔ Received blake3 cfg r' a spool := by
  unfold gateInput
  constructor
  · intro hinput
    split at hinput
    · rename_i hadm hstream
      split at hinput
      · rename_i hboth
        cases hinput
        refine ⟨⟨(), h.admitted.trans hadm⟩, ?_, ?_, hboth.2⟩
        · rw [h.stream, h.receiveStream]
          exact hstream
        · rw [h.fsyncOk]
          exact hboth.1
      · exact nomatch hinput
    · exact nomatch hinput
  · rintro ⟨⟨u, hadm⟩, hstream, hsynced, hhash⟩
    rw [h.stream, h.receiveStream] at hstream
    rw [h.admitted] at hadm
    rw [h.fsyncOk] at hsynced
    rw [hadm, hstream]
    exact if_pos ⟨hsynced, hhash⟩

/-- An upload that is received gets to the gates with its spool on disk. -/
theorem deltaUpload_of_received {r : UploadRequest} {a : Announced} {spool : Option Bytes}
    (hr : Received blake3 cfg r a spool) (h : Host) :
    deltaUpload blake3 cfg h r =
      match r.publisher, r.quota with
      | .error e, _ =>
          (.error ("publisher signature invalid: " ++ e),
            if r.quarantineOk then
              (staged cfg h r spool).write (quarantineLoc cfg r a.path) (spool.getD [])
            else staged cfg h r spool)
      | .ok _, .error e => (.error e, staged cfg h r spool)
      | .ok _, .ok _ =>
          match commit blake3 cfg (staged cfg h r spool) r (some a) spool with
          | (.error e, h) => (.error e, h)
          | (.ok _, h) =>
              match r.usage with
              | .error e => (.error e, h)
              | .ok _ => (.ok (blake3 (spool.getD [])), h) := by
  obtain ⟨⟨u, hadm⟩, hstream, hsynced, hhash⟩ := hr
  have hsync : ¬ (spool ≠ none ∧ r.fsyncOk = false) := by
    rintro ⟨hne, hno⟩
    rcases hsynced with hnone | hyes
    · exact hne hnone
    · exact nomatch hno.symm.trans hyes
  have hlen : ¬ (a.contentHash ≠ [] ∧ a.contentHash.length ≠ 32) := by
    rintro ⟨hne, hlen⟩
    rcases hhash with hnil | heq
    · exact hne hnil
    · exact hlen (by rw [heq]; exact List.Vector.toList_length _)
  have hsame : ¬ (a.contentHash ≠ [] ∧ a.contentHash ≠ (blake3 (spool.getD [])).toList) := by
    rintro ⟨hne, hdiffer⟩
    exact hhash.elim hne hdiffer
  unfold deltaUpload
  rw [receive_eq blake3 cfg hadm, hstream]
  simp only [if_neg hsync, verify, Option.map_some, Option.getD_some, Bool.and_eq_true,
    Bool.not_eq_true', List.isEmpty_eq_false_iff, bne_iff_ne, if_neg hlen, if_neg hsame]
  cases r.publisher with
  | error e => rfl
  | ok u =>
      cases r.quota with
      | error e => rfl
      | ok v => rfl

/-! ## Temporary files -/

/-- A spool that can neither be synced nor removed stays in the share. -/
theorem deltaUpload_temps_of_spool {r : UploadRequest} {u : Unit} (hadm : r.admitted = .ok u)
    (hspool : spoolOf (receiveStream blake3 cfg r none none r.stream) ≠ none)
    (hsync : r.fsyncOk = false) (hremove : r.removeOk = false) (h : Host) :
    (deltaUpload blake3 cfg h r).2.temps ≠ h.temps := by
  have hleft : ∀ spool, spool ≠ none → (dropSpool cfg h r spool).temps ≠ h.temps := by
    intro spool hne
    obtain ⟨bytes, rfl⟩ := Option.ne_none_iff_exists'.mp hne
    rw [dropSpool, hremove]
    exact List.cons_ne_self _ _
  unfold deltaUpload
  rw [receive_eq blake3 cfg hadm]
  rcases hstream : receiveStream blake3 cfg r none none r.stream with ⟨e, spool⟩ | ⟨announced, spool⟩
  · rw [hstream] at hspool
    exact hleft spool hspool
  · rw [hstream] at hspool
    have hdropped : spool ≠ none ∧ r.fsyncOk = false := ⟨hspool, hsync⟩
    dsimp only
    rw [if_pos hdropped]
    exact hleft spool hspool

/-- Without a spool, only the commit makes a temporary file. -/
theorem commits_of_deltaUpload_temps {r : UploadRequest} {h : Host}
    (hspool : spoolOf (receiveStream blake3 cfg r none none r.stream) = none)
    (hne : (deltaUpload blake3 cfg h r).2.temps ≠ h.temps) :
    ∃ a target, Commits blake3 cfg r a none target := by
  rcases hadm : r.admitted with e | u
  · refine absurd ?_ hne
    unfold deltaUpload receive
    rw [hadm]
  rcases hstream : receiveStream blake3 cfg r none none r.stream with ⟨e, spool⟩ | ⟨announced, spool⟩
  · rw [hstream] at hspool
    cases hspool
    refine absurd ?_ hne
    unfold deltaUpload
    rw [receive_eq blake3 cfg hadm, hstream]
    rfl
  rw [hstream] at hspool
  cases hspool
  have hstaged : staged cfg h r none = h := rfl
  rcases announced with _ | a
  · refine absurd ?_ hne
    unfold deltaUpload
    rw [receive_eq blake3 cfg hadm, hstream]
    cases r.usage <;> simp [verify, commit, hstaged]
  by_cases hhash : a.contentHash = [] ∨ a.contentHash = (blake3 []).toList
  · have hreceived : Received blake3 cfg r a none := ⟨⟨u, hadm⟩, hstream, Or.inl rfl, hhash⟩
    obtain ⟨target, hguard⟩ := pathGuard_of_receiveStream blake3 cfg (by intro b hb; cases hb) hstream
    rw [deltaUpload_of_received hreceived] at hne
    cases hpub : r.publisher with
    | error e =>
        rw [hpub] at hne
        refine absurd ?_ hne
        dsimp only
        split_ifs <;> rfl
    | ok v =>
        cases hquota : r.quota with
        | error e =>
            rw [hpub, hquota] at hne
            exact absurd rfl hne
        | ok w => exact ⟨a, target, hreceived, ⟨v, hpub⟩, ⟨w, hquota⟩, hguard⟩
  · obtain ⟨hnil, hdiffer⟩ := not_or.mp hhash
    refine absurd ?_ hne
    unfold deltaUpload
    rw [receive_eq blake3 cfg hadm, hstream]
    by_cases hlen : a.contentHash.length = 32
    · simp [verify, hnil, hdiffer, hlen, hstaged]
    · simp [verify, hnil, hlen, hstaged]

end

end DiskArcana.Hosting
