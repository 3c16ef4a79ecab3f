import DiskArcana.System.Downloads

/-!
# Peers do not change what is downloaded

The entries of an answer name the hash of their bytes. A peer's bytes are taken only if they have this
hash, and `materialize` checks it once more; so a peer can serve what the server would have to serve, or
nothing, and that is what the cycle leaves on disk (`RemoteSync.lan_keeps_content`).
-/

namespace DiskArcana.System

open DiskArcana.Core DiskArcana.Lib DiskArcana.Server DiskArcana.Client

namespace RemoteSync

section

variable {blake3 : Bytes → Digest} {aead : Aead} {sync : RemoteSync}

/-- The entry announces a hash that is not all zero. -/
def Announces (entry : FileMetadata) (d : Digest) : Prop :=
  d ≠ zeroDigest ∧ entry.contentHash = d.toList

/-- The answer of a peer is not the bytes with the hash: it is an error, breaks off, or is other bytes,
whatever its header says. -/
def Lies (blake3 : Bytes → Digest) (d : Digest) (reply : LanReply) : Prop :=
  ∀ status header bytes, reply = .response status header (.ok bytes) → 200 ≤ status → status < 300 →
    blake3 bytes ≠ d

theorem Announces.expectedHash {entry : FileMetadata} {d : Digest} (h : Announces entry d) :
    expectedHash entry = some d := by
  unfold System.expectedHash
  rw [dif_pos (by rw [h.2]; exact d.toList_length)]
  exact congrArg some (List.Vector.eq _ _ h.2)

/-- Bytes that are accepted, from a peer or the server, plain or encrypted, have the announced hash. -/
theorem of_materialize {entry : FileMetadata} {d : Digest} (h : Announces entry d) {wire : Bytes}
    {plaintext : Bytes} (hwire : sync.materialize blake3 aead entry wire = some plaintext) :
    blake3 wire = d := by
  by_contra hne
  unfold materialize materializeDownloadedBytes at hwire
  rw [h.2, digestOfBytes_toList, fromWireBytes_of_ne blake3 h.1 hne] at hwire
  cases hwire

theorem of_lanBytes {entry : FileMetadata} {env : DownloadEnv} {d : Digest} (h : Announces entry d)
    {wire : Bytes} (hwire : (sync.lanBytes blake3 entry env).1 = some wire) : blake3 wire = d := by
  unfold lanBytes at hwire
  split at hwire
  · rw [h.expectedHash] at hwire
    exact LanFetchContext.of_tryLanFetch hwire
  · cases hwire

theorem fetchBlobFromPeer_of_lies {d : Digest} {reply : LanReply} (h : Lies blake3 d reply)
    (bytes : Bytes) : fetchBlobFromPeer blake3 (some d) reply ≠ .ok bytes := by
  intro hok
  have hd := of_fetchBlobFromPeer hok
  unfold fetchBlobFromPeer at hok
  split at hok
  · cases hok
  · rename_i status header body
    split_ifs at hok with hstatus
    split at hok
    · cases hok
    · rename_i served
      simp only at hok
      split_ifs at hok
      cases hok
      rw [not_or, not_lt, not_le] at hstatus
      exact h status header bytes rfl hstatus.1 hstatus.2 hd

/-- Where every peer fails or lies, the peers give nothing. -/
theorem lanBytes_eq_none {entry : FileMetadata} {env : DownloadEnv} {d : Digest}
    (h : Announces entry d)
    (hlies : ∀ asked : LanRequest, (∃ name, env.registry.peers.lookup name = some asked.peer) →
      Lies blake3 d (env.reply asked)) :
    (sync.lanBytes blake3 entry env).1 = none := by
  unfold lanBytes
  split
  · rw [h.expectedHash]
    unfold LanFetchContext.tryLanFetch
    split_ifs
    · apply fetchFromPeers_eq_none
      intro peer hpeer bytes
      obtain ⟨hsnapshot, -⟩ := mem_eligiblePeers.mp hpeer
      exact fetchBlobFromPeer_of_lies (hlies _ (of_mem_snapshot hsnapshot).1) bytes
    · rfl
    · rfl
  · rfl

/-- Where the peers give nothing, an entry is downloaded as if there were none. -/
theorem download_of_lanBytes_eq_none (st : DownloadState) {x : FileMetadata × DownloadEnv}
    (h : (sync.lanBytes blake3 x.1 x.2).1 = none) :
    sync.download blake3 aead st x =
      { ({ sync with lanFetch := none }).download blake3 aead st x with
        lanRequests := st.lanRequests ++ (sync.lanBytes blake3 x.1 x.2).2 } := by
  have hfetch : sync.fetch blake3 x.1 x.2 = x.2.server := by
    unfold fetch
    rw [h]
  have hlanding : ({ sync with lanFetch := none } : RemoteSync).landing blake3 aead x =
      sync.landing blake3 aead x := by
    unfold landing
    rw [hfetch]
    rfl
  rw [download_eq, download_eq, hlanding]
  cases sync.landing blake3 aead x <;> rfl

/-- The requests of an entry. -/
theorem download_lanRequests (st : DownloadState) (x : FileMetadata × DownloadEnv) :
    (sync.download blake3 aead st x).lanRequests =
      st.lanRequests ++ (sync.lanBytes blake3 x.1 x.2).2 := by
  rw [download_eq]
  cases sync.landing blake3 aead x <;> rfl

/-- Every peer that is asked along the entries has the client's tenant. -/
theorem of_mem_lanRequests {tenantId : Option String} {nodeId : NodeId}
    (hlan : sync.lanFetch = some (tenantId, nodeId)) {entries : List (FileMetadata × DownloadEnv)}
    {st : DownloadState}
    (hst : ∀ asked ∈ st.lanRequests, tenantOf asked.peer.tenantId = tenantOf tenantId) :
    ∀ asked ∈ (entries.foldl (sync.download blake3 aead) st).lanRequests,
      tenantOf asked.peer.tenantId = tenantOf tenantId := by
  induction entries generalizing st with
  | nil => exact hst
  | cons x entries ih =>
      apply ih
      intro asked hasked
      rw [download_lanRequests, List.mem_append] at hasked
      rcases hasked with hold | hnew
      · exact hst asked hold
      · unfold lanBytes at hnew
        rw [hlan] at hnew
        exact (LanFetchContext.of_mem_requests hnew).1

/-- What is left of an entry whose bytes came from a peer is the plaintext of these bytes, or a part of
it where the write broke off. -/
theorem of_leaves_of_lanBytes {x : FileMetadata × DownloadEnv} {wire bytes : Bytes}
    (hwire : (sync.lanBytes blake3 x.1 x.2).1 = some wire)
    (hleaves : sync.leaves blake3 aead x = some bytes) :
    ∃ plaintext, sync.materialize blake3 aead x.1 wire = some plaintext ∧ bytes <+: plaintext ∧
      (x.2.write.isDone = true → bytes = plaintext) := by
  have hfetch : sync.fetch blake3 x.1 x.2 = .ok wire := by
    unfold fetch
    rw [hwire]
  rcases hm : sync.materialize blake3 aead x.1 wire with _ | plaintext
  · simp [leaves, landing, hfetch, hm] at hleaves
  · have hleft : x.2.write.left plaintext = some bytes := by
      unfold leaves landing at hleaves
      simp only [hfetch, hm] at hleaves
      split_ifs at hleaves <;> exact hleaves
    exact ⟨plaintext, rfl, WriteAnswer.of_left hleft⟩

variable (blake3 aead sync) in
/-- **Peers do not change what is downloaded.** After the cycle a path has what the last entry of this
path has left there, or what it had. What an entry leaves whose bytes came from a peer is what the
server's bytes would have to be to be accepted, as far as the write got; an entry for which every peer
fails or lies is downloaded as if there were no peers; and only peers of the client's tenant are asked.
`contents` are the bytes that may come over the wire. -/
theorem lan_keeps_content {contents : Set Bytes} (hblake3 : Set.InjOn blake3 contents)
    {tenantId : Option String} {nodeId : NodeId} (hlan : sync.lanFetch = some (tenantId, nodeId))
    (entries : List (FileMetadata × DownloadEnv))
    (hannounced : ∀ x ∈ entries, ∃ d, Announces x.1 d)
    (hserved : ∀ x ∈ entries, ∀ wire, (sync.lanBytes blake3 x.1 x.2).1 = some wire → wire ∈ contents)
    (token : Option String) (disk : PathMap Bytes) (blobCache : Table Digest Bytes)
    (index : WireIndex) :
    (∀ path, (sync.execute blake3 aead (.start token disk blobCache index) entries).1.disk.lookup path =
      (if sync.scanRoot.isEmpty then none else entries.reverse.findSome? fun x =>
        if x.1.path = path then sync.leaves blake3 aead x else none).or (disk.lookup path)) ∧
      (∀ x ∈ entries, ∀ wire bytes, (sync.lanBytes blake3 x.1 x.2).1 = some wire →
        sync.leaves blake3 aead x = some bytes →
          ∃ plaintext, sync.materialize blake3 aead x.1 wire = some plaintext ∧ bytes <+: plaintext ∧
            (x.2.write.isDone = true → bytes = plaintext) ∧
            ∀ cloud ∈ contents, ∀ accepted, sync.materialize blake3 aead x.1 cloud = some accepted →
              cloud = wire ∧ accepted = plaintext) ∧
      (∀ x ∈ entries, (∀ d, Announces x.1 d → ∀ asked : LanRequest,
          (∃ name, x.2.registry.peers.lookup name = some asked.peer) →
            Lies blake3 d (x.2.reply asked)) →
        ∀ st, sync.download blake3 aead st x =
          { ({ sync with lanFetch := none }).download blake3 aead st x with
            lanRequests := st.lanRequests ++ (sync.lanBytes blake3 x.1 x.2).2 }) ∧
      ∀ asked ∈ (sync.execute blake3 aead (.start token disk blobCache index) entries).1.lanRequests,
        tenantOf asked.peer.tenantId = tenantOf tenantId := by
  refine ⟨?_, ?_, ?_, ?_⟩
  · intro path
    unfold execute downloads
    rw [verdict_disk]
    split_ifs
    · rfl
    · exact foldl_download_disk _ entries path
  · intro x hx wire bytes hwire hleaves
    obtain ⟨d, hd⟩ := hannounced x hx
    obtain ⟨plaintext, hplain, hpre, hdone⟩ := of_leaves_of_lanBytes hwire hleaves
    refine ⟨plaintext, hplain, hpre, hdone, fun cloud hcloud accepted haccepted => ?_⟩
    have hsame : cloud = wire := hblake3 hcloud (hserved x hx wire hwire)
      ((of_materialize hd haccepted).trans (of_lanBytes hd hwire).symm)
    subst hsame
    rw [hplain] at haccepted
    exact ⟨rfl, (Option.some.inj haccepted).symm⟩
  · intro x hx hlies st
    obtain ⟨d, hd⟩ := hannounced x hx
    exact download_of_lanBytes_eq_none st (lanBytes_eq_none hd (hlies d hd))
  · unfold execute downloads
    rw [verdict_lanRequests]
    split_ifs
    · intro asked hasked
      cases hasked
    · exact of_mem_lanRequests hlan fun asked hasked => nomatch hasked

end

/-! ## A fetch -/

/-- A client that asks the peers of its tenant. -/
def sampleLan : RemoteSync := { sampleSync with lanFetch := some (some "corp", "n") }

/-- An entry that the server announces as `a`, and that a peer serves. -/
def sampleServed : FileMetadata × DownloadEnv :=
  ({ path := ["f"], contentHash := (sampleBlake3 [97]).toList, size := 1 },
    { sampleWrongHash.2 with
      registry := ⟨true, (∅ : Table NodeId LanPeer).insert "p" ⟨"p", "10.0.0.2", 9447, some "corp", 0⟩⟩
      reply := fun _ => .response 200 none (.ok [97]) })

theorem sampleServed_content :
    (sampleLan.execute sampleBlake3 sampleAead (.start none ∅ ∅ ⟨∅, ∅⟩)
        [sampleServed]).1.disk.lookup ["f"] = some [97] ∧
      ∃ plaintext, sampleLan.materialize sampleBlake3 sampleAead sampleServed.1 [97] = some plaintext ∧
        [97] <+: plaintext ∧ (sampleServed.2.write.isDone = true → [97] = plaintext) ∧
        ∀ cloud ∈ ({[97], [98]} : Set Bytes), ∀ accepted,
          sampleLan.materialize sampleBlake3 sampleAead sampleServed.1 cloud = some accepted →
            cloud = [97] ∧ accepted = plaintext := by
  have hinj : Set.InjOn sampleBlake3 ({[97], [98]} : Set Bytes) := by
    rintro x (rfl | rfl) y (rfl | rfl) h
    · rfl
    · exact absurd h (by decide)
    · exact absurd h (by decide)
    · rfl
  have hlan : (sampleLan.lanBytes sampleBlake3 sampleServed.1 sampleServed.2).1 = some [97] := by
    decide +kernel
  obtain ⟨hdisk, hcontent, -⟩ := lan_keeps_content sampleBlake3 sampleAead sampleLan hinj rfl
    [sampleServed]
    (by
      intro x hx
      cases List.mem_singleton.mp hx
      exact ⟨sampleBlake3 [97], by decide, rfl⟩)
    (by
      intro x hx wire hwire
      cases List.mem_singleton.mp hx
      rw [hlan] at hwire
      cases hwire
      exact .inl rfl)
    none ∅ ∅ ⟨∅, ∅⟩
  exact ⟨hdisk ["f"], hcontent sampleServed List.mem_cons_self [97] [97] hlan rfl⟩

end RemoteSync

end DiskArcana.System
