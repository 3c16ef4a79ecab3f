import DiskArcana.Client.Files

/-!
# Bytes from the local network

`lan_sync/registry.rs` and `lan_sync/fetch.rs`: the peers that discovery has seen lately, those among
them of the client's own tenant, and a request to one after the other until one serves bytes that have
the announced hash.

A peer may answer a request with anything. Where the HTTP library goes for the answer (a redirect, say)
is part of what the peer does.
-/

namespace DiskArcana.Client

open DiskArcana.Core DiskArcana.Lib

/-! ## Peers -/

/-- A client seen on the local network.
Source: `lan_sync/registry.rs`, `LanPeer` -/
structure LanPeer where
  nodeId : NodeId
  host : String
  port : ℕ
  tenantId : Option String
  lastSeenUnix : ℤ
  deriving DecidableEq

/-- Source: `lan_sync/registry.rs`, `LanPeerRegistry` -/
structure LanPeerRegistry where
  enabled : Bool
  peers : Table NodeId LanPeer

namespace LanPeerRegistry

/-- The peers seen within some time, by name; the others are forgotten.
Source: `lan_sync/registry.rs`, `snapshot` -/
def snapshot (r : LanPeerRegistry) (maxAgeSecs now : ℤ) : LanPeerRegistry × List LanPeer :=
  let peers := Table.eraseWhere (fun _ p => maxAgeSecs < now - p.lastSeenUnix) r.peers
  ({ r with peers }, (peers.entries.map Sigma.snd).insertionSort fun a b => a.nodeId ≤ b.nodeId)

end LanPeerRegistry

/-- Source: `lan_sync/discovery.rs`, `PEER_TTL_SECS` -/
def peerTtlSecs : ℤ := 120

/-- Source: `lan_sync/fetch.rs`, `LanFetchContext` -/
structure LanFetchContext where
  registry : LanPeerRegistry
  tenantId : Option String
  nodeId : NodeId

/-- A tenant that is not the empty text. -/
def tenantOf (tenantId : Option String) : Option String := tenantId.filter fun t => !t.isEmpty

/-- Source: `lan_sync/fetch.rs`, `eligible_peers` -/
def eligiblePeers (peers : List LanPeer) (localTenantId : Option String) : List LanPeer :=
  peers.filter fun p =>
    match tenantOf localTenantId, tenantOf p.tenantId with
    | some a, some b => decide (a = b)
    | none, none => true
    | _, _ => false

/-! ## A request -/

/-- The request that a peer gets.
Source: `lan_sync/fetch.rs`, `fetch_blob_from_peer` -/
structure LanRequest where
  peer : LanPeer
  share : String
  path : Path
  tenantId : String
  requesterNodeId : NodeId

/-- What comes back. The text of the `x-disk-content-hash` header is there when it is a visible ASCII
text; the body may break off. -/
inductive LanReply where
  | transport (message : String)
  | response (status : ℕ) (hashHeader : Option (List Char)) (body : Except String Bytes)

/-- Source: `lan_sync/fetch.rs`, `FetchError` -/
inductive FetchError where
  | transport (message : String)
  | http (status : ℕ)
  | hashMismatch
  deriving DecidableEq

/-- A hexadecimal digit in either case. -/
def hexValue (c : Char) : Option UInt8 :=
  if '0' ≤ c ∧ c ≤ '9' then some (UInt8.ofNat (c.toNat - '0'.toNat))
  else if 'a' ≤ c ∧ c ≤ 'f' then some (UInt8.ofNat (c.toNat - 'a'.toNat + 10))
  else if 'A' ≤ c ∧ c ≤ 'F' then some (UInt8.ofNat (c.toNat - 'A'.toNat + 10))
  else none

/-- Two digits a byte.
Source: `hex` crate, `decode` -/
def hexDecode : List Char → Option Bytes
  | [] => some []
  | [_] => none
  | high :: low :: rest => do
    let h ← hexValue high
    let l ← hexValue low
    let bytes ← hexDecode rest
    return (16 * h + l) :: bytes

section

variable (blake3 : Bytes → Digest)

/-- The header contradicts the bytes: it is 32 bytes in hexadecimal, and not their hash. -/
def headerRefuses (hashHeader : Option (List Char)) (computed : Digest) : Bool :=
  (hashHeader.bind fun text => hexDecode (trimChars Char.isWhitespace text)).any fun decoded =>
    decoded.length == 32 && decide (decoded ≠ computed.toList)

/-- Source: `lan_sync/fetch.rs`, `fetch_blob_from_peer` -/
def fetchBlobFromPeer (expectedHash : Option Digest) : LanReply → Except FetchError Bytes
  | .transport message => .error (.transport message)
  | .response status hashHeader body =>
    if status < 200 ∨ 300 ≤ status then .error (.http status)
    else match body with
      | .error message => .error (.transport message)
      | .ok bytes =>
        let computed := blake3 bytes
        match expectedHash with
        | some expected => if computed = expected then .ok bytes else .error .hashMismatch
        | none => if headerRefuses hashHeader computed then .error .hashMismatch else .ok bytes

/-- Ask one peer after the other, until one serves what was asked for; with the requests that were
made. -/
def fetchFromPeers (request : LanPeer → LanRequest) (reply : LanRequest → LanReply)
    (expectedHash : Option Digest) : List LanPeer → Option Bytes × List LanRequest
  | [] => (none, [])
  | peer :: peers =>
    match fetchBlobFromPeer blake3 expectedHash (reply (request peer)) with
    | .ok bytes => (some bytes, [request peer])
    | .error _ =>
      let rest := fetchFromPeers request reply expectedHash peers
      (rest.1, request peer :: rest.2)

/-- Source: `lan_sync/fetch.rs`, `try_lan_fetch` -/
def LanFetchContext.tryLanFetch (ctx : LanFetchContext) (now : ℤ) (clientBuilt : Bool)
    (reply : LanRequest → LanReply) (share : String) (path : Path) (expectedHash : Option Digest) :
    Option Bytes × List LanRequest :=
  if ctx.registry.enabled then
    let candidates := eligiblePeers (ctx.registry.snapshot peerTtlSecs now).2 ctx.tenantId
    if clientBuilt then
      fetchFromPeers blake3 (fun peer => ⟨peer, share, path, ctx.tenantId.getD "", ctx.nodeId⟩) reply
        expectedHash candidates
    else (none, [])
  else (none, [])

/-! ## What a fetch gives -/

variable {blake3}

theorem of_fetchBlobFromPeer {d : Digest} {reply : LanReply} {bytes : Bytes}
    (h : fetchBlobFromPeer blake3 (some d) reply = .ok bytes) : blake3 bytes = d := by
  unfold fetchBlobFromPeer at h
  split at h
  · cases h
  · split_ifs at h
    split at h
    · cases h
    · simp only at h
      split_ifs at h with hd
      cases h
      exact hd

theorem of_fetchFromPeers {request : LanPeer → LanRequest} {reply : LanRequest → LanReply}
    {d : Digest} {peers : List LanPeer} {bytes : Bytes}
    (h : (fetchFromPeers blake3 request reply (some d) peers).1 = some bytes) : blake3 bytes = d := by
  induction peers with
  | nil => cases h
  | cons peer peers ih =>
      unfold fetchFromPeers at h
      split at h
      · rename_i served hserved
        cases h
        exact of_fetchBlobFromPeer hserved
      · exact ih h

/-- Where no peer serves what is asked for, nothing is fetched. -/
theorem fetchFromPeers_eq_none {request : LanPeer → LanRequest} {reply : LanRequest → LanReply}
    {expectedHash : Option Digest} {peers : List LanPeer}
    (h : ∀ peer ∈ peers, ∀ bytes,
      fetchBlobFromPeer blake3 expectedHash (reply (request peer)) ≠ .ok bytes) :
    (fetchFromPeers blake3 request reply expectedHash peers).1 = none := by
  induction peers with
  | nil => rfl
  | cons peer peers ih =>
      unfold fetchFromPeers
      split
      · rename_i bytes hbytes
        exact absurd hbytes (h peer List.mem_cons_self bytes)
      · exact ih fun peer' hpeer' => h peer' (List.mem_cons_of_mem peer hpeer')

/-- A request goes to one of the peers. -/
theorem of_mem_fetchFromPeers {request : LanPeer → LanRequest} {reply : LanRequest → LanReply}
    {expectedHash : Option Digest} {peers : List LanPeer} {asked : LanRequest}
    (h : asked ∈ (fetchFromPeers blake3 request reply expectedHash peers).2) :
    ∃ peer ∈ peers, asked = request peer := by
  induction peers with
  | nil => simp [fetchFromPeers] at h
  | cons peer peers ih =>
      unfold fetchFromPeers at h
      split at h
      · exact ⟨peer, List.mem_cons_self, List.mem_singleton.mp h⟩
      · rcases List.mem_cons.mp h with rfl | hrest
        · exact ⟨peer, List.mem_cons_self, rfl⟩
        · obtain ⟨peer', hpeer', heq⟩ := ih hrest
          exact ⟨peer', List.mem_cons_of_mem peer hpeer', heq⟩

/-- A peer that may be asked has the client's tenant; both may have none. -/
theorem mem_eligiblePeers {peers : List LanPeer} {localTenantId : Option String} {peer : LanPeer} :
    peer ∈ eligiblePeers peers localTenantId ↔
      peer ∈ peers ∧ tenantOf peer.tenantId = tenantOf localTenantId := by
  unfold eligiblePeers
  rw [List.mem_filter]
  rcases tenantOf localTenantId with _ | a
  · rcases tenantOf peer.tenantId with _ | b
    · simp
    · simp
  · rcases tenantOf peer.tenantId with _ | b
    · simp
    · simp [eq_comm]

/-- A snapshot has the peers of the registry that were seen lately. -/
theorem of_mem_snapshot {r : LanPeerRegistry} {maxAgeSecs now : ℤ} {peer : LanPeer}
    (h : peer ∈ (r.snapshot maxAgeSecs now).2) :
    (∃ name, r.peers.lookup name = some peer) ∧ now - peer.lastSeenUnix ≤ maxAgeSecs := by
  unfold LanPeerRegistry.snapshot at h
  simp only [List.mem_insertionSort, List.mem_map] at h
  obtain ⟨⟨name, peer'⟩, hmem, rfl⟩ := h
  have hlookup := Table.mem_entries_iff.mp hmem
  rw [Table.lookup_eraseWhere, Option.filter_eq_some_iff] at hlookup
  obtain ⟨hpeer, hage⟩ := hlookup
  exact ⟨⟨name, hpeer⟩, by simpa using hage⟩

namespace LanFetchContext

variable {ctx : LanFetchContext} {now : ℤ} {clientBuilt : Bool} {reply : LanRequest → LanReply}
  {share : String} {path : Path}

theorem of_tryLanFetch {d : Digest} {bytes : Bytes}
    (h : (ctx.tryLanFetch blake3 now clientBuilt reply share path (some d)).1 = some bytes) :
    blake3 bytes = d := by
  unfold tryLanFetch at h
  split_ifs at h
  exact of_fetchFromPeers h

/-- **Who is asked.** A peer that gets a request is in the registry, was seen lately and has the
client's tenant. -/
theorem of_mem_requests {expectedHash : Option Digest} {asked : LanRequest}
    (h : asked ∈ (ctx.tryLanFetch blake3 now clientBuilt reply share path expectedHash).2) :
    tenantOf asked.peer.tenantId = tenantOf ctx.tenantId ∧
      (∃ name, ctx.registry.peers.lookup name = some asked.peer) ∧
        now - asked.peer.lastSeenUnix ≤ peerTtlSecs := by
  unfold tryLanFetch at h
  split_ifs at h
  · obtain ⟨peer, hpeer, rfl⟩ := of_mem_fetchFromPeers h
    obtain ⟨hsnapshot, htenant⟩ := mem_eligiblePeers.mp hpeer
    exact ⟨htenant, of_mem_snapshot hsnapshot⟩
  · cases h
  · cases h

end LanFetchContext

end

end DiskArcana.Client
