import DiskArcana.Lib.Bytes
import DiskArcana.Lib.Trace
import DiskArcana.Publisher.Verifier

/-!
# Proofs that are rejected

A proof says which key of the key store it is to be checked with, and the first key that is fetched for a
certificate is kept for it before the signature is looked at. So a call that is rejected may decide
what the calls after it are checked with, and a caller who has a key in the key store is checked with it.

Neither happens where every proof names the key that its certificate is bound to
(`bindingLaw_of_namesOwnKey`). The signed payload is not to blame: it determines what was signed
(`buildSignedPayload_injective`).
-/

namespace DiskArcana.Publisher

open DiskArcana.Core DiskArcana.Lib DiskArcana.Acl

/-! ## The payload -/

theorem toLeBytes_injective : Function.Injective toLeBytes := by
  intro m n h
  have hm := m.toNat_lt
  have hn := n.toNat_lt
  simp only [toLeBytes, List.range, List.range.loop, List.map_cons, List.map_nil, List.cons.injEq,
    and_true, ← UInt8.toNat_inj] at h
  simp [Nat.shiftRight_eq_div_pow] at h
  apply UInt64.toNat_inj.mp
  omega

theorem length_toLeBytes (n : UInt64) : (toLeBytes n).length = 8 := by
  simp [toLeBytes]

/-- What was signed can be read off the payload, if share and path hold no NUL. -/
theorem buildSignedPayload_injective {file file' : PublishedFile} {share share' : String}
    {signedAtUnixMs signedAtUnixMs' : Int64} {counter counter' : UInt64}
    (hshare : Char.ofNat 0 ∉ share.toList) (hshare' : Char.ofNat 0 ∉ share'.toList)
    (hpath : Char.ofNat 0 ∉ file.path.toList) (hpath' : Char.ofNat 0 ∉ file'.path.toList)
    (h : buildSignedPayload file share signedAtUnixMs counter =
      buildSignedPayload file' share' signedAtUnixMs' counter') :
    file = file' ∧ share = share' ∧ signedAtUnixMs = signedAtUnixMs' ∧ counter = counter' := by
  simp only [buildSignedPayload, List.append_assoc, List.cons_append, List.nil_append] at h
  obtain ⟨hhash, h⟩ := List.append_inj h (by rw [List.Vector.toList_length, List.Vector.toList_length])
  obtain ⟨hshares, h⟩ := Bytes.append_cons_inj (Bytes.zero_notMem_toUTF8 hshare)
    (Bytes.zero_notMem_toUTF8 hshare') h
  obtain ⟨hpaths, h⟩ := Bytes.append_cons_inj (Bytes.zero_notMem_toUTF8 hpath)
    (Bytes.zero_notMem_toUTF8 hpath') h
  obtain ⟨htimes, hcounters⟩ := List.append_inj h (by rw [length_toLeBytes, length_toLeBytes])
  obtain ⟨path, blake3⟩ := file
  obtain ⟨path', blake3'⟩ := file'
  cases Bytes.toUTF8_injective hpaths
  cases List.Vector.toList_injective hhash
  exact ⟨rfl, Bytes.toUTF8_injective hshares,
    congrArg Int64.ofUInt64 (toLeBytes_injective htimes), toLeBytes_injective hcounters⟩

/-! ## Calls -/

/-- A call, with what the clock and the database answer to it. -/
structure VerifyCall where
  nowMs : ℤ
  keyRead : Except String Unit
  keyWriteOk : Bool
  counterRead : Except String Unit
  counterWrite : Except String Unit
  proof : PublisherSignatureProof
  certFp : CertFingerprint
  share : String
  file : PublishedFile

/-- The bytes that the proof of a call is about. -/
def VerifyCall.payload (call : VerifyCall) : Bytes :=
  buildSignedPayload call.file call.share call.proof.signedAtUnixMs call.proof.counter

section

variable (keyError : Digest → Option String) (ed25519 : Digest → Bytes → Bytes → Bool)
  (vault : String → Except VerifyError Digest)

def VerifyCall.env (call : VerifyCall) : VerifyEnv where
  nowMs := call.nowMs
  keyRead := call.keyRead
  fetchPubkey := vault
  keyWriteOk := call.keyWriteOk
  counterRead := call.counterRead
  counterWrite := call.counterWrite

/-- The answer to a call. -/
def answer (db : PublisherDb) (call : VerifyCall) : Except VerifyError Unit :=
  (verify keyError ed25519 db (call.env vault) call.proof call.certFp call.share call.file).1

/-- The tables after it. -/
def afterCall (db : PublisherDb) (call : VerifyCall) : PublisherDb :=
  (verify keyError ed25519 db (call.env vault) call.proof call.certFp call.share call.file).2

/-- The calls that were accepted. -/
def acceptedCalls (db : PublisherDb) (calls : List VerifyCall) : List VerifyCall :=
  (Trace.history (afterCall keyError ed25519 vault) db calls).filterMap fun x =>
    if (answer keyError ed25519 vault x.1 x.2).isOk then some x.2 else none

/-- A rejected proof has no effect, and an accepted one is signed with the certificate's own key. -/
structure BindingLaw (bound : CertFingerprint → Digest) (db : PublisherDb) (calls : List VerifyCall) :
    Prop where
  unaffected : ∀ pre call post, calls = pre ++ call :: post →
    answer keyError ed25519 vault (Trace.run (afterCall keyError ed25519 vault) db pre) call =
      answer keyError ed25519 vault (Trace.run (afterCall keyError ed25519 vault) db
        (acceptedCalls keyError ed25519 vault db pre)) call
  ownKey : ∀ pre call post, calls = pre ++ call :: post →
    answer keyError ed25519 vault (Trace.run (afterCall keyError ed25519 vault) db pre) call = .ok () →
      ed25519 (bound call.certFp) call.payload call.proof.ed25519Signature = true

/-- The proof names the key that its certificate is bound to. -/
def NamesOwnKey (bound : CertFingerprint → Digest) (call : VerifyCall) : Prop :=
  vault call.proof.vaultKeyRef = .ok (bound call.certFp)

/-- The verdict under a key.
Source: `publisher/mod.rs`, `verify` -/
def judge (key : Digest) (counters : Table CounterKey CounterRow) (call : VerifyCall) :
    Except VerifyError Unit × Table CounterKey CounterRow :=
  match call.keyRead with
  | .error e => (.error (.db e), counters)
  | .ok () =>
    match keyError key with
    | some message => (.error (.invalidPublicKey message), counters)
    | none =>
      if call.proof.ed25519Signature.length = 64 ∧
          ed25519 key call.payload call.proof.ed25519Signature = true then
        match fetchMax counters call.counterRead (call.certFp, call.share) call.proof.counter with
        | .error e => (.error e, counters)
        | .ok () =>
          advance counters call.counterWrite call.nowMs (call.certFp, call.share) call.proof.counter
      else (.error .signatureMismatch, counters)

end

variable {keyError : Digest → Option String} {ed25519 : Digest → Bytes → Bytes → Bool}
  {vault : String → Except VerifyError Digest} {bound : CertFingerprint → Digest}
  {db : PublisherDb} {call : VerifyCall} {calls : List VerifyCall}

/-! ## Under a condition on the keys that are kept -/

/-- The keys that are kept are those that the certificates are bound to. -/
def KeepsBound (bound : CertFingerprint → Digest) (keys : Table CertFingerprint KeyRow) : Prop :=
  ∀ certFp row, keys.lookup certFp = some row → row.pubkeyEd25519 = (bound certFp).toList

theorem KeepsBound.insert {keys : Table CertFingerprint KeyRow} (h : KeepsBound bound keys)
    (certFp : CertFingerprint) (keyRef : String) (nowMs : ℤ) :
    KeepsBound bound (keys.insert certFp ⟨keyRef, (bound certFp).toList, nowMs⟩) := by
  intro certFp' row hrow
  rw [Table.lookup_insert_eq_ite] at hrow
  split_ifs at hrow with hcert
  · cases hrow
    rw [hcert]
  · exact h certFp' row hrow

theorem getPubkey_of_keepsBound (h : KeepsBound bound db.keys) (hname : NamesOwnKey vault bound call) :
    ∃ keys, KeepsBound bound keys ∧
      getPubkey db (call.env vault) call.certFp call.proof.vaultKeyRef =
        (match call.keyRead with
          | .error e => .error (.db e)
          | .ok () => .ok (bound call.certFp), { db with keys := keys }) := by
  have hfetched : ∃ keys, KeepsBound bound keys ∧
      (if call.keyWriteOk = true then
        PublisherDb.mk (db.keys.insert call.certFp
          ⟨call.proof.vaultKeyRef, (bound call.certFp).toList, call.nowMs⟩) db.counters
      else db) = ⟨keys, db.counters⟩ := by
    split_ifs
    · exact ⟨_, h.insert _ _ _, rfl⟩
    · exact ⟨db.keys, h, rfl⟩
  obtain ⟨keys, hkeys, hdb⟩ := hfetched
  unfold NamesOwnKey at hname
  unfold getPubkey
  simp only [VerifyCall.env, hname]
  rcases call.keyRead with e | _
  · exact ⟨db.keys, h, rfl⟩
  · dsimp only
    rcases hrow : db.keys.lookup call.certFp with _ | row
    · exact ⟨keys, hkeys, congrArg (Prod.mk _) hdb⟩
    · dsimp only
      have hkey := h call.certFp row hrow
      have hlength : row.pubkeyEd25519.length = 32 := by rw [hkey, List.Vector.toList_length]
      by_cases hfresh : call.nowMs - row.fetchedAt < 24 * 3600 * 1000
      · refine ⟨db.keys, h, ?_⟩
        rw [if_pos hfresh, dif_pos hlength,
          show (⟨row.pubkeyEd25519, hlength⟩ : Digest) = bound call.certFp from Subtype.ext hkey]
      · rw [if_neg hfresh]
        exact ⟨keys, hkeys, congrArg (Prod.mk _) hdb⟩

variable (keyError ed25519) in
/-- A call is judged under the key of its certificate, and keeps that key at most. -/
theorem verify_of_keepsBound (h : KeepsBound bound db.keys) (hname : NamesOwnKey vault bound call) :
    ∃ keys, KeepsBound bound keys ∧
      verify keyError ed25519 db (call.env vault) call.proof call.certFp call.share call.file =
        ((judge keyError ed25519 (bound call.certFp) db.counters call).1,
          ⟨keys, (judge keyError ed25519 (bound call.certFp) db.counters call).2⟩) := by
  obtain ⟨keys, hkeys, hget⟩ := getPubkey_of_keepsBound h hname
  refine ⟨keys, hkeys, ?_⟩
  unfold verify judge VerifyCall.payload
  rw [hget]
  rcases call.keyRead with e | _
  · rfl
  · dsimp only
    rcases keyError (bound call.certFp) with _ | message
    · dsimp only
      split_ifs
      · unfold checkAndAdvanceCounter
        dsimp only [VerifyCall.env]
        rcases fetchMax db.counters call.counterRead (call.certFp, call.share) call.proof.counter
          with e | _
        · rfl
        · rfl
      · rfl
    · rfl

/-- A verdict that is an error leaves the counters as they were. -/
theorem judge_of_error {key : Digest} {counters : Table CounterKey CounterRow} {e : VerifyError}
    (h : (judge keyError ed25519 key counters call).1 = .error e) :
    (judge keyError ed25519 key counters call).2 = counters := by
  revert h
  unfold judge
  rcases call.keyRead with _ | _
  · exact fun _ => rfl
  · dsimp only
    rcases keyError key with _ | message
    · dsimp only
      split_ifs
      · rcases fetchMax counters call.counterRead (call.certFp, call.share) call.proof.counter
          with _ | _
        · exact fun _ => rfl
        · rcases call.counterWrite with _ | _
          · exact fun _ => rfl
          · exact fun h => nomatch h
      · exact fun _ => rfl
    · exact fun _ => rfl

/-- A verdict that accepts a proof has found the signature good. -/
theorem signed_of_judge {key : Digest} {counters : Table CounterKey CounterRow}
    (h : (judge keyError ed25519 key counters call).1 = .ok ()) :
    ed25519 key call.payload call.proof.ed25519Signature = true := by
  revert h
  unfold judge
  rcases call.keyRead with _ | _
  · exact fun h => nomatch h
  · dsimp only
    rcases keyError key with _ | message
    · dsimp only
      split_ifs with hsigned
      · exact fun _ => hsigned.2
      · exact fun h => nomatch h
    · exact fun h => nomatch h

/-! ## Runs -/

section

variable {db₀ : PublisherDb}

/-- After the accepted calls alone the counters are the same, and the same keys are kept at most. -/
structure SameVerdicts (bound : CertFingerprint → Digest) (db db' : PublisherDb) : Prop where
  counters : db'.counters = db.counters
  keys : KeepsBound bound db.keys
  keys' : KeepsBound bound db'.keys

theorem SameVerdicts.answer_eq {db' : PublisherDb} (h : SameVerdicts bound db db')
    (hname : NamesOwnKey vault bound call) :
    answer keyError ed25519 vault db call = answer keyError ed25519 vault db' call := by
  obtain ⟨_, -, hverify⟩ := verify_of_keepsBound keyError ed25519 h.keys hname
  obtain ⟨_, -, hverify'⟩ := verify_of_keepsBound keyError ed25519 h.keys' hname
  rw [answer, answer, hverify, hverify', h.counters]

theorem acceptedCalls_snoc :
    acceptedCalls keyError ed25519 vault db (calls ++ [call]) =
      acceptedCalls keyError ed25519 vault db calls ++
        if (answer keyError ed25519 vault (Trace.run (afterCall keyError ed25519 vault) db calls)
          call).isOk then [call] else [] := by
  unfold acceptedCalls
  rw [Trace.history_snoc, List.filterMap_append]
  congr 1
  simp only [List.filterMap_cons, List.filterMap_nil]
  split_ifs <;> rfl

theorem sameVerdicts_acceptedCalls (hkeys : KeepsBound bound db.keys)
    (h : ∀ call ∈ calls, NamesOwnKey vault bound call) :
    SameVerdicts bound (Trace.run (afterCall keyError ed25519 vault) db calls)
      (Trace.run (afterCall keyError ed25519 vault) db
        (acceptedCalls keyError ed25519 vault db calls)) := by
  induction calls using List.reverseRecOn with
  | nil => exact ⟨rfl, hkeys, hkeys⟩
  | append_singleton calls call ih =>
      have hsame := ih fun c hc => h c (List.mem_append_left _ hc)
      have hname := h call (List.mem_append_right _ List.mem_cons_self)
      rw [acceptedCalls_snoc, Trace.run_snoc]
      generalize Trace.run (afterCall keyError ed25519 vault) db calls = full at hsame ⊢
      rw [Trace.run_append]
      generalize Trace.run (afterCall keyError ed25519 vault) db
        (acceptedCalls keyError ed25519 vault db calls) = reduced at hsame ⊢
      obtain ⟨keys, hkept, hverify⟩ :=
        verify_of_keepsBound keyError ed25519 hsame.keys hname
      obtain ⟨keys', hkept', hverify'⟩ :=
        verify_of_keepsBound keyError ed25519 hsame.keys' hname
      rw [hsame.counters] at hverify'
      have hafter : afterCall keyError ed25519 vault full call = ⟨keys, _⟩ := congrArg Prod.snd hverify
      have hafter' : afterCall keyError ed25519 vault reduced call = ⟨keys', _⟩ :=
        congrArg Prod.snd hverify'
      have hanswer : answer keyError ed25519 vault full call = _ := congrArg Prod.fst hverify
      split_ifs with hok
      · show SameVerdicts bound _ (afterCall keyError ed25519 vault reduced call)
        rw [hafter, hafter']
        exact ⟨rfl, hkept, hkept'⟩
      · have hcounters : (judge keyError ed25519 (bound call.certFp) full.counters call).2 =
            full.counters := by
          rcases hjudge : (judge keyError ed25519 (bound call.certFp) full.counters call).1 with e | _
          · exact judge_of_error hjudge
          · rw [hanswer, hjudge] at hok
            exact absurd rfl hok
        rw [hafter, hcounters]
        exact ⟨hsame.counters, hkept, hsame.keys'⟩

end

/-- **When a rejected proof has no effect**, and an accepted one is signed with the certificate's own
key: when every proof names that key. What was signed is what the payload says in any case. -/
theorem bindingLaw_of_namesOwnKey (counters : Table CounterKey CounterRow) (calls : List VerifyCall) :
    ((∀ call ∈ calls, NamesOwnKey vault bound call) →
      BindingLaw keyError ed25519 vault bound ⟨∅, counters⟩ calls) ∧
    ∀ file file' share share' signedAtUnixMs signedAtUnixMs' counter counter',
      Char.ofNat 0 ∉ String.toList share → Char.ofNat 0 ∉ String.toList share' →
      Char.ofNat 0 ∉ file.path.toList → Char.ofNat 0 ∉ file'.path.toList →
      buildSignedPayload file share signedAtUnixMs counter =
        buildSignedPayload file' share' signedAtUnixMs' counter' →
      file = file' ∧ share = share' ∧ signedAtUnixMs = signedAtUnixMs' ∧ counter = counter' := by
  refine ⟨fun h => ?_, fun file file' share share' signedAtUnixMs signedAtUnixMs' counter counter'
    hshare hshare' hpath hpath' heq =>
      buildSignedPayload_injective hshare hshare' hpath hpath' heq⟩
  have hempty : KeepsBound bound (∅ : Table CertFingerprint KeyRow) := fun _ _ hrow => nomatch hrow
  have hsame : ∀ pre call post, calls = pre ++ call :: post → NamesOwnKey vault bound call ∧
      SameVerdicts bound (Trace.run (afterCall keyError ed25519 vault) ⟨∅, counters⟩ pre)
        (Trace.run (afterCall keyError ed25519 vault) ⟨∅, counters⟩
          (acceptedCalls keyError ed25519 vault ⟨∅, counters⟩ pre)) := by
    rintro pre call post rfl
    exact ⟨h call (List.mem_append_right _ List.mem_cons_self),
      sameVerdicts_acceptedCalls hempty fun c hc => h c (List.mem_append_left _ hc)⟩
  constructor
  · intro pre call post hcalls
    obtain ⟨hname, hsame⟩ := hsame pre call post hcalls
    exact hsame.answer_eq hname
  · intro pre call post hcalls hok
    obtain ⟨hname, hsame⟩ := hsame pre call post hcalls
    obtain ⟨_, -, hverify⟩ :=
      verify_of_keepsBound keyError ed25519 hsame.keys hname
    rw [answer, hverify] at hok
    exact signed_of_judge hok

/-! ## Two keys in the key store -/

/-- The key that the certificate is bound to, and another one. -/
def ourKey : Digest := List.Vector.replicate 32 1

def theirKey : Digest := List.Vector.replicate 32 2

/-- A key store with both. -/
def sampleVault (keyRef : String) : Except VerifyError Digest :=
  if keyRef = "transit/keys/ours" then .ok ourKey
  else if keyRef = "transit/keys/theirs" then .ok theirKey
  else .error (.keyFetchFailed "no such key")

/-- A signature is the key, and the hash that comes first in the payload. -/
def sampleSign (key : Digest) (payload : Bytes) : Bytes := key.toList ++ payload.take 32

def sampleEd25519 (key : Digest) (payload signature : Bytes) : Bool := signature = sampleSign key payload

/-- A call about one file that names a key, at a time and with a counter. -/
def sampleVerify (keyRef : String) (signature : Bytes) (nowMs : ℤ) (counter : UInt64) : VerifyCall where
  nowMs := nowMs
  keyRead := .ok ()
  keyWriteOk := true
  counterRead := .ok ()
  counterWrite := .ok ()
  proof := ⟨signature, keyRef, 0, counter⟩
  certFp := zeroDigest
  share := "wiki"
  file := ⟨"a.md", zeroDigest⟩

/-- A call with our signature. -/
def ourCall (nowMs : ℤ) (counter : UInt64) : VerifyCall :=
  sampleVerify "transit/keys/ours" (sampleSign ourKey (List.replicate 32 0)) nowMs counter

/-- A rejected proof and a good one that both name our key. -/
theorem bindingLaw_ourCalls :
    BindingLaw (fun _ => none) sampleEd25519 sampleVault (fun _ => ourKey) ⟨∅, ∅⟩
      [sampleVerify "transit/keys/ours" [] 0 1, ourCall 1000 2] := by
  refine (bindingLaw_of_namesOwnKey ∅ _).1 fun call hcall => ?_
  rcases List.mem_pair.mp hcall with rfl | rfl <;> rfl

/-- A rejected proof that names their key makes the server reject ours a second later. -/
theorem not_bindingLaw_theirKey :
    ¬ BindingLaw (fun _ => none) sampleEd25519 sampleVault (fun _ => ourKey) ⟨∅, ∅⟩
      [sampleVerify "transit/keys/theirs" [] 0 1, ourCall 1000 2] := by
  intro h
  have hsame := h.unaffected [sampleVerify "transit/keys/theirs" [] 0 1] (ourCall 1000 2) [] rfl
  revert hsame
  decide +kernel

end DiskArcana.Publisher
