import Mathlib.Algebra.Order.Group.Unbundled.Int
import DiskArcana.Accounts.SignedTokens
import DiskArcana.Lib.OsPath

/-!
# Signed webhooks

A webhook carries a header `t=<seconds>,v1=<hex>`: the time, and the HMAC of the time, a dot and the body as
text. The server signs the webhooks it sends (`format_disk_signature_header`) and has the verifier for those
who receive them; it verifies the webhooks of the payment provider by the same scheme, with any number of
`v1` parts.

A header that was written is read back (`parseDiskHeader_format`, `parseStripeHeader_format`), and what is
signed determines the time and the text of the body (`signedText_inj`).
-/

namespace DiskArcana.Webhooks

open DiskArcana.Lib DiskArcana.Lib.Text DiskArcana.Accounts

/-! ## Signing -/

/-- The time, a dot and the body as text. -/
def signedText (timestamp : ℤ) (body : Bytes) : Text := showInt timestamp ++ '.' :: OsPath.toStringLossy body

section Signing

variable (deps : Deps)

/-- Source: `webhook_sig.rs`, `compute_disk_webhook_signature` -/
def computeDiskWebhookSignature (signingSecret : Text) (timestamp : ℤ) (body : Bytes) : Text :=
  hex (deps.hmac (utf8 signingSecret) (utf8 (signedText timestamp body)))

/-- Source: `stripe_sig.rs`, `compute_v1_signature` -/
def computeV1Signature (webhookSecret : Text) (timestamp : ℤ) (body : Bytes) : Text :=
  hex (deps.hmac (utf8 webhookSecret) (utf8 (signedText timestamp body)))

end Signing

/-- Source: `webhook_sig.rs`, `format_disk_signature_header` -/
def formatDiskSignatureHeader (timestamp : ℤ) (v1Hex : Text) : Text :=
  "t=".toList ++ showInt timestamp ++ ",v1=".toList ++ v1Hex

/-! ## The verifier for webhooks of the server -/

inductive DiskWebhookSigError where
  | missingHeader
  | malformedHeader
  | timestampSkew
  | mismatch
  | invalidSecret
  deriving DecidableEq

/-- One part of the header; the last of a kind counts. -/
def readDiskPart (found : Option ℤ × Option Text) (part : Text) : Option ℤ × Option Text :=
  match stripPrefix "t=".toList (trim part) with
  | some ts => (parseI64 ts, found.2)
  | none =>
    match stripPrefix "v1=".toList (trim part) with
    | some sig => (found.1, some sig)
    | none => found

/-- Source: `webhook_sig.rs`, `parse_signature_header` -/
def parseDiskHeader (header : Text) : Except DiskWebhookSigError (ℤ × Text) :=
  match (OsPath.splitAt ',' header).foldl readDiskPart (none, none) with
  | (some ts, some sig) => if sig = [] then .error .malformedHeader else .ok (ts, sig)
  | _ => .error .malformedHeader

/-- Source: `webhook_sig.rs`, `constant_time_eq` -/
def constantTimeEq (a b : Text) : Bool :=
  if (utf8 a).length ≠ (utf8 b).length then false
  else ((utf8 a).zip (utf8 b)).foldl (fun acc p => acc ||| (p.1 ^^^ p.2)) 0 = 0

/-- The arithmetic is that of 64 bits.
Source: `webhook_sig.rs`, `verify_disk_webhook_signature` -/
def verifyDiskWebhookSignature (deps : Deps) (now : ℤ) (header : Text) (body : Bytes) (signingSecret : Text)
    (toleranceSecs : ℤ) : Except DiskWebhookSigError ℤ :=
  if signingSecret = [] then .error .invalidSecret
  else
    match parseDiskHeader header with
    | .error e => .error e
    | .ok (timestamp, v1) =>
      if toI64 (toI64 (now - timestamp)).natAbs > toleranceSecs then .error .timestampSkew
      else if constantTimeEq (computeDiskWebhookSignature deps signingSecret timestamp body) v1 then
        .ok timestamp
      else .error .mismatch

/-! ## The verifier for webhooks of the payment provider -/

inductive StripeSigError where
  | missingHeader
  | malformedHeader
  | missingTimestamp
  | missingV1Signature
  | timestampSkew (ageSecs toleranceSecs : ℕ)
  | signatureMismatch
  | invalidSecret
  deriving DecidableEq

def readStripePart (found : Option ℤ × List Text) (part : Text) :
    Except StripeSigError (Option ℤ × List Text) :=
  match stripPrefix "t=".toList (trim part) with
  | some ts =>
    match parseI64 ts with
    | some t => .ok (some t, found.2)
    | none => .error .malformedHeader
  | none =>
    match stripPrefix "v1=".toList (trim part) with
    | some sig => .ok (found.1, if sig = [] then found.2 else found.2 ++ [sig])
    | none => .ok found

/-- Source: `stripe_sig.rs`, `parse_signature_header` -/
def parseStripeHeader (header : Text) : Except StripeSigError (ℤ × List Text) :=
  match (OsPath.splitAt ',' header).foldlM readStripePart (none, []) with
  | .error e => .error e
  | .ok (none, _) => .error .missingTimestamp
  | .ok (some t, sigs) => if sigs = [] then .error .missingV1Signature else .ok (t, sigs)

/-- The difference saturates.
Source: `stripe_sig.rs`, `check_timestamp_skew` -/
def checkTimestampSkew (now timestamp : ℤ) (toleranceSecs : ℕ) : Except StripeSigError Unit :=
  let age := (max (-2 ^ 63) (min (2 ^ 63 - 1) (now - timestamp))).natAbs
  if age > toleranceSecs then .error (.timestampSkew age toleranceSecs) else .ok ()

/-- Source: `stripe_sig.rs`, `constant_time_eq_hex` -/
def constantTimeEqHex (a b : Text) : Bool :=
  if (utf8 a).length ≠ (utf8 b).length then false else utf8 a = utf8 b

/-- Source: `stripe_sig.rs`, `verify_stripe_webhook_signature` -/
def verifyStripeWebhookSignature (deps : Deps) (now : ℤ) (header : Text) (body : Bytes) (webhookSecret : Text)
    (toleranceSecs : ℕ) : Except StripeSigError Unit :=
  if webhookSecret = [] then .error .invalidSecret
  else
    match parseStripeHeader header with
    | .error e => .error e
    | .ok (timestamp, sigs) =>
      match checkTimestampSkew now timestamp toleranceSecs with
      | .error e => .error e
      | .ok () =>
        if sigs.any fun sig => constantTimeEqHex sig (computeV1Signature deps webhookSecret timestamp body) then
          .ok ()
        else .error .signatureMismatch

/-! ## Comparing -/

theorem utf8_inj {s t : Text} : utf8 s = utf8 t ↔ s = t := OsPath.utf8_injective.eq_iff

theorem constantTimeEqHex_iff {a b : Text} : constantTimeEqHex a b = true ↔ a = b := by
  unfold constantTimeEqHex
  split_ifs with hlength
  · constructor
    · intro h
      cases h
    · rintro rfl
      exact absurd rfl hlength
  · rw [decide_eq_true_eq, utf8_inj]

/-- The differences of two lists of bytes, put together, are zero when there are none. -/
theorem foldl_xor_eq_zero_iff {a b : Bytes} (hlength : a.length = b.length) (acc : UInt8) :
    (a.zip b).foldl (fun acc p => acc ||| (p.1 ^^^ p.2)) acc = 0 ↔ acc = 0 ∧ a = b := by
  induction a generalizing b acc with
  | nil =>
      obtain rfl := List.length_eq_zero_iff.mp hlength.symm
      simp
  | cons x a ih =>
      rcases b with _ | ⟨y, b⟩
      · cases hlength
      · rw [List.zip_cons_cons, List.foldl_cons, ih (Nat.succ.inj hlength), UInt8.or_eq_zero_iff,
          UInt8.xor_eq_zero_iff, List.cons.injEq, and_assoc]

theorem constantTimeEq_iff {a b : Text} : constantTimeEq a b = true ↔ a = b := by
  unfold constantTimeEq
  split_ifs with hlength
  · constructor
    · intro h
      cases h
    · rintro rfl
      exact absurd rfl hlength
  · rw [decide_eq_true_eq, foldl_xor_eq_zero_iff (not_not.mp hlength), utf8_inj]
    exact and_iff_right rfl

/-! ## Reading what was written -/

theorem hex_ne_nil {bytes : Bytes} (h : bytes ≠ []) : hex bytes ≠ [] := by
  rcases bytes with _ | ⟨b, bytes⟩
  · exact absurd rfl h
  · exact List.cons_ne_nil _ _

/-- A character of a number. -/
theorem of_mem_showInt {n : ℤ} {c : Char} (hc : c ∈ showInt n) : c = '-' ∨ c.isDigit = true := by
  by_contra hne
  rw [not_or, Bool.not_eq_true] at hne
  exact notMem_showInt hne.2 hne.1 n hc

/-- What stands in a part of a header: neither a comma nor white space. -/
def IsPlain (t : Text) : Prop := ∀ c ∈ t, c ≠ ',' ∧ isWhitespace c = false

theorem isPlain_time : IsPlain "t=".toList := by
  have htext : "t=".toList = ['t', '='] := rfl
  intro c hc
  rw [htext, List.mem_pair] at hc
  obtain rfl | rfl := hc
  · exact ⟨by decide, rfl⟩
  · exact ⟨by decide, rfl⟩

theorem isPlain_v1 : IsPlain "v1=".toList := by
  have htext : "v1=".toList = ['v', '1', '='] := rfl
  intro c hc
  rw [htext, List.mem_cons, List.mem_pair] at hc
  obtain rfl | rfl | rfl := hc
  · exact ⟨by decide, rfl⟩
  · exact ⟨by decide, rfl⟩
  · exact ⟨by decide, rfl⟩

theorem isPlain_showInt (n : ℤ) : IsPlain (showInt n) := by
  intro c hc
  rcases of_mem_showInt hc with rfl | hdigit
  · decide
  · have hlo : 48 ≤ c.toNat ∧ c.toNat ≤ 57 := by
      simpa [Char.isDigit, UInt32.le_iff_toNat_le] using hdigit
    refine ⟨?_, isWhitespace_of_visible (by omega) (by omega)⟩
    rintro rfl
    revert hlo
    decide

theorem isPlain_hex (bytes : Bytes) : IsPlain (hex bytes) := by
  intro c hc
  obtain ⟨n, hn, rfl⟩ := of_mem_hex hc
  have hall : ∀ n < 16, hexDigit n ≠ ',' ∧ isWhitespace (hexDigit n) = false := by decide
  exact hall n hn

theorem IsPlain.append {s t : Text} (hs : IsPlain s) (ht : IsPlain t) : IsPlain (s ++ t) := by
  intro c hc
  rcases List.mem_append.mp hc with hc | hc
  · exact hs c hc
  · exact ht c hc

theorem IsPlain.trim_eq {t : Text} (h : IsPlain t) : trim t = t := trim_eq_self fun c hc => (h c hc).2

/-- The two parts of a header. -/
theorem splitAt_format {timestamp : ℤ} {v1 : Text} (hv1 : IsPlain v1) :
    OsPath.splitAt ',' (formatDiskSignatureHeader timestamp v1) =
      ["t=".toList ++ showInt timestamp, "v1=".toList ++ v1] := by
  have htime : IsPlain ("t=".toList ++ showInt timestamp) :=
    isPlain_time.append (isPlain_showInt timestamp)
  have hsig : IsPlain ("v1=".toList ++ v1) := isPlain_v1.append hv1
  have hformat : formatDiskSignatureHeader timestamp v1 =
      ("t=".toList ++ showInt timestamp) ++ ',' :: ("v1=".toList ++ v1) := by
    simp [formatDiskSignatureHeader]
  rw [hformat, OsPath.splitAt_append fun h => (htime _ h).1 rfl, OsPath.splitAt_of_notMem fun h => (hsig _ h).1 rfl]

theorem stripPrefix_append (pre t : Text) : stripPrefix pre (pre ++ t) = some t := stripPrefix_eq_some.mpr rfl

/-- The parts of a header as the two verifiers see them. -/
theorem trim_time (timestamp : ℤ) :
    stripPrefix "t=".toList (trim ("t=".toList ++ showInt timestamp)) = some (showInt timestamp) := by
  rw [(isPlain_time.append (isPlain_showInt timestamp)).trim_eq]
  exact stripPrefix_append _ _

theorem trim_sig {v1 : Text} (hv1 : IsPlain v1) :
    stripPrefix "t=".toList (trim ("v1=".toList ++ v1)) = none ∧
      stripPrefix "v1=".toList (trim ("v1=".toList ++ v1)) = some v1 := by
  rw [(isPlain_v1.append hv1).trim_eq]
  refine ⟨?_, stripPrefix_append _ _⟩
  rw [← Option.not_isSome_iff_eq_none, Option.isSome_iff_exists]
  rintro ⟨rest, h⟩
  have hhead := congrArg List.head? (stripPrefix_eq_some.mp h)
  revert hhead
  simp

section Format

variable {timestamp : ℤ} {v1 : Text}

/-- **A header is read as it was written.** -/
theorem parseDiskHeader_format (hlo : -2 ^ 63 ≤ timestamp) (hhi : timestamp < 2 ^ 63) (hv1 : IsPlain v1)
    (hne : v1 ≠ []) : parseDiskHeader (formatDiskSignatureHeader timestamp v1) = .ok (timestamp, v1) := by
  have htime : readDiskPart (none, none) ("t=".toList ++ showInt timestamp) = (some timestamp, none) := by
    simp only [readDiskPart, trim_time, parseI64_showInt hlo hhi]
  have hsig : readDiskPart (some timestamp, none) ("v1=".toList ++ v1) = (some timestamp, some v1) := by
    simp only [readDiskPart, (trim_sig hv1).1, (trim_sig hv1).2]
  unfold parseDiskHeader
  rw [splitAt_format hv1, List.foldl_cons, List.foldl_cons, List.foldl_nil, htime, hsig]
  exact if_neg hne

/-- The verifier of the payment provider reads the same header. -/
theorem parseStripeHeader_format (hlo : -2 ^ 63 ≤ timestamp) (hhi : timestamp < 2 ^ 63) (hv1 : IsPlain v1)
    (hne : v1 ≠ []) : parseStripeHeader (formatDiskSignatureHeader timestamp v1) = .ok (timestamp, [v1]) := by
  have htime : readStripePart (none, []) ("t=".toList ++ showInt timestamp) = .ok (some timestamp, []) := by
    simp only [readStripePart, trim_time, parseI64_showInt hlo hhi]
  have hsig : readStripePart (some timestamp, []) ("v1=".toList ++ v1) = .ok (some timestamp, [v1]) := by
    simp only [readStripePart, (trim_sig hv1).1, (trim_sig hv1).2, if_neg hne]
    rfl
  have hfold : (OsPath.splitAt ',' (formatDiskSignatureHeader timestamp v1)).foldlM readStripePart (none, []) =
      .ok (some timestamp, [v1]) := by
    rw [splitAt_format hv1, List.foldlM_cons, htime]
    show (List.foldlM readStripePart (some timestamp, []) ["v1=".toList ++ v1]) = _
    rw [List.foldlM_cons, hsig]
    rfl
  simp only [parseStripeHeader, hfold]
  exact if_neg (List.cons_ne_nil _ _)

end Format

/-! ## What is signed -/

/-- **What is signed** determines the time and the text of the body. -/
theorem signedText_inj {t t' : ℤ} {body body' : Bytes} :
    signedText t body = signedText t' body' ↔
      t = t' ∧ OsPath.toStringLossy body = OsPath.toStringLossy body' := by
  constructor
  · intro h
    have hdot : ∀ n : ℤ, '.' ∉ showInt n := notMem_showInt (by decide) (by decide)
    have hcut := congrArg (splitOnce '.') h
    rw [signedText, signedText, splitOnce_append (hdot t), splitOnce_append (hdot t'), Option.some.injEq,
      Prod.mk.injEq] at hcut
    refine ⟨?_, hcut.2⟩
    have hparse := congrArg parseInt hcut.1
    rw [parseInt_showInt, parseInt_showInt] at hparse
    exact Option.some.inj hparse
  · rintro ⟨rfl, hbody⟩
    rw [signedText, signedText, hbody]

/-! ## What is accepted -/

section Verifying

variable {deps : Deps} {secret header : Text} {now timestamp : ℤ} {body : Bytes}

/-- **The verifier for webhooks of the server.** -/
theorem verifyDisk_eq_ok_iff {tolerance : ℤ} :
    verifyDiskWebhookSignature deps now header body secret tolerance = .ok timestamp ↔
      secret ≠ [] ∧ toI64 (toI64 (now - timestamp)).natAbs ≤ tolerance ∧
        parseDiskHeader header = .ok (timestamp, computeDiskWebhookSignature deps secret timestamp body) := by
  unfold verifyDiskWebhookSignature
  constructor
  · intro h
    split_ifs at h with hsecret
    rcases hparse : parseDiskHeader header with e | ⟨t, v1⟩
    · simp only [hparse] at h
      cases h
    · simp only [hparse] at h
      split_ifs at h with hskew hsig
      cases h
      rw [constantTimeEq_iff] at hsig
      exact ⟨hsecret, not_lt.mp hskew, by rw [hsig]⟩
  · rintro ⟨hsecret, hskew, hparse⟩
    rw [if_neg hsecret]
    simp only [hparse]
    rw [if_neg (not_lt.mpr hskew), if_pos (constantTimeEq_iff.mpr rfl)]

/-- **The verifier for webhooks of the payment provider.** -/
theorem verifyStripe_eq_ok_iff {tolerance : ℕ} :
    verifyStripeWebhookSignature deps now header body secret tolerance = .ok () ↔
      secret ≠ [] ∧ ∃ t sigs, parseStripeHeader header = .ok (t, sigs) ∧
        checkTimestampSkew now t tolerance = .ok () ∧ computeV1Signature deps secret t body ∈ sigs := by
  unfold verifyStripeWebhookSignature
  constructor
  · intro h
    split_ifs at h with hsecret
    refine ⟨hsecret, ?_⟩
    rcases hparse : parseStripeHeader header with e | ⟨t, sigs⟩
    · simp only [hparse] at h
      cases h
    · rcases hskew : checkTimestampSkew now t tolerance with e | ⟨⟩
      · simp only [hparse, hskew] at h
        cases h
      · simp only [hparse, hskew] at h
        split_ifs at h with hany
        obtain ⟨sig, hsig, heq⟩ := List.any_eq_true.mp hany
        rw [constantTimeEqHex_iff] at heq
        exact ⟨t, sigs, rfl, hskew, heq ▸ hsig⟩
  · rintro ⟨hsecret, t, sigs, hparse, hskew, hsig⟩
    have hany : (sigs.any fun sig => constantTimeEqHex sig (computeV1Signature deps secret t body)) = true :=
      List.any_eq_true.mpr ⟨_, hsig, constantTimeEqHex_iff.mpr rfl⟩
    rw [if_neg hsecret]
    simp only [hparse, hskew]
    rw [if_pos hany]

/-- A header that was written with the right signature is accepted in time. -/
theorem verifyDisk_format {tolerance : ℤ} (hsecret : secret ≠ [])
    (hhmac : deps.hmac (utf8 secret) (utf8 (signedText timestamp body)) ≠ [])
    (hpast : 0 ≤ timestamp ∧ timestamp < 2 ^ 63) (hnow : 0 ≤ now ∧ now < 2 ^ 63)
    (htolerance : |now - timestamp| ≤ tolerance) :
    verifyDiskWebhookSignature deps now
      (formatDiskSignatureHeader timestamp (computeDiskWebhookSignature deps secret timestamp body)) body secret
        tolerance = .ok timestamp := by
  have habs : ((now - timestamp).natAbs : ℤ) = |now - timestamp| := Int.natCast_natAbs _
  rw [verifyDisk_eq_ok_iff]
  refine ⟨hsecret, ?_, parseDiskHeader_format (by omega) hpast.2 (isPlain_hex _) (hex_ne_nil hhmac)⟩
  have hdiff : toI64 (now - timestamp) = now - timestamp := by
    rw [toI64, Int.bmod_eq_of_le_mul_two (by omega) (by omega)]
  have hsize : toI64 ((now - timestamp).natAbs : ℤ) = (now - timestamp).natAbs := by
    rw [toI64, Int.bmod_eq_of_le_mul_two (by omega) (by omega)]
  rw [hdiff, hsize, habs]
  exact htolerance

end Verifying

end DiskArcana.Webhooks
