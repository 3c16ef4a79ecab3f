import DiskArcana.Lib.Trace
import DiskArcana.Personal.Journal

/-!
# Scans of the owner journal

Over any run of calls that stop anywhere, and of losses of power, the directory holds files under the two
names of a lease only: records, synced and read back as they were written, and files that were left before
their rename (`Sound`). So a scan reads all records (`scan_of_clean`), or finds a file that was left
(`scan_of_left`), in whatever order the directory is listed.
-/

namespace DiskArcana.Personal.Journal

open DiskArcana.Lib DiskArcana.Accounts

variable {recordFromSlice : Bytes → Option LocalRecord}

/-! ## Names -/

theorem finalName_injective : Function.Injective finalName := by
  intro a b h
  exact Subtype.ext (List.append_cancel_right h)

theorem suffix_finalName (lease : Id) : jsonSuffix <:+ finalName lease := List.suffix_append _ _

theorem suffix_pendingName (lease : Id) : pendingSuffix <:+ pendingName lease :=
  List.suffix_append _ _

/-- A name does not have both suffixes. -/
theorem not_suffix_pending {p : Text} (h : jsonSuffix <:+ p) : ¬ pendingSuffix <:+ p := by
  intro h'
  have hlast := h.getLast (by decide)
  have hlast' := h'.getLast (by decide)
  rw [← hlast'] at hlast
  revert hlast
  decide

theorem finalName_ne_pendingName (lease lease' : Id) : finalName lease ≠ pendingName lease' := by
  intro h
  exact not_suffix_pending (h ▸ suffix_finalName lease) (suffix_pendingName lease')

theorem stripSuffix_finalName (lease : Id) : stripSuffix jsonSuffix (finalName lease) = some lease.1 := by
  unfold stripSuffix
  rw [if_pos (List.isSuffixOf_iff_suffix.mpr (suffix_finalName lease))]
  simp [finalName]

/-! ## What is in the directory -/

/-- A record with its bytes, synced. -/
def IsRecord (recordFromSlice : Bytes → Option LocalRecord) (p : Text) (f : SyncedFile Text) : Prop :=
  ∃ lease outcome, p = finalName lease ∧ f.bytes = encode lease outcome ∧
    (encode lease outcome).length ≤ maxRecord ∧ RoundTrips recordFromSlice lease outcome ∧
    f.flushed = true ∧ f.origin = pendingName lease

/-- A file that has not been renamed. -/
def IsLeft (p : Text) (f : SyncedFile Text) : Prop :=
  ∃ lease, p = pendingName lease ∧ f.origin = pendingName lease

/-- A call was left before its rename, or its rename has been lost. -/
def Left (d : Dir) : Prop := ∃ p f, d.lookup p = some f ∧ IsLeft p f

/-- The outcome of a lease is recorded. -/
def Retained (recordFromSlice : Bytes → Option LocalRecord) (d : Dir) (lease : Id) (outcome : Outcome) :
    Prop :=
  ∃ f, d.lookup (finalName lease) = some f ∧ f.bytes = encode lease outcome ∧
    RoundTrips recordFromSlice lease outcome

/-- The outcome of a lease is recorded, on disk. -/
def Durable (recordFromSlice : Bytes → Option LocalRecord) (d : Dir) (lease : Id) (outcome : Outcome) :
    Prop :=
  ∃ f, d.lookup (finalName lease) = some f ∧ f.bytes = encode lease outcome ∧
    RoundTrips recordFromSlice lease outcome ∧ f.flushed = true ∧ f.linked = true

/-- The names of the records. -/
def recordNames (d : Dir) : List Text := d.keys.filter fun p => jsonSuffix.isSuffixOf p

/-- There are records, apart from each other and not too many, and files that were left. -/
structure Sound (recordFromSlice : Bytes → Option LocalRecord) (d : Dir) : Prop where
  files : ∀ p f, d.lookup p = some f → IsRecord recordFromSlice p f ∨ IsLeft p f
  apart : ∀ lease outcome lease' outcome', Retained recordFromSlice d lease outcome →
    Retained recordFromSlice d lease' outcome' →
    outcome.ownerReceiptId = outcome'.ownerReceiptId ∨ outcome.localSequence = outcome'.localSequence →
    lease = lease'
  few : (recordNames d).length ≤ maxRecords

theorem mem_recordNames {d : Dir} {p : Text} :
    p ∈ recordNames d ↔ d.lookup p ≠ none ∧ jsonSuffix <:+ p := by
  unfold recordNames
  rw [List.mem_filter, List.isSuffixOf_iff_suffix, Ne, AList.lookup_eq_none, not_not, AList.mem_keys]

theorem nodup_recordNames (d : Dir) : (recordNames d).Nodup := d.nodupKeys.filter _

theorem Retained.unique {d : Dir} {lease : Id} {outcome outcome' : Outcome}
    (h : Retained recordFromSlice d lease outcome) (h' : Retained recordFromSlice d lease outcome') :
    outcome = outcome' := by
  obtain ⟨f, hf, hbytes, hround⟩ := h
  obtain ⟨f', hf', hbytes', hround'⟩ := h'
  obtain rfl := Option.some.inj (hf.symm.trans hf')
  rw [RoundTrips, ← hbytes] at hround
  rw [RoundTrips, ← hbytes', hround] at hround'
  injection hround' with hrecord
  injection hrecord

/-! ## Scans -/

def scannedOf (lease : Id) (outcome : Outcome) : Scanned :=
  ⟨finalName lease, encode lease outcome, ⟨schema, lease, outcome⟩⟩

/-- What the scan makes of a record. -/
def Scans (recordFromSlice : Bytes → Option LocalRecord) (e : DirEntry) (s : Scanned) : Prop :=
  ∃ lease outcome, e.1 = finalName lease ∧ e.2.bytes = encode lease outcome ∧
    (encode lease outcome).length ≤ maxRecord ∧ RoundTrips recordFromSlice lease outcome ∧
    s = scannedOf lease outcome

/-- Neither the receipts nor the sequences are the same. -/
def Apart (s s' : Scanned) : Prop :=
  s.record.outcome.ownerReceiptId ≠ s'.record.outcome.ownerReceiptId ∧
    s.record.outcome.localSequence ≠ s'.record.outcome.localSequence

theorem exists_scans {e : DirEntry} (h : IsRecord recordFromSlice e.1 e.2) :
    ∃ s, Scans recordFromSlice e s := by
  obtain ⟨lease, outcome, hname, hbytes, hlen, hround, -, -⟩ := h
  exact ⟨_, lease, outcome, hname, hbytes, hlen, hround, rfl⟩

theorem Scans.unique {e : DirEntry} {s s' : Scanned} (h : Scans recordFromSlice e s)
    (h' : Scans recordFromSlice e s') : s = s' := by
  obtain ⟨lease, outcome, hname, hbytes, -, hround, rfl⟩ := h
  obtain ⟨lease', outcome', hname', hbytes', -, hround', rfl⟩ := h'
  obtain rfl := finalName_injective (hname.symm.trans hname')
  rw [RoundTrips, ← hbytes] at hround
  rw [RoundTrips, ← hbytes', hround] at hround'
  injection hround' with hrecord
  injection hrecord with _ _ houtcome
  rw [houtcome]

theorem scanEntry_of_left {seen : List Scanned} {e : DirEntry} (h : IsLeft e.1 e.2) :
    scanEntry recordFromSlice seen e = .error .pending := by
  obtain ⟨lease, hname, -⟩ := h
  have hsuffix : pendingSuffix.isSuffixOf e.1 = true := by
    rw [List.isSuffixOf_iff_suffix, hname]
    exact suffix_pendingName lease
  rw [scanEntry, if_pos hsuffix]

theorem scanEntry_of_scans {seen : List Scanned} {e : DirEntry} {s : Scanned}
    (h : Scans recordFromSlice e s) (hlen : seen.length < maxRecords) (hapart : ∀ s' ∈ seen, Apart s' s) :
    scanEntry recordFromSlice seen e = .ok s := by
  obtain ⟨lease, outcome, hname, hbytes, hle, hround, rfl⟩ := h
  have hsuffix : ¬ pendingSuffix.isSuffixOf e.1 = true := by
    rw [List.isSuffixOf_iff_suffix, hname]
    exact not_suffix_pending (suffix_finalName lease)
  have hread : read e.2 = .ok (encode lease outcome) := by
    rw [read, hbytes, if_neg (Nat.not_lt.mpr hle)]
  have hreceipts : ¬ ∃ s' ∈ seen, s'.record.outcome.ownerReceiptId = outcome.ownerReceiptId := by
    rintro ⟨s', hs', heq⟩
    exact (hapart s' hs').1 heq
  have hsequences : ¬ ∃ s' ∈ seen, s'.record.outcome.localSequence = outcome.localSequence := by
    rintro ⟨s', hs', heq⟩
    exact (hapart s' hs').2 heq
  rw [RoundTrips] at hround
  rw [scanEntry, if_neg hsuffix, hname, stripSuffix_finalName]
  dsimp only
  rw [dif_pos lease.2, if_neg (Nat.not_le.mpr hlen), hread]
  dsimp only [bind, Except.bind]
  rw [hround]
  dsimp only
  rw [if_neg]
  · rfl
  · rintro (h | h | h | h)
    · exact h rfl
    · exact h rfl
    · exact hreceipts h
    · exact hsequences h

theorem scanEntries_append (seen : List Scanned) (listing rest : List DirEntry) :
    scanEntries recordFromSlice seen (listing ++ rest) =
      (scanEntries recordFromSlice seen listing).bind fun seen' =>
        scanEntries recordFromSlice seen' rest := by
  induction listing generalizing seen with
  | nil => rfl
  | cons e listing ih =>
      rw [List.cons_append, scanEntries, scanEntries]
      rcases scanEntry recordFromSlice seen e with error | s
      · rfl
      · exact ih (seen ++ [s])

/-- Records that are apart are read one after the other. -/
theorem scanEntries_of_records (seen : List Scanned) {listing : List DirEntry}
    (hrecords : ∀ e ∈ listing, ∃ s, Scans recordFromSlice e s)
    (hlen : seen.length + listing.length ≤ maxRecords)
    (hseen : ∀ s ∈ seen, ∀ e ∈ listing, ∀ s', Scans recordFromSlice e s' → Apart s s')
    (hapart : listing.Pairwise fun e e' =>
      ∀ s s', Scans recordFromSlice e s → Scans recordFromSlice e' s' → Apart s s') :
    ∃ records, scanEntries recordFromSlice seen listing = .ok (seen ++ records) ∧
      records.length = listing.length ∧ records.Pairwise Apart ∧
      ∀ s, s ∈ records ↔ ∃ e ∈ listing, Scans recordFromSlice e s := by
  induction listing generalizing seen with
  | nil => exact ⟨[], by rw [List.append_nil]; rfl, rfl, .nil, by simp⟩
  | cons e listing ih =>
      obtain ⟨s, hs⟩ := hrecords e List.mem_cons_self
      obtain ⟨hfirst, hrest⟩ := List.pairwise_cons.mp hapart
      rw [List.length_cons] at hlen
      have hentry := scanEntry_of_scans hs (by omega)
        fun s' hs' => hseen s' hs' e List.mem_cons_self s hs
      have hseen' : ∀ s₀ ∈ seen ++ [s], ∀ e' ∈ listing, ∀ s', Scans recordFromSlice e' s' →
          Apart s₀ s' := by
        intro s₀ hs₀ e' he' s' hs'
        rcases List.mem_append.mp hs₀ with hs₀ | hs₀
        · exact hseen s₀ hs₀ e' (List.mem_cons_of_mem _ he') s' hs'
        · rw [List.mem_singleton.mp hs₀]
          exact hfirst e' he' s s' hs hs'
      obtain ⟨records, hscan, hlength, hpairs, hmem⟩ := ih (seen ++ [s])
        (fun e' he' => hrecords e' (List.mem_cons_of_mem _ he'))
        (by rw [List.length_append, List.length_singleton]; omega) hseen' hrest
      refine ⟨s :: records, ?_, by rw [List.length_cons, hlength, List.length_cons], ?_, ?_⟩
      · rw [scanEntries, hentry, List.append_cons]
        exact hscan
      · refine List.pairwise_cons.mpr ⟨?_, hpairs⟩
        intro s' hs'
        obtain ⟨e', he', hscans⟩ := (hmem s').mp hs'
        exact hfirst e' he' s s' hs hscans
      · intro s'
        rw [List.mem_cons, hmem, List.exists_mem_cons_iff]
        constructor
        · rintro (rfl | h)
          · exact Or.inl hs
          · exact Or.inr h
        · rintro (h | h)
          · exact Or.inl (h.unique hs)
          · exact Or.inr h

section

variable {d : Dir} {listing : List DirEntry}

/-- What the listing of a directory holds that has no file that was left. -/
theorem mem_listing_iff (hlisting : listing.Perm d.entries) {e : DirEntry} :
    e ∈ listing ↔ d.lookup e.1 = some e.2 := by
  rw [hlisting.mem_iff]
  exact Table.mem_entries_iff

theorem isRecord_of_not_left (hsound : Sound recordFromSlice d) (hclean : ¬ Left d)
    (hlisting : listing.Perm d.entries) {e : DirEntry} (he : e ∈ listing) :
    IsRecord recordFromSlice e.1 e.2 := by
  have hlookup := (mem_listing_iff hlisting).mp he
  rcases hsound.files e.1 e.2 hlookup with h | h
  · exact h
  · exact absurd ⟨e.1, e.2, hlookup, h⟩ hclean

theorem retained_of_scans (hlisting : listing.Perm d.entries) {e : DirEntry} {s : Scanned}
    (he : e ∈ listing) (h : Scans recordFromSlice e s) :
    ∃ lease outcome, Retained recordFromSlice d lease outcome ∧ e.1 = finalName lease ∧
      s = scannedOf lease outcome := by
  obtain ⟨lease, outcome, hname, hbytes, -, hround, rfl⟩ := h
  have hlookup := (mem_listing_iff hlisting).mp he
  exact ⟨lease, outcome, ⟨e.2, hname ▸ hlookup, hbytes, hround⟩, hname, rfl⟩

theorem scans_of_retained (hsound : Sound recordFromSlice d) (hlisting : listing.Perm d.entries)
    {lease : Id} {outcome : Outcome} (h : Retained recordFromSlice d lease outcome) :
    ∃ e ∈ listing, Scans recordFromSlice e (scannedOf lease outcome) := by
  obtain ⟨f, hf, hbytes, hround⟩ := h
  refine ⟨⟨finalName lease, f⟩, (mem_listing_iff hlisting).mpr hf, lease, outcome, rfl, hbytes, ?_,
    hround, rfl⟩
  rcases hsound.files _ f hf with ⟨lease', outcome', -, hbytes', hlen, -⟩ | ⟨lease', hname, -⟩
  · rw [← hbytes, hbytes']
    exact hlen
  · exact absurd hname (finalName_ne_pendingName lease lease')

/-- Different entries of a listing are read as records that are apart. -/
theorem pairwise_scans (hsound : Sound recordFromSlice d) (hlisting : listing.Perm d.entries) :
    listing.Pairwise fun e e' => ∀ s s', Scans recordFromSlice e s → Scans recordFromSlice e' s' →
      Apart s s' := by
  have hnodup : (listing.map Sigma.fst).Nodup := (hlisting.map Sigma.fst).nodup_iff.mpr d.nodupKeys
  refine (List.pairwise_map.mp hnodup).imp_of_mem ?_
  intro e e' he he' hne s s' hs hs'
  obtain ⟨lease, outcome, hretained, hname, rfl⟩ := retained_of_scans hlisting he hs
  obtain ⟨lease', outcome', hretained', hname', rfl⟩ := retained_of_scans hlisting he' hs'
  have hleases : ¬ (outcome.ownerReceiptId = outcome'.ownerReceiptId ∨
      outcome.localSequence = outcome'.localSequence) := by
    intro hsame
    rw [hname, hname', hsound.apart _ _ _ _ hretained hretained' hsame] at hne
    exact hne rfl
  exact ⟨fun h => hleases (Or.inl h), fun h => hleases (Or.inr h)⟩

/-- The names of the records of a listing are record names. -/
theorem length_le_of_records (hsound : Sound recordFromSlice d) {part : List DirEntry}
    (hpart : part.Sublist listing) (hlisting : listing.Perm d.entries)
    (hrecords : ∀ e ∈ part, ∃ s, Scans recordFromSlice e s) : part.length ≤ maxRecords := by
  have hnodup : (part.map Sigma.fst).Nodup := by
    have hall : (listing.map Sigma.fst).Nodup := (hlisting.map Sigma.fst).nodup_iff.mpr d.nodupKeys
    exact hall.sublist (hpart.map Sigma.fst)
  have hsubset : part.map Sigma.fst ⊆ recordNames d := by
    intro p hp
    obtain ⟨e, he, rfl⟩ := List.mem_map.mp hp
    obtain ⟨s, lease, -, hname, -⟩ := hrecords e he
    have hlookup := (mem_listing_iff hlisting).mp (hpart.subset he)
    exact mem_recordNames.mpr ⟨by simp [hlookup], hname ▸ suffix_finalName lease⟩
  have hle := (List.subperm_of_subset hnodup hsubset).length_le
  rw [List.length_map] at hle
  exact hle.trans hsound.few

/-- **A scan reads the records**, where no file was left. -/
theorem scan_of_clean (hsound : Sound recordFromSlice d) (hclean : ¬ Left d)
    (hlisting : listing.Perm d.entries) :
    ∃ records, scan recordFromSlice listing = .ok records ∧ records.length = d.entries.length ∧
      records.Pairwise (fun s s' => s.record.outcome.localSequence < s'.record.outcome.localSequence) ∧
      ∀ s, s ∈ records ↔
        ∃ lease outcome, Retained recordFromSlice d lease outcome ∧ s = scannedOf lease outcome := by
  have hrecords : ∀ e ∈ listing, ∃ s, Scans recordFromSlice e s :=
    fun e he => exists_scans (isRecord_of_not_left hsound hclean hlisting he)
  have hlen := length_le_of_records hsound (List.Sublist.refl listing) hlisting hrecords
  obtain ⟨read, hscan, hlength, hpairs, hmem⟩ := scanEntries_of_records [] hrecords
    (by simpa using hlen) (by simp) (pairwise_scans hsound hlisting)
  have hperm := List.mergeSort_perm read bySequence
  refine ⟨read.mergeSort bySequence, ?_, ?_, ?_, ?_⟩
  · rw [List.nil_append] at hscan
    rw [scan, hscan]
    rfl
  · rw [hperm.length_eq, hlength, hlisting.length_eq]
  · have hsorted : (read.mergeSort bySequence).Pairwise fun s s' => bySequence s s' = true := by
      apply List.pairwise_mergeSort
      · intro a b c hab hbc
        simp only [bySequence, decide_eq_true_eq] at hab hbc ⊢
        exact le_trans hab hbc
      · intro a b
        simpa [bySequence] using le_total _ _
    have hapart : (read.mergeSort bySequence).Pairwise Apart :=
      (hperm.pairwise_iff fun h => ⟨h.1.symm, h.2.symm⟩).mpr hpairs
    refine (hsorted.and hapart).imp ?_
    rintro s s' ⟨hle, -, hne⟩
    exact lt_of_le_of_ne (by simpa [bySequence] using hle) hne
  · intro s
    rw [List.mem_mergeSort, hmem]
    constructor
    · rintro ⟨e, he, hs⟩
      obtain ⟨lease, outcome, hretained, -, rfl⟩ := retained_of_scans hlisting he hs
      exact ⟨lease, outcome, hretained, rfl⟩
    · rintro ⟨lease, outcome, hretained, rfl⟩
      exact scans_of_retained hsound hlisting hretained

/-- **A scan finds a file that was left**, wherever it is in the listing. -/
theorem scan_of_left (hsound : Sound recordFromSlice d) (hleft : Left d)
    (hlisting : listing.Perm d.entries) : scan recordFromSlice listing = .error .pending := by
  -- cut the listing at the first such file
  obtain ⟨p, f, hlookup, hf⟩ := hleft
  have hmem : (⟨p, f⟩ : DirEntry) ∈ listing := (mem_listing_iff hlisting).mpr hlookup
  obtain ⟨before, e, after, rfl, he, hbefore⟩ : ∃ before e after, listing = before ++ e :: after ∧
      IsLeft e.1 e.2 ∧ ∀ e' ∈ before, ¬ IsLeft e'.1 e'.2 :=
    Trace.exists_first ⟨_, hmem, hf⟩
  have hrecords : ∀ e' ∈ before, ∃ s, Scans recordFromSlice e' s := by
    intro e' he'
    have hlookup' := (mem_listing_iff hlisting).mp (List.mem_append_left (e :: after) he')
    rcases hsound.files _ _ hlookup' with h | h
    · exact exists_scans h
    · exact absurd h (hbefore e' he')
  have hsublist : before.Sublist (before ++ e :: after) := List.sublist_append_left _ _
  have hlen := length_le_of_records hsound hsublist hlisting hrecords
  obtain ⟨read, hscan, -⟩ := scanEntries_of_records [] hrecords (by simpa using hlen) (by simp)
    ((pairwise_scans hsound hlisting).sublist hsublist)
  rw [scan, scanEntries_append, hscan]
  dsimp only [Except.bind]
  rw [scanEntries, scanEntry_of_left he]
  rfl

end

/-! ## What the records decide -/

section

variable {lease : Id} {outcome : Outcome} {bytes : Bytes} {records : List Scanned}

/-- The receipt or the sequence of an outcome. -/
def Clashes (outcome : Outcome) (s : Scanned) : Prop :=
  s.record.outcome.ownerReceiptId = outcome.ownerReceiptId ∨
    s.record.outcome.localSequence = outcome.localSequence

theorem settled_eq_none
    (h : ∀ s ∈ records, s.record.effectLeaseId ≠ lease ∧ ¬ Clashes outcome s) :
    settled lease outcome bytes records = none := by
  induction records with
  | nil => rfl
  | cons s rest ih =>
      obtain ⟨⟨hlease, hclash⟩, hrest⟩ := List.forall_mem_cons.mp h
      rw [settled, if_neg hlease]
      exact (if_neg hclash).trans (ih hrest)

theorem settled_eq_existing (hthere : ∃ s ∈ records, s.record.effectLeaseId = lease)
    (hsame : ∀ s ∈ records, s.record.effectLeaseId = lease → s.bytes = bytes)
    (hother : ∀ s ∈ records, s.record.effectLeaseId ≠ lease → ¬ Clashes outcome s) :
    settled lease outcome bytes records = some (.ok .existing) := by
  induction records with
  | nil => simp at hthere
  | cons s rest ih =>
      obtain ⟨hsame₁, hsame⟩ := List.forall_mem_cons.mp hsame
      obtain ⟨hother₁, hother⟩ := List.forall_mem_cons.mp hother
      by_cases hlease : s.record.effectLeaseId = lease
      · rw [settled, if_pos hlease, if_pos (hsame₁ hlease)]
      · rw [settled, if_neg hlease]
        obtain ⟨s', hs', hlease'⟩ := hthere
        rcases List.mem_cons.mp hs' with rfl | hs'
        · exact absurd hlease' hlease
        · exact (if_neg (hother₁ hlease)).trans (ih ⟨s', hs', hlease'⟩ hsame hother)

theorem settled_eq_conflict
    (hused : ∃ s ∈ records, s.record.effectLeaseId = lease ∨ Clashes outcome s)
    (hother : ∀ s ∈ records, s.record.effectLeaseId = lease → s.bytes ≠ bytes) :
    settled lease outcome bytes records = some (.error .conflict) := by
  induction records with
  | nil => simp at hused
  | cons s rest ih =>
      obtain ⟨hother₁, hother⟩ := List.forall_mem_cons.mp hother
      by_cases hlease : s.record.effectLeaseId = lease
      · rw [settled, if_pos hlease, if_neg (hother₁ hlease)]
      · rw [settled, if_neg hlease]
        by_cases hclash : Clashes outcome s
        · exact if_pos hclash
        · obtain ⟨s', hs', hused'⟩ := hused
          rcases List.mem_cons.mp hs' with rfl | hs'
          · exact absurd hused' (not_or.mpr ⟨hlease, hclash⟩)
          · exact (if_neg hclash).trans (ih ⟨s', hs', hused'⟩ hother)

end

end DiskArcana.Personal.Journal
