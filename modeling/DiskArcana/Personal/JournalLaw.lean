import DiskArcana.Personal.JournalScan
import DiskArcana.Personal.Refused

/-!
# What the owner journal keeps

An append adds a record, or leaves a file before its rename (`Appended`), and every call is decided by
what a scan finds (`record_cases`). So every directory that a run leads to is `Sound`, and calls answer
by the records that are there (`journalLaw`).

A record is there from its rename on. It is sure to stay when the directory has been synced (`Durable`),
which is when the call answers that it is recorded; a call that finds it answers that it exists, without
a sync of its own.
-/

namespace DiskArcana.Personal.Journal

open DiskArcana.Lib DiskArcana.Accounts

variable {recordFromSlice : Bytes → Option LocalRecord}

/-! ## The append -/

section

variable {lease : Id} {bytes : Bytes} {d : Dir}

/-- What an append comes to: nothing; a file that is left; or the record, whose directory has been
synced or not. -/
inductive Appended (lease : Id) (bytes : Bytes) (d : Dir) :
    Except JournalError RecordResult × Dir → Prop where
  | untouched : Appended lease bytes d (.error .io, d)
  | left {d' : Dir} (f : SyncedFile Text) (horigin : f.origin = pendingName lease)
      (hlookup : ∀ p, d'.lookup p = if p = pendingName lease then some f else d.lookup p) :
      Appended lease bytes d (.error .io, d')
  | renamed {d' : Dir} (synced : Bool)
      (hlookup : ∀ p, d'.lookup p =
        if p = finalName lease then some ⟨bytes, pendingName lease, true, synced⟩
        else (d.lookup p).map fun f => { f with linked := f.linked || synced }) :
      Appended lease bytes d (if synced then .ok .recorded else .error .io, d')

theorem appended_appendRecord (hpending : d.lookup (pendingName lease) = none)
    (hfinal : d.lookup (finalName lease) = none) (stop : Option Stop) :
    Appended lease bytes d (appendRecord lease bytes stop d) := by
  have hne := finalName_ne_pendingName lease lease
  have hcreated : (SyncedFiles.create (pendingName lease) d).lookup (pendingName lease) =
      some ⟨[], pendingName lease, false, false⟩ := by
    rw [SyncedFiles.lookup_create, if_pos rfl]
  have hwritten : ∀ data p, (SyncedFiles.append (pendingName lease) data
      (SyncedFiles.create (pendingName lease) d)).lookup p =
        if p = pendingName lease then some ⟨data, pendingName lease, false, false⟩ else d.lookup p := by
    intro data p
    rw [SyncedFiles.lookup_append hcreated, SyncedFiles.lookup_create]
    split_ifs
    · rfl
    · rfl
  have hself := hwritten bytes (pendingName lease)
  rw [if_pos rfl] at hself
  have hflushed : ∀ p, (SyncedFiles.flush (pendingName lease) (SyncedFiles.append (pendingName lease) bytes
      (SyncedFiles.create (pendingName lease) d))).lookup p =
        if p = pendingName lease then some ⟨bytes, pendingName lease, true, false⟩ else d.lookup p := by
    intro p
    rw [SyncedFiles.lookup_flush hself, hwritten]
    split_ifs
    · rfl
    · rfl
  have hthere := hflushed (pendingName lease)
  rw [if_pos rfl] at hthere
  have hfree := hflushed (finalName lease)
  rw [if_neg hne, hfinal] at hfree
  obtain ⟨renamed, hrename⟩ := Option.isSome_iff_exists.mp (SyncedFiles.isSome_rename hthere hfree)
  have hrenamed : ∀ p, renamed.lookup p =
      if p = finalName lease then some ⟨bytes, pendingName lease, true, false⟩ else d.lookup p := by
    obtain ⟨f, hf, -, hlookup⟩ := SyncedFiles.rename_eq_some hrename
    obtain rfl := Option.some.inj (hthere.symm.trans hf)
    intro p
    rw [hlookup, hflushed]
    split_ifs with hp hp'
    · rfl
    · rw [hp', hpending]
    · rfl
  have hlinked : ∀ p, (SyncedFiles.link (fun _ => true) renamed).lookup p =
      if p = finalName lease then some ⟨bytes, pendingName lease, true, true⟩
      else (d.lookup p).map fun f => { f with linked := f.linked || true } := by
    intro p
    rw [SyncedFiles.lookup_link, hrenamed]
    split_ifs
    · rfl
    · rfl
  have hunlinked : ∀ p, renamed.lookup p =
      if p = finalName lease then some ⟨bytes, pendingName lease, true, false⟩
      else (d.lookup p).map fun f => { f with linked := f.linked || false } := by
    intro p
    simp [hrenamed]
  unfold appendRecord
  rw [hpending, Option.isSome_none]
  rcases stop with _ | _ | _ | n | _ | _ | _
  · simpa [hrename] using Appended.renamed true hlinked
  · simpa [hrename] using Appended.renamed true hlinked
  · simpa using Appended.untouched
  · simpa using Appended.left _ rfl (hwritten (bytes.take n))
  · simpa using Appended.left _ rfl (hwritten bytes)
  · simpa using Appended.left _ rfl hflushed
  · simpa [hrename] using Appended.renamed false hunlinked

variable {run : Except JournalError RecordResult × Dir} {p : Text} {f : SyncedFile Text}

/-- An append takes nothing away. -/
theorem Appended.keeps (h : Appended lease bytes d run) (hpending : d.lookup (pendingName lease) = none)
    (hfinal : d.lookup (finalName lease) = none) (hf : d.lookup p = some f) :
    ∃ linked, run.2.lookup p = some { f with linked := linked } ∧ (f.linked = true → linked = true) := by
  cases h with
  | untouched => exact ⟨f.linked, hf, id⟩
  | left f' horigin hlookup =>
      have hne : p ≠ pendingName lease := by
        rintro rfl
        simp [hpending] at hf
      exact ⟨f.linked, by rw [hlookup, if_neg hne, hf], id⟩
  | renamed synced hlookup =>
      have hne : p ≠ finalName lease := by
        rintro rfl
        simp [hfinal] at hf
      refine ⟨f.linked || synced, by rw [hlookup, if_neg hne, hf]; rfl, ?_⟩
      intro hlinked
      rw [hlinked, Bool.true_or]

/-- What is there after an append. -/
theorem Appended.comes (h : Appended lease bytes d run) (hf : run.2.lookup p = some f) :
    (∃ linked, d.lookup p = some { f with linked := linked }) ∨
      (p = pendingName lease ∧ f.origin = pendingName lease) ∨
        p = finalName lease ∧ ∃ synced, f = ⟨bytes, pendingName lease, true, synced⟩ := by
  cases h with
  | untouched => exact Or.inl ⟨f.linked, hf⟩
  | left f' horigin hlookup =>
      rw [hlookup] at hf
      split_ifs at hf with hp
      · obtain rfl := Option.some.inj hf
        exact Or.inr (Or.inl ⟨hp, horigin⟩)
      · exact Or.inl ⟨f.linked, hf⟩
  | renamed synced hlookup =>
      rw [hlookup] at hf
      split_ifs at hf with hp
      · obtain rfl := Option.some.inj hf
        exact Or.inr (Or.inr ⟨hp, synced, rfl⟩)
      · obtain ⟨f₀, hf₀, rfl⟩ := Option.map_eq_some_iff.mp hf
        exact Or.inl ⟨f₀.linked, hf₀⟩

end

/-! ## What every step keeps -/

section

variable {d d' : Dir} {lease : Id} {outcome : Outcome}

theorem length_recordNames_le (d : Dir) : (recordNames d).length ≤ d.entries.length := by
  refine (List.length_filter_le _ _).trans (le_of_eq ?_)
  exact List.length_map _

/-- An append adds no record but its own. -/
theorem Appended.retained {run : Except JournalError RecordResult × Dir}
    (h : Appended lease (encode lease outcome) d run) (hround : RoundTrips recordFromSlice lease outcome)
    {lease' : Id} {outcome' : Outcome} (hretained : Retained recordFromSlice run.2 lease' outcome') :
    Retained recordFromSlice d lease' outcome' ∨ lease' = lease ∧ outcome' = outcome := by
  obtain ⟨f, hf, hbytes, hround'⟩ := hretained
  rcases h.comes hf with ⟨linked, hold⟩ | ⟨hp, -⟩ | ⟨hp, synced, rfl⟩
  · exact Or.inl ⟨_, hold, hbytes, hround'⟩
  · exact absurd hp (finalName_ne_pendingName lease' lease)
  · obtain rfl := finalName_injective hp
    rw [RoundTrips, ← hbytes] at hround'
    rw [RoundTrips, hround'] at hround
    injection hround with hrecord
    injection hrecord with _ _ houtcome
    exact Or.inr ⟨rfl, houtcome⟩

/-- An append that answers has its record on disk. -/
theorem Appended.durable {run : Except JournalError RecordResult × Dir}
    (h : Appended lease (encode lease outcome) d run) (hround : RoundTrips recordFromSlice lease outcome)
    (hanswer : run.1 = .ok .recorded) : Durable recordFromSlice run.2 lease outcome := by
  cases h with
  | untouched => cases hanswer
  | left f horigin hlookup => cases hanswer
  | renamed synced hlookup =>
      cases synced
      · cases hanswer
      · exact ⟨_, (hlookup _).trans (if_pos rfl), rfl, hround, rfl, rfl⟩

theorem Appended.ne_existing {bytes : Bytes} {run : Except JournalError RecordResult × Dir}
    (h : Appended lease bytes d run) : run.1 ≠ .ok .existing := by
  intro hanswer
  cases h with
  | untouched => cases hanswer
  | left f horigin hlookup => cases hanswer
  | renamed synced hlookup =>
      cases synced
      · cases hanswer
      · cases hanswer

/-- A new record, or what a call leaves of it, beside those that are there. -/
theorem Sound.appended {run : Except JournalError RecordResult × Dir} (hsound : Sound recordFromSlice d)
    (hunused : ∀ lease' outcome', Retained recordFromSlice d lease' outcome' → lease' ≠ lease ∧
      outcome'.ownerReceiptId ≠ outcome.ownerReceiptId ∧ outcome'.localSequence ≠ outcome.localSequence)
    (hround : RoundTrips recordFromSlice lease outcome) (hlen : (encode lease outcome).length ≤ maxRecord)
    (hroom : d.entries.length < maxRecords) (h : Appended lease (encode lease outcome) d run) :
    Sound recordFromSlice run.2 where
  files p f hf := by
    rcases h.comes hf with ⟨linked, hold⟩ | ⟨hp, horigin⟩ | ⟨hp, synced, rfl⟩
    · have hfile := hsound.files p _ hold
      exact hfile
    · exact Or.inr ⟨lease, hp, horigin⟩
    · exact Or.inl ⟨lease, outcome, hp, rfl, hlen, hround, rfl, rfl⟩
  apart := by
    intro l o l' o' hl hl' hsame
    rcases h.retained hround hl with hold | ⟨rfl, rfl⟩
    · rcases h.retained hround hl' with hold' | ⟨rfl, rfl⟩
      · exact hsound.apart l o l' o' hold hold' hsame
      · obtain ⟨-, hreceipt, hsequence⟩ := hunused l o hold
        exact absurd hsame (not_or.mpr ⟨hreceipt, hsequence⟩)
    · rcases h.retained hround hl' with hold' | ⟨rfl, rfl⟩
      · obtain ⟨-, hreceipt, hsequence⟩ := hunused l' o' hold'
        exact absurd hsame (not_or.mpr ⟨hreceipt.symm, hsequence.symm⟩)
      · rfl
  few := by
    have hsubset : recordNames run.2 ⊆ finalName lease :: recordNames d := by
      intro p hp
      obtain ⟨hthere, hsuffix⟩ := mem_recordNames.mp hp
      obtain ⟨f, hf⟩ := Option.ne_none_iff_exists'.mp hthere
      rcases h.comes hf with ⟨linked, hold⟩ | ⟨hp, -⟩ | ⟨hp, -⟩
      · exact List.mem_cons_of_mem _ (mem_recordNames.mpr ⟨by simp [hold], hsuffix⟩)
      · exact absurd (hp ▸ suffix_pendingName lease) (not_suffix_pending hsuffix)
      · exact hp ▸ List.mem_cons_self
    have hle := (List.subperm_of_subset (nodup_recordNames run.2) hsubset).length_le
    have hold := length_recordNames_le d
    rw [List.length_cons] at hle
    omega

/-- What is there after a loss of power: records that were there, and files without their rename. -/
theorem of_powerLoss (hsound : Sound recordFromSlice d) (h : SyncedFiles.PowerLoss d d') {p : Text}
    {f' : SyncedFile Text} (hf' : d'.lookup p = some f') :
    (IsRecord recordFromSlice p f' ∧ ∃ f, d.lookup p = some f ∧ f'.bytes = f.bytes) ∨ IsLeft p f' := by
  obtain ⟨hflushed', -, q, f, hf, horigin', hsame, hname⟩ := h.comes p f' hf'
  rcases hsound.files q f hf with
    ⟨lease, outcome, hq, hbytes, hlen, hround, hflushed, horigin⟩ | ⟨lease, hq, horigin⟩
  · rcases hname with rfl | ⟨-, hp, -⟩
    · have hbytes' := hsame hflushed
      exact Or.inl ⟨⟨lease, outcome, hq, hbytes'.trans hbytes, hlen, hround, hflushed',
        horigin'.trans horigin⟩, f, hf, hbytes'⟩
    · exact Or.inr ⟨lease, hp.trans horigin, horigin'.trans horigin⟩
  · rcases hname with rfl | ⟨-, hp, -⟩
    · exact Or.inr ⟨lease, hq, horigin'.trans horigin⟩
    · exact Or.inr ⟨lease, hp.trans horigin, horigin'.trans horigin⟩

/-- A record that is there when the power is back was there before. -/
theorem retained_of_powerLoss (hsound : Sound recordFromSlice d) (h : SyncedFiles.PowerLoss d d')
    (hretained : Retained recordFromSlice d' lease outcome) : Retained recordFromSlice d lease outcome := by
  obtain ⟨f', hf', hbytes, hround⟩ := hretained
  rcases of_powerLoss hsound h hf' with ⟨-, f, hf, hsame⟩ | ⟨lease', hname, -⟩
  · exact ⟨f, hf, hsame.symm.trans hbytes, hround⟩
  · exact absurd hname (finalName_ne_pendingName lease lease')

/-- A loss of power takes records back to their first name, or loses them. -/
theorem Sound.powerLoss (hsound : Sound recordFromSlice d) (h : SyncedFiles.PowerLoss d d') :
    Sound recordFromSlice d' := by
  refine ⟨?_, ?_, ?_⟩
  · intro p f' hf'
    rcases of_powerLoss hsound h hf' with ⟨hrecord, -⟩ | hleft
    · exact Or.inl hrecord
    · exact Or.inr hleft
  · intro l o l' o' hl hl' hsame
    exact hsound.apart l o l' o' (retained_of_powerLoss hsound h hl) (retained_of_powerLoss hsound h hl')
      hsame
  · have hsubset : recordNames d' ⊆ recordNames d := by
      intro p hp
      obtain ⟨hthere, hsuffix⟩ := mem_recordNames.mp hp
      obtain ⟨f', hf'⟩ := Option.ne_none_iff_exists'.mp hthere
      rcases of_powerLoss hsound h hf' with ⟨-, f, hf, -⟩ | ⟨lease, hname, -⟩
      · exact mem_recordNames.mpr ⟨by simp [hf], hsuffix⟩
      · exact absurd (hname ▸ suffix_pendingName lease) (not_suffix_pending hsuffix)
    exact (List.subperm_of_subset (nodup_recordNames d') hsubset).length_le.trans hsound.few

/-- A record that is on disk stays when the power is lost. -/
theorem Durable.powerLoss (h : SyncedFiles.PowerLoss d d')
    (hdurable : Durable recordFromSlice d lease outcome) : Durable recordFromSlice d' lease outcome := by
  obtain ⟨f, hf, hbytes, hround, hflushed, hlinked⟩ := hdurable
  obtain ⟨f', hf', hsame⟩ := h.keeps _ f hf hlinked
  obtain ⟨hflushed', hlinked', -⟩ := h.comes _ f' hf'
  exact ⟨f', hf', (hsame hflushed).trans hbytes, hround, hflushed', hlinked'⟩

/-! ## Calls -/

/-- A call of `record` that is not refused for its arguments, and that can read the directory. -/
structure Admitted (recordFromSlice : Bytes → Option LocalRecord) (lease : Id) (outcome : Outcome)
    (expected : OriginalEffect) (stop : Option Stop) : Prop where
  original : outcome.matchesOriginalEffect expected = true
  small : (encode lease outcome).length ≤ maxRecord
  round : RoundTrips recordFromSlice lease outcome
  readable : stop ≠ some .read

variable {expected : OriginalEffect} {listing : List DirEntry} {stop : Option Stop}

theorem Admitted.record_of_error (h : Admitted recordFromSlice lease outcome expected stop)
    {e : JournalError} (hscan : scan recordFromSlice listing = .error e) :
    record recordFromSlice lease outcome expected listing stop d = (.error e, d) := by
  have hsmall : ¬ maxRecord < (encode lease outcome).length := Nat.not_lt.mpr h.small
  simp [record, h.original, hsmall, h.readable, hscan]

theorem Admitted.record_of_settled (h : Admitted recordFromSlice lease outcome expected stop)
    {records : List Scanned} {answer : Except JournalError RecordResult}
    (hscan : scan recordFromSlice listing = .ok records)
    (hsettled : settled lease outcome (encode lease outcome) records = some answer) :
    record recordFromSlice lease outcome expected listing stop d = (answer, d) := by
  have hsmall : ¬ maxRecord < (encode lease outcome).length := Nat.not_lt.mpr h.small
  simp [record, h.original, hsmall, h.readable, hscan, hsettled]

theorem Admitted.record_of_unused (h : Admitted recordFromSlice lease outcome expected stop)
    {records : List Scanned} (hscan : scan recordFromSlice listing = .ok records)
    (hsettled : settled lease outcome (encode lease outcome) records = none) :
    record recordFromSlice lease outcome expected listing stop d =
      if maxRecords ≤ records.length then (.error .capacity, d)
      else appendRecord lease (encode lease outcome) stop d := by
  have hsmall : ¬ maxRecord < (encode lease outcome).length := Nat.not_lt.mpr h.small
  simp [record, h.original, hsmall, h.readable, hscan, hsettled]

/-- A record has the lease, the receipt or the sequence. -/
def Used (recordFromSlice : Bytes → Option LocalRecord) (d : Dir) (lease : Id) (outcome : Outcome) : Prop :=
  ∃ lease' outcome', Retained recordFromSlice d lease' outcome' ∧
    (lease' = lease ∨ outcome'.ownerReceiptId = outcome.ownerReceiptId ∨
      outcome'.localSequence = outcome.localSequence)

theorem Admitted.record_of_left (h : Admitted recordFromSlice lease outcome expected stop)
    (hsound : Sound recordFromSlice d) (hlisting : listing.Perm d.entries) (hleft : Left d) :
    record recordFromSlice lease outcome expected listing stop d = (.error .pending, d) :=
  h.record_of_error (scan_of_left hsound hleft hlisting)

theorem Admitted.record_of_retained (h : Admitted recordFromSlice lease outcome expected stop)
    (hsound : Sound recordFromSlice d) (hlisting : listing.Perm d.entries) (hclean : ¬ Left d)
    (hretained : Retained recordFromSlice d lease outcome) :
    record recordFromSlice lease outcome expected listing stop d = (.ok .existing, d) := by
  obtain ⟨records, hscan, -, -, hmem⟩ := scan_of_clean hsound hclean hlisting
  apply h.record_of_settled hscan
  apply settled_eq_existing
  · exact ⟨_, (hmem _).mpr ⟨lease, outcome, hretained, rfl⟩, rfl⟩
  · intro s hs hlease
    obtain ⟨lease', outcome', hretained', rfl⟩ := (hmem s).mp hs
    obtain rfl : lease' = lease := hlease
    exact congrArg (encode lease') (hretained'.unique hretained)
  · intro s hs hlease hclash
    obtain ⟨lease', outcome', hretained', rfl⟩ := (hmem s).mp hs
    exact hlease (hsound.apart _ _ _ _ hretained' hretained hclash)

theorem Admitted.record_of_used (h : Admitted recordFromSlice lease outcome expected stop)
    (hsound : Sound recordFromSlice d) (hlisting : listing.Perm d.entries) (hclean : ¬ Left d)
    (hused : Used recordFromSlice d lease outcome) (hother : ¬ Retained recordFromSlice d lease outcome) :
    record recordFromSlice lease outcome expected listing stop d = (.error .conflict, d) := by
  obtain ⟨records, hscan, -, -, hmem⟩ := scan_of_clean hsound hclean hlisting
  apply h.record_of_settled hscan
  apply settled_eq_conflict
  · obtain ⟨lease', outcome', hretained, hsame⟩ := hused
    exact ⟨_, (hmem _).mpr ⟨lease', outcome', hretained, rfl⟩, hsame⟩
  · intro s hs hlease hbytes
    obtain ⟨lease', outcome', ⟨f, hf, hencoded, -⟩, rfl⟩ := (hmem s).mp hs
    obtain rfl : lease' = lease := hlease
    exact hother ⟨f, hf, hencoded.trans hbytes, h.round⟩

theorem Admitted.record_of_not_used (h : Admitted recordFromSlice lease outcome expected stop)
    (hsound : Sound recordFromSlice d) (hlisting : listing.Perm d.entries) (hclean : ¬ Left d)
    (hunused : ¬ Used recordFromSlice d lease outcome) :
    record recordFromSlice lease outcome expected listing stop d =
      if maxRecords ≤ d.entries.length then (.error .capacity, d)
      else appendRecord lease (encode lease outcome) stop d := by
  obtain ⟨records, hscan, hlength, -, hmem⟩ := scan_of_clean hsound hclean hlisting
  rw [← hlength]
  apply h.record_of_unused hscan
  apply settled_eq_none
  intro s hs
  obtain ⟨lease', outcome', hretained, rfl⟩ := (hmem s).mp hs
  exact ⟨fun hlease => hunused ⟨lease', outcome', hretained, Or.inl hlease⟩,
    fun hclash => hunused ⟨lease', outcome', hretained, Or.inr hclash⟩⟩

theorem lookup_pendingName (hsound : Sound recordFromSlice d) (hclean : ¬ Left d) (lease : Id) :
    d.lookup (pendingName lease) = none := by
  rcases hf : d.lookup (pendingName lease) with _ | f
  · rfl
  · rcases hsound.files _ f hf with ⟨lease', outcome', hname, -⟩ | hleft
    · exact absurd hname.symm (finalName_ne_pendingName lease' lease)
    · exact absurd ⟨_, f, hf, hleft⟩ hclean

theorem lookup_finalName (hsound : Sound recordFromSlice d) {f : SyncedFile Text}
    (hf : d.lookup (finalName lease) = some f) : ∃ outcome, Retained recordFromSlice d lease outcome := by
  rcases hsound.files _ f hf with ⟨lease', outcome', hname, hbytes, -, hround, -⟩ | ⟨lease', hname, -⟩
  · obtain rfl := finalName_injective hname
    exact ⟨outcome', f, hf, hbytes, hround⟩
  · exact absurd hname (finalName_ne_pendingName lease lease')

/-- A call that gets as far as the append. -/
structure Appends (recordFromSlice : Bytes → Option LocalRecord) (d : Dir) (lease : Id) (outcome : Outcome)
    (run : Except JournalError RecordResult × Dir) : Prop where
  clean : ¬ Left d
  unused : ¬ Used recordFromSlice d lease outcome
  room : d.entries.length < maxRecords
  small : (encode lease outcome).length ≤ maxRecord
  appended : Appended lease (encode lease outcome) d run

/-- **What a call does**: it appends, or the directory is as it was. -/
theorem record_cases (hsound : Sound recordFromSlice d) (hlisting : listing.Perm d.entries)
    (hround : RoundTrips recordFromSlice lease outcome) :
    Appends recordFromSlice d lease outcome
        (record recordFromSlice lease outcome expected listing stop d) ∨
      (Retained recordFromSlice d lease outcome ∧
        record recordFromSlice lease outcome expected listing stop d = (.ok .existing, d)) ∨
      ∃ e, record recordFromSlice lease outcome expected listing stop d = (.error e, d) := by
  by_cases horiginal : outcome.matchesOriginalEffect expected = true
  swap
  · exact Or.inr (Or.inr ⟨.conflict, by simp [record, horiginal]⟩)
  by_cases hsmall : maxRecord < (encode lease outcome).length
  · exact Or.inr (Or.inr ⟨.capacity, by simp [record, horiginal, hsmall]⟩)
  by_cases hread : stop = some .read
  · exact Or.inr (Or.inr ⟨.io, by simp [record, horiginal, hsmall, hread]⟩)
  have h : Admitted recordFromSlice lease outcome expected stop :=
    ⟨horiginal, Nat.not_lt.mp hsmall, hround, hread⟩
  by_cases hleft : Left d
  · exact Or.inr (Or.inr ⟨.pending, h.record_of_left hsound hlisting hleft⟩)
  by_cases hretained : Retained recordFromSlice d lease outcome
  · exact Or.inr (Or.inl ⟨hretained, h.record_of_retained hsound hlisting hleft hretained⟩)
  by_cases hused : Used recordFromSlice d lease outcome
  · exact Or.inr (Or.inr ⟨.conflict, h.record_of_used hsound hlisting hleft hused hretained⟩)
  have hrecord := h.record_of_not_used hsound hlisting hleft hused (d := d)
  by_cases hfull : maxRecords ≤ d.entries.length
  · exact Or.inr (Or.inr ⟨.capacity, hrecord.trans (if_pos hfull)⟩)
  have hfinal : d.lookup (finalName lease) = none := by
    rcases hf : d.lookup (finalName lease) with _ | f
    · rfl
    · obtain ⟨outcome', hretained'⟩ := lookup_finalName hsound hf
      exact absurd ⟨lease, outcome', hretained', Or.inl rfl⟩ hused
  refine Or.inl ⟨hleft, hused, Nat.not_le.mp hfull, h.small, ?_⟩
  rw [hrecord, if_neg hfull]
  exact appended_appendRecord (lookup_pendingName hsound hleft lease) hfinal stop

/-! ## Runs -/

theorem Sound.empty : Sound recordFromSlice ∅ where
  files p f hf := by
    rw [AList.lookup_empty] at hf
    cases hf
  apart := by
    rintro lease outcome lease' outcome' ⟨f, hf, -⟩
    rw [AList.lookup_empty] at hf
    cases hf
  few := Nat.zero_le _

/-- Where the call appends, no record clashes with the new one. -/
theorem Appends.unused_of_retained {run : Except JournalError RecordResult × Dir}
    (h : Appends recordFromSlice d lease outcome run) {lease' : Id} {outcome' : Outcome}
    (hretained : Retained recordFromSlice d lease' outcome') :
    lease' ≠ lease ∧ outcome'.ownerReceiptId ≠ outcome.ownerReceiptId ∧
      outcome'.localSequence ≠ outcome.localSequence := by
  have hunused := h.unused
  refine ⟨?_, ?_, ?_⟩
  · intro hsame
    exact hunused ⟨lease', outcome', hretained, Or.inl hsame⟩
  · intro hsame
    exact hunused ⟨lease', outcome', hretained, Or.inr (Or.inl hsame)⟩
  · intro hsame
    exact hunused ⟨lease', outcome', hretained, Or.inr (Or.inr hsame)⟩

theorem Appends.lookup_finalName {run : Except JournalError RecordResult × Dir}
    (hsound : Sound recordFromSlice d) (h : Appends recordFromSlice d lease outcome run) :
    d.lookup (finalName lease) = none := by
  rcases hf : d.lookup (finalName lease) with _ | f
  · rfl
  · obtain ⟨outcome', hretained⟩ := Journal.lookup_finalName hsound hf
    exact absurd rfl (h.unused_of_retained hretained).1

theorem Sound.calls (hsound : Sound recordFromSlice d) (h : Calls recordFromSlice d d') :
    Sound recordFromSlice d' := by
  cases h with
  | record lease outcome expected listing stop hlisting hround =>
      rcases record_cases hsound hlisting hround with happends | ⟨-, hrecord⟩ | ⟨e, hrecord⟩
      · exact hsound.appended (fun _ _ => happends.unused_of_retained) hround happends.small happends.room
          happends.appended
      · rw [hrecord]
        exact hsound
      · rw [hrecord]
        exact hsound

theorem sound_of_reachable (h : Reachable recordFromSlice d) : Sound recordFromSlice d := by
  induction h with
  | refl => exact Sound.empty
  | tail _ hstep ih =>
      rcases hstep with hcall | hloss
      · exact ih.calls hcall
      · exact ih.powerLoss hloss

/-- A call takes no file away and changes none. -/
theorem keeps_of_calls (hsound : Sound recordFromSlice d) (h : Calls recordFromSlice d d') {p : Text}
    {f : SyncedFile Text} (hf : d.lookup p = some f) :
    ∃ linked, d'.lookup p = some { f with linked := linked } ∧ (f.linked = true → linked = true) := by
  cases h with
  | record lease outcome expected listing stop hlisting hround =>
      rcases record_cases hsound hlisting hround with happends | ⟨-, hrecord⟩ | ⟨e, hrecord⟩
      · exact happends.appended.keeps (lookup_pendingName hsound happends.clean lease)
          (happends.lookup_finalName hsound) hf
      · rw [hrecord]
        exact ⟨f.linked, hf, id⟩
      · rw [hrecord]
        exact ⟨f.linked, hf, id⟩

theorem Retained.calls (hsound : Sound recordFromSlice d) (h : Calls recordFromSlice d d')
    (hretained : Retained recordFromSlice d lease outcome) : Retained recordFromSlice d' lease outcome := by
  obtain ⟨f, hf, hbytes, hround⟩ := hretained
  obtain ⟨linked, hf', -⟩ := keeps_of_calls hsound h hf
  exact ⟨_, hf', hbytes, hround⟩

theorem Durable.calls (hsound : Sound recordFromSlice d) (h : Calls recordFromSlice d d')
    (hdurable : Durable recordFromSlice d lease outcome) : Durable recordFromSlice d' lease outcome := by
  obtain ⟨f, hf, hbytes, hround, hflushed, hlinked⟩ := hdurable
  obtain ⟨linked, hf', hkeeps⟩ := keeps_of_calls hsound h hf
  exact ⟨_, hf', hbytes, hround, hflushed, hkeeps hlinked⟩

/-- A record is there after any calls. -/
theorem Retained.run (hsound : Sound recordFromSlice d)
    (hrun : Relation.ReflTransGen (Calls recordFromSlice) d d')
    (hretained : Retained recordFromSlice d lease outcome) : Retained recordFromSlice d' lease outcome := by
  have hkept : Sound recordFromSlice d' ∧ Retained recordFromSlice d' lease outcome := by
    induction hrun with
    | refl => exact ⟨hsound, hretained⟩
    | tail _ hcall ih => exact ⟨ih.1.calls hcall, ih.2.calls ih.1 hcall⟩
  exact hkept.2

/-- A record on disk is there after any run. -/
theorem Durable.run (hsound : Sound recordFromSlice d)
    (hrun : Relation.ReflTransGen (Step recordFromSlice) d d')
    (hdurable : Durable recordFromSlice d lease outcome) : Durable recordFromSlice d' lease outcome := by
  have hkept : Sound recordFromSlice d' ∧ Durable recordFromSlice d' lease outcome := by
    induction hrun with
    | refl => exact ⟨hsound, hdurable⟩
    | tail _ hstep ih =>
        rcases hstep with hcall | hloss
        · exact ⟨ih.1.calls hcall, ih.2.calls ih.1 hcall⟩
        · exact ⟨ih.1.powerLoss hloss, ih.2.powerLoss hloss⟩
  exact hkept.2

/-! ## What holds wherever a run leads -/

/-- What a call of `record` answers, and the directory after it. -/
structure CallLaw (recordFromSlice : Bytes → Option LocalRecord) (d : Dir) (lease : Id) (outcome : Outcome)
    (expected : OriginalEffect) (stop : Option Stop) (run : Except JournalError RecordResult × Dir) :
    Prop where
  recorded : run.1 = .ok .recorded →
    ¬ Used recordFromSlice d lease outcome ∧ Durable recordFromSlice run.2 lease outcome
  existing : run.1 = .ok .existing → Retained recordFromSlice d lease outcome ∧ run.2 = d
  /-- No record but its own is added. -/
  only : ∀ lease' outcome', Retained recordFromSlice run.2 lease' outcome' →
    Retained recordFromSlice d lease' outcome' ∨ lease' = lease ∧ outcome' = outcome
  mismatched : outcome.matchesOriginalEffect expected = false → run = (.error .conflict, d)
  large : outcome.matchesOriginalEffect expected = true →
    maxRecord < (encode lease outcome).length → run = (.error .capacity, d)
  unreadable : outcome.matchesOriginalEffect expected = true →
    (encode lease outcome).length ≤ maxRecord → stop = some .read → run = (.error .io, d)
  pending : Admitted recordFromSlice lease outcome expected stop → Left d → run = (.error .pending, d)
  repeated : Admitted recordFromSlice lease outcome expected stop → ¬ Left d →
    Retained recordFromSlice d lease outcome → run = (.ok .existing, d)
  conflict : Admitted recordFromSlice lease outcome expected stop → ¬ Left d →
    Used recordFromSlice d lease outcome → ¬ Retained recordFromSlice d lease outcome →
    run = (.error .conflict, d)

theorem callLaw (hsound : Sound recordFromSlice d) (hlisting : listing.Perm d.entries)
    (hround : RoundTrips recordFromSlice lease outcome) :
    CallLaw recordFromSlice d lease outcome expected stop
      (record recordFromSlice lease outcome expected listing stop d) where
  recorded hanswer := by
    rcases record_cases hsound hlisting hround with happends | ⟨-, hrecord⟩ | ⟨e, hrecord⟩
    · exact ⟨happends.unused, happends.appended.durable hround hanswer⟩
    · rw [hrecord] at hanswer
      cases hanswer
    · rw [hrecord] at hanswer
      cases hanswer
  existing hanswer := by
    rcases record_cases hsound hlisting hround with happends | ⟨hretained, hrecord⟩ | ⟨e, hrecord⟩
    · exact absurd hanswer happends.appended.ne_existing
    · exact ⟨hretained, by rw [hrecord]⟩
    · rw [hrecord] at hanswer
      cases hanswer
  only lease' outcome' hretained := by
    rcases record_cases hsound hlisting hround with happends | ⟨-, hrecord⟩ | ⟨e, hrecord⟩
    · exact happends.appended.retained hround hretained
    · rw [hrecord] at hretained
      exact Or.inl hretained
    · rw [hrecord] at hretained
      exact Or.inl hretained
  mismatched horiginal := by simp [record, horiginal]
  large horiginal hlarge := by simp [record, horiginal, hlarge]
  unreadable horiginal hsmall hread := by
    have hsmall' : ¬ maxRecord < (encode lease outcome).length := Nat.not_lt.mpr hsmall
    simp [record, horiginal, hsmall', hread]
  pending h hleft := h.record_of_left hsound hlisting hleft
  repeated h hclean hretained := h.record_of_retained hsound hlisting hclean hretained
  conflict h hclean hused hother := h.record_of_used hsound hlisting hclean hused hother

/-- What is in the directory, what stays in it, and what calls do with it. -/
structure JournalLaw (recordFromSlice : Bytes → Option LocalRecord) (d : Dir) : Prop where
  files : ∀ p f, d.lookup p = some f →
    (∃ lease outcome, p = finalName lease ∧ Retained recordFromSlice d lease outcome) ∨ IsLeft p f
  apart : ∀ lease outcome lease' outcome', Retained recordFromSlice d lease outcome →
    Retained recordFromSlice d lease' outcome' →
    lease = lease' ∨ outcome.ownerReceiptId = outcome'.ownerReceiptId ∨
      outcome.localSequence = outcome'.localSequence →
    lease = lease' ∧ outcome = outcome'
  few : ∀ leases : List Id, leases.Nodup →
    (∀ lease ∈ leases, ∃ outcome, Retained recordFromSlice d lease outcome) → leases.length ≤ maxRecords
  kept : ∀ d' lease outcome, Relation.ReflTransGen (Calls recordFromSlice) d d' →
    Retained recordFromSlice d lease outcome → Retained recordFromSlice d' lease outcome
  durable : ∀ d' lease outcome, Relation.ReflTransGen (Step recordFromSlice) d d' →
    Durable recordFromSlice d lease outcome → Durable recordFromSlice d' lease outcome
  /-- A loss of power makes no records. -/
  lost : ∀ d' lease outcome, SyncedFiles.PowerLoss d d' → Retained recordFromSlice d' lease outcome →
    Retained recordFromSlice d lease outcome
  calls : ∀ lease outcome expected listing stop, listing.Perm d.entries →
    RoundTrips recordFromSlice lease outcome → CallLaw recordFromSlice d lease outcome expected stop
      (record recordFromSlice lease outcome expected listing stop d)
  inspects : ∀ listing stop, listing.Perm d.entries → stop ≠ some .read →
    (Left d → inspect recordFromSlice listing stop = .error .pending) ∧
      (¬ Left d → ∃ records, inspect recordFromSlice listing stop = .ok records ∧
        records.Pairwise (fun r r' => r.outcome.localSequence < r'.outcome.localSequence) ∧
        ∀ r, r ∈ records ↔ ∃ lease outcome, Retained recordFromSlice d lease outcome ∧
          r = ⟨schema, lease, outcome⟩)

/-- **The owner journal.** -/
theorem journalLaw (h : Reachable recordFromSlice d) : JournalLaw recordFromSlice d := by
  have hsound := sound_of_reachable h
  refine ⟨?_, ?_, ?_, ?_, ?_, ?_, ?_, ?_⟩
  · intro p f hf
    rcases hsound.files p f hf with ⟨lease, outcome, hp, hbytes, -, hround, -⟩ | hleft
    · exact Or.inl ⟨lease, outcome, hp, f, hp ▸ hf, hbytes, hround⟩
    · exact Or.inr hleft
  · intro lease outcome lease' outcome' hretained hretained' hsame
    obtain rfl : lease = lease' := by
      rcases hsame with hlease | hclash
      · exact hlease
      · exact hsound.apart _ _ _ _ hretained hretained' hclash
    exact ⟨rfl, hretained.unique hretained'⟩
  · intro leases hnodup hleases
    have hnames : (leases.map finalName).Nodup := hnodup.map finalName_injective
    have hsubset : leases.map finalName ⊆ recordNames d := by
      intro p hp
      obtain ⟨lease, hlease, rfl⟩ := List.mem_map.mp hp
      obtain ⟨outcome, f, hf, -⟩ := hleases lease hlease
      exact mem_recordNames.mpr ⟨by simp [hf], suffix_finalName lease⟩
    have hle := (List.subperm_of_subset hnames hsubset).length_le
    rw [List.length_map] at hle
    exact hle.trans hsound.few
  · intro d' lease outcome hrun hretained
    exact hretained.run hsound hrun
  · intro d' lease outcome hrun hdurable
    exact hdurable.run hsound hrun
  · intro d' lease outcome hloss hretained
    exact retained_of_powerLoss hsound hloss hretained
  · intro lease outcome expected listing stop hlisting hround
    exact callLaw hsound hlisting hround
  · intro listing stop hlisting hread
    refine ⟨?_, ?_⟩
    · intro hleft
      rw [inspect, if_neg hread, scan_of_left hsound hleft hlisting]
      rfl
    · intro hclean
      obtain ⟨records, hscan, -, hsorted, hmem⟩ := scan_of_clean hsound hclean hlisting
      refine ⟨records.map Scanned.record, ?_, List.pairwise_map.mpr hsorted, ?_⟩
      · rw [inspect, if_neg hread, hscan]
        rfl
      · intro r
        rw [List.mem_map]
        constructor
        · rintro ⟨s, hs, rfl⟩
          obtain ⟨lease, outcome, hretained, rfl⟩ := (hmem s).mp hs
          exact ⟨lease, outcome, hretained, rfl⟩
        · rintro ⟨lease, outcome, hretained, rfl⟩
          exact ⟨_, (hmem _).mpr ⟨lease, outcome, hretained, rfl⟩, rfl⟩

/-- The directory after a call in an empty one. -/
def firstRecord (recordFromSlice : Bytes → Option LocalRecord) (lease : Id) (outcome : Outcome)
    (expected : OriginalEffect) (stop : Option Stop) : Dir :=
  (record recordFromSlice lease outcome expected [] stop ∅).2

theorem reachable_firstRecord (expected : OriginalEffect) (stop : Option Stop)
    (hround : RoundTrips recordFromSlice lease outcome) :
    Reachable recordFromSlice (firstRecord recordFromSlice lease outcome expected stop) := by
  have hlisting : ([] : List DirEntry).Perm (∅ : Dir).entries := List.Perm.refl _
  exact Relation.ReflTransGen.single
    (Or.inl (Calls.record lease outcome expected [] stop hlisting hround))

end

/-! ## The outcome of a note -/

section Example

/-- Reads the record of the note. -/
def noteRecordFromSlice (bytes : Bytes) : Option LocalRecord :=
  if bytes = encode noteContext.lease noteContext.proposal then
    some ⟨schema, noteContext.lease, noteContext.proposal⟩
  else none

def noteJournal (stop : Option Stop) : Dir :=
  firstRecord noteRecordFromSlice noteContext.lease noteContext.proposal noteContext.original stop

theorem roundTrips_note : RoundTrips noteRecordFromSlice noteContext.lease noteContext.proposal := by
  have h : ∀ bytes, bytes = encode noteContext.lease noteContext.proposal →
      noteRecordFromSlice bytes = some ⟨schema, noteContext.lease, noteContext.proposal⟩ :=
    fun _ h => if_pos h
  exact h _ rfl

theorem reachable_noteJournal (stop : Option Stop) :
    Reachable noteRecordFromSlice (noteJournal stop) :=
  reachable_firstRecord noteContext.original stop roundTrips_note

theorem journalLaw_note : JournalLaw noteRecordFromSlice (noteJournal none) :=
  journalLaw (reachable_noteJournal none)

def leftNote : DirEntry :=
  ⟨pendingName noteContext.lease, ⟨[], pendingName noteContext.lease, false, false⟩⟩

def renamedNote : DirEntry :=
  ⟨finalName noteContext.lease,
    ⟨encode noteContext.lease noteContext.proposal, pendingName noteContext.lease, true, false⟩⟩

/-- The call stops before its first byte, or before the directory is synced. -/
theorem entries_noteJournal :
    (noteJournal (some (.write 0))).entries = [leftNote] ∧
      (noteJournal (some .link)).entries = [renamedNote] := by
  decide +kernel

theorem left_note : Left (noteJournal (some (.write 0))) := by
  have hmem : leftNote ∈ (noteJournal (some (.write 0))).entries := by
    rw [entries_noteJournal.1]
    exact List.mem_singleton_self _
  exact ⟨_, _, Table.mem_entries_iff.mp hmem, noteContext.lease, rfl, rfl⟩

theorem retained_note :
    Retained noteRecordFromSlice (noteJournal (some .link)) noteContext.lease noteContext.proposal := by
  have hmem : renamedNote ∈ (noteJournal (some .link)).entries := by
    rw [entries_noteJournal.2]
    exact List.mem_singleton_self _
  exact ⟨_, Table.mem_entries_iff.mp hmem, rfl, roundTrips_note⟩

theorem unlinked_note {e : DirEntry} (he : e ∈ (noteJournal (some .link)).entries) :
    e.2.linked = false := by
  rw [entries_noteJournal.2] at he
  rw [List.mem_singleton.mp he]
  rfl

/-- A file that was left does not make a call pending that is not about the original effect, and a
record that has not been synced can be lost with the power. -/
theorem not_pending_not_kept :
    (¬ ∀ recordFromSlice d lease outcome expected listing, Reachable recordFromSlice d → Left d →
      listing.Perm d.entries → RoundTrips recordFromSlice lease outcome →
      record recordFromSlice lease outcome expected listing none d = (.error .pending, d)) ∧
    ¬ ∀ recordFromSlice d d' lease outcome, Reachable recordFromSlice d → Step recordFromSlice d d' →
      Retained recordFromSlice d lease outcome → Retained recordFromSlice d' lease outcome := by
  constructor
  · intro h
    have hpending := h noteRecordFromSlice _ noteContext.lease noteContext.proposal
      { noteContext.original with localSeq := 2 } _ (reachable_noteJournal (some (.write 0))) left_note
      (List.Perm.refl _) roundTrips_note
    have hmismatched : noteContext.proposal.matchesOriginalEffect
        { noteContext.original with localSeq := 2 } = false := by
      apply decide_eq_false
      intro hsame
      have hsequence : (1 : Counter) = 2 := congrArg OriginalEffect.localSeq hsame
      revert hsequence
      decide
    simp [record, hmismatched] at hpending
  · intro h
    have hloss : SyncedFiles.PowerLoss (noteJournal (some .link)) ∅ := by
      refine ⟨?_, ?_⟩
      · intro p f hf hlinked
        have hunlinked := unlinked_note (Table.mem_entries_iff.mpr hf)
        rw [hunlinked] at hlinked
        cases hlinked
      · intro p f hf
        rw [AList.lookup_empty] at hf
        cases hf
    obtain ⟨f, hf, -⟩ := h noteRecordFromSlice _ _ _ _ (reachable_noteJournal (some .link)) (Or.inr hloss)
      retained_note
    rw [AList.lookup_empty] at hf
    cases hf

end Example

end DiskArcana.Personal.Journal
