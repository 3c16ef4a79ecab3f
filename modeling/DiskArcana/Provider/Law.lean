import DiskArcana.Provider.Stages

/-!
# What the provider keeps

Every call, wherever it stops, advances the entries by its own request (`triple_exec`), so that every state
that a run leads to is `Sound`. `providerLaw` says what that means for the rows and files that are there:
every commit has its file, on disk and verified; commits are numbered from one without a gap; and what has
been committed stays, with its number and its bytes, whatever fails and however often the power is lost.
-/

namespace DiskArcana.Provider

open DiskArcana.Lib DiskArcana.Accounts
open DiskArcana.Lib.Interrupted (Fault Prog Triple check attempt observe change)
open DiskArcana.Personal (CaptureDescriptor identifier digest field maxCounter)

variable {deps : Deps} {profile : Profile} {s₀ s s' : State} {es : List Entry} {r : Request} {bytes : Bytes}

/-! ## Calls -/

/-- From the reservation to the commit. -/
theorem triple_complete {wasReserved : Bool} {es₁ : List Entry}
    (hes : es₁ = es ∨ es₁ = es ++ [⟨r, none⟩]) (he : ⟨r, none⟩ ∈ es₁) (hvalid : r.valid = true)
    (hverifies : r.verifies deps bytes = true) :
    Triple (During deps profile s₀ es₁) (complete deps r bytes wasReserved)
      (fun done s => done = ⟨r.commitId deps, done.sequence, r⟩ ∧ ∃ es', Advances r es es' ∧
        During deps profile s₀ es' s ∧ ⟨r, some done.sequence⟩ ∈ es')
      (Underway deps profile s₀ r es) := by
  obtain ⟨as, bs, rfl⟩ := List.append_of_mem he
  have hbefore : Advances r es (as ++ ⟨r, none⟩ :: bs) := by
    rcases hes with hes | hes
    · rw [hes]
      exact .same
    · rw [hes]
      exact .reserved
  have hcount : ((as ++ ⟨r, none⟩ :: bs).filterMap Entry.sequence).length =
      (es.filterMap Entry.sequence).length := by
    rcases hes with hes | hes
    · rw [hes]
    · rw [hes, List.filterMap_append, List.filterMap_cons_none rfl, List.filterMap_nil, List.append_nil]
  have hafter : Advances r es
      (as ++ ⟨r, some (((as ++ ⟨r, none⟩ :: bs).filterMap Entry.sequence).length + 1)⟩ :: bs) := by
    rw [hcount]
    exact .committed as bs hes
  have hunder : ∀ {s}, During deps profile s₀ (as ++ ⟨r, none⟩ :: bs) s → Underway deps profile s₀ r es s :=
    fun hs => ⟨_, hbefore, hs⟩
  refine Triple.bind (triple_checkpoint (fun _ hs => hunder hs) _) fun _ => ?_
  refine Triple.bind (underway_of_triple (triple_placeFile he hvalid hverifies) hbefore) fun _ => ?_
  refine Triple.bind (triple_checkpoint (fun _ hs => hunder hs.1) _) fun _ => ?_
  refine Triple.bind (underway_of_triple (triple_syncPublishDirs r) hbefore) fun _ => ?_
  refine Triple.bind (triple_checkpoint (fun _ hs => hunder hs.1) _) fun _ => ?_
  refine Triple.bind (triple_available fun _ hs => hunder hs.1) fun _ => ?_
  refine Triple.bind (triple_checkpoint (fun _ hs => hunder hs.1) _) fun _ => ?_
  refine Triple.bind (Q := fun done s =>
    done = ⟨r.commitId deps, ((as ++ ⟨r, none⟩ :: bs).filterMap Entry.sequence).length + 1, r⟩ ∧
      During deps profile s₀ (as ++ ⟨r, some done.sequence⟩ :: bs) s) ?_ fun done => ?_
  · intro s fs hs
    obtain ⟨hA, hQ⟩ := triple_commit s fs hs
    refine ⟨?_, hQ⟩
    rcases hA with hA | hA
    · exact hunder hA
    · exact ⟨_, hafter, hA⟩
  · have hdone : ∀ s, done = ⟨r.commitId deps,
          ((as ++ ⟨r, none⟩ :: bs).filterMap Entry.sequence).length + 1, r⟩ ∧
          During deps profile s₀ (as ++ ⟨r, some done.sequence⟩ :: bs) s →
        ∃ es', Advances r es es' ∧ During deps profile s₀ es' s ∧ ⟨r, some done.sequence⟩ ∈ es' := by
      rintro s ⟨hdone, hs⟩
      refine ⟨_, ?_, hs, List.mem_append_right _ List.mem_cons_self⟩
      rw [hdone]
      exact hafter
    have hstop : ∀ s, done = ⟨r.commitId deps,
          ((as ++ ⟨r, none⟩ :: bs).filterMap Entry.sequence).length + 1, r⟩ ∧
          During deps profile s₀ (as ++ ⟨r, some done.sequence⟩ :: bs) s →
        Underway deps profile s₀ r es s := by
      intro s hs
      obtain ⟨es', hes', hduring, -⟩ := hdone s hs
      exact ⟨es', hes', hduring⟩
    refine Triple.bind (triple_checkpoint hstop _) fun _ => ?_
    refine Triple.pure hstop ?_
    intro s hs
    refine ⟨?_, hdone s hs⟩
    rw [hs.1]

/-- What a call that stages has answered. -/
def StagedIn (deps : Deps) (r : Request) (bytes : Bytes) (es : List Entry) (done : LocalCommit) : Prop :=
  r.verifies deps bytes = true ∧ done = ⟨r.commitId deps, done.sequence, r⟩ ∧ ⟨r, some done.sequence⟩ ∈ es

/-- **Staging**, interrupted or not. -/
theorem triple_stageInternal {capture : Option (CaptureDescriptor × Text)} (hround : RoundTrips deps r)
    (hbound : Bound profile capture) :
    Triple (During deps profile s₀ es) (stageInternal deps r bytes capture)
      (fun done s => ∃ es', Advances r es es' ∧ During deps profile s₀ es' s ∧
        StagedIn deps r bytes es' done)
      (Underway deps profile s₀ r es) := by
  refine Triple.bind (triple_available fun _ hs => hs.underway) fun _ => ?_
  refine Triple.bind (triple_check (fun _ hs => hs.underway) _) fun _ => ?_
  split_ifs with hverifies
  · exact triple_refuse (fun _ hs => hs.1.underway) _
  · rw [Bool.not_eq_true', Bool.not_eq_false] at hverifies
    intro s fs hs
    obtain ⟨hduring, hvalidate⟩ := hs
    have hvalid : r.valid = true := by
      unfold Request.validate at hvalidate
      split_ifs at hvalidate with hvalid
      exact hvalid
    suffices hrest : Triple (During deps profile s₀ es) (do
        consistency deps
        let prior ← records deps
        rejectUnlessKnown r prior
        checkpoint "before_prepare"
        let reserved ← reserve deps r capture
        completeUnless deps r bytes reserved)
        (fun done s => ∃ es', Advances r es es' ∧ During deps profile s₀ es' s ∧
          StagedIn deps r bytes es' done)
        (Underway deps profile s₀ r es) from hrest s fs hduring
    refine Triple.bind (underway_of_triple triple_consistency .same) fun _ => ?_
    refine Triple.bind (underway_of_triple triple_records .same) fun prior => ?_
    refine Triple.bind ((underway_of_triple (triple_rejectUnlessKnown r prior) .same).mono (fun _ hs => hs.1)
      fun _ _ hs => hs) fun _ => ?_
    refine Triple.bind (triple_checkpoint (fun _ hs => hs.underway) _) fun _ => ?_
    refine Triple.bind (triple_reserve hvalid hround hbound) ?_
    rintro ⟨wasReserved, _ | done⟩
    · show Triple _ (complete deps r bytes wasReserved) _ _
      intro s fs hs
      obtain ⟨es₁, hes₁, he, hduring⟩ : ∃ es₁, (es₁ = es ∨ es₁ = es ++ [⟨r, none⟩]) ∧
          (⟨r, none⟩ : Entry) ∈ es₁ ∧ During deps profile s₀ es₁ s := by
        rcases hs with ⟨-, hduring, e, he, hrequest, hcommit⟩ | ⟨-, -, hduring⟩
        · have hsequence : e.sequence = none := Option.map_eq_none_iff.mp hcommit
          have heq : e = ⟨r, none⟩ := by rw [← hrequest, ← hsequence]
          exact ⟨es, Or.inl rfl, heq ▸ he, hduring⟩
        · exact ⟨_, Or.inr rfl, List.mem_append_right _ (List.mem_singleton_self _), hduring⟩
      have hcomplete : Triple (During deps profile s₀ es₁) (complete deps r bytes wasReserved)
          (fun done s => ∃ es', Advances r es es' ∧ During deps profile s₀ es' s ∧
            StagedIn deps r bytes es' done) (Underway deps profile s₀ r es) := by
        refine (triple_complete hes₁ he hvalid hverifies).mono (fun _ hs => hs) ?_
        rintro done s ⟨hdone, es', hes', hs, hmem⟩
        exact ⟨es', hes', hs, hverifies, hdone, hmem⟩
      exact hcomplete s fs hduring
    · intro s fs hs
      rcases hs with ⟨-, hduring, e, he, hrequest, hcommit⟩ | ⟨-, hnone, -⟩
      · obtain ⟨n, hn, hdone⟩ := Option.map_eq_some_iff.mp hcommit
        have heq : e = ⟨r, some n⟩ := by rw [← hrequest, ← hn]
        have hanswer : done = ⟨r.commitId deps, n, r⟩ := by rw [← hdone, hrequest]
        have hpure : Triple (During deps profile s₀ es) (pure done : Run LocalCommit)
            (fun done s => ∃ es', Advances r es es' ∧ During deps profile s₀ es' s ∧
              StagedIn deps r bytes es' done) (Underway deps profile s₀ r es) := by
          refine Triple.pure (fun _ hs => hs.underway) ?_
          intro s hs
          refine ⟨es, .same, hs, hverifies, ?_⟩
          rw [hanswer]
          exact ⟨rfl, heq ▸ he⟩
        exact hpure s fs hduring
      · cases hnone

/-- **Reading**, interrupted or not. -/
theorem triple_readInternal (r : Request) : Triple (During deps profile s₀ es) (readInternal deps r)
    (fun bytes s => During deps profile s₀ es s ∧ (∃ n, (⟨r, some n⟩ : Entry) ∈ es) ∧
      ∃ f, s.tree.files.lookup r.objectPath = some f ∧ f.bytes = bytes)
    (During deps profile s₀ es) := by
  refine Triple.bind (triple_available fun _ hs => hs) fun _ => ?_
  refine Triple.bind (triple_check (fun _ hs => hs) _) fun _ => ?_
  refine Triple.bind (triple_consistency.mono (fun _ hs => hs.1) fun _ _ hs => hs) fun _ => ?_
  refine Triple.bind triple_records fun rs => ?_
  generalize hfind : List.find? _ rs = found
  rcases found with _ | record
  · exact triple_refuse (fun _ hs => hs.1) _
  · rw [readRecord]
    split_ifs with hrequest hcommitted
    · exact triple_refuse (fun _ hs => hs.1) _
    · exact triple_refuse (fun _ hs => hs.1) _
    · refine Triple.of_pure (p := ∃ n, (⟨r, some n⟩ : Entry) ∈ es) ?_ fun hentry => ?_
      · rintro s ⟨-, rfl⟩
        obtain ⟨e, he, hrecord⟩ := mem_recordsOf.mp (List.mem_of_find?_eq_some hfind)
        rw [not_not] at hrequest
        rw [Option.isNone_iff_eq_none, ← hrecord] at hcommitted
        obtain ⟨done, hdone⟩ := Option.ne_none_iff_exists'.mp hcommitted
        obtain ⟨n, hn, -⟩ := Option.map_eq_some_iff.mp hdone
        have heq : e = ⟨r, some n⟩ := by
          rw [← hrequest, ← hrecord, ← hn]
          rfl
        exact ⟨n, heq ▸ he⟩
      · refine Triple.bind ((triple_durableBytes r).attempt.mono (fun _ hs => hs.1) fun _ _ hs => hs) ?_
        rintro (e | bytes)
        · exact triple_poison.mono (fun _ hs => hs.1) fun _ _ hs => hs
        · refine Triple.pure (fun _ hs => hs.1) ?_
          rintro s ⟨hs, hbytes⟩
          obtain ⟨-, f, hf, hf'⟩ := hbytes bytes rfl
          exact ⟨hs, hentry, f, hf, hf'⟩

/-- What a call does to the entries. -/
def AdvancesBy (c : Call) (es es' : List Entry) : Prop :=
  es' = es ∨ ∃ r bytes, c.staged = some (r, bytes) ∧ Advances r es es'

/-- What an answer says about the entries and the files. -/
def Right (deps : Deps) (c : Call) (es : List Entry) (s : State) : Answer → Prop
  | .staged done => ∃ r bytes, c.staged = some (r, bytes) ∧ StagedIn deps r bytes es done
  | .bytes bytes => ∃ r, c.reads = some r ∧ (∃ n, (⟨r, some n⟩ : Entry) ∈ es) ∧
      ∃ f, s.tree.files.lookup r.objectPath = some f ∧ f.bytes = bytes
  | .inspected i => c = .inspect ∧ i.prepared = es.countP (fun e => e.sequence.isNone) ∧
      i.durable.Perm (es.filterMap (Entry.commit deps))

/-- The realm of a descriptor whose part was allocated. -/
theorem realm_of_allocation {d : CaptureDescriptor} {realm part : Text} {u : Unit}
    (h : allocation d realm part r = .ok u) : d.realmId.1 = realm := by
  unfold allocation at h
  rcases hvalidate : r.validate with e | v
  · rw [hvalidate] at h
    cases h
  · rw [hvalidate] at h
    rcases hfind : d.parts.find? fun p => decide (p.2.partId.1 = part) with _ | ⟨role, p⟩
    · rw [hfind] at h
      cases h
    · rw [hfind] at h
      by_contra hne
      change ite _ _ _ = _ at h
      rw [if_pos (Or.inl hne)] at h
      cases h

/-- **What a call does**, with whatever fails in it. -/
theorem triple_exec {c : Call} (hround : ∀ r bytes, c.staged = some (r, bytes) → RoundTrips deps r) :
    Triple (During deps profile s₀ es) (exec deps profile c)
      (fun answer s => ∃ es', AdvancesBy c es es' ∧ During deps profile s₀ es' s ∧ Right deps c es' s answer)
      (fun s => ∃ es', AdvancesBy c es es' ∧ During deps profile s₀ es' s) := by
  have hkeep : ∀ {c : Call} {s}, During deps profile s₀ es s →
      ∃ es', AdvancesBy c es es' ∧ During deps profile s₀ es' s := fun hs => ⟨es, Or.inl rfl, hs⟩
  have hstaged : ∀ {c : Call} {r bytes} {capture : Option (CaptureDescriptor × Text)},
      c.staged = some (r, bytes) → RoundTrips deps r → Bound profile capture →
      Triple (During deps profile s₀ es) (stageInternal deps r bytes capture)
        (fun done s => ∃ es', AdvancesBy c es es' ∧ During deps profile s₀ es' s ∧
          Right deps c es' s (.staged done))
        (fun s => ∃ es', AdvancesBy c es es' ∧ During deps profile s₀ es' s) := by
    intro c r bytes capture hc hround hbound s fs hs
    obtain ⟨⟨es', hes', hA⟩, hQ⟩ := triple_stageInternal hround hbound s fs hs
    refine ⟨⟨es', Or.inr ⟨r, bytes, hc, hes'⟩, hA⟩, ?_⟩
    intro done hdone
    obtain ⟨es', hes', hduring, hright⟩ := hQ done hdone
    exact ⟨es', Or.inr ⟨r, bytes, hc, hes'⟩, hduring, r, bytes, hc, hright⟩
  have hread : ∀ {c : Call} {r}, c.reads = some r →
      Triple (During deps profile s₀ es) (readInternal deps r)
        (fun bytes s => ∃ es', AdvancesBy c es es' ∧ During deps profile s₀ es' s ∧
          Right deps c es' s (.bytes bytes))
        (fun s => ∃ es', AdvancesBy c es es' ∧ During deps profile s₀ es' s) := by
    intro c r hc s fs hs
    obtain ⟨hA, hQ⟩ := triple_readInternal r s fs hs
    refine ⟨hkeep hA, ?_⟩
    intro bytes hbytes
    obtain ⟨hduring, hentry, hfile⟩ := hQ bytes hbytes
    exact ⟨es, Or.inl rfl, hduring, r, hc, hentry, hfile⟩
  cases c with
  | stage r bytes =>
      refine (Triple.map (Q := fun done s => ∃ es', AdvancesBy (.stage r bytes) es es' ∧
        During deps profile s₀ es' s ∧ Right deps (.stage r bytes) es' s (.staged done)) ?_ _).mono
        (fun _ hs => hs) ?_
      · unfold stage
        split_ifs with hcapture
        · exact triple_refuse (fun _ hs => hkeep hs) _
        · exact hstaged rfl (hround r bytes rfl) (Bool.eq_false_iff.mpr hcapture)
      · rintro answer s ⟨done, rfl, hs⟩
        exact hs
  | stageCapture d part r bytes =>
      refine (Triple.map (Q := fun done s => ∃ es', AdvancesBy (.stageCapture d part r bytes) es es' ∧
        During deps profile s₀ es' s ∧ Right deps (.stageCapture d part r bytes) es' s (.staged done)) ?_ _).mono
        (fun _ hs => hs) ?_
      · unfold stageCapture
        split_ifs with hcapture htext
        · refine Triple.bind (triple_check (fun _ hs => hkeep hs) _) fun _ => ?_
          exact triple_refuse (fun _ hs => hkeep hs.1) _
        · refine Triple.bind (triple_check (fun _ hs => hkeep hs) _) fun _ => ?_
          intro s fs hs
          have hbound : Bound profile (some (d, part)) := ⟨hcapture, realm_of_allocation hs.2⟩
          exact hstaged rfl (hround r bytes rfl) hbound s fs hs.1
        · exact triple_refuse (fun _ hs => hkeep hs) _
      · rintro answer s ⟨done, rfl, hs⟩
        exact hs
  | read r =>
      refine (Triple.map (Q := fun bytes s => ∃ es', AdvancesBy (.read r) es es' ∧
        During deps profile s₀ es' s ∧ Right deps (.read r) es' s (.bytes bytes)) ?_ _).mono
        (fun _ hs => hs) ?_
      · unfold read
        split_ifs
        · exact triple_refuse (fun _ hs => hkeep hs) _
        · exact hread rfl
      · rintro answer s ⟨bytes, rfl, hs⟩
        exact hs
  | readCapture d part r =>
      refine (Triple.map (Q := fun bytes s => ∃ es', AdvancesBy (.readCapture d part r) es es' ∧
        During deps profile s₀ es' s ∧ Right deps (.readCapture d part r) es' s (.bytes bytes)) ?_ _).mono
        (fun _ hs => hs) ?_
      · unfold readCapture
        split_ifs
        · refine Triple.bind (triple_check (fun _ hs => hkeep hs) _) fun _ => ?_
          refine Triple.bind (Q := fun _ => During deps profile s₀ es)
            (Triple.observe (fun _ hs => hkeep hs.1) fun _ _ hs _ => hs.1) fun _ => ?_
          exact hread rfl
        · exact triple_refuse (fun _ hs => hkeep hs) _
      · rintro answer s ⟨bytes, rfl, hs⟩
        exact hs
  | inspect =>
      refine (Triple.map (Q := fun i s => ∃ es', AdvancesBy .inspect es es' ∧
        During deps profile s₀ es' s ∧ Right deps .inspect es' s (.inspected i)) ?_ _).mono
        (fun _ hs => hs) ?_
      · intro s fs hs
        have hinspect : Triple (During deps profile s₀ es) (Provider.inspect deps)
            (fun i s => During deps profile s₀ es s ∧ Right deps .inspect es s (.inspected i))
            (During deps profile s₀ es) := by
          refine Triple.bind triple_consistency fun _ => ?_
          refine Triple.bind triple_records fun rs => ?_
          refine Triple.pure (fun _ hs => hs.1) ?_
          rintro s ⟨hs, rfl⟩
          have hperm := perm_recordsOf deps es
          refine ⟨hs, rfl, ?_, ?_⟩
          · rw [hperm.countP_eq, List.countP_map]
            refine List.countP_congr fun e _ => ?_
            simp [Entry.record, Entry.commit]
          · refine (hperm.filterMap _).trans (List.Perm.of_eq ?_)
            rw [List.filterMap_map]
            rfl
        obtain ⟨hA, hQ⟩ := hinspect s fs hs
        refine ⟨hkeep hA, ?_⟩
        intro i hi
        exact ⟨es, Or.inl rfl, hQ i hi⟩
      · rintro answer s ⟨i, rfl, hs⟩
        exact hs

/-- **Opening**, interrupted or not. -/
theorem triple_openProfile : Triple (During deps profile s₀ es) (openProfile deps profile)
    (fun _ => During deps profile s₀ es) (During deps profile s₀ es) := by
  refine Triple.bind (triple_validate fun _ hs => hs) fun _ => ?_
  refine Triple.bind (Triple.observe (fun _ hs => hs) fun _ _ hs _ => hs) fun _ => ?_
  exact triple_consistency

/-! ## Steps -/

/-- Entries keep their requests and their numbers. -/
def Grows (es es' : List Entry) : Prop :=
  (∀ r n, (⟨r, some n⟩ : Entry) ∈ es → (⟨r, some n⟩ : Entry) ∈ es') ∧
    ∀ e ∈ es, ∃ e' ∈ es', e'.request = e.request

theorem Grows.refl (es : List Entry) : Grows es es := ⟨fun _ _ h => h, fun e he => ⟨e, he, rfl⟩⟩

theorem Grows.trans {es₁ es₂ : List Entry} (h : Grows es es₁) (h' : Grows es₁ es₂) : Grows es es₂ := by
  refine ⟨fun r n hmem => h'.1 r n (h.1 r n hmem), ?_⟩
  intro e he
  obtain ⟨e₁, he₁, heq₁⟩ := h.2 e he
  obtain ⟨e₂, he₂, heq₂⟩ := h'.2 e₁ he₁
  exact ⟨e₂, he₂, heq₂.trans heq₁⟩

theorem grows_commit (as bs : List Entry) (n : ℕ) :
    Grows (as ++ ⟨r, none⟩ :: bs) (as ++ ⟨r, some n⟩ :: bs) := by
  constructor
  · intro r' n' hmem
    simp only [List.mem_append, List.mem_cons] at hmem ⊢
    rcases hmem with hmem | hmem | hmem
    · exact Or.inl hmem
    · cases hmem
    · exact Or.inr (Or.inr hmem)
  · intro e he
    simp only [List.mem_append, List.mem_cons] at he
    rcases he with he | rfl | he
    · exact ⟨e, List.mem_append_left _ he, rfl⟩
    · exact ⟨⟨r, some n⟩, List.mem_append_right _ List.mem_cons_self, rfl⟩
    · exact ⟨e, List.mem_append_right _ (List.mem_cons_of_mem _ he), rfl⟩

theorem Advances.grows {es' : List Entry} (h : Advances r es es') : Grows es es' := by
  have hreserved : Grows es (es ++ [⟨r, none⟩]) :=
    ⟨fun _ _ hmem => List.mem_append_left _ hmem, fun e he => ⟨e, List.mem_append_left _ he, rfl⟩⟩
  cases h with
  | same => exact Grows.refl es
  | reserved => exact hreserved
  | committed as bs h =>
      rcases h with rfl | h
      · exact grows_commit as bs _
      · exact hreserved.trans (h ▸ grows_commit as bs _)

theorem AdvancesBy.grows {c : Call} {es' : List Entry} (h : AdvancesBy c es es') : Grows es es' := by
  rcases h with rfl | ⟨r, bytes, -, h⟩
  · exact Grows.refl _
  · exact h.grows

/-- A number that is new is the next one, and of the request of the call. -/
theorem Advances.next {es' : List Entry} (h : Advances r es es') {r' : Request} {n : ℕ}
    (hmem : (⟨r', some n⟩ : Entry) ∈ es') :
    (⟨r', some n⟩ : Entry) ∈ es ∨ r' = r ∧ n = (es.filterMap Entry.sequence).length + 1 := by
  cases h with
  | same => exact Or.inl hmem
  | reserved =>
      rcases List.mem_append.mp hmem with hmem | hmem
      · exact Or.inl hmem
      · cases List.mem_singleton.mp hmem
  | committed as bs h =>
      have hold : (⟨r', some n⟩ : Entry) ∈ as ∨ (⟨r', some n⟩ : Entry) ∈ bs →
          (⟨r', some n⟩ : Entry) ∈ es := by
        intro hmem
        have hwhole : (⟨r', some n⟩ : Entry) ∈ as ++ ⟨r, none⟩ :: bs := by
          rcases hmem with hmem | hmem
          · exact List.mem_append_left _ hmem
          · exact List.mem_append_right _ (List.mem_cons_of_mem _ hmem)
        rcases h with h | h
        · exact h ▸ hwhole
        · rw [h] at hwhole
          rcases List.mem_append.mp hwhole with hwhole | hwhole
          · exact hwhole
          · cases List.mem_singleton.mp hwhole
      simp only [List.mem_append, List.mem_cons] at hmem
      rcases hmem with hmem | hmem | hmem
      · exact Or.inl (hold (Or.inl hmem))
      · cases hmem
        exact Or.inr ⟨rfl, rfl⟩
      · exact Or.inl (hold (Or.inr hmem))

/-- The files of committed entries keep their bytes. -/
def CommitsStay (es : List Entry) (s s' : State) : Prop :=
  ∀ e ∈ es, e.sequence.isSome = true → ∀ f, s.tree.files.lookup e.request.objectPath = some f →
    ∃ f', s'.tree.files.lookup e.request.objectPath = some f' ∧ f'.bytes = f.bytes

theorem FilesStay.commitsStay (h : FilesStay s s') (es : List Entry) : CommitsStay es s s' :=
  fun _ _ _ f hf => h _ _ f hf

/-- What a step does to the entries and their files. -/
theorem Sound.step (h : Sound deps profile s es) (hstep : Step deps profile s s') :
    ∃ es', Sound deps profile s' es' ∧ Grows es es' ∧ CommitsStay es s s' := by
  cases hstep with
  | call c faults hopened hround =>
      obtain ⟨⟨es', hes', hduring⟩, -⟩ := triple_exec hround s faults h.during
      exact ⟨es', hduring.sound, hes'.grows, hduring.stay.commitsStay es⟩
  | opens faults =>
      have hstart := h.during.poisoned false
      obtain ⟨hduring, -⟩ := triple_openProfile _ faults hstart
      refine ⟨es, ?_, Grows.refl es, hduring.stay.commitsStay es⟩
      exact ⟨hduring.sound.rows, hduring.sound.listed, hduring.sound.kept, hduring.sound.bindings,
        hduring.sound.realm⟩
  | closes =>
      refine ⟨es, ⟨h.rows, h.listed, h.kept, h.bindings, h.realm⟩, Grows.refl es, ?_⟩
      exact FilesStay.commitsStay (FilesStay.refl s) es
  | powerLoss tree hloss =>
      refine ⟨es, ⟨h.rows, h.listed, h.kept.powerLoss hloss, h.bindings, h.realm⟩, Grows.refl es, ?_⟩
      intro e he hsome f hf
      obtain ⟨g, hg, hlinked⟩ := h.kept.durable e he hsome
      obtain rfl := Option.some.inj (hf.symm.trans hg)
      obtain ⟨f', hf', hbytes⟩ := hloss.keeps _ f hf hlinked
      exact ⟨f', hf', hbytes (h.kept.fits _ _ hf).2.1⟩

/-- **Runs** keep the provider sound, and what is committed. -/
theorem Sound.run (h : Sound deps profile s es) (hrun : Relation.ReflTransGen (Step deps profile) s s') :
    ∃ es', Sound deps profile s' es' ∧ Grows es es' ∧ CommitsStay es s s' := by
  induction hrun with
  | refl => exact ⟨es, h, Grows.refl es, FilesStay.commitsStay (FilesStay.refl s) es⟩
  | tail _ hstep ih =>
      obtain ⟨es₁, hsound₁, hgrows₁, hstay₁⟩ := ih
      obtain ⟨es₂, hsound₂, hgrows₂, hstay₂⟩ := hsound₁.step hstep
      refine ⟨es₂, hsound₂, hgrows₁.trans hgrows₂, ?_⟩
      intro e he hsome f hf
      obtain ⟨n, hn⟩ := Option.isSome_iff_exists.mp hsome
      have he₁ : e ∈ es₁ := by
        have heq : e = ⟨e.request, some n⟩ := by rw [← hn]
        rw [heq] at he ⊢
        exact hgrows₁.1 _ n he
      obtain ⟨f₁, hf₁, hbytes₁⟩ := hstay₁ e he hsome f hf
      obtain ⟨f₂, hf₂, hbytes₂⟩ := hstay₂ e he₁ hsome f₁ hf₁
      exact ⟨f₂, hf₂, hbytes₂.trans hbytes₁⟩

/-- Every reachable state is sound. -/
theorem exists_sound (h : Reachable deps profile s) : ∃ es, Sound deps profile s es := by
  obtain ⟨es, hsound, -⟩ := sound_initial.run h
  exact ⟨es, hsound⟩

/-! ## What holds wherever a run leads -/

/-- The inventory has a record of the request, with this commit. -/
def Records (deps : Deps) (s : State) (r : Request) (commit : Option LocalCommit) : Prop :=
  ∃ row ∈ s.attempts, recordOf deps row = .ok ⟨r, commit⟩

/-- The request has been committed with the number. -/
def Committed (deps : Deps) (s : State) (r : Request) (n : ℕ) : Prop :=
  Records deps s r (some ⟨r.commitId deps, n, r⟩)

/-- Records are those of entries. -/
theorem Sound.records_iff (h : Sound deps profile s es) {commit : Option LocalCommit} :
    Records deps s r commit ↔ ∃ e ∈ es, e.request = r ∧ e.commit deps = commit := by
  have hrecord : ∀ e ∈ es, recordOf deps (e.row deps) = .ok ⟨r, commit⟩ ↔
      e.request = r ∧ e.commit deps = commit := by
    intro e he
    rw [h.listed.recordOf he, Except.ok.injEq, Entry.record, Record.mk.injEq]
  unfold Records
  rw [h.rows]
  constructor
  · rintro ⟨row, hrow, hread⟩
    obtain ⟨e, he, rfl⟩ := List.mem_map.mp hrow
    exact ⟨e, he, (hrecord e he).mp hread⟩
  · rintro ⟨e, he, heq⟩
    exact ⟨e.row deps, List.mem_map_of_mem he, (hrecord e he).mpr heq⟩

/-- What is committed is an entry with its sequence. -/
theorem Sound.committed_iff (h : Sound deps profile s es) {n : ℕ} :
    Committed deps s r n ↔ (⟨r, some n⟩ : Entry) ∈ es := by
  unfold Committed
  rw [h.records_iff]
  constructor
  · rintro ⟨e, he, rfl, hcommit⟩
    obtain ⟨m, hm, hdone⟩ := Option.map_eq_some_iff.mp hcommit
    have hmn : m = n := congrArg LocalCommit.sequence hdone
    have heq : e = ⟨e.request, some n⟩ := by rw [← hmn, ← hm]
    exact heq ▸ he
  · intro he
    exact ⟨_, he, rfl, rfl⟩

/-- What a call has answered, and what it has done to the commits. -/
structure CallLaw (deps : Deps) (s : State) (c : Call) (run : Except Error Answer × State × List Fault) :
    Prop where
  staged : ∀ done, run.1 = .ok (.staged done) → ∃ r bytes, c.staged = some (r, bytes) ∧
    r.verifies deps bytes = true ∧ done = ⟨r.commitId deps, done.sequence, r⟩ ∧
    Committed deps run.2.1 r done.sequence
  read : ∀ bytes, run.1 = .ok (.bytes bytes) → ∃ r n f, c.reads = some r ∧ Committed deps s r n ∧
    s.tree.files.lookup r.objectPath = some f ∧ f.bytes = bytes
  inspected : ∀ i, run.1 = .ok (.inspected i) → i.durable.Nodup ∧
    (∀ done, done ∈ i.durable ↔
      Committed deps s done.request done.sequence ∧ done.localCommitId = done.request.commitId deps) ∧
    i.prepared + i.durable.length = s.attempts.length
  /-- A new commit is of the request of the call, and has the next number. -/
  next : ∀ r n, Committed deps run.2.1 r n → Committed deps s r n ∨
    (∃ bytes, c.staged = some (r, bytes)) ∧ ∀ m, (∃ r', Committed deps s r' m) ↔ 1 ≤ m ∧ m < n

/-- What is under the root, what stays there, and what calls do with it. -/
structure ProviderLaw (deps : Deps) (profile : Profile) (s : State) : Prop where
  /-- Every commit has its file, which no loss of power takes away. -/
  blob : ∀ r n, Committed deps s r n → r.valid = true ∧ ∃ f, s.tree.files.lookup r.objectPath = some f ∧
    r.verifies deps f.bytes = true ∧ f.flushed = true ∧ s.tree.Linked BlobPath.dirOf r.objectPath f
  numbered : ∃ k, ∀ n, (∃ r, Committed deps s r n) ↔ 1 ≤ n ∧ n ≤ k
  single : ∀ r r' n n', Committed deps s r n → Committed deps s r' n' →
    n = n' ∨ r.commitId deps = r'.commitId deps → r = r' ∧ n = n'
  apart : ∀ r r' commit commit', Records deps s r commit → Records deps s r' commit' →
    r.operationId = r'.operationId ∨ r.attemptId = r'.attemptId ∨
      r.objectId = r'.objectId ∧ r.revisionId = r'.revisionId → r = r' ∧ commit = commit'
  few : s.attempts.length ≤ maxRecords
  small : (s.attempts.map AttemptRow.expectedLen).sum ≤ maxReservedBytes
  /-- Every file belongs to a record, and has its bytes once it has its final name. -/
  files : ∀ p f, s.tree.files.lookup p = some f → p = .poison ∨ ∃ r commit, Records deps s r commit ∧
    (p = r.stagingPath ∨ p = r.objectPath ∧ r.verifies deps f.bytes = true)
  bound : profile.capture = true → bindingsAgree profile s = true
  kept : ∀ s', Relation.ReflTransGen (Step deps profile) s s' →
    (∀ r commit, Records deps s r commit → ∃ commit', Records deps s' r commit') ∧
      ∀ r n f, Committed deps s r n → s.tree.files.lookup r.objectPath = some f →
        Committed deps s' r n ∧
          ∃ f', s'.tree.files.lookup r.objectPath = some f' ∧ f'.bytes = f.bytes
  calls : ∀ c faults, (∀ r bytes, c.staged = some (r, bytes) → RoundTrips deps r) →
    CallLaw deps s c (exec deps profile c s faults)

/-- The commits are numbered from 1 on. -/
theorem Sound.numbered (h : Sound deps profile s es) (n : ℕ) :
    (∃ r, Committed deps s r n) ↔ 1 ≤ n ∧ n ≤ (es.filterMap Entry.sequence).length := by
  have hmem : (∃ r, Committed deps s r n) ↔ n ∈ es.filterMap Entry.sequence := by
    rw [List.mem_filterMap]
    constructor
    · rintro ⟨r, hr⟩
      exact ⟨_, h.committed_iff.mp hr, rfl⟩
    · rintro ⟨e, he, hn⟩
      have heq : e = ⟨e.request, some n⟩ := by rw [← hn]
      exact ⟨e.request, h.committed_iff.mpr (heq ▸ he)⟩
  rw [hmem, h.listed.sequences.mem_iff, List.mem_range'_1]
  omega

theorem mem_commits {done : LocalCommit} : done ∈ es.filterMap (Entry.commit deps) ↔
    (⟨done.request, some done.sequence⟩ : Entry) ∈ es ∧ done.localCommitId = done.request.commitId deps := by
  rw [List.mem_filterMap]
  constructor
  · rintro ⟨e, he, hcommit⟩
    obtain ⟨n, hn, rfl⟩ := Option.map_eq_some_iff.mp hcommit
    have heq : e = ⟨e.request, some n⟩ := by rw [← hn]
    exact ⟨heq ▸ he, rfl⟩
  · rintro ⟨he, hid⟩
    refine ⟨_, he, ?_⟩
    show some (LocalCommit.mk (done.request.commitId deps) done.sequence done.request) = some done
    rw [← hid]

/-- No commit is listed twice. -/
theorem Listed.nodup_commits (h : Listed deps es) : (es.filterMap (Entry.commit deps)).Nodup := by
  refine List.Nodup.filterMap ?_ (List.Nodup.of_map _ h.operations)
  intro e e' done hdone hdone'
  obtain ⟨n, hn, rfl⟩ := Option.map_eq_some_iff.mp hdone
  obtain ⟨n', hn', heq⟩ := Option.map_eq_some_iff.mp hdone'
  rw [LocalCommit.mk.injEq] at heq
  obtain ⟨request, sequence⟩ := e
  obtain ⟨request', sequence'⟩ := e'
  rw [Entry.mk.injEq]
  exact ⟨heq.2.2.symm, hn.trans ((congrArg some heq.2.1.symm).trans hn'.symm)⟩

theorem countP_add_length_commits (es : List Entry) :
    es.countP (fun e => e.sequence.isNone) + (es.filterMap (Entry.commit deps)).length = es.length := by
  induction es with
  | nil => rfl
  | cons e es ih =>
      rw [List.countP_cons, List.length_cons]
      rcases hn : e.sequence with _ | n
      · have hcommit : e.commit deps = none := by rw [Entry.commit, hn]; rfl
        rw [List.filterMap_cons_none hcommit]
        simp only [Option.isNone_none, if_true]
        omega
      · have hcommit : e.commit deps = some ⟨e.request.commitId deps, n, e.request⟩ := by
          rw [Entry.commit, hn]
          rfl
        rw [List.filterMap_cons_some hcommit, List.length_cons]
        simp only [Option.isNone_some, Bool.false_eq_true, if_false]
        omega

/-- **One call** of a sound provider. -/
theorem Sound.callLaw (h : Sound deps profile s es) {c : Call} (faults : List Fault)
    (hround : ∀ r bytes, c.staged = some (r, bytes) → RoundTrips deps r) :
    CallLaw deps s c (exec deps profile c s faults) := by
  obtain ⟨⟨es₁, hes₁, hduring₁⟩, hright⟩ := triple_exec hround s faults h.during
  constructor
  · intro done hdone
    obtain ⟨es', -, hduring, r, bytes, hc, hverifies, heq, hmem⟩ := hright _ hdone
    exact ⟨r, bytes, hc, hverifies, heq, hduring.sound.committed_iff.mpr hmem⟩
  · intro bytes hbytes
    obtain ⟨es', hes', hduring, r, hc, ⟨n, hmem⟩, f, hf, hf'⟩ := hright _ hbytes
    have hsame : es' = es := by
      rcases hes' with hsame | ⟨r', bytes', hc', -⟩
      · exact hsame
      · cases c <;> cases hc
        · cases hc'
        · cases hc'
    rw [hsame] at hmem
    obtain ⟨g, hg, -⟩ := h.kept.durable _ hmem rfl
    obtain ⟨g', hg', hbytes'⟩ := hduring.stay _ _ g hg
    obtain rfl := Option.some.inj (hg'.symm.trans hf)
    exact ⟨r, n, g, hc, h.committed_iff.mpr hmem, hg, hbytes'.symm.trans hf'⟩
  · intro i hi
    obtain ⟨es', hes', -, rfl, hprepared, hdurable⟩ := hright _ hi
    obtain rfl : es' = es := by
      rcases hes' with hsame | ⟨r', bytes', hc', -⟩
      · exact hsame
      · cases hc'
    refine ⟨hdurable.nodup_iff.mpr h.listed.nodup_commits, ?_, ?_⟩
    · intro done
      rw [hdurable.mem_iff, h.committed_iff]
      exact mem_commits
    · rw [hprepared, hdurable.length_eq, h.rows, List.length_map]
      exact countP_add_length_commits es'
  · intro r n hmem
    have hmem₁ := hduring₁.sound.committed_iff.mp hmem
    rcases hes₁ with rfl | ⟨r', bytes, hc, hadvances⟩
    · exact Or.inl (h.committed_iff.mpr hmem₁)
    · rcases hadvances.next hmem₁ with hold | ⟨rfl, rfl⟩
      · exact Or.inl (h.committed_iff.mpr hold)
      · refine Or.inr ⟨⟨bytes, hc⟩, ?_⟩
        intro m
        rw [h.numbered, Nat.lt_succ_iff]

theorem Sound.bindingsAgree (h : Sound deps profile s es) (hcapture : profile.capture = true) :
    Provider.bindingsAgree profile s = true := by
  have hbindings := h.bindings
  rw [hcapture, if_pos rfl] at hbindings
  unfold Provider.bindingsAgree
  rw [Bool.and_eq_true, List.all_eq_true, List.all_eq_true, h.rows]
  constructor
  · intro row hrow
    obtain ⟨e, he, rfl⟩ := List.mem_map.mp hrow
    have hmem : e.request.operationId ∈ s.captures.map CaptureRow.operationId := by
      rw [hbindings]
      exact List.mem_map_of_mem he
    obtain ⟨c, hc, heq⟩ := List.mem_map.mp hmem
    rw [List.any_eq_true]
    refine ⟨c, hc, ?_⟩
    simp [heq, operationId_row, h.realm c hc]
  · intro c hc
    have hmem : c.operationId ∈ es.map fun e => e.request.operationId := by
      rw [← hbindings]
      exact List.mem_map_of_mem hc
    obtain ⟨e, he, heq⟩ := List.mem_map.mp hmem
    rw [List.any_eq_true]
    refine ⟨e.row deps, List.mem_map_of_mem he, ?_⟩
    simp [operationId_row, heq]

/-- **The provider**, wherever a run leads. -/
theorem providerLaw (h : Reachable deps profile s) : ProviderLaw deps profile s := by
  obtain ⟨es, hsound⟩ := exists_sound h
  have hlisted := hsound.listed
  refine ⟨?_, ⟨_, hsound.numbered⟩, ?_, ?_, ?_, ?_, ?_, hsound.bindingsAgree, ?_, ?_⟩
  · intro r n hr
    have he := hsound.committed_iff.mp hr
    obtain ⟨f, hf, hlinked⟩ := hsound.kept.durable _ he rfl
    obtain ⟨-, e', he', hplace, hverifies⟩ := hsound.exists_entry hf
    obtain rfl := hlisted.eq_of_place he' he hplace
    exact ⟨hlisted.valid _ he, f, hf, hverifies, (hsound.kept.fits _ _ hf).2.1, hlinked⟩
  · intro r r' n n' hr hr' hsame
    have he := hsound.committed_iff.mp hr
    have he' := hsound.committed_iff.mp hr'
    have heq : (⟨r, some n⟩ : Entry) = ⟨r', some n'⟩ := by
      rcases hsame with hsame | hname
      · exact Listed.eq_of_nodup hlisted.nodup_sequences he he' rfl (congrArg some hsame.symm)
      · exact Listed.eq_of_nodup hlisted.names he he' rfl (congrArg some hname.symm)
    rw [Entry.mk.injEq, Option.some.injEq] at heq
    exact heq
  · intro r r' commit commit' hr hr' hsame
    obtain ⟨e, he, rfl, rfl⟩ := hsound.records_iff.mp hr
    obtain ⟨e', he', rfl, rfl⟩ := hsound.records_iff.mp hr'
    have heq : e = e' := by
      rcases hsame with hsame | hsame | ⟨hobject, hrevision⟩
      · exact hlisted.eq_of_operation he he' hsame
      · exact hlisted.eq_of_attempt he he' hsame
      · exact hlisted.eq_of_place he he' (Prod.ext hobject hrevision)
    rw [heq]
    exact ⟨rfl, rfl⟩
  · rw [hsound.rows, List.length_map]
    exact hlisted.few
  · rw [hsound.rows, List.map_map]
    refine le_of_eq_of_le (congrArg List.sum (List.map_congr_left fun e _ => ?_)) hlisted.small
    exact expectedLen_row
  · intro p f hf
    have hfits := hsound.kept.fits p f hf
    cases p with
    | poison => exact Or.inl rfl
    | staging a =>
        obtain ⟨-, e, he, ha⟩ := hfits
        exact Or.inr ⟨e.request, e.commit deps, hsound.records_iff.mpr ⟨e, he, rfl, rfl⟩,
          Or.inl (congrArg BlobPath.staging ha.symm)⟩
    | object o v =>
        obtain ⟨-, -, e, he, hplace, -, hverifies⟩ := hfits
        refine Or.inr ⟨e.request, e.commit deps, hsound.records_iff.mpr ⟨e, he, rfl, rfl⟩, Or.inr ⟨?_, hverifies⟩⟩
        have hobject : e.request.objectId = o := congrArg Prod.fst hplace
        have hrevision : e.request.revisionId = v := congrArg Prod.snd hplace
        rw [Request.objectPath, hobject, hrevision]
  · intro s' hrun
    obtain ⟨es', hsound', hgrows, hstay⟩ := hsound.run hrun
    constructor
    · intro r commit hr
      obtain ⟨e, he, rfl, -⟩ := hsound.records_iff.mp hr
      obtain ⟨e', he', heq⟩ := hgrows.2 e he
      exact ⟨e'.commit deps, hsound'.records_iff.mpr ⟨e', he', heq, rfl⟩⟩
    · intro r n f hr hf
      have he := hsound.committed_iff.mp hr
      exact ⟨hsound'.committed_iff.mpr (hgrows.1 r n he), hstay _ he rfl f hf⟩
  · intro c faults hround
    exact hsound.callLaw faults hround

/-! ## A note -/

section Example

def noteBytes : Bytes := utf8 "hi".toList

def noteRequest : Request where
  operationId := "11111111-1111-4111-8111-111111111111".toList
  attemptId := "22222222-2222-4222-8222-222222222222".toList
  objectId := "33333333-3333-4333-8333-333333333333".toList
  revisionId := "44444444-4444-4444-8444-444444444444".toList
  kind := .note
  expectedLen := 2
  sha256 := List.replicate 64 'a'

/-- Tells the bytes of the note, and reads its request. -/
def noteDeps : Deps where
  sha256 bytes := List.replicate 64 (if bytes = noteBytes then 'a' else 'b')
  requestFromStr text := if text = noteRequest.toJson then some noteRequest else none

def noteProfile : Profile := ⟨false, "55555555-5555-4555-8555-555555555555".toList⟩

def noteCall : Call := .stage noteRequest noteBytes

/-- The call stops with so many steps done, and the provider is opened again. -/
def noteState (faults : List Fault) : State :=
  (exec noteDeps noteProfile noteCall (opening noteDeps noteProfile [] .initial) faults).2.1

theorem roundTrips_noteRequest : RoundTrips noteDeps noteRequest := by
  have h : ∀ text, text = noteRequest.toJson → noteDeps.requestFromStr text = some noteRequest :=
    fun _ h => if_pos h
  exact h _ rfl

theorem reachable_noteState (faults : List Fault) : Reachable noteDeps noteProfile (noteState faults) := by
  have hopens : Step noteDeps noteProfile .initial (opening noteDeps noteProfile [] .initial) :=
    Step.opens []
  have hopened : (opening noteDeps noteProfile [] .initial).opened = true := by
    decide +kernel
  have hround : ∀ r bytes, noteCall.staged = some (r, bytes) → RoundTrips noteDeps r := by
    intro r bytes h
    cases h
    exact roundTrips_noteRequest
  exact (Relation.ReflTransGen.single hopens).tail (Step.call noteCall faults hopened hround)

/-- The law at work: a note is staged. -/
theorem providerLaw_note : ProviderLaw noteDeps noteProfile (noteState []) ∧
    (noteState []).attempts.map AttemptRow.sequence = [some 1] :=
  ⟨providerLaw (reachable_noteState []), by decide +kernel⟩

end Example

end DiskArcana.Provider
