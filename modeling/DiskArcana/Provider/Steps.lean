import DiskArcana.Provider.Ledger

/-!
# What each part of a call keeps

From a state whose files belong to its entries, every part of a call leaves such a state wherever it
stops, with the files of objects as they were (`During`). The reservation adds an entry (`triple_reserve`),
placing the file puts it under its final name (`triple_placeFile`), the directories are synced
(`triple_syncPublishDirs`), and the commit numbers the entry (`triple_commit`).
-/

namespace DiskArcana.Provider

open DiskArcana.Lib DiskArcana.Accounts
open DiskArcana.Lib.Interrupted (Fault Prog Triple check attempt observe change)
open DiskArcana.Personal (CaptureDescriptor identifier digest field maxCounter)

/-- Objects keep their files. -/
def FilesStay (s₀ s : State) : Prop :=
  ∀ o v f, s₀.tree.files.lookup (.object o v) = some f →
    ∃ f', s.tree.files.lookup (.object o v) = some f' ∧ f'.bytes = f.bytes

/-- The entries within a call that started at `s₀`. -/
structure During (deps : Deps) (profile : Profile) (s₀ : State) (es : List Entry) (s : State) : Prop where
  sound : Sound deps profile s es
  stay : FilesStay s₀ s
  dirs : ∀ o, s₀.tree.hasDir o = true → s.tree.hasDir o = true

variable {deps : Deps} {profile : Profile} {s₀ s : State} {es : List Entry} {r : Request}
  {p : BlobPath} {f : SyncedFile BlobPath}

theorem FilesStay.refl (s : State) : FilesStay s s := fun _ _ f hf => ⟨f, hf, rfl⟩

theorem FilesStay.trans {s₁ s₂ : State} (h : FilesStay s₀ s₁) (h' : FilesStay s₁ s₂) : FilesStay s₀ s₂ := by
  intro o v f hf
  obtain ⟨f₁, hf₁, hbytes₁⟩ := h o v f hf
  obtain ⟨f₂, hf₂, hbytes₂⟩ := h' o v f₁ hf₁
  exact ⟨f₂, hf₂, hbytes₂.trans hbytes₁⟩

theorem Sound.during (h : Sound deps profile s es) : During deps profile s es s :=
  ⟨h, FilesStay.refl s, fun _ ho => ho⟩

/-- What a part of the call keeps, the call keeps. -/
theorem During.trans {s₁ : State} {es₁ : List Entry} (h : During deps profile s₀ es₁ s₁)
    (h' : During deps profile s₁ es s) : During deps profile s₀ es s :=
  ⟨h'.sound, h.stay.trans h'.stay, fun o ho => h'.dirs o (h.dirs o ho)⟩

/-- Files and directories change, and the entries stay. -/
theorem During.onTree (h : During deps profile s₀ es s) {tree : SyncedTree BlobPath Text}
    (hkept : Kept deps es tree)
    (hstay : ∀ o v f, s.tree.files.lookup (.object o v) = some f →
      ∃ f', tree.files.lookup (.object o v) = some f' ∧ f'.bytes = f.bytes)
    (hdirs : ∀ o, s.tree.hasDir o = true → tree.hasDir o = true) :
    During deps profile s₀ es { s with tree := tree } := by
  refine ⟨⟨h.sound.rows, h.sound.listed, hkept, h.sound.bindings, h.sound.realm⟩, ?_, ?_⟩
  · exact h.stay.trans hstay
  · exact fun o ho => hdirs o (h.dirs o ho)

/-- A file at a path that is not an object's. -/
theorem During.insert (h : During deps profile s₀ es s) (hfits : Fits deps es s.tree p f)
    (hp : p.dirOf = none) {files : SyncedFiles BlobPath}
    (hlookup : ∀ q, files.lookup q = if q = p then some f else s.tree.files.lookup q) :
    During deps profile s₀ es (onFiles (fun _ => files) s) := by
  refine h.onTree (h.sound.kept.insert hfits hp hlookup) ?_ fun _ ho => ho
  intro o v g hg
  have hne : BlobPath.object o v ≠ p := by
    rintro rfl
    cases hp
  exact ⟨g, by rw [hlookup, if_neg hne, hg], rfl⟩

theorem During.link (h : During deps profile s₀ es s) (holds : BlobPath → Bool) :
    During deps profile s₀ es (onFiles (SyncedFiles.link holds) s) := by
  refine h.onTree (h.sound.kept.link holds) ?_ fun _ ho => ho
  intro o v g hg
  refine ⟨{ g with linked := g.linked || holds (.object o v) }, ?_, rfl⟩
  rw [SyncedFiles.lookup_link, hg]
  rfl

theorem During.flush (h : During deps profile s₀ es s) (p : BlobPath) :
    During deps profile s₀ es (onFiles (SyncedFiles.flush p) s) := by
  refine h.onTree (h.sound.kept.flush p) ?_ fun _ ho => ho
  intro o v g hg
  rcases hp : s.tree.files.lookup p with _ | f
  · exact ⟨g, by rw [SyncedFiles.flush, hp, hg], rfl⟩
  · by_cases hq : BlobPath.object o v = p
    · subst hq
      obtain rfl := Option.some.inj (hg.symm.trans hp)
      exact ⟨{ g with flushed := true }, by rw [SyncedFiles.lookup_flush hp, if_pos rfl], rfl⟩
    · exact ⟨g, by rw [SyncedFiles.lookup_flush hp, if_neg hq, hg], rfl⟩

theorem During.poisoned (h : During deps profile s₀ es s) (b : Bool) :
    During deps profile s₀ es { s with poisoned := b } :=
  ⟨⟨h.sound.rows, h.sound.listed, h.sound.kept, h.sound.bindings, h.sound.realm⟩, h.stay, h.dirs⟩

/-- Where a file may be outside objects does not depend on its bytes. -/
theorem Fits.of_origin {tree : SyncedTree BlobPath Text} {f' : SyncedFile BlobPath}
    (h : Fits deps es tree p f) (hp : p.dirOf = none) (horigin : f'.origin = f.origin) :
    Fits deps es tree p f' := by
  cases p with
  | poison => exact horigin.trans h
  | staging a => exact ⟨horigin.trans h.1, h.2⟩
  | object o v => cases hp

/-! ## Single steps -/

section Steps

variable {P A : State → Prop} {α : Type}

/-- A step that reads and keeps what is known. -/
theorem triple_checkpoint (hA : ∀ s, P s → A s) (place : String) :
    Triple P (checkpoint place) (fun _ => P) A :=
  Triple.observe hA fun _ _ hs _ => hs

theorem triple_validate (hA : ∀ s, P s → A s) : Triple P validate (fun _ => P) A :=
  Triple.observe hA fun _ _ hs _ => hs

theorem triple_available (hA : ∀ s, P s → A s) : Triple P available (fun _ => P) A :=
  Triple.bind (Triple.inspect hA fun _ _ hs _ => hs) fun _ => triple_validate hA

theorem triple_openObjectDir (hA : ∀ s, P s → A s) (r : Request) :
    Triple P (openObjectDir r) (fun _ => P) A :=
  Triple.observe hA fun _ _ hs _ => hs

theorem triple_existing (hA : ∀ s, P s → A s) (p : BlobPath) :
    Triple P («existing» p) (fun b s => P s ∧ b = (s.tree.files.lookup p).isSome) A := by
  refine Triple.observe hA ?_
  intro s b hs hb
  cases hb
  exact ⟨hs, rfl⟩

/-- What has been verified is what is in the file, up to the length that is read. -/
theorem triple_verifiedBytes (hA : ∀ s, P s → A s) (p : BlobPath) (r : Request) :
    Triple P (verifiedBytes deps p r) (fun bytes s => P s ∧ r.verifies deps bytes = true ∧
      bytes = (((s.tree.files.lookup p).map SyncedFile.bytes).getD []).take (maxBlob + 1)) A := by
  refine Triple.observe hA ?_
  intro s bytes hs hbytes
  dsimp only at hbytes
  split_ifs at hbytes with hverifies
  cases hbytes
  exact ⟨hs, hverifies, rfl⟩

/-- A refusal. -/
theorem triple_refuse (hA : ∀ s, P s → A s) (e : Error) {Q : α → State → Prop} :
    Triple P (check (.error e) : Run α) Q A :=
  Triple.check hA fun _ _ _ h => by cases h

/-- What is answered without looking at the state. -/
theorem triple_check (hA : ∀ s, P s → A s) (a : Except Error α) :
    Triple P (check a : Run α) (fun v s => P s ∧ a = .ok v) A :=
  Triple.check hA fun _ _ hs h => ⟨hs, h⟩

end Steps

theorem triple_createNew (hp : p.dirOf = none) (hfits : ∀ tree, Fits deps es tree p ⟨[], p, false, false⟩) :
    Triple (During deps profile s₀ es) (createNew p)
      (fun _ s => During deps profile s₀ es s ∧ s.tree.files.lookup p = some ⟨[], p, false, false⟩)
      (During deps profile s₀ es) := by
  refine Triple.change (fun s hs => hs) ?_
  intro s v s' hs hok
  split_ifs at hok
  cases hok
  have hlookup : ∀ q, (SyncedFiles.create p s.tree.files).lookup q =
      if q = p then some ⟨[], p, false, false⟩ else s.tree.files.lookup q :=
    fun q => SyncedFiles.lookup_create
  have hduring := hs.insert (hfits s.tree) hp hlookup
  exact ⟨hduring, hduring, (hlookup p).trans (if_pos rfl)⟩

theorem triple_writeAll (hp : p.dirOf = none) (bytes : Bytes) :
    Triple (fun s => During deps profile s₀ es s ∧ s.tree.files.lookup p = some f) (writeAll p bytes)
      (fun _ s => During deps profile s₀ es s ∧
        s.tree.files.lookup p = some { f with bytes := f.bytes ++ bytes, flushed := false })
      (During deps profile s₀ es) := by
  have hwrite : ∀ (data : Bytes) (s : State),
      During deps profile s₀ es s → s.tree.files.lookup p = some f →
      During deps profile s₀ es (onFiles (SyncedFiles.append p data) s) ∧
        (onFiles (SyncedFiles.append p data) s).tree.files.lookup p =
          some { f with bytes := f.bytes ++ data, flushed := false } := by
    intro data s hs hf
    have hlookup : ∀ q, (SyncedFiles.append p data s.tree.files).lookup q =
        if q = p then some { f with bytes := f.bytes ++ data, flushed := false }
        else s.tree.files.lookup q := fun q => SyncedFiles.lookup_append hf
    have hfits : Fits deps es s.tree p { f with bytes := f.bytes ++ data, flushed := false } :=
      (hs.sound.kept.fits p f hf).of_origin hp rfl
    exact ⟨hs.insert hfits hp hlookup, (hlookup p).trans (if_pos rfl)⟩
  refine Triple.step ?_ (fun s hs => hs.1) ?_
  · intro n s hs
    exact (hwrite _ s hs.1 hs.2).1
  · intro s v s' hs hok
    cases hok
    have h := hwrite bytes s hs.1 hs.2
    exact ⟨h.1, h⟩

theorem triple_syncFile (p : BlobPath) :
    Triple (fun s => During deps profile s₀ es s ∧ s.tree.files.lookup p = some f) (syncFile p)
      (fun _ s => During deps profile s₀ es s ∧ s.tree.files.lookup p = some { f with flushed := true })
      (During deps profile s₀ es) := by
  refine Triple.change (fun s hs => hs.1) ?_
  intro s v s' hs hok
  cases hok
  have hflush := hs.1.flush p
  exact ⟨hflush, hflush, (SyncedFiles.lookup_flush hs.2).trans (if_pos rfl)⟩

/-- A directory is synced, with what is known of a file. -/
theorem triple_syncDir (holds : BlobPath → Bool) :
    Triple (fun s => During deps profile s₀ es s ∧ s.tree.files.lookup p = some f) (syncDir holds)
      (fun _ s => During deps profile s₀ es s ∧
        s.tree.files.lookup p = some { f with linked := f.linked || holds p })
      (During deps profile s₀ es) := by
  refine Triple.change (fun s hs => hs.1) ?_
  intro s v s' hs hok
  cases hok
  have hlink := hs.1.link holds
  refine ⟨hlink, hlink, ?_⟩
  show (SyncedFiles.link holds s.tree.files).lookup p = _
  rw [SyncedFiles.lookup_link, hs.2]
  rfl

/-- The directories of objects are synced. -/
theorem triple_syncObjects :
    Triple (During deps profile s₀ es) syncObjects (fun _ => During deps profile s₀ es)
      (During deps profile s₀ es) := by
  refine Triple.change (fun s hs => hs) ?_
  intro s v s' hs hok
  cases hok
  have h := hs.onTree hs.sound.kept.linkDirs (fun o v f hf => ⟨f, hf, rfl⟩) fun o ho => by
    rw [SyncedTree.hasDir_linkDirs, ho]
  exact ⟨h, h⟩

/-! ## The marker -/

theorem triple_rootPoison :
    Triple (During deps profile s₀ es) rootPoison (fun _ => During deps profile s₀ es)
      (During deps profile s₀ es) := by
  have hp : BlobPath.poison.dirOf = none := rfl
  refine Triple.bind (triple_createNew hp fun _ => rfl) fun _ => ?_
  refine Triple.bind (triple_writeAll hp _) fun _ => ?_
  refine Triple.bind (triple_syncFile _) fun _ => ?_
  exact (triple_syncDir isPoison).mono (fun _ hs => hs) fun _ _ hs => hs.1

/-- A provider that is poisoned answers nothing else. -/
theorem triple_poison {α : Type} {Q : α → State → Prop} :
    Triple (During deps profile s₀ es) (poison : Run α) Q (During deps profile s₀ es) := by
  refine Triple.bind (Q := fun _ => During deps profile s₀ es)
    (Triple.modify (fun s hs => hs.poisoned true) fun s hs => hs.poisoned true) fun _ => ?_
  refine Triple.bind triple_rootPoison.attempt ?_
  rintro (e | u)
  · exact (triple_refuse (fun _ hs => hs.1) _).mono (fun _ hs => hs) fun _ _ hs => hs
  · exact (triple_refuse (fun _ hs => hs.1) _).mono (fun _ hs => hs) fun _ _ hs => hs

end DiskArcana.Provider
