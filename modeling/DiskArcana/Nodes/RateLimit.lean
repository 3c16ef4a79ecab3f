import DiskArcana.Lib.RecentTimes
import DiskArcana.Lib.Trace
import DiskArcana.Nodes.Model

/-!
# Limiting failed authentications

`AuthStore::authenticate` asks the limiter first. The limiter keeps the times of the failures of each
node, and drops those that are a window old when the node is looked at again (`check`) or fails again
(`recordFailure`); a success drops all of them. `failures` are the failures of a node since its last
success as the calls were answered; what the limiter has of them is what was recent when it looked last
(`Tracks`). So it refuses exactly while there are as many recent failures as it allows (`limiterLaw`).
-/

namespace DiskArcana.Nodes

open DiskArcana.Core DiskArcana.Lib DiskArcana.Lib.RecentTimes
open DiskArcana.Accounts hiding Bytes

/-! ## The limiter -/

/-- `max_failures` is a `u32`, and the window is at least a second.
Source: `auth/rate_limit.rs`, `AuthAttemptLimiter` -/
structure AuthAttemptLimiter where
  failures : Table Text (List ℕ)
  maxFailures : ℕ
  windowSecs : ℕ
  maxFailures_lt : maxFailures < 2 ^ 32
  windowSecs_pos : 0 < windowSecs

namespace AuthAttemptLimiter

/-- Source: `auth/rate_limit.rs`, `AuthAttemptLimiter::new` -/
def new (maxFailures window : ℕ) (h : maxFailures < 2 ^ 32) : AuthAttemptLimiter where
  failures := ∅
  maxFailures := maxFailures
  windowSecs := max window 1
  maxFailures_lt := h
  windowSecs_pos := lt_of_lt_of_le Nat.one_pos (le_max_right window 1)

variable (l : AuthAttemptLimiter) (nodeId : Text) (now : ℕ)

/-- Source: `auth/rate_limit.rs`, `prune_and_count` -/
def pruneAndCount : AuthAttemptLimiter × ℕ :=
  match l.failures.lookup nodeId with
  | none => (l, 0)
  | some entry =>
      let entry := entry.filter fun t => now - t < l.windowSecs
      ({ l with failures := l.failures.insert nodeId entry }, entry.length % 2 ^ 32)

/-- Source: `auth/rate_limit.rs`, `retry_after_secs` -/
def retryAfterSecs : ℕ :=
  match l.failures.lookup nodeId with
  | none => l.windowSecs
  | some entry =>
      let oldest := entry.min?.getD now
      let elapsed := now - oldest
      max (l.windowSecs - elapsed) 1

/-- The seconds to wait come with an error.
Source: `auth/rate_limit.rs`, `check` -/
def check : AuthAttemptLimiter × Except ℕ Unit :=
  let (l, count) := l.pruneAndCount nodeId now
  if l.maxFailures ≤ count then (l, .error (l.retryAfterSecs nodeId now)) else (l, .ok ())

/-- Source: `auth/rate_limit.rs`, `record_failure` -/
def recordFailure : AuthAttemptLimiter :=
  let entry := (l.failures.lookup nodeId).getD []
  let entry := entry.filter fun t => now - t < l.windowSecs
  { l with failures := l.failures.insert nodeId (entry ++ [now]) }

/-- Source: `auth/rate_limit.rs`, `clear` -/
def clear : AuthAttemptLimiter := { l with failures := l.failures.erase nodeId }

/-- The times that are kept of a node. -/
def entry : List ℕ := (l.failures.lookup nodeId).getD []

end AuthAttemptLimiter

/-! ## The store -/

/-- Source: `auth/storage.rs`, `SessionEntry` -/
structure SessionEntry where
  nodeId : Text
  expiresAt : ℕ

/-- Source: `auth/storage.rs`, `StoreInner` -/
structure StoreInner where
  nodes : AuthStore
  sessions : Table Text SessionEntry
  limiter : Option AuthAttemptLimiter

/-- A call of `authenticate`, with the two readings of the clock and the token that it draws. -/
structure Attempt where
  nodeId : Text
  apiKey : Text
  now : ℕ
  later : ℕ
  token : Text

/-- Source: `auth/storage.rs`, `AuthError`; those of `authenticate` -/
inductive AuthError where
  | unauthenticated
  | rateLimited (retryAfterSecs : ℕ)
  deriving DecidableEq

/-- Source: `auth/storage.rs`, `SESSION_TTL` -/
def sessionTtl : ℕ := 24 * 60 * 60

section Run

variable (blake3 : Bytes → Digest)

/-- What the limiter says, when there is one. -/
def StoreInner.checked (s : StoreInner) (a : Attempt) : Option (AuthAttemptLimiter × Except ℕ Unit) :=
  s.limiter.map fun l => l.check a.nodeId a.now

/-- Source: `auth/storage.rs`, `authenticate` -/
def authenticate (s : StoreInner) (a : Attempt) : StoreInner × Except AuthError (Text × ℕ) :=
  match s.checked a with
  | some (l, .error retryAfterSecs) =>
      ({ s with limiter := some l }, .error (.rateLimited retryAfterSecs))
  | checked =>
      let limiter := checked.map Prod.fst
      if s.nodes.authed blake3 a.nodeId a.apiKey then
        let expiresAt := a.later + sessionTtl
        ({ s with
            limiter := limiter.map fun l => l.clear a.nodeId
            sessions := s.sessions.insert a.token ⟨a.nodeId, expiresAt⟩ },
          .ok (a.token, expiresAt))
      else
        ({ s with limiter := limiter.map fun l => l.recordFailure a.nodeId a.now },
          .error .unauthenticated)

def attemptStep (s : StoreInner) (a : Attempt) : StoreInner := (authenticate blake3 s a).1

def answer (s : StoreInner) (a : Attempt) : Except AuthError (Text × ℕ) := (authenticate blake3 s a).2

/-! ## Failures as they were answered -/

/-- What an answer makes of the failures of the node since its last success. -/
def failuresAfter (a : Attempt) (times : List ℕ) : Except AuthError (Text × ℕ) → List ℕ
  | .ok _ => []
  | .error .unauthenticated => times ++ [a.now]
  | .error (.rateLimited _) => times

/-- The times at which keys of a node were found wrong since its last success. -/
def failures (nodeId : Text) (hist : List (StoreInner × Attempt)) : List ℕ :=
  hist.foldl (fun times x =>
    if x.2.nodeId = nodeId then failuresAfter x.2 times (answer blake3 x.1 x.2) else times) []

end Run

/-! ## What the limiter keeps -/

namespace AuthAttemptLimiter

variable {l l' : AuthAttemptLimiter} {n m : Text} {now : ℕ}

theorem entry_insert {failures : Table Text (List ℕ)} {times : List ℕ} :
    entry { l with failures := failures.insert n times } m =
      if m = n then times else entry { l with failures := failures } m := by
  unfold entry
  dsimp only
  rw [Table.lookup_insert_eq_ite]
  split_ifs
  · rfl
  · rfl

theorem maxFailures_pruneAndCount : (l.pruneAndCount n now).1.maxFailures = l.maxFailures := by
  unfold pruneAndCount
  split <;> rfl

theorem windowSecs_pruneAndCount : (l.pruneAndCount n now).1.windowSecs = l.windowSecs := by
  unfold pruneAndCount
  split <;> rfl

/-- Pruning keeps what is recent of its node. -/
theorem entry_pruneAndCount :
    (l.pruneAndCount n now).1.entry m =
      if m = n then recent l.windowSecs now (l.entry n) else l.entry m := by
  unfold pruneAndCount
  split
  · rename_i hnone
    split_ifs with hm
    · rw [hm, entry, hnone]
      rfl
    · rfl
  · rename_i times hsome
    rw [entry_insert]
    split_ifs
    · rw [entry, hsome]
      rfl
    · rfl

/-- It counts what it keeps, as a `u32`. -/
theorem count_pruneAndCount :
    (l.pruneAndCount n now).2 = (recent l.windowSecs now (l.entry n)).length % 2 ^ 32 := by
  unfold pruneAndCount entry
  split
  · rename_i hnone
    rw [hnone]
    rfl
  · rename_i times hsome
    rw [hsome]
    rfl

theorem check_fst : (l.check n now).1 = (l.pruneAndCount n now).1 := by
  unfold check
  dsimp only
  split_ifs <;> rfl

theorem entry_check :
    (l.check n now).1.entry m = if m = n then recent l.windowSecs now (l.entry n) else l.entry m := by
  rw [check_fst, entry_pruneAndCount]

theorem maxFailures_check : (l.check n now).1.maxFailures = l.maxFailures := by
  rw [check_fst, maxFailures_pruneAndCount]

theorem windowSecs_check : (l.check n now).1.windowSecs = l.windowSecs := by
  rw [check_fst, windowSecs_pruneAndCount]

/-- A check refuses when what is recent is too many. -/
theorem check_snd (hlength : (recent l.windowSecs now (l.entry n)).length < 2 ^ 32) :
    (l.check n now).2 =
      if l.maxFailures ≤ (recent l.windowSecs now (l.entry n)).length then
        .error ((l.check n now).1.retryAfterSecs n now)
      else .ok () := by
  rw [check_fst]
  unfold check
  dsimp only
  rw [maxFailures_pruneAndCount, count_pruneAndCount, Nat.mod_eq_of_lt hlength]
  split_ifs <;> rfl

/-- A failure is added to what is recent. -/
theorem entry_recordFailure :
    (l.recordFailure n now).entry m =
      if m = n then recent l.windowSecs now (l.entry n) ++ [now] else l.entry m := entry_insert

/-- A success drops the failures of its node. -/
theorem entry_clear : (l.clear n).entry m = if m = n then [] else l.entry m := by
  unfold clear entry
  dsimp only
  split_ifs with hm
  · rw [hm, AList.lookup_erase]
    rfl
  · rw [AList.lookup_erase_ne hm]

/-- The wait is what is left of the window of the oldest failure. -/
theorem retryAfterSecs_eq {oldest : ℕ} (hmin : (l.entry n).min? = some oldest)
    (holdest : oldest ≤ now) (hrecent : now - oldest < l.windowSecs) :
    now + l.retryAfterSecs n now = oldest + l.windowSecs := by
  unfold retryAfterSecs
  rcases hentry : l.failures.lookup n with _ | times
  · rw [entry, hentry] at hmin
    cases hmin
  · rw [entry, hentry, Option.getD_some] at hmin
    dsimp only
    rw [hmin, Option.getD_some]
    omega

end AuthAttemptLimiter

/-! ## Calls -/

section Calls

variable {blake3 : Bytes → Digest} {s s' : StoreInner} {l : AuthAttemptLimiter} {a b : Attempt}
  {n : Text} {k w last now : ℕ} {F : Text → List ℕ}

/-- A call is refused, succeeds or fails, and leaves the nodes as they are. -/
theorem authenticate_cases (blake3 : Bytes → Digest) (a : Attempt) (hs : s.limiter = some l) :
    (∃ r, (l.check a.nodeId a.now).2 = .error r ∧ answer blake3 s a = .error (.rateLimited r) ∧
      (attemptStep blake3 s a).limiter = some (l.check a.nodeId a.now).1) ∨
    (l.check a.nodeId a.now).2 = .ok () ∧
      ((∃ session, answer blake3 s a = .ok session ∧
        (attemptStep blake3 s a).limiter = some ((l.check a.nodeId a.now).1.clear a.nodeId)) ∨
      (answer blake3 s a = .error .unauthenticated ∧
        (attemptStep blake3 s a).limiter =
          some ((l.check a.nodeId a.now).1.recordFailure a.nodeId a.now))) := by
  have hchecked : s.checked a = some (l.check a.nodeId a.now) := by rw [StoreInner.checked, hs]; rfl
  unfold attemptStep answer authenticate
  rw [hchecked]
  rcases hcheck : l.check a.nodeId a.now with ⟨kept, r | _⟩
  · exact Or.inl ⟨r, rfl, rfl, rfl⟩
  · right
    refine ⟨rfl, ?_⟩
    dsimp only
    split_ifs
    · exact Or.inl ⟨_, rfl, rfl⟩
    · exact Or.inr ⟨rfl, rfl⟩

theorem nodes_attemptStep : (attemptStep blake3 s a).nodes = s.nodes := by
  unfold attemptStep authenticate
  split
  · rfl
  · dsimp only
    split_ifs <;> rfl

/-- No call changes the nodes. -/
theorem nodes_run (blake3 : Bytes → Digest) (s : StoreInner) (es : List Attempt) :
    (Trace.run (attemptStep blake3) s es).nodes = s.nodes := by
  induction es using List.reverseRecOn with
  | nil => rfl
  | append_singleton es a ih => rw [Trace.run_snoc, nodes_attemptStep, ih]

/-- The keys are compared when the limiter lets the call through. -/
theorem unauthenticated_iff : answer blake3 s a = .error .unauthenticated ↔
    (∀ l r, s.checked a ≠ some (l, .error r)) ∧ s.nodes.authed blake3 a.nodeId a.apiKey = false := by
  unfold answer authenticate
  rcases hchecked : s.checked a with _ | ⟨l, r | _⟩ <;>
    cases s.nodes.authed blake3 a.nodeId a.apiKey <;> simp

/-- What the limiter has of the failures `F` of each node is what was recent at some moment up to
`last`; no window holds more than it allows. -/
structure Tracks (k w : ℕ) (s : StoreInner) (F : Text → List ℕ) (last : ℕ) : Prop where
  limiter : ∃ l, s.limiter = some l ∧ l.maxFailures = k ∧ l.windowSecs = w ∧
    ∀ n, ∃ cut ≤ last, l.entry n = recent w cut (F n)
  le : ∀ n, ∀ t ∈ F n, t ≤ last
  bounded : ∀ n, Bounded w k (F n)

theorem Tracks.mono (h : Tracks k w s F last) (hle : last ≤ now) : Tracks k w s F now where
  limiter := by
    obtain ⟨l, hs, hk, hw, hentry⟩ := h.limiter
    refine ⟨l, hs, hk, hw, fun n => ?_⟩
    obtain ⟨cut, hcut, hn⟩ := hentry n
    exact ⟨cut, le_trans hcut hle, hn⟩
  le := fun n t ht => le_trans (h.le n t ht) hle
  bounded := h.bounded

/-- A check counts the recent failures. -/
theorem check_of_tracks (h : Tracks k w s F last) (hlast : last ≤ now) (hs : s.limiter = some l) :
    l.maxFailures = k ∧ l.windowSecs = w ∧ recent w now (l.entry n) = recent w now (F n) ∧
      (l.check n now).2 =
        if k ≤ (recent w now (F n)).length then .error ((l.check n now).1.retryAfterSecs n now)
        else .ok () := by
  obtain ⟨l', hs', hk, hw, hentry⟩ := h.limiter
  obtain rfl : l = l' := Option.some.inj (hs.symm.trans hs')
  obtain ⟨cut, hcut, hn⟩ := hentry n
  have hrecent : recent w now (l.entry n) = recent w now (F n) := by
    rw [hn, recent_recent (le_trans hcut hlast)]
  have hlength : (recent w now (F n)).length < 2 ^ 32 := by
    refine lt_of_le_of_lt ((h.bounded n).length_recent_le fun t ht => le_trans (h.le n t ht) hlast) ?_
    rw [← hk]
    exact l.maxFailures_lt
  refine ⟨hk, hw, hrecent, ?_⟩
  have hcheck := @AuthAttemptLimiter.check_snd l n now
  rw [hw, hrecent, hk] at hcheck
  exact hcheck hlength

/-- A call is refused exactly while there are as many recent failures as are allowed. -/
theorem refused_iff (h : Tracks k w s F last) (hlast : last ≤ a.now) :
    (∃ r, answer blake3 s a = .error (.rateLimited r)) ↔ (recent w a.now (F a.nodeId)).length = k := by
  obtain ⟨l, hs, _⟩ := h.limiter
  obtain ⟨_, _, _, hcheck⟩ := check_of_tracks (n := a.nodeId) h hlast hs
  have hle := (h.bounded a.nodeId).length_recent_le fun t ht => le_trans (h.le a.nodeId t ht) hlast
  constructor
  · rintro ⟨r, hr⟩
    rcases authenticate_cases blake3 a hs with
      ⟨_, herror, _⟩ | ⟨_, ⟨_, hok, _⟩ | ⟨hfailed, _⟩⟩
    · rw [hcheck] at herror
      split_ifs at herror with hfull
      exact le_antisymm hle hfull
    · rw [hok] at hr
      cases hr
    · rw [hfailed] at hr
      cases hr
  · intro hfull
    rw [if_pos hfull.ge] at hcheck
    rcases authenticate_cases blake3 a hs with ⟨r, _, hr, _⟩ | ⟨hok, _⟩
    · exact ⟨r, hr⟩
    · rw [hcheck] at hok
      cases hok

/-- The failures of one node are replaced, and the limiter has the recent ones of them. -/
theorem Tracks.replace (h : Tracks k w s F last) (hlast : last ≤ now) (hs : s.limiter = some l)
    {l' : AuthAttemptLimiter} (times : List ℕ) (hs' : s'.limiter = some l') (hk : l'.maxFailures = k)
    (hw : l'.windowSecs = w)
    (hentry' : ∀ m, l'.entry m = if m = n then recent w now times else l.entry m)
    (hle : ∀ t ∈ times, t ≤ now) (hbounded : Bounded w k times) :
    Tracks k w s' (fun m => if n = m then times else F m) now := by
  obtain ⟨l₀, hs₀, _, _, hentry⟩ := h.limiter
  obtain rfl : l = l₀ := Option.some.inj (hs.symm.trans hs₀)
  refine ⟨⟨l', hs', hk, hw, fun m => ?_⟩, fun m => ?_, fun m => ?_⟩
  · rw [hentry']
    by_cases hm : n = m
    · rw [if_pos hm.symm, if_pos hm]
      exact ⟨now, le_rfl, rfl⟩
    · rw [if_neg (Ne.symm hm), if_neg hm]
      obtain ⟨cut, hcut, hn⟩ := hentry m
      exact ⟨cut, le_trans hcut hlast, hn⟩
  · split_ifs
    · exact hle
    · exact fun t ht => le_trans (h.le m t ht) hlast
  · split_ifs
    · exact hbounded
    · exact h.bounded m

/-- **One call** keeps the limiter in step with the answers. -/
theorem Tracks.step (blake3 : Bytes → Digest) (h : Tracks k w s F last) (hlast : last ≤ a.now) :
    Tracks k w (attemptStep blake3 s a)
      (fun n => if a.nodeId = n then failuresAfter a (F n) (answer blake3 s a) else F n) a.now := by
  obtain ⟨l, hs, _⟩ := h.limiter
  obtain ⟨hk, hw, hrecent, hcheck⟩ := check_of_tracks (n := a.nodeId) h hlast hs
  have hle : ∀ t ∈ F a.nodeId, t ≤ a.now := fun t ht => le_trans (h.le a.nodeId t ht) hlast
  have hkept : ∀ m, (l.check a.nodeId a.now).1.entry m =
      if m = a.nodeId then recent w a.now (F a.nodeId) else l.entry m := by
    intro m
    rw [AuthAttemptLimiter.entry_check, hw, hrecent]
  have hk' : (l.check a.nodeId a.now).1.maxFailures = k := by
    rw [AuthAttemptLimiter.maxFailures_check, hk]
  have hw' : (l.check a.nodeId a.now).1.windowSecs = w := by
    rw [AuthAttemptLimiter.windowSecs_check, hw]
  have hcongr : ∀ times, failuresAfter a (F a.nodeId) (answer blake3 s a) = times →
      (fun n => if a.nodeId = n then failuresAfter a (F n) (answer blake3 s a) else F n) =
        fun n => if a.nodeId = n then times else F n := by
    rintro times rfl
    funext m
    split_ifs with hm
    · rw [hm]
    · rfl
  rcases authenticate_cases blake3 a hs with
    ⟨r, _, hanswer, hstep⟩ | ⟨hok, ⟨session, hanswer, hstep⟩ | ⟨hanswer, hstep⟩⟩
  · -- refused: the recent failures are kept
    rw [hcongr (F a.nodeId) (by rw [hanswer]; rfl)]
    exact h.replace hlast hs _ hstep hk' hw' hkept hle (h.bounded a.nodeId)
  · -- a success drops them
    rw [hcongr [] (by rw [hanswer]; rfl)]
    refine h.replace hlast hs [] hstep hk' hw' (fun m => ?_) (fun _ => nofun) bounded_nil
    rw [AuthAttemptLimiter.entry_clear, hkept]
    split_ifs
    · rfl
    · rfl
  · -- a failure is added, for which there was room
    rw [hcongr (F a.nodeId ++ [a.now]) (by rw [hanswer]; rfl)]
    have hroom : (recent w a.now (F a.nodeId)).length < k := by
      rw [hcheck] at hok
      split_ifs at hok with hfull
      exact Nat.not_le.mp hfull
    have hwpos : 0 < w := hw ▸ l.windowSecs_pos
    refine h.replace hlast hs _ hstep hk' hw' (fun m => ?_) ?_ ((h.bounded a.nodeId).snoc hroom)
    · rw [AuthAttemptLimiter.entry_recordFailure, hw', hkept, hkept, if_pos rfl, recent_recent le_rfl]
      split_ifs with hm
      · unfold recent
        rw [List.filter_append, List.filter_cons_of_pos (by simpa using hwpos), List.filter_nil]
      · rfl
    · intro t ht
      rcases List.mem_append.mp ht with hmem | hmem
      · exact hle t hmem
      · exact (List.mem_singleton.mp hmem).le

/-- After a refusal the next call is refused until the wait that was named is over. -/
theorem refused_again_iff {r : ℕ} (h : Tracks k w s F last) (hlast : last ≤ a.now) (hk : 0 < k)
    (hrefused : answer blake3 s a = .error (.rateLimited r)) (hb : b.nodeId = a.nodeId)
    (hnow : a.now ≤ b.now) :
    (∃ r', answer blake3 (attemptStep blake3 s a) b = .error (.rateLimited r')) ↔ b.now < a.now + r := by
  obtain ⟨l, hs, _⟩ := h.limiter
  obtain ⟨_, hw, hrecent, hcheck⟩ := check_of_tracks (n := a.nodeId) h hlast hs
  have hfull := (refused_iff h hlast).mp ⟨r, hrefused⟩
  obtain ⟨oldest, hmin⟩ := List.isSome_min?_of_ne_nil
    (List.ne_nil_of_length_pos (hfull ▸ hk)) |> Option.isSome_iff_exists.mp
  obtain ⟨hmem, hwithin⟩ := mem_recent.mp (List.min?_mem hmin)
  have hwait : a.now + r = oldest + w := by
    have hkept : (l.check a.nodeId a.now).1.entry a.nodeId = recent w a.now (F a.nodeId) := by
      rw [AuthAttemptLimiter.entry_check, if_pos rfl, hw, hrecent]
    have hretry := AuthAttemptLimiter.retryAfterSecs_eq (hkept ▸ hmin)
      (le_trans (h.le _ _ hmem) hlast) (by rwa [AuthAttemptLimiter.windowSecs_check, hw])
    rw [AuthAttemptLimiter.windowSecs_check, hw] at hretry
    rw [if_pos hfull.ge] at hcheck
    rcases authenticate_cases blake3 a hs with
      ⟨r', herror, hanswer, _⟩ | ⟨_, ⟨_, hanswer, _⟩ | ⟨hanswer, _⟩⟩
    · obtain rfl := Except.error.inj (hcheck.symm.trans herror)
      obtain rfl := AuthError.rateLimited.inj (Except.error.inj (hrefused.symm.trans hanswer))
      exact hretry
    · rw [hanswer] at hrefused
      cases hrefused
    · rw [hanswer] at hrefused
      cases hrefused
  have hwpos : 0 < w := hw ▸ l.windowSecs_pos
  rw [refused_iff (h.step blake3 hlast) hnow, hb, if_pos rfl, hrefused]
  show (recent w b.now (F a.nodeId)).length = k ↔ _
  rw [← recent_recent hnow, hwait, ← length_recent_eq_iff hwpos hmin, hfull]

end Calls

/-! ## Calls for other nodes -/

section Others

/-- Two limiters with the same settings and the same failures of a node. -/
structure SameFor (n : Text) (l l' : AuthAttemptLimiter) : Prop where
  maxFailures : l.maxFailures = l'.maxFailures
  windowSecs : l.windowSecs = l'.windowSecs
  failures : l.failures.lookup n = l'.failures.lookup n

variable {blake3 : Bytes → Digest} {s s' : StoreInner} {l l' : AuthAttemptLimiter} {a : Attempt}
  {n m : Text} {now : ℕ}

theorem SameFor.refl : SameFor n l l := ⟨rfl, rfl, rfl⟩

theorem SameFor.trans {l'' : AuthAttemptLimiter} (h : SameFor n l l') (h' : SameFor n l' l'') :
    SameFor n l l'' :=
  ⟨h.1.trans h'.1, h.2.trans h'.2, h.3.trans h'.3⟩

theorem SameFor.pruneAndCount (h : SameFor n l l') :
    SameFor n (l.pruneAndCount n now).1 (l'.pruneAndCount n now).1 ∧
      (l.pruneAndCount n now).2 = (l'.pruneAndCount n now).2 := by
  unfold AuthAttemptLimiter.pruneAndCount
  rw [h.failures]
  split
  · exact ⟨h, rfl⟩
  · refine ⟨⟨h.maxFailures, h.windowSecs, ?_⟩, ?_⟩
    · dsimp only
      rw [AList.lookup_insert, AList.lookup_insert, h.windowSecs]
    · dsimp only
      rw [h.windowSecs]

/-- Limiters that agree about a node answer alike. -/
theorem SameFor.check (h : SameFor n l l') :
    SameFor n (l.check n now).1 (l'.check n now).1 ∧ (l.check n now).2 = (l'.check n now).2 := by
  obtain ⟨hprune, hcount⟩ := @pruneAndCount _ _ _ now h
  have hretry : (l.pruneAndCount n now).1.retryAfterSecs n now =
      (l'.pruneAndCount n now).1.retryAfterSecs n now := by
    unfold AuthAttemptLimiter.retryAfterSecs
    rw [hprune.failures, hprune.windowSecs]
  rw [AuthAttemptLimiter.check_fst, AuthAttemptLimiter.check_fst]
  refine ⟨hprune, ?_⟩
  unfold AuthAttemptLimiter.check
  dsimp only
  rw [hprune.maxFailures, hcount, hretry]
  split_ifs <;> rfl

theorem SameFor.clear (h : SameFor n l l') : SameFor n (l.clear n) (l'.clear n) := by
  refine ⟨h.maxFailures, h.windowSecs, ?_⟩
  unfold AuthAttemptLimiter.clear
  dsimp only
  rw [AList.lookup_erase, AList.lookup_erase]

theorem SameFor.recordFailure (h : SameFor n l l') :
    SameFor n (l.recordFailure n now) (l'.recordFailure n now) := by
  refine ⟨h.maxFailures, h.windowSecs, ?_⟩
  unfold AuthAttemptLimiter.recordFailure
  dsimp only
  rw [AList.lookup_insert, AList.lookup_insert, h.failures, h.windowSecs]

/-- Looking at another node, dropping its failures or adding one changes nothing. -/
theorem sameFor_check (hm : n ≠ m) : SameFor n l (l.check m now).1 := by
  rw [AuthAttemptLimiter.check_fst]
  refine ⟨AuthAttemptLimiter.maxFailures_pruneAndCount.symm,
    AuthAttemptLimiter.windowSecs_pruneAndCount.symm, ?_⟩
  unfold AuthAttemptLimiter.pruneAndCount
  split
  · rfl
  · exact (AList.lookup_insert_ne hm).symm

theorem sameFor_clear (hm : n ≠ m) : SameFor n l (l.clear m) :=
  ⟨rfl, rfl, (AList.lookup_erase_ne hm).symm⟩

theorem sameFor_recordFailure (hm : n ≠ m) : SameFor n l (l.recordFailure m now) :=
  ⟨rfl, rfl, (AList.lookup_insert_ne hm).symm⟩

/-- Two stores that answer the calls for one node alike. -/
structure Alike (n : Text) (s s' : StoreInner) : Prop where
  nodes : s.nodes = s'.nodes
  limiter : ∃ l l', s.limiter = some l ∧ s'.limiter = some l' ∧ SameFor n l l'

/-- A call has the same answer in stores that are alike for its node, and leaves them alike. -/
theorem Alike.step (blake3 : Bytes → Digest) (h : Alike a.nodeId s s') :
    answer blake3 s a = answer blake3 s' a ∧
      Alike a.nodeId (attemptStep blake3 s a) (attemptStep blake3 s' a) := by
  obtain ⟨hnodes, l, l', hl, hl', hsame⟩ := h
  have hcheck := @SameFor.check _ _ _ a.now hsame
  have hchecked : s.checked a = some (l.check a.nodeId a.now) := by rw [StoreInner.checked, hl]; rfl
  have hchecked' : s'.checked a = some (l'.check a.nodeId a.now) := by
    rw [StoreInner.checked, hl']; rfl
  unfold answer attemptStep authenticate
  rw [hchecked, hchecked']
  rcases hx : l.check a.nodeId a.now with ⟨kept, r | _⟩ <;>
    rcases hx' : l'.check a.nodeId a.now with ⟨kept', r' | _⟩ <;> rw [hx, hx'] at hcheck
  · obtain rfl := Except.error.inj hcheck.2
    exact ⟨rfl, hnodes, kept, kept', rfl, rfl, hcheck.1⟩
  · cases hcheck.2
  · cases hcheck.2
  · dsimp only
    rw [hnodes]
    split_ifs
    · exact ⟨rfl, rfl, _, _, rfl, rfl, hcheck.1.clear⟩
    · exact ⟨rfl, rfl, _, _, rfl, rfl, hcheck.1.recordFailure⟩

/-- A call for another node leaves a store as it is for this one. -/
theorem Alike.of_other (blake3 : Bytes → Digest) (h : Alike n s s') (hn : a.nodeId ≠ n) :
    Alike n (attemptStep blake3 s a) s' := by
  obtain ⟨hnodes, l, l', hl, hl', hsame⟩ := h
  have hback : ∀ l'', SameFor n l l'' → SameFor n l'' l' :=
    fun l'' h => ⟨h.1.symm.trans hsame.1, h.2.symm.trans hsame.2, h.3.symm.trans hsame.3⟩
  refine ⟨nodes_attemptStep.trans hnodes, ?_⟩
  have hcheck := @sameFor_check l n a.nodeId a.now hn.symm
  rcases authenticate_cases blake3 a hl with ⟨_, _, _, hstep⟩ | ⟨_, ⟨_, _, hstep⟩ | ⟨_, hstep⟩⟩
  · exact ⟨_, l', hstep, hl', hback _ hcheck⟩
  · exact ⟨_, l', hstep, hl', hback _ (hcheck.trans (sameFor_clear hn.symm))⟩
  · exact ⟨_, l', hstep, hl', hback _ (hcheck.trans (sameFor_recordFailure hn.symm))⟩

/-- The answers to the calls for one node. -/
def answersFor (blake3 : Bytes → Digest) (n : Text) (s : StoreInner) (es : List Attempt) :
    List (Except AuthError (Text × ℕ)) :=
  (Trace.history (attemptStep blake3) s es).filterMap fun x =>
    if x.2.nodeId = n then some (answer blake3 x.1 x.2) else none

/-- The calls for other nodes change no answer. -/
theorem answersFor_filter {es : List Attempt} (hl : s.limiter = some l) :
    answersFor blake3 n s es = answersFor blake3 n s (es.filter fun a => a.nodeId = n) := by
  refine Trace.filterMap_history_filter (fun a => decide (a.nodeId = n))
    (fun s a => if a.nodeId = n then some (answer blake3 s a) else none)
    (V := fun _ s s' => Alike n s s') (Q := fun _ _ => True) ?_ ?_
    (List.pairwise_of_forall fun _ _ => trivial) ⟨rfl, l, l, hl, hl, .refl⟩
  · intro s s' a _ ha h
    obtain rfl := of_decide_eq_true ha
    obtain ⟨hanswer, halike⟩ := h.step blake3
    rw [if_pos rfl, if_pos rfl, hanswer]
    exact ⟨rfl, halike⟩
  · intro s s' a _ ha _ h
    have hn := of_decide_eq_false ha
    exact ⟨if_neg hn, h.of_other blake3 hn⟩

end Others

/-! ## Runs -/

section Runs

variable {blake3 : Bytes → Digest} {s : StoreInner} {es : List Attempt} {k w now : ℕ}

/-- The failures after one more call. -/
theorem failures_snoc (n : Text) (hist : List (StoreInner × Attempt)) (x : StoreInner × Attempt) :
    failures blake3 n (hist ++ [x]) =
      if x.2.nodeId = n then failuresAfter x.2 (failures blake3 n hist) (answer blake3 x.1 x.2)
      else failures blake3 n hist := by
  unfold failures
  rw [List.foldl_append]
  rfl

/-- A store whose limiter has seen no failure. -/
def Fresh (k w : ℕ) (s : StoreInner) : Prop :=
  ∃ l, s.limiter = some l ∧ l.maxFailures = k ∧ l.windowSecs = w ∧ l.failures = ∅

/-- **Whole runs** keep the limiter in step with the answers. -/
theorem tracks_run (blake3 : Bytes → Digest) (hs : Fresh k w s) (hes : (es.map Attempt.now).Pairwise (· ≤ ·))
    (hnow : ∀ a ∈ es, a.now ≤ now) :
    Tracks k w (Trace.run (attemptStep blake3) s es)
      (fun n => failures blake3 n (Trace.history (attemptStep blake3) s es)) now := by
  induction es using List.reverseRecOn generalizing now with
  | nil =>
      obtain ⟨l, hl, hk, hw, hempty⟩ := hs
      refine ⟨⟨l, hl, hk, hw, fun n => ⟨now, le_rfl, ?_⟩⟩, fun _ => nofun, fun _ => bounded_nil⟩
      rw [AuthAttemptLimiter.entry, hempty]
      rfl
  | append_singleton es a ih =>
      rw [List.map_append, List.pairwise_append] at hes
      have hlast : ∀ b ∈ es, b.now ≤ a.now := fun b hb =>
        hes.2.2 b.now (List.mem_map_of_mem hb) a.now (List.mem_singleton_self _)
      have hstep := (ih hes.1 hlast).step (a := a) blake3 le_rfl
      have hfailures : (fun n => failures blake3 n (Trace.history (attemptStep blake3) s (es ++ [a]))) =
          fun n => if a.nodeId = n then
            failuresAfter a (failures blake3 n (Trace.history (attemptStep blake3) s es))
              (answer blake3 (Trace.run (attemptStep blake3) s es) a)
          else failures blake3 n (Trace.history (attemptStep blake3) s es) := by
        funext n
        rw [Trace.history_snoc, failures_snoc]
      rw [Trace.run_snoc, hfailures]
      exact hstep.mono (hnow a (List.mem_append_right _ (List.mem_singleton_self a)))

/-- The limiter over runs from a store that has seen no failure: `k` failures within `w` seconds are
allowed. -/
structure LimiterLaw (blake3 : Bytes → Digest) (k w : ℕ) (s : StoreInner) (es : List Attempt) :
    Prop where
  /-- No half-open window holds more wrong keys of a node since its last success. -/
  bounded : ∀ n start, ((failures blake3 n (Trace.history (attemptStep blake3) s es)).filter
    fun t => start ≤ t ∧ t < start + w).length ≤ k
  /-- The next call is refused if and only if the window behind it is full. -/
  refused_iff : ∀ a, (∀ b ∈ es, b.now ≤ a.now) →
    ((∃ r, answer blake3 (Trace.run (attemptStep blake3) s es) a = .error (.rateLimited r)) ↔
      ((failures blake3 a.nodeId (Trace.history (attemptStep blake3) s es)).filter
        fun t => a.now < t + w ∧ t ≤ a.now).length = k)
  /-- When it is, the call after it is refused until the wait is over, and then no longer. -/
  retry : ∀ a r, (∀ b ∈ es, b.now ≤ a.now) →
    answer blake3 (Trace.run (attemptStep blake3) s es) a = .error (.rateLimited r) →
    ∀ b, b.nodeId = a.nodeId → a.now ≤ b.now →
      ((∃ r', answer blake3 (Trace.run (attemptStep blake3) s (es ++ [a])) b = .error (.rateLimited r')) ↔
        b.now < a.now + r)
  /-- A call fails when the limiter lets it through and the key is not that of its node. -/
  unauthenticated_iff : ∀ a, answer blake3 (Trace.run (attemptStep blake3) s es) a = .error .unauthenticated ↔
    (∀ l r, (Trace.run (attemptStep blake3) s es).checked a ≠ some (l, .error r)) ∧
      s.nodes.authed blake3 a.nodeId a.apiKey = false
  /-- The answers for a node are the same without the calls for others. -/
  independent : ∀ n, answersFor blake3 n s es = answersFor blake3 n s (es.filter fun a => a.nodeId = n)

/-- **The limiter**, over every run with a clock that does not go back. -/
theorem limiterLaw (blake3 : Bytes → Digest) (hk : 0 < k) (hs : Fresh k w s)
    (hes : (es.map Attempt.now).Pairwise (· ≤ ·)) : LimiterLaw blake3 k w s es where
  bounded := by
    intro n
    obtain ⟨last, hlast⟩ : ∃ last, ∀ a ∈ es, a.now ≤ last :=
      ⟨(es.map Attempt.now).sum, fun a ha => List.single_le_sum (fun _ _ => Nat.zero_le _) _
        (List.mem_map_of_mem ha)⟩
    exact (tracks_run blake3 hs hes hlast).bounded n
  refused_iff := by
    intro a ha
    have htracks := tracks_run blake3 hs hes ha
    have hwindow : (recent w a.now (failures blake3 a.nodeId (Trace.history (attemptStep blake3) s es))) =
        (failures blake3 a.nodeId (Trace.history (attemptStep blake3) s es)).filter
          fun t => a.now < t + w ∧ t ≤ a.now := by
      apply List.filter_congr
      intro t ht
      have hle := htracks.le a.nodeId t ht
      rw [decide_eq_decide]
      omega
    rw [Nodes.refused_iff htracks le_rfl, hwindow]
  retry := by
    intro a r ha hrefused b hb hnow
    rw [Trace.run_snoc]
    exact refused_again_iff (tracks_run blake3 hs hes ha) le_rfl hk hrefused hb hnow
  unauthenticated_iff := by
    intro a
    rw [Nodes.unauthenticated_iff, nodes_run]
  independent := by
    intro n
    obtain ⟨l, hl, _⟩ := hs
    exact answersFor_filter hl

/-- A store without nodes that allows two failures a minute. -/
def twoAMinute : StoreInner := ⟨∅, ∅, some (.new 2 60 (by decide))⟩

/-- A call for a node that is not registered. -/
def guess (now : ℕ) : Attempt := ⟨"node".toList, [], now, now, []⟩

/-- The law at work: two wrong keys of a node. -/
theorem limiterLaw_guesses : LimiterLaw sampleHash 2 60 twoAMinute [guess 0, guess 10] :=
  limiterLaw sampleHash (by decide) ⟨_, rfl, rfl, rfl, rfl⟩ (by decide)

example (blake3 : Bytes → Digest) :
    answer blake3 (Trace.run (attemptStep blake3) twoAMinute [guess 0, guess 10]) (guess 25) =
      .error (.rateLimited 35) := rfl

end Runs

end DiskArcana.Nodes
