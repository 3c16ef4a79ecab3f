import DiskArcana.Lib.SqlRows
import Mathlib.Logic.Function.Basic

/-!
# A store in parts

A store has a part for each owner, and every operation on it is on behalf of one owner. Where an
operation acts on the part of its owner only and sees nothing else (`OwnerLocal`), the parts can be
kept in several stores, that of an owner in the store under the owner's key. Two owners may share a
key. `OwnerLocal.sharded` is the step of the simulation: the operation is answered as by the one
store, and every owner still has the same part.

For tables of rows whose keys belong to owners, the second half has what statements on one key do to
the rows of an owner (`rowsOf`).
-/

namespace DiskArcana.Lib

/-! ## Operations with an owner -/

section

variable {σ ε τ κ α π : Type}

/-- Operations act on the part of their owner, and see nothing else. -/
structure OwnerLocal (owner : ε → τ) (part : τ → σ → π) (step : σ → ε → σ) (answer : σ → ε → α) :
    Prop where
  answer_eq : ∀ {s s' : σ} {e : ε}, part (owner e) s = part (owner e) s' → answer s e = answer s' e
  own : ∀ {s s' : σ} {e : ε}, part (owner e) s = part (owner e) s' →
    part (owner e) (step s e) = part (owner e) (step s' e)
  others : ∀ {s : σ} {e : ε} {t : τ}, t ≠ owner e → part t (step s e) = part t s

/-- Every owner's part is in the store under the owner's key. -/
def SameParts (part : τ → σ → π) (key : τ → κ) (s : σ) (shards : κ → σ) : Prop :=
  ∀ t, part t (shards (key t)) = part t s

variable {owner : ε → τ} {part : τ → σ → π} {step : σ → ε → σ} {answer : σ → ε → α}

/-- **One operation on a store in parts.** -/
theorem OwnerLocal.sharded [DecidableEq κ] (hlocal : OwnerLocal owner part step answer)
    {key : τ → κ} {s : σ} {shards : κ → σ} (hsame : SameParts part key s shards) (e : ε) :
    answer (shards (key (owner e))) e = answer s e ∧
      SameParts part key (step s e)
        (Function.update shards (key (owner e)) (step (shards (key (owner e))) e)) := by
  refine ⟨hlocal.answer_eq (hsame (owner e)), fun t => ?_⟩
  by_cases howner : t = owner e
  · rw [howner, Function.update_self]
    exact hlocal.own (hsame (owner e))
  · rw [hlocal.others howner]
    by_cases hkey : key t = key (owner e)
    · rw [hkey, Function.update_self, hlocal.others howner, ← hkey]
      exact hsame t
    · rw [Function.update_of_ne hkey]
      exact hsame t

end

/-! ## Rows of an owner -/

namespace SqlRows

variable {κ ρ : Type}

/-- The rows with a key of some owner, in their order. -/
def rowsOf (mine : κ → Bool) (t : SqlRows κ ρ) : SqlRows κ ρ := t.filter fun e => mine e.1

variable {mine : κ → Bool} {t : SqlRows κ ρ} {k : κ} {r : ρ} {f : ρ → ρ}

theorem rowsOf_append_of_mine (h : mine k = true) : rowsOf mine (t ++ [(k, r)]) = rowsOf mine t ++ [(k, r)] := by
  simp [rowsOf, h]

theorem rowsOf_append_of_not_mine (h : mine k = false) : rowsOf mine (t ++ [(k, r)]) = rowsOf mine t := by
  simp [rowsOf, h]

theorem rowsOf_filter (p : κ × ρ → Bool) : rowsOf mine (t.filter p) = (rowsOf mine t).filter p := by
  unfold rowsOf
  rw [List.filter_filter, List.filter_filter]
  congr 1
  funext e
  exact Bool.and_comm _ _

/-- Deleting rows of one owner leaves those of the others. -/
theorem rowsOf_filter_of_forall {p : κ × ρ → Bool} (h : ∀ e ∈ t, mine e.1 = true → p e = true) :
    rowsOf mine (t.filter p) = rowsOf mine t := by
  unfold rowsOf
  rw [List.filter_filter]
  apply List.filter_congr
  intro e he
  rcases hmine : mine e.1 with _ | _
  · rfl
  · rw [h e he hmine]
    rfl

/-- What is seen of the rows of an owner is seen of all rows. -/
theorem filter_rowsOf_of_forall {p : κ × ρ → Bool} (h : ∀ e ∈ t, p e = true → mine e.1 = true) :
    (rowsOf mine t).filter p = t.filter p := by
  unfold rowsOf
  rw [List.filter_filter]
  apply List.filter_congr
  intro e he
  rcases hp : p e with _ | _
  · rfl
  · rw [h e he hp]
    rfl

theorem mem_keys_rowsOf (h : mine k = true) : k ∈ keys (rowsOf mine t) ↔ k ∈ keys t := by
  unfold keys rowsOf
  rw [List.mem_map, List.mem_map]
  constructor
  · rintro ⟨e, he, rfl⟩
    exact ⟨e, (List.mem_filter.mp he).1, rfl⟩
  · rintro ⟨e, he, rfl⟩
    exact ⟨e, List.mem_filter.mpr ⟨he, h⟩, rfl⟩

variable [DecidableEq κ]

theorem select_rowsOf (h : mine k = true) : select (rowsOf mine t) k = select t k := by
  unfold select rowsOf
  rw [List.find?_filter]
  congr 2
  funext e
  by_cases hk : e.1 = k
  · simp [hk, h]
  · simp [hk]

theorem clashes_rowsOf (hasNull : κ → Bool) (h : mine k = true) :
    clashes hasNull (rowsOf mine t) k = clashes hasNull t k := by
  unfold clashes
  rw [decide_eq_decide.mpr (mem_keys_rowsOf h)]

theorem rowsOf_updateWhere : rowsOf mine (updateWhere t k f) = updateWhere (rowsOf mine t) k f := by
  unfold rowsOf updateWhere
  rw [List.filter_map]
  congr 2
  funext e
  show mine (if e.1 = k then (e.1, f e.2) else e).1 = mine e.1
  split_ifs <;> rfl

theorem rowsOf_updateWhere_of_not_mine (h : mine k = false) :
    rowsOf mine (updateWhere t k f) = rowsOf mine t := by
  rw [rowsOf_updateWhere]
  unfold updateWhere
  conv_rhs => rw [← List.map_id (rowsOf mine t)]
  apply List.map_congr_left
  intro e he
  have hmine : mine e.1 = true := (List.mem_filter.mp he).2
  have hne : e.1 ≠ k := by
    rintro rfl
    rw [h] at hmine
    cases hmine
  rw [if_neg hne]
  rfl

/-! ### Statements that insert -/

variable (hasNull : κ → Bool)

theorem insert_rowsOf (h : mine k = true) :
    insert hasNull (rowsOf mine t) k r = (insert hasNull t k r).map (rowsOf mine) := by
  unfold insert
  rw [clashes_rowsOf hasNull h]
  split_ifs
  · rfl
  · rw [Option.map_some, rowsOf_append_of_mine h]

theorem rowsOf_insert_of_not_mine {t' : SqlRows κ ρ} (h : mine k = false) (hinsert : insert hasNull t k r = some t') :
    rowsOf mine t' = rowsOf mine t := by
  unfold insert at hinsert
  split_ifs at hinsert
  cases hinsert
  exact rowsOf_append_of_not_mine h

theorem rowsOf_upsert (h : mine k = true) :
    rowsOf mine (upsert hasNull t k r f) = upsert hasNull (rowsOf mine t) k r f := by
  unfold upsert
  rw [clashes_rowsOf hasNull h]
  split_ifs
  · exact rowsOf_updateWhere
  · exact rowsOf_append_of_mine h

theorem rowsOf_upsert_of_not_mine (h : mine k = false) : rowsOf mine (upsert hasNull t k r f) = rowsOf mine t := by
  unfold upsert
  split_ifs
  · exact rowsOf_updateWhere_of_not_mine h
  · exact rowsOf_append_of_not_mine h

end SqlRows

end DiskArcana.Lib
