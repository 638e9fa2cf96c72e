import Mathlib.Data.List.Induction
import Mathlib.Data.List.Nodup
import CodeGraph.Proofs.NameMap
import CodeGraph.Repository.Basic

/-!
# Listings in order

Graphs are compared by their time and, at one time, by their identifier. A listing puts metadata in this
order and changes nothing else (`pairwise_oldestFirst`, `perm_oldestFirst`), so of graphs with different
identifiers there is one listing (`oldestFirst_eq_of_perm`). The latest of some metadata is one that none
of them comes after (`exists_latest?`), which is the last in their listing (`latest?_filter`).
-/

namespace CodeGraph.GraphMetadata

variable {a b c m : GraphMetadata} {l l' : List GraphMetadata}

/-- An earlier time or, at the same time, a lesser identifier. -/
def Before (a b : GraphMetadata) : Prop :=
  a.createdAt < b.createdAt ∨ a.createdAt = b.createdAt ∧ a.id < b.id

theorem precedes_iff :
    a.precedes b = true ↔ a.createdAt < b.createdAt ∨ a.createdAt = b.createdAt ∧ a.id ≤ b.id := by
  simp [precedes]

theorem precedes_trans (hab : a.precedes b = true) (hbc : b.precedes c = true) :
    a.precedes c = true := by
  rw [precedes_iff] at *
  rcases hab with hab | ⟨hab, hid⟩
  · rcases hbc with hbc | ⟨hbc, -⟩
    · exact .inl (UInt64.lt_trans hab hbc)
    · exact .inl (hbc ▸ hab)
  · rcases hbc with hbc | ⟨hbc, hid'⟩
    · exact .inl (hab ▸ hbc)
    · exact .inr ⟨hab.trans hbc, String.le_trans hid hid'⟩

theorem precedes_total (a b : GraphMetadata) : a.precedes b = true ∨ b.precedes a = true := by
  simp only [precedes_iff]
  by_cases h : a.createdAt = b.createdAt
  · rcases String.le_total a.id b.id with hid | hid
    · exact .inl (.inr ⟨h, hid⟩)
    · exact .inr (.inr ⟨h.symm, hid⟩)
  · exact (UInt64.lt_or_lt_of_ne h).imp .inl .inl

theorem precedes_refl (m : GraphMetadata) : m.precedes m = true :=
  or_self_iff.1 (precedes_total m m)

theorem id_eq_of_precedes (hab : a.precedes b = true) (hba : b.precedes a = true) : a.id = b.id := by
  rw [precedes_iff] at *
  rcases hab with hab | ⟨hab, hid⟩
  · rcases hba with hba | ⟨hba, -⟩
    · exact absurd hba (UInt64.lt_asymm hab)
    · exact absurd hab (hba ▸ UInt64.lt_irrefl _)
  · rcases hba with hba | ⟨-, hid'⟩
    · exact absurd hba (hab ▸ UInt64.lt_irrefl _)
    · exact String.le_antisymm hid hid'

theorem before_of_precedes (hab : a.precedes b = true) (hne : a.id ≠ b.id) : a.Before b := by
  rcases precedes_iff.1 hab with h | ⟨h, hid⟩
  · exact .inl h
  · refine .inr ⟨h, NameMap.lt_of_not_lt_of_ne (String.not_lt.2 hid) hne.symm⟩

/-! ## Listing -/

theorem perm_oldestFirst (l : List GraphMetadata) : (oldestFirst l).Perm l :=
  List.mergeSort_perm l precedes

theorem pairwise_oldestFirst (l : List GraphMetadata) :
    (oldestFirst l).Pairwise fun a b => a.precedes b = true :=
  @List.pairwise_mergeSort _ precedes (fun _ _ _ => precedes_trans)
    (fun a b => by simpa only [Bool.or_eq_true] using precedes_total a b) l

/-- Of graphs with different identifiers each is before those that follow it. -/
theorem pairwise_before_oldestFirst (hl : (l.map (·.id)).Nodup) :
    (oldestFirst l).Pairwise Before := by
  have hids : ((oldestFirst l).map (·.id)).Nodup :=
    ((perm_oldestFirst l).map _).nodup_iff.2 hl
  exact ((pairwise_oldestFirst l).and (List.pairwise_map.1 hids)).imp fun h =>
    before_of_precedes h.1 h.2

theorem oldestFirst_eq_of_perm (hl : (l.map (·.id)).Nodup) (h : l'.Perm l) :
    oldestFirst l' = oldestFirst l := by
  have hperm := (perm_oldestFirst l').trans (h.trans (perm_oldestFirst l).symm)
  refine hperm.eq_of_pairwise (fun a b ha hb => ?_) (pairwise_oldestFirst l')
    (pairwise_oldestFirst l)
  intro hab hba
  exact List.inj_on_of_nodup_map hl (((perm_oldestFirst l').trans h).mem_iff.1 ha)
    ((perm_oldestFirst l).mem_iff.1 hb) (id_eq_of_precedes hab hba)

/-! ## The latest -/

theorem latest?_concat (l : List GraphMetadata) (m : GraphMetadata) :
    latest? (l ++ [m]) = match latest? l with
      | none => some m
      | some b => if b.precedes m then some m else some b := by
  rw [latest?, List.foldl_append]
  rfl

/-- There is a latest one of any metadata, and none of them comes after it. -/
theorem exists_latest? (hl : l ≠ []) :
    ∃ m, latest? l = some m ∧ m ∈ l ∧ ∀ x ∈ l, x.precedes m = true := by
  induction l using List.reverseRecOn with
  | nil => exact absurd rfl hl
  | append_singleton l m ih =>
    rw [latest?_concat]
    rcases List.eq_nil_or_concat l with rfl | ⟨front, x, rfl⟩
    · exact ⟨m, rfl, by simp, by simpa using precedes_refl m⟩
    · obtain ⟨b, hb, hmem, hmost⟩ := ih (by simp)
      rw [hb]
      by_cases hbm : b.precedes m = true
      · refine ⟨m, if_pos hbm, by simp, fun y hy => ?_⟩
        rcases List.mem_append.1 hy with hy | hy
        · exact precedes_trans (hmost y hy) hbm
        · exact List.mem_singleton.1 hy ▸ precedes_refl m
      · refine ⟨b, if_neg hbm, List.mem_append_left _ hmem, fun y hy => ?_⟩
        rcases List.mem_append.1 hy with hy | hy
        · exact hmost y hy
        · rw [List.mem_singleton.1 hy]
          exact (precedes_total b m).resolve_left hbm

theorem latest?_eq_some (h : latest? l = some m) : m ∈ l ∧ ∀ x ∈ l, x.precedes m = true := by
  have hl : l ≠ [] := by
    rintro rfl
    cases h
  obtain ⟨b, hb, hmem, hmost⟩ := exists_latest? hl
  obtain rfl := Option.some.inj (hb.symm.trans h)
  exact ⟨hmem, hmost⟩

/-- None of a listing comes after the last of it. -/
theorem getLast?_eq_some (hl : l.Pairwise fun a b => a.precedes b = true) (h : l.getLast? = some m) :
    m ∈ l ∧ ∀ x ∈ l, x.precedes m = true := by
  obtain ⟨front, rfl⟩ := List.getLast?_eq_some_iff.1 h
  refine ⟨by simp, fun x hx => ?_⟩
  rcases List.mem_append.1 hx with hx | hx
  · exact (List.pairwise_append.1 hl).2.2 x hx m (by simp)
  · exact List.mem_singleton.1 hx ▸ precedes_refl m

/-- Of the graphs that a test accepts the latest has the identifier of the last of the listing. -/
theorem map_id_latest?_filter (l : List GraphMetadata) (p : GraphMetadata → Bool) :
    (latest? (l.filter p)).map (·.id) = (((oldestFirst l).filter p).getLast?).map (·.id) := by
  have hperm : ((oldestFirst l).filter p).Perm (l.filter p) := (perm_oldestFirst l).filter p
  by_cases hnil : l.filter p = []
  · rw [hnil] at hperm ⊢
    rw [hperm.eq_nil]
    rfl
  obtain ⟨m, hm, hmem, hmost⟩ := exists_latest? hnil
  rcases hlast : ((oldestFirst l).filter p).getLast? with _ | z
  · rw [List.getLast?_eq_none_iff.1 hlast] at hperm
    exact absurd hperm.symm.eq_nil hnil
  · obtain ⟨hz, hzmost⟩ := getLast?_eq_some ((pairwise_oldestFirst l).filter p) hlast
    rw [hm]
    exact congrArg some (id_eq_of_precedes (hzmost m (hperm.mem_iff.2 hmem))
      (hmost z (hperm.mem_iff.1 hz)))

/-- The latest of the graphs that a test accepts is the last of them in the listing. -/
theorem latest?_filter (hl : (l.map (·.id)).Nodup) (p : GraphMetadata → Bool) :
    latest? (l.filter p) = ((oldestFirst l).filter p).getLast? := by
  have hid := map_id_latest?_filter l p
  rcases hm : latest? (l.filter p) with _ | m
  · rw [hm] at hid
    exact (Option.map_eq_none_iff.1 hid.symm).symm
  rcases hz : ((oldestFirst l).filter p).getLast? with _ | z
  · rw [hm, hz] at hid
    cases hid
  · rw [hm, hz] at hid
    have hmem := (List.mem_filter.1 (latest?_eq_some hm).1).1
    have hmem' := (perm_oldestFirst l).mem_iff.1 (List.mem_filter.1
      (getLast?_eq_some ((pairwise_oldestFirst l).filter p) hz).1).1
    exact congrArg some (List.inj_on_of_nodup_map hl hmem hmem' (Option.some.inj hid))

end CodeGraph.GraphMetadata
