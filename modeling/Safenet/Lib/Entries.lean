/-
# Maps recorded entry by entry

A map built by inserting one entry per element of a list, under distinct keys.  It has exactly
those entries, so the order of the list does not matter; its list of entries is the list, sorted
by key, and a key's value stands behind the values of the keys below it.
-/
import Safenet.Lib.BTreeMap

namespace BTreeMap

open Std

variable {α κ υ : Type} [Ord κ] [TransOrd κ] [LawfulEqOrd κ] [DecidableEq κ]

/-- One entry for every element of a list, the first to the last. -/
def record (key : α → κ) (val : α → υ) (l : List α) : BTreeMap κ υ :=
  l.foldl (fun t e => t.insert (key e) (val e)) ∅

variable {key : α → κ} {val : α → υ}

omit [LawfulEqOrd κ] [DecidableEq κ] in
theorem record_concat (l : List α) (e : α) :
    record key val (l ++ [e]) = (record key val l).insert (key e) (val e) := by
  rw [record, List.foldl_append]
  rfl

/-- Under distinct keys nothing is overwritten. -/
theorem record_get {l : List α} (h : (l.map key).Nodup) (k : κ) (v : υ) :
    (record key val l)[k]? = some v ↔ ∃ e ∈ l, key e = k ∧ val e = v := by
  induction l using List.reverseRecOn with
  | nil => simp [record]
  | append_singleton l e ih =>
    rw [List.map_append, List.map_singleton, List.nodup_append] at h
    obtain ⟨hl, -, hne⟩ := h
    rw [record_concat, get_insert]
    by_cases hk : k = key e
    · subst hk
      rw [if_pos rfl, Option.some.injEq]
      constructor
      · intro hv
        exact ⟨e, by simp, rfl, hv⟩
      · rintro ⟨x, hx, hkey, hval⟩
        rcases List.mem_append.mp hx with hx | hx
        · exact absurd hkey (hne _ (List.mem_map_of_mem hx) _ (by simp))
        · rw [List.mem_singleton.mp hx] at hval
          exact hval
    · rw [if_neg hk, ih hl]
      constructor
      · rintro ⟨x, hx, hkey, hval⟩
        exact ⟨x, List.mem_append_left _ hx, hkey, hval⟩
      · rintro ⟨x, hx, hkey, hval⟩
        rcases List.mem_append.mp hx with hx | hx
        · exact ⟨x, hx, hkey, hval⟩
        · rw [List.mem_singleton.mp hx] at hkey
          exact absurd hkey.symm hk

/-- The order does not matter. -/
theorem record_perm {l l' : List α} (hperm : l.Perm l') (h : (l.map key).Nodup) :
    record key val l = record key val l' := by
  refine ExtTreeMap.ext_getElem? fun k => Option.ext fun v => ?_
  rw [record_get h, record_get ((hperm.map key).nodup_iff.mp h)]
  simp only [hperm.mem_iff]

omit [LawfulEqOrd κ] [DecidableEq κ] in
theorem toList_nodup (t : BTreeMap κ υ) : t.toList.Nodup := by
  refine List.Nodup.of_map Prod.fst ?_
  rw [ExtTreeMap.map_fst_toList_eq_keys]
  exact ExtTreeMap.nodup_keys

/-- The entries are those of the list. -/
theorem toList_record {l : List α} (h : (l.map key).Nodup) :
    (record key val l).toList.Perm (l.map fun e => (key e, val e)) := by
  refine (List.perm_ext_iff_of_nodup (toList_nodup _) ?_).mpr fun ⟨k, v⟩ => ?_
  · refine List.Nodup.of_map Prod.fst ?_
    rw [List.map_map]
    exact h
  · rw [mem_toList_iff, record_get h, List.mem_map]
    simp only [Prod.mk.injEq]

/-- A map is the entry at a key and the map without it. -/
theorem toList_perm_erase {t : BTreeMap κ υ} {k : κ} {v : υ} (h : t[k]? = some v) :
    t.toList.Perm ((k, v) :: (t.erase k).toList) := by
  have hnot : (k, v) ∉ (t.erase k).toList := by
    rw [mem_toList_iff, get_erase, if_pos rfl]
    exact fun hnone => nomatch hnone
  refine (List.perm_ext_iff_of_nodup (toList_nodup t)
    (List.nodup_cons.mpr ⟨hnot, toList_nodup _⟩)).mpr fun ⟨a, w⟩ => ?_
  rw [List.mem_cons, mem_toList_iff, mem_toList_iff, get_erase, Prod.mk.injEq]
  by_cases ha : a = k
  · subst ha
    simp only [h, Option.some.injEq, true_and, if_true]
    exact ⟨fun hw => .inl hw.symm, fun hw => hw.elim Eq.symm fun hnone => nomatch hnone⟩
  · simp only [ha, false_and, false_or, if_false]

omit [DecidableEq κ] in
/-- The keys are sorted, so maps with the same keys list them alike. -/
theorem keys_eq {ω : Type} {s : BTreeMap κ υ} {t : BTreeMap κ ω}
    (h : ∀ k : κ, (s[k]?).isSome = (t[k]?).isSome) : s.keys = t.keys := by
  have hperm : s.keys.Perm t.keys := by
    refine (List.perm_ext_iff_of_nodup ExtTreeMap.nodup_keys ExtTreeMap.nodup_keys).mpr fun k => ?_
    rw [ExtTreeMap.mem_keys, ExtTreeMap.mem_keys, ExtTreeMap.mem_iff_isSome_getElem?,
      ExtTreeMap.mem_iff_isSome_getElem?, h]
  refine List.Perm.eq_of_pairwise (fun a b _ _ hab hba => ?_) ExtTreeMap.ordered_keys
    ExtTreeMap.ordered_keys hperm
  rw [← OrientedCmp.gt_iff_lt, hab] at hba
  exact nomatch hba

/-- The keys are the list's, overwritten or not. -/
theorem keySet_record (l : List α) : keySet (record key val l) = (l.map key).toFinset := by
  induction l using List.reverseRecOn with
  | nil => exact keySet_empty
  | append_singleton l e ih =>
    rw [record_concat, keySet_insert, ih, List.map_append, List.toFinset_append, List.map_singleton,
      List.toFinset_cons, List.toFinset_nil, Finset.union_comm, Finset.insert_eq]
    rfl

omit [DecidableEq κ] in
/-- In a list of entries ordered by key, a value stands behind those of the smaller keys. -/
theorem getElem?_of_ordered {l : List (κ × υ)} (h : l.Pairwise fun a b => compare a.1 b.1 = .lt)
    {k : κ} {v : υ} (hk : (k, v) ∈ l) :
    (l.map Prod.snd)[((l.map Prod.fst).filter fun i => compare i k = .lt).length]? = some v := by
  induction l with
  | nil => cases hk
  | cons e l ih =>
    obtain ⟨hhead, htail⟩ := List.pairwise_cons.mp h
    rcases List.mem_cons.mp hk with rfl | hk
    · have hnone : (l.map Prod.fst).filter (fun i => compare i k = .lt) = [] := by
        refine List.filter_eq_nil_iff.mpr fun i hi => ?_
        obtain ⟨a, ha, rfl⟩ := List.mem_map.mp hi
        have hlt := hhead a ha
        rw [← OrientedCmp.gt_iff_lt] at hlt
        simp [hlt]
      simp [hnone]
    · rw [List.map_cons, List.map_cons, List.filter_cons_of_pos (by simpa using hhead _ hk),
        List.length_cons, List.getElem?_cons_succ]
      exact ih htail hk

omit [DecidableEq κ] in
theorem values_getElem? {t : BTreeMap κ υ} {k : κ} {v : υ} (h : t[k]? = some v) :
    t.values[(t.keys.filter fun i => compare i k = .lt).length]? = some v := by
  rw [values_eq, ← ExtTreeMap.map_fst_toList_eq_keys]
  exact getElem?_of_ordered ExtTreeMap.ordered_keys_toList ((mem_toList_iff t k v).mpr h)

end BTreeMap
