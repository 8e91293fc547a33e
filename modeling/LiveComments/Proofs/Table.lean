import LiveComments.Table
import Mathlib.Data.List.Nodup

namespace LiveComments.Table

variable {κ α β : Type}

def Unique (t : Table κ α) : Prop := t.keys.Nodup

theorem unique_default : ({} : Table κ α).Unique := List.nodup_nil

theorem Unique.filter {t : Table κ α} (hu : t.Unique) (p : κ → α → Bool) : (t.filter p).Unique :=
  List.Nodup.sublist (List.Sublist.map _ List.filter_sublist) hu

theorem Unique.map {t : Table κ α} (hu : t.Unique) (f : κ → α → β) : (t.map f).Unique := by
  have hk : (t.map f).keys = t.keys := by simp [keys, Table.map]
  unfold Unique
  rw [hk]
  exact hu

variable [DecidableEq κ]

theorem Unique.erase {t : Table κ α} (hu : t.Unique) (k : κ) : (t.erase k).Unique :=
  List.Nodup.sublist (List.Sublist.map _ List.filter_sublist) hu

theorem mem_keys_put {es : List (κ × α)} {k j : κ} {v : α} :
    j ∈ (put k v es).map (·.1) ↔ j = k ∨ j ∈ es.map (·.1) := by
  induction es with
  | nil => simp [put]
  | cons e es ih =>
    rw [put]
    by_cases he : e.1 = k
    · rw [if_pos he, List.map_cons, List.map_cons, List.mem_cons, List.mem_cons, he]
      tauto
    · simp only [if_neg he, List.map_cons, List.mem_cons, ih]
      tauto

theorem Unique.insert {t : Table κ α} (hu : t.Unique) (k : κ) (v : α) : (t.insert k v).Unique := by
  obtain ⟨es⟩ := t
  simp only [Unique, keys, Table.insert] at hu ⊢
  induction es with
  | nil => simp [put]
  | cons e es ih =>
    simp only [List.map_cons, List.nodup_cons] at hu
    rw [put]
    by_cases he : e.1 = k
    · simp only [if_pos he, List.map_cons, List.nodup_cons]
      exact ⟨he ▸ hu.1, hu.2⟩
    · simp only [if_neg he, List.map_cons, List.nodup_cons, mem_keys_put, not_or]
      exact ⟨⟨he, hu.1⟩, ih hu.2⟩

theorem mem_of_get? {t : Table κ α} {k : κ} {v : α} (h : t.get? k = some v) :
    (k, v) ∈ t.entries := by
  obtain ⟨e, he, rfl⟩ := Option.map_eq_some_iff.mp h
  have hk : e.1 = k := by simpa using List.find?_some he
  exact hk ▸ List.mem_of_find?_eq_some he

theorem exists_get?_of_mem {t : Table κ α} {e : κ × α} (h : e ∈ t.entries) :
    ∃ v, t.get? e.1 = some v := by
  apply Option.isSome_iff_exists.mp
  rw [get?, Option.isSome_map, List.find?_isSome]
  exact ⟨e, h, decide_eq_true rfl⟩

theorem Unique.get?_eq_some {t : Table κ α} (hu : t.Unique) {k : κ} {v : α} :
    t.get? k = some v ↔ (k, v) ∈ t.entries := by
  refine ⟨mem_of_get?, fun h => ?_⟩
  obtain ⟨es⟩ := t
  simp only [Unique, keys] at hu
  simp only [get?] at h ⊢
  induction es with
  | nil => simp at h
  | cons e es ih =>
    simp only [List.map_cons, List.nodup_cons, List.mem_map, not_exists, not_and] at hu
    rw [List.find?_cons]
    rcases List.mem_cons.mp h with rfl | h
    · simp
    · have hk : e.1 ≠ k := fun hk => hu.1 (k, v) h hk.symm
      simpa [hk] using ih hu.2 h

theorem contains_iff {t : Table κ α} {k : κ} : t.contains k = true ↔ ∃ v, t.get? k = some v :=
  Option.isSome_iff_exists

@[simp] theorem get?_default (k : κ) : ({} : Table κ α).get? k = none := rfl

theorem get?_insert_self (t : Table κ α) (k : κ) (v : α) : (t.insert k v).get? k = some v :=
  (get?_insert t k k v).trans (if_pos rfl)

theorem insert_of_get? {t : Table κ α} {k : κ} {v : α} (h : t.get? k = some v) : t.insert k v = t := by
  obtain ⟨es⟩ := t
  simp only [get?, Table.insert, mk.injEq] at h ⊢
  induction es with
  | nil => simp at h
  | cons e es ih =>
    rw [put]
    by_cases he : e.1 = k
    · have hv : e.2 = v := by simpa [he] using h
      rw [if_pos he, ← he, ← hv]
    · rw [if_neg he, ih (by simpa [he] using h)]

theorem insert_insert (t : Table κ α) (k : κ) (v w : α) : (t.insert k v).insert k w = t.insert k w := by
  obtain ⟨es⟩ := t
  simp only [Table.insert, mk.injEq]
  induction es with
  | nil => simp [put]
  | cons e es ih => by_cases he : e.1 = k <;> simp [put, he, ih]

theorem erase_insert (t : Table κ α) (k : κ) (v : α) : (t.insert k v).erase k = t.erase k := by
  obtain ⟨es⟩ := t
  simp only [Table.insert, erase, mk.injEq]
  induction es with
  | nil => simp [put]
  | cons e es ih =>
    rw [put]
    by_cases he : e.1 = k
    · simp [he]
    · rw [if_neg he, List.filter_cons, List.filter_cons, ih]

theorem forall_insert {t : Table κ α} {P : κ → α → Prop} (h : ∀ k v, t.get? k = some v → P k v)
    {k : κ} {v : α} (hv : P k v) {j : κ} {w : α} (hw : (t.insert k v).get? j = some w) : P j w := by
  rw [get?_insert] at hw
  split at hw
  · rename_i hj
    cases hw
    exact hj ▸ hv
  · exact h j w hw

theorem forall_erase {t : Table κ α} {P : κ → α → Prop} (h : ∀ k v, t.get? k = some v → P k v)
    {k j : κ} {w : α} (hw : (t.erase k).get? j = some w) : P j w := by
  rw [get?_erase] at hw
  split at hw
  · cases hw
  · exact h j w hw

theorem get?_map (t : Table κ α) (f : κ → α → β) (k : κ) :
    (t.map f).get? k = (t.get? k).map (f k) := by
  obtain ⟨es⟩ := t
  simp only [get?, Table.map]
  induction es with
  | nil => rfl
  | cons e es ih =>
    by_cases he : e.1 = k
    · subst he; simp
    · simpa [he] using ih

theorem Unique.get?_filter {t : Table κ α} (hu : t.Unique) (p : κ → α → Bool) (k : κ) :
    (t.filter p).get? k = (t.get? k).filter (p k) := by
  apply Option.ext
  intro v
  rw [(hu.filter p).get?_eq_some, Option.filter_eq_some_iff, hu.get?_eq_some]
  simp [Table.filter]

theorem get?_cons (k j : κ) (v : α) (es : List (κ × α)) :
    get? ⟨(k, v) :: es⟩ j = if k = j then some v else get? ⟨es⟩ j := by
  by_cases hk : k = j <;> simp [get?, hk]

theorem erase_of_absent {t : Table κ α} {k : κ} (h : t.get? k = none) : t.erase k = t := by
  have hfilter : t.entries.filter (·.1 ≠ k) = t.entries := by
    rw [List.filter_eq_self]
    rintro ⟨j, v⟩ hj
    apply decide_eq_true
    rintro rfl
    obtain ⟨w, hw⟩ := exists_get?_of_mem hj
    rw [h] at hw
    cases hw
  rw [erase, hfilter]

theorem Unique.perm {t t' : Table κ α} (ht : t.Unique) (ht' : t'.Unique)
    (h : ∀ k, t.get? k = t'.get? k) : t.entries.Perm t'.entries := by
  have hnodup {t : Table κ α} (ht : t.Unique) : t.entries.Nodup := List.Nodup.of_map _ ht
  rw [List.perm_ext_iff_of_nodup (hnodup ht) (hnodup ht')]
  rintro ⟨k, v⟩
  rw [← ht.get?_eq_some, ← ht'.get?_eq_some, h]

theorem Unique.insert_perm {t : Table κ α} (ht : t.Unique) (k : κ) (v : α) :
    (t.insert k v).entries.Perm ((k, v) :: (t.erase k).entries) := by
  have hcons : Unique ⟨(k, v) :: (t.erase k).entries⟩ := by
    refine List.nodup_cons.mpr ⟨fun hk => ?_, ht.erase k⟩
    obtain ⟨e, he, rfl⟩ := List.mem_map.mp hk
    exact of_decide_eq_true (List.mem_filter.mp he).2 rfl
  apply (ht.insert k v).perm hcons
  intro j
  rw [get?_insert, get?_cons]
  split
  · rfl
  · rename_i hk
    exact ((get?_erase t k j).trans (if_neg hk)).symm

theorem Unique.perm_of_get? {t : Table κ α} (ht : t.Unique) {k : κ} {v : α} (h : t.get? k = some v) :
    t.entries.Perm ((k, v) :: (t.erase k).entries) := by
  have hperm := ht.insert_perm k v
  rwa [insert_of_get? h] at hperm

end LiveComments.Table
