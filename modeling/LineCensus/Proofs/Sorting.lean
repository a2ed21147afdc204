import Mathlib.Data.List.Nodup
import Mathlib.Data.String.Basic

/-!
# Sorting and grouping by a key

Where a text key tells all members of a list apart, there is one way to put them in the
order of their keys, whatever order they came in. Members that may stand in any order keep the
one they had. Grouped by their keys, the members of a list are the same as before.
-/
namespace LineCensus

variable {α : Type} {key : α → String} {xs ys : List α}

theorem key_le_trans (key : α → String) (a b c : α) (hab : decide (key a ≤ key b) = true)
    (hbc : decide (key b ≤ key c) = true) : decide (key a ≤ key c) = true := by
  rw [decide_eq_true_iff] at *
  exact String.le_trans hab hbc

theorem key_le_total (key : α → String) (a b : α) :
    (decide (key a ≤ key b) || decide (key b ≤ key a)) = true := by
  simpa using String.le_total (key a) (key b)

theorem pairwise_mergeSort_key (key : α → String) (xs : List α) :
    (xs.mergeSort fun a b => decide (key a ≤ key b)).Pairwise fun a b => key a ≤ key b :=
  (List.pairwise_mergeSort (key_le_trans key) (key_le_total key) xs).imp of_decide_eq_true

/-- What is in the order of its keys is what sorting makes of the same members. -/
theorem eq_mergeSort_of_perm (hkeys : (ys.map key).Nodup) (hperm : xs.Perm ys)
    (hsorted : xs.Pairwise fun a b => key a ≤ key b) :
    xs = ys.mergeSort fun a b => decide (key a ≤ key b) := by
  refine (hperm.trans (List.mergeSort_perm ys _).symm).eq_of_pairwise ?_ hsorted
    (pairwise_mergeSort_key key ys)
  intro a b ha hb hab hba
  rw [List.mem_mergeSort] at hb
  exact List.inj_on_of_nodup_map hkeys (hperm.mem_iff.1 ha) hb (String.le_antisymm hab hba)

theorem mergeSort_eq_of_perm (hkeys : (ys.map key).Nodup) (hperm : xs.Perm ys) :
    xs.mergeSort (fun a b => decide (key a ≤ key b)) =
      ys.mergeSort fun a b => decide (key a ≤ key b) :=
  eq_mergeSort_of_perm hkeys ((List.mergeSort_perm xs _).trans hperm)
    (pairwise_mergeSort_key key xs)

/-- With keys that differ, each one is below those that come after it. -/
theorem pairwise_lt_mergeSort (hkeys : (xs.map key).Nodup) :
    (xs.mergeSort fun a b => decide (key a ≤ key b)).Pairwise fun a b => key a < key b := by
  have hne : (xs.mergeSort fun a b => decide (key a ≤ key b)).Pairwise fun a b => key a ≠ key b :=
    List.pairwise_map.1 (((List.mergeSort_perm xs _).map key).nodup_iff.2 hkeys)
  exact ((pairwise_mergeSort_key key xs).and hne).imp fun h => lt_of_le_of_ne h.1 h.2

theorem mergeSort_eq_self_iff (hkeys : (xs.map key).Nodup) :
    xs.mergeSort (fun a b => decide (key a ≤ key b)) = xs ↔
      xs.Pairwise fun a b => key a < key b := by
  constructor
  · intro h
    rw [← h]
    exact pairwise_lt_mergeSort hkeys
  · exact fun h => (eq_mergeSort_of_perm hkeys (List.Perm.refl xs) (h.imp le_of_lt)).symm

/-- The first of the sorted members that passes is the first one of all, or it is below that
one. -/
theorem find?_eq_or_lt {p : α → Bool} (hperm : xs.Perm ys)
    (hsorted : ys.Pairwise fun a b => key a < key b) :
    xs.find? p = ys.find? p ∨
      ∃ a b, xs.find? p = some a ∧ ys.find? p = some b ∧ key b < key a := by
  cases hxs : xs.find? p with
  | none =>
    refine Or.inl (List.find?_eq_none.2 fun a ha => ?_).symm
    exact List.find?_eq_none.1 hxs a (hperm.mem_iff.2 ha)
  | some a =>
    have ha : a ∈ ys := hperm.mem_iff.1 (List.mem_of_find?_eq_some hxs)
    have hpass : p a = true := List.find?_some hxs
    obtain ⟨b, hys⟩ := Option.isSome_iff_exists.1 (List.find?_isSome.2 ⟨a, ha, hpass⟩)
    obtain ⟨-, front, back, rfl, hfront⟩ := List.find?_eq_some_iff_append.1 hys
    rcases List.mem_append.1 ha with hmem | hmem
    · exact absurd hpass (by simpa using hfront a hmem)
    · rcases List.mem_cons.1 hmem with rfl | hmem
      · exact Or.inl hys.symm
      · have hlt := List.rel_of_pairwise_cons (List.pairwise_append.1 hsorted).2.1 hmem
        exact Or.inr ⟨a, b, rfl, hys, hlt⟩

/-! ## Ties -/

section Ties

variable {le : α → α → Bool} (htrans : ∀ a b c, le a b = true → le b c = true → le a c = true)
  (htotal : ∀ a b, (le a b || le b a) = true)

include htrans htotal

/-- Sorting leaves members that may stand in any order as they stood. -/
theorem filter_mergeSort_of_ties {p : α → Bool}
    (hties : ∀ a b, p a = true → p b = true → le a b = true) (xs : List α) :
    (xs.mergeSort le).filter p = xs.filter p := by
  have hle : (xs.filter p).Pairwise fun a b => le a b = true :=
    List.pairwise_of_forall_mem_list fun a ha b hb =>
      hties a b (List.mem_filter.1 ha).2 (List.mem_filter.1 hb).2
  have hsub : (xs.filter p).Sublist (xs.mergeSort le) :=
    List.sublist_mergeSort htrans htotal hle List.filter_sublist
  have hfilter : (xs.filter p).Sublist ((xs.mergeSort le).filter p) := by
    simpa using hsub.filter p
  exact (hfilter.eq_of_length ((List.mergeSort_perm xs le).filter p).length_eq.symm).symm

/-- Of two sorted members that could change places, the first one was the first before. -/
theorem pairwise_mergeSort_of_ties (xs : List α) :
    (xs.mergeSort le).Pairwise fun a b => le a b = true ∧ (le b a = true → [a, b].Sublist xs) := by
  have hsorted : ∀ {a b : α}, [a, b].Sublist (xs.mergeSort le) → le a b = true :=
    List.pairwise_iff_forall_sublist.1 (List.pairwise_mergeSort htrans htotal xs)
  refine List.pairwise_iff_forall_sublist.2 fun {a b} hab => ⟨hsorted hab, fun hba => ?_⟩
  have hrefl : le a a = true := by simpa using htotal a a
  have hties : (xs.mergeSort le).filter (fun x => le a x && le x a) =
      xs.filter fun x => le a x && le x a := by
    refine filter_mergeSort_of_ties htrans htotal (fun x y hx hy => ?_) xs
    rw [Bool.and_eq_true] at hx hy
    exact htrans x a y hx.2 hy.1
  have hpair : [a, b].filter (fun x => le a x && le x a) = [a, b] := by
    simp [hrefl, hsorted hab, hba]
  have hkept := hab.filter fun x => le a x && le x a
  rw [hties, hpair] at hkept
  exact hkept.trans List.filter_sublist

end Ties

theorem filter_mergeSort_key (key : α → String) (k : String) (xs : List α) :
    (xs.mergeSort fun a b => decide (key a ≤ key b)).filter (key · = k) =
      xs.filter (key · = k) := by
  refine filter_mergeSort_of_ties (key_le_trans key) (key_le_total key) (fun a b ha hb => ?_) xs
  rw [decide_eq_true_iff] at *
  rw [ha, hb]

/-! ## Groups -/

/-- The groups of all keys that occur hold every member of a list once. -/
theorem flatMap_filter_perm {keys : List String} (hnodup : keys.Nodup)
    (hkeys : ∀ x ∈ xs, key x ∈ keys) :
    (keys.flatMap fun k => xs.filter (key · = k)).Perm xs := by
  induction keys generalizing xs with
  | nil =>
    rw [List.eq_nil_iff_forall_not_mem.2 fun x hx => List.not_mem_nil (hkeys x hx)]
    exact List.Perm.refl _
  | cons k keys ih =>
    obtain ⟨hk, hnodup⟩ := List.nodup_cons.1 hnodup
    -- the other groups are those of the members that are left
    have hrest : ∀ k' ∈ keys, xs.filter (key · = k') =
        (xs.filter fun x => !decide (key x = k)).filter (key · = k') := by
      intro k' hk'
      rw [List.filter_filter]
      refine List.filter_congr fun x _ => ?_
      have hne : k' ≠ k := fun h => hk (h ▸ hk')
      by_cases hx : key x = k' <;> simp [hx, hne]
    have hkeys' : ∀ x ∈ xs.filter (fun x => !decide (key x = k)), key x ∈ keys := by
      intro x hx
      obtain ⟨hmem, hne⟩ := List.mem_filter.1 hx
      exact (List.mem_cons.1 (hkeys x hmem)).resolve_left (by simpa using hne)
    rw [List.flatMap_cons, List.flatMap_congr hrest]
    exact ((ih hnodup hkeys').append_left _).trans (List.filter_append_perm _ xs)

end LineCensus
