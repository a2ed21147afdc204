import LineCensus.OrderedMap
import Mathlib.Data.List.Forall2
import Mathlib.Data.List.Induction

/-!
# Maps put on top of each other

Entries that are put into a map keep the order of its keys, add their new keys in their own
order, and have the word on every key that they hold. A map is told by its keys in their
order and by what it has for each; so it does not matter which of three maps, put on top of
each other, are joined first.
-/
namespace LineCensus.OrderedMap

variable {α : Type}

theorem lookup_cons_eq_ite {κ : Type} [BEq κ] [LawfulBEq κ] [DecidableEq κ] (e : κ × α)
    (es : List (κ × α)) (k : κ) :
    (e :: es).lookup k = if k = e.1 then some e.2 else es.lookup k := by
  by_cases hk : k = e.1
  · rw [List.lookup_cons, beq_iff_eq.2 hk, if_pos hk]
  · rw [List.lookup_cons, beq_false_of_ne hk, if_neg hk]

theorem lookup_eq_none_of_not_mem {κ : Type} [BEq κ] [LawfulBEq κ] {k : κ} {es : List (κ × α)}
    (h : k ∉ es.map Prod.fst) : es.lookup k = none := by
  refine List.lookup_eq_none_iff.2 fun e he => ?_
  have hne : k ≠ e.1 := fun heq => h (heq ▸ List.mem_map_of_mem he)
  simpa using hne

theorem keys_insertAll {es : List (String × α)} (h : (es.map Prod.fst).Nodup)
    (m : OrderedMap α) :
    (m.insertAll es).keys = m.keys ++ (es.map Prod.fst).filter (· ∉ m.keys) := by
  induction es generalizing m with
  | nil => simp
  | cons e es ih =>
    obtain ⟨he, hes⟩ := List.nodup_cons.1 h
    rw [insertAll_cons, ih hes, keys_insert, List.map_cons]
    by_cases hm : e.1 ∈ m.keys
    · rw [if_pos hm, List.filter_cons_of_neg (by simpa using hm)]
    · have hrest : ∀ k ∈ es.map Prod.fst, k ≠ e.1 := fun k hk heq => he (heq ▸ hk)
      rw [if_neg hm, List.filter_cons_of_pos (by simpa using hm), List.append_assoc,
        List.singleton_append]
      congr 2
      refine List.filter_congr fun k hk => ?_
      simp [hrest k hk]

theorem get?_insertAll {es : List (String × α)} (h : (es.map Prod.fst).Nodup)
    (m : OrderedMap α) (k : String) :
    (m.insertAll es).get? k = (es.lookup k).or (m.get? k) := by
  induction es generalizing m with
  | nil => rfl
  | cons e es ih =>
    obtain ⟨he, hes⟩ := List.nodup_cons.1 h
    rw [insertAll_cons, ih hes, get?_insert, lookup_cons_eq_ite]
    by_cases hk : k = e.1
    · simp [hk, lookup_eq_none_of_not_mem he]
    · simp [hk]

theorem keys_extend (m n : OrderedMap α) :
    (m.extend n).keys = m.keys ++ n.keys.filter (· ∉ m.keys) :=
  keys_insertAll n.nodup_keys m

theorem get?_extend (m n : OrderedMap α) (k : String) :
    (m.extend n).get? k = (n.get? k).or (m.get? k) :=
  get?_insertAll n.nodup_keys m k

theorem get?_mapWithKey {β : Type} (m : OrderedMap α) (f : String → α → β) (k : String) :
    (m.mapWithKey f).get? k = (m.get? k).map (f k) := by
  have hlookup : ∀ es : List (String × α),
      (es.map fun e => (e.1, f e.1 e.2)).lookup k = (es.lookup k).map (f k) := by
    intro es
    induction es with
    | nil => rfl
    | cons e es ih =>
      rw [List.map_cons, lookup_cons_eq_ite, lookup_cons_eq_ite, ih]
      by_cases hk : k = e.1 <;> simp [hk]
  exact hlookup m.entries

/-! ## Maps with the same keys and values -/

theorem mem_of_lookup_eq_some {κ : Type} [BEq κ] [LawfulBEq κ] {es : List (κ × α)} {k : κ} {v : α}
    (h : es.lookup k = some v) : (k, v) ∈ es := by
  obtain ⟨front, back, hsplit, -⟩ := List.lookup_eq_some_iff.1 h
  rw [hsplit]
  exact List.mem_append_right _ List.mem_cons_self

theorem exists_lookup_eq_some_iff {es : List (String × α)} {k : String} :
    (∃ v, es.lookup k = some v) ↔ k ∈ es.map Prod.fst := by
  induction es with
  | nil => simp
  | cons e es ih =>
    rw [lookup_cons_eq_ite, List.map_cons, List.mem_cons, ← ih]
    by_cases hk : k = e.1 <;> simp [hk]

/-- Where each key occurs once, an entry is what is found under its key. -/
theorem mem_iff_lookup_eq_some {κ : Type} [BEq κ] [LawfulBEq κ] {es : List (κ × α)}
    (h : (es.map Prod.fst).Nodup) {e : κ × α} : e ∈ es ↔ es.lookup e.1 = some e.2 := by
  refine ⟨fun hmem => ?_, mem_of_lookup_eq_some⟩
  obtain ⟨front, back, hsplit⟩ := List.append_of_mem hmem
  refine List.lookup_eq_some_iff.2 ⟨front, back, hsplit, fun x hx => ?_⟩
  rw [hsplit, List.map_append, List.map_cons] at h
  have hne : x.1 ≠ e.1 := (List.nodup_append.1 h).2.2 x.1 (List.mem_map_of_mem hx) e.1
    List.mem_cons_self
  simpa using hne.symm

/-- The entries are the keys that have a value, each with its value. -/
theorem mem_entries_iff {m : OrderedMap α} {e : String × α} :
    e ∈ m.entries ↔ m.get? e.1 = some e.2 :=
  mem_iff_lookup_eq_some m.nodup_keys

theorem entries_eq_filterMap (m : OrderedMap α) :
    m.entries = m.keys.filterMap fun k => (m.get? k).map (k, ·) := by
  rw [keys, List.filterMap_map]
  refine ((List.filterMap_congr fun e he => ?_).trans List.filterMap_some).symm
  rw [Function.comp_apply, mem_entries_iff.1 he, Option.map_some]

theorem eq_of_entries_eq {m n : OrderedMap α} (h : m.entries = n.entries) : m = n := by
  cases m
  congr

/-- Maps with the same keys in the same order that have the same for each are the same. -/
theorem eq_of_get?_eq {m n : OrderedMap α} (hkeys : m.keys = n.keys)
    (hget : ∀ k, m.get? k = n.get? k) : m = n := by
  refine eq_of_entries_eq ?_
  rw [entries_eq_filterMap, entries_eq_filterMap, hkeys]
  simp only [hget]

/-! ## New keys -/

theorem put_of_not_mem {key : String} {value : α} {es : List (String × α)}
    (h : key ∉ es.map Prod.fst) : put key value es = es ++ [(key, value)] := by
  induction es with
  | nil => rfl
  | cons e es ih =>
    rw [List.map_cons, List.mem_cons, not_or] at h
    rw [put, if_neg (Ne.symm h.1), ih h.2, List.cons_append]

/-- Entries under keys that a map does not have come behind those that it has. -/
theorem entries_insertAll {es : List (String × α)} {m : OrderedMap α}
    (h : (m.keys ++ es.map Prod.fst).Nodup) : (m.insertAll es).entries = m.entries ++ es := by
  induction es generalizing m with
  | nil => simp
  | cons e es ih =>
    have hnew : e.1 ∉ m.keys := fun hmem =>
      (List.nodup_append.1 h).2.2 e.1 hmem e.1 List.mem_cons_self rfl
    have hkeys : (m.insert e.1 e.2).keys = m.keys ++ [e.1] := by
      rw [keys_insert, if_neg hnew]
    have hentries : (m.insert e.1 e.2).entries = m.entries ++ [e] := put_of_not_mem hnew
    rw [List.map_cons, List.append_cons, ← hkeys] at h
    rw [insertAll_cons, ih h, hentries, List.append_assoc, List.singleton_append]

theorem entries_extend {m n : OrderedMap α} (h : ∀ k ∈ n.keys, k ∉ m.keys) :
    (m.extend n).entries = m.entries ++ n.entries := by
  refine entries_insertAll (List.nodup_append.2 ⟨m.nodup_keys, n.nodup_keys, ?_⟩)
  rintro k hm _ hn rfl
  exact h k hn hm

/-- Entries under keys that differ are all in the map that is made of them, in their order. -/
theorem ofList_eq {es : List (String × α)} (h : (es.map Prod.fst).Nodup) : ofList es = ⟨es, h⟩ :=
  eq_of_entries_eq (entries_insertAll h)

/-! ## Repeated keys -/

theorem eraseDups_concat (ks : List String) (k : String) :
    (ks ++ [k]).eraseDups = if k ∈ ks then ks.eraseDups else ks.eraseDups ++ [k] := by
  have hnew : [k].removeAll ks = if k ∈ ks then [] else [k] := by
    rw [List.removeAll, List.filter_singleton]
    simp
  rw [List.eraseDups_append, hnew]
  split <;> simp [List.eraseDups_cons]

theorem ofList_concat (es : List (String × α)) (e : String × α) :
    ofList (es ++ [e]) = (ofList es).insert e.1 e.2 :=
  List.foldl_append

/-- A repeated key keeps its first place. -/
theorem keys_ofList (es : List (String × α)) :
    (ofList es).keys = (es.map Prod.fst).eraseDups := by
  induction es using List.reverseRecOn with
  | nil => rfl
  | append_singleton es e ih =>
    rw [ofList_concat, keys_insert, ih, List.map_append, List.map_singleton, eraseDups_concat]
    simp only [List.mem_eraseDups]

/-- A repeated key takes its last value. -/
theorem get?_ofList (es : List (String × α)) (k : String) :
    (ofList es).get? k = es.reverse.lookup k := by
  induction es using List.reverseRecOn with
  | nil => rfl
  | append_singleton es e ih =>
    rw [ofList_concat, get?_insert, ih, List.reverse_append, List.reverse_singleton,
      List.singleton_append, lookup_cons_eq_ite]

theorem mem_of_mem_ofList {es : List (String × α)} {e : String × α} (h : e ∈ (ofList es).entries) :
    e ∈ es := by
  rw [mem_entries_iff, get?_ofList] at h
  exact List.mem_reverse.1 (mem_of_lookup_eq_some h)

theorem map_fst_eq_of_forall₂ {β : Type} {R : String × α → String × β → Prop}
    {es : List (String × α)} {fs : List (String × β)}
    (h : List.Forall₂ (fun e f => f.1 = e.1 ∧ R e f) es fs) :
    fs.map Prod.fst = es.map Prod.fst := by
  induction h with
  | nil => rfl
  | cons hhead _ ih => rw [List.map_cons, List.map_cons, hhead.1, ih]

theorem forall₂_put {β : Type} {R : α → β → Prop} {key : String} {v : α} {w : β} (hR : R v w)
    {es : List (String × α)} {fs : List (String × β)}
    (h : List.Forall₂ (fun e f => f.1 = e.1 ∧ R e.2 f.2) es fs) :
    List.Forall₂ (fun e f => f.1 = e.1 ∧ R e.2 f.2) (put key v es) (put key w fs) := by
  induction h with
  | nil => exact .cons ⟨rfl, hR⟩ .nil
  | @cons e f es fs hhead htail ih =>
    rw [put, put, hhead.1]
    split_ifs
    · exact .cons ⟨rfl, hR⟩ htail
    · exact .cons hhead ih

theorem forall₂_insertAll {β : Type} {R : α → β → Prop} {es : List (String × α)}
    {fs : List (String × β)} (h : List.Forall₂ (fun e f => f.1 = e.1 ∧ R e.2 f.2) es fs)
    {m : OrderedMap α} {n : OrderedMap β}
    (hmn : List.Forall₂ (fun e f => f.1 = e.1 ∧ R e.2 f.2) m.entries n.entries) :
    List.Forall₂ (fun e f => f.1 = e.1 ∧ R e.2 f.2) (m.insertAll es).entries
      (n.insertAll fs).entries := by
  induction h generalizing m n with
  | nil => exact hmn
  | @cons e f es fs hhead htail ih =>
    rw [insertAll_cons, insertAll_cons, hhead.1]
    exact ih (forall₂_put hhead.2 hmn)

/-- Maps that are made of the same keys with related values have them in the same places. -/
theorem forall₂_ofList {β : Type} {R : α → β → Prop} {es : List (String × α)}
    {fs : List (String × β)} (h : List.Forall₂ (fun e f => f.1 = e.1 ∧ R e.2 f.2) es fs) :
    List.Forall₂ (fun e f => f.1 = e.1 ∧ R e.2 f.2) (ofList es).entries (ofList fs).entries :=
  forall₂_insertAll h (m := empty) (n := empty) .nil

/-! ## Maps on top of maps -/

/-- Of three maps on top of each other it does not matter which two are joined first. -/
theorem extend_extend (m n k : OrderedMap α) :
    (m.extend n).extend k = m.extend (n.extend k) := by
  refine eq_of_get?_eq ?_ fun key => ?_
  · have hmem : ∀ key,
        key ∉ m.keys ++ n.keys.filter (· ∉ m.keys) ↔ key ∉ n.keys ∧ key ∉ m.keys := by
      intro key
      simp only [List.mem_append, List.mem_filter, decide_eq_true_eq, not_or, not_and, not_not]
      tauto
    simp only [keys_extend, List.filter_append, List.filter_filter, List.append_assoc, hmem]
    congr 3
    funext key
    simp [Bool.and_comm]
  · simp only [get?_extend, Option.or_assoc]

theorem mapWithKey_extend {β : Type} (m n : OrderedMap α) (f : String → α → β) :
    (m.extend n).mapWithKey f = (m.mapWithKey f).extend (n.mapWithKey f) := by
  refine eq_of_get?_eq ?_ fun k => ?_
  · simp only [keys_extend, keys_mapWithKey]
  · simp only [get?_extend, get?_mapWithKey, Option.map_or]

theorem mem_entries_extend {m n : OrderedMap α} {e : String × α} (h : e ∈ (m.extend n).entries) :
    e ∈ n.entries ∨ e ∈ m.entries := by
  rw [mem_entries_iff, get?_extend, Option.or_eq_some_iff] at h
  exact h.imp mem_entries_iff.2 fun h => mem_entries_iff.2 h.2

end LineCensus.OrderedMap
