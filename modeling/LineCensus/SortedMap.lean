/-!
# Maps in the order of their keys

Keys are texts, each of which occurs once, from the least to the greatest.
-/
namespace LineCensus

structure SortedMap (α : Type) where
  entries : List (String × α)
  ordered : entries.Pairwise fun a b => a.1 < b.1

namespace SortedMap

variable {α : Type}

def empty : SortedMap α := ⟨[], .nil⟩

instance : Inhabited (SortedMap α) := ⟨empty⟩

def keys (m : SortedMap α) : List String := m.entries.map Prod.fst

def values (m : SortedMap α) : List α := m.entries.map Prod.snd

def get? (m : SortedMap α) (key : String) : Option α := m.entries.lookup key

/-- Puts a value into entries that are in order. -/
def put (key : String) (value : α) : List (String × α) → List (String × α)
  | [] => [(key, value)]
  | e :: es =>
    if key < e.1 then (key, value) :: e :: es
    else if key = e.1 then (key, value) :: es
    else e :: put key value es

theorem mem_put {key : String} {value : α} {es : List (String × α)} {x : String × α}
    (h : x ∈ put key value es) : x = (key, value) ∨ x ∈ es := by
  induction es with
  | nil => simpa [put] using h
  | cons e es ih =>
    unfold put at h
    split at h
    · simpa using h
    · split at h
      · rcases List.mem_cons.1 h with h | h
        · exact .inl h
        · exact .inr (List.mem_cons_of_mem _ h)
      · rcases List.mem_cons.1 h with h | h
        · exact .inr (h ▸ List.mem_cons_self)
        · rcases ih h with h | h
          · exact .inl h
          · exact .inr (List.mem_cons_of_mem _ h)

theorem ordered_put {key : String} {value : α} {es : List (String × α)}
    (h : es.Pairwise fun a b => a.1 < b.1) :
    (put key value es).Pairwise fun a b => a.1 < b.1 := by
  induction es with
  | nil => simp [put]
  | cons e es ih =>
    obtain ⟨he, hes⟩ := List.pairwise_cons.1 h
    unfold put
    split
    · rename_i hk
      refine List.pairwise_cons.2 ⟨fun x hx => ?_, h⟩
      rcases List.mem_cons.1 hx with rfl | hx
      · exact hk
      · exact String.lt_trans hk (he x hx)
    · split
      · rename_i hk
        exact List.pairwise_cons.2 ⟨fun x hx => hk ▸ he x hx, hes⟩
      · rename_i hlt hne
        refine List.pairwise_cons.2 ⟨fun x hx => ?_, ih hes⟩
        rcases mem_put hx with rfl | hx
        · rcases String.le_total e.1 key with hle | hle
          · rcases Decidable.em (e.1 < key) with h' | h'
            · exact h'
            · exact absurd (String.le_antisymm (String.not_lt.1 h') hle) hne
          · exact absurd (String.le_antisymm hle (String.not_lt.1 hlt)) hne
        · exact he x hx

def insert (m : SortedMap α) (key : String) (value : α) : SortedMap α :=
  ⟨put key value m.entries, ordered_put m.ordered⟩

theorem lookup_put (key k : String) (value : α) (es : List (String × α)) :
    (put key value es).lookup k = if k = key then some value else es.lookup k := by
  have cons_eq : ∀ (a : String) (v : α) (l : List (String × α)),
      ((a, v) :: l).lookup k = if k = a then some v else l.lookup k := by
    intro a v l
    by_cases h : k = a
    · subst h; simp
    · simp [List.lookup_cons, h, beq_false_of_ne h]
  induction es with
  | nil => simp [put, cons_eq]
  | cons e es ih =>
    obtain ⟨a, v⟩ := e
    unfold put
    split
    · rw [cons_eq]
    · split
      · rename_i hk
        dsimp only at hk
        subst hk
        simp only [cons_eq]
        split <;> rfl
      · rename_i hk
        dsimp only at hk
        simp only [cons_eq, ih]
        by_cases h : k = a
        · have : ¬ k = key := fun h' => hk (h' ▸ h)
          simp [h, Ne.symm hk]
        · simp [h]

@[simp] theorem get?_insert (m : SortedMap α) (key k : String) (value : α) :
    (m.insert key value).get? k = if k = key then some value else m.get? k :=
  lookup_put key k value m.entries

/-- The entries are the keys that have a value, each with its value. -/
theorem mem_entries_iff {m : SortedMap α} {key : String} {value : α} :
    (key, value) ∈ m.entries ↔ m.get? key = some value := by
  rw [get?, List.lookup_eq_some_iff]
  constructor
  · intro h
    obtain ⟨before, behind, hsplit⟩ := List.append_of_mem h
    refine ⟨before, behind, hsplit, fun e he => ?_⟩
    -- a key in front of this one is smaller
    have hordered := m.ordered
    rw [hsplit] at hordered
    have hlt : e.1 < key := (List.pairwise_append.1 hordered).2.2 e he _ List.mem_cons_self
    have hne : key ≠ e.1 := by
      rintro rfl
      exact String.lt_irrefl _ hlt
    simpa using hne
  · rintro ⟨before, behind, hsplit, -⟩
    rw [hsplit]
    exact List.mem_append_right _ List.mem_cons_self

theorem mem_keys_iff {m : SortedMap α} {key : String} :
    key ∈ m.keys ↔ ∃ value, m.get? key = some value := by
  simp only [keys, List.mem_map, ← mem_entries_iff]
  constructor
  · rintro ⟨⟨_, value⟩, hmem, rfl⟩
    exact ⟨value, hmem⟩
  · rintro ⟨value, hmem⟩
    exact ⟨(key, value), hmem, rfl⟩

/-- Of a repeated key the last value counts. -/
def ofList (es : List (String × α)) : SortedMap α :=
  es.foldl (fun m e => m.insert e.1 e.2) empty

end SortedMap

end LineCensus
