/-!
# Maps in order of insertion

Keys are texts, each of which occurs once. A key keeps the place where it was first
put; putting it again only changes its value.
-/
namespace LineCensus

structure OrderedMap (α : Type) where
  entries : List (String × α)
  nodup_keys : (entries.map Prod.fst).Nodup

namespace OrderedMap

variable {α β : Type}

def empty : OrderedMap α := ⟨[], List.nodup_nil⟩

instance : Inhabited (OrderedMap α) := ⟨empty⟩

def keys (m : OrderedMap α) : List String := m.entries.map Prod.fst

def values (m : OrderedMap α) : List α := m.entries.map Prod.snd

def size (m : OrderedMap α) : Nat := m.entries.length

def get? (m : OrderedMap α) (key : String) : Option α := m.entries.lookup key

/-- Puts a value into a list of entries. -/
def put (key : String) (value : α) : List (String × α) → List (String × α)
  | [] => [(key, value)]
  | e :: es => if e.1 = key then (key, value) :: es else e :: put key value es

theorem keys_put (key : String) (value : α) (es : List (String × α)) :
    (put key value es).map Prod.fst =
      if key ∈ es.map Prod.fst then es.map Prod.fst else es.map Prod.fst ++ [key] := by
  induction es with
  | nil => simp [put]
  | cons e es ih =>
    by_cases he : e.1 = key
    · simp [put, he]
    · have he' : ¬ key = e.1 := fun h => he h.symm
      simp only [put, he, if_false, List.map_cons, ih, List.mem_cons, he', false_or]
      split <;> simp

theorem lookup_put (key k : String) (value : α) (es : List (String × α)) :
    (put key value es).lookup k = if k = key then some value else es.lookup k := by
  have cons_eq : ∀ (a : String) (v : α) (l : List (String × α)),
      ((a, v) :: l).lookup k = if k = a then some v else l.lookup k := by
    intro a v l
    by_cases h : k = a
    · subst h; simp
    · simp [List.lookup_cons, h, beq_false_of_ne h]
  induction es with
  | nil => simp [put, cons_eq]
  | cons e es ih =>
    obtain ⟨a, v⟩ := e
    by_cases ha : a = key
    · subst ha
      simp only [put, if_true, cons_eq]
      split <;> rfl
    · simp only [put, ha, if_false, cons_eq, ih]
      by_cases hk : k = a
      · have : ¬ k = key := fun h => ha (hk ▸ h)
        simp [hk, ha]
      · simp [hk]

def insert (m : OrderedMap α) (key : String) (value : α) : OrderedMap α :=
  ⟨put key value m.entries, by
    rw [keys_put]
    split
    · exact m.nodup_keys
    · rename_i h
      refine List.nodup_append.2 ⟨m.nodup_keys, by simp, ?_⟩
      intro a ha b hb
      simp only [List.mem_singleton] at hb
      exact fun hab => h (hb ▸ hab ▸ ha)⟩

theorem keys_insert (m : OrderedMap α) (key : String) (value : α) :
    (m.insert key value).keys = if key ∈ m.keys then m.keys else m.keys ++ [key] :=
  keys_put key value m.entries

@[simp] theorem get?_insert (m : OrderedMap α) (key k : String) (value : α) :
    (m.insert key value).get? k = if k = key then some value else m.get? k :=
  lookup_put key k value m.entries

/-- Puts every entry of a list, the first one first. -/
def insertAll (m : OrderedMap α) (es : List (String × α)) : OrderedMap α :=
  es.foldl (fun m e => m.insert e.1 e.2) m

@[simp] theorem insertAll_nil (m : OrderedMap α) : m.insertAll [] = m := rfl

@[simp] theorem insertAll_cons (m : OrderedMap α) (e : String × α) (es : List (String × α)) :
    m.insertAll (e :: es) = (m.insert e.1 e.2).insertAll es := rfl

/-- A repeated key keeps its first place and takes its last value. -/
def ofList (es : List (String × α)) : OrderedMap α := empty.insertAll es

/-- The entries of `n` on top of those of `m`. -/
def extend (m n : OrderedMap α) : OrderedMap α := m.insertAll n.entries

/-- Changes the values and keeps the keys. -/
def mapWithKey (m : OrderedMap α) (f : String → α → β) : OrderedMap β :=
  ⟨m.entries.map fun e => (e.1, f e.1 e.2), by
    simpa [List.map_map, Function.comp_def] using m.nodup_keys⟩

@[simp] theorem keys_mapWithKey (m : OrderedMap α) (f : String → α → β) :
    (m.mapWithKey f).keys = m.keys := by
  simp [keys, mapWithKey, List.map_map, Function.comp_def]

end OrderedMap

end LineCensus
