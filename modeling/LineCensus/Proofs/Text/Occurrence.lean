import LineCensus.Text.Columns
import Mathlib.Data.List.Infix

/-!
# First occurrences

A token cuts a text at the place where it first begins, and so does the earliest of
several tokens. The searches by byte column come down to these cuts: a search from a
column is a cut of the text ahead of it, with the column of that text added.
-/
namespace LineCensus.Text

/-- The text before and behind the first occurrence of a token. -/
def cut (token : List Char) : List Char → Option (List Char × List Char)
  | [] => if token.isEmpty then some ([], []) else none
  | c :: s =>
    if token.isPrefixOf (c :: s) then some ([], (c :: s).drop token.length)
    else (cut token s).map fun p => (c :: p.1, p.2)

theorem eq_append_of_cut {token s before rest : List Char}
    (h : cut token s = some (before, rest)) : s = before ++ token ++ rest := by
  induction s generalizing before with
  | nil =>
    simp only [cut] at h
    split at h
    · cases h; simp_all
    · cases h
  | cons c s ih =>
    simp only [cut] at h
    split at h
    · rename_i hp
      obtain ⟨t, ht⟩ := List.isPrefixOf_iff_prefix.1 hp
      cases h
      rw [List.nil_append, ← ht, List.drop_left]
    · obtain ⟨p, hp, he⟩ := Option.map_eq_some_iff.1 h
      cases he
      simpa using ih hp

theorem length_of_cut {token s before rest : List Char}
    (h : cut token s = some (before, rest)) :
    s.length = before.length + token.length + rest.length := by
  simp [eq_append_of_cut h, Nat.add_assoc]

/-- A text that holds a token is cut there, or further to the front. -/
theorem exists_cut (token q r : List Char) :
    ∃ before rest, cut token (q ++ token ++ r) = some (before, rest) ∧
      before.length ≤ q.length := by
  induction q with
  | nil =>
    cases hs : [] ++ token ++ r with
    | nil =>
      have ht : token = [] := by simp_all
      exact ⟨[], [], by simp [cut, ht], Nat.le_refl _⟩
    | cons c s =>
      have hp : token.isPrefixOf (c :: s) = true :=
        List.isPrefixOf_iff_prefix.2 ⟨r, by simpa using hs⟩
      exact ⟨[], _, by rw [cut, if_pos hp], Nat.le_refl _⟩
  | cons c q ih =>
    obtain ⟨before, rest, hcut, hle⟩ := ih
    by_cases hp : token.isPrefixOf (c :: (q ++ token ++ r)) = true
    · exact ⟨[], _, by rw [List.cons_append, List.cons_append, cut, if_pos hp], by simp⟩
    · refine ⟨c :: before, rest, ?_, by simpa using hle⟩
      rw [List.cons_append, List.cons_append, cut, if_neg hp, hcut]
      rfl

/-- Only a text that holds the token is cut. -/
theorem cut_eq_none_iff {token s : List Char} : cut token s = none ↔ ¬ token <:+: s := by
  constructor
  · rintro h ⟨q, r, rfl⟩
    obtain ⟨before, rest, hcut, -⟩ := exists_cut token q r
    cases h.symm.trans hcut
  · intro h
    cases hcut : cut token s with
    | none => rfl
    | some p => exact absurd ⟨p.1, p.2, (eq_append_of_cut hcut).symm⟩ h

/-- A cut is made at the first place where the token begins. -/
theorem cut_eq_some_iff {token s before rest : List Char} :
    cut token s = some (before, rest) ↔
      s = before ++ token ++ rest ∧ ∀ q, q ++ token <+: s → before.length ≤ q.length := by
  constructor
  · intro h
    refine ⟨eq_append_of_cut h, ?_⟩
    rintro q ⟨r, rfl⟩
    obtain ⟨b, t, hb, hle⟩ := exists_cut token q r
    cases h.symm.trans hb
    exact hle
  · rintro ⟨rfl, hfirst⟩
    obtain ⟨b, t, hb, hle⟩ := exists_cut token before rest
    have hsplit := eq_append_of_cut hb
    have hge : before.length ≤ b.length := hfirst b ⟨t, hsplit.symm⟩
    have hlen : before.length = b.length := by omega
    simp only [List.append_assoc] at hsplit
    obtain ⟨rfl, htail⟩ := List.append_inj hsplit hlen
    rw [hb, List.append_cancel_left htail]

/-! ## The earliest of several tokens -/

section Earliest

variable {α : Type*} (token : α → List Char)

/-- The first of a list whose token is not empty and begins the text. -/
def beginning? (xs : List α) (s : List Char) : Option α :=
  xs.find? fun x => !(token x).isEmpty && (token x).isPrefixOf s

/-- The text before the earliest token that is not empty, the one to which the token
belongs, and the text behind it. Of the tokens at one place the first of the list is
taken. -/
def earliest? (xs : List α) : List Char → Option (List Char × α × List Char)
  | [] => none
  | c :: s =>
    match beginning? token xs (c :: s) with
    | some x => some ([], x, (c :: s).drop (token x).length)
    | none => (earliest? xs s).map fun p => (c :: p.1, p.2)

variable {token}

theorem beginning?_eq_some {xs : List α} {s : List Char} {x : α}
    (h : beginning? token xs s = some x) : x ∈ xs ∧ token x ≠ [] ∧ token x <+: s := by
  have hb := List.find?_some h
  simp only [Bool.and_eq_true, Bool.not_eq_true', List.isEmpty_eq_false_iff] at hb
  exact ⟨List.mem_of_find?_eq_some h, hb.1, List.isPrefixOf_iff_prefix.1 hb.2⟩

theorem isSome_beginning? {xs : List α} {s : List Char} :
    (beginning? token xs s).isSome ↔ ∃ x ∈ xs, token x ≠ [] ∧ token x <+: s := by
  simp [beginning?]

theorem beginning?_cons (x : α) (xs : List α) (s : List Char) :
    beginning? token (x :: xs) s =
      if token x ≠ [] ∧ token x <+: s then some x else beginning? token xs s := by
  by_cases h : token x ≠ [] ∧ token x <+: s
  · rw [if_pos h]
    exact List.find?_cons_of_pos (by simpa using h)
  · rw [if_neg h]
    exact List.find?_cons_of_neg (by simpa using h)

theorem earliest?_eq_some {xs : List α} {s before rest : List Char} {x : α}
    (h : earliest? token xs s = some (before, x, rest)) :
    x ∈ xs ∧ token x ≠ [] ∧ s = before ++ token x ++ rest := by
  induction s generalizing before with
  | nil => cases h
  | cons c s ih =>
    rw [earliest?] at h
    split at h
    · rename_i y hy
      cases h
      obtain ⟨hmem, hne, t, ht⟩ := beginning?_eq_some hy
      exact ⟨hmem, hne, by rw [List.nil_append, ← ht, List.drop_left]⟩
    · obtain ⟨⟨b, y, r⟩, hp, he⟩ := Option.map_eq_some_iff.1 h
      cases he
      obtain ⟨hmem, hne, rfl⟩ := ih hp
      exact ⟨hmem, hne, by simp⟩

theorem length_of_earliest? {xs : List α} {s before rest : List Char} {x : α}
    (h : earliest? token xs s = some (before, x, rest)) : rest.length < s.length := by
  obtain ⟨-, hne, rfl⟩ := earliest?_eq_some h
  have := List.length_pos_iff.2 hne
  simp only [List.length_append]
  omega

@[simp] theorem earliest?_nil (s : List Char) : earliest? token [] s = none := by
  induction s with
  | nil => rfl
  | cons c s ih => simp [earliest?, beginning?, ih]

/-- The earliest of some tokens is the first of them or the earliest of the others,
whichever comes sooner; at one place it is the first. -/
theorem earliest?_cons {x : α} (hx : token x ≠ []) (xs : List α) (s : List Char) :
    earliest? token (x :: xs) s =
      match cut (token x) s, earliest? token xs s with
      | none, later => later
      | some p, none => some (p.1, x, p.2)
      | some p, some q =>
        if byteLength p.1 ≤ byteLength q.1 then some (p.1, x, p.2) else some q := by
  induction s with
  | nil => simp [earliest?, cut, hx]
  | cons c s ih =>
    rw [earliest?, beginning?_cons]
    by_cases hp : token x <+: c :: s
    · -- the first token begins here, and nothing begins sooner
      rw [if_pos ⟨hx, hp⟩, cut, if_pos (List.isPrefixOf_iff_prefix.2 hp)]
      cases earliest? token xs (c :: s) <;> simp
    · rw [if_neg (fun h => hp h.2), cut, if_neg (fun h => hp (List.isPrefixOf_iff_prefix.1 h)),
        ih, earliest?]
      cases hb : beginning? token xs (c :: s) with
      | some y =>
        -- another token begins here, and the first one later, if at all
        have hc := c.utf8Size_pos
        cases cut (token x) s with
        | none => rfl
        | some p =>
          simp only [Option.map_some, byteLength_cons, byteLength_nil]
          rw [if_neg (by omega)]
      | none =>
        cases cut (token x) s with
        | none => rfl
        | some p =>
          cases earliest? token xs s with
          | none => rfl
          | some q =>
            simp only [Option.map_some, byteLength_cons, Nat.add_le_add_iff_left]
            split <;> rfl

/-- No text stands before the earliest token exactly when a token begins the text. -/
theorem earliest?_head {xs : List α} {s : List Char} :
    (∃ x rest, earliest? token xs s = some ([], x, rest)) ↔
      ∃ x ∈ xs, token x ≠ [] ∧ token x <+: s := by
  constructor
  · rintro ⟨x, rest, h⟩
    obtain ⟨hmem, hne, rfl⟩ := earliest?_eq_some h
    exact ⟨x, hmem, hne, by simp⟩
  · intro h
    obtain ⟨y, hy⟩ := Option.isSome_iff_exists.1 (isSome_beginning?.2 h)
    obtain ⟨c, s, rfl⟩ : ∃ c t, s = c :: t := by
      obtain ⟨-, hne, hp⟩ := beginning?_eq_some hy
      exact List.exists_cons_of_ne_nil (by rintro rfl; exact hne (List.prefix_nil.1 hp))
    exact ⟨y, _, by rw [earliest?, hy]⟩

section FilterMap

variable {β : Type*} {token' : β → List Char} {f : α → Option β}

theorem beginning?_filterMap (hnone : ∀ x, f x = none → token x = [])
    (hsome : ∀ x y, f x = some y → token' y = token x) (xs : List α) (s : List Char) :
    beginning? token' (xs.filterMap f) s = (beginning? token xs s).bind f := by
  induction xs with
  | nil => rfl
  | cons x xs ih =>
    rw [beginning?_cons]
    cases hf : f x with
    | none =>
      rw [List.filterMap_cons_none hf, ih, if_neg (fun h => h.1 (hnone x hf))]
    | some y =>
      rw [List.filterMap_cons_some hf, beginning?_cons, hsome x y hf, ih]
      split
      · exact hf.symm
      · rfl

/-- Leaving out what has an empty token and renaming the rest does not change the
earliest token. -/
theorem earliest?_filterMap (hnone : ∀ x, f x = none → token x = [])
    (hsome : ∀ x y, f x = some y → token' y = token x) (xs : List α) (s : List Char) :
    earliest? token' (xs.filterMap f) s =
      (earliest? token xs s).bind fun p => (f p.2.1).map fun y => (p.1, y, p.2.2) := by
  induction s with
  | nil => rfl
  | cons c s ih =>
    rw [earliest?, earliest?, beginning?_filterMap hnone hsome, ih]
    cases hb : beginning? token xs (c :: s) with
    | some x =>
      cases hf : f x with
      | none => exact absurd (hnone x hf) (beginning?_eq_some hb).2.1
      | some y => simp [hf, hsome x y hf]
    | none =>
      cases earliest? token xs s with
      | none => rfl
      | some p => cases hf : f p.2.1 <;> simp [hf]

end FilterMap

end Earliest

/-! ## Columns -/

@[simp] theorem byteLength_eq_zero {s : List Char} : byteLength s = 0 ↔ s = [] := by
  constructor
  · intro h
    by_contra hne
    have := byteLength_pos hne
    omega
  · rintro rfl
    rfl

theorem occurrenceAt_eq (needle : List Char) (here : Nat) (s : List Char) :
    occurrenceAt needle here s = (cut needle s).map fun p => here + byteLength p.1 := by
  induction s generalizing here with
  | nil => simp only [occurrenceAt, cut]; split <;> simp
  | cons c s ih =>
    simp only [occurrenceAt, cut]
    split
    · simp
    · rw [ih, Option.map_map]
      congr 1
      funext p
      simp [Nat.add_assoc]

theorem seek_of_le {column here : Nat} (h : column ≤ here) (s : List Char) :
    seek column here s = (here, s) := by
  cases s <;> simp [seek, h]

/-- A column behind a beginning of the text is sought behind it. -/
theorem seek_append (q s : List Char) (here j : Nat) :
    seek (here + byteLength q + j) here (q ++ s) =
      seek (here + byteLength q + j) (here + byteLength q) s := by
  induction q generalizing here with
  | nil => simp
  | cons c q ih =>
    have hc := c.utf8Size_pos
    have hlt : ¬ here + byteLength (c :: q) + j ≤ here := by simp; omega
    have hsum : here + byteLength (c :: q) + j = here + c.utf8Size + byteLength q + j := by
      simp; omega
    rw [List.cons_append, seek, if_neg hlt, hsum, ih (here + c.utf8Size)]
    simp [Nat.add_assoc]

/-- Where a text starts does not matter to a search in it. -/
theorem seek_add (d column here : ℕ) (s : List Char) :
    seek (d + column) (d + here) s = (d + (seek column here s).1, (seek column here s).2) := by
  induction s generalizing here with
  | nil => rfl
  | cons c s ih =>
    rw [seek, seek]
    by_cases h : column ≤ here
    · rw [if_pos h, if_pos (by omega)]
    · rw [if_neg h, if_neg (by omega), Nat.add_assoc, ih]

/-- A column further on may be sought from an earlier one. -/
theorem seek_seek {column column' : ℕ} (h : column ≤ column') (here : ℕ) (s : List Char) :
    seek column' (seek column here s).1 (seek column here s).2 = seek column' here s := by
  induction s generalizing here with
  | nil => rfl
  | cons c s ih =>
    rw [seek]
    by_cases hle : column ≤ here
    · rw [if_pos hle]
    · rw [if_neg hle, ih, seek.eq_2 column', if_neg (by omega)]

/-- The text from a column on, or from the next boundary. -/
def ahead (column : Nat) (s : List Char) : List Char := (seek column 0 s).2

theorem seek_byteLength (q s : List Char) :
    seek (byteLength q) 0 (q ++ s) = (byteLength q, s) := by
  have h := seek_append q s 0 0
  simp only [Nat.zero_add, Nat.add_zero] at h
  rw [h, seek_of_le (Nat.le_refl _)]

@[simp] theorem ahead_byteLength (q s : List Char) : ahead (byteLength q) (q ++ s) = s := by
  rw [ahead, seek_byteLength]

@[simp] theorem ahead_zero (s : List Char) : ahead 0 s = s := by
  rw [ahead, seek_of_le (Nat.le_refl 0)]

/-- Behind a beginning of the text, columns count from the rest. -/
theorem ahead_append (q s : List Char) (j : ℕ) : ahead (byteLength q + j) (q ++ s) = ahead j s := by
  have h := seek_append q s 0 j
  have hadd := seek_add (byteLength q) j 0 s
  simp only [Nat.zero_add, Nat.add_zero] at h hadd
  rw [ahead, h, hadd, ahead]

theorem ahead_one_cons (c : Char) (s : List Char) : ahead 1 (c :: s) = s := by
  have hc := c.utf8Size_pos
  rw [ahead, seek, if_neg (by omega), seek_of_le (by omega)]

/-- Up to the next boundary, the same text lies ahead. -/
theorem ahead_of_le_boundary {column column' : ℕ} {s : List Char} (h : column ≤ column')
    (hb : column' ≤ (seek column 0 s).1) : ahead column' s = ahead column s := by
  rw [ahead, ← seek_seek h, seek_of_le hb, ahead]

/-- A search from a column is a cut of the text ahead of it. -/
theorem occurrenceFrom_eq (needle : List Char) (column : Nat) (s : List Char) :
    occurrenceFrom needle column s =
      (cut needle (ahead column s)).map fun p => (seek column 0 s).1 + byteLength p.1 :=
  occurrenceAt_eq ..

theorem reaches_byteLength (q s : List Char) :
    reaches (byteLength q) (q ++ s) = true ↔ s ≠ [] := by
  rw [reaches_iff, byteLength_append]
  constructor
  · rintro h rfl
    simp at h
  · intro h
    have := byteLength_pos h
    omega

/-- What lies ahead of a column is an end of the text, from a boundary on. -/
theorem exists_behind (column : Nat) (s : List Char) :
    ∃ q, s = q ++ ahead column s ∧ (seek column 0 s).1 = byteLength q := by
  suffices ∀ here, ∃ q, s = q ++ (seek column here s).2 ∧
      (seek column here s).1 = here + byteLength q by simpa [ahead] using this 0
  induction s with
  | nil => intro here; exact ⟨[], by simp [seek]⟩
  | cons c s ih =>
    intro here
    rw [seek]
    split
    · exact ⟨[], by simp⟩
    · obtain ⟨q, hq, hlen⟩ := ih (here + c.utf8Size)
      exact ⟨c :: q, by simp [← hq], by simp [hlen, Nat.add_assoc]⟩

end LineCensus.Text
