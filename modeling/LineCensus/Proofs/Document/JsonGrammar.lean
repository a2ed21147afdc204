import LineCensus.Proofs.Document.JsonText
import LineCensus.Proofs.Text.Numeral
import Mathlib.Data.List.DropRight
import Mathlib.Data.List.TakeWhile

/-!
# Reading JSON without bounds

The grammar of JSON bounds neither the size of its numbers nor the depth of its values. A
reader that follows it takes a value off the front of a text and gives back what stands
behind; it is told how long the text is, which is more than enough for any depth and any
number of items. What is printed for texts, natural numbers, lists and tables is read as what
it was printed for.
-/
namespace LineCensus.Document

/-- A value made of texts, natural numbers, lists and tables. -/
inductive Value.Exact : Value → Prop
  | string (text : String) : Exact (.string text)
  | count (n : ℕ) : Exact (.count n)
  | list {items : List Value} (h : ∀ v ∈ items, Exact v) : Exact (.list items)
  | table {fields : List (String × Value)} (h : ∀ f ∈ fields, Exact f.2) : Exact (.table fields)

namespace Json

/-! ## The reader -/

def skip (s : List Char) : List Char := s.dropWhile isSpace

/-- The value of a number. A whole number is kept whatever its size, any other as it is
written. -/
def numeral? (s : List Char) : Option Value :=
  let negative := s.head? == some '-'
  let digits := if negative then s.tail else s
  let whole := digits.takeWhile isDigit
  let rest := digits.dropWhile isDigit
  if !isWhole whole then none
  else if rest.isEmpty then
    some (.integer (if negative then -(digitsValue whole : ℤ) else digitsValue whole))
  else (fraction? rest).map fun _ => .real (String.ofList s)

/-- A number or a word at the front of a text. -/
def scalar? (s : List Char) : Option (Value × List Char) :=
  if (s.head?.map isNumberChar).getD false then
    (numeral? (s.takeWhile isNumberChar)).map (·, s.dropWhile isNumberChar)
  else (word? (s.takeWhile isLetter)).map (·, s.dropWhile isLetter)

section Sequence

variable {α : Type} (closing : Char) (element? : List Char → Option (α × List Char))

/-- Elements with commas between them, at least one, up to the closing mark. -/
def sequence? : ℕ → List Char → Option (List α × List Char)
  | 0, _ => none
  | fuel + 1, s =>
    (element? s).bind fun r =>
      match skip r.2 with
      | [] => none
      | c :: s =>
        if c = ',' then (sequence? fuel s).map fun rest => (r.1 :: rest.1, rest.2)
        else if c = closing then some ([r.1], s)
        else none

/-- What stands behind an opening mark: elements, or the closing mark alone. -/
def enclosed? (fuel : ℕ) (s : List Char) : Option (List α × List Char) :=
  match skip s with
  | [] => none
  | c :: s => if c = closing then some ([], s) else sequence? closing element? fuel (c :: s)

end Sequence

/-- The name of a field and the colon behind it. -/
def name? (s : List Char) : Option (String × List Char) :=
  match skip s with
  | '"' :: s =>
    (stringBody? [] s).bind fun r =>
      match skip r.2 with
      | ':' :: s => some (String.ofList r.1, s)
      | _ => none
  | _ => none

def field? (value? : List Char → Option (Value × List Char)) (s : List Char) :
    Option ((String × Value) × List Char) :=
  (name? s).bind fun r => (value? r.2).map fun v => ((r.1, v.1), v.2)

/-- The value at the front of a text and the text behind it. -/
def value? : ℕ → List Char → Option (Value × List Char)
  | 0, _ => none
  | fuel + 1, s =>
    match skip s with
    | [] => none
    | c :: s =>
      if c = '"' then (stringBody? [] s).map fun r => (.string (String.ofList r.1), r.2)
      else if c = '[' then
        (enclosed? ']' (value? fuel) fuel s).map fun r => (.list r.1, r.2)
      else if c = '\x7b' then
        (enclosed? '\x7d' (field? (value? fuel)) fuel s).map fun r => (.table r.1, r.2)
      else scalar? (c :: s)

/-- The value that a text stands for, if there are only blanks behind it. -/
def read? (s : String) : Option Value :=
  (value? (s.length + 1) s.toList).bind fun r => if skip r.2 = [] then some r.1 else none

/-! ## Blanks and numbers -/

/-- A text that does not go on with a number. -/
def EndsNumber (s : List Char) : Prop := ∀ c ∈ s.head?, isNumberChar c = false

theorem skip_cons {c : Char} (h : isSpace c = false) (s : List Char) : skip (c :: s) = c :: s :=
  List.dropWhile_cons_of_neg (by simp [h])

theorem skip_newline_append (level : ℕ) (s : List Char) : skip (newline level ++ s) = skip s := by
  have hblank : ∀ c ∈ newline level, isSpace c = true := by
    intro c hc
    rw [newline, List.mem_cons, List.mem_replicate] at hc
    rcases hc with rfl | ⟨-, rfl⟩ <;> rfl
  exact List.dropWhile_append_of_pos hblank

theorem skip_skip (s : List Char) : skip (skip s) = skip s := List.dropWhile_idempotent _ _

theorem isNumberChar_of_isDigit {c : Char} (h : c.isDigit = true) : isNumberChar c = true := by
  have hdigit : isDigit c = true := h
  rw [isNumberChar, hdigit]
  rfl

theorem digitsValue_toString (n : ℕ) : digitsValue (toString n).toList = n := by
  have hvalue : digitsValue (toString n).toList = Nat.ofDigitChars 10 (Nat.toDigits 10 n) 0 := by
    rw [Text.toList_toString, digitsValue, Nat.ofDigitChars]
    congr 1
    funext m c
    rw [Nat.mul_comm]
  rw [hvalue, Nat.ofDigitChars_toDigits (by decide) (by decide)]

theorem isWhole_toString (n : ℕ) : isWhole (toString n).toList = true := by
  have hdigits : ∀ c ∈ (toString n).toList, isDigit c = true := fun c hc =>
    Text.isDigit_of_mem_toString hc
  rcases Nat.eq_zero_or_pos n with rfl | hpos
  · rfl
  · have hhead := Text.head?_toDigits_ne_zero hpos
    rw [← Text.toList_toString] at hhead
    obtain ⟨c, ds, hcons⟩ := Text.exists_toString_eq_cons n
    rw [hcons] at hdigits hhead ⊢
    unfold isWhole
    split
    · rename_i h
      cases h
    · rfl
    · rename_i h
      cases h
      exact absurd rfl hhead
    · exact List.all_eq_true.2 hdigits

theorem numeral?_toString (n : ℕ) : numeral? (toString n).toList = some (.count n) := by
  have hdigits : ∀ c ∈ (toString n).toList, isDigit c = true := fun c hc =>
    Text.isDigit_of_mem_toString hc
  have hsign : ((toString n).toList.head? == some '-') = false := by
    rw [beq_eq_false_iff_ne]
    intro hhead
    have hminus := hdigits '-' (List.mem_of_head? hhead)
    cases hminus
  have hwhole : (toString n).toList.takeWhile isDigit = (toString n).toList :=
    List.takeWhile_eq_self_iff.2 hdigits
  have hrest : (toString n).toList.dropWhile isDigit = [] := List.dropWhile_eq_nil_iff.2 hdigits
  unfold numeral?
  simp only [hsign, if_neg Bool.false_ne_true, hwhole, hrest, isWhole_toString, Bool.not_true,
    List.isEmpty_nil, if_true, digitsValue_toString]
  rfl

theorem scalar?_toString (n : ℕ) {rest : List Char} (hrest : EndsNumber rest) :
    scalar? ((toString n).toList ++ rest) = some (.count n, rest) := by
  have hnumber : ∀ c ∈ (toString n).toList, isNumberChar c = true := fun c hc =>
    isNumberChar_of_isDigit (Text.isDigit_of_mem_toString hc)
  have htake : rest.takeWhile isNumberChar = [] ∧ rest.dropWhile isNumberChar = rest := by
    cases rest with
    | nil => exact ⟨rfl, rfl⟩
    | cons c rest =>
      have hc : isNumberChar c = false := hrest c rfl
      exact ⟨List.takeWhile_cons_of_neg (by simp [hc]), List.dropWhile_cons_of_neg (by simp [hc])⟩
  obtain ⟨c, ds, hcons⟩ := Text.exists_toString_eq_cons n
  have hhead : ((((toString n).toList ++ rest).head?).map isNumberChar).getD false = true := by
    rw [hcons]
    exact hnumber c (hcons ▸ List.mem_cons_self)
  rw [scalar?, if_pos hhead, List.takeWhile_append_of_pos hnumber,
    List.dropWhile_append_of_pos hnumber, htake.1, htake.2, List.append_nil, numeral?_toString]
  rfl

/-! ## Sequences -/

section Sequence

variable {α : Type} {closing : Char} {element? : List Char → Option (α × List Char)}

/-- Elements are read behind blanks, and where a sequence may end there is none. -/
structure Elementary (closing : Char) (element? : List Char → Option (α × List Char)) : Prop where
  skip_eq : ∀ s, element? (skip s) = element? s
  nil_eq : element? [] = none
  closing_eq : ∀ s, element? (closing :: s) = none

/-- A text that is read as an element, whatever stands behind it. -/
def Takes (element? : List Char → Option (α × List Char)) (text : List Char) (a : α) : Prop :=
  ∀ rest, EndsNumber rest → element? (text ++ rest) = some (a, rest)

theorem sequence?_intercalate {text : α → List Char} {items : List α} (hne : items ≠ [])
    (htakes : ∀ a ∈ items, Takes element? (text a) a) (hspace : isSpace closing = false)
    (hcomma : closing ≠ ',') (level : ℕ) (rest : List Char) {fuel : ℕ}
    (hfuel : items.length ≤ fuel) :
    sequence? closing element? fuel
        ([','].intercalate (items.map text) ++ (newline level ++ closing :: rest)) =
      some (items, rest) := by
  induction items generalizing fuel with
  | nil => exact absurd rfl hne
  | cons a items ih =>
    obtain ⟨fuel, rfl⟩ : ∃ k, fuel = k + 1 := ⟨fuel - 1, by simp at hfuel; omega⟩
    have ha := htakes a List.mem_cons_self
    cases items with
    | nil =>
      have hends : EndsNumber (newline level ++ closing :: rest) := by
        intro c hc
        cases hc
        rfl
      rw [List.map_singleton, List.intercalate_singleton, sequence?, ha _ hends,
        Option.bind_some]
      simp only [skip_newline_append, skip_cons hspace, if_neg hcomma, if_true]
    | cons b items =>
      have hlength : (b :: items).length ≤ fuel := Nat.le_of_succ_le_succ hfuel
      have hbehind :=
        ih (List.cons_ne_nil _ _) (fun x hx => htakes x (List.mem_cons_of_mem _ hx)) hlength
      rw [List.map_cons] at hbehind
      have hends : ∀ s, EndsNumber (',' :: s) := by
        intro s c hc
        cases hc
        rfl
      rw [List.map_cons, List.map_cons, List.intercalate_cons_cons, List.append_assoc,
        List.append_assoc, List.singleton_append, sequence?, ha _ (hends _), Option.bind_some]
      simp only [skip_cons (c := ',') rfl, if_true, hbehind]
      rfl

theorem sequence?_eq_none {s : List Char} (h : element? s = none) (fuel : ℕ) :
    sequence? closing element? fuel s = none := by
  cases fuel with
  | zero => rfl
  | succ fuel => rw [sequence?, h, Option.bind_none]

theorem sequence?_skip (helement : Elementary closing element?) (fuel : ℕ) (s : List Char) :
    sequence? closing element? fuel (skip s) = sequence? closing element? fuel s := by
  cases fuel with
  | zero => rfl
  | succ fuel => rw [sequence?, sequence?, helement.skip_eq]

/-- What can be read as a sequence does not start with the closing mark. -/
theorem enclosed?_of_sequence? (helement : Elementary closing element?) {fuel : ℕ}
    {s rest : List Char} {items : List α}
    (h : sequence? closing element? fuel s = some (items, rest)) :
    enclosed? closing element? fuel s = some (items, rest) := by
  rw [← sequence?_skip helement] at h
  unfold enclosed?
  cases hskip : skip s with
  | nil =>
    rw [hskip, sequence?_eq_none helement.nil_eq] at h
    cases h
  | cons c s =>
    rw [hskip] at h
    by_cases hc : c = closing
    · rw [hc, sequence?_eq_none (helement.closing_eq s)] at h
      cases h
    · exact (if_neg hc).trans h

end Sequence

/-! ## Values -/

theorem value?_skip (fuel : ℕ) (s : List Char) : value? fuel (skip s) = value? fuel s := by
  cases fuel with
  | zero => rfl
  | succ fuel => rw [value?, value?, skip_skip]

theorem elementary_value? (fuel : ℕ) : Elementary ']' (value? fuel) where
  skip_eq := value?_skip fuel
  nil_eq := by cases fuel <;> rfl
  closing_eq s := by cases fuel <;> rfl

theorem elementary_field? (value? : List Char → Option (Value × List Char)) :
    Elementary '\x7d' (field? value?) where
  skip_eq s := by
    rw [field?, field?, name?, name?, skip_skip]
  nil_eq := rfl
  closing_eq s := rfl

theorem Takes.behind_newline {fuel : ℕ} {text : List Char} {v : Value}
    (h : Takes (value? fuel) text v) (level : ℕ) :
    Takes (value? fuel) (newline level ++ text) v := by
  intro rest hrest
  rw [List.append_assoc, ← value?_skip, skip_newline_append, value?_skip, h rest hrest]

theorem Takes.field {fuel level : ℕ} {f : String × Value}
    (h : Takes (value? fuel) (render level f.2) f.2) :
    Takes (field? (value? fuel)) (newline level ++ renderField level f) f := by
  intro rest hrest
  have hname : name? (newline level ++ renderField level f ++ rest) =
      some (f.1, ' ' :: render level f.2 ++ rest) := by
    rw [name?, List.append_assoc, skip_newline_append, renderField, quote]
    simp only [List.cons_append, List.append_assoc, List.nil_append]
    rw [skip_cons rfl]
    simp only [stringBody?_escaped]
    rw [Option.bind_some]
    simp only [skip_cons (c := ':') rfl]
    simp
  have hvalue : value? fuel (' ' :: render level f.2 ++ rest) = some (f.2, rest) := by
    rw [← value?_skip]
    have hskip : skip (' ' :: render level f.2 ++ rest) = skip (render level f.2 ++ rest) := rfl
    rw [hskip, value?_skip, h rest hrest]
  rw [field?, hname, Option.bind_some, hvalue]
  rfl

/-! ## What is printed -/

theorem intercalate_cons (s : List Char) (l : List (List Char)) :
    [','].intercalate (s :: l) = s ++ l.flatMap (',' :: ·) := by
  induction l generalizing s with
  | nil => simp
  | cons t l ih => rw [List.intercalate_cons_cons, ih t, List.flatMap_cons]; simp

/-- With commas between them some texts are at least as long as there are texts, but for one,
and at least as long as each of them. -/
theorem length_le_intercalate (l : List (List Char)) :
    l.length ≤ ([','].intercalate l).length + 1 ∧
      ∀ s ∈ l, s.length ≤ ([','].intercalate l).length := by
  induction l with
  | nil => simp
  | cons s l ih =>
    cases l with
    | nil => simp
    | cons t l =>
      rw [List.intercalate_cons_cons, List.length_append, List.length_append]
      refine ⟨?_, fun u hu => ?_⟩
      · have hlength := ih.1
        simp only [List.length_cons] at hlength ⊢
        omega
      · rcases List.mem_cons.1 hu with rfl | hu
        · omega
        · have hmem := ih.2 u hu
          omega

/-- What fits between brackets is short, and so is each piece of it. -/
theorem length_of_bracketed {opening closing : Char} {level fuel : ℕ} {l : List (List Char)}
    (h : (opening :: ([','].intercalate l ++ (newline level ++ [closing]))).length < fuel + 1) :
    l.length ≤ fuel ∧ ∀ s ∈ l, s.length < fuel := by
  obtain ⟨hlength, hmem⟩ := length_le_intercalate l
  rw [List.length_cons, List.length_append, List.length_append, List.length_singleton] at h
  refine ⟨by omega, fun s hs => ?_⟩
  have hs := hmem s hs
  omega

/-- A list that is not empty is printed as its items with commas between them. -/
theorem render_list (level : ℕ) {items : List Value} (hne : items ≠ []) :
    render level (.list items) =
      '[' :: ([','].intercalate (items.map fun v => newline (level + 1) ++ render (level + 1) v) ++
        (newline level ++ [']'])) := by
  have hitems : ∀ vs, renderItems (level + 1) vs =
      vs.flatMap fun v => ',' :: (newline (level + 1) ++ render (level + 1) v) := by
    intro vs
    induction vs with
    | nil => rfl
    | cons v vs ih => rw [renderItems, ih, List.flatMap_cons]; simp
  obtain ⟨v, vs, rfl⟩ := List.exists_cons_of_ne_nil hne
  rw [render, hitems, List.map_cons, intercalate_cons]
  simp [List.flatMap_map]

theorem render_table (level : ℕ) {fields : List (String × Value)} (hne : fields ≠ []) :
    render level (.table fields) =
      '\x7b' :: ([','].intercalate
        (fields.map fun f => newline (level + 1) ++ renderField (level + 1) f) ++
          (newline level ++ ['\x7d'])) := by
  have hfields : ∀ fs, renderFields (level + 1) fs =
      fs.flatMap fun f => ',' :: (newline (level + 1) ++ renderField (level + 1) f) := by
    intro fs
    induction fs with
    | nil => rfl
    | cons f fs ih => rw [renderFields, ih, List.flatMap_cons]; simp
  obtain ⟨f, fs, rfl⟩ := List.exists_cons_of_ne_nil hne
  rw [render, hfields, List.map_cons, intercalate_cons]
  simp [List.flatMap_map]

theorem takes_string (fuel : ℕ) (text : String) :
    Takes (value? (fuel + 1)) (quote text) (.string text) := by
  intro rest _
  rw [quote, value?]
  simp only [List.cons_append, List.append_assoc, List.nil_append]
  rw [skip_cons rfl]
  simp only [if_true, stringBody?_escaped]
  simp

theorem takes_count (fuel n : ℕ) : Takes (value? (fuel + 1)) (toString n).toList (.count n) := by
  intro rest hrest
  have hscalar := scalar?_toString n hrest
  obtain ⟨c, ds, hcons⟩ := Text.exists_toString_eq_cons n
  have hdigit : c.isDigit = true := Text.isDigit_of_mem_toString (hcons ▸ List.mem_cons_self)
  have hmarks : isSpace c = false ∧ c ≠ '"' ∧ c ≠ '[' ∧ c ≠ '\x7b' := by
    refine ⟨?_, ?_, ?_, ?_⟩
    · rw [← Bool.not_eq_true]
      intro hspace
      simp only [isSpace, Bool.or_eq_true, beq_iff_eq] at hspace
      rcases hspace with ((rfl | rfl) | rfl) | rfl <;> cases hdigit
    all_goals
      rintro rfl
      cases hdigit
  obtain ⟨hspace, hquote, hlist, htable⟩ := hmarks
  rw [hcons] at hscalar ⊢
  rw [List.cons_append] at hscalar ⊢
  rw [value?, skip_cons hspace]
  simp only [if_neg hquote, if_neg hlist, if_neg htable]
  exact hscalar

theorem takes_list {fuel level : ℕ} {items : List Value} (hlength : items.length ≤ fuel)
    (h : ∀ v ∈ items, Takes (value? fuel) (render (level + 1) v) v) :
    Takes (value? (fuel + 1)) (render level (.list items)) (.list items) := by
  intro rest _
  by_cases hne : items = []
  · rw [hne]
    rfl
  · have hitems := enclosed?_of_sequence? (elementary_value? fuel)
      (sequence?_intercalate hne (fun v hv => (h v hv).behind_newline (level + 1)) rfl (by decide)
        level rest hlength)
    rw [render_list level hne, List.cons_append, List.append_assoc, List.append_assoc,
      List.singleton_append, value?, skip_cons rfl]
    simp [hitems]

theorem takes_table {fuel level : ℕ} {fields : List (String × Value)}
    (hlength : fields.length ≤ fuel)
    (h : ∀ f ∈ fields, Takes (value? fuel) (render (level + 1) f.2) f.2) :
    Takes (value? (fuel + 1)) (render level (.table fields)) (.table fields) := by
  intro rest _
  by_cases hne : fields = []
  · rw [hne]
    rfl
  · have hfields := enclosed?_of_sequence? (elementary_field? (value? fuel))
      (sequence?_intercalate hne (fun f hf => (h f hf).field) rfl (by decide) level rest hlength)
    rw [render_table level hne, List.cons_append, List.append_assoc, List.append_assoc,
      List.singleton_append, value?, skip_cons rfl]
    simp [hfields]

/-- What is printed for texts, natural numbers, lists and tables is taken off the front as what
it was printed for, by a reader that may go deeper than the text is long. -/
theorem takes_render {v : Value} (h : v.Exact) (level fuel : ℕ)
    (hfuel : (render level v).length < fuel) : Takes (value? fuel) (render level v) v := by
  induction h generalizing level fuel with
  | string text =>
    obtain ⟨fuel, rfl⟩ : ∃ k, fuel = k + 1 := ⟨fuel - 1, by omega⟩
    exact takes_string fuel text
  | count n =>
    obtain ⟨fuel, rfl⟩ : ∃ k, fuel = k + 1 := ⟨fuel - 1, by omega⟩
    exact takes_count fuel n
  | @list items _ ih =>
    obtain ⟨fuel, rfl⟩ : ∃ k, fuel = k + 1 := ⟨fuel - 1, by omega⟩
    by_cases hne : items = []
    · rw [hne]
      exact takes_list (Nat.zero_le _) (by simp)
    · rw [render_list level hne] at hfuel
      obtain ⟨hlength, hmem⟩ := length_of_bracketed hfuel
      rw [List.length_map] at hlength
      refine takes_list hlength fun v hv => ih v hv (level + 1) fuel ?_
      have hv := hmem _ (List.mem_map_of_mem hv)
      rw [List.length_append] at hv
      omega
  | @table fields _ ih =>
    obtain ⟨fuel, rfl⟩ : ∃ k, fuel = k + 1 := ⟨fuel - 1, by omega⟩
    by_cases hne : fields = []
    · rw [hne]
      exact takes_table (Nat.zero_le _) (by simp)
    · rw [render_table level hne] at hfuel
      obtain ⟨hlength, hmem⟩ := length_of_bracketed hfuel
      rw [List.length_map] at hlength
      refine takes_table hlength fun f hf => ih f hf (level + 1) fuel ?_
      have hf := hmem _ (List.mem_map_of_mem hf)
      rw [List.length_append, renderField, List.length_append, List.length_cons,
        List.length_cons] at hf
      omega

/-- What is printed for texts, natural numbers, lists and tables is read as what it was printed
for. -/
theorem read?_pretty {v : Value} (h : v.Exact) : read? (pretty v) = some v := by
  have htext : (pretty v).toList = render 0 v := String.toList_ofList
  have hends : EndsNumber [] := fun c hc => by cases hc
  have hvalue := takes_render h 0 ((pretty v).length + 1) (by simp [pretty]) [] hends
  rw [List.append_nil] at hvalue
  rw [read?, htext, hvalue]
  rfl

/-- Other blanks, signs, exponents and escapes are read too, though they are never printed. -/
example : read? " [ -20 ,\x7b\"\\u00e9\":true\x7d, 1E5]" =
    some (.list [.integer (-20), .table [("é", .boolean true)], .real "1E5"]) := by
  cbv

end Json

end LineCensus.Document
