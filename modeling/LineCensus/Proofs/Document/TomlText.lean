import LineCensus.Document.Toml.Whole
import LineCensus.Proofs.Document.JsonText
import LineCensus.Proofs.OrderedMap

/-!
# Texts and lists in TOML

Texts between double quotes and lists in brackets are written on one line, so that they are
read as what they stand for. A header with a quoted name declares a table, and the lines
under it put their values into that table, one behind the other.
-/
namespace LineCensus.Document.Toml

open Json (shortEscapes codeEscape hexDigit hexValue?_hexDigit escapeChar_cases)

/-! ## Strings -/

/-- A character between double quotes. The last control of ASCII must not stand there. -/
def escapeChar (c : Char) : List Char :=
  if c = '\x7f' then codeEscape c else Json.escapeChar c

def quote (s : String) : List Char := '"' :: s.toList.flatMap escapeChar ++ ['"']

theorem escapeChar_cases (c : Char) :
    (∃ d, (d, c) ∈ shortEscapes ∧ escapeChar c = ['\\', d]) ∨
      (c.toNat < 0x80 ∧ escapeChar c = codeEscape c) ∨
      (c ≠ '"' ∧ c ≠ '\\' ∧ isText c = true ∧ escapeChar c = [c]) := by
  unfold escapeChar
  split_ifs with hdelete
  · exact Or.inr (Or.inl ⟨by rw [hdelete]; decide, rfl⟩)
  · rcases Json.escapeChar_cases c with hshort | ⟨hlt, hc⟩ | ⟨hquote, hback, hblank, hc⟩
    · exact Or.inl hshort
    · exact Or.inr (Or.inl ⟨by omega, hc⟩)
    · refine Or.inr (Or.inr ⟨hquote, hback, ?_, hc⟩)
      have hle : ' ' ≤ c := Char.not_lt.1 hblank
      simp [isText, hle, hdelete]

theorem escape?_codeEscape {c : Char} (h : c.toNat < 0x80) (s : List Char) :
    escape? ('u' :: '0' :: '0' :: hexDigit (c.toNat / 16) :: hexDigit (c.toNat % 16) :: s) =
      some (c, s) := by
  have hzero : Json.hexValue? '0' = some 0 := rfl
  have hhigh := hexValue?_hexDigit (c.toNat / 16) (by omega)
  have hlow := hexValue?_hexDigit (c.toNat % 16) (by omega)
  have hrun : hexRun? 0 4 ('0' :: '0' :: hexDigit (c.toNat / 16) :: hexDigit (c.toNat % 16) :: s) =
      some (c.toNat, s) := by
    simp only [hexRun?, hzero, hhigh, hlow, Option.bind_some, Option.some.injEq, Prod.mk.injEq,
      and_true]
    omega
  have hchar : charOf? c.toNat = some c := by
    rw [charOf?, if_pos (Or.inl (by omega)), Char.ofNat_toNat]
  simp only [escape?, codePoint?, hrun, Option.bind_some, hchar, Option.map_some]

/-- A character is escaped so that it is read as itself. -/
theorem lineString?_escapeChar (done : List Char) (fuel : ℕ) (c : Char) (s : List Char) :
    lineString? '"' true done (fuel + 1) (escapeChar c ++ s) =
      lineString? '"' true (c :: done) fuel s := by
  have hback : ∀ {t : List Char}, escape? t = some (c, s) →
      lineString? '"' true done (fuel + 1) ('\\' :: t) =
        lineString? '"' true (c :: done) fuel s := by
    intro t h
    rw [lineString?, if_neg (by decide), if_pos (by decide), h]
    rfl
  rcases escapeChar_cases c with ⟨d, hd, hc⟩ | ⟨hlt, hc⟩ | ⟨hquote, hslash, htext, hc⟩
  · have hescape : ∀ p ∈ shortEscapes, ∀ s, escape? (p.1 :: s) = some (p.2, s) := by
      simp [shortEscapes, escape?]
    rw [hc]
    exact hback (hescape _ hd s)
  · rw [hc]
    exact hback (escape?_codeEscape hlt s)
  · rw [hc, List.singleton_append, lineString?, if_neg hquote, if_neg (by simp [hslash]),
      if_pos htext]

theorem lineString?_escaped {cs : List Char} {fuel : ℕ} (h : cs.length < fuel)
    (done rest : List Char) :
    lineString? '"' true done fuel (cs.flatMap escapeChar ++ '"' :: rest) =
      some (done.reverse ++ cs, rest) := by
  induction cs generalizing done fuel with
  | nil =>
    obtain ⟨fuel, rfl⟩ := Nat.exists_eq_add_one.2 h
    simp [lineString?]
  | cons c cs ih =>
    obtain ⟨fuel, rfl⟩ : ∃ n, fuel = n + 1 := Nat.exists_eq_add_one.2 (Nat.zero_lt_of_lt h)
    rw [List.flatMap_cons, List.append_assoc, lineString?_escapeChar,
      ih (by simpa using h)]
    simp

theorem length_le_length_flatMap_escapeChar (cs : List Char) :
    cs.length ≤ (cs.flatMap escapeChar).length := by
  induction cs with
  | nil => exact Nat.le_refl 0
  | cons c cs ih =>
    have hpos : 1 ≤ (escapeChar c).length := by
      rcases escapeChar_cases c with ⟨d, _, hc⟩ | ⟨_, hc⟩ | ⟨_, _, _, hc⟩ <;> simp [hc, codeEscape]
    rw [List.flatMap_cons, List.length_append, List.length_cons]
    omega

/-- A quote is read back up to its end, with as many steps as there are characters. -/
theorem lineString?_quoted (s : String) (rest : List Char) :
    lineString? '"' true [] ((s.toList.flatMap escapeChar ++ '"' :: rest).length + 1)
      (s.toList.flatMap escapeChar ++ '"' :: rest) = some (s.toList, rest) := by
  have hle := length_le_length_flatMap_escapeChar s.toList
  have hfuel : s.toList.length < (s.toList.flatMap escapeChar ++ '"' :: rest).length + 1 := by
    rw [List.length_append]
    omega
  exact lineString?_escaped hfuel [] rest

/-! ## Values on one line -/

/-- Texts of items in brackets. -/
def bracketed : List (List Char) → List Char
  | [] => ['[', ']']
  | text :: texts => '[' :: text ++ texts.flatMap (fun text => ',' :: ' ' :: text) ++ [']']

/-- A text that is read as the value wherever no quote follows it. -/
structure Writes (depth : ℕ) (text : List Char) (v : Value) : Prop where
  head : text.head? = some '"' ∨ text.head? = some '['
  reads : ∀ fuel rest, text.length < fuel → rest.head? ≠ some '"' →
    value? depth fuel (text ++ rest) = some (v, rest)

theorem Writes.exists_cons {depth : ℕ} {text : List Char} {v : Value} (h : Writes depth text v) :
    ∃ c s, text = c :: s ∧ (c = '"' ∨ c = '[') := by
  rcases h.head with h | h
  · exact ⟨'"', text.tail, List.eq_cons_of_mem_head? h, Or.inl rfl⟩
  · exact ⟨'[', text.tail, List.eq_cons_of_mem_head? h, Or.inr rfl⟩

/-- Three quotes open a text over several lines, fewer do not. -/
theorem string?_quote {t : List Char} (h : ∀ u, t ≠ '"' :: '"' :: u) :
    string? ('"' :: t) = lineString? '"' true [] (t.length + 1) t := by
  rw [string?]
  exact fun s hs => h s hs

theorem head?_escapeChar_ne (c : Char) (s : List Char) : (escapeChar c ++ s).head? ≠ some '"' := by
  rcases escapeChar_cases c with ⟨d, _, hc⟩ | ⟨_, hc⟩ | ⟨hquote, _, _, hc⟩ <;>
    simp [hc, codeEscape]
  exact hquote

theorem writes_quote (depth : ℕ) (s : String) : Writes depth (quote s) (.string s) := by
  refine ⟨Or.inl rfl, fun fuel rest hfuel hrest => ?_⟩
  obtain ⟨fuel, rfl⟩ : ∃ n, fuel = n + 1 := Nat.exists_eq_add_one.2 (Nat.zero_lt_of_lt hfuel)
  have hopen : ∀ u, s.toList.flatMap escapeChar ++ '"' :: rest ≠ '"' :: '"' :: u := by
    intro u hu
    cases hchars : s.toList with
    | nil => simp_all
    | cons c cs =>
      rw [hchars, List.flatMap_cons, List.append_assoc] at hu
      exact head?_escapeChar_ne c _ (by rw [hu]; rfl)
  have htext : quote s ++ rest = '"' :: (s.toList.flatMap escapeChar ++ '"' :: rest) := by
    simp [quote]
  rw [htext, value?, if_pos (Or.inl rfl), string?_quote hopen, lineString?_quoted]
  simp

/-- Nothing is skipped in front of a value or of what stands behind one. -/
theorem skipVoid?_of_mem {c : Char} (hc : c ∈ ['"', '[', ']', ',']) (s : List Char) :
    skipVoid? (c :: s) = some (c :: s) ∧ skipVoid? (' ' :: c :: s) = some (c :: s) := by
  simp only [List.mem_cons, List.not_mem_nil, or_false] at hc
  rcases hc with rfl | rfl | rfl | rfl <;> exact ⟨rfl, rfl⟩

/-- One item is read, with the blanks behind it. -/
theorem items?_of_writes_cons {depth : ℕ} {text : List Char} {v : Value} (hv : Writes depth text v)
    (done : List Value) {fuel : ℕ} (hfuel : text.length < fuel) {c : Char} (hc : c = ',' ∨ c = ']')
    (rest : List Char) :
    items? depth done (fuel + 1) (text ++ c :: rest) =
      if c = ',' then (skipVoid? rest).bind (items? depth (v :: done) fuel)
      else some (.list (v :: done).reverse, rest) := by
  have hnext : c ≠ '"' ∧ c ∈ ['"', '[', ']', ','] := by
    rcases hc with rfl | rfl <;> decide
  have hread := hv.reads fuel (c :: rest) hfuel (by simpa using hnext.1)
  have hstart : ∀ t, text ++ c :: rest ≠ ']' :: t := by
    intro t ht
    obtain ⟨x, s, rfl, hx⟩ := hv.exists_cons
    obtain rfl : x = ']' := (List.cons.inj ht).1
    exact absurd hx (by decide)
  rw [items?]
  · simp only [hread, bind, Option.bind_some, (skipVoid?_of_mem hnext.2 rest).1]
    rcases hc with rfl | rfl <;> rfl
  · exact hstart

theorem skipVoid?_of_writes {depth : ℕ} {text : List Char} {v : Value} (h : Writes depth text v)
    (rest : List Char) : skipVoid? (text ++ rest) = some (text ++ rest) ∧
      skipVoid? (' ' :: (text ++ rest)) = some (text ++ rest) := by
  obtain ⟨c, s, rfl, hc⟩ := h.exists_cons
  refine skipVoid?_of_mem ?_ (s ++ rest)
  rcases hc with rfl | rfl <;> decide

/-- The items are read one after the other up to the bracket that closes the list. -/
theorem items?_of_writes {depth : ℕ} {texts : List (List Char)} {vs : List Value}
    (h : List.Forall₂ (Writes depth) texts vs) {text : List Char} {v : Value}
    (hv : Writes depth text v) (done : List Value) (rest : List Char) {fuel : ℕ}
    (hfuel : (text ++ texts.flatMap fun text => ',' :: ' ' :: text).length + 1 < fuel) :
    items? depth done fuel
        (text ++ (texts.flatMap (fun text => ',' :: ' ' :: text) ++ ']' :: rest)) =
      some (.list (done.reverse ++ v :: vs), rest) := by
  rw [List.length_append] at hfuel
  obtain ⟨fuel, rfl⟩ : ∃ n, fuel = n + 1 := Nat.exists_eq_add_one.2 (Nat.zero_lt_of_lt hfuel)
  induction h generalizing text v done fuel with
  | nil =>
    rw [List.flatMap_nil, List.nil_append,
      items?_of_writes_cons hv done (by omega) (Or.inr rfl), if_neg (by decide)]
    simp
  | @cons text' v' texts vs hv' hrest ih =>
    rw [List.flatMap_cons, List.length_append, List.length_cons, List.length_cons] at hfuel
    obtain ⟨fuel, rfl⟩ : ∃ n, fuel = n + 1 := Nat.exists_eq_add_one.2 (by omega)
    simp only [List.flatMap_cons, List.cons_append, List.append_assoc]
    rw [items?_of_writes_cons hv done (by omega) (Or.inl rfl), if_pos rfl,
      (skipVoid?_of_writes hv' _).2, Option.bind_some, ih hv' (v :: done) fuel (by omega)]
    simp

theorem writes_bracketed {depth : ℕ} {texts : List (List Char)} {vs : List Value}
    (h : List.Forall₂ (Writes depth) texts vs) :
    Writes (depth + 1) (bracketed texts) (.list vs) := by
  have hopen : ∀ fuel s, value? (depth + 1) (fuel + 1) ('[' :: s) =
      (skipVoid? s).bind (items? depth [] fuel) := by
    intro fuel s
    rw [value?, if_neg (by decide), if_pos rfl, if_neg (by omega)]
    rfl
  cases h with
  | nil =>
    refine ⟨Or.inr rfl, fun fuel rest hfuel _ => ?_⟩
    obtain ⟨fuel, rfl⟩ : ∃ n, fuel = n + 2 :=
      ⟨fuel - 2, by simp only [bracketed, List.length_cons] at hfuel; omega⟩
    rw [bracketed, List.cons_append, hopen, List.singleton_append,
      (skipVoid?_of_mem (by decide) rest).1, Option.bind_some, items?]
    rfl
  | @cons text v texts vs hv hrest =>
    refine ⟨Or.inr rfl, fun fuel rest hfuel _ => ?_⟩
    rw [bracketed] at hfuel ⊢
    simp only [List.cons_append, List.length_cons, List.length_append, List.length_nil] at hfuel
    obtain ⟨fuel, rfl⟩ : ∃ n, fuel = n + 1 := Nat.exists_eq_add_one.2 (Nat.zero_lt_of_lt hfuel)
    simp only [List.cons_append, List.append_assoc, List.nil_append]
    rw [hopen, (skipVoid?_of_writes hv _).1, Option.bind_some,
      items?_of_writes hrest hv [] rest (by rw [List.length_append]; omega)]
    rfl

/-! ## Statements -/

/-- The text of a table's header. -/
def header (name : String) : List Char := '[' :: quote name ++ [']', '\n']

theorem keyPath?_quote (name : String) (rest : List Char) :
    keyPath? (quote name ++ ']' :: rest) = some ([name], ']' :: rest) := by
  have htext : quote name ++ ']' :: rest =
      '"' :: (name.toList.flatMap escapeChar ++ '"' :: ']' :: rest) := by
    simp [quote]
  rw [keyPath?, htext, key?, keyPart?, lineString?_quoted]
  simp [isSpace]

theorem keyPath?_bare {name : List Char} (hne : name ≠ []) (hname : ∀ c ∈ name, isKeyChar c = true)
    (rest : List Char) :
    keyPath? (name ++ ' ' :: '=' :: rest) = some ([String.ofList name], '=' :: rest) := by
  obtain ⟨c, cs, rfl⟩ := List.exists_cons_of_ne_nil hne
  have hhead := hname c List.mem_cons_self
  have hquote : c ≠ '"' ∧ c ≠ '\'' := by
    constructor <;> rintro rfl <;> revert hhead <;> decide
  have hpart : keyPart? (c :: cs ++ ' ' :: '=' :: rest) =
      some (String.ofList (c :: cs), ' ' :: '=' :: rest) := by
    have htake : (c :: cs ++ ' ' :: '=' :: rest).takeWhile isKeyChar = c :: cs := by
      rw [List.takeWhile_append_of_pos hname]
      simp [isKeyChar, Json.isDigit]
    have hdrop : (c :: cs ++ ' ' :: '=' :: rest).dropWhile isKeyChar = ' ' :: '=' :: rest := by
      rw [List.dropWhile_append_of_pos hname]
      rfl
    rw [keyPart?]
    · simp only [htake, hdrop]
      rfl
    · exact fun t ht => hquote.1 (List.cons.inj ht).1
    · exact fun t ht => hquote.2 (List.cons.inj ht).1
  rw [keyPath?, key?, hpart]
  rfl

/-- A field on a line of its own, its name without quotes. -/
structure Line where
  name : String
  text : List Char
  value : Value
  bare : name ≠ "" ∧ ∀ c ∈ name.toList, isKeyChar c = true
  writes : Writes maxDepth text value

theorem Line.exists_cons (l : Line) :
    ∃ c cs, l.name.toList = c :: cs ∧ isKeyChar c = true := by
  obtain ⟨c, cs, hname⟩ := List.exists_cons_of_ne_nil (mt String.toList_eq_nil_iff.1 l.bare.1)
  exact ⟨c, cs, hname, l.bare.2 c (by simp [hname])⟩

def Line.chars (l : Line) : List Char := l.name.toList ++ ' ' :: '=' :: ' ' :: l.text ++ ['\n']

theorem statement?_header (d : Draft) (name : String) (rest : List Char) :
    d.statement? (header name ++ rest) =
      (d.fields.declareTable [name]).map (⟨[name], ·⟩, '\n' :: rest) := by
  have htext : header name ++ rest = '[' :: (quote name ++ ']' :: '\n' :: rest) := by
    simp [header]
  have hblanks : (quote name ++ ']' :: '\n' :: rest).dropWhile isSpace =
      quote name ++ ']' :: '\n' :: rest := rfl
  rw [htext, Draft.statement?]
  · simp only [hblanks, keyPath?_quote, bind, Option.bind_some]
    cases d.fields.declareTable [name] <;> rfl
  · intro t ht
    have hhead : some '"' = some '[' := congrArg List.head? ht
    cases hhead

/-- A line is cut behind its equals sign. -/
theorem keyEquals?_line (l : Line) (rest : List Char) :
    keyEquals? skipBlanks? (l.chars ++ rest) = some ([l.name], l.text ++ '\n' :: rest) := by
  have htext : l.chars ++ rest =
      l.name.toList ++ ' ' :: '=' :: ' ' :: (l.text ++ '\n' :: rest) := by
    simp [Line.chars]
  have hequals : skipBlanks? ('=' :: ' ' :: (l.text ++ '\n' :: rest)) =
      some ('=' :: ' ' :: (l.text ++ '\n' :: rest)) := rfl
  have hblanks : skipBlanks? (' ' :: (l.text ++ '\n' :: rest)) = some (l.text ++ '\n' :: rest) := by
    obtain ⟨x, text, htext, hx⟩ := l.writes.exists_cons
    rw [htext]
    rcases hx with rfl | rfl <;> rfl
  have hne : l.name.toList ≠ [] := mt String.toList_eq_nil_iff.1 l.bare.1
  have hpath := keyPath?_bare hne l.bare.2 (' ' :: (l.text ++ '\n' :: rest))
  rw [String.ofList_toList] at hpath
  simp only [keyEquals?, htext, hpath, hequals, hblanks, bind, pure, Option.bind_some]

theorem statement?_line (d : Draft) (l : Line) (rest : List Char) :
    d.statement? (l.chars ++ rest) =
      (d.fields.putUnder d.header [l.name] l.value).map (⟨d.header, ·⟩, '\n' :: rest) := by
  have hvalue : value? maxDepth ((l.text ++ '\n' :: rest).length + 1) (l.text ++ '\n' :: rest) =
      some (l.value, '\n' :: rest) := by
    apply l.writes.reads
    · rw [List.length_append]
      omega
    · simp
  -- The bracket of a header begins no name.
  have hletter : ∀ t, l.chars ++ rest ≠ '[' :: t := by
    intro t ht
    obtain ⟨c, cs, hname, hc⟩ := l.exists_cons
    have hhead := congrArg List.head? ht
    rw [Line.chars, hname] at hhead
    cases hhead
    exact absurd hc (by decide)
  rw [Draft.statement?]
  · simp only [keyEquals?_line, hvalue, bind, Option.bind_some]
    cases d.fields.putUnder d.header [l.name] l.value <;> rfl
  · exact fun t => hletter _
  · exact hletter

/-! ## Tables -/

namespace Fields

open OrderedMap (lookup_eq_none_of_not_mem)

variable {fs : Fields} {key : String}

theorem set_of_not_mem (h : key ∉ fs.map Prod.fst) (item : Item) :
    fs.set key item = fs ++ [(key, item)] := by
  rw [set, if_neg]
  simpa using h

theorem set_concat (h : key ∉ fs.map Prod.fst) (old item : Item) :
    set (fs ++ [(key, old)]) key item = fs ++ [(key, item)] := by
  rw [set, if_pos (by simp), List.map_append]
  congr 1
  · refine (List.map_congr_left fun f hf => ?_).trans (List.map_id fs)
    have hne : f.1 ≠ key := fun heq => h (heq ▸ List.mem_map_of_mem hf)
    simp [hne]
  · simp

theorem lookup_concat (h : key ∉ fs.map Prod.fst) (item : Item) :
    (fs ++ [(key, item)]).lookup key = some item := by
  rw [List.lookup_append, lookup_eq_none_of_not_mem h, Option.none_or, List.lookup_cons_self]

theorem declareTable_of_not_mem (h : key ∉ fs.map Prod.fst) :
    declareTable [key] fs = some (fs ++ [(key, .table .declared [])]) := by
  simp only [declareTable, change, lookup_eq_none_of_not_mem h, set_of_not_mem h]

/-- A value is put behind the others in the table that has been declared last. -/
theorem putUnder_concat (h : key ∉ fs.map Prod.fst) {origin : Origin} {sub : Fields} {name : String}
    (hname : name ∉ sub.map Prod.fst) (v : Value) :
    putUnder [key] [name] v (fs ++ [(key, .table origin sub)]) =
      some (fs ++ [(key, .table origin (sub ++ [(name, .value v)]))]) := by
  simp [putUnder, change, lookup_concat h, putDotted, lookup_eq_none_of_not_mem hname,
    set_of_not_mem hname, set_concat h]

end Fields

/-- Reading a piece of text leads from one draft to another, whatever text follows. -/
def Takes (d : Draft) (text : List Char) (d' : Draft) : Prop :=
  ∀ rest fuel, (text ++ rest).length < fuel →
    ∃ fuel', rest.length < fuel' ∧ d.run fuel (text ++ rest) = d'.run fuel' rest

theorem Takes.nil (d : Draft) : Takes d [] d := fun _ fuel h => ⟨fuel, h, rfl⟩

theorem Takes.append {d d' d'' : Draft} {text text' : List Char} (h : Takes d text d')
    (h' : Takes d' text' d'') : Takes d (text ++ text') d'' := by
  intro rest fuel hfuel
  rw [List.append_assoc] at hfuel ⊢
  obtain ⟨fuel', hfuel', hrun⟩ := h (text' ++ rest) fuel hfuel
  obtain ⟨fuel'', hfuel'', hrun'⟩ := h' rest fuel' hfuel'
  exact ⟨fuel'', hfuel'', hrun.trans hrun'⟩

theorem takes_of_statement? {d d' : Draft} {text : List Char}
    (hhead : ∃ c ∈ text.head?, isSpace c = false ∧ ¬ (c = '#' ∨ c = '\n' ∨ c = '\r'))
    (h : ∀ rest, d.statement? (text ++ rest) = some (d', '\n' :: rest)) : Takes d text d' := by
  intro rest fuel hfuel
  obtain ⟨c, hc, hspace, hline⟩ := hhead
  obtain ⟨cs, rfl⟩ := List.head?_eq_some_iff.1 hc
  obtain ⟨fuel, rfl⟩ : ∃ n, fuel = n + 1 := Nat.exists_eq_add_one.2 (Nat.zero_lt_of_lt hfuel)
  refine ⟨fuel, ?_, ?_⟩
  · simp only [List.cons_append, List.length_cons, List.length_append] at hfuel
    omega
  · have hend : lineEnd? ('\n' :: rest) = some rest := rfl
    have hdrop : (c :: cs ++ rest).dropWhile isSpace = c :: cs ++ rest := by
      rw [List.cons_append, List.dropWhile_cons_of_neg (by simp [hspace])]
    rw [Draft.run, hdrop]
    simp only [List.cons_append, if_neg hline]
    rw [← List.cons_append, h rest]
    simp only [bind, Option.bind_some, hend]

theorem takes_header {fs : Fields} {name : String} (h : name ∉ fs.map Prod.fst)
    (last : List String) :
    Takes ⟨last, fs⟩ (header name) ⟨[name], fs ++ [(name, .table .declared [])]⟩ := by
  refine takes_of_statement? ⟨'[', rfl, by decide, by decide⟩ fun rest => ?_
  rw [statement?_header, Fields.declareTable_of_not_mem h]
  rfl

theorem takes_line {fs sub : Fields} {name : String} (h : name ∉ fs.map Prod.fst) {l : Line}
    (hl : l.name ∉ sub.map Prod.fst) :
    Takes ⟨[name], fs ++ [(name, .table .declared sub)]⟩ l.chars
      ⟨[name], fs ++ [(name, .table .declared (sub ++ [(l.name, .value l.value)]))]⟩ := by
  refine takes_of_statement? ?_ fun rest => ?_
  · obtain ⟨c, cs, hname, hkey⟩ := l.exists_cons
    have hother : ∀ x ∈ [' ', '\t', '#', '\n', '\r'], c ≠ x := by
      rintro x hx rfl
      simp only [List.mem_cons, List.not_mem_nil, or_false] at hx
      rcases hx with rfl | rfl | rfl | rfl | rfl <;> revert hkey <;> decide
    refine ⟨c, by simp [Line.chars, hname], ?_, ?_⟩
    · simp [isSpace, hother]
    · simp [hother]
  · rw [statement?_line, Fields.putUnder_concat h hl]
    rfl

/-- Fields under a header, no name twice. -/
structure Table where
  name : String
  lines : List Line
  nodup_names : (lines.map Line.name).Nodup

namespace Table

def chars (t : Table) : List Char := header t.name ++ t.lines.flatMap Line.chars

/-- The table as it is put together, with its fields in the order of their lines. -/
def item (t : Table) : String × Item :=
  (t.name, .table .declared (t.lines.map fun l => (l.name, .value l.value)))

/-- The table as it is read, with its fields in the order of their names. -/
def field (t : Table) : String × Value :=
  (t.name, .table (sortFields (t.lines.map fun l => (l.name, l.value))))

end Table

theorem takes_lines {fs : Fields} {name : String} (h : name ∉ fs.map Prod.fst) (lines : List Line)
    (sub : Fields) (hnames : (sub.map Prod.fst ++ lines.map Line.name).Nodup) :
    Takes ⟨[name], fs ++ [(name, .table .declared sub)]⟩ (lines.flatMap Line.chars)
      ⟨[name],
        fs ++ [(name, .table .declared (sub ++ lines.map fun l => (l.name, .value l.value)))]⟩ := by
  induction lines generalizing sub with
  | nil => simpa using Takes.nil _
  | cons l lines ih =>
    have hl : l.name ∉ sub.map Prod.fst := fun hmem =>
      (List.nodup_append.1 hnames).2.2 _ hmem _ (by simp) rfl
    have hrest := ih (sub ++ [(l.name, .value l.value)]) (by simpa using hnames)
    rw [List.append_assoc] at hrest
    exact (takes_line h hl).append hrest

theorem takes_tables (ts : List Table) (fs : Fields) (last : List String)
    (hnames : (fs.map Prod.fst ++ ts.map Table.name).Nodup) :
    ∃ last', Takes ⟨last, fs⟩ (ts.flatMap Table.chars) ⟨last', fs ++ ts.map Table.item⟩ := by
  induction ts generalizing fs last with
  | nil => exact ⟨last, by simpa using Takes.nil _⟩
  | cons t ts ih =>
    have ht : t.name ∉ fs.map Prod.fst := fun hmem =>
      (List.nodup_append.1 hnames).2.2 _ hmem _ (by simp) rfl
    obtain ⟨last', hrest⟩ := ih (fs ++ [t.item]) [t.name] (by simpa [Table.item] using hnames)
    rw [List.append_assoc] at hrest
    have htable := (takes_header ht last).append
      (takes_lines ht t.lines [] (by simpa using t.nodup_names))
    exact ⟨last', htable.append hrest⟩

theorem fieldValues_eq_map (fs : Fields) : fieldValues fs = fs.map fieldValue := by
  induction fs with
  | nil => simp [fieldValues]
  | cons f fs ih => simp [fieldValues, ih]

theorem fieldValue_item (t : Table) : fieldValue t.item = t.field := by
  simp [Table.item, Table.field, fieldValue, Item.toValue, fieldValues_eq_map, Function.comp_def]

/-- Tables under different headers are read in the order of their names. -/
theorem parse?_tables {ts : List Table} (h : (ts.map Table.name).Nodup) :
    parse? (String.ofList (ts.flatMap Table.chars)) =
      some (.table (sortFields (ts.map Table.field))) := by
  have hmark : withoutMark (ts.flatMap Table.chars) = ts.flatMap Table.chars := by
    cases ts <;> rfl
  obtain ⟨last, htakes⟩ := takes_tables ts [] [] (by simpa using h)
  obtain ⟨fuel, hfuel, hrun⟩ := htakes [] ((ts.flatMap Table.chars).length + 1) (by simp)
  obtain ⟨fuel, rfl⟩ : ∃ n, fuel = n + 1 := Nat.exists_eq_add_one.2 hfuel
  have hfields : ts.map (fieldValue ∘ Table.item) = ts.map Table.field :=
    List.map_congr_left fun t _ => fieldValue_item t
  have hend : Draft.run ⟨last, ts.map Table.item⟩ (fuel + 1) [] = some (ts.map Table.item) := rfl
  rw [List.append_nil, List.nil_append, hend] at hrun
  rw [parse?, String.toList_ofList, hmark, hrun, Option.map_some, Item.toValue,
    fieldValues_eq_map, List.map_map, hfields]

/-! ## Whole documents -/

theorem whole?_string (s : String) : whole? (.string s) = some (.string s) := by
  simp [whole?]

/-- A list is taken in as it stands if all its items are. -/
theorem whole?_list {vs : List Value} (h : ∀ v ∈ vs, whole? v = some v) :
    whole? (.list vs) = some (.list vs) := by
  have hitems : wholeItems? vs = some vs := by
    induction vs with
    | nil => rw [wholeItems?]
    | cons v vs ih =>
      rw [wholeItems?, h v List.mem_cons_self, Option.bind_some,
        ih fun v hv => h v (List.mem_cons_of_mem _ hv), Option.map_some]
  rw [whole?, hitems, Option.map_some]

theorem wholeFields?_of_forall {fs : List (String × Value)} (h : ∀ f ∈ fs, whole? f.2 = some f.2) :
    wholeFields? fs = some fs := by
  induction fs with
  | nil => rw [wholeFields?]
  | cons f fs ih =>
    rw [wholeFields?, wholeField?, h f List.mem_cons_self, Option.map_some, Option.bind_some,
      ih fun f hf => h f (List.mem_cons_of_mem _ hf), Option.map_some]

/-- No name of a field makes its table a date. -/
theorem whole?_table {fs : List (String × Value)}
    (h : ∀ f ∈ fs, f.1 ≠ dateField ∧ whole? f.2 = some f.2) :
    whole? (.table fs) = some (.table fs) := by
  have hdate : standsForDate fs = false := by
    cases fs with
    | nil => rfl
    | cons f fs => exact beq_false_of_ne (h f List.mem_cons_self).1
  rw [whole?, hdate, if_neg Bool.false_ne_true, wholeFields?_of_forall fun f hf => (h f hf).2,
    Option.map_some]

/-- Tables of values that are taken in as they stand are read in the order of their names. -/
theorem parseFields?_tables {ts : List Table} (h : (ts.map Table.name).Nodup)
    (hlines : ∀ t ∈ ts, ∀ l ∈ t.lines, l.name ≠ dateField ∧ whole? l.value = some l.value) :
    parseFields? (String.ofList (ts.flatMap Table.chars)) =
      some (sortFields (ts.map Table.field)) := by
  have hwhole : wholeFields? (sortFields (ts.map Table.field)) =
      some (sortFields (ts.map Table.field)) := by
    refine wholeFields?_of_forall fun f hf => ?_
    obtain ⟨t, ht, rfl⟩ := List.mem_map.1 (List.mem_mergeSort.1 hf)
    refine whole?_table fun g hg => ?_
    obtain ⟨l, hl, rfl⟩ := List.mem_map.1 (List.mem_mergeSort.1 hg)
    exact hlines t ht l hl
  rw [parseFields?, parse?_tables h]
  exact hwhole

end LineCensus.Document.Toml
