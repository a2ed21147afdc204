import LineCensus.Document.Json.Printer
import LineCensus.Document.Json.Reader
import Mathlib.Data.List.Basic

/-!
# Reading what is printed

A value of texts, lists and tables is printed as JSON that stands for it. The text is read in
two steps, which are taken apart here too: a piece of it is cut into the same tokens whatever
stands around it, and the tokens of a value lead from the place where a value must come to
the place behind it, whatever is still open.
-/
namespace LineCensus.Document

/-- A value made of texts, lists and tables that are nested at most so deep. -/
inductive Value.Plain : ℕ → Value → Prop
  | string {depth : ℕ} (text : String) : Plain depth (.string text)
  | list {depth : ℕ} {items : List Value} (h : ∀ v ∈ items, Plain depth v) :
      Plain (depth + 1) (.list items)
  | table {depth : ℕ} {fields : List (String × Value)} (h : ∀ f ∈ fields, Plain depth f.2) :
      Plain (depth + 1) (.table fields)

namespace Json

/-! ## Strings -/

theorem hexValue?_hexDigit : ∀ n < 16, hexValue? (hexDigit n) = some n := by
  decide

/-- The letters that stand for characters behind a backslash, and these characters. -/
def shortEscapes : List (Char × Char) :=
  [('"', '"'), ('\\', '\\'), ('b', '\x08'), ('f', '\x0c'), ('n', '\n'), ('r', '\r'), ('t', '\t')]

/-- The code point of a character behind a backslash. -/
def codeEscape (c : Char) : List Char :=
  ['\\', 'u', '0', '0', hexDigit (c.toNat / 16), hexDigit (c.toNat % 16)]

/-- What stands in a string as it is: all but quotes, backslashes and controls. -/
theorem escapeChar_cases (c : Char) :
    (∃ d, (d, c) ∈ shortEscapes ∧ escapeChar c = ['\\', d]) ∨
      (c.toNat < 0x20 ∧ escapeChar c = codeEscape c) ∨
      (c ≠ '"' ∧ c ≠ '\\' ∧ ¬ c < ' ' ∧ escapeChar c = [c]) := by
  unfold escapeChar
  split_ifs with h₁ h₂ h₃ h₄ h₅ h₆ h₇ h₈
  · exact Or.inl ⟨'"', by simp [h₁, shortEscapes], rfl⟩
  · exact Or.inl ⟨'\\', by simp [h₂, shortEscapes], rfl⟩
  · exact Or.inl ⟨'b', by simp [h₃, shortEscapes], rfl⟩
  · exact Or.inl ⟨'f', by simp [h₄, shortEscapes], rfl⟩
  · exact Or.inl ⟨'n', by simp [h₅, shortEscapes], rfl⟩
  · exact Or.inl ⟨'r', by simp [h₆, shortEscapes], rfl⟩
  · exact Or.inl ⟨'t', by simp [h₇, shortEscapes], rfl⟩
  · exact Or.inr (Or.inl ⟨Char.lt_def.1 h₈, rfl⟩)
  · exact Or.inr (Or.inr ⟨h₁, h₂, h₈, rfl⟩)

theorem stringBody?_backslash {done s t : List Char} {c : Char} (h : escape? s = some (c, t)) :
    stringBody? done ('\\' :: s) = stringBody? (c :: done) t := by
  rw [stringBody?, if_neg (by decide), if_pos rfl]
  split
  · rename_i h'
    rw [h] at h'
    cases h'
    rfl
  · rename_i h'
    rw [h] at h'
    cases h'

/-- A character is escaped so that it is read as itself. -/
theorem stringBody?_escapeChar (done : List Char) (c : Char) (s : List Char) :
    stringBody? done (escapeChar c ++ s) = stringBody? (c :: done) s := by
  rcases escapeChar_cases c with ⟨d, hd, hc⟩ | ⟨hlt, hc⟩ | ⟨hquote, hback, hlt, hc⟩
  · have hshort : ∀ p ∈ shortEscapes, p.1 ≠ 'u' ∧ shortEscape? p.1 = some p.2 := by decide
    obtain ⟨hu, hescape⟩ := hshort _ hd
    rw [hc]
    exact stringBody?_backslash (by simp [escape?, hu, hescape])
  · have hunit : codeUnit? ('0' :: '0' :: hexDigit (c.toNat / 16) :: hexDigit (c.toNat % 16) :: s) =
        some (c.toNat, s) := by
      have hzero : hexValue? '0' = some 0 := rfl
      have hhigh := hexValue?_hexDigit (c.toNat / 16) (by omega)
      have hlow := hexValue?_hexDigit (c.toNat % 16) (by omega)
      simp only [codeUnit?, hexNumber?, hzero, hhigh, hlow, bind, pure, Option.bind_some,
        Option.map_some, Option.some.injEq, Prod.mk.injEq, and_true]
      omega
    have hunicode :
        unicode? ('0' :: '0' :: hexDigit (c.toNat / 16) :: hexDigit (c.toNat % 16) :: s) =
          some (c, s) := by
      rw [unicode?, hunit]
      dsimp only
      rw [if_neg (by omega), if_neg (by omega), Char.ofNat_toNat]
    rw [hc]
    exact stringBody?_backslash hunicode
  · rw [hc, List.singleton_append, stringBody?, if_neg hquote, if_neg hback, if_neg hlt]

theorem stringBody?_escaped (done cs rest : List Char) :
    stringBody? done (cs.flatMap escapeChar ++ '"' :: rest) = some (done.reverse ++ cs, rest) := by
  induction cs generalizing done with
  | nil => rw [List.flatMap_nil, List.nil_append, stringBody?, if_pos rfl, List.append_nil]
  | cons c cs ih =>
    rw [List.flatMap_cons, List.append_assoc, stringBody?_escapeChar, ih]
    simp

/-! ## Tokens -/

/-- A piece of text that is cut into these tokens, whatever stands around it. -/
def Spells (s : List Char) (ts : List Token) : Prop :=
  ∀ done rest, tokensFrom done (s ++ rest) = tokensFrom (ts.reverse ++ done) rest

theorem Spells.nil : Spells [] [] := fun _ _ => rfl

theorem Spells.append {s s' : List Char} {ts ts' : List Token} (h : Spells s ts)
    (h' : Spells s' ts') : Spells (s ++ s') (ts ++ ts') := by
  intro done rest
  rw [List.append_assoc, h, h', List.reverse_append, List.append_assoc]

theorem spells_space {c : Char} (h : isSpace c = true) : Spells [c] [] := by
  intro done rest
  rw [List.singleton_append, tokensFrom, if_pos h]
  rfl

theorem spells_newline (level : ℕ) : Spells (newline level) [] := by
  have hblanks : ∀ n, Spells (List.replicate n ' ') [] := by
    intro n
    induction n with
    | zero => exact .nil
    | succ n ih => exact (spells_space (by decide)).append ih
  exact (spells_space (c := '\n') (by decide)).append (hblanks _)

theorem spells_mark {c : Char} {t : Token} (hspace : isSpace c = false) (h : mark? c = some t) :
    Spells [c] [t] := by
  intro done rest
  rw [List.singleton_append, tokensFrom, hspace, if_neg Bool.false_ne_true]
  simp only [h]
  rfl

theorem spells_listOpen : Spells ['['] [.listOpen] := spells_mark rfl rfl

theorem spells_listClose : Spells [']'] [.listClose] := spells_mark rfl rfl

theorem spells_tableOpen : Spells ['\x7b'] [.tableOpen] := spells_mark rfl rfl

theorem spells_tableClose : Spells ['\x7d'] [.tableClose] := spells_mark rfl rfl

theorem spells_comma : Spells [','] [.comma] := spells_mark rfl rfl

theorem spells_colon : Spells [':'] [.colon] := spells_mark rfl rfl

theorem spells_quote (s : String) : Spells (quote s) [.scalar (.string s)] := by
  intro done rest
  have hbody : stringBody? [] (s.toList.flatMap escapeChar ++ '"' :: rest) =
      some (s.toList, rest) :=
    stringBody?_escaped [] s.toList rest
  have hmark : mark? '"' = none := by decide
  rw [quote, List.cons_append, List.cons_append, List.append_assoc, List.singleton_append,
    tokensFrom, if_neg (by decide)]
  simp only [hmark, if_pos]
  split
  · rename_i h
    rw [hbody] at h
    cases h
    rw [String.ofList_toList]
    rfl
  · rename_i h
    rw [hbody] at h
    cases h

theorem Spells.field {level : ℕ} {f : String × Value} {ts : List Token}
    (h : Spells (render level f.2) ts) :
    Spells (renderField level f) (.scalar (.string f.1) :: .colon :: ts) := by
  rw [renderField]
  exact (spells_quote f.1).append (spells_colon.append ((spells_space (c := ' ') rfl).append h))

/-! ## Values -/

theorem State.readAll_cons (s : State) (t : Token) (ts : List Token) :
    s.readAll (t :: ts) = (s.read t).bind (·.readAll ts) := rfl

/-- Tokens that lead from where a value must come to behind this value, if so many more
lists and tables may be open. -/
def Reads (depth : ℕ) (ts : List Token) (v : Value) : Prop :=
  ∀ stack rest, stack.length + depth ≤ maxDepth →
    (State.value stack).readAll (ts ++ rest) = (State.after v stack).readAll rest

/-- Where a list has opened, a value may come as well as the end. -/
theorem Reads.listStart {depth : ℕ} {ts : List Token} {v : Value} (h : Reads depth ts v)
    {stack : List Frame} (hdepth : stack.length + (depth + 1) ≤ maxDepth) (rest : List Token) :
    (State.listStart stack).readAll (ts ++ rest) =
      (State.after v (.list [] :: stack)).readAll rest := by
  have hnil := h stack [] (by omega)
  cases ts with
  | nil => cases hnil
  | cons t ts =>
    rw [← h (.list [] :: stack) rest (by simp only [List.length_cons]; omega)]
    cases t
    case listClose => cases hnil
    all_goals rfl

/-- The text of a value, and tokens that it is cut into and that are read as the value. -/
def Printed (depth level : ℕ) (v : Value) : Prop :=
  ∃ ts, Spells (render level v) ts ∧ Reads depth ts v

theorem printed_string (depth level : ℕ) (s : String) : Printed depth level (.string s) := by
  refine ⟨[.scalar (.string s)], ?_, fun stack rest _ => rfl⟩
  rw [render]
  exact spells_quote s

theorem exists_tokens_renderItems {depth level : ℕ} {items : List Value}
    (h : ∀ v ∈ items, Printed depth level v) :
    ∃ ts, Spells (renderItems level items) ts ∧ ∀ v done stack rest,
      stack.length + (depth + 1) ≤ maxDepth →
        (State.after v (.list done :: stack)).readAll (ts ++ .listClose :: rest) =
          (State.after (.list (done.reverse ++ v :: items)) stack).readAll rest := by
  induction items with
  | nil =>
    refine ⟨[], .nil, fun v done stack rest _ => ?_⟩
    rw [List.nil_append, State.readAll_cons]
    simp [State.read]
  | cons w items ih =>
    obtain ⟨tw, hspell, hread⟩ := h w List.mem_cons_self
    obtain ⟨ts, hspells, hreads⟩ := ih fun v hv => h v (List.mem_cons_of_mem _ hv)
    refine ⟨.comma :: (tw ++ ts), ?_, fun v done stack rest hdepth => ?_⟩
    · rw [renderItems]
      have hcomma := spells_comma.append
        (((spells_newline level).append hspell).append hspells)
      simpa using hcomma
    · rw [List.cons_append, List.append_assoc, State.readAll_cons]
      have hvalue := hread (.list (v :: done) :: stack) (ts ++ .listClose :: rest)
        (by simp only [List.length_cons]; omega)
      have hrest := hreads w (v :: done) stack rest hdepth
      rw [List.reverse_cons, List.append_assoc] at hrest
      exact hvalue.trans hrest

theorem exists_tokens_renderFields {depth level : ℕ} {fields : List (String × Value)}
    (h : ∀ f ∈ fields, Printed depth level f.2) :
    ∃ ts, Spells (renderFields level fields) ts ∧ ∀ f done stack rest,
      stack.length + (depth + 1) ≤ maxDepth →
        (State.after f.2 (.table done f.1 :: stack)).readAll (ts ++ .tableClose :: rest) =
          (State.after (.table (done.reverse ++ f :: fields)) stack).readAll rest := by
  induction fields with
  | nil =>
    refine ⟨[], .nil, fun f done stack rest _ => ?_⟩
    rw [List.nil_append, State.readAll_cons]
    simp [State.read]
  | cons g fields ih =>
    obtain ⟨tg, hspell, hread⟩ := h g List.mem_cons_self
    obtain ⟨ts, hspells, hreads⟩ := ih fun f hf => h f (List.mem_cons_of_mem _ hf)
    refine ⟨.comma :: .scalar (.string g.1) :: .colon :: (tg ++ ts), ?_,
      fun f done stack rest hdepth => ?_⟩
    · rw [renderFields]
      have hcomma := spells_comma.append
        (((spells_newline level).append hspell.field).append hspells)
      simpa using hcomma
    · rw [List.cons_append, State.readAll_cons]
      have hvalue := hread (.table (f :: done) g.1 :: stack) (ts ++ .tableClose :: rest)
        (by simp only [List.length_cons]; omega)
      have hrest := hreads g (f :: done) stack rest hdepth
      rw [List.reverse_cons, List.append_assoc] at hrest
      simp only [List.cons_append, List.append_assoc]
      exact hvalue.trans hrest

theorem printed_list {depth level : ℕ} {items : List Value}
    (h : ∀ v ∈ items, Printed depth (level + 1) v) : Printed (depth + 1) level (.list items) := by
  cases items with
  | nil =>
    refine ⟨[.listOpen, .listClose], ?_, fun stack rest hdepth => ?_⟩
    · rw [render]
      exact spells_listOpen.append spells_listClose
    · have hroom : stack.length < maxDepth := by omega
      simp [State.readAll_cons, State.read, readValue, hroom]
  | cons v items =>
    obtain ⟨tv, hspell, hread⟩ := h v List.mem_cons_self
    obtain ⟨ts, hspells, hreads⟩ :=
      exists_tokens_renderItems fun w hw => h w (List.mem_cons_of_mem _ hw)
    refine ⟨.listOpen :: (tv ++ (ts ++ [.listClose])), ?_, fun stack rest hdepth => ?_⟩
    · rw [render]
      have hall := spells_listOpen.append ((spells_newline (level + 1)).append (hspell.append
        (hspells.append ((spells_newline level).append spells_listClose))))
      simpa using hall
    · have hroom : stack.length < maxDepth := by omega
      have hitems := hreads v [] stack rest hdepth
      rw [List.cons_append, State.readAll_cons]
      simp only [State.read, readValue, if_pos hroom, Option.bind_some, List.append_assoc]
      rw [hread.listStart hdepth]
      simpa using hitems

theorem printed_table {depth level : ℕ} {fields : List (String × Value)}
    (h : ∀ f ∈ fields, Printed depth (level + 1) f.2) :
    Printed (depth + 1) level (.table fields) := by
  cases fields with
  | nil =>
    refine ⟨[.tableOpen, .tableClose], ?_, fun stack rest hdepth => ?_⟩
    · rw [render]
      exact spells_tableOpen.append spells_tableClose
    · have hroom : stack.length < maxDepth := by omega
      simp [State.readAll_cons, State.read, readValue, hroom]
  | cons f fields =>
    obtain ⟨tf, hspell, hread⟩ := h f List.mem_cons_self
    obtain ⟨ts, hspells, hreads⟩ :=
      exists_tokens_renderFields fun g hg => h g (List.mem_cons_of_mem _ hg)
    refine ⟨.tableOpen :: .scalar (.string f.1) :: .colon :: (tf ++ (ts ++ [.tableClose])), ?_,
      fun stack rest hdepth => ?_⟩
    · rw [render]
      have hall := spells_tableOpen.append ((spells_newline (level + 1)).append
        (hspell.field.append (hspells.append ((spells_newline level).append spells_tableClose))))
      simpa using hall
    · have hroom : stack.length < maxDepth := by omega
      have hfields := hreads f [] stack rest hdepth
      have hvalue := hread (.table [] f.1 :: stack) (ts ++ .tableClose :: rest)
        (by simp only [List.length_cons]; omega)
      rw [List.cons_append, State.readAll_cons]
      simp only [State.read, readValue, if_pos hroom, Option.bind_some, List.append_assoc,
        List.cons_append]
      exact hvalue.trans (by simpa using hfields)

/-- What is printed for texts, lists and tables is read as what it was printed for. -/
theorem parse?_pretty {v : Value} (h : v.Plain maxDepth) : parse? (pretty v) = some v := by
  have hprinted : ∀ {depth : ℕ} {v : Value}, v.Plain depth → ∀ level, Printed depth level v := by
    intro depth v h
    induction h with
    | string text => exact fun level => printed_string _ level text
    | list _ ih => exact fun level => printed_list fun v hv => ih v hv (level + 1)
    | table _ ih => exact fun level => printed_table fun f hf => ih f hf (level + 1)
  obtain ⟨ts, hspell, hread⟩ := hprinted h 0
  have htokens : tokens? (render 0 v) = some ts := by
    have hall := hspell [] []
    rw [List.append_nil, List.append_nil] at hall
    rw [tokens?, hall, tokensFrom, List.reverse_reverse]
  have hvalue := hread [] [] (by simp)
  rw [List.append_nil] at hvalue
  rw [parse?, pretty, String.toList_ofList, htokens, Option.bind_some, ofTokens?, hvalue]
  rfl

end Json

end LineCensus.Document
