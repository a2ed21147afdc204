import LineCensus.Document.Json.Reader
import Mathlib.Data.List.Basic

/-!
# Values that JSON can write

The scalars of a JSON text are words, numbers and strings, and no step of the reader makes
others of them: every value that is open or complete is made of such scalars in lists and
tables. So no date is read from a JSON text, at whatever depth.
-/
namespace LineCensus.Document

/-- A value made of words, numbers and texts in lists and tables. -/
inductive Value.IsJson : Value → Prop
  | null : IsJson .null
  | boolean (value : Bool) : IsJson (.boolean value)
  | integer (value : Int) : IsJson (.integer value)
  | real (text : String) : IsJson (.real text)
  | string (text : String) : IsJson (.string text)
  | list {items : List Value} (h : ∀ v ∈ items, IsJson v) : IsJson (.list items)
  | table {fields : List (String × Value)} (h : ∀ f ∈ fields, IsJson f.2) : IsJson (.table fields)

theorem Value.IsJson.of_mem_list {items : List Value} (h : IsJson (.list items)) :
    ∀ v ∈ items, v.IsJson := by
  cases h with
  | list h => exact h

theorem Value.IsJson.of_mem_table {fields : List (String × Value)} (h : IsJson (.table fields)) :
    ∀ f ∈ fields, f.2.IsJson := by
  cases h with
  | table h => exact h

namespace Json

/-! ## Tokens -/

def Token.IsJson : Token → Prop
  | .scalar v => v.IsJson
  | _ => True

theorem isJson_of_number? {s : List Char} {v : Value} (h : number? s = some v) : v.IsJson := by
  simp only [number?, Option.ite_none_left_eq_some] at h
  rcases ite_eq_iff.1 h.2 with ⟨-, hwhole⟩ | ⟨-, hreal⟩
  · cases hwhole
    exact .integer _
  · simp only [Option.bind_eq_some_iff, Option.map_eq_some_iff] at hreal
    obtain ⟨-, -, -, -, rfl⟩ := hreal
    exact .real _

theorem isJson_of_word? {s : List Char} {v : Value} (h : word? s = some v) : v.IsJson := by
  unfold word? at h
  split_ifs at h <;> cases h
  · exact .null
  · exact .boolean true
  · exact .boolean false

theorem isJson_of_mark? {c : Char} {t : Token} (h : mark? c = some t) : t.IsJson := by
  unfold mark? at h
  split_ifs at h <;> cases h <;> trivial

theorem isJson_of_tokensFrom {done ts : List Token} {s : List Char}
    (hdone : ∀ t ∈ done, t.IsJson) (h : tokensFrom done s = some ts) : ∀ t ∈ ts, t.IsJson := by
  fun_induction tokensFrom done s with
  | case1 done =>
    cases h
    exact fun t ht => hdone t (List.mem_reverse.1 ht)
  | case2 done c s _ ih => exact ih hdone h
  | case3 done c s _ mark hmark ih =>
    exact ih (List.forall_mem_cons.2 ⟨isJson_of_mark? hmark, hdone⟩) h
  | case4 done s _ hmark body t hbody _ ih =>
    exact ih (List.forall_mem_cons.2 ⟨.string _, hdone⟩) h
  | case5 => cases h
  | case6 done c s _ hmark _ _ value hvalue _ ih =>
    exact ih (List.forall_mem_cons.2 ⟨isJson_of_number? hvalue, hdone⟩) h
  | case7 => cases h
  | case8 done c s _ hmark _ _ _ value hvalue _ ih =>
    exact ih (List.forall_mem_cons.2 ⟨isJson_of_word? hvalue, hdone⟩) h
  | case9 => cases h
  | case10 => cases h

/-! ## States of the reader -/

def Frame.IsJson : Frame → Prop
  | .list done => ∀ v ∈ done, v.IsJson
  | .table done _ => ∀ f ∈ done, f.2.IsJson

/-- What has been read so far is made of such values. -/
def State.IsJson : State → Prop
  | .value stack | .listStart stack | .tableStart stack => ∀ f ∈ stack, f.IsJson
  | .key done stack | .colon done _ stack => (∀ f ∈ done, f.2.IsJson) ∧ ∀ f ∈ stack, f.IsJson
  | .after v stack => v.IsJson ∧ ∀ f ∈ stack, f.IsJson

theorem isJson_of_readValue {stack : List Frame} {t : Token} {s : State}
    (hstack : ∀ f ∈ stack, f.IsJson) (ht : t.IsJson) (h : readValue stack t = some s) :
    s.IsJson := by
  cases t with
  | scalar v =>
    cases h
    exact ⟨ht, hstack⟩
  | listOpen | tableOpen =>
    obtain ⟨-, hs⟩ := Option.ite_none_right_eq_some.1 h
    cases hs
    exact hstack
  | _ => cases h

theorem isJson_of_readKey {done : List (String × Value)} {stack : List Frame} {t : Token}
    {s : State} (hdone : ∀ f ∈ done, f.2.IsJson) (hstack : ∀ f ∈ stack, f.IsJson)
    (h : readKey done stack t = some s) : s.IsJson := by
  unfold readKey at h
  split at h
  · cases h
    exact ⟨hdone, hstack⟩
  · cases h

/-- Reading a token keeps to such values. -/
theorem State.IsJson.read {s s' : State} {t : Token} (hs : s.IsJson) (ht : t.IsJson)
    (h : s.read t = some s') : s'.IsJson := by
  have hnil : (Value.list []).IsJson := .list fun _ hv => absurd hv List.not_mem_nil
  have hempty : (Value.table []).IsJson := .table fun _ hf => absurd hf List.not_mem_nil
  unfold State.read at h
  split at h
  case h_1 => exact isJson_of_readValue hs ht h
  case h_2 =>
    cases h
    exact ⟨hnil, hs⟩
  case h_3 _ stack _ =>
    have hopened : ∀ f ∈ Frame.list [] :: stack, f.IsJson :=
      List.forall_mem_cons.2 ⟨fun _ hv => absurd hv List.not_mem_nil, hs⟩
    exact isJson_of_readValue hopened ht h
  case h_4 =>
    cases h
    exact ⟨hempty, hs⟩
  case h_5 => exact isJson_of_readKey (fun _ hf => absurd hf List.not_mem_nil) hs h
  case h_6 => exact isJson_of_readKey hs.1 hs.2 h
  case h_7 =>
    cases h
    exact List.forall_mem_cons.2 hs
  case h_8 v done stack =>
    -- the value is an item of the list that is open
    obtain ⟨hdone, hstack⟩ := List.forall_mem_cons.1 hs.2
    cases h
    exact List.forall_mem_cons.2 ⟨List.forall_mem_cons.2 ⟨hs.1, hdone⟩, hstack⟩
  case h_9 v done stack =>
    obtain ⟨hdone, hstack⟩ := List.forall_mem_cons.1 hs.2
    have hitems : ∀ w ∈ v :: done, w.IsJson := List.forall_mem_cons.2 ⟨hs.1, hdone⟩
    cases h
    exact ⟨.list fun w hw => hitems w (List.mem_reverse.1 hw), hstack⟩
  case h_10 v done k stack =>
    -- the value is that of a field of the table that is open
    obtain ⟨hdone, hstack⟩ := List.forall_mem_cons.1 hs.2
    cases h
    exact ⟨List.forall_mem_cons.2 ⟨hs.1, hdone⟩, hstack⟩
  case h_11 v done k stack =>
    obtain ⟨hdone, hstack⟩ := List.forall_mem_cons.1 hs.2
    have hfields : ∀ f ∈ (k, v) :: done, f.2.IsJson := List.forall_mem_cons.2 ⟨hs.1, hdone⟩
    cases h
    exact ⟨.table fun f hf => hfields f (List.mem_reverse.1 hf), hstack⟩
  case h_12 => cases h

theorem State.IsJson.readAll {s s' : State} {ts : List Token} (hs : s.IsJson)
    (hts : ∀ t ∈ ts, t.IsJson) (h : s.readAll ts = some s') : s'.IsJson := by
  induction ts generalizing s with
  | nil =>
    cases h
    exact hs
  | cons t ts ih =>
    obtain ⟨ht, hts⟩ := List.forall_mem_cons.1 hts
    rw [State.readAll, List.foldlM_cons] at h
    obtain ⟨s₁, hread, hrest⟩ := Option.bind_eq_some_iff.1 h
    exact ih (hs.read ht hread) hts hrest

/-- What is read from a text is made of words, numbers and texts in lists and tables. -/
theorem isJson_of_parse? {s : String} {v : Value} (h : parse? s = some v) : v.IsJson := by
  obtain ⟨ts, htokens, hread⟩ := Option.bind_eq_some_iff.1 h
  obtain ⟨s', hall, hresult⟩ := Option.bind_eq_some_iff.1 hread
  have hts := isJson_of_tokensFrom (fun _ ht => absurd ht List.not_mem_nil) htokens
  have hstart : (State.value []).IsJson := fun _ hf => absurd hf List.not_mem_nil
  have hend := hstart.readAll hts hall
  unfold State.result? at hresult
  split at hresult
  · cases hresult
    exact hend.1
  · cases hresult

end Json

end LineCensus.Document
