import LineCensus.Proofs.Count.Compiled
import LineCensus.Proofs.Count.Lookout

/-!
# Awaited tokens

At every turn at every line of every text a scan waits for at most one token. It closes a block
of the definition, a comment if it is in the cell for comments and a string if it is in the one
for strings, and a block without a closing token is not waited for. Read with two cells, a text
has the tally that it has when it is read with one open block.
-/
namespace LineCensus.Count

open LineCensus.Text

/-! ## Declared tokens -/

theorem Marker.elim_ofString? (s : String) : (ofString? s).elim [] chars = s.toList := by
  unfold ofString? ofChars?
  split
  · rename_i h
    exact h.symm
  · rfl

namespace Block

theorem mem_of_first? {column place : ℕ} {line : List Char} {bs : List Block} {b : Block}
    (h : first? column line bs = some (place, b)) : b ∈ bs := by
  rw [first?_eq] at h
  obtain ⟨p, hp, heq⟩ := Option.map_eq_some_iff.1 h
  cases heq
  exact (earliest?_eq_some hp).1

theorem awaited_of_ofDelimiters? {p : Delimiters} {b : Block} (h : ofDelimiters? p = some b) :
    b.awaited = p.stop.toList := by
  obtain ⟨m, -, rfl⟩ := Option.map_eq_some_iff.1 h
  exact Marker.elim_ofString? p.stop

end Block

variable {d : LanguageDefinition}

/-- The pairs of the sort that is opened. -/
def Opening.pairs (d : LanguageDefinition) : Opening → List Delimiters
  | comment _ => d.blockComments
  | string _ => d.blockStrings

/-- What is opened is a declared pair whose opening token is not empty, and what is awaited
behind it is the closing token of that pair. -/
structure Opening.IsPair (d : LanguageDefinition) (o : Opening) (p : Delimiters) : Prop where
  mem : p ∈ o.pairs d
  start_ne : p.start ≠ ""
  opening_eq : o.block.openingChars = p.start.toList
  awaited_eq : o.block.awaited = p.stop.toList

namespace Opening

variable {o : Opening} {p : Delimiters}

theorem isPair_of_ofDelimiters? (hp : p ∈ o.pairs d) (h : Block.ofDelimiters? p = some o.block) :
    o.IsPair d p where
  mem := hp
  start_ne hempty := o.block.openingChars_ne_nil (by
    rw [Block.openingChars_of_ofDelimiters? h, hempty, String.toList_empty])
  opening_eq := Block.openingChars_of_ofDelimiters? h
  awaited_eq := Block.awaited_of_ofDelimiters? h

/-- Behind a pair without a closing token nothing is awaited. -/
theorem IsPair.awaited_eq_empty (h : o.IsPair d p) (hstop : p.stop = "") : o.awaited = {} := by
  have hnone : o.block.awaited = [] := by rw [h.awaited_eq, hstop, String.toList_empty]
  cases o with
  | comment b => exact congrArg (Awaited.mk · []) hnone
  | string b => exact congrArg (Awaited.mk []) hnone

theorem exists_isPair {s : Lookout}
    (h : s.opening? (.ofDefinition d) = some o) : ∃ p, o.IsPair d p := by
  unfold Lookout.opening? at h
  split at h
  · split at h
    · rename_i place b hb
      cases h
      obtain ⟨p, hp, hcompiled⟩ := List.mem_filterMap.1 (Block.mem_of_first? hb)
      exact ⟨p, isPair_of_ofDelimiters? hp hcompiled⟩
    · obtain ⟨⟨place, b⟩, hb, heq⟩ := Option.map_eq_some_iff.1 h
      cases heq
      obtain ⟨p, hp, hcompiled⟩ := List.mem_filterMap.1 (Block.mem_of_first? hb)
      exact ⟨p, isPair_of_ofDelimiters? hp hcompiled⟩
  · cases h

end Opening

/-- At most one token is awaited, and it is the closing token of a declared pair of its sort
whose opening token is not empty. -/
structure Awaited.Declared (d : LanguageDefinition) (a : Awaited) : Prop where
  exclusive : a.Exclusive
  comment : a.comment ≠ [] → ∃ p ∈ d.blockComments, p.start ≠ "" ∧ p.stop.toList = a.comment
  string : a.string ≠ [] → ∃ p ∈ d.blockStrings, p.start ≠ "" ∧ p.stop.toList = a.string

theorem Awaited.declared_empty (d : LanguageDefinition) : ({} : Awaited).Declared d where
  exclusive := Or.inl rfl
  comment h := absurd rfl h
  string h := absurd rfl h

theorem Opening.declared_awaited {o : Opening} {p : Delimiters} (h : o.IsPair d p) :
    o.awaited.Declared d := by
  cases o with
  | comment b =>
    exact {
      exclusive := Or.inr rfl
      comment := fun _ => ⟨p, h.mem, h.start_ne, h.awaited_eq.symm⟩
      string := fun hne => absurd rfl hne }
  | string b =>
    exact {
      exclusive := Or.inl rfl
      comment := fun hne => absurd rfl hne
      string := fun _ => ⟨p, h.mem, h.start_ne, h.awaited_eq.symm⟩ }

/-- Every turn keeps what is awaited declared. -/
theorem Lookout.Goes.declared {s t : Lookout} (h : s.Goes (.ofDefinition d) t)
    (hs : s.awaited.Declared d) : t.awaited.Declared d := by
  rw [h.awaited_eq hs.exclusive]
  cases hopening : s.opening? (.ofDefinition d) with
  | none => exact Awaited.declared_empty d
  | some o =>
    obtain ⟨p, hp⟩ := Opening.exists_isPair hopening
    exact Opening.declared_awaited hp

/-! ## Texts -/

/-- What some lines have come to, and the tokens that are awaited behind them. -/
structure AwaitingReading where
  tally : Tally := 0
  awaited : Awaited := {}
deriving DecidableEq

namespace AwaitingReading

def ofReading (r : Classifier.Reading) : AwaitingReading := ⟨r.tally, .ofCarry r.carry⟩

/-- The head of a line that comes behind some others. -/
def head (r : AwaitingReading) (line : List Char) : Lookout := .start r.awaited (trimMargin line)

/-- Reads a line, whose margins do not matter. -/
def readLine (k : Classifier) (r : AwaitingReading) (line : List Char) : AwaitingReading :=
  let (kind, awaited) := (r.head line).scan k
  ⟨r.tally.record kind, awaited⟩

def readLines (k : Classifier) (r : AwaitingReading) (lines : List (List Char)) :
    AwaitingReading :=
  lines.foldl (readLine k) r

/-- Lines read with two cells come to what they come to when they are read with one open
block. -/
theorem readLines_ofReading (k : Classifier) (r : Classifier.Reading)
    (lines : List (List Char)) :
    readLines k (ofReading r) lines = ofReading (k.readLines r lines) := by
  induction lines generalizing r with
  | nil => rfl
  | cons line lines ih =>
    have hline : readLine k (ofReading r) line = ofReading (k.readLine r line) := by
      rw [readLine, head, ofReading, Lookout.scan_start_ofCarry]
      rfl
    rw [readLines, List.foldl_cons, hline]
    exact ih _

variable {d : LanguageDefinition}

/-- From the head of a line on, what is awaited stays declared, down to what the line hands
on. -/
theorem forall_places_declared {r : AwaitingReading} (h : r.awaited.Declared d)
    (line : List Char) :
    (∀ s ∈ (r.head line).places (.ofDefinition d), s.awaited.Declared d) ∧
      ((r.head line).scan (.ofDefinition d)).2.Declared d := by
  have hhead : (r.head line).awaited.Declared d := h
  obtain ⟨hplaces, u, hu, hlast⟩ := Lookout.forall_mem_places
    (fun (s t : Lookout) hs (hgoes : s.Goes (.ofDefinition d) t) => hgoes.declared hs) hhead
  exact ⟨hplaces, hlast ▸ hu⟩

theorem declared_readLines (lines : List (List Char)) :
    (readLines (.ofDefinition d) {} lines).awaited.Declared d := by
  induction lines using List.reverseRecOn with
  | nil => exact Awaited.declared_empty d
  | append_singleton lines line ih =>
    rw [readLines, List.foldl_append, List.foldl_cons, List.foldl_nil]
    exact (forall_places_declared ih line).2

/-- Reading a text with two cells gives its tally and the block it leaves open. At the head of
every line and at every turn of its scan at most one token is awaited, which closes a declared
pair of its sort whose opening token is not empty, and the same holds of what the line hands on.
Every block that the line opens is such a pair, and behind a pair without a closing token
nothing is awaited. The line hands on nothing, or what the last block that it opens awaits, or,
if it opens none, what was awaited at its head. -/
theorem declared_of_countedLines (d : LanguageDefinition) (text : List Char)
    (incomplete : Bool) :
    let k := Classifier.ofDefinition d
    let lines := countedLines text incomplete
    readLines k {} lines = ofReading (k.read text incomplete) ∧
      ∀ i : Fin lines.length,
        let start := (readLines k {} (lines.take i)).head lines[i]
        (∀ s ∈ start :: start.places k, s.awaited.Declared d) ∧
          (start.scan k).2.Declared d ∧
          (∀ o ∈ start.openings k, ∃ p, o.IsPair d p ∧ (p.stop = "" → o.awaited = {})) ∧
          ((start.scan k).2 = {} ∨
            (start.scan k).2 =
              ((start.openings k).getLast?.map Opening.awaited).getD start.awaited) := by
  intro k lines
  refine ⟨readLines_ofReading k {} lines, ?_⟩
  intro i start
  have hstart : start.awaited.Declared d := declared_readLines (lines.take i)
  obtain ⟨hplaces, hlast⟩ := forall_places_declared hstart lines[i]
  refine ⟨List.forall_mem_cons.2 ⟨hstart, hplaces⟩, hlast, ?_,
    Lookout.awaited_scan hstart.exclusive⟩
  intro o ho
  obtain ⟨s, -, hopening⟩ := List.mem_filterMap.1 ho
  obtain ⟨p, hp⟩ := Opening.exists_isPair hopening
  exact ⟨p, hp, hp.awaited_eq_empty⟩

/-- The second line ends a comment, opens one without a closing token, opens and closes a string
and hands on another one. -/
theorem declared_of_comment_without_closing :
    let d : LanguageDefinition :=
      { id := "sheet", blockComments := [⟨"/*", "*/"⟩, ⟨"%", ""⟩], blockStrings := [⟨"`", "`"⟩] }
    let k := Classifier.ofDefinition d
    let start := (readLines k {} ["a /* b".toList]).head "c */ % `d` `e".toList
    start.awaited = { comment := "*/".toList } ∧
      (start.openings k).map Opening.awaited =
        [{}, { string := "`".toList }, { string := "`".toList }] ∧
      (start.scan k).2 = { string := "`".toList } ∧
      (∀ s ∈ start :: start.places k, s.awaited.Declared d) ∧
      (start.scan k).2.Declared d := by
  intro d k start
  obtain ⟨hplaces, hlast, -, -⟩ :=
    (declared_of_countedLines d "a /* b\nc */ % `d` `e\n".toList false).2 ⟨1, by decide +kernel⟩
  exact ⟨by decide +kernel, by decide +kernel, by decide +kernel, hplaces, hlast⟩

end AwaitingReading

end LineCensus.Count
