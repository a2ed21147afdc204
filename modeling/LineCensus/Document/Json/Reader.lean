import LineCensus.Document.Json.Token

/-!
# Reading JSON

Tokens are read one after the other, with the open lists and tables on a stack. The
stack also bounds how deep values may be nested.
-/
namespace LineCensus.Document.Json

/-- An open list or table: the items before the one being read, last one first. -/
inductive Frame
  | list (done : List Value)
  | table (done : List (String × Value)) (key : String)
deriving Repr

/-- What has just been read, and with it what may come next. -/
inductive State
  /-- A value must come. -/
  | value (stack : List Frame)
  /-- A list has opened. -/
  | listStart (stack : List Frame)
  /-- A table has opened. -/
  | tableStart (stack : List Frame)
  /-- A field's name must come. -/
  | key (done : List (String × Value)) (stack : List Frame)
  /-- A colon must come. -/
  | colon (done : List (String × Value)) (key : String) (stack : List Frame)
  /-- A value is complete. -/
  | after (value : Value) (stack : List Frame)
deriving Repr

/-- How many lists and tables may be open at once. -/
def maxDepth : Nat := 127

def readValue (stack : List Frame) : Token → Option State
  | .scalar v => some (.after v stack)
  | .listOpen => if stack.length < maxDepth then some (.listStart stack) else none
  | .tableOpen => if stack.length < maxDepth then some (.tableStart stack) else none
  | _ => none

def readKey (done : List (String × Value)) (stack : List Frame) : Token → Option State
  | .scalar (.string k) => some (.colon done k stack)
  | _ => none

def State.read : State → Token → Option State
  | .value stack, t => readValue stack t
  | .listStart stack, .listClose => some (.after (.list []) stack)
  | .listStart stack, t => readValue (.list [] :: stack) t
  | .tableStart stack, .tableClose => some (.after (.table []) stack)
  | .tableStart stack, t => readKey [] stack t
  | .key done stack, t => readKey done stack t
  | .colon done k stack, .colon => some (.value (.table done k :: stack))
  | .after v (.list done :: stack), .comma => some (.value (.list (v :: done) :: stack))
  | .after v (.list done :: stack), .listClose =>
    some (.after (.list (v :: done).reverse) stack)
  | .after v (.table done k :: stack), .comma => some (.key ((k, v) :: done) stack)
  | .after v (.table done k :: stack), .tableClose =>
    some (.after (.table ((k, v) :: done).reverse) stack)
  | _, _ => none

/-- Reads tokens as long as they fit. -/
def State.readAll (s : State) (ts : List Token) : Option State := ts.foldlM State.read s

/-- The value of a whole text. -/
def State.result? : State → Option Value
  | .after v [] => some v
  | _ => none

def ofTokens? (ts : List Token) : Option Value :=
  ((State.value []).readAll ts).bind State.result?

/-- The value that a text stands for. -/
def parse? (s : String) : Option Value := (tokens? s.toList).bind ofTokens?

end LineCensus.Document.Json
