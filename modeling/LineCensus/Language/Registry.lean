import Std.Data.HashMap
import LineCensus.Language.Catalog
import LineCensus.Language.Fault
import LineCensus.OrderedMap
import LineCensus.Path
import LineCensus.Text.Blank
import LineCensus.Text.Lowercase

/-!
# The language registry

The definitions of a run, in order, with two indexes over them: one by whole file name
and one by suffix in lower case. In both the first definition that claims a key has it.
Overrides replace whole definitions in place and add new ones at the end.
-/
namespace LineCensus

/-- Languages by id, in the order in which they were declared. -/
abbrev Overrides := OrderedMap LanguageDefinition

namespace Registry

/-- The definitions that keys lead to. -/
abbrev Index := Std.HashMap String LanguageDefinition

/-- Adds the keys of a definition that no definition before it has. -/
def addKeys (d : LanguageDefinition) (keys : List String) (index : Index) : Index :=
  keys.foldl (fun index key => index.insertIfNew key d) index

def nameKeys (d : LanguageDefinition) : List String := d.filenames

def suffixKeys (d : LanguageDefinition) : List String := d.extensions.map Text.lowercase

/-- The index of definitions by the given keys. -/
def indexBy (keys : LanguageDefinition → List String) (ds : List LanguageDefinition) : Index :=
  ds.foldl (fun index d => addKeys d (keys d) index) ∅

end Registry

/-- Ordered definitions, each under its own id, with their indexes. -/
structure Registry where
  definitions : OrderedMap LanguageDefinition
  id_eq_key : ∀ e ∈ definitions.entries, e.2.id = e.1
  byName : Registry.Index
  byName_eq : byName = Registry.indexBy Registry.nameKeys definitions.values
  bySuffix : Registry.Index
  bySuffix_eq : bySuffix = Registry.indexBy Registry.suffixKeys definitions.values

namespace Registry

/-- Builds the indexes. -/
def ofMap (m : OrderedMap LanguageDefinition) (h : ∀ e ∈ m.entries, e.2.id = e.1) :
    Registry :=
  ⟨m, h, indexBy nameKeys m.values, rfl, indexBy suffixKeys m.values, rfl⟩

/-- Each entry's id is its key. -/
def Keyed (es : List (String × LanguageDefinition)) : Prop := ∀ e ∈ es, e.2.id = e.1

theorem keyed_put {d : LanguageDefinition} {es : List (String × LanguageDefinition)}
    (h : Keyed es) : Keyed (OrderedMap.put d.id d es) := by
  induction es with
  | nil => simp [Keyed, OrderedMap.put]
  | cons e es ih =>
    have he := h e (by simp)
    have hes : Keyed es := fun x hx => h x (by simp [hx])
    unfold OrderedMap.put
    split
    · intro x hx
      rcases List.mem_cons.1 hx with rfl | hx
      · rfl
      · exact hes x hx
    · intro x hx
      rcases List.mem_cons.1 hx with rfl | hx
      · exact he
      · exact ih hes x hx

/-- Puts definitions under their own ids. -/
def putAll (m : OrderedMap LanguageDefinition) (ds : List LanguageDefinition) :
    OrderedMap LanguageDefinition :=
  ds.foldl (fun m d => m.insert d.id d) m

theorem keyed_putAll {m : OrderedMap LanguageDefinition} (ds : List LanguageDefinition)
    (h : Keyed m.entries) : Keyed (putAll m ds).entries := by
  induction ds generalizing m with
  | nil => exact h
  | cons d ds ih => exact ih (m := m.insert d.id d) (keyed_put h)

/-- A repeated id keeps its first place and takes its last definition. -/
def ofDefinitions (ds : List LanguageDefinition) : Registry :=
  ofMap (putAll .empty ds) (keyed_putAll ds (by simp [Keyed, OrderedMap.empty]))

def builtin : Registry := ofDefinitions Catalog.definitions

/-- A suffix starts with a dot and goes on after it. -/
def isSuffix (text : String) : Bool :=
  match text.toList with
  | '.' :: _ :: _ => true
  | _ => false

/-- The first reason to refuse a definition under an id. -/
def refusal? (id : String) (d : LanguageDefinition) : Option LanguageFault :=
  if (Text.trimBlank id.toList).isEmpty then some .blankId
  else if d.extensions.isEmpty && d.filenames.isEmpty then some .unnamed
  else match d.extensions.find? (!isSuffix ·) with
    | some text => some (.badExtension text)
    | none =>
      if d.lineComments.any String.isEmpty then some .emptyLineComment
      else if (d.blockComments ++ d.blockStrings).any (·.start.isEmpty) then
        some .emptyBlockStart
      else none

/-- The first entry to be refused. -/
def firstRefusal? (o : Overrides) : Option LanguageRefusal :=
  o.entries.findSome? fun e => (refusal? e.1 e.2).map (⟨e.1, ·⟩)

/-- The definitions of the overrides, each with its key as id. -/
def rekeyed (o : Overrides) : List LanguageDefinition :=
  o.entries.map fun e => { e.2 with id := e.1 }

/-- Puts overrides on top of a registry, or refuses them all. -/
def load (r : Registry) (o : Overrides) : Except LanguageRefusal Registry :=
  match firstRefusal? o with
  | some refusal => .error refusal
  | none => .ok (ofMap (putAll r.definitions (rekeyed o)) (keyed_putAll _ r.id_eq_key))

def get? (r : Registry) (id : String) : Option LanguageDefinition := r.definitions.get? id

def toList (r : Registry) : List LanguageDefinition := r.definitions.values

def ids (r : Registry) : List String := r.definitions.keys

def size (r : Registry) : Nat := r.definitions.size

/-- The definition that a file belongs to: by its whole name, else by its suffix. -/
def resolve? (r : Registry) (path : Path) : Option LanguageDefinition :=
  match path.fileName?.bind (r.byName[·]?) with
  | some d => some d
  | none => path.extension?.bind fun ext => r.bySuffix["." ++ Text.lowercase ext]?

end Registry

end LineCensus
