import LineCensus.Count.Classifier
import LineCensus.Language.Registry

/-!
# Classifiers of a registry

Every definition of a registry is compiled once, under its id, before any file is read.
-/
namespace LineCensus.Count

structure ClassifierTable where
  registry : Registry
  classifiers : OrderedMap Classifier

namespace ClassifierTable

def ofRegistry (r : Registry) : ClassifierTable :=
  ⟨r, .ofList (r.toList.map fun d => (d.id, .ofDefinition d))⟩

def size (t : ClassifierTable) : Nat := t.classifiers.size

/-- The classifier of the language that a file belongs to. -/
def resolve? (t : ClassifierTable) (path : Path) : Option Classifier :=
  (t.registry.resolve? path).bind fun d => t.classifiers.get? d.id

/-- The languages whose literals stay in place, by the names that reports show. -/
def literalFaults (t : ClassifierTable) : List (String × Stripper.Fault) :=
  t.classifiers.values.filterMap fun k => k.literalFault.map fun f => (k.name, f)

end ClassifierTable

end LineCensus.Count
