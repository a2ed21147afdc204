import LineCensus.Failure

/-!
# Diagnostics

What a run says about its failures and troubles: a headline, then a detail and a
suggestion where there is one. Colours are terminal escapes.
-/
namespace LineCensus

/-- When diagnostics are coloured. -/
inductive ColorMode
  | auto
  | always
  | never
deriving DecidableEq, Repr, Inhabited

namespace ColorMode

def name : ColorMode → String
  | auto => "auto"
  | always => "always"
  | never => "never"

def ofName? (s : String) : Option ColorMode :=
  if s == "auto" then some auto
  else if s == "always" then some always
  else if s == "never" then some never
  else none

/-- Whether colours are shown on a stream that is a terminal, or is none. -/
def enabled (mode : ColorMode) (terminal : Bool) : Bool :=
  match mode with
  | always => true
  | never => false
  | auto => terminal

end ColorMode

inductive Severity
  | error (kind : String)
  | warning
deriving DecidableEq, Repr

structure Diagnostic where
  severity : Severity
  message : String
  detail? : Option String := none
  suggestion? : Option String := none
deriving DecidableEq, Repr

namespace Diagnostic

def red : String := "\x1b[31m"

def yellow : String := "\x1b[33m"

def cyan : String := "\x1b[36m"

def bold : String := "\x1b[1m"

def dim : String := "\x1b[2m"

def plain : String := "\x1b[0m"

def warning (message : String) (detail? suggestion? : Option String) : Diagnostic :=
  ⟨.warning, message, detail?, suggestion?⟩

/-- A failure, with what lies behind it. -/
def ofFailure (f : Failure) : Diagnostic := ⟨.error f.kind, f.message, f.source?, f.suggestion?⟩

def headline (d : Diagnostic) (colors : Bool) : String :=
  let (icon, label, color) := match d.severity with
    | .error kind => ("✖", kind, red)
    | .warning => ("⚠", "Warning", yellow)
  if colors then bold ++ color ++ icon ++ " " ++ label ++ ":" ++ plain ++ " " ++ d.message ++ "\n"
  else icon ++ " " ++ label ++ ": " ++ d.message ++ "\n"

def detailLine (colors : Bool) (text : String) : String :=
  if colors then "  " ++ dim ++ "× " ++ text ++ plain ++ "\n" else "  × " ++ text ++ "\n"

def suggestionLine (colors : Bool) (text : String) : String :=
  if colors then "  " ++ cyan ++ "help:" ++ plain ++ " " ++ text ++ "\n"
  else "  help: " ++ text ++ "\n"

def render (d : Diagnostic) (colors : Bool) : String :=
  d.headline colors ++ (d.detail?.map (detailLine colors)).getD "" ++
    (d.suggestion?.map (suggestionLine colors)).getD ""

end Diagnostic

end LineCensus
