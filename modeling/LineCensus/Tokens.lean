/-!
# Counting tokens

How many tokens a text has is for a vocabulary to say. Every vocabulary keeps some
tokens to itself, and a text that spells one of them out cannot be counted.
-/
namespace LineCensus

/-- Reserved tokens, in the order in which they are looked for. -/
def reservedTokens : List String :=
  ["<|endoftext|>", "<|fim_prefix|>", "<|fim_middle|>", "<|fim_suffix|>", "<|endofprompt|>"]

/-- Why a text cannot be counted. -/
inductive TokenFault
  | reserved (token : String)
deriving DecidableEq, Repr

def TokenFault.message : TokenFault → String
  | reserved token => "text contains the special token " ++ token

/-- The text holds the characters of `needle` side by side. -/
def holds (needle : List Char) : List Char → Bool
  | [] => needle.isEmpty
  | c :: s => needle.isPrefixOf (c :: s) || holds needle s

/-- The first reserved token that a text holds. -/
def reservedIn? (text : List Char) : Option TokenFault :=
  (reservedTokens.find? fun t => holds t.toList text).map .reserved

/-- A way to count the tokens of a text. -/
abbrev TokenCounter := List Char → Except TokenFault Nat

/-- Counts with a vocabulary, after looking for reserved tokens. -/
def countTokens (vocabulary : List Char → Nat) : TokenCounter := fun text =>
  match reservedIn? text with
  | some fault => .error fault
  | none => .ok (vocabulary text)

/-- The vocabulary whose tokens are the characters. -/
def characterTokens (text : List Char) : Nat := text.length

end LineCensus
