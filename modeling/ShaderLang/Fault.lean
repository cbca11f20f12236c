import ShaderLang.Token
/-!
# Faults in a source

What can be wrong with a source, where, and how it is reported. Reading stops at the first fault.

## Main definitions

* `Cause` — what is wrong
* `Fault` — a cause and its place
* `Fault.message` — the report
-/

namespace ShaderLang

/-- What is wrong with a source. -/
inductive Cause
  /-- A token stands where only the given classes may. -/
  | unexpectedToken (actual : Token) (expected : List TokenKind)
  /-- A token that starts no statement of its block. -/
  | unknownToken (token : Token)
  /-- Text that is no token. -/
  | unidentifiedToken (text : String)
  /-- A name that is not in the table of its setting. -/
  | unknownValue (setting value : String)
  | includeNotFound (name : String)
  | includeDepth (name : String)
  | invalidDirective (line : String)
  /-- A directive that continues or closes a conditional where none is open. -/
  | unmatchedConditional (directive : String)
  | unterminatedConditional
  | unterminatedString
  | unterminatedComment
  | unterminatedCodeBlock
  | eof
  deriving DecidableEq

/-- The report of a cause. -/
def Cause.message : Cause → String
  | unexpectedToken actual expected =>
    "unexpected token (expected " ++ TokenKind.alternatives expected ++ ", got " ++
      actual.text ++ ")"
  | unknownToken token => "unknown token (" ++ token.text ++ ")"
  | unidentifiedToken text => "unidentified token '" ++ text ++ "'"
  | unknownValue setting value => "'" ++ value ++ "' is not a valid " ++ setting
  | includeNotFound name => "include '" ++ name ++ "' not found"
  | includeDepth name => "include '" ++ name ++ "' exceeds maximum include depth"
  | invalidDirective line => "invalid pre-processor directive '" ++ line ++ "'"
  | unmatchedConditional directive => "#" ++ directive ++ " without matching #if"
  | unterminatedConditional => "unterminated conditional block (missing #endif)"
  | unterminatedString => "unterminated string"
  | unterminatedComment => "unterminated comment"
  | unterminatedCodeBlock => "unterminated code block"
  | eof => "unexpected EOF"

/-- A cause with the file, line and column where it was met. A root source has no file name. -/
structure Fault where
  file : Option String
  line : Nat
  col : Nat
  cause : Cause
  deriving DecidableEq

/-- The report of a fault, led by its place. -/
def Fault.message (e : Fault) : String :=
  let place := toString e.line ++ ":" ++ toString e.col ++ " " ++ e.cause.message
  match e.file with
  | some file => file ++ ":" ++ place
  | none => place

end ShaderLang
