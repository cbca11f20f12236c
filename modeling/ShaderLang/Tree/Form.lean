import ShaderLang.Source.Scan
import ShaderLang.Tree.Literal
import ShaderLang.Tree.Node
/-!
# Forms

A small language for what blocks may hold. A form is read off a row of tokens without ever going
back: the next token alone decides how to go on, so that reading stops at the first token that no
continuation allows.

## Main definitions

* `Form` — what may stand at a point of a source
* `Parts` — the settings read so far, of a block's header and of its body
* `Form.read` — reads a form off the front of a row of tokens
* `Rejection` — the token that was refused, or that the tokens ended too early
-/

namespace ShaderLang

/-- What may stand at a point of a source. -/
inductive Form
  /-- Nothing. -/
  | empty
  /-- Nothing that may stand here; one of the given classes should. -/
  | fail (expected : List TokenKind)
  /-- A token of a class, which sets nothing. -/
  | eat (kind : TokenKind)
  /-- A literal that sets something in the header. -/
  | header (kind : SettingKind) (l : Literal)
  /-- A literal that sets something in the body. -/
  | take (kind : SettingKind) (l : Literal)
  /-- Sets something to true without a token. -/
  | flag (kind : SettingKind)
  /-- One form behind another. -/
  | seq (first second : Form)
  /-- A nested block. -/
  | nested (kind : SettingKind) (block : NodeKind) (inside : Form)
  /-- One form if the next token is of a class, else another. -/
  | ifNext (kind : TokenKind) (yes no : Form)
  /-- A form any number of times, up to a closing brace. Semicolons may stand anywhere between. -/
  | body (statement : Form)
  /-- A form at least once, with commas between, up to a closing mark. -/
  | commas (close : Punct) (item : Form)
  deriving DecidableEq, Inhabited

/-- The settings read so far, in the order in which they are written. -/
structure Parts where
  header : List (Setting Tree)
  body : List (Setting Tree)

namespace Parts

/-- No settings. -/
def none : Parts := ⟨[], []⟩

/-- The settings of one part of a text and those of the part behind it. -/
def append (a b : Parts) : Parts := ⟨a.header ++ b.header, a.body ++ b.body⟩

instance : Append Parts := ⟨append⟩

/-- A block of these settings. -/
def tree (p : Parts) (kind : NodeKind) : Tree := .node (Entry.ofParts kind p.header p.body)

/-- One setting of the body. -/
def one (kind : SettingKind) (value : Value Tree) : Parts := ⟨[], [⟨kind, value⟩]⟩

end Parts

/-- Why a row of tokens is refused. -/
inductive Rejection
  /-- A token cannot stand where it does. -/
  | token (t : PlacedToken) (cause : Cause)
  /-- The tokens end too early. -/
  | ended

/-- The fault of a rejection. An early end is reported at the last token. -/
def Rejection.fault (tokens : List PlacedToken) : Rejection → Fault
  | token t cause => ⟨t.file, t.line, t.col, cause⟩
  | ended =>
    match tokens.getLast? with
    | some t => ⟨t.file, t.line, t.col, .eof⟩
    | none => ⟨.none, 0, 0, .eof⟩

/-- What reading gives: the settings and the tokens behind them. -/
abbrev Reads (α : Type) := Except Rejection (α × List PlacedToken)

namespace Form

/-- A token of a given mark. -/
def isMark (t : PlacedToken) (p : Punct) : Bool := t.token == .punct p

/-- Refuses the next token. -/
def refuse {α : Type} (expected : List TokenKind) : List PlacedToken → Reads α
  | [] => .error .ended
  | t :: _ => .error (.token t (.unexpectedToken t.token expected))

/-- Reads a token of a class. -/
def readKind (kind : TokenKind) : List PlacedToken → Reads Token
  | [] => .error .ended
  | t :: ts => if t.token.kind = kind then .ok (t.token, ts) else refuse [kind] (t :: ts)

/-- Reads a literal. -/
def readLiteral (l : Literal) : List PlacedToken → Reads Leaf
  | [] => .error .ended
  | t :: ts =>
    match l.read t.token with
    | .ok leaf => .ok (leaf, ts)
    | .error cause => .error (.token t cause)

/-- Reads statements up to a closing brace. A statement that used no token would end them too. -/
def readBody (statement : List PlacedToken → Reads Parts) (ts : List PlacedToken) : Reads Parts :=
  match ts with
  | [] => .error .ended
  | t :: rest =>
    if isMark t .break then readBody statement rest
    else if isMark t .blockEnd then .ok (.none, rest)
    else
      match statement (t :: rest) with
      | .error e => .error e
      | .ok (parts, ts') =>
        if ts'.length < rest.length + 1 then
          match readBody statement ts' with
          | .error e => .error e
          | .ok (more, ts'') => .ok (parts ++ more, ts'')
        else .ok (parts, ts')
termination_by ts.length

/-- Reads items with commas between them up to a closing mark. -/
def readCommas (close : Punct) (item : List PlacedToken → Reads Parts) (ts : List PlacedToken) :
    Reads Parts :=
  match item ts with
  | .error e => .error e
  | .ok (_, []) => .error .ended
  | .ok (parts, t :: ts') =>
    if isMark t .comma then
      if ts'.length < ts.length then
        match readCommas close item ts' with
        | .error e => .error e
        | .ok (more, ts'') => .ok (parts ++ more, ts'')
      else .ok (parts, ts')
    else if isMark t close then .ok (parts, ts')
    else refuse [.punct .comma, .punct close] (t :: ts')
termination_by ts.length

/-- Reads a form off the front of a row of tokens. -/
def read : Form → List PlacedToken → Reads Parts
  | empty, ts => .ok (.none, ts)
  | fail expected, ts => refuse expected ts
  | eat kind, ts => (readKind kind ts).map fun r => (.none, r.2)
  | header kind l, ts => (readLiteral l ts).map fun r => (⟨[⟨kind, .leaf r.1⟩], []⟩, r.2)
  | take kind l, ts => (readLiteral l ts).map fun r => (.one kind (.leaf r.1), r.2)
  | flag kind, ts => .ok (.one kind (.leaf (.bool true)), ts)
  | seq first second, ts =>
    match read first ts with
    | .error e => .error e
    | .ok (a, ts') => (read second ts').map fun r => (a ++ r.1, r.2)
  | nested kind block inside, ts =>
    (read inside ts).map fun r => (.one kind (.node (r.1.tree block)), r.2)
  | ifNext kind yes no, ts =>
    match ts with
    | [] => read no ts
    | t :: _ => if t.token.kind = kind then read yes ts else read no ts
  | body statement, ts => readBody (read statement) ts
  | commas close item, ts => readCommas close (read item) ts

end Form
end ShaderLang
