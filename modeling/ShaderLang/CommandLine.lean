import ShaderLang.Number.Integer
import ShaderLang.Text.Blank
import ShaderLang.Conversion
/-!
# The command line

What the arguments of the compiler mean. Options come in any order among the descriptions to
compile. An option with a value takes it from the same argument or from the next one; everything
behind `--` is a description.

## Main definitions

* `OptionError` — what can be wrong with an option
* `defineOf`, `languageOf`, `threadsOf` — the values of options
* `Arguments` — all that was said
* `Arguments.read` — what a list of arguments says
-/

namespace ShaderLang

/-- What can be wrong with an option. -/
inductive OptionError
  | unknownLanguage (name : String)
  /-- Programs in the language have to be converted. -/
  | needsConverter (name : String)
  | invalidThreads (text : String)
  | unknownOption (text : String)
  | missingValue (option : String)
  | noDescription
  deriving DecidableEq

/-- The report of an error. -/
def OptionError.message : OptionError → String
  | unknownLanguage name => "unknown target language '" ++ name ++ "'"
  | needsConverter name => "target language '" ++ name ++ "' needs an external cross compiler"
  | invalidThreads text => "invalid number of threads '" ++ text ++ "'"
  | unknownOption text => "unknown option '" ++ text ++ "'"
  | missingValue option => "option '" ++ option ++ "' needs a value"
  | noDescription => "no shader to compile"

/-! ## Values -/

/-- A define: a name, and behind the first equals sign its value. A bare name is one. -/
def defineOf (text : String) : String × String :=
  let cs := text.toList
  let name := Text.trimmed (String.ofList (cs.takeWhile (· != '=')))
  match cs.dropWhile (· != '=') with
  | [] => (name, "1")
  | _ :: value => (name, Text.trimmed (String.ofList value))

/-- A language whose programs need no converter. -/
def languageOf (name : String) : Except OptionError TargetLanguage :=
  match TargetLanguage.ofName? name with
  | none => .error (.unknownLanguage name)
  | some language =>
    if Hlsl.supports language then .ok language else .error (.needsConverter name)

/-- The greatest number of threads that can be asked for. -/
def maxThreads : Nat := 18446744073709551615

/-- A number of threads, at least one. Without a text it is one. -/
def threadsOf : Option String → Except OptionError Nat
  | none => .ok 1
  | some text =>
    match Number.unsigned? maxThreads text.toList with
    | some (n + 1) => .ok (n + 1)
    | _ => .error (.invalidThreads text)

/-! ## Options -/

/-- An option. -/
inductive Switch
  | help | version | languages | verbose | strict
  | output | directory | define | language | threads
  deriving DecidableEq

namespace Switch

/-- The letter and the word of each option. -/
def spellings : List (Option Char × String × Switch) :=
  [(some 'h', "help", help), (some 'V', "version", version), (none, "languages", languages),
   (some 'v', "verbose", verbose), (none, "strict-params", strict), (some 'o', "output", output),
   (some 'I', "include", directory), (some 'D', "define", define), (some 'l', "lang", language),
   (some 'n', "threads", threads)]

def ofLetter? (c : Char) : Option Switch := (spellings.find? (·.1 == some c)).map (·.2.2)

def ofWord? (word : String) : Option Switch := (spellings.find? (·.2.1 == word)).map (·.2.2)

/-- The option takes a value. -/
def takesValue : Switch → Bool
  | output | directory | define | language | threads => true
  | _ => false

end Switch

/-- All that was said. -/
structure Arguments where
  /-- The options without a value. -/
  switches : List Switch
  outputs : List String
  /-- Where included files are looked up. -/
  directories : List String
  defines : List String
  languages : List String
  threads : List String
  /-- The descriptions to compile. -/
  descriptions : List String
  deriving DecidableEq, Inhabited

namespace Arguments

/-- Nothing was said. -/
def empty : Arguments := ⟨[], [], [], [], [], [], []⟩

/-- An option was set. -/
def set (a : Arguments) (s : Switch) : Arguments := { a with switches := a.switches ++ [s] }

/-- An option was given a value. -/
def give (a : Arguments) (s : Switch) (value : String) : Arguments :=
  match s with
  | .output => { a with outputs := a.outputs ++ [value] }
  | .directory => { a with directories := a.directories ++ [value] }
  | .define => { a with defines := a.defines ++ [value] }
  | .language => { a with languages := a.languages ++ [value] }
  | .threads => { a with threads := a.threads ++ [value] }
  | _ => a.set s

/-- What one argument says: it is complete, or it is an option that takes the next argument. -/
inductive Reading
  | done (a : Arguments)
  | pending (a : Arguments) (s : Switch)

/-- Reads options by their letters. The first one that takes a value takes all that follows; an
equals sign may lead it. -/
def readLetters (a : Arguments) : List Char → Except OptionError Reading
  | [] => .ok (.done a)
  | c :: cs =>
    match Switch.ofLetter? c with
    | none => .error (.unknownOption (String.ofList ['-', c]))
    | some s =>
      if s.takesValue then
        match cs with
        | [] => .ok (.pending a s)
        | '=' :: value => .ok (.done (a.give s (String.ofList value)))
        | value => .ok (.done (a.give s (String.ofList value)))
      else readLetters (a.set s) cs

/-- Reads an option by its word; a value may follow an equals sign. -/
def readWord (a : Arguments) (text : List Char) : Except OptionError Reading :=
  let word := String.ofList (text.takeWhile (· != '='))
  match Switch.ofWord? word, text.dropWhile (· != '=') with
  | none, _ => .error (.unknownOption ("--" ++ word))
  | some s, [] => .ok (if s.takesValue then .pending a s else .done (a.set s))
  | some s, _ :: value =>
    if s.takesValue then .ok (.done (a.give s (String.ofList value)))
    else .error (.unknownOption ("--" ++ String.ofList text))

/-- Reads arguments behind what was said before. -/
def readFrom (a : Arguments) : List String → Except OptionError Arguments
  | [] => .ok a
  | text :: texts =>
    let reading : Except OptionError Reading :=
      match text.toList with
      | '-' :: '-' :: [] => .ok (.done { a with descriptions := a.descriptions ++ texts })
      | '-' :: '-' :: word => readWord a word
      | '-' :: c :: letters => readLetters a (c :: letters)
      | _ => .ok (.done { a with descriptions := a.descriptions ++ [text] })
    match reading with
    | .error e => .error e
    | .ok (.done a) => if text = "--" then .ok a else readFrom a texts
    | .ok (.pending a s) =>
      match texts with
      | [] => .error (.missingValue text)
      | value :: texts => readFrom (a.give s value) texts

/-- What arguments say. -/
def read (texts : List String) : Except OptionError Arguments := readFrom empty texts

/-- The option was set. -/
def has (a : Arguments) (s : Switch) : Bool := a.switches.contains s

/-- The languages asked for; without any it is the language itself. -/
def targets (a : Arguments) : Except OptionError (List TargetLanguage) := do
  let languages ← a.languages.mapM languageOf
  return if languages.isEmpty then [.hlsl] else languages

end Arguments
end ShaderLang
