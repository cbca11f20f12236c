import ShaderLang.Reflection
/-!
# Compile logs

What a converter reports of a program, and the text of all its reports. Reports that only inform
come first, then warnings, then errors.

## Main definitions

* `Report`, `CompileLog` — a report; all reports of a conversion
* `Report.text`, `CompileLog.text` — their texts
-/

namespace ShaderLang

inductive ReportKind
  | info | warning | error
  deriving DecidableEq, Inhabited

/-- A report of a converter. -/
structure Report where
  kind : ReportKind
  context : String
  message : String
  /-- The line that the report is about, and the marks under it. -/
  line? : Option (String × String)
  hints : List String
  deriving DecidableEq, Inhabited

namespace Report

/-- A report of an error. -/
def ofError (message : String) : Report := ⟨.error, "", message, none, []⟩

/-- The lines of a text. A line break at the end opens no further line. -/
def lines : List Char → List (List Char)
  | [] => []
  | c :: cs =>
    if c = '\n' then [] :: lines cs
    else
      match lines cs with
      | [] => [[c]]
      | l :: ls => (c :: l) :: ls

/-- The bytes up to the end of the first colon between spaces, or none. -/
def indent? : List Char → Option Nat
  | ' ' :: ':' :: ' ' :: _ => some 3
  | c :: cs => (indent? cs).map (c.utf8Size + ·)
  | [] => none

/-- A text of several lines; those after the first are aligned with what follows the first colon
between spaces. -/
def aligned (text : String) : String :=
  let indent := List.replicate ((indent? text.toList).getD 0) ' '
  match lines text.toList with
  | [] => ""
  | l :: ls => String.ofList (l ++ '\n' :: ls.flatMap fun l => indent ++ l ++ ['\n'])

/-- The text of a report. -/
def text (r : Report) : String :=
  let context := if r.context.isEmpty then "" else aligned r.context
  let line := match r.line? with
    | some (line, marker) => line ++ "\n" ++ marker ++ "\n"
    | none => ""
  context ++ aligned r.message ++ line ++ String.join (r.hints.map (· ++ "\n"))

end Report

/-- All reports of a conversion, and what was reflected of a program whose conversion failed. -/
structure CompileLog where
  reports : List Report
  reflection? : Option Reflection
  deriving DecidableEq, Inhabited

namespace CompileLog

/-- No reports. -/
def empty : CompileLog := ⟨[], none⟩

def isEmpty (log : CompileLog) : Bool := log.reports.isEmpty

/-- The reports of one kind. -/
def ofKind (log : CompileLog) (kind : ReportKind) : List Report :=
  log.reports.filter (·.kind = kind)

/-- The number of reports of one kind. -/
def count (log : CompileLog) (kind : ReportKind) : Nat := (log.ofKind kind).length

/-- A headline with the number of reports, underlined. -/
def headline (count : Nat) (word : String) : String :=
  let s := toString count ++ " " ++ word ++ (if count = 1 then "" else "S")
  s ++ "\n" ++ String.ofList (List.replicate s.length '-') ++ "\n"

/-- The reports of one kind, under a headline if they have one. -/
def part (log : CompileLog) (kind : ReportKind) (word? : Option String) : String :=
  let reports := log.ofKind kind
  if reports.isEmpty then ""
  else
    (word?.map (headline reports.length)).getD "" ++ String.join (reports.map Report.text)

/-- The text of all reports. -/
def text (log : CompileLog) : String :=
  log.part .info none ++ log.part .warning (some "WARNING") ++
    log.part .error (some "ERROR")

end CompileLog
end ShaderLang
