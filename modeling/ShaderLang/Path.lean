/-!
# Paths

Paths as texts, with parts between slashes. Empty parts and single dots lead nowhere, so the last
part besides those is what a path names. Two dots lead back and are no name.

## Main definitions

* `Path.split?` — the directory and the name that a path ends in
* `Path.stem`, `Path.extension?` — a name before and behind its last dot
* `Path.withExtension`, `Path.join` — paths made of paths
* `Path.parts` — all parts of a path

## Main results

* `Path.stem_append_extension` — stem, dot and extension are the name
-/

namespace ShaderLang.Path

/-- The parts of a path between its slashes. -/
def parts : List Char → List (List Char)
  | [] => [[]]
  | c :: cs =>
    if c = '/' then [] :: parts cs
    else
      match parts cs with
      | [] => [[c]]
      | p :: ps => (c :: p) :: ps

theorem length_lt_of_dropWhile {p : Char → Bool} {c : Char} {cs rest : List Char}
    (h : cs.dropWhile p = c :: rest) : rest.length < cs.length := by
  have hle := (List.dropWhile_sublist p (l := cs)).length_le
  rw [h, List.length_cons] at hle
  exact hle

/-- The last part that leads somewhere, of a path that is given backwards, and what stands before
it, both backwards. -/
def lastName? (cs : List Char) : Option (List Char × List Char) :=
  let part := cs.takeWhile (· != '/')
  if part = [] ∨ part = ['.'] then
    match _h : cs.dropWhile (· != '/') with
    | [] => none
    | _ :: before => lastName? before
  else if part = ['.', '.'] then none
  else some (part, cs.dropWhile (· != '/'))
termination_by cs.length
decreasing_by exact length_lt_of_dropWhile ‹_›

/-- The directory, with its slash, and the name that a path ends in. -/
def split? (path : String) : Option (String × String) :=
  (lastName? path.toList.reverse).map fun r =>
    (String.ofList r.2.reverse, String.ofList r.1.reverse)

/-- The name that a path ends in. -/
def fileName? (path : String) : Option String := (split? path).map (·.2)

/-- A name before and behind its last dot. A dot at the very start hides a file and does not
count. -/
def splitDot (name : List Char) : List Char × Option (List Char) :=
  let behind := (name.reverse.takeWhile (· != '.')).reverse
  let before := (name.reverse.dropWhile (· != '.')).drop 1
  if before = [] then (name, none) else (before.reverse, some behind)

/-- A name without its extension. -/
def stem (name : String) : String := String.ofList (splitDot name.toList).1

/-- The extension of a name. -/
def extension? (name : String) : Option String := (splitDot name.toList).2.map String.ofList

/-- The path with another extension. What follows the name is cut off; a path that names nothing
stays as it is. -/
def withExtension (path ext : String) : String :=
  match split? path with
  | some (directory, name) => directory ++ stem name ++ "." ++ ext
  | none => path

/-- The path starts at the root. -/
def isAbsolute (path : String) : Bool := path.toList.head? == some '/'

/-- A path inside a directory. One that starts at the root stands for itself. -/
def join (directory path : String) : String :=
  if isAbsolute path || directory.isEmpty then path
  else if directory.toList.getLast? == some '/' then directory ++ path
  else directory ++ "/" ++ path

theorem stem_append_extension (name : List Char) :
    (splitDot name).1 ++ ((splitDot name).2.map ('.' :: ·)).getD [] = name := by
  have hsplit := List.takeWhile_append_dropWhile (p := (· != '.')) (l := name.reverse)
  have hdot : ∀ c cs, name.reverse.dropWhile (· != '.') = c :: cs → c = '.' := by
    intro c cs h
    have := List.head?_dropWhile_not (· != '.') name.reverse
    rw [h] at this
    simpa using this
  simp only [splitDot]
  split
  · simp
  · next hbefore =>
    cases hrest : name.reverse.dropWhile (· != '.') with
    | nil => simp [hrest] at hbefore
    | cons c cs =>
      obtain rfl := hdot c cs hrest
      rw [hrest] at hsplit
      have := congrArg List.reverse hsplit
      simpa using this

end ShaderLang.Path
