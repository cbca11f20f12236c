import ShaderLang.Path
import ShaderLang.Source.Session
/-!
# File trees

Files in nested directories, and the look-up of an included file in a list of directories.

## Main definitions

* `FileTree` — files by the parts of their paths
* `FileTree.read?` — the bytes that a path leads to
* `Includes.ofDirectories` — files looked up in directories, the first one with a text counting
-/

namespace ShaderLang

/-- Files by the parts of their paths. The directories are those that the files lie in. -/
structure FileTree where
  files : List (List String × List UInt8)
  deriving Inhabited

namespace FileTree

/-- The parts of a path as texts. -/
def partsOf (path : String) : List String := (Path.parts path.toList).map String.ofList

/-- The tree of files at paths, the last one at a path counting. -/
def ofList (files : List (String × List UInt8)) : FileTree :=
  ⟨files.reverse.map fun f => ((partsOf f.1).filter fun p => p != "" && p != ".", f.2)⟩

/-- The bytes of the file at a place. -/
def file? (t : FileTree) (place : List String) : Option (List UInt8) :=
  (t.files.find? (·.1 == place)).map (·.2)

/-- The place is the root, or a file lies below it. -/
def isDirectory (t : FileTree) (place : List String) : Bool :=
  place.isEmpty || t.files.any fun f => place.isPrefixOf f.1 && f.1 != place

/-- The place is a file or a directory. -/
def contains (t : FileTree) (place : List String) : Bool :=
  t.isDirectory place || (t.file? place).isSome

/-- Where parts lead from a place. Every step starts from a directory, also one that leads
nowhere. -/
def walk? (t : FileTree) : List String → List String → Option (List String)
  | place, [] => some place
  | place, part :: parts =>
    if !t.isDirectory place then none
    else if part = "" ∨ part = "." then t.walk? place parts
    else if part = ".." then
      if place.isEmpty then none else t.walk? place.dropLast parts
    else if t.contains (place ++ [part]) then t.walk? (place ++ [part]) parts
    else none

/-- The bytes that a path leads to. A path from the root of all files leads out of the tree. -/
def read? (t : FileTree) (path : String) : Option (List UInt8) :=
  if Path.isAbsolute path then none
  else (t.walk? [] (partsOf path)).bind t.file?

end FileTree

/-- Files looked up in directories: the first directory with a file of that name counts in which it
can be read and is a text. -/
def Includes.ofDirectories (read? : String → Option (List UInt8)) (directories : List String) :
    Includes := fun name =>
  directories.findSome? fun directory =>
    (read? (Path.join directory name)).bind fun bytes => String.fromUTF8? ⟨bytes.toArray⟩

end ShaderLang
