/-
Files as a program sees them. A path is kept in normal form; a file is found by walking its parts
through the directories that exist. What is known of the disk is either everything below the working
directory, or the answers to the questions that were asked so far.
-/
import SmallLisp.Fault

namespace SmallLisp

/-- A path without empty and `.` parts. `..` is kept, since what it leads to depends on the disk. -/
structure Path where
  /-- Empty for a relative path, else one slash, or two if exactly two were written. -/
  root : String
  parts : List String
  deriving DecidableEq

namespace Path

/-- Cuts at every slash. -/
def splitSlashes (cs : List Char) : List (List Char) := cs.splitOnP (· == '/')

def ofString (text : String) : Path :=
  let cs := text.toList
  let slashes := (cs.takeWhile (· == '/')).length
  let parts := (splitSlashes cs).filter fun part => part != [] && part != ['.']
  ⟨if slashes = 0 then "" else if slashes = 2 then "//" else "/", parts.map String.ofList⟩

/-- The text of a path; a dot stands for the working directory. -/
def toString (p : Path) : String :=
  let body := "/".intercalate p.parts
  if p.root.isEmpty && p.parts.isEmpty then "." else p.root ++ body

/-- The directory that a path lies in, by its text alone. -/
def parent (p : Path) : Path := { p with parts := p.parts.dropLast }

def child (p : Path) (part : String) : Path := { p with parts := p.parts ++ [part] }

end Path

/-- What is known of the disk. -/
inductive Files where
  /-- All files below the working directory, by the parts of their paths. -/
  | tree (entries : List (List String × String))
  /-- The answers so far, by the text of the path; nothing is known of other paths. -/
  | answered (answers : List (String × Except FileFault String))

namespace Files

/-- Most bytes in one part of a path, and in a whole path. -/
def partLimit : Nat := 255
def pathLimit : Nat := 4095

/-- The content of a file, or why there is none, seen from a directory: `inside` are the parts of
that directory, or nothing if it lies outside the tree. -/
def walk (path : String) (entries : List (List String × String)) :
    (inside : Option (List String)) → (parts : List String) → Except FileFault String
  | _, [] => .error (.directory path)
  | none, part :: parts =>
    if part == ".." then walk path entries none parts
    else if partLimit < part.utf8ByteSize then .error (.nameTooLong path)
    else .error (.missing path)
  | some inside, part :: parts =>
    if part == ".." then
      walk path entries (if inside.isEmpty then none else some inside.dropLast) parts
    else if partLimit < part.utf8ByteSize then .error (.nameTooLong path)
    else
      let here := inside ++ [part]
      match entries.find? fun entry => entry.1 == here with
      | some entry => if parts.isEmpty then .ok entry.2 else .error (.notDirectory path)
      | none =>
        if entries.any fun entry => here.isPrefixOf entry.1 then walk path entries (some here) parts
        else .error (.missing path)

/-- The content of a file, or why there is none; nothing if the disk has to be asked. -/
def lookup? (files : Files) (path : Path) : Option (Except FileFault String) :=
  let text := path.toString
  if text.contains '\x00' then some (.error .invalidName)
  else if pathLimit < text.utf8ByteSize then some (.error (.nameTooLong text))
  else match files with
    | .tree entries =>
      some (walk text entries (if path.root.isEmpty then some [] else none) path.parts)
    | .answered answers => (answers.find? fun answer => answer.1 == text).map (·.2)

/-- The tree of files with the given paths. -/
def ofList (files : List (String × String)) : Files :=
  .tree (files.map fun file => ((Path.ofString file.1).parts, file.2))

end Files

/-- The lines of a file's text end in a newline alone, however the file ends them. -/
def unifyNewlines : List Char → List Char
  | [] => []
  | '\r' :: '\n' :: cs => '\n' :: unifyNewlines cs
  | '\r' :: cs => '\n' :: unifyNewlines cs
  | c :: cs => c :: unifyNewlines cs

end SmallLisp
