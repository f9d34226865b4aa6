import Chalkboard.Settings.Changes

/-!
# Settings files

The name of a settings file decides its form, before the file is looked at: what follows the last
dot of the last part of its path, in capital or small letters.

A `Folder` is what a program sees of the files below one folder: their paths and their contents.
-/

namespace Chalkboard

/-- The parts of a path. -/
def pathParts (path : String) : List (List Char) :=
  (path.toList.splitOn '/').filter fun part => part ≠ [] ∧ part ≠ ['.']

namespace TextFormat

/-- What follows the last dot of a file name, unless nothing comes before that dot. -/
def extension? (name : List Char) : Option (List Char) :=
  if name = ['.', '.'] then none
  else
    match name.reverse.dropWhile (· ≠ '.') with
    | _ :: _ :: _ => some (name.reverse.takeWhile (· ≠ '.')).reverse
    | _ => none

/-- The form that the name of a file stands for. -/
def ofPath? (path : String) : Option TextFormat :=
  match ((pathParts path).getLast?.bind extension?).map fun e => e.map Char.toLower with
  | some ['j', 's', 'o', 'n'] => some .json
  | some ['t', 'o', 'm', 'l'] => some .toml
  | _ => none

/-- The name of a form. -/
def name : TextFormat → String
  | .json => "json"
  | .toml => "toml"

end TextFormat

/-- Files below one folder, each with the parts of its path. -/
structure Folder where
  /-- Paths and contents; of several with one path the first counts. -/
  files : List (List (List Char) × String)

namespace Folder

/-- A folder from paths and contents. -/
def ofList (files : List (String × String)) : Folder :=
  ⟨files.map fun f => (pathParts f.1, f.2)⟩

/-- Whether a path leads to a folder that is there. -/
def isFolder (d : Folder) (path : List (List Char)) : Bool :=
  path.isEmpty || d.files.any fun f => path.isPrefixOf f.1 && path ≠ f.1

/-- Longest admitted part of a path, in bytes. -/
def maxNameBytes : Nat := 255

/-- Longest admitted path, in bytes. -/
def maxPathBytes : Nat := 4095

/-- Follows the parts of a path from a folder; nothing if the way leaves the folder or leads over
something that is no folder. -/
def walk (d : Folder) (here : List (List Char)) : List (List Char) → Option (List (List Char))
  | [] => some here
  | part :: parts =>
    if !d.isFolder here then none
    else if part = ['.', '.'] then
      if here.isEmpty then none else walk d here.dropLast parts
    else if maxNameBytes < (String.ofList part).utf8ByteSize then none
    else walk d (here ++ [part]) parts

/-- The place that a path names for a file. A path that begins with a slash leads elsewhere, one whose
last part is empty or a dot names a folder; no path holds a null character, and none is too long. -/
def resolve (d : Folder) (path : String) : Option (List (List Char)) :=
  let cs := path.toList
  let last := cs.reverse.takeWhile (· ≠ '/')
  if cs.head? = some '/' ∨ last = [] ∨ last = ['.'] ∨ '\x00' ∈ cs then none
  else if maxPathBytes < path.utf8ByteSize then none
  else d.walk [] (pathParts path)

/-- The content of a file. -/
def read? (d : Folder) (path : String) : Option String :=
  (d.resolve path).bind fun place => List.lookup place d.files

/-- The folder with a file written, if the file's folder is there. -/
def write? (d : Folder) (path content : String) : Option Folder :=
  match d.resolve path with
  | some place =>
    if d.isFolder place then none else some ⟨(place, content) :: d.files⟩
  | none => none

end Folder

namespace Settings

/-- The form of a settings file. -/
def formatOf (path : String) : Except SettingsError TextFormat :=
  match TextFormat.ofPath? path with
  | some format => .ok format
  | none => .error (.unsupportedFormat path)

/-- Reads settings from a file, whose content is looked up once its form is known. -/
def load (said : Wording) (content? : String → Option String) (path : String) :
    Except SettingsError (Settings Float) := do
  let format ← formatOf path
  match content? path with
  | some text => parse said format text
  | none => throw (.inaccessible (said.inaccessible path))

/-- Writes settings to a file. -/
def save (said : Wording) (d : Folder) (path : String) (s : Settings Float) :
    Except SettingsError Folder := do
  let format ← formatOf path
  let text ← s.render said format
  match d.write? path text with
  | some d => return d
  | none => throw (.inaccessible (said.inaccessible path))

end Settings

end Chalkboard
