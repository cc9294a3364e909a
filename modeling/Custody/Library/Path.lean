import Custody.Library.LoadError
import Custody.Text

/-! Paths of modules. An import names a module by a specifier, which is resolved to a canonical
path: segments without empty ones, dots or an extension. A specifier that starts with a dot
segment is relative to the directory of the importing module. -/

namespace Custody

/-- Why a specifier has no path. -/
inductive PathFault where
  | empty
  | escapesRoot
  | namesNothing
  deriving DecidableEq

namespace PathFault

def message : PathFault → String
  | empty => "empty module path"
  | escapesRoot => "escapes the module root"
  | namesNothing => "names no module"

end PathFault

namespace Path

/-- One part of a path between slashes. -/
abbrev Segment := List Char

def segments (path : List Char) : List Segment :=
  Text.splitAt '/' path

/-- A specifier whose first segment is `.` or `..`. -/
def isRelative (specifier : List Char) : Bool :=
  match (segments specifier).head? with
  | some first => first == ['.'] || first == ['.', '.']
  | none => false

/-- The segments of the directory of a module. -/
def directory (path : List Char) : List Segment :=
  ((segments path).filter (!·.isEmpty)).dropLast

/-- Follows segments from a directory, given with its innermost segment first. -/
def walk : (here : List Segment) → List Segment → Except PathFault (List Segment)
  | here, [] => .ok here
  | here, segment :: rest =>
      if segment = [] ∨ segment = ['.'] then walk here rest
      else if segment = ['.', '.'] then
        match here with
        | [] => .error .escapesRoot
        | _ :: up => walk up rest
      else walk (segment :: here) rest

/-- Drops the extension of a source file, unless nothing is in front of it. -/
def stripExtension (segment : Segment) : Segment :=
  match segment.reverse with
  | 'f' :: 'r' :: '.' :: c :: cs | 'f' :: 's' :: '.' :: c :: cs => (c :: cs).reverse
  | _ => segment

/-- Writes down a place, given with its innermost segment first. -/
def spell : List Segment → Except PathFault (List Char)
  | [] => .error .namesNothing
  | last :: outer => .ok (Text.joinWith '/' (stripExtension last :: outer).reverse)

/-- Where a specifier starts, with the innermost segment first. -/
def start (specifier : List Char) (importer : Option (List Char)) : List Segment :=
  if isRelative specifier then
    match importer with
    | some path => (directory path).reverse
    | none => []
  else []

/-- Resolves a specifier without blanks at its ends. -/
def resolveTrimmed (specifier : List Char) (importer : Option (List Char)) :
    Except PathFault (List Char) :=
  if specifier = [] then .error .empty
  else walk (start specifier importer) (segments specifier) >>= spell

/-- The canonical path of a specifier in a module. -/
def resolve (specifier : String) (importer : Option String) : Except PathFault String :=
  (resolveTrimmed (Text.trim specifier.toList) (importer.map (·.toList))).map String.ofList

/-- The error of a specifier that has no path. -/
def invalid (specifier : String) (fault : PathFault) : LoadError :=
  .invalidPath (String.ofList (Text.trim specifier.toList)) fault.message

end Path

end Custody
