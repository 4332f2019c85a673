/-! # Paths

A path leads from the working folder through other folders to a file. One dot stays in a
folder, two dots lead to the folder around it. The folders around the working folder are
always there; of those inside it, the ones that are there have to be listed.
-/
namespace ClonePlot

/-- A folder: some levels out of the working folder, then inwards by names. -/
structure Folder where
  outward : Nat := 0
  inward : List String := []
  deriving DecidableEq, Repr

namespace Folder

def step (f : Folder) (part : String) : Folder :=
  if part = "" ∨ part = "." then f
  else if part = ".." then
    if f.inward.isEmpty then { f with outward := f.outward + 1 }
    else { f with inward := f.inward.dropLast }
  else { f with inward := f.inward ++ [part] }

/-- All folders on a way, the first and the last included. -/
def along (f : Folder) : List String → List Folder
  | [] => [f]
  | part :: rest => f :: along (f.step part) rest

def onPath (path : String) : List Folder := along {} (path.splitOn "/")

def isThere (listed : List Folder) (f : Folder) : Bool := f.inward.isEmpty || listed.contains f

end Folder

structure FilePlace where
  folder : Folder
  name : String
  deriving DecidableEq, Repr

namespace FilePlace

/-- No longer name or path is valid; they are measured in bytes. -/
def maxNameSize : Nat := 255

def maxPathSize : Nat := 4095

def isName (s : String) : Bool :=
  s ∉ ["", ".", ".."] && s.utf8ByteSize ≤ maxNameSize && !s.contains '\x00'

def name? (path : String) : Option String :=
  ((path.splitOn "/").getLast?).filter isName

/-- The place of a file, if the listed folders let a relative path lead to one. -/
def ofPath? (listed : List Folder) (path : String) : Option FilePlace := do
  let parts := (path.splitOn "/").dropLast
  let way := Folder.along {} parts
  let isValid := path.utf8ByteSize ≤ maxPathSize && parts.head? != some "" &&
    !path.contains '\x00' && way.all (Folder.isThere listed)
  if isValid then return ⟨← way.getLast?, ← name? path⟩ else none

end FilePlace
end ClonePlot
