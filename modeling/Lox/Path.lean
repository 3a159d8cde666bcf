import Lox.Text

/-! Paths: names of files, with slashes between their elements. -/

namespace Lox.Path

def slash : UInt8 := '/'.toUInt8

def isAbsolute (path : Text) : Bool := path.head? == some slash

/-- The elements of a path, empty ones included. -/
def elements (path : Text) : List Text := path.splitOn slash

def current : Text := Text.ofString "."

def parent : Text := Text.ofString ".."

/-- Adds an element to the elements so far, the last one first. A parent element takes the element
before it away; at the start it stays in a relative path and vanishes in an absolute one. -/
def step (absolute : Bool) (done : List Text) (element : Text) : List Text :=
  if element = [] ∨ element = current then done
  else if element = parent then
    match done with
    | [] => if absolute then [] else [parent]
    | last :: rest => if last = parent then parent :: done else rest
  else element :: done

/-- The shortest path equivalent to the given one. -/
def clean (path : Text) : Text :=
  let absolute := isAbsolute path
  let kept := ((elements path).foldl (step absolute) []).reverse
  let body := [slash].intercalate kept
  if absolute then slash :: body
  else if body = [] then current
  else body

/-- One path after another, without empty ones. -/
def join (paths : List Text) : Text :=
  match paths.filter (· ≠ []) with
  | [] => []
  | kept => clean ([slash].intercalate kept)

end Lox.Path
