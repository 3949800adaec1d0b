/-
# Joining paths, the way Nim's `os` does

`head / tail` is no concatenation: both parts are cut at the separators and put together again
without empty parts and without `.`, and a `..` takes the component before it away as TEXT, whatever
that component is on disk.  The definitions follow `joinPath`, `addNormalizePath` and
`normalizePathEnd` on a system whose one separator is `/`.
-/
import IoMon.Lib.Strings

namespace NimPath

open ByteText

def DirSep : UInt8 := 47

/-- `path.isAbsolute`. -/
def isAbsolute (path : NimStr) : Bool := path.head? == some DirSep

def endsWithSep (path : NimStr) : Bool := path.getLast? == some DirSep

/-- The variables of a normalisation: the path so far, whether it is absolute, and how many
components a `..` can take away. -/
structure Normal where
  result : NimStr := []
  absolute : Bool := false
  components : Nat := 0
  deriving DecidableEq, Repr

/-- What `PathIter` yields: the leading separator, unless something stands in front of the path, and
the words between separators. -/
def parts (notFirst : Bool) (x : NimStr) : List NimStr :=
  (if !notFirst && isAbsolute x then [[DirSep]] else []) ++
    (splitAt DirSep x).filter fun word => !word.isEmpty

/-- The path with a separator at its end, if it has a component there. -/
def Normal.separated (s : Normal) : NimStr :=
  if s.result.isEmpty || endsWithSep s.result then s.result else s.result ++ [DirSep]

/-- Where the last component ends once the loop of `..` has moved `d` back over it. -/
def componentStart (floor : Nat) (path : NimStr) : Nat → Nat
  | 0 => 0
  | d + 1 => if floor < d ∧ path[d]? ≠ some DirSep then componentStart floor path d else d + 1

def Normal.parent (s : Normal) : Normal :=
  match componentStart s.absolute.toNat s.result s.result.length with
  | 0 => s
  | d + 1 => { s with result := s.result.take d, components := s.components - 1 }

def Normal.add (s : Normal) (part : NimStr) : Normal :=
  if s.components = 0 ∧ part = [DirSep] then
    { s with
      result := if endsWithSep s.result then s.result else s.result ++ [DirSep]
      absolute := true }
  else if part = str ".." then
    if 1 ≤ s.components then s.parent else { s with result := s.separated ++ part }
  else if part = str "." then s
  else { s with result := s.separated ++ part, components := s.components + 1 }

def addNormalizePath (x : NimStr) (s : Normal) : Normal :=
  let s := (parts (decide (0 < s.components)) x).foldl Normal.add s
  if s.result.isEmpty && !x.isEmpty then { s with result := str "." } else s

/-- A reversed path without the separators and the `/.` it starts with. -/
def trimEnd : NimStr → NimStr
  | 47 :: rest => trimEnd rest
  | 46 :: 47 :: rest => trimEnd (47 :: rest)
  | rest => rest

def normalizePathEnd (path : NimStr) (trailingSep : Bool) : NimStr :=
  if path.isEmpty then path
  else
    let trimmed := (trimEnd path.reverse).reverse
    if trailingSep then trimmed ++ [DirSep]
    else if trimmed.isEmpty then [DirSep] else trimmed

def joinPathImpl (s : Normal) (tail : NimStr) : Normal :=
  let trailingSep := endsWithSep tail || (tail.isEmpty && endsWithSep s.result)
  let s := addNormalizePath tail { s with result := normalizePathEnd s.result false }
  { s with result := normalizePathEnd s.result trailingSep }

/-- `head / tail`. -/
def joinPath (head tail : NimStr) : NimStr := (joinPathImpl (joinPathImpl {} head) tail).result

example : joinPath (str "/work/dir/") (str "./a//b/../c.txt") = str "/work/dir/a/c.txt" := by
  decide +kernel

end NimPath
