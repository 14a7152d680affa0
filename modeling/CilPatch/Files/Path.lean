/-
Paths as texts.

A path is a string of names separated by slashes; repeated slashes separate like one. `components` are its names in
order, `fileName` is what follows the last slash and `parent` what stands before the last name.
-/
import CilPatch.Text

namespace CilPatch.Files

/-- the byte that separates names -/
def slash : UInt8 := 0x2F

/-- the names in a text; `acc` holds the name being read, reversed -/
def splitNames : Text → (acc : Text) → List Text
  | [], acc => if acc = [] then [] else [acc.reverse]
  | c :: cs, acc =>
    if c = slash then (if acc = [] then splitNames cs [] else acc.reverse :: splitNames cs [])
    else splitNames cs (c :: acc)

/-- the names in a path, in order -/
def components (path : Text) : List Text := splitNames path []

def endsInSlash (path : Text) : Bool := path.getLast? = some slash

/-- the name for a directory itself -/
def dot : Text := Text.ascii "."

/-- the name for the directory above -/
def dotDot : Text := Text.ascii ".."

/-- what follows the last slash -/
def fileName (path : Text) : Text := (path.reverse.takeWhile (· ≠ slash)).reverse

/-- what stands before the last name: a lone slash for a name right below the root, nothing for a single name -/
def parent (path : Text) : Text :=
  let before := path.reverse.dropWhile (· ≠ slash)
  let trimmed := before.dropWhile (· = slash)
  if trimmed = [] then (if before = [] then [] else [slash]) else trimmed.reverse

example : components (Text.ascii "a//b///c/") = [Text.ascii "a", Text.ascii "b", Text.ascii "c"] := by decide
example : parent (Text.ascii "a//b///c") = Text.ascii "a//b" := by decide
example : parent (Text.ascii "/c") = Text.ascii "/" ∧ parent (Text.ascii "c") = [] := by decide

end CilPatch.Files
