import MergePathSort.Refusal
import MergePathSort.Text.Quoted

/-!
# Refusals as terms

A command that fails shows its refusal as a term: the name of the cause, and what it carries, by name if there
is more than one thing. Texts are quoted.

## Main definitions

* `fieldsTerm`, `tupleTerm` : the two forms of a term.
* `Refusal.term` : a refusal as a term.
-/

namespace MergePathSort

namespace Text

/-- A term whose parts have names. -/
def fieldsTerm (name : String) (fields : List (String × String)) : String :=
  name ++ " \x7b " ++ ", ".intercalate (fields.map fun (field, term) => field ++ ": " ++ term) ++ " \x7d"

/-- A term with one part. -/
def tupleTerm (name part : String) : String := name ++ "(" ++ part ++ ")"

end Text

open Text

/-- The way in which reading a text failed, as a term. -/
def Json.Category.term : Json.Category → String
  | .malformed => "Syntax"
  | .mismatched => "Data"
  | .truncated => "Eof"

/-- A refusal as a term. -/
def Refusal.term : Refusal → String
  | .invalidAxis axis rank => fieldsTerm "InvalidAxis" [("axis", toString axis), ("rank", toString rank)]
  | .unknownReturnKind text => tupleTerm "InvalidRetType" (quoted text)
  | .searchShapeMismatch sorted values =>
    fieldsTerm "SearchShapeMismatch" [("sorted", sizesText sorted), ("values", sizesText values)]
  | .noGrid problem => tupleTerm "InvalidGeometry" (quoted problem.text)
  | .bufferMismatch expected actual =>
    fieldsTerm "BufferMismatch" [("expected", toString expected), ("actual", toString actual)]
  | .indexRange axisLen typeName =>
    fieldsTerm "IndexRange" [("axis_len", toString axisLen), ("dtype", quoted typeName)]
  | .shapeMismatch shape len =>
    fieldsTerm "ShapeMismatch" [("shape", sizesText shape), ("len", toString len)]
  | .invalidConfig reason => tupleTerm "InvalidConfig" (quoted reason)
  | .configVersion found expected =>
    fieldsTerm "ConfigVersion" [("found", quoted found), ("expected", quoted expected)]
  | .unreadableText category => tupleTerm "SerdeJsonError" category.term
  | .missingFile =>
    tupleTerm "IOError" (fieldsTerm "Os"
      [("code", "2"), ("kind", "NotFound"), ("message", quoted "No such file or directory")])
  | .poisonedLock reason => tupleTerm "PoisonError" (quoted reason)
  | .device reason => tupleTerm "Device" (quoted reason)

end MergePathSort
