import ExportKit.Mail.Header
import ExportKit.Text.Blank

/-!
Address values of the form `name <address>`. When such a value cannot stand in a header as it is,
only the display name is encoded, so that the part in angle brackets stays legible; a value without
such a part, or whose address itself has to be encoded, is encoded as a whole.
-/
namespace ExportKit.Mail.Address

open Header (needsEncoding)

/-- What stands before the last `<` of a text, and the rest from there on. -/
def splitAtLastOpening (text : List Char) : Option (List Char × List Char) :=
  if '<' ∈ text then
    let reversed := text.reverse
    some (((reversed.dropWhile (· ≠ '<')).drop 1).reverse,
      '<' :: (reversed.takeWhile (· ≠ '<')).reverse)
  else none

/-- The display name and the bracketed address of a value that ends in `>`, trailing white
space apart. -/
def split? (value : List Char) : Option (List Char × List Char) :=
  let value := Blank.trimEnd value
  if value.getLast? = some '>' then splitAtLastOpening value else none

def unquote (name : List Char) : List Char :=
  match name with
  | '"' :: rest => if rest.getLast? = some '"' then rest.dropLast else name
  | _ => name

/-- A display name without surrounding white space and enclosing quotes. -/
def displayName (text : List Char) : List Char := unquote (Blank.trim text)

def encode (value : List Char) : List Char :=
  if needsEncoding value then
    match split? value with
    | some (text, address) =>
      if needsEncoding address then Header.encode value
      else
        let name := displayName text
        if name = [] then address else Header.encode name ++ ' ' :: address
    | none => Header.encode value
  else value

end ExportKit.Mail.Address
