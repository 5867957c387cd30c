import StockFlow.Text.Basic
import StockFlow.Text.Utf8

/-!
# Addresses of resources

What can be fetched from the service has an address: a path of segments between
slashes, in which a percent sign and two hexadecimal digits write a byte of UTF-8.
What follows a question mark or a number sign does not belong to the path.
Segments of one or two dots are steps to this level and to the one above; they are
taken before any escape is read.  On its way to the service a path is decoded
twice.  A path with slashes at its end that names nothing is sent on as an address
without them.

Main definitions:

- {lit}`Address.decoded`: a text without its escapes.
- {lit}`Address.resourceAt?`: what stands at a path.
- {lit}`Resource`, {lit}`Address.resolve`: what there is, and what an address names.
-/

namespace StockFlow

/-- What an address can name. -/
inductive Resource where
  | root
  | models
  | model (id : String)
  /-- A resource that takes data and gives none by itself. -/
  | receiver
  deriving DecidableEq, Repr

namespace Address

/-! ## Escapes -/

/-- The byte that two hexadecimal digits write. -/
def byte? (a b : Char) : Option Nat := do
  let high ← Text.hexValue? a
  let low ← Text.hexValue? b
  return 16 * high + low

/-- The rest of a text without its escapes, behind bytes that were read already. -/
def decodeAfter (bytes : List Nat) : List Char → List Char
  | '%' :: a :: b :: rest =>
      match byte? a b with
      | some x => decodeAfter (bytes ++ [x]) rest
      | none => Utf8.characters bytes ++ '%' :: decodeAfter [] (a :: b :: rest)
  | c :: rest => Utf8.characters bytes ++ c :: decodeAfter [] rest
  | [] => Utf8.characters bytes

/-- A text without its escapes; a percent sign that starts none stands for itself. -/
def decoded (s : String) : String := String.ofList (decodeAfter [] s.toList)

/-! ## Paths -/

/-- The path of an address. -/
def path (address : String) : String :=
  String.ofList (address.toList.takeWhile fun c => c != '?' && c != '#')

/-- One more segment behind others, where dots are steps. -/
def step (above : List String) (segment : String) : List String :=
  if segment == "." then above
  else if segment == ".." then if above == [""] then above else above.dropLast
  else above ++ [segment]

/-- A path without segments of dots; the top has a slash of its own. -/
def withoutDots (path : String) : String :=
  match (path.splitOn "/").foldl step [] with
  | [""] => "/"
  | segments => "/".intercalate segments

/-- A text without the slashes at its end. -/
def withoutLastSlashes (s : String) : String :=
  String.ofList ((s.toList.reverse.dropWhile (· == '/')).reverse)

/-- A text without a line break at its end. -/
def withoutLastBreak (s : String) : String :=
  match s.toList.reverse with
  | '\n' :: rest => String.ofList rest.reverse
  | _ => s

/-! ## Resources -/

/-- The resource that has a path. -/
def resourceOf? (path : String) : Option Resource :=
  match path.splitOn "/" with
  | ["", ""] => some .root
  | ["", "api", "models"] => some .models
  | ["", "api", "models", id] => if id.isEmpty then none else some (.model id)
  | ["", "api", "simulate"] => some .receiver
  | ["", "api", "validate_model"] => some .receiver
  | ["", "api", "save_model"] => some .receiver
  | _ => none

/-- What stands at a path; a line break at the end is left out where it names nothing. -/
def resourceAt? (path : String) : Option Resource :=
  (resourceOf? path).or (resourceOf? (withoutLastBreak path))

/-- The path that the service looks up for an address. -/
def servedPath (address : String) : String := decoded (decoded (withoutDots (path address)))

/-- The resource that an address names, sent on at most as often as the fuel allows. -/
def resolveWithin : Nat → String → Option Resource
  | 0, _ => none
  | fuel + 1, address =>
      let path := servedPath address
      let shorter := withoutLastSlashes path
      match resourceAt? path with
      | some resource => some resource
      | none =>
          if shorter == path || (resourceAt? shorter).isNone then none
          else resolveWithin fuel shorter

/-- The resource that an address names; sending it on takes away a character at least. -/
def resolve (address : String) : Option Resource := resolveWithin (address.length + 1) address

/-- The address of a saved model. -/
def ofModel (id : String) : String := "/api/models/" ++ id

end Address
end StockFlow
