/-
JSON values.

Tokens are read one after another, with a stack of the arrays and objects that are not
complete.
-/
import DocPages.Json.Token

namespace DocPages
namespace Json

inductive Value where
  | text (content : String)
  /-- A value of another kind. -/
  | other
  | array (elements : List Value)
  /-- The members of an object in order, a key being absent if it is a broken text. -/
  | object (members : List (Option String × Value))
deriving Repr

/-- An array or object that is not complete. -/
inductive Frame where
  | array (done : List Value)
  | object (done : List (Option String × Value)) (key : Option String)
deriving Repr

/-- What may come next. -/
inductive Reading where
  | value (stack : List Frame)
  | firstElement (stack : List Frame)
  | firstKey (stack : List Frame)
  | nextKey (stack : List Frame) (done : List (Option String × Value))
  | afterKey (stack : List Frame) (done : List (Option String × Value)) (key : Option String)
  /-- A value is complete: the end of what holds it, or a comma. -/
  | after (value : Value) (stack : List Frame)
deriving Repr

namespace Reading

/-- A token that starts a value. -/
def begin? (stack : List Frame) : Token → Option Reading
  | .openArray => some (.firstElement stack)
  | .openObject => some (.firstKey stack)
  | .text content => some (.after (.text content) stack)
  | .brokenText _ => some (.after .other stack)
  | .other _ => some (.after .other stack)
  | _ => none

def key? : Token → Option (Option String)
  | .text content => some (some content)
  | .brokenText _ => some none
  | _ => none

/-- Reads one token. -/
def step? (r : Reading) (t : Token) : Option Reading :=
  match r, t with
  | .value stack, t => begin? stack t
  | .firstElement stack, .closeArray => some (.after (.array []) stack)
  | .firstElement stack, t => begin? (.array [] :: stack) t
  | .firstKey stack, .closeObject => some (.after (.object []) stack)
  | .firstKey stack, t => (key? t).map (.afterKey stack [])
  | .nextKey stack done, t => (key? t).map (.afterKey stack done)
  | .afterKey stack done key, .colon => some (.value (.object done key :: stack))
  | .after v (.array done :: stack), .comma => some (.value (.array (done ++ [v]) :: stack))
  | .after v (.array done :: stack), .closeArray => some (.after (.array (done ++ [v])) stack)
  | .after v (.object done key :: stack), .comma => some (.nextKey stack (done ++ [(key, v)]))
  | .after v (.object done key :: stack), .closeObject =>
    some (.after (.object (done ++ [(key, v)])) stack)
  | _, _ => none

/-- The value, if it is complete and alone. -/
def finished? : Reading → Option Value
  | .after v [] => some v
  | _ => none

end Reading

namespace Value

/-- The value that a text spells. -/
def read? (s : String) : Option Value := do
  let tokens ← tokens? s.toList
  let last ← tokens.foldlM Reading.step? (.value [])
  last.finished?

def text? : Value → Option String
  | .text content => some content
  | _ => none

def array? : Value → Option (List Value)
  | .array elements => some elements
  | _ => none

/-- The values that an object gives to some names.  Other members are passed over, but
every key has to be a text, and no name may occur twice. -/
def fields? (names : List String) (members : List (Option String × Value)) :
    Option (List (Option Value)) :=
  let values (name : String) := (members.filter (·.1 == some name)).map (·.2)
  if members.all (·.1.isSome) && names.all (fun name => (values name).length ≤ 1) then
    some (names.map fun name => (values name).head?)
  else none

end Value
end Json
end DocPages
