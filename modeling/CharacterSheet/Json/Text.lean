import CharacterSheet.Json.Token

/-!
JSON texts: one value between optional spaces. A text is read by way of its tokens, and a value is
written by listing its tokens and writing each of them.
-/
namespace CharacterSheet.Json

namespace Value

mutual

/-- Reads the value at the start of a list of tokens in at most a given number of steps. -/
def takeValue : Nat → List Token → Option (Value × List Token)
  | steps + 1, token :: rest =>
    match token with
    | .null => some (null, rest)
    | .bool b => some (bool b, rest)
    | .number n => some (number n, rest)
    | .string s => some (string s, rest)
    | .openArray =>
      match rest with
      | .closeArray :: rest => some (array [], rest)
      | _ => (takeItems steps rest).map fun (items, rest) => (array items, rest)
    | .openObject =>
      match rest with
      | .closeObject :: rest => some (object [], rest)
      | _ => (takeMembers steps rest).map fun (members, rest) => (object members, rest)
    | _ => none
  | _, _ => none

/-- Reads one or more items and the end of their array. -/
def takeItems : Nat → List Token → Option (List Value × List Token)
  | 0, _ => none
  | steps + 1, tokens =>
    match takeValue steps tokens with
    | some (item, .closeArray :: rest) => some ([item], rest)
    | some (item, .comma :: rest) =>
      (takeItems steps rest).map fun (items, rest) => (item :: items, rest)
    | _ => none

/-- Reads one or more members and the end of their object. -/
def takeMembers : Nat → List Token → Option (List (Literal × Value) × List Token)
  | steps + 1, .string name :: .colon :: tokens =>
    match takeValue steps tokens with
    | some (value, .closeObject :: rest) => some ([(name, value)], rest)
    | some (value, .comma :: rest) =>
      (takeMembers steps rest).map fun (members, rest) => ((name, value) :: members, rest)
    | _ => none
  | _, _ => none

end

/-- The value that a list of tokens spells. An array or object takes two steps to go into and has
two brackets of its own, so the number of tokens is enough. -/
def ofTokens? (tokens : List Token) : Option Value :=
  match takeValue tokens.length tokens with
  | some (value, []) => some value
  | _ => none

def read? (text : String) : Option Value := do
  let tokens ← Token.scan text.toList
  ofTokens? tokens

/-- Token lists with a comma between each and the next. -/
def separated : List (List Token) → List Token
  | [] => []
  | [tokens] => tokens
  | tokens :: more => tokens ++ .comma :: separated more

mutual

def toTokens : Value → List Token
  | null => [.null]
  | bool b => [.bool b]
  | number n => [.number n]
  | string s => [.string s]
  | array items => .openArray :: separated (itemsTokens items) ++ [.closeArray]
  | object members => .openObject :: separated (membersTokens members) ++ [.closeObject]

def itemsTokens : List Value → List (List Token)
  | [] => []
  | item :: items => toTokens item :: itemsTokens items

/-- The tokens of each member: its name, a colon, and its value. -/
def membersTokens : List (Literal × Value) → List (List Token)
  | [] => []
  | (name, value) :: members => (.string name :: .colon :: toTokens value) :: membersTokens members

end

/-- The text that spells a value, without any space between tokens. -/
def text (v : Value) : String := String.ofList (v.toTokens.flatMap Token.write)

end Value
end CharacterSheet.Json
