import GraphqlArtifacts.Schema.Standard

-- Which constant values a type takes. A value alone stands for a list with one item; a field of an
-- input type may be left out if it is nullable or has a default value that its own type takes.

namespace GraphqlArtifacts

open Graphql (Value TypeRef)

namespace Graphql.Value

mutual

-- The number of values in a value, itself included.
def size : Value → Nat
  | .list items => sizeOfItems items + 1
  | .object fields => sizeOfFields fields + 1
  | _ => 1

def sizeOfItems : List Value → Nat
  | [] => 0
  | v :: rest => size v + sizeOfItems rest

def sizeOfFields : List (String × Value) → Nat
  | [] => 0
  | (_, v) :: rest => size v + sizeOfFields rest

end

-- The integer that a text of digits, perhaps with a sign, stands for.
def integerOf (text : String) : Int :=
  match text.toList with
  | '-' :: ds => -(ds.foldl (fun n c => n * 10 + (c.toNat - '0'.toNat)) 0 : Nat)
  | ds => (ds.foldl (fun n c => n * 10 + (c.toNat - '0'.toNat)) 0 : Nat)

-- Whether an integer has at most 32 bits.
def fitsInt (n : Int) : Bool :=
  -2147483648 ≤ n && n ≤ 2147483647

end Graphql.Value

namespace Schema

-- Whether a scalar takes a value. Scalars that are not standard take all values.
def scalarTakes (name : String) (v : Value) : Bool :=
  match name, v with
  | "Int", .int text => Value.fitsInt (Value.integerOf text)
  | "Int", _ => false
  | "Float", .int _ | "Float", .float _ => true
  | "Float", _ => false
  | "String", .string .. => true
  | "String", _ => false
  | "Boolean", .boolean _ => true
  | "Boolean", _ => false
  | "ID", .string .. | "ID", .int _ => true
  | "ID", _ => false
  | _, _ => true

-- Whether a type takes a value, given which values named types take.
def takes (named : String → Value → Bool) : TypeRef → Value → Bool
  | .nonNull type, v => (match v with | .null => false | _ => true) && takes named type v
  | .list item, v =>
    match v with
    | .null => true
    | .list items => items.all (takes named item)
    | v => takes named item v
  | .named name, v =>
    match v with
    | .null => true
    | v => named name v

-- Whether a named type takes a value. The fuel bounds the depth of input types in it.
def namedTakes (types : List NamedType) : Nat → String → Value → Bool
  | 0, _, _ => false
  | fuel + 1, name, v =>
    match types.find? (·.name == name) with
    | none => false
    | some t =>
      match t.body with
      | .scalar => scalarTakes name v
      | .enum values =>
        match v with
        | .enum value => values.contains value
        | _ => false
      | .input fields =>
        match v with
        | .object entries =>
          fields.all fun f =>
            let taken := takes (namedTakes types fuel) f.type
            match Data.lookup f.name entries.reverse with
            | some w => taken w
            | none => !f.type.isNonNull || f.default.any taken
        | _ => false
      | _ => false

def sizeOfDefaults (types : List NamedType) : Nat :=
  (types.flatMap NamedType.inputs).foldl (fun n i => n + (i.default.map Value.size).getD 0) 0

-- Whether a type takes a constant value.
def takesConstant (types : List NamedType) (type : TypeRef) (v : Value) : Bool :=
  takes (namedTakes types (v.size + sizeOfDefaults types + 1)) type v

-- An input without its default value, if its type does not take it.
def Input.checked (types : List NamedType) (i : Input) : Input :=
  { i with default := i.default.filter (takesConstant types i.type) }

def Field.checked (types : List NamedType) (f : Field) : Field :=
  { f with arguments := f.arguments.map (·.checked types) }

def NamedType.checked (types : List NamedType) (t : NamedType) : NamedType :=
  match t.body with
  | .object interfaces fields =>
    { t with body := .object interfaces (fields.map (·.checked types)) }
  | .interface interfaces fields =>
    { t with body := .interface interfaces (fields.map (·.checked types)) }
  | .input fields => { t with body := .input (fields.map (·.checked types)) }
  | _ => t

def DirectiveType.checked (types : List NamedType) (d : DirectiveType) : DirectiveType :=
  { d with arguments := d.arguments.map (·.checked types) }

end Schema

end GraphqlArtifacts
