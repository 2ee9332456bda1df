import DocLint.Check.Basic
import DocLint.Value.Compare
import DocLint.Value.Printed

/-!
# Checks of choices

A value must be one of those allowed, and the choices that a schema lists must be of the type that it
declares.
-/
namespace DocLint

/-- A type that a schema declares by its name. -/
inductive SchemaType where
  | array
  | boolean
  | integer
  | null
  | number
  | object
  | string
  deriving DecidableEq, Inhabited

namespace SchemaType

/-- The type with a name. -/
def ofName? : String → Option SchemaType
  | "array" => some .array
  | "boolean" => some .boolean
  | "integer" => some .integer
  | "null" => some .null
  | "number" => some .number
  | "object" => some .object
  | "string" => some .string
  | _ => none

/-- Whether a value is of a type. -/
def admits : SchemaType → Value → Bool
  | .array, v => v.items?.isSome
  | .boolean, v => match v.scalar? with
    | some (.bool _) => true
    | _ => false
  | .integer, v => match v.scalar? with
    | some (.int _) => true
    | some (.float x) => x.isInteger
    | _ => false
  | .null, v => v.isNull
  | .number, v => match v.scalar? with
    | some (.int _) => true
    | some (.float _) => true
    | _ => false
  | .object, v => v.entries?.isSome
  | .string, v => v.string?.isSome

end SchemaType

namespace Check

/-- Whether a value is of the type with a name. Every value is of a type that is not known. -/
def conforms (v : Value) (typeName : String) : Bool :=
  match SchemaType.ofName? typeName with
  | some t => t.admits v
  | none => true

/-- The members that an option lists: the items of a list, the keys of a mapping, the characters of a
text or the numbers of bytes. -/
def members? (v : Value) : Option (List Value) :=
  match v.view with
  | .list items => some items
  | .tuple items => some items
  | .mapping entries => some (entries.map fun e => Value.ofScalar e.1)
  | .set members => some (members.map Value.ofScalar)
  | .scalar (.str s) => some (s.toList.map fun c => Value.ofScalar (.str (String.singleton c)))
  | .scalar (.bytes bs) => some (bs.map fun b => Value.ofScalar (.int b.toNat))
  | _ => none

/-- A value that is there must be one of those that the option `values` lists. -/
def enumeration : Check := fun v options _ =>
  if v.isMissing then .fine
  else
    match ((options.field? "values").map members?).getD (some []) with
    | none => .failed .wrongKind
    | some allowed =>
      if allowed.any fun w => w.same v then .fine
      else
        .problem (s!"{v.printed} must be equal to one of the allowed values: " ++
          ", ".intercalate (allowed.map Value.text))

/-- The names of the types that a schema declares: one, or a list of them. -/
def declaredTypes (declared : Value) : List String :=
  match declared.items? with
  | some types => types.map Value.text
  | none => [declared.text]

/-- Whether an entry is to be reported: it is of none of the types, and it is not a null that the
schema lets pass. -/
def isStray (types : List String) (nullable : Bool) (entry : Value) : Bool :=
  !(entry.isNull && nullable) && !types.any (conforms entry)

/-- The problem with a stray entry. -/
def strayFinding (types : List String) (entry : Value) (position : Nat) : Finding :=
  ⟨s!"Enum value {entry.printed} must be \"" ++ ", ".intercalate types ++ "\".",
    [.str "enum", .int position]⟩

/-- The entries of the list `enum` of a schema must be of the type that its field `type` declares. -/
def typedEnum : Check := fun v _ _ =>
  match (v.field? "enum").bind Value.items?, v.present? "type" with
  | some entries, some declared =>
    let types := declaredTypes declared
    let nullable := (v.field? "nullable").bind Value.scalar? == some (.bool true)
    let stray := entries.zipIdx.filter fun e => isStray types nullable e.1
    .answered (some (stray.map fun e => strayFinding types e.1 e.2))
  | _, _ => .fine

end Check
end DocLint
