import DesignTokens.Decimal.Style
import DesignTokens.OrderedMap

/-!
# JSON values

Numbers are kept as they were written: whole numbers that fit 64 bits stay whole, all others are
doubles.  Objects keep the order of their members.  A value that was read repeats no key in any
object, which is the predicate `Json.Distinct`.
-/

namespace DesignTokens

/-- A JSON number. -/
inductive JsonNumber where
  /-- A whole number from `-2 ^ 63` to `2 ^ 64 - 1`. -/
  | whole (value : Int)
  /-- Any other number, rounded to a double. -/
  | double (value : Double)
  deriving DecidableEq, Repr

/-- A JSON value. -/
inductive Json where
  | null
  | bool (value : Bool)
  | number (value : JsonNumber)
  | string (value : String)
  | array (items : List Json)
  | object (members : List (String × Json))
  deriving Repr

namespace JsonNumber

/--
Doubles in JSON text end in `.0` or have an exponent, which starts at `10 ^ 16` and below
`10 ^ -5`.
-/
def jsonStyle : NumberStyle where
  tie := .even
  positional := some (-4, 16)
  wholeEnd := ".0"
  signedZero := true

/-- Doubles in stylesheets have neither exponent nor `.0`, and zero has no sign. -/
def stylesheetStyle : NumberStyle where
  tie := .up
  positional := none
  wholeEnd := ""
  signedZero := false

/-- The number as JSON text. -/
def toJsonText : JsonNumber → String
  | .whole value => toString value
  | .double value => jsonStyle.render value

/-- The number as stylesheet authors write it: `4` and `1.5`, never `4.0`. -/
def toText : JsonNumber → String
  | .whole value => toString value
  | .double value => stylesheetStyle.render value

end JsonNumber

namespace Json

/-- The member of an object under a key; other values have no members. -/
def get? (key : String) : Json → Option Json
  | .object members => Entries.get? key members
  | _ => none

/-- Whether a value can hold other values. -/
def isContainer : Json → Bool
  | .array _ => true
  | .object _ => true
  | _ => false

/-- The kinds of JSON values. -/
inductive Kind where
  | null
  | bool
  | number
  | string
  | array
  | object
  deriving DecidableEq, Repr

/-- The kind of a value. -/
def kind : Json → Kind
  | .null => .null
  | .bool _ => .bool
  | .number _ => .number
  | .string _ => .string
  | .array _ => .array
  | .object _ => .object

/-- A kind with its article, as error messages name it. -/
def Kind.description : Kind → String
  | .null => "null"
  | .bool => "a boolean"
  | .number => "a number"
  | .string => "a string"
  | .array => "an array"
  | .object => "an object"

mutual

/-- No object inside the value repeats a key. -/
def Distinct : Json → Prop
  | .array items => DistinctItems items
  | .object members => (Entries.keys members).Nodup ∧ DistinctMembers members
  | _ => True

/-- No object inside the items repeats a key. -/
def DistinctItems : List Json → Prop
  | [] => True
  | item :: items => Distinct item ∧ DistinctItems items

/-- No object inside the member values repeats a key. -/
def DistinctMembers : List (String × Json) → Prop
  | [] => True
  | (_, value) :: members => Distinct value ∧ DistinctMembers members

end

mutual

/-- Equality of JSON values is decidable. -/
def decideEq : (left right : Json) → Decidable (left = right)
  | .null, .null => isTrue rfl
  | .bool a, .bool b => if same : a = b then isTrue (by rw [same]) else isFalse (by simp [same])
  | .number a, .number b => if same : a = b then isTrue (by rw [same]) else isFalse (by simp [same])
  | .string a, .string b => if same : a = b then isTrue (by rw [same]) else isFalse (by simp [same])
  | .array a, .array b =>
      match decideEqItems a b with
      | isTrue same => isTrue (by rw [same])
      | isFalse differ => isFalse (by simp [differ])
  | .object a, .object b =>
      match decideEqMembers a b with
      | isTrue same => isTrue (by rw [same])
      | isFalse differ => isFalse (by simp [differ])
  | .null, .bool _ | .null, .number _ | .null, .string _ | .null, .array _ | .null, .object _
  | .bool _, .null | .bool _, .number _ | .bool _, .string _ | .bool _, .array _
  | .bool _, .object _ | .number _, .null | .number _, .bool _ | .number _, .string _
  | .number _, .array _ | .number _, .object _ | .string _, .null | .string _, .bool _
  | .string _, .number _ | .string _, .array _ | .string _, .object _ | .array _, .null
  | .array _, .bool _ | .array _, .number _ | .array _, .string _ | .array _, .object _
  | .object _, .null | .object _, .bool _ | .object _, .number _ | .object _, .string _
  | .object _, .array _ => isFalse nofun

/-- Equality of item lists is decidable. -/
def decideEqItems : (left right : List Json) → Decidable (left = right)
  | [], [] => isTrue rfl
  | [], _ :: _ | _ :: _, [] => isFalse nofun
  | a :: as, b :: bs =>
      match decideEq a b, decideEqItems as bs with
      | isTrue head, isTrue tail => isTrue (by rw [head, tail])
      | isFalse differ, _ => isFalse (by simp [differ])
      | _, isFalse differ => isFalse (by simp [differ])

/-- Equality of member lists is decidable. -/
def decideEqMembers : (left right : List (String × Json)) → Decidable (left = right)
  | [], [] => isTrue rfl
  | [], _ :: _ | _ :: _, [] => isFalse nofun
  | (j, a) :: as, (k, b) :: bs =>
      match decEq j k, decideEq a b, decideEqMembers as bs with
      | isTrue key, isTrue head, isTrue tail => isTrue (by rw [key, head, tail])
      | isFalse differ, _, _ => isFalse (by simp [differ])
      | _, isFalse differ, _ => isFalse (by simp [differ])
      | _, _, isFalse differ => isFalse (by simp [differ])

end

instance : DecidableEq Json := decideEq

end Json
end DesignTokens
