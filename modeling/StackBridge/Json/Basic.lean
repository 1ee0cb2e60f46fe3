/-
JSON values. A value keeps the members of an object in the order in which they were given, repeated
names included; `Json.normal` is the same value with every object in ascending order of names and
the last member of each name kept, which is what two readers of one document agree on.
-/
import StackBridge.Decimal.Layout
import StackBridge.Number
import StackBridge.SortedMap

namespace StackBridge

/-- A JSON value. -/
inductive Json where
  | null
  | bool (b : Bool)
  | number (n : Number)
  | string (s : String)
  | array (items : List Json)
  | object (members : List (String × Json))
deriving Repr, Inhabited

namespace Json

mutual

def decideEq : (left right : Json) → Decidable (left = right)
  | .null, .null => isTrue rfl
  | .bool a, .bool b => decidable_of_iff (a = b) (by simp)
  | .number a, .number b => decidable_of_iff (a = b) (by simp)
  | .string a, .string b => decidable_of_iff (a = b) (by simp)
  | .array a, .array b => @decidable_of_iff _ (a = b) (by simp) (decideEqItems a b)
  | .object a, .object b => @decidable_of_iff _ (a = b) (by simp) (decideEqMembers a b)
  | .null, .bool _ | .null, .number _ | .null, .string _ | .null, .array _ | .null, .object _
  | .bool _, .null | .bool _, .number _ | .bool _, .string _ | .bool _, .array _
  | .bool _, .object _ | .number _, .null | .number _, .bool _ | .number _, .string _
  | .number _, .array _ | .number _, .object _ | .string _, .null | .string _, .bool _
  | .string _, .number _ | .string _, .array _ | .string _, .object _ | .array _, .null
  | .array _, .bool _ | .array _, .number _ | .array _, .string _ | .array _, .object _
  | .object _, .null | .object _, .bool _ | .object _, .number _ | .object _, .string _
  | .object _, .array _ => isFalse (by simp)

def decideEqItems : (left right : List Json) → Decidable (left = right)
  | [], [] => isTrue rfl
  | [], _ :: _ => isFalse (by simp)
  | _ :: _, [] => isFalse (by simp)
  | a :: as, b :: bs =>
      match decideEq a b, decideEqItems as bs with
      | isTrue h, isTrue hs => isTrue (by rw [h, hs])
      | isFalse h, _ => isFalse (by simp [h])
      | _, isFalse h => isFalse (by simp [h])

def decideEqMembers : (left right : List (String × Json)) → Decidable (left = right)
  | [], [] => isTrue rfl
  | [], _ :: _ => isFalse (by simp)
  | _ :: _, [] => isFalse (by simp)
  | (name, a) :: as, (name', b) :: bs =>
      if hname : name = name' then
        match decideEq a b, decideEqMembers as bs with
        | isTrue h, isTrue hs => isTrue (by rw [hname, h, hs])
        | isFalse h, _ => isFalse (by simp [h])
        | _, isFalse h => isFalse (by simp [h])
      else isFalse (by simp [hname])

end

instance : DecidableEq Json := decideEq

mutual

/-- The value with every object in ascending order of names, the last member of a name kept. -/
def normal : Json → Json
  | .array items => .array (normalItems items)
  | .object members => .object (insertEntries (normalMembers members))
  | other => other

def normalItems : List Json → List Json
  | [] => []
  | item :: rest => normal item :: normalItems rest

/-- The members in their order, each value in normal form. -/
def normalMembers : List (String × Json) → List (String × Json)
  | [] => []
  | member :: rest => (member.1, normal member.2) :: normalMembers rest

end

/-- A whole number that 64 bits hold. -/
def whole (n : Whole) : Json :=
  .number (.whole n)

def ofMap (map : SortedMap Json) : Json :=
  .object map.entries

/-- The value of the last member of that name. -/
def member? (name : String) : Json → Option Json
  | .object members => (members.reverse.find? (fun entry => entry.1 == name)).map (·.2)
  | _ => none

end Json

end StackBridge
