/-
YAML values. A mapping keeps its entries in the order of the document, and its keys may be values
of any kind.
-/
import StackBridge.Decimal.Layout
import StackBridge.Number

namespace StackBridge.Yaml

/-- A YAML value. -/
inductive Value where
  | null
  | bool (b : Bool)
  | number (n : Number)
  | string (s : String)
  | sequence (items : List Value)
  | mapping (entries : List (Value × Value))
  /-- A value with a tag of the document's own. -/
  | tagged (tag : String) (value : Value)
deriving Repr, Inhabited

namespace Value

mutual

def decideEq : (left right : Value) → Decidable (left = right)
  | .null, .null => isTrue rfl
  | .bool a, .bool b => decidable_of_iff (a = b) (by simp)
  | .number a, .number b => decidable_of_iff (a = b) (by simp)
  | .string a, .string b => decidable_of_iff (a = b) (by simp)
  | .sequence a, .sequence b => @decidable_of_iff _ (a = b) (by simp) (decideEqItems a b)
  | .mapping a, .mapping b => @decidable_of_iff _ (a = b) (by simp) (decideEqEntries a b)
  | .tagged t a, .tagged u b =>
      if htag : t = u then
        @decidable_of_iff _ (a = b) (by simp [htag]) (decideEq a b)
      else isFalse (by simp [htag])
  | .null, .bool _ | .null, .number _ | .null, .string _ | .null, .sequence _ | .null, .mapping _
  | .null, .tagged _ _ | .bool _, .null | .bool _, .number _ | .bool _, .string _
  | .bool _, .sequence _ | .bool _, .mapping _ | .bool _, .tagged _ _ | .number _, .null
  | .number _, .bool _ | .number _, .string _ | .number _, .sequence _ | .number _, .mapping _
  | .number _, .tagged _ _ | .string _, .null | .string _, .bool _ | .string _, .number _
  | .string _, .sequence _ | .string _, .mapping _ | .string _, .tagged _ _ | .sequence _, .null
  | .sequence _, .bool _ | .sequence _, .number _ | .sequence _, .string _
  | .sequence _, .mapping _ | .sequence _, .tagged _ _ | .mapping _, .null | .mapping _, .bool _
  | .mapping _, .number _ | .mapping _, .string _ | .mapping _, .sequence _
  | .mapping _, .tagged _ _ | .tagged _ _, .null | .tagged _ _, .bool _ | .tagged _ _, .number _
  | .tagged _ _, .string _ | .tagged _ _, .sequence _ | .tagged _ _, .mapping _ =>
      isFalse (by simp)

def decideEqItems : (left right : List Value) → Decidable (left = right)
  | [], [] => isTrue rfl
  | [], _ :: _ => isFalse (by simp)
  | _ :: _, [] => isFalse (by simp)
  | a :: as, b :: bs =>
      match decideEq a b, decideEqItems as bs with
      | isTrue h, isTrue hs => isTrue (by rw [h, hs])
      | isFalse h, _ => isFalse (by simp [h])
      | _, isFalse h => isFalse (by simp [h])

def decideEqEntries : (left right : List (Value × Value)) → Decidable (left = right)
  | [], [] => isTrue rfl
  | [], _ :: _ => isFalse (by simp)
  | _ :: _, [] => isFalse (by simp)
  | (k, a) :: as, (l, b) :: bs =>
      match decideEq k l, decideEq a b, decideEqEntries as bs with
      | isTrue hk, isTrue h, isTrue hs => isTrue (by rw [hk, h, hs])
      | isFalse h, _, _ => isFalse (by simp [h])
      | _, isFalse h, _ => isFalse (by simp [h])
      | _, _, isFalse h => isFalse (by simp [h])

end

instance : DecidableEq Value := decideEq

mutual

/-- Whether two values are the same as keys. The order of a mapping's entries does not count. -/
def same : Value → Value → Bool
  | .null, .null => true
  | .bool a, .bool b => a == b
  | .number a, .number b => a.same b
  | .string a, .string b => a == b
  | .sequence a, .sequence b => sameItems a b
  | .mapping a, .mapping b => a.length == b.length && sameEntries a b
  | .tagged t a, .tagged u b => t == u && same a b
  | _, _ => false

def sameItems : List Value → List Value → Bool
  | [], [] => true
  | a :: as, b :: bs => same a b && sameItems as bs
  | _, _ => false

/-- Whether each of these entries is among those. -/
def sameEntries : List (Value × Value) → List (Value × Value) → Bool
  | [], _ => true
  | (key, value) :: rest, entries =>
      entries.any (fun entry => same key entry.1 && same value entry.2) &&
        sameEntries rest entries

end

/-- The key of some entries that is the same as a given one. -/
def sameKey? (key : Value) (entries : List (Value × Value)) : Option Value :=
  (entries.find? (fun entry => entry.1.same key)).map (·.1)

mutual

/-- The first key that a mapping within a value has twice. -/
def repeatedKey? : Value → Option Value
  | .sequence items => repeatedKeyOfItems? items
  | .mapping entries => repeatedKeyOfEntries? [] entries
  | .tagged _ value => value.repeatedKey?
  | .null | .bool _ | .number _ | .string _ => none

def repeatedKeyOfItems? : List Value → Option Value
  | [] => none
  | item :: rest => item.repeatedKey?.or (repeatedKeyOfItems? rest)

/-- The first repeated key among entries or within one of them, where others came before. -/
def repeatedKeyOfEntries? (before : List (Value × Value)) :
    List (Value × Value) → Option Value
  | [] => none
  | (key, value) :: rest =>
      key.repeatedKey?.or <| (sameKey? key before).or <| value.repeatedKey?.or <|
        repeatedKeyOfEntries? (before ++ [(key, value)]) rest

end

end Value

/-- Floats have the fewest digits that identify them, in full from five places after the point to
sixteen before it, otherwise with an exponent that only shows a minus. -/
def floatLayout : Decimal.Layout where
  positional point := -5 < point && point ≤ 16
  plusSign := false
  nan := ".nan"
  infinity := ".inf"

def numberText : Number → String
  | .whole n => toString n.val
  | .float x => floatLayout.render x

end StackBridge.Yaml
