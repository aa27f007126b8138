/-!
JSON values.
-/

namespace DesignMetrics

/-- Fields keep their order and may repeat, as they do in a text. A text can spell things that are
no values: a string that is not Unicode, or a number beyond every double. A reader that has no use
for such a part passes over it, so it is kept as `broken` and refused only by whoever asks for it. -/
inductive Json where
  | null
  | bool (value : Bool)
  | integer (value : Int)
  | decimal (value : Float)
  | string (text : String)
  | array (items : List Json)
  | object (fields : List (String × Json))
  | broken

namespace Json

mutual

def isSound : Json → Bool
  | .broken => false
  | .array items => areSound items
  | .object fields => fieldsSound fields
  | _ => true

def areSound : List Json → Bool
  | [] => true
  | j :: rest => j.isSound && areSound rest

def fieldsSound : List (String × Json) → Bool
  | [] => true
  | (_, j) :: rest => j.isSound && fieldsSound rest

end

mutual

def depth : Json → Nat
  | .array items => depthOfItems items + 1
  | .object fields => depthOfFields fields + 1
  | _ => 0

def depthOfItems : List Json → Nat
  | [] => 0
  | j :: rest => max j.depth (depthOfItems rest)

def depthOfFields : List (String × Json) → Nat
  | [] => 0
  | (_, j) :: rest => max j.depth (depthOfFields rest)

end

mutual

def cut (limit : Nat) : Json → Json
  | .array items =>
    match limit with
    | 0 => .broken
    | n + 1 => .array (cutItems n items)
  | .object fields =>
    match limit with
    | 0 => .broken
    | n + 1 => .object (cutFields n fields)
  | j => j

def cutItems (limit : Nat) : List Json → List Json
  | [] => []
  | j :: rest => cut limit j :: cutItems limit rest

def cutFields (limit : Nat) : List (String × Json) → List (String × Json)
  | [] => []
  | (k, j) :: rest => (k, cut limit j) :: cutFields limit rest

end

def insertField (key : String) (value : Json) : List (String × Json) → List (String × Json)
  | [] => [(key, value)]
  | (k, v) :: rest =>
    if key = k then (key, value) :: rest
    else if key < k then (key, value) :: (k, v) :: rest
    else (k, v) :: insertField key value rest

mutual

def normal : Json → Json
  | .array items => .array (normalItems items)
  | .object fields => .object (normalFields fields [])
  | j => j

def normalItems : List Json → List Json
  | [] => []
  | j :: rest => j.normal :: normalItems rest

def normalFields : List (String × Json) → List (String × Json) → List (String × Json)
  | [], done => done
  | (k, j) :: rest, done => normalFields rest (insertField k j.normal done)

end

end Json

end DesignMetrics
