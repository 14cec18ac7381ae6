/-!
# JSON values

Plain data as it is exchanged in text. The fields of an object keep their order.
-/

namespace MonkeyFront

/-- A JSON value without fractions. -/
inductive JsonValue where
  | null
  | bool (value : Bool)
  | int (value : Int)
  | string (text : String)
  | array (items : List JsonValue)
  | object (fields : List (String × JsonValue))

end MonkeyFront
