/-! JSON values, of the kinds that settings are made of, and the ways in which reading a JSON text fails. -/

namespace Logbook
namespace Json

/-- A JSON value: a string, a truth value, or an object with its members in order. -/
inductive Value where
  | text (s : String)
  | truth (b : Bool)
  | object (members : List (String × Value))

/-- The first problem met, from left to right, when a JSON text is read. -/
inductive Fault where
  /-- The text stops before the value does. -/
  | ended
  /-- The text is not JSON, or goes on after the value. -/
  | malformed
  /-- The text is JSON so far, but not of the shape that is wanted. -/
  | unsuitable
  /-- A string of the right shape names nothing that is known; `why` says so. -/
  | refused (why : String)
deriving DecidableEq, Repr

end Json
end Logbook
