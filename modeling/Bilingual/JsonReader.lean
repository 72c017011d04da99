import Bilingual.JsonTokens

/-!
# Reading JSON

The tokens of a JSON text drive a machine that keeps the arrays and objects
which are still open on a stack.  It therefore reads any depth of nesting, and
its steps are one for each token.
-/

namespace Bilingual

/-- An array or object that is still open, with what it contains so far, last
first.  An open object waits for the value of the member `name`. -/
inductive JsonFrame
  | array (elements : List Json)
  | object (members : List (Option Text × Json)) (name : Option Text)
  deriving Repr

/-- What the machine can read next.  The frames are the enclosing ones. -/
inductive JsonState
  /-- A value; where an array has just been opened also its end. -/
  | atValue (frames : List JsonFrame) (orClose : Bool)
  /-- A name; where an object has just been opened also its end. -/
  | atName (members : List (Option Text × Json)) (frames : List JsonFrame) (orClose : Bool)
  /-- The colon behind the name in the innermost frame. -/
  | atColon (frames : List JsonFrame)
  /-- A comma or the end of an array that is not empty. -/
  | behindElement (elements : List Json) (frames : List JsonFrame)
  /-- A comma or the end of an object that is not empty. -/
  | behindMember (members : List (Option Text × Json)) (frames : List JsonFrame)
  /-- Nothing: the whole value has been read. -/
  | complete (value : Json)
  deriving Repr

namespace JsonState

/-- The state behind a value. -/
def behind (value : Json) : List JsonFrame → JsonState
  | [] => .complete value
  | .array elements :: frames => .behindElement (value :: elements) frames
  | .object members name :: frames => .behindMember ((name, value) :: members) frames

/-- Reads one token. -/
def step? : JsonState → JsonToken → Option JsonState
  | .atValue frames _, .scalar value => some (behind value frames)
  | .atValue frames _, .openArray => some (.atValue (.array [] :: frames) true)
  | .atValue frames _, .openObject => some (.atName [] frames true)
  | .atValue (.array [] :: frames) true, .closeArray => some (behind (.array []) frames)
  | .atName members frames _, .scalar (.string name) =>
      some (.atColon (.object members name :: frames))
  | .atName [] frames true, .closeObject => some (behind (.object []) frames)
  | .atColon frames, .colon => some (.atValue frames false)
  | .behindElement elements frames, .comma =>
      some (.atValue (.array elements :: frames) false)
  | .behindElement elements frames, .closeArray =>
      some (behind (.array elements.reverse) frames)
  | .behindMember members frames, .comma => some (.atName members frames false)
  | .behindMember members frames, .closeObject =>
      some (behind (.object members.reverse) frames)
  | _, _ => none

/-- The value that has been read, if it is complete. -/
def result? : JsonState → Option Json
  | .complete value => some value
  | _ => none

end JsonState

/-- Reads a text that is one JSON value. -/
def Json.read? (text : Text) : Option Json :=
  match jsonTokens? text with
  | none => none
  | some tokens =>
      match tokens.foldlM JsonState.step? (.atValue [] false) with
      | none => none
      | some state => state.result?

end Bilingual
