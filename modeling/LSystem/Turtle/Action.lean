import LSystem.Text.Blank

/-!
# Turtle actions

The seven things a symbol can make the turtle do, and the names they go by.
-/

namespace LSystem

/-- What a symbol can make the turtle do. -/
inductive Action where
  /-- One step forward, leaving a line. -/
  | draw
  /-- One step forward, leaving nothing. -/
  | move
  /-- One unit angle counter-clockwise. -/
  | turnLeft
  /-- One unit angle clockwise. -/
  | turnRight
  /-- Remember position and heading. -/
  | push
  /-- Go back to the position and heading remembered last. -/
  | pop
  /-- Nothing, on purpose. -/
  | stay
  deriving DecidableEq, Repr, Inhabited

namespace Action

def all : List Action := [draw, move, turnLeft, turnRight, push, pop, stay]

def name : Action → String
  | draw => "draw"
  | move => "move"
  | turnLeft => "turnl"
  | turnRight => "turnr"
  | push => "push"
  | pop => "pop"
  | stay => "stay"

def aliases : List (String × Action) := [("turnleft", turnLeft), ("turnright", turnRight)]

/-- The action of a name.  Blanks around it and the case of its ASCII letters do not count. -/
def ofName? (name : String) : Option Action :=
  let key := String.ofList ((Text.trim name.toList).map Char.toLower)
  (all.map (fun a => (a.name, a)) ++ aliases).lookup key

/-- Every action is understood by its name. -/
theorem ofName?_name (a : Action) : ofName? a.name = some a := by
  cases a <;> decide +kernel

end Action

end LSystem
