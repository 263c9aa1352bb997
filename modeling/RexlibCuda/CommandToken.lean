import Mathlib.Data.Int.Order.Basic
import RexlibCuda.Lib.Completion

/-! Command tokens of the rexlib core, as the backend uses them. -/

namespace RexlibCuda

/-- A `command_timeline`, by its address. Addresses are integers rather than
machine words so that there may be any number of timelines, on either side of
the null pointer `0`: `std::less` orders null anywhere among the others. -/
def Timeline := {address : Int // address ≠ 0}
deriving DecidableEq

/-- A command: a timeline and the id it gave. -/
abbrev Command := Completion.Command Timeline

/-- `command_token`. `none` is the empty token. -/
abbrev CommandToken := Completion.Token Timeline

namespace CommandToken

def isEmpty (token : CommandToken) : Bool := token.isNone

/-- `get_timeline()`, where `none` is the null pointer. -/
def getTimeline (token : CommandToken) : Option Timeline := token.map (·.timeline)

/-- `get_id()`. What an empty token answers is never used. -/
def getId : CommandToken → Nat
  | none => 0
  | some command => command.id

@[simp] theorem getTimeline_none : getTimeline none = none := rfl

@[simp] theorem getTimeline_some (c : Command) : getTimeline (some c) = some c.timeline := rfl

@[simp] theorem getId_some (c : Command) : getId (some c) = c.id := rfl

theorem getTimeline_eq_none {token : CommandToken} : token.getTimeline = none ↔ token = none := by
  cases token <;> simp

end CommandToken

/-- The address a pointer to a timeline holds. -/
def timelineAddress : Option Timeline → Int
  | none => 0
  | some timeline => timeline.val

theorem timelineAddress_injective : Function.Injective timelineAddress := by
  rintro (_ | ⟨a, ha⟩) (_ | ⟨b, hb⟩) h
  · rfl
  · exact absurd h.symm hb
  · exact absurd h ha
  · exact congrArg some (Subtype.ext h)

end RexlibCuda
