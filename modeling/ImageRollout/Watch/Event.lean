/-!
# Watch events

What a watch on one kind of object reports.  A list of all objects comes as `listing`, one `listed`
for each object and `listEnd`; then every change is reported by itself.  When a watch breaks, the
objects are listed again, and a list can break off before its end.
-/

namespace ImageRollout.Watch

/-- What a watch reports. -/
inductive Event (α : Type) where
  /-- A list begins. -/
  | listing
  /-- An object of the list. -/
  | listed (object : α)
  /-- The list is complete. -/
  | listEnd
  /-- An object was added or changed. -/
  | applied (object : α)
  /-- An object was deleted. -/
  | deleted (object : α)
  deriving Repr

namespace Event

variable {α β : Type}

/-- The event with its object changed. -/
def map (f : α → β) : Event α → Event β
  | listing => listing
  | listed a => listed (f a)
  | listEnd => listEnd
  | applied a => applied (f a)
  | deleted a => deleted (f a)

/-- The object that the event is about. -/
def object? : Event α → Option α
  | listed a | applied a | deleted a => some a
  | listing | listEnd => none

end Event

end ImageRollout.Watch
