import ImageRollout.Table
import ImageRollout.Text.Names
import ImageRollout.Watch.Event

/-!
# Caches

A cache follows the events of a watch and so always holds the objects that the server last showed.
The objects of a list take the place of all others at once, when the list is complete.
-/

namespace ImageRollout.Watch

/-- What is known of the objects of one kind in one namespace, by name. -/
structure Cache (α : Type) where
  objects : Table α := []
  /-- The objects of the list that is under way. -/
  incoming : Table α := []
  /-- Whether a list was ever complete. -/
  synced : Bool := false

namespace Cache

variable {α : Type}

/-- Follows an event. -/
def observe (name : α → String) (c : Cache α) : Event α → Cache α
  | .listing => { c with incoming := [] }
  | .listed a => { c with incoming := c.incoming.insert (name a) a }
  | .listEnd => { objects := c.incoming, incoming := [], synced := true }
  | .applied a => { c with objects := c.objects.insert (name a) a }
  | .deleted a => { c with objects := c.objects.erase (name a) }

/-- The object of a name. -/
def get? (name : String) (c : Cache α) : Option α := List.lookup name c.objects

/-- The objects in ascending order of their names. -/
def list (c : Cache α) : List α := (Text.sortByKey (·.1) c.objects).map (·.2)

end Cache

end ImageRollout.Watch
