import ImageRollout.Table

/-!
# Claims on names

While a job is being rerun its name is claimed, and a second rerun of the same name is refused.
Claims are known by their holder; letting go of a holder's claim frees the name it holds and no
other.

* `names_nodup`: no two live claims are on the same name.
-/

namespace ImageRollout.Rerun

/-- Live claims: who holds which name. -/
structure Claims where
  held : Table String := []
  names_nodup : (held.map (·.2)).Nodup := by simp

namespace Claims

/-- The claimed names. -/
def names (c : Claims) : List String := c.held.map (·.2)

/-- Whether a name is claimed. -/
def isClaimed (c : Claims) (name : String) : Bool := name ∈ c.names

theorem nodup_release (held : Table String) (holder : String)
    (h : (held.map (·.2)).Nodup) : ((held.erase holder).map (·.2)).Nodup :=
  h.sublist (List.filter_sublist.map _)

/-- The holder lets go of its claim. -/
def release (holder : String) (c : Claims) : Claims :=
  { held := c.held.erase holder, names_nodup := nodup_release _ _ c.names_nodup }

/-- A new holder claims a name, unless it is claimed.  A holder that held another name lets go of
it once the new claim stands. -/
def claim? (holder name : String) (c : Claims) : Option Claims :=
  if h : name ∈ c.names then none
  else some
    { held := c.held.insert holder name
      names_nodup := by
        have hsub : ((c.held.erase holder).map (·.2)).Sublist c.names :=
          List.filter_sublist.map _
        exact List.nodup_cons.2
          ⟨fun hm => h (hsub.subset hm), nodup_release _ _ c.names_nodup⟩ }

end Claims

end ImageRollout.Rerun
