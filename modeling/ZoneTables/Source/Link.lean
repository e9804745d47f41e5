import ZoneTables.Log
import ZoneTables.Registry

/-!
# Links

A link gives a zone another name, and may lead to a zone through other links. A link whose name is
that of a zone is dropped.
-/

namespace ZoneTables.Source

/-- A link that leads to no zone, and the name at which the chain from it breaks off. -/
structure UnresolvedLink where
  name : String
  target : String
deriving DecidableEq

def UnresolvedLink.message (e : UnresolvedLink) : String :=
  s!"{e.name} is mapped to unknown time zone {e.target}"

/-- The first zone on the chain of links from `target`, or the name at which the chain breaks off.
Each link is taken once: a name seen before leads nowhere. -/
def followLinks (isZone : String → Bool) (links : Registry String) (target : String) :
    Except String String :=
  if isZone target then .ok target
  else
    match _h : links.get? target with
    | none => .error target
    | some next => followLinks isZone (links.erase target) next
termination_by links.size
decreasing_by exact Registry.size_erase_lt _h

/-- The zone that the link `name` to `target` leads to. -/
def resolveLink (isZone : String → Bool) (links : Registry String) (name target : String) :
    Except UnresolvedLink String :=
  (followLinks isZone (links.erase name) target).mapError (⟨name, ·⟩)

/-- The zones that links lead to, in the order of the links, up to the first that leads to none. -/
def resolveEach (isZone : String → Bool) (links : Registry String) :
    List (String × String) → Registry String → Log × Except UnresolvedLink (Registry String)
  | [], aliases => ([], .ok aliases)
  | (name, target) :: rest, aliases =>
    if isZone name then
      let (log, result) := resolveEach isZone links rest aliases
      (.info s!"Dropping Link {name} shadowed by a Zone" :: log, result)
    else
      match resolveLink isZone links name target with
      | .error e => ([], .error e)
      | .ok zone => resolveEach isZone links rest (aliases.put name zone)

/-- Every link that is no zone, with the zone that it leads to. -/
def resolveLinks (isZone : String → Bool) (links : Registry String) :
    Log × Except UnresolvedLink (Registry String) :=
  resolveEach isZone links links.entries ∅

end ZoneTables.Source
