import Dinit.Load.Update

namespace Dinit

open Framework Framework.Comp World Relation

namespace Core

/-- What a description says about a link: on which service, and of which kind. -/
def key (c : Core) (l : Nat) : Nat × DependencyType := ((c.link l).to_,(c.link l).depType)

end Core
end Dinit
