import CssModules.Proofs.Path.Relative
import CssModules.Template.Expansion

namespace CssModules

namespace Text

end Text

namespace Path

variable {p q root : Path}

end Path

namespace Request

/-- Whether the paths of a request are normalized, and free of NUL where they are digested. -/
structure Plain (r : Request) : Prop where
  root : r.projectRoot.Normalized
  resource : r.resourcePath.Normalized
  resource_text : '\x00' ∉ r.resourcePath.text.toList
  matched : ∀ m ∈ r.matchResource, m.Normalized ∧ '\x00' ∉ m.text.toList
  spelling : .parent ∈ r.projectRoot.components →
    r.resourcePath.normalize = r.resourcePath ∧ ∀ m ∈ r.matchResource, m.normalize = m

variable {r r' : Request}

end Request

end CssModules
