import Custody.Language

/-! The settings of an analysis. -/

namespace Custody

structure Settings where
  language : Language := .razorForge
  /-- Prelude modules that cannot be loaded are left out in silence. -/
  toleratesMissingPrelude : Bool := true
  deriving DecidableEq

end Custody
