import Mathlib

/-! # Literals of bounded types

The types of the numbers below 4 and below 13 have literals. Their instances
have names here, so that every definition with such a literal shares them.
-/

namespace Bounded

instance neZero_four : NeZero 4 := ⟨by decide⟩

instance neZero_thirteen : NeZero 13 := ⟨by decide⟩

end Bounded
