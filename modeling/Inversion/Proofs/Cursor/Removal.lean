import Inversion.Proofs.Cursor.Atomic
import Inversion.Proofs.Cursor.Validity

/-!
What a removal does, exactly: when it is refused and with which error, what it returns, and what it
leaves. Whether a branch outside the span leads into it decides whether something has to stand in for
the span, and which branches are pointed to what does.
-/

namespace Inversion

namespace Cursor

/-! ### Branches into a span -/

variable {c after : Cursor} {count index : Nat} {l branch : Label} {labels : List Label}
  {e : BodyError} {r : Removal}

end Cursor

end Inversion
