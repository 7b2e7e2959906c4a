import Runbook.Text

/-! # Replacing

Replacing every occurrence of a text by another. Occurrences are found from the left and do not overlap; what is put
in is not searched again. -/

namespace Runbook.Text

/-- Replaces `old` by `new` in `s`, after the first `skip` characters, which belong to an occurrence that has been
    replaced already. -/
def replaceFrom (old new : Text) : (skip : Nat) → Text → Text
  | _, [] => []
  | skip + 1, _ :: s => replaceFrom old new skip s
  | 0, c :: s =>
    if old.isPrefixOf (c :: s) then new ++ replaceFrom old new (old.length - 1) s
    else c :: replaceFrom old new 0 s

/-- `s` with every occurrence of `old` replaced by `new`; the empty text occurs nowhere. -/
def replace (old new s : Text) : Text :=
  if old.isEmpty then s else replaceFrom old new 0 s

end Runbook.Text
