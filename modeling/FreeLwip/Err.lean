import Mathlib.Init

/-! # Error codes (`err.h`) -/

namespace FreeLwip

/-- `err_t`. -/
inductive Err
  | ok | mem | buf | timeout | rte | inprogress | val | wouldblock | use | isconn
  | abrt | rst | clsd | conn | arg | netif
  deriving DecidableEq, Repr

/-- `ERR_IS_FATAL`: what is below ERR_ISCONN. -/
def Err.isFatal : Err → Bool
  | .abrt | .rst | .clsd | .conn | .arg | .netif => true
  | _ => false

end FreeLwip
