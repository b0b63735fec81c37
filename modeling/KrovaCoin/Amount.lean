import KrovaCoin.Lib.MachineInt

/-!
# Amounts (`amount.h`)

`CAmount` is `int64_t` in the source. Amounts are modelled as integers; every place where the source adds two amounts
that may leave the 64-bit range wraps explicitly with `toInt64`.
-/

namespace KrovaCoin

def COIN : Int := 100000000

/-- `std::numeric_limits<CAmount>::max()` and `min()`. -/
def CAMOUNT_MAX : Int := 9223372036854775807

def CAMOUNT_MIN : Int := -9223372036854775808

/-- `CheckedAdd`: `none` where the source returns `false`. -/
def checkedAdd (a b : Int) : Option Int :=
  if b > 0 ∧ a > CAMOUNT_MAX - b then none
  else if b < 0 ∧ a < CAMOUNT_MIN - b then none
  else some (a + b)

end KrovaCoin
