import Mathlib.Data.UInt

/-!
# Fees of transactions
-/

namespace Catapult.Model

def calculateTransactionFee (feeMultiplier size : UInt32) : UInt64 := feeMultiplier.toUInt64 * size.toUInt64

end Catapult.Model
