import Mathlib

/-!
# Claim keys

The field under which the claim of one request generation is kept (`claimKey` in
`pkg/redis/claim.go`, `claimID` in the scripts of `producer/redis_result_delivery.go`): the request
id, a NUL byte and the request token.  A token is sixteen random bytes in hexadecimal, so it is not
empty and has no NUL byte, and the key determines id and token.
-/

namespace LlmdAsync.Redis

/-- The NUL byte, as `"\x00"` and `string.char(0)`. -/
def nul : Char := Char.ofNat 0

/-- `claimKey`. -/
def claimKey (requestID requestToken : String) : String :=
  if requestToken = "" then requestID
  else String.ofList (requestID.toList ++ nul :: requestToken.toList)

end LlmdAsync.Redis
