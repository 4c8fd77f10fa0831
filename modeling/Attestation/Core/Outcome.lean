import Attestation.Base.Bytes

/-! The outcome type the platform verifiers share, and the source identifiers
they put in it. -/

namespace Attestation

/-- A successfully verified attestation. -/
structure Outcome where
  source : String
  attestedValue : Bytes
  challenge : Bytes
  timestampMs : UInt64
  detailHash : Bytes
  deriving DecidableEq, Repr

namespace Sources

def appleAppAttest : String := "apple-app-attest"
def appleAppAttestAssertion : String := "apple-app-attest-assertion"
def androidKeyAttest : String := "android-key-attest"

end Sources

end Attestation
