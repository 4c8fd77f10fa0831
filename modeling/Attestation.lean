import Attestation.Android.ChainHash
import Attestation.Android.Enumerated
import Attestation.Android.PatchLevels
import Attestation.Android.PolicyOrder
import Attestation.Android.RoundTrip
import Attestation.Android.StatusJson
import Attestation.Android.TagNumbers
import Attestation.Android.UnreadBytes
import Attestation.Apple.AssertionBinding
import Attestation.Apple.KeyIdentity
import Attestation.Core.WireFormat
import Attestation.Enclave.Clock
import Attestation.Enclave.NoPanic
import Attestation.Enclave.Windows
import Attestation.IosDemo.Acceptance
import Attestation.Move.Acceptance
import Attestation.Move.Receipts
import Attestation.Proxy.Progress
import Attestation.System.Actions
import Attestation.System.ChainValidators
import Attestation.System.DocumentKinds
import Attestation.System.KeyForms
import Attestation.System.Payloads
import Attestation.System.Redemption
import Attestation.System.SecurityLevels
import Attestation.System.SourceSeparation
