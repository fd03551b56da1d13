import Swpasskey.Bytes

/-!
# CTAP2 status bytes
-/

namespace Swpasskey

/-- `swpk::Status`: the status byte of a CBOR response. HID error codes are `HidErr`. -/
inductive Status
  | ok | invalidCommand | invalidParameter | invalidLength | cborUnexpectedType | invalidCbor
  | missingParameter | limitExceeded | credentialExcluded | processing | invalidCredential
  | unsupportedAlgorithm | operationDenied | keyStoreFull | unsupportedOption | invalidOption
  | keepaliveCancel | noCredentials | userActionTimeout | notAllowed | pinInvalid | pinBlocked
  | pinAuthInvalid | pinAuthBlocked | pinNotSet | puattRequired | pinPolicyViolation
  | requestTooLarge | actionTimeout | upRequired | invalidSubcommand | unauthorizedPermission
  | unsupportedExtension | extensionFirst | other
  deriving DecidableEq, Repr

/-- The wire value of a status. -/
def Status.code : Status → UInt8
  | ok => 0x00
  | invalidCommand => 0x01
  | invalidParameter => 0x02
  | invalidLength => 0x03
  | cborUnexpectedType => 0x11
  | invalidCbor => 0x12
  | missingParameter => 0x14
  | limitExceeded => 0x15
  | credentialExcluded => 0x19
  | processing => 0x21
  | invalidCredential => 0x22
  | unsupportedAlgorithm => 0x26
  | operationDenied => 0x27
  | keyStoreFull => 0x28
  | unsupportedOption => 0x2B
  | invalidOption => 0x2C
  | keepaliveCancel => 0x2D
  | noCredentials => 0x2E
  | userActionTimeout => 0x2F
  | notAllowed => 0x30
  | pinInvalid => 0x31
  | pinBlocked => 0x32
  | pinAuthInvalid => 0x33
  | pinAuthBlocked => 0x34
  | pinNotSet => 0x35
  | puattRequired => 0x36
  | pinPolicyViolation => 0x37
  | requestTooLarge => 0x39
  | actionTimeout => 0x3A
  | upRequired => 0x3B
  | invalidSubcommand => 0x3E
  | unauthorizedPermission => 0x40
  | unsupportedExtension => 0x4B
  | extensionFirst => 0xE0
  | other => 0x7F

end Swpasskey
