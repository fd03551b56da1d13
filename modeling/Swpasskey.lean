import Swpasskey.Cbor.Canonical
import Swpasskey.Cbor.Value
import Swpasskey.Crypto.LowS
import Swpasskey.Crypto.TpmLifecycle
import Swpasskey.Ctap.Accounts
import Swpasskey.Ctap.Acknowledged
import Swpasskey.Ctap.AllOrNothing
import Swpasskey.Ctap.Apdu
import Swpasskey.Ctap.AuthDataContent
import Swpasskey.Ctap.Channels
import Swpasskey.Ctap.Consent
import Swpasskey.Ctap.Conversation
import Swpasskey.Ctap.Counters
import Swpasskey.Ctap.EntryOrder
import Swpasskey.Ctap.Enumeration
import Swpasskey.Ctap.FailureDelay
import Swpasskey.Ctap.Fallback
import Swpasskey.Ctap.HmacSecret
import Swpasskey.Ctap.InterPacket
import Swpasskey.Ctap.Interference
import Swpasskey.Ctap.Isolation
import Swpasskey.Ctap.Parsing
import Swpasskey.Ctap.PinGuesses
import Swpasskey.Ctap.PinLock
import Swpasskey.Ctap.PinPaths
import Swpasskey.Ctap.Reassembly
import Swpasskey.Ctap.ResponseSize
import Swpasskey.Ctap.Unverified
import Swpasskey.Ctap.UserVerification
import Swpasskey.Ctl.JsonStrings
import Swpasskey.Ctl.JsonWriting
import Swpasskey.Ctl.Listing
import Swpasskey.Ctl.Session
import Swpasskey.Daemon.Cancel
import Swpasskey.Daemon.Delivery
import Swpasskey.Daemon.Serving
import Swpasskey.Store.Durability
import Swpasskey.Store.Keychain
import Swpasskey.Store.Opening
import Swpasskey.Store.Reopen
import Swpasskey.Store.ResetCrash
import Swpasskey.Store.Rollback
import Swpasskey.Store.WriteAtomic
import Swpasskey.Ui.ClampText
import Swpasskey.Ui.Presence
