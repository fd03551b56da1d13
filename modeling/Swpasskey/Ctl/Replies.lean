import Swpasskey.Ctl.Json
import Swpasskey.Status
import Swpasskey.Store.Credential

/-!
# The replies of the control server

What `handle_request` writes, and the texts it writes it from.
-/

namespace Swpasskey

open JsonWriter

namespace Server

/-- `hex`. -/
def hex (v : Bytes) : Bytes :=
  v.flatMap fun (b : UInt8) => [hexChar (b >>> 4), hexChar (b &&& 15)]

/-- `unhex`. -/
def unhex : Bytes → Except Status Bytes
  | [] => .ok []
  | [_] => .error .invalidParameter
  | hi :: lo :: l =>
    match hexDigit hi, hexDigit lo with
    | some hi, some lo => (unhex l).map (UInt8.ofNat (hi <<< 4 ||| lo) :: ·)
    | _, _ => .error .invalidParameter

/-- `backend_name`. -/
def backendName : BackendKind → Bytes
  | .software => ascii "software"
  | .tpm2 => ascii "tpm2"
  | .secureEnclave => ascii "se"

/-- `status_name`. -/
def statusName : Status → Bytes
  | .operationDenied => ascii "denied"
  | .userActionTimeout => ascii "timeout"
  | .keepaliveCancel => ascii "cancelled"
  | .invalidCredential => ascii "no such credential"
  | .pinPolicyViolation => ascii "pin policy violation (4-63 characters)"
  | _ => ascii "failed"

/-- `error_json`. -/
def errorJson (msg : Bytes) (st : Option Status := none) : Bytes :=
  let w := ((beginObject {}).boolean (ascii "ok") false).str (ascii "error") msg
  let w := match st with
    | some st => w.str (ascii "status") (ascii "0x" ++ hex [st.code])
    | none => w
  w.endObject.finish

/-- The reply of a request that only did something. -/
def okJson : Bytes := ((beginObject {}).boolean (ascii "ok") true).endObject.finish

/-- One element of `creds`. -/
def listRow (w : JsonWriter) (c : Credential) : JsonWriter :=
  w.beginObject
    |>.str (ascii "rp") c.rpId
    |>.str (ascii "rp_name") c.rpName
    |>.str (ascii "user") c.userName
    |>.str (ascii "user_display") c.userDisplay
    |>.str (ascii "user_id") (hex c.userId)
    |>.str (ascii "cred_id") (hex c.credId.bytes)
    |>.num (ascii "sign_count") c.signCount.toUInt64
    |>.str (ascii "backend") (backendName c.backend)
    |>.num (ascii "created") c.createdUnix
    |>.num (ascii "last_used") c.lastUsedUnix
    |>.endObject

/-- The reply to `list`. -/
def listJson (creds : List Credential) : Bytes :=
  let w := ((beginObject {}).boolean (ascii "ok") true).beginArray (ascii "creds")
  (creds.foldl listRow w).endArray.endObject.finish

end Server

end Swpasskey
