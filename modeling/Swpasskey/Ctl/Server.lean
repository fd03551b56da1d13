import Swpasskey.Ctap.Authenticator
import Swpasskey.Ctl.Replies

/-!
# The control server

`handle_request`: a line in, a line out. What `stats_json` prints is counted outside the world, so
it is a parameter, and so are whether there is a store and an authenticator; the log level and
`deps.quit` are left out.
-/

namespace Swpasskey

open Proc JsonWriter

namespace Server

/-- `ServerDeps`: whether the store and the authenticator are there, and `stats_json`. -/
structure ServerDeps where
  store : Bool
  auth : Bool
  statsJson : World → Bytes

/-- The reply of an operation of the authenticator. -/
def reply (m : Cmd Status Unit) : Cmd Status Bytes := do
  match ← m.attempt with
  | .ok () => return okJson
  | .error st => return errorJson (statusName st) (some st)

variable (D : Device) (deps : ServerDeps)

def handleDelete (req : JsonRequest) : Cmd Status Bytes :=
  if deps.auth then
    match unhex (req.get (ascii "cred_id")) with
    | .ok id =>
      if id.length = 32 then reply (ctlDelete D id)
      else return errorJson (ascii "cred_id must be 64 hex chars")
    | .error _ => return errorJson (ascii "cred_id must be 64 hex chars")
  else return errorJson (ascii "no authenticator")

def handleReset : Cmd Status Bytes :=
  if deps.auth then reply (ctlReset D) else return errorJson (ascii "no authenticator")

def handleSetPin (pin : Bytes) : Cmd Status Bytes :=
  if deps.auth then reply (ctlSetPin D pin) else return errorJson (ascii "no authenticator")

def handleLogLevel (req : JsonRequest) : Bytes :=
  let lvl := req.get (ascii "level")
  if lvl ∈ [ascii "error", ascii "warn", ascii "info", ascii "debug"] then
    ((beginObject {}).boolean (ascii "ok") true |>.str (ascii "level") lvl).endObject.finish
  else errorJson (ascii "level must be error|warn|info|debug")

/-- `handle_request`. -/
def handleRequest (line : Bytes) : Cmd Status Bytes :=
  let req := parseFlatJson line
  let op := req.get (ascii "op")
  if req.ok = false then return errorJson (ascii "bad request: " ++ req.error)
  else if op = ascii "stats" then gets deps.statsJson
  else if op = ascii "list" then
    if deps.store then gets fun w => listJson w.store.creds else return errorJson (ascii "no store")
  else if op = ascii "delete" then handleDelete D deps req
  else if op = ascii "reset" then handleReset D deps
  else if op = ascii "set-pin" then handleSetPin D deps (req.get (ascii "pin"))
  else if op = ascii "log-level" then return handleLogLevel req
  else if op = ascii "quit" then return okJson
  else return errorJson (ascii "unknown op")

end Server

end Swpasskey
