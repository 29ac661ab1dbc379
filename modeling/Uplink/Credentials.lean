import Uplink.Kv.Store
import Uplink.Readiness

/-! # Network credentials

The network that the station joins, as provisioning stored it. A missing password means an open
network; one that cannot be read does not. -/

namespace Uplink

def ssidKey : String := "ssid"

def passwordKey : String := "pass"

/-- How often an association is tried before provisioning starts again. -/
def maxAssociationRetries : Nat := 10

inductive CredentialError
  | noCredentials
  | invalidSsid
  | invalidPassword
  | storage (cause : Kv.KvError)
deriving DecidableEq

def CredentialError.message : CredentialError → String
  | .noCredentials => "no WiFi credentials stored"
  | .invalidSsid => "SSID invalid (must be 1-32 printable ASCII bytes)"
  | .invalidPassword => "password invalid (must be 8-64 bytes, or empty for open)"
  | .storage cause => "credential read failed: " ++ cause.message

/-- Whether a network name has one to thirty-two characters, all of them printable ASCII. -/
def isSsid (ssid : String) : Bool :=
  !ssid.isEmpty && ssid.utf8ByteSize ≤ 32
    && ssid.toList.all fun c => 0x20 ≤ c.toNat && c.toNat ≤ 0x7E

/-- Whether a password is empty or has eight to sixty-four octets. -/
def isPassword (password : String) : Bool :=
  password.isEmpty || (8 ≤ password.utf8ByteSize && password.utf8ByteSize ≤ 64)

structure Credentials where
  ssid : String
  password : String
  isSsid_ssid : isSsid ssid = true
  isPassword_password : isPassword password = true
deriving DecidableEq

namespace Credentials

/-- The credentials of a name and a password, if both are well formed. -/
def ofStrings (ssid password : String) : Except CredentialError Credentials :=
  if hs : isSsid ssid = true then
    if hp : isPassword password = true then .ok ⟨ssid, password, hs, hp⟩
    else .error .invalidPassword
  else .error .invalidSsid

def isOpen (c : Credentials) : Bool :=
  c.password.isEmpty

variable {σ : Type} [Kv.Backend σ]

/-- The stored credentials. The device counts as provisioned once they are found. -/
def load (store : Kv.Store σ) (ready : Readiness) :
    Except CredentialError Credentials × Kv.Store σ × Readiness :=
  match store.getStr ssidKey with
  | (.error _, store) => (.error .noCredentials, store, ready)
  | (.ok ssid, store) =>
    let (password, store) := store.getStr passwordKey
    let password : Except CredentialError String :=
      match password with
      | .ok text => .ok text
      | .error .notFound => .ok ""
      | .error cause => .error (.storage cause)
    match password >>= ofStrings ssid with
    | .ok c => (.ok c, store, (ready.set Readiness.provisioned).1)
    | .error e => (.error e, store, ready)

/-- Stores the name, and then the password if that went well. -/
def store (c : Credentials) (kv : Kv.Store σ) : Except Kv.KvError Unit × Kv.Store σ :=
  match kv.set ssidKey (.str c.ssid) with
  | (.ok (), kv) => kv.set passwordKey (.str c.password)
  | (.error e, kv) => (.error e, kv)

end Credentials

/-- The wait before association retry `attempt`, in milliseconds. -/
def retryDelay (attempt : UInt32) : UInt64 :=
  500 + attempt.toUInt64 * 200

end Uplink
