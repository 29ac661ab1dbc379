import Uplink.Config.Blob
import Uplink.Kv.Store
import Uplink.Error

/-! # Stored settings of the link

The configuration is kept as one blob and the target URI as one string. Whatever cannot be read
as a valid configuration gives the default one. -/

namespace Uplink

def configKey : String := "link_cfg"

def uriKey : String := "ws_uri"

variable {σ : Type} [Kv.Backend σ]

/-- The stored configuration, or the default one. -/
def LinkConfig.load (store : Kv.Store σ) : LinkConfig × Kv.Store σ :=
  match store.getBlob configKey with
  | (.ok octets, store) =>
    match LinkConfig.ofBlob octets with
    | .ok c => (c, store)
    | .error _ => (.default, store)
  | (.error _, store) => (.default, store)

def LinkConfig.store (c : LinkConfig) (store : Kv.Store σ) :
    Except TransportError Unit × Kv.Store σ :=
  match c.validate with
  | .error e => (.error (.ofConfigError e), store)
  | .ok () =>
    let (result, store) := store.set configKey (.blob c.toBlob)
    (result.mapError .ofKvError, store)

/-- The stored URI, if there is one and it is not empty. -/
def loadUri (store : Kv.Store σ) : Option String × Kv.Store σ :=
  match store.getStr uriKey with
  | (.ok uri, store) => (if uri.isEmpty then none else some uri, store)
  | (.error _, store) => (none, store)

def storeUri (uri : String) (store : Kv.Store σ) : Except TransportError Unit × Kv.Store σ :=
  let (result, store) := store.set uriKey (.str uri)
  (result.mapError .ofKvError, store)

end Uplink
