import Uplink.Kv.Nvs

/-! # Backends

What a store does its work on: anything that executes commands one at a time. A backend may fail
a command with an error of its own, and it may break down in the middle of one. -/

namespace Uplink.Kv

/-- What a caller asks of the storage. -/
inductive Command
  | set (key : Key) (value : Value)
  | get (key : Key) (kind : Kind)
  | erase
deriving DecidableEq

/-- The outcome of a command; only a get has a value. -/
abbrev Reply := Except KvError (Option Value)

/-- Executes commands over states `σ`. No reply means that the backend broke down. -/
class Backend (σ : Type) where
  execute : σ → Command → Option Reply × σ

/-- Executes a command on plain storage, which never breaks down. -/
def Nvs.execute (s : Nvs) : Command → Reply × Nvs
  | .set key value =>
    let (result, s) := s.set key.name value
    (result.map fun () => none, s)
  | .get key kind => ((s.get key.name kind).map some, s)
  | .erase => (.ok none, s.erase)

instance : Backend Nvs where
  execute s command :=
    let (reply, s) := s.execute command
    (some reply, s)

/-- How a command goes wrong. -/
inductive Mishap
  | error (e : KvError)
  | breakdown
deriving DecidableEq

/-- Storage that fails where it is told to: by key for sets and gets, or on every erase. A key
with a set answer is read as that value, whatever was stored and whatever kind was asked. -/
structure FaultyNvs where
  storage : Nvs
  setMishaps : List (String × Mishap)
  getMishaps : List (String × Mishap)
  eraseMishap : Option Mishap
  answers : List (String × Value)

def Mishap.reply : Mishap → Option Reply
  | .error e => some (.error e)
  | .breakdown => none

def FaultyNvs.mishap? (s : FaultyNvs) : Command → Option Mishap
  | .set key _ => s.setMishaps.lookup key.name
  | .get key _ => s.getMishaps.lookup key.name
  | .erase => s.eraseMishap

/-- The answer that is set for a command, if there is one. -/
def FaultyNvs.answer? (s : FaultyNvs) : Command → Option Value
  | .get key _ => s.answers.lookup key.name
  | .set _ _ | .erase => none

instance : Backend FaultyNvs where
  execute s command :=
    match s.mishap? command with
    | some mishap => (mishap.reply, s)
    | none =>
      match s.answer? command with
      | some value => (some (.ok (some value)), s)
      | none =>
        let (reply, storage) := s.storage.execute command
        (some reply, { s with storage })

end Uplink.Kv
