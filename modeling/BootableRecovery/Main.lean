import BootableRecovery.GetArgs

/-! The `getopt_long` loop of `main` and the operation it chooses. -/

namespace BootableRecovery.Main

open Libc GetArgs

structure Request where
  sendIntent : Option CString
  updatePackage : Option CString
  wipeData : Bool
  wipeCache : Bool
deriving DecidableEq

inductive Opt
  | sendIntent
  | updatePackage
  | wipeData
  | wipeCache
deriving DecidableEq

def options : List (List UInt8 × Bool × Opt) :=
  [(ascii "send_intent", true, .sendIntent), (ascii "update_package", true, .updatePackage),
    (ascii "wipe_data", false, .wipeData), (ascii "wipe_cache", false, .wipeCache)]

def matchLong (name : List UInt8) : Option (Bool × Opt) :=
  (options.find? fun o => o.1 = name).map (·.2)

def Request.set (r : Request) (o : Opt) (arg : Option CString) : Request :=
  match o with
  | .sendIntent => { r with sendIntent := arg }
  | .updatePackage => { r with updatePackage := arg }
  | .wipeData => { r with wipeData := true, wipeCache := true }
  | .wipeCache => { r with wipeCache := true }

def equals : UInt8 := 61

def getoptLoop : List CString → Request → Option Request
  | [], r => some r
  | a :: rest, r =>
    if a.bytes = ascii "--" then some r
    else if (ascii "--").isPrefixOf a.bytes then
      let name := (a.bytes.drop 2).takeWhile (· != equals)
      let value := if equals ∈ a.bytes.drop 2 then some (a.drop (name.length + 3)) else none
      match matchLong name, value with
      | some (true, o), some v => getoptLoop rest (r.set o (some v))
      | some (true, o), none =>
        match rest with
        | b :: rest' => getoptLoop rest' (r.set o (some b))
        | [] => some r
      | some (false, o), none => getoptLoop rest (r.set o none)
      | some (false, _), some _ => getoptLoop rest r
      | none, _ => none
    else getoptLoop rest r

def Request.empty : Request := ⟨none, none, false, false⟩

def parseOptions (argv : List CString) : Option Request := getoptLoop argv.tail .empty

inductive Operation
  | install (package : CString)
  | wipe (data cache : Bool)
  | noCommand
deriving DecidableEq

def operation (r : Request) : Operation :=
  match r.updatePackage with
  | some p => .install p
  | none => if r.wipeData || r.wipeCache then .wipe r.wipeData r.wipeCache else .noCommand

end BootableRecovery.Main
