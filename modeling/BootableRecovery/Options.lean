import BootableRecovery.Accounting
import BootableRecovery.Tools

/-! `mount_options`, `sd_part_options` and `advanced_menu`, on any device. -/

namespace BootableRecovery.Options

open Libc Menu Actions Accounting

inductive Op
  | print (text : String)
  | system (command : List UInt8) (env : List (String × String))
  | mount (root : String)
  | unmount (root : String)
  | erase (root : String)
  | finishRecovery
deriving DecidableEq

structure Machine where
  result : List Op → Int
  mounted : List Op → String → Bool

structure Console where
  keys : List Int
  deletion : Bool
  usbMs : Bool
  env : List (String × String)
  ops : List Op
deriving DecidableEq

variable (m : Machine)

def Console.ask (c : Console) (op : Op) : Console := { c with ops := c.ops ++ [op] }

def Console.call (c : Console) (op : Op) : Int × Console := (m.result (c.ops ++ [op]), c.ask op)

def Console.say (c : Console) (lines : List String) : Console :=
  { c with ops := c.ops ++ lines.map .print }

def Console.setenv (c : Console) (name value : String) : Console :=
  { c with env := (name, value) :: c.env }

def Console.system (c : Console) (command : List UInt8) : Int × Console :=
  c.call m (.system command c.env)

def Console.mount (c : Console) (root : String) : Int × Console :=
  c.call m (.mount root)

def Console.eraseRoot (c : Console) (root : String) : Console :=
  (c.say ["Formatting " ++ root ++ ".."]).ask (.erase root)

variable {σ : Type} (k : KeyCodes) (ui : MenuUi σ)

def confirm (what : String) (c : Console) : Option (Bool × Console) :=
  (confirmKey k c.keys).map fun (home, keys) => (home, { c.say (Tools.confirmKey what) with keys })

def select (n : Nat) (c : Console) : Option (Int × Console) :=
  (getMenuSelection k ui n c.deletion c.keys).map fun sel =>
    (sel.chosen, { c with deletion := sel.deletion, keys := sel.keys })

/-! ### `mount_options` -/

def mountRoots : List String := ["SYSTEM:", "DATA:", "CACHE:", "SDCARD:", "SDEXT:"]

def usbOn : List UInt8 :=
  ascii "echo /dev/block/mmcblk0p1 > /sys/devices/platform/s3c6410-usbgadget/gadget/lun0/file"

def usbOff : List UInt8 := ascii "echo > /sys/devices/platform/s3c6410-usbgadget/gadget/lun0/file"

def mountItem (chosen : Int) (c : Console) : Console :=
  if 0 ≤ chosen ∧ chosen < 5 then
    let root := mountRoots.getD chosen.toNat ""
    if m.mounted c.ops root then c.ask (.unmount root)
    else
      let (r, c) := c.mount m root
      if r = 0 then c.say ["\nMounted " ++ root] else c
  else if chosen = 6 then
    { (c.system m (if c.usbMs then usbOff else usbOn)).2 with usbMs := !c.usbMs }
  else c

def mountLoop : Nat → Int → Console → Option Console
  | 0, _, _ => none
  | fuel + 1, chosen, c =>
    if chosen = k.back then some c
    else do
      let (chosen, c) ← select k ui 7 c
      mountLoop fuel chosen (mountItem m chosen { c with deletion := false })

def mountOptions (initial : Int) (fuel : Nat) (c : Console) : Option Console :=
  mountLoop m k ui fuel initial c

/-! ### `make_part` and `sd_part_options` -/

def partOption (option : Int) : Int :=
  if option > 3 then (if option > 6 then option - 1 else option) - 1 else option

def swapSize (option : Int) : String :=
  if option < 3 then "96" else if option < 6 then "96" else "96"

def extSize (option : Int) : Option String :=
  if option = 9 then some "0"
  else if option.tmod 3 = 0 then some "128"
  else if option.tmod 3 = 1 then some "256"
  else if option.tmod 3 = 2 then some "512"
  else none

def etype (option : Int) : String := if option = 9 then "ext2" else "ext3"

def sdparted : List UInt8 := ascii "sdparted -x -s"

def makePart (option : Int) (c : Console) : Option Console := do
  let (home, c) ← confirm k "partition your SD card" c
  if home then
    let option := partOption option
    let c := (c.say ["\n\nPartitioning SD card...\n     This will take a while!"]).setenv
      "SWAP_SIZE" (swapSize option)
    let c := match extSize option with
      | some size => c.setenv "EXT_SIZE" size
      | none => c
    let (r, c) := (c.setenv "ETYPE" (etype option)).system m sdparted
    some (c.say [if r ≠ 0 then "\nError partitioning!" else "\nPartition successful!"])
  else some (c.say ["\nPartition aborted"])

def caution : String :=
  "\n\n-  CAUTION! Partitioning your SD\n-\t\tcard will destroy all data\n-\t\tstored in it! Only " ++
    "you are\n-\t\tresponsible for backing it\n-\t\tup! Press HOME if you still\n-\t\twant to " ++
    "proceed.."

def sdPartLoop : Nat → Console → Option Console
  | 0, _ => none
  | fuel + 1, c => do
    let (chosen, c) ← select k ui 13 c
    if chosen = 3 ∨ chosen = 7 ∨ chosen = 11 then sdPartLoop fuel c
    else if chosen = k.back then some c
    else sdPartLoop fuel (← makePart m k chosen c)

def sdPartOptions (fuel : Nat) (c : Console) : Option Console := do
  let c := c.say [caution]
  let (home, keys) ← confirmKey k c.keys
  if home then sdPartLoop m k ui fuel { c with keys }
  else some ({ c with keys }.say ["\nPartitioning aborted"])

/-! ### `advanced_menu` -/

def mountAll : List String → Console → Bool × Console
  | [], c => (true, c)
  | root :: roots, c =>
    let (r, c) := c.mount m root
    if r = 0 then mountAll roots c else (false, c)

def dalvikRm : List UInt8 := ascii "/sbin/busybox rm /data/dalvik-cache/*"

def appsTargets : List (List UInt8) := [ascii "appsto sd", ascii "appsto cache", ascii "appsto data"]

def appsMove (here what : String) (roots : List String) (failure : String) (target : List UInt8)
    (c : Console) : Option Console := do
  let (home, c) ← confirm k what (c.say [here])
  if home then
    let (mounted, c) := mountAll m roots c
    if mounted then
      let (r, c) := c.system m target
      some (c.say [if r = 0 then "\nApps successfully moved!" else "\nError moving apps"])
    else some (c.say [failure])
  else some (c.say ["\nApps2SD move aborted"])

def appsTo (found other : List UInt8) (already atOther atData what : String) (roots : List String)
    (failure : String) (target : List UInt8) (c : Console) : Option Console :=
  let (r, c) := c.system m found
  if r = 0 then some (c.say [already])
  else
    let (r, c) := c.system m other
    appsMove m k (if r = 0 then atOther else atData) what roots failure target c

def appsSd : Console → Option Console :=
  appsTo m k (ascii "readlink /data/app | grep sd") (ascii "readlink /data/app | grep cache")
    "\nApps already moved to SD" "\n- Apps are currently in\n- /cache/app"
    "\n- Apps are currently in\n- /data/app" "move your apps\nto a partitioned SD card"
    ["DATA:", "SDEXT:"] "\nCan't mount /data or /sdcard" (ascii "appsto sd")

def appsCache : Console → Option Console :=
  appsTo m k (ascii "readlink /data/app | grep cache") (ascii "readlink /data/app | grep sd")
    "\nApps already moved to cache" "\n- Apps are currently in\n- SD card (ext partition)"
    "\n- Apps are currently in\n- /data/app" "move your apps\nto the /cache partition"
    ["CACHE:"] "\nCan't mount /cache" (ascii "appsto cache")

def appsData (c : Console) : Option Console :=
  let (r, c) := c.system m (ascii "readlink /data/app")
  if r ≠ 0 then some (c.say ["\nApps already in /data"])
  else
    let (r, c) := c.system m (ascii "readlink /data/app | grep cache")
    appsMove m k (if r = 0 then "\n- Apps are currently in\n- /cache/app"
        else "\n- Apps are currently in\n- SD card (ext partition)")
      "move your apps\nto /data/app" ["DATA:", "SDEXT:"] "\nCan't mount /data or /sdcard"
      (ascii "appsto data") c

def advancedItem (chosen : Int) (c : Console) : Option Console :=
  if chosen = 0 then do
    let (home, c) ← confirm k "clear Dalvik Cache" c
    if home then
      let (r, c) := c.mount m "DATA:"
      if r = 0 then
        let (r, c) := (c.say ["\nClearing Dalvik Cache..."]).system m dalvikRm
        some (c.say [if r = 0 then "\n\nCleared Dalvik Cache!" else "\n\nCan't clear Dalvik Cache"])
      else some c
    else some (c.say ["\nDelete aborted"])
  else if chosen = 1 then do
    let (home, c) ← confirm k "wipe your data" c
    if home then
      let (r, c) := c.mount m "DATA:"
      if r = 0 then
        some ((((c.say ["\nWiping data..."]).eraseRoot "DATA:").eraseRoot "CACHE:").say
          ["\n\nData wipe complete"])
      else some c
    else some (c.say ["\nData wipe aborted"])
  else if chosen = 2 then appsSd m k c
  else if chosen = 3 then appsCache m k c
  else if chosen = 4 then appsData m k c
  else some c

def advancedLoop : Nat → Console → Option Console
  | 0, _ => none
  | fuel + 1, c => do
    let (chosen, c) ← select k ui 5 (c.ask .finishRecovery)
    if chosen = k.back then some { c with deletion := false }
    else advancedLoop fuel (← advancedItem m k chosen c)

def advancedMenu (fuel : Nat) (c : Console) : Option Console :=
  advancedLoop m k ui fuel c

def optionsMenus (initial : Int) (fuel : Nat) (chosen : Int) (c : Console) : Option Console :=
  if chosen = 4 then mountOptions m k ui initial fuel c
  else if chosen = 5 then sdPartOptions m k ui fuel c
  else if chosen = 6 then advancedMenu m k ui fuel c
  else some c

/-! ### `prompt_and_wait` with its items 4 to 6 -/

structure DeviceIo where
  usbMs : Bool
  env : List (String × String)
  ops : List Op
deriving DecidableEq

def optionsStep (initial : Int) (fuel : Nat) (chosen : Int) (w : World) (io : DeviceIo) :
    Option (World × DeviceIo) :=
  (optionsMenus m k ui initial fuel chosen ⟨w.keys, w.deletion, io.usbMs, io.env, io.ops⟩).map
    fun c => ({ w with keys := c.keys, deletion := c.deletion }, ⟨c.usbMs, c.env, c.ops⟩)

def promptAndWait (fs : Fs) (pathMax : Nat) (initial : Int) (fuel : Nat) (w : World) (io : DeviceIo) :
    Option (Menus.Leave × World × DeviceIo) :=
  Menus.promptLoop k ui fs pathMax initial (optionsStep m k ui initial fuel) fuel w io

end BootableRecovery.Options
