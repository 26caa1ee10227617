import BootableRecovery.Chooser
import BootableRecovery.FileOptions

/-! The operations the menus start: `backup`, `restore`, `flash`, `file_option_action` and `file_options`. -/

namespace BootableRecovery.Actions

open Libc FileBrowser FileOptions Menu Chooser

inductive Act
  | backup (option : Nat)
  | restore (file : CString) (partition : String)
  | remove (file : CString)
  | flash (file : CString) (partition : String)
  | install (file : CString)
  | system (command : List UInt8)
deriving DecidableEq

structure Fs where
  listing : List UInt8 → Option (List Entry)
  closes : Bool
  opens : List UInt8 → Bool
  mounted : Bool

structure World where
  keys : List Int
  deletion : Bool
  clip : Clipboard
  acts : List Act
deriving DecidableEq

variable {σ : Type} (k : KeyCodes) (ui : MenuUi σ)

def confirmed (act : Act) (w : World) : Option World := do
  let (home, keys) ← confirmKey k w.keys
  return { w with keys, acts := if home then w.acts ++ [act] else w.acts }

def restoreMenu (file : Option CString) (partition : String) (w : World) : Option World :=
  match file with
  | none => some w
  | some f =>
    if w.deletion then (confirmed k (.remove f) w).map fun w => { w with deletion := false }
    else confirmed k (.restore f partition) w

def flashMenu (fs : Fs) (file : CString) (partition : String) (w : World) : Option World :=
  if fs.opens file.bytes then confirmed k (.flash file partition) w else some w

def fileOptionActionMenu (fs : Fs) (path file : CString) (w : World) : Option World := do
  let name := path.append file
  match ← fileOptionBranch file with
  | .install => confirmed k (.install name) w
  | .restore partition => restoreMenu k (some name) partition w
  | .flash partition => flashMenu k fs name partition w
  | .nothing => some w

def deleteKey (chosen : Int) (keys : List Int) : Option (Bool × List Int) :=
  if chosen ≠ k.back ∧ chosen = 4 then
    match keys with
    | [] => none
    | key :: rest => some (decide (key = k.menu), rest)
  else some (false, keys)

def fileOptionsMenu (pathMax : Nat) (fs : Fs) (path file : CString) (w : World) : Option World := do
  let _ ← fileOptionText file
  let sel ← getMenuSelection k ui 5 w.deletion w.keys
  let (menu, keys) ← deleteKey k sel.chosen sel.keys
  let (effect, clip) := fileOptions k.back pathMax path file sel.chosen menu w.clip
  let w : World := { w with keys, deletion := false, clip }
  match effect with
  | .specific => fileOptionActionMenu k fs path file w
  | .system command _ => return { w with acts := w.acts ++ [.system command] }
  | .uninitialised | .overflow => none
  | _ => return w

end BootableRecovery.Actions
