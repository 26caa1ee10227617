import BootableRecovery.Browse

/-! `partition_options`, `choose_update_file`, `reboot_options` and the loop of `prompt_and_wait`. -/

namespace BootableRecovery.Menus

open Libc FileBrowser Menu Chooser Actions Browse

def backupDir : CString := ⟨ascii "/sdcard/sdx/backup/", by decide⟩

def zipDir : CString := ⟨ascii "/sdcard/sdx/zip/", by decide⟩

def tarExt : CString := ⟨ascii ".tar", by decide⟩

def zipExt : CString := ⟨ascii ".zip", by decide⟩

variable {σ : Type} (k : KeyCodes) (ui : MenuUi σ)

def restoreItem (fs : Fs) (pfx : CString) (partition : String) (w : World) : Option World := do
  let c ← chooseFileMenu k ui (fs.listing backupDir.bytes) fs.closes backupDir pfx tarExt
    w.deletion w.keys
  restoreMenu k c.file partition { w with deletion := c.deletion, keys := c.keys }

def partitionItem (fs : Fs) (chosen : Int) (w : World) : Option World :=
  if chosen = 0 ∨ chosen = 1 ∨ chosen = 2 then confirmed k (.backup chosen.toNat) w
  else if chosen = 4 then restoreItem k ui fs ⟨ascii "system", by decide⟩ "/system" w
  else if chosen = 5 then restoreItem k ui fs ⟨ascii "data", by decide⟩ "/data" w
  else if chosen = 6 then
    restoreItem k ui fs ⟨ascii "full", by decide⟩ "/system and /data" w
  else if chosen = 8 then flashMenu k fs ⟨ascii "/sdcard/sdx/updates/zImage", by decide⟩ "boot" w
  else if chosen = 9 then
    flashMenu k fs ⟨ascii "/sdcard/sdx/updates/logo.png", by decide⟩ "boot3" w
  else if chosen = 10 then
    flashMenu k fs ⟨ascii "/sdcard/sdx/updates/recovery.rfs", by decide⟩ "recovery" w
  else some w

def partitionLoop (fs : Fs) : Nat → Int → World → Option World
  | 0, _, _ => none
  | fuel + 1, chosen, w =>
    if chosen = k.back then some w
    else do
      let sel ← getMenuSelection k ui 11 w.deletion w.keys
      let w ← partitionItem k ui fs sel.chosen { w with deletion := sel.deletion, keys := sel.keys }
      partitionLoop fs fuel sel.chosen w

def partitionOptions (fs : Fs) (initial : Int) (fuel : Nat) (w : World) : Option World :=
  partitionLoop k ui fs fuel initial w

def chooseUpdateFile (fs : Fs) (w : World) : Option World :=
  if !fs.mounted then some w
  else do
    let c ← chooseFileMenu k ui (fs.listing zipDir.bytes) fs.closes zipDir .empty zipExt
      w.deletion w.keys
    let w := { w with deletion := c.deletion, keys := c.keys }
    match c.file with
    | none => some w
    | some file =>
      if (← endsWith file slashString) then some w
      else if w.deletion then
        (confirmed k (.remove file) w).map fun w => { w with deletion := false }
      else confirmed k (.install file) w

def rebootOptions (w : World) : Option (Int × World) := do
  let sel ← getMenuSelection k ui 3 w.deletion w.keys
  let w := { w with deletion := sel.deletion, keys := sel.keys }
  if sel.chosen = 0 then some (1, w)
  else if sel.chosen = 1 then
    some (2, { w with acts := w.acts ++ [.system (ascii "/sbin/reboot recovery")] })
  else if sel.chosen = 2 then some (2, w)
  else if sel.chosen = k.back then some (0, w)
  else none

def consoleCommand : List UInt8 := ascii "echo 1 > /sys/class/leds/keyboard-backlight/brightness"

inductive Leave
  | reboot (how : Int)
  | console
deriving DecidableEq

def promptLoop {τ : Type} (fs : Fs) (pathMax : Nat) (initial : Int)
    (others : Int → World → τ → Option (World × τ)) : Nat → World → τ → Option (Leave × World × τ)
  | 0, _, _ => none
  | fuel + 1, w, t => do
    let sel ← getMenuSelection k ui 8 w.deletion w.keys
    let w := { w with deletion := false, keys := sel.keys }
    if sel.chosen = 0 then
      let (reboot, w) ← rebootOptions k ui w
      if reboot ≠ 0 then some (.reboot reboot, w, t)
      else promptLoop fs pathMax initial others fuel w t
    else if sel.chosen = 7 then
      some (.console, { w with acts := w.acts ++ [.system consoleCommand] }, t)
    else do
      let (w, t) ← if sel.chosen = 1 then (chooseUpdateFile k ui fs w).map (·, t)
        else if sel.chosen = 2 then (partitionOptions k ui fs initial fuel w).map (·, t)
        else if sel.chosen = 3 then (browseFiles k ui pathMax fs fuel ⟨root, w⟩).map (·, t)
        else if sel.chosen = 4 ∨ sel.chosen = 5 ∨ sel.chosen = 6 then others sel.chosen w t
        else some (w, t)
      promptLoop fs pathMax initial others fuel w t

def promptAndWait (fs : Fs) (pathMax : Nat) (initial : Int) (others : Int → World → Option World)
    (fuel : Nat) (w : World) : Option (Leave × World) :=
  (promptLoop k ui fs pathMax initial (fun chosen w _ => (others chosen w).map (·, ())) fuel w
    ()).map fun r => (r.1, r.2.1)

/-! ### `deletion` outlives the selection that set it -/

def systemBackup : Entry := ⟨⟨ascii "system-1.tar", by decide⟩, false, by decide, by decide⟩

def backupFs : Fs := ⟨fun _ => some [systemBackup], true, fun _ => false, true⟩

def restoreKeys (key : Int) : List Int :=
  [inputKeys.down, inputKeys.down, inputKeys.center] ++ List.replicate 4 inputKeys.down ++
    [key, inputKeys.center, inputKeys.home, inputKeys.back] ++ List.replicate 7 inputKeys.down ++
    [inputKeys.center]

def backupThenRestoreKeys : List Int :=
  [inputKeys.down, inputKeys.down, inputKeys.center, inputKeys.menu, inputKeys.home] ++
    List.replicate 4 inputKeys.down ++
    [inputKeys.center, inputKeys.center, inputKeys.home, inputKeys.back] ++
    List.replicate 7 inputKeys.down ++ [inputKeys.center]

theorem partition_menu_press_deletes_backup :
    promptAndWait inputKeys clampUi backupFs 4096 0 (fun _ => some) 8
        ⟨restoreKeys inputKeys.menu, false, ⟨[], 0⟩, []⟩ =
      some (.console, ⟨[], false, ⟨[], 0⟩,
        [.remove (backupDir.append systemBackup.name), .system consoleCommand]⟩) ∧
    promptAndWait inputKeys clampUi backupFs 4096 0 (fun _ => some) 8
        ⟨restoreKeys inputKeys.center, false, ⟨[], 0⟩, []⟩ =
      some (.console, ⟨[], false, ⟨[], 0⟩,
        [.restore (backupDir.append systemBackup.name) "/system", .system consoleCommand]⟩) ∧
    promptAndWait inputKeys clampUi backupFs 4096 0 (fun _ => some) 8
        ⟨backupThenRestoreKeys, false, ⟨[], 0⟩, []⟩ =
      some (.console, ⟨[], false, ⟨[], 0⟩,
        [.backup 0, .remove (backupDir.append systemBackup.name), .system consoleCommand]⟩) := by
  decide

end BootableRecovery.Menus
