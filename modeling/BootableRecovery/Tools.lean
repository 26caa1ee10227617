import BootableRecovery.Libc

/-! `backup`, `restore` and `flash`, which report from the parent's own `error`. -/

namespace BootableRecovery.Tools

open Libc

inductive ExecOutcome
  | execFailed
  | exited (status : Nat)
deriving DecidableEq

inductive ForkOutcome
  | failed
  | child (exec : ExecOutcome)
deriving DecidableEq

structure Locals where
  error : Int
deriving DecidableEq

def childRun (mem : Locals) : ExecOutcome → Locals × Nat
  | .execFailed => ({ mem with error := -1 }, 255)
  | .exited status => (mem, status)

def fork (mem : Locals) : ForkOutcome → Locals × Option (Locals × Nat)
  | .failed => (mem, none)
  | .child e => (mem, some (childRun mem e))

def childStatus : ForkOutcome → Option Nat
  | .failed => none
  | .child e => some (childRun ⟨0⟩ e).2

def waitDots : ForkOutcome → Nat → List String
  | .failed, _ => []
  | .child _, polls => List.replicate polls "."

def confirmKey (what : String) : List String :=
  ["\n\n\n\n\n\n\n\n\n\n\n\n\n\n\n\n\n\n\n\n", "\n\n- This will " ++ what ++ "!",
    "\n- Press HOME to confirm or", "\n- any other key to abort..."]

def runTool (what : String) (banner : List String) (failure success aborted : String)
    (home : Bool) (o : ForkOutcome) (polls : Nat) : List String :=
  confirmKey what ++
    if home then
      let error := (fork ⟨0⟩ o).1.error
      banner ++ waitDots o polls ++ [if error ≠ 0 then failure else success]
    else [aborted]

def backupPartition (option : Fin 3) : String := ["/system", "/data", "/system and /data"].get ⟨option, by simp⟩

def backup (option : Fin 3) (home : Bool) (o : ForkOutcome) (polls : Nat) : List String :=
  runTool ("back up " ++ backupPartition option) []
    ("\n\nError backing up " ++ backupPartition option)
    ("\n\n" ++ backupPartition option ++ " backed up successfully!") "\n\nBackup aborted.\n" home o polls

def restore (file : Option CString) (partition : String) (deletion home removed : Bool)
    (o : ForkOutcome) (polls : Nat) : List String × Bool :=
  match file with
  | none => ([], deletion)
  | some _ =>
    if deletion then
      (confirmKey "delete this file" ++
        [if home then (if removed then "\nFile deleted successfully" else "\nUnable to delete the file")
          else "\nDelete aborted"], false)
    else
      (runTool ("restore " ++ partition) [] ("\n\nError restoring " ++ partition)
        ("\n\n" ++ partition ++ " restored successfully!") "\n\nRestore aborted.\n" home o polls,
        deletion)

def flash (found : Bool) (partition : String) (home : Bool) (o : ForkOutcome) (polls : Nat) :
    List String :=
  if found then
    runTool ("flash the " ++ partition ++ " partition") ["\n\nFlashing " ++ partition ++ "."]
      ("\n\nError flashing " ++ partition) ("\n\n" ++ partition ++ " flashed successfully!")
      "\n\nFlash aborted" home o polls
  else ["\nFile not found. Flash canceled"]

lemma fork_parent (mem : Locals) (o : ForkOutcome) : (fork mem o).1 = mem := by
  cases o <;> rfl

lemma runTool_confirmed (what : String) (banner : List String) (failure success aborted : String)
    (o : ForkOutcome) (polls : Nat) :
    runTool what banner failure success aborted true o polls =
      confirmKey what ++ banner ++ waitDots o polls ++ [success] := by
  simp [runTool, fork_parent]

theorem tools_report_success (o : ForkOutcome) (polls : Nat) (option : Fin 3) (file : CString)
    (partition : String) (removed : Bool) :
    (backup option true o polls).getLast? =
        some ("\n\n" ++ backupPartition option ++ " backed up successfully!") ∧
      ((restore (some file) partition false true removed o polls).1).getLast? =
        some ("\n\n" ++ partition ++ " restored successfully!") ∧
      (flash true partition true o polls).getLast? =
        some ("\n\n" ++ partition ++ " flashed successfully!") := by
  simp only [backup, restore, flash, runTool_confirmed, List.getLast?_concat, if_true, if_false,
    Bool.false_eq_true, and_self]

end BootableRecovery.Tools
