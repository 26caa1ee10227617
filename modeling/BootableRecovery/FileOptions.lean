import BootableRecovery.FileBrowser
import BootableRecovery.Shell

/-! `file_options`: Cut, Copy, Paste and Delete as shell commands. -/

namespace BootableRecovery.FileOptions

open Libc FileBrowser Shell

structure Clipboard where
  fileQueue : List UInt8
  pasteFlag : Nat
deriving DecidableEq

def deleteCommand (path file : CString) : List UInt8 := ascii "rm -r " ++ path.bytes ++ file.bytes

def mvCommand (queue path : List UInt8) : List UInt8 :=
  ascii "mv \"" ++ queue ++ ascii "\" \"" ++ path ++ ascii "\""

def cpCommand (queue path : List UInt8) : List UInt8 :=
  ascii "cp \"" ++ queue ++ ascii "\" \"" ++ path ++ ascii "\""

def pasteCommand (flag : Nat) (queue path : List UInt8) : Option (List UInt8 × String) :=
  let afterCase1 := if flag = 1 then some (mvCommand queue path, "move") else none
  if flag = 1 ∨ flag = 2 then some (cpCommand queue path, "copy") else afterCase1

inductive Effect
  | specific
  | marked (verb : String)
  | nothingToPaste
  | system (command : List UInt8) (verb : String)
  | uninitialised
  | overflow
  | deleteAborted
  | none
deriving DecidableEq

def fileOptions (keyBack : Int) (pathMax : Nat) (path file : CString) (chosen : Int) (menu : Bool)
    (clip : Clipboard) : Effect × Clipboard :=
  if chosen = keyBack then (.none, clip)
  else if chosen = 0 then (.specific, clip)
  else if chosen = 1 ∨ chosen = 2 then
    if (path.bytes ++ file.bytes).length < pathMax then
      (.marked (if chosen = 1 then "move" else "copy"), ⟨path.bytes ++ file.bytes, chosen.toNat⟩)
    else (.overflow, clip)
  else if chosen = 3 then
    if clip.pasteFlag = 0 then (.nothingToPaste, clip)
    else match pasteCommand clip.pasteFlag clip.fileQueue path.bytes with
      | some (cmd, verb) =>
        if cmd.length < path.bytes.length + clip.fileQueue.length + 5 then
          (.system cmd verb, { clip with pasteFlag := 0 })
        else (.overflow, clip)
      | none => (.uninitialised, { clip with pasteFlag := 0 })
  else if chosen = 4 then
    if menu then
      if (deleteCommand path file).length <
          path.bytes.length + file.bytes.length + (ascii "rm -r").length + 1 then
        (.system (deleteCommand path file) "delete", clip)
      else (.overflow, clip)
    else (.deleteAborted, clip)
  else (.none, clip)

lemma length_pasteCommand {flag : Nat} {queue path command : List UInt8} {verb : String}
    (h : pasteCommand flag queue path = some (command, verb)) :
    command.length = path.length + queue.length + 8 := by
  have hq : (ascii "\" \"").length = 3 := rfl
  have he : (ascii "\"").length = 1 := rfl
  unfold pasteCommand at h
  split_ifs at h <;> cases h <;>
    simp only [cpCommand, mvCommand, List.length_append, hq, he, show (ascii "cp \"").length = 4 from rfl,
      show (ascii "mv \"").length = 4 from rfl] <;> omega

lemma length_deleteCommand (path file : CString) :
    (deleteCommand path file).length = path.bytes.length + file.bytes.length + 6 := by
  simp only [deleteCommand, List.length_append, show (ascii "rm -r ").length = 6 from rfl]
  omega

lemma fileOptions_ne_system (keyBack : Int) (pathMax : Nat) (path file : CString) (chosen : Int)
    (menu : Bool) (clip : Clipboard) (command : List UInt8) (verb : String) :
    (fileOptions keyBack pathMax path file chosen menu clip).1 ≠ .system command verb := by
  have hdel : ¬ (deleteCommand path file).length <
      path.bytes.length + file.bytes.length + (ascii "rm -r").length + 1 := by
    rw [length_deleteCommand, show (ascii "rm -r").length = 5 from rfl]
    omega
  unfold fileOptions
  rw [if_neg hdel]
  by_cases h₁ : chosen = keyBack
  · rw [if_pos h₁]; exact fun h => Effect.noConfusion h
  rw [if_neg h₁]
  by_cases h₂ : chosen = 0
  · rw [if_pos h₂]; exact fun h => Effect.noConfusion h
  rw [if_neg h₂]
  by_cases h₃ : chosen = 1 ∨ chosen = 2
  · rw [if_pos h₃]
    split <;> exact fun h => Effect.noConfusion h
  rw [if_neg h₃]
  by_cases h₄ : chosen = 3
  · rw [if_pos h₄]
    split
    · exact fun h => Effect.noConfusion h
    split
    · next cmd verb' h =>
      rw [if_neg (by rw [length_pasteCommand h]; omega)]
      exact fun h => Effect.noConfusion h
    · exact fun h => Effect.noConfusion h
  rw [if_neg h₄]
  split
  · split <;> exact fun h => Effect.noConfusion h
  · exact fun h => Effect.noConfusion h

inductive Action
  | install
  | restore (partition : String)
  | flash (partition : String)
  | nothing
deriving DecidableEq

def fileOptionBranch (file : CString) : Option Action := do
  if (← endsWith file ⟨ascii ".zip", by decide⟩) then return .install
  else if (← endsWith file ⟨ascii ".tar", by decide⟩) then
    if (← startsWith file ⟨ascii "system", by decide⟩) then return .restore "/system"
    else if (← startsWith file ⟨ascii "data", by decide⟩) then return .restore "/data"
    else if (← startsWith file ⟨ascii "full", by decide⟩) then return .restore "/system and /data"
    else return .nothing
  else if (← endsWith file ⟨ascii ".rfs", by decide⟩) then return .flash "recovery"
  else if (← endsWith file ⟨ascii ".png", by decide⟩) then return .flash "boot3"
  else if (← endsWith file ⟨ascii "zImage", by decide⟩) && file.bytes.length = 6 then
    return .flash "boot"
  else return .nothing

def fileOptionAction (file : CString) (home : Bool) : Option Action := do
  match ← fileOptionBranch file with
  | .install => return if home then .install else .nothing
  | a => return a

def actionLabel : Action → Option String
  | .install => some "Apply zip"
  | .restore "/system" => some "Restore system backup"
  | .restore "/data" => some "Restore data backup"
  | .restore "/system and /data" => some "Restore full backup"
  | .flash "recovery" => some "Flash recovery kernel"
  | .flash "boot3" => some "Flash boot logo"
  | .flash "boot" => some "Flash kernel image"
  | .nothing => some "No associated action"
  | _ => none

lemma actionLabel_eq_nothing_iff (a : Action) :
    actionLabel a = some "No associated action" ↔ a = .nothing := by
  refine ⟨fun h => ?_, fun h => h ▸ rfl⟩
  unfold actionLabel at h
  split at h <;> first | rfl | exact absurd h (by decide)

lemma fileOptionText_eq (file : CString) : fileOptionText file =
    (endsWith file ⟨ascii "/", by decide⟩).bind fun b =>
      if b then some "No associated action" else (fileOptionBranch file).bind actionLabel := by
  unfold fileOptionText fileOptionBranch
  rcases endsWith file ⟨ascii "/", by decide⟩ with _ | _ | _ <;> [rfl; skip; rfl]
  rcases endsWith file ⟨ascii ".zip", by decide⟩ with _ | _ | _ <;> [rfl; skip; rfl]
  rcases endsWith file ⟨ascii ".tar", by decide⟩ with _ | _ | _ <;> [rfl; skip; skip]
  · rcases endsWith file ⟨ascii ".rfs", by decide⟩ with _ | _ | _ <;> [rfl; skip; rfl]
    rcases endsWith file ⟨ascii ".png", by decide⟩ with _ | _ | _ <;> [rfl; skip; rfl]
    rcases endsWith file ⟨ascii "zImage", by decide⟩ with _ | _ | _ <;> [rfl; skip; skip]
    · rfl
    · cases decide (file.bytes.length = 6) <;> rfl
  · rcases startsWith file ⟨ascii "system", by decide⟩ with _ | _ | _ <;> [rfl; skip; rfl]
    rcases startsWith file ⟨ascii "data", by decide⟩ with _ | _ | _ <;> [rfl; skip; rfl]
    rcases startsWith file ⟨ascii "full", by decide⟩ with _ | _ | _ <;> rfl

lemma fileOptionBranch_of_slash {file : CString} {a : Action} (h : [47] <:+ file.bytes)
    (ha : fileOptionBranch file = some a) : a = .nothing := by
  unfold fileOptionBranch at ha
  rcases e : endsWith file ⟨ascii ".zip", by decide⟩ with _ | _ | _ <;> rw [e] at ha
  · cases ha
  · rcases e : endsWith file ⟨ascii ".tar", by decide⟩ with _ | _ | _ <;> rw [e] at ha
    · cases ha
    · rcases e : endsWith file ⟨ascii ".rfs", by decide⟩ with _ | _ | _ <;> rw [e] at ha
      · cases ha
      · rcases e : endsWith file ⟨ascii ".png", by decide⟩ with _ | _ | _ <;> rw [e] at ha
        · cases ha
        · rcases e : endsWith file ⟨ascii "zImage", by decide⟩ with _ | _ | _ <;> rw [e] at ha
          · cases ha
          · simpa using ha.symm
          · exact absurd e (endsWith_ne_of_slash h (by decide) (by decide))
        · exact absurd e (endsWith_ne_of_slash h (by decide) (by decide))
      · exact absurd e (endsWith_ne_of_slash h (by decide) (by decide))
    · exact absurd e (endsWith_ne_of_slash h (by decide) (by decide))
  · exact absurd e (endsWith_ne_of_slash h (by decide) (by decide))

theorem option_label_agrees {file : CString} {label : String} {a : Action}
    (ht : fileOptionText file = some label) (ha : fileOptionBranch file = some a) :
    actionLabel a = some label ∧ (label = "No associated action" ↔ a = .nothing) := by
  suffices h : actionLabel a = some label from
    ⟨h, by rw [← actionLabel_eq_nothing_iff, h, Option.some.injEq]⟩
  rw [fileOptionText_eq] at ht
  rcases e : endsWith file ⟨ascii "/", by decide⟩ with _ | _ | b <;> rw [e] at ht
  · cases ht
  · simpa [ha] using ht
  · rw [fileOptionBranch_of_slash (suffix_of_endsWith e) ha]
    simpa [actionLabel] using ht

theorem option_label_agrees_backup :
    fileOptionText ⟨ascii "system-1.tar", by decide⟩ = some "Restore system backup" ∧
      fileOptionBranch ⟨ascii "system-1.tar", by decide⟩ = some (.restore "/system") ∧
      actionLabel (.restore "/system") = some "Restore system backup" ∧
      ("Restore system backup" = "No associated action" ↔ Action.restore "/system" = .nothing) :=
  ⟨by decide, by decide, @option_label_agrees ⟨ascii "system-1.tar", by decide⟩ _ _ (by decide)
    (by decide)⟩

example : fileOptionText ⟨ascii "a", by decide⟩ = none ∧
    fileOptionBranch ⟨ascii "a", by decide⟩ = some .nothing := by
  decide

theorem zip_label_without_install :
    fileOptionText ⟨ascii "a.zip", by decide⟩ = some "Apply zip" ∧
      fileOptionAction ⟨ascii "a.zip", by decide⟩ false = some .nothing := by
  decide

theorem delete_and_paste_commands :
    shellWords (deleteCommand ⟨ascii "/sdcard/", by decide⟩ ⟨ascii "a b", by decide⟩) =
        some [ascii "rm", ascii "-r", ascii "/sdcard/a", ascii "b"] ∧
      ∀ queue path : List UInt8, pasteCommand 1 queue path = some (cpCommand queue path, "copy") :=
  ⟨by decide, fun _ _ => rfl⟩

end BootableRecovery.FileOptions
