import BootableRecovery.Bootloader

/-! `get_args`: the command line, else the bootloader control block, else the command file. -/

namespace BootableRecovery.GetArgs

open Libc Bootloader

def maxArgLength : Nat := 4096

def maxArgs : Nat := 100

def recoveryArg : CString := ⟨ascii "recovery", by decide⟩

def recoveryLine : CString := ⟨ascii "recovery\n", by decide⟩

def newline : CString := ⟨[LF], by decide⟩

def emptyArg : CString := ⟨[], by decide⟩

inductive LogLine
  | bootCommand (command : List UInt8)
  | bootStatus (status : List UInt8)
  | badBootMessage (recovery : List UInt8)
  | gotArgumentsFromBootMessage
  | gotArgumentsFromCommandFile
deriving DecidableEq, Repr

def fieldSet (field : List UInt8) : Bool := field.headD 0 != 0 && field.headD 0 != 255

def bootLog (boot : BootloaderMessage) : List LogLine :=
  (if fieldSet boot.command then [.bootCommand (cstr boot.command)] else []) ++
    (if fieldSet boot.status then [.bootStatus (cstr boot.status)] else [])

structure Stage where
  argv : List CString
  recovery : List UInt8
  recovery_length : recovery.length = 1024
  log : List LogLine

def initialStage (argv : List CString) (boot : BootloaderMessage) : Stage :=
  ⟨argv, boot.recovery, boot.recovery_length, bootLog boot⟩

def readBootArgs : Nat → Cursor → List CString × Cursor
  | 0, c => ([], c)
  | n + 1, c =>
    match strtok [LF] c with
    | (some arg, c') => (arg :: (readBootArgs n c').1, (readBootArgs n c').2)
    | (none, c') => ([], c')

lemma readBootArgs_length (n : Nat) (c : Cursor) :
    (readBootArgs n c).2.buffer.length = c.buffer.length := by
  induction n generalizing c with
  | zero => rfl
  | succ n ih =>
    have h := @strtok_length [LF] c
    rcases hs : strtok [LF] c with ⟨_ | arg, c'⟩ <;> rw [hs] at h <;> simp only [readBootArgs, hs, ih, h]

lemma readBootArgs_tokens (n : Nat) (c : Cursor) :
    (readBootArgs n c).1.map CString.bytes = (tokens [LF] (cstr c.rest)).take n := by
  induction n generalizing c with
  | zero => simp [readBootArgs]
  | succ n ih =>
    obtain ⟨hhead, htail⟩ := @strtok_spec [LF] (by decide) c
    rcases hs : strtok [LF] c with ⟨_ | arg, c'⟩ <;> rw [hs] at hhead htail
    · simp only [Option.map_none'] at hhead
      simp [readBootArgs, hs, List.head?_eq_none_iff.mp hhead.symm]
    · obtain ⟨ts, hts⟩ := List.head?_eq_some_iff.mp hhead.symm
      rw [hts, List.tail_cons] at htail
      simp [readBootArgs, hs, ih, htail, hts]

def firstToken (s : Stage) : Option CString × Cursor := strtok [LF] ⟨[], s.recovery.set 1023 0⟩

lemma firstToken_length (s : Stage) : (firstToken s).2.buffer.length = 1024 := by
  rw [firstToken, strtok_length]
  simp [Cursor.buffer, s.recovery_length]

def badBootMessage (s : Stage) (c : Cursor) (h : c.buffer.length = 1024) : Stage :=
  ⟨s.argv, c.buffer, h,
    s.log ++ if fieldSet c.buffer then [.badBootMessage (cstr (c.buffer.take 20))] else []⟩

def fromBootMessage (s : Stage) : Stage :=
  match (firstToken s).1 with
  | some arg =>
    if arg.bytes = recoveryArg.bytes then
      let rest := readBootArgs (maxArgs - 1) (firstToken s).2
      ⟨arg :: rest.1, rest.2.buffer, by rw [readBootArgs_length, firstToken_length],
        s.log ++ [.gotArgumentsFromBootMessage]⟩
    else badBootMessage s (firstToken s).2 (firstToken_length s)
  | none => badBootMessage s (firstToken s).2 (firstToken_length s)

def readCommandFile : Nat → List UInt8 → Option (List CString)
  | 0, _ => some []
  | n + 1, f =>
    match fgets maxArgLength f with
    | none => some []
    | some (line, rest) =>
      match (strtok [CR, LF] ⟨[], line ++ [0]⟩).1 with
      | some arg => (readCommandFile n rest).map (arg :: ·)
      | none => none

def fromCommandFile (commandFile : Option (List UInt8)) (s : Stage) : Option Stage :=
  match commandFile with
  | none => some s
  | some f => (readCommandFile (maxArgs - 1) f).map fun args =>
    { s with argv := s.argv.headD emptyArg :: args,
             log := s.log ++ [.gotArgumentsFromCommandFile] }

def writeArgs (recovery : List UInt8) (args : List CString) : List UInt8 :=
  args.foldl (fun r a => strlcat (strlcat r a 1024) newline 1024) (strlcpy recovery recoveryLine 1024)

lemma writeArgs_length {recovery : List UInt8} (h : recovery.length = 1024) (args : List CString) :
    (writeArgs recovery args).length = 1024 := by
  have step : ∀ (args : List CString) (r : List UInt8), r.length = 1024 →
      (args.foldl (fun r a => strlcat (strlcat r a 1024) newline 1024) r).length = 1024 := by
    intro args
    induction args with
    | nil => exact fun _ hr => hr
    | cons a args ih =>
      intro r hr
      rw [List.foldl_cons]
      exact ih _ (strlcat_length (strlcat_length hr))
  exact step args _ (by rw [strlcpy_length (by decide) (by omega), h])

def writeBack (boot : BootloaderMessage) (s : Stage) : BootloaderMessage :=
  { boot with
    command := strlcpy boot.command bootRecovery 32
    recovery := writeArgs s.recovery s.argv.tail
    command_length := by rw [strlcpy_length (by decide) (by rw [boot.command_length]),
      boot.command_length]
    recovery_length := writeArgs_length s.recovery_length _ }

structure Resolved where
  argv : List CString
  boot : BootloaderMessage
  log : List LogLine
deriving DecidableEq

def getArgs (argv : List CString) (boot : BootloaderMessage) (commandFile : Option (List UInt8)) :
    Option Resolved :=
  let s₀ := initialStage argv boot
  let s₁ := if argv.length ≤ 1 then fromBootMessage s₀ else s₀
  let s₂ := if s₁.argv.length ≤ 1 then fromCommandFile commandFile s₁ else some s₁
  s₂.map fun s => ⟨s.argv, writeBack boot s, s.log⟩

def bootText (recovery : List UInt8) : List UInt8 := cstr (recovery.take 1023)

lemma firstToken_spec (s : Stage) :
    (firstToken s).1.map CString.bytes = (tokens [LF] (bootText s.recovery)).head? ∧
    tokens [LF] (cstr (firstToken s).2.rest) = (tokens [LF] (bootText s.recovery)).tail := by
  have hset : cstr (s.recovery.set 1023 0) = bootText s.recovery := by
    rw [List.set_eq_take_append_cons_drop, if_pos (by rw [s.recovery_length]; decide),
      cstr_append_zero, bootText]
  rw [← hset]
  exact strtok_spec (by decide) _

lemma fromBootMessage_of_recovery {s : Stage} {ts : List (List UInt8)}
    (h : tokens [LF] (bootText s.recovery) = recoveryArg.bytes :: ts) :
    (fromBootMessage s).argv.map CString.bytes = recoveryArg.bytes :: ts.take (maxArgs - 1) := by
  obtain ⟨hhead, htail⟩ := firstToken_spec s
  rw [h] at hhead htail
  obtain ⟨arg, harg, hbytes⟩ := Option.map_eq_some'.mp hhead
  simp only [fromBootMessage, harg, hbytes, if_true, List.map_cons, readBootArgs_tokens, htail,
    List.tail_cons]

lemma fromBootMessage_of_not_recovery {s : Stage}
    (h : (tokens [LF] (bootText s.recovery)).head? ≠ some recoveryArg.bytes) :
    (fromBootMessage s).argv = s.argv := by
  have hhead := (firstToken_spec s).1
  unfold fromBootMessage
  split
  · next arg harg =>
    rw [harg, Option.map_some'] at hhead
    rw [if_neg fun he : arg.bytes = recoveryArg.bytes => h (by rw [← hhead, he])]
    rfl
  · rfl

lemma getArgs_of_long {argv : List CString} (h : 1 < argv.length) (boot : BootloaderMessage)
    (commandFile : Option (List UInt8)) :
    getArgs argv boot commandFile =
      some ⟨argv, writeBack boot (initialStage argv boot), bootLog boot⟩ := by
  simp [getArgs, Nat.not_le.mpr h, initialStage]

lemma getArgs_of_boot {argv : List CString} (h : argv.length ≤ 1) {boot : BootloaderMessage}
    (hb : 1 < (fromBootMessage (initialStage argv boot)).argv.length)
    (commandFile : Option (List UInt8)) :
    getArgs argv boot commandFile =
      some ⟨(fromBootMessage (initialStage argv boot)).argv,
        writeBack boot (fromBootMessage (initialStage argv boot)),
        (fromBootMessage (initialStage argv boot)).log⟩ := by
  simp [getArgs, h, Nat.not_le.mpr hb]

lemma writeBack_armed (boot : BootloaderMessage) (s : Stage) : (writeBack boot s).armed := by
  rw [BootloaderMessage.armed, writeBack, cstr_strlcpy (by decide)]
  rfl

lemma getArgs_eq_some {argv : List CString} {boot : BootloaderMessage}
    {commandFile : Option (List UInt8)} {res : Resolved} (h : getArgs argv boot commandFile = some res) :
    ∃ s : Stage, res = ⟨s.argv, writeBack boot s, s.log⟩ := by
  obtain ⟨s, -, rfl⟩ := Option.map_eq_some'.mp h
  exact ⟨s, rfl⟩

end BootableRecovery.GetArgs
