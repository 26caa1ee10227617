import BootableRecovery.Main
import BootableRecovery.Completion

/-! The device across reboots, with a power failure possible between any two steps of a run. -/

namespace BootableRecovery.Boot

open Libc Bootloader GetArgs Main Completion

structure Device where
  bcb : BootloaderMessage
  command : Option (List UInt8)
  intent : Option (List UInt8)
  log : List UInt8
  retired : Bool
  removed : Bool
deriving DecidableEq

namespace Device

def writeCommand (d : Device) (c : Option (List UInt8)) : Device :=
  { d with command := c, retired := d.retired && c.isNone, removed := c.isNone }

def wipeCache (d : Device) : Device :=
  { d with command := none, intent := none, log := [], removed := true }

def unlinkCommand (d : Device) : Device := { d with command := none, removed := true }

@[simp] lemma writeCommand_bcb (d : Device) (c : Option (List UInt8)) :
    (d.writeCommand c).bcb = d.bcb := rfl
@[simp] lemma writeCommand_command (d : Device) (c : Option (List UInt8)) :
    (d.writeCommand c).command = c := rfl
@[simp] lemma writeCommand_removed (d : Device) (c : Option (List UInt8)) :
    (d.writeCommand c).removed = c.isNone := rfl
@[simp] lemma wipeCache_bcb (d : Device) : d.wipeCache.bcb = d.bcb := rfl
@[simp] lemma wipeCache_command (d : Device) : d.wipeCache.command = none := rfl
@[simp] lemma wipeCache_removed (d : Device) : d.wipeCache.removed = true := rfl
@[simp] lemma unlinkCommand_bcb (d : Device) : d.unlinkCommand.bcb = d.bcb := rfl
@[simp] lemma unlinkCommand_command (d : Device) : d.unlinkCommand.command = none := rfl
@[simp] lemma unlinkCommand_removed (d : Device) : d.unlinkCommand.removed = true := rfl

def commandFile (d : Device) (opened : Bool) : Option (List UInt8) :=
  if opened then d.command else none

end Device

inductive FinishStep
  | intent
  | log
  | erase
  | unlink
deriving DecidableEq

inductive Pc
  | getArgs
  | operate
  | settle (status : Bool)
  | finish (fromMenu : Bool) (step : FinishStep)
  | menu
  | firmware
  | exit
deriving DecidableEq

structure Run where
  argv : List CString
  pc : Pc
  offset : Nat
  fromFile : Bool
deriving DecidableEq

structure Sys where
  dev : Device
  tmplog : List UInt8
  run : Option Run
deriving DecidableEq

inductive MenuChoice
  | again
  | wipe (cacheOk : Bool)
  | leave

inductive Event
  | boot (argv : List CString) (user : Bool)
  | writeCommand (command : Option (List UInt8))
  | output (bytes : List UInt8)
  | crash
  | getArgs (readOk fileOk writeOk : Bool)
  | operate (installOk dataOk cacheOk : Bool)
  | settle
  | intent (opened : Bool) (flushed : Option Nat)
  | log (logOpen tmpOpen : Bool) (ok : Nat → Bool) (flushed : Option Nat)
  | erase (ok : Bool)
  | unlink (ok : Bool)
  | menu (choice : MenuChoice)
  | firmware (block : Option BootloaderMessage)
  | exit (reboot : Bool)

def readsCommandFile (argv : List CString) (boot : BootloaderMessage)
    (commandFile : Option (List UInt8)) : Bool :=
  decide (argv.length ≤ 1) && decide ((fromBootMessage (initialStage argv boot)).argv.length ≤ 1) &&
    commandFile.isSome

def operate (req : Request) (installOk dataOk cacheOk : Bool) (d : Device) : Bool × Device :=
  match operation req with
  | .install _ => (installOk, d)
  | .wipe data cache =>
    ((!data || dataOk) && (!cache || cacheOk), if cache && cacheOk then d.wipeCache else d)
  | .noCommand => (false, d)

lemma operate_dev (req : Request) (installOk dataOk cacheOk : Bool) (d : Device) :
    (operate req installOk dataOk cacheOk d).2 = d ∨ (operate req installOk dataOk cacheOk d).2 = d.wipeCache := by
  unfold operate
  split
  · exact .inl rfl
  · split
    · exact .inr rfl
    · exact .inl rfl
  · exact .inl rfl

def writeIntent (sendIntent : Option CString) (opened : Bool) (flushed : Option Nat) (d : Device) :
    Device :=
  match sendIntent with
  | some i => if opened then { d with intent := some (kept flushed i.bytes) } else d
  | none => d

lemma writeIntent_eq (i : Option CString) (opened : Bool) (flushed : Option Nat) (d : Device) :
    ∃ x, writeIntent i opened flushed d = { d with intent := x } := by
  unfold writeIntent
  split
  · split
    · exact ⟨_, rfl⟩
    · exact ⟨d.intent, rfl⟩
  · exact ⟨d.intent, rfl⟩

@[simp] lemma writeIntent_bcb (i : Option CString) (opened : Bool) (flushed : Option Nat)
    (d : Device) : (writeIntent i opened flushed d).bcb = d.bcb := by
  obtain ⟨x, hx⟩ := writeIntent_eq i opened flushed d; rw [hx]
@[simp] lemma writeIntent_command (i : Option CString) (opened : Bool) (flushed : Option Nat)
    (d : Device) : (writeIntent i opened flushed d).command = d.command := by
  obtain ⟨x, hx⟩ := writeIntent_eq i opened flushed d; rw [hx]
@[simp] lemma writeIntent_removed (i : Option CString) (opened : Bool) (flushed : Option Nat)
    (d : Device) : (writeIntent i opened flushed d).removed = d.removed := by
  obtain ⟨x, hx⟩ := writeIntent_eq i opened flushed d; rw [hx]

def Sys.resume (s : Sys) (r : Run) (pc : Pc) : Sys := { s with run := some { r with pc := pc } }

@[simp] lemma Sys.resume_dev (s : Sys) (r : Run) (pc : Pc) : (s.resume r pc).dev = s.dev := rfl
def Run.sendIntent (r : Run) (fromMenu : Bool) : Option CString :=
  if fromMenu then none else (parseOptions r.argv).bind Request.sendIntent

def getArgsStep (s : Sys) (r : Run) : Event → Option Sys
  | .getArgs readOk fileOk writeOk =>
    let boot := getBootloaderMessage s.dev.bcb readOk
    let file := s.dev.commandFile fileOk
    match GetArgs.getArgs r.argv boot file with
    | none => some { s with run := none }
    | some res =>
      some { s with
        dev := { s.dev with bcb := setBootloaderMessage s.dev.bcb res.boot writeOk },
        run := some { r with
          argv := res.argv, pc := .operate, fromFile := readsCommandFile r.argv boot file } }
  | _ => none

def operateStep (s : Sys) (r : Run) : Event → Option Sys
  | .operate installOk dataOk cacheOk =>
    match parseOptions r.argv with
    | none => some { s with run := none }
    | some req =>
      let o := operate req installOk dataOk cacheOk s.dev
      some { s.resume r (.settle o.1) with dev := o.2 }
  | _ => none

def settleStep (s : Sys) (r : Run) (status : Bool) : Event → Option Sys
  | .settle => some (s.resume r (if status then .firmware else .finish true .intent))
  | _ => none

def finishStep (s : Sys) (r : Run) (fromMenu : Bool) : FinishStep → Event → Option Sys
  | .intent, .intent opened flushed =>
    some { s.resume r (.finish fromMenu .log) with
      dev := writeIntent (r.sendIntent fromMenu) opened flushed s.dev }
  | .log, .log logOpen tmpOpen ok flushed =>
    let st := copyLogs logOpen tmpOpen ok flushed ⟨s.tmplog, r.offset, s.dev.log⟩
    some { s with
      dev := { s.dev with log := st.log },
      run := some { r with pc := .finish fromMenu .erase, offset := st.offset } }
  | .erase, .erase ok =>
    some { s.resume r (.finish fromMenu .unlink) with
      dev := if ok then { s.dev with bcb := .zero, retired := s.dev.retired || r.fromFile } else s.dev }
  | .unlink, .unlink ok =>
    some { s.resume r (if fromMenu then .menu else .exit) with
      dev := if ok then s.dev.unlinkCommand else s.dev }
  | _, _ => none

def menuStep (s : Sys) (r : Run) : Event → Option Sys
  | .menu .again => some (s.resume r (.finish true .intent))
  | .menu (.wipe cacheOk) =>
    some { s.resume r (.finish true .intent) with dev := if cacheOk then s.dev.wipeCache else s.dev }
  | .menu .leave => some (s.resume r .firmware)
  | .writeCommand c => some { s.resume r (.finish true .intent) with dev := s.dev.writeCommand c }
  | _ => none

def firmwareStep (s : Sys) (r : Run) : Event → Option Sys
  | .firmware none => some (s.resume r (.finish false .intent))
  | .firmware (some b) => some { s with dev := { s.dev with bcb := b }, tmplog := [], run := none }
  | _ => none

def exitStep (s : Sys) : Event → Option Sys
  | .exit reboot => some { s with tmplog := if reboot then [] else s.tmplog, run := none }
  | _ => none

def advance (s : Sys) (r : Run) : Event → Option Sys :=
  match r.pc with
  | .getArgs => getArgsStep s r
  | .operate => operateStep s r
  | .settle status => settleStep s r status
  | .finish fromMenu k => finishStep s r fromMenu k
  | .menu => menuStep s r
  | .firmware => firmwareStep s r
  | .exit => exitStep s

def step (s : Sys) (e : Event) : Option Sys :=
  match s.run, e with
  | none, .boot argv user =>
    if user || decide s.dev.bcb.armed then some { s with run := some ⟨argv, .getArgs, 0, false⟩ }
    else none
  | none, .writeCommand c => some { s with dev := s.dev.writeCommand c }
  | some _, .output bytes => some { s with tmplog := s.tmplog ++ bytes }
  | some _, .crash => some { s with tmplog := [], run := none }
  | some r, e => advance s r e
  | none, _ => none

def Sys.init (bcb : BootloaderMessage) (command intent : Option (List UInt8)) (log : List UInt8) :
    Sys :=
  ⟨⟨bcb, command, intent, log, false, false⟩, [], none⟩

inductive Reachable : Sys → Prop
  | init (bcb : BootloaderMessage) (command intent : Option (List UInt8)) (log : List UInt8) :
      Reachable (Sys.init bcb command intent log)
  | step {s t : Sys} (e : Event) : Reachable s → step s e = some t → Reachable t

def runEvents : Sys → List Event → Option Sys
  | s, [] => some s
  | s, e :: es => (step s e).bind (runEvents · es)

lemma Reachable.runEvents {s t : Sys} (hs : Reachable s) :
    ∀ {es : List Event}, Boot.runEvents s es = some t → Reachable t
  | [], h => by cases h; exact hs
  | e :: es, h => by
    obtain ⟨s', hs', h'⟩ := Option.bind_eq_some.mp h
    exact (hs.step e hs').runEvents h'

/-! ### What a step can do to the device -/

variable {s t : Sys} {r : Run} {e : Event}

lemma step_cases (h : step s e = some t) :
    (s.run = none ∧ (t.dev = s.dev ∨ ∃ c, t.dev = s.dev.writeCommand c)) ∨
      ∃ r, s.run = some r ∧ (t.dev = s.dev ∨ advance s r e = some t) := by
  unfold step at h
  split at h
  · split at h
    · cases h; exact .inl ⟨‹_›, .inl rfl⟩
    · cases h
  · cases h; exact .inl ⟨‹_›, .inr ⟨_, rfl⟩⟩
  · cases h; exact .inr ⟨_, ‹_›, .inl rfl⟩
  · cases h; exact .inr ⟨_, ‹_›, .inl rfl⟩
  · exact .inr ⟨_, ‹_›, .inr h⟩
  · cases h

lemma advance_dev (h : advance s r e = some t) :
    (t.dev.bcb = s.dev.bcb ∨ r.pc = .getArgs ∨ (∃ m, r.pc = .finish m .erase) ∨ r.pc = .firmware) ∧
      ((t.dev.command = s.dev.command ∧ t.dev.removed = s.dev.removed) ∨
        t.dev.removed = t.dev.command.isNone) := by
  rcases hpc : r.pc with _ | _ | _ | ⟨m, _ | _ | _ | _⟩ | _ | _ | _ <;> rw [advance, hpc] at h <;>
    rcases e with _ | _ | _ | _ | _ | _ | _ | _ | _ | _ | _ | ⟨_ | _ | _⟩ | ⟨_ | _⟩ | _ <;> try cases h
  case getArgs.getArgs =>
    dsimp only [getArgsStep] at h
    split at h <;> cases h <;> simp
  case operate.operate installOk dataOk cacheOk =>
    dsimp only [operateStep] at h
    split at h
    · cases h; simp
    · next req _ =>
      cases h
      rcases operate_dev req installOk dataOk cacheOk s.dev with h | h <;> simp [h]
  all_goals
    try split_ifs
  all_goals simp

lemma step_bcb (h : step s e = some t) :
    t.dev.bcb = s.dev.bcb ∨
      ∃ r, s.run = some r ∧ (r.pc = .getArgs ∨ (∃ m, r.pc = .finish m .erase) ∨ r.pc = .firmware) := by
  rcases step_cases h with ⟨-, hd | ⟨c, hd⟩⟩ | ⟨r, hr, hd | ha⟩
  · exact .inl (by rw [hd])
  · exact .inl (by rw [hd]; rfl)
  · exact .inl (by rw [hd])
  · exact (advance_dev ha).1.imp_right fun h => ⟨r, hr, h⟩

lemma step_command (h : step s e = some t) :
    (t.dev.command = s.dev.command ∧ t.dev.removed = s.dev.removed) ∨
      t.dev.removed = t.dev.command.isNone := by
  rcases step_cases h with ⟨-, hd | ⟨c, hd⟩⟩ | ⟨r, -, hd | ha⟩
  · exact .inl (by rw [hd]; exact ⟨rfl, rfl⟩)
  · exact .inr (by rw [hd]; rfl)
  · exact .inl (by rw [hd]; exact ⟨rfl, rfl⟩)
  · exact (advance_dev ha).2

lemma reachable_of_runEvents {bcb : BootloaderMessage} {command intent : Option (List UInt8)}
    {log : List UInt8} {es : List Event} (h : runEvents (Sys.init bcb command intent log) es = some t) :
    Reachable t :=
  (Reachable.init bcb command intent log).runEvents h

end BootableRecovery.Boot
