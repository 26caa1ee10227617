import Mathlib.Logic.Relation
import BootableRecovery.Boot
import BootableRecovery.Codec

/-! Restart safety: what a power failure after `get_args` brings back at the next boot. -/

namespace BootableRecovery.Restart

open Libc Bootloader GetArgs Main Codec Boot

def InWindow (s : Sys) : Prop :=
  ∃ r, s.run = some r ∧ (r.pc = .operate ∨ ∃ status, r.pc = .settle status)

def WindowStep (s t : Sys) : Prop := InWindow s ∧ ∃ e, step s e = some t

variable {s s₁ t : Sys} {r : Run}

lemma bcb_of_windowStep (h : WindowStep s t) : t.dev.bcb = s.dev.bcb := by
  obtain ⟨⟨r, hr, hpc⟩, e, he⟩ := h
  rcases step_bcb he with h | ⟨r', hr', hpc'⟩
  · exact h
  · obtain rfl := Option.some.inj (hr.symm.trans hr')
    rcases hpc with h | ⟨_, h⟩ <;> rcases hpc' with h' | ⟨_, h'⟩ | h' <;> rw [h] at h' <;> cases h'

lemma bcb_of_window (h : Relation.ReflTransGen WindowStep s t) : t.dev.bcb = s.dev.bcb := by
  induction h with
  | refl => rfl
  | tail _ hstep ih => rw [bcb_of_windowStep hstep, ih]

lemma getArgs_step {readOk fileOk writeOk : Bool} {res : Resolved} (hr : s.run = some r)
    (hres : getArgs r.argv (getBootloaderMessage s.dev.bcb readOk) (s.dev.commandFile fileOk) =
      some res)
    (h : step s (.getArgs readOk fileOk writeOk) = some s₁) :
    s₁.dev.bcb = setBootloaderMessage s.dev.bcb res.boot writeOk ∧
      ∃ r₁, s₁.run = some r₁ ∧ r₁.pc = .operate ∧ r₁.argv = res.argv := by
  simp only [step, hr] at h
  rcases hpc : r.pc with _ | _ | _ | ⟨_, _ | _ | _ | _⟩ | _ | _ | _ <;> rw [advance, hpc] at h <;>
    try cases h
  simp only [getArgsStep, hres, Option.some.injEq] at h
  subst h
  exact ⟨rfl, _, rfl, rfl, rfl⟩

theorem restart_safety {readOk fileOk : Bool} {res : Resolved} (hr : s.run = some r)
    (hres : getArgs r.argv (getBootloaderMessage s.dev.bcb readOk) (s.dev.commandFile fileOk) =
      some res)
    (h₁ : step s (.getArgs readOk fileOk true) = some s₁)
    (hargs : ∀ a ∈ res.argv.tail, Storable a.bytes) (hn : 0 < res.argv.tail.length)
    (hn' : res.argv.tail.length ≤ maxArgs - 1)
    (hlen : (encode (res.argv.tail.map CString.bytes)).length ≤ 1024)
    (ht : Relation.ReflTransGen WindowStep s₁ t) :
    t.dev.bcb.armed ∧ ∀ (argv : List CString) (commandFile : Option (List UInt8)), argv.length ≤ 1 →
      ∃ res', getArgs argv t.dev.bcb commandFile = some res' ∧ res'.argv.tail = res.argv.tail ∧
        parseOptions res'.argv = parseOptions res.argv := by
  obtain ⟨st, rfl⟩ := getArgs_eq_some hres
  have hbcb : t.dev.bcb = writeBack (getBootloaderMessage s.dev.bcb readOk) st := by
    rw [bcb_of_window ht, (getArgs_step hr hres h₁).1]
    rfl
  refine ⟨hbcb ▸ writeBack_armed _ _, fun argv commandFile hargv => ?_⟩
  obtain ⟨res', h', htail⟩ := getArgs_writeBack _ st argv hargs hn hn' hlen hargv commandFile
  exact ⟨res', hbcb ▸ h', htail, by rw [parseOptions, parseOptions, htail]⟩

def recoveryBinary : CString := ⟨ascii "/sbin/recovery", by decide⟩

def updateArg : CString := ⟨ascii "--update_package=CACHE:update.zip", by decide⟩

def updateCommand : List UInt8 := updateArg.bytes ++ [LF]

def updateBoot : Sys :=
  ⟨⟨.zero, some updateCommand, none, [], false, false⟩, [], some ⟨[recoveryBinary], .getArgs, 0, false⟩⟩

theorem restart_safety_update :
    ∃ s₁ res, step updateBoot (.getArgs true true true) = some s₁ ∧
      getArgs [recoveryBinary] .zero (some updateCommand) = some res ∧
      s₁.dev.bcb.armed ∧ ∀ (argv : List CString) (commandFile : Option (List UInt8)), argv.length ≤ 1 →
        ∃ res', getArgs argv s₁.dev.bcb commandFile = some res' ∧ res'.argv.tail = res.argv.tail ∧
          parseOptions res'.argv = parseOptions res.argv :=
  ⟨_, _, rfl, rfl, @restart_safety updateBoot _ _ _ true true _ rfl rfl rfl (by decide) (by decide)
    (by decide) (by decide) .refl⟩

def commandLineBoot : Sys :=
  ⟨⟨.zero, none, none, [], false, false⟩, [], some ⟨[recoveryBinary, updateArg], .getArgs, 0, false⟩⟩

theorem arming_write_fails :
    ∃ s₁, step commandLineBoot (.getArgs true true false) = some s₁ ∧ InWindow s₁ ∧
      s₁.run.map Run.argv = some [recoveryBinary, updateArg] ∧ ¬ s₁.dev.bcb.armed ∧
      (getArgs [recoveryBinary] s₁.dev.bcb s₁.dev.command).map Resolved.argv = some [recoveryBinary] :=
  ⟨_, rfl, ⟨_, rfl, .inl rfl⟩, rfl, by decide, by decide⟩

/-! ### The command file after the block is erased -/

theorem deleted_command_stays_absent (h : Reachable s) (hr : s.dev.removed = true) :
    s.dev.command = none := by
  induction h with
  | init => cases hr
  | step _ _ hstep ih =>
    rcases step_command hstep with ⟨hc, hrm⟩ | hrm
    · rw [hc]
      exact ih (hrm ▸ hr)
    · rw [hr, eq_comm, Option.isNone_iff_eq_none] at hrm
      exact hrm

def updateUntilErase : List Event :=
  [.writeCommand (some updateCommand), .boot [recoveryBinary] true, .getArgs true true true,
    .operate true true true, .settle, .firmware none, .intent true none,
    .log true true (fun _ => true) none, .erase true]

theorem deleted_command_stays_absent_update :
    ∃ s, Reachable s ∧ s.dev.retired = true ∧ s.dev.removed = true ∧ s.dev.command = none := by
  have h := reachable_of_runEvents
    (rfl : runEvents (Sys.init .zero none none []) (updateUntilErase ++ [.unlink true]) = some _)
  exact ⟨_, h, rfl, rfl, deleted_command_stays_absent h rfl⟩

theorem retired_update_runs_again :
    ∃ s, Reachable s ∧ s.dev.retired = true ∧ s.dev.command = some updateCommand ∧
      s.run.map Run.argv = some [recoveryBinary, updateArg] ∧ s.run.map Run.pc = some .operate :=
  ⟨_, reachable_of_runEvents (rfl : runEvents (Sys.init .zero none none [])
    (updateUntilErase ++ [.crash, .boot [recoveryBinary] true, .getArgs true true true]) = some _),
    rfl, rfl, rfl, rfl⟩

def Settled (t : Sys) : Prop :=
  ∃ r, t.run = some r ∧ r.pc = .menu ∧ t.dev.bcb = .zero ∧ t.dev.command = none

end BootableRecovery.Restart
