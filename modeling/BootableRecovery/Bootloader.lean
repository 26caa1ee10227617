import BootableRecovery.Libc

/-! The bootloader control block, read and written whole. -/

namespace BootableRecovery.Bootloader

open Libc

structure BootloaderMessage where
  command : List UInt8
  status : List UInt8
  recovery : List UInt8
  command_length : command.length = 32
  status_length : status.length = 32
  recovery_length : recovery.length = 1024
deriving DecidableEq

def BootloaderMessage.zero : BootloaderMessage :=
  ⟨List.replicate 32 0, List.replicate 32 0, List.replicate 1024 0, List.length_replicate _ _,
    List.length_replicate _ _, List.length_replicate _ _⟩

def getBootloaderMessage (stored : BootloaderMessage) (ok : Bool) : BootloaderMessage :=
  if ok then stored else .zero

def setBootloaderMessage (stored new : BootloaderMessage) (ok : Bool) : BootloaderMessage :=
  if ok then new else stored

def bootRecovery : CString := ⟨ascii "boot-recovery", by decide⟩

def BootloaderMessage.armed (b : BootloaderMessage) : Prop := cstr b.command = bootRecovery.bytes

instance (b : BootloaderMessage) : Decidable b.armed := inferInstanceAs (Decidable (_ = _))

lemma zero_not_armed : ¬ BootloaderMessage.zero.armed := by decide

end BootableRecovery.Bootloader
