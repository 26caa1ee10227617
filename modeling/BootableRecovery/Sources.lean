import BootableRecovery.Codec

/-! Which source decides the argument vector. -/

namespace BootableRecovery.Sources

open Libc Bootloader GetArgs

variable {argv : List CString} {boot : BootloaderMessage}

lemma getArgs_indep
    (h : 1 < argv.length ∨ 1 < (fromBootMessage (initialStage argv boot)).argv.length)
    (F₁ F₂ : Option (List UInt8)) : getArgs argv boot F₁ = getArgs argv boot F₂ := by
  rcases Nat.lt_or_ge 1 argv.length with hl | hl
  · rw [getArgs_of_long hl, getArgs_of_long hl]
  · rw [getArgs_of_boot hl (h.resolve_left (by omega)), getArgs_of_boot hl (h.resolve_left (by omega))]

lemma getArgs_of_file (h : argv.length ≤ 1)
    (hb : (fromBootMessage (initialStage argv boot)).argv.length ≤ 1) (f : List UInt8) :
    (getArgs argv boot (some f)).map Resolved.argv =
      (readCommandFile (maxArgs - 1) f).map
        ((fromBootMessage (initialStage argv boot)).argv.headD emptyArg :: ·) := by
  simp only [getArgs, if_pos h, if_pos hb, fromCommandFile, Option.map_map]
  rfl

theorem source_precedence (F₁ F₂ : Option (List UInt8)) :
    (1 < argv.length → (getArgs argv boot F₁).map Resolved.argv = some argv) ∧
    (argv.length ≤ 1 → (∃ t ts, tokens [LF] (bootText boot.recovery) = recoveryArg.bytes :: t :: ts) →
      getArgs argv boot F₁ = getArgs argv boot F₂) ∧
    ((getArgs argv boot F₁).map Resolved.argv ≠ (getArgs argv boot F₂).map Resolved.argv →
      argv.length ≤ 1 ∧ (fromBootMessage (initialStage argv boot)).argv.length ≤ 1) := by
  refine ⟨fun h => by rw [getArgs_of_long h]; rfl, fun _ ⟨t, ts, hts⟩ => getArgs_indep (.inr ?_) F₁ F₂,
    fun hne => ?_⟩
  · have h := congrArg List.length (@fromBootMessage_of_recovery (initialStage argv boot) _ hts)
    simp only [List.length_map, List.length_cons, List.length_take, maxArgs] at h
    omega
  · by_contra hc
    exact hne (by rw [getArgs_indep (by omega) F₁ F₂])

theorem command_file_blank_line :
    getArgs [⟨ascii "/sbin/recovery", by decide⟩] .zero (some (ascii "--wipe_data\n\n")) = none := by
  decide

end BootableRecovery.Sources
