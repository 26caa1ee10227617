import BootableRecovery.Bootloader

/-! The log copy of `finish_recovery`, with the outcomes of `fopen`, `fputs` and `check_and_fclose`. -/

namespace BootableRecovery.Completion

open Libc Bootloader

structure LogState where
  tmplog : List UInt8
  offset : Nat
  log : List UInt8
deriving DecidableEq

def copyLoop (ok : Nat → Bool) : Nat → Nat → List UInt8 → List UInt8 × Nat
  | 0, _, _ => ([], 0)
  | fuel + 1, i, f =>
    match fgets 4096 f with
    | none => ([], 0)
    | some (line, rest) =>
      ((if ok i then cstr line else []) ++ (copyLoop ok fuel (i + 1) rest).1,
        line.length + (copyLoop ok fuel (i + 1) rest).2)

def kept (flushed : Option Nat) (bytes : List UInt8) : List UInt8 :=
  match flushed with
  | none => bytes
  | some n => bytes.take n

lemma kept_isPrefix_bytes (flushed : Option Nat) (bytes : List UInt8) : kept flushed bytes <+: bytes := by
  cases flushed
  · exact List.prefix_refl _
  · exact List.take_prefix _ _

def copyLogs (logOpen tmpOpen : Bool) (ok : Nat → Bool) (flushed : Option Nat) (st : LogState) :
    LogState :=
  if logOpen ∧ tmpOpen then
    let unread := st.tmplog.drop st.offset
    let r := copyLoop ok unread.length 0 unread
    { st with log := st.log ++ kept flushed r.1, offset := st.offset + r.2 }
  else st

def LogState.append (st : LogState) (bytes : List UInt8) : LogState :=
  { st with tmplog := st.tmplog ++ bytes }

lemma fgets_some {f line rest : List UInt8} (h : fgets 4096 f = some (line, rest)) :
    line ++ rest = f ∧ line ≠ [] := by
  unfold fgets at h
  split_ifs at h with hf
  obtain ⟨rfl, rfl⟩ := Option.some.inj h |> Prod.mk.inj
  exact ⟨fgetsLine_append_drop _ f, fgetsLine_ne_nil (by decide) hf⟩

lemma copyLoop_spec (ok : Nat → Bool) (fuel i : Nat) (f : List UInt8) (hf : f.length ≤ fuel) :
    (copyLoop ok fuel i f).2 = f.length ∧ List.Sublist (copyLoop ok fuel i f).1 f := by
  induction fuel generalizing i f with
  | zero => simp_all [copyLoop]
  | succ fuel ih =>
    rcases hg : fgets 4096 f with _ | ⟨line, rest⟩
    · obtain rfl : f = [] := by by_contra h; simp [fgets, h] at hg
      simp [copyLoop, fgets]
    · obtain ⟨happ, hne⟩ := fgets_some hg
      have hlen : rest.length ≤ fuel := by
        have := congrArg List.length happ
        have := List.length_pos.mpr hne
        simp only [List.length_append] at *
        omega
      obtain ⟨h1, h2⟩ := ih (i + 1) rest hlen
      simp only [copyLoop, hg, h1]
      refine ⟨by rw [← happ, List.length_append], happ ▸ List.Sublist.append ?_ h2⟩
      split_ifs
      · exact List.IsPrefix.sublist <| List.takeWhile_prefix _
      · exact List.nil_sublist _

lemma copyLoop_exact (fuel i : Nat) (f : List UInt8) (hf : f.length ≤ fuel) (h0 : 0 ∉ f) :
    (copyLoop (fun _ => true) fuel i f).1 = f := by
  induction fuel generalizing i f with
  | zero => simp_all [copyLoop]
  | succ fuel ih =>
    rcases hg : fgets 4096 f with _ | ⟨line, rest⟩
    · obtain rfl : f = [] := by by_contra h; simp [fgets, h] at hg
      simp [copyLoop, fgets]
    · obtain ⟨happ, hne⟩ := fgets_some hg
      have hlen : rest.length ≤ fuel := by
        have := congrArg List.length happ
        have := List.length_pos.mpr hne
        simp only [List.length_append] at *
        omega
      rw [← happ] at h0
      simp only [copyLoop, hg, if_true, ih (i + 1) rest hlen (fun h => h0 (List.mem_append_right _ h)),
        cstr_of_nul_free line (fun h => h0 (List.mem_append_left _ h)), happ]

lemma copyLogs_cases (logOpen tmpOpen : Bool) (ok : Nat → Bool) (flushed : Option Nat)
    (st : LogState) :
    copyLogs logOpen tmpOpen ok flushed st = st ∨
      ∃ w, List.Sublist w (st.tmplog.drop st.offset) ∧
        (∀ _ : ok = fun _ => true, flushed = none → 0 ∉ st.tmplog → w = st.tmplog.drop st.offset) ∧
        copyLogs logOpen tmpOpen ok flushed st =
          { st with log := st.log ++ w, offset := st.offset + (st.tmplog.drop st.offset).length } := by
  unfold copyLogs
  split_ifs
  · obtain ⟨h1, h2⟩ := copyLoop_spec ok _ 0 _ le_rfl
    refine .inr ⟨_, (kept_isPrefix_bytes flushed _).sublist.trans h2, fun hok hf h0 => ?_, by simp only [h1]⟩
    subst hok hf
    exact copyLoop_exact _ 0 _ le_rfl fun h => h0 (List.mem_of_mem_drop h)
  · exact .inl rfl

inductive LogOp
  | append (bytes : List UInt8)
  | flush (logOpen tmpOpen : Bool) (ok : Nat → Bool) (flushed : Option Nat)

def LogOp.apply : LogOp → LogState → LogState
  | .append bytes, st => st.append bytes
  | .flush logOpen tmpOpen ok flushed, st => copyLogs logOpen tmpOpen ok flushed st

def runLog (ops : List LogOp) (st : LogState) : LogState := ops.foldl (fun st op => op.apply st) st

def ExactlyCopied (init : List UInt8) (st : LogState) : Prop :=
  st.log = init ++ st.tmplog.take st.offset ∧ st.offset ≤ st.tmplog.length

instance (init : List UInt8) (st : LogState) : Decidable (ExactlyCopied init st) :=
  inferInstanceAs (Decidable (_ ∧ _))

theorem copyLogs_skips_bytes :
    ExactlyCopied [] ⟨ascii "I:x\n", 0, []⟩ ∧
      ¬ ExactlyCopied [] (copyLogs true true (fun _ => false) none ⟨ascii "I:x\n", 0, []⟩) ∧
    ExactlyCopied [] ⟨[97, 0, 98, 10], 0, []⟩ ∧
      ¬ ExactlyCopied [] (copyLogs true true (fun _ => true) none ⟨[97, 0, 98, 10], 0, []⟩) := by
  decide

lemma offset_add_unread {st : LogState} (h : st.offset ≤ st.tmplog.length) :
    st.offset + (st.tmplog.drop st.offset).length = st.tmplog.length := by
  rw [List.length_drop]
  omega

def CopiedOnce (init : List UInt8) (st : LogState) : Prop :=
  ∃ w, st.log = init ++ w ∧ List.Sublist w (st.tmplog.take st.offset) ∧ st.offset ≤ st.tmplog.length

lemma copiedOnce_apply {init : List UInt8} {st : LogState} (h : CopiedOnce init st) (op : LogOp) :
    CopiedOnce init (op.apply st) := by
  obtain ⟨w, hlog, hw, hoff⟩ := h
  cases op with
  | append bytes =>
    refine ⟨w, hlog, ?_, by simp [LogOp.apply, LogState.append]; omega⟩
    simpa [LogOp.apply, LogState.append, List.take_append_of_le_length hoff] using hw
  | flush logOpen tmpOpen ok flushed =>
    simp only [LogOp.apply]
    rcases copyLogs_cases logOpen tmpOpen ok flushed st with he | ⟨w', hw', -, he⟩
    · rw [he]
      exact ⟨w, hlog, hw, hoff⟩
    · rw [he]
      have hlen := offset_add_unread hoff
      refine ⟨w ++ w', by simp [hlog], ?_, by simp only [hlen]; exact le_rfl⟩
      simp only [hlen, List.take_length]
      simpa only [List.take_append_drop] using hw.append hw'

theorem runLog_copiedOnce (init : List UInt8) (ops : List LogOp) (st : LogState)
    (h : CopiedOnce init st) : CopiedOnce init (runLog ops st) := by
  induction ops generalizing st with
  | nil => exact h
  | cons op ops ih => exact ih _ (copiedOnce_apply h op)

theorem runLog_copiedOnce_fputs_fails :
    CopiedOnce [] ⟨[], 0, []⟩ ∧
      CopiedOnce [] (runLog [.append (ascii "I:a\n"), .flush true true (fun _ => false) none,
        .append (ascii "I:b\n"), .flush true true (fun _ => true) (some 2)] ⟨[], 0, []⟩) :=
  have h : CopiedOnce [] ⟨[], 0, []⟩ := ⟨[], rfl, List.Sublist.slnil, le_rfl⟩
  ⟨h, runLog_copiedOnce [] _ _ h⟩

def LogOp.Clean : LogOp → Prop
  | .append bytes => 0 ∉ bytes
  | .flush _ _ ok flushed => ok = (fun _ => true) ∧ flushed = none

lemma exactlyCopied_apply {init : List UInt8} {st : LogState} (h : ExactlyCopied init st)
    (h0 : 0 ∉ st.tmplog) {op : LogOp} (hop : op.Clean) :
    ExactlyCopied init (op.apply st) ∧ 0 ∉ (op.apply st).tmplog := by
  obtain ⟨hlog, hoff⟩ := h
  cases op with
  | append bytes =>
    refine ⟨⟨?_, by simp [LogOp.apply, LogState.append]; omega⟩, ?_⟩
    · simpa [LogOp.apply, LogState.append, List.take_append_of_le_length hoff] using hlog
    · simpa [LogOp.apply, LogState.append, not_or] using ⟨h0, hop⟩
  | flush logOpen tmpOpen ok flushed =>
    simp only [LogOp.apply]
    rcases copyLogs_cases logOpen tmpOpen ok flushed st with he | ⟨w, -, hw, he⟩
    · rw [he]
      exact ⟨⟨hlog, hoff⟩, h0⟩
    · rw [he, hw hop.1 hop.2 h0]
      have hlen := offset_add_unread hoff
      refine ⟨⟨?_, by simp only [hlen]; exact le_rfl⟩, h0⟩
      simp only [hlen, List.take_length, hlog, List.append_assoc, List.take_append_drop]

theorem runLog_exactlyCopied (init : List UInt8) (ops : List LogOp) (st : LogState)
    (hops : ∀ op ∈ ops, op.Clean) (h0 : 0 ∉ st.tmplog) (h : ExactlyCopied init st) :
    ExactlyCopied init (runLog ops st) := by
  induction ops generalizing st with
  | nil => exact h
  | cons op ops ih =>
    obtain ⟨h', h0'⟩ := exactlyCopied_apply h h0 (hops op (List.mem_cons_self op ops))
    exact ih _ (fun o ho => hops o (List.mem_cons_of_mem op ho)) h0' h'

theorem runLog_exactlyCopied_two_flushes :
    (∀ op ∈ [LogOp.append (ascii "I:a\n"), .flush true true (fun _ => true) none,
        .append (ascii "I:b\n"), .flush true true (fun _ => true) none], op.Clean) ∧
      0 ∉ ([] : List UInt8) ∧ ExactlyCopied [] ⟨[], 0, []⟩ ∧
      ExactlyCopied [] (runLog [.append (ascii "I:a\n"), .flush true true (fun _ => true) none,
        .append (ascii "I:b\n"), .flush true true (fun _ => true) none] ⟨[], 0, []⟩) :=
  have hops : ∀ op ∈ [LogOp.append (ascii "I:a\n"), .flush true true (fun _ => true) none,
      .append (ascii "I:b\n"), .flush true true (fun _ => true) none], op.Clean := by
    simp only [List.mem_cons, List.mem_singleton, forall_eq_or_imp, LogOp.Clean, forall_eq,
      List.not_mem_nil, or_false]
    decide
  ⟨hops, List.not_mem_nil 0, by decide, runLog_exactlyCopied [] _ _ hops (List.not_mem_nil 0) (by decide)⟩

example : ¬ ExactlyCopied [] (copyLogs true true (fun _ => true) (some 2) ⟨ascii "I:x\n", 0, []⟩) := by
  decide

end BootableRecovery.Completion
