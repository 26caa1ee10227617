import BootableRecovery.GetArgs

/-! The `recovery` field as an encoding of the argument vector. -/

namespace BootableRecovery.Codec

open Libc Bootloader GetArgs

def argLines (args : List (List UInt8)) : List UInt8 := (args.map (· ++ [LF])).flatten

def encode (args : List (List UInt8)) : List UInt8 := recoveryLine.bytes ++ argLines args

def Storable (a : List UInt8) : Prop := a ≠ [] ∧ LF ∉ a

instance : DecidablePred Storable := fun a => inferInstanceAs (Decidable (a ≠ [] ∧ LF ∉ a))

def ReadBack (args r : List (List UInt8)) : Prop :=
  ∃ m, r = args.take m ∨ ∃ a p, args[m]? = some a ∧ p ≠ [] ∧ p <+: a ∧ r = args.take m ++ [p]

@[simp] lemma argLines_nil : argLines [] = [] := rfl

lemma argLines_cons (a : List UInt8) (args : List (List UInt8)) :
    argLines (a :: args) = a ++ LF :: argLines args := by simp [argLines]

lemma length_argLines_emit (cur : List UInt8) (rest : List (List UInt8)) :
    (argLines (emit cur rest)).length ≤ cur.length + 1 + (argLines rest).length := by
  by_cases h : cur = [] <;> simp [emit, h, argLines_cons]
  omega

lemma length_argLines_tokensFrom (delim cur s : List UInt8) :
    (argLines (tokensFrom delim cur s)).length ≤ cur.length + s.length + 1 := by
  induction s generalizing cur with
  | nil => simpa using length_argLines_emit cur []
  | cons b s ih =>
    by_cases hb : b ∈ delim
    · rw [tokensFrom_delim hb]
      have := length_argLines_emit cur (tokens delim s)
      have := ih []
      simp only [tokens, List.length_nil, List.length_cons] at *
      omega
    · rw [tokensFrom, if_neg hb]
      have := ih (cur ++ [b])
      simp only [List.length_append, List.length_singleton, List.length_cons, List.length_nil] at this ⊢
      omega

lemma ReadBack.cons {args r : List (List UInt8)} (h : ReadBack args r) (a : List UInt8) :
    ReadBack (a :: args) (a :: r) := by
  obtain ⟨m, rfl | ⟨b, p, hb, hp, hpre, rfl⟩⟩ := h
  · exact ⟨m + 1, .inl rfl⟩
  · exact ⟨m + 1, .inr ⟨b, p, by simpa using hb, hp, hpre, rfl⟩⟩

lemma ReadBack.take {args r : List (List UInt8)} (h : ReadBack args r) (n : Nat) :
    ReadBack args (r.take n) := by
  obtain ⟨m, rfl | ⟨a, p, ha, hp, hpre, rfl⟩⟩ := h
  · exact ⟨min n m, .inl (List.take_take n m args)⟩
  · have hm : m < args.length := (List.getElem?_eq_some_iff.mp ha).1
    rcases Nat.lt_or_ge m n with hn | hn
    · refine ⟨m, .inr ⟨a, p, ha, hp, hpre, List.take_of_length_le ?_⟩⟩
      simp only [List.length_append, List.length_take, List.length_singleton]
      omega
    · refine ⟨n, .inl ?_⟩
      rw [List.take_append_of_le_length (by simp; omega), List.take_take, min_eq_left hn]

lemma take_argLines_cons (a : List UInt8) (args : List (List UInt8)) (k : Nat) :
    (argLines (a :: args)).take k =
      if k ≤ a.length then a.take k else a ++ LF :: (argLines args).take (k - a.length - 1) := by
  rw [argLines_cons]
  split_ifs with hk
  · exact List.take_append_of_le_length hk
  · obtain ⟨j, rfl⟩ : ∃ j, k = a.length + j + 1 := ⟨k - a.length - 1, by omega⟩
    rw [show a.length + j + 1 - a.length - 1 = j by omega, List.take_append_eq_append_take,
      List.take_of_length_le (by omega), show a.length + j + 1 - a.length = j + 1 by omega,
      List.take_succ_cons]

lemma tokens_take_argLines {args : List (List UInt8)} (h : ∀ a ∈ args, Storable a) (k : Nat) :
    ReadBack args (tokens [LF] ((argLines args).take k)) := by
  induction args generalizing k with
  | nil => exact ⟨0, .inl (by simp)⟩
  | cons a args ih =>
    obtain ⟨hne, hlf⟩ := h a (List.mem_cons_self a args)
    have hword : ∀ b ∈ a.take k, b ∉ [LF] := fun b hb hl =>
      hlf (by simpa [List.mem_singleton.mp hl] using List.mem_of_mem_take hb)
    rw [take_argLines_cons]
    split_ifs with hk
    · rw [tokens_word hword]
      by_cases hp : a.take k = []
      · exact ⟨0, .inl (by simp [hp])⟩
      · exact ⟨0, .inr ⟨a, a.take k, by simp, hp, List.take_prefix k a, by simp [emit_of_ne_nil hp]⟩⟩
    · rw [tokens_word_delim (fun b hb hl => hlf (by simpa [List.mem_singleton.mp hl] using hb)) hne
        (List.mem_singleton_self LF)]
      exact (ih (fun b hb => h b (List.mem_cons_of_mem a hb)) _).cons a

lemma tokens_take_argLines_of_le {args : List (List UInt8)} (h : ∀ a ∈ args, Storable a)
    {k : Nat} (hk : (argLines args).length ≤ k + 1) :
    tokens [LF] ((argLines args).take k) = args := by
  induction args generalizing k with
  | nil => simp
  | cons a args ih =>
    obtain ⟨hne, hlf⟩ := h a (List.mem_cons_self a args)
    have hword : ∀ b ∈ a, b ∉ [LF] := fun b hb hl => hlf (by simpa [List.mem_singleton.mp hl] using hb)
    have hlen : a.length + 1 + (argLines args).length ≤ k + 1 := by
      simp only [argLines_cons, List.length_append, List.length_cons] at hk
      omega
    rw [take_argLines_cons]
    split_ifs with hka
    · have hrest : args = [] := by
        cases args with
        | nil => rfl
        | cons b args => simp [argLines_cons] at hlen; omega
      rw [List.take_of_length_le (by omega), tokens_word hword, emit_of_ne_nil hne, hrest]
    · rw [tokens_word_delim hword hne (List.mem_singleton_self LF),
        ih (fun b hb => h b (List.mem_cons_of_mem a hb)) (by omega)]

lemma take_take_append {α : Type} (x y : List α) (n : Nat) : (x.take n ++ y).take n = (x ++ y).take n := by
  rcases le_total n x.length with h | h
  · rw [List.take_append_of_le_length (by simp [h]), List.take_take, min_self,
      List.take_append_of_le_length h]
  · rw [List.take_of_length_le h]

lemma cstr_writeArgs {recovery : List UInt8} (hr : recovery.length = 1024) (args : List CString) :
    cstr (writeArgs recovery args) = (encode (args.map CString.bytes)).take 1023 := by
  have step : ∀ (args : List CString) (r P : List UInt8), r.length = 1024 → cstr r = P.take 1023 →
      cstr (args.foldl (fun r a => strlcat (strlcat r a 1024) newline 1024) r) =
        (P ++ argLines (args.map CString.bytes)).take 1023 := by
    intro args
    induction args with
    | nil => exact fun r P _ hc => by simpa using hc
    | cons a args ih =>
      intro r P hr hc
      have h1 : cstr (strlcat r a 1024) = (P ++ a.bytes).take 1023 := by
        rw [cstr_strlcat hr (by rw [hc]; exact (List.length_take_le _ _).trans_lt (by decide)), hc,
          take_take_append]
      have h2 : cstr (strlcat (strlcat r a 1024) newline 1024) = (P ++ a.bytes ++ [LF]).take 1023 := by
        rw [cstr_strlcat (strlcat_length hr)
          (by rw [h1]; exact (List.length_take_le _ _).trans_lt (by decide)), h1, take_take_append]
        rfl
      simpa [argLines_cons] using ih _ _ (strlcat_length (strlcat_length hr)) h2
  exact step args _ _ (by rw [strlcpy_length (by decide) (by omega), hr]) (cstr_strlcpy (by decide))

lemma cstr_take_of_length_le {buf : List UInt8} {n : Nat} (h : (cstr buf).length ≤ n) :
    cstr (buf.take n) = cstr buf := by
  induction buf generalizing n with
  | nil => simp
  | cons b s ih =>
    by_cases hb : b = 0
    · subst hb
      cases n <;> simp
    · rw [cstr_cons b hb] at h ⊢
      obtain ⟨n, rfl⟩ : ∃ m, n = m + 1 := ⟨n - 1, by simp at h; omega⟩
      rw [List.take_succ_cons, cstr_cons b hb, ih (by simpa using h)]

lemma bootText_writeBack (boot : BootloaderMessage) (s : Stage) :
    bootText (writeBack boot s).recovery = (encode (s.argv.tail.map CString.bytes)).take 1023 := by
  have hc := cstr_writeArgs s.recovery_length s.argv.tail
  rw [bootText, writeBack, cstr_take_of_length_le (by rw [hc]; exact List.length_take_le _ _), hc]

lemma tokens_encode_take (args : List (List UInt8)) :
    tokens [LF] ((encode args).take 1023) =
      recoveryArg.bytes :: tokens [LF] ((argLines args).take 1014) := by
  rw [encode, List.take_append_eq_append_take, List.take_of_length_le (by decide),
    show recoveryLine.bytes = recoveryArg.bytes ++ [LF] from rfl, List.append_assoc,
    List.singleton_append, tokens_word_delim (by decide) (by decide) (List.mem_singleton_self LF)]
  rfl

lemma cstr_writeBack (boot : BootloaderMessage) (s : Stage) :
    cstr (writeBack boot s).recovery = (encode (s.argv.tail.map CString.bytes)).take 1023 :=
  cstr_writeArgs s.recovery_length _

lemma length_encode_take_tokens {text : List UInt8} {ts : List (List UInt8)}
    (h : tokens [LF] text = recoveryArg.bytes :: ts) (n : Nat) :
    (encode (ts.take n)).length ≤ text.length + 1 := by
  have hsplit := length_argLines_tokensFrom [LF] [] text
  rw [← tokens, h, argLines_cons] at hsplit
  have hpre : (argLines (ts.take n)).length ≤ (argLines ts).length := by
    have hts : argLines ts = argLines (ts.take n) ++ argLines (ts.drop n) := by
      rw [argLines, argLines, argLines, ← List.flatten_append, ← List.map_append,
        List.take_append_drop]
    rw [hts, List.length_append]
    omega
  simp only [encode, List.length_append, List.length_cons, List.length_nil] at hsplit ⊢
  have : recoveryLine.bytes.length = recoveryArg.bytes.length + 1 := rfl
  omega

lemma tail_fromBootMessage_of_recovery {s : Stage} {ts : List (List UInt8)}
    (h : tokens [LF] (bootText s.recovery) = recoveryArg.bytes :: ts) :
    (fromBootMessage s).argv.tail.map CString.bytes = ts.take (maxArgs - 1) := by
  rw [List.map_tail, fromBootMessage_of_recovery h, List.tail_cons]

lemma fromBootMessage_fits {s : Stage} {ts : List (List UInt8)}
    (h : tokens [LF] (bootText s.recovery) = recoveryArg.bytes :: ts) :
    (∀ a ∈ (fromBootMessage s).argv.tail, Storable a.bytes) ∧
      (fromBootMessage s).argv.tail.length ≤ maxArgs - 1 ∧
      (encode ((fromBootMessage s).argv.tail.map CString.bytes)).length ≤ 1024 := by
  have htail := tail_fromBootMessage_of_recovery h
  refine ⟨fun a ha => ?_, ?_, ?_⟩
  · have hmem : a.bytes ∈ ts := List.mem_of_mem_take (htail ▸ List.mem_map_of_mem _ ha)
    obtain ⟨hne, hlf⟩ := mem_tokens (show a.bytes ∈ tokens [LF] _ by rw [h]; exact .tail _ hmem)
    exact ⟨hne, fun h => hlf LF h (List.mem_singleton_self LF)⟩
  · rw [← List.length_map _ CString.bytes, htail]
    exact List.length_take_le _ _
  · rw [htail]
    exact (length_encode_take_tokens h _).trans
      (Nat.succ_le_succ ((length_cstr_le _).trans (List.length_take_le _ _)))

variable (boot : BootloaderMessage) (s : Stage) (argv : List CString)

lemma fromBootMessage_writeBack :
    (fromBootMessage (initialStage argv (writeBack boot s))).argv.map CString.bytes =
      recoveryArg.bytes ::
        (tokens [LF] ((argLines (s.argv.tail.map CString.bytes)).take 1014)).take (maxArgs - 1) :=
  fromBootMessage_of_recovery (by rw [initialStage, bootText_writeBack, tokens_encode_take])

lemma storable_bytes {args : List CString} (h : ∀ a ∈ args, Storable a.bytes) :
    ∀ a ∈ args.map CString.bytes, Storable a := by
  simpa using h

lemma fromBootMessage_writeBack_exact (hargs : ∀ a ∈ s.argv.tail, Storable a.bytes)
    (hn : s.argv.tail.length ≤ maxArgs - 1)
    (hlen : (encode (s.argv.tail.map CString.bytes)).length ≤ 1024) :
    (fromBootMessage (initialStage argv (writeBack boot s))).argv.map CString.bytes =
      recoveryArg.bytes :: s.argv.tail.map CString.bytes := by
  have hfit : (argLines (s.argv.tail.map CString.bytes)).length ≤ 1014 + 1 := by
    simp only [encode, List.length_append] at hlen
    exact Nat.le_of_add_le_add_left (hlen.trans (by decide))
  rw [fromBootMessage_writeBack, tokens_take_argLines_of_le (storable_bytes hargs) hfit,
    List.take_of_length_le (by simpa using hn)]

lemma getArgs_writeBack (hargs : ∀ a ∈ s.argv.tail, Storable a.bytes) (hn : 0 < s.argv.tail.length)
    (hn' : s.argv.tail.length ≤ maxArgs - 1)
    (hlen : (encode (s.argv.tail.map CString.bytes)).length ≤ 1024) (h : argv.length ≤ 1)
    (commandFile : Option (List UInt8)) :
    ∃ res, getArgs argv (writeBack boot s) commandFile = some res ∧ res.argv.tail = s.argv.tail := by
  have hmap := fromBootMessage_writeBack_exact boot s argv hargs hn' hlen
  have hlong : 1 < (fromBootMessage (initialStage argv (writeBack boot s))).argv.length := by
    have := congrArg List.length hmap
    simp only [List.length_map, List.length_cons] at this
    omega
  refine ⟨_, getArgs_of_boot h hlong commandFile, List.map_injective_iff.mpr (fun _ _ => CString.ext) ?_⟩
  simpa only [← List.map_tail, List.tail_cons] using congrArg List.tail hmap

theorem writeBack_read_back (hargs : ∀ a ∈ s.argv.tail, Storable a.bytes) :
    ∃ r, (fromBootMessage (initialStage argv (writeBack boot s))).argv.map CString.bytes =
        recoveryArg.bytes :: r ∧
      ReadBack (s.argv.tail.map CString.bytes) r ∧ r.length ≤ maxArgs - 1 ∧
      (s.argv.tail.length ≤ maxArgs - 1 → (encode (s.argv.tail.map CString.bytes)).length ≤ 1024 →
        r = s.argv.tail.map CString.bytes) := by
  refine ⟨_, fromBootMessage_writeBack boot s argv,
    (tokens_take_argLines (storable_bytes hargs) _).take _, List.length_take_le _ _, fun hn hlen => ?_⟩
  have h := fromBootMessage_writeBack_exact boot s argv hargs hn hlen
  rw [fromBootMessage_writeBack] at h
  exact (List.cons.inj h).2

theorem writeBack_read_back_wipe_data :
    (∀ a ∈ [(⟨ascii "--wipe_data", by decide⟩ : CString)], Storable a.bytes) ∧
      ∃ r, (fromBootMessage (initialStage []
          (writeBack .zero (initialStage [recoveryArg, ⟨ascii "--wipe_data", by decide⟩] .zero)))).argv.map
            CString.bytes = recoveryArg.bytes :: r ∧
        ReadBack [ascii "--wipe_data"] r ∧ r.length ≤ maxArgs - 1 ∧
        ([ascii "--wipe_data"].length ≤ maxArgs - 1 → (encode [ascii "--wipe_data"]).length ≤ 1024 →
          r = [ascii "--wipe_data"]) :=
  ⟨by decide, writeBack_read_back .zero (initialStage [recoveryArg, ⟨ascii "--wipe_data", by decide⟩] .zero)
    [] (by decide)⟩

def rearm (argv : List CString) (boot : BootloaderMessage) : BootloaderMessage :=
  writeBack boot (fromBootMessage (initialStage argv boot))

theorem rearm_stable :
    ((tokens [LF] (bootText boot.recovery)).head? ≠ some recoveryArg.bytes →
      (fromBootMessage (initialStage argv boot)).argv = argv) ∧
    ((tokens [LF] (bootText boot.recovery)).head? = some recoveryArg.bytes →
      (rearm argv boot).armed ∧
      cstr (rearm argv boot).recovery =
        (encode ((fromBootMessage (initialStage argv boot)).argv.tail.map CString.bytes)).take 1023 ∧
      ∀ argv' : List CString,
        (fromBootMessage (initialStage argv' (rearm argv boot))).argv =
          (fromBootMessage (initialStage argv boot)).argv ∧
        (rearm argv' (rearm argv boot)).armed ∧
        cstr (rearm argv' (rearm argv boot)).recovery = cstr (rearm argv boot).recovery) := by
  refine ⟨@fromBootMessage_of_not_recovery (initialStage argv boot), fun hhead =>
    ⟨writeBack_armed _ _, cstr_writeBack _ _, fun argv' => ?_⟩⟩
  set s₁ := fromBootMessage (initialStage argv boot)
  obtain ⟨ts, hts⟩ := List.head?_eq_some_iff.mp hhead
  obtain ⟨hstore, hn, hlen⟩ := @fromBootMessage_fits (initialStage argv boot) _ hts
  have hsame : (fromBootMessage (initialStage argv' (rearm argv boot))).argv = s₁.argv := by
    refine List.map_injective_iff.mpr (fun a b h => CString.ext h) ?_
    rw [rearm, fromBootMessage_writeBack_exact boot s₁ argv' hstore hn hlen,
      @tail_fromBootMessage_of_recovery (initialStage argv boot) _ hts,
      @fromBootMessage_of_recovery (initialStage argv boot) _ hts]
  exact ⟨hsame, writeBack_armed _ _, by rw [rearm, cstr_writeBack, hsame, rearm, cstr_writeBack]⟩

end BootableRecovery.Codec
