import Mathlib.Data.List.Basic

/-! The C library as `recovery.c` uses it: byte strings, `strtok`, `strlcpy`, `strlcat` and `fgets`. -/

namespace BootableRecovery.Libc

def ascii (s : String) : List UInt8 := s.toList.map fun c => c.toNat.toUInt8

def LF : UInt8 := 10

def CR : UInt8 := 13

@[ext] structure CString where
  bytes : List UInt8
  nul_free : 0 ∉ bytes
deriving DecidableEq

def cstr (buf : List UInt8) : List UInt8 := buf.takeWhile (· != 0)

lemma not_mem_cstr (buf : List UInt8) : 0 ∉ cstr buf := fun h => by
  simpa using List.mem_takeWhile_imp h

def CString.ofBuffer (buf : List UInt8) : CString := ⟨cstr buf, not_mem_cstr buf⟩

@[simp] lemma cstr_nil : cstr [] = [] := rfl

@[simp] lemma cstr_zero_cons (s : List UInt8) : cstr (0 :: s) = [] := by simp [cstr]

lemma cstr_cons (b : UInt8) (hb : b ≠ 0) (s : List UInt8) : cstr (b :: s) = b :: cstr s := by
  simp [cstr, hb]

lemma cstr_append (w s : List UInt8) (hw : 0 ∉ w) : cstr (w ++ s) = w ++ cstr s :=
  List.takeWhile_append_of_pos fun b hb => by simpa using ne_of_mem_of_not_mem hb hw

lemma cstr_of_nul_free (w : List UInt8) (hw : 0 ∉ w) : cstr w = w := by
  simpa using cstr_append w [] hw

lemma cstr_append_zero (w s : List UInt8) : cstr (w ++ 0 :: s) = cstr w := by
  induction w with
  | nil => simp
  | cons b w ih => by_cases hb : b = 0 <;> simp [cstr, hb] at ih ⊢; exact ih

def CString.drop (s : CString) (n : Nat) : CString :=
  ⟨s.bytes.drop n, fun h => s.nul_free (List.mem_of_mem_drop h)⟩

lemma CString.cstr_bytes (s : CString) : cstr s.bytes = s.bytes := cstr_of_nul_free _ s.nul_free

def CString.empty : CString := ⟨[], List.not_mem_nil 0⟩

def CString.append (a b : CString) : CString :=
  ⟨a.bytes ++ b.bytes, by simp [a.nul_free, b.nul_free]⟩

@[simp] lemma CString.append_bytes (a b : CString) : (a.append b).bytes = a.bytes ++ b.bytes := rfl

@[simp] lemma CString.append_empty (a : CString) : a.append .empty = a := by
  ext1
  simp [CString.empty]

section Tokens

variable (delim : List UInt8)

def emit (cur : List UInt8) (rest : List (List UInt8)) : List (List UInt8) :=
  if cur = [] then rest else cur :: rest

def tokensFrom : List UInt8 → List UInt8 → List (List UInt8)
  | cur, [] => emit cur []
  | cur, b :: s => if b ∈ delim then emit cur (tokensFrom [] s) else tokensFrom (cur ++ [b]) s

def tokens (s : List UInt8) : List (List UInt8) := tokensFrom delim [] s

variable {delim}

@[simp] lemma emit_nil (rest : List (List UInt8)) : emit [] rest = rest := if_pos rfl

lemma emit_of_ne_nil {cur : List UInt8} (h : cur ≠ []) (rest : List (List UInt8)) :
    emit cur rest = cur :: rest := if_neg h

@[simp] lemma tokens_nil : tokens delim [] = [] := rfl

lemma tokensFrom_delim {b : UInt8} (hb : b ∈ delim) (cur s : List UInt8) :
    tokensFrom delim cur (b :: s) = emit cur (tokens delim s) := if_pos hb

lemma tokensFrom_word {w : List UInt8} (hw : ∀ b ∈ w, b ∉ delim) (cur s : List UInt8) :
    tokensFrom delim cur (w ++ s) = tokensFrom delim (cur ++ w) s := by
  induction w generalizing cur with
  | nil => simp
  | cons b w ih =>
    simp only [List.cons_append, tokensFrom, if_neg (hw b (List.mem_cons_self b w))]
    simpa using ih (fun x hx => hw x (List.mem_cons_of_mem b hx)) (cur ++ [b])

lemma tokens_delims {w : List UInt8} (hw : ∀ b ∈ w, b ∈ delim) (s : List UInt8) :
    tokens delim (w ++ s) = tokens delim s := by
  induction w with
  | nil => rfl
  | cons b w ih =>
    simpa [tokens, tokensFrom_delim (hw b (List.mem_cons_self b w))] using
      ih fun x hx => hw x (List.mem_cons_of_mem b hx)

lemma tokens_word_delim {w : List UInt8} (hw : ∀ b ∈ w, b ∉ delim) (hne : w ≠ [])
    {b : UInt8} (hb : b ∈ delim) (s : List UInt8) :
    tokens delim (w ++ b :: s) = w :: tokens delim s := by
  rw [tokens, tokensFrom_word hw, List.nil_append, tokensFrom_delim hb, emit_of_ne_nil hne]

lemma tokens_word {w : List UInt8} (hw : ∀ b ∈ w, b ∉ delim) :
    tokens delim w = emit w [] := by
  simpa [tokens, tokensFrom] using tokensFrom_word hw [] []

lemma mem_emit {t cur : List UInt8} {rest : List (List UInt8)} :
    t ∈ emit cur rest ↔ (cur ≠ [] ∧ t = cur) ∨ t ∈ rest := by
  by_cases h : cur = [] <;> simp [emit, h]

lemma mem_tokensFrom {cur s t : List UInt8} (hcur : ∀ b ∈ cur, b ∉ delim)
    (ht : t ∈ tokensFrom delim cur s) : t ≠ [] ∧ ∀ b ∈ t, b ∉ delim := by
  induction s generalizing cur with
  | nil =>
    obtain ⟨hne, rfl⟩ | h := mem_emit.mp ht
    · exact ⟨hne, hcur⟩
    · simp at h
  | cons b s ih =>
    by_cases hb : b ∈ delim
    · rw [tokensFrom_delim hb] at ht
      obtain ⟨hne, rfl⟩ | h := mem_emit.mp ht
      · exact ⟨hne, hcur⟩
      · exact ih (by simp) h
    · rw [tokensFrom, if_neg hb] at ht
      exact ih (by simpa [or_imp, forall_and] using ⟨hcur, hb⟩) ht

lemma mem_tokens {s t : List UInt8} (ht : t ∈ tokens delim s) : t ≠ [] ∧ ∀ b ∈ t, b ∉ delim :=
  mem_tokensFrom (by simp) ht

end Tokens

structure Cursor where
  done : List UInt8
  rest : List UInt8

def Cursor.buffer (c : Cursor) : List UInt8 := c.done ++ c.rest

def isTokenByte (delim : List UInt8) (b : UInt8) : Bool := b != 0 && !decide (b ∈ delim)

def tokenAt (delim start : List UInt8) : CString :=
  ⟨start.takeWhile (isTokenByte delim), fun h => by
    simpa [isTokenByte] using List.mem_takeWhile_imp h⟩

def strtokFrom (delim done start : List UInt8) : Option CString × Cursor :=
  let tok := tokenAt delim start
  if tok.bytes = [] then (none, ⟨done, start⟩) else
  match start.dropWhile (isTokenByte delim) with
  | b :: after =>
    if b = 0 then (some tok, ⟨done ++ tok.bytes, b :: after⟩)
    else (some tok, ⟨done ++ tok.bytes ++ [0], after⟩)
  | [] => (some tok, ⟨done ++ tok.bytes, []⟩)

def strtok (delim : List UInt8) (c : Cursor) : Option CString × Cursor :=
  strtokFrom delim (c.done ++ c.rest.takeWhile (· ∈ delim)) (c.rest.dropWhile (· ∈ delim))

section Strtok

variable {delim : List UInt8}

lemma tokenAt_mem {start : List UInt8} {b : UInt8} (hb : b ∈ (tokenAt delim start).bytes) :
    b ≠ 0 ∧ b ∉ delim := by
  simpa [isTokenByte] using List.mem_takeWhile_imp hb

lemma cstr_start (start : List UInt8) :
    cstr start = (tokenAt delim start).bytes ++ cstr (start.dropWhile (isTokenByte delim)) := by
  conv_lhs => rw [← List.takeWhile_append_dropWhile (isTokenByte delim) start]
  exact cstr_append _ _ fun h => (tokenAt_mem h).1 rfl

lemma head_after_token {start after : List UInt8} {b : UInt8}
    (h : start.dropWhile (isTokenByte delim) = b :: after) : b = 0 ∨ b ∈ delim := by
  have := List.head_dropWhile_not (isTokenByte delim) start (by simp [h])
  simp only [h, List.head_cons, isTokenByte, Bool.and_eq_false_iff, bne_eq_false_iff_eq,
    Bool.not_eq_false', decide_eq_true_eq] at this
  exact this

lemma strtokFrom_spec (done start : List UInt8)
    (hstart : ∀ h : start ≠ [], start.head h ∉ delim) :
    (strtokFrom delim done start).1.map CString.bytes = (tokens delim (cstr start)).head? ∧
    tokens delim (cstr (strtokFrom delim done start).2.rest) = (tokens delim (cstr start)).tail ∧
    (strtokFrom delim done start).2.buffer.length = done.length + start.length := by
  have hword : ∀ b ∈ (tokenAt delim start).bytes, b ∉ delim := fun b hb => (tokenAt_mem hb).2
  have hsplit := List.takeWhile_append_dropWhile (isTokenByte delim) start
  dsimp only [strtokFrom]
  split_ifs with hnil
  · have hc : cstr start = [] := by
      cases start with
      | nil => rfl
      | cons b s =>
        have htw : (b :: s).takeWhile (isTokenByte delim) = [] := hnil
        rw [htw, List.nil_append] at hsplit
        have hb := head_after_token hsplit
        rw [hb.resolve_right (hstart (List.cons_ne_nil b s)), cstr_zero_cons]
    simp [hc, Cursor.buffer]
  · rw [@cstr_start delim start]
    split
    · next b after hafter =>
      have hlen : (tokenAt delim start).bytes.length + (after.length + 1) = start.length := by
        simpa [hafter] using congrArg List.length hsplit
      rw [hafter]
      split_ifs with hb
      · subst hb
        simp [tokens_word hword, emit_of_ne_nil hnil, Cursor.buffer]
        omega
      · rw [cstr_cons b hb, tokens_word_delim hword hnil ((head_after_token hafter).resolve_left hb)]
        simp [Cursor.buffer]
        omega
    · next hafter =>
      have hlen : (tokenAt delim start).bytes.length = start.length := by
        simpa [hafter] using congrArg List.length hsplit
      rw [hafter]
      simp [tokens_word hword, emit_of_ne_nil hnil, Cursor.buffer]
      omega

lemma head_dropWhile_delim (rest : List UInt8) :
    ∀ h : rest.dropWhile (· ∈ delim) ≠ [], (rest.dropWhile (· ∈ delim)).head h ∉ delim :=
  fun h => by simpa using List.head_dropWhile_not (· ∈ delim) rest h

lemma strtok_length (c : Cursor) : (strtok delim c).2.buffer.length = c.buffer.length := by
  rw [strtok, (strtokFrom_spec _ _ (head_dropWhile_delim c.rest)).2.2, Cursor.buffer,
    List.length_append, List.length_append, Nat.add_assoc, ← List.length_append,
    List.takeWhile_append_dropWhile]

lemma strtok_spec (h0 : (0 : UInt8) ∉ delim) (c : Cursor) :
    (strtok delim c).1.map CString.bytes = (tokens delim (cstr c.rest)).head? ∧
    tokens delim (cstr (strtok delim c).2.rest) = (tokens delim (cstr c.rest)).tail := by
  have hskip : ∀ b ∈ c.rest.takeWhile (· ∈ delim), b ∈ delim := fun b hb => by
    simpa using List.mem_takeWhile_imp hb
  have hview : tokens delim (cstr c.rest) = tokens delim (cstr (c.rest.dropWhile (· ∈ delim))) := by
    conv_lhs => rw [← List.takeWhile_append_dropWhile (· ∈ delim) c.rest]
    rw [cstr_append _ _ fun h => h0 (hskip 0 h), tokens_delims hskip]
  obtain ⟨h1, h2, -⟩ := strtokFrom_spec (c.done ++ c.rest.takeWhile (· ∈ delim)) _
    (head_dropWhile_delim c.rest)
  exact ⟨by rw [hview]; exact h1, by rw [hview]; exact h2⟩

end Strtok

section Strlcpy

def strlcpy (dst : List UInt8) (src : CString) (size : Nat) : List UInt8 :=
  if size = 0 then dst else
  let s := src.bytes.take (size - 1)
  s ++ 0 :: dst.drop (s.length + 1)

def strlcat (dst : List UInt8) (src : CString) (size : Nat) : List UInt8 :=
  let d := cstr (dst.take size)
  if d.length < size then d ++ strlcpy (dst.drop d.length) src (size - d.length) else dst

variable {dst : List UInt8} {src : CString} {size : Nat}

lemma length_cstr_le (buf : List UInt8) : (cstr buf).length ≤ buf.length :=
  List.IsPrefix.length_le <| List.takeWhile_prefix _

lemma strlcpy_length (hs : 0 < size) (h : size ≤ dst.length) :
    (strlcpy dst src size).length = dst.length := by
  have : (src.bytes.take (size - 1)).length ≤ size - 1 := List.length_take_le _ _
  simp only [strlcpy, if_neg hs.ne', List.length_append, List.length_cons, List.length_drop]
  omega

lemma cstr_strlcpy (hs : 0 < size) : cstr (strlcpy dst src size) = src.bytes.take (size - 1) := by
  rw [strlcpy, if_neg hs.ne', cstr_append _ _ fun h => src.nul_free (List.mem_of_mem_take h),
    cstr_zero_cons, List.append_nil]

lemma strlcat_length (h : dst.length = size) : (strlcat dst src size).length = size := by
  have hd := length_cstr_le (dst.take size)
  simp only [strlcat]
  split_ifs with hlt
  · rw [List.length_append, strlcpy_length (by omega) (by simp; omega)]
    simp
    omega
  · exact h

lemma cstr_strlcat (h : dst.length = size) (hd : (cstr dst).length < size) :
    cstr (strlcat dst src size) = (cstr dst ++ src.bytes).take (size - 1) := by
  subst h
  have htake : dst.take dst.length = dst := List.take_of_length_le le_rfl
  have hpos : 0 < dst.length - (cstr dst).length := by omega
  simp only [strlcat, htake, if_pos hd]
  rw [cstr_append _ _ (not_mem_cstr dst), cstr_strlcpy hpos, List.take_append_eq_append_take,
    List.take_of_length_le (show (cstr dst).length ≤ dst.length - 1 by omega)]
  congr 2
  omega

end Strlcpy

section Fgets

def fgetsLine : Nat → List UInt8 → List UInt8
  | 0, _ => []
  | _, [] => []
  | n + 1, b :: s => if b = LF then [b] else b :: fgetsLine n s

def fgets (size : Nat) (f : List UInt8) : Option (List UInt8 × List UInt8) :=
  if f = [] then none else
  let line := fgetsLine (size - 1) f
  some (line, f.drop line.length)

lemma fgetsLine_append_drop (n : Nat) (f : List UInt8) :
    fgetsLine n f ++ f.drop (fgetsLine n f).length = f := by
  induction n generalizing f with
  | zero => simp [fgetsLine]
  | succ n ih =>
    cases f with
    | nil => simp [fgetsLine]
    | cons b s =>
      simp only [fgetsLine]
      split_ifs
      · simp
      · simpa using ih s

lemma fgetsLine_ne_nil {n : Nat} {f : List UInt8} (hn : 0 < n) (hf : f ≠ []) :
    fgetsLine n f ≠ [] := by
  obtain ⟨n, rfl⟩ := Nat.exists_eq_add_of_lt hn
  obtain ⟨b, s, rfl⟩ := List.exists_cons_of_ne_nil hf
  simp only [Nat.zero_add, fgetsLine]
  split_ifs <;> simp

end Fgets

end BootableRecovery.Libc
