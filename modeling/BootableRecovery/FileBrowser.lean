import BootableRecovery.Libc

/-! The string helpers of the file browser and `file_option_text`. -/

namespace BootableRecovery.FileBrowser

open Libc

def strcmpBytes : List UInt8 → List UInt8 → Int
  | [], [] => 0
  | [], b :: _ => -b.toNat
  | a :: _, [] => a.toNat
  | a :: s, b :: t => if a = b then strcmpBytes s t else a.toNat - b.toNat

def strcmp (a : Option CString) (b : CString) : Option Int :=
  a.map fun a => strcmpBytes a.bytes b.bytes

def strndup (s : CString) (n : Nat) : CString :=
  ⟨s.bytes.take n, fun h => s.nul_free (List.mem_of_mem_take h)⟩

def strn (s : CString) (n : Nat) : Option CString := if n = 0 then none else some (strndup s n)

def strnr (s : CString) (n : Nat) : Option CString :=
  if n = 0 then none else some (strndup (s.drop n) s.bytes.length)

def endsWith (s k : CString) : Option Bool :=
  if k.bytes.length = 0 then some true
  else if k.bytes.length > s.bytes.length then some false
  else (strcmp (strnr s (s.bytes.length - k.bytes.length)) k).map (· = 0)

def startsWith (s k : CString) : Option Bool :=
  if k.bytes.length = 0 then some true
  else if k.bytes.length > s.bytes.length then some false
  else (strcmp (strn s k.bytes.length) k).map (· = 0)

lemma strcmpBytes_eq_zero_iff {a b : List UInt8} (ha : 0 ∉ a) (hb : 0 ∉ b) :
    strcmpBytes a b = 0 ↔ a = b := by
  induction a generalizing b with
  | nil =>
    cases b with
    | nil => simp [strcmpBytes]
    | cons c t =>
      have hc : c.toNat ≠ 0 := fun h => hb (by rw [show c = 0 from UInt8.toNat.inj h]; simp)
      simp [strcmpBytes]
      omega
  | cons c s ih =>
    cases b with
    | nil =>
      have hc : c.toNat ≠ 0 := fun h => ha (by rw [show c = 0 from UInt8.toNat.inj h]; simp)
      simp [strcmpBytes]
      omega
    | cons d t =>
      by_cases hcd : c = d
      · simp [strcmpBytes, hcd, ih (fun h => ha (.tail _ h)) (fun h => hb (.tail _ h))]
      · have : c.toNat ≠ d.toNat := fun h => hcd (UInt8.toNat.inj h)
        have hne : (c.toNat : Int) - d.toNat ≠ 0 := by omega
        simp [strcmpBytes, hcd, hne]

lemma strcmpBytes_swap (a b : List UInt8) : strcmpBytes b a = -strcmpBytes a b := by
  induction a generalizing b with
  | nil => cases b <;> simp [strcmpBytes]
  | cons c s ih =>
    cases b with
    | nil => simp [strcmpBytes]
    | cons d t =>
      by_cases hcd : c = d
      · simp [strcmpBytes, hcd, ih]
      · simp only [strcmpBytes, hcd, Ne.symm hcd, if_false]
        omega

lemma toNat_pos_of_not_mem {c : UInt8} {s : List UInt8} (h : 0 ∉ c :: s) : 0 < c.toNat :=
  Nat.pos_of_ne_zero fun hc => h (by rw [show c = 0 from UInt8.toNat.inj hc]; simp)

lemma strcmpBytes_trans {a b c : List UInt8} (ha : 0 ∉ a) (hb : 0 ∉ b)
    (hab : strcmpBytes a b ≤ 0) (hbc : strcmpBytes b c ≤ 0) : strcmpBytes a c ≤ 0 := by
  induction a generalizing b c with
  | nil => cases c <;> simp only [strcmpBytes] <;> omega
  | cons x a ih =>
    have hx := toNat_pos_of_not_mem ha
    rcases b with _ | ⟨y, b⟩
    · simp only [strcmpBytes] at hab; omega
    have hy := toNat_pos_of_not_mem hb
    rcases c with _ | ⟨z, c⟩
    · simp only [strcmpBytes] at hbc; omega
    have e {u v : UInt8} : u = v ↔ u.toNat = v.toNat := ⟨congrArg _, UInt8.toNat.inj⟩
    simp only [strcmpBytes, e] at hab hbc ⊢
    split_ifs at hab hbc ⊢
    · exact ih (fun h => ha (.tail _ h)) (fun h => hb (.tail _ h)) hab hbc
    all_goals omega

lemma strcmp_some (a b : CString) : strcmp (some a) b = some (strcmpBytes a.bytes b.bytes) := rfl

lemma startsWith_spec (s k : CString) : startsWith s k = some (decide (k.bytes <+: s.bytes)) := by
  unfold startsWith
  split_ifs with h0 hlt
  · simp [List.length_eq_zero.mp h0]
  · have : ¬ k.bytes <+: s.bytes := fun hp => absurd hp.length_le (by omega)
    simp [this]
  · simp only [strn, if_neg h0, strcmp_some, Option.map_some', strndup, Option.some.injEq,
      decide_eq_decide]
    rw [strcmpBytes_eq_zero_iff (fun h => s.nul_free (List.mem_of_mem_take h)) k.nul_free,
      List.prefix_iff_eq_take, eq_comm]

lemma endsWith_spec (s k : CString) (h : k.bytes.length ≠ s.bytes.length ∨ k.bytes = []) :
    endsWith s k = some (decide (k.bytes <:+ s.bytes)) := by
  unfold endsWith
  split_ifs with h0 hlt
  · simp [List.length_eq_zero.mp h0]
  · have : ¬ k.bytes <:+ s.bytes := fun hp => absurd hp.length_le (by omega)
    simp [this]
  · have hn : s.bytes.length - k.bytes.length ≠ 0 := by
      rcases h with h | h
      · omega
      · simp [h] at h0
    simp only [strnr, if_neg hn, strcmp_some, Option.map_some', strndup, CString.drop,
      Option.some.injEq, decide_eq_decide]
    rw [List.take_of_length_le (by simp),
      strcmpBytes_eq_zero_iff (fun h => s.nul_free (List.mem_of_mem_drop h)) k.nul_free,
      List.suffix_iff_eq_drop, eq_comm]

lemma endsWith_same_length (s k : CString) (h : k.bytes.length = s.bytes.length)
    (hk : k.bytes ≠ []) : endsWith s k = none := by
  have h0 : k.bytes.length ≠ 0 := fun h => hk (List.length_eq_zero.mp h)
  have hs : s.bytes ≠ [] := fun hs => h0 (by rw [h, hs]; rfl)
  simp [endsWith, h0, h, hs, strnr, strcmp]

lemma suffix_of_endsWith {s k : CString} (h : endsWith s k = some true) : k.bytes <:+ s.bytes := by
  by_cases hl : k.bytes.length = s.bytes.length ∧ k.bytes ≠ []
  · rw [endsWith_same_length s k hl.1 hl.2] at h
    cases h
  · rw [endsWith_spec s k (by tauto)] at h
    simpa using h

lemma endsWith_ne_of_slash {s k : CString} (h : [47] <:+ s.bytes) (hk : ¬ [47] <:+ k.bytes)
    (hk' : ¬ k.bytes <:+ [47]) : endsWith s k ≠ some true := fun he =>
  (List.suffix_or_suffix_of_suffix h (suffix_of_endsWith he)).elim hk hk'

def fileOptionText (file : CString) : Option String := do
  if (← endsWith file ⟨ascii "/", by decide⟩) then return "No associated action"
  if (← endsWith file ⟨ascii ".zip", by decide⟩) then return "Apply zip"
  else if (← endsWith file ⟨ascii ".tar", by decide⟩) then
    if (← startsWith file ⟨ascii "system", by decide⟩) then return "Restore system backup"
    else if (← startsWith file ⟨ascii "data", by decide⟩) then return "Restore data backup"
    else if (← startsWith file ⟨ascii "full", by decide⟩) then return "Restore full backup"
    else return "No associated action"
  else if (← endsWith file ⟨ascii ".rfs", by decide⟩) then return "Flash recovery kernel"
  else if (← endsWith file ⟨ascii ".png", by decide⟩) then return "Flash boot logo"
  else if (← endsWith file ⟨ascii "zImage", by decide⟩) && file.bytes.length = 6 then
    return "Flash kernel image"
  else return "No associated action"

theorem fileOptionText_zImage : fileOptionText ⟨ascii "zImage", by decide⟩ = none := by decide

end BootableRecovery.FileBrowser
