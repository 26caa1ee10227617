import BootableRecovery.Libc

/-! The word splitting `sh -c` applies to the commands of the file browser. -/

namespace BootableRecovery.Shell

open Libc

inductive Quoting
  | unquoted
  | unquotedEscape
  | single
  | double
  | doubleEscape

def special (b : UInt8) : Bool := decide (b ∈ ascii "|&;<>()$`*?[\n")

def splitWords : Quoting → Option (List UInt8) → List UInt8 → Option (List (List UInt8))
  | .unquoted, cur, [] => some cur.toList
  | .unquoted, cur, b :: s =>
    if b = 32 ∨ b = 9 then (cur.toList ++ ·) <$> splitWords .unquoted none s
    else if b = 39 then splitWords .single (some (cur.getD [])) s
    else if b = 34 then splitWords .double (some (cur.getD [])) s
    else if b = 92 then splitWords .unquotedEscape cur s
    else if special b ∨ (cur = none ∧ (b = 35 ∨ b = 126)) then none
    else splitWords .unquoted (some (cur.getD [] ++ [b])) s
  | .unquotedEscape, cur, [] => some [cur.getD [] ++ [92]]
  | .unquotedEscape, cur, c :: s =>
    splitWords .unquoted (if c = LF then cur else some (cur.getD [] ++ [c])) s
  | .single, _, [] => none
  | .single, cur, b :: s =>
    if b = 39 then splitWords .unquoted cur s else splitWords .single (cur.map (· ++ [b])) s
  | .double, _, [] => none
  | .double, cur, b :: s =>
    if b = 34 then splitWords .unquoted cur s
    else if b = 36 ∨ b = 96 then none
    else if b = 92 then splitWords .doubleEscape cur s
    else splitWords .double (cur.map (· ++ [b])) s
  | .doubleEscape, _, [] => none
  | .doubleEscape, cur, c :: s =>
    if c = 36 ∨ c = 96 ∨ c = 34 ∨ c = 92 then splitWords .double (cur.map (· ++ [c])) s
    else if c = LF then splitWords .double cur s
    else splitWords .double (cur.map (· ++ [92, c])) s

def shellWords (cmd : List UInt8) : Option (List (List UInt8)) := splitWords .unquoted none cmd

def Plain (b : UInt8) : Prop := b ≠ 32 ∧ b ≠ 9 ∧ b ≠ 39 ∧ b ≠ 34 ∧ b ≠ 92 ∧ special b = false

instance : DecidablePred Plain := fun b =>
  inferInstanceAs (Decidable (b ≠ 32 ∧ b ≠ 9 ∧ b ≠ 39 ∧ b ≠ 34 ∧ b ≠ 92 ∧ special b = false))

lemma splitWords_plain {w : List UInt8} (hw : ∀ b ∈ w, Plain b) (cur : List UInt8)
    (s : List UInt8) :
    splitWords .unquoted (some cur) (w ++ s) = splitWords .unquoted (some (cur ++ w)) s := by
  induction w generalizing cur with
  | nil => simp
  | cons b w ih =>
    obtain ⟨h1, h2, h3, h4, h5, h6⟩ := hw b (List.mem_cons_self b w)
    simp only [List.cons_append, splitWords, h1, h2, h3, h4, h5, h6, or_self, if_false,
      Option.getD_some, Bool.false_eq_true, reduceCtorEq, false_and]
    simpa using ih (fun x hx => hw x (List.mem_cons_of_mem b hx)) (cur ++ [b])

end BootableRecovery.Shell
