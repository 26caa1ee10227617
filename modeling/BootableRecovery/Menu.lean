import Mathlib.Data.List.Basic

/-! `get_menu_selection` and `confirm_key`; the key codes and the UI are parameters. -/

namespace BootableRecovery.Menu

structure KeyCodes where
  up : Int
  volumeUp : Int
  down : Int
  volumeDown : Int
  menu : Int
  center : Int
  back : Int
  home : Int
  distinct : [up, volumeUp, down, volumeDown, menu, center, back].Nodup
  back_pos : 0 < back

structure MenuUi (σ : Type) where
  start : σ
  select : Nat → σ → Int → σ × Int
  offset : Nat → σ → Int

structure Selection where
  chosen : Int
  deletion : Bool
  keys : List Int
deriving DecidableEq

variable {σ : Type} (k : KeyCodes) (ui : MenuUi σ) (n : Nat)

def selectionLoop : σ → Int → Int → Bool → List Int → Option Selection
  | s, selected, chosen, deletion, keys =>
    if 0 ≤ chosen then some ⟨chosen, deletion, keys⟩
    else match keys with
      | [] => none
      | key :: rest =>
        if key = k.up ∨ key = k.volumeUp then
          let r := ui.select n s (selected - 1)
          selectionLoop r.1 r.2 chosen deletion rest
        else if key = k.down ∨ key = k.volumeDown then
          let r := ui.select n s (selected + 1)
          selectionLoop r.1 r.2 chosen deletion rest
        else if key = k.menu then selectionLoop s selected (selected + ui.offset n s) true rest
        else if key = k.center then
          selectionLoop s selected (selected + ui.offset n s) deletion rest
        else if key = k.back then selectionLoop s selected k.back deletion rest
        else selectionLoop s selected chosen deletion rest

def getMenuSelection (deletion : Bool) (keys : List Int) : Option Selection :=
  selectionLoop k ui n ui.start 0 (-1) deletion keys

def confirmKey : List Int → Option (Bool × List Int)
  | [] => none
  | key :: rest => some (decide (key = k.home), rest)

def MenuUi.Highlights : Prop :=
  ui.offset n ui.start = 0 ∧ ∀ s sel, 0 ≤ sel + ui.offset n s → sel + ui.offset n s < n →
    (ui.select n s sel).2 + ui.offset n (ui.select n s sel).1 = sel + ui.offset n s

def MenuUi.Keeps : Prop :=
  ui.offset n ui.start = 0 ∧ ∀ s sel, 0 ≤ (ui.select n s sel).2 + ui.offset n (ui.select n s sel).1 ∧
    (ui.select n s sel).2 + ui.offset n (ui.select n s sel).1 < n

lemma KeyCodes.down_ne : k.down ≠ k.up ∧ k.down ≠ k.volumeUp := by
  have h := k.distinct
  exact ⟨fun e => by simp [e] at h, fun e => by simp [e] at h⟩

lemma KeyCodes.center_ne : k.center ≠ k.up ∧ k.center ≠ k.volumeUp ∧ k.center ≠ k.down ∧
    k.center ≠ k.volumeDown ∧ k.center ≠ k.menu := by
  have h := k.distinct
  refine ⟨?_, ?_, ?_, ?_, ?_⟩ <;> intro e <;> simp [e] at h

lemma KeyCodes.menu_ne : k.menu ≠ k.up ∧ k.menu ≠ k.volumeUp ∧ k.menu ≠ k.down ∧
    k.menu ≠ k.volumeDown := by
  have h := k.distinct
  rw [List.Nodup, List.pairwise_cons, List.pairwise_cons, List.pairwise_cons, List.pairwise_cons] at h
  exact ⟨(h.1 _ (by simp)).symm, (h.2.1 _ (by simp)).symm, (h.2.2.1 _ (by simp)).symm,
    (h.2.2.2.1 _ (by simp)).symm⟩

variable {k ui n}

lemma selectionLoop_of_nonneg {s : σ} {selected chosen : Int} (h : 0 ≤ chosen) (deletion : Bool)
    (keys : List Int) : selectionLoop k ui n s selected chosen deletion keys = some ⟨chosen, deletion, keys⟩ := by
  rw [selectionLoop.eq_def]
  exact if_pos h

lemma selectionLoop_step {s : σ} {selected chosen : Int} (h0 : ¬0 ≤ chosen) (deletion : Bool)
    (key : Int) (rest : List Int) : ∃ s' selected' chosen',
      selectionLoop k ui n s selected chosen deletion (key :: rest) =
        selectionLoop k ui n s' selected' chosen' (deletion || decide (key = k.menu)) rest := by
  have hm := k.menu_ne
  rw [selectionLoop, if_neg h0]
  dsimp only
  by_cases hu : key = k.up ∨ key = k.volumeUp
  · have hne : key ≠ k.menu := by rintro rfl; exact hu.elim hm.1 hm.2.1
    rw [if_pos hu, decide_eq_false hne, Bool.or_false]
    exact ⟨_, _, _, rfl⟩
  rw [if_neg hu]
  by_cases hd : key = k.down ∨ key = k.volumeDown
  · have hne : key ≠ k.menu := by rintro rfl; exact hd.elim hm.2.2.1 hm.2.2.2
    rw [if_pos hd, decide_eq_false hne, Bool.or_false]
    exact ⟨_, _, _, rfl⟩
  rw [if_neg hd]
  by_cases he : key = k.menu
  · rw [if_pos he, decide_eq_true he, Bool.or_true]
    exact ⟨_, _, _, rfl⟩
  rw [if_neg he, decide_eq_false he, Bool.or_false]
  split_ifs <;> exact ⟨_, _, _, rfl⟩

lemma selectionLoop_nonneg {s : σ} {selected chosen : Int} {deletion : Bool} {keys : List Int}
    {sel : Selection} (h : selectionLoop k ui n s selected chosen deletion keys = some sel) :
    0 ≤ sel.chosen := by
  induction keys generalizing s selected chosen deletion with
  | nil =>
    by_cases h0 : 0 ≤ chosen
    · rw [selectionLoop_of_nonneg h0] at h
      cases h
      exact h0
    · rw [selectionLoop, if_neg h0] at h
      cases h
  | cons key rest ih =>
    by_cases h0 : 0 ≤ chosen
    · rw [selectionLoop_of_nonneg h0] at h
      cases h
      exact h0
    obtain ⟨_, _, _, e⟩ := selectionLoop_step h0 deletion key rest
    exact ih (e ▸ h)

lemma getMenuSelection_nonneg {deletion : Bool} {keys : List Int} {sel : Selection}
    (h : getMenuSelection k ui n deletion keys = some sel) : 0 ≤ sel.chosen :=
  selectionLoop_nonneg h

lemma selectionLoop_down {s : σ} {sel : Int} (hui : ui.Highlights n) (h0 : 0 ≤ sel + ui.offset n s)
    (hlt : sel + ui.offset n s + 1 < n) (deletion : Bool) (rest : List Int) :
    ∃ s' sel', sel' + ui.offset n s' = sel + ui.offset n s + 1 ∧
      selectionLoop k ui n s sel (-1) deletion (k.down :: rest) =
        selectionLoop k ui n s' sel' (-1) deletion rest := by
  refine ⟨(ui.select n s (sel + 1)).1, (ui.select n s (sel + 1)).2, ?_, ?_⟩
  · rw [hui.2 s (sel + 1) (by omega) (by omega)]
    omega
  · rw [selectionLoop, if_neg (by omega), if_neg (by simp [k.down_ne]), if_pos (.inl rfl)]

lemma getMenuSelection_center (hui : ui.Highlights n) (deletion : Bool) (rest : List Int) :
    getMenuSelection k ui n deletion (k.center :: rest) = some ⟨0, deletion, rest⟩ := by
  have hc := k.center_ne
  rw [getMenuSelection, selectionLoop, if_neg (by omega), if_neg (by simp [hc]),
    if_neg (by simp [hc]), if_neg hc.2.2.2.2, if_pos rfl, hui.1, Int.add_zero, selectionLoop_of_nonneg (Int.le_refl 0)]

lemma selectionLoop_downs (hui : ui.Highlights n) (deletion : Bool) (rest : List Int) (i : Nat)
    (s : σ) (sel : Int) (h0 : 0 ≤ sel + ui.offset n s)
    (hlt : sel + ui.offset n s + i < n) :
    ∃ s' sel', sel' + ui.offset n s' = sel + ui.offset n s + i ∧
      selectionLoop k ui n s sel (-1) deletion (List.replicate i k.down ++ rest) =
        selectionLoop k ui n s' sel' (-1) deletion rest := by
  induction i generalizing s sel with
  | zero => exact ⟨s, sel, by simp, rfl⟩
  | succ i ih =>
    obtain ⟨s₁, sel₁, h₁, e₁⟩ := selectionLoop_down hui h0 (by omega) deletion
      (List.replicate i k.down ++ rest)
    obtain ⟨s₂, sel₂, h₂, e₂⟩ := ih s₁ sel₁ (by omega) (by push_cast at hlt; omega)
    refine ⟨s₂, sel₂, by push_cast; omega, ?_⟩
    rw [List.replicate_succ, List.cons_append, e₁, e₂]

lemma getMenuSelection_back_collision (hui : ui.Highlights n) (hn : k.back < n)
    (deletion : Bool) (rest : List Int) :
    getMenuSelection k ui n deletion (List.replicate k.back.toNat k.down ++ k.center :: rest) =
      some ⟨k.back, deletion, rest⟩ := by
  have hb := k.back_pos
  obtain ⟨s, sel, hpos, e⟩ := selectionLoop_downs (k := k) hui deletion (k.center :: rest)
    k.back.toNat ui.start 0 (by rw [hui.1]; omega) (by rw [hui.1]; omega)
  have hsel : sel + ui.offset n s = k.back := by rw [hpos, hui.1]; omega
  have hc := k.center_ne
  rw [getMenuSelection, e, selectionLoop, if_neg (by omega), if_neg (by simp [hc]),
    if_neg (by simp [hc]), if_neg hc.2.2.2.2, if_pos rfl, hsel, selectionLoop_of_nonneg (Int.le_of_lt hb)]

lemma selectionLoop_range (hui : ui.Keeps n) {s : σ} {selected chosen : Int} {deletion : Bool}
    {keys : List Int} {sel : Selection}
    (hs : 0 ≤ selected + ui.offset n s ∧ selected + ui.offset n s < n)
    (hc : chosen < 0 ∨ chosen = k.back ∨ 0 ≤ chosen ∧ chosen < n)
    (h : selectionLoop k ui n s selected chosen deletion keys = some sel) :
    sel.chosen = k.back ∨ 0 ≤ sel.chosen ∧ sel.chosen < n := by
  induction keys generalizing s selected chosen deletion with
  | nil =>
    by_cases h0 : 0 ≤ chosen
    · rw [selectionLoop_of_nonneg h0] at h
      cases h
      exact hc.resolve_left (by omega)
    · rw [selectionLoop, if_neg h0] at h
      cases h
  | cons key rest ih =>
    by_cases h0 : 0 ≤ chosen
    · rw [selectionLoop_of_nonneg h0] at h
      cases h
      exact hc.resolve_left (by omega)
    rw [selectionLoop, if_neg h0] at h
    dsimp only at h
    rcases ite_eq_iff.mp h with ⟨-, h⟩ | ⟨-, h⟩
    · exact ih (hui.2 _ _) hc h
    rcases ite_eq_iff.mp h with ⟨-, h⟩ | ⟨-, h⟩
    · exact ih (hui.2 _ _) hc h
    rcases ite_eq_iff.mp h with ⟨-, h⟩ | ⟨-, h⟩
    · exact ih hs (.inr (.inr hs)) h
    rcases ite_eq_iff.mp h with ⟨-, h⟩ | ⟨-, h⟩
    · exact ih hs (.inr (.inr hs)) h
    rcases ite_eq_iff.mp h with ⟨-, h⟩ | ⟨-, h⟩
    · exact ih hs (.inr (.inl rfl)) h
    · exact ih hs hc h

lemma getMenuSelection_range (hui : ui.Keeps n) (hn : 0 < n) {deletion : Bool} {keys : List Int}
    {sel : Selection} (h : getMenuSelection k ui n deletion keys = some sel) :
    sel.chosen = k.back ∨ 0 ≤ sel.chosen ∧ sel.chosen < n :=
  selectionLoop_range hui (by rw [hui.1]; omega) (.inl (by decide)) h

def clampUi : MenuUi Unit := ⟨(), fun n _ sel => ((), max 0 (min sel (n - 1))), fun _ _ => 0⟩

lemma clampUi_highlights (n : Nat) : clampUi.Highlights n :=
  ⟨rfl, fun _ sel h0 hlt => by simp only [clampUi] at h0 hlt ⊢; omega⟩

lemma clampUi_keeps {n : Nat} (hn : 0 < n) : clampUi.Keeps n :=
  ⟨rfl, fun _ sel => by simp only [clampUi]; omega⟩

def inputKeys : KeyCodes := ⟨103, 115, 108, 114, 139, 232, 158, 102, by decide, by decide⟩

end BootableRecovery.Menu
