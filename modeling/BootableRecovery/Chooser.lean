import Mathlib.Data.List.Sort
import BootableRecovery.FileBrowser
import BootableRecovery.Menu

/-! `choose_file_menu`: the loop that counts, the loop that fills, and the sort. -/

namespace BootableRecovery.Chooser

open Libc FileBrowser Menu

def dot : UInt8 := 46

def slash : UInt8 := 47

def slashString : CString := ⟨[slash], by decide⟩

structure Entry where
  name : CString
  dir : Bool
  name_ne : name.bytes ≠ []
  slash_free : slash ∉ name.bytes

def shown (pfx ext : CString) (e : Entry) : Option Bool :=
  if e.name.bytes.head? = some dot ∨ e.name.bytes.length ≤ ext.bytes.length then some false
  else do
    if !(← startsWith e.name pfx) then return false
    endsWith e.name ext

def slotOf (pfx ext : CString) (e : Entry) : Option (Option Bool) := do
  if !(← shown pfx ext e) then return none
  if e.dir && ext.bytes.length == 0 then return some true
  else if !e.dir then return some false
  else return none

def countPass (pfx ext : CString) : Nat → Nat → List Entry → Option (Nat × Nat)
  | dirs, other, [] => some (dirs, other)
  | dirs, other, e :: es => do
    match ← slotOf pfx ext e with
    | some true => countPass pfx ext (dirs + 1) other es
    | some false => countPass pfx ext dirs (other + 1) es
    | none => countPass pfx ext dirs other es

def fillPass (pfx ext : CString) :
    Nat → Nat → List Entry → Option (List (Nat × CString) × List (Nat × CString))
  | _, _, [] => some ([], [])
  | i, j, e :: es => do
    match ← slotOf pfx ext e with
    | some true =>
      let (ds, os) ← fillPass pfx ext (i + 1) j es
      return ((i, e.name.append slashString) :: ds, os)
    | some false =>
      let (ds, os) ← fillPass pfx ext i (j + 1) es
      return (ds, (j, e.name) :: os)
    | none => fillPass pfx ext i j es

def lastWrite (writes : List (Nat × CString)) (slot : Nat) : Option CString :=
  writes.foldl (fun v w => if w.1 = slot then some w.2 else v) none

def arrayOf (size : Nat) (writes : List (Nat × CString)) : Option (List CString) :=
  if writes.all (·.1 ≤ size) then (List.range size).mapM (lastWrite writes) else none

def compareElements (a b : CString) : Int := strcmpBytes a.bytes b.bytes

def StrLe (a b : CString) : Prop := compareElements a b ≤ 0

instance : DecidableRel StrLe := fun a b => inferInstanceAs (Decidable (compareElements a b ≤ 0))

def sorted (array : List CString) : List CString := array.insertionSort StrLe

@[simp] lemma length_sorted (l : List CString) : (sorted l).length = l.length :=
  List.length_insertionSort _ _

structure MenuLists where
  files : List CString
  list : List CString
  dirWrites : List (Nat × CString)
  otherWrites : List (Nat × CString)

def menuLists (directory pfx ext : CString) (es : List Entry) : Option MenuLists := do
  let (dirs, other) ← countPass pfx ext 0 0 es
  let total := dirs + other
  if total = 0 then return ⟨[directory.append .empty], [.empty], [], []⟩
  let (dw, ow) ← fillPass pfx ext 0 0 es
  let dirlist := sorted (← arrayOf dirs dw)
  let otherlist := sorted (← arrayOf other ow)
  let entry := fun k => if k < dirs then dirlist[k]? else otherlist[k - dirs]?
  let files ← (List.range total).mapM fun k => (entry k).map directory.append
  let list ← (List.range total).mapM entry
  return ⟨files, list, dw, ow⟩

structure Chosen where
  file : Option CString
  deletion : Bool
  keys : List Int
deriving DecidableEq

variable {σ : Type} (k : KeyCodes) (ui : MenuUi σ)

def chooseFileMenu (listing : Option (List Entry)) (closes : Bool) (directory pfx ext : CString)
    (deletion : Bool) (keys : List Int) : Option Chosen :=
  match listing with
  | none => some ⟨none, deletion, keys⟩
  | some es => do
    let m ← menuLists directory pfx ext es
    if !closes then return ⟨none, deletion, keys⟩
    let sel ← getMenuSelection k ui m.list.length deletion keys
    if sel.chosen = k.back then return ⟨none, sel.deletion, sel.keys⟩
    let file ← (m.files.map some ++ [none])[sel.chosen.toNat]?
    return ⟨file, sel.deletion, sel.keys⟩

/-! ### The two loops -/

def Matches (pfx ext : CString) (e : Entry) : Prop :=
  e.name.bytes.head? ≠ some dot ∧ ext.bytes.length < e.name.bytes.length ∧
    pfx.bytes <+: e.name.bytes ∧ ext.bytes <:+ e.name.bytes

instance (pfx ext : CString) : DecidablePred (Matches pfx ext) :=
  fun _ => inferInstanceAs (Decidable (_ ∧ _))

def dirPick (pfx ext : CString) (e : Entry) : Bool :=
  e.dir && ext.bytes.isEmpty && decide (Matches pfx ext e)

def otherPick (pfx ext : CString) (e : Entry) : Bool := !e.dir && decide (Matches pfx ext e)

def shownDirs (pfx ext : CString) (es : List Entry) : List CString :=
  (es.filter (dirPick pfx ext)).map fun e => e.name.append slashString

def shownOthers (pfx ext : CString) (es : List Entry) : List CString :=
  (es.filter (otherPick pfx ext)).map Entry.name

variable {pfx ext : CString}

lemma shown_eq (e : Entry) : shown pfx ext e = some (decide (Matches pfx ext e)) := by
  unfold shown Matches
  split_ifs with h
  · rcases h with h | h <;> simp [h]
  · push_neg at h
    rw [startsWith_spec, endsWith_spec _ _ (.inl (by omega))]
    by_cases hp : pfx.bytes <+: e.name.bytes <;> simp [h, hp]

lemma slotOf_eq (e : Entry) : slotOf pfx ext e =
    some (if dirPick pfx ext e then some true else if otherPick pfx ext e then some false
      else none) := by
  unfold slotOf dirPick otherPick
  rw [shown_eq]
  by_cases hm : Matches pfx ext e <;> cases e.dir <;> simp [hm, List.isEmpty_iff, apply_ite some]

lemma not_otherPick_of_dirPick {e : Entry} (h : dirPick pfx ext e) : otherPick pfx ext e = false := by
  simp only [dirPick, Bool.and_eq_true] at h
  simp [otherPick, h.1.1]

@[simp] lemma shownDirs_nil : shownDirs pfx ext [] = [] := rfl

@[simp] lemma shownOthers_nil : shownOthers pfx ext [] = [] := rfl

lemma shownDirs_cons (e : Entry) (es : List Entry) : shownDirs pfx ext (e :: es) =
    if dirPick pfx ext e then e.name.append slashString :: shownDirs pfx ext es
    else shownDirs pfx ext es := by
  unfold shownDirs
  split_ifs with h <;> simp [List.filter_cons, h]

lemma shownOthers_cons (e : Entry) (es : List Entry) : shownOthers pfx ext (e :: es) =
    if otherPick pfx ext e then e.name :: shownOthers pfx ext es else shownOthers pfx ext es := by
  unfold shownOthers
  split_ifs with h <;> simp [List.filter_cons, h]

lemma countPass_eq (dirs other : Nat) (es : List Entry) : countPass pfx ext dirs other es =
    some (dirs + (shownDirs pfx ext es).length, other + (shownOthers pfx ext es).length) := by
  induction es generalizing dirs other with
  | nil => rfl
  | cons e es ih =>
    rw [countPass, slotOf_eq, Option.bind_eq_bind, Option.some_bind, shownDirs_cons, shownOthers_cons]
    by_cases hd : dirPick pfx ext e
    · simp [hd, not_otherPick_of_dirPick hd, ih]
      omega
    · by_cases ho : otherPick pfx ext e
      · simp [hd, ho, ih]
        omega
      · simp [hd, ho, ih]

lemma fillPass_eq (i j : Nat) (es : List Entry) : fillPass pfx ext i j es =
    some ((List.range' i (shownDirs pfx ext es).length).zip (shownDirs pfx ext es),
      (List.range' j (shownOthers pfx ext es).length).zip (shownOthers pfx ext es)) := by
  induction es generalizing i j with
  | nil => rfl
  | cons e es ih =>
    rw [fillPass, slotOf_eq, Option.bind_eq_bind, Option.some_bind, shownDirs_cons, shownOthers_cons]
    by_cases hd : dirPick pfx ext e
    · simp only [hd, if_true, not_otherPick_of_dirPick hd, ih, List.length_cons, List.range'_succ,
        List.zip_cons_cons]
      rfl
    · by_cases ho : otherPick pfx ext e
      · simp only [hd, ho, if_true, ih, List.length_cons, List.range'_succ, List.zip_cons_cons,
          Bool.false_eq_true, ↓reduceIte]
        rfl
      · simp only [hd, ho, ih, Bool.false_eq_true, ↓reduceIte]

lemma foldl_write_zip (vals : List CString) (s slot : Nat) (acc : Option CString) :
    ((List.range' s vals.length).zip vals).foldl (fun v w => if w.1 = slot then some w.2 else v) acc =
      if s ≤ slot then vals[slot - s]?.or acc else acc := by
  induction vals generalizing s acc with
  | nil => split_ifs <;> rfl
  | cons v vs ih =>
    rw [List.length_cons, List.range'_succ, List.zip_cons_cons, List.foldl_cons, ih]
    rcases lt_trichotomy slot s with h | rfl | h
    · simp [show ¬ s ≤ slot by omega, show ¬ s + 1 ≤ slot by omega, show s ≠ slot by omega]
    · simp
    · obtain ⟨d, rfl⟩ : ∃ d, slot = s + 1 + d := ⟨slot - s - 1, by omega⟩
      have hle : s ≤ s + 1 + d := by omega
      simp [hle, show s ≠ s + 1 + d by omega, show s + 1 + d - s = d + 1 by omega]

lemma lastWrite_zip (vals : List CString) :
    lastWrite ((List.range' 0 vals.length).zip vals) = fun slot => vals[slot]? := by
  funext slot
  rw [lastWrite, foldl_write_zip]
  simp

lemma mapM_range' (l : List CString) (s m : Nat) (h : s + m = l.length) :
    (List.range' s m).mapM (fun k => l[k]?) = some (l.drop s) := by
  induction m generalizing s with
  | zero => rw [List.drop_eq_nil_of_le (by omega)]; rfl
  | succ m ih =>
    rw [List.range'_succ, List.mapM_cons, List.getElem?_eq_getElem (show s < l.length by omega),
      ih (s + 1) (by omega), List.drop_eq_getElem_cons (show s < l.length by omega)]
    rfl

lemma mapM_range_getElem? (l : List CString) :
    (List.range l.length).mapM (fun k => l[k]?) = some l := by
  rw [List.range_eq_range', mapM_range' l 0 _ (by omega), List.drop_zero]

lemma arrayOf_zip (vals : List CString) :
    arrayOf vals.length ((List.range' 0 vals.length).zip vals) = some vals := by
  have hall : ((List.range' 0 vals.length).zip vals).all (·.1 ≤ vals.length) := by
    simp only [List.all_eq_true, decide_eq_true_eq, Prod.forall]
    intro i _ hi
    have := (List.mem_range'_1.mp (List.of_mem_zip hi).1).2
    omega
  rw [arrayOf, if_pos hall, lastWrite_zip, mapM_range_getElem?]

instance : IsTrans CString StrLe := ⟨fun a b _ => strcmpBytes_trans a.nul_free b.nul_free⟩

instance : IsTotal CString StrLe := ⟨fun a b => by
  unfold StrLe compareElements
  rw [strcmpBytes_swap a.bytes]
  omega⟩

lemma mapM_entry (ds os : List CString) {a b : Nat} (ha : ds.length = a) (hb : os.length = b) :
    (List.range (a + b)).mapM (fun k => if k < a then ds[k]? else os[k - a]?) = some (ds ++ os) := by
  subst ha hb
  have h : ∀ k, (if k < ds.length then ds[k]? else os[k - ds.length]?) = (ds ++ os)[k]? := fun k => by
    split_ifs with h
    · rw [List.getElem?_append_left h]
    · rw [List.getElem?_append_right (by omega)]
  simp only [h, ← List.length_append, mapM_range_getElem?]

lemma mapM_entry_map (ds os : List CString) {a b : Nat} (ha : ds.length = a) (hb : os.length = b)
    (f : CString → CString) :
    (List.range (a + b)).mapM (fun k => (if k < a then ds[k]? else os[k - a]?).map f) =
      some ((ds ++ os).map f) := by
  subst ha hb
  have h : ∀ k, (if k < ds.length then ds[k]? else os[k - ds.length]?).map f =
      ((ds ++ os).map f)[k]? := fun k => by
    rw [List.getElem?_map]
    split_ifs with h
    · rw [List.getElem?_append_left h]
    · rw [List.getElem?_append_right (by omega)]
  simp only [h]
  rw [show ds.length + os.length = ((ds ++ os).map f).length by simp, mapM_range_getElem?]

lemma menuLists_of_ne (directory : CString) (es : List Entry)
    (h0 : (shownDirs pfx ext es).length + (shownOthers pfx ext es).length ≠ 0) :
    menuLists directory pfx ext es = some ⟨(sorted (shownDirs pfx ext es) ++
      sorted (shownOthers pfx ext es)).map directory.append,
      sorted (shownDirs pfx ext es) ++ sorted (shownOthers pfx ext es),
      (List.range' 0 (shownDirs pfx ext es).length).zip (shownDirs pfx ext es),
      (List.range' 0 (shownOthers pfx ext es).length).zip (shownOthers pfx ext es)⟩ := by
  simp only [menuLists, countPass_eq, fillPass_eq, Nat.zero_add, if_neg h0, arrayOf_zip,
    Option.bind_eq_bind, Option.some_bind, Option.pure_def]
  rw [mapM_entry_map _ _ (length_sorted _) (length_sorted _), Option.some_bind,
    mapM_entry _ _ (length_sorted _) (length_sorted _), Option.some_bind]

lemma menuLists_of_eq_zero (directory : CString) (es : List Entry)
    (h0 : (shownDirs pfx ext es).length + (shownOthers pfx ext es).length = 0) :
    menuLists directory pfx ext es = some ⟨[directory.append .empty], [.empty], [], []⟩ := by
  rw [menuLists, countPass_eq]
  exact if_pos (by simpa using h0)

theorem chooser_lists (directory pfx ext : CString) (es : List Entry) :
    ∃ m, menuLists directory pfx ext es = some m ∧ m.files = m.list.map directory.append ∧
      m.dirWrites.map Prod.fst = List.range (shownDirs pfx ext es).length ∧
      m.otherWrites.map Prod.fst = List.range (shownOthers pfx ext es).length ∧
      (shownDirs pfx ext es = [] → shownOthers pfx ext es = [] → m.list = [CString.empty]) ∧
      (shownDirs pfx ext es ≠ [] ∨ shownOthers pfx ext es ≠ [] →
        ∃ ds os, m.list = ds ++ os ∧ ds.Sorted StrLe ∧ ds.Perm (shownDirs pfx ext es) ∧
          os.Sorted StrLe ∧ os.Perm (shownOthers pfx ext es)) := by
  by_cases h0 : (shownDirs pfx ext es).length + (shownOthers pfx ext es).length = 0
  · have hD : shownDirs pfx ext es = [] := List.length_eq_zero.mp (by omega)
    have hO : shownOthers pfx ext es = [] := List.length_eq_zero.mp (by omega)
    refine ⟨⟨[directory.append .empty], [.empty], [], []⟩, ?_, rfl, by simp [hD], by simp [hO],
      fun _ _ => rfl, ?_⟩
    · simp only [menuLists, countPass_eq, Nat.zero_add, if_pos h0, Option.bind_eq_bind,
        Option.some_bind, Option.pure_def]
    · rintro (h | h) <;> contradiction
  · refine ⟨_, menuLists_of_ne directory es h0, rfl, ?_, ?_, fun hD hO => absurd (by simp [hD, hO]) h0,
      fun _ => ⟨_, _, rfl, List.sorted_insertionSort _ _, List.perm_insertionSort _ _,
        List.sorted_insertionSort _ _, List.perm_insertionSort _ _⟩⟩ <;>
    simp [List.map_fst_zip, List.range_eq_range']

lemma mem_list_of_menuLists {directory : CString} {es : List Entry} {m : MenuLists}
    (h : menuLists directory pfx ext es = some m) {l : CString} (hl : l ∈ m.list) :
    l = .empty ∨ l ∈ shownDirs pfx ext es ∨ l ∈ shownOthers pfx ext es := by
  by_cases h0 : (shownDirs pfx ext es).length + (shownOthers pfx ext es).length = 0
  · rw [menuLists_of_eq_zero directory es h0] at h
    cases h
    exact .inl (List.mem_singleton.mp hl)
  · rw [menuLists_of_ne directory es h0] at h
    cases h
    rcases List.mem_append.mp hl with hl | hl
    · exact .inr (.inl ((List.perm_insertionSort _ _).subset hl))
    · exact .inr (.inr ((List.perm_insertionSort _ _).subset hl))

lemma menuLists_files {directory : CString} {es : List Entry} {m : MenuLists}
    (h : menuLists directory pfx ext es = some m) : m.files = m.list.map directory.append := by
  by_cases h0 : (shownDirs pfx ext es).length + (shownOthers pfx ext es).length = 0
  · rw [menuLists_of_eq_zero directory es h0] at h
    cases h
    rfl
  · rw [menuLists_of_ne directory es h0] at h
    cases h
    rfl

lemma menuLists_list_ne_nil {directory : CString} {es : List Entry} {m : MenuLists}
    (h : menuLists directory pfx ext es = some m) : m.list ≠ [] := by
  by_cases h0 : (shownDirs pfx ext es).length + (shownOthers pfx ext es).length = 0
  · rw [menuLists_of_eq_zero directory es h0] at h
    cases h
    exact List.cons_ne_nil _ _
  · rw [menuLists_of_ne directory es h0] at h
    cases h
    rw [← List.length_pos, List.length_append, length_sorted, length_sorted]
    omega

variable {k ui}

lemma chooseFileMenu_some (es : List Entry) (directory : CString) (deletion : Bool)
    (keys : List Int) :
    chooseFileMenu k ui (some es) true directory pfx ext deletion keys =
      (menuLists directory pfx ext es).bind fun m =>
        (getMenuSelection k ui m.list.length deletion keys).bind fun sel =>
          if sel.chosen = k.back then some ⟨none, sel.deletion, sel.keys⟩
          else (m.files.map some ++ [none])[sel.chosen.toNat]?.bind
            fun file => some ⟨file, sel.deletion, sel.keys⟩ := by
  simp only [chooseFileMenu, Bool.not_true, Bool.false_eq_true, if_false, Option.bind_eq_bind,
    Option.pure_def, Option.some_bind]

lemma chooseFileMenu_file {listing : Option (List Entry)} {closes : Bool} {directory : CString}
    {deletion : Bool} {keys : List Int} {c : Chosen} {f : CString}
    (h : chooseFileMenu k ui listing closes directory pfx ext deletion keys = some c)
    (hf : c.file = some f) :
    ∃ es m l, listing = some es ∧ menuLists directory pfx ext es = some m ∧ l ∈ m.list ∧
      f = directory.append l := by
  rcases listing with _ | es
  · cases Option.some.inj h ▸ hf
  cases closes
  · simp only [chooseFileMenu, Bool.not_false, if_true, Option.bind_eq_bind, Option.pure_def,
      Option.bind_eq_some, Option.some.injEq] at h
    obtain ⟨m, -, rfl⟩ := h
    cases hf
  rw [chooseFileMenu_some, Option.bind_eq_some] at h
  obtain ⟨m, hm, h⟩ := h
  obtain ⟨sel, -, h⟩ := Option.bind_eq_some.mp h
  split_ifs at h
  · cases Option.some.inj h ▸ hf
  obtain ⟨file, hfile, h⟩ := Option.bind_eq_some.mp h
  cases Option.some.inj h
  subst hf
  have hmem := List.getElem?_mem hfile
  simp only [List.mem_append, List.mem_map, List.mem_singleton, menuLists_files hm] at hmem
  obtain ⟨_, ⟨l, hl, rfl⟩, he⟩ := hmem.resolve_right nofun
  exact ⟨es, m, l, rfl, hm, hl, (Option.some.inj he).symm⟩

lemma chooseFileMenu_back_collision (hui : ∀ n, ui.Highlights n) {directory : CString}
    {es : List Entry}
    (hn : k.back < (shownDirs pfx ext es).length + (shownOthers pfx ext es).length)
    (deletion : Bool) (rest : List Int) :
    chooseFileMenu k ui (some es) true directory pfx ext deletion
      (List.replicate k.back.toNat k.down ++ k.center :: rest) = some ⟨none, deletion, rest⟩ := by
  have hb := k.back_pos
  have h0 : (shownDirs pfx ext es).length + (shownOthers pfx ext es).length ≠ 0 := by omega
  have hlen : (sorted (shownDirs pfx ext es) ++ sorted (shownOthers pfx ext es)).length =
      (shownDirs pfx ext es).length + (shownOthers pfx ext es).length := by simp
  rw [chooseFileMenu_some, menuLists_of_ne directory es h0, Option.some_bind]
  simp only [hlen, getMenuSelection_back_collision (hui _) hn, if_true, Option.some_bind]

theorem chooseFileMenu_in_bounds (hui : ∀ n, 0 < n → ui.Keeps n) {directory : CString}
    {es : List Entry} {m : MenuLists} (hm : menuLists directory pfx ext es = some m)
    {deletion : Bool} {keys : List Int} {sel : Selection}
    (hs : getMenuSelection k ui m.list.length deletion keys = some sel) :
    ∃ file, chooseFileMenu k ui (some es) true directory pfx ext deletion keys =
        some ⟨file, sel.deletion, sel.keys⟩ ∧ (file = none ↔ sel.chosen = k.back) ∧
      ∀ f, file = some f → ∃ l ∈ m.list, f = directory.append l := by
  have hn : 0 < m.list.length := List.length_pos.mpr (menuLists_list_ne_nil hm)
  rw [chooseFileMenu_some, hm, Option.some_bind, hs, Option.some_bind]
  by_cases hb : sel.chosen = k.back
  · exact ⟨none, by rw [if_pos hb], ⟨fun _ => hb, fun _ => rfl⟩, fun f h => nomatch h⟩
  have hr := (getMenuSelection_range (hui _ hn) hn hs).resolve_left hb
  have hi : sel.chosen.toNat < m.list.length := by omega
  have hf : (m.files.map some ++ [none])[sel.chosen.toNat]? =
      some (some (directory.append (m.list.get ⟨_, hi⟩))) := by
    rw [List.getElem?_append_left (by simpa [menuLists_files hm] using hi), List.getElem?_map,
      menuLists_files hm, List.getElem?_map, List.getElem?_eq_getElem hi]
    rfl
  rw [if_neg hb, hf, Option.some_bind]
  exact ⟨_, rfl, ⟨nofun, fun h => absurd h hb⟩,
    fun f hf => ⟨_, List.get_mem _ _ _, (Option.some.inj hf).symm⟩⟩

def oneFile : Entry := ⟨⟨ascii "a", by decide⟩, false, by decide, by decide⟩

def oneFileLists : MenuLists :=
  ⟨[slashString.append oneFile.name], [oneFile.name], [], [(0, oneFile.name)]⟩

theorem chooseFileMenu_in_bounds_oneFile :
    (∀ n, 0 < n → clampUi.Keeps n) ∧
      menuLists slashString .empty .empty [oneFile] = some oneFileLists ∧
      getMenuSelection inputKeys clampUi oneFileLists.list.length false [inputKeys.center] =
        some ⟨0, false, []⟩ ∧
      ∃ file, chooseFileMenu inputKeys clampUi (some [oneFile]) true slashString .empty .empty false
          [inputKeys.center] = some ⟨file, false, []⟩ ∧ (file = none ↔ (0 : Int) = inputKeys.back) ∧
        ∀ f, file = some f → ∃ l ∈ oneFileLists.list, f = slashString.append l :=
  have hui : ∀ n, 0 < n → clampUi.Keeps n := fun _ hn => clampUi_keeps hn
  have hm : menuLists slashString .empty .empty [oneFile] = some oneFileLists := rfl
  have hs : getMenuSelection inputKeys clampUi oneFileLists.list.length false [inputKeys.center] =
      some ⟨0, false, []⟩ := rfl
  ⟨hui, hm, hs, chooseFileMenu_in_bounds hui hm hs⟩

end BootableRecovery.Chooser
