import Mathlib.Logic.Relation
import BootableRecovery.Actions

/-! `browse_files` and the path it keeps in `char path[PATH_MAX]`. -/

namespace BootableRecovery.Browse

open Libc FileBrowser FileOptions Menu Chooser Actions

def root : CString := slashString

structure Browser where
  path : CString
  world : World
deriving DecidableEq

inductive Turn
  | next (b : Browser)
  | exit (w : World)
deriving DecidableEq

def Turn.world : Turn → World
  | .next b => b.world
  | .exit w => w

def strrchr (s : CString) (c : UInt8) : Option Nat :=
  (s.bytes.reverse.findIdx? (· = c)).map fun i => s.bytes.length - 1 - i

def endsInSlash (file : CString) : Option Bool :=
  if file.bytes.length = 0 then none
  else some (strcmpBytes (file.bytes.drop (file.bytes.length - 1)) [slash] = 0)

def parentPath (path : CString) : Option CString := do
  let trimmed := strndup path (path.bytes.length - 1)
  let pch ← strrchr trimmed slash
  return strndup trimmed (pch + 1)

variable {σ : Type} (k : KeyCodes) (ui : MenuUi σ) (pathMax : Nat)

def browseTurn (fs : Fs) (b : Browser) : Option Turn := do
  let c ← chooseFileMenu k ui (fs.listing b.path.bytes) fs.closes b.path .empty .empty
    b.world.deletion b.world.keys
  let w := { b.world with deletion := c.deletion, keys := c.keys }
  match c.file with
  | none =>
    if b.path.bytes.length = 1 then some (.exit w)
    else (parentPath b.path).map fun q => .next ⟨q, w⟩
  | some file => do
    if (← endsInSlash file) && !w.deletion then
      if file.bytes.length < pathMax then some (.next ⟨file, w⟩) else none
    else do
      let w ← fileOptionsMenu k ui pathMax fs b.path (← strnr file b.path.bytes.length) w
      some (.next ⟨b.path, { w with deletion := false }⟩)

def browseFiles (fs : Fs) : Nat → Browser → Option World
  | 0, _ => none
  | fuel + 1, b => do
    match ← browseTurn k ui pathMax fs b with
    | .exit w => return w
    | .next b => browseFiles fs fuel b

def Turns (b b' : Browser) : Prop := ∃ fs, browseTurn k ui pathMax fs b = some (.next b')

/-! ### The path -/

def joinPath (comps : List (List UInt8)) : List UInt8 := slash :: comps.flatMap (· ++ [slash])

def WellFormed (p : List UInt8) : Prop :=
  ∃ comps : List (List UInt8), (∀ c ∈ comps, c ≠ [] ∧ slash ∉ c) ∧ p = joinPath comps

@[simp] lemma joinPath_nil : joinPath [] = [slash] := rfl

lemma joinPath_concat (cs : List (List UInt8)) (c : List UInt8) :
    joinPath (cs ++ [c]) = joinPath cs ++ c ++ [slash] := by
  simp [joinPath]

lemma joinPath_eq_concat (cs : List (List UInt8)) : ∃ l, joinPath cs = l ++ [slash] := by
  rcases List.eq_nil_or_concat cs with rfl | ⟨cs, c, rfl⟩
  · exact ⟨[], rfl⟩
  · exact ⟨joinPath cs ++ c, by rw [List.concat_eq_append, joinPath_concat]⟩

lemma parentPath_concat {p : CString} {cs : List (List UInt8)} {c : List UInt8}
    (hp : p.bytes = joinPath (cs ++ [c])) (hc : slash ∉ c) :
    ∃ q, parentPath p = some q ∧ q.bytes = joinPath cs := by
  obtain ⟨l, hl⟩ := joinPath_eq_concat cs
  rw [joinPath_concat, hl] at hp
  have htrim : (strndup p (p.bytes.length - 1)).bytes = l ++ [slash] ++ c := by
    simp only [strndup, hp, List.length_append, List.length_singleton, Nat.add_sub_cancel,
      List.take_left']
  have hc' : ∀ x ∈ c.reverse, decide (x = slash) = false := fun x hx => by
    simp only [decide_eq_false_iff_not]
    rintro rfl
    exact hc (List.mem_reverse.mp hx)
  have hfind : (strndup p (p.bytes.length - 1)).bytes.reverse.findIdx? (· = slash) =
      some c.length := by
    rw [htrim, List.reverse_append, List.findIdx?_append, List.findIdx?_eq_none_iff.mpr hc']
    simp
  refine ⟨_, by simp only [parentPath, strrchr, hfind, Option.map_some', Option.bind_eq_bind,
    Option.some_bind]; rfl, ?_⟩
  simp only [strndup] at htrim ⊢
  rw [htrim, show (l ++ [slash] ++ c).length - 1 - c.length + 1 = (l ++ [slash]).length by
    simp only [List.length_append, List.length_singleton]; omega, hl]
  exact List.take_left' rfl

lemma endsInSlash_concat {f : CString} {l : List UInt8} {x : UInt8} (h : f.bytes = l ++ [x]) :
    endsInSlash f = some (decide (x = slash)) := by
  have hx : x ≠ 0 := fun hx => f.nul_free (by simp [h, hx])
  simp only [endsInSlash, h, List.length_append, List.length_singleton, Nat.add_sub_cancel,
    List.drop_left', Nat.add_one_ne_zero, if_false, Option.some.injEq, decide_eq_decide]
  rw [strcmpBytes_eq_zero_iff (by simpa using hx.symm) (by decide)]
  simp

lemma label_cases {directory : CString} {es : List Entry} {m : MenuLists}
    (h : menuLists directory .empty .empty es = some m) {l : CString} (hl : l ∈ m.list) :
    l = .empty ∨ (∃ e ∈ es, e.dir ∧ l = e.name.append slashString) ∨ ∃ e ∈ es, l = e.name := by
  rcases mem_list_of_menuLists h hl with h | h | h
  · exact .inl h
  · obtain ⟨e, he, rfl⟩ := List.mem_map.mp h
    obtain ⟨he, hd⟩ := List.mem_filter.mp he
    simp only [dirPick, Bool.and_eq_true] at hd
    exact .inr (.inl ⟨e, he, hd.1.1, rfl⟩)
  · obtain ⟨e, he, rfl⟩ := List.mem_map.mp h
    exact .inr (.inr ⟨e, (List.mem_filter.mp he).1, rfl⟩)

variable {k ui pathMax}

lemma turn_path {fs : Fs} {b b' : Browser} {comps : List (List UInt8)}
    (hp : b.path.bytes = joinPath comps) (hc : ∀ c ∈ comps, c ≠ [] ∧ slash ∉ c)
    (ht : browseTurn k ui pathMax fs b = some (.next b')) :
    b'.path = b.path ∨
      (∃ es e, fs.listing b.path.bytes = some es ∧ e ∈ es ∧ e.dir ∧
        b'.path.bytes = joinPath (comps ++ [e.name.bytes])) ∨
      ∃ cs c, comps = cs ++ [c] ∧ b'.path.bytes = joinPath cs := by
  simp only [browseTurn, Option.bind_eq_bind, Option.bind_eq_some] at ht
  obtain ⟨ch, hch, ht⟩ := ht
  rcases hf : ch.file with _ | file <;> simp only [hf] at ht
  · split_ifs at ht with h1
    · cases ht
    obtain ⟨q, hq, hb'⟩ := Option.map_eq_some'.mp ht
    cases hb'
    rcases List.eq_nil_or_concat comps with rfl | ⟨cs, c, rfl⟩
    · exact absurd (by rw [hp]; rfl) h1
    rw [List.concat_eq_append] at hp hc ⊢
    obtain ⟨q', hq', hbytes⟩ := parentPath_concat hp (hc c (by simp)).2
    cases hq.symm.trans hq'
    exact .inr (.inr ⟨cs, c, rfl, hbytes⟩)
  · obtain ⟨e, he, ht⟩ := Option.bind_eq_some.mp ht
    split_ifs at ht with h1 h2
    · cases ht
      obtain ⟨es, m, l, hes, hm, hl, rfl⟩ := chooseFileMenu_file hch hf
      rcases label_cases hm hl with rfl | ⟨d, hd, hdir, rfl⟩ | ⟨d, -, rfl⟩
      · exact .inl (CString.append_empty _)
      · exact .inr (.inl ⟨es, d, hes, hd, hdir, by simp [hp, joinPath_concat, slashString]⟩)
      · obtain ⟨l', x, hx⟩ := List.eq_nil_or_concat d.name.bytes |>.resolve_left d.name_ne
        have hslash : x ≠ slash := fun h => d.slash_free (by simp [hx, h])
        rw [endsInSlash_concat (l := b.path.bytes ++ l') (x := x) (by simp [hx]), Option.some.injEq]
          at he
        simp [← he, hslash] at h1
    · obtain ⟨name, -, ht⟩ := Option.bind_eq_some.mp ht
      obtain ⟨w, -, ht⟩ := Option.bind_eq_some.mp ht
      cases Option.some.inj ht
      exact .inl rfl

lemma turn_exit {fs : Fs} {b : Browser} {w : World} {comps : List (List UInt8)}
    (hp : b.path.bytes = joinPath comps) (ht : browseTurn k ui pathMax fs b = some (.exit w)) :
    comps = [] := by
  simp only [browseTurn, Option.bind_eq_bind, Option.bind_eq_some] at ht
  obtain ⟨ch, -, ht⟩ := ht
  rcases hf : ch.file with _ | file <;> simp only [hf] at ht
  · split_ifs at ht with h1
    · rcases comps with _ | ⟨c, cs⟩
      · rfl
      · simp [hp, joinPath] at h1
    · obtain ⟨q, -, hb'⟩ := Option.map_eq_some'.mp ht
      cases hb'
  · obtain ⟨e, -, ht⟩ := Option.bind_eq_some.mp ht
    split_ifs at ht
    · cases ht
    · obtain ⟨name, -, ht⟩ := Option.bind_eq_some.mp ht
      obtain ⟨w, -, ht⟩ := Option.bind_eq_some.mp ht
      cases ht

lemma turn_back {fs : Fs} {b : Browser} {cs : List (List UInt8)} {c : List UInt8}
    (hp : b.path.bytes = joinPath (cs ++ [c])) (hc : slash ∉ c) {ch : Chosen}
    (hch : chooseFileMenu k ui (fs.listing b.path.bytes) fs.closes b.path .empty .empty
      b.world.deletion b.world.keys = some ch) (hf : ch.file = none) :
    ∃ q, q.bytes = joinPath cs ∧ browseTurn k ui pathMax fs b =
      some (.next ⟨q, { b.world with deletion := ch.deletion, keys := ch.keys }⟩) := by
  obtain ⟨q, hq, hbytes⟩ := parentPath_concat hp hc
  have hlen : b.path.bytes.length ≠ 1 := by
    obtain ⟨l, hl⟩ := joinPath_eq_concat cs
    rw [hp, joinPath_concat, hl]
    simp only [List.length_append, List.length_singleton]
    omega
  refine ⟨q, hbytes, ?_⟩
  simp only [browseTurn, hch, Option.bind_eq_bind, Option.some_bind, hf, if_neg hlen, hq,
    Option.map_some']

/-! ### A chain of nested directories -/

def aDir : Entry := ⟨⟨[97], by decide⟩, true, by decide, by decide⟩

def aSlash : CString := aDir.name.append slashString

def chainFs : Fs := ⟨fun _ => some [aDir], true, fun _ => false, true⟩

def chainPath (i : Nat) : CString :=
  ⟨joinPath (List.replicate i [97]), by simp [joinPath, slash, List.mem_flatMap]⟩

lemma chainPath_succ (i : Nat) : chainPath (i + 1) = (chainPath i).append aSlash := by
  ext1
  simp [chainPath, List.replicate_succ', joinPath_concat, aSlash, aDir, slashString]

lemma chainPath_length (i : Nat) : (chainPath i).bytes.length = 2 * i + 1 := by
  induction i with
  | zero => rfl
  | succ i ih =>
    rw [chainPath_succ, CString.append_bytes, List.length_append, ih]
    rfl

lemma menuLists_chain (p : CString) :
    menuLists p .empty .empty [aDir] = some ⟨[p.append aSlash], [aSlash], [(0, aSlash)], []⟩ := by
  have hD : shownDirs .empty .empty [aDir] = [aSlash] := by decide
  have hO : shownOthers .empty .empty [aDir] = [] := by decide
  rw [menuLists_of_ne p [aDir] (by rw [hD, hO]; decide), hD, hO]
  rfl

variable (k ui pathMax) in
lemma browseTurn_chain (hui : ui.Highlights 1) (p : CString) (w : World) (rest : List Int) :
    browseTurn k ui pathMax chainFs ⟨p, ⟨k.center :: rest, false, w.clip, w.acts⟩⟩ =
      if p.bytes.length + 2 < pathMax then
        some (.next ⟨p.append aSlash, ⟨rest, false, w.clip, w.acts⟩⟩)
      else none := by
  have hc : chooseFileMenu k ui (some [aDir]) true p .empty .empty false (k.center :: rest) =
      some ⟨some (p.append aSlash), false, rest⟩ := by
    have hb : (0 : Int) ≠ k.back := by have := k.back_pos; omega
    rw [chooseFileMenu_some, menuLists_chain, Option.some_bind, List.length_singleton,
      getMenuSelection_center hui, Option.some_bind]
    simp only [hb, if_false]
    rfl
  have he : endsInSlash (p.append aSlash) = some true := by
    rw [endsInSlash_concat (l := p.bytes ++ [97]) (x := slash) (by simp [aSlash, aDir, slashString])]
    simp
  simp only [browseTurn, chainFs, hc, he, Option.bind_eq_bind, Option.some_bind, Bool.not_false,
    Bool.and_self, if_true, CString.append_bytes, List.length_append]
  rfl

variable (k ui pathMax) in
lemma chain_reach (hui : ui.Highlights 1) (clip : Clipboard) (acts : List Act) (j : Nat) :
    ∀ i, 2 * i + 1 < pathMax →
      Relation.ReflTransGen (Turns k ui pathMax)
        ⟨root, ⟨List.replicate (i + j) k.center, false, clip, acts⟩⟩
        ⟨chainPath i, ⟨List.replicate j k.center, false, clip, acts⟩⟩
  | 0, _ => by rw [Nat.zero_add]; exact .refl
  | i + 1, h => by
    refine .tail (Nat.add_right_comm i 1 j ▸ chain_reach hui clip acts (j + 1) i (by omega)) ⟨chainFs, ?_⟩
    rw [List.replicate_succ, browseTurn_chain k ui pathMax hui _ ⟨[], false, clip, acts⟩,
      chainPath_length, if_pos (by omega), chainPath_succ]

lemma wellFormed_of_turns {w : World} {b : Browser}
    (h : Relation.ReflTransGen (Turns k ui pathMax) ⟨root, w⟩ b) : WellFormed b.path.bytes := by
  induction h with
  | refl => exact ⟨[], by simp, rfl⟩
  | tail _ hstep ih =>
    obtain ⟨comps, hc, hp⟩ := ih
    obtain ⟨fs, ht⟩ := hstep
    rcases turn_path hp hc ht with h | ⟨es, e, -, -, -, h⟩ | ⟨cs, c, rfl, h⟩
    · exact ⟨comps, hc, h ▸ hp⟩
    · refine ⟨comps ++ [e.name.bytes], fun c hc' => ?_, h⟩
      rcases List.mem_append.mp hc' with hc' | hc'
      · exact hc c hc'
      · rw [List.mem_singleton.mp hc']
        exact ⟨e.name_ne, e.slash_free⟩
    · exact ⟨cs, fun c' hc' => hc c' (List.mem_append_left _ hc'), h⟩

theorem browse_path_invariant {w : World} {b : Browser}
    (h : Relation.ReflTransGen (Turns k ui pathMax) ⟨root, w⟩ b) :
    ∃ comps, (∀ c ∈ comps, c ≠ [] ∧ slash ∉ c) ∧ b.path.bytes = joinPath comps ∧
      (∀ fs w', browseTurn k ui pathMax fs b = some (.exit w') → comps = []) ∧
      (∀ fs ch, chooseFileMenu k ui (fs.listing b.path.bytes) fs.closes b.path .empty .empty
          b.world.deletion b.world.keys = some ch → ch.file = none → comps ≠ [] →
        ∃ q, q.bytes = joinPath comps.dropLast ∧ browseTurn k ui pathMax fs b =
          some (.next ⟨q, { b.world with deletion := ch.deletion, keys := ch.keys }⟩)) ∧
      ∀ fs b', browseTurn k ui pathMax fs b = some (.next b') →
        b'.path = b.path ∨
          (∃ es e, fs.listing b.path.bytes = some es ∧ e ∈ es ∧ e.dir ∧
            b'.path.bytes = joinPath (comps ++ [e.name.bytes])) ∨
          ∃ cs c, comps = cs ++ [c] ∧ b'.path.bytes = joinPath cs := by
  obtain ⟨comps, hc, hp⟩ := wellFormed_of_turns h
  refine ⟨comps, hc, hp, fun _ _ => turn_exit hp, fun fs ch hch hf hne => ?_,
    fun _ _ => turn_path hp hc⟩
  obtain ⟨cs, c, rfl⟩ := (List.eq_nil_or_concat comps).resolve_left hne
  rw [List.concat_eq_append] at hp hc ⊢
  rw [List.dropLast_concat]
  exact turn_back hp (hc c (by simp)).2 hch hf

def backWorld : World := ⟨[inputKeys.back], false, ⟨[], 0⟩, []⟩

lemma reach_back : Relation.ReflTransGen (Turns inputKeys clampUi 4096)
    ⟨root, ⟨[inputKeys.center, inputKeys.back], false, ⟨[], 0⟩, []⟩⟩ ⟨chainPath 1, backWorld⟩ :=
  .single ⟨chainFs, by
    rw [browseTurn_chain inputKeys clampUi 4096 (clampUi_highlights 1) _ ⟨[], false, ⟨[], 0⟩, []⟩,
      if_pos (by decide), chainPath_succ]
    rfl⟩

theorem browse_path_invariant_chain :
    browseTurn inputKeys clampUi 4096 chainFs ⟨chainPath 1, backWorld⟩ =
        some (.next ⟨root, ⟨[], false, ⟨[], 0⟩, []⟩⟩) ∧
      ∃ comps, (∀ c ∈ comps, c ≠ [] ∧ slash ∉ c) ∧ (chainPath 1).bytes = joinPath comps ∧
      (∀ fs w', browseTurn inputKeys clampUi 4096 fs ⟨chainPath 1, backWorld⟩ = some (.exit w') →
        comps = []) ∧
      (∀ fs ch, chooseFileMenu inputKeys clampUi (fs.listing (chainPath 1).bytes) fs.closes
          (chainPath 1) .empty .empty backWorld.deletion backWorld.keys = some ch → ch.file = none →
          comps ≠ [] →
        ∃ q, q.bytes = joinPath comps.dropLast ∧ browseTurn inputKeys clampUi 4096 fs
          ⟨chainPath 1, backWorld⟩ =
            some (.next ⟨q, { backWorld with deletion := ch.deletion, keys := ch.keys }⟩)) ∧
      ∀ fs b', browseTurn inputKeys clampUi 4096 fs ⟨chainPath 1, backWorld⟩ = some (.next b') →
        b'.path = chainPath 1 ∨
          (∃ es e, fs.listing (chainPath 1).bytes = some es ∧ e ∈ es ∧ e.dir ∧
            b'.path.bytes = joinPath (comps ++ [e.name.bytes])) ∨
          ∃ cs c, comps = cs ++ [c] ∧ b'.path.bytes = joinPath cs :=
  ⟨by decide, browse_path_invariant reach_back⟩

/-! ### A tree deeper than `PATH_MAX` -/

def chainKeys : World := ⟨List.replicate 2048 inputKeys.center, false, ⟨[], 0⟩, []⟩

theorem browse_path_overflows :
    Relation.ReflTransGen (Turns inputKeys clampUi 4096) ⟨root, chainKeys⟩
        ⟨chainPath 2047, ⟨[inputKeys.center], false, ⟨[], 0⟩, []⟩⟩ ∧
      (chainPath 2047).bytes.length = 4095 ∧
      ((chainPath 2047).append aSlash).bytes.length = 4097 ∧
      browseTurn inputKeys clampUi 4096 chainFs
        ⟨chainPath 2047, ⟨[inputKeys.center], false, ⟨[], 0⟩, []⟩⟩ = none := by
  refine ⟨chain_reach inputKeys clampUi 4096 (clampUi_highlights 1) _ _ 1 2047 (by omega),
    chainPath_length 2047, by rw [← chainPath_succ, chainPath_length], ?_⟩
  rw [browseTurn_chain inputKeys clampUi 4096 (clampUi_highlights 1) _ ⟨[], false, ⟨[], 0⟩, []⟩,
    chainPath_length, if_neg (by omega)]

/-! ### A listing longer than `KEY_DREAM_BACK` -/

def fileNamed (n : Nat) : Entry :=
  ⟨⟨List.replicate (n + 1) 97, by simp⟩, false, by simp, by simp [slash]⟩

def manyFiles : List Entry := (List.range 159).map fileNamed

def manyFs : Fs := ⟨fun _ => some manyFiles, true, fun _ => false, true⟩

def sdcard : CString := ⟨ascii "/sdcard/", by decide⟩

def toLastFile : List Int := List.replicate 158 inputKeys.down ++ [inputKeys.center]

lemma shownOthers_manyFiles : (shownOthers .empty .empty manyFiles).length = 159 := by
  have h : ∀ e ∈ manyFiles, otherPick .empty .empty e = true := by
    intro e he
    obtain ⟨n, -, rfl⟩ := List.mem_map.mp he
    simp [otherPick, Matches, fileNamed, CString.empty, dot, List.replicate_succ]
  rw [shownOthers, List.filter_eq_self.mpr h, List.length_map]
  rfl

theorem long_listing_entry_taken_for_back :
    inputKeys.back ∉ toLastFile ∧
      getMenuSelection inputKeys clampUi 159 false toLastFile = some ⟨inputKeys.back, false, []⟩ ∧
      chooseFileMenu inputKeys clampUi (some manyFiles) true sdcard .empty .empty false toLastFile =
        some ⟨none, false, []⟩ ∧
      browseTurn inputKeys clampUi 4096 manyFs ⟨sdcard, ⟨toLastFile, false, ⟨[], 0⟩, []⟩⟩ =
        some (.next ⟨root, ⟨[], false, ⟨[], 0⟩, []⟩⟩) := by
  have hc : chooseFileMenu inputKeys clampUi (some manyFiles) true sdcard .empty .empty false
      toLastFile = some ⟨none, false, []⟩ :=
    chooseFileMenu_back_collision clampUi_highlights (by rw [shownOthers_manyFiles]; decide) false []
  refine ⟨by rw [toLastFile, List.mem_append, List.mem_replicate, List.mem_singleton]; decide,
    getMenuSelection_back_collision (clampUi_highlights 159) (by decide) false [], hc, ?_⟩
  simp only [browseTurn, manyFs, hc, Option.bind_eq_bind, Option.some_bind]
  rfl

end BootableRecovery.Browse
