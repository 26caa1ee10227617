import BootableRecovery.Menus

/-! Every operation that waits for `confirm_key` is paid for by a HOME key read, and every deletion
by a MENU key. -/

namespace BootableRecovery.Accounting

open Libc FileBrowser FileOptions Menu Chooser Actions Browse Menus

def needsHome : Act → Bool
  | .system _ => false
  | _ => true

def deletes : Act → Bool
  | .remove _ => true
  | .system command => (ascii "rm -r ").isPrefixOf command
  | _ => false

def Accounts (k : KeyCodes) (w w' : World) : Prop :=
  ∃ read started, w.keys = read ++ w'.keys ∧ w'.acts = w.acts ++ started ∧
    started.countP needsHome ≤ read.count k.home ∧
    started.countP deletes + w'.deletion.toNat ≤ read.count k.menu + w.deletion.toNat

variable {σ : Type} {k : KeyCodes} {ui : MenuUi σ} {n : Nat}

lemma Accounts.refl (w : World) : Accounts k w w :=
  ⟨[], [], rfl, by simp, by simp, by simp⟩

lemma Accounts.trans {w₁ w₂ w₃ : World} (h₁ : Accounts k w₁ w₂) (h₂ : Accounts k w₂ w₃) :
    Accounts k w₁ w₃ := by
  obtain ⟨r₁, s₁, hk₁, ha₁, hh₁, hd₁⟩ := h₁
  obtain ⟨r₂, s₂, hk₂, ha₂, hh₂, hd₂⟩ := h₂
  refine ⟨r₁ ++ r₂, s₁ ++ s₂, by rw [hk₁, hk₂, List.append_assoc],
    by rw [ha₂, ha₁, List.append_assoc], ?_, ?_⟩ <;>
  simp only [List.countP_append, List.count_append] <;> omega

lemma accounts_of_read {w : World} {read keys : List Int} {deletion : Bool}
    (hk : w.keys = read ++ keys) (hd : deletion.toNat ≤ read.count k.menu + w.deletion.toNat) :
    Accounts k w { w with keys, deletion } :=
  ⟨read, [], hk, by simp, by simp, by simpa using hd⟩

lemma Accounts.clear {w w' : World} (h : Accounts k w w') :
    Accounts k w { w' with deletion := false } := by
  obtain ⟨read, started, hk, ha, hh, hd⟩ := h
  exact ⟨read, started, hk, ha, hh, by simp only [Bool.toNat_false]; omega⟩

lemma selectionLoop_reads {s : σ} {selected chosen : Int} {deletion : Bool} {keys : List Int}
    {sel : Selection} (h : selectionLoop k ui n s selected chosen deletion keys = some sel) :
    ∃ read, keys = read ++ sel.keys ∧ sel.deletion.toNat ≤ read.count k.menu + deletion.toNat := by
  induction keys generalizing s selected chosen deletion with
  | nil =>
    by_cases h0 : 0 ≤ chosen
    · rw [selectionLoop_of_nonneg h0] at h
      cases h
      exact ⟨[], rfl, by simp⟩
    · rw [selectionLoop, if_neg h0] at h
      cases h
  | cons key rest ih =>
    by_cases h0 : 0 ≤ chosen
    · rw [selectionLoop_of_nonneg h0] at h
      cases h
      exact ⟨[], rfl, by simp⟩
    obtain ⟨s', selected', chosen', e⟩ := selectionLoop_step h0 deletion key rest
    obtain ⟨read, hr, hd⟩ := ih (e ▸ h)
    refine ⟨key :: read, by rw [hr, List.cons_append], ?_⟩
    by_cases hk : key = k.menu
    · subst hk
      simp only [List.count_cons_self, decide_True, Bool.or_true, Bool.toNat_true] at hd ⊢
      have := deletion.toNat_le
      omega
    · simpa [List.count_cons, hk] using hd

lemma getMenuSelection_reads {deletion : Bool} {keys : List Int} {sel : Selection}
    (h : getMenuSelection k ui n deletion keys = some sel) :
    ∃ read, keys = read ++ sel.keys ∧ sel.deletion.toNat ≤ read.count k.menu + deletion.toNat :=
  selectionLoop_reads h

lemma chooseFileMenu_reads {listing : Option (List Entry)} {closes : Bool}
    {directory pfx ext : CString} {deletion : Bool} {keys : List Int} {c : Chosen}
    (h : chooseFileMenu k ui listing closes directory pfx ext deletion keys = some c) :
    ∃ read, keys = read ++ c.keys ∧ c.deletion.toNat ≤ read.count k.menu + deletion.toNat := by
  rcases listing with _ | es
  · obtain rfl := Option.some.inj h
    exact ⟨[], rfl, by simp⟩
  cases closes
  · simp only [chooseFileMenu, Bool.not_false, if_true, Option.bind_eq_bind, Option.pure_def,
      Option.bind_eq_some, Option.some.injEq] at h
    obtain ⟨m, -, rfl⟩ := h
    exact ⟨[], rfl, by simp⟩
  rw [chooseFileMenu_some, Option.bind_eq_some] at h
  obtain ⟨m, -, h⟩ := h
  obtain ⟨sel, hsel, h⟩ := Option.bind_eq_some.mp h
  obtain ⟨read, hr, hd⟩ := getMenuSelection_reads hsel
  have hc : c.keys = sel.keys ∧ c.deletion = sel.deletion := by
    split_ifs at h
    · cases h
      exact ⟨rfl, rfl⟩
    · obtain ⟨file, -, h⟩ := Option.bind_eq_some.mp h
      cases h
      exact ⟨rfl, rfl⟩
  exact ⟨read, hc.1 ▸ hr, hc.2 ▸ hd⟩

lemma confirmed_cases {act : Act} {w w' : World} (h : confirmed k act w = some w') :
    ∃ key, w.keys = key :: w'.keys ∧ w'.deletion = w.deletion ∧
      w'.acts = w.acts ++ if key = k.home then [act] else [] := by
  unfold confirmed confirmKey at h
  rcases hk : w.keys with _ | ⟨key, rest⟩ <;> rw [hk] at h
  · cases h
  · cases h
    exact ⟨key, rfl, rfl, by by_cases hh : key = k.home <;> simp [hh]⟩

lemma accounts_of_confirmed {act : Act} {w w' : World} (hact : deletes act = false)
    (h : confirmed k act w = some w') : Accounts k w w' := by
  obtain ⟨key, hk, hd, ha⟩ := confirmed_cases h
  refine ⟨[key], _, hk, ha, ?_, ?_⟩ <;> split_ifs with hh
  · simpa [hh] using List.countP_le_length needsHome
  · simp
  · simp [hact, hd]
  · simp [hd]

lemma accounts_of_remove {f : CString} {w w' : World} (hd : w.deletion = true)
    (h : (confirmed k (.remove f) w).map (fun w => { w with deletion := false }) = some w') :
    Accounts k w w' := by
  obtain ⟨w₁, h₁, rfl⟩ := Option.map_eq_some'.mp h
  obtain ⟨key, hk, -, ha⟩ := confirmed_cases h₁
  refine ⟨[key], _, hk, ha, ?_, ?_⟩ <;> split_ifs with hh <;> simp [hh, hd, needsHome, deletes]

lemma restoreMenu_accounts {file : Option CString} {partition : String} {w w' : World}
    (h : restoreMenu k file partition w = some w') : Accounts k w w' := by
  unfold restoreMenu at h
  rcases file with _ | f
  · cases h
    exact .refl w
  split_ifs at h with hd
  · exact accounts_of_remove hd h
  · exact accounts_of_confirmed (by rfl) h

lemma flashMenu_accounts {fs : Fs} {file : CString} {partition : String} {w w' : World}
    (h : flashMenu k fs file partition w = some w') : Accounts k w w' := by
  unfold flashMenu at h
  split_ifs at h
  · exact accounts_of_confirmed (by rfl) h
  · cases h
    exact .refl w

lemma fileOptionActionMenu_accounts {fs : Fs} {path file : CString} {w w' : World}
    (h : fileOptionActionMenu k fs path file w = some w') : Accounts k w w' := by
  unfold fileOptionActionMenu at h
  obtain ⟨a, -, h⟩ := Option.bind_eq_some.mp h
  cases a
  · exact accounts_of_confirmed (by rfl) h
  · exact restoreMenu_accounts h
  · exact flashMenu_accounts h
  · cases h
    exact .refl w

lemma deleteKey_reads {chosen : Int} {keys rest : List Int} {menu : Bool}
    (h : deleteKey k chosen keys = some (menu, rest)) : ∃ read, keys = read ++ rest := by
  unfold deleteKey at h
  split_ifs at h
  · rcases keys with _ | ⟨key, keys⟩
    · cases h
    · cases h
      exact ⟨[key], rfl⟩
  · cases h
    exact ⟨[], rfl⟩

lemma fileOptionsMenu_accounts {pathMax : Nat} {fs : Fs} {path file : CString} {w w' : World}
    (h : fileOptionsMenu k ui pathMax fs path file w = some w') : Accounts k w w' := by
  unfold fileOptionsMenu at h
  obtain ⟨label, -, h⟩ := Option.bind_eq_some.mp h
  obtain ⟨sel, hsel, h⟩ := Option.bind_eq_some.mp h
  obtain ⟨⟨menu, keys⟩, hdel, h⟩ := Option.bind_eq_some.mp h
  obtain ⟨r₁, hr₁, -⟩ := getMenuSelection_reads hsel
  obtain ⟨r₂, hr₂⟩ := deleteKey_reads hdel
  dsimp only at h
  generalize he : fileOptions k.back pathMax path file sel.chosen menu w.clip = r at h
  obtain ⟨effect, clip⟩ := r
  have h₁ : Accounts k w ⟨keys, false, clip, w.acts⟩ :=
    ⟨r₁ ++ r₂, [], by rw [hr₁, hr₂, List.append_assoc], by simp, by simp, by simp⟩
  cases effect
  case specific => exact h₁.trans (fileOptionActionMenu_accounts h)
  case system command verb =>
    exact absurd (congrArg Prod.fst he) (fileOptions_ne_system _ _ _ _ _ _ _ _ _)
  case uninitialised | overflow => cases h
  all_goals
    cases h
    exact h₁

variable {pathMax : Nat}

lemma browseTurn_accounts {fs : Fs} {b : Browser} {t : Turn}
    (h : browseTurn k ui pathMax fs b = some t) : Accounts k b.world t.world := by
  unfold browseTurn at h
  obtain ⟨c, hc, h⟩ := Option.bind_eq_some.mp h
  obtain ⟨read, hr, hd⟩ := chooseFileMenu_reads hc
  have h₁ : Accounts k b.world { b.world with deletion := c.deletion, keys := c.keys } :=
    accounts_of_read hr hd
  dsimp only at h
  rcases hf : c.file with _ | file <;> simp only [hf] at h
  · split_ifs at h
    · cases h
      exact h₁
    · obtain ⟨q, -, rfl⟩ := Option.map_eq_some'.mp h
      exact h₁
  · obtain ⟨_, -, h⟩ := Option.bind_eq_some.mp h
    split_ifs at h
    · cases h
      exact h₁
    · obtain ⟨_, -, h⟩ := Option.bind_eq_some.mp h
      obtain ⟨w₂, hw₂, h⟩ := Option.bind_eq_some.mp h
      cases h
      exact (h₁.trans (fileOptionsMenu_accounts hw₂)).clear

lemma browseFiles_accounts {fs : Fs} {fuel : Nat} {b : Browser} {w' : World}
    (h : browseFiles k ui pathMax fs fuel b = some w') : Accounts k b.world w' := by
  induction fuel generalizing b with
  | zero => cases h
  | succ fuel ih =>
    obtain ⟨t, ht, h⟩ := Option.bind_eq_some.mp h
    have h₁ := browseTurn_accounts ht
    cases t with
    | exit w =>
      cases h
      exact h₁
    | next b' => exact h₁.trans (ih h)

lemma accounts_of_system {w : World} {command : List UInt8} (hd : deletes (.system command) = false) :
    Accounts k w { w with acts := w.acts ++ [.system command] } :=
  ⟨[], [.system command], rfl, rfl, by simp [needsHome], by simp [hd]⟩

lemma restoreItem_accounts {fs : Fs} {pfx : CString} {partition : String} {w w' : World}
    (h : restoreItem k ui fs pfx partition w = some w') : Accounts k w w' := by
  unfold restoreItem at h
  obtain ⟨c, hc, h⟩ := Option.bind_eq_some.mp h
  obtain ⟨read, hr, hd⟩ := chooseFileMenu_reads hc
  exact (accounts_of_read hr hd).trans (restoreMenu_accounts h)

lemma partitionItem_accounts {fs : Fs} {chosen : Int} {w w' : World}
    (h : partitionItem k ui fs chosen w = some w') : Accounts k w w' := by
  unfold partitionItem at h
  rcases ite_eq_iff.mp h with ⟨-, h⟩ | ⟨-, h⟩
  · exact accounts_of_confirmed (by rfl) h
  iterate 3
    rcases ite_eq_iff.mp h with ⟨-, h⟩ | ⟨-, h⟩
    · exact restoreItem_accounts h
  iterate 3
    rcases ite_eq_iff.mp h with ⟨-, h⟩ | ⟨-, h⟩
    · exact flashMenu_accounts h
  cases h
  exact .refl _

lemma partitionLoop_accounts {fs : Fs} {fuel : Nat} {chosen : Int} {w w' : World}
    (h : partitionLoop k ui fs fuel chosen w = some w') : Accounts k w w' := by
  induction fuel generalizing chosen w with
  | zero => cases h
  | succ fuel ih =>
    unfold partitionLoop at h
    split_ifs at h
    · cases h
      exact .refl _
    obtain ⟨sel, hsel, h⟩ := Option.bind_eq_some.mp h
    obtain ⟨w₁, hw₁, h⟩ := Option.bind_eq_some.mp h
    obtain ⟨read, hr, hd⟩ := getMenuSelection_reads hsel
    exact ((accounts_of_read hr hd).trans (partitionItem_accounts hw₁)).trans (ih h)

lemma chooseUpdateFile_accounts {fs : Fs} {w w' : World}
    (h : chooseUpdateFile k ui fs w = some w') : Accounts k w w' := by
  unfold chooseUpdateFile at h
  split_ifs at h
  · cases h
    exact .refl w
  obtain ⟨c, hc, h⟩ := Option.bind_eq_some.mp h
  obtain ⟨read, hr, hd⟩ := chooseFileMenu_reads hc
  have h₁ : Accounts k w { w with deletion := c.deletion, keys := c.keys } := accounts_of_read hr hd
  dsimp only at h
  rcases hf : c.file with _ | file <;> simp only [hf] at h
  · cases h
    exact h₁
  obtain ⟨_, -, h⟩ := Option.bind_eq_some.mp h
  split_ifs at h with hs hdel
  · cases h
    exact h₁
  · exact h₁.trans (accounts_of_remove hdel h)
  · exact h₁.trans (accounts_of_confirmed (by rfl) h)

lemma rebootOptions_accounts {w w' : World} {reboot : Int}
    (h : rebootOptions k ui w = some (reboot, w')) : Accounts k w w' := by
  unfold rebootOptions at h
  obtain ⟨sel, hsel, h⟩ := Option.bind_eq_some.mp h
  obtain ⟨read, hr, hd⟩ := getMenuSelection_reads hsel
  have h₁ : Accounts k w { w with deletion := sel.deletion, keys := sel.keys } :=
    accounts_of_read hr hd
  dsimp only at h
  rcases ite_eq_iff.mp h with ⟨-, h⟩ | ⟨-, h⟩
  · cases h
    exact h₁
  rcases ite_eq_iff.mp h with ⟨-, h⟩ | ⟨-, h⟩
  · cases h
    exact h₁.trans (accounts_of_system (by decide))
  iterate 2
    rcases ite_eq_iff.mp h with ⟨-, h⟩ | ⟨-, h⟩
    · cases h
      exact h₁
  cases h

lemma promptLoop_rel {τ : Type} {fs : Fs} {initial : Int}
    {others : Int → World → τ → Option (World × τ)} {R : World × τ → World × τ → Prop}
    (hrefl : ∀ x, R x x) (htrans : ∀ {x y z}, R x y → R y z → R x z)
    (hworld : ∀ {w w'} t, Accounts k w w' → R (w, t) (w', t))
    (hothers : ∀ chosen w t w' t', others chosen w t = some (w', t') → R (w, t) (w', t'))
    {fuel : Nat} {w w' : World} {t t' : τ} {leave : Leave}
    (h : promptLoop k ui fs pathMax initial others fuel w t = some (leave, w', t')) :
    R (w, t) (w', t') := by
  induction fuel generalizing w t with
  | zero => cases h
  | succ fuel ih =>
    unfold promptLoop at h
    obtain ⟨sel, hsel, h⟩ := Option.bind_eq_some.mp h
    obtain ⟨read, hr, -⟩ := getMenuSelection_reads hsel
    have h₁ : R (w, t) ({ w with deletion := false, keys := sel.keys }, t) :=
      hworld t (accounts_of_read hr (by simp))
    dsimp only at h
    have next {w₂ : World} {t₂ : τ} (h₂ : R ({ w with deletion := false, keys := sel.keys }, t) (w₂, t₂))
        (h : promptLoop k ui fs pathMax initial others fuel w₂ t₂ = some (leave, w', t')) :
        R (w, t) (w', t') := htrans (htrans h₁ h₂) (ih h)
    have mapped {x : Option World}
        (hx : ∀ {w₂}, x = some w₂ → Accounts k { w with deletion := false, keys := sel.keys } w₂)
        (h : (x.map (·, t) >>= fun y => promptLoop k ui fs pathMax initial others fuel y.1 y.2) =
          some (leave, w', t')) : R (w, t) (w', t') := by
      obtain ⟨⟨w₂, t₂⟩, hw₂, h⟩ := Option.bind_eq_some.mp h
      obtain ⟨w₃, hw₃, he⟩ := Option.map_eq_some'.mp hw₂
      cases he
      exact next (hworld t (hx hw₃)) h
    rcases ite_eq_iff.mp h with ⟨-, h⟩ | ⟨-, h⟩
    · obtain ⟨⟨reboot, w₂⟩, hw₂, h⟩ := Option.bind_eq_some.mp h
      rcases ite_eq_iff.mp h with ⟨-, h⟩ | ⟨-, h⟩
      · cases h
        exact htrans h₁ (hworld _ (rebootOptions_accounts hw₂))
      · exact next (hworld t (rebootOptions_accounts hw₂)) h
    rcases ite_eq_iff.mp h with ⟨-, h⟩ | ⟨-, h⟩
    · cases h
      exact htrans h₁ (hworld _ (accounts_of_system (by decide)))
    rcases ite_eq_iff.mp h with ⟨-, h⟩ | ⟨-, h⟩
    · exact mapped chooseUpdateFile_accounts h
    rcases ite_eq_iff.mp h with ⟨-, h⟩ | ⟨-, h⟩
    · exact mapped partitionLoop_accounts h
    rcases ite_eq_iff.mp h with ⟨-, h⟩ | ⟨-, h⟩
    · exact mapped browseFiles_accounts h
    rcases ite_eq_iff.mp h with ⟨-, h⟩ | ⟨-, h⟩
    · obtain ⟨⟨w₂, t₂⟩, hw₂, h⟩ := Option.bind_eq_some.mp h
      exact next (hothers _ _ _ _ _ hw₂) h
    · obtain ⟨⟨w₂, t₂⟩, hw₂, h⟩ := Option.bind_eq_some.mp h
      cases hw₂
      exact next (hrefl _) h

lemma promptLoop_accounts {τ : Type} {fs : Fs} {initial : Int}
    {others : Int → World → τ → Option (World × τ)}
    (hothers : ∀ chosen w t w' t', others chosen w t = some (w', t') → Accounts k w w') {fuel : Nat}
    {w w' : World} {t t' : τ} {leave : Leave}
    (h : promptLoop k ui fs pathMax initial others fuel w t = some (leave, w', t')) :
    Accounts k w w' :=
  promptLoop_rel (R := fun x y => Accounts k x.1 y.1) (fun x => .refl x.1) (fun h₁ h₂ => h₁.trans h₂)
    (fun _ h => h) hothers h

theorem promptAndWait_accounts {fs : Fs} {initial : Int} {others : Int → World → Option World}
    (hothers : ∀ chosen w w', others chosen w = some w' → Accounts k w w') {fuel : Nat}
    {w w' : World} {leave : Leave}
    (h : promptAndWait k ui fs pathMax initial others fuel w = some (leave, w')) :
    Accounts k w w' := by
  obtain ⟨⟨leave, w', u⟩, hr, he⟩ := Option.map_eq_some'.mp h
  cases he
  refine promptLoop_accounts (fun chosen w _ w' _ e => ?_) hr
  obtain ⟨w₂, hw₂, he⟩ := Option.map_eq_some'.mp e
  cases he
  exact hothers _ _ _ hw₂

def updateZip : Entry := ⟨⟨ascii "update.zip", by decide⟩, false, by decide, by decide⟩

def zipFs : Fs := ⟨fun _ => some [updateZip], true, fun _ => false, true⟩

def deleteZipKeys : List Int :=
  [inputKeys.down, inputKeys.center, inputKeys.menu, inputKeys.home] ++
    List.replicate 7 inputKeys.down ++ [inputKeys.center]

theorem promptAndWait_accounts_deleteZip :
    promptAndWait inputKeys clampUi zipFs 4096 0 (fun _ => some) 4
        ⟨deleteZipKeys, false, ⟨[], 0⟩, []⟩ =
      some (.console, ⟨[], false, ⟨[], 0⟩,
        [.remove (zipDir.append updateZip.name), .system consoleCommand]⟩) ∧
    Accounts inputKeys ⟨deleteZipKeys, false, ⟨[], 0⟩, []⟩
      ⟨[], false, ⟨[], 0⟩, [.remove (zipDir.append updateZip.name), .system consoleCommand]⟩ :=
  have h : promptAndWait inputKeys clampUi zipFs 4096 0 (fun _ => some) 4
      ⟨deleteZipKeys, false, ⟨[], 0⟩, []⟩ = some (.console, ⟨[], false, ⟨[], 0⟩,
        [.remove (zipDir.append updateZip.name), .system consoleCommand]⟩) := by decide
  ⟨h, promptAndWait_accounts (fun _ _ _ e => Option.some.inj e ▸ .refl _) h⟩

end BootableRecovery.Accounting
